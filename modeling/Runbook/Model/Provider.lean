import Runbook.Text.Blank

/-!
# Model providers

The five providers of language models, their names, and the names of the secrets that hold their
keys. A provider's name is read without regard to ASCII case and surrounding blanks; two have a
second name.
-/

set_option autoImplicit false

namespace Runbook

inductive Provider where
  | anthropic
  | openai
  | gemini
  | deepseek
  | mistral
  deriving DecidableEq, Repr, Inhabited

namespace Provider

/-- All providers, in the order in which they are listed. -/
def all : List Provider := [.anthropic, .openai, .gemini, .deepseek, .mistral]

def name : Provider → String
  | .anthropic => "anthropic"
  | .openai => "openai"
  | .gemini => "gemini"
  | .deepseek => "deepseek"
  | .mistral => "mistral"

/-- The name of the secret that holds the provider's key. -/
def keyName : Provider → String
  | .anthropic => "ANTHROPIC_API_KEY"
  | .openai => "OPENAI_API_KEY"
  | .gemini => "GEMINI_API_KEY"
  | .deepseek => "DEEPSEEK_API_KEY"
  | .mistral => "MISTRAL_API_KEY"

/-- An ASCII capital letter as a small one. -/
def lowerChar (c : Char) : Char :=
  if 'A' ≤ c ∧ c ≤ 'Z' then Char.ofNat (c.toNat + 32) else c

/-- Trimmed, with ASCII letters in lower case. -/
def normalName (s : String) : String :=
  String.ofList ((Text.trimChars s.toList).map lowerChar)

/-- The provider of a name in normal form. -/
def ofName? : String → Option Provider
  | "anthropic" | "claude" => some .anthropic
  | "openai" => some .openai
  | "gemini" | "google" => some .gemini
  | "deepseek" => some .deepseek
  | "mistral" => some .mistral
  | _ => none

end Provider
end Runbook
