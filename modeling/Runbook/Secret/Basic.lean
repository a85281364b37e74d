import Runbook.Json.Basic

/-!
# Secrets

A secret is a text under a name. Keepers of secrets differ in where they keep them and in what
they allow: the environment can only be read, a vault can be written too, and each can fail. An
entry says where a secret is kept, never what it is.
-/

set_option autoImplicit false

namespace Runbook

inductive SecretError where
  | notFound
  | unavailable
  | readOnly
  | encryption
  | decryption
  | io (message : String)
  | format (message : String)
  deriving DecidableEq, Repr, Inhabited

namespace SecretError

def message : SecretError → String
  | .notFound => "secret not found"
  | .unavailable => "secret provider unavailable"
  | .readOnly => "provider is read-only"
  | .encryption => "encryption error"
  | .decryption => "decryption error"
  | .io m => s!"vault I/O error: {m}"
  | .format m => s!"vault format error: {m}"

end SecretError

/-- Where a secret is kept. -/
inductive SecretSource where
  | vault
  | environment
  deriving DecidableEq, Repr, Inhabited

def SecretSource.display : SecretSource → String
  | .vault => "vault"
  | .environment => "environment"

structure SecretEntry where
  key : String
  source : SecretSource
  deriving DecidableEq, Repr, Inhabited

def SecretEntry.encode (e : SecretEntry) : Json :=
  .obj [("key", .str e.key), ("source", .str e.source.display)]

namespace Secret

/-- A hint at a secret: its last four characters if there are more than four. -/
def masked (value : String) : String :=
  let cs := value.toList
  if cs.length ≤ 4 then "****" else "****" ++ String.ofList (cs.drop (cs.length - 4))

end Secret

/-- A kind of keeper of secrets; `σ` is what such a keeper is at a moment. -/
class SecretKeeper (σ : Type) where
  name : σ → String
  get (key : String) : σ → Except SecretError (Option String)
  set (key value : String) : σ → Except SecretError Unit × σ
  delete (key : String) : σ → Except SecretError Unit × σ
  list : σ → Except SecretError (List SecretEntry)

end Runbook
