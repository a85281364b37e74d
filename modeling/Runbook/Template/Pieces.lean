import Runbook.Text.Blank

/-!
# Splitting a template

A template is literal text with placeholders `{{ path }}` in it. A placeholder reaches from two
opening braces to the first two closing braces after them. If what stands between is blank or has
a closing brace in it, the opening braces are literal text and the search goes on behind them; if
there are no closing braces, all the rest is literal.
-/

set_option autoImplicit false

namespace Runbook.Template

/-- A literal stretch of text, or the trimmed path of a placeholder. -/
inductive Piece where
  | text (s : String)
  | hole (path : String)
  deriving DecidableEq, Repr

/-- What precedes and what follows the first two neighbouring occurrences of a character. -/
def cutPair? (c : Char) : List Char → Option (List Char × List Char)
  | a :: b :: rest =>
      if a = c ∧ b = c then some ([], rest)
      else (cutPair? c (b :: rest)).map fun (l, r) => (a :: l, r)
  | _ => none

/-- A cut at a pair loses only the pair. -/
theorem cutPair?_eq_some {c : Char} {cs l r : List Char} (h : cutPair? c cs = some (l, r)) :
    cs = l ++ c :: c :: r := by
  induction cs generalizing l r with
  | nil => simp [cutPair?] at h
  | cons a cs ih =>
    cases cs with
    | nil => simp [cutPair?] at h
    | cons b cs =>
      unfold cutPair? at h
      split at h
      · rename_i hc
        simp only [Option.some.injEq, Prod.mk.injEq] at h
        obtain ⟨rfl, rfl⟩ := h
        simp [hc.1, hc.2]
      · simp only [Option.map_eq_some_iff, Prod.mk.injEq, Prod.exists] at h
        obtain ⟨l', r', hlr, rfl, rfl⟩ := h
        have := ih hlr
        simp [this]

/-- What stands between the braces does not make a placeholder. -/
def isPlain (inner : List Char) : Bool := inner.contains '}' || inner.all isBlank

/-- The literal text, unless there is none. -/
def stretch (cs : List Char) : List Piece := if cs.isEmpty then [] else [.text (String.ofList cs)]

/-- The pieces of a template, left to right. -/
def piecesOf (cs : List Char) : List Piece :=
  match _first : cutPair? '{' cs with
  | none => stretch cs
  | some (before, after) =>
      match _second : cutPair? '}' after with
      | none => stretch cs
      | some (inner, rest) =>
          if isPlain inner then .text (String.ofList (before ++ ['{', '{'])) :: piecesOf after
          else stretch before ++ .hole (String.ofList (Text.trimChars inner)) :: piecesOf rest
termination_by cs.length
decreasing_by
  · have := cutPair?_eq_some _first
    subst this
    simp
    omega
  · have h1 := cutPair?_eq_some _first
    have h2 := cutPair?_eq_some _second
    subst h1 h2
    simp
    omega

/-- The pieces of a template, left to right. -/
def pieces (template : String) : List Piece := piecesOf template.toList

/-- The path of a placeholder. -/
def Piece.path? : Piece → Option String
  | .text _ => none
  | .hole path => some path

/-- The paths of all placeholders, in order of appearance. -/
def placeholders (template : String) : List String := (pieces template).filterMap Piece.path?

end Runbook.Template
