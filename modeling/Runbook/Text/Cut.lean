/-!
# Cutting texts

Texts are cut in three ways: at every occurrence of a separator character, at the first one, and
at a fixed head or tail. The list versions carry the meaning; the `String` versions convert at
the edges.
-/

set_option autoImplicit false

namespace Runbook.Text

/-- The pieces between the separators; a text without any is one piece. -/
def splitChars (sep : Char) : List Char → List (List Char)
  | [] => [[]]
  | c :: cs =>
      match splitChars sep cs with
      | [] => [[]]
      | p :: ps => if c = sep then [] :: p :: ps else (c :: p) :: ps

theorem splitChars_ne_nil (sep : Char) (cs : List Char) : splitChars sep cs ≠ [] := by
  cases cs with
  | nil => simp [splitChars]
  | cons c cs =>
    unfold splitChars
    split
    · simp
    · split <;> simp

/-- The pieces between the separators. -/
def split (sep : Char) (s : String) : List String :=
  (splitChars sep s.toList).map String.ofList

/-- What precedes and what follows the first separator, if there is one. -/
def cutChars? (sep : Char) : List Char → Option (List Char × List Char)
  | [] => none
  | c :: cs =>
      if c = sep then some ([], cs)
      else (cutChars? sep cs).map fun (a, b) => (c :: a, b)

/-- What precedes and what follows the first separator, if there is one. -/
def cut? (sep : Char) (s : String) : Option (String × String) :=
  (cutChars? sep s.toList).map fun (a, b) => (String.ofList a, String.ofList b)

/-- The first cut gives the text back around its separator. -/
theorem cutChars?_eq_some {sep : Char} {cs a b : List Char} (h : cutChars? sep cs = some (a, b)) :
    cs = a ++ sep :: b ∧ sep ∉ a := by
  induction cs generalizing a b with
  | nil => simp [cutChars?] at h
  | cons c cs ih =>
    unfold cutChars? at h
    split at h
    · rename_i hc
      simp only [Option.some.injEq, Prod.mk.injEq] at h
      obtain ⟨rfl, rfl⟩ := h
      exact ⟨by simp [hc], by simp⟩
    · rename_i hc
      simp only [Option.map_eq_some_iff, Prod.mk.injEq, Prod.exists] at h
      obtain ⟨a', b', hab, rfl, rfl⟩ := h
      obtain ⟨e, hn⟩ := ih hab
      exact ⟨by simp [e], by simp [hn, Ne.symm hc]⟩

/-- What follows the given head, if the text starts with it. -/
def afterChars? : (head cs : List Char) → Option (List Char)
  | [], cs => some cs
  | _ :: _, [] => none
  | h :: hs, c :: cs => if h = c then afterChars? hs cs else none

theorem afterChars?_eq_some {head cs rest : List Char} (h : afterChars? head cs = some rest) :
    cs = head ++ rest := by
  induction head generalizing cs with
  | nil => simpa [afterChars?] using h
  | cons x xs ih =>
    cases cs with
    | nil => simp [afterChars?] at h
    | cons c cs =>
      unfold afterChars? at h
      split at h
      · rename_i hc
        simp [hc, ih h]
      · simp at h

/-- What follows the given head, if the text starts with it. -/
def after? (head s : String) : Option String :=
  (afterChars? head.toList s.toList).map String.ofList

/-- What precedes the given tail, if the text ends with it. -/
def before? (tail s : String) : Option String :=
  (afterChars? tail.toList.reverse s.toList.reverse).map fun cs => String.ofList cs.reverse

/-- The text starts with the given head. -/
def startsWith (head s : String) : Bool := (after? head s).isSome

/-- The text ends with the given tail. -/
def endsWith (tail s : String) : Bool := (before? tail s).isSome

/-- The pattern occurs in the text. -/
def containsChars (pat : List Char) : List Char → Bool
  | [] => pat.isEmpty
  | c :: cs => (afterChars? pat (c :: cs)).isSome || containsChars pat cs

/-- The pattern occurs in the text. -/
def contains (pat s : String) : Bool := containsChars pat.toList s.toList

/-- What precedes the first occurrence of the pattern, if there is one. -/
def cutAtChars? (pat : List Char) : List Char → Option (List Char)
  | [] => if pat.isEmpty then some [] else none
  | c :: cs =>
      if (afterChars? pat (c :: cs)).isSome then some []
      else (cutAtChars? pat cs).map (c :: ·)

/-- What precedes the first occurrence of the pattern, if there is one. -/
def cutAt? (pat s : String) : Option String := (cutAtChars? pat.toList s.toList).map String.ofList

/-- Without the given heads, however often they are repeated in front. -/
def dropHeads (head cs : List Char) : List Char :=
  match head with
  | [] => cs
  | x :: xs =>
    match _h : afterChars? (x :: xs) cs with
    | none => cs
    | some rest => dropHeads (x :: xs) rest
termination_by cs.length
decreasing_by
  rw [afterChars?_eq_some _h, List.length_append, List.length_cons]
  omega

/-- The texts with a separator between neighbours. -/
def join (sep : String) (parts : List String) : String := String.intercalate sep parts

end Runbook.Text
