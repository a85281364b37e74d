/-!
# Blank characters and trimming

Blank means the Unicode property White_Space: twenty-five characters in ten ranges, more than the
four that core's `Char.isWhitespace` knows. Names, placeholders and memory needs are all trimmed
by this one notion.

Trimming is defined on lists of characters, where it is two `dropWhile`s, and lifted to `String`.
-/

set_option autoImplicit false

namespace Runbook

/-- Closed ranges of code points with the property White_Space, ascending and apart. -/
def blankRanges : List (Nat × Nat) :=
  [(0x09, 0x0D), (0x20, 0x20), (0x85, 0x85), (0xA0, 0xA0), (0x1680, 0x1680), (0x2000, 0x200A),
   (0x2028, 0x2029), (0x202F, 0x202F), (0x205F, 0x205F), (0x3000, 0x3000)]

/-- Has the property White_Space. -/
def isBlank (c : Char) : Bool :=
  blankRanges.any fun r => r.1 ≤ c.toNat && c.toNat ≤ r.2

/-- The table extends core's notion and takes nothing away. -/
theorem isBlank_of_isWhitespace {c : Char} (h : c.isWhitespace = true) : isBlank c = true := by
  simp [Char.isWhitespace] at h
  rcases h with ((h | h) | h) | h <;> subst h <;> decide

namespace Text

/-- Without the blanks in front. -/
def dropBlanks (cs : List Char) : List Char := cs.dropWhile isBlank

/-- Without the blanks at the end. -/
def dropBlanksEnd (cs : List Char) : List Char := (cs.reverse.dropWhile isBlank).reverse

/-- Without the blanks at either end. -/
def trimChars (cs : List Char) : List Char := dropBlanksEnd (dropBlanks cs)

/-- Without the blanks at either end. -/
def trim (s : String) : String := String.ofList (trimChars s.toList)

/-- Holds nothing but blanks. -/
def allBlank (s : String) : Bool := s.toList.all isBlank

theorem dropWhile_of_solid {cs : List Char} (h : ∀ c ∈ cs, isBlank c = false) :
    cs.dropWhile isBlank = cs := by
  cases cs with
  | nil => rfl
  | cons c cs =>
    rw [List.dropWhile_cons_of_neg]
    rw [h c List.mem_cons_self]
    exact Bool.false_ne_true

/-- A text without blanks is trimmed already. -/
theorem trim_of_solid {s : String} (h : ∀ c ∈ s.toList, isBlank c = false) : trim s = s := by
  have back : ∀ c ∈ s.toList.reverse, isBlank c = false := fun c hc => h c (List.mem_reverse.mp hc)
  rw [trim, trimChars, dropBlanks, dropWhile_of_solid h, dropBlanksEnd, dropWhile_of_solid back,
    List.reverse_reverse, String.ofList_toList]

/-- A text without blanks is blank only if it is empty. -/
theorem allBlank_of_solid {s : String} (h : ∀ c ∈ s.toList, isBlank c = false) (some : s ≠ "") :
    allBlank s = false := by
  rw [allBlank, List.all_eq_false]
  obtain ⟨c, cs, hs⟩ := List.exists_cons_of_ne_nil (mt String.toList_eq_nil_iff.mp some)
  refine ⟨c, by rw [hs]; exact List.mem_cons_self, ?_⟩
  rw [h c (by rw [hs]; exact List.mem_cons_self)]
  exact Bool.false_ne_true

end Text
end Runbook
