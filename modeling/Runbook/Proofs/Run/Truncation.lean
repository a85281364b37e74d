import Mathlib.Data.List.Infix
import Runbook.Run.Context

/-!
# Where an output is cut

The search for the cut begins at the limit and goes back byte by byte, while it stands inside a
character (`StepsBack`). It ends, since the place in front of a text is never inside one, and at the
last boundary that the limit allows (`StepsBack.last`). So what is kept is the longest beginning of
the text, in whole characters, that has no more bytes than the limit (`LongestWithin`); as a
character has at most four bytes, at most three are given away.
-/

set_option autoImplicit false

namespace Runbook.Text

open String.Pos.Raw

/-! ## 1. The search -/

/-- The search from one place comes to another: it is over where a character begins or the text
ends, and goes one byte back from any other place. From the very front it cannot go back. -/
inductive StepsBack (s : String) : (start place : Nat) → Prop where
  | stay {place : Nat} (here : IsValid s ⟨place⟩) : StepsBack s place place
  | back {start place : Nat} (inside : ¬ IsValid s ⟨start + 1⟩) (rest : StepsBack s start place) :
      StepsBack s (start + 1) place

variable {s : String} {start place : Nat}

/-- The search comes to its end. -/
theorem stepsBack_boundaryUpTo (s : String) (start : Nat) :
    StepsBack s start (boundaryUpTo s start).offset.byteIdx := by
  induction start with
  | zero => exact .stay isValid_zero
  | succ start ih =>
    rw [boundaryUpTo]
    split
    · next here => exact .stay here
    · next inside => exact .back inside ih

/-- There is no choice on the way. -/
theorem StepsBack.unique {place' : Nat} (h : StepsBack s start place)
    (h' : StepsBack s start place') : place = place' := by
  induction h with
  | stay here =>
    cases h' with
    | stay => rfl
    | back inside => exact absurd here inside
  | back inside _ ih =>
    cases h' with
    | stay here => exact absurd here inside
    | back _ rest => exact ih rest

theorem StepsBack.le (h : StepsBack s start place) : place ≤ start := by
  induction h with
  | stay => exact Nat.le_refl _
  | back _ _ ih => exact Nat.le_succ_of_le ih

/-- No boundary is passed over. -/
theorem StepsBack.last (h : StepsBack s start place) {other : Nat} (boundary : IsValid s ⟨other⟩)
    (within : other ≤ start) : other ≤ place := by
  induction h with
  | stay => exact within
  | @back start place inside rest ih =>
    have ne : other ≠ start + 1 := by
      rintro rfl
      exact inside boundary
    exact ih (Nat.le_of_lt_succ (Nat.lt_of_le_of_ne within ne))

/-! ## 2. Beginnings of a text -/

/-- A text ends at a boundary of each text that begins with it. -/
theorem isValid_of_beginning {front : String} (h : front.toList <+: s.toList) :
    IsValid s ⟨front.utf8ByteSize⟩ := by
  obtain ⟨rest, whole⟩ := h
  refine isValid_iff_exists_append.mpr ⟨front, String.ofList rest, ?_, rfl⟩
  apply String.toList_injective
  rw [String.toList_append, String.toList_ofList, whole]

theorem size_le_of_beginning {front : String} (h : front.toList <+: s.toList) :
    front.utf8ByteSize ≤ s.utf8ByteSize := (isValid_of_beginning h).le_utf8ByteSize

/-- Of two beginnings of a text, the one with fewer bytes begins the other. -/
theorem beginning_of_size_le {front other : String} (h : front.toList <+: s.toList)
    (h' : other.toList <+: s.toList) (le : other.utf8ByteSize ≤ front.utf8ByteSize) :
    other.toList <+: front.toList := by
  rcases List.prefix_or_prefix_of_prefix h' h with shorter | ⟨rest, longer⟩
  · exact shorter
  · have joined : other = front ++ String.ofList rest := by
      apply String.toList_injective
      rw [String.toList_append, String.toList_ofList, longer]
    have none : (String.ofList rest).utf8ByteSize = 0 := by
      rw [joined, String.utf8ByteSize_append] at le
      omega
    rw [joined, String.utf8ByteSize_eq_zero_iff.mp none, String.append_empty]

/-- The longest beginning of a text, in whole characters, that has at most so many bytes. -/
structure LongestWithin (max : Nat) (s front : String) : Prop where
  whole : front.toList <+: s.toList
  fits : front.utf8ByteSize ≤ max
  longest : ∀ other : String, other.toList <+: s.toList → other.utf8ByteSize ≤ max →
    other.toList <+: front.toList

/-- The next character would not fit, and has at most four bytes. -/
theorem LongestWithin.close {max : Nat} {front : String} (h : LongestWithin max s front)
    (long : max < s.utf8ByteSize) : max ≤ front.utf8ByteSize + 3 := by
  obtain ⟨rest, whole⟩ := h.whole
  cases rest with
  | nil =>
    have same : front = s := String.toList_injective (by rw [← whole, List.append_nil])
    have fits := h.fits
    rw [same] at fits
    exact absurd long (Nat.not_lt_of_le fits)
  | cons c rest =>
    have next : (front.push c).toList <+: s.toList :=
      ⟨rest, by rw [String.toList_push, ← whole, List.append_assoc, List.singleton_append]⟩
    have size : (front.push c).utf8ByteSize = front.utf8ByteSize + c.utf8Size :=
      String.utf8ByteSize_push
    have tooLong : max < (front.push c).utf8ByteSize := by
      by_contra fits
      have shorter := size_le_of_beginning (h.longest _ next (Nat.le_of_not_lt fits))
      have some := c.utf8Size_pos
      omega
    have four := c.utf8Size_le_four
    omega

/-! ## 3. The cut -/

theorem size_sliceTo (cut : s.Pos) : (s.sliceTo cut).copy.utf8ByteSize = cut.offset.byteIdx := by
  rw [String.Slice.utf8ByteSize_copy, String.utf8ByteSize_sliceTo]

/-- What stands in front of the boundary that is found is the longest beginning within the limit. -/
theorem longestWithin_boundaryUpTo (max : Nat) (s : String) :
    LongestWithin max s (s.sliceTo (boundaryUpTo s max)).copy := by
  have search := stepsBack_boundaryUpTo s max
  have size := size_sliceTo (boundaryUpTo s max)
  have whole : (s.sliceTo (boundaryUpTo s max)).copy.toList <+: s.toList :=
    ⟨(s.sliceFrom (boundaryUpTo s max)).copy.toList, by
      rw [← String.toList_append, String.sliceTo_append_sliceFrom]⟩
  refine ⟨whole, size ▸ search.le, fun other beginning fits => ?_⟩
  exact beginning_of_size_le whole beginning
    (size ▸ search.last (isValid_of_beginning beginning) fits)

/-- **A text is cut behind its longest beginning within the limit**, and only if it is longer than
that. The search for this place comes to one end, and the note accounts for all that is left out. -/
theorem truncated_at_last_boundary (max : Nat) (s : String) :
    s.utf8ByteSize ≤ max ∧ truncated max s = s ∨
      max < s.utf8ByteSize ∧ ∃ front dropped,
        LongestWithin max s front ∧ max ≤ front.utf8ByteSize + 3 ∧
        (∀ place, StepsBack s max place ↔ place = front.utf8ByteSize) ∧
        dropped + front.utf8ByteSize = s.utf8ByteSize ∧
        truncated max s = front ++ "\n[truncated " ++ toString dropped ++ " bytes]" := by
  rw [truncated]
  split
  · next short => exact .inl ⟨short, rfl⟩
  · next long =>
    rw [Nat.not_le] at long
    have front := longestWithin_boundaryUpTo max s
    have size := size_sliceTo (boundaryUpTo s max)
    have search := size ▸ stepsBack_boundaryUpTo s max
    refine .inr ⟨long, _, _, front, front.close long, fun place => ⟨fun h => h.unique search, ?_⟩,
      ?_, rfl⟩
    · rintro rfl
      exact search
    · rw [size]
      exact Nat.sub_add_cancel (size ▸ size_le_of_beginning front.whole)

/-- Two bytes end inside the second character. -/
example : truncated 2 "héllo" = "h\n[truncated 5 bytes]" := by decide +kernel

end Runbook.Text
