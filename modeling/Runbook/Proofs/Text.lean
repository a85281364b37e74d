import Mathlib.Data.List.DropRight
import Runbook.Text.Blank
import Runbook.Text.Cut

/-!
# Texts that are put together

A text that was put together is taken apart again: at its first separator, behind a given head, in
front of a given tail, and between the blanks around it.

Trimming forgets just these blanks (`trimChars_surrounded`). Texts that neither begin nor end with a
blank are the ones that are trimmed already (`trimChars_of_ends`), and in such a text the part in
front of a cut has blanks behind it only (`blanks_behind`).
-/

set_option autoImplicit false

namespace Runbook.Text

/-! ## 1. Cuts -/

theorem cutChars?_append {sep : Char} {a : List Char} (h : sep ∉ a) (b : List Char) :
    cutChars? sep (a ++ sep :: b) = some (a, b) := by
  induction a with
  | nil => simp [cutChars?]
  | cons c a ih =>
    rw [List.mem_cons, not_or] at h
    rw [List.cons_append, cutChars?, if_neg (Ne.symm h.1), ih h.2]
    rfl

theorem cut?_eq_some {sep : Char} {s a b : String} (h : cut? sep s = some (a, b)) :
    s.toList = a.toList ++ sep :: b.toList := by
  obtain ⟨⟨front, back⟩, found, parts⟩ := Option.map_eq_some_iff.mp h
  cases parts
  rw [(cutChars?_eq_some found).1, String.toList_ofList, String.toList_ofList]

theorem afterChars?_append (head rest : List Char) :
    afterChars? head (head ++ rest) = some rest := by
  induction head with
  | nil => rfl
  | cons x xs ih => rw [List.cons_append, afterChars?, if_pos rfl, ih]

theorem startsWith_iff {head s : String} : startsWith head s = true ↔ ∃ rest, s = head ++ rest := by
  constructor
  · intro h
    obtain ⟨rest, hrest⟩ := Option.isSome_iff_exists.mp h
    obtain ⟨cs, hcs, rfl⟩ := Option.map_eq_some_iff.mp hrest
    refine ⟨String.ofList cs, String.toList_injective ?_⟩
    rw [afterChars?_eq_some hcs]
    simp
  · rintro ⟨rest, rfl⟩
    rw [startsWith, after?, String.toList_append, afterChars?_append]
    rfl

theorem before?_append (s tail : String) : before? tail (s ++ tail) = some s := by
  rw [before?, String.toList_append, List.reverse_append, afterChars?_append]
  simp

theorem before?_eq_some {s tail front : String} (h : before? tail s = some front) :
    s = front ++ tail := by
  obtain ⟨cs, hcs, rfl⟩ := Option.map_eq_some_iff.mp h
  have whole := congrArg List.reverse (afterChars?_eq_some hcs)
  apply String.toList_injective
  simpa using whole

theorem endsWith_append (s tail : String) : endsWith tail (s ++ tail) = true := by
  rw [endsWith, before?_append]
  rfl

/-! ## 2. Trimming -/

theorem dropBlanks_cons {c : Char} (h : isBlank c = false) (cs : List Char) :
    dropBlanks (c :: cs) = c :: cs := by
  rw [dropBlanks, List.dropWhile_cons_of_neg]
  rw [h]
  exact Bool.false_ne_true

theorem dropBlanksEnd_eq (cs : List Char) : dropBlanksEnd cs = cs.rdropWhile isBlank := rfl

theorem trimChars_trimChars (cs : List Char) : trimChars (trimChars cs) = trimChars cs := by
  have front : dropBlanks (trimChars cs) = trimChars cs := by
    refine List.dropWhile_eq_self_iff.mpr fun some => ?_
    -- what is left begins with the first character that was not dropped
    have start : trimChars cs <+: dropBlanks cs := List.rdropWhile_prefix _ _
    rw [start.getElem some]
    exact List.dropWhile_eq_self_iff.mp (List.dropWhile_idempotent _ cs) _
  rw [trimChars, front, trimChars, dropBlanksEnd_eq, dropBlanksEnd_eq, List.rdropWhile_idempotent]

theorem trim_trim (s : String) : trim (trim s) = trim s := by
  rw [trim, trim, String.toList_ofList, trimChars_trimChars]

theorem mem_of_mem_trim {c : Char} {s : String} (h : c ∈ (trim s).toList) : c ∈ s.toList := by
  rw [trim, String.toList_ofList, trimChars, dropBlanksEnd_eq] at h
  exact (List.dropWhile_suffix _).subset ((List.rdropWhile_prefix _ _).subset h)

theorem blanks_around (cs : List Char) :
    ∃ before after,
      cs = before ++ trimChars cs ++ after ∧ before.all isBlank ∧ after.all isBlank := by
  refine ⟨cs.takeWhile isBlank, (dropBlanks cs).rtakeWhile isBlank, ?_, ?_, ?_⟩
  · rw [trimChars, dropBlanksEnd_eq, List.append_assoc, List.rdropWhile_append_rtakeWhile]
    exact List.takeWhile_append_dropWhile.symm
  · exact List.all_takeWhile
  · exact List.all_eq_true.mpr fun c hc => List.mem_rtakeWhile_imp hc

/-- Something is left of a text exactly if it is not blank. -/
theorem trimChars_eq_nil_iff {cs : List Char} : trimChars cs = [] ↔ cs.all isBlank = true := by
  constructor
  · intro none
    obtain ⟨before, after, whole, blankBefore, blankAfter⟩ := blanks_around cs
    rw [whole, none]
    simp [blankBefore, blankAfter]
  · intro blank
    have dropped : dropBlanks cs = [] := List.dropWhile_eq_nil_iff.mpr (List.all_eq_true.mp blank)
    rw [trimChars, dropped]
    rfl

/-- Blanks around a text do not matter. -/
theorem trimChars_surrounded {before after : List Char} (blankBefore : before.all isBlank = true)
    (blankAfter : after.all isBlank = true) (cs : List Char) :
    trimChars (before ++ cs ++ after) = trimChars cs := by
  rw [List.all_eq_true] at blankBefore blankAfter
  rw [trimChars, trimChars, List.append_assoc, dropBlanks, dropBlanks,
    List.dropWhile_append_of_pos blankBefore, List.dropWhile_append]
  split
  · next none =>
    rw [List.isEmpty_iff.mp none, List.dropWhile_eq_nil_iff.mpr blankAfter]
  · rw [dropBlanksEnd, dropBlanksEnd, List.reverse_append,
      List.dropWhile_append_of_pos fun c hc => blankAfter c (List.mem_reverse.mp hc)]

/-- A text that is trimmed already has no blanks in front. -/
theorem nil_of_trimmed_append {before cs : List Char} (blank : before.all isBlank = true)
    (trimmed : trimChars (before ++ cs) = before ++ cs) : before = [] := by
  have same : trimChars cs = before ++ cs := by
    have none : ([] : List Char).all isBlank = true := List.all_nil
    have forgotten := trimChars_surrounded blank none cs
    rwa [List.append_nil, trimmed, eq_comm] at forgotten
  obtain ⟨front, back, whole, -, -⟩ := blanks_around cs
  have longer : cs.length = front.length + (before.length + cs.length) + back.length := by
    rw [← List.length_append, ← same, ← List.length_append, ← List.length_append, ← whole]
  exact List.length_eq_zero_iff.mp (by omega)

/-- So the first part of such a text has blanks behind it only. -/
theorem blanks_behind {head tail : String} (trimmed : trim (head ++ tail) = head ++ tail) :
    ∃ blanks, head = trim head ++ blanks ∧ allBlank blanks = true := by
  obtain ⟨before, after, whole, blankBefore, blankAfter⟩ := blanks_around head.toList
  have chars := congrArg String.toList trimmed
  rw [trim, String.toList_ofList, String.toList_append, whole, List.append_assoc,
    List.append_assoc] at chars
  rw [nil_of_trimmed_append blankBefore chars, List.nil_append] at whole
  refine ⟨String.ofList after, String.toList_injective ?_, ?_⟩
  · rw [String.toList_append, trim, String.toList_ofList, String.toList_ofList]
    exact whole
  · rwa [allBlank, String.toList_ofList]

/-- A text that neither begins nor ends with a blank is trimmed already. -/
theorem trimChars_of_ends {cs : List Char} (first : ∀ a ∈ cs.head?, isBlank a = false)
    (last : ∀ z ∈ cs.getLast?, isBlank z = false) : trimChars cs = cs := by
  have kept : ∀ cs : List Char, (∀ a ∈ cs.head?, isBlank a = false) → dropBlanks cs = cs := by
    intro cs first
    cases cs with
    | nil => rfl
    | cons a cs => exact dropBlanks_cons (first a rfl) cs
  have keptEnd := kept cs.reverse (by rwa [List.head?_reverse])
  rw [trimChars, kept cs first, dropBlanksEnd, ← dropBlanks, keptEnd, List.reverse_reverse]

end Runbook.Text
