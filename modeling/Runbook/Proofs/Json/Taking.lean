import Mathlib.Data.List.Nodup
import Mathlib.Data.List.Perm.Subperm
import Runbook.Json.Fields

/-!
# Taking a name out of a table

The last entry of the table moves into the place of the one that is taken out. So all other entries
stay, with their values, though not always in their order: those in front of the hole do, and the
last one of those behind it comes first (`take_split`).
-/

set_option autoImplicit false

namespace Runbook

namespace Fields

variable {α : Type}

/-- The last one comes first. -/
def bringUp (l : List α) : List α :=
  match l.getLast? with
  | none => []
  | some last => last :: l.dropLast

@[simp] theorem bringUp_nil : bringUp ([] : List α) = [] := rfl

@[simp] theorem bringUp_concat (l : List α) (x : α) : bringUp (l ++ [x]) = x :: l := by
  simp [bringUp]

theorem bringUp_perm (l : List α) : (bringUp l).Perm l := by
  rcases List.eq_nil_or_concat l with rfl | ⟨front, last, rfl⟩
  · rfl
  · rw [List.concat_eq_append, bringUp_concat]
    exact (List.perm_append_singleton last front).symm

/-- Of different ones, they stay in order if there is at most one. -/
theorem bringUp_eq_self_iff {l : List α} (distinct : l.Nodup) : bringUp l = l ↔ l.length ≤ 1 := by
  rcases List.eq_nil_or_concat l with rfl | ⟨front, last, rfl⟩
  · simp
  · rw [List.concat_eq_append] at distinct ⊢
    rw [bringUp_concat]
    cases front with
    | nil => simp
    | cons first front =>
      refine iff_of_false (fun same => ?_) (by simp)
      have fresh := (List.nodup_cons.mp distinct).1
      rw [← (List.cons.inj same).1] at fresh
      exact fresh (by simp)

theorem findIdx?_of_not_mem {name : String} {fs : Fields α} (h : name ∉ fs.names) :
    fs.findIdx? (·.1 = name) = none := by
  rw [List.findIdx?_eq_none_iff]
  intro e he
  simp only [decide_eq_false_iff_not]
  rintro rfl
  exact h (List.mem_map_of_mem he)

theorem take_of_not_mem {name : String} {fs : Fields α} (h : name ∉ fs.names) :
    take name fs = fs := by
  rw [take, findIdx?_of_not_mem h]

/-- The last entry moves into the hole. -/
theorem take_split {name : String} {front back : Fields α} (v : α) (h : name ∉ front.names) :
    take name (front ++ (name, v) :: back) = front ++ bringUp back := by
  have place : (front ++ (name, v) :: back).findIdx? (·.1 = name) = some front.length := by
    rw [List.findIdx?_append, findIdx?_of_not_mem h]
    simp [List.findIdx?_cons]
  rcases List.eq_nil_or_concat back with rfl | ⟨middle, last, rfl⟩
  · rw [take, place, List.getLast?_append]
    simp
  · rw [List.concat_eq_append] at place ⊢
    rw [bringUp_concat, take, place, ← List.cons_append, ← List.append_assoc, List.getLast?_concat]
    dsimp only
    rw [if_neg (by simp), List.dropLast_concat]
    simp

theorem exists_split {name : String} {fs : Fields α} (h : name ∈ fs.names) :
    ∃ front v back, fs = front ++ (name, v) :: back ∧ name ∉ Fields.names front := by
  induction fs with
  | nil => simp [names] at h
  | cons e fs ih =>
    by_cases same : e.1 = name
    · exact ⟨[], e.2, fs, by rw [← same]; rfl, by simp [names]⟩
    · have later : name ∈ names fs :=
        (List.mem_cons.mp h).resolve_left fun first => same first.symm
      obtain ⟨front, v, back, rfl, outside⟩ := ih later
      exact ⟨e :: front, v, back, rfl, fun h =>
        (List.mem_cons.mp h).elim (fun first => same first.symm) outside⟩

theorem get?_split {name : String} {front back : Fields α} (v : α) (h : name ∉ front.names) :
    get? name (front ++ (name, v) :: back) = some v := by
  induction front with
  | nil => simp [get?]
  | cons e front ih =>
    simp only [names, List.map_cons, List.mem_cons, not_or] at h
    rw [List.cons_append, get?_cons, if_neg (Ne.symm h.1)]
    exact ih h.2

/-- The other entries stay. -/
theorem take_perm {name : String} {fs : Fields α} (distinct : fs.names.Nodup) :
    (take name fs).Perm (fs.filter (·.1 ≠ name)) := by
  by_cases h : name ∈ fs.names
  · obtain ⟨front, v, back, rfl, outside⟩ := exists_split h
    rw [names, List.map_append, List.map_cons, List.nodup_middle, List.nodup_cons,
      ← List.map_append] at distinct
    have others : ∀ e ∈ front ++ back, e.1 ≠ name := by
      intro e he same
      have there : e.1 ∈ (front ++ back).map (·.1) := List.mem_map_of_mem he
      exact distinct.1 (same ▸ there)
    have rest : (front ++ (name, v) :: back).filter (·.1 ≠ name) = front ++ back := by
      rw [List.filter_append, List.filter_cons_of_neg (by simp), ← List.filter_append,
        List.filter_eq_self]
      simpa using others
    rw [take_split v outside, rest]
    exact (bringUp_perm back).append_left front
  · rw [take_of_not_mem h, List.filter_eq_self.mpr]
    rintro e he
    simp only [ne_eq, decide_not, Bool.not_eq_true', decide_eq_false_iff_not]
    rintro rfl
    exact h (List.mem_map_of_mem he)

end Fields
end Runbook
