/-!
# Ordered fields

A table from names to values that remembers the order in which the names first arrived. Writing to
a name that is present keeps its place. Taking a name out moves the last entry into the hole, so
that no other entry shifts.

The view of a table is its list of entries; `get?` reads the first entry of a name, and every
operation below keeps names distinct.
-/

set_option autoImplicit false

namespace Runbook

/-- Entries in order of arrival. -/
abbrev Fields (α : Type) := List (String × α)

namespace Fields

variable {α β : Type}

/-- The value under a name. -/
def get? (name : String) : Fields α → Option α
  | [] => none
  | (k, v) :: rest => if k = name then some v else get? name rest

/-- The name is present. -/
def has (name : String) (fs : Fields α) : Bool := (get? name fs).isSome

/-- Writes a value: in place if the name is present, else at the end. -/
def put (name : String) (value : α) : Fields α → Fields α
  | [] => [(name, value)]
  | (k, v) :: rest => if k = name then (k, value) :: rest else (k, v) :: put name value rest

/-- Writes every entry of the second table into the first, in order. -/
def extend (fs more : Fields α) : Fields α := more.foldl (fun acc e => put e.1 e.2 acc) fs

/-- The table of a list of writes: a later write to a name wins, and keeps the first one's place. -/
def ofWrites (writes : List (String × α)) : Fields α := extend [] writes

/-- Takes a name out; the last entry moves into its place. -/
def take (name : String) (fs : Fields α) : Fields α :=
  match fs.findIdx? (·.1 = name), fs.getLast? with
  | some i, some last => if i + 1 = fs.length then fs.dropLast else fs.dropLast.set i last
  | _, _ => fs

/-- The order of names: by code points, which is the order of their bytes in UTF-8. -/
def nameBefore (a b : String) : Bool := a ≤ b

/-- The entries in the order of their names; of entries with one name the last is kept. -/
def sorted (fs : Fields α) : Fields α :=
  (ofWrites fs).mergeSort fun a b => nameBefore a.1 b.1

/-- The names in order. -/
def names (fs : Fields α) : List String := fs.map (·.1)

/-- The values in order. -/
def values (fs : Fields α) : List α := fs.map (·.2)

@[simp] theorem get?_nil (name : String) : get? name ([] : Fields α) = none := rfl

theorem get?_cons (name : String) (e : String × α) (fs : Fields α) :
    get? name (e :: fs) = if e.1 = name then some e.2 else get? name fs := rfl

/-- What was written is read back. -/
@[simp] theorem get?_put_self (name : String) (value : α) (fs : Fields α) :
    get? name (put name value fs) = some value := by
  induction fs with
  | nil => simp [put, get?]
  | cons e fs ih =>
    unfold put
    split <;> simp_all [get?]

/-- Other names keep their values. -/
theorem get?_put_of_ne {name other : String} (value : α) (fs : Fields α) (h : name ≠ other) :
    get? other (put name value fs) = get? other fs := by
  induction fs with
  | nil => simp [put, get?, h]
  | cons e fs ih =>
    unfold put
    split
    · simp_all [get?]
    · simp [get?, ih]

/-- A name is among the names exactly when it has a value. -/
theorem get?_isSome_iff (name : String) (fs : Fields α) :
    (get? name fs).isSome = true ↔ name ∈ fs.names := by
  induction fs with
  | nil => simp [get?, names]
  | cons e fs ih =>
    unfold get?
    split
    · simp_all [names]
    · rename_i h
      simp only [names, List.map_cons, List.mem_cons]
      rw [ih]
      simp [names, Ne.symm h]

/-- A value that is found stands among the entries under its name. -/
theorem mem_of_get? {name : String} {v : α} {fs : Fields α} (h : get? name fs = some v) :
    (name, v) ∈ fs := by
  induction fs with
  | nil => cases h
  | cons e fs ih =>
    rw [get?_cons] at h
    split at h
    · next same =>
      cases h
      rw [← same]
      exact List.mem_cons_self ..
    · exact List.mem_cons_of_mem _ (ih h)

/-- Under distinct names every entry is found. -/
theorem get?_of_mem {fs : Fields α} (h : fs.names.Nodup) {name : String} {v : α}
    (hm : (name, v) ∈ fs) : get? name fs = some v := by
  induction fs with
  | nil => cases hm
  | cons e fs ih =>
    rw [names, List.map_cons, List.nodup_cons] at h
    rw [get?_cons]
    rcases List.mem_cons.mp hm with rfl | hm
    · exact if_pos rfl
    · rw [if_neg, ih h.2 hm]
      rintro rfl
      exact h.1 (List.mem_map.mpr ⟨_, hm, rfl⟩)

/-- Of two writes to a name the second counts. -/
theorem put_put_self (name : String) (v w : α) (fs : Fields α) :
    put name w (put name v fs) = put name w fs := by
  induction fs with
  | nil => simp [put]
  | cons e fs ih =>
    by_cases h : e.1 = name
    · simp [put, h]
    · simp [put, h, ih]

/-- Writing to a present name moves nothing. -/
theorem names_put_of_mem {name : String} (value : α) {fs : Fields α} (h : name ∈ fs.names) :
    (put name value fs).names = fs.names := by
  induction fs with
  | nil => simp [names] at h
  | cons e fs ih =>
    unfold put
    split
    · simp [names]
    · rename_i hne
      simp only [names, List.map_cons, List.mem_cons] at h
      rcases h with h | h
      · exact absurd h.symm hne
      · have := ih h
        simp only [names] at this
        simp [names, this]

/-- A new name goes to the end. -/
theorem put_of_not_mem {name : String} (value : α) {fs : Fields α} (h : name ∉ fs.names) :
    put name value fs = fs ++ [(name, value)] := by
  induction fs with
  | nil => simp [put]
  | cons e fs ih =>
    simp only [names, List.map_cons, List.mem_cons, not_or] at h
    unfold put
    rw [if_neg (Ne.symm h.1), ih (by simpa [names] using h.2)]
    simp

/-- An entry was written or is an old one. -/
theorem mem_put {name : String} {value : α} {fs : Fields α} {e : String × α}
    (h : e ∈ put name value fs) : e = (name, value) ∨ e ∈ fs := by
  induction fs with
  | nil => exact .inl (List.mem_singleton.mp h)
  | cons f fs ih =>
    unfold put at h
    split at h
    · next same =>
      subst same
      exact (List.mem_cons.mp h).imp_right (List.mem_cons_of_mem _)
    · rcases List.mem_cons.mp h with rfl | h
      · exact .inr (List.mem_cons_self ..)
      · exact (ih h).imp_right (List.mem_cons_of_mem _)

/-- Distinct names stay distinct. -/
theorem nodup_names_put {fs : Fields α} (h : fs.names.Nodup) (name : String) (value : α) :
    (put name value fs).names.Nodup := by
  by_cases hm : name ∈ fs.names
  · rwa [names_put_of_mem value hm]
  · rw [put_of_not_mem value hm]
    simp only [names] at h hm
    simp only [names, List.map_append, List.map_cons, List.map_nil]
    rw [List.nodup_append]
    exact ⟨h, by simp, by intro a ha b hb; simp at hb; subst hb; rintro rfl; exact hm ha⟩

end Fields
end Runbook
