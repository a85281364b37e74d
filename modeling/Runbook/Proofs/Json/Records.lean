import Mathlib.Algebra.Group.Nat.Defs
import Runbook.Json.Decode

/-!
# Records that are written and read

A record is written as a table of its fields, of which some are left out. To read it back, each
known field is looked up by its name, and has to pass both passes of the decoder with what was
written there.

Conversely, a field of a record that was read is what its decoder gives of some value, or what is
put in for a field that is not there (`Decode.Gives`).
-/

set_option autoImplicit false

namespace Runbook

/-! ## 1. Fields that were written -/

namespace Fields

variable {α : Type}

theorem get?_append (k : String) (fs gs : Fields α) :
    get? k (fs ++ gs) = (get? k fs).or (get? k gs) := by
  induction fs with
  | nil => rfl
  | cons f fs ih =>
    rw [List.cons_append, get?_cons, get?_cons, ih]
    split <;> rfl

end Fields

namespace Encode

theorem get?_optional (k name : String) (v : Option Json) :
    Fields.get? k (optional name v) = if name = k then v else none := by
  cases v with
  | none => exact (ite_self _).symm
  | some v => rfl

theorem get?_when (k name : String) (keep : Bool) (v : Json) :
    Fields.get? k («when» keep name v) = if name = k ∧ keep then some v else none := by
  cases keep with
  | false => simp [«when»]
  | true => simp [«when», Fields.get?]

theorem names_optional (name : String) (v : Option Json) :
    (optional name v).names.Sublist [name] := by
  cases v with
  | none => exact List.nil_sublist _
  | some v => exact List.Sublist.refl _

theorem names_when (name : String) (keep : Bool) (v : Json) :
    («when» keep name v).names.Sublist [name] := by
  cases keep with
  | false => exact List.nil_sublist _
  | true => exact List.Sublist.refl _

end Encode

namespace Decode

variable {α : Type}

/-! ## 2. Both passes over a field -/

section

variable {β : Type}

theorem ok_bind (a : α) (f : α → Except DecodeError β) :
    ((Except.ok a : Except DecodeError α) >>= f) = f a := rfl

theorem bind_ok {x : Except DecodeError α} {f : α → Except DecodeError β} {b : β}
    (h : (x >>= f) = .ok b) : ∃ a, x = .ok a ∧ f a = .ok b := by
  cases x with
  | error e => cases h
  | ok a => exact ⟨a, rfl, h⟩

end

theorem map_ok_iff {β : Type} {x : Except DecodeError α} {f : α → β} {b : β} :
    x.map f = .ok b ↔ ∃ a, x = .ok a ∧ f a = b := by
  cases x with
  | error e => simp [Except.map]
  | ok a => simp [Except.map]

theorem text_str (s : String) : text (.str s) = .ok s := rfl

/-- The field passes the first pass, if it is there at all. -/
def FieldCheck.Passes (c : FieldCheck) (fs : Fields Json) : Prop :=
  ∀ v, Fields.get? c.name fs = some v → c.check v = .ok ()

/-- A record passes the first pass if each known field does. -/
theorem record_obj {what : String} {known : List FieldCheck} {fs : Fields Json}
    (names : fs.names.Nodup) (h : ∀ c ∈ known, c.Passes fs) :
    record what known (.obj fs) = .ok fs := by
  suffices checked : ∀ gs : Fields Json, (∀ e ∈ gs, e ∈ fs) → checkFields known gs = .ok () by
    rw [record, checked fs fun _ he => he]
    rfl
  intro gs sub
  induction gs with
  | nil => rfl
  | cons g gs ih =>
    obtain ⟨k, v⟩ := g
    rw [List.forall_mem_cons] at sub
    rw [checkFields]
    split
    · exact ih sub.2
    · next c found =>
      have name : c.name = k := by simpa using List.find?_some found
      have there := Fields.get?_of_mem names sub.1
      have passed := h c (List.mem_of_find?_eq_some found) v (name ▸ there)
      rw [passed]
      exact ih sub.2

/-- The fields of a table stay as they are. -/
theorem eq_of_record {what : String} {known : List FieldCheck} {fs gs : Fields Json}
    (h : record what known (.obj fs) = .ok gs) : gs = fs := by
  rw [record] at h
  cases hc : checkFields known fs with
  | error e =>
    rw [hc] at h
    cases h
  | ok _ =>
    rw [hc] at h
    cases h
    rfl

theorem passes_of_get? {name : String} {d : Decoder α} {fs : Fields Json} {v : Json} {x : α}
    (found : Fields.get? name fs = some v) (h : d v = .ok x) : (field name d).Passes fs := by
  intro w hw
  cases found.symm.trans hw
  show (d v).map _ = _
  rw [h]
  rfl

theorem required_of_get? {name : String} {d : Decoder α} {fs : Fields Json} {v : Json} {x : α}
    (found : Fields.get? name fs = some v) (h : d v = .ok x) : required name d fs = .ok x := by
  rw [required, found]
  exact h

theorem withDefault_of_get? {name : String} {d : Decoder α} {default : α} {fs : Fields Json}
    {v : Json} {x : α} (found : Fields.get? name fs = some v) (h : d v = .ok x) :
    withDefault name d default fs = .ok x := by
  rw [withDefault, found]
  exact h

/-- A value is there, or null stands for none. -/
theorem option_some {d : Decoder α} {v : Json} {x : α} (solid : v.isNull = false)
    (h : d v = .ok x) : option d v = .ok (some x) := by
  cases v with
  | null => cases solid
  | bool | num | str | arr | obj => simp only [option, h, Except.map]

section

variable {name : String} {d : Decoder α} {fs : Fields Json} {x : Option α} {enc : α → Json}
  (found : Fields.get? name fs = x.map enc)
  (back : ∀ a, x = some a → option d (enc a) = .ok (some a))
include found back

theorem optional_of_get? : optional name d fs = .ok x := by
  rw [optional, withDefault, found]
  cases x with
  | none => rfl
  | some a => exact back a rfl

theorem passes_optional : (field name (option d)).Passes fs := by
  intro w hw
  obtain ⟨a, ha, rfl⟩ := Option.map_eq_some_iff.mp (found.symm.trans hw)
  show (option d (enc a)).map _ = _
  rw [back a ha]
  rfl

end

theorem entriesWith_any (fs : Fields Json) : entriesWith any fs = .ok fs := by
  induction fs with
  | nil => rfl
  | cons f fs ih => rw [entriesWith, ih, any]

theorem table_any (fs : Fields Json) : table any (.obj fs) = .ok fs := entriesWith_any fs

theorem itemsWith_map {d : Decoder α} {enc : α → Json} {xs : List α}
    (h : ∀ x ∈ xs, d (enc x) = .ok x) : itemsWith d (xs.map enc) = .ok xs := by
  induction xs with
  | nil => rfl
  | cons x xs ih =>
    rw [List.forall_mem_cons] at h
    rw [List.map_cons, itemsWith, h.1, ih h.2]

section

variable {name : String} {d : Decoder α} {fs : Fields Json} {keep : Bool} {v : Json} {x : α}
  (found : Fields.get? name fs = if keep then some v else none) (back : d v = .ok x)
include found back

/-- A field that is left out must have had the value that stands for it. -/
theorem withDefault_of_when {default : α} (absent : keep = false → x = default) :
    withDefault name d default fs = .ok x := by
  rw [withDefault, found]
  cases keep with
  | false =>
    rw [absent rfl]
    rfl
  | true => exact back

theorem passes_when : (field name d).Passes fs := by
  intro w hw
  have written := found.symm.trans hw
  cases keep with
  | false => cases written
  | true =>
    cases written
    show (d v).map _ = _
    rw [back]
    rfl

end

theorem word_nat {bits n : Nat} (name : String) (h : n < 2 ^ bits) :
    word bits name (Json.nat n) = .ok n := by
  have power : Int.pow 2 bits = ((2 ^ bits : Nat) : Int) := (Int.natCast_pow 2 bits).symm
  have small : (n : Int) < Int.pow 2 bits := by
    rw [power]
    exact Int.ofNat_lt.mpr h
  rw [Json.nat, word, if_pos ⟨Int.natCast_nonneg n, small⟩]
  rfl

theorem size_nat {n : Nat} (h : n < 2 ^ 64) : size (Json.nat n) = .ok n := word_nat "usize" h

/-! ## 3. What was decoded -/

/-- Some value is decoded to this one. -/
def Gives (d : Decoder α) (x : α) : Prop := ∃ v, d v = .ok x

theorem lt_of_gives_word {bits n : Nat} {name : String} (h : Gives (word bits name) n) :
    n < 2 ^ bits := by
  obtain ⟨v, h⟩ := h
  rw [word.eq_def] at h
  split at h
  · next m =>
    split at h
    · next fits =>
      cases h
      have power : Int.pow 2 bits = ((2 ^ bits : Nat) : Int) := (Int.natCast_pow 2 bits).symm
      have small := fits.2
      rw [power] at small
      omega
    · cases h
  · cases h

section

variable {d : Decoder α} {name : String} {fs : Fields Json}

theorem gives_of_itemsWith {vs : List Json} {xs : List α} (h : itemsWith d vs = .ok xs) :
    ∀ x ∈ xs, Gives d x := by
  induction vs generalizing xs with
  | nil =>
    cases h
    simp
  | cons v vs ih =>
    rw [itemsWith] at h
    split at h
    · cases h
    · next x hx =>
      split at h
      · cases h
      · next rest hrest =>
        cases h
        exact List.forall_mem_cons.mpr ⟨⟨v, hx⟩, ih hrest⟩

theorem gives_of_list {v : Json} {xs : List α} (h : list d v = .ok xs) : ∀ x ∈ xs, Gives d x := by
  cases v with
  | arr vs => exact gives_of_itemsWith h
  | null | bool | num | str | obj => cases h

theorem gives_of_required {x : α} (h : required name d fs = .ok x) : Gives d x := by
  rw [required] at h
  split at h
  · exact ⟨_, h⟩
  · cases h

theorem gives_of_withDefault {default x : α} (h : withDefault name d default fs = .ok x) :
    x = default ∨ Gives d x := by
  rw [withDefault] at h
  split at h
  · exact .inr ⟨_, h⟩
  · cases h
    exact .inl rfl

theorem gives_of_option {v : Json} {x : α} (h : option d v = .ok (some x)) : Gives d x := by
  cases v with
  | null => cases h
  | bool | num | str | arr | obj =>
    obtain ⟨y, hy, heq⟩ := map_ok_iff.mp h
    cases heq
    exact ⟨_, hy⟩

theorem gives_of_optional {x : α} (h : optional name d fs = .ok (some x)) : Gives d x := by
  rcases gives_of_withDefault h with none | ⟨v, hv⟩
  · cases none
  · exact gives_of_option hv

end

end Decode

end Runbook
