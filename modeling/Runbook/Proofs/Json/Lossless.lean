import Mathlib.Algebra.Group.Nat.Defs
import Runbook.Proofs.Json.Reread

/-!
# Values that come back

A value is *lossless* if what is read of its compact text is the value again. Not every value is:
the reader has a limit of depth, a floating-point number may come back as another one, and of two
fields of one name only the last is kept.

The parts of a lossless value come back too, each from its own place. And if a natural number does,
it fits a word of 64 bits, since nothing larger is read as an integer.

Whatever text a table is read of, its names are different (`Json.nodup_of_parse?`).
-/

set_option autoImplicit false

namespace Runbook

namespace Fields

variable {α : Type}

theorem extend_of_nodup {fs more : Fields α} (h : (fs ++ more).names.Nodup) :
    extend fs more = fs ++ more := by
  induction more generalizing fs with
  | nil => exact (List.append_nil fs).symm
  | cons e more ih =>
    have new : e.1 ∉ fs.names := by
      intro hm
      rw [names, List.map_append, List.nodup_append] at h
      exact h.2.2 e.1 hm e.1 (by simp) rfl
    have moved : fs ++ e :: more = fs ++ [e] ++ more := by simp
    rw [moved] at h ⊢
    rw [← ih h, extend, List.foldl_cons, put_of_not_mem _ new]
    rfl

/-- Writes to different names are kept as they are. -/
theorem ofWrites_of_nodup {fs : Fields α} (h : fs.names.Nodup) : ofWrites fs = fs :=
  extend_of_nodup h

theorem nodup_names_extend {fs : Fields α} (h : fs.names.Nodup) (more : Fields α) :
    (extend fs more).names.Nodup := by
  induction more generalizing fs with
  | nil => exact h
  | cons e more ih => exact ih (nodup_names_put h e.1 e.2)

/-- Of a table that is written into another, all values are found; of the other, those of other
names. -/
theorem get?_extend {more : Fields α} (h : more.names.Nodup) (fs : Fields α) (name : String) :
    get? name (extend fs more) = (get? name more).or (get? name fs) := by
  induction more generalizing fs with
  | nil => rfl
  | cons e more ih =>
    rw [names, List.map_cons, List.nodup_cons] at h
    have later : get? name (extend fs (e :: more)) =
        (get? name more).or (get? name (put e.1 e.2 fs)) := ih h.2 _
    rw [later, get?_cons]
    by_cases same : e.1 = name
    · subst same
      have new : get? e.1 more = none := by
        rw [← Option.not_isSome_iff_eq_none, get?_isSome_iff]
        exact h.1
      rw [new, if_pos rfl, get?_put_self]
      rfl
    · rw [if_neg same, get?_put_of_ne _ _ same]

end Fields

namespace Json

open Reader

/-- What is read of the text of the value is the value. -/
def Lossless (v : Json) : Prop := parse? v.compress = some v

theorem lossless_iff {v : Json} : v.Lossless ↔ reread 128 v = some v := by
  rw [Lossless, parse?_compress]

/-! ## 1. Parts of a value -/

theorem rereadFields_names {depth : Nat} {fs gs : Fields Json}
    (h : rereadFields depth fs = some gs) : gs.names = fs.names := by
  induction fs generalizing gs with
  | nil =>
    cases h
    rfl
  | cons f fs ih =>
    rw [rereadFields] at h
    split at h
    · next w gs' _ hgs =>
      cases h
      exact congrArg (f.1 :: ·) (ih hgs)
    · cases h

theorem get?_rereadFields {depth : Nat} {fs gs : Fields Json}
    (h : rereadFields depth fs = some gs) (k : String) :
    (Fields.get? k fs).map (reread depth) = (Fields.get? k gs).map some := by
  induction fs generalizing gs with
  | nil =>
    cases h
    rfl
  | cons f fs ih =>
    rw [rereadFields] at h
    split at h
    · next w gs' hw hgs =>
      cases h
      rw [Fields.get?_cons, Fields.get?_cons]
      split
      · exact congrArg some hw
      · exact ih hgs
    · cases h

/-- Of a table with distinct names, each field is read on its own. -/
theorem reread_table {depth : Nat} {fs : Fields Json} {v : Json} (names : fs.names.Nodup)
    (h : reread (depth + 1) (.obj fs) = some v) :
    ∃ gs, v = .obj gs ∧
      ∀ k, (Fields.get? k fs).map (reread depth) = (Fields.get? k gs).map some := by
  rw [reread] at h
  split at h
  · cases h
  · obtain ⟨gs, hgs, rfl⟩ := Option.map_eq_some_iff.mp h
    have same : Fields.names gs = Fields.names fs := rereadFields_names hgs
    rw [Fields.ofWrites_of_nodup (same ▸ names)]
    exact ⟨gs, rfl, get?_rereadFields hgs⟩

/-- A field of a table that comes back comes back. -/
theorem reread_field {depth : Nat} {fs : Fields Json} {k : String} {v : Json}
    (names : fs.names.Nodup) (h : reread (depth + 1) (.obj fs) = some (.obj fs))
    (hv : Fields.get? k fs = some v) : reread depth v = some v := by
  obtain ⟨gs, heq, read⟩ := reread_table names h
  cases heq
  have here := read k
  rw [hv] at here
  exact Option.some.inj here

theorem rereadItems_self {depth : Nat} {xs : List Json} (h : rereadItems depth xs = some xs) :
    ∀ x ∈ xs, reread depth x = some x := by
  induction xs with
  | nil => simp
  | cons x xs ih =>
    rw [rereadItems] at h
    split at h
    · next y ys hy hys =>
      cases h
      exact List.forall_mem_cons.mpr ⟨hy, ih hys⟩
    · cases h

/-- An item of a list that comes back comes back. -/
theorem reread_item {depth : Nat} {xs : List Json}
    (h : reread (depth + 1) (.arr xs) = some (.arr xs)) : ∀ x ∈ xs, reread depth x = some x := by
  rw [reread] at h
  split at h
  · cases h
  · obtain ⟨ys, hys, heq⟩ := Option.map_eq_some_iff.mp h
    cases heq
    exact rereadItems_self hys

/-! ## 2. Numbers -/

/-- An integer is read only if it fits a word. -/
def Fits (n : Number) : Prop := ∀ m, n = .int m → m ≤ maxWord

theorem fits_float (x : Float) : Fits (.float x) := by
  intro m h
  cases h

theorem fits_floatOf {positive : Bool} {sig : Nat} {e : Int} {cs r : List Char} {n : Number}
    (h : (floatOf positive sig e).map (Number.float ·, cs) = some (n, r)) : Fits n := by
  obtain ⟨x, -, heq⟩ := Option.map_eq_some_iff.mp h
  cases heq
  exact fits_float x

theorem fits_exponent {positive : Bool} {sig : Nat} {start : Int} {cs r : List Char} {n : Number}
    (h : exponent positive sig start cs = some (n, r)) : Fits n := by
  rw [exponent_eq] at h
  unfold exponentDigits at h
  dsimp only at h
  split at h
  · cases h
  · split at h
    · split at h
      · cases h
      · cases h
        exact fits_float _
    · exact fits_floatOf h

theorem fits_finish {positive : Bool} {sig : Nat} {e : Int} {cs r : List Char} {n : Number}
    (h : finish positive sig e cs = some (n, r)) : Fits n := by
  unfold finish at h
  split at h
  · exact fits_exponent h
  · exact fits_exponent h
  · exact fits_floatOf h

theorem fits_fraction {positive : Bool} {sig : Nat} {e : Int} {seen : Bool} {cs r : List Char}
    {n : Number} (h : fraction positive sig e seen cs = some (n, r)) : Fits n := by
  induction cs generalizing sig e seen with
  | nil =>
    rw [fraction] at h
    split at h
    · exact fits_finish h
    · cases h
  | cons c cs ih =>
    rw [fraction] at h
    split at h
    · split at h
      · exact fits_finish h
      · cases h
    · split at h
      · exact fits_finish h
      · exact ih h

theorem fits_longInteger {positive : Bool} {sig : Nat} {e : Int} {cs r : List Char} {n : Number}
    (h : longInteger positive sig e cs = some (n, r)) : Fits n := by
  induction cs generalizing e with
  | nil => exact fits_finish h
  | cons c cs ih =>
    by_cases point : c = '.'
    · subst point
      exact fits_fraction h
    · rw [longInteger.eq_3 _ _ _ _ _ point] at h
      split at h
      · exact ih h
      · exact fits_finish h

theorem fits_shortInteger {positive : Bool} {sig : Nat} {cs r : List Char} {n : Number}
    (small : sig ≤ maxWord) (h : shortInteger positive sig cs = some (n, r)) : Fits n := by
  unfold shortInteger at h
  split at h
  · exact fits_fraction h
  · exact fits_exponent h
  · exact fits_exponent h
  · split at h
    · cases h
      rintro _ ⟨⟩
      exact Int.ofNat_le.mpr small
    · split at h
      · cases h
        exact fits_float _
      · split at h
        · cases h
          rintro _ ⟨⟩
          omega
        · cases h
          exact fits_float _

theorem fits_integer {positive : Bool} {sig : Nat} {cs r : List Char} {n : Number}
    (small : sig ≤ maxWord) (h : integer positive sig cs = some (n, r)) : Fits n := by
  induction cs generalizing sig with
  | nil => exact fits_shortInteger small h
  | cons c cs ih =>
    rw [integer] at h
    split at h
    · exact fits_shortInteger small h
    · split at h
      · exact fits_longInteger h
      · next fits => exact ih (Nat.le_of_not_lt fits) h

theorem digit?_le {c : Char} {d : Nat} (h : digit? c = some d) : d ≤ 9 := by
  unfold digit? at h
  split at h
  · next between =>
    cases h
    have : c.toNat ≤ 57 := between.2
    omega
  · cases h

theorem fits_number {positive : Bool} {cs r : List Char} {n : Number}
    (h : number positive cs = some (n, r)) : Fits n := by
  have zero : 0 ≤ maxWord := Nat.zero_le _
  unfold number at h
  split at h
  · cases h
  · split at h
    · cases h
    · split at h
      · exact fits_shortInteger zero h
      · split at h
        · cases h
        · exact fits_shortInteger zero h
    · next d _ hd =>
      have small : d ≤ maxWord := Nat.le_trans (digit?_le hd) (by decide)
      exact fits_integer small h

theorem fits_numeral {c : Char} {cs r : List Char} {n : Number}
    (h : numeral c cs = some (n, r)) : Fits n := by
  unfold numeral at h
  split at h
  · exact fits_number h
  · exact fits_number h

/-- A natural number that comes back fits a word. -/
theorem lt_of_reread_nat {depth n : Nat} (h : reread depth (nat n) = some (nat n)) :
    n < 2 ^ 64 := by
  cases depth with
  | zero => cases h
  | succ depth =>
    obtain ⟨c, cs, hcs⟩ := List.exists_cons_of_ne_nil (render_ne_nil (.int n))
    have all : AllNumeric (Number.int n).render := allNumeric_int n
    have hc : numeric c = true := all c (by rw [hcs]; exact List.mem_cons_self)
    have read : (Number.int n).reread = some (nat n) := h
    rw [Number.reread, hcs, value_numeric hc] at read
    cases found : numeral c cs with
    | none =>
      rw [found] at read
      cases read
    | some p =>
      obtain ⟨m, r⟩ := p
      rw [found] at read
      cases r with
      | nil =>
        cases read
        have := fits_numeral found n rfl
        have : n ≤ maxWord := Int.ofNat_le.mp this
        have : maxWord < 2 ^ 64 := by decide
        omega
      | cons _ _ => cases read

end Json

/-! ## 3. Depth -/

/-- Lists inside of one another. -/
def nested : Nat → Json
  | 0 => .null
  | n + 1 => .arr [nested n]

theorem reread_nested {depth n : Nat} (h : depth ≤ n) : Json.reread depth (nested n) = none := by
  induction depth generalizing n with
  | zero => exact Json.reread_zero _
  | succ depth ih =>
    obtain ⟨n, rfl⟩ : ∃ m, n = m + 1 := ⟨n - 1, by omega⟩
    have inside := ih (n := n) (by omega)
    rw [nested, Json.reread]
    split
    · rfl
    · rw [Json.rereadItems, inside]
      rfl

/-- A table is not read if one of its fields is not. -/
theorem reread_obj_eq_none {depth : Nat} {fs : Fields Json} {k : String} {v : Json}
    (names : fs.names.Nodup) (found : Fields.get? k fs = some v)
    (unread : Json.reread depth v = none) : Json.reread (depth + 1) (.obj fs) = none := by
  cases h : Json.reread (depth + 1) (.obj fs) with
  | none => rfl
  | some w =>
    obtain ⟨gs, rfl, read⟩ := Json.reread_table names h
    have here := read k
    rw [found, Option.map_some, unread] at here
    obtain ⟨_, -, none⟩ := Option.map_eq_some_iff.mp here.symm
    cases none

/-! ## 4. Tables that were read -/

namespace Json

namespace Reader

variable {value : List Char → Option (Json × List Char)} {fuel : Nat} {cs r : List Char} {v : Json}

theorem items_eq_arr {acc : List Json} (h : items value fuel acc cs = some (v, r)) :
    ∃ xs, v = .arr xs := by
  induction fuel generalizing acc cs with
  | zero => cases h
  | succ fuel ih =>
    rw [items] at h
    split at h
    · cases h
    · split at h
      · exact ih h
      · cases h
        exact ⟨_, rfl⟩
      · cases h

theorem entries_eq_obj {acc : Fields Json} (h : entries value fuel acc cs = some (v, r)) :
    ∃ writes, v = .obj (Fields.ofWrites writes) := by
  induction fuel generalizing acc cs with
  | zero => cases h
  | succ fuel ih =>
    rw [entries] at h
    split at h
    · split at h
      · cases h
      · split at h
        · split at h
          · cases h
          · split at h
            · exact ih h
            · cases h
              exact ⟨_, rfl⟩
            · cases h
        · cases h
    · cases h

end Reader

/-- The names of a table that was read are different. -/
theorem nodup_of_value {depth : Nat} {cs r : List Char} {fs : Fields Json}
    (h : Reader.value depth cs = some (.obj fs, r)) : fs.names.Nodup := by
  have word : ∀ (w : List Char) (v : Json) (cs : List Char), Reader.word w v cs = some (.obj fs, r) →
      v = .obj fs := by
    intro w v cs h
    unfold Reader.word at h
    split at h
    · cases h
      rfl
    · cases h
  cases depth with
  | zero => cases h
  | succ depth =>
    rw [Reader.value] at h
    split at h
    · cases word _ _ _ h
    · cases word _ _ _ h
    · cases word _ _ _ h
    · obtain ⟨_, -, h⟩ := Option.map_eq_some_iff.mp h
      cases h
    · split at h
      · cases h
      · split at h
        · cases h
        · obtain ⟨_, h⟩ := Reader.items_eq_arr h
          cases h
    · split at h
      · cases h
      · split at h
        · cases h
          exact List.nodup_nil
        · obtain ⟨writes, h⟩ := Reader.entries_eq_obj h
          cases h
          have blank : (Fields.names ([] : Fields Json)).Nodup := List.nodup_nil
          exact Fields.nodup_names_extend blank writes
    · obtain ⟨_, -, h⟩ := Option.map_eq_some_iff.mp h
      cases h
    · obtain ⟨_, -, h⟩ := Option.map_eq_some_iff.mp h
      cases h

theorem nodup_of_parse? {s : String} {fs : Fields Json} (h : parse? s = some (.obj fs)) :
    fs.names.Nodup := by
  unfold parse? at h
  split at h
  · next v rest read =>
    split at h
    · cases h
      exact nodup_of_value read
    · cases h
  · cases h

end Json

end Runbook
