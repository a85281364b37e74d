import Runbook.Json.Printer
import Runbook.Json.Reader

/-!
# Numbers among other values

What the reader makes of a number does not depend on what stands behind it, as long as that cannot
be a part of a number: `Local` says so of each part of the reader. And every character that the
printer writes for a finite number can be a part of one.

Nothing is said here about *which* number is read. Floating-point arithmetic has no laws to prove
it with; it is enough that a number is read as some number or not at all.
-/

set_option autoImplicit false

namespace Runbook.Json

open Reader

/-! ## 1. What may stand behind a value -/

/-- Behind a value stands nothing, a comma, or a closing bracket or brace. -/
def Closed (rest : List Char) : Prop :=
  ∀ c, rest.head? = some c → c = ',' ∨ c = ']' ∨ c = '\x7d'

theorem closed_nil : Closed [] := by
  intro c h
  cases h

theorem closed_cons {c : Char} {cs : List Char} (h : c = ',' ∨ c = ']' ∨ c = '\x7d') :
    Closed (c :: cs) := by
  rintro _ ⟨⟩
  exact h

/-- A character that can be a part of a number. -/
def numeric (c : Char) : Bool :=
  (digit? c).isSome || c == '-' || c == '+' || c == '.' || c == 'e' || c == 'E'

/-! ## 2. The parts of the reader -/

/-- The result does not depend on what stands behind, and leaves it there. -/
structure Local (rest : List Char) (f : List Char → Option (Number × List Char)) : Prop where
  append (cs : List Char) : f (cs ++ rest) = (f cs).map fun p => (p.1, p.2 ++ rest)
  suffix {cs : List Char} {n : Number} {r : List Char} (h : f cs = some (n, r)) : r <:+ cs

variable {rest : List Char}

theorem Closed.not_digit (h : Closed rest) : ∀ c, rest.head? = some c → digit? c = none := by
  intro c hc
  rcases h c hc with rfl | rfl | rfl <;> decide

/-- No number goes on behind a value. -/
theorem Closed.head_ne {c x : Char} {cs : List Char} (h : Closed (c :: cs))
    (hx : numeric x = true) : c ≠ x := by
  rintro rfl
  rcases h c rfl with rfl | rfl | rfl <;> cases hx

theorem takeWhile_digits (h : Closed rest) (cs : List Char) :
    (cs ++ rest).takeWhile (digit? · |>.isSome) = cs.takeWhile (digit? · |>.isSome) := by
  induction cs with
  | nil =>
    cases rest with
    | nil => rfl
    | cons c rest => simp [h.not_digit c rfl]
  | cons c cs ih =>
    rw [List.cons_append, List.takeWhile_cons, List.takeWhile_cons, ih]

theorem dropWhile_digits (h : Closed rest) (cs : List Char) :
    (cs ++ rest).dropWhile (digit? · |>.isSome) = cs.dropWhile (digit? · |>.isSome) ++ rest := by
  induction cs with
  | nil =>
    cases rest with
    | nil => rfl
    | cons c rest => simp [h.not_digit c rfl]
  | cons c cs ih =>
    rw [List.cons_append, List.dropWhile_cons, List.dropWhile_cons, ih]
    split <;> rfl

/-- The digits of an exponent, once its sign has been read. -/
def exponentDigits (positive : Bool) (significand : Nat) (start : Int) (up : Bool)
    (cs : List Char) : Option (Number × List Char) :=
  let ds := cs.takeWhile (digit? · |>.isSome)
  let rest := cs.dropWhile (digit? · |>.isSome)
  if ds.isEmpty then none
  else
    let e := ds.foldl (fun acc c => acc * 10 + (digit? c).getD 0) 0
    if e > 2147483647 then
      if significand ≠ 0 ∧ up then none
      else some (.float (if positive then 0.0 else -0.0), rest)
    else
      (floatOf positive significand (if up then start + e else start - e)).map (.float ·, rest)

theorem local_exponentDigits (h : Closed rest) (positive : Bool) (significand : Nat) (start : Int)
    (up : Bool) : Local rest (exponentDigits positive significand start up) where
  append cs := by
    simp only [exponentDigits, takeWhile_digits h, dropWhile_digits h]
    split
    · rfl
    · split
      · split <;> rfl
      · rw [Option.map_map]
        rfl
  suffix {cs n r} hr := by
    have left : r = cs.dropWhile (digit? · |>.isSome) := by
      simp only [exponentDigits] at hr
      split at hr
      · cases hr
      · split at hr
        · split at hr
          · cases hr
          · cases hr
            rfl
        · obtain ⟨_, -, heq⟩ := Option.map_eq_some_iff.mp hr
          cases heq
          rfl
    rw [left]
    exact List.dropWhile_suffix _

/-- The sign of an exponent, and what follows it. -/
def sign (cs : List Char) : Bool × List Char :=
  match cs with
  | '+' :: r => (true, r)
  | '-' :: r => (false, r)
  | r => (true, r)

theorem sign_of_ne {c : Char} (plus : c ≠ '+') (minus : c ≠ '-') (cs : List Char) :
    sign (c :: cs) = (true, c :: cs) := by
  unfold sign
  split
  · next heq => exact absurd (List.cons.inj heq).1 plus
  · next heq => exact absurd (List.cons.inj heq).1 minus
  · rfl

theorem sign_append (h : Closed rest) (cs : List Char) :
    sign (cs ++ rest) = ((sign cs).1, (sign cs).2 ++ rest) := by
  cases cs with
  | nil =>
    cases rest with
    | nil => rfl
    | cons c rest => exact sign_of_ne (h.head_ne rfl) (h.head_ne rfl) rest
  | cons c cs =>
    by_cases plus : c = '+'
    · subst plus
      rfl
    by_cases minus : c = '-'
    · subst minus
      rfl
    rw [List.cons_append, sign_of_ne plus minus, sign_of_ne plus minus]
    rfl

theorem sign_suffix (cs : List Char) : (sign cs).2 <:+ cs := by
  unfold sign
  split
  · exact List.suffix_cons ..
  · exact List.suffix_cons ..
  · exact List.suffix_refl _

theorem exponent_eq (positive : Bool) (significand : Nat) (start : Int) (cs : List Char) :
    exponent positive significand start cs =
      exponentDigits positive significand start (sign cs).1 (sign cs).2 := rfl

theorem local_exponent (h : Closed rest) (positive : Bool) (significand : Nat) (start : Int) :
    Local rest (exponent positive significand start) where
  append cs := by
    rw [exponent_eq, exponent_eq, sign_append h]
    exact (local_exponentDigits h positive significand start _).append _
  suffix {cs n r} hr := by
    rw [exponent_eq] at hr
    exact ((local_exponentDigits h positive significand start _).suffix hr).trans (sign_suffix cs)

theorem local_finish (h : Closed rest) (positive : Bool) (significand : Nat) (e : Int) :
    Local rest (finish positive significand e) where
  append cs := by
    have float : ∀ cs, (∀ r, cs ≠ 'e' :: r) → (∀ r, cs ≠ 'E' :: r) →
        finish positive significand e cs = (floatOf positive significand e).map (.float ·, cs) := by
      intro cs small big
      unfold finish
      split
      · exact absurd rfl (small _)
      · exact absurd rfl (big _)
      · rfl
    cases cs with
    | nil =>
      have plain : ∀ x r, rest = x :: r → x ≠ 'e' ∧ x ≠ 'E' := by
        rintro x r rfl
        exact ⟨h.head_ne rfl, h.head_ne rfl⟩
      rw [List.nil_append, float rest (fun r hr => (plain _ r hr).1 rfl)
        (fun r hr => (plain _ r hr).2 rfl), float [] (by simp) (by simp), Option.map_map]
      rfl
    | cons c cs =>
      by_cases small : c = 'e'
      · subst small
        exact (local_exponent h positive significand e).append cs
      by_cases big : c = 'E'
      · subst big
        exact (local_exponent h positive significand e).append cs
      rw [List.cons_append, float (c :: (cs ++ rest)) (by simp [small]) (by simp [big]),
        float (c :: cs) (by simp [small]) (by simp [big]), Option.map_map]
      rfl
  suffix {cs n r} hr := by
    unfold finish at hr
    split at hr
    · exact ((local_exponent h positive significand e).suffix hr).trans (List.suffix_cons ..)
    · exact ((local_exponent h positive significand e).suffix hr).trans (List.suffix_cons ..)
    · obtain ⟨_, -, heq⟩ := Option.map_eq_some_iff.mp hr
      cases heq
      exact List.suffix_refl _

theorem local_fraction (h : Closed rest) (positive : Bool) (significand : Nat) (e : Int)
    (seen : Bool) : Local rest (fraction positive significand e seen) where
  append cs := by
    induction cs generalizing significand e seen with
    | nil =>
      have done := (local_finish h positive significand e).append []
      cases rest with
      | nil => cases seen <;> simp [fraction]
      | cons c rest => cases seen <;> simp [fraction, h.not_digit c rfl, ← done]
    | cons c cs ih =>
      rw [List.cons_append, fraction, fraction]
      split
      · split
        · exact (local_finish h positive significand e).append (c :: cs)
        · rfl
      · split
        · -- digits that no longer fit the significand are dropped
          rw [← List.cons_append, dropWhile_digits h]
          exact (local_finish h positive significand e).append _
        · exact ih _ _ _
  suffix {cs n r} hr := by
    have done := fun sig e => @(local_finish h positive sig e).suffix
    induction cs generalizing significand e seen with
    | nil =>
      rw [fraction] at hr
      split at hr
      · exact done _ _ hr
      · cases hr
    | cons c cs ih =>
      rw [fraction] at hr
      split at hr
      · split at hr
        · exact done _ _ hr
        · cases hr
      · split at hr
        · exact (done _ _ hr).trans (List.dropWhile_suffix _)
        · exact (ih _ _ _ hr).trans (List.suffix_cons ..)

theorem local_longInteger (h : Closed rest) (positive : Bool) (significand : Nat) (e : Int) :
    Local rest (longInteger positive significand e) where
  append cs := by
    induction cs generalizing e with
    | nil =>
      have done := (local_finish h positive significand e).append []
      cases rest with
      | nil => simp [longInteger]
      | cons c rest =>
        have point : c ≠ '.' := h.head_ne rfl
        rw [List.nil_append, longInteger.eq_3 _ _ _ _ _ point, h.not_digit c rfl]
        exact done
    | cons c cs ih =>
      by_cases point : c = '.'
      · subst point
        exact (local_fraction h positive significand e false).append cs
      rw [List.cons_append, longInteger.eq_3 _ _ _ _ _ point, longInteger.eq_3 _ _ _ _ _ point]
      split
      · exact ih _
      · exact (local_finish h positive significand e).append (c :: cs)
  suffix {cs n r} hr := by
    induction cs generalizing e with
    | nil => exact (local_finish h positive significand e).suffix hr
    | cons c cs ih =>
      by_cases point : c = '.'
      · subst point
        exact ((local_fraction h positive significand e false).suffix hr).trans
          (List.suffix_cons ..)
      rw [longInteger.eq_3 _ _ _ _ _ point] at hr
      split at hr
      · exact (ih _ hr).trans (List.suffix_cons ..)
      · exact (local_finish h positive significand e).suffix hr

/-- A number that ends with its integer part, which fits a word. -/
def wholeNumber (positive : Bool) (significand : Nat) : Number :=
  if positive then .int significand
  else if significand = 0 then .float (-0.0)
  else if significand ≤ Nat.pow 2 63 then .int (-(significand : Int))
  else .float (-(significand.toUInt64.toFloat))

theorem shortInteger_whole {positive : Bool} {significand : Nat} {cs : List Char}
    (h : ∀ c, cs.head? = some c → c ≠ '.' ∧ c ≠ 'e' ∧ c ≠ 'E') :
    shortInteger positive significand cs = some (wholeNumber positive significand, cs) := by
  unfold shortInteger
  split
  · exact absurd rfl (h _ rfl).1
  · exact absurd rfl (h _ rfl).2.1
  · exact absurd rfl (h _ rfl).2.2
  · unfold wholeNumber
    split
    · rfl
    · split
      · rfl
      · split <;> rfl

theorem local_shortInteger (h : Closed rest) (positive : Bool) (significand : Nat) :
    Local rest (shortInteger positive significand) where
  append cs := by
    cases cs with
    | nil =>
      have whole : ∀ c, rest.head? = some c → c ≠ '.' ∧ c ≠ 'e' ∧ c ≠ 'E' := by
        intro c hc
        rcases h c hc with rfl | rfl | rfl <;> decide
      rw [List.nil_append, shortInteger_whole whole, shortInteger_whole (by simp)]
      rfl
    | cons c cs =>
      by_cases point : c = '.'
      · subst point
        exact (local_fraction h positive significand 0 false).append cs
      by_cases small : c = 'e'
      · subst small
        exact (local_exponent h positive significand 0).append cs
      by_cases big : c = 'E'
      · subst big
        exact (local_exponent h positive significand 0).append cs
      have whole : ∀ r, shortInteger positive significand (c :: r) =
          some (wholeNumber positive significand, c :: r) := by
        intro r
        refine shortInteger_whole ?_
        rintro _ ⟨⟩
        exact ⟨point, small, big⟩
      rw [List.cons_append, whole, whole]
      rfl
  suffix {cs n r} hr := by
    unfold shortInteger at hr
    split at hr
    · exact ((local_fraction h positive significand 0 false).suffix hr).trans (List.suffix_cons ..)
    · exact ((local_exponent h positive significand 0).suffix hr).trans (List.suffix_cons ..)
    · exact ((local_exponent h positive significand 0).suffix hr).trans (List.suffix_cons ..)
    · have left : r = cs := by
        split at hr
        · cases hr
          rfl
        · split at hr
          · cases hr
            rfl
          · split at hr <;> (cases hr; rfl)
      exact left ▸ List.suffix_refl _

theorem local_integer (h : Closed rest) (positive : Bool) (significand : Nat) :
    Local rest (integer positive significand) where
  append cs := by
    induction cs generalizing significand with
    | nil =>
      -- no digit stands behind, so the number ends here
      have done := (local_shortInteger h positive significand).append []
      cases rest with
      | nil => simp [integer]
      | cons c rest => simp [integer, h.not_digit c rfl, ← done]
    | cons c cs ih =>
      rw [List.cons_append, integer, integer]
      split
      · exact (local_shortInteger h positive significand).append (c :: cs)
      · split
        · exact (local_longInteger h positive significand 0).append (c :: cs)
        · exact ih _
  suffix {cs n r} hr := by
    induction cs generalizing significand with
    | nil => exact (local_shortInteger h positive significand).suffix hr
    | cons c cs ih =>
      rw [integer] at hr
      split at hr
      · exact (local_shortInteger h positive significand).suffix hr
      · split at hr
        · exact (local_longInteger h positive significand 0).suffix hr
        · exact (ih _ hr).trans (List.suffix_cons ..)

/-- **A number is read without regard to what stands behind it.** -/
theorem local_number (h : Closed rest) (positive : Bool) : Local rest (number positive) where
  append cs := by
    cases cs with
    | nil =>
      cases rest with
      | nil => rfl
      | cons c rest => simp [number, h.not_digit c rfl]
    | cons c cs =>
      rw [List.cons_append, number.eq_def, number.eq_def positive (c :: cs)]
      dsimp only
      split
      · rfl
      · -- behind a leading zero the reader looks for a digit, to refuse it
        cases cs with
        | nil =>
          have done := (local_shortInteger h positive 0).append []
          cases rest with
          | nil => simp
          | cons c' rest => simp [h.not_digit c' rfl, ← done]
        | cons c' cs =>
          simp only [List.cons_append]
          split
          · rfl
          · exact (local_shortInteger h positive 0).append (c' :: cs)
      · exact (local_integer h positive _).append cs
  suffix {cs n r} hr := by
    cases cs with
    | nil => cases hr
    | cons c cs =>
      rw [number.eq_def] at hr
      dsimp only at hr
      split at hr
      · cases hr
      · cases cs with
        | nil => exact ((local_shortInteger h positive 0).suffix hr).trans (List.suffix_cons ..)
        | cons c' cs =>
          simp only at hr
          split at hr
          · cases hr
          · exact ((local_shortInteger h positive 0).suffix hr).trans (List.suffix_cons ..)
      · exact ((local_integer h positive _).suffix hr).trans (List.suffix_cons ..)

/-! ## 3. The texts of numbers -/

/-- All characters can be parts of numbers. -/
def AllNumeric (s : String) : Prop := ∀ c ∈ s.toList, numeric c = true

instance (s : String) : Decidable (AllNumeric s) :=
  decidable_of_iff (s.toList.all numeric = true) List.all_eq_true

theorem AllNumeric.append {s t : String} (hs : AllNumeric s) (ht : AllNumeric t) :
    AllNumeric (s ++ t) := by
  rw [AllNumeric, String.toList_append]
  exact List.forall_mem_append.mpr ⟨hs, ht⟩

theorem allNumeric_ofList {cs : List Char} (h : ∀ c ∈ cs, numeric c = true) :
    AllNumeric (String.ofList cs) := by
  rwa [AllNumeric, String.toList_ofList]

theorem numeric_of_isDigit {c : Char} (h : c.isDigit = true) : numeric c = true := by
  have digit : digit? c = some (c.toNat - 48) := by
    rw [digit?, if_pos]
    simpa [Char.isDigit, Char.le_def] using h
  simp [numeric, digit]

theorem numeric_toDigits (n : Nat) : ∀ c ∈ Nat.toDigits 10 n, numeric c = true :=
  fun _ hc => numeric_of_isDigit (Nat.isDigit_of_mem_toDigits (by omega) (by omega) hc)

theorem numeric_replicate (n : Nat) : ∀ c ∈ List.replicate n '0', numeric c = true := by
  intro c hc
  rw [List.eq_of_mem_replicate hc]
  decide

theorem allNumeric_nat (n : Nat) : AllNumeric (toString n) := by
  rw [Nat.toString_eq_ofList_toDigits]
  exact allNumeric_ofList (numeric_toDigits n)

theorem allNumeric_int (n : Int) : AllNumeric (toString n) := by
  rw [Int.toString_eq_repr, Int.repr_eq_if]
  split
  · exact allNumeric_nat n.toNat
  · exact AllNumeric.append (by decide) (allNumeric_nat (-n).toNat)

theorem allNumeric_layout (l : Decimal.Layout) (d : Decimal.Scaled) : AllNumeric (l.render d) := by
  have digits := numeric_toDigits d.digits
  have front : ∀ n, AllNumeric (String.ofList ((Nat.toDigits 10 d.digits).take n)) :=
    fun n => allNumeric_ofList fun c hc => digits c (List.mem_of_mem_take hc)
  have back : ∀ n, AllNumeric (String.ofList ((Nat.toDigits 10 d.digits).drop n)) :=
    fun n => allNumeric_ofList fun c hc => digits c (List.mem_of_mem_drop hc)
  unfold Decimal.Layout.render
  dsimp only
  split
  · decide
  · split
    · split
      · have zeros := List.forall_mem_append.mpr ⟨digits, numeric_replicate d.exp.toNat⟩
        exact (allNumeric_ofList zeros).append (by decide)
      · split
        · exact ((front _).append (by decide)).append (back _)
        · refine AllNumeric.append (by decide) (allNumeric_ofList ?_)
          exact List.forall_mem_append.mpr ⟨numeric_replicate _, digits⟩
    · have exponent : ∀ (b : Bool) (n m : Nat),
          AllNumeric (if b then "-" ++ toString n else "+" ++ toString m) := by
        intro b n m
        cases b with
        | true => exact AllNumeric.append (by decide) (allNumeric_nat n)
        | false => exact AllNumeric.append (by decide) (allNumeric_nat m)
      have tail : AllNumeric
          (if ((Nat.toDigits 10 d.digits).drop 1).isEmpty then ""
            else "." ++ String.ofList ((Nat.toDigits 10 d.digits).drop 1)) := by
        split
        · decide
        · exact AllNumeric.append (by decide) (back 1)
      refine (((front 1).append tail).append (by decide)).append ?_
      have := exponent (decide ((Nat.toDigits 10 d.digits).length + d.exp - 1 < 0))
        (-((Nat.toDigits 10 d.digits).length + d.exp - 1)).toNat
        ((Nat.toDigits 10 d.digits).length + d.exp - 1).toNat
      simpa using this

/-- A number is written in characters of numbers, or as null. -/
theorem render_cases (n : Number) : n.render = "null" ∨ AllNumeric n.render := by
  cases n with
  | int n => exact .inr (allNumeric_int n)
  | float x =>
    rw [Number.render]
    split
    · unfold Decimal.render64
      dsimp only
      split
      · exact .inr (AllNumeric.append (by decide) (allNumeric_layout _ _))
      · exact .inr (allNumeric_layout _ _)
    · exact .inl rfl

theorem layout_ne_nil (l : Decimal.Layout) (d : Decimal.Scaled) : (l.render d).toList ≠ [] := by
  unfold Decimal.Layout.render
  dsimp only
  split
  · decide
  · split
    · split
      · simp
      · split <;> simp
    · simp

theorem render_ne_nil (n : Number) : n.render.toList ≠ [] := by
  cases n with
  | int n =>
    rw [Number.render, Int.toString_eq_repr, Int.repr_eq_if]
    split
    · rw [Nat.toList_repr]
      exact Nat.toDigits_ne_nil
    · simp
  | float x =>
    rw [Number.render]
    split
    · unfold Decimal.render64
      dsimp only
      split
      · simp
      · exact layout_ne_nil _ _
    · decide

end Runbook.Json
