import Runbook.Proofs.Json.Numeral

/-!
# Reading what was printed

`reread depth v` is what comes of a value that is printed compactly and then read: texts, lists and
tables come back, fields of one name are merged, a number comes back as some number, and what is
nested too deeply does not come back at all. `parse?_compress` says that this is what happens.

Between quotes each character stands for itself or is escaped, and the reader takes exactly as many
characters for it as the printer has written. So a text is read back whole, whatever stands behind
its closing quote (`text_quote`).

The induction is on the value, with anything that may stand behind it. A number that cannot be
read whole may still have a part in front that can; then the reader stops inside of it, and the
value around it is not read (`Outcome`).
-/

set_option autoImplicit false

namespace Runbook

/-- What is read from the text of a number. -/
def Number.reread (n : Number) : Option Json :=
  match Json.Reader.value 1 n.render.toList with
  | some (v, []) => some v
  | _ => none

namespace Json

open Reader

/-! ## 1. What comes back -/

mutual

/-- What is read from the text of a value, if values may nest `depth - 1` deep. -/
def reread : (depth : Nat) → Json → Option Json
  | 0, _ => none
  | _ + 1, .null => some .null
  | _ + 1, .bool b => some (.bool b)
  | _ + 1, .num n => n.reread
  | _ + 1, .str s => some (.str s)
  | depth + 1, .arr xs => if depth = 0 then none else (rereadItems depth xs).map .arr
  | depth + 1, .obj fs =>
      if depth = 0 then none else (rereadFields depth fs).map fun gs => .obj (Fields.ofWrites gs)

def rereadItems (depth : Nat) : List Json → Option (List Json)
  | [] => some []
  | x :: xs =>
      match reread depth x, rereadItems depth xs with
      | some y, some ys => some (y :: ys)
      | _, _ => none

def rereadFields (depth : Nat) : List (String × Json) → Option (Fields Json)
  | [] => some []
  | (k, v) :: rest =>
      match reread depth v, rereadFields depth rest with
      | some w, some gs => some ((k, w) :: gs)
      | _, _ => none

end

/-- The reader gets what is expected; where nothing is, it gets nothing, or stops inside a
number. -/
def Outcome (r : Option (Json × List Char)) (expected : Option Json) (rest : List Char) : Prop :=
  match expected with
  | some v => r = some (v, rest)
  | none => r = none ∨ ∃ v c cs, r = some (v, c :: cs) ∧ numeric c = true

/-! ## 2. Texts inside quotes -/

theorem toList_foldl_push (cs : List Char) (s : String) :
    (cs.foldl String.push s).toList = s.toList ++ cs := by
  induction cs generalizing s with
  | nil => simp
  | cons c cs ih => rw [List.foldl_cons, ih, String.toList_push, List.append_assoc]; rfl

theorem toList_quote (s : String) :
    (quote s).toList = '"' :: (s.toList.flatMap escapeChar ++ ['"']) := by
  have written : ∀ (cs : List Char) (acc : String),
      (cs.foldl (fun acc c => (escapeChar c).foldl String.push acc) acc).toList =
        acc.toList ++ cs.flatMap escapeChar := by
    intro cs
    induction cs with
    | nil => simp
    | cons c cs ih =>
      intro acc
      rw [List.foldl_cons, ih, toList_foldl_push, List.flatMap_cons, List.append_assoc]
  rw [quote, String.toList_push, String.foldl_eq_foldl_toList, written]
  rfl

theorem hexDigit?_hexDigit : ∀ d < 16, hexDigit? (hexDigit d) = some d := by decide

/-- A control character is read back from its code. -/
theorem unicodeEscape_control {c : Char} (h : c.toNat < 0x20) (cs : List Char) :
    unicodeEscape ('0' :: '0' :: hexDigit (c.toNat / 16) :: hexDigit (c.toNat % 16) :: cs) =
      some (c, cs) := by
  have zero : hexDigit? '0' = some 0 := by decide
  have high := hexDigit?_hexDigit (c.toNat / 16) (by omega)
  have low := hexDigit?_hexDigit (c.toNat % 16) (by omega)
  have code : c.toNat / 16 * 16 + c.toNat % 16 = c.toNat := by omega
  have four : hex4 ('0' :: '0' :: hexDigit (c.toNat / 16) :: hexDigit (c.toNat % 16) :: cs) =
      some (c.toNat, cs) := by
    simp [hex4, zero, high, low, code]
  rw [unicodeEscape, four]
  have noLow : ¬ (0xDC00 ≤ c.toNat ∧ c.toNat ≤ 0xDFFF) := by omega
  have noHigh : ¬ (0xD800 ≤ c.toNat ∧ c.toNat ≤ 0xDBFF) := by omega
  simp [noLow, noHigh]

/-- One character is read from its escape. -/
theorem textChars_escapeChar (fuel : Nat) (acc : List Char) (c : Char) (cs : List Char) :
    textChars (fuel + 1) acc (escapeChar c ++ cs) = textChars fuel (c :: acc) cs := by
  by_cases quote : c = '"'
  · subst quote
    rfl
  by_cases slash : c = '\\'
  · subst slash
    rfl
  by_cases plain : c.toNat ≥ 0x20
  · have h : ¬ c.toNat < 0x20 := by omega
    simp [escapeChar, textChars, quote, slash, plain, h]
  -- five control characters have a letter of their own, the others have a code
  have ofCode : ∀ n, c.toNat = n → c = Char.ofNat n := by
    rintro _ rfl
    exact (Char.ofNat_toNat c).symm
  by_cases h08 : c.toNat = 0x08
  · obtain rfl := ofCode _ h08
    rfl
  by_cases h09 : c.toNat = 0x09
  · obtain rfl := ofCode _ h09
    rfl
  by_cases h0A : c.toNat = 0x0A
  · obtain rfl := ofCode _ h0A
    rfl
  by_cases h0C : c.toNat = 0x0C
  · obtain rfl := ofCode _ h0C
    rfl
  by_cases h0D : c.toNat = 0x0D
  · obtain rfl := ofCode _ h0D
    rfl
  have code := unicodeEscape_control (c := c) (by omega) cs
  simp [escapeChar, textChars, quote, slash, plain, h08, h09, h0A, h0C, h0D, code]

theorem escapeChar_ne_nil (c : Char) : escapeChar c ≠ [] := by
  unfold escapeChar
  repeat' split
  all_goals exact List.cons_ne_nil _ _

theorem length_le_escaped (cs : List Char) : cs.length ≤ (cs.flatMap escapeChar).length := by
  induction cs with
  | nil => simp
  | cons c cs ih =>
    have := List.length_pos_iff.mpr (escapeChar_ne_nil c)
    rw [List.flatMap_cons, List.length_append, List.length_cons]
    omega

theorem textChars_escaped {fuel : Nat} {cs : List Char} (acc rest : List Char)
    (h : cs.length < fuel) :
    textChars fuel acc (cs.flatMap escapeChar ++ '"' :: rest) =
      some (String.ofList (acc.reverse ++ cs), rest) := by
  induction cs generalizing fuel acc with
  | nil =>
    obtain ⟨fuel, rfl⟩ := Nat.exists_eq_add_one_of_ne_zero (Nat.pos_iff_ne_zero.mp h)
    simp [textChars]
  | cons c cs ih =>
    obtain ⟨fuel, rfl⟩ : ∃ n, fuel = n + 1 := ⟨fuel - 1, by omega⟩
    rw [List.flatMap_cons, List.append_assoc, textChars_escapeChar,
      ih (c :: acc) (by simpa using h)]
    simp

/-- **A text is read back whole.** -/
theorem text_quote (s : String) (rest : List Char) :
    text (s.toList.flatMap escapeChar ++ '"' :: rest) = some (s, rest) := by
  have fuel : s.toList.length <
      (s.toList.flatMap escapeChar ++ '"' :: rest).length + 1 := by
    have := length_le_escaped s.toList
    rw [List.length_append]
    omega
  rw [text, textChars_escaped [] rest fuel]
  simp

/-! ## 3. First characters -/

/-- The character is not a blank. -/
def Solid (c : Char) : Prop := (c = ' ' || c = '\n' || c = '\t' || c = '\r') = false

instance (c : Char) : Decidable (Solid c) := inferInstanceAs (Decidable (_ = _))

theorem skip_of_solid {c : Char} (h : Solid c) (cs : List Char) : skip (c :: cs) = c :: cs := by
  rw [skip, List.dropWhile_cons_of_neg]
  rw [h]
  exact Bool.false_ne_true

theorem solid_of_numeric {c : Char} (h : numeric c = true) : Solid c := by
  have other : ∀ b, numeric b = false → c ≠ b := by
    rintro b hb rfl
    rw [h] at hb
    cases hb
  simp [Solid, other ' ' (by decide), other '\n' (by decide), other '\t' (by decide),
    other '\r' (by decide)]

/-- A value begins with a character that is not a blank and closes nothing. -/
theorem compress_head (v : Json) :
    ∃ c cs, (compress v).toList = c :: cs ∧ Solid c ∧ c ≠ ']' ∧ c ≠ '\x7d' := by
  cases v with
  | null => exact ⟨'n', "ull".toList, by rw [compress]; rfl, by decide, by decide, by decide⟩
  | bool b =>
    cases b with
    | true => exact ⟨'t', "rue".toList, by rw [compress]; rfl, by decide, by decide, by decide⟩
    | false => exact ⟨'f', "alse".toList, by rw [compress]; rfl, by decide, by decide, by decide⟩
  | num n =>
    rcases render_cases n with null | all
    · exact ⟨'n', "ull".toList, by rw [compress, null]; rfl, by decide, by decide, by decide⟩
    · obtain ⟨c, cs, hcs⟩ := List.exists_cons_of_ne_nil (render_ne_nil n)
      have hc : numeric c = true := all c (by simp [hcs])
      refine ⟨c, cs, by rw [compress, hcs], solid_of_numeric hc, ?_, ?_⟩
      · rintro rfl
        cases hc
      · rintro rfl
        cases hc
  | str s =>
    exact ⟨'"', _, by rw [compress, toList_quote], by decide, by decide, by decide⟩
  | arr xs =>
    exact ⟨'[', _, by rw [compress]; simp; rfl, by decide, by decide, by decide⟩
  | obj fs =>
    exact ⟨'\x7b', _, by rw [compress]; simp; rfl, by decide, by decide, by decide⟩

/-! ## 4. Numbers -/

/-- A number from its first character on. -/
def numeral (c : Char) (cs : List Char) : Option (Number × List Char) :=
  if c = '-' then number false cs else number true (c :: cs)

theorem numeral_append {rest : List Char} (h : Closed rest) (c : Char) (cs : List Char) :
    numeral c (cs ++ rest) = (numeral c cs).map fun p => (p.1, p.2 ++ rest) := by
  unfold numeral
  split
  · exact (local_number h false).append cs
  · exact (local_number h true).append (c :: cs)

theorem numeral_suffix {c : Char} {cs r : List Char} {n : Number}
    (h : numeral c cs = some (n, r)) : r <:+ c :: cs := by
  unfold numeral at h
  split at h
  · exact ((local_number closed_nil false).suffix h).trans (List.suffix_cons c cs)
  · exact (local_number closed_nil true).suffix h

/-- What begins like a number is read as one. -/
theorem value_numeric {c : Char} (h : numeric c = true) (depth : Nat) (cs : List Char) :
    value (depth + 1) (c :: cs) = (numeral c cs).map fun p => (.num p.1, p.2) := by
  have other : ∀ b, numeric b = false → c ≠ b := by
    rintro b hb rfl
    rw [h] at hb
    cases hb
  by_cases minus : c = '-'
  · subst minus
    rfl
  rw [value, skip_of_solid (solid_of_numeric h), numeral, if_neg minus]
  split
  case h_8 => rfl
  case h_7 heq => exact absurd (List.cons.inj heq).1 minus
  all_goals next heq => exact absurd (List.cons.inj heq).1 (other _ (by decide))

theorem outcome_number (n : Number) (depth : Nat) {rest : List Char} (h : Closed rest) :
    Outcome (value (depth + 1) (n.render.toList ++ rest)) n.reread rest := by
  rcases render_cases n with null | all
  · have read : n.reread = some .null := by
      rw [Number.reread, null]
      rfl
    rw [read, null]
    rfl
  · obtain ⟨c, cs, hcs⟩ := List.exists_cons_of_ne_nil (render_ne_nil n)
    have hc : numeric c = true := all c (by simp [hcs])
    rw [hcs, List.cons_append, value_numeric hc, numeral_append h, Number.reread, hcs,
      value_numeric hc]
    cases hp : numeral c cs with
    | none => exact .inl rfl
    | some p =>
      obtain ⟨m, r⟩ := p
      cases r with
      | nil => rfl
      | cons x r =>
        refine .inr ⟨.num m, x, r ++ rest, rfl, all x ?_⟩
        rw [hcs]
        exact (numeral_suffix hp).subset (by simp)

/-! ## 5. Lists and tables -/

/-- Inside of a number no item ends. -/
theorem skip_of_numeric {c : Char} (h : numeric c = true) (cs : List Char) :
    skip (c :: cs) = c :: cs ∧ c ≠ ',' ∧ c ≠ ']' ∧ c ≠ '\x7d' := by
  refine ⟨skip_of_solid (solid_of_numeric h) cs, ?_, ?_, ?_⟩ <;>
  · rintro rfl
    cases h

/-- What stands behind an item: another one, or the end. -/
def behind (close : Char) (more : List String) (rest : List Char) : List Char :=
  if more.isEmpty then close :: rest
  else ',' :: ((String.intercalate "," more).toList ++ close :: rest)

theorem closed_behind {close : Char} (h : close = ']' ∨ close = '\x7d') (more : List String)
    (rest : List Char) : Closed (behind close more rest) := by
  unfold behind
  split
  · exact closed_cons (.inr h)
  · exact closed_cons (.inl rfl)

theorem joined_cons (s : String) (more : List String) (close : Char) (rest : List Char) :
    (String.intercalate "," (s :: more)).toList ++ close :: rest =
      s.toList ++ behind close more rest := by
  cases more with
  | nil => simp [behind]
  | cons t more => simp [behind, String.intercalate_cons_cons]

theorem compressItems_isEmpty (xs : List Json) : (compressItems xs).isEmpty = xs.isEmpty := by
  cases xs <;> rfl

theorem compressFields_isEmpty (fs : List (String × Json)) :
    (compressFields fs).isEmpty = fs.isEmpty := by
  cases fs with
  | nil => rfl
  | cons f fs => rfl

/-- The items of a list are read one after another. -/
def ItemsRead (depth : Nat) (xs : List Json) : Prop :=
  ∀ (fuel : Nat) (acc : List Json) (rest : List Char), xs ≠ [] → xs.length ≤ fuel →
    items (value depth) fuel acc
        ((String.intercalate "," (compressItems xs)).toList ++ ']' :: rest) =
      (rereadItems depth xs).map fun ys => (.arr (acc.reverse ++ ys), rest)

/-- The value is read as expected, whatever stands behind it. -/
def ValueRead (depth : Nat) (v : Json) : Prop :=
  ∀ rest, Closed rest → Outcome (value depth ((compress v).toList ++ rest)) (reread depth v) rest

theorem itemsRead_cons {depth : Nat} {x : Json} {xs : List Json} (hx : ValueRead depth x)
    (hxs : ItemsRead depth xs) : ItemsRead depth (x :: xs) := by
  intro fuel acc rest _ hfuel
  obtain ⟨fuel, rfl⟩ : ∃ n, fuel = n + 1 := ⟨fuel - 1, by simp at hfuel; omega⟩
  have read := hx _ (closed_behind (.inl rfl) (compressItems xs) rest)
  rw [compressItems, joined_cons, items, rereadItems]
  cases expected : reread depth x with
  | none =>
    -- a number that is cut short leaves a character of a number, where an item should end
    rw [expected] at read
    rcases read with none | ⟨v, c, cs, stuck, hc⟩
    · rw [none]
      rfl
    · obtain ⟨here, comma, bracket, -⟩ := skip_of_numeric hc cs
      rw [stuck]
      dsimp only
      rw [here]
      split
      · next heq => exact absurd (List.cons.inj heq).1 comma
      · next heq => exact absurd (List.cons.inj heq).1 bracket
      · rfl
  | some y =>
    rw [expected] at read
    rw [show value depth _ = _ from read]
    dsimp only
    rw [behind, compressItems_isEmpty]
    cases xs with
    | nil => simp [skip_of_solid (c := ']') (by decide), rereadItems]
    | cons x' xs =>
      have later := hxs fuel (y :: acc) rest (by simp) (by simpa using hfuel)
      rw [List.isEmpty_cons, if_neg Bool.false_ne_true, skip_of_solid (c := ',') (by decide)]
      show items (value depth) fuel (y :: acc) _ = _
      rw [later]
      cases rereadItems depth (x' :: xs) with
      | none => rfl
      | some ys => simp

/-- The entries of a table are read one after another. -/
def FieldsRead (depth : Nat) (fs : List (String × Json)) : Prop :=
  ∀ (fuel : Nat) (acc : List (String × Json)) (rest : List Char), fs ≠ [] → fs.length ≤ fuel →
    entries (value depth) fuel acc
        ((String.intercalate "," (compressFields fs)).toList ++ '\x7d' :: rest) =
      (rereadFields depth fs).map fun gs => (.obj (Fields.ofWrites (acc.reverse ++ gs)), rest)

theorem fieldsRead_cons {depth : Nat} {k : String} {v : Json} {fs : List (String × Json)}
    (hv : ValueRead depth v) (hfs : FieldsRead depth fs) : FieldsRead depth ((k, v) :: fs) := by
  intro fuel acc rest _ hfuel
  obtain ⟨fuel, rfl⟩ : ∃ n, fuel = n + 1 := ⟨fuel - 1, by simp at hfuel; omega⟩
  have read := hv _ (closed_behind (.inr rfl) (compressFields fs) rest)
  have name : (quote k ++ ":" ++ compress v).toList ++ behind '\x7d' (compressFields fs) rest =
      '"' :: (k.toList.flatMap escapeChar ++ '"' :: ':' ::
        ((compress v).toList ++ behind '\x7d' (compressFields fs) rest)) := by
    simp [toList_quote]
  rw [compressFields, joined_cons, name, rereadFields]
  simp only [entries, skip_of_solid (show Solid '"' by decide), text_quote,
    skip_of_solid (show Solid ':' by decide)]
  cases expected : reread depth v with
  | none =>
    rw [expected] at read
    rcases read with none | ⟨w, c, cs, stuck, hc⟩
    · rw [none]
      rfl
    · obtain ⟨here, comma, -, brace⟩ := skip_of_numeric hc cs
      rw [stuck]
      dsimp only
      rw [here]
      split
      · next heq => exact absurd (List.cons.inj heq).1 comma
      · next heq => exact absurd (List.cons.inj heq).1 brace
      · rfl
  | some w =>
    rw [expected] at read
    rw [show value depth _ = _ from read]
    dsimp only
    rw [behind, compressFields_isEmpty]
    cases fs with
    | nil => simp [skip_of_solid (c := '\x7d') (by decide), rereadFields]
    | cons f fs =>
      have later := hfs fuel ((k, w) :: acc) rest (by simp) (by simpa using hfuel)
      rw [List.isEmpty_cons, if_neg Bool.false_ne_true, skip_of_solid (c := ',') (by decide)]
      show entries (value depth) fuel ((k, w) :: acc) _ = _
      rw [later]
      cases rereadFields depth (f :: fs) with
      | none => rfl
      | some gs => simp

/-! ## 6. Values -/

theorem length_le_joined (close : Char) (rest : List Char) {ss : List String}
    (h : ∀ s ∈ ss, s.toList ≠ []) :
    ss.length ≤ ((String.intercalate "," ss).toList ++ close :: rest).length := by
  induction ss with
  | nil => simp
  | cons s ss ih =>
    have := List.length_pos_iff.mpr (h s (by simp))
    have := ih fun t ht => h t (by simp [ht])
    rw [joined_cons, behind]
    cases ss with
    | nil =>
      simp only [List.isEmpty_nil, if_true, List.length_append, List.length_cons, List.length_nil]
      omega
    | cons t ss =>
      rw [List.isEmpty_cons, if_neg Bool.false_ne_true]
      simp only [List.length_append, List.length_cons] at this ⊢
      omega

theorem compress_ne_nil (v : Json) : (compress v).toList ≠ [] := by
  obtain ⟨c, cs, h, -⟩ := compress_head v
  simp [h]

theorem length_compressItems (xs : List Json) : (compressItems xs).length = xs.length := by
  induction xs with
  | nil => rfl
  | cons x xs ih => rw [compressItems, List.length_cons, List.length_cons, ih]

theorem length_compressFields (fs : List (String × Json)) :
    (compressFields fs).length = fs.length := by
  induction fs with
  | nil => rfl
  | cons f fs ih => rw [compressFields, List.length_cons, List.length_cons, ih]

theorem compressItems_ne_nil (xs : List Json) : ∀ s ∈ compressItems xs, s.toList ≠ [] := by
  induction xs with
  | nil => simp [compressItems]
  | cons x xs ih =>
    rw [compressItems]
    exact List.forall_mem_cons.mpr ⟨compress_ne_nil x, ih⟩

theorem compressFields_ne_nil (fs : List (String × Json)) :
    ∀ s ∈ compressFields fs, s.toList ≠ [] := by
  induction fs with
  | nil => simp [compressFields]
  | cons f fs ih =>
    rw [compressFields]
    exact List.forall_mem_cons.mpr ⟨by simp, ih⟩

/-- A list that is not empty is read item by item. -/
theorem value_items {depth : Nat} {c : Char} (deep : depth ≠ 0) (solid : Solid c)
    (bracket : c ≠ ']') (cs : List Char) :
    value (depth + 1) ('[' :: c :: cs) =
      items (value depth) ((c :: cs).length + 1) [] (c :: cs) := by
  show (if depth = 0 then none else _) = _
  rw [if_neg deep, skip_of_solid solid]
  split
  · next heq => exact absurd (List.cons.inj heq).1 bracket
  · rfl

theorem value_entries {depth : Nat} (deep : depth ≠ 0) (cs : List Char) :
    value (depth + 1) ('\x7b' :: '"' :: cs) =
      entries (value depth) (('"' :: cs).length + 1) [] ('"' :: cs) := by
  have opened : value (depth + 1) ('\x7b' :: '"' :: cs) =
      if depth = 0 then none
      else entries (value depth) (('"' :: cs).length + 1) [] ('"' :: cs) := rfl
  rw [opened, if_neg deep]

theorem valueRead_arr {depth : Nat} {xs : List Json} (h : ItemsRead depth xs) :
    ValueRead (depth + 1) (.arr xs) := by
  intro rest closed
  have text : (compress (.arr xs)).toList ++ rest =
      '[' :: ((String.intercalate "," (compressItems xs)).toList ++ ']' :: rest) := by
    simp [compress]
  rw [text, reread]
  by_cases shallow : depth = 0
  · subst shallow
    exact .inl rfl
  rw [if_neg shallow]
  cases xs with
  | nil =>
    have empty : value (depth + 1) ('[' :: ']' :: rest) =
        if depth = 0 then none else some (.arr [], rest) := rfl
    show Outcome (value (depth + 1) ('[' :: ']' :: rest)) _ _
    rw [empty, if_neg shallow]
    rfl
  | cons x xs =>
    obtain ⟨c, cs, hc, solid, bracket, -⟩ := compress_head x
    -- the fuel is the length of the text, and no item has an empty one
    have fuel := length_le_joined ']' rest (compressItems_ne_nil (x :: xs))
    rw [length_compressItems] at fuel
    have read := h _ [] rest (by simp) (Nat.le_succ_of_le fuel)
    rw [compressItems, joined_cons, hc, List.cons_append] at read ⊢
    rw [value_items shallow solid bracket]
    rw [show items _ _ _ _ = _ from read]
    cases rereadItems depth (x :: xs) with
    | none => exact .inl rfl
    | some ys => rfl

theorem valueRead_obj {depth : Nat} {fs : List (String × Json)} (h : FieldsRead depth fs) :
    ValueRead (depth + 1) (.obj fs) := by
  intro rest closed
  have text : (compress (.obj fs)).toList ++ rest =
      '\x7b' :: ((String.intercalate "," (compressFields fs)).toList ++ '\x7d' :: rest) := by
    simp [compress]
  rw [text, reread]
  by_cases shallow : depth = 0
  · subst shallow
    exact .inl rfl
  rw [if_neg shallow]
  cases fs with
  | nil =>
    have empty : value (depth + 1) ('\x7b' :: '\x7d' :: rest) =
        if depth = 0 then none else some (.obj [], rest) := rfl
    show Outcome (value (depth + 1) ('\x7b' :: '\x7d' :: rest)) _ _
    rw [empty, if_neg shallow]
    rfl
  | cons f fs =>
    obtain ⟨k, v⟩ := f
    have fuel := length_le_joined '\x7d' rest
      (compressFields_ne_nil ((k, v) :: fs))
    rw [length_compressFields] at fuel
    have read := h _ [] rest (by simp) (Nat.le_succ_of_le fuel)
    rw [compressFields, joined_cons, String.toList_append, String.toList_append, toList_quote,
      List.cons_append, List.cons_append, List.cons_append] at read ⊢
    rw [value_entries shallow]
    rw [show entries _ _ _ _ = _ from read]
    cases rereadFields depth ((k, v) :: fs) with
    | none => exact .inl rfl
    | some gs => rfl

theorem reread_zero (v : Json) : reread 0 v = none := by
  cases v <;> rfl

mutual

theorem valueRead : (depth : Nat) → (v : Json) → ValueRead depth v
  | 0, v => by
      intro rest _
      rw [reread_zero]
      exact .inl rfl
  | _ + 1, .null => fun _ _ => rfl
  | _ + 1, .bool true => fun _ _ => rfl
  | _ + 1, .bool false => fun _ _ => rfl
  | depth + 1, .num n => fun _ closed => outcome_number n depth closed
  | depth + 1, .str s => by
      intro rest _
      have text : (compress (.str s)).toList ++ rest =
          '"' :: (s.toList.flatMap escapeChar ++ '"' :: rest) := by
        simp [compress, toList_quote]
      have read : ∀ cs, value (depth + 1) ('"' :: cs) =
          (Reader.text cs).map fun p => (.str p.1, p.2) := fun _ => rfl
      rw [text, read, text_quote]
      rfl
  | depth + 1, .arr xs => valueRead_arr (itemsRead depth xs)
  | depth + 1, .obj fs => valueRead_obj (fieldsRead depth fs)

theorem itemsRead (depth : Nat) : (xs : List Json) → ItemsRead depth xs
  | [] => fun _ _ _ h => absurd rfl h
  | x :: xs => itemsRead_cons (valueRead depth x) (itemsRead depth xs)

theorem fieldsRead (depth : Nat) : (fs : List (String × Json)) → FieldsRead depth fs
  | [] => fun _ _ _ h => absurd rfl h
  | (_, v) :: fs => fieldsRead_cons (valueRead depth v) (fieldsRead depth fs)

end

/-- **What is read from the compact text of a value.** -/
theorem parse?_compress (v : Json) : parse? (compress v) = reread 128 v := by
  have read := valueRead 128 v [] closed_nil
  rw [List.append_nil] at read
  rw [parse?]
  cases expected : reread 128 v with
  | some w =>
    rw [expected] at read
    rw [show value 128 _ = _ from read]
    rfl
  | none =>
    rw [expected] at read
    rcases read with none | ⟨w, c, cs, stuck, hc⟩
    · rw [none]
    · -- something was read, but not to the end
      rw [stuck]
      dsimp only
      rw [(skip_of_numeric hc cs).1]
      rfl

end Json
end Runbook
