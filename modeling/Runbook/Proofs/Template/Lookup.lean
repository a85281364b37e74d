import Runbook.Proofs.Text
import Runbook.Template.Scope

/-!
# Where a path leads

A path is cut at its dots, and a name that is looked up is joined again from segments. The two are
inverse to each other as long as a name is *plain*: none of its segments is empty or has blanks
around it.

`Scope.follow` is the walk along segments without its measure. At a table the longest group of
segments goes first (`follow_obj_of_longest`), and the walk leads nowhere only if no group leads
anywhere (`follow_obj_eq_none_iff`). A table of which no name has dots is read one segment at a
time (`follow_dotless`); the layers of a scope are such a table.
-/

set_option autoImplicit false

namespace Runbook

namespace Text

/-! ## 1. Cutting and joining -/

theorem splitChars_eq_splitOn (sep : Char) (cs : List Char) :
    splitChars sep cs = cs.splitOn sep := by
  induction cs with
  | nil => rfl
  | cons c cs ih =>
    rw [splitChars, List.splitOn, List.splitOnP_cons_eq_if_modifyHead, ← List.splitOn, ← ih]
    cases h : splitChars sep cs with
    | nil => exact absurd h (splitChars_ne_nil sep cs)
    | cons p ps => by_cases hc : c = sep <;> simp [hc]

theorem splitChars_append (sep : Char) (a b : List Char) :
    splitChars sep (a ++ sep :: b) = splitChars sep a ++ splitChars sep b := by
  induction a with
  | nil =>
    cases h : splitChars sep b with
    | nil => exact absurd h (splitChars_ne_nil sep b)
    | cons p ps => simp [splitChars, h]
  | cons c a ih =>
    cases h : splitChars sep a with
    | nil => exact absurd h (splitChars_ne_nil sep a)
    | cons p ps =>
      rw [List.cons_append, splitChars, ih, splitChars, h]
      by_cases hc : c = sep <;> simp [hc]

theorem not_mem_of_mem_splitChars {sep : Char} {cs p : List Char} (h : p ∈ splitChars sep cs) :
    sep ∉ p := by
  induction cs generalizing p with
  | nil => simp_all [splitChars]
  | cons c cs ih =>
    unfold splitChars at h
    split at h
    · simp_all
    · next q qs hq =>
      rw [hq] at ih
      split at h
      · rcases List.mem_cons.mp h with rfl | h
        · simp
        · exact ih h
      · next hc =>
        rcases List.mem_cons.mp h with rfl | h
        · simp [Ne.symm hc, ih (List.mem_cons_self ..)]
        · exact ih (List.mem_cons_of_mem _ h)

theorem split_append (a b : String) :
    split '.' (a ++ "." ++ b) = split '.' a ++ split '.' b := by
  rw [split, split, split, ← List.map_append, ← splitChars_append]
  simp

theorem not_mem_of_mem_split {sep : Char} {s p : String} (h : p ∈ split sep s) :
    sep ∉ p.toList := by
  obtain ⟨q, hq, rfl⟩ := List.mem_map.mp h
  rw [String.toList_ofList]
  exact not_mem_of_mem_splitChars hq

theorem split_ne_nil (sep : Char) (s : String) : split sep s ≠ [] := by
  simpa [split] using splitChars_ne_nil sep s.toList

theorem split_length_pos (s : String) : 0 < (split '.' s).length :=
  List.length_pos_of_ne_nil (split_ne_nil '.' s)

theorem join_split (s : String) : join "." (split '.' s) = s := by
  apply String.toList_injective
  rw [join, String.toList_intercalate, split, List.map_map, splitChars_eq_splitOn]
  simp [Function.comp_def, List.intercalate_splitOn]

theorem split_injective {a b : String} (h : split '.' a = split '.' b) : a = b := by
  rw [← join_split a, h, join_split]

theorem split_join {names : List String} (h : ∀ n ∈ names, '.' ∉ n.toList) (some : names ≠ []) :
    split '.' (join "." names) = names := by
  rw [split, join, String.toList_intercalate, splitChars_eq_splitOn]
  have dotless : ∀ n ∈ names.map String.toList, '.' ∉ n := by simpa using h
  have back := List.splitOn_intercalate '.' dotless (by simpa using some)
  rw [show (".").toList = ['.'] from rfl, back, List.map_map]
  simp [Function.comp_def]

@[simp] theorem join_singleton (s : String) : join "." [s] = s := String.intercalate_singleton

/-- A name without dots is one segment. -/
theorem split_of_dotless {s : String} (h : '.' ∉ s.toList) : split '.' s = [s] := by
  have one : split '.' (join "." [s]) = [s] := split_join (by simpa using h) (by simp)
  rwa [join_singleton] at one

/-- A name that begins with the segments of another goes on with the others. -/
theorem inner_of_split {a b : String} {names : List String}
    (h : split '.' a ++ names = split '.' b) (some : names ≠ []) :
    split '.' (join "." names) = names ∧ b = a ++ "." ++ join "." names := by
  have cut : split '.' (join "." names) = names := by
    refine split_join (fun n hn => not_mem_of_mem_split (s := b) ?_) some
    rw [← h]
    exact List.mem_append_right _ hn
  refine ⟨cut, split_injective ?_⟩
  rw [split_append, cut, h]

end Text

namespace Scope

/-! ## 2. Names and their segments -/

/-- The name is read as it is written: no segment is empty or has blanks around it. -/
def Plain (name : String) : Prop := ∀ s ∈ Text.split '.' name, s ≠ "" ∧ Text.trim s = s

theorem Plain.segments_eq {name : String} (h : Plain name) : segments name = Text.split '.' name :=
  (List.map_congr_left fun s hs => (h s hs).2).trans (List.map_id _)

theorem Plain.filled {name : String} (h : Plain name) : "" ∉ segments name := by
  rw [h.segments_eq]
  exact fun empty => (h "" empty).1 rfl

/-- What stands behind a dot of a plain name is plain. -/
theorem Plain.inner {name inner : String} (h : Plain (name ++ "." ++ inner)) : Plain inner := by
  intro s hs
  apply h s
  rw [Text.split_append]
  exact List.mem_append_right _ hs

theorem segments_ne_nil (path : String) : segments path ≠ [] := by
  simpa [segments] using Text.split_ne_nil '.' path

theorem dotless_of_mem_segments {path s : String} (h : s ∈ segments path) : '.' ∉ s.toList := by
  obtain ⟨t, ht, rfl⟩ := List.mem_map.mp h
  exact fun hm => Text.not_mem_of_mem_split ht (Text.mem_of_mem_trim hm)

theorem segments_append (a b : String) :
    segments (a ++ "." ++ b) = segments a ++ segments b := by
  rw [segments, segments, segments, ← List.map_append, ← Text.split_append]

/-- A path is read as if there were no blanks in it. -/
theorem segments_join_segments (path : String) :
    segments (Text.join "." (segments path)) = segments path := by
  rw [segments, Text.split_join (fun _ => dotless_of_mem_segments) (segments_ne_nil path)]
  simp [segments, Text.trim_trim]

theorem plain_join_segments {path : String} (h : "" ∉ segments path) :
    Plain (Text.join "." (segments path)) := by
  intro s hs
  rw [Text.split_join (fun _ => dotless_of_mem_segments) (segments_ne_nil path)] at hs
  refine ⟨fun empty => h (empty ▸ hs), ?_⟩
  obtain ⟨t, -, rfl⟩ := List.mem_map.mp hs
  exact Text.trim_trim t

/-- A group of segments is a name with these segments. -/
theorem split_groupName {segs : List String} {k : Nat} (dotless : ∀ s ∈ segs, '.' ∉ s.toList)
    (pos : 0 < k) (hk : k ≤ segs.length) :
    Text.split '.' (groupName segs k) = segs.take k := by
  apply Text.split_join
  · exact fun s hs => dotless s (List.mem_of_mem_take hs)
  · apply List.ne_nil_of_length_pos
    rw [List.length_take]
    omega

theorem groupName_of_begins {name : String} {segs : List String}
    (h : Text.split '.' name <+: segs) :
    groupName segs (Text.split '.' name).length = name := by
  rw [groupName, ← List.prefix_iff_eq_take.mp h, Text.join_split]

/-! ## 3. Following a path -/

/-- What the segments lead to. -/
def follow (v : Json) (segs : List String) : Option Json := walk segs.length v segs

section

variable {step step' : Json → List String → Option Json} {fs : Fields Json} {segs : List String}

theorem tryGroups_congr {n : Nat}
    (h : ∀ child k, 0 < k → k ≤ n → step child (segs.drop k) = step' child (segs.drop k)) :
    tryGroups step fs segs n = tryGroups step' fs segs n := by
  induction n with
  | zero => rfl
  | succ n ih =>
    have shorter := ih fun child k pos hk => h child k pos (Nat.le_succ_of_le hk)
    simp only [tryGroups, shorter, h _ (n + 1) (Nat.succ_pos n) (Nat.le_refl _)]

theorem tryGroups_eq_none_iff {n : Nat} :
    tryGroups step fs segs n = none ↔
      ∀ k child, 0 < k → k ≤ n → Fields.get? (groupName segs k) fs = some child →
        step child (segs.drop k) = none := by
  induction n with
  | zero =>
    refine ⟨fun _ k child pos hk => ?_, fun _ => rfl⟩
    omega
  | succ n ih =>
    have here : tryGroups step fs segs (n + 1) = none ↔
        (∀ child, Fields.get? (groupName segs (n + 1)) fs = some child →
          step child (segs.drop (n + 1)) = none) ∧ tryGroups step fs segs n = none := by
      rw [tryGroups]
      cases Fields.get? (groupName segs (n + 1)) fs with
      | none => simp
      | some child => cases hs : step child (segs.drop (n + 1)) <;> simp [hs]
    rw [here, ih]
    constructor
    · rintro ⟨longest, shorter⟩ k child pos hk found
      rcases Nat.lt_or_eq_of_le hk with hk | rfl
      · exact shorter k child pos (Nat.le_of_lt_succ hk) found
      · exact longest child found
    · intro all
      exact ⟨fun child found => all (n + 1) child (Nat.succ_pos n) (Nat.le_refl _) found,
        fun k child pos hk found => all k child pos (Nat.le_succ_of_le hk) found⟩

/-- The longest group that leads anywhere decides. -/
theorem tryGroups_of_longest {n k : Nat} {child v : Json} (pos : 0 < k) (hk : k ≤ n)
    (found : Fields.get? (groupName segs k) fs = some child)
    (leads : step child (segs.drop k) = some v)
    (longer : ∀ m child, k < m → m ≤ n → Fields.get? (groupName segs m) fs = some child →
      step child (segs.drop m) = none) :
    tryGroups step fs segs n = some v := by
  induction n with
  | zero => omega
  | succ n ih =>
    rw [tryGroups]
    rcases Nat.lt_or_eq_of_le hk with hk | rfl
    · have shorter := ih (Nat.le_of_lt_succ hk) fun m child hm hle =>
        longer m child hm (Nat.le_succ_of_le hle)
      split
      · next child' found' =>
        rw [longer (n + 1) child' hk (Nat.le_refl _) found']
        exact shorter
      · exact shorter
    · rw [found]
      simp only [leads]

end

/-- The measure of the walk does not matter. -/
theorem walk_congr {d d' : Nat} {v : Json} {segs : List String} (h : segs.length ≤ d)
    (h' : segs.length ≤ d') : walk d v segs = walk d' v segs := by
  induction d generalizing d' v segs with
  | zero =>
    obtain rfl := List.length_eq_zero_iff.mp (Nat.le_zero.mp h)
    rw [walk, walk]
  | succ d ih =>
    cases segs with
    | nil => rw [walk, walk]
    | cons s rest =>
      obtain ⟨d', rfl⟩ := Nat.exists_eq_succ_of_ne_zero (Nat.ne_zero_of_lt h')
      have hd : rest.length ≤ d := Nat.le_of_succ_le_succ h
      have hd' : rest.length ≤ d' := Nat.le_of_succ_le_succ h'
      cases v with
      | obj fs =>
        rw [walk, walk]
        refine tryGroups_congr fun child k pos _ => ?_
        -- a group has at least one segment
        have shorter : ((s :: rest).drop k).length ≤ rest.length := by
          rw [List.length_drop, List.length_cons]
          omega
        exact ih (shorter.trans hd) (shorter.trans hd')
      | arr items =>
        rw [walk, walk]
        simp only [ih hd hd']
      | null | bool | num | str => rfl

@[simp] theorem follow_nil (v : Json) : follow v [] = some v := by
  rw [follow, walk]

theorem follow_obj (fs : Fields Json) {segs : List String} (h : segs ≠ []) :
    follow (.obj fs) segs = tryGroups follow fs segs segs.length := by
  obtain ⟨s, rest, rfl⟩ := List.exists_cons_of_ne_nil h
  rw [follow, List.length_cons, walk]
  refine tryGroups_congr fun child k pos _ => walk_congr ?_ (Nat.le_refl _)
  rw [List.length_drop, List.length_cons]
  omega

/-- A table leads nowhere if no group of segments does. -/
theorem follow_obj_eq_none_iff {fs : Fields Json} {segs : List String} (h : segs ≠ []) :
    follow (.obj fs) segs = none ↔
      ∀ k child, 0 < k → k ≤ segs.length → Fields.get? (groupName segs k) fs = some child →
        follow child (segs.drop k) = none := by
  rw [follow_obj fs h, tryGroups_eq_none_iff]

/-- The longest group that leads anywhere decides. -/
theorem follow_obj_of_longest {fs : Fields Json} {segs : List String} {k : Nat} {child v : Json}
    (pos : 0 < k) (hk : k ≤ segs.length) (found : Fields.get? (groupName segs k) fs = some child)
    (leads : follow child (segs.drop k) = some v)
    (longer : ∀ m child, k < m → m ≤ segs.length →
      Fields.get? (groupName segs m) fs = some child → follow child (segs.drop m) = none) :
    follow (.obj fs) segs = some v := by
  have h : segs ≠ [] := by
    rintro rfl
    exact absurd hk (Nat.not_le_of_lt pos)
  rw [follow_obj fs h]
  exact tryGroups_of_longest pos hk found leads longer

/-- A name of several segments has a dot. -/
theorem dot_mem_groupName {segs : List String} {k : Nat} (several : 1 < k) (hk : k ≤ segs.length) :
    '.' ∈ (groupName segs k).toList := by
  obtain ⟨k, rfl⟩ := Nat.exists_eq_add_of_lt several
  match segs with
  | [] => simp at hk
  | [_] => simp at hk
  | a :: b :: rest =>
    rw [groupName, show 1 + k + 1 = k + 1 + 1 by omega, List.take_succ_cons, List.take_succ_cons,
      Text.join, String.intercalate_cons_cons]
    simp

/-- A table of which no name has dots is read one segment at a time. -/
theorem follow_dotless {fs : Fields Json} (dotless : ∀ name ∈ fs.names, '.' ∉ name.toList)
    (s : String) (rest : List String) :
    follow (.obj fs) (s :: rest) = (Fields.get? s fs).bind fun child => follow child rest := by
  have one : groupName (s :: rest) 1 = s := Text.join_singleton s
  -- longer groups have dots, so they are no names of the table
  have longer : ∀ m child, 1 < m → m ≤ (s :: rest).length →
      Fields.get? (groupName (s :: rest) m) fs ≠ some child := by
    intro m child several hm found
    have named := (Fields.get?_isSome_iff (groupName (s :: rest) m) fs).mp (by rw [found]; rfl)
    exact dotless _ named (dot_mem_groupName several hm)
  cases leads : (Fields.get? s fs).bind fun child => follow child rest with
  | some v =>
    obtain ⟨child, found, leads⟩ := Option.bind_eq_some_iff.mp leads
    refine follow_obj_of_longest Nat.one_pos (by simp) (one.symm ▸ found) leads ?_
    exact fun m child several hm found => absurd found (longer m child several hm)
  | none =>
    refine (follow_obj_eq_none_iff (by simp)).mpr fun k child pos hk found => ?_
    rcases Nat.lt_or_eq_of_le (Nat.succ_le_of_lt pos) with several | rfl
    · exact absurd found (longer k child several hk)
    · rw [one] at found
      rwa [found] at leads

/-! ## 4. Scopes -/

theorem lookup_eq_none_of_empty (s : Scope) {path : String} (h : "" ∈ segments path) :
    s.lookup path = none := by
  have empty : (segments path).any String.isEmpty = true :=
    List.any_eq_true.mpr ⟨"", h, rfl⟩
  rw [lookup, if_pos empty]

theorem layer_of_mem_root {s : Scope} {name : String} (h : name ∈ s.root.names) :
    name ∈ ["params", "steps", "memory"] := by
  obtain ⟨params, steps, memory⟩ := s
  cases params <;> cases steps <;> cases memory <;> simp [root, Fields.names] at h ⊢ <;> grind

theorem dotless_root (s : Scope) : ∀ name ∈ s.root.names, '.' ∉ name.toList := by
  have dotless : ∀ l ∈ ["params", "steps", "memory"], '.' ∉ l.toList := by decide
  exact fun name h => dotless name (layer_of_mem_root h)

/-- The first segment picks a layer, and the others lead on from there. -/
theorem lookup_layer (s : Scope) {path layer : String} {rest : List String}
    (h : segments path = layer :: rest) (filled : "" ∉ segments path) :
    s.lookup path = (Fields.get? layer s.root).bind fun v => follow v rest := by
  have whole : (segments path).any String.isEmpty = false := by
    refine List.any_eq_false.mpr fun t ht empty => filled ?_
    rwa [String.isEmpty_iff.mp empty] at ht
  rw [lookup, whole, ← follow_dotless s.dotless_root layer rest, ← h]
  rfl

end Scope
end Runbook
