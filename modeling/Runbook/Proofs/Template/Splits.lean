import Mathlib.Data.List.Flatten
import Mathlib.Data.List.Lex
import Mathlib.Order.Basic
import Runbook.Proofs.Template.Lookup

/-!
# Which split of a path is followed

The segments of a path can be cut into consecutive groups in many ways. Along one split there is at
most one way to go: a group is a name of a table, and a single segment is an index in a list
(`Scope.reach?`). The walk tries many splits and keeps none of them, but it always ends up where the
*longest* split leads that leads anywhere, lengths being compared from the first group on
(`follow_eq_some_iff`).

So a value is found under the names that lead to it, dots inside of names included, unless a longer
name captures the path on the way.
-/

set_option autoImplicit false

namespace Runbook

/-- A numeral has no dots. -/
theorem Text.word?_of_dot {s : String} (dot : '.' ∈ s.toList) : word? s = none := by
  have none : ∀ cs : List Char, '.' ∈ cs → boundedDigits? (Nat.pow 2 64) cs = .none := by
    intro cs hcs
    have digits : cs.all isDigit = false :=
      List.all_eq_false.mpr ⟨'.', hcs, by decide⟩
    simp [boundedDigits?, digits]
  rw [word?, bounded?]
  split
  · next cs h =>
    rw [h] at dot
    exact none cs (by simpa using dot)
  · exact none _ dot

namespace Scope

variable {v u child : Json} {segs : List String} {groups others : List (List String)}

/-! ## 1. Splits -/

/-- The segments, cut into groups. -/
structure Splits (segs : List String) (groups : List (List String)) : Prop where
  whole : groups.flatten = segs
  filled : [] ∉ groups

/-- How many segments each group has. -/
def lengths (groups : List (List String)) : List Nat := groups.map List.length

theorem splits_nil_iff : Splits [] groups ↔ groups = [] := by
  constructor
  · rintro ⟨whole, filled⟩
    cases groups with
    | nil => rfl
    | cons g gs =>
      obtain ⟨rfl, -⟩ := List.append_eq_nil_iff.mp whole
      exact absurd (List.mem_cons_self ..) filled
  · rintro rfl
    exact ⟨rfl, by simp⟩

theorem splits_cons_iff {g : List String} {gs : List (List String)} :
    Splits segs (g :: gs) ↔
      0 < g.length ∧ g = segs.take g.length ∧ Splits (segs.drop g.length) gs := by
  constructor
  · rintro ⟨rfl, filled⟩
    simp only [List.mem_cons, not_or] at filled
    rw [List.flatten_cons, List.take_left, List.drop_left]
    exact ⟨List.length_pos_of_ne_nil (Ne.symm filled.1), rfl, rfl, filled.2⟩
  · rintro ⟨pos, first, rest⟩
    refine ⟨?_, ?_⟩
    · rw [List.flatten_cons, rest.whole, ← List.take_append_drop g.length segs, ← first]
      simp
    · simp only [List.mem_cons, not_or]
      exact ⟨Ne.symm (List.ne_nil_of_length_pos pos), rest.filled⟩

theorem Splits.first_le {g : List String} {gs : List (List String)} (h : Splits segs (g :: gs)) :
    g.length ≤ segs.length := by
  rw [← h.whole, List.flatten_cons, List.length_append]
  exact Nat.le_add_right _ _

/-- A split is told by the lengths of its groups. -/
theorem Splits.eq_of_lengths (h : Splits segs groups) (h' : Splits segs others)
    (same : lengths groups = lengths others) : groups = others :=
  List.eq_iff_flatten_eq.mpr ⟨h.whole.trans h'.whole.symm, same⟩

/-! ## 2. Going along a split -/

/-- One level down: a group is a name of a table, and a single segment is an index in a list. -/
def child? : Json → List String → Option Json
  | .obj fs, group => Fields.get? (Text.join "." group) fs
  | .arr items, [s] => (Text.word? s).bind fun i => items[i]?
  | _, _ => none

/-- What the groups lead to, level by level. -/
def reach? : Json → List (List String) → Option Json
  | v, [] => some v
  | v, g :: gs => (child? v g).bind fun child => reach? child gs

theorem reach?_cons_isSome {g : List String} {gs : List (List String)} :
    (reach? v (g :: gs)).isSome ↔
      ∃ child, child? v g = some child ∧ (reach? child gs).isSome := by
  rw [reach?]
  cases child? v g <;> simp

/-- Only the names of tables take several segments. -/
theorem length_of_child? {g : List String} (h : child? v g = some child)
    (table : ∀ fs, v ≠ .obj fs) : g.length = 1 := by
  unfold child? at h
  split at h
  · exact absurd rfl (table _)
  · rfl
  · cases h

/-- Outside of tables there is one way to go. -/
theorem follow_of_child? {s : String} {rest : List String} (table : ∀ fs, v ≠ .obj fs) :
    follow v (s :: rest) = (child? v [s]).bind fun child => follow child rest := by
  cases v with
  | obj fs => exact absurd rfl (table fs)
  | arr items => simp [follow, walk, child?, Option.bind_assoc]
  | null | bool | num | str => rfl

/-- A walk that leads nowhere leads nowhere along any group. -/
theorem follow_eq_none_of_child? {k : Nat} (nowhere : follow v segs = none) (pos : 0 < k)
    (fits : k ≤ segs.length) (found : child? v (segs.take k) = some child) :
    follow child (segs.drop k) = none := by
  have some : segs ≠ [] := List.ne_nil_of_length_pos (pos.trans_le fits)
  by_cases table : ∀ fs, v ≠ .obj fs
  · obtain ⟨s, rest, rfl⟩ := List.exists_cons_of_ne_nil some
    have one : k = 1 := by
      have one := length_of_child? found table
      rwa [List.length_take, Nat.min_eq_left fits] at one
    subst one
    rw [follow_of_child? table] at nowhere
    exact Option.bind_eq_none_iff.mp nowhere child found
  · push Not at table
    obtain ⟨fs, rfl⟩ := table
    exact (follow_obj_eq_none_iff some).mp nowhere k child pos fits found

/-- The group that the walk takes at a table. -/
theorem tryGroups_eq_some {step : Json → List String → Option Json} {fs : Fields Json} {n : Nat}
    (h : tryGroups step fs segs n = some u) :
    ∃ k child, 0 < k ∧ k ≤ n ∧ Fields.get? (groupName segs k) fs = some child ∧
      step child (segs.drop k) = some u ∧
      ∀ m other, k < m → m ≤ n → Fields.get? (groupName segs m) fs = some other →
        step other (segs.drop m) = none := by
  induction n with
  | zero => cases h
  | succ n ih =>
    -- the group of all `n + 1` segments decides, unless it leads nowhere
    by_cases leads : ∃ child, Fields.get? (groupName segs (n + 1)) fs = some child ∧
        step child (segs.drop (n + 1)) ≠ none
    · obtain ⟨child, found, onward⟩ := leads
      obtain ⟨w, onward⟩ := Option.ne_none_iff_exists'.mp onward
      rw [tryGroups, found] at h
      simp only [onward] at h
      refine ⟨n + 1, child, Nat.succ_pos n, Nat.le_refl _, found, onward.trans h, ?_⟩
      intro m other longer fits
      omega
    · push Not at leads
      have shorter : tryGroups step fs segs n = some u := by
        rw [tryGroups] at h
        split at h
        · next child found => rwa [leads child found] at h
        · exact h
      obtain ⟨k, child, pos, fits, found, onward, longer⟩ := ih shorter
      refine ⟨k, child, pos, Nat.le_succ_of_le fits, found, onward, fun m other hm hle at_m => ?_⟩
      rcases Nat.lt_or_eq_of_le hle with hlt | rfl
      · exact longer m other hm (Nat.le_of_lt_succ hlt) at_m
      · exact leads other at_m

/-- A walk that leads somewhere does so along one group, and along no longer one. -/
theorem child?_of_follow_eq_some (some : segs ≠ []) (h : follow v segs = .some u) :
    ∃ k child, 0 < k ∧ k ≤ segs.length ∧ child? v (segs.take k) = .some child ∧
      follow child (segs.drop k) = .some u ∧
      ∀ m other, k < m → m ≤ segs.length → child? v (segs.take m) = .some other →
        follow other (segs.drop m) = none := by
  by_cases table : ∀ fs, v ≠ .obj fs
  · obtain ⟨s, rest, rfl⟩ := List.exists_cons_of_ne_nil some
    rw [follow_of_child? table] at h
    obtain ⟨child, found, onward⟩ := Option.bind_eq_some_iff.mp h
    refine ⟨1, child, Nat.one_pos, by simp, found, onward, fun m other longer fits found => ?_⟩
    have one := length_of_child? found table
    rw [List.length_take, Nat.min_eq_left fits] at one
    omega
  · push Not at table
    obtain ⟨fs, rfl⟩ := table
    rw [follow_obj fs some] at h
    exact tryGroups_eq_some h

/-! ## 3. The longest split -/

/-- A split that leads to a value. Of those that lead anywhere, its groups are the longest, the
first of them before the others. -/
structure Longest (v : Json) (segs : List String) (groups : List (List String)) (u : Json) :
    Prop where
  split : Splits segs groups
  reached : reach? v groups = some u
  longest : ∀ others, Splits segs others → (reach? v others).isSome →
    lengths others ≤ lengths groups

/-- Whatever a split leads to, the walk leads somewhere. -/
theorem follow_isSome_of_reach (split : Splits segs groups) (reached : (reach? v groups).isSome) :
    (follow v segs).isSome := by
  induction groups generalizing v segs with
  | nil =>
    obtain rfl : [] = segs := split.whole
    rw [follow_nil]
    rfl
  | cons g gs ih =>
    obtain ⟨pos, first, rest⟩ := splits_cons_iff.mp split
    obtain ⟨child, found, onward⟩ := reach?_cons_isSome.mp reached
    have leads := ih rest onward
    refine Option.isSome_iff_ne_none.mpr fun nowhere => ?_
    rw [first] at found
    rw [follow_eq_none_of_child? nowhere pos split.first_le found] at leads
    cases leads

/-- A group beyond which nothing leads anywhere begins the longest split. -/
theorem Longest.cons {k : Nat} (inner : Longest child (segs.drop k) groups u) (pos : 0 < k)
    (fits : k ≤ segs.length) (found : child? v (segs.take k) = some child)
    (longer : ∀ m other, k < m → m ≤ segs.length → child? v (segs.take m) = some other →
      follow other (segs.drop m) = none) :
    Longest v segs (segs.take k :: groups) u := by
  have size : (segs.take k).length = k := by
    rw [List.length_take, Nat.min_eq_left fits]
  refine ⟨?_, ?_, fun others split reached => ?_⟩
  · refine splits_cons_iff.mpr ⟨size.symm ▸ pos, ?_, size.symm ▸ inner.split⟩
    rw [size]
  · rw [reach?, found]
    exact inner.reached
  · cases others with
    | nil =>
      have none : segs = [] := split.whole.symm
      rw [none, List.length_nil] at fits
      omega
    | cons o os =>
      obtain ⟨-, first, rest⟩ := splits_cons_iff.mp split
      obtain ⟨other, ofound, onward⟩ := reach?_cons_isSome.mp reached
      rw [lengths, lengths, List.map_cons, List.map_cons, size]
      rcases Nat.lt_trichotomy o.length k with shorter | same | more
      · exact le_of_lt (List.cons_lt_cons_iff.mpr (.inl shorter))
      · subst same
        rw [← first, ofound] at found
        obtain rfl := Option.some.inj found
        exact List.cons_le_cons _ (inner.longest os rest onward)
      · have leads := follow_isSome_of_reach rest onward
        rw [longer o.length other more split.first_le (first ▸ ofound)] at leads
        cases leads

/-- The walk takes the longest split. -/
theorem exists_longest_of_follow (h : follow v segs = some u) :
    ∃ groups, Longest v segs groups u := by
  induction hn : segs.length using Nat.strong_induction_on generalizing v segs with
  | _ n ih =>
    subst hn
    by_cases none : segs = []
    · subst none
      rw [follow_nil] at h
      refine ⟨[], splits_nil_iff.mpr rfl, h, fun others split _ => ?_⟩
      rw [splits_nil_iff.mp split]
    · obtain ⟨k, child, pos, fits, found, onward, longer⟩ := child?_of_follow_eq_some none h
      have shrinks : (segs.drop k).length < segs.length := by
        rw [List.length_drop]
        omega
      obtain ⟨gs, inner⟩ := ih _ shrinks onward rfl
      exact ⟨_, inner.cons pos fits found longer⟩

/-- Two longest splits are one. -/
theorem Longest.unique {w : Json} (h : Longest v segs groups u) (h' : Longest v segs others w) :
    u = w := by
  have same : lengths groups = lengths others :=
    le_antisymm (h'.longest groups h.split (by rw [h.reached]; rfl))
      (h.longest others h'.split (by rw [h'.reached]; rfl))
  obtain rfl := h.split.eq_of_lengths h'.split same
  exact Option.some.inj (h.reached.symm.trans h'.reached)

theorem follow_eq_some_iff : follow v segs = some u ↔ ∃ groups, Longest v segs groups u := by
  constructor
  · exact exists_longest_of_follow
  · rintro ⟨groups, longest⟩
    have leads := follow_isSome_of_reach longest.split (by rw [longest.reached]; rfl)
    obtain ⟨w, hw⟩ := Option.isSome_iff_exists.mp leads
    obtain ⟨others, taken⟩ := exists_longest_of_follow hw
    rw [hw, longest.unique taken]

/-! ## 4. Chains of names -/

/-- One level down: the value under a name of a table, or at an index in a list. -/
def named? : Json → String → Option Json
  | .obj fs, name => Fields.get? name fs
  | .arr items, name => (Text.word? name).bind fun i => items[i]?
  | _, _ => none

/-- What a chain of names leads to, level by level. -/
def along? : Json → List String → Option Json
  | v, [] => some v
  | v, name :: names => (named? v name).bind fun child => along? child names

/-- A name is the group of its segments. -/
theorem child?_split (v : Json) (name : String) : child? v (Text.split '.' name) = named? v name := by
  cases v with
  | obj fs => rw [child?, named?, Text.join_split]
  | arr items =>
    have joined := Text.join_split name
    match h : Text.split '.' name with
    | [] => exact absurd h (Text.split_ne_nil '.' name)
    | [s] =>
      rw [h, Text.join_singleton] at joined
      rw [child?, named?, joined]
    | a :: b :: rest =>
      have dot : '.' ∈ name.toList := by
        rw [← joined, h, Text.join, String.intercalate_cons_cons]
        simp
      simp [child?, named?, Text.word?_of_dot dot]
  | null | bool | num | str => rfl

theorem reach?_split (v : Json) (names : List String) :
    reach? v (names.map (Text.split '.')) = along? v names := by
  induction names generalizing v with
  | nil => rfl
  | cons name names ih =>
    rw [List.map_cons, reach?, along?, child?_split]
    exact Option.bind_congr fun child _ => ih child

/-- Somewhere along the chain, a longer name leads on along the same path: it goes on behind the
segments of the next name of the chain. -/
def Captured (v : Json) (names : List String) : Prop :=
  ∃ front name back level group groups, names = front ++ name :: back ∧
    along? v front = some level ∧
    Splits ((name :: back).flatMap (Text.split '.')) (group :: groups) ∧
    (Text.split '.' name).length < group.length ∧ (reach? level (group :: groups)).isSome

theorem Captured.cons {name : String} {names : List String} (h : Captured child names)
    (found : named? v name = some child) : Captured v (name :: names) := by
  obtain ⟨front, next, back, level, group, groups, rfl, reached, rest⟩ := h
  refine ⟨name :: front, next, back, level, group, groups, rfl, ?_, rest⟩
  rw [along?, found]
  exact reached

theorem splits_map_split (names : List String) :
    Splits (names.flatMap (Text.split '.')) (names.map (Text.split '.')) where
  whole := List.flatMap_def.symm
  filled := by
    simp only [List.mem_map, not_exists, not_and]
    exact fun name _ => Text.split_ne_nil '.' name

/-- A chain is the longest split of its path, unless a longer name captures it. -/
theorem longest_of_not_captured {names : List String} (reached : along? v names = some u)
    (free : ¬ Captured v names) :
    Longest v (names.flatMap (Text.split '.')) (names.map (Text.split '.')) u := by
  refine ⟨splits_map_split names, (reach?_split v names).trans reached, ?_⟩
  intro others split leads
  induction names generalizing v others with
  | nil =>
    rw [splits_nil_iff.mp split]
    exact le_rfl
  | cons name names ih =>
    obtain ⟨child, found, onward⟩ := Option.bind_eq_some_iff.mp reached
    cases others with
    | nil =>
      exact absurd (List.append_eq_nil_iff.mp split.whole.symm).1 (Text.split_ne_nil '.' name)
    | cons o os =>
      rw [lengths, lengths, List.map_cons, List.map_cons, List.map_cons]
      rcases Nat.lt_trichotomy o.length (Text.split '.' name).length with shorter | same | more
      · exact le_of_lt (List.cons_lt_cons_iff.mpr (.inl shorter))
      · obtain ⟨-, first, rest⟩ := splits_cons_iff.mp split
        rw [List.flatMap_cons, same, List.take_left] at first
        rw [List.flatMap_cons, same, List.drop_left] at rest
        obtain ⟨other, ofound, oonward⟩ := reach?_cons_isSome.mp leads
        rw [first, child?_split, found] at ofound
        obtain rfl := Option.some.inj ofound
        rw [same]
        refine List.cons_le_cons _ (ih onward (fun h => free (h.cons found)) os rest oonward)
      · exact absurd ⟨[], name, names, v, o, os, rfl, rfl, split, more, leads⟩ free

/-! ## 5. Lookups -/

theorem split_join_eq_flatMap {names : List String} (some : names ≠ []) :
    Text.split '.' (Text.join "." names) = names.flatMap (Text.split '.') := by
  induction names with
  | nil => exact absurd rfl some
  | cons name names ih =>
    cases names with
    | nil => simp
    | cons next names =>
      rw [Text.join, String.intercalate_cons_cons, Text.split_append, List.flatMap_cons,
        ← ih (List.cons_ne_nil _ _)]
      rfl

theorem plain_root (s : Scope) : ∀ name ∈ s.root.names, Plain name := by
  have plain : ∀ l ∈ ["params", "steps", "memory"], Plain l := by
    simp only [Plain]
    decide
  exact fun name h => plain name (layer_of_mem_root h)

theorem segments_join {names : List String} (plain : ∀ name ∈ names, Plain name)
    (some : names ≠ []) :
    segments (Text.join "." names) = names.flatMap (Text.split '.') := by
  have cut := split_join_eq_flatMap some
  refine (Plain.segments_eq fun t ht => ?_).trans cut
  rw [cut] at ht
  obtain ⟨name, hname, ht⟩ := List.mem_flatMap.mp ht
  exact plain name hname t ht

theorem lookup_eq_some_iff (s : Scope) (path : String) (v : Json) :
    s.lookup path = some v ↔ "" ∉ segments path ∧
      ∃ layer rest root groups, segments path = layer :: rest ∧
        Fields.get? layer s.root = some root ∧ Longest root rest groups v := by
  by_cases filled : "" ∈ segments path
  · simp [lookup_eq_none_of_empty s filled, filled]
  · obtain ⟨layer, rest, cut⟩ := List.exists_cons_of_ne_nil (segments_ne_nil path)
    rw [lookup_layer s cut filled, Option.bind_eq_some_iff]
    simp only [follow_eq_some_iff]
    constructor
    · rintro ⟨root, atLayer, groups, longest⟩
      exact ⟨filled, layer, rest, root, groups, cut, atLayer, longest⟩
    · rintro ⟨-, layer', rest', root, groups, cut', atLayer, longest⟩
      obtain ⟨rfl, rfl⟩ := List.cons.inj (cut.symm.trans cut')
      exact ⟨root, atLayer, groups, longest⟩

theorem lookup_isSome_iff (s : Scope) (path : String) :
    (s.lookup path).isSome ↔ "" ∉ segments path ∧
      ∃ layer rest root groups, segments path = layer :: rest ∧
        Fields.get? layer s.root = some root ∧ Splits rest groups ∧
          (reach? root groups).isSome := by
  rw [Option.isSome_iff_exists]
  constructor
  · rintro ⟨v, hv⟩
    obtain ⟨filled, layer, rest, root, groups, cut, atLayer, longest⟩ :=
      (lookup_eq_some_iff s path v).mp hv
    have reached : (reach? root groups).isSome := by
      rw [longest.reached]
      rfl
    exact ⟨filled, layer, rest, root, groups, cut, atLayer, longest.split, reached⟩
  · rintro ⟨filled, layer, rest, root, groups, cut, atLayer, split, reached⟩
    obtain ⟨v, hv⟩ := Option.isSome_iff_exists.mp (follow_isSome_of_reach split reached)
    refine ⟨v, ?_⟩
    rw [lookup_layer s cut filled, atLayer]
    exact hv

/-- A chain of plain names under a layer, written as one path. -/
theorem segments_chain (s : Scope) {layer : String} {root : Json} {names : List String}
    (atLayer : Fields.get? layer s.root = some root) (plain : ∀ name ∈ names, Plain name) :
    segments (Text.join "." (layer :: names)) = layer :: names.flatMap (Text.split '.') ∧
      "" ∉ segments (Text.join "." (layer :: names)) := by
  have named : layer ∈ s.root.names :=
    (Fields.get?_isSome_iff layer s.root).mp (by rw [atLayer]; rfl)
  have whole : ∀ name ∈ layer :: names, Plain name := by
    rintro name (_ | ⟨_, h⟩)
    · exact plain_root s layer named
    · exact plain name h
  have cut := segments_join whole (List.cons_ne_nil _ _)
  constructor
  · rw [cut, List.flatMap_cons, Text.split_of_dotless (dotless_root s layer named)]
    rfl
  · rw [cut]
    intro empty
    obtain ⟨name, hname, h⟩ := List.mem_flatMap.mp empty
    exact (whole name hname "" h).1 rfl

/-- A lookup finds something exactly if no segment is empty and some split of the segments behind
the layer leads somewhere, and what it finds is what the longest of these splits leads to. A value
is found under the names that lead to it, unless a longer name captures the path. -/
theorem lookup_by_longest_split (s : Scope) :
    (∀ path, (s.lookup path).isSome ↔ "" ∉ segments path ∧
      ∃ layer rest root groups, segments path = layer :: rest ∧
        Fields.get? layer s.root = some root ∧ Splits rest groups ∧ (reach? root groups).isSome) ∧
    (∀ path v, s.lookup path = some v ↔ "" ∉ segments path ∧
      ∃ layer rest root groups, segments path = layer :: rest ∧
        Fields.get? layer s.root = some root ∧ Longest root rest groups v) ∧
    ∀ layer root names v, Fields.get? layer s.root = some root → (∀ name ∈ names, Plain name) →
      along? root names = some v →
      (s.lookup (Text.join "." (layer :: names))).isSome ∧
      (¬ Captured root names → s.lookup (Text.join "." (layer :: names)) = some v) := by
  refine ⟨lookup_isSome_iff s, lookup_eq_some_iff s, ?_⟩
  intro layer root names v atLayer plain reached
  obtain ⟨cut, filled⟩ := segments_chain s atLayer plain
  constructor
  · have leads : (reach? root (names.map (Text.split '.'))).isSome := by
      rw [reach?_split, reached]
      rfl
    exact (lookup_isSome_iff s _).mpr
      ⟨filled, layer, _, root, _, cut, atLayer, splits_map_split names, leads⟩
  · intro free
    exact (lookup_eq_some_iff s _ v).mpr
      ⟨filled, layer, _, root, _, cut, atLayer, longest_of_not_captured reached free⟩

/-- A table that has a name with a dot beside a table with the same two segments. -/
def dottedFields : Fields Json := [("a", .obj [("b", .str "nested")]), ("a.b", .str "dotted")]

/-- The longer name captures the path of the nested value. -/
theorem lookup_by_longest_split_dotted :
    along? (.obj dottedFields) ["a", "b"] = some (.str "nested") ∧
      ({ params := dottedFields } : Scope).lookup "params.a.b" = some (.str "dotted") ∧
      Captured (.obj dottedFields) ["a", "b"] := by
  have plain : ∀ name ∈ ["a", "b", "a.b"], Plain name := by
    simp only [Plain]
    decide
  have chain := (lookup_by_longest_split { params := dottedFields }).2.2 "params" (.obj dottedFields)
  -- no group of two segments is longer than the name with a dot
  have free : ¬ Captured (.obj dottedFields) ["a.b"] := by
    rintro ⟨front, name, back, level, group, groups, cut, -, split, longer, -⟩
    obtain ⟨rfl, rfl, rfl⟩ : front = [] ∧ name = "a.b" ∧ back = [] := by
      cases front <;> simp_all
    have size : (["a.b"].flatMap (Text.split '.')).length = (Text.split '.' "a.b").length := by simp
    have fits := split.first_le
    omega
  have dotted := (chain ["a.b"] (.str "dotted") rfl (fun name h => plain name (by grind)) rfl).2 free
  refine ⟨rfl, dotted, by_contra fun free => ?_⟩
  have nested := (chain ["a", "b"] (.str "nested") rfl (fun name h => plain name (by grind)) rfl).2 free
  simpa using dotted.symm.trans nested

end Scope
end Runbook
