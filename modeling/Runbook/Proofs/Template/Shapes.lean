import Runbook.Proofs.Template.Filling

/-!
# Template values and JSON values

Reading a JSON value as a template value follows its shape, though it tries one form after another
(`ofJson_eq_read`). So the value comes back from it (`toJson_read`), and a template value that was
read is read once more from the value of its shape.

A template of which no text has placeholders is filled in with the value of its shape, in every
scope (`resolve_of_no_placeholders`). So a value passes through unchanged if none of its leaves has
placeholders.
-/

set_option autoImplicit false

namespace Runbook

/-- The text is a leaf of the value: the value itself, or a leaf of one of its parts. -/
inductive Json.Leaf (s : String) : Json → Prop where
  | text : Leaf s (.str s)
  | item {v : Json} {items : List Json} : v ∈ items → Leaf s v → Leaf s (.arr items)
  | field {name : String} {v : Json} {fields : Fields Json} :
      (name, v) ∈ fields → Leaf s v → Leaf s (.obj fields)

namespace Template

/-! ## 1. Reading values -/

theorem read_str (s : String) : read (.str s) = .text s := by simp only [read, readText?]

theorem read_arr (items : List Json) : read (.arr items) = .list (readItems items) := by
  simp only [read, readText?]

theorem read_obj (fields : Fields Json) : read (.obj fields) = .map (readFields fields) := by
  simp only [read, readText?]

mutual

/-- Trying one form after another finds the one of the same shape. -/
theorem ofJson_eq_read : (v : Json) → ofJson v = read v
  | .null => by simp only [ofJson, read, readText?]
  | .bool b => by simp only [ofJson, read, readText?]
  | .num n => by simp only [ofJson, read, readText?]
  | .str s => by rw [ofJson, read_str]
  | .arr items => by rw [ofJson, read_arr, ofItems_eq_readItems items]
  | .obj fields => by rw [ofJson, read_obj, ofFields_eq_readFields fields]

theorem ofItems_eq_readItems : (vs : List Json) → ofItems vs = readItems vs
  | [] => by rw [ofItems, readItems]
  | v :: vs => by rw [ofItems, readItems, ofJson_eq_read v, ofItems_eq_readItems vs]

theorem ofFields_eq_readFields : (fs : Fields Json) → ofFields fs = readFields fs
  | [] => by rw [ofFields, readFields]
  | (k, v) :: fs => by rw [ofFields, readFields, ofJson_eq_read v, ofFields_eq_readFields fs]

end

mutual

/-- **A value comes back from the template value that is read of it.** -/
theorem toJson_read : (v : Json) → toJson (read v) = v
  | .null => by simp only [read, readText?, toJson]
  | .bool b => by simp only [read, readText?, toJson]
  | .num n => by simp only [read, readText?, toJson]
  | .str s => by rw [read_str, toJson]
  | .arr items => by rw [read_arr, toJson, toItems_readItems items]
  | .obj fields => by rw [read_obj, toJson, toFields_readFields fields]

theorem toItems_readItems : (vs : List Json) → toItems (readItems vs) = vs
  | [] => by rw [readItems, toItems]
  | v :: vs => by rw [readItems, toItems, toJson_read v, toItems_readItems vs]

theorem toFields_readFields : (fs : Fields Json) → toFields (readFields fs) = fs
  | [] => by rw [readFields, toFields]
  | (k, v) :: fs => by rw [readFields, toFields, toJson_read v, toFields_readFields fs]

end

/-! ## 2. Templates without placeholders -/

section

variable (policy : MissingPath) (scope : Scope)

/-- Literal text is put together again. -/
theorem renderPieces_of_texts {ps : List Piece} {parts : List (List Char)}
    (read : List.Forall₂ ReadFrom ps parts) (bare : ps.filterMap Piece.path? = []) :
    renderPieces policy scope ps = .ok (String.ofList parts.flatten) := by
  induction read with
  | nil => rfl
  | cons here _ ih =>
    cases here with
    | text s =>
      rw [renderPieces_cons, renderPiece, ih bare]
      simp [Except.bind, Except.map]
    | hole => cases bare

theorem resolveText_of_no_placeholders {s : String} (bare : placeholders s = []) :
    resolveText policy scope s = .ok (.str s) := by
  obtain ⟨parts, read, whole⟩ := piecesOf_readFrom s.toList
  have shown : render policy scope s = .ok s := by
    rw [render, pieces, renderPieces_of_texts policy scope read bare, whole, String.ofList_toList]
  unfold resolveText
  split
  · next path lone =>
    have here := mem_placeholders_of_lonePath? lone
    rw [bare] at here
    cases here
  · rw [shown]

mutual

/-- **A template without placeholders is filled in with itself.** -/
theorem resolve_of_no_placeholders : (t : Template) → t.texts.flatMap placeholders = [] →
    resolve policy scope t = .ok t.toJson
  | .text s, bare => by
      rw [texts, List.flatMap_singleton] at bare
      rw [resolve, resolveText_of_no_placeholders policy scope bare, toJson]
  | .list ts, bare => by
      rw [texts] at bare
      rw [resolve_list, resolveItems_of_no_placeholders ts bare, toJson]
      rfl
  | .map fs, bare => by
      rw [texts] at bare
      rw [resolve_map, resolveFields_of_no_placeholders fs bare, toJson]
      rfl
  | .literal v, _ => by rw [resolve, toJson]

theorem resolveItems_of_no_placeholders : (ts : List Template) →
    (textsItems ts).flatMap placeholders = [] → resolveItems policy scope ts = .ok (toItems ts)
  | [], _ => by rw [resolveItems, toItems]
  | t :: ts, bare => by
      rw [textsItems, List.flatMap_append, List.append_eq_nil_iff] at bare
      rw [resolveItems_cons, resolve_of_no_placeholders t bare.1,
        resolveItems_of_no_placeholders ts bare.2, toItems]
      rfl

theorem resolveFields_of_no_placeholders : (fs : Fields Template) →
    (textsFields fs).flatMap placeholders = [] → resolveFields policy scope fs = .ok (toFields fs)
  | [], _ => by rw [resolveFields, toFields]
  | (k, t) :: fs, bare => by
      rw [textsFields, List.flatMap_append, List.append_eq_nil_iff] at bare
      rw [resolveFields_cons, resolve_of_no_placeholders t bare.1,
        resolveFields_of_no_placeholders fs bare.2, toFields]
      rfl

end

end

/-! ## 3. Values -/

mutual

/-- The texts of the template of a value are leaves of the value. -/
theorem leaf_of_mem_texts {s : String} : (v : Json) → s ∈ (ofJson v).texts → v.Leaf s
  | .null, h | .bool _, h | .num _, h => by
      rw [ofJson, texts] at h
      cases h
  | .str a, h => by
      rw [ofJson, texts, List.mem_singleton] at h
      rw [h]
      exact .text
  | .arr items, h => by
      rw [ofJson, texts] at h
      obtain ⟨v, hv, leaf⟩ := leaf_of_mem_textsItems items h
      exact .item hv leaf
  | .obj fields, h => by
      rw [ofJson, texts] at h
      obtain ⟨name, v, hv, leaf⟩ := leaf_of_mem_textsFields fields h
      exact .field hv leaf

theorem leaf_of_mem_textsItems {s : String} :
    (vs : List Json) → s ∈ textsItems (ofItems vs) → ∃ v ∈ vs, v.Leaf s
  | [], h => by
      rw [ofItems, textsItems] at h
      cases h
  | v :: vs, h => by
      rw [ofItems, textsItems, List.mem_append] at h
      rcases h with here | later
      · exact ⟨v, List.mem_cons_self, leaf_of_mem_texts v here⟩
      · obtain ⟨w, hw, leaf⟩ := leaf_of_mem_textsItems vs later
        exact ⟨w, List.mem_cons_of_mem _ hw, leaf⟩

theorem leaf_of_mem_textsFields {s : String} :
    (fs : Fields Json) → s ∈ textsFields (ofFields fs) → ∃ name v, (name, v) ∈ fs ∧ v.Leaf s
  | [], h => by
      rw [ofFields, textsFields] at h
      cases h
  | (k, v) :: fs, h => by
      rw [ofFields, textsFields, List.mem_append] at h
      rcases h with here | later
      · exact ⟨k, v, List.mem_cons_self, leaf_of_mem_texts v here⟩
      · obtain ⟨name, w, hw, leaf⟩ := leaf_of_mem_textsFields fs later
        exact ⟨name, w, List.mem_cons_of_mem _ hw, leaf⟩

end

/-- **Values go through templates unchanged.** The two ways to make a template of a value agree, and
the value comes back from it. Filling it in changes nothing if no leaf of the value has
placeholders, that is, if no stretch of a leaf reads as one. -/
theorem values_pass_through :
    (∀ v, ofJson v = read v ∧ toJson (ofJson v) = v) ∧
    (∀ s, placeholders s = [] ↔
      ¬ ∃ path part, ReadFrom (.hole path) part ∧ part <:+: s.toList) ∧
    ∀ v : Json, (∀ s, v.Leaf s → placeholders s = []) →
      ∀ policy scope, resolve policy scope (ofJson v) = .ok v := by
  refine ⟨fun v => ⟨ofJson_eq_read v, ?_⟩, fun _ => placeholders_eq_nil_iff, ?_⟩
  · rw [ofJson_eq_read, toJson_read]
  · intro v bare policy scope
    have nowhere : (ofJson v).texts.flatMap placeholders = [] :=
      List.flatMap_eq_nil_iff.mpr fun s hs => bare s (leaf_of_mem_texts v hs)
    rw [resolve_of_no_placeholders policy scope _ nowhere, ofJson_eq_read, toJson_read]

/-- A value with braces that are left open, empty or the wrong way round, and a name that would be a
placeholder if it were a leaf. -/
def bracedValue : Json :=
  .obj [("a", .arr [.str "a \x7b\x7b b", .str "\x7d\x7d \x7b\x7b \x7d\x7d"]),
    ("\x7b\x7bx\x7d\x7d", .nat 1)]

theorem values_pass_through_braced :
    (∀ s, bracedValue.Leaf s → placeholders s = []) ∧
      resolve .fail {} (ofJson bracedValue) = .ok bracedValue := by
  have bare : ∀ s, bracedValue.Leaf s → placeholders s = [] := by
    rintro s (_ | _ | ⟨hv, leaf⟩)
    rcases List.mem_pair.mp hv with h | h
    · cases h
      rcases leaf with _ | ⟨hw, leaf⟩
      rcases List.mem_pair.mp hw with rfl | rfl
      · cases leaf
        decide +kernel
      · cases leaf
        decide +kernel
    · cases h
      cases leaf
  exact ⟨bare, values_pass_through.2.2 bracedValue bare .fail {}⟩

end Template
end Runbook
