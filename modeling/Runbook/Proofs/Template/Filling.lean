import Runbook.Proofs.Template.Splicing

/-!
# What a template is filled in with

A text that is one placeholder, from its first to its last character, has the value that its path
leads to, of whatever type; any other text has its display text as its value
(`lonePath?_eq_some_iff`). The two ways agree: the display text of the value is the display text,
and where one of them fails the other fails at the same path (`map_display_resolveText`).

Filling in keeps the shape of a template: lists have their items and tables their names in the same
places, each text gives way to its own value, and literals stay (`Filled`, `resolve_eq_ok_iff`).

It goes through the placeholders in the order in which they are listed, text after text, and stops
at the first path that is an error. So what it fails with can be told from the list
(`missing?_resolve`): under the empty policy nothing is an error, and under the fail policy the
first path that leads nowhere is named.
-/

set_option autoImplicit false

namespace Runbook.Template

/-! ## 1. Texts that are one placeholder -/

section

variable {template path : String}

theorem piecesOf_nil : piecesOf [] = [] := by
  rw [piecesOf]
  rfl

theorem pieces_eq_hole_iff :
    pieces template = [.hole path] ↔ ReadFrom (.hole path) template.toList := by
  constructor
  · intro one
    obtain ⟨parts, read, whole⟩ := piecesOf_readFrom template.toList
    rw [← pieces, one] at read
    obtain ⟨part, rest, here, none, rfl⟩ := List.forall₂_cons_left_iff.mp read
    obtain rfl := List.forall₂_nil_left_iff.mp none
    rwa [← whole, List.flatten_singleton]
  · intro read
    obtain ⟨inner, notPlain, chars, rfl⟩ := readFrom_hole_iff.mp read
    obtain ⟨closed, notBlank⟩ := isPlain_eq_false_iff.mp notPlain
    have pairless : ¬ ['{', '{'] <:+: [] := by decide
    have apart : ¬ ['{'] <:+ [] := by decide
    have cut := piecesOf_placeholder pairless apart closed notBlank []
    rw [piecesOf_nil] at cut
    rw [pieces, chars]
    exact cut

/-- A template has a lone path exactly if it is one placeholder. That it begins and ends with braces
is then no condition any more. -/
theorem lonePath?_eq_some_iff :
    lonePath? template = some path ↔ ReadFrom (.hole path) template.toList := by
  rw [← pieces_eq_hole_iff]
  constructor
  · intro lone
    unfold lonePath? at lone
    split at lone
    · next path' one =>
      split at lone
      · cases lone
        exact one
      · cases lone
    · cases lone
  · intro one
    obtain ⟨inner, -, chars, -⟩ := readFrom_hole_iff.mp (pieces_eq_hole_iff.mp one)
    have whole : template = "\x7b\x7b" ++ String.ofList inner ++ "\x7d\x7d" := by
      apply String.toList_injective
      rw [chars]
      simp
    have begins : Text.startsWith "\x7b\x7b" template = true :=
      Text.startsWith_iff.mpr ⟨_, whole.trans (String.append_assoc ..)⟩
    have ends : Text.endsWith "\x7d\x7d" template = true := by
      rw [whole, Text.endsWith_append]
    unfold lonePath?
    rw [one, begins, ends]
    rfl

/-! ## 2. Display texts -/

/-- The display text of the value of a template is the text of the template. -/
theorem map_display_resolveText (policy : MissingPath) (scope : Scope) (template : String) :
    (resolveText policy scope template).map Json.display = render policy scope template := by
  unfold resolveText
  split
  · next path lone =>
    rw [render, pieces_eq_hole_iff.mpr (lonePath?_eq_some_iff.mp lone), renderPieces_cons,
      renderPieces, renderPiece]
    cases lookup policy scope path with
    | ok found =>
      cases found with
      | some v => simp [Except.map, Except.bind]
      | none => rfl
    | error e => rfl
  · cases render policy scope template <;> rfl

/-- A value that is no text was found under the path of a template that is one placeholder. -/
theorem exists_path_of_not_isStr {policy : MissingPath} {scope : Scope} {v : Json}
    (h : resolveText policy scope template = .ok v) (typed : v.isStr = false) :
    ∃ path, ReadFrom (.hole path) template.toList ∧ scope.lookup path = some v := by
  unfold resolveText at h
  split at h
  · next path lone =>
    refine ⟨path, lonePath?_eq_some_iff.mp lone, ?_⟩
    unfold lookup at h
    cases found : scope.lookup path with
    | some w =>
      rw [found] at h
      cases h
      rfl
    | none =>
      rw [found] at h
      cases policy with
      | empty =>
        cases h
        cases typed
      | fail => cases h
  · cases shown : render policy scope template with
    | ok s =>
      rw [shown] at h
      cases h
      cases typed
    | error e =>
      rw [shown] at h
      cases h

/-- **The typed and the textual way of filling in agree.** They fail for the same templates and at
the same path; else the display text of the value is the text. Only a template that is one
placeholder, from its first to its last character, has a value that is no text. -/
theorem value_agrees_with_text (template : String) (scope : Scope) (policy : MissingPath) :
    (∀ e, resolveText policy scope template = .error e ↔
      render policy scope template = .error e) ∧
    (∀ s, render policy scope template = .ok s ↔
      ∃ v, resolveText policy scope template = .ok v ∧ v.display = s) ∧
    ∀ v, resolveText policy scope template = .ok v → v.isStr = false →
      ∃ path, ReadFrom (.hole path) template.toList ∧ scope.lookup path = some v := by
  refine ⟨?_, ?_, fun v => exists_path_of_not_isStr⟩
  · rw [← map_display_resolveText]
    cases resolveText policy scope template <;> simp [Except.map]
  · rw [← map_display_resolveText]
    cases resolveText policy scope template <;> simp [Except.map]

/-- A scope with a list of numbers. -/
def listScope : Scope := { params := some [("cfg", .arr [.nat 1, .nat 2])] }

/-- A list stays a list in a template that is its placeholder, and has a text there. -/
theorem value_agrees_with_text_list :
    resolveText .fail listScope "\x7b\x7b params.cfg \x7d\x7d" = .ok (.arr [.nat 1, .nat 2]) ∧
    render .fail listScope "\x7b\x7b params.cfg \x7d\x7d" = .ok "[1,2]" ∧
    ∃ path, ReadFrom (.hole path) "\x7b\x7b params.cfg \x7d\x7d".toList ∧
      listScope.lookup path = some (.arr [.nat 1, .nat 2]) := by
  have lone : lonePath? "\x7b\x7b params.cfg \x7d\x7d" = some "params.cfg" :=
    lonePath?_eq_some_iff.mpr
      (@ReadFrom.hole "params.cfg" [' '] [' '] rfl rfl rfl (by decide) (by decide))
  have found : listScope.lookup "params.cfg" = some (.arr [.nat 1, .nat 2]) := rfl
  have typed : resolveText .fail listScope "\x7b\x7b params.cfg \x7d\x7d" =
      .ok (.arr [.nat 1, .nat 2]) := by
    simp only [resolveText, lone, lookup, found, Option.getD_some]
  have shown : Json.display (.arr [.nat 1, .nat 2]) = "[1,2]" := by
    change Json.compress (.arr [.nat 1, .nat 2]) = "[1,2]"
    rw [Json.compress, Json.compressItems, Json.compressItems, Json.compressItems,
      String.intercalate_cons_cons, String.intercalate_singleton]
    rfl
  have agrees := value_agrees_with_text "\x7b\x7b params.cfg \x7d\x7d" listScope .fail
  exact ⟨typed, (agrees.2.1 _).mpr ⟨_, typed, shown⟩, agrees.2.2 _ typed rfl⟩

end

/-! ## 3. One after the other -/

section

variable {α β γ : Type} {x : Except ResolveError α} {y : Except ResolveError β} {path : String}

/-- The path that the failure names. -/
def missing? : Except ResolveError α → Option String
  | .ok _ => none
  | .error (.missingPath path) => some path

theorem missing?_eq_some_iff : missing? x = some path ↔ x = .error (.missingPath path) := by
  cases x with
  | ok a => simp [missing?]
  | error e =>
    cases e
    simp [missing?]

theorem missing?_eq_none_iff : missing? x = none ↔ ∃ a, x = .ok a := by
  cases x with
  | ok a => simp [missing?]
  | error e =>
    cases e
    simp [missing?]

theorem isSome_missing?_iff : (missing? x).isSome = true ↔ ∃ e, x = .error e := by
  cases x with
  | ok a => simp [missing?]
  | error e =>
    cases e
    simp [missing?]

theorem missing?_map (f : α → β) : missing? (x.map f) = missing? x := by
  cases x with
  | ok a => rfl
  | error e =>
    cases e
    rfl

/-- Of two parts that are filled in one after the other, the first that fails counts. -/
theorem missing?_bind_map (f : α → β → γ) :
    missing? (x.bind fun a => y.map (f a)) = (missing? x).or (missing? y) := by
  cases x with
  | ok a => exact missing?_map (f a)
  | error e =>
    cases e
    rfl

theorem map_eq_ok_iff {f : α → β} {b : β} : x.map f = .ok b ↔ ∃ a, x = .ok a ∧ b = f a := by
  cases x <;> simp [Except.map, eq_comm]

theorem bind_map_eq_ok_iff {f : α → β → γ} {c : γ} :
    (x.bind fun a => y.map (f a)) = .ok c ↔ ∃ a b, x = .ok a ∧ y = .ok b ∧ c = f a b := by
  cases x <;> cases y <;> simp [Except.bind, Except.map, eq_comm]

end

variable (policy : MissingPath) (scope : Scope)

theorem resolveItems_cons (t : Template) (ts : List Template) :
    resolveItems policy scope (t :: ts) =
      (resolve policy scope t).bind fun v => (resolveItems policy scope ts).map (v :: ·) := by
  rw [resolveItems]
  cases resolve policy scope t with
  | error e => rfl
  | ok v => cases resolveItems policy scope ts <;> rfl

theorem resolveFields_cons (k : String) (t : Template) (fs : Fields Template) :
    resolveFields policy scope ((k, t) :: fs) =
      (resolve policy scope t).bind fun v => (resolveFields policy scope fs).map ((k, v) :: ·) := by
  rw [resolveFields]
  cases resolve policy scope t with
  | error e => rfl
  | ok v => cases resolveFields policy scope fs <;> rfl

theorem resolve_list (ts : List Template) :
    resolve policy scope (.list ts) = (resolveItems policy scope ts).map .arr := by
  rw [resolve]
  cases resolveItems policy scope ts <;> rfl

theorem resolve_map (fs : Fields Template) :
    resolve policy scope (.map fs) = (resolveFields policy scope fs).map .obj := by
  rw [resolve]
  cases resolveFields policy scope fs <;> rfl

/-! ## 4. Shapes -/

/-- The value has the shape of the template, with each text replaced by its own value. -/
inductive Filled : Template → Json → Prop where
  | text {s : String} {v : Json} (value : resolveText policy scope s = .ok v) : Filled (.text s) v
  | list {ts : List Template} {vs : List Json} (items : List.Forall₂ Filled ts vs) :
      Filled (.list ts) (.arr vs)
  | map {fs : Fields Template} {gs : Fields Json} (names : fs.names = gs.names)
      (values : List.Forall₂ Filled fs.values gs.values) : Filled (.map fs) (.obj gs)
  | literal (v : Json) : Filled (.literal v) v

mutual

theorem resolve_eq_ok_iff :
    (t : Template) → (v : Json) → (resolve policy scope t = .ok v ↔ Filled policy scope t v)
  | .text s, v => by
      rw [resolve]
      constructor
      · exact .text
      · rintro ⟨value⟩
        exact value
  | .list ts, v => by
      rw [resolve_list, map_eq_ok_iff]
      simp only [resolveItems_eq_ok_iff ts]
      constructor
      · rintro ⟨vs, items, rfl⟩
        exact .list items
      · rintro (_ | ⟨items⟩)
        exact ⟨_, items, rfl⟩
  | .map fs, v => by
      rw [resolve_map, map_eq_ok_iff]
      simp only [resolveFields_eq_ok_iff fs]
      constructor
      · rintro ⟨gs, ⟨names, values⟩, rfl⟩
        exact .map names values
      · rintro (_ | _ | ⟨names, values⟩)
        exact ⟨_, ⟨names, values⟩, rfl⟩
  | .literal w, v => by
      rw [resolve]
      constructor
      · rintro ⟨⟩
        exact .literal w
      · rintro ⟨⟩
        rfl

theorem resolveItems_eq_ok_iff : (ts : List Template) → (vs : List Json) →
    (resolveItems policy scope ts = .ok vs ↔ List.Forall₂ (Filled policy scope) ts vs)
  | [], vs => by
      rw [resolveItems, List.forall₂_nil_left_iff, Except.ok.injEq, eq_comm]
  | t :: ts, vs => by
      rw [resolveItems_cons, bind_map_eq_ok_iff, List.forall₂_cons_left_iff]
      simp only [resolve_eq_ok_iff t, resolveItems_eq_ok_iff ts]

theorem resolveFields_eq_ok_iff : (fs : Fields Template) → (gs : Fields Json) →
    (resolveFields policy scope fs = .ok gs ↔
      fs.names = gs.names ∧ List.Forall₂ (Filled policy scope) fs.values gs.values)
  | [], gs => by
      rw [resolveFields]
      cases gs <;> simp [Fields.names, Fields.values]
  | (k, t) :: fs, gs => by
      rw [resolveFields_cons, bind_map_eq_ok_iff]
      simp only [resolve_eq_ok_iff t, resolveFields_eq_ok_iff fs]
      cases gs with
      | nil => simp [Fields.names]
      | cons g gs =>
        obtain ⟨k', v⟩ := g
        constructor
        · rintro ⟨_, _, here, ⟨names, values⟩, ⟨⟩⟩
          exact ⟨congrArg (k :: ·) names, .cons here values⟩
        · rintro ⟨names, values⟩
          obtain ⟨rfl, later⟩ : k = k' ∧ Fields.names fs = Fields.names gs := List.cons.inj names
          obtain ⟨here, values⟩ := List.forall₂_cons.mp values
          exact ⟨v, gs, here, ⟨later, values⟩, rfl⟩

end

/-! ## 5. The first path that leads nowhere -/

/-- The path is an error. -/
def blocked (path : String) : Bool := policy == .fail && (scope.lookup path).isNone

theorem missing?_renderPiece (p : Piece) :
    missing? (renderPiece policy scope p) = p.path?.toList.find? (blocked policy scope) := by
  cases p with
  | text s => rfl
  | hole path =>
    cases policy <;> cases found : scope.lookup path <;>
      simp [renderPiece, lookup, missing?, Piece.path?, blocked, found]

theorem missing?_renderPieces (ps : List Piece) :
    missing? (renderPieces policy scope ps) =
      (ps.filterMap Piece.path?).find? (blocked policy scope) := by
  induction ps with
  | nil => rfl
  | cons p ps ih =>
    rw [renderPieces_cons, missing?_bind_map, missing?_renderPiece, ih, ← List.find?_append]
    cases p <;> rfl

theorem missing?_resolveText (s : String) :
    missing? (resolveText policy scope s) = (placeholders s).find? (blocked policy scope) := by
  rw [← missing?_map Json.display, map_display_resolveText, render, missing?_renderPieces]
  rfl

mutual

/-- What a template fails with is the first error among its placeholders, text after text. -/
theorem missing?_resolve : (t : Template) → missing? (resolve policy scope t) =
    (t.texts.flatMap placeholders).find? (blocked policy scope)
  | .text s => by rw [resolve, missing?_resolveText, texts, List.flatMap_singleton]
  | .list ts => by rw [resolve_list, missing?_map, missing?_resolveItems ts, texts]
  | .map fs => by rw [resolve_map, missing?_map, missing?_resolveFields fs, texts]
  | .literal v => by
      rw [resolve, texts]
      rfl

theorem missing?_resolveItems : (ts : List Template) → missing? (resolveItems policy scope ts) =
    ((textsItems ts).flatMap placeholders).find? (blocked policy scope)
  | [] => by
      rw [resolveItems, textsItems]
      rfl
  | t :: ts => by
      rw [resolveItems_cons, missing?_bind_map, missing?_resolve t, missing?_resolveItems ts,
        textsItems, List.flatMap_append, List.find?_append]

theorem missing?_resolveFields : (fs : Fields Template) →
    missing? (resolveFields policy scope fs) =
      ((textsFields fs).flatMap placeholders).find? (blocked policy scope)
  | [] => by
      rw [resolveFields, textsFields]
      rfl
  | (k, t) :: fs => by
      rw [resolveFields_cons, missing?_bind_map, missing?_resolve t, missing?_resolveFields fs,
        textsFields, List.flatMap_append, List.find?_append]

end

variable {scope}

theorem missing?_resolve_empty (t : Template) : missing? (resolve .empty scope t) = none := by
  rw [missing?_resolve, List.find?_eq_none]
  intro path _ error
  cases error

theorem missing?_resolve_fail (t : Template) : missing? (resolve .fail scope t) =
    (t.texts.flatMap placeholders).find? fun path => (scope.lookup path).isNone := by
  have same : blocked .fail scope = fun path => (scope.lookup path).isNone := by
    funext path
    simp [blocked]
  rw [missing?_resolve, same]

/-- **Filling in keeps the shape, and fails for no other reason than a path that leads nowhere.** It
gives the values of that shape and no others. Under the empty policy it always gives one; under the
fail policy it gives none if some placeholder of some text leads nowhere, and names the first. -/
theorem filled_or_first_missing (scope : Scope) (t : Template) :
    (∀ policy v, resolve policy scope t = .ok v ↔ Filled policy scope t v) ∧
    (∃ v, resolve .empty scope t = .ok v) ∧
    ((∃ e, resolve .fail scope t = .error e) ↔
      ∃ path ∈ t.texts.flatMap placeholders, scope.lookup path = none) ∧
    ∀ path, resolve .fail scope t = .error (.missingPath path) ↔
      ∃ front back, t.texts.flatMap placeholders = front ++ path :: back ∧
        scope.lookup path = none ∧ ∀ earlier ∈ front, (scope.lookup earlier).isSome := by
  refine ⟨fun policy => resolve_eq_ok_iff policy scope t, ?_, ?_, fun path => ?_⟩
  · exact missing?_eq_none_iff.mp (missing?_resolve_empty t)
  · rw [← isSome_missing?_iff, missing?_resolve_fail, List.find?_isSome]
    simp only [Option.isNone_iff_eq_none]
  · rw [← missing?_eq_some_iff, missing?_resolve_fail, List.find?_eq_some_iff_append]
    constructor
    · rintro ⟨here, front, back, parts, earlier⟩
      refine ⟨front, back, parts, Option.isNone_iff_eq_none.mp here, fun p hp => ?_⟩
      simpa using earlier p hp
    · rintro ⟨front, back, parts, here, earlier⟩
      refine ⟨Option.isNone_iff_eq_none.mpr here, front, back, parts, fun p hp => ?_⟩
      simpa using earlier p hp

/-- A table with three placeholders, of which the last two lead nowhere in `listScope`. -/
def gappedTemplate : Template :=
  .map [("a", .text "\x7b\x7bparams.cfg\x7d\x7d"),
    ("b", .list [.literal .null, .text "<\x7b\x7bmemory.y\x7d\x7d> \x7b\x7bsteps.z\x7d\x7d"])]

/-- The first of the two is named, and without the fail policy both are left empty. -/
theorem filled_or_first_missing_gapped :
    resolve .fail listScope gappedTemplate = .error (.missingPath "memory.y") ∧
      ∃ v, resolve .empty listScope gappedTemplate = .ok v ∧
        Filled .empty listScope gappedTemplate v := by
  have spelled := filled_or_first_missing listScope gappedTemplate
  have listed :
      gappedTemplate.texts.flatMap placeholders = ["params.cfg", "memory.y", "steps.z"] := by
    decide +kernel
  obtain ⟨v, filled⟩ := spelled.2.1
  refine ⟨?_, v, filled, (spelled.1 .empty v).mp filled⟩
  exact (spelled.2.2.2 "memory.y").mpr ⟨["params.cfg"], ["steps.z"], listed, rfl, by decide⟩

end Runbook.Template
