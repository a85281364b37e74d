import Runbook.Template.Resolve

/-!
# What a template reads

A template is filled in from its placeholders alone: in two scopes in which these lead to the same,
it has the same value (`resolve_congr`), or fails in the same way.

Text without braces in front of a template or behind it adds no placeholders, so a name that is
quoted in a sentence has those of the name (`placeholders_quoted`).
-/

set_option autoImplicit false

namespace Runbook.Template

/-! ## 1. Placeholders in a sentence -/

section

variable {c : Char}

theorem cutPair?_eq_none {cs : List Char} (h : c ∉ cs) : cutPair? c cs = none := by
  cases hcut : cutPair? c cs with
  | none => rfl
  | some lr =>
    rw [cutPair?_eq_some hcut] at h
    simp at h

/-- What stands in front of the first pair stays there. -/
theorem cutPair?_append_left {front : List Char} (h : c ∉ front) (cs : List Char) :
    cutPair? c (front ++ cs) = (cutPair? c cs).map fun (l, r) => (front ++ l, r) := by
  induction front with
  | nil => simp
  | cons a front ih =>
    simp only [List.mem_cons, not_or] at h
    cases rest : front ++ cs with
    | nil =>
      obtain ⟨rfl, rfl⟩ := List.append_eq_nil_iff.mp rest
      rfl
    | cons b rest' =>
      have other : ¬ (a = c ∧ b = c) := fun both => h.1 both.1.symm
      rw [List.cons_append, rest, cutPair?, if_neg other, ← rest, ih h.2, Option.map_map]
      rfl

/-- A pair behind text without the character is the first. -/
theorem cutPair?_of_not_mem {front : List Char} (h : c ∉ front) (cs : List Char) :
    cutPair? c (front ++ c :: c :: cs) = some (front, cs) := by
  rw [cutPair?_append_left h]
  simp [cutPair?]

/-- What stands behind the first pair stays there. -/
theorem cutPair?_append_right {back : List Char} (h : c ∉ back) (cs : List Char) :
    cutPair? c (cs ++ back) = (cutPair? c cs).map fun (l, r) => (l, r ++ back) := by
  induction cs with
  | nil => exact cutPair?_eq_none h
  | cons a cs ih =>
    cases cs with
    | nil =>
      cases back with
      | nil => rfl
      | cons b back =>
        simp only [List.mem_cons, not_or] at h
        have other : ¬ (a = c ∧ b = c) := fun both => h.1 both.2.symm
        have none : cutPair? c (b :: back) = none := cutPair?_eq_none (by simp [h])
        rw [List.singleton_append, cutPair?, if_neg other, none]
        rfl
    | cons b cs =>
      rw [List.cons_append, List.cons_append, cutPair?, cutPair?]
      split
      · rfl
      · rw [← List.cons_append, ih, Option.map_map, Option.map_map]
        rfl

end

/-- The paths of all placeholders, in order of appearance. -/
def holesOf (cs : List Char) : List String := (piecesOf cs).filterMap Piece.path?

theorem placeholders_eq (template : String) : placeholders template = holesOf template.toList := rfl

theorem holes_stretch (cs : List Char) : (stretch cs).filterMap Piece.path? = [] := by
  unfold stretch
  split <;> rfl

theorem holesOf_eq (cs : List Char) :
    holesOf cs =
      match cutPair? '{' cs with
      | none => []
      | some (_, after) =>
          match cutPair? '}' after with
          | none => []
          | some (inner, rest) =>
              if isPlain inner then holesOf after
              else String.ofList (Text.trimChars inner) :: holesOf rest := by
  rw [holesOf, piecesOf]
  split
  · next first =>
    rw [first]
    exact holes_stretch cs
  · next before after first =>
    rw [first]
    split
    · next second =>
      simp only [second]
      exact holes_stretch cs
    · next inner rest second =>
      simp only [second]
      split
      · exact List.filterMap_cons_none rfl
      · rw [List.filterMap_append, holes_stretch]
        rfl

theorem holesOf_append_left {front : List Char} (h : '{' ∉ front) (cs : List Char) :
    holesOf (front ++ cs) = holesOf cs := by
  rw [holesOf_eq, holesOf_eq cs, cutPair?_append_left h]
  cases cutPair? '{' cs <;> rfl

theorem holesOf_append_right {back : List Char} (hopen : '{' ∉ back) (hclose : '}' ∉ back)
    (cs : List Char) : holesOf (cs ++ back) = holesOf cs := by
  rw [holesOf_eq, holesOf_eq cs, cutPair?_append_right hopen]
  match first : cutPair? '{' cs with
  | none => rfl
  | some (before, after) =>
    rw [Option.map_some]
    dsimp only
    rw [cutPair?_append_right hclose]
    match second : cutPair? '}' after with
    | none => rfl
    | some (inner, rest) =>
      -- both ends are behind the first brace, so the texts get shorter
      have shorter : after.length < cs.length ∧ rest.length < cs.length := by
        rw [cutPair?_eq_some first, cutPair?_eq_some second]
        simp
        omega
      rw [Option.map_some]
      dsimp only
      rw [holesOf_append_right hopen hclose after, holesOf_append_right hopen hclose rest]
termination_by cs.length
decreasing_by
  · exact shorter.1
  · exact shorter.2

/-- A name that is quoted in a sentence has the placeholders of the name. -/
theorem placeholders_quoted {front back : String} (name : String) (hfront : '{' ∉ front.toList)
    (hopen : '{' ∉ back.toList) (hclose : '}' ∉ back.toList) :
    placeholders (front ++ name ++ back) = placeholders name := by
  rw [placeholders_eq, String.toList_append, String.toList_append,
    holesOf_append_right hopen hclose, holesOf_append_left hfront, placeholders_eq]

/-! ## 2. Filling in -/

section

variable {policy : MissingPath} {scope scope' : Scope}

theorem lookup_congr {path : String} (h : scope.lookup path = scope'.lookup path) :
    lookup policy scope path = lookup policy scope' path := by
  unfold lookup
  rw [h]

theorem renderPieces_stretch (cs : List Char) :
    renderPieces policy scope (stretch cs) = .ok (String.ofList cs) := by
  unfold stretch
  cases cs with
  | nil => rfl
  | cons c cs => simp [renderPieces, renderPiece]

theorem renderPieces_congr {ps : List Piece}
    (h : ∀ path ∈ ps.filterMap Piece.path?, scope.lookup path = scope'.lookup path) :
    renderPieces policy scope ps = renderPieces policy scope' ps := by
  induction ps with
  | nil => rfl
  | cons p ps ih =>
    cases p with
    | text s =>
      unfold renderPieces
      rw [ih h, renderPiece, renderPiece]
    | hole path =>
      have here := h path (List.mem_cons_self ..)
      have later := ih fun path' hp => h path' (List.mem_cons_of_mem _ hp)
      unfold renderPieces
      rw [later, renderPiece, renderPiece, lookup_congr here]

theorem render_congr {template : String}
    (h : ∀ path ∈ placeholders template, scope.lookup path = scope'.lookup path) :
    render policy scope template = render policy scope' template :=
  renderPieces_congr h

/-- A template that is one placeholder has that placeholder. -/
theorem mem_placeholders_of_lonePath? {template path : String}
    (h : lonePath? template = some path) : path ∈ placeholders template := by
  unfold lonePath? at h
  split at h
  · next path' single =>
    split at h
    · cases h
      rw [placeholders, single]
      exact List.mem_singleton.mpr rfl
    · cases h
  · cases h

theorem resolveText_congr {template : String}
    (h : ∀ path ∈ placeholders template, scope.lookup path = scope'.lookup path) :
    resolveText policy scope template = resolveText policy scope' template := by
  unfold resolveText
  split
  · next path lone =>
    rw [lookup_congr (h path (mem_placeholders_of_lonePath? lone))]
  · rw [render_congr h]

mutual

/-- A template has the same value wherever its placeholders lead to the same. -/
theorem resolve_congr (t : Template)
    (h : ∀ path ∈ t.texts.flatMap placeholders, scope.lookup path = scope'.lookup path) :
    resolve policy scope t = resolve policy scope' t := by
  cases t with
  | text s =>
    rw [texts, List.flatMap_singleton] at h
    rw [resolve, resolve, resolveText_congr h]
  | list items =>
    rw [resolve, resolve, resolveItems_congr items h]
  | map fields =>
    rw [resolve, resolve, resolveFields_congr fields h]
  | literal v =>
    rw [resolve, resolve]

theorem resolveItems_congr (ts : List Template)
    (h : ∀ path ∈ (textsItems ts).flatMap placeholders, scope.lookup path = scope'.lookup path) :
    resolveItems policy scope ts = resolveItems policy scope' ts := by
  cases ts with
  | nil => rfl
  | cons t ts =>
    rw [textsItems, List.flatMap_append, List.forall_mem_append] at h
    rw [resolveItems, resolveItems, resolve_congr t h.1, resolveItems_congr ts h.2]

theorem resolveFields_congr (fs : List (String × Template))
    (h : ∀ path ∈ (textsFields fs).flatMap placeholders, scope.lookup path = scope'.lookup path) :
    resolveFields policy scope fs = resolveFields policy scope' fs := by
  cases fs with
  | nil => rfl
  | cons f fs =>
    rw [textsFields, List.flatMap_append, List.forall_mem_append] at h
    rw [resolveFields, resolveFields, resolve_congr f.2 h.1, resolveFields_congr fs h.2]

end

end

end Runbook.Template
