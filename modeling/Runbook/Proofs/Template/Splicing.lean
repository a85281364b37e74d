import Mathlib.Data.List.Forall2
import Runbook.Proofs.Template.Lookup
import Runbook.Proofs.Template.Reads

/-!
# Pieces and the template they are read from

Splitting a template loses nothing: each piece was read from a stretch of the template
(`ReadFrom`), and these stretches one after another are the template (`piecesOf_readFrom`). Nor does
it pass over anything: a template of which some stretch reads as a placeholder has placeholders
(`placeholders_eq_nil_iff`), if not always that one, since of two that overlap the first is read.

Filling in is done piece by piece. So a placeholder in a template stands for the display text of its
value, between what is in front of it and what the rest of the template becomes; the text that is
put in is not looked at again (`template_piece_by_piece`).
-/

set_option autoImplicit false

namespace Runbook

namespace Template

/-! ## 1. What a piece was read from -/

theorem isPlain_eq_false_iff {inner : List Char} :
    isPlain inner = false ↔ '}' ∉ inner ∧ inner.all isBlank = false := by
  rw [isPlain, Bool.or_eq_false_iff, List.contains_eq_mem, decide_eq_false_iff_not]

/-- Literal text was read from itself, and a path from between two pairs of braces. -/
inductive ReadFrom : Piece → List Char → Prop where
  | text (s : String) : ReadFrom (.text s) s.toList
  | hole {path : String} {before after : List Char} (blankBefore : before.all isBlank)
      (blankAfter : after.all isBlank) (trimmed : Text.trim path = path) (filled : path ≠ "")
      (closed : '}' ∉ path.toList) :
      ReadFrom (.hole path) (['{', '{'] ++ (before ++ path.toList ++ after) ++ ['}', '}'])

theorem readFrom_stretch (cs : List Char) :
    ∃ parts, List.Forall₂ ReadFrom (stretch cs) parts ∧ parts.flatten = cs := by
  unfold stretch
  split
  · next empty => exact ⟨[], .nil, (List.isEmpty_iff.mp empty).symm⟩
  · refine ⟨[cs], .cons ?_ .nil, List.flatten_singleton⟩
    simpa using ReadFrom.text (String.ofList cs)

/-- What stands between the braces of a placeholder is its path, with blanks around it. -/
theorem readFrom_hole {inner : List Char} (h : isPlain inner = false) :
    ReadFrom (.hole (String.ofList (Text.trimChars inner))) (['{', '{'] ++ inner ++ ['}', '}']) := by
  obtain ⟨closed, notBlank⟩ := isPlain_eq_false_iff.mp h
  obtain ⟨before, after, whole, blankBefore, blankAfter⟩ := Text.blanks_around inner
  have read :=
    @ReadFrom.hole (String.ofList (Text.trimChars inner)) before after blankBefore blankAfter
  rw [String.toList_ofList, ← whole] at read
  apply read
  · rw [Text.trim, String.toList_ofList, Text.trimChars_trimChars]
  · intro empty
    have none : Text.trimChars inner = [] := by simpa using congrArg String.toList empty
    rw [Text.trimChars_eq_nil_iff.mp none] at notBlank
    cases notBlank
  · intro brace
    apply closed
    rw [whole]
    exact List.mem_append_left _ (List.mem_append_right _ brace)

theorem readFrom_hole_iff {path : String} {part : List Char} :
    ReadFrom (.hole path) part ↔ ∃ inner, isPlain inner = false ∧
      part = ['{', '{'] ++ inner ++ ['}', '}'] ∧ path = String.ofList (Text.trimChars inner) := by
  constructor
  · intro read
    cases read with
    | @hole _ before after blankBefore blankAfter trimmed filled closed =>
      have kept : Text.trimChars path.toList = path.toList := by
        simpa [Text.trim] using congrArg String.toList trimmed
      have inside := (Text.trimChars_surrounded blankBefore blankAfter path.toList).trans kept
      refine ⟨before ++ path.toList ++ after, isPlain_eq_false_iff.mpr ⟨?_, ?_⟩, rfl, ?_⟩
      · have solid : ∀ cs : List Char, cs.all isBlank = true → '}' ∉ cs :=
          fun cs blank brace => absurd (List.all_eq_true.mp blank _ brace) (by decide)
        simp only [List.mem_append, not_or]
        exact ⟨⟨solid before blankBefore, closed⟩, solid after blankAfter⟩
      · rw [Bool.eq_false_iff]
        intro blank
        rw [Text.trimChars_eq_nil_iff.mpr blank, eq_comm, String.toList_eq_nil_iff] at inside
        exact filled inside
      · rw [inside, String.ofList_toList]
  · rintro ⟨inner, notPlain, rfl, rfl⟩
    exact readFrom_hole notPlain

theorem piecesOf_readFrom (cs : List Char) :
    ∃ parts, List.Forall₂ ReadFrom (piecesOf cs) parts ∧ parts.flatten = cs := by
  fun_induction piecesOf cs with
  | case1 cs first => exact readFrom_stretch cs
  | case2 cs before after first second => exact readFrom_stretch cs
  | case3 cs before after first inner rest second plain ih =>
    obtain ⟨parts, read, whole⟩ := ih
    refine ⟨(before ++ ['{', '{']) :: parts, .cons ?_ read, ?_⟩
    · simpa using ReadFrom.text (String.ofList (before ++ ['{', '{']))
    · rw [List.flatten_cons, whole, cutPair?_eq_some first]
      simp
  | case4 cs before after first inner rest second plain ih =>
    obtain ⟨parts, read, whole⟩ := ih
    obtain ⟨front, readFront, wholeFront⟩ := readFrom_stretch before
    have hole := readFrom_hole (Bool.eq_false_iff.mpr plain)
    refine ⟨front ++ (['{', '{'] ++ inner ++ ['}', '}']) :: parts,
      List.rel_append readFront (.cons hole read), ?_⟩
    rw [List.flatten_append, wholeFront, List.flatten_cons, whole, cutPair?_eq_some first,
      cutPair?_eq_some second]
    simp

theorem exists_readFrom_of_mem {ps : List Piece} {parts : List (List Char)} {p : Piece}
    (read : List.Forall₂ ReadFrom ps parts) (h : p ∈ ps) : ∃ part ∈ parts, ReadFrom p part := by
  induction read with
  | nil => cases h
  | cons here _ ih =>
    rcases List.mem_cons.mp h with rfl | h
    · exact ⟨_, List.mem_cons_self, here⟩
    · obtain ⟨part, hpart, found⟩ := ih h
      exact ⟨part, List.mem_cons_of_mem _ hpart, found⟩

/-! ## 2. Where a placeholder is found -/

/-- The first pair is found where it stands. -/
theorem cutPair?_first {c : Char} {front : List Char} (pairless : ¬ [c, c] <:+: front)
    (apart : ¬ [c] <:+ front) (cs : List Char) :
    cutPair? c (front ++ c :: c :: cs) = some (front, cs) := by
  induction front with
  | nil => simp [cutPair?]
  | cons a front ih =>
    have shorter := ih (fun h => pairless (List.infix_cons h))
      (fun h => apart (h.trans (List.suffix_cons a front)))
    cases front with
    | nil =>
      have other : a ≠ c := by
        rintro rfl
        exact apart List.suffix_rfl
      rw [List.nil_append] at shorter
      rw [List.singleton_append, cutPair?, if_neg (fun both => other both.1), shorter]
      rfl
    | cons b front =>
      have other : ¬ (a = c ∧ b = c) := by
        rintro ⟨rfl, rfl⟩
        exact pairless ⟨[], front, rfl⟩
      rw [List.cons_append, List.cons_append, cutPair?, if_neg other, ← List.cons_append, shorter]
      rfl

theorem piecesOf_placeholder {front inner : List Char} (pairless : ¬ ['{', '{'] <:+: front)
    (apart : ¬ ['{'] <:+ front) (closed : '}' ∉ inner) (notBlank : inner.all isBlank = false)
    (back : List Char) :
    piecesOf (front ++ '{' :: '{' :: (inner ++ '}' :: '}' :: back)) =
      stretch front ++ .hole (String.ofList (Text.trimChars inner)) :: piecesOf back := by
  have first := cutPair?_first pairless apart (inner ++ '}' :: '}' :: back)
  have second := cutPair?_of_not_mem closed back
  have notPlain := isPlain_eq_false_iff.mpr ⟨closed, notBlank⟩
  rw [piecesOf]
  split
  · next none => cases first.symm.trans none
  · next before after found =>
    cases first.symm.trans found
    split
    · next none => cases second.symm.trans none
    · next inner' rest found =>
      cases second.symm.trans found
      rw [if_neg (by rw [notPlain]; exact Bool.false_ne_true)]

/-- A pair is found, and what is behind the first one begins at the latest behind the given one. It
may begin one character earlier: of three braces in a row the first two are the pair. -/
theorem cutPair?_of_pair (c : Char) (front cs : List Char) :
    ∃ before after, cutPair? c (front ++ c :: c :: cs) = some (before, after) ∧
      ((∃ mid, after = mid ++ c :: c :: cs) ∨ after = cs ∨ after = c :: cs) := by
  induction front with
  | nil => exact ⟨[], cs, by simp [cutPair?], .inr (.inl rfl)⟩
  | cons a front ih =>
    obtain ⟨before, after, found, place⟩ := ih
    cases front with
    | nil =>
      rw [List.nil_append] at found
      rw [List.singleton_append, cutPair?, found]
      by_cases same : a = c
      · rw [if_pos ⟨same, rfl⟩]
        exact ⟨_, _, rfl, .inr (.inr rfl)⟩
      · rw [if_neg fun both => same both.1]
        exact ⟨_, _, rfl, place⟩
    | cons b front =>
      rw [List.cons_append] at found
      rw [List.cons_append, List.cons_append, cutPair?, found]
      by_cases both : a = c ∧ b = c
      · rw [if_pos both]
        exact ⟨_, _, rfl, .inl ⟨front, rfl⟩⟩
      · rw [if_neg both]
        exact ⟨_, _, rfl, place⟩

section

variable {cs before after inner rest : List Char}

theorem holesOf_of_plain (first : cutPair? '{' cs = some (before, after))
    (second : cutPair? '}' after = some (inner, rest)) (plain : isPlain inner = true) :
    holesOf cs = holesOf after := by
  rw [holesOf_eq, first]
  dsimp only
  rw [second]
  exact if_pos plain

theorem holesOf_of_hole (first : cutPair? '{' cs = some (before, after))
    (second : cutPair? '}' after = some (inner, rest)) (notPlain : isPlain inner = false) :
    holesOf cs = String.ofList (Text.trimChars inner) :: holesOf rest := by
  rw [holesOf_eq, first]
  dsimp only
  rw [second]
  exact if_neg (Bool.eq_false_iff.mp notPlain)

end

/-- Some placeholder is found in a text with a stretch that reads as one. -/
theorem holesOf_ne_nil {inner : List Char} (notPlain : isPlain inner = false)
    (front back : List Char) :
    holesOf (front ++ '{' :: '{' :: (inner ++ '}' :: '}' :: back)) ≠ [] := by
  obtain ⟨closed, -⟩ := isPlain_eq_false_iff.mp notPlain
  obtain ⟨before, after, first, place⟩ := cutPair?_of_pair '{' front (inner ++ '}' :: '}' :: back)
  rcases place with ⟨mid, rfl⟩ | rfl | rfl
  · -- the first braces stand in front of the stretch: if they open nothing, it is still to come
    obtain ⟨inner', rest, second, -⟩ := cutPair?_of_pair '}' (mid ++ '{' :: '{' :: inner) back
    rw [List.append_assoc, List.cons_append, List.cons_append] at second
    cases plain : isPlain inner' with
    | false =>
      rw [holesOf_of_hole first second plain]
      exact List.cons_ne_nil _ _
    | true =>
      have shorter : mid.length < front.length := by
        have lengths := congrArg List.length (cutPair?_eq_some first)
        simp only [List.length_append, List.length_cons] at lengths
        omega
      rw [holesOf_of_plain first second plain]
      exact holesOf_ne_nil notPlain mid back
  · rw [holesOf_of_hole first (cutPair?_of_not_mem closed back) notPlain]
    exact List.cons_ne_nil _ _
  · -- of three braces the last belongs to the path
    have stillClosed : '}' ∉ '{' :: inner := by simp [closed]
    have stillNotPlain := isPlain_eq_false_iff.mpr ⟨stillClosed, rfl⟩
    rw [holesOf_of_hole first (cutPair?_of_not_mem stillClosed back) stillNotPlain]
    exact List.cons_ne_nil _ _
termination_by front.length

/-- A text has no placeholders exactly if no stretch of it reads as one. -/
theorem placeholders_eq_nil_iff {s : String} :
    placeholders s = [] ↔ ¬ ∃ path part, ReadFrom (.hole path) part ∧ part <:+: s.toList := by
  constructor
  · rintro none ⟨path, part, read, front, back, whole⟩
    obtain ⟨inner, notPlain, rfl, -⟩ := readFrom_hole_iff.mp read
    apply holesOf_ne_nil notPlain front back
    rw [← none, placeholders_eq, ← whole]
    simp
  · intro nowhere
    refine List.eq_nil_iff_forall_not_mem.mpr fun path found => nowhere ?_
    obtain ⟨p, hp, isHole⟩ := List.mem_filterMap.mp found
    obtain ⟨parts, read, whole⟩ := piecesOf_readFrom s.toList
    obtain ⟨part, hpart, here⟩ := exists_readFrom_of_mem read hp
    cases p with
    | text _ => cases isHole
    | hole path' =>
      cases isHole
      exact ⟨path, part, here, whole ▸ List.infix_of_mem_flatten hpart⟩

/-! ## 3. Filling in piece by piece -/

section

variable (policy : MissingPath) (scope : Scope)

theorem renderPieces_cons (p : Piece) (ps : List Piece) :
    renderPieces policy scope (p :: ps) =
      (renderPiece policy scope p).bind fun s => (renderPieces policy scope ps).map (s ++ ·) := by
  rw [renderPieces]
  cases renderPiece policy scope p with
  | error e => rfl
  | ok s => cases renderPieces policy scope ps <;> rfl

theorem renderPieces_stretch_append (cs : List Char) (ps : List Piece) :
    renderPieces policy scope (stretch cs ++ ps) =
      (renderPieces policy scope ps).map (String.ofList cs ++ ·) := by
  unfold stretch
  split
  · next empty =>
    rw [List.isEmpty_iff.mp empty, List.nil_append]
    cases renderPieces policy scope ps <;> simp [Except.map]
  · rw [List.singleton_append, renderPieces_cons]
    rfl

end

/-- **Splitting loses nothing, and filling in is compositional.** The stretches that the pieces were
read from are the template. A placeholder behind text in which no braces open is replaced by the
display text of its value, and the rest of the template is filled in as if it stood alone. -/
theorem template_piece_by_piece :
    (∀ template : String, ∃ parts, List.Forall₂ ReadFrom (pieces template) parts ∧
      parts.flatten = template.toList) ∧
    ∀ (scope : Scope) (front inner back : String), ¬ ['{', '{'] <:+: front.toList →
      ¬ ['{'] <:+ front.toList → Text.allBlank inner = false → '}' ∉ inner.toList →
      (∀ policy v, scope.lookup (Text.trim inner) = some v →
        render policy scope (front ++ "\x7b\x7b" ++ inner ++ "\x7d\x7d" ++ back) =
          (render policy scope back).map (front ++ v.display ++ ·)) ∧
      (scope.lookup (Text.trim inner) = none →
        render .empty scope (front ++ "\x7b\x7b" ++ inner ++ "\x7d\x7d" ++ back) =
          (render .empty scope back).map (front ++ ·) ∧
        render .fail scope (front ++ "\x7b\x7b" ++ inner ++ "\x7d\x7d" ++ back) =
          .error (.missingPath (Text.trim inner))) := by
  refine ⟨fun template => piecesOf_readFrom template.toList, ?_⟩
  intro scope front inner back pairless apart notBlank closed
  have cut : pieces (front ++ "\x7b\x7b" ++ inner ++ "\x7d\x7d" ++ back) =
      stretch front.toList ++ .hole (Text.trim inner) :: pieces back := by
    have cut := piecesOf_placeholder pairless apart closed notBlank back.toList
    rw [pieces, pieces, Text.trim, ← cut]
    simp
  have filled : ∀ policy, render policy scope (front ++ "\x7b\x7b" ++ inner ++ "\x7d\x7d" ++ back) =
      ((renderPiece policy scope (.hole (Text.trim inner))).bind fun s =>
        (render policy scope back).map (s ++ ·)).map (front ++ ·) := by
    intro policy
    rw [render, cut, renderPieces_stretch_append, renderPieces_cons, String.ofList_toList]
    rfl
  refine ⟨fun policy v found => ?_, fun missing => ⟨?_, ?_⟩⟩
  · have shown : renderPiece policy scope (.hole (Text.trim inner)) = .ok v.display := by
      simp only [renderPiece, lookup, found]
    rw [filled, shown]
    cases render policy scope back <;> simp [Except.map, Except.bind, String.append_assoc]
  · have nothing : renderPiece .empty scope (.hole (Text.trim inner)) = .ok "" := by
      simp only [renderPiece, lookup, missing]
    rw [filled, nothing]
    cases render .empty scope back <;> simp [Except.map, Except.bind]
  · have refused : renderPiece .fail scope (.hole (Text.trim inner)) =
        .error (.missingPath (Text.trim inner)) := by
      simp only [renderPiece, lookup, missing]
    rw [filled, refused]
    rfl

/-- A scope with a value that would be a placeholder of a template. -/
def quotingScope : Scope := { params := some [("x", .str "\x7b\x7bparams.x\x7d\x7d")] }

/-- The placeholder that is put in stays as it is. -/
theorem template_piece_by_piece_quoting :
    render .fail quotingScope
        ("a \x7bb\x7d " ++ "\x7b\x7b" ++ " params.x " ++ "\x7d\x7d" ++ " \x7b\x7b\x7d") =
      .ok "a \x7bb\x7d \x7b\x7bparams.x\x7d\x7d \x7b\x7b\x7d" ∧
    render .fail quotingScope ("" ++ "\x7b\x7b" ++ "params.y" ++ "\x7d\x7d" ++ "") =
      .error (.missingPath "params.y") := by
  have braces := (template_piece_by_piece.2 quotingScope "a \x7bb\x7d " " params.x " " \x7b\x7b\x7d"
    (by decide) (by decide) (by decide) (by decide)).1
  have missing := (template_piece_by_piece.2 quotingScope "" "params.y" ""
    (by decide) (by decide) (by decide) (by decide)).2
  have found : quotingScope.lookup (Text.trim " params.x ") =
      some (.str "\x7b\x7bparams.x\x7d\x7d") := rfl
  have nowhere : quotingScope.lookup (Text.trim "params.y") = none := rfl
  -- the braces behind the placeholder are not closed
  have back : render .fail quotingScope " \x7b\x7b\x7d" = .ok " \x7b\x7b\x7d" := by
    simp [render, pieces, piecesOf, cutPair?, stretch, renderPieces, renderPiece]
  refine ⟨(braces .fail _ found).trans ?_, (missing nowhere).2⟩
  rw [back]
  rfl

end Template
end Runbook
