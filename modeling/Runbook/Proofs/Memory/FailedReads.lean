import Runbook.Proofs.Memory.Bindings

/-!
# Reads that fail

The needs of a step are put to the store one after another, and a reading may fail in two ways: the
store answers with an error, or the slice that it finds is nothing that the need can read
(`Reading.Succeeds`). A failure is passed over whole if failures are tolerated: the step is given
what it would be given for the other needs alone. Otherwise the first failure ends the recall, and
it is a failure to read whatever the store called it (`Reading.Reports`).

Which readings fail may depend on all that was asked before, as in a store that counts its reads.
So it is said of the readings that a store gives (`consult`), and not of a store and a need.
-/

set_option autoImplicit false

namespace Runbook

/-- Only parameters and step results are decoded, and the error says which of them could not be. -/
theorem Need.decode_error {need : Need} {s : Slice} {e : StoreError}
    (h : need.bindings s = .error e) :
    ∃ cause, (need = .parameters ∧ e = .read ("decode parameters: " ++ cause)) ∨
      ∃ name, need = .step name ∧ e = .read ("decode step result: " ++ cause) := by
  cases need with
  | userPrompt | toolOutput | lastOutput | classification => cases h
  | parameters =>
    have told : "decode parameters: " ++ "not JSON: " = "decode parameters: not JSON: " := rfl
    rw [bindings] at h
    split at h
    · cases h
    · cases h
      exact ⟨_, .inl ⟨rfl, rfl⟩⟩
    · cases h
      refine ⟨"not JSON: " ++ s.content, .inl ⟨rfl, congrArg StoreError.read ?_⟩⟩
      rw [← String.append_assoc, told]
      rfl
  | step name =>
    have told : "decode step result: " ++ "not JSON: " = "decode step result: not JSON: " := rfl
    rw [bindings] at h
    split at h
    · cases h
    · cases h
      exact ⟨_, .inr ⟨name, rfl, rfl⟩⟩
    · cases h
      refine ⟨"not JSON: " ++ s.content, .inr ⟨name, rfl, congrArg StoreError.read ?_⟩⟩
      rw [← String.append_assoc, told]
      rfl

namespace Memory

variable {σ τ : Type} [MemoryStore σ] [MemoryStore τ]

/-! ## 1. Readings -/

/-- A need, and what a store answered to its query. -/
structure Reading where
  need : Need
  found : Except StoreError (List Slice)

namespace Reading

variable {r : Reading} {e : StoreError}

/-- The bindings that are made of the answer. -/
def answer (r : Reading) : Except StoreError (Fields Json) := bindingsOf r.need r.found

/-- The store has answered, and the newest slice, if there is one, is what the need can read. -/
def Succeeds (r : Reading) : Prop :=
  ∃ slices, r.found = .ok slices ∧ ∀ s ∈ slices.head?, r.need.Legible s.content

/-- What is told of a reading that fails: what the store has said, in an error of whatever kind, or
that the slice cannot be decoded. -/
inductive Reports : Reading → String → Prop where
  | unread (need : Need) (m : String) : Reports ⟨need, .error (.read m)⟩ m
  | failed (need : Need) {e : StoreError} (other : ∀ m, e ≠ .read m) :
      Reports ⟨need, .error e⟩ e.message
  | parameters {s : Slice} {rest : List Slice} (illegible : ¬ Need.parameters.Legible s.content)
      (cause : String) : Reports ⟨.parameters, .ok (s :: rest)⟩ ("decode parameters: " ++ cause)
  | result {name : String} {s : Slice} {rest : List Slice}
      (illegible : ¬ (Need.step name).Legible s.content) (cause : String) :
      Reports ⟨.step name, .ok (s :: rest)⟩ ("decode step result: " ++ cause)

theorem answer_ok_iff : (∃ more, r.answer = .ok more) ↔ r.Succeeds := by
  obtain ⟨need, found⟩ := r
  cases found with
  | error e => simp [answer, Succeeds, bindingsOf]
  | ok slices =>
    cases slices with
    | nil => simp [answer, Succeeds, bindingsOf]
    | cons s rest => simpa [answer, Succeeds, bindingsOf] using need.bindings_ok_iff s

/-- **A reading that fails is reported as a failure to read.** -/
theorem reports_of_error (h : r.answer = .error e) : ∃ m, e = .read m ∧ r.Reports m := by
  obtain ⟨need, found⟩ := r
  cases found with
  | error e' =>
    obtain rfl : asReadError e' = e := Except.error.inj h
    cases e' with
    | read m => exact ⟨m, rfl, .unread need m⟩
    | write | unavailable => exact ⟨_, rfl, .failed need fun _ other => by cases other⟩
  | ok slices =>
    cases slices with
    | nil => cases h
    | cons s rest =>
      have read : need.bindings s = .error e := h
      have illegible : ¬ need.Legible s.content := by
        intro legible
        obtain ⟨more, bound⟩ := (need.bindings_ok_iff s).mpr legible
        cases bound.symm.trans read
      obtain ⟨cause, ⟨rfl, rfl⟩ | ⟨name, rfl, rfl⟩⟩ := Need.decode_error read
      · exact ⟨_, rfl, .parameters illegible cause⟩
      · exact ⟨_, rfl, .result illegible cause⟩

theorem answer_error_of_not_succeeds (h : ¬ r.Succeeds) :
    ∃ m, r.answer = .error (.read m) ∧ r.Reports m := by
  cases answered : r.answer with
  | ok more => exact absurd (answer_ok_iff.mp ⟨more, answered⟩) h
  | error e =>
    obtain ⟨m, rfl, reports⟩ := reports_of_error answered
    exact ⟨m, rfl, reports⟩

instance : DecidablePred Succeeds := fun r =>
  match h : r.answer with
  | .ok more => .isTrue (answer_ok_iff.mp ⟨more, h⟩)
  | .error e => .isFalse fun succeeds => by
      obtain ⟨more, read⟩ := answer_ok_iff.mpr succeeds
      cases read.symm.trans h

end Reading

/-! ## 2. One reading after another -/

/-- What a store answers to the queries of needs, one after another. -/
def consult (run : RunId) : List Need → σ → List Reading
  | [], _ => []
  | need :: rest, st =>
      let (found, st) := MemoryStore.query { need.query run with limit := some 1 } st
      ⟨need, found⟩ :: consult run rest st

/-- The readings that succeed. -/
def successes (run : RunId) (needs : List Need) (st : σ) : List Reading :=
  (consult run needs st).filter (·.Succeeds)

/-- What a step is given for its needs. -/
def resolve (tolerant : Bool) (run : RunId) (needs : List Need) (now : Instant) (st : σ) :
    Except StoreError (Fields Json) :=
  ((«recall» tolerant run [] needs).answered (reply now) st).1

theorem answered_recall (tolerant : Bool) (run : RunId) (bound : Fields Json) (needs : List Need)
    (now : Instant) (st : σ) :
    ((«recall» tolerant run bound needs).answered (reply now) st).1 =
      gather tolerant bound ((consult run needs st).map (·.answer)) := by
  induction needs generalizing bound st with
  | nil => rfl
  | cons need rest ih =>
    rw [consult, List.map_cons, «recall», Dialogue.answered]
    dsimp only [reply, Reading.answer]
    cases bindingsOf need (MemoryStore.query { need.query run with limit := some 1 } st).1 with
    | ok more => exact ih ..
    | error e =>
      cases tolerant with
      | true => exact ih ..
      | false => rfl

/-- **What is recalled depends on the readings alone.** -/
theorem resolve_eq (tolerant : Bool) (run : RunId) (needs : List Need) (now : Instant) (st : σ) :
    resolve tolerant run needs now st =
      gather tolerant [] ((consult run needs st).map (·.answer)) :=
  answered_recall tolerant run [] needs now st

/-- Failures that are tolerated leave no trace. -/
theorem gather_successes (tolerant : Bool) (bound : Fields Json) (rs : List Reading) :
    gather tolerant bound ((rs.filter (·.Succeeds)).map (·.answer)) =
      gather true bound (rs.map (·.answer)) := by
  induction rs generalizing bound with
  | nil => rfl
  | cons r rs ih =>
    by_cases succeeds : r.Succeeds
    · obtain ⟨more, read⟩ := Reading.answer_ok_iff.mpr succeeds
      rw [List.filter_cons_of_pos (by simpa using succeeds), List.map_cons, List.map_cons, read]
      exact ih _
    · obtain ⟨m, unread, -⟩ := Reading.answer_error_of_not_succeeds succeeds
      rw [List.filter_cons_of_neg (by simpa using succeeds), List.map_cons, unread]
      exact ih _

/-- Readings that succeed have bindings, and are gathered into one table by writing them one over
another. -/
theorem exists_bindings {rs : List Reading} (succeed : ∀ r ∈ rs, r.Succeeds) :
    ∃ bs, List.Forall₂ (fun r b => r.answer = .ok b) rs bs ∧
      rs.map (·.answer) = bs.map .ok := by
  induction rs with
  | nil => exact ⟨[], .nil, rfl⟩
  | cons r rs ih =>
    obtain ⟨first, others⟩ := List.forall_mem_cons.mp succeed
    obtain ⟨b, bound⟩ := Reading.answer_ok_iff.mpr first
    obtain ⟨bs, each, same⟩ := ih others
    refine ⟨b :: bs, .cons bound each, ?_⟩
    rw [List.map_cons, List.map_cons, bound, same]

/-- The first failure that is not tolerated is the answer. -/
theorem gather_first_failure {front back : List Reading} {r : Reading} {e : StoreError}
    (bound : Fields Json) (succeed : ∀ x ∈ front, x.Succeeds) (h : r.answer = .error e) :
    gather false bound ((front ++ r :: back).map (·.answer)) = .error e := by
  induction front generalizing bound with
  | nil =>
    rw [List.nil_append, List.map_cons, h]
    rfl
  | cons x front ih =>
    obtain ⟨first, others⟩ := List.forall_mem_cons.mp succeed
    obtain ⟨more, read⟩ := Reading.answer_ok_iff.mpr first
    rw [List.cons_append, List.map_cons, read]
    exact ih _ others

theorem exists_first_failure {rs : List Reading} (h : ¬ ∀ r ∈ rs, r.Succeeds) :
    ∃ front r back, rs = front ++ r :: back ∧ (∀ x ∈ front, x.Succeeds) ∧ ¬ r.Succeeds := by
  induction rs with
  | nil => exact absurd (fun _ hr => absurd hr List.not_mem_nil) h
  | cons r rs ih =>
    by_cases succeeds : r.Succeeds
    · have later : ¬ ∀ x ∈ rs, x.Succeeds :=
        fun all => h (List.forall_mem_cons.mpr ⟨succeeds, all⟩)
      obtain ⟨front, x, back, rfl, before, fails⟩ := ih later
      exact ⟨r :: front, x, back, rfl, List.forall_mem_cons.mpr ⟨succeeds, before⟩, fails⟩
    · exact ⟨[], r, rs, rfl, by simp, succeeds⟩

/-- A store that answers alike to the needs of the readings that succeed gives the same for them. -/
theorem resolve_again {run : RunId} {needs : List Need} {st : σ} {st' : τ}
    (alike : consult run ((successes run needs st).map (·.need)) st' = successes run needs st)
    (tolerant : Bool) (now now' : Instant) :
    resolve tolerant run ((successes run needs st).map (·.need)) now' st' =
      resolve true run needs now st := by
  rw [resolve_eq, alike, successes, gather_successes, resolve_eq]

/-! ## 3. Stores that answer again -/

/-- Reading changes nothing in the store. -/
def Steady (st : σ) : Prop := ∀ q, (MemoryStore.query q st).2 = st

theorem RunTable.steady (t : RunTable) : Steady t := fun _ => rfl

theorem RowTable.steady (t : RowTable) : Steady t := fun _ => rfl

/-- If a store answers as a steady one does wherever it answers at all, the needs that it has served
are served by the steady one alike. -/
theorem consult_successes {base : σ} (steady : Steady base) (like : τ → Prop)
    (answers : ∀ q t, like t → like (MemoryStore.query q t).2 ∧
      ((MemoryStore.query q t).1 = (MemoryStore.query q base).1 ∨
        ∃ e, (MemoryStore.query q t).1 = .error e))
    (run : RunId) (needs : List Need) {t : τ} (h : like t) :
    consult run ((successes run needs t).map (·.need)) base = successes run needs t := by
  induction needs generalizing t with
  | nil => rfl
  | cons need rest ih =>
    obtain ⟨later, same⟩ := answers { need.query run with limit := some 1 } t h
    have behind := ih later
    rw [successes] at behind ⊢
    rw [consult]
    dsimp only
    by_cases succeeds :
        Reading.Succeeds ⟨need, (MemoryStore.query { need.query run with limit := some 1 } t).1⟩
    · -- what has succeeded was not made to fail, so the steady store answers it too
      have again : (MemoryStore.query { need.query run with limit := some 1 } t).1 =
          (MemoryStore.query { need.query run with limit := some 1 } base).1 := by
        refine same.resolve_right ?_
        rintro ⟨e, failed⟩
        obtain ⟨slices, found, -⟩ := succeeds
        cases failed.symm.trans found
      rw [List.filter_cons_of_pos (by simpa using succeeds), List.map_cons, consult]
      dsimp only
      rw [steady, behind, again]
    · rw [List.filter_cons_of_neg (by simpa using succeeds)]
      exact behind

theorem consult_steady {st : σ} (steady : Steady st) (run : RunId) (needs : List Need) :
    consult run ((successes run needs st).map (·.need)) st = successes run needs st := by
  refine consult_successes steady (· = st) ?_ run needs rfl
  rintro q _ rfl
  exact ⟨steady q, .inl rfl⟩

/-- A read that is made to fail leaves the others as they are. -/
theorem consult_faulty {f : Rehearsal.FaultyStore σ} (steady : Steady f.store) (run : RunId)
    (needs : List Need) :
    consult run ((successes run needs f).map (·.need)) f.store = successes run needs f := by
  refine consult_successes steady (·.store = f.store) ?_ run needs rfl
  intro q g same
  change (g.reading (MemoryStore.query q)).2.store = f.store ∧
    ((g.reading (MemoryStore.query q)).1 = _ ∨ ∃ e, (g.reading (MemoryStore.query q)).1 = .error e)
  unfold Rehearsal.FaultyStore.reading
  dsimp only
  split
  · exact ⟨same, .inr ⟨_, rfl⟩⟩
  · rw [same]
    exact ⟨steady q, .inl rfl⟩

/-! ## 4. What a step is given -/

/-- **Of a read that fails a step is given nothing, or all is refused.** If failures are tolerated,
there is a table, of the bindings of all readings that succeed, written one over another. It is the
one that is given for the needs of these readings alone, by any store that answers them alike: by the
same store if reading changes nothing in it, and by the store behind one that is made to fail. If
they are not, there is a table exactly if all readings succeed; else there is a failure to read,
which says what the first failing one reports. -/
theorem resolve_with_failures (run : RunId) (needs : List Need) (now : Instant) (st : σ) :
    (∃ table, resolve true run needs now st = .ok table ∧
      (∃ bs, List.Forall₂ (fun r b => r.answer = .ok b) (successes run needs st) bs ∧
        table = bs.foldl Fields.extend []) ∧
      ∀ (tolerant : Bool) (now' : Instant),
        (∀ {τ : Type} [MemoryStore τ] (st' : τ),
          consult run ((successes run needs st).map (·.need)) st' = successes run needs st →
          resolve tolerant run ((successes run needs st).map (·.need)) now' st' = .ok table) ∧
        (Steady st →
          resolve tolerant run ((successes run needs st).map (·.need)) now' st = .ok table)) ∧
    (∀ (tolerant : Bool) (f : Rehearsal.FaultyStore σ), Steady f.store →
      resolve tolerant run ((successes run needs f).map (·.need)) now f.store =
        resolve true run needs now f) ∧
    ((∃ table, resolve false run needs now st = .ok table) ↔
      ∀ r ∈ consult run needs st, r.Succeeds) ∧
    ((¬ ∀ r ∈ consult run needs st, r.Succeeds) →
      ∃ front r back m, consult run needs st = front ++ r :: back ∧
        (∀ x ∈ front, x.Succeeds) ∧ ¬ r.Succeeds ∧ r.Reports m ∧
        resolve false run needs now st = .error (.read m)) := by
  refine ⟨?_, ?_, ?_, ?_⟩
  · have succeed : ∀ r ∈ successes run needs st, r.Succeeds :=
      fun r there => of_decide_eq_true (List.mem_filter.mp there).2
    obtain ⟨bs, each, answers⟩ := exists_bindings succeed
    have given : resolve true run needs now st = .ok (bs.foldl Fields.extend []) := by
      rw [resolve_eq, ← gather_successes true, ← successes, answers, gather_ok]
    refine ⟨_, given, ⟨bs, each, rfl⟩, fun tolerant now' => ⟨?_, ?_⟩⟩
    · intro τ _ st' alike
      rw [resolve_again alike tolerant now now', given]
    · intro steady
      rw [resolve_again (consult_steady steady run needs) tolerant now now', given]
  · intro tolerant f steady
    exact resolve_again (consult_faulty steady run needs) tolerant now now
  · rw [resolve_eq, gather_ok_iff, List.forall_mem_map]
    simp only [Bool.false_eq_true, false_or, Reading.answer_ok_iff]
  · intro failing
    obtain ⟨front, r, back, split, succeed, fails⟩ := exists_first_failure failing
    obtain ⟨m, unread, reports⟩ := Reading.answer_error_of_not_succeeds fails
    refine ⟨front, r, back, m, split, succeed, fails, reports, ?_⟩
    rw [resolve_eq, split, gather_first_failure [] succeed unread]

/-- The first read is made to fail, and the slice that the second finds is not JSON. -/
example :
    let hit : NewSlice := ⟨"r1", "find", .output, "hit", []⟩
    let torn : NewSlice := ⟨"r1", "find", .stepResult, "torn", []⟩
    let store : RunTable := (({} : RunTable).append hit ⟨0⟩).2.append torn ⟨0⟩ |>.2
    let f : Rehearsal.FaultyStore RunTable := { store, readFaults := { numbers := [1] } }
    resolve true "r1" [.userPrompt, .step "find", .lastOutput] ⟨0⟩ f =
        .ok [("last_output", .str "hit")] ∧
      resolve false "r1" [.step "find", .lastOutput] ⟨0⟩ f = .error (.read "unreadable") :=
  ⟨rfl, rfl⟩

end Memory
end Runbook
