import Mathlib.Data.List.Forall2
import Runbook.Proofs.Memory.Log
import Runbook.Proofs.Run.Exchange
import Runbook.Run.Execution

/-!
# Two runs of one workflow

Two runs of a workflow under the same id are *twins* if they are answered alike: tools and
approvers say the same to the same questions, the stores give slices that differ in ids and times
only, and the clocks are related by `T`. Twins ask the same questions, and have results that differ
in their times only.

Times go nowhere but into results and records, with two exceptions: a need for the record of a step
binds the time of the slice, or the text with the times in it. A run that has such a need goes its
twin's way if their clocks agree (`Sees`).

`Twin` is one relation between two dialogues. There is one lemma for each function that a run is
made of, in the order of the functions.
-/

set_option autoImplicit false

namespace Runbook

open Memory

/-! ## 1. What differs in times only -/

/-- Times that are related are the same. -/
def Exact (T : Instant → Instant → Prop) : Prop := ∀ t t', T t t' → t = t'

variable {T : Instant → Instant → Prop}

theorem eq_of_optionRel (exact : Exact T) {t t' : Option Instant} (h : Option.Rel T t t') :
    t = t' := by
  cases h with
  | some h => rw [exact _ _ h]
  | none => rfl

/-- The results differ in times only. -/
structure StepResult.Like (T : Instant → Instant → Prop) (r r' : StepResult) : Prop where
  step : r.step = r'.step
  status : r.status = r'.status
  output : r.output = r'.output
  error : r.error = r'.error
  startedAt : Option.Rel T r.startedAt r'.startedAt
  finishedAt : Option.Rel T r.finishedAt r'.finishedAt

namespace StepResult

theorem Like.eq (exact : Exact T) {r r' : StepResult} (h : r.Like T r') : r = r' := by
  obtain ⟨step, status, output, error, started, finished⟩ := h
  cases r
  cases r'
  cases step
  cases status
  cases output
  cases error
  cases eq_of_optionRel exact started
  cases eq_of_optionRel exact finished
  rfl

theorem like_skipped (step : String) : (skipped step).Like T (skipped step) :=
  ⟨rfl, rfl, rfl, rfl, .none, .none⟩

theorem like_failed (step : String) (f : Failure) {t t' u u' : Instant} (ht : T t t')
    (hu : T u u') : (failed step f t u).Like T (failed step f t' u') :=
  ⟨rfl, rfl, rfl, rfl, .some ht, .some hu⟩

theorem like_success (step : String) (o : ToolOutput) {t t' u u' : Instant} (ht : T t t')
    (hu : T u u') : (success step o t u).Like T (success step o t' u') :=
  ⟨rfl, rfl, rfl, rfl, .some ht, .some hu⟩

end StepResult

/-- The records differ in times only. -/
structure RunRecord.Like (T : Instant → Instant → Prop) (r r' : RunRecord) : Prop where
  id : r.id = r'.id
  workflow : r.workflow = r'.workflow
  params : r.params = r'.params
  status : r.status = r'.status
  steps : List.Forall₂ (StepResult.Like T) r.steps r'.steps
  abort : r.abort = r'.abort
  startedAt : T r.startedAt r'.startedAt
  finishedAt : Option.Rel T r.finishedAt r'.finishedAt

/-- What is appended differs in times only: those that a result is recorded with, and the duration
of a success. -/
inductive NewSlice.Like (T : Instant → Instant → Prop) : NewSlice → NewSlice → Prop where
  | same (s : NewSlice) : Like T s s
  | result (run : RunId) {r r' : StepResult} (h : r.Like T r') :
      Like T (resultSlice run r) (resultSlice run r')
  | output (run : RunId) {r r' : StepResult} (h : r.Like T r') (o : ToolOutput) :
      Like T (outputSlice run r o) (outputSlice run r' o)

theorem NewSlice.Like.eq (exact : Exact T) {s s' : NewSlice} (h : s.Like T s') : s = s' := by
  cases h with
  | same => rfl
  | result run h => rw [h.eq exact]
  | output run h o => rw [h.eq exact]

theorem NewSlice.Like.run_eq {s s' : NewSlice} (h : s.Like T s') : s.run = s'.run := by
  cases h <;> rfl

/-- What is found differs in ids and times only, as far as a need looks at it. -/
structure Slice.Like (T : Instant → Instant → Prop) (s s' : Slice) : Prop where
  run : s.run = s'.run
  step : s.step = s'.step
  classification : s.classification = s'.classification
  content : s.content = s'.content ∨ s.classification = .stepResult ∧
    ∃ r r' : StepResult, r.Like T r' ∧ s.content = r.encode.compress ∧
      s'.content = r'.encode.compress
  createdAt : T s.createdAt s'.createdAt

namespace Slice.Like

theorem ofNew {s s' : NewSlice} (h : s.Like T s') {t t' : Instant} (time : T t t') (id id' : Nat) :
    (Slice.ofNew id t s).Like T (Slice.ofNew id' t' s') := by
  cases h with
  | same => exact ⟨rfl, rfl, rfl, .inl rfl, time⟩
  | result run h => exact ⟨rfl, h.step, rfl, .inr ⟨rfl, _, _, h, rfl, rfl⟩, time⟩
  | output run h o => exact ⟨rfl, h.step, rfl, .inl rfl, time⟩

theorem content_eq (exact : Exact T) {s s' : Slice} (h : s.Like T s') : s.content = s'.content := by
  rcases h.content with same | ⟨-, r, r', like, here, there⟩
  · exact same
  · rw [here, there, like.eq exact]

theorem accepts_eq {s s' : Slice} (h : s.Like T s') (q : SliceQuery) :
    q.accepts s = q.accepts s' := by
  rw [SliceQuery.accepts, SliceQuery.accepts, h.run, h.step, h.classification]

end Slice.Like

/-! ## 2. Needs -/

namespace Need

/-- The need binds no times. -/
def Timeless : Need → Prop
  | .step _ => False
  | .classification tag => Classification.ofName tag ≠ .stepResult
  | .userPrompt | .parameters | .toolOutput _ | .lastOutput => True

/-- What the need binds is the same for twins. -/
def Sees (T : Instant → Instant → Prop) (need : Need) : Prop := Exact T ∨ need.Timeless

/-- A need looks at the content and the time of a slice. -/
theorem bindings_congr (need : Need) {s s' : Slice} (content : s.content = s'.content)
    (time : s.createdAt = s'.createdAt) : need.bindings s = need.bindings s' := by
  cases need <;> simp only [bindings, content, time]

/-- One that binds no times looks at the content only. -/
theorem bindings_of_timeless {need : Need} (h : need.Timeless) {s s' : Slice}
    (content : s.content = s'.content) : need.bindings s = need.bindings s' := by
  cases need with
  | step => exact h.elim
  | userPrompt | parameters | toolOutput | lastOutput | classification =>
    simp only [bindings, content]

/-- It does not ask for records of steps. -/
theorem classification_of_timeless {need : Need} (h : need.Timeless) (run : RunId) :
    ∃ c, (need.query run).classification = some c ∧ c ≠ .stepResult := by
  cases need with
  | step => exact h.elim
  | classification tag => exact ⟨_, rfl, h⟩
  | userPrompt => exact ⟨.userPrompt, rfl, by simp⟩
  | parameters => exact ⟨.parameters, rfl, by simp⟩
  | toolOutput => exact ⟨.output, rfl, by simp⟩
  | lastOutput => exact ⟨.output, rfl, by simp⟩

theorem bindings_of_like {need : Need} (sees : need.Sees T) {run : RunId} {s s' : Slice}
    (like : s.Like T s')
    (kind : ∀ c, (need.query run).classification = some c → s.classification = c) :
    need.bindings s = need.bindings s' := by
  rcases sees with exact | timeless
  · exact need.bindings_congr (like.content_eq exact) (exact _ _ like.createdAt)
  · obtain ⟨c, hc, other⟩ := classification_of_timeless timeless run
    rcases like.content with same | ⟨result, -⟩
    · exact bindings_of_timeless timeless same
    · exact absurd (result ▸ (kind c hc).symm) other

end Need

/-! ## 3. Twins -/

/-- The same question, and if the store is asked, one about this run. -/
inductive Asks (T : Instant → Instant → Prop) (run : RunId) : RunQuestion → RunQuestion → Prop where
  | append {s s' : NewSlice} (like : s.Like T s') (own : s.run = run) :
      Asks T run (.store (.append s)) (.store (.append s'))
  | query {q : SliceQuery} (proper : q.Proper) (own : q.run = run) :
      Asks T run (.store (.query q)) (.store (.query q))
  | time : Asks T run .time .time
  | stopRequested : Asks T run .stopRequested .stopRequested
  | approval (step prompt : String) (limit : Option Nat) :
      Asks T run (.approval step prompt limit) (.approval step prompt limit)
  | call (tool : String) (inputs : Fields Json) (limit : Option Nat) :
      Asks T run (.call tool inputs limit) (.call tool inputs limit)

/-- The same exchange, but for ids and times. -/
inductive Agrees (T : Instant → Instant → Prop) : RunExchange → RunExchange → Prop where
  | appended {s s' : NewSlice} (like : s.Like T s') (id id' : Nat) :
      Agrees T ⟨.store (.append s), .ok id⟩ ⟨.store (.append s'), .ok id'⟩
  | refused {s s' : NewSlice} (like : s.Like T s') (e : StoreError) :
      Agrees T ⟨.store (.append s), .error e⟩ ⟨.store (.append s'), .error e⟩
  | found {q : SliceQuery} {slices slices' : List Slice}
      (like : List.Forall₂ (Slice.Like T) slices slices')
      (kind : ∀ s ∈ slices, ∀ c, q.classification = some c → s.classification = c) :
      Agrees T ⟨.store (.query q), .ok slices⟩ ⟨.store (.query q), .ok slices'⟩
  | unread (q : SliceQuery) (e : StoreError) :
      Agrees T ⟨.store (.query q), .error e⟩ ⟨.store (.query q), .error e⟩
  | time {t t' : Instant} (h : T t t') : Agrees T ⟨.time, t⟩ ⟨.time, t'⟩
  | stopRequested (b : Bool) : Agrees T ⟨.stopRequested, b⟩ ⟨.stopRequested, b⟩
  | approval (step prompt : String) (limit : Option Nat) (a : Approval) :
      Agrees T ⟨.approval step prompt limit, a⟩ ⟨.approval step prompt limit, a⟩
  | call (tool : String) (inputs : Fields Json) (limit : Option Nat)
      (a : Except Failure ToolOutput) :
      Agrees T ⟨.call tool inputs limit, a⟩ ⟨.call tool inputs limit, a⟩

theorem Agrees.query_left {q : SliceQuery} {found : StoreAnswer (.query q)} {x' : RunExchange}
    (h : Agrees T ⟨.store (.query q), found⟩ x') :
    ∃ found' : StoreAnswer (.query q), x' = ⟨.store (.query q), found'⟩ := by
  cases h <;> exact ⟨_, rfl⟩

theorem Agrees.query_right {q : SliceQuery} {found' : StoreAnswer (.query q)} {x : RunExchange}
    (h : Agrees T x ⟨.store (.query q), found'⟩) :
    ∃ found : StoreAnswer (.query q), x = ⟨.store (.query q), found⟩ := by
  cases h <;> exact ⟨_, rfl⟩

/-- The dialogues ask the same, and as long as they are answered alike, go on so to results that
are related. -/
inductive Twin (T : Instant → Instant → Prop) (run : RunId) {α : Type} (R : α → α → Prop) :
    RunDialogue α → RunDialogue α → Prop where
  | done {a a' : α} (h : R a a') : Twin T run R (.done a) (.done a')
  | ask {q q' : RunQuestion} {next : RunAnswer q → RunDialogue α}
      {next' : RunAnswer q' → RunDialogue α} (asks : Asks T run q q')
      (later : ∀ x x', Agrees T ⟨q, x⟩ ⟨q', x'⟩ → Twin T run R (next x) (next' x')) :
      Twin T run R (.ask q next) (.ask q' next')

/-- A need gives twins the same bindings. -/
theorem bindingsOf_congr {need : Need} (sees : need.Sees T) {run : RunId} {limit : Option Nat}
    {found found' : Except StoreError (List Slice)}
    (h : Agrees T ⟨.store (.query { need.query run with limit }), found⟩
      ⟨.store (.query { need.query run with limit }), found'⟩) :
    bindingsOf need found = bindingsOf need found' := by
  cases h with
  | unread => rfl
  | found like kind =>
    cases like with
    | nil => rfl
    | cons first _ =>
      exact Need.bindings_of_like sees first (kind _ (List.mem_cons_self ..))

namespace Twin

variable {run : RunId} {α β : Type} {R : α → α → Prop} {S : β → β → Prop}

theorem bind {d d' : RunDialogue α} {f f' : α → RunDialogue β} (h : Twin T run R d d')
    (next : ∀ a a', R a a' → Twin T run S (f a) (f' a')) : Twin T run S (d >>= f) (d' >>= f') := by
  induction h with
  | done h => exact next _ _ h
  | ask asks _ ih => exact .ask asks fun x x' agrees => ih x x' agrees

theorem done_left {a : α} {d' : RunDialogue α} (h : Twin T run R (.done a) d') :
    ∃ a', d' = .done a' ∧ R a a' := by
  cases h with
  | done h => exact ⟨_, rfl, h⟩

theorem done_right {d : RunDialogue α} {a' : α} (h : Twin T run R d (.done a')) :
    ∃ a, d = .done a ∧ R a a' := by
  cases h with
  | done h => exact ⟨_, rfl, h⟩

/-- A dialogue is gone on with in one way whatever twins found out. -/
theorem bind_eq {d d' : RunDialogue α} {f f' : α → RunDialogue β} (h : Twin T run Eq d d')
    (next : ∀ a, Twin T run S (f a) (f' a)) : Twin T run S (d >>= f) (d' >>= f') :=
  h.bind fun a _ same => same ▸ next a

/-! ## 4. Single questions -/

theorem time : Twin T run T RunDialogue.time RunDialogue.time :=
  .ask .time fun t t' h => by
    cases h with
    | time h => exact .done h

theorem stopRequested :
    Twin T run Eq RunDialogue.stopRequested RunDialogue.stopRequested :=
  .ask .stopRequested fun x x' h => by
    cases h
    exact .done rfl

theorem approval (step prompt : String) (limit : Option Nat) :
    Twin T run Eq (RunDialogue.approval step prompt limit)
      (RunDialogue.approval step prompt limit) :=
  .ask (.approval ..) fun x x' h => by
    cases h
    exact .done rfl

theorem call (tool : String) (inputs : Fields Json) (limit : Option Nat) :
    Twin T run Eq (RunDialogue.call tool inputs limit) (RunDialogue.call tool inputs limit) :=
  .ask (.call ..) fun x x' h => by
    cases h
    exact .done rfl

/-- The memory that is recalled is the same. -/
theorem «recall» (tolerant : Bool) (bound : Fields Json) {needs : List Need}
    (sees : ∀ need ∈ needs, need.Sees T) :
    Twin T run Eq (RunDialogue.ofStore (Memory.recall tolerant run bound needs))
      (RunDialogue.ofStore (Memory.recall tolerant run bound needs)) := by
  induction needs generalizing bound with
  | nil => exact .done rfl
  | cons need needs ih =>
    rw [List.forall_mem_cons] at sees
    have own : (need.query run).run = run := by cases need <;> rfl
    refine .ask (.query (need.query_proper run (some 1)) own) fun found found' agrees => ?_
    have same := bindingsOf_congr sees.1 agrees
    dsimp only
    rw [← same]
    cases bindingsOf need found with
    | ok more => exact ih _ sees.2
    | error e =>
      cases tolerant with
      | true => exact ih _ sees.2
      | false => exact .done rfl

/-- What is recorded is recorded by both, or fails in the same way. -/
theorem appendAll {ss ss' : List NewSlice} (like : List.Forall₂ (NewSlice.Like T) ss ss')
    (own : ∀ s ∈ ss, s.run = run) :
    Twin T run Eq (RunDialogue.ofStore (Memory.appendAll ss))
      (RunDialogue.ofStore (Memory.appendAll ss')) := by
  induction like with
  | nil => exact .done rfl
  | cons first _ ih =>
    rw [List.forall_mem_cons] at own
    refine .ask (.append first own.1) fun x x' agrees => ?_
    cases agrees with
    | appended _ id id' => exact ih own.2
    | refused _ e => exact .done rfl

end Twin

/-! ## 5. One step -/

namespace Execution

variable {run : RunId}

/-- How a step ended for twins. -/
inductive StepEnd.Like (T : Instant → Instant → Prop) : StepEnd → StepEnd → Prop where
  | finished {r r' : StepResult} (h : r.Like T r') : Like T (.finished r) (.finished r')
  | halted {r r' : StepResult} (h : r.Like T r') (reason : AbortReason) :
      Like T (.halted r reason) (.halted r' reason)

theorem twin_failedNow (step : Step) (f : Failure) {t t' : Instant} (started : T t t') :
    Twin T run (StepResult.Like T) (failedNow step f t) (failedNow step f t') :=
  Twin.time.bind fun _ _ ended => .done (StepResult.like_failed step.name f started ended)

theorem twin_succeededNow (step : Step) (o : ToolOutput) {t t' : Instant} (started : T t t') :
    Twin T run (StepResult.Like T) (succeededNow step o t) (succeededNow step o t') :=
  Twin.time.bind fun _ _ ended => .done (StepResult.like_success step.name o started ended)

theorem twin_stepMemory (c : Config) {step : Step} (sees : ∀ need ∈ step.needs, need.Sees T) :
    Twin T run Eq (stepMemory c run step) (stepMemory c run step) := by
  unfold stepMemory
  split
  · exact .done rfl
  · exact Twin.recall _ _ sees

theorem twin_passGate (c : Config) (scope : Scope) (step : Step) :
    Twin T run Eq (passGate c scope step) (passGate c scope step) := by
  unfold passGate
  split
  · exact .done rfl
  · split
    · exact .done rfl
    · exact (Twin.approval ..).bind_eq fun a => by cases a <;> exact .done rfl

theorem twin_work (step : Step) (inputs : Fields Json) (prompt : Option String) {t t' : Instant}
    (started : T t t') :
    Twin T run (StepResult.Like T) (work step inputs prompt t) (work step inputs prompt t') := by
  unfold work
  split
  · exact twin_succeededNow step _ started
  · refine (Twin.call ..).bind_eq fun a => ?_
    cases a with
    | ok o => exact twin_succeededNow step o started
    | error f => exact twin_failedNow step f started

/-- A step that could not be dispatched failed for both. -/
theorem twin_finished_failed (step : Step) (f : Failure) {t t' : Instant} (started : T t t') :
    Twin T run (StepEnd.Like T)
      (do return .finished (← failedNow step f t)) (do return .finished (← failedNow step f t')) :=
  (twin_failedNow step f started).bind fun _ _ like => .done (.finished like)

theorem twin_runStep (c : Config) (ctx : RunContext) {step : Step}
    (sees : ∀ need ∈ step.needs, need.Sees T) :
    Twin T run (StepEnd.Like T) (runStep c run ctx step) (runStep c run ctx step) := by
  refine Twin.time.bind fun t t' started => ?_
  refine (twin_stepMemory c sees).bind_eq fun memory => ?_
  cases memory with
  | error e => exact twin_finished_failed step _ started
  | ok memory =>
    cases resolved : resolveInputs c.missingPath (ctx.scope memory) step.inputs with
    | error f =>
      simp only [resolved]
      exact twin_finished_failed step f started
    | ok inputs =>
      simp only [resolved]
      refine (twin_passGate c _ step).bind_eq fun pass => ?_
      cases pass with
      | failed f => exact twin_finished_failed step f started
      | halted reason => exact .done (.halted (StepResult.like_skipped _) reason)
      | passed prompt =>
        exact (twin_work step inputs prompt started).bind fun _ _ like => .done (.finished like)

theorem consequence_congr (step : Step) {r r' : StepResult} (like : r.Like T r') :
    consequence step r = consequence step r' := by
  rw [consequence, consequence, like.error]

/-- The result of a step, and what follows from it for the run. -/
def Concluded (T : Instant → Instant → Prop) (x x' : StepResult × Option AbortReason) : Prop :=
  x.1.Like T x'.1 ∧ x.2 = x'.2

theorem twin_attempt (c : Config) (ctx : RunContext) {step : Step}
    (sees : ∀ need ∈ step.needs, need.Sees T) :
    Twin T run (Concluded T) (attempt c run ctx step) (attempt c run ctx step) := by
  refine Twin.stopRequested.bind_eq fun stop => ?_
  cases stop with
  | true => exact .done ⟨StepResult.like_skipped _, rfl⟩
  | false =>
    refine (twin_runStep c ctx sees).bind fun done done' like => ?_
    cases like with
    | finished like => exact .done ⟨like, consequence_congr step like⟩
    | halted like reason => exact .done ⟨like, rfl⟩

/-! ## 6. Recording -/

theorem like_stepSlices (run : RunId) {r r' : StepResult} (like : r.Like T r') :
    List.Forall₂ (NewSlice.Like T) (Memory.stepSlices run r) (Memory.stepSlices run r') := by
  refine .cons (.result run like) ?_
  unfold Memory.detailSlice?
  rw [← like.status, ← like.output, ← like.error]
  cases r.status with
  | success =>
    cases r.output with
    | some o => exact .cons (.output run like o) .nil
    | none => exact .nil
  | failed =>
    cases r.error with
    | some f =>
      have same : errorSlice run r f = errorSlice run r' f := by rw [errorSlice, like.step]; rfl
      exact .cons (same ▸ .same _) .nil
    | none => exact .nil
  | skipped => exact .nil

theorem twin_record {r r' : StepResult} (like : r.Like T r') :
    Twin T run Eq (record run r) (record run r') :=
  Twin.appendAll (like_stepSlices run like) fun _ h => (Memory.run_of_mem_stepSlices h).1

theorem twin_startRun (workflow : String) (params : Fields Json) :
    Twin T run Eq (RunDialogue.ofStore (Memory.startRun run workflow params))
      (RunDialogue.ofStore (Memory.startRun run workflow params)) :=
  Twin.appendAll (List.forall₂_same.mpr fun s _ => .same s)
    fun _ h => (Memory.mem_startSlices h).1

theorem twin_unrecorded {r r' : StepResult} (like : r.Like T r') (message : String) :
    Twin T run (StepResult.Like T) (unrecorded r message) (unrecorded r' message) := by
  unfold unrecorded
  rw [← like.status, ← like.step]
  have failing (f : Failure) (t t' : Instant) (started : T t t') :
      Twin T run (StepResult.Like T)
        (do return StepResult.failed r.step f t (← RunDialogue.time))
        (do return StepResult.failed r.step f t' (← RunDialogue.time)) :=
    Twin.time.bind fun _ _ ended => .done (StepResult.like_failed _ f started ended)
  split
  · have started := like.startedAt
    generalize r.startedAt = start at started ⊢
    generalize r'.startedAt = start' at started ⊢
    cases started with
    | some h => exact failing _ _ _ h
    | none => exact Twin.time.bind (failing _)
  · exact .done like

theorem twin_skipAfterFault (steps : List Step) :
    Twin T run (List.Forall₂ (StepResult.Like T)) (skipAfterFault run steps)
      (skipAfterFault run steps) := by
  induction steps with
  | nil => exact .done .nil
  | cons step rest ih =>
    have skipped := StepResult.like_skipped (T := T) step.name
    exact (twin_record skipped).bind_eq fun _ =>
      ih.bind fun _ _ likes => .done (.cons skipped likes)

/-- The results of the steps, and what ended the run. -/
def Ended (T : Instant → Instant → Prop) {α : Type} (x x' : List StepResult × α) : Prop :=
  List.Forall₂ (StepResult.Like T) x.1 x'.1 ∧ x.2 = x'.2

theorem twin_skip (reason : AbortReason) (steps : List Step) :
    Twin T run (Ended T) (skip run reason steps) (skip run reason steps) := by
  induction steps with
  | nil => exact .done ⟨.nil, rfl⟩
  | cons step rest ih =>
    have skipped := StepResult.like_skipped (T := T) step.name
    refine (twin_record skipped).bind_eq fun recorded => ?_
    cases recorded with
    | ok _ => exact ih.bind fun _ _ h => .done ⟨.cons skipped h.1, h.2⟩
    | error e =>
      exact (twin_skipAfterFault rest).bind fun _ _ likes => .done ⟨.cons skipped likes, rfl⟩

theorem twin_endUnrecorded {r r' : StepResult} (like : r.Like T r') (e : StoreError)
    (rest : List Step) :
    Twin T run (List.Forall₂ (StepResult.Like T)) (endUnrecorded run r e rest)
      (endUnrecorded run r' e rest) := by
  refine (twin_unrecorded like _).bind fun kept kept' like => ?_
  have others : Twin T run (List.Forall₂ (StepResult.Like T))
      (do return kept :: (← skipAfterFault run rest))
      (do return kept' :: (← skipAfterFault run rest)) :=
    (twin_skipAfterFault rest).bind fun _ _ likes => .done (.cons like likes)
  rw [like.status]
  split
  · exact (twin_record like).bind_eq fun _ => others
  · exact others

/-! ## 7. The run -/

theorem record_congr (ctx : RunContext) {r r' : StepResult} (like : r.Like T r') :
    ctx.record r = ctx.record r' := by
  rw [RunContext.record, RunContext.record, RunContext.entry, RunContext.entry, like.step,
    like.status, like.output, like.error]

theorem twin_runSteps (c : Config) (ctx : RunContext) {steps : List Step}
    (sees : ∀ step ∈ steps, ∀ need ∈ step.needs, need.Sees T) :
    Twin T run (Ended T) (runSteps c run ctx steps) (runSteps c run ctx steps) := by
  induction steps generalizing ctx with
  | nil => exact .done ⟨.nil, rfl⟩
  | cons step rest ih =>
    rw [List.forall_mem_cons] at sees
    refine (twin_attempt c ctx sees.1).bind fun x x' concluded => ?_
    obtain ⟨r, abort⟩ := x
    obtain ⟨r', abort'⟩ := x'
    obtain ⟨like, same⟩ := concluded
    cases same
    refine (twin_record like).bind_eq fun recorded => ?_
    cases recorded with
    | error e =>
      exact (twin_endUnrecorded like e rest).bind fun _ _ likes => .done ⟨likes, rfl⟩
    | ok _ =>
      cases abort with
      | some reason =>
        exact (twin_skip reason rest).bind fun _ _ h => .done ⟨.cons like h.1, congrArg some h.2⟩
      | none =>
        have next : ctx.record r = ctx.record r' := record_congr ctx like
        show Twin T run (Ended T)
          (runSteps c run (ctx.record r) rest >>= fun x => pure (r :: x.1, x.2))
          (runSteps c run (ctx.record r') rest >>= fun x => pure (r' :: x.1, x.2))
        rw [← next]
        exact (ih _ sees.2).bind fun _ _ h => .done ⟨.cons like h.1, h.2⟩

/-- **A run goes its twin's way**, if it sees no times or theirs agree. -/
theorem twin_execute (c : Config) (w : Workflow) (run : RunId) (params : Fields Json)
    (sees : ∀ step ∈ w.steps, ∀ need ∈ step.needs, need.Sees T) :
    Twin T run (RunRecord.Like T) (execute c w run params) (execute c w run params) := by
  refine Twin.time.bind fun t t' started => ?_
  refine Twin.bind (R := Ended T) ?_ fun x x' ended => ?_
  · refine (twin_startRun w.name params).bind_eq fun opened => ?_
    cases opened with
    | error e =>
      exact .done ⟨List.forall₂_same.mpr (List.forall_mem_map.mpr fun s _ =>
        StepResult.like_skipped s.name), rfl⟩
    | ok _ => exact twin_runSteps c _ sees
  · obtain ⟨steps, abort⟩ := x
    obtain ⟨steps', abort'⟩ := x'
    obtain ⟨likes, same⟩ := ended
    cases same
    exact Twin.time.bind fun _ _ finished => .done
      { id := rfl, workflow := rfl, params := rfl, status := rfl, steps := likes, abort := rfl
        startedAt := started, finishedAt := .some finished }

end Execution
end Runbook
