import Runbook.Proofs.Run.Results

/-!
# The order of a run

The exchanges of a run fall into turns, one for each step and in the order of the steps. A turn
engages the surroundings only if every earlier turn ended with a full record, in the store, and
with leave to go on. And nothing is engaged after an exchange that ends the run, in whatever turn
it stands.

Both are statements about pairs, an earlier and a later one, so both are `List.Pairwise`: the first
of turns, the second of exchanges. They are proved along `Course`, whose rules differ in what may
follow the turn at hand: any turns, or only quiet ones.
-/

set_option autoImplicit false

namespace Runbook

/-- Nothing is engaged after an exchange that ends the run. -/
def RunTrace.Orderly (t : RunTrace) : Prop := t.Pairwise fun x y => x.EndsRun → ¬ y.Engages

namespace RunTrace

theorem orderly_of_quiet {t : RunTrace} (h : ∀ x ∈ t, ¬ x.Engages) : t.Orderly := by
  induction t with
  | nil => exact .nil
  | cons x t ih =>
    refine .cons (fun y hy _ => h y (List.mem_cons_of_mem x hy)) (ih fun y hy => ?_)
    exact h y (List.mem_cons_of_mem x hy)

theorem Orderly.append_quiet {t u : RunTrace} (ht : t.Orderly) (hu : ∀ x ∈ u, ¬ x.Engages) :
    (t ++ u).Orderly :=
  List.pairwise_append.mpr ⟨ht, orderly_of_quiet hu, fun _ _ y hy _ => hu y hy⟩

/-- As long as nothing ends the run, everything may follow. -/
theorem Orderly.after {t u : RunTrace} (hu : u.Orderly) (ht : ∀ x ∈ t, ¬ x.EndsRun) :
    (t ++ u).Orderly := by
  refine List.pairwise_append.mpr ⟨?_, hu, fun x hx _ _ hend => absurd hend (ht x hx)⟩
  induction t with
  | nil => exact .nil
  | cons x t ih =>
    refine .cons (fun _ _ hend => absurd hend (ht x (by simp))) (ih fun y hy => ?_)
    exact ht y (List.mem_cons_of_mem x hy)

theorem Appends.not_endsRun {ss : List NewSlice} {t : RunTrace} (h : Appends ss t) :
    ∀ x ∈ t, ¬ x.EndsRun := by
  intro x hx hend
  obtain ⟨s, -, id, rfl⟩ := h.mem hx
  cases hend

end RunTrace

namespace Execution

open Dialogue RunDialogue

/-! ## 1. Records -/

/-- An exchange of recording a step: a slice of one of its results is appended, or the time is
asked, for a success that is taken back. -/
inductive RecordOf (run : RunId) (name : String) : RunExchange → Prop where
  | time (t : Instant) : RecordOf run name ⟨.time, t⟩
  | append {r : StepResult} (step : r.step = name) {s : NewSlice}
      (slice : s ∈ Memory.stepSlices run r) (x : Except StoreError Nat) :
      RecordOf run name ⟨.store (.append s), x⟩

theorem RecordOf.quiet {run : RunId} {name : String} {x : RunExchange} (h : RecordOf run name x) :
    ¬ x.Engages := by
  cases h <;> exact id

theorem recordOf_record {run : RunId} {r : StepResult} {t : RunTrace} {x : Except StoreError Unit}
    (h : Yields (record run r) t x) : ∀ y ∈ t, RecordOf run r.step y := by
  intro y hy
  obtain ⟨s, hs, hq⟩ := append_of_mem_appendAll h hy
  obtain ⟨q, a⟩ := y
  subst hq
  exact .append rfl hs a

theorem Demoted.own {r kept : StepResult} {message : String} {t : RunTrace}
    (h : Demoted r message t kept) (run : RunId) (name : String) :
    ∀ x ∈ t, RecordOf run name x := by
  intro x hx
  cases h with
  | success _ _ _ times =>
    obtain ⟨i, rfl⟩ := times x hx
    exact .time i
  | other => exact absurd hx (by simp)

theorem Demoted.step_eq {r kept : StepResult} {message : String} {t : RunTrace}
    (h : Demoted r message t kept) : kept.step = r.step := by
  cases h <;> rfl

theorem Amends.own {run : RunId} {kept : StepResult} {t : RunTrace} (h : Amends run kept t) :
    ∀ x ∈ t, RecordOf run kept.step x := by
  cases h with
  | tried _ tried => exact recordOf_record tried
  | none => simp

/-- The full record of a step that was carried out: its result, and then its output or its
error. Both are in the store. -/
inductive Recorded (run : RunId) (r : StepResult) : RunTrace → Prop where
  | success {o : ToolOutput} (status : r.status = .success) (output : r.output = some o)
      (i j : Nat) :
      Recorded run r
        [.appended (Memory.resultSlice run r) i, .appended (Memory.outputSlice run r o) j]
  | failed {f : Failure} (status : r.status = .failed) (error : r.error = some f) (i j : Nat) :
      Recorded run r
        [.appended (Memory.resultSlice run r) i, .appended (Memory.errorSlice run r f) j]

theorem CarriedOut.recorded {name : String} {run : RunId} {r : StepResult} {t : RunTrace}
    (h : CarriedOut name r) (ht : RunTrace.Appends (Memory.stepSlices run r) t) :
    Recorded run r t := by
  cases h with
  | success o t₀ t₁ =>
    cases ht with
    | cons _ i ht =>
      cases ht with
      | cons _ j ht =>
        cases ht
        exact .success rfl rfl i j
  | failed f t₀ t₁ =>
    cases ht with
    | cons _ i ht =>
      cases ht with
      | cons _ j ht =>
        cases ht
        exact .failed rfl rfl i j

theorem appends_of_record {run : RunId} {r : StepResult} {t : RunTrace}
    (h : Yields (record run r) t (.ok ())) : RunTrace.Appends (Memory.stepSlices run r) t := by
  rcases yields_appendAll h with ⟨-, all⟩ | ⟨_, _, _, _, _, -, -, -, hr⟩
  · exact all
  · exact absurd hr (by simp)

/-! ## 2. Turns -/

/-- A step with its result and its exchanges. -/
structure Turn extends Stretch where
  step : Step
  result : StepResult

namespace Turn

/-- The result and all exchanges are of the step itself. -/
structure Own (run : RunId) (p : Turn) : Prop where
  named : p.result.step = p.step.name
  work : ∀ x ∈ p.work, WorkOf run p.step x
  records : ∀ x ∈ p.records, RecordOf run p.step.name x

def Engages (p : Turn) : Prop := ∃ x ∈ p.trace, x.Engages

/-- The outcome lets the run go on: the step was carried out, and not to the end of the run. -/
def LetsGoOn (p : Turn) : Prop := p.result.status ≠ .skipped ∧ consequence p.step p.result = none

/-- A later turn engages the surroundings only after a full record and with leave to go on. -/
def Before (run : RunId) (p q : Turn) : Prop :=
  q.Engages → Recorded run p.result p.records ∧ p.LetsGoOn

theorem quiet_of_records {run : RunId} {p : Turn} (hwork : p.work = []) (h : p.Own run) :
    ¬ p.Engages := by
  rintro ⟨x, hx, engages⟩
  rw [Stretch.trace, hwork, List.nil_append] at hx
  exact (h.records x hx).quiet engages

end Turn

/-- The turns of the steps, with their results and their exchanges. -/
structure Turns (run : RunId) (steps : List Step) (rs : List StepResult) (ss : List Stretch)
    (ps : List Turn) : Prop where
  steps_eq : ps.map (·.step) = steps
  results_eq : ps.map (·.result) = rs
  stretches_eq : ps.map (·.toStretch) = ss
  own : ∀ p ∈ ps, p.Own run
  before : ps.Pairwise (Turn.Before run)

theorem Turns.nil {run : RunId} : Turns run [] [] [] [] :=
  ⟨rfl, rfl, rfl, by simp, .nil⟩

theorem Turns.cons {run : RunId} {p : Turn} {steps : List Step} {rs : List StepResult}
    {ss : List Stretch} {ps : List Turn} (own : p.Own run)
    (before : ∀ q ∈ ps, p.Before run q) (h : Turns run steps rs ss ps) :
    Turns run (p.step :: steps) (p.result :: rs) (p.toStretch :: ss) (p :: ps) where
  steps_eq := by rw [List.map_cons, h.steps_eq]
  results_eq := by rw [List.map_cons, h.results_eq]
  stretches_eq := by rw [List.map_cons, h.stretches_eq]
  own := by
    intro q hq
    rcases List.mem_cons.mp hq with rfl | hq
    · exact own
    · exact h.own q hq
  before := .cons before h.before

/-- Only quiet turns follow. -/
theorem Turns.last {run : RunId} {p : Turn} {steps : List Step} {rs : List StepResult}
    {ss : List Stretch} {ps : List Turn} (own : p.Own run) (h : Turns run steps rs ss ps)
    (quiet : ∀ q ∈ ps, ¬ q.Engages) :
    Turns run (p.step :: steps) (p.result :: rs) (p.toStretch :: ss) (p :: ps) :=
  h.cons own fun q hq engages => absurd engages (quiet q hq)

theorem Skips.turns {run : RunId} {steps : List Step} {ss : List Stretch}
    (h : Skips run steps ss) :
    ∃ ps, Turns run steps (skippedResults steps) ss ps ∧ ∀ p ∈ ps, ¬ p.Engages := by
  induction h with
  | nil => exact ⟨[], .nil, by simp⟩
  | @cons step t _ _ _ tried _ ih =>
    obtain ⟨ps, turns, quiet⟩ := ih
    have own : Turn.Own run ⟨{ records := t }, step, StepResult.skipped step.name⟩ :=
      ⟨rfl, by simp, recordOf_record tried⟩
    refine ⟨_ :: ps, turns.last own quiet, ?_⟩
    intro p hp
    rcases List.mem_cons.mp hp with rfl | hp
    · exact Turn.quiet_of_records rfl own
    · exact quiet p hp

/-- The results of a step are its own, whatever becomes of them. -/
theorem StepCourse.step_eq {c : Config} {run : RunId} {ctx : RunContext} {step : Step}
    {t : RunTrace} {r : StepResult} {abort : Option AbortReason}
    (h : StepCourse c run ctx step t r abort) :
    r.step = step.name := by
  rcases h.result with ⟨carriedOut, -⟩ | ⟨rfl, -⟩
  · exact carriedOut.step_eq
  · rfl

theorem Course.turns {c : Config} {run : RunId} {ctx : RunContext} {steps : List Step}
    {ss : List Stretch} {rs : List StepResult} {abort : Option AbortReason}
    (h : Course c run ctx steps ss rs abort) : ∃ ps, Turns run steps rs ss ps := by
  induction h with
  | ended => exact ⟨[], .nil⟩
  | @goesOn _ step _ work records r _ _ _ attempted recorded _ ih =>
    have step_course := yields_attempt attempted
    obtain ⟨ps, turns⟩ := ih
    have own : Turn.Own run ⟨⟨work, records⟩, step, r⟩ :=
      ⟨step_course.step_eq, step_course.own, step_course.step_eq ▸ recordOf_record recorded⟩
    -- this is the one rule that lets a later turn engage the surroundings
    rcases step_course.result with ⟨carriedOut, goesOn⟩ | ⟨-, aborts⟩
    · have full := carriedOut.recorded (appends_of_record recorded)
      exact ⟨_, turns.cons own fun _ _ _ => ⟨full, carriedOut.not_skipped, goesOn.symm⟩⟩
    · exact absurd aborts (by simp)
  | @aborted _ step _ work records r _ _ _ attempted recorded skipped =>
    have step_course := yields_attempt attempted
    obtain ⟨ps, turns, quiet⟩ := skipped.turns
    have own : Turn.Own run ⟨⟨work, records⟩, step, r⟩ :=
      ⟨step_course.step_eq, step_course.own, step_course.step_eq ▸ recordOf_record recorded⟩
    exact ⟨_, turns.last own quiet⟩
  | @unrecorded _ step _ work records demotion again r kept _ _ _ attempted failed demoted
      amended skipped =>
    have step_course := yields_attempt attempted
    obtain ⟨ps, turns, quiet⟩ := skipped.turns
    have name : kept.step = step.name := demoted.step_eq.trans step_course.step_eq
    have own : Turn.Own run ⟨⟨work, records ++ demotion ++ again⟩, step, kept⟩ := by
      refine ⟨name, step_course.own, fun x hx => ?_⟩
      rcases List.mem_append.mp hx with hx | hx
      · rcases List.mem_append.mp hx with hx | hx
        · exact step_course.step_eq ▸ recordOf_record failed x hx
        · exact demoted.own run step.name x hx
      · exact name ▸ amended.own x hx
    exact ⟨_, turns.last own quiet⟩

/-- The turns of a run that was not started: nothing is exchanged in them. -/
theorem turns_unstarted (run : RunId) (steps : List Step) :
    ∃ ps, Turns run steps (skippedResults steps) (steps.map fun _ => {}) ps := by
  suffices h : ∃ ps, Turns run steps (skippedResults steps) (steps.map fun _ => {}) ps ∧
      ∀ p ∈ ps, ¬ p.Engages from h.imp fun _ h => h.1
  induction steps with
  | nil => exact ⟨[], .nil, by simp⟩
  | cons step rest ih =>
    obtain ⟨ps, turns, quiet⟩ := ih
    have own : Turn.Own run ⟨{}, step, StepResult.skipped step.name⟩ :=
      ⟨rfl, by simp, by simp⟩
    refine ⟨_ :: ps, turns.last own quiet, ?_⟩
    intro p hp
    rcases List.mem_cons.mp hp with rfl | hp
    · exact Turn.quiet_of_records rfl own
    · exact quiet p hp

theorem RunCourse.turns {c : Config} {w : Workflow} {run : RunId} {params : Fields Json}
    {start : RunTrace} {ss : List Stretch} {rs : List StepResult} {abort : Option AbortReason}
    (h : RunCourse c w run params start ss rs abort) : ∃ ps, Turns run w.steps rs ss ps := by
  cases h with
  | unstarted => exact turns_unstarted run w.steps
  | started _ course => exact course.turns

/-! ## 3. The end of a run -/

theorem quiet_record {run : RunId} {r : StepResult} {t : RunTrace} {x : Except StoreError Unit}
    (h : Yields (record run r) t x) : ∀ y ∈ t, ¬ y.Engages :=
  fun y hy => (recordOf_record h y hy).quiet

theorem Skips.quiet {run : RunId} {steps : List Step} {ss : List Stretch}
    (h : Skips run steps ss) : ∀ x ∈ Stretch.traces ss, ¬ x.Engages := by
  induction h with
  | nil => simp
  | cons tried _ ih =>
    intro x hx
    rcases List.mem_append.mp hx with hx | hx
    · exact quiet_record tried x hx
    · exact ih x hx

theorem StepCourse.orderly {c : Config} {run : RunId} {ctx : RunContext} {step : Step}
    {t : RunTrace} {r : StepResult} {abort : Option AbortReason}
    (h : StepCourse c run ctx step t r abort) :
    t.Orderly := by
  rcases h.endsRun_last with none | ⟨-, front, x, rfl, none⟩
  · rw [← List.append_nil t]
    exact RunTrace.Orderly.after .nil none
  · exact RunTrace.Orderly.after (List.pairwise_singleton _ x) none

theorem Course.orderly {c : Config} {run : RunId} {ctx : RunContext} {steps : List Step}
    {ss : List Stretch} {rs : List StepResult} {abort : Option AbortReason}
    (h : Course c run ctx steps ss rs abort) : (Stretch.traces ss).Orderly := by
  induction h with
  | ended => exact .nil
  | goesOn attempted recorded _ ih =>
    have step_course := yields_attempt attempted
    rw [Stretch.traces_cons, List.append_assoc]
    have unended := (appends_of_record recorded).not_endsRun
    -- a step that lets the run go on was not skipped, so it has no exchange that ends the run
    rcases step_course.endsRun_last with none | ⟨skipped, -⟩
    · exact RunTrace.Orderly.after (ih.after unended) none
    · rcases step_course.result with ⟨carriedOut, -⟩ | ⟨-, aborts⟩
      · exact absurd (congrArg StepResult.status skipped) carriedOut.not_skipped
      · exact absurd aborts (by simp)
  | aborted attempted recorded skipped =>
    have step_course := yields_attempt attempted
    exact (step_course.orderly.append_quiet (quiet_record recorded)).append_quiet skipped.quiet
  | @unrecorded _ _ _ _ _ _ _ _ kept _ _ _ attempted failed demoted amended skipped =>
    rw [Stretch.traces_cons]
    -- once a record fails, there are only further records
    refine RunTrace.Orderly.append_quiet ?_ skipped.quiet
    refine (yields_attempt attempted).orderly.append_quiet fun x hx => ?_
    rcases List.mem_append.mp hx with hx | hx
    · rcases List.mem_append.mp hx with hx | hx
      · exact quiet_record failed x hx
      · exact (demoted.own run kept.step x hx).quiet
    · exact (amended.own x hx).quiet

/-- An exchange of starting a run. -/
def StartOf (w : Workflow) (run : RunId) (params : Fields Json) (x : RunExchange) : Prop :=
  x.question = .time ∨ ∃ s ∈ Memory.startSlices run w.name params, x.question = .store (.append s)

theorem StartOf.quiet {w : Workflow} {run : RunId} {params : Fields Json} {x : RunExchange}
    (h : StartOf w run params x) : ¬ x.Engages := by
  rcases h with h | ⟨s, -, h⟩ <;> rw [RunExchange.Engages, h] <;> exact id

theorem RunCourse.startOf {c : Config} {w : Workflow} {run : RunId} {params : Fields Json}
    {start : RunTrace} {ss : List Stretch} {rs : List StepResult} {abort : Option AbortReason}
    (h : RunCourse c w run params start ss rs abort) : ∀ x ∈ start, StartOf w run params x := by
  cases h with
  | unstarted recorded | started recorded =>
    exact fun _ hx => .inr (append_of_mem_appendAll recorded hx)

/-- The start of a run may have the time in front. -/
theorem RunCourse.startOf_timed {c : Config} {w : Workflow} {run : RunId} {params : Fields Json}
    {start : RunTrace} {ss : List Stretch} {rs : List StepResult} {abort : Option AbortReason}
    (h : RunCourse c w run params start ss rs abort) (t₀ : Instant) :
    ∀ x ∈ (⟨.time, t₀⟩ :: start : RunTrace), StartOf w run params x :=
  List.forall_mem_cons.mpr ⟨.inl rfl, h.startOf⟩

theorem RunCourse.orderly {c : Config} {w : Workflow} {run : RunId} {params : Fields Json}
    {start : RunTrace} {ss : List Stretch} {rs : List StepResult} {abort : Option AbortReason}
    (h : RunCourse c w run params start ss rs abort) (t₀ t₁ : Instant) :
    (runTrace t₀ t₁ start ss).Orderly := by
  have last : ∀ x ∈ [(⟨.time, t₁⟩ : RunExchange)], ¬ RunExchange.Engages x := by
    intro x hx
    rw [List.mem_singleton.mp hx]
    exact id
  have first : ∀ x ∈ [(⟨.time, t₀⟩ : RunExchange)], ¬ RunExchange.EndsRun x :=
    not_endsRun_time t₀
  cases h with
  | unstarted failed =>
    have silent : Stretch.traces (w.steps.map fun _ => {}) = [] := by
      simp [Stretch.traces, Stretch.trace]
    rw [runTrace, silent, List.append_nil]
    refine RunTrace.Orderly.append_quiet ?_ last
    refine RunTrace.Orderly.after (t := [_]) (RunTrace.orderly_of_quiet fun x hx => ?_) first
    exact ((RunCourse.unstarted (c := c) failed).startOf x hx).quiet
  | started recorded course =>
    rcases yields_appendAll recorded with ⟨-, all⟩ | ⟨_, _, _, _, _, -, -, -, hr⟩
    · refine RunTrace.Orderly.append_quiet ?_ last
      exact RunTrace.Orderly.after (t := [_]) (course.orderly.after all.not_endsRun) first
    · exact absurd hr (by simp)

/-! ## 4. The run -/

/-- The exchanges `t` of a run with this record are in order. -/
structure InOrder (w : Workflow) (run : RunId) (params : Fields Json) (t : RunTrace)
    (rec : RunRecord) : Prop where
  /-- After the start the steps take turns, and a turn that engages the surroundings stands behind
  full records only, and behind outcomes that let the run go on. -/
  turns : ∃ start ss ps finish, t = start ++ Stretch.traces ss ++ finish ∧
    (∀ x ∈ start, StartOf w run params x) ∧ (∀ x ∈ finish, x.question = .time) ∧
    Turns run w.steps rec.steps ss ps
  /-- Nothing is engaged once a slice is refused, a gate is not passed or the run is told to
  stop. -/
  orderly : t.Orderly

theorem inOrder_of_yields {c : Config} {w : Workflow} {run : RunId} {params : Fields Json}
    {t : RunTrace} {rec : RunRecord} (h : Yields (execute c w run params) t rec) :
    InOrder w run params t rec := by
  obtain ⟨t₀, t₁, start, ss, abort, rfl, course, -⟩ := yields_execute h
  obtain ⟨ps, turns⟩ := course.turns
  refine ⟨⟨⟨.time, t₀⟩ :: start, ss, ps, [⟨.time, t₁⟩], rfl, ?_, ?_, turns⟩,
    course.orderly t₀ t₁⟩
  · intro x hx
    rcases List.mem_cons.mp hx with rfl | hx
    · exact .inl rfl
    · exact course.startOf x hx
  · intro x hx
    rw [List.mem_singleton.mp hx]

/-- **Whatever the surroundings answer, the exchanges of a run are in order.** -/
theorem execute_in_order {σ : Type} (reply : (q : RunQuestion) → σ → RunAnswer q × σ) (s : σ)
    (c : Config) (w : Workflow) (run : RunId) (params : Fields Json) :
    InOrder w run params ((execute c w run params).transcript reply s)
      ((execute c w run params).answered reply s).1 :=
  inOrder_of_yields (yields_transcript reply _ s)

end Execution
end Runbook
