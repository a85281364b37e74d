import Runbook.Proofs.Engine.Succession

/-!
# What aborts a run

Over a store that works, and as long as nobody tells the run to stop, a run is aborted by its own
steps alone: at a gate that is denied or expires, by a failure whose policy says so, and by a call
that its tool gives up as cancelled, whatever the policy. `execute_aborts_iff` says that the reason
is that of the first such step, so any other failure is passed over.

A tool may give a call up although nobody asked for it. The run cannot tell the two apart, and
`withdrawn_call` shows what comes of it: the policy of the step is not looked at.
-/

set_option autoImplicit false

namespace Runbook

open Memory

/-- The answer says that the run has been told to stop. -/
inductive RunExchange.Stops : RunExchange → Prop where
  | step : Stops ⟨.stopRequested, true⟩
  | gate (step prompt : String) (limit : Option Nat) :
      Stops ⟨.approval step prompt limit, .stopped⟩

/-- Nobody has told the run to stop. -/
def RunTrace.Unstopped (t : RunTrace) : Prop := ∀ x ∈ t, ¬ x.Stops

theorem RunTrace.unstopped_append {t u : RunTrace} :
    Unstopped (t ++ u) ↔ Unstopped t ∧ Unstopped u :=
  List.forall_mem_append

namespace Execution

open Dialogue RunDialogue RunTrace

/-! ## 1. One step -/

/-- The step ends the run for this reason. -/
inductive Turn.Ends (p : Turn) : AbortReason → Prop where
  | denied {prompt : String} {limit : Option Nat}
      (asked : ⟨.approval p.step.name prompt limit, .denied⟩ ∈ p.work) :
      p.Ends (.gateDenied p.step.name)
  | expired {prompt : String} {limit : Option Nat}
      (asked : ⟨.approval p.step.name prompt limit, .expired⟩ ∈ p.work) :
      p.Ends (.gateExpired p.step.name)
  | cancelled {f : Failure} (status : p.result.status = .failed) (error : p.result.error = some f)
      (kind : f.kind = .cancelled) : p.Ends (.cancelled (some p.step.name))
  | failed {f : Failure} (status : p.result.status = .failed) (error : p.result.error = some f)
      (kind : f.kind ≠ .cancelled) (policy : p.step.onFailure = .abortChain) :
      p.Ends (.stepFailed p.step.name f.kind f.message)

section

variable {c : Config} {run : RunId} {ctx : RunContext} {step : Step} {work records : RunTrace}
  {r : StepResult} {abort : Option AbortReason} {reason : AbortReason}

/-- A step that was carried out ends the run by its failure. -/
theorem CarriedOut.ends_iff (h : CarriedOut step.name r) (quiet : ∀ x ∈ work, ¬ x.EndsRun) :
    consequence step r = some reason ↔ Turn.Ends ⟨⟨work, records⟩, step, r⟩ reason := by
  constructor
  · intro ends
    cases h with
    | success => cases ends
    | failed f t₀ t₁ =>
      simp only [consequence, StepResult.failed] at ends
      split at ends
      · next kind =>
        cases ends
        exact .cancelled rfl rfl kind
      · next kind =>
        split at ends
        · cases ends
        · next policy =>
          cases ends
          exact .failed rfl rfl kind policy
  · intro ends
    cases ends with
    | denied asked => exact absurd (.gate _ _ _ _ (by simp)) (quiet _ asked)
    | expired asked => exact absurd (.gate _ _ _ _ (by simp)) (quiet _ asked)
    | cancelled _ error kind =>
      dsimp only at error
      simp [consequence, error, kind]
    | failed _ error kind policy =>
      dsimp only at error kind policy
      simp [consequence, error, kind, policy]

/-- A refused gate ends the run, and so does nothing else of its step. -/
theorem GateCourse.ends_iff {scope : Scope} {front gate : RunTrace} {reason' : AbortReason}
    (h : GateCourse c scope step gate (.halted reason)) (quiet : ∀ x ∈ front, ¬ x.EndsRun)
    (unstopped : gate.Unstopped) :
    reason = reason' ↔
      Turn.Ends ⟨⟨front ++ gate, records⟩, step, StepResult.skipped step.name⟩ reason' := by
  cases h with
  | @refused _ prompt _ _ a _ refused =>
    constructor
    · rintro rfl
      cases a with
      | approved => cases refused
      | denied =>
        cases refused
        exact .denied (List.mem_append_right _ (List.mem_singleton.mpr rfl))
      | expired =>
        cases refused
        exact .expired (List.mem_append_right _ (List.mem_singleton.mpr rfl))
      | stopped => exact absurd (.gate _ _ _) (unstopped _ (List.mem_singleton.mpr rfl))
    · intro ends
      -- only the last exchange can have ended the run
      have last : ∀ {prompt' : String} {limit : Option Nat} {b : Approval}, b ≠ .approved →
          (⟨.approval step.name prompt' limit, b⟩ : RunExchange) ∈
            front ++ [⟨.approval step.name prompt c.gateTimeoutSecs, a⟩] → a = b := by
        intro prompt' limit b refused asked
        rcases List.mem_append.mp asked with asked | asked
        · exact absurd (.gate _ _ _ _ refused) (quiet _ asked)
        · cases List.mem_singleton.mp asked
          rfl
      cases ends with
      | denied asked =>
        obtain rfl := last (by simp) asked
        exact (Option.some.inj refused).symm
      | expired asked =>
        obtain rfl := last (by simp) asked
        exact (Option.some.inj refused).symm
      | cancelled status => cases status
      | failed status => cases status

/-- **What a step means for its run** can be read off its gate and its result. -/
theorem StepCourse.ends_iff (h : StepCourse c run ctx step work r abort)
    (unstopped : work.Unstopped) :
    abort = some reason ↔ Turn.Ends ⟨⟨work, records⟩, step, r⟩ reason := by
  rcases h.result with ⟨carriedOut, rfl⟩ | ⟨rfl, -⟩
  · refine carriedOut.ends_iff ?_
    rcases h.endsRun_last with quiet | ⟨skipped, -⟩
    · exact quiet
    · exact absurd (congrArg StepResult.status skipped) carriedOut.not_skipped
  · -- the step was skipped without an order to stop, so its gate was refused
    cases h with
    | stopped => exact absurd .step (unstopped _ (List.mem_singleton.mpr rfl))
    | unread _ _ _ result => cases result
    | unresolved _ _ _ _ result => cases result
    | unprompted _ _ _ _ _ result => cases result
    | refused _ read _ halted =>
      rw [Option.some.injEq]
      exact halted.ends_iff (not_endsRun_approach read) (unstopped_append.mp unstopped).2
    | worked _ _ _ _ worked => cases worked

end

/-! ## 2. The run -/

/-- The first turn that ends the run ends it for this reason. -/
def FirstEnd (ps : List Turn) (reason : AbortReason) : Prop :=
  ∃ front p back, ps = front ++ p :: back ∧ (∀ q ∈ front, ∀ other, ¬ q.Ends other) ∧ p.Ends reason

theorem not_firstEnd_nil (reason : AbortReason) : ¬ FirstEnd [] reason := by
  rintro ⟨front, p, back, split, -⟩
  cases front <;> cases split

/-- The turn at hand comes first, if it ends the run at all. -/
theorem firstEnd_cons_of_ends {p : Turn} {ps : List Turn} {reason : AbortReason}
    (h : ∃ other, p.Ends other) : FirstEnd (p :: ps) reason ↔ p.Ends reason := by
  constructor
  · rintro ⟨front, q, back, split, passed, ends⟩
    cases front with
    | nil =>
      cases split
      exact ends
    | cons a front =>
      obtain ⟨rfl, -⟩ := List.cons.inj split
      obtain ⟨other, here⟩ := h
      exact absurd here (passed _ (List.mem_cons_self ..) other)
  · intro ends
    exact ⟨[], p, ps, rfl, by simp, ends⟩

theorem firstEnd_cons_of_passed {p : Turn} {ps : List Turn} {reason : AbortReason}
    (h : ∀ other, ¬ p.Ends other) : FirstEnd (p :: ps) reason ↔ FirstEnd ps reason := by
  constructor
  · rintro ⟨front, q, back, split, passed, ends⟩
    cases front with
    | nil =>
      cases split
      exact absurd ends (h reason)
    | cons a front =>
      obtain ⟨rfl, rfl⟩ := List.cons.inj split
      exact ⟨front, q, back, rfl, fun x hx => passed x (List.mem_cons_of_mem _ hx), ends⟩
  · rintro ⟨front, q, back, rfl, passed, ends⟩
    exact ⟨p :: front, q, back, rfl, List.forall_mem_cons.mpr ⟨h, passed⟩, ends⟩

/-- Some turn ends the run exactly if a first one does. -/
theorem exists_firstEnd_iff (ps : List Turn) :
    (∃ reason, FirstEnd ps reason) ↔ ∃ p ∈ ps, ∃ reason, p.Ends reason := by
  induction ps with
  | nil => simp [not_firstEnd_nil]
  | cons p ps ih =>
    by_cases h : ∃ other, p.Ends other
    · simp only [firstEnd_cons_of_ends h, List.mem_cons, exists_eq_or_imp, h, true_or]
    · have passed : ∀ other, ¬ p.Ends other := fun other ends => h ⟨other, ends⟩
      simp only [firstEnd_cons_of_passed passed, List.mem_cons, exists_eq_or_imp, h, false_or, ih]

theorem Course.abort_iff {c : Config} {run : RunId} {ctx : RunContext} {ps : List Turn}
    {abort : Option AbortReason}
    (h : Course c run ctx (ps.map (·.step)) (ps.map (·.toStretch)) (ps.map (·.result)) abort)
    (working : (Stretch.traces (ps.map (·.toStretch))).Working)
    (unstopped : (Stretch.traces (ps.map (·.toStretch))).Unstopped) (reason : AbortReason) :
    abort = some reason ↔ FirstEnd ps reason := by
  induction ps generalizing ctx with
  | nil =>
    cases h
    simp [not_firstEnd_nil]
  | cons p ps ih =>
    obtain ⟨⟨work, records⟩, step, r⟩ := p
    simp only [List.map_cons] at h
    rw [List.map_cons, Stretch.traces_cons, working_append, working_append] at working
    rw [List.map_cons, Stretch.traces_cons, unstopped_append, unstopped_append] at unstopped
    obtain ⟨⟨-, records_working⟩, later_working⟩ := working
    obtain ⟨⟨work_unstopped, -⟩, later_unstopped⟩ := unstopped
    generalize results : ps.map (·.result) = rs at h
    cases h with
    | goesOn attempted _ later =>
      subst results
      -- the step lets the run go on, so it has no end of its own
      have ends : ∀ other, none = some other ↔ Turn.Ends ⟨⟨work, records⟩, step, r⟩ other :=
        fun _ => (yields_attempt attempted).ends_iff work_unstopped
      rw [ih later later_working later_unstopped, firstEnd_cons_of_passed]
      intro other here
      cases (ends other).mpr here
    | @aborted _ _ _ _ _ _ _ reason' _ attempted _ skipped why =>
      have ends : ∀ other, some reason' = some other ↔
          Turn.Ends ⟨⟨work, records⟩, step, r⟩ other :=
        fun _ => (yields_attempt attempted).ends_iff work_unstopped
      rcases why with rfl | ⟨s, e, refused⟩
      · rw [firstEnd_cons_of_ends ⟨_, (ends _).mp rfl⟩]
        exact ends reason
      · exact absurd (.append s e) (later_working _ refused)
    | unrecorded _ failed =>
      rw [working_append, working_append] at records_working
      exact absurd (ok_of_appendAll failed records_working.1.1).1 (by simp)

/-- **A run is aborted for the first end that one of its steps gives it**, as long as the store
works and nobody tells the run to stop. A failure that its policy tolerates is no such end, unless
it is that of a call given up as cancelled; the next step has its turn. -/
theorem execute_aborts_iff {c : Config} {w : Workflow} {run : RunId} {params : Fields Json}
    {t : RunTrace} {rec : RunRecord} (ran : Yields (execute c w run params) t rec)
    (working : t.Working) (unstopped : t.Unstopped) :
    ∃ start ss ps finish, t = start ++ Stretch.traces ss ++ finish ∧
      Turns run w.steps rec.steps ss ps ∧
      (rec.status = .aborted ↔ ∃ p ∈ ps, ∃ reason, p.Ends reason) ∧
      (∀ reason, rec.abort = some reason ↔ FirstEnd ps reason) ∧
      ∀ front p q back, ps = front ++ p :: q :: back → p.FailsOn →
        q.Taken c run
          (((front ++ [p]).map (·.result)).foldl RunContext.record (openingContext c params)) := by
  obtain ⟨t₀, t₁, start, ss, abort, rfl, course, hrec⟩ := yields_execute ran
  obtain ⟨ps, turns⟩ := course.turns
  obtain ⟨start_working, steps_working⟩ := working_runTrace working
  have steps_unstopped : (Stretch.traces ss).Unstopped :=
    (unstopped_append.mp (unstopped_append.mp unstopped).1).2
  have steps := (course.course start_working).2
  rw [← turns.stretches_eq] at steps_working steps_unstopped
  rw [← turns.steps_eq, ← turns.stretches_eq, ← turns.results_eq] at steps
  have ended := steps.abort_iff steps_working steps_unstopped
  refine ⟨⟨.time, t₀⟩ :: start, ss, ps, [⟨.time, t₁⟩], rfl, turns, ?_, ?_, ?_⟩
  · rw [← exists_firstEnd_iff, hrec]
    cases abort with
    | none => simp [← ended]
    | some reason => simp [← ended]
  · intro reason
    rw [← ended reason, hrec]
  · rintro front p q back rfl fails
    exact steps.next steps_working fails.letsGoOn

/-! ## 3. A failure, a gate, and a call that is given up -/

/-- Nobody tells the run to stop. All calls come to one end, and all gates to one answer. -/
def undisturbed (outcome : Except Failure ToolOutput) (answer : Approval) :
    (q : RunQuestion) → Unit → RunAnswer q × Unit
  | .store (.append _), s => (.ok 0, s)
  | .store (.query _), s => (.ok [], s)
  | .store (.history _), s => (.ok [], s)
  | .time, s => (⟨0⟩, s)
  | .stopRequested, s => (false, s)
  | .approval .., s => (answer, s)
  | .call .., s => (outcome, s)

theorem unstopped_transcript {α : Type} {outcome : Except Failure ToolOutput} {answer : Approval}
    (h : answer ≠ .stopped) (d : RunDialogue α) (s : RunTable × Unit) :
    Unstopped (d.transcript (overStore ⟨0⟩ (undisturbed outcome answer)) s) := by
  intro x hx stops
  obtain ⟨s', given⟩ := answer_of_mem_transcript hx
  cases stops with
  | step => cases given
  | gate => exact h (Eq.symm given)

/-- A step that may fail, a checkpoint, and another step. -/
def reviewWorkflow : Workflow where
  name := "review"
  description := none
  params := []
  steps :=
    [{ name := "find", tool := some "lookup", onFailure := .proceed },
      Step.checkpoint "check" "Go on?", { name := "show", tool := some "lookup" }]

def reviewRun : RunDialogue RunRecord := execute {} reviewWorkflow "r1" []

/-- Calls find nothing, and the gate is denied. -/
def reviewed : (q : RunQuestion) → RunTable × Unit → RunAnswer q × (RunTable × Unit) :=
  overStore ⟨0⟩ (undisturbed (.error ⟨.toolExecution, "not found"⟩) .denied)

def reviewTrace : RunTrace := reviewRun.transcript reviewed ({}, ())

def reviewRecord : RunRecord := (reviewRun.answered reviewed ({}, ())).1

/-- The general statement at a run that goes past a failure, and ends at a gate. -/
theorem execute_aborts_iff_review :
    Yields reviewRun reviewTrace reviewRecord ∧ reviewTrace.Working ∧ reviewTrace.Unstopped ∧
      reviewRecord.abort = some (.gateDenied "check") ∧
      ∃ start ss ps finish, reviewTrace = start ++ Stretch.traces ss ++ finish ∧
        Turns "r1" reviewWorkflow.steps reviewRecord.steps ss ps ∧
        (reviewRecord.status = .aborted ↔ ∃ p ∈ ps, ∃ reason, p.Ends reason) ∧
        (∀ reason, reviewRecord.abort = some reason ↔ FirstEnd ps reason) ∧
        ∀ front p q back, ps = front ++ p :: q :: back → p.FailsOn →
          q.Taken {} "r1"
            (((front ++ [p]).map (·.result)).foldl RunContext.record (openingContext {} [])) := by
  have ran : Yields reviewRun reviewTrace reviewRecord := yields_transcript _ reviewRun _
  have working : reviewTrace.Working :=
    working_of_runTable (served_transcript ⟨0⟩ _ reviewRun (({} : RunTable), ()))
  have unstopped : reviewTrace.Unstopped := unstopped_transcript (fun h => by cases h) reviewRun _
  exact ⟨ran, working, unstopped, by decide +kernel, execute_aborts_iff ran working unstopped⟩

/-- Every call is given up, although nobody asked for it. -/
def withdrawn : (q : RunQuestion) → RunTable × Unit → RunAnswer q × (RunTable × Unit) :=
  overStore ⟨0⟩ (undisturbed (.error ⟨.cancelled, "tool call cancelled"⟩) .approved)

/-- **A failure ends the run against the policy of its step.** The call of the first step was given
up as cancelled. The policy of the step is to go on, the store works and nobody told the run to
stop, but the run is aborted, and for another reason than that the step failed. -/
theorem withdrawn_call :
    Yields lookupRun (lookupRun.transcript withdrawn ({}, ()))
        (lookupRun.answered withdrawn ({}, ())).1 ∧
      Working (lookupRun.transcript withdrawn ({}, ())) ∧
      Unstopped (lookupRun.transcript withdrawn ({}, ())) ∧
      lookupWorkflow.steps.map (fun s => (s.name, s.gate, s.onFailure)) =
        [("find", none, .proceed), ("show", none, .abortChain)] ∧
      (lookupRun.answered withdrawn ({}, ())).1.steps.map (fun r => (r.step, r.status, r.error)) =
        [("find", .failed, some ⟨.cancelled, "tool call cancelled"⟩), ("show", .skipped, none)] ∧
      (lookupRun.answered withdrawn ({}, ())).1.status = .aborted ∧
      (lookupRun.answered withdrawn ({}, ())).1.abort = some (.cancelled (some "find")) := by
  refine ⟨yields_transcript _ lookupRun _, ?_, ?_, rfl, rfl, rfl, rfl⟩
  · exact working_of_runTable (served_transcript ⟨0⟩ _ lookupRun (({} : RunTable), ()))
  · exact unstopped_transcript (fun h => by cases h) lookupRun _

end Execution
end Runbook
