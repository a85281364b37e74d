import Runbook.Proofs.Schedule.FirstClock
import Runbook.Proofs.Schedule.TimeUp

/-!
# What a call is answered with, and when

A call that is made on its own has three clocks: its work, its limit, and the moment at which it is
told to stop. Work takes as long as it does when the call has no limit and nobody stops it
(`Takes`); from this the theorem says how every call is answered, whatever its limit and whenever
it is stopped (`answered_by_first_clock`). Work that is done at the deadline counts, but for a
fan-out that others work for: it looks at its clock before it is told of what they have done.
-/

set_option autoImplicit false

namespace Runbook.Schedule
namespace World

open FanOut (Progress)

variable {r : Registry} {w w' m u : World} {o : Except Failure ToolOutput}
  {t : Tool} {tool : String}
  {inputs : Fields Json} {limit stopAt : Option Nat} {id : TaskId} {c : Call} {e : CallEnd}
  {plan : FanOut.Plan} {first : TaskId} {d : Nat}

/-! ## 1. A fan-out on its own -/

/-- A fan-out that has just hired its workers looks at its clock only. -/
theorem pollGathering_hired (w : World) (id : TaskId) (c : Call) (first : TaskId)
    (staffed : plan.queries ≠ []) :
    w.pollGathering id c plan first { workers := plan.workers } =
      if w.isLate c then (w.abortWorkers first plan.queries.length).endLate id c
      else w.setTask id
        (.call { c with phase := .gathering plan first { workers := plan.workers } }) := by
  have missing : ¬ 0 = plan.queries.length :=
    fun none => staffed (List.length_eq_zero_iff.mp none.symm)
  simp only [pollGathering, Progress.look, List.length_nil, missing, if_false]

/-- The call has hired its workers. -/
def loneHired (t : Tool) (inputs : Fields Json) (limit stopAt : Option Nat)
    (plan : FanOut.Plan) : World :=
  (loneGoing t inputs limit stopAt).hire 2 [1, 0] plan.queries

theorem loneHired_keeps (t : Tool) (inputs : Fields Json) (limit stopAt : Option Nat)
    (plan : FanOut.Plan) : (loneHired t inputs limit stopAt plan).now = 0 ∧
    (loneHired t inputs limit stopAt plan).timers = stopAt.toList.map (⟨·, 1⟩) :=
  hire_keeps _ _ _ _

theorem open_loneHired :
    (loneHired t inputs limit stopAt plan).Open 2 (loneTimed t inputs limit) := by
  have made : (loneGoing t inputs limit stopAt).Open 2 (loneTimed t inputs limit) :=
    ⟨loneCall t inputs limit, rfl, by simp [loneCall], ⟨rfl, rfl, rfl, rfl, rfl, rfl⟩⟩
  exact made.hire 2 [1, 0] plan.queries

/-- The call that has just been made hires its workers, and looks at its clock. -/
theorem step_delegates (limit stopAt : Option Nat) (body : t.body = .fanOut)
    (accepted : t.check inputs = .accepted) (planned : FanOut.plan r.maxFanOut inputs = .ok plan)
    (staffed : plan.queries ≠ []) :
    (lone t inputs limit stopAt).step r =
      (none, (if limit.any (· ≤ 0) then
          ((loneHired t inputs limit stopAt plan).abortWorkers 3 plan.queries.length).endLate 2
            (loneTimed t inputs limit)
        else (loneHired t inputs limit stopAt plan).setTask 2 (.call { loneTimed t inputs limit with
          phase := .gathering plan 3 { workers := plan.workers } })).setDeadline 2
            (loneTimed t inputs limit)) := by
  have late : (loneHired t inputs limit stopAt plan).isLate (loneTimed t inputs limit) =
      limit.any (· ≤ 0) := by
    rw [isLate, (loneHired_keeps ..).1]
    rfl
  rw [step_lone, pollFresh_lone accepted, body, ← late,
    ← pollGathering_hired _ 2 (loneTimed t inputs limit) 3 staffed]
  exact congrArg (none, ·) (beginFanOut_eq planned)

/-- Without any time, it ends before its workers have begun. -/
theorem late_delegates (body : t.body = .fanOut) (accepted : t.check inputs = .accepted)
    (planned : FanOut.plan r.maxFanOut inputs = .ok plan) (staffed : plan.queries ≠ [])
    (later : stopAt ≠ some 0) :
    ReturnsAt r (watch tool) (lone t inputs (some 0) stopAt)
      ((CallEnd.timedOut 0).outcome tool) 0 := by
  have begun : Ordered r (lone t inputs (some 0) stopAt) := ordered_of_beats (beats_lone later)
  have stepped := step_delegates (some 0) stopAt body accepted planned staffed
  rw [if_pos (by rfl)] at stepped
  have beat : Beat r (lone t inputs (some 0) stopAt) _ := .next (by simp [lone]) stepped
  obtain ⟨-, tasks, ready, -⟩ :=
    setDeadline_keeps (((loneHired t inputs (some 0) stopAt plan).abortWorkers 3
    plan.queries.length).endLate 2 (loneTimed t inputs (some 0))) 2 (loneTimed t inputs (some 0))
  have still : ((loneHired t inputs (some 0) stopAt plan).abortWorkers 3
      plan.queries.length).Open 2 (loneTimed t inputs (some 0)) :=
    open_loneHired.abortWorkers fun i _ => by omega
  refine returns_of_ends begun stepped
    ⟨⟨_, (congrArg (·[2]?) tasks).trans (task?_endCall still _), rfl⟩,
    beat.beats.client begun (x := 0) rfl, ready ▸ mem_ready_wake _ _⟩

/-- Otherwise it gathers, and its clocks are set. -/
theorem races_delegates (body : t.body = .fanOut) (accepted : t.check inputs = .accepted)
    (planned : FanOut.plan r.maxFanOut inputs = .ok plan) (staffed : plan.queries ≠ [])
    (later : stopAt ≠ some 0) (patient : ∀ l, limit = some l → 0 < l) :
    ∃ m c, (lone t inputs limit stopAt).step r = (none, m) ∧ Races r limit stopAt m c := by
  have begun : Beats r {} (lone t inputs limit stopAt) := beats_lone later
  have early : limit.any (· ≤ 0) = false := by
    cases limit with
    | none => rfl
    | some l => simpa using Nat.ne_of_gt (patient l rfl)
  have stepped := step_delegates limit stopAt body accepted planned staffed
  rw [early, if_neg (by simp)] at stepped
  have beat : Beat r (lone t inputs limit stopAt) _ := .next (by simp [lone]) stepped
  obtain ⟨now, timers⟩ := loneHired_keeps t inputs limit stopAt plan
  obtain ⟨now', tasks, -⟩ := setDeadline_keeps ((loneHired t inputs limit stopAt plan).setTask 2
    (.call { loneTimed t inputs limit with
      phase := .gathering plan 3 { workers := plan.workers } })) 2
      (loneTimed t inputs limit)
  have now' := now'.trans now
  have ascending : Ascending (loneHired t inputs limit stopAt plan).timers := by
    rw [timers]
    cases stopAt <;> simp [Ascending]
  obtain ⟨c₀, there⟩ := open_loneHired.hasCall
  exact ⟨_, _, stepped, {
    reached := begun.trans beat.beats
    maker := beat.beats.client (ordered_of_beats begun) rfl
    stopper := beat.beats.client (ordered_of_beats begun) rfl
    here := (congrArg (·[2]?) tasks).trans (task?_setTask_self there)
    body
    caller := rfl
    allowed := rfl
    deadline := rfl
    phase := .inl ⟨plan, _, rfl, fun given => by cases given⟩
    timers := fun t ht => by
      rcases mem_setDeadline.mp ht with ⟨set, task⟩ | before
      · exact ⟨by simp [task], by simp [task], fun _ => set⟩
      · obtain ⟨set, task⟩ := mem_stopTimers.mp (timers ▸ before)
        exact ⟨by simp [task], fun _ => set, by simp [task]⟩
    stop := fun m set => by
      have foremost : Foremost 0 ⟨m, 1⟩ (loneHired t inputs limit stopAt plan).timers := by
        rw [timers, set]
        exact ⟨[], [], rfl, by simp⟩
      refine ⟨now'.trans_lt (Nat.pos_of_ne_zero fun same => later (same ▸ set)), ?_⟩
      exact Foremost.setDeadline foremost ascending
    time := fun l set => now'.trans_lt (patient l set) }⟩

theorem untimed_lone : (lone t inputs limit stopAt).untimed 2 1 = lone t inputs none none := by
  cases stopAt <;> rfl

/-- **A fan-out that others work for**: the first clock decides, and the deadline comes before what
is done at that moment. -/
theorem decided_delegates (delegates : Delegates r t inputs) (accepted : t.check inputs = .accepted)
    (later : stopAt ≠ some 0) (returns : Returns r (watch tool) (lone t inputs none none) o u) :
    Decided (ReturnsAt r (watch tool) (lone t inputs limit stopAt)) tool u.now o limit stopAt
      False := by
  obtain ⟨body, plan, planned, staffed⟩ := delegates
  by_cases zero : limit = some 0
  · subst zero
    exact .without_time (late_delegates body accepted planned staffed later) (.inr id)
  have patient (l : Nat) (set : limit = some l) : 0 < l :=
    Nat.pos_of_ne_zero fun same => zero (same ▸ set)
  obtain ⟨m, c, stepped, races⟩ :=
    races_delegates body accepted planned staffed later patient
  have leisurely (c' : Call) (there : (lone t inputs limit stopAt).task? 2 = some (.call c')) :
      (lone t inputs limit stopAt).Leisurely 2 2 c' := by
    obtain rfl : loneCall t inputs limit = c' := Task.call.inj (Option.some.inj there)
    exact ⟨fun _ => body, fun _ _ _ waiting => (by cases waiting), fun _ => patient, fun _ => rfl⟩
  have ordered : Ordered r (lone t inputs limit stopAt) := ordered_of_beats (beats_lone later)
  have stepped' := untimed_step (s := 1) r (Nat.lt_succ_self 2) ordered.tidy.ascending
    (fun c' there => by cases there) leisurely
  rw [untimed_lone, stepped] at stepped'
  cases returns with
  | now stirred => cases (stir_of_step stepped').symm.trans stirred
  | later stirred rest =>
    cases (stir_of_step stepped').symm.trans stirred
    exact (races.decided rest).of_stir (stir_of_step stepped)

/-! ## 2. A call that does not begin its work -/

/-- The call has ended before its work began: it has set no clock, nobody has been hired, and
nothing has been noted. -/
def loneEnded (t : Tool) (inputs : Fields Json) (limit stopAt : Option Nat)
    (e : CallEnd) : World where
  tasks := #[.client (some [0]), .client none,
    .call { loneCall t inputs limit with phase := .over e }]
  timers := stopAt.toList.map (⟨·, 1⟩)
  signals := 2
  fired := [[1, 0]]

/-- A call that ends when it looks at its inputs. -/
theorem returns_unbegun
    (ends : (loneGoing t inputs limit stopAt).pollFresh r 2 (loneCall t inputs limit) =
      (loneGoing t inputs limit stopAt).endCall 2 (loneCall t inputs limit) e) :
    Returns r (watch tool) (lone t inputs limit stopAt) (e.outcome tool)
      (loneEnded t inputs limit stopAt e) := by
  refine .later (stir_of_step (step_lone.trans (congrArg (none, ·) ends))) (.now ?_)
  have client : ((loneGoing t inputs limit stopAt).endCall 2 (loneCall t inputs limit) e).task? 0 =
      some (.client (some [0])) := rfl
  rw [stir_of_client (step_of_client rfl client)]
  exact pollWait_of_over rfl rfl

theorem pollFresh_rejected {x : ToolError} (rejected : t.check inputs = .rejected x) :
    (loneGoing t inputs limit stopAt).pollFresh r 2 (loneCall t inputs limit) =
      (loneGoing t inputs limit stopAt).endCall 2 (loneCall t inputs limit)
        (.result (.error x)) := by
  rw [pollFresh]
  simp only [loneCall, Bool.false_eq_true, if_false, rejected]

theorem pollFresh_panics (panics : t.check inputs = .panics) :
    (loneGoing t inputs limit stopAt).pollFresh r 2 (loneCall t inputs limit) =
      (loneGoing t inputs limit stopAt).endCall 2 (loneCall t inputs limit) .panicked := by
  rw [pollFresh]
  simp only [loneCall, Bool.false_eq_true, if_false, panics]

/-! ## 3. Every call -/

/-- The work comes to this and takes so long, if the call has no limit and nobody stops it. -/
def Takes (r : Registry) (t : Tool) (tool : String) (inputs : Fields Json) (d : Nat)
    (o : Except Failure ToolOutput) : Prop :=
  ReturnsAt r (watch tool) (lone t inputs none none) o d

theorem Takes.unique {d' : Nat} {o' : Except Failure ToolOutput} (h : Takes r t tool inputs d o)
    (h' : Takes r t tool inputs d' o') : d' = d ∧ o' = o := by
  obtain ⟨u, returns, rfl⟩ := h
  obtain ⟨u', returns', rfl⟩ := h'
  obtain ⟨same, rfl⟩ := returns.unique returns'
  exact ⟨rfl, same⟩

/-- The work of a tool alone takes as long as it waits. -/
theorem takes_alone {work : Fields Json → Tool.Work} (body : t.body = .alone work)
    (accepted : t.check inputs = .accepted) :
    Takes r t tool inputs ((work inputs).delay.getD 0)
      ((work inputs).result.callEnd.outcome tool) :=
  (decided_alone body accepted (by simp)).done (by simp) (by simp)

/-- **The first clock decides** what the wait for a call returns, and when. -/
theorem decided_lone (accepted : t.check inputs = .accepted) (later : stopAt ≠ some 0)
    (takes : Takes r t tool inputs d o) :
    Decided (ReturnsAt r (watch tool) (lone t inputs limit stopAt)) tool d o limit stopAt
      (¬ Delegates r t inputs) := by
  by_cases delegates : Delegates r t inputs
  · obtain ⟨u, returns, rfl⟩ := takes
    rw [eq_false (not_not_intro delegates)]
    exact decided_delegates delegates accepted later returns
  · rw [eq_true delegates]
    cases body : t.body with
    | alone work =>
      obtain ⟨rfl, rfl⟩ := (takes_alone body accepted).unique takes
      exact decided_alone body accepted later
    | fanOut =>
      obtain ⟨o', decided⟩ := decided_idle tool body delegates accepted
      have takes' : Takes r t tool inputs 0 o' :=
        (decided none none (by simp)).done (by simp) (by simp)
      obtain ⟨rfl, rfl⟩ := takes'.unique takes
      exact decided limit stopAt later

theorem answeredAt_of_returns (known : r.tool? tool = some t) (later : stopAt ≠ some 0)
    (h : ReturnsAt r (watch tool) (lone t inputs (limit.or (r.timeoutFor tool)) stopAt) o d) :
    AnsweredAt r tool inputs limit stopAt o d := by
  obtain ⟨w', returns, rfl⟩ := h
  exact ((answered_iff known later).mpr returns).at

/-- Nobody answers to a name that is not known. -/
theorem answered_unknown (unknown : r.tool? tool = none) :
    AnsweredAt r tool inputs limit stopAt
      (.error ⟨.unknownTool, s!"no tool registered as '{tool}'"⟩) 0 := by
  have now : (callWorld stopAt).2.2.2.now = 0 := by
    match stopAt with
    | none => rfl
    | some 0 => rfl
    | some (ms + 1) => rfl
  have answered : Answered r tool inputs limit stopAt
      (.error ⟨.unknownTool, s!"no tool registered as '{tool}'"⟩) (callWorld stopAt).2.2.2 := by
    unfold Answered startCall
    rw [unknown]
    exact ⟨rfl, rfl⟩
  exact now ▸ answered.at

/-- A call that is told to stop before it is made. -/
theorem answered_stopped (known : r.tool? tool = some t) :
    AnsweredAt r tool inputs limit (some 0) (.error ToolError.cancelled.failure) 0 := by
  obtain ⟨w', now, answered⟩ : ∃ w', w'.now = 0 ∧
      Answered r tool inputs limit (some 0) (.error ToolError.cancelled.failure) w' := by
    unfold Answered startCall
    rw [known]
    exact ⟨_, rfl, .now rfl⟩
  exact now ▸ answered.at

/-- **What a call is answered with, and when.** Nobody answers to a name that is not known; a call
that is stopped before it is made is cancelled; one whose inputs are rejected, or whose check
panics, ends before its work begins; and of any other the first clock decides, where the limit is
the call's own, else that of the tool, else the default. -/
theorem answered_by_first_clock (r : Registry) (tool : String) (inputs : Fields Json)
    (limit stopAt : Option Nat) :
    (r.tool? tool = none → AnsweredAt r tool inputs limit stopAt
      (.error ⟨.unknownTool, s!"no tool registered as '{tool}'"⟩) 0) ∧
    ∀ t, r.tool? tool = some t →
      (stopAt = some 0 → AnsweredAt r tool inputs limit stopAt
        (.error ⟨.cancelled, "tool call cancelled"⟩) 0) ∧
      (stopAt ≠ some 0 →
        let effective := limit.or ((Fields.get? tool r.timeouts).or r.defaultTimeout)
        (∀ e, t.check inputs = .rejected e → ∃ f, e.Tells f ∧
          Answered r tool inputs limit stopAt (.error f)
            (loneEnded t inputs effective stopAt (.result (.error e)))) ∧
        (t.check inputs = .panics → Answered r tool inputs limit stopAt
          (.error ⟨.panicked, s!"tool '{tool}' panicked"⟩)
          (loneEnded t inputs effective stopAt .panicked)) ∧
        (t.check inputs = .accepted →
          (∀ work, t.body = .alone work → ∃ o, (work inputs).result.Tells tool o ∧
            Takes r t tool inputs ((work inputs).delay.getD 0) o) ∧
          ∀ d o, Takes r t tool inputs d o →
            Decided (AnsweredAt r tool inputs limit stopAt) tool d o effective stopAt
              (¬ Delegates r t inputs))) := by
  refine ⟨answered_unknown, fun t known =>
    ⟨?_, fun later => ⟨fun e rejected => ?_, fun panics => ?_,
    fun accepted => ⟨fun work body => ⟨_, (work inputs).result.tells tool, takes_alone body accepted⟩,
      fun d o takes => ?_⟩⟩⟩⟩
  · rintro rfl
    exact answered_stopped known
  · exact ⟨_, e.tells, (answered_iff known later).mpr
      (returns_unbegun (pollFresh_rejected rejected))⟩
  · exact (answered_iff known later).mpr (returns_unbegun (pollFresh_panics panics))
  · exact (decided_lone accepted later takes).imp fun o d => answeredAt_of_returns known later

/-- A query that takes as long as the fan-out may. -/
def tieInputs : Fields Json :=
  [("queries", .arr [.obj [("tool", .str "say"), ("wait", .nat 50)]])]

theorem delegates_tie : Delegates napRegistry FanOut.tool tieInputs :=
  ⟨rfl, _, rfl, by simp⟩

theorem takes_tie : ∃ x, Takes napRegistry FanOut.tool FanOut.tool.name tieInputs 50 (.ok x) := by
  obtain ⟨report, reported, moment, x, outcome⟩ : ∃ report,
      dispatch napRegistry FanOut.tool.name tieInputs none none = some report ∧ report.moment = 50 ∧
        ∃ x, report.outcome = .ok x := ⟨_, rfl, rfl, _, rfl⟩
  obtain ⟨answered, now⟩ := answered_of_dispatch reported
  rw [outcome] at answered
  exact ⟨x, _, (answered_iff rfl (by simp)).mp answered, now.symm.trans moment⟩

theorem answered_by_first_clock_say :
    AnsweredAt napRegistry "none" [] none none
      (.error ⟨.unknownTool, "no tool registered as 'none'"⟩) 0 ∧
    AnsweredAt napRegistry "say" [("wait", .nat 5)] (some 9) (some 0)
      (.error ⟨.cancelled, "tool call cancelled"⟩) 0 ∧
    AnsweredAt napRegistry "say" [("wait", .nat 5)] (some 9) (some 2)
      (.error ⟨.cancelled, "tool call cancelled"⟩) 2 ∧
    AnsweredAt napRegistry "say" [("wait", .nat 5)] (some 3) (some 9)
      (.error ⟨.timeout, s!"tool 'say' did not finish within {secondsText 3}s"⟩) 3 ∧
    AnsweredAt napRegistry "say" [("wait", .nat 5), ("text", .str "so")] (some 5) none
      (.ok { output := "so", outputs := [], metadata := [] }) 5 ∧
    AnsweredAt napRegistry FanOut.tool.name tieInputs (some 50) none
      (.error ⟨.timeout, s!"tool 'parallel_query' did not finish within {secondsText 50}s"⟩) 50 ∧
    Answered napRegistry FanOut.tool.name [] none none
      (.error ⟨.toolValidation, "missing required input 'queries'"⟩)
      (loneEnded FanOut.tool [] none none
        (.result (.error (.validation "missing required input 'queries'")))) := by
  have unknown := (answered_by_first_clock napRegistry "none" [] none none).1 rfl
  have before := ((answered_by_first_clock napRegistry "say" [("wait", .nat 5)] (some 9) (some 0)).2
    sayTool rfl).1 rfl
  obtain ⟨takes, stopped⟩ :=
    (((answered_by_first_clock napRegistry "say" [("wait", .nat 5)] (some 9)
    (some 2)).2 sayTool rfl).2 (by simp)).2.2 rfl
  obtain ⟨-, late⟩ := (((answered_by_first_clock napRegistry "say" [("wait", .nat 5)] (some 3)
    (some 9)).2 sayTool rfl).2 (by simp)).2.2 rfl
  obtain ⟨_, -, five⟩ := takes _ rfl
  obtain ⟨takes', done⟩ := (((answered_by_first_clock napRegistry "say"
    [("wait", .nat 5), ("text", .str "so")] (some 5) none).2 sayTool rfl).2 (by simp)).2.2 rfl
  obtain ⟨_, told, so⟩ := takes' _ rfl
  cases told
  have alone : ¬ Delegates napRegistry sayTool [("wait", .nat 5), ("text", .str "so")] :=
    fun ⟨body, _⟩ => by cases body
  obtain ⟨-, tie⟩ := (((answered_by_first_clock napRegistry FanOut.tool.name tieInputs (some 50)
    none).2 FanOut.tool rfl).2 (by simp)).2.2 rfl
  obtain ⟨x, fifty⟩ := takes_tie
  obtain ⟨_, invalid, refused⟩ :=
    (((answered_by_first_clock napRegistry FanOut.tool.name [] none none).2 FanOut.tool
    rfl).2 (by simp)).1 _ rfl
  cases invalid
  refine ⟨unknown, before, (stopped _ _ five).stopped 2 rfl (by decide) (by simp),
    (late _ _ five).late 3 rfl (by simp) (.inl (by decide)),
    (done _ _ so).done (by simp) fun l set => .inr ⟨Option.some.inj set, alone⟩,
    (tie _ _ fifty).late 50 rfl (by simp) (.inr ⟨rfl, not_not_intro delegates_tie⟩), refused⟩

/-- **A fan-out is not answered at its deadline** with what its queries have come to by then. -/
theorem fan_out_late_at_deadline :
    ¬ ∀ (r : Registry) (t : Tool) (tool : String) (inputs : Fields Json) (limit stopAt : Option Nat)
        (d : Nat) (o : Except Failure ToolOutput),
      r.tool? tool = some t → t.check inputs = .accepted → Takes r t tool inputs d o →
      (∀ m, stopAt = some m → d < m) → (∀ l, limit.or (r.timeoutFor tool) = some l → d ≤ l) →
      AnsweredAt r tool inputs limit stopAt o d := by
  intro answers
  obtain ⟨x, takes⟩ := takes_tie
  have answered := answers napRegistry FanOut.tool FanOut.tool.name tieInputs
    (some 50) none 50 _ rfl rfl
    takes (by simp) (by simp)
  obtain ⟨report, reported, f, outcome⟩ : ∃ report,
      dispatch napRegistry FanOut.tool.name tieInputs (some 50) none = some report ∧
        ∃ f, report.outcome = .error f := ⟨_, rfl, _, rfl⟩
  cases outcome.symm.trans (answered.reported report reported).1

end World
end Runbook.Schedule
