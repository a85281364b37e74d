import Runbook.Proofs.Engine.Journey
import Runbook.Proofs.Engine.Succession
import Runbook.Proofs.Run.Gates

/-!
# Gates in time

A run keeps to the gates of its steps; so far that says in which order things are exchanged. Its
account adds the moments. Behind every gate that was passed stands a yes that the approver gave in
time, and at no earlier moment had the run been told to stop.

The moment itself is not excluded. If the approver tells the run to stop and says yes, the yes
counts, and the tool is called for a run that has been stopped (`stopped_and_approved`).
-/

set_option autoImplicit false

namespace Runbook

open Dialogue RunDialogue Execution Schedule World

namespace Session

/-! ## 1. What an account says of its exchanges -/

section

variable {me : Party} {past : List World} {x : Stamped}

theorem Fair.unchanged (h : Fair me past x)
    (read : x.exchange.question = .time ∨ ∃ q, x.exchange.question = .store q) :
    x.stoppedAfter = x.stoppedBefore := by
  cases h with
  | gate | call =>
    rcases read with read | ⟨q, read⟩ <;> cases read
  | store | time | stop => rfl

theorem Fair.learns (h : Fair me past x) {b : Bool} (stop : x.exchange = ⟨.stopRequested, b⟩) :
    x.stoppedBefore = b ∧ x.stoppedAfter = b ∧
      (b = false → ∀ u ∈ past, u.now < x.asked → u.isStopped me.signal = false) := by
  cases h with
  | stop moment stopped goesOn =>
    cases stop
    exact ⟨rfl, rfl, goesOn⟩
  | store | time | gate | call => cases stop

theorem Fair.saysYes (h : Fair me past x) {step prompt : String} {limit : Option Nat}
    (yes : x.exchange = ⟨.approval step prompt limit, .approved⟩) (before : x.stoppedBefore = false) :
    SaysYes me past step prompt limit x.asked x.told := by
  cases h with
  | gate told =>
    cases yes
    exact told rfl before
  | store | time | stop | call => cases yes

end

/-- Where the exchanges follow one another, so do those from any of them on. -/
theorem Continues.behind {m m' : Nat} {b b' : Bool} {front back : List Stamped} {x : Stamped}
    (h : Continues m b (front ++ x :: back) m' b') :
    Continues x.told x.stoppedAfter back m' b' := by
  induction front generalizing m b with
  | nil =>
    cases h with
    | cons later => exact later
  | cons y front ih =>
    cases h with
    | cons later => exact ih later

theorem Continues.front {m m' : Nat} {b b' : Bool} {front back : List Stamped} {x : Stamped}
    (h : Continues m b (front ++ x :: back) m' b') : Continues m b front x.asked x.stoppedBefore := by
  induction front generalizing m b with
  | nil =>
    cases h with
    | cons => exact .nil ..
  | cons y front ih =>
    cases h with
    | cons later => exact .cons (ih later)

theorem Continues.unchanged {m m' : Nat} {b b' : Bool} {log : List Stamped}
    (h : Continues m b log m' b') (same : ∀ x ∈ log, x.stoppedAfter = x.stoppedBefore) :
    b' = b := by
  induction h with
  | nil => rfl
  | cons _ ih =>
    obtain ⟨first, later⟩ := List.forall_mem_cons.mp same
    exact (ih later).trans first

/-! ## 2. The run -/

/-- The run puts a question, behind these exchanges: it was answered, or is pending. -/
inductive Account.Puts (l : Account) : List Stamped → RunQuestion → Prop where
  | answered {front back : List Stamped} {x : Stamped} (h : l.log = front ++ x :: back) :
      Puts l front x.exchange.question
  | pending {q : RunQuestion} {next : RunAnswer q → RunDialogue RunRecord}
      (h : l.pending.rest = .ask q next) : Puts l l.log q

/-- An account of a run of the workflow, in which the gates hold. -/
structure GatesHold (e : Engine) (w : Workflow) (past : List World) (f : Flight) (l : Account) :
    Prop where
  /-- What was exchanged is the front part of what a run exchanges that keeps to its gates; it is all
  of it if the run is finished. -/
  keeps : ∃ params u rec, KeepsGates e.config w f.request.id params (l.exchanges ++ u) rec ∧
    ∀ r, f.waiting = .over (.finished r) → u = [] ∧ rec = r
  /-- A tool is called for a step with a gate only directly behind a yes in time. -/
  calls : ∀ front tool inputs limit, l.Puts front (.call tool inputs limit) →
    ∃ step ∈ w.steps, step.tool = some tool ∧
      (step.gatePrompt? ≠ none → ∃ before x prompt secs, front = before ++ [x] ∧
        x.exchange = ⟨.approval step.name prompt secs, .approved⟩ ∧ x.stoppedBefore = false ∧
        SaysYes f.party past step.name prompt secs x.asked x.told)
  /-- A step has its turn only while the run has not been told to stop. -/
  goesOn : ∀ x ∈ l.log, x.exchange = ⟨.stopRequested, false⟩ →
    x.stoppedBefore = false ∧ ∀ u ∈ past, u.now < x.asked → u.isStopped f.signal = false

/-- A question of the account is one of the whole run. -/
theorem Account.Puts.split {l : Account} {front : List Stamped} {q : RunQuestion}
    (h : l.Puts front q) {u : RunTrace} {rec : RunRecord} (later : Yields l.pending.rest u rec) :
    (∃ x back, l.exchanges ++ u = front.map (·.exchange) ++ ⟨q, x⟩ :: back) ∧
      ∀ x ∈ front, x ∈ l.log := by
  cases h with
  | @answered _ back x log =>
    refine ⟨⟨x.exchange.answer, back.map (·.exchange) ++ u, ?_⟩, fun y hy => by simp [log, hy]⟩
    rw [Account.exchanges, log]
    simp
  | pending rest =>
    rw [rest] at later
    obtain ⟨x, back, rfl, -⟩ := yields_ask_iff.mp later
    exact ⟨⟨x, back, rfl⟩, fun _ hx => hx⟩

section

variable {σ : Type} [MemoryStore σ]

/-- A gate that was passed was passed by a yes in time. -/
theorem Rests.saysYes {e : Engine} {past : List World} {f : Flight} {w : World} {l : Account}
    (h : Rests e past f w l) {steps : List Step} {u : RunTrace} (led : Led steps (l.exchanges ++ u))
    {x : Stamped} (hx : x ∈ l.log) {step prompt : String} {limit : Option Nat}
    (yes : x.exchange = ⟨.approval step prompt limit, .approved⟩) :
    x.stoppedBefore = false ∧ SaysYes f.party past step prompt limit x.asked x.told := by
  obtain ⟨front, back, log⟩ := List.append_of_mem hx
  have fair := fun y hy => h.fair y (log ▸ hy)
  have split : l.exchanges ++ u =
      front.map (·.exchange) ++ ⟨.approval step prompt limit, .approved⟩ ::
        (back.map (·.exchange) ++ u) := by
    rw [Account.exchanges, log, ← yes]
    simp
  have warranted := led _ _ _ split
  generalize hlead : front.map (·.exchange) = lead at warranted
  cases warranted with
  | alone _ alone => exact absurd (.approval ..) alone
  | @approval before lead reads =>
    -- since the run learned that it may go on, nothing has changed
    obtain ⟨front₁, front₂, rfl, -, behind⟩ := List.map_eq_append_iff.mp hlead
    obtain ⟨s, front₃, rfl, stop, rfl⟩ := List.map_eq_cons_iff.mp behind
    obtain ⟨m, b, chain⟩ := h.continues
    rw [log] at chain
    have same : x.stoppedBefore = s.stoppedAfter := by
      refine chain.front.behind.unchanged fun y hy => ?_
      exact (fair y (by simp [hy])).unchanged (reads _ (List.mem_map.mpr ⟨y, hy, rfl⟩))
    have before := same.trans ((fair s (by simp)).learns stop).2.1
    exact ⟨before, (h.fair x hx).saysYes yes before⟩

/-- What is still to be done can be done, and it is nothing if the run is finished. -/
theorem Rests.completed {e : Engine} {past : List World} {f : Flight} {w : World} {l : Account}
    (h : Rests e past f w l) : ∃ u rec, Yields l.pending.rest u rec ∧
      ∀ r, f.waiting = .over (.finished r) → u = [] ∧ rec = r := by
  have standing := h.standing
  generalize l.pending = pending at standing
  generalize f.waiting = waiting at standing
  cases standing with
  | finished r =>
    refine ⟨[], r, .done r, ?_⟩
    rintro _ ⟨⟩
    exact ⟨rfl, rfl⟩
  | dropped | gate | call =>
    exact ⟨_, _, yields_transcript Traffic.plainly _ (), by rintro _ ⟨⟩⟩

theorem Rests.gatesHold {e : Engine} {past : List World} {f : Flight} {w : World} {l : Account}
    (h : Rests e past f w l) :
    ∃ wf ∈ e.workflows, wf.name = f.request.workflow ∧ GatesHold e wf past f l := by
  obtain ⟨wf, there, named, params, continues⟩ := h.begins
  obtain ⟨u, rec, later, finished⟩ := h.completed
  have keeps := keepsGates_of_yields (continues u rec later)
  refine ⟨wf, there, named, ⟨params, u, rec, keeps, finished⟩, ?_, ?_⟩
  · intro front tool inputs limit puts
    obtain ⟨⟨o, back, split⟩, logged⟩ := puts.split later
    have warranted := keeps.led _ _ _ split
    generalize hfront : front.map (·.exchange) = t at warranted
    cases warranted with
    | alone _ alone => exact absurd (.call ..) alone
    | @call _ step _ here tool gated =>
      refine ⟨step, here, tool, fun gate => ?_⟩
      obtain ⟨before, prompt, secs, rfl⟩ := gated gate
      obtain ⟨before, last, rfl, -, hlast⟩ := List.map_eq_append_iff.mp hfront
      obtain ⟨x, rfl, yes⟩ := List.map_eq_singleton_iff.mp hlast
      exact ⟨before, x, prompt, secs, rfl, yes, h.saysYes keeps.led (logged x (by simp)) yes⟩
  · intro x hx stop
    obtain ⟨before, -, goesOn⟩ := (h.fair x hx).learns stop
    exact ⟨before, goesOn rfl⟩

/-- **The gates of every run hold, at any time and whatever happens.** A run that has not started, or
was refused, has exchanged nothing. -/
theorem gates_hold {i : Nat} {past : List World} {a : Option Account} {v : Visit σ} {f : Flight}
    (journey : Journey i past a v) (hf : v.flights[i]? = some f) :
    (a = none ∧ (f.waiting = .start ∨ ∃ err, f.waiting = .over (.refused err))) ∨
      ∃ l, a = some l ∧ ∃ w ∈ v.session.engine.workflows, w.name = f.request.workflow ∧
        GatesHold v.session.engine w past f l := by
  cases journey.sound.tells f hf with
  | nothing h => exact .inl ⟨rfl, h⟩
  | account rests => exact .inr ⟨_, rfl, rests.gatesHold⟩

end

/-! ## 3. Two runs

One step, with a gate and a tool. -/

def releaseWorkflow : Workflow where
  name := "release"
  description := none
  params := []
  steps := [{ name := "deploy", tool := some "lookup", gate := some ⟨some "ok?"⟩ }]

def releaseEngine : Engine :=
  { config := {}, registry := lookupRegistry, workflows := [releaseWorkflow] }

def releaseRun : RunDialogue RunRecord := execute {} releaseWorkflow "r1" []

/-- A run of the workflow, with someone who reacts to every prompt in this way. -/
def release (r : Reaction) : RunRequest where
  workflow := "release"
  id := "r1"
  approver := fun _ _ => r

def releaseFlight (r : Reaction) : Flight := { request := release r, task := 0, signal := [0] }

/-- Nobody has come yet. -/
def beforeRelease : Visit Memory.RunTable :=
  { session := { engine := releaseEngine, store := {}, clock := ⟨0⟩ } }

/-- The run was asked for, and has left the line for its turn. -/
def releaseCalled (r : Reaction) : Visit Memory.RunTable :=
  (beforeRelease.request (release r)).inWorld
    { (beforeRelease.request (release r)).session.world with ready := [] }

/-- The run as it starts. -/
def releaseBegun (r : Reaction) : Session Memory.RunTable :=
  (releaseCalled r).session.launched (releaseFlight r) [("r1", [0])]

theorem journey_release (r : Reaction) {more : List Stamped} {p : Pending}
    (goes : Goes (releaseFlight r) releaseRun (releaseBegun r) more p
      (advance (releaseFlight r) releaseRun (releaseBegun r)).1
      (advance (releaseFlight r) releaseRun (releaseBegun r)).2) :
    ∃ past, Journey 0 past (some ⟨more, p⟩) ((releaseCalled r).wake 0) := by
  have nobody : Journey 0 [] none beforeRelease := .idle .nil
  have launch : Resumes (releaseFlight r) (releaseCalled r).session none [] releaseRun
    (releaseBegun r) := .launch rfl rfl
  exact ⟨_, .own (.request nobody (release r)) rfl rfl rfl (.goesOn launch goes)⟩

/-- The run after its first turn. -/
def releaseTurned (r : Reaction) : Flight :=
  ((releaseCalled r).session.turn (releaseFlight r)).1

theorem releaseTurned_there (r : Reaction) :
    ((releaseCalled r).wake 0).flights[0]? = some (releaseTurned r) := rfl

/-- Says yes at once. -/
def willing : Reaction := { answer := some true }

/-- Tells the run to stop, and says yes. -/
def torn : Reaction := { answer := some true, stopsRun := true }

/-- The general statement at a run whose approver says yes. It waits for its tool. -/
theorem gates_hold_release :
    ∃ past l, Journey 0 past (some l) ((releaseCalled willing).wake 0) ∧
      ((releaseCalled willing).wake 0).flights[0]? = some (releaseTurned willing) ∧
      (∃ wait next, (releaseTurned willing).waiting = .call wait next) ∧
      ∃ w ∈ releaseEngine.workflows, w.name = "release" ∧
        GatesHold releaseEngine w past (releaseTurned willing) l := by
  obtain ⟨more, p, goes⟩ := goes_advance (releaseFlight willing) releaseRun (releaseBegun willing)
  obtain ⟨past, journey⟩ := journey_release _ goes
  have waits : ∃ wait next, (releaseTurned willing).waiting = .call wait next := by
    with_unfolding_all exact ⟨_, _, rfl⟩
  refine ⟨past, _, journey, releaseTurned_there willing, waits, ?_⟩
  rcases gates_hold journey (releaseTurned_there willing) with ⟨none, -⟩ | ⟨l, account, holds⟩
  · cases none
  · obtain rfl := Option.some.inj account
    with_unfolding_all exact holds

/-- **A tool is called for a run that has been told to stop.** The approver tells the run to stop and
says yes. The yes counts, so the tool is called, and its step ends failed and not skipped. -/
theorem stopped_and_approved :
    ∃ past l r, Journey 0 past (some l) ((releaseCalled torn).wake 0) ∧
      ((releaseCalled torn).wake 0).flights[0]? = some (releaseTurned torn) ∧
      (releaseTurned torn).waiting = .over (.finished r) ∧
      r.steps.map (fun x => (x.step, x.status, x.error)) =
        [("deploy", .failed, some ⟨.cancelled, "tool call cancelled"⟩)] ∧
      ∃ front gate call back, l.log = front ++ gate :: call :: back ∧
        gate.exchange = ⟨.approval "deploy" "ok?" none, .approved⟩ ∧ gate.stoppedAfter = true ∧
        call.exchange.question = .call "lookup" [] none ∧ call.stoppedBefore = true := by
  -- the exchanges up to the call
  have goes : ∃ x₁ x₂ x₃ x₄ gate call back p,
      Goes (releaseFlight torn) releaseRun (releaseBegun torn)
        (x₁ :: x₂ :: x₃ :: x₄ :: gate :: call :: back) p
        (advance (releaseFlight torn) releaseRun (releaseBegun torn)).1
        (advance (releaseFlight torn) releaseRun (releaseBegun torn)).2 ∧
      gate.exchange = ⟨.approval "deploy" "ok?" none, .approved⟩ ∧ gate.stoppedAfter = true ∧
      call.exchange.question = .call "lookup" [] none ∧ call.stoppedBefore = true := by
    with_unfolding_all
      exact ⟨_, _, _, _, _, _, _, _, .told .time (.told (.store _) (.told .stopRequested
        (.told .time (.told (.approval rfl) (.told (.call rfl rfl)
          (goes_advance _ _ _).choose_spec.choose_spec))))), rfl, rfl, rfl, rfl⟩
  obtain ⟨x₁, x₂, x₃, x₄, gate, call, back, p, goes, approved, stopped, called, told⟩ := goes
  obtain ⟨past, journey⟩ := journey_release _ goes
  have finished : ∃ r, (releaseTurned torn).waiting = .over (.finished r) ∧
      r.steps.map (fun x => (x.step, x.status, x.error)) =
        [("deploy", .failed, some ⟨.cancelled, "tool call cancelled"⟩)] := by
    with_unfolding_all exact ⟨_, rfl, rfl⟩
  obtain ⟨r, ended, failed⟩ := finished
  exact ⟨past, _, r, journey, releaseTurned_there torn, ended, failed, [x₁, x₂, x₃, x₄], gate, call,
    back, rfl, approved, stopped, called, told⟩

end Session
end Runbook
