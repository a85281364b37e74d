import Runbook.Proofs.Schedule.Moves

/-!
# A fan-out reports every query in its place

The calls that are made for the queries of a fan-out may end in any order and at any time, between
whatever else goes on (`Moves`). A fan-out that is neither told to stop nor late ends with one entry
for each query, in the place of the query, with what has come of it.

It does not get stuck either: while it has not ended, it or one of its workers is in line, or one of
the workers waits for a call that has not ended. When the last worker has ended, it ends as soon as
it goes on.
-/

set_option autoImplicit false

namespace Runbook.Schedule

open FanOut (Query Outcome Reports)

/-- A fan-out that has the queries answered and takes failures as they come. -/
structure Call.FansOut (c : Call) (queries : List (Fields Json)) : Prop where
  body : c.tool.body = .fanOut
  accepted : c.Accepted
  listed : Fields.get? "queries" c.inputs = some (.arr (queries.map .obj))
  slow : Fields.get? "fail_fast" c.inputs ≠ some (.bool true)

theorem Call.FansOut.planned {c : Call} {queries : List (Fields Json)} (h : c.FansOut queries)
    (ceiling : Nat) :
    ∃ plan, FanOut.plan ceiling c.inputs = .ok plan ∧ plan.failFast = false ∧
      plan.queries = queries.mapIdx Query.ofFields := by
  refine ⟨_, FanOut.plan_eq ceiling h.listed, ?_, rfl⟩
  have slow := h.slow
  dsimp only
  cases there : Fields.get? "fail_fast" c.inputs with
  | none => rfl
  | some v =>
    rw [there] at slow
    cases v with
    | bool b =>
      cases b with
      | true => exact absurd rfl slow
      | false => rfl
    | null | num | str | arr | obj => rfl

namespace World

variable {r : Registry} {w w' : World} {id : TaskId} {c : Call}

/-- The fan-out is in line, or one of its workers has not ended and is in line or waits for a call
that has not ended. -/
def Busy (w : World) (id : TaskId) : Prop :=
  id ∈ w.ready ∨
    ∃ x k, w.task? x = some (.worker k) ∧ k.gatherer = id ∧ k.phase ≠ .over ∧
      (x ∈ w.ready ∨ ∃ wait c, k.phase = .calling wait ∧ w.task? wait.call = some (.call c) ∧
        ∀ e, c.phase ≠ .over e)

/-- All workers of the fan-out have ended. -/
def WorkersOver (w : World) (id : TaskId) : Prop :=
  ∀ x k, w.task? x = some (.worker k) → k.gatherer = id → k.phase = .over

/-- A worker that has its turn is in line, or waits for a call that has not ended. -/
theorem Stands.busy {p : FanOut.Progress} {answers : List FanOut.Answer} {x : TaskId} {k : Worker}
    (h : Stands r w p answers x k) (here : w.task? x = some (.worker k))
    (gatherer : k.gatherer = id) (admitted : k.phase.Admitted) : w.Busy id := by
  cases phase : k.phase with
  | admitted => exact .inr ⟨x, k, here, gatherer, by simp [phase], .inl (h.line (.inr phase))⟩
  | calling wait =>
    refine .inr ⟨x, k, here, gatherer, by simp [phase], ?_⟩
    obtain ⟨c, there, -, -, woken⟩ := (h.calls wait phase).call
    by_cases isOver : ∃ e, c.phase = .over e
    · obtain ⟨e, isOver⟩ := isOver
      exact .inl (woken e isOver)
    · exact .inr ⟨wait, c, phase, there, fun e now => isOver ⟨e, now⟩⟩
  | _ =>
    rw [phase] at admitted
    cases admitted

/-- A query that has not been answered keeps the fan-out busy. -/
theorem Gathers.busy {plan : FanOut.Plan} {first : TaskId} {p : FanOut.Progress}
    {answers : List FanOut.Answer} (h : Gathers r (fun _ => False) w id c plan first p answers)
    (missing : p.arrived.length < plan.queries.length) : w.Busy id := by
  by_cases finished : p.finished = []
  · have few : answers.length < plan.queries.length := by
      obtain ⟨front, whole, arrived⟩ := h.arrived
      rw [arrived, List.length_map] at missing
      rwa [whole, finished, List.append_nil]
    obtain ⟨i, small, new⟩ := FanOut.exists_unanswered few
    obtain ⟨k, here, hired, index, stands⟩ := h.worker small
    have stands := stands fun h => h
    cases phase : k.phase with
    | fresh =>
      exact .inr ⟨_, k, here, hired.gatherer, by simp [phase], .inl (stands.line (.inl phase))⟩
    | admitted => exact stands.busy here hired.gatherer (phase ▸ trivial)
    | calling wait => exact stands.busy here hired.gatherer (phase ▸ trivial)
    | queued =>
      -- all workers are given away, and there is one
      have waits := stands.waiting.mpr phase
      have full := h.order.busy (List.ne_nil_of_mem waits)
      have some : 0 < p.inside.length := by
        rw [full, h.workers]
        exact FanOut.workers_pos h.planned
      obtain ⟨j, inside⟩ := List.exists_mem_of_length_pos some
      obtain ⟨k', here', hired', index', stands'⟩ := h.worker (h.order.inside.2 j inside)
      have stands' := stands' fun h => h
      exact stands'.busy here' hired'.gatherer (stands'.inside.mp (index'.symm ▸ inside))
    | _ => exact absurd (index ▸ stands.answered.mpr phase) new
  · exact .inl ((h.line finished).resolve_left fun h => h)

/-- **A fan-out does not get stuck.** -/
theorem Sane.busy (h : Sane r none w) (here : w.task? id = some (.call c))
    (body : c.tool.body = .fanOut) (unfinished : ∀ e, c.phase ≠ .over e) : w.Busy id := by
  have rests := h.calls id c (by simp) here
  cases phase : c.phase with
  | fresh => exact .inl (rests.fresh phase)
  | waiting moment work => exact absurd body (rests.waiting moment work phase)
  | gathering plan first p =>
    obtain ⟨⟨answers, gathers⟩, missing⟩ := rests.gathering plan first p phase
    exact gathers.busy missing
  | _ => exact absurd phase (unfinished _)

/-- A worker that has ended has given its answer. -/
theorem Gathers.length_answers {plan : FanOut.Plan} {first : TaskId} {p : FanOut.Progress}
    {answers : List FanOut.Answer} (h : Gathers r (fun _ => False) w id c plan first p answers)
    (workers : w.WorkersOver id) : answers.length = plan.queries.length := by
  refine Nat.le_antisymm (FanOut.length_le_of_once h.known h.once) ?_
  by_contra few
  obtain ⟨i, small, new⟩ := FanOut.exists_unanswered (Nat.lt_of_not_le few)
  obtain ⟨k, worker, hired, index, stands⟩ := h.worker small
  have isOver := workers _ k worker hired.gatherer
  exact new (index ▸ (stands fun h => h).answered.mpr isOver)

theorem pollCall_gathering {plan : FanOut.Plan} {first : TaskId} {p : FanOut.Progress} (r : Registry)
    (w : World) (id : TaskId) (gathering : c.phase = .gathering plan first p) :
    w.pollCall r id c =
      if c.aborted then (w.abortWorkers first plan.queries.length).endCall id c .aborted
      else w.pollGathering id c plan first p := by
  rw [pollCall, endAborted, gathering]

/-- **A fan-out whose workers have all ended** ends when it goes on. -/
theorem Sane.ends (h : Sane r none w) (here : w.task? id = some (.call c))
    (body : c.tool.body = .fanOut) (begun : c.phase ≠ .fresh) (unfinished : ∀ e, c.phase ≠ .over e)
    (workers : w.WorkersOver id) (ready : List TaskId) :
    ∃ c' e, (pollCall { w with ready } r id c).task? id = some (.call c') ∧ c'.phase = .over e := by
  obtain ⟨plan, first, p, answers, gathering, gathers⟩ := h.gathering here body unfinished begun
  have apart (i : Nat) (small : i < plan.queries.length) : first + i ≠ id := gathers.apart here small
  have open_ : World.Open { w with ready } id c := ⟨c, here, unfinished, .refl c⟩
  have ended {m : World} (still : m.Open id c) (e : CallEnd) :
      ∃ c' e', (m.endCall id c e).task? id = some (.call c') ∧ c'.phase = .over e' :=
    ⟨_, e, task?_endCall still e, rfl⟩
  rw [pollCall_gathering r _ id gathering]
  split
  · exact ended (open_.abortWorkers apart) _
  · unfold pollGathering
    split
    · exact ended ((open_.fire c.signal).abortWorkers apart) _
    · next arrived looked =>
      have all : arrived.length = plan.queries.length := by
        rw [gathers.arrived_eq looked, List.length_map, gathers.length_answers workers]
      rw [if_pos all]
      exact ended open_ _

/-- What a fan-out ends with that is neither told to stop nor late. -/
theorem Fate.reports {plan : FanOut.Plan} {e : CallEnd} (h : Fate r w id c.signal plan e)
    (planned : FanOut.plan r.maxFanOut c.inputs = .ok plan)
    (unstopped : w.isStopped c.signal = false) (kept : e ≠ .aborted) (timely : ∀ ms, e ≠ .timedOut ms) :
    ∃ outcomes o, e = .result (.ok o) ∧
      List.Forall₂ (Dispatched r w id) plan.queries outcomes ∧ Reports plan.queries outcomes o := by
  cases h with
  | aborted => exact absurd rfl kept
  | late ms => exact absurd rfl (timely ms)
  | gathered once told =>
    obtain ⟨outcomes, each, reports⟩ :=
      FanOut.reports_assemble once (FanOut.indexed_of_plan planned)
    refine ⟨outcomes, _, rfl, each.imp fun q o answered => ?_, reports⟩
    cases told _ answered with
    | dispatched h => exact h
    | stopped h => cases unstopped.symm.trans h

/-- **A fan-out reports every query in its place**, whatever the order in which the calls that are
made for its queries end. It does not get stuck before, and ends at once after its last worker. -/
theorem fan_out_in_order {queries : List (Fields Json)} (reached : Moves r {} w)
    (here : w.task? id = some (.call c)) (unfinished : ∀ e, c.phase ≠ .over e)
    (fansOut : c.FansOut queries) :
    w.Busy id ∧
      (c.phase ≠ .fresh → w.WorkersOver id → ∀ ready, ∃ c' e,
        (pollCall { w with ready } r id c).task? id = some (.call c') ∧ c'.phase = .over e) ∧
      ∀ w' c' e, Move r w w' → w'.task? id = some (.call c') → c'.phase = .over e →
        w'.isStopped c.signal = false → e ≠ .aborted → (∀ ms, e ≠ .timedOut ms) →
        (∃ outcomes o, e = .result (.ok o) ∧
          List.Forall₂ (Dispatched r w' id) (queries.mapIdx Query.ofFields) outcomes ∧
          Reports (queries.mapIdx Query.ofFields) outcomes o) ∧
        ∀ w'', Moves r w' w'' → ∃ c'', w''.task? id = some (.call c'') ∧ c''.phase = .over e := by
  have sane := reached.sane (sane_empty r)
  refine ⟨sane.busy here fansOut.body unfinished, fun begun workers ready =>
    sane.ends here fansOut.body begun unfinished workers ready, ?_⟩
  intro w' c' e move there isOver unstopped kept timely
  obtain ⟨sane', calls⟩ := advances_of_move sane move
  refine ⟨?_, fun w'' later => ?_⟩
  · obtain ⟨plan, planned, slow, same⟩ := fansOut.planned r.maxFanOut
    obtain ⟨c'', there', -, ended⟩ := calls id c here
    cases there.symm.trans there'
    have mayEnd : MayEnd r w' id c e := (ended e isOver).resolve_left (unfinished e)
    have fate := mayEnd fansOut.body fansOut.accepted plan planned slow
    exact same ▸ fate.reports planned unstopped kept timely
  · obtain ⟨c'', there', grows⟩ := later.call sane' there
    exact ⟨c'', there', grows.isOver e isOver⟩

/-- Says the text that it is given, after waiting if it is told to. -/
def sayTool : Tool where
  name := "say"
  check _ := .accepted
  body := .alone fun inputs =>
    { delay := (Fields.get? "wait" inputs).bind Json.nat?
      result := .output
        { output := ((Fields.get? "text" inputs).bind Json.str?).getD ""
          outputs := []
          metadata := [] } }

def sayRegistry : Registry := { tools := [("say", sayTool)] }

/-- The first query takes longer. -/
def sayQueries : List (Fields Json) :=
  [[("tool", .str "say"), ("text", .str "one"), ("wait", .nat 1)],
    [("tool", .str "say"), ("text", .str "two")]]

def sayCall : Call :=
  { tool := FanOut.tool, inputs := [("queries", .arr (sayQueries.map .obj))], signal := []
    limit := none, caller := 0 }

/-- The second query has been answered. -/
def sayWaits : World := ((spawn {} (.call sayCall)).2.settle sayRegistry 20).2

/-- So has the first, and the fan-out is about to look at it. -/
def sayWorld : World := ((sayWaits.advance?.getD sayWaits).settle sayRegistry 2).2

theorem fan_out_in_order_say :
    ∃ c w' c' e, Moves sayRegistry {} sayWorld ∧ sayWorld.task? 0 = some (.call c) ∧
      (∀ e, c.phase ≠ .over e) ∧ c.FansOut sayQueries ∧ sayWorld.Busy 0 ∧
      Move sayRegistry sayWorld w' ∧ w'.task? 0 = some (.call c') ∧ c'.phase = .over e ∧
      w'.isStopped c.signal = false ∧ e ≠ .aborted ∧ (∀ ms, e ≠ .timedOut ms) ∧
      (∃ outcomes o, e = .result (.ok o) ∧
        List.Forall₂ (Dispatched sayRegistry w' 0) (sayQueries.mapIdx Query.ofFields) outcomes ∧
        Reports (sayQueries.mapIdx Query.ofFields) outcomes o) ∧
      ∀ w'', Moves sayRegistry w' w'' →
        ∃ c'', w''.task? 0 = some (.call c'') ∧ c''.phase = .over e := by
  have made : Moves sayRegistry {} (spawn {} (.call sayCall)).2 := (Move.make rfl).moves
  obtain ⟨_, _, first, rfl⟩ := passes_settle
    (rfl : (spawn {} (.call sayCall)).2.settle sayRegistry 20 = (.quiet, sayWaits))
  obtain ⟨_, _, second, rfl⟩ := passes_settle
    (rfl : (sayWaits.advance?.getD sayWaits).settle sayRegistry 2 = (.quiet, sayWorld))
  have reached : Moves sayRegistry {} sayWorld :=
    (made.trans (moves_of_passes first)).trans (moves_of_passes (.tick rfl rfl second))
  have turn : Move sayRegistry sayWorld (sayWorld.step sayRegistry).2 := move_of_step rfl
  obtain ⟨c, here, ⟨plan, from_, p, phase⟩, tool, inputs, signal⟩ :
      ∃ c, sayWorld.task? 0 = some (.call c) ∧ (∃ plan from_ p, c.phase = .gathering plan from_ p) ∧
        c.tool = FanOut.tool ∧ c.inputs = sayCall.inputs ∧ c.signal = [] :=
    ⟨_, rfl, ⟨_, _, _, rfl⟩, rfl, rfl, rfl⟩
  obtain ⟨c', o, there, isOver⟩ : ∃ c' o, (sayWorld.step sayRegistry).2.task? 0 = some (.call c') ∧
      c'.phase = .over (.result (.ok o)) := ⟨_, _, rfl, rfl⟩
  have unfinished (e : CallEnd) : c.phase ≠ .over e := by simp [phase]
  have fansOut : c.FansOut sayQueries := by
    refine ⟨by rw [tool]; rfl, .inr (by rw [tool, inputs]; rfl), by rw [inputs]; rfl, ?_⟩
    rw [inputs]
    show (none : Option Json) ≠ _
    simp
  have unstopped : (sayWorld.step sayRegistry).2.isStopped c.signal = false := by
    rw [signal]
    rfl
  obtain ⟨busy, -, result⟩ := fan_out_in_order reached here unfinished fansOut
  obtain ⟨reports, stays⟩ := result _ _ _ turn there isOver unstopped (by simp) (by simp)
  exact ⟨c, _, c', _, reached, here, unfinished, fansOut, busy, turn, there, isOver, unstopped,
    by simp, by simp, reports, stays⟩

end World
end Runbook.Schedule
