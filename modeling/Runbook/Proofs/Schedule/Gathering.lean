import Runbook.Proofs.Schedule.Footprint

/-!
# A fan-out at work

While a fan-out gathers, it has one worker for each query. `Gathers` says how the workers and the
progress of the fan-out belong together: a query is either with its worker, which asks for a turn,
waits for it, or has it, or it has been answered, once. An answer is what the call that was made for
the query has come to.

Whoever can go on is in line. Of the tasks that are going on just now (`B`) neither this nor
anything else is said: it holds of them again when they have done so.
-/

set_option autoImplicit false

namespace Runbook

/-- The failure that the error is for whoever made the call: its kind and its message. -/
inductive ToolError.Tells : ToolError → Failure → Prop where
  | validation (m : String) : Tells (.validation m) ⟨.toolValidation, m⟩
  | execution (m : String) : Tells (.execution m) ⟨.toolExecution, m⟩
  | cancelled : Tells .cancelled ⟨.cancelled, "tool call cancelled"⟩

theorem ToolError.tells (e : ToolError) : e.Tells e.failure := by
  cases e with
  | validation m => exact .validation m
  | execution m => exact .execution m
  | cancelled => exact .cancelled

namespace Schedule

/-- What the end of a call is for whoever made it: the output, or a failure that says what has
happened. -/
inductive CallEnd.Tells (tool : String) : CallEnd → FanOut.Outcome → Prop where
  | output (o : ToolOutput) : Tells tool (.result (.ok o)) (.ok o)
  | error {e : ToolError} {f : Failure} (h : e.Tells f) : Tells tool (.result (.error e)) (.error f)
  | late (ms : Nat) : Tells tool (.timedOut ms)
      (.error ⟨.timeout, s!"tool '{tool}' did not finish within {secondsText ms}s"⟩)
  | panicked : Tells tool .panicked (.error ⟨.panicked, s!"tool '{tool}' panicked"⟩)
  | aborted : Tells tool .aborted (.error ⟨.cancelled, "tool call cancelled"⟩)

theorem CallEnd.tells (e : CallEnd) (tool : String) : e.Tells tool (e.outcome tool) := by
  cases e with
  | result x =>
    cases x with
    | ok o => exact .output o
    | error e => exact .error e.tells
  | timedOut ms => exact .late ms
  | panicked => exact .panicked
  | aborted => exact .aborted

theorem CallEnd.Tells.eq_outcome {tool : String} {e : CallEnd} {o : FanOut.Outcome}
    (h : e.Tells tool o) : o = e.outcome tool := by
  cases h with
  | error h => cases h <;> rfl
  | output | late | panicked | aborted => rfl

/-- The call is the one to make for the query. -/
structure Call.For (r : Registry) (q : FanOut.Query) (c : Call) : Prop where
  tool : r.tool? q.tool = some c.tool
  inputs : c.inputs = q.inputs
  limit : c.limit = r.timeoutFor q.tool
  checked : c.unchecked = false

theorem Call.For.alike {r : Registry} {q : FanOut.Query} {c c' : Call} (h : c.For r q)
    (alike : c.Alike c') : c'.For r q :=
  ⟨alike.tool ▸ h.tool, alike.inputs.trans h.inputs, alike.limit.trans h.limit,
    alike.unchecked.trans h.checked⟩

/-- The worker has its turn. -/
def WorkerPhase.Admitted : WorkerPhase → Prop
  | .admitted => True
  | .calling _ => True
  | _ => False

namespace World

open FanOut (Answer Progress)

variable {r : Registry} {w w' : World} {S : TaskId → Prop} {id : TaskId}

/-! ## 1. What is known of a fan-out -/

/-- The task is the worker of a fan-out for the query. -/
def WorksFor (w : World) (id : TaskId) (q : FanOut.Query) (x : TaskId) : Prop :=
  ∃ k, w.task? x = some (.worker k) ∧ k.gatherer = id ∧ k.query = q

theorem WorksFor.within {q : FanOut.Query} {x : TaskId} (h : w.WorksFor id q x)
    (within : Within S w w') : w'.WorksFor id q x := by
  obtain ⟨k, here, gatherer, query⟩ := h
  obtain ⟨k', there, alike, -⟩ := within.workers x k here
  exact ⟨k', there, alike.gatherer.trans gatherer, alike.query.trans query⟩

/-- What has come of a query of the fan-out: the end of the call that its worker made for it, or
that there is no such tool. -/
inductive Dispatched (r : Registry) (w : World) (id : TaskId) (q : FanOut.Query) :
    FanOut.Outcome → Prop where
  | unknown (h : r.tool? q.tool = none) :
      Dispatched r w id q (.error ⟨.unknownTool, s!"no tool registered as '{q.tool}'"⟩)
  | called {x : TaskId} {c : Call} {e : CallEnd} (here : w.task? x = some (.call c))
      (made : c.For r q) (maker : w.WorksFor id q c.caller) (isOver : c.phase = .over e)
      {o : FanOut.Outcome} (told : e.Tells q.tool o) : Dispatched r w id q o

theorem Dispatched.within {q : FanOut.Query} {o : FanOut.Outcome} (h : Dispatched r w id q o)
    (within : Within S w w') : Dispatched r w' id q o := by
  cases h with
  | unknown h => exact .unknown h
  | called here made maker isOver told =>
    obtain ⟨c', there, grows, -⟩ := within.calls _ _ here
    exact .called there (made.alike grows.toAlike) (grows.caller ▸ maker.within within)
      (grows.isOver _ isOver) told

/-- How a query is answered: with what has come of it, or, if the signal has fired, as cancelled. -/
inductive Answers (r : Registry) (w : World) (id : TaskId) (s : Signal) (q : FanOut.Query) :
    FanOut.Outcome → Prop where
  | dispatched {o : FanOut.Outcome} (h : Dispatched r w id q o) : Answers r w id s q o
  | stopped (h : w.isStopped s = true) :
      Answers r w id s q (.error ⟨.cancelled, "tool call cancelled"⟩)

theorem Answers.within {s : Signal} {q : FanOut.Query} {o : FanOut.Outcome}
    (h : Answers r w id s q o) (within : Within S w w') : Answers r w' id s q o := by
  cases h with
  | dispatched h => exact .dispatched (h.within within)
  | stopped h => exact .stopped (within.fired s h)

/-- The line is nothing to it. -/
theorem Answers.of_tasks {s : Signal} {q : FanOut.Query} {o : FanOut.Outcome}
    (h : Answers r w id s q o) (tasks : w'.tasks = w.tasks) (fired : w'.fired = w.fired) :
    Answers r w' id s q o := by
  have same (x : TaskId) : w'.task? x = w.task? x := congrArg (·[x]?) tasks
  cases h with
  | stopped h => exact .stopped (by rwa [isStopped, fired])
  | dispatched h =>
    cases h with
    | unknown h => exact .dispatched (.unknown h)
    | called here made maker isOver told =>
      obtain ⟨k, worker, rest⟩ := maker
      exact .dispatched
        (.called ((same _).trans here) made ⟨k, (same _).trans worker, rest⟩ isOver told)

/-- The worker waits for the call made for its query, and is in line when it need wait no longer. -/
structure Awaits (r : Registry) (w : World) (x : TaskId) (k : Worker) (wait : Wait) : Prop where
  tool : wait.tool = k.query.tool
  signal : wait.signal = k.signal
  call : ∃ c, w.task? wait.call = some (.call c) ∧ c.For r k.query ∧ c.caller = x ∧
    ∀ e, c.phase = .over e → x ∈ w.ready
  stopped : w.isStopped wait.signal = true → x ∈ w.ready

theorem Awaits.within {x : TaskId} {k : Worker} {wait : Wait} (h : Awaits r w x k wait)
    (within : Within S w w') (outside : ¬ S x) (here : w.task? x = some (.worker k))
    (calling : k.phase = .calling wait) : Awaits r w' x k wait := by
  obtain ⟨c, there, made, caller, woken⟩ := h.call
  obtain ⟨c', there', grows, announced⟩ := within.calls _ _ there
  refine ⟨h.tool, h.signal, ⟨c', there', made.alike grows.toAlike, grows.caller.trans caller,
    fun e isOver => ?_⟩, fun stopped => ?_⟩
  · rcases announced e isOver with isOver | woken'
    · exact within.ready x (woken e isOver)
    · exact caller ▸ woken'
  · rcases within.woken x k wait outside here calling stopped with stopped | woken'
    · exact within.ready x (h.stopped stopped)
    · exact woken'

/-- The lists of the fan-out say where the worker is. -/
structure Placed (p : Progress) (answers : List Answer) (k : Worker) : Prop where
  inside : k.query.index ∈ p.inside ↔ k.phase.Admitted
  waiting : k.query.index ∈ p.waiting ↔ k.phase = .queued
  answered : k.query.index ∈ answers.map (·.1.index) ↔ k.phase = .over

/-- Its query has not been answered before it is over. -/
theorem Placed.new {p : Progress} {answers : List Answer} {k : Worker} (h : Placed p answers k)
    (unfinished : k.phase ≠ .over) : k.query.index ∉ answers.map (·.1.index) :=
  fun answered => unfinished (h.answered.mp answered)

/-- All that is known of a worker that is not going on just now. -/
structure Stands (r : Registry) (w : World) (p : Progress) (answers : List Answer) (x : TaskId)
    (k : Worker) : Prop extends Placed p answers k where
  line : k.phase = .fresh ∨ k.phase = .admitted → x ∈ w.ready
  calls : ∀ wait, k.phase = .calling wait → Awaits r w x k wait

/-- A worker of the fan-out, for its query. -/
structure Hired (id : TaskId) (s : Signal) (q : FanOut.Query) (k : Worker) : Prop where
  gatherer : k.gatherer = id
  query : k.query = q
  signal : k.signal = s
  aborted : k.aborted = false

/-- The workers from `first` on and the progress belong together; `answers` are all that have been
given. -/
structure Gathers (r : Registry) (B : TaskId → Prop) (w : World) (id : TaskId) (c : Call)
    (plan : FanOut.Plan) (first : TaskId) (p : Progress) (answers : List Answer) : Prop where
  planned : FanOut.plan r.maxFanOut c.inputs = .ok plan
  workers : p.workers = plan.workers
  order : p.InOrder plan.queries.length
  arrived : ∃ front, answers = front ++ p.finished ∧ p.arrived = front.map Answer.result
  /-- If something has finished, the fan-out will look at it. -/
  line : p.finished ≠ [] → B id ∨ id ∈ w.ready
  known : ∀ a ∈ answers, plan.queries[a.1.index]? = some a.1
  once : (answers.map (·.1.index)).Nodup
  told : ∀ a ∈ answers, Answers r w id c.signal a.1 a.2
  roster : ∀ (i : Nat) (q : FanOut.Query), plan.queries[i]? = some q →
    ∃ k, w.task? (first + i) = some (.worker k) ∧ Hired id c.signal q k ∧
      (¬ B (first + i) → Stands r w p answers (first + i) k)
  /-- There are no others. -/
  crew : ∀ x k, w.task? x = some (.worker k) → k.gatherer = id →
    ∃ i, i < plan.queries.length ∧ x = first + i

variable {B B' : TaskId → Prop} {c c' : Call} {plan : FanOut.Plan} {first : TaskId}
  {p p' : Progress} {answers answers' : List Answer} {i : Nat}

/-- The worker of each place. -/
theorem Gathers.worker (h : Gathers r B w id c plan first p answers)
    (small : i < plan.queries.length) :
    ∃ k, w.task? (first + i) = some (.worker k) ∧ Hired id c.signal plan.queries[i] k ∧
      k.query.index = i ∧ (¬ B (first + i) → Stands r w p answers (first + i) k) := by
  have there := List.getElem?_eq_getElem small
  obtain ⟨k, here, hired, stands⟩ := h.roster i _ there
  refine ⟨k, here, hired, ?_, stands⟩
  rw [hired.query]
  exact FanOut.indexed_of_plan h.planned i _ there

/-- A worker that stands goes on to do so when others go on. -/
theorem Stands.within {x : TaskId} {k : Worker} (h : Stands r w p answers x k)
    (within : Within S w w') (outside : ¬ S x) (here : w.task? x = some (.worker k)) :
    Stands r w' p answers x k :=
  ⟨h.toPlaced, fun early => within.ready x (h.line early),
    fun wait calling => (h.calls wait calling).within within outside here calling⟩

/-- The fan-out goes on gathering when others go on. -/
theorem Gathers.within (h : Gathers r B w id c plan first p answers) (within : Within S w w')
    (outside : ∀ i, i < plan.queries.length → ¬ S (first + i) ∨ B (first + i) ∧
      ∃ k, w'.task? (first + i) = some (.worker k) ∧ k.aborted = false)
    (foreign : ∀ x k, S x → w'.task? x = some (.worker k) → k.gatherer = id →
      ∃ i, i < plan.queries.length ∧ x = first + i)
    (inputs : c'.inputs = c.inputs) (signal : c'.signal = c.signal) :
    Gathers r B w' id c' plan first p answers where
  planned := inputs ▸ h.planned
  workers := h.workers
  order := h.order
  arrived := h.arrived
  line some := (h.line some).imp_right (within.ready id)
  known := h.known
  once := h.once
  told a ha := signal ▸ (h.told a ha).within within
  roster i q hq := by
    obtain ⟨k, here, hired, stands⟩ := h.roster i q hq
    rw [signal]
    rcases outside i (List.getElem?_eq_some_iff.mp hq).1 with outside | ⟨own, k', there, aborted⟩
    · exact ⟨k, within.keptWorker outside here, hired,
        fun other => (stands other).within within outside here⟩
    · obtain ⟨k'', there'', alike, -⟩ := within.workers _ _ here
      cases there.symm.trans there''
      exact ⟨k', there, ⟨alike.gatherer.trans hired.gatherer, alike.query.trans hired.query,
        alike.signal.trans hired.signal, aborted⟩, fun other => absurd own other⟩
  crew x k there gatherer := by
    by_cases inside : S x
    · exact foreign x k inside there gatherer
    · exact h.crew x k (within.wasWorker inside there) gatherer

/-! ## 2. Tasks that are going on -/

/-- The task that goes on has been taken out of the line. -/
theorem Gathers.popped {ready : List TaskId}
    (h : Gathers r (fun _ => False) w id c plan first p answers)
    (others : ∀ x ∈ w.ready, ¬ B x → x ∈ ready) :
    Gathers r B { w with ready } id c plan first p answers :=
  { h with
    line := fun some => by
      by_cases going : B id
      · exact .inl going
      · exact .inr (others id ((h.line some).resolve_left fun h => h) going)
    told := fun a ha => (h.told a ha).of_tasks rfl rfl
    roster := fun i q hq => by
      obtain ⟨k, here, hired, stands⟩ := h.roster i q hq
      refine ⟨k, here, hired, fun other => ?_⟩
      have stands := stands fun h => h
      refine ⟨stands.toPlaced, fun early => others _ (stands.line early) other,
        fun wait calling => ?_⟩
      obtain ⟨tool, signal, ⟨c', there, made, caller, woken⟩, stopped⟩ := stands.calls wait calling
      exact ⟨tool, signal, ⟨c', there, made, caller, fun e isOver => others _ (woken e isOver) other⟩,
        fun fired => others _ (stopped fired) other⟩ }

/-- Of more tasks nothing is said. -/
theorem Gathers.open (h : Gathers r B w id c plan first p answers) (more : ∀ x, B x → B' x) :
    Gathers r B' w id c plan first p answers :=
  { h with
    line := fun some => (h.line some).imp_left (more id)
    roster := fun i q hq => by
      obtain ⟨k, here, hired, stands⟩ := h.roster i q hq
      exact ⟨k, here, hired, fun other => stands fun going => other (more _ going)⟩ }

/-- The tasks stand again. -/
theorem Gathers.close (h : Gathers r B' w id c plan first p answers)
    (line : B' id → p.finished ≠ [] → B id ∨ id ∈ w.ready)
    (stands : ∀ i k, i < plan.queries.length → w.task? (first + i) = some (.worker k) →
      k.query.index = i → B' (first + i) → ¬ B (first + i) → Stands r w p answers (first + i) k) :
    Gathers r B w id c plan first p answers :=
  { h with
    line := fun some => (h.line some).elim (fun going => line going some) .inr
    roster := fun i q hq => by
      obtain ⟨k, here, hired, before⟩ := h.roster i q hq
      refine ⟨k, here, hired, fun other => ?_⟩
      by_cases going : B' (first + i)
      · refine stands i k (List.getElem?_eq_some_iff.mp hq).1 here ?_ going other
        rw [hired.query]
        exact FanOut.indexed_of_plan h.planned i q hq
      · exact before going }

/-- The lists have changed for workers that are going on only. -/
theorem Gathers.lists (h : Gathers r B w id c plan first p answers)
    (workers : p'.workers = p.workers) (order : p'.InOrder plan.queries.length)
    (finished : p'.finished = p.finished) (arrived : p'.arrived = p.arrived)
    (places : ∀ j, ¬ B (first + j) →
      (j ∈ p'.inside ↔ j ∈ p.inside) ∧ (j ∈ p'.waiting ↔ j ∈ p.waiting)) :
    Gathers r B w id c plan first p' answers :=
  { h with
    workers := workers.trans h.workers
    order
    arrived := by rw [finished, arrived]; exact h.arrived
    line := by rw [finished]; exact h.line
    roster := fun j q hq => by
      obtain ⟨k, here, hired, before⟩ := h.roster j q hq
      refine ⟨k, here, hired, fun other => ?_⟩
      have stands := before other
      have index : k.query.index = j := by
        rw [hired.query]
        exact FanOut.indexed_of_plan h.planned j q hq
      obtain ⟨inside, waiting⟩ := places j other
      rw [← index] at inside waiting
      exact ⟨⟨inside.trans stands.inside, waiting.trans stands.waiting, stands.answered⟩,
        stands.line, stands.calls⟩ }

/-- A worker that is going on asks for its turn. -/
theorem Gathers.request (h : Gathers r B w id c plan first p answers) (going : B (first + i))
    (small : i < plan.queries.length) (outside : i ∉ p.inside) (idle : i ∉ p.waiting) :
    Gathers r B w id c plan first (p.request i) answers := by
  obtain ⟨workers, finished, arrived⟩ := p.request_keeps i
  refine h.lists workers (h.order.request small outside idle) finished arrived fun j other => ?_
  have apart : j ≠ i := by
    rintro rfl
    exact other going
  exact ⟨FanOut.Progress.mem_inside_request apart, FanOut.Progress.mem_waiting_request apart⟩

theorem giveTurn_queued {x : TaskId} {k : Worker} (here : w.task? x = some (.worker k))
    (queued : k.phase = .queued) :
    w.giveTurn x = (w.setTask x (.worker { k with phase := .admitted })).wake x := by
  rw [giveTurn, here]
  simp only [queued]

/-- A worker that waits for its turn gets it. Nothing is said of it meanwhile. -/
theorem Gathers.giveTurn (h : Gathers r B w id c plan first p answers) {j : Nat}
    (small : j < plan.queries.length) {k : Worker} (here : w.task? (first + j) = some (.worker k))
    (queued : k.phase = .queued) (aborted : k.aborted = false) :
    Gathers r (fun x => B x ∨ x = first + j) (w.giveTurn (first + j)) id c plan first p answers ∧
      (w.giveTurn (first + j)).task? (first + j) = some (.worker { k with phase := .admitted }) ∧
      first + j ∈ (w.giveTurn (first + j)).ready := by
  have given : (w.giveTurn (first + j)).task? (first + j) =
      some (.worker { k with phase := .admitted }) := by
    rw [giveTurn_queued here queued, task?, tasks_wake]
    exact task?_setTask_self here
  have turned : Within (fun x => x = first + j) w (w.giveTurn (first + j)) :=
    within_giveTurn (S := fun x => x = first + j) rfl w
  refine ⟨(h.open fun _ => .inl).within turned (fun l _ => ?_) (fun x k' hx _ _ => ⟨j, small, hx⟩)
    rfl rfl, given, ?_⟩
  · by_cases same : l = j
    · subst same
      exact .inr ⟨.inr rfl, _, given, aborted⟩
    · exact .inl fun h => same (Nat.add_left_cancel h)
  · rw [giveTurn_queued here queued]
    exact mem_ready_wake _ _

/-- A worker that is going on hands its turn on, and the next one is in line. -/
theorem Gathers.release (h : Gathers r B w id c plan first p answers) (going : B (first + i))
    (alone : ∀ x, B x → x = first + i) (here : i ∈ p.inside) :
    Gathers r B (p.next?.elim w fun j => w.giveTurn (first + j)) id c plan first (p.release i)
      answers := by
  obtain ⟨workers, finished, arrived⟩ := p.release_keeps i
  have order := h.order.release here
  have places {j : Nat} (other : ¬ B (first + j)) (last : p.next? ≠ some j) :
      (j ∈ (p.release i).inside ↔ j ∈ p.inside) ∧ (j ∈ (p.release i).waiting ↔ j ∈ p.waiting) := by
    have apart : j ≠ i := by
      rintro rfl
      exact other going
    rw [FanOut.Progress.mem_inside_release h.order, FanOut.Progress.mem_waiting_release h.order]
    simp [apart, last]
  cases next : p.next? with
  | none =>
    exact h.lists workers order finished arrived fun j other => places other (by simp [next])
  | some j =>
    have waits : j ∈ p.waiting := List.mem_of_head? next
    have small : j < plan.queries.length := h.order.waiting.2 j waits
    have idle : ¬ B (first + j) := fun going => by
      obtain rfl : j = i := Nat.add_left_cancel (alone _ going)
      exact h.order.apart j waits here
    obtain ⟨k, there, hired, index, stands⟩ := h.worker small
    have queued : k.phase = .queued := (stands idle).waiting.mp (index.symm ▸ waits)
    obtain ⟨turned, given, woken⟩ := h.giveTurn small there queued hired.aborted
    have released := turned.lists workers order finished arrived fun l other =>
      places (fun going => other (.inl going)) (by
        rw [next]
        rintro ⟨⟩
        exact other (.inr rfl))
    refine released.close (fun both some => ?_) fun l k' hl there' index' both other => ?_
    · rcases both with going | same
      · exact .inl going
      · exact .inr (same ▸ woken)
    · obtain rfl : l = j := Nat.add_left_cancel (both.resolve_left other)
      cases given.symm.trans there'
      have answered := (stands idle).answered
      refine ⟨⟨?_, ?_, ?_⟩, fun _ => woken, fun wait calling => by cases calling⟩
      · rw [index', FanOut.Progress.mem_inside_release h.order]
        exact ⟨fun _ => trivial, fun _ => .inr next⟩
      · rw [index', FanOut.Progress.mem_waiting_release h.order]
        exact ⟨fun h => absurd next h.2, fun h => by cases h⟩
      · rw [queued] at answered
        exact answered.trans (iff_of_false (by simp) (by simp))

/-- A worker that is going on has its query answered. -/
theorem Gathers.answer (h : Gathers r B w id c plan first p answers) (going : B (first + i))
    {q : FanOut.Query} {o : FanOut.Outcome} (there : plan.queries[i]? = some q)
    (new : i ∉ answers.map (·.1.index)) (told : Answers r w id c.signal q o)
    (line : B id ∨ id ∈ w.ready) :
    Gathers r B w id c plan first { p with finished := p.finished ++ [(q, o)] }
      (answers ++ [(q, o)]) := by
  have indexed := FanOut.indexed_of_plan h.planned
  have index : q.index = i := indexed i q there
  refine { h with
    order := ⟨h.order.inside, h.order.waiting, h.order.apart, h.order.room, h.order.busy⟩
    arrived := ?_
    line := fun _ => line
    known := ?_
    once := ?_
    told := ?_
    roster := fun j q' hq => ?_ }
  · obtain ⟨front, all, arrived⟩ := h.arrived
    exact ⟨front, by rw [all, List.append_assoc], arrived⟩
  · refine List.forall_mem_append.mpr ⟨h.known, List.forall_mem_singleton.mpr ?_⟩
    rw [index]
    exact there
  · rw [List.map_append, List.nodup_append]
    refine ⟨h.once, by simp, fun a ha b hb same => new ?_⟩
    have last : b = q.index := List.mem_singleton.mp hb
    rw [← index, ← last, ← same]
    exact ha
  · exact List.forall_mem_append.mpr ⟨h.told, List.forall_mem_singleton.mpr told⟩
  · obtain ⟨k, here, hired, before⟩ := h.roster j q' hq
    refine ⟨k, here, hired, fun other => ?_⟩
    have stands := before other
    have apart : k.query.index ≠ q.index := by
      rw [hired.query, indexed j q' hq, index]
      rintro rfl
      exact other going
    refine ⟨⟨stands.inside, stands.waiting, ?_⟩, stands.line, stands.calls⟩
    rw [List.map_append, List.mem_append, List.map_singleton, List.mem_singleton]
    exact (or_iff_left apart).trans stands.answered

/-! ## 3. Workers go on -/

/-- A call is none of the workers. -/
theorem Gathers.apart (h : Gathers r B w id c plan first p answers) {x : TaskId} {c₁ : Call}
    (here : w.task? x = some (.call c₁)) (small : i < plan.queries.length) : first + i ≠ x := by
  rintro rfl
  obtain ⟨k, there, -⟩ := h.worker small
  cases here.symm.trans there

theorem Gathers.ne_of_open (h : Gathers r B w id c plan first p answers) (here : w.Open id c')
    (i : Nat) (small : i < plan.queries.length) : first + i ≠ id := by
  obtain ⟨c₀, there⟩ := here.hasCall
  exact h.apart there small

theorem Gathers.updated (h : Gathers r B w id c plan first p answers) {c₁ : Call}
    (here : w.task? id = some (.call c₁)) (f : Progress → Progress) :
    Gathers r B (w.updateProgress id f) id c plan first p answers := by
  have set : Within (fun x => x = id) w (w.updateProgress id f) :=
    within_updateProgress (S := fun x => x = id) (fun _ _ => rfl) f
  refine h.within set (fun j hj => .inl (h.apart here hj)) (fun x k hx there _ => ?_) rfl rfl
  obtain ⟨c₂, there', -⟩ := set.calls id c₁ here
  subst hx
  cases there.symm.trans there'

theorem updateProgress_gathering (here : w.task? id = some (.call c))
    (gathering : c.phase = .gathering plan first p) (f : Progress → Progress) :
    w.updateProgress id f =
      w.setTask id (.call { c with phase := .gathering plan first (f p) }) := by
  rw [updateProgress, here]
  simp only [gathering]

theorem task?_giveTurn {x y : TaskId} (here : w.task? x = some (.call c)) :
    (w.giveTurn y).task? x = some (.call c) := by
  unfold giveTurn
  split
  · next k there =>
    have other : y ≠ x := fun same => by
      rw [same, here] at there
      cases there
    split
    · rw [task?, tasks_wake]
      exact (task?_setTask_ne _ other).trans here
    · exact here
  · exact here

theorem handOn_gathering {k : Worker} (found : w.progress? k.gatherer = some (first, p)) :
    w.handOn k =
      p.next?.elim (w.updateProgress k.gatherer fun p => p.release k.query.index) fun j =>
        (w.updateProgress k.gatherer fun p => p.release k.query.index).giveTurn (first + j) := by
  rw [handOn, found]
  dsimp only
  cases p.next? <;> rfl

theorem progress?_gathering (here : w.task? id = some (.call c))
    (gathering : c.phase = .gathering plan first p) : w.progress? id = some (first, p) := by
  rw [progress?, here]
  simp only [gathering]

/-- A worker that is going on hands its turn on. -/
theorem Gathers.handOn (h : Gathers r (fun x => x = first + i) w id c plan first p answers)
    (here : w.task? id = some (.call c)) (gathering : c.phase = .gathering plan first p)
    {k : Worker} (gatherer : k.gatherer = id) (index : k.query.index = i) (inside : i ∈ p.inside) :
    (w.handOn k).task? id = some (.call { c with phase := .gathering plan first (p.release i) }) ∧
      Gathers r (fun x => x = first + i) (w.handOn k) id c plan first (p.release i) answers := by
  subst gatherer index
  rw [handOn_gathering (progress?_gathering here gathering)]
  have h' := (h.updated here fun p => p.release k.query.index).release rfl (fun _ h => h) inside
  have here' : (w.updateProgress k.gatherer fun p => p.release k.query.index).task? k.gatherer =
      some (.call { c with phase := .gathering plan first (p.release k.query.index) }) := by
    rw [updateProgress_gathering here gathering]
    exact task?_setTask_self here
  refine ⟨?_, h'⟩
  cases p.next? with
  | none => exact here'
  | some j => exact task?_giveTurn here'

/-- Only the next worker is touched. -/
theorem task?_handOn (here : w.task? id = some (.call c))
    (gathering : c.phase = .gathering plan first p) {k k₁ : Worker} (gatherer : k.gatherer = id)
    {x : TaskId} (worker : w.task? x = some (.worker k₁))
    (last : ∀ j, p.next? = some j → x ≠ first + j) :
    (w.handOn k).task? x = some (.worker k₁) := by
  let S : TaskId → Prop := fun x => x = id ∨ ∃ j, p.next? = some j ∧ x = first + j
  have turns : w.Turns S k.gatherer := by
    rw [gatherer]
    intro first' p' found
    cases (progress?_gathering here gathering).symm.trans found
    exact ⟨.inl rfl, fun j next => .inr ⟨j, next, rfl⟩⟩
  refine (within_handOn turns).keptWorker ?_ worker
  rintro (rfl | ⟨j, next, same⟩)
  · cases here.symm.trans worker
  · exact last j next same

/-- A worker that is going on is set. -/
theorem Gathers.setWorker (h : Gathers r (fun x => x = first + i) w id c plan first p answers)
    {k k₀ : Worker} (worker : w.task? (first + i) = some (.worker k₀)) (alike : k₀.Alike k)
    (aborted : k.aborted = false) (small : i < plan.queries.length)
    (employs : (w.setTask (first + i) (.worker k)).Employs k₀ k) :
    Gathers r (fun x => x = first + i) (w.setTask (first + i) (.worker k)) id c plan first p
      answers := by
  have set : Within (fun x => x = first + i) w (w.setTask (first + i) (.worker k)) :=
    within_setWorker rfl worker alike employs
  refine h.within set (fun j _ => ?_) (fun x _ hx _ _ => ⟨i, small, hx⟩) rfl rfl
  by_cases same : j = i
  · subst same
    exact .inr ⟨rfl, k, task?_setTask_self worker, aborted⟩
  · exact .inl fun h => same (Nat.add_left_cancel h)

/-- **A worker that has its query answered** leaves the fan-out in order. -/
theorem Gathers.endWorker (h : Gathers r (fun x => x = first + i) w id c plan first p answers)
    (here : w.task? id = some (.call c)) (gathering : c.phase = .gathering plan first p)
    {k k₀ : Worker} (worker : w.task? (first + i) = some (.worker k₀)) (alike : k₀.Alike k)
    (hired : Hired id c.signal k.query k) (there : plan.queries[i]? = some k.query)
    (inside : i ∈ p.inside) (new : i ∉ answers.map (·.1.index)) {o : FanOut.Outcome}
    (told : Answers r w id c.signal k.query o) :
    ∃ p', (w.endWorker (first + i) k o).task? id =
        some (.call { c with phase := .gathering plan first p' }) ∧ p'.arrived = p.arrived ∧
      Gathers r (fun _ => False) (w.endWorker (first + i) k o) id c plan first p'
        (answers ++ [(k.query, o)]) := by
  have small : i < plan.queries.length := (List.getElem?_eq_some_iff.mp there).1
  have index : k.query.index = i := FanOut.indexed_of_plan h.planned i _ there
  have other : first + i ≠ id := h.apart here small
  have notNext : p.next? ≠ some i := fun next => h.order.apart i (List.mem_of_head? next) inside
  -- the worker is over, hands its turn on, tells the fan-out and wakes it
  let w₁ := w.setTask (first + i) (.worker { k with phase := .over })
  let w₂ := w₁.handOn k
  let w₃ := w₂.updateProgress id fun p => { p with finished := p.finished ++ [(k.query, o)] }
  have ended : w.endWorker (first + i) k o = w₃.wake id := by
    show ((w₁.handOn k).updateProgress k.gatherer _).wake k.gatherer = _
    rw [hired.gatherer]
  have here₁ : w₁.task? id = some (.call c) := (task?_setTask_ne _ other).trans here
  obtain ⟨here₂, h₂⟩ := (h.setWorker worker (alike.trans (k.alike_phase .over)) hired.aborted small
    (by simp [Employs])).handOn here₁ gathering hired.gatherer index inside
  have worker₂ : w₂.task? (first + i) = some (.worker { k with phase := .over }) :=
    task?_handOn here₁ gathering hired.gatherer (task?_setTask_self worker) fun j next same =>
      notNext (Nat.add_left_cancel same ▸ next)
  let p' : Progress := { p.release i with finished := (p.release i).finished ++ [(k.query, o)] }
  have set₃ : w₃ = w₂.setTask id (.call { c with phase := .gathering plan first p' }) :=
    updateProgress_gathering here₂ rfl _
  have here₃ : w₃.task? id = some (.call { c with phase := .gathering plan first p' }) := by
    rw [set₃]
    exact task?_setTask_self here₂
  have worker₃ : w₃.task? (first + i) = some (.worker { k with phase := .over }) := by
    rw [set₃]
    exact (task?_setTask_ne _ other.symm).trans worker₂
  have h₃ : Gathers r (fun x => x = first + i) (w₃.wake id) id c plan first (p.release i) answers :=
    (h₂.updated here₂ _).within (S := fun _ => False) (within_wake w₃ id)
      (fun _ _ => .inl fun h => h) (fun _ _ h => h.elim) rfl rfl
  have whole : Within (fun _ => True) w (w.endWorker (first + i) k o) :=
    within_endWorker trivial worker alike (fun _ _ _ => ⟨trivial, fun _ _ => trivial⟩) o
  rw [ended] at whole ⊢
  have h₄ := h₃.answer rfl there new (told.within whole) (.inr (mem_ready_wake w₃ id))
  refine ⟨p', (congrArg (·[id]?) (tasks_wake w₃ id)).trans here₃, (p.release_keeps i).2.2,
    h₄.close (fun going => absurd going.symm other) fun j k' _ there' _ going _ => ?_⟩
  obtain rfl : j = i := Nat.add_left_cancel going
  cases ((congrArg (·[first + j]?) (tasks_wake w₃ id)).trans worker₃).symm.trans there'
  refine ⟨⟨iff_of_false ?_ (fun h => h), iff_of_false ?_ (by simp), iff_of_true ?_ rfl⟩,
    fun early => by simp at early, fun wait calling => by cases calling⟩
  · rw [index, FanOut.Progress.mem_inside_release h.order]
    simp [notNext]
  · rw [index, FanOut.Progress.mem_waiting_release h.order]
    exact fun waits => h.order.apart _ waits.1 inside
  · simp [index]

/-- The fan-out gathers, so much has arrived, and nobody is going on. -/
def Gathering (r : Registry) (w : World) (id : TaskId) (plan : FanOut.Plan) (first : TaskId)
    (arrived : List QueryResult) : Prop :=
  ∃ c p answers, w.task? id = some (.call c) ∧ c.phase = .gathering plan first p ∧
    p.arrived = arrived ∧ Gathers r (fun _ => False) w id c plan first p answers

/-- What is said of a fan-out while one of its workers is going on. -/
structure Going (r : Registry) (w : World) (id : TaskId) (plan : FanOut.Plan) (first : TaskId)
    (arrived : List QueryResult) (i : Nat) (k : Worker) : Prop where
  gathers : ∃ c p answers, w.task? id = some (.call c) ∧ c.phase = .gathering plan first p ∧
    p.arrived = arrived ∧ Gathers r (fun x => x = first + i) w id c plan first p answers ∧
    Hired id c.signal k.query k ∧ i ∈ p.inside ∧ i ∉ answers.map (·.1.index)
  worker : ∃ k₀, w.task? (first + i) = some (.worker k₀) ∧ k₀.Alike k
  query : plan.queries[i]? = some k.query

variable {arrived : List QueryResult} {k : Worker}

/-- What leaves the family alone leaves all this as it is. -/
theorem Going.within (h : Going r w id plan first arrived i k)
    (within : Within (fun _ => False) w w') : Going r w' id plan first arrived i k := by
  obtain ⟨⟨c, p, answers, here, gathering, same, gathers, hired, rest⟩, ⟨k₀, worker, alike⟩,
    query⟩ := h
  obtain ⟨c', there, alike', phase⟩ := within.keptCall (fun h => h) here
  refine ⟨⟨c', p, answers, there, phase.trans gathering, same, ?_, alike'.signal ▸ hired, rest⟩,
    ⟨k₀, within.keptWorker (fun h => h) worker, alike⟩, query⟩
  exact gathers.within within (fun _ _ => .inl fun h => h) (fun _ _ h => h.elim) alike'.inputs
    alike'.signal

theorem Going.endWorker (h : Going r w id plan first arrived i k) {o : FanOut.Outcome}
    (told : Answers r w id k.signal k.query o) :
    Gathering r (w.endWorker (first + i) k o) id plan first arrived := by
  obtain ⟨⟨c, p, answers, here, gathering, same, gathers, hired, inside, new⟩, ⟨k₀, worker, alike⟩,
    query⟩ := h
  obtain ⟨p', here', same', gathers'⟩ :=
    gathers.endWorker here gathering worker alike hired query inside new (hired.signal ▸ told)
  refine ⟨_, p', _, here', rfl, same'.trans same, { gathers' with }⟩

/-- The worker is set, and nobody is going on any more. -/
theorem Gathers.settle (h : Gathers r (fun x => x = first + i) w id c plan first p answers)
    (here : w.task? id = some (.call c)) {k₀ : Worker}
    (worker : w.task? (first + i) = some (.worker k₀)) (alike : k₀.Alike k)
    (aborted : k.aborted = false) (small : i < plan.queries.length)
    (stands : Stands r (w.setTask (first + i) (.worker k)) p answers (first + i) k) :
    (w.setTask (first + i) (.worker k)).task? id = some (.call c) ∧
      Gathers r (fun _ => False) (w.setTask (first + i) (.worker k)) id c plan first p answers := by
  have other : first + i ≠ id := h.apart here small
  have employs : (w.setTask (first + i) (.worker k)).Employs k₀ k := fun wait calling => by
    obtain ⟨c', there, -⟩ := (stands.calls wait calling).call
    exact .inr ⟨c', there⟩
  refine ⟨(task?_setTask_ne _ other).trans here,
    (h.setWorker worker alike aborted small employs).close (fun going => absurd going.symm other)
      fun j k' _ there _ going _ => ?_⟩
  obtain rfl : j = i := Nat.add_left_cancel going
  cases (task?_setTask_self worker).symm.trans there
  exact stands

/-- What has come of a wait for a call. -/
theorem pollWait_cases {wait : Wait} {c : Call} (call : w.task? wait.call = some (.call c)) :
    (∃ e, c.phase = .over e ∧ w.pollWait wait = (some (e.outcome wait.tool), w.fire wait.own)) ∨
      (w.isStopped wait.signal = true ∧ w.pollWait wait =
        (some (.error ToolError.cancelled.failure), (w.abort wait.call).fire wait.own)) ∨
      ((∀ e, c.phase ≠ .over e) ∧ w.isStopped wait.signal ≠ true ∧
        w.pollWait wait = (none, w)) := by
  by_cases isOver : ∃ e, c.phase = .over e
  · obtain ⟨e, isOver⟩ := isOver
    obtain ⟨tool, inputs, unchecked, signal, limit, deadline, caller, aborted, phase⟩ := c
    cases isOver
    exact .inl ⟨e, rfl, by rw [pollWait, call]⟩
  · have unfinished (e : CallEnd) : c.phase ≠ .over e := fun h => isOver ⟨e, h⟩
    have waits : w.pollWait wait = if w.isStopped wait.signal then
        (some (.error ToolError.cancelled.failure), (w.abort wait.call).fire wait.own)
        else (none, w) := by
      rw [pollWait, call]
      split
      · next h =>
        cases h
        exact absurd rfl (unfinished _)
      · rfl
    by_cases stopped : w.isStopped wait.signal = true
    · exact .inr (.inl ⟨stopped, by rw [waits, if_pos stopped]⟩)
    · exact .inr (.inr ⟨unfinished, stopped, by rw [waits, if_neg stopped]⟩)

theorem Going.pollCalling (h : Going r w id plan first arrived i k) {wait : Wait} {c : Call}
    (tool : wait.tool = k.query.tool) (signal : wait.signal = k.signal)
    (call : w.task? wait.call = some (.call c)) (made : c.For r k.query)
    (caller : c.caller = first + i) :
    Gathering r (w.pollCalling (first + i) k wait) id plan first arrived := by
  have polled : Within (fun _ => False) w (w.pollWait wait).2 := within_pollWait ⟨c, call⟩
  unfold World.pollCalling
  rcases pollWait_cases call with ⟨e, isOver, heq⟩ | ⟨stopped, heq⟩ | ⟨unfinished, unstopped, heq⟩
  · rw [heq] at polled ⊢
    obtain ⟨c', there, grows, -⟩ := polled.calls _ _ call
    have maker : w.WorksFor id k.query c.caller := by
      obtain ⟨k₀, worker, alike⟩ := h.worker
      obtain ⟨_, _, _, _, _, _, _, hired, _⟩ := h.gathers
      exact caller ▸ ⟨k₀, worker, alike.gatherer.symm.trans hired.gatherer, alike.query.symm⟩
    have told : Answers r (w.fire wait.own) id k.signal k.query (e.outcome wait.tool) := by
      rw [tool]
      exact .dispatched (.called there (made.alike grows.toAlike)
        (grows.caller ▸ maker.within polled) (grows.isOver e isOver) (e.tells _))
    exact (h.within polled).endWorker told
  · rw [heq] at polled ⊢
    exact (h.within polled).endWorker (.stopped (polled.fired _ (signal ▸ stopped)))
  · rw [heq]
    obtain ⟨⟨c₀, p, answers, here, gathering, same, gathers, hired, inside, new⟩,
      ⟨k₀, worker, alike⟩, query⟩ := h
    have small : i < plan.queries.length := (List.getElem?_eq_some_iff.mp query).1
    have index : k.query.index = i := FanOut.indexed_of_plan gathers.planned i _ query
    have other : first + i ≠ wait.call := gathers.apart call small
    refine ⟨c₀, p, answers, ?_⟩
    have stands : Stands r (w.setTask (first + i) (.worker { k with phase := .calling wait })) p
        answers (first + i) { k with phase := .calling wait } := by
      refine ⟨⟨?_, ?_, ?_⟩, fun early => by simp at early, fun wait' calling => ?_⟩
      · rw [index]
        exact iff_of_true inside trivial
      · rw [index]
        exact iff_of_false (fun waits => gathers.order.apart i waits inside) (by simp)
      · rw [index]
        exact iff_of_false new (by simp)
      · cases calling
        refine ⟨tool, signal, ⟨c, (task?_setTask_ne _ other).trans call, made, caller,
          fun e isOver => absurd isOver (unfinished e)⟩, fun stopped => absurd stopped unstopped⟩
    obtain ⟨there, settled⟩ := gathers.settle here worker
      (alike.trans (k.alike_phase (.calling wait))) hired.aborted small stands
    exact ⟨there, gathering, same, settled⟩

theorem Going.beginCalling (h : Going r w id plan first arrived i k) :
    Gathering r (w.beginCalling r (first + i) k) id plan first arrived := by
  have started : Within (fun _ => False) w
      (startCall r w k.query.tool k.query.inputs k.signal none (first + i)).2 := within_startCall ..
  unfold World.beginCalling
  split
  · next f w₁ heq =>
    obtain ⟨unknown, rfl, rfl⟩ := startCall_error heq
    exact h.endWorker (.dispatched (.unknown unknown))
  · next wait w₁ heq =>
    obtain ⟨t, known, tool, signal, call⟩ := startCall_ok heq
    rw [heq] at started
    exact (h.within started).pollCalling tool signal call ⟨known, rfl, rfl, rfl⟩ rfl

/-- A worker asks for its turn, and has it or waits for it. -/
theorem Gathers.pollAsking (h : Gathers r (fun x => x = first + i) w id c plan first p answers)
    (here : w.task? id = some (.call c)) (gathering : c.phase = .gathering plan first p)
    (worker : w.task? (first + i) = some (.worker k)) (hired : Hired id c.signal k.query k)
    (query : plan.queries[i]? = some k.query) (placed : Placed p answers k)
    (fresh : k.phase = .fresh) :
    Gathering r (w.pollAsking r (first + i) k) id plan first p.arrived := by
  have small : i < plan.queries.length := (List.getElem?_eq_some_iff.mp query).1
  have index : k.query.index = i := FanOut.indexed_of_plan h.planned i _ query
  have other : first + i ≠ id := h.apart here small
  have outside : i ∉ p.inside := index ▸ fun inside => by
    simpa only [fresh, WorkerPhase.Admitted] using placed.inside.mp inside
  have idle : i ∉ p.waiting := index ▸ fun waits => by
    simpa only [fresh, reduceCtorEq] using placed.waiting.mp waits
  have new : i ∉ answers.map (·.1.index) := index ▸ placed.new (by simp [fresh])
  let c₁ : Call := { c with phase := .gathering plan first (p.request i) }
  have here₁ : (w.updateProgress id fun p => p.request i).task? id = some (.call c₁) := by
    rw [updateProgress_gathering here gathering]
    exact task?_setTask_self here
  have worker₁ : (w.updateProgress id fun p => p.request i).task? (first + i) =
      some (.worker k) := by
    rw [updateProgress_gathering here gathering]
    exact (task?_setTask_ne _ (Ne.symm other)).trans worker
  have asked : Gathers r (fun x => x = first + i) (w.updateProgress id fun p => p.request i) id c₁
      plan first (p.request i) answers :=
    { (h.updated here _).request rfl small outside idle with }
  have arrived := (p.request_keeps i).2.2
  have same : (w.updateProgress k.gatherer fun p => p.request k.query.index) =
      w.updateProgress id fun p => p.request i := by
    rw [hired.gatherer, index]
  have found : (w.updateProgress k.gatherer fun p => p.request k.query.index).progress?
      k.gatherer = some (first, p.request i) := by
    rw [same, hired.gatherer]
    exact progress?_gathering here₁ rfl
  unfold World.pollAsking
  dsimp only
  rw [found, same]
  dsimp only
  rw [index]
  split
  · next inside =>
    exact Going.beginCalling ⟨⟨c₁, p.request i, answers, here₁, rfl, arrived, asked,
      { hired with }, List.contains_iff_mem.mp inside, new⟩, ⟨k, worker₁, .refl k⟩, query⟩
  · next outside' =>
    have outside' : i ∉ (p.request i).inside := fun h => outside' (List.contains_iff_mem.mpr h)
    have waits := (FanOut.Progress.mem_request p i).resolve_left outside'
    obtain ⟨there, settled⟩ := asked.settle here₁ worker₁ (k.alike_phase .queued) hired.aborted
      small ⟨⟨iff_of_false (index ▸ outside') (fun h => h), iff_of_true (index ▸ waits) rfl,
        iff_of_false (index ▸ new) (by simp)⟩, fun early => by simp at early,
        fun wait calling => by cases calling⟩
    exact ⟨c₁, p.request i, answers, there, rfl, arrived, settled⟩

/-- **A worker that goes on** leaves the fan-out in order. -/
theorem Gathers.pollWorker (h : Gathers r (fun x => x = first + i) w id c plan first p answers)
    (here : w.task? id = some (.call c)) (gathering : c.phase = .gathering plan first p)
    (worker : w.task? (first + i) = some (.worker k)) (hired : Hired id c.signal k.query k)
    (query : plan.queries[i]? = some k.query) (placed : Placed p answers k)
    (waits : ∀ wait, k.phase = .calling wait → wait.tool = k.query.tool ∧ wait.signal = k.signal ∧
      ∃ c₁, w.task? wait.call = some (.call c₁) ∧ c₁.For r k.query ∧ c₁.caller = first + i) :
    Gathering r (w.pollWorker r (first + i) k) id plan first p.arrived := by
  have small : i < plan.queries.length := (List.getElem?_eq_some_iff.mp query).1
  have index : k.query.index = i := FanOut.indexed_of_plan h.planned i _ query
  have other : first + i ≠ id := h.apart here small
  have going (inside : i ∈ p.inside) (new : i ∉ answers.map (·.1.index)) :
      Going r w id plan first p.arrived i k :=
    ⟨⟨c, p, answers, here, gathering, rfl, h, hired, inside, new⟩, ⟨k, worker, .refl k⟩, query⟩
  -- a worker that does nothing stands as before
  have idle (unready : k.phase ≠ .fresh ∧ k.phase ≠ .admitted)
      (silent : ∀ wait, k.phase ≠ .calling wait) : Gathering r w id plan first p.arrived := by
    refine ⟨c, p, answers, here, gathering, rfl, h.close (fun going => absurd going.symm other)
      fun j k' _ there _ going _ => ?_⟩
    obtain rfl : j = i := Nat.add_left_cancel going
    cases worker.symm.trans there
    exact ⟨placed, fun early => by simp [unready] at early,
      fun wait calling => absurd calling (silent wait)⟩
  unfold World.pollWorker
  cases phase : k.phase with
  | fresh =>
    simp only [hired.aborted]
    exact h.pollAsking here gathering worker hired query placed phase
  | queued =>
    simp only [hired.aborted]
    exact idle (by simp [phase]) (by simp [phase])
  | admitted =>
    simp only [hired.aborted]
    have inside : i ∈ p.inside := index ▸ placed.inside.mpr (phase ▸ trivial)
    exact (going inside (index ▸ placed.new (by simp [phase]))).beginCalling
  | calling wait =>
    simp only [hired.aborted]
    obtain ⟨tool, signal, c₁, call, made, caller⟩ := waits wait phase
    have inside : i ∈ p.inside := index ▸ placed.inside.mpr (phase ▸ trivial)
    exact (going inside (index ▸ placed.new (by simp [phase]))).pollCalling tool signal call made
      caller
  | _ => exact idle (by simp [phase]) (by simp [phase])

end World
end Schedule
end Runbook
