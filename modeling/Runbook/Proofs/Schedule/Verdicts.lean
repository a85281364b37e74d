import Runbook.Proofs.Schedule.Tally
import Runbook.Proofs.Tool.Queries
import Runbook.Tool.Echo

/-!
# What a call of a tool alone comes to

A tool that works alone does so out of its inputs. Whoever has made the call, and in whatever order
things happen, the call ends with what the check of the inputs or the work says, if it is not given
up or told to stop, and if its time is not up before the work is done (`comes_of_moves`).

The call that is made for a query of a fan-out and the call of a step with the same tool are calls
alike, but for their inputs: the query's are those of the step in another order, if the table is not
orderly. With orderly tables both come to the same.
-/

set_option autoImplicit false

namespace Runbook

/-- The end that the work is for its call. -/
def Tool.WorkEnd.callEnd : Tool.WorkEnd → Schedule.CallEnd
  | .output o => .result (.ok o)
  | .error e => .result (.error e)
  | .panics => .panicked

/-- What the end of the work is for whoever made the call. -/
inductive Tool.WorkEnd.Tells (tool : String) :
    Tool.WorkEnd → Except Failure ToolOutput → Prop where
  | output (o : ToolOutput) : Tells tool (.output o) (.ok o)
  | error {e : ToolError} {f : Failure} (h : e.Tells f) : Tells tool (.error e) (.error f)
  | panics : Tells tool .panics (.error ⟨.panicked, s!"tool '{tool}' panicked"⟩)

theorem Tool.WorkEnd.tells (x : Tool.WorkEnd) (tool : String) :
    x.Tells tool (x.callEnd.outcome tool) := by
  cases x with
  | output o => exact .output o
  | error e => exact .error e.tells
  | panics => exact .panics

/-- What the check of the inputs says, or else the work. -/
def Tool.verdict (t : Tool) (work : Tool.Work) (inputs : Fields Json) : Schedule.CallEnd :=
  match t.check inputs with
  | .accepted => work.result.callEnd
  | .rejected e => .result (.error e)
  | .panics => .panicked

namespace Schedule

/-- The ends of a call with the work; `stopped` says that its signal has fired. -/
inductive Comes (t : Tool) (work : Tool.Work) (inputs : Fields Json) (limit : Option Nat)
    (stopped : Prop) : CallEnd → Prop where
  | verdict : Comes t work inputs limit stopped (t.verdict work inputs)
  | aborted : Comes t work inputs limit stopped .aborted
  | stopped (heeds : work.heedsStop = true) (h : stopped) :
      Comes t work inputs limit stopped (.result (.error .cancelled))
  /-- The work takes longer than it may. -/
  | late {ms delay : Nat} (accepted : t.check inputs = .accepted) (limited : limit = some ms)
      (delayed : work.delay = some delay) (long : ms < delay) :
      Comes t work inputs limit stopped (.timedOut ms)

theorem Comes.imp {t : Tool} {work : Tool.Work} {inputs : Fields Json} {limit : Option Nat}
    {stopped stopped' : Prop} {e : CallEnd} (h : Comes t work inputs limit stopped e)
    (more : stopped → stopped') : Comes t work inputs limit stopped' e := by
  cases h with
  | verdict => exact .verdict
  | aborted => exact .aborted
  | stopped heeds h => exact .stopped heeds (more h)
  | late accepted limited delayed long => exact .late accepted limited delayed long

namespace World

variable {r : Registry} {w w' : World} {id x : TaskId} {c c' : Call} {work : Fields Json → Tool.Work}

/-- The call is checked, and its tool works alone. -/
structure WorksAlone (c : Call) (work : Fields Json → Tool.Work) : Prop where
  body : c.tool.body = .alone work
  checked : c.unchecked = false

/-- The tool of the call works alone, and its check would accept the inputs if it is left out. -/
structure WorksChecked (c : Call) (work : Fields Json → Tool.Work) : Prop where
  body : c.tool.body = .alone work
  accepted : c.unchecked = true → c.tool.check c.inputs = .accepted

theorem WorksAlone.worksChecked (h : WorksAlone c work) : WorksChecked c work :=
  ⟨h.body, by simp [h.checked]⟩

theorem WorksChecked.alike (h : WorksChecked c work) (alike : c.Alike c') : WorksChecked c' work := by
  refine ⟨alike.tool ▸ h.body, fun unchecked => ?_⟩
  rw [alike.tool, alike.inputs]
  exact h.accepted (alike.unchecked.symm.trans unchecked)

/-- How far the call has come, and what it has come to. -/
structure Underway (w : World) (c : Call) (work : Fields Json → Tool.Work) : Prop where
  waiting : ∀ moment job, c.phase = .waiting moment job → job = work c.inputs ∧
    c.tool.check c.inputs = .accepted ∧ ∃ start delay, job.delay = some delay ∧
      moment = start + delay ∧ c.deadline = c.limit.map (start + ·)
  gathering : ∀ plan first p, c.phase ≠ .gathering plan first p
  ended : ∀ e, c.phase = .over e →
    Comes c.tool (work c.inputs) c.inputs c.limit (w.isStopped c.signal = true) e

theorem underway_of_fresh (fresh : c.phase = .fresh) : Underway w c work :=
  ⟨by simp [fresh], by simp [fresh], by simp [fresh]⟩

theorem underway_of_over {e : CallEnd} (isOver : c.phase = .over e)
    (comes : Comes c.tool (work c.inputs) c.inputs c.limit (w.isStopped c.signal = true) e) :
    Underway w c work := by
  refine ⟨by simp [isOver], by simp [isOver], fun e' isOver' => ?_⟩
  cases isOver.symm.trans isOver'
  exact comes

theorem Underway.kept (h : Underway w c work) (kept : (Task.call c).Kept (.call c'))
    (stopped : ∀ s, w.isStopped s = true → w'.isStopped s = true) : Underway w' c' work := by
  cases kept with
  | same => exact ⟨h.waiting, h.gathering, fun e isOver => (h.ended e isOver).imp (stopped _)⟩
  | aborted => exact ⟨h.waiting, h.gathering, fun e isOver => (h.ended e isOver).imp (stopped _)⟩

/-! ## 1. The call goes on -/

/-- The call is there, and has come so far. -/
def IsUnderway (w : World) (id : TaskId) (c : Call) (work : Fields Json → Tool.Work) : Prop :=
  ∃ c', w.task? id = some (.call c') ∧ c.Alike c' ∧ Underway w c' work

theorem underway_endCall (here : w.Open id c) {e : CallEnd}
    (comes : Comes c.tool (work c.inputs) c.inputs c.limit (w.isStopped c.signal = true) e) :
    IsUnderway (w.endCall id c e) id c work := by
  refine ⟨_, task?_endCall here e, c.alike_phase _, underway_of_over rfl (comes.imp fun stopped => ?_)⟩
  rwa [isStopped, endCall, fired_wake]

theorem underway_completeWork (here : w.Open id c) (accepted : c.tool.check c.inputs = .accepted) :
    IsUnderway (w.completeWork id c (work c.inputs)) id c work := by
  have still : (w.note (work c.inputs).ended).Open id c := here
  have comes : Comes c.tool (work c.inputs) c.inputs c.limit
      ((w.note (work c.inputs).ended).isStopped c.signal = true) (work c.inputs).result.callEnd := by
    have verdict : c.tool.verdict (work c.inputs) c.inputs = (work c.inputs).result.callEnd := by
      rw [Tool.verdict, accepted]
    exact verdict ▸ .verdict
  exact underway_endCall still comes

/-- Work that waits, since `start`. -/
structure WaitsSince (c : Call) (work : Fields Json → Tool.Work) (start delay : Nat) : Prop where
  accepted : c.tool.check c.inputs = .accepted
  delayed : (work c.inputs).delay = some delay
  deadline : c.deadline = c.limit.map (start + ·)
  phase : c.phase = .waiting (start + delay) (work c.inputs)

theorem underway_pollWaiting {start delay : Nat} (there : w.task? id = some (.call c))
    (waits : WaitsSince c work start delay) :
    IsUnderway (w.pollWaiting id c (start + delay) (work c.inputs)) id c work := by
  have here : w.Open id c := ⟨c, there, by simp [waits.phase], .refl c⟩
  unfold pollWaiting
  split
  · exact underway_completeWork here waits.accepted
  · next early =>
    split
    · next stops =>
      simp only [Bool.and_eq_true] at stops
      exact underway_endCall here (.stopped stops.1 stops.2)
    · split
      · next late =>
        unfold isLate at late
        rw [waits.deadline] at late
        cases limited : c.limit with
        | none =>
          rw [limited] at late
          cases late
        | some ms =>
          simp only [limited, Option.map_some, Option.any_some, decide_eq_true_eq] at late
          have long : ms < delay := by omega
          refine underway_endCall here ?_
          rw [limited]
          exact .late waits.accepted rfl waits.delayed long
      · refine ⟨c, there, .refl c, fun moment job now => ?_, by simp [waits.phase],
          by simp [waits.phase]⟩
        cases waits.phase.symm.trans now
        exact ⟨rfl, waits.accepted, start, delay, waits.delayed, rfl, waits.deadline⟩

theorem IsUnderway.alike (h : IsUnderway w id c' work) (alike : c.Alike c') :
    IsUnderway w id c work := by
  obtain ⟨c'', there, alike', underway⟩ := h
  exact ⟨c'', there, alike.trans alike', underway⟩

theorem IsUnderway.of_tasks (h : IsUnderway w id c work) (tasks : w'.tasks = w.tasks)
    (fired : w'.fired = w.fired) : IsUnderway w' id c work := by
  obtain ⟨c', there, alike, underway⟩ := h
  refine ⟨c', (congrArg (·[id]?) tasks).trans there, alike, underway.kept (.same _) fun s h => ?_⟩
  rwa [isStopped, fired]

theorem underway_beginAlone (here : w.Open id c) (accepted : c.tool.check c.inputs = .accepted)
    (deadline : c.deadline = c.limit.map (w.now + ·)) :
    IsUnderway (w.beginAlone id c (work c.inputs)) id c work := by
  unfold beginAlone
  dsimp only
  split
  · exact underway_completeWork (w := w.note (work c.inputs).began) here accepted
  · next delay delayed =>
    obtain ⟨c₀, before, -, -⟩ := here
    let c₁ : Call := { c with phase := .waiting (w.now + delay) (work c.inputs) }
    have set : ((w.note (work c.inputs).began).setTask id (.call c₁)).task? id = some (.call c₁) :=
      task?_setTask_self (w := w.note (work c.inputs).began) before
    have polled : IsUnderway
        (((w.note (work c.inputs).began).setTask id (.call c₁)).pollWaiting id c₁ (w.now + delay)
          (work c.inputs)) id c work :=
      (underway_pollWaiting set ⟨accepted, delayed, deadline, rfl⟩).alike (c.alike_phase c₁.phase)
    split
    · refine polled.of_tasks ?_ ?_ <;> (unfold setDeadline; split <;> rfl)
    · exact polled

/-- **A call of a tool alone** goes on, and has come so far. -/
theorem underway_pollCall (here : w.task? id = some (.call c)) (alone : WorksChecked c work)
    (underway : Underway w c work) : IsUnderway (w.pollCall r id c) id c work := by
  by_cases isOver : ∃ e, c.phase = .over e
  · obtain ⟨e, isOver⟩ := isOver
    have same : w.pollCall r id c = w := by
      unfold pollCall
      simp only [isOver]
    rw [same]
    exact ⟨c, here, .refl c, underway⟩
  have open_ : w.Open id c := ⟨c, here, fun e h => isOver ⟨e, h⟩, .refl c⟩
  unfold pollCall
  split
  · next e now => exact absurd ⟨e, now⟩ isOver
  · split
    · unfold endAborted
      dsimp only
      split
      · next plan first p now => exact absurd now (underway.gathering plan first p)
      · exact underway_endCall open_ .aborted
    · split
      · next fresh =>
        have refused {e : CallEnd} (h : c.tool.verdict (work c.inputs) c.inputs = e) :
            IsUnderway (w.endCall id c e) id c work := underway_endCall open_ (h ▸ .verdict)
        have begins (accepted : c.tool.check c.inputs = .accepted) :
            IsUnderway (w.begin r id c) id c work := by
          have timed : c.Alike { c with deadline := c.limit.map (w.now + ·) } :=
            ⟨rfl, rfl, rfl, rfl, rfl, rfl⟩
          unfold begin
          dsimp only
          rw [alone.body]
          exact (underway_beginAlone (open_.alike timed) accepted rfl).alike timed
        unfold pollFresh
        split
        · next unchecked => exact begins (alone.accepted unchecked)
        · split
          · next accepted => exact begins accepted
          · next e rejected => exact refused (by rw [Tool.verdict, rejected])
          · next panics => exact refused (by rw [Tool.verdict, panics])
      · next moment job now =>
        obtain ⟨rfl, accepted, start, delay, delayed, rfl, deadline⟩ :=
          underway.waiting moment job now
        exact underway_pollWaiting here ⟨accepted, delayed, deadline, now⟩
      · next plan first p now => exact absurd now (underway.gathering plan first p)
      · next e now => exact absurd ⟨e, now⟩ isOver

/-! ## 2. A move -/

/-- **One move**: every call of the tool has come so far. -/
theorem underway_of_move (sane : Sane r none w) (move : Move r w w')
    (crew : ∀ x k c, w.task? x = some (.worker k) → w.task? k.gatherer = some (.call c) →
      c.tool.body = .fanOut)
    (before : ∀ x c, w.task? x = some (.call c) → WorksChecked c work → Underway w c work)
    (x : TaskId) (c : Call) (there : w'.task? x = some (.call c)) (alone : WorksChecked c work) :
    Underway w' c work := by
  rcases moved_of_move sane move there with fresh | ⟨c₀, first, alike, moved⟩
  · exact underway_of_fresh fresh
  have alone₀ := alone.alike alike.symm
  have underway := before x c₀ first alone₀
  cases moved with
  | @own ready _ goes =>
    subst goes
    obtain ⟨waiting, gathering, ended⟩ := underway
    obtain ⟨c₁, after, -, underway⟩ := underway_pollCall (r := r) (w := { w with ready }) first
      alone₀ ⟨waiting, gathering, ended⟩
    cases there.symm.trans after
    exact underway
  | kept kept => exact underway.kept kept fun s => stopped_of_move sane move
  | @worker me k worker employs =>
    -- a tool that works alone has no workers
    have body := crew me k c₀ worker (employs ▸ first)
    cases body.symm.trans alone₀.body

theorem underway_of_moves (reached : Moves r {} w) :
    ∀ x c, w.task? x = some (.call c) → WorksChecked c work → Underway w c work := by
  induction reached with
  | refl => exact fun x c there => by simp [task?] at there
  | tail before move ih =>
    have before : Moves r {} _ := before
    exact underway_of_move (before.sane (sane_empty r)) move
      (fun _ _ _ worker call => before.crew worker call) ih

/-- A call comes to what the check or the work says, also if it is not checked but would pass. -/
theorem comes_of_worksChecked (reached : Moves r {} w) (there : w.task? x = some (.call c))
    (alone : WorksChecked c work) {e : CallEnd} (isOver : c.phase = .over e) :
    Comes c.tool (work c.inputs) c.inputs c.limit (w.isStopped c.signal = true) e :=
  (underway_of_moves reached x c there alone).ended e isOver

/-- **A call of a tool alone comes to what the check or the work says**, if nothing gets in its way. -/
theorem comes_of_moves (reached : Moves r {} w) (there : w.task? x = some (.call c))
    (alone : WorksAlone c work) {e : CallEnd} (isOver : c.phase = .over e) :
    Comes c.tool (work c.inputs) c.inputs c.limit (w.isStopped c.signal = true) e :=
  comes_of_worksChecked reached there alone.worksChecked isOver

end World

/-! ## 3. A query and a step of its own -/

open FanOut (Query Orderly named declared)

/-- The query with its inputs in the order in which they are declared. -/
def asDeclared (index : Nat) (fs : Fields Json) : Query :=
  { index, tool := named fs, inputs := declared fs }

namespace World

variable {r : Registry} {w w' : World} {x : TaskId} {c c' : Call} {e e' : CallEnd} {t : Tool}
  {work : Fields Json → Tool.Work} {q : Query}

/-- The call has not been given up, was not late, and had not been told to stop when it ended. (It is
told to stop afterwards: whoever waits for it fires its signal when it has the outcome.) -/
structure Undisturbed (r : Registry) (w : World) (x : TaskId) (e : CallEnd) : Prop where
  kept : e ≠ .aborted
  timely : ∀ ms, e ≠ .timedOut ms
  unstopped : ∃ m c, Moves r {} m ∧ Moves r m w ∧ m.task? x = some (.call c) ∧ c.phase = .over e ∧
    m.isStopped c.signal = false

/-- What a call for a query comes to. -/
theorem comes_of_for (known : r.tool? q.tool = some t) (alone : t.body = .alone work)
    (reached : Moves r {} w) (there : w.task? x = some (.call c)) (made : c.For r q)
    (isOver : c.phase = .over e) :
    Comes t (work q.inputs) q.inputs (r.timeoutFor q.tool) (w.isStopped c.signal = true) e := by
  have tool : c.tool = t := Option.some.inj (made.tool.symm.trans known)
  have comes := comes_of_moves reached there ⟨tool ▸ alone, made.checked⟩ isOver
  rwa [tool, made.inputs, made.limit] at comes

/-- What it comes to if nothing gets in its way. -/
theorem Undisturbed.verdict (free : Undisturbed r w x e) (known : r.tool? q.tool = some t)
    (alone : t.body = .alone work) (there : w.task? x = some (.call c)) (made : c.For r q) :
    e = t.verdict (work q.inputs) q.inputs := by
  obtain ⟨m, c₀, reached, later, here, isOver, unstopped⟩ := free.unstopped
  obtain ⟨c₁, there', grows⟩ := later.call (reached.sane (sane_empty r)) here
  cases there.symm.trans there'
  cases comes_of_for known alone reached here (made.alike grows.toAlike.symm) isOver with
  | verdict => rfl
  | aborted => exact absurd rfl free.kept
  | stopped _ stopped => cases unstopped.symm.trans stopped
  | late => exact absurd rfl (free.timely _)

/-- **A query of a fan-out and a step of its own.** The tool that a query names receives the other
entries of the query, in the order in which they are declared just if the table is orderly. The
outcome of the query is that of the call that its worker has made. If the table is orderly, it is
what a call with the declared inputs comes to, whenever and wherever that is made, if neither is
disturbed. -/
theorem query_as_step (index : Nat) {fs : Fields Json} (distinct : fs.names.Nodup)
    (known : r.tool? (named fs) = some t) (alone : t.body = .alone work) :
    let q := Query.ofFields index fs
    q.tool = named fs ∧ q.inputs.Perm (declared fs) ∧ (q.inputs = declared fs ↔ Orderly fs) ∧
      (∀ w id o, Dispatched r w id q o → ∃ x c e, w.task? x = some (.call c) ∧ c.For r q ∧
        w.WorksFor id q c.caller ∧ c.phase = .over e ∧ o = e.outcome (named fs)) ∧
      ∀ w x c e w' x' c' e',
        Moves r {} w → w.task? x = some (.call c) → c.For r q → c.phase = .over e →
        Moves r {} w' → w'.task? x' = some (.call c') → c'.For r (asDeclared index fs) →
          c'.phase = .over e' →
        Comes t (work q.inputs) q.inputs (r.timeoutFor (named fs)) (w.isStopped c.signal = true) e ∧
          Comes t (work (declared fs)) (declared fs) (r.timeoutFor (named fs))
            (w'.isStopped c'.signal = true) e' ∧
          (Undisturbed r w x e → Undisturbed r w' x' e' →
            e = t.verdict (work q.inputs) q.inputs ∧ e' = t.verdict (work (declared fs)) (declared fs) ∧
              (Orderly fs → e = e')) := by
  intro q
  have tool : q.tool = named fs := FanOut.tool_ofFields index fs
  have found : r.tool? q.tool = some t := tool.symm ▸ known
  obtain ⟨perm, same⟩ := FanOut.inputs_ofFields index distinct
  refine ⟨tool, perm, same, ?_, ?_⟩
  · intro w id o dispatched
    cases dispatched with
    | unknown unknown => cases found.symm.trans unknown
    | called here made maker isOver told =>
      exact ⟨_, _, _, here, made, maker, isOver, tool ▸ told.eq_outcome⟩
  · intro w x c e w' x' c' e' reached here made isOver reached' here' made' isOver'
    refine ⟨?_, comes_of_for (q := asDeclared index fs) known alone reached' here' made' isOver',
      fun free free' => ?_⟩
    · rw [← tool]
      exact comes_of_for found alone reached here made isOver
    · have verdict := free.verdict found alone here made
      have verdict' : e' = t.verdict (work (declared fs)) (declared fs) :=
        free'.verdict (q := asDeclared index fs) known alone here' made'
      refine ⟨verdict, verdict', fun orderly => ?_⟩
      rw [verdict, verdict', same.mpr orderly]

/-- The second of the queries. -/
def secondQuery : Fields Json := [("tool", .str "say"), ("text", .str "two")]

/-- The call of a step with its inputs. -/
def sayStep : Call :=
  { tool := sayTool, inputs := declared secondQuery, signal := [], limit := none, caller := 0 }

/-- The call has ended. -/
def stepWorld : World := ((spawn {} (.call sayStep)).2.step sayRegistry).2

/-- The call for the second query has ended as well, and its worker has not been told yet. -/
def answeredWorld : World := ((spawn {} (.call sayCall)).2.settle sayRegistry 5).2

theorem query_as_step_say :
    ∃ c e c' e', secondQuery.names.Nodup ∧ sayRegistry.tool? (named secondQuery) = some sayTool ∧
      Moves sayRegistry {} answeredWorld ∧ answeredWorld.task? 4 = some (.call c) ∧
      c.For sayRegistry (Query.ofFields 1 secondQuery) ∧ c.phase = .over e ∧
      Moves sayRegistry {} stepWorld ∧ stepWorld.task? 0 = some (.call c') ∧
      c'.For sayRegistry (asDeclared 1 secondQuery) ∧ c'.phase = .over e' ∧ Orderly secondQuery ∧
      Undisturbed sayRegistry answeredWorld 4 e ∧ Undisturbed sayRegistry stepWorld 0 e' ∧ e = e' := by
  have fanOut : Moves sayRegistry {} (spawn {} (.call sayCall)).2 := (Move.make rfl).moves
  obtain ⟨_, _, passes, rfl⟩ := passes_settle
    (rfl : (spawn {} (.call sayCall)).2.settle sayRegistry 5 = (.quiet, answeredWorld))
  have reached : Moves sayRegistry {} answeredWorld := fanOut.trans (moves_of_passes passes)
  have alone : Moves sayRegistry {} (spawn {} (.call sayStep)).2 := (Move.make rfl).moves
  have reached' : Moves sayRegistry {} stepWorld := alone.trans (move_of_step rfl).moves
  obtain ⟨c, o, here, made, isOver, unstopped⟩ : ∃ c o, answeredWorld.task? 4 = some (.call c) ∧
      c.For sayRegistry (Query.ofFields 1 secondQuery) ∧ c.phase = .over (.result (.ok o)) ∧
        answeredWorld.isStopped c.signal = false :=
    ⟨_, _, rfl, ⟨rfl, rfl, rfl, rfl⟩, rfl, rfl⟩
  obtain ⟨c', o', here', made', isOver', unstopped'⟩ : ∃ c' o', stepWorld.task? 0 = some (.call c') ∧
      c'.For sayRegistry (asDeclared 1 secondQuery) ∧ c'.phase = .over (.result (.ok o')) ∧
        stepWorld.isStopped c'.signal = false :=
    ⟨_, _, rfl, ⟨rfl, rfl, rfl, rfl⟩, rfl, rfl⟩
  have distinct : secondQuery.names.Nodup := by decide
  have orderly : Orderly secondQuery := ⟨by decide, by decide⟩
  have free : Undisturbed sayRegistry answeredWorld 4 (.result (.ok o)) :=
    ⟨by simp, by simp, answeredWorld, c, reached, .refl _, here, isOver, unstopped⟩
  have free' : Undisturbed sayRegistry stepWorld 0 (.result (.ok o')) :=
    ⟨by simp, by simp, stepWorld, c', reached', .refl _, here', isOver', unstopped'⟩
  obtain ⟨-, -, -, -, agree⟩ := query_as_step (r := sayRegistry) 1 distinct rfl rfl
  obtain ⟨-, -, same⟩ := agree _ _ _ _ _ _ _ _ reached here made isOver reached' here' made' isOver'
  obtain ⟨-, -, same⟩ := same free free'
  exact ⟨c, _, c', _, distinct, rfl, reached, here, made, isOver, reached', here', made', isOver',
    orderly, free, free', same orderly⟩

/-- The fan-out beside the tool that says its first input. -/
def echoRegistry : Registry := (({} : Registry).register FanOut.tool).register Tool.echo

/-- Two inputs behind the tool. -/
def movedQuery : Fields Json := [("tool", .str "echo"), ("a", .str "1"), ("b", .str "2")]

/-- **The tool says another input** than it says as a step of its own. -/
theorem query_moved :
    ((dispatch echoRegistry "echo" (declared movedQuery) none none).map
        (·.outcome.map (·.output))) = some (.ok "1") ∧
      ((dispatch echoRegistry "parallel_query" [("queries", .arr [.obj movedQuery])] none none).map
        (·.outcome.map (·.outputs.map (·.output)))) = some (.ok ["2"]) := by
  exact ⟨rfl, rfl⟩

end World
end Schedule
end Runbook
