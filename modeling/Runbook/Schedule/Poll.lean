import Runbook.Schedule.World

/-!
# How tasks go on

A call checks its inputs, works, and ends: with the result of the work, when its time is up, or
when it is given up. Work that is done at the very moment when the time is up counts as done. The
workers of a fan-out take turns: each asks for its turn, makes its call, and hands its turn on
before the fan-out looks at the result.
-/

set_option autoImplicit false

namespace Runbook.Schedule.World

/-! ## Calls -/

/-- Ends a call and wakes whoever made it. -/
def endCall (w : World) (id : TaskId) (c : Call) (e : CallEnd) : World :=
  (w.setTask id (.call { c with phase := .over e })).wake c.caller

/-- Gives up the workers of a fan-out that have not ended. -/
def abortWorkers (w : World) (first count : Nat) : World :=
  (List.range count).foldl (fun w i => w.abort (first + i)) w

/-- Ends a call after its work. -/
def completeWork (w : World) (id : TaskId) (c : Call) (work : Tool.Work) : World :=
  let w := w.note work.ended
  w.endCall id c <|
    match work.result with
    | .output o => .result (.ok o)
    | .error e => .result (.error e)
    | .panics => .panicked

/-- The time of the call is up. -/
def isLate (w : World) (c : Call) : Bool := c.deadline.any (· ≤ w.now)

/-- Ends a call whose time is up. -/
def endLate (w : World) (id : TaskId) (c : Call) : World :=
  w.endCall id c (.timedOut (c.limit.getD 0))

/-- Wakes the call when its time is up. -/
def setDeadline (w : World) (id : TaskId) (c : Call) : World :=
  match c.deadline with
  | some moment => w.setTimer moment id
  | none => w

/-- Goes on with work that waits until a moment. -/
def pollWaiting (w : World) (id : TaskId) (c : Call) (moment : Nat) (work : Tool.Work) : World :=
  if moment ≤ w.now then w.completeWork id c work
  else if work.heedsStop && w.isStopped c.signal then
    w.endCall id c (.result (.error .cancelled))
  else if w.isLate c then w.endLate id c
  else w

/-- Begins the work of a tool alone. -/
def beginAlone (w : World) (id : TaskId) (c : Call) (work : Tool.Work) : World :=
  let w := w.note work.began
  match work.delay with
  | none => w.completeWork id c work
  | some ms =>
      let moment := w.now + ms
      let c := { c with phase := .waiting moment work }
      let w' := (w.setTask id (.call c)).pollWaiting id c moment work
      match w'.task? id with
      | some (.call { phase := .waiting .., .. }) => (w'.setTimer moment id).setDeadline id c
      | _ => w'

/-- Goes on with a fan-out: looks at what has finished, and ends when all has arrived. -/
def pollGathering (w : World) (id : TaskId) (c : Call) (plan : FanOut.Plan) (first : TaskId)
    (p : FanOut.Progress) : World :=
  match FanOut.Progress.look plan.failFast p.arrived p.finished with
  | .error e =>
      ((w.fire c.signal).abortWorkers first plan.queries.length).endCall id c (.result (.error e))
  | .ok arrived =>
      if arrived.length = plan.queries.length then
        w.endCall id c (.result (.ok (FanOut.assemble plan arrived)))
      else if w.isLate c then (w.abortWorkers first plan.queries.length).endLate id c
      else
        w.setTask id (.call { c with phase := .gathering plan first { p with arrived, finished := [] } })

/-- Begins a fan-out: one worker for each query. -/
def beginFanOut (w : World) (r : Registry) (id : TaskId) (c : Call) : World :=
  match FanOut.plan r.maxFanOut c.inputs with
  | .error e => w.endCall id c (.result (.error e))
  | .ok plan =>
      let first := w.tasks.size
      let w := plan.queries.foldl
        (fun w q => (w.spawn (.worker { gatherer := id, query := q, signal := c.signal })).2) w
      let p : FanOut.Progress := { workers := plan.workers }
      (w.pollGathering id c plan first p).setDeadline id c

/-- Begins the work of a call whose inputs have been accepted. -/
def begin (w : World) (r : Registry) (id : TaskId) (c : Call) : World :=
  let c := { c with deadline := c.limit.map (w.now + ·) }
  match c.tool.body with
  | .alone work => w.beginAlone id c (work c.inputs)
  | .fanOut => w.beginFanOut r id c

/-- Checks the inputs of a call and begins its work. -/
def pollFresh (w : World) (r : Registry) (id : TaskId) (c : Call) : World :=
  if c.unchecked then w.begin r id c
  else
    match c.tool.check c.inputs with
    | .accepted => w.begin r id c
    | .rejected e => w.endCall id c (.result (.error e))
    | .panics => w.endCall id c .panicked

/-- Ends a call that was given up. -/
def endAborted (w : World) (id : TaskId) (c : Call) : World :=
  let w := match c.phase with
    | .gathering plan first _ => w.abortWorkers first plan.queries.length
    | _ => w
  w.endCall id c .aborted

def pollCall (w : World) (r : Registry) (id : TaskId) (c : Call) : World :=
  match c.phase with
  | .over _ => w
  | phase =>
      if c.aborted then w.endAborted id c
      else
        match phase with
        | .fresh => w.pollFresh r id c
        | .waiting moment work => w.pollWaiting id c moment work
        | .gathering plan first p => w.pollGathering id c plan first p
        | .over _ => w

/-! ## Workers -/

/-- Changes the progress of a fan-out that is still gathering. -/
def updateProgress (w : World) (id : TaskId) (f : FanOut.Progress → FanOut.Progress) : World :=
  match w.task? id with
  | some (.call c) =>
      match c.phase with
      | .gathering plan first p => w.setTask id (.call { c with phase := .gathering plan first (f p) })
      | _ => w
  | _ => w

/-- The progress of a fan-out that is still gathering, and the task of its first worker. -/
def progress? (w : World) (id : TaskId) : Option (TaskId × FanOut.Progress) :=
  match w.task? id with
  | some (.call c) =>
      match c.phase with
      | .gathering _ first p => some (first, p)
      | _ => none
  | _ => none

/-- Gives a worker its turn. -/
def giveTurn (w : World) (id : TaskId) : World :=
  match w.task? id with
  | some (.worker k) =>
      match k.phase with
      | .queued => (w.setTask id (.worker { k with phase := .admitted })).wake id
      | _ => w
  | _ => w

/-- Hands the turn of a worker on. -/
def handOn (w : World) (k : Worker) : World :=
  match w.progress? k.gatherer with
  | none => w
  | some (first, p) =>
      let w := w.updateProgress k.gatherer fun p => p.release k.query.index
      match p.next? with
      | some i => w.giveTurn (first + i)
      | none => w

/-- Ends a worker with the outcome of its query. -/
def endWorker (w : World) (id : TaskId) (k : Worker) (o : FanOut.Outcome) : World :=
  let w := w.setTask id (.worker { k with phase := .over })
  let w := w.handOn k
  (w.updateProgress k.gatherer fun p => { p with finished := p.finished ++ [(k.query, o)] }).wake
    k.gatherer

/-- Ends a worker that was given up. -/
def endAbortedWorker (w : World) (id : TaskId) (k : Worker) : World :=
  let w := w.setTask id (.worker { k with phase := .over })
  match k.phase with
  | .calling wait => (w.dropWait wait).handOn k
  | .admitted => w.handOn k
  | .queued => w.updateProgress k.gatherer fun p => { p with waiting := p.waiting.erase k.query.index }
  | _ => w

/-- Looks after the call of a worker. -/
def pollCalling (w : World) (id : TaskId) (k : Worker) (wait : Wait) : World :=
  match w.pollWait wait with
  | (some o, w) => w.endWorker id k o
  | (none, w) => w.setTask id (.worker { k with phase := .calling wait })

/-- Makes the call of a worker that has its turn. -/
def beginCalling (w : World) (r : Registry) (id : TaskId) (k : Worker) : World :=
  match w.startCall r k.query.tool k.query.inputs k.signal none id with
  | (.error f, w) => w.endWorker id k (.error f)
  | (.ok wait, w) => w.pollCalling id k wait

/-- A worker asks for its turn. -/
def pollAsking (w : World) (r : Registry) (id : TaskId) (k : Worker) : World :=
  let i := k.query.index
  let w := w.updateProgress k.gatherer fun p => p.request i
  match w.progress? k.gatherer with
  | none => w.setTask id (.worker { k with phase := .over })
  | some (_, p) =>
      if p.inside.contains i then w.beginCalling r id k
      else w.setTask id (.worker { k with phase := .queued })

def pollWorker (w : World) (r : Registry) (id : TaskId) (k : Worker) : World :=
  match k.phase with
  | .over => w
  | phase =>
      if k.aborted then w.endAbortedWorker id k
      else
        match phase with
        | .fresh => w.pollAsking r id k
        | .admitted => w.beginCalling r id k
        | .calling wait => w.pollCalling id k wait
        | _ => w

/-! ## The schedule -/

/-- What the world came to. -/
inductive Pause where
  /-- Nothing can go on at this moment. -/
  | quiet
  /-- Someone outside can go on. -/
  | client (id : TaskId)

/-- Lets the first task that can go on do so. -/
def step (w : World) (r : Registry) : Option Pause × World :=
  match w.ready with
  | [] => (some .quiet, w)
  | id :: ready =>
      let w := { w with ready }
      match w.task? id with
      | some (.call c) => (none, w.pollCall r id c)
      | some (.worker k) => (none, w.pollWorker r id k)
      | some (.client _) => (some (.client id), w)
      | none => (none, w)

/-- Lets tasks go on until nothing can at this moment, or someone outside can. -/
def settle (r : Registry) : (fuel : Nat) → World → Pause × World
  | 0, w => (.quiet, w)
  | fuel + 1, w =>
      match w.step r with
      | (some pause, w) => (pause, w)
      | (none, w) => settle r fuel w

/-- Lets time pass, up to and including the horizon, until someone outside can go on. -/
def run (r : Registry) (horizon : Nat) : (fuel : Nat) → World → Option TaskId × World
  | 0, w => (none, w)
  | fuel + 1, w =>
      match w.settle r fuel with
      | (.client id, w) => (some id, w)
      | (.quiet, w) =>
          match w.ready, w.timers with
          | [], t :: _ =>
              if horizon < t.moment then (none, w)
              else
                match w.advance? with
                | some w => run r horizon fuel w
                | none => (none, w)
          | _, _ => (none, w)

end Runbook.Schedule.World
