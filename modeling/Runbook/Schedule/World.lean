import Runbook.Decimal.Shortest
import Runbook.Tool.FanOut
import Runbook.Tool.Registry

/-!
# Tasks in virtual time

Tool calls run as tasks on one thread. Time is a number of milliseconds that moves only when no
task can go on, and then to the next moment that some task waits for. Tasks that can go on at the
same moment do so in the order in which they became able to.

A call is stopped by its signal. Signals form a tree: whoever makes a call has a signal, the call
gets one below it, and firing a signal fires all below. A signal is named by its path to the root,
so the tree is in the names.
-/

set_option autoImplicit false

namespace Runbook.Schedule

abbrev TaskId := Nat

/-- A signal: its own number in front of the signal above it. -/
abbrev Signal := List Nat

/-- How a tool call ended. -/
inductive CallEnd where
  | result (r : Except ToolError ToolOutput)
  | timedOut (limitMs : Nat)
  | panicked
  /-- The call was given up before it came to an end. -/
  | aborted

/-- Seconds as a decimal: `1.5` for 1500 milliseconds. -/
def secondsText (ms : Nat) : String :=
  Decimal.plain64 ((ms / 1000).toUInt64.toFloat +
    (ms % 1000 * 1000000).toUInt64.toFloat / 1000000000.0)

/-- What the end of a call is for whoever made it. -/
def CallEnd.outcome (tool : String) : CallEnd → Except Failure ToolOutput
  | .result (.ok o) => .ok o
  | .result (.error e) => .error e.failure
  | .timedOut ms =>
      .error ⟨.timeout, s!"tool '{tool}' did not finish within {secondsText ms}s"⟩
  | .panicked => .error ⟨.panicked, s!"tool '{tool}' panicked"⟩
  | .aborted => .error ToolError.cancelled.failure

/-- A call that someone waits for. -/
structure Wait where
  tool : String
  call : TaskId
  /-- The signal of whoever waits. -/
  signal : Signal
  /-- The signal of the call. -/
  own : Signal

inductive CallPhase where
  | fresh
  /-- Alone, until a moment. -/
  | waiting (until_ : Nat) (work : Tool.Work)
  /-- For the queries of a fan-out, whose workers are the tasks from `first` on. -/
  | gathering (plan : FanOut.Plan) (first : TaskId) (progress : FanOut.Progress)
  | over (e : CallEnd)

structure Call where
  tool : Tool
  inputs : Fields Json
  /-- The inputs are not checked. -/
  unchecked : Bool := false
  signal : Signal
  limit : Option Nat
  /-- The moment at which the time is up. -/
  deadline : Option Nat := none
  caller : TaskId
  aborted : Bool := false
  phase : CallPhase := .fresh

inductive WorkerPhase where
  | fresh
  | queued
  /-- The worker has its turn. -/
  | admitted
  | calling (w : Wait)
  | over

/-- The task that has one query of a fan-out answered. -/
structure Worker where
  gatherer : TaskId
  query : FanOut.Query
  signal : Signal
  aborted : Bool := false
  phase : WorkerPhase := .fresh

inductive Task where
  | call (c : Call)
  | worker (w : Worker)
  /-- Someone outside who waits, woken when the signal fires. -/
  | client (watched : Option Signal)

/-- The signal whose firing wakes the task. -/
def Task.watched? : Task → Option Signal
  | .call c =>
      match c.phase with
      | .waiting _ work => if work.heedsStop then some c.signal else none
      | _ => none
  | .worker w =>
      match w.phase with
      | .calling wait => some wait.signal
      | _ => none
  | .client watched => watched

structure Timer where
  moment : Nat
  task : TaskId

structure World where
  now : Nat := 0
  tasks : Array Task := #[]
  /-- The tasks that can go on, in order. -/
  ready : List TaskId := []
  /-- Ascending by moment; of one moment, the one that was set first is first. -/
  timers : List Timer := []
  fired : List Signal := []
  /-- How many signals have been made. -/
  signals : Nat := 0
  /-- What was noted, with the moments. -/
  notes : Array (Nat × Json) := #[]

namespace World

def task? (w : World) (id : TaskId) : Option Task := w.tasks[id]?

def setTask (w : World) (id : TaskId) (t : Task) : World :=
  { w with tasks := w.tasks.setIfInBounds id t }

/-- The task can go on. -/
def wake (w : World) (id : TaskId) : World :=
  if w.ready.contains id then w else { w with ready := w.ready ++ [id] }

/-- A new task, which can go on. -/
def spawn (w : World) (t : Task) : TaskId × World :=
  let id := w.tasks.size
  (id, { w with tasks := w.tasks.push t, ready := w.ready ++ [id] })

/-- A new task that waits to be woken. -/
def spawnIdle (w : World) (t : Task) : TaskId × World :=
  (w.tasks.size, { w with tasks := w.tasks.push t })

def note (w : World) (vs : List Json) : World :=
  { w with notes := vs.foldl (fun ns v => ns.push (w.now, v)) w.notes }

/-! ## Timers -/

def insertTimer (t : Timer) : List Timer → List Timer
  | [] => [t]
  | x :: rest => if t.moment < x.moment then t :: x :: rest else x :: insertTimer t rest

/-- Wakes the task at the moment. -/
def setTimer (w : World) (moment : Nat) (task : TaskId) : World :=
  { w with timers := insertTimer ⟨moment, task⟩ w.timers }

/-- Moves to the next moment that some task waits for. -/
def advance? (w : World) : Option World :=
  match w.timers with
  | [] => none
  | t :: _ =>
      let due := w.timers.takeWhile (·.moment ≤ t.moment)
      let w := { w with now := max w.now t.moment, timers := w.timers.drop due.length }
      some (due.foldl (fun w t => w.wake t.task) w)

/-! ## Signals -/

/-- A new signal below the given one. -/
def newSignal (w : World) (above : Signal) : Signal × World :=
  (w.signals :: above, { w with signals := w.signals + 1 })

/-- The signal or one above it has fired. -/
def hasFired (fired : List Signal) : Signal → Bool
  | [] => fired.contains []
  | n :: above => fired.contains (n :: above) || hasFired fired above

def isStopped (w : World) (s : Signal) : Bool := hasFired w.fired s

/-- The tasks that a firing signal wakes. -/
def watchers (w : World) (fired : List Signal) : List TaskId :=
  w.tasks.toList.zipIdx.filterMap fun (t, id) =>
    match t.watched? with
    | some s => if hasFired fired s && !hasFired w.fired s then some id else none
    | none => none

/-- Fires a signal and all below it. -/
def fire (w : World) (s : Signal) : World :=
  if w.isStopped s then w
  else
    let fired := s :: w.fired
    (w.watchers fired).foldl wake { w with fired }

/-! ## Calls -/

/-- Starts a tool call for a task; without such a tool the call fails at once. A limit replaces
the registry's timeout. -/
def startCall (r : Registry) (w : World) (tool : String) (inputs : Fields Json) (signal : Signal)
    (limit : Option Nat) (caller : TaskId) : Except Failure Wait × World :=
  match r.tool? tool with
  | none => (.error ⟨.unknownTool, s!"no tool registered as '{tool}'"⟩, w)
  | some t =>
      let (own, w) := w.newSignal signal
      let (call, w) := w.spawn
        (.call { tool := t, inputs, signal := own, limit := limit.or (r.timeoutFor tool), caller })
      (.ok { tool, call, signal, own }, w)

/-- Gives up a task; it notices when it goes on. -/
def abort (w : World) (id : TaskId) : World :=
  match w.task? id with
  | some (.call c) =>
      match c.phase with
      | .over _ => w
      | _ => (w.setTask id (.call { c with aborted := true })).wake id
  | some (.worker k) =>
      match k.phase with
      | .over => w
      | _ => (w.setTask id (.worker { k with aborted := true })).wake id
  | _ => w

/-- What has come of a wait, if anything has. However it ends, the signal of the call fires. -/
def pollWait (w : World) (wait : Wait) : Option (Except Failure ToolOutput) × World :=
  match w.task? wait.call with
  | some (.call { phase := .over e, .. }) => (some (e.outcome wait.tool), w.fire wait.own)
  | _ =>
      if w.isStopped wait.signal then
        (some (.error ToolError.cancelled.failure), (w.abort wait.call).fire wait.own)
      else (none, w)

/-- Nobody waits any more. -/
def dropWait (w : World) (wait : Wait) : World := w.fire wait.own

end World
end Runbook.Schedule
