import Runbook.Schedule.Poll

/-!
# A tool call on its own

A single call is made at moment 0, with a limit if there is one, and may be told to stop at a
moment. Its report says what came of it and when, and the world goes on after that, so that one
can see whether all work for it has stopped.
-/

set_option autoImplicit false

namespace Runbook.Schedule

/-- More steps than any schedule of a call takes. -/
def stepBound : Nat := 1000000

/-- What came of a call. -/
structure CallReport where
  outcome : Except Failure ToolOutput
  moment : Nat
  world : World

/-- A call that is being watched: its maker, and the task that tells it to stop. -/
structure Watched where
  maker : TaskId
  stopper : TaskId
  wait : Wait

/-- Waits for the call, telling it to stop when the stopper wakes. -/
def await (r : Registry) (k : Watched) : (fuel : Nat) → World → Option CallReport
  | 0, _ => none
  | fuel + 1, w =>
      match w.pollWait k.wait with
      | (some outcome, w) => some ⟨outcome, w.now, w⟩
      | (none, w) =>
          match w.run r (w.now + 1000000000000) stepBound with
          | (none, _) => none
          | (some id, w) =>
              await r k fuel (if id = k.stopper then w.fire k.wait.signal else w)

/-- The world of a single call: a signal, the maker of the call, and the stopper, which wakes at
its moment. -/
def callWorld (stopAt : Option Nat) : Signal × TaskId × TaskId × World :=
  let (signal, w) := World.newSignal {} []
  let (maker, w) := w.spawnIdle (.client (some signal))
  let (stopper, w) := w.spawnIdle (.client none)
  let w := match stopAt with
    | none => w
    | some 0 => w.fire signal
    | some (ms + 1) => w.setTimer (ms + 1) stopper
  (signal, maker, stopper, w)

/-- Makes a call and waits for it. -/
def dispatch (r : Registry) (tool : String) (inputs : Fields Json) (limit stopAt : Option Nat) :
    Option CallReport :=
  let (signal, maker, stopper, w) := callWorld stopAt
  match w.startCall r tool inputs signal limit maker with
  | (.error f, w) => some ⟨.error f, w.now, w⟩
  | (.ok wait, w) => await r ⟨maker, stopper, wait⟩ stepBound w

/-- Lets the world go on for some time after a report. -/
def CallReport.after (report : CallReport) (r : Registry) (ms : Nat) : World :=
  go stepBound report.world
where
  go : Nat → World → World
    | 0, w => w
    | fuel + 1, w =>
        match w.run r (report.moment + ms) stepBound with
        | (none, w) => w
        | (some _, w) => go fuel w

/-- The end of a call whose inputs are not checked and whose time is not limited. -/
def execute (r : Registry) (t : Tool) (inputs : Fields Json) : Option CallEnd :=
  let (signal, maker, _, w) := callWorld none
  let (call, w) := w.spawn (.call { tool := t, inputs, unchecked := true, signal, limit := none,
                                    caller := maker })
  let (_, w) := w.run r 1000000000000 stepBound
  match w.task? call with
  | some (.call { phase := .over e, .. }) => some e
  | _ => none

end Runbook.Schedule
