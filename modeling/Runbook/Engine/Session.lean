import Runbook.Engine.Basic
import Runbook.Schedule.Poll

/-!
# Runs in flight

A session drives the runs of an engine over one store and one schedule. A run goes on until it has
to wait, for an answer or for a tool, and is woken when there is something for it. Several runs
can be in flight; each can be stopped by its signal, or dropped, which leaves what it has recorded
as it is.

The clock of a session moves on by a microsecond at each reading, so that no two readings agree.
-/

set_option autoImplicit false

namespace Runbook

open Schedule

/-- How someone reacts to a prompt. -/
structure Reaction where
  notes : List Json := []
  /-- Milliseconds until the reaction. -/
  delay : Nat := 0
  /-- The run is told to stop first. -/
  stopsRun : Bool := false
  /-- Without an answer the prompt stays open. -/
  answer : Option Bool

/-- Someone who is asked for approval. -/
abbrev Approver := (step prompt : String) → Reaction

namespace Approver

/-- Approves everything at once. -/
def always : Approver := fun _ _ => { answer := some true }

/-- Denies everything at once. -/
def never : Approver := fun _ _ => { answer := some false }

end Approver

structure RunRequest where
  workflow : String
  id : RunId
  params : Fields Json := []
  approver : Approver
  /-- Milliseconds until the start. -/
  startAfter : Nat := 0
  /-- Milliseconds from the start until the run is told to stop. -/
  stopAfter : Option Nat := none
  /-- Milliseconds from the start until the run is dropped. -/
  dropAfter : Option Nat := none

/-- How a run ended for whoever asked for it. -/
inductive RunEnd where
  | finished (r : RunRecord)
  | refused (e : EngineError)
  | dropped

/-- A prompt that is open. -/
structure OpenPrompt where
  reaction : Reaction
  /-- The moment of the reaction; none when it has come without an answer. -/
  reactAt : Option Nat
  /-- The moment at which the time is up. -/
  limitAt : Option Nat

/-- What a run waits for. -/
inductive Waiting where
  | start
  | approval (prompt : OpenPrompt) (next : Approval → RunDialogue RunRecord)
  | call (wait : Wait) (next : Except Failure ToolOutput → RunDialogue RunRecord)
  | over (e : RunEnd)

/-- A run with its task and its signal. -/
structure Flight where
  request : RunRequest
  task : TaskId
  signal : Signal
  dropAt : Option Nat := none
  waiting : Waiting := .start

structure Session (σ : Type) where
  engine : Engine
  store : σ
  clock : Instant
  world : World := {}
  active : ActiveRuns := []

namespace Session

variable {σ : Type} [MemoryStore σ]

/-- Reads the clock. -/
def time (s : Session σ) : Instant × Session σ :=
  let now : Instant := ⟨s.clock.nanos + 1000⟩
  (now, { s with clock := now })

/-- Puts a question to the store. -/
def ask (s : Session σ) (q : Memory.StoreQuestion) : Memory.StoreAnswer q × Session σ :=
  let (now, s) := s.time
  let (x, store) := Memory.reply now q s.store
  (x, { s with store })

/-- Tells a run to stop; false if it is not in flight. -/
def stop (s : Session σ) (run : RunId) : Bool × Session σ :=
  match Fields.get? run s.active with
  | some signal => (true, { s with world := s.world.fire signal })
  | none => (false, s)

/-! ## Approval -/

/-- What has come of a prompt, if anything has. An answer counts even if the time is up at the
same moment or the run has been told to stop. -/
def pollPrompt (s : Session σ) (signal : Signal) (p : OpenPrompt) :
    Option Approval × OpenPrompt × Session σ :=
  let now := s.world.now
  let reacts := p.reactAt.any (· ≤ now)
  let s := if reacts && p.reaction.stopsRun then { s with world := s.world.fire signal } else s
  match reacts, p.reaction.answer with
  | true, some true => (some .approved, p, s)
  | true, some false => (some .denied, p, s)
  | reacts, _ =>
      let p := if reacts then { p with reactAt := none } else p
      if p.limitAt.any (· ≤ now) then (some .expired, p, s)
      else if s.world.isStopped signal then (some .stopped, p, s)
      else (none, p, s)

/-- Wakes the task at the moments that matter for an open prompt. -/
def promptTimers (p : OpenPrompt) (task : TaskId) (w : World) : World :=
  (p.reactAt.toList ++ p.limitAt.toList).foldl (fun w moment => w.setTimer moment task) w

/-- Puts a prompt to the approver of a run. -/
def openPrompt (s : Session σ) (f : Flight) (step prompt : String) (limitSecs : Option Nat) :
    Option Approval × OpenPrompt × Session σ :=
  let reaction := f.request.approver step prompt
  let now := s.world.now
  let p : OpenPrompt :=
    { reaction, reactAt := some (now + reaction.delay), limitAt := limitSecs.map (now + · * 1000) }
  match { s with world := s.world.note reaction.notes }.pollPrompt f.signal p with
  | (some a, p, s) => (some a, p, s)
  | (none, p, s) => (none, p, { s with world := promptTimers p f.task s.world })

/-! ## Going on -/

/-- Goes on with a run until it has to wait. -/
def advance (f : Flight) : RunDialogue RunRecord → Session σ → Waiting × Session σ
  | .done r, s => (.over (.finished r), s)
  | .ask (.store q) next, s =>
      let (x, s) := s.ask q
      advance f (next x) s
  | .ask .time next, s =>
      let (t, s) := s.time
      advance f (next t) s
  | .ask .stopRequested next, s => advance f (next (s.world.isStopped f.signal)) s
  | .ask (.approval step prompt limit) next, s =>
      match s.openPrompt f step prompt limit with
      | (some a, _, s) => advance f (next a) s
      | (none, p, s) => (.approval p next, s)
  | .ask (.call tool inputs limit) next, s =>
      match s.world.startCall s.engine.registry tool inputs f.signal (limit.map (· * 1000)) f.task
      with
      | (.error e, world) => advance f (next (.error e)) { s with world }
      | (.ok wait, world) =>
          match world.pollWait wait with
          | (some outcome, world) => advance f (next outcome) { s with world }
          | (none, world) => (.call wait next, { s with world })

/-- Starts a run whose moment has come. -/
def beginFlight (s : Session σ) (f : Flight) : Flight × Session σ :=
  let q := f.request
  match s.engine.start s.active q.workflow q.id q.params f.signal with
  | .error e => ({ f with waiting := .over (.refused e) }, s)
  | .ok (run, active) =>
      let dropAt := q.dropAfter.map (s.world.now + ·)
      let world := s.world.setTask f.task (.client (some f.signal))
      let world := match dropAt with
        | some moment => world.setTimer moment f.task
        | none => world
      let (waiting, s) := advance f run { s with active, world }
      ({ f with dropAt, waiting }, s)

/-- Goes on with a run that has been woken, if there is something for it. -/
def proceed (s : Session σ) (f : Flight) : Flight × Session σ :=
  match f.waiting with
  | .start => s.beginFlight f
  | .approval p next =>
      match s.pollPrompt f.signal p with
      | (some a, _, s) =>
          let (waiting, s) := advance f (next a) s
          ({ f with waiting }, s)
      | (none, p, s) => ({ f with waiting := .approval p next }, s)
  | .call wait next =>
      match s.world.pollWait wait with
      | (some outcome, world) =>
          let (waiting, s) := advance f (next outcome) { s with world }
          ({ f with waiting }, s)
      | (none, world) => (f, { s with world })
  | .over _ => (f, s)

/-- Ends a run before it has finished. -/
def drop (s : Session σ) (f : Flight) : Flight × Session σ :=
  let world := match f.waiting with
    | .call wait _ => s.world.dropWait wait
    | _ => s.world
  ({ f with waiting := .over .dropped },
    { s with world, active := Engine.release f.request.id s.active })

/-- Gives a woken run its turn: it goes on, and is dropped if its time is up by then. -/
def turn (s : Session σ) (f : Flight) : Flight × Session σ :=
  match f.waiting with
  | .over _ => (f, s)
  | _ =>
      let (f, s) := s.proceed f
      match f.waiting with
      | .over (.finished _) => (f, { s with active := Engine.release f.request.id s.active })
      | .over _ => (f, s)
      | _ => if f.dropAt.any (· ≤ s.world.now) then s.drop f else (f, s)

/-! ## A visit -/

/-- Someone outside who is woken at a moment. -/
inductive Visitor where
  /-- Tells a run to stop. -/
  | stopper (run : RunId)
  /-- Looks at the runs in flight, and may tell one to stop. -/
  | observer (stops : Option RunId)

/-- What an observer saw. -/
structure Sighting where
  active : List RunId
  stopped : Option Bool

/-- Runs that are driven together, with those who visit them. -/
structure Visit (σ : Type) where
  session : Session σ
  flights : List Flight := []
  visitors : List (TaskId × Visitor) := []
  sighting : Option Sighting := none

namespace Visit

/-- Someone comes after a number of milliseconds. -/
def visitAfter (v : Visit σ) (ms : Nat) (who : Visitor) : Visit σ :=
  let (task, world) := v.session.world.spawnIdle (.client none)
  let world := match ms with
    | 0 => world.wake task
    | ms + 1 => world.setTimer (world.now + (ms + 1)) task
  { v with session := { v.session with world }, visitors := v.visitors ++ [(task, who)] }

/-- Asks for a run. -/
def request (v : Visit σ) (q : RunRequest) : Visit σ :=
  let (signal, world) := v.session.world.newSignal []
  let (task, world) := world.spawnIdle (.client none)
  let world := match q.startAfter with
    | 0 => world.wake task
    | ms + 1 => world.setTimer (world.now + (ms + 1)) task
  { v with session := { v.session with world }
           flights := v.flights ++ [{ request := q, task, signal }] }

/-- Gives the turn to a run. When it starts, whoever is to stop it is on the way. -/
def wakeFlight (v : Visit σ) (i : Nat) (f : Flight) : Visit σ :=
  let (f', session) := v.session.turn f
  let v := { v with session, flights := v.flights.set i f' }
  match f.waiting, f.request.stopAfter with
  | .start, some ms => v.visitAfter ms (.stopper f.request.id)
  | _, _ => v

/-- Gives the turn to a task. -/
def wake (v : Visit σ) (id : TaskId) : Visit σ :=
  match v.flights.findIdx? (·.task = id) with
  | some i =>
      match v.flights[i]? with
      | some f => v.wakeFlight i f
      | none => v
  | none =>
      match v.visitors.find? (·.1 = id) with
      | some (_, .stopper run) => { v with session := (v.session.stop run).2 }
      | some (_, .observer stops) =>
          let active := (Fields.sorted v.session.active).names
          match stops with
          | none => { v with sighting := some ⟨active, none⟩ }
          | some run =>
              let (stopped, session) := v.session.stop run
              { v with session, sighting := some ⟨active, some stopped⟩ }
      | none => v

/-- All runs are over, and whoever was to look has looked. -/
def isOver (v : Visit σ) : Bool :=
  v.flights.all (fun f => match f.waiting with
    | .over _ => true
    | _ => false) &&
  (v.sighting.isSome || v.visitors.all fun e => match e.2 with
    | .observer _ => false
    | .stopper _ => true)

/-- More steps than any visit takes. -/
def stepBound : Nat := 1000000

/-- Lets time pass until all is over. -/
def run : (fuel : Nat) → Visit σ → Visit σ
  | 0, v => v
  | fuel + 1, v =>
      if v.isOver then v
      else
        let horizon := v.session.world.now + 1000000000000000
        match v.session.world.run v.session.engine.registry horizon stepBound with
        | (none, world) => { v with session := { v.session with world } }
        | (some id, world) => run fuel ({ v with session := { v.session with world } }.wake id)

/-- The ends of the runs, in the order in which they were asked for. -/
def ends (v : Visit σ) : List RunEnd :=
  v.flights.map fun f => match f.waiting with
    | .over e => e
    | _ => .dropped

end Visit
end Session
end Runbook
