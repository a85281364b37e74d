import Mathlib.Logic.Relation
import Runbook.Proofs.Schedule.Footprint
import Runbook.Proofs.Schedule.Interleaving

/-!
# What a task does, one thing at a time

A task that goes on does a few things, one after the other: it wakes others, fires signals, sets
itself or a task that it has to do with, hires workers, makes calls. These are the *acts*. What every
act keeps is kept by whatever a task does.

A `Leave` says what may be done: the signals that are fired or given to new tasks are below a base,
only some calls go on and only some end, and the phases of workers change only so.
-/

set_option autoImplicit false

namespace Runbook.Schedule

/-- What a task may do. -/
structure Leave where
  base : Signal
  /-- The calls that go on. The others may be given up. -/
  sets : TaskId → Prop
  ends : TaskId → Prop
  change : TaskId → WorkerPhase → WorkerPhase → Prop

/-- Everything but the phases of workers. -/
def Leave.still : Leave := ⟨[], fun _ => True, fun _ => True, fun _ _ _ => False⟩

namespace World

variable {L : Leave} {w w' w'' : World} {id x : TaskId} {c c' : Call} {k k₀ : Worker}

/-! ## 1. Acts -/

/-- One thing that a task does. -/
inductive Act (L : Leave) (w : World) : World → Prop where
  /-- Something is noted, a timer is set, or a task is woken. -/
  | quiet {w' : World} (tasks : w'.tasks = w.tasks) (fired : w'.fired = w.fired)
      (signals : w'.signals = w.signals) : Act L w w'
  | fire {s : Signal} (below : L.base <:+ s) : Act L w (w.fire s)
  | call {id : TaskId} {c c' : Call} (here : w.task? id = some (.call c)) (alike : c.Alike c')
      (begun : c.phase ≠ .fresh → c'.phase ≠ .fresh)
      (ended : ∀ e, c'.phase = .over e → c.phase = .over e ∨ L.ends id)
      (set : L.sets id ∨ (Task.call c).Kept (.call c')) : Act L w (w.setTask id (.call c'))
  | worker {id : TaskId} {k k' : Worker} (here : w.task? id = some (.worker k)) (alike : k.Alike k')
      (change : k'.phase = k.phase ∨ L.change id k.phase k'.phase) :
      Act L w (w.setTask id (.worker k'))
  /-- A fan-out that begins hires a worker. -/
  | hire {k : Worker} {c : Call} (fresh : k.phase = .fresh)
      (maker : w.task? k.gatherer = some (.call c)) (early : c.phase = .fresh)
      (body : c.tool.body = .fanOut) (signal : k.signal = c.signal) (below : L.base <:+ k.signal) :
      Act L w (w.spawn (.worker k)).2
  /-- A call is made, with a new signal. -/
  | make {c : Call} {above : Signal} (fresh : c.phase = .fresh) (below : L.base <:+ above)
      (signal : c.signal = (w.newSignal above).1) : Act L w ((w.newSignal above).2.spawn (.call c)).2

/-- Any number of acts. -/
def Acts (L : Leave) : World → World → Prop := Relation.ReflTransGen (Act L)

theorem Acts.refl (w : World) : Acts L w w := Relation.ReflTransGen.refl

theorem Act.acts (h : Act L w w') : Acts L w w' := Relation.ReflTransGen.single h

theorem Acts.trans (first : Acts L w w') (later : Acts L w' w'') : Acts L w w'' :=
  Relation.ReflTransGen.trans first later

@[simp] theorem signals_wake (w : World) (id : TaskId) : (w.wake id).signals = w.signals := by
  unfold wake
  split <;> rfl

theorem signals_wakes (w : World) (ids : List TaskId) :
    (ids.foldl wake w).signals = w.signals := by
  induction ids generalizing w with
  | nil => rfl
  | cons id ids ih => exact (ih _).trans (signals_wake w id)

@[simp] theorem signals_fire (w : World) (s : Signal) : (w.fire s).signals = w.signals := by
  unfold fire
  split
  · rfl
  · exact signals_wakes _ _

/-- Signals keep their names. -/
theorem Act.signals (h : Act L w w') : w.signals ≤ w'.signals := by
  cases h with
  | quiet _ _ signals => exact Nat.le_of_eq signals.symm
  | fire => exact Nat.le_of_eq (signals_fire w _).symm
  | call | worker | hire => exact Nat.le_refl _
  | make => exact Nat.le_succ _

theorem Acts.signals (h : Acts L w w') : w.signals ≤ w'.signals := by
  induction h with
  | refl => exact Nat.le_refl _
  | tail _ act ih => exact Nat.le_trans ih act.signals

theorem Acts.foldl {α : Type} {f : World → α → World} {as : List α}
    (one : ∀ a ∈ as, ∀ w, Acts L w (f w a)) (w : World) : Acts L w (as.foldl f w) := by
  induction as generalizing w with
  | nil => exact .refl w
  | cons a as ih =>
    rw [List.forall_mem_cons] at one
    exact (one.1 w).trans (ih one.2 (f w a))

/-! ## 2. What acts make of a task -/

/-- What has become of a task. -/
inductive Became (L : Leave) (w w' : World) (x : TaskId) : Prop where
  | same (h : w'.task? x = w.task? x)
  | call {c c' : Call} (here : w.task? x = some (.call c)) (there : w'.task? x = some (.call c'))
      (alike : c.Alike c') (begun : c.phase ≠ .fresh → c'.phase ≠ .fresh)
      (ended : ∀ e, c'.phase = .over e → c.phase = .over e ∨ L.ends x)
      (set : L.sets x ∨ (Task.call c).Kept (.call c'))
  | worker {k k' : Worker} (here : w.task? x = some (.worker k))
      (there : w'.task? x = some (.worker k')) (alike : k.Alike k')
      (change : k'.phase = k.phase ∨ L.change x k.phase k'.phase)
  | hired {k : Worker} {c : Call} (none : w.task? x = none) (there : w'.task? x = some (.worker k))
      (fresh : k.phase = .fresh) (maker : w.task? k.gatherer = some (.call c))
      (early : c.phase = .fresh) (body : c.tool.body = .fanOut) (signal : k.signal = c.signal)
      (below : L.base <:+ k.signal)
  | made {c : Call} (none : w.task? x = none) (there : w'.task? x = some (.call c))
      (fresh : c.phase = .fresh) {above : Signal} (below : L.base <:+ above)
      (signal : c.signal = w.signals :: above) (next : w'.signals = w.signals + 1)

theorem task?_spawn_cases (w : World) (t : Task) (x : TaskId) :
    (w.task? x = none ∧ (w.spawn t).2.task? x = some t) ∨ (w.spawn t).2.task? x = w.task? x := by
  rw [task?_spawn]
  split
  · next last => exact .inl ⟨Array.getElem?_eq_none (Nat.le_of_eq last.symm), rfl⟩
  · exact .inr rfl

theorem task?_setTask_cases {t : Task} (here : w.task? id = some t) (t' : Task) (x : TaskId) :
    (x = id ∧ (w.setTask id t').task? x = some t') ∨ (w.setTask id t').task? x = w.task? x := by
  by_cases same : id = x
  · subst same
    exact .inl ⟨rfl, task?_setTask_self here⟩
  · exact .inr (task?_setTask_ne t' same)

/-- **One act, one task.** -/
theorem Act.became (h : Act L w w') (x : TaskId) : Became L w w' x := by
  cases h with
  | quiet tasks => exact .same (congrArg (·[x]?) tasks)
  | fire => exact .same (task?_fire w _ x)
  | call here alike begun ended set =>
    rcases task?_setTask_cases here _ x with ⟨rfl, there⟩ | same
    · exact .call here there alike begun ended set
    · exact .same same
  | worker here alike change =>
    rcases task?_setTask_cases here _ x with ⟨rfl, there⟩ | same
    · exact .worker here there alike change
    · exact .same same
  | @hire k c fresh maker early body signal below =>
    rcases task?_spawn_cases w (.worker k) x with ⟨none, there⟩ | same
    · exact .hired none there fresh maker early body signal below
    · exact .same same
  | @make c above fresh below signal =>
    rcases task?_spawn_cases (w.newSignal above).2 (.call c) x with ⟨none, there⟩ | same
    · exact .made none there fresh below signal rfl
    · exact .same same

theorem Act.call_of (h : Act L w w') (here : w.task? x = some (.call c)) :
    ∃ c', w'.task? x = some (.call c') ∧ c.Alike c' ∧ (c.phase ≠ .fresh → c'.phase ≠ .fresh) ∧
      (∀ e, c'.phase = .over e → c.phase = .over e ∨ L.ends x) ∧
      (L.sets x ∨ (Task.call c).Kept (.call c')) := by
  cases h.became x with
  | same same => exact ⟨c, same.trans here, .refl c, fun h => h, fun _ => .inl, .inr (.same _)⟩
  | call here' there alike begun ended set =>
    cases here.symm.trans here'
    exact ⟨_, there, alike, begun, ended, set⟩
  | worker here' => cases here.symm.trans here'
  | hired none => cases here.symm.trans none
  | made none => cases here.symm.trans none

/-- A call remains what it is, and goes on or ends only if it may. -/
theorem Acts.call (h : Acts L w w') (here : w.task? x = some (.call c)) :
    ∃ c', w'.task? x = some (.call c') ∧ c.Alike c' ∧ (c.phase ≠ .fresh → c'.phase ≠ .fresh) ∧
      (∀ e, c'.phase = .over e → c.phase = .over e ∨ L.ends x) ∧
      (L.sets x ∨ (Task.call c).Kept (.call c')) := by
  induction h with
  | refl => exact ⟨c, here, .refl c, fun h => h, fun _ => .inl, .inr (.same _)⟩
  | tail _ act ih =>
    obtain ⟨c₁, there, alike, begun, ended, set⟩ := ih
    obtain ⟨c₂, there', alike', begun', ended', set'⟩ := act.call_of there
    refine ⟨c₂, there', alike.trans alike', fun h => begun' (begun h), fun e isOver => ?_, ?_⟩
    · exact (ended' e isOver).elim (ended e) .inr
    · rcases set with may | kept
      · exact .inl may
      · exact set'.imp_right kept.trans

theorem Act.worker_of (h : Act L w w') (here : w.task? x = some (.worker k)) :
    ∃ k', w'.task? x = some (.worker k') ∧ k.Alike k' ∧
      (k'.phase = k.phase ∨ L.change x k.phase k'.phase) := by
  cases h.became x with
  | same same => exact ⟨k, same.trans here, .refl k, .inl rfl⟩
  | worker here' there alike change =>
    cases here.symm.trans here'
    exact ⟨_, there, alike, change⟩
  | call here' => cases here.symm.trans here'
  | hired none => cases here.symm.trans none
  | made none => cases here.symm.trans none

/-- So does a worker, whose phase has changed as it may. -/
theorem Acts.worker (h : Acts L w w') (here : w.task? x = some (.worker k)) :
    ∃ k', w'.task? x = some (.worker k') ∧ k.Alike k' ∧
      Relation.ReflTransGen (L.change x) k.phase k'.phase := by
  induction h with
  | refl => exact ⟨k, here, .refl k, .refl⟩
  | tail _ act ih =>
    obtain ⟨k₁, there, alike, change⟩ := ih
    obtain ⟨k₂, there', alike', change'⟩ := act.worker_of there
    refine ⟨k₂, there', alike.trans alike', ?_⟩
    rcases change' with same | one
    · exact same ▸ change
    · exact change.tail one

/-- The worker has been hired by a fan-out that began in the meantime. -/
structure Hires (w w' : World) (k : Worker) (c : Call) : Prop where
  maker : w'.task? k.gatherer = some (.call c)
  body : c.tool.body = .fanOut
  signal : k.signal = c.signal
  early : ∀ c₀, w.task? k.gatherer = some (.call c₀) → c₀.phase = .fresh

theorem Hires.act (h : Hires w w' k c) (act : Act L w' w'') : ∃ c', Hires w w'' k c' := by
  obtain ⟨c', there, alike, -⟩ := act.call_of h.maker
  exact ⟨c', there, alike.tool ▸ h.body, h.signal.trans alike.signal.symm, h.early⟩

theorem Hires.alike (h : Hires w w' k c) {k' : Worker} (alike : k.Alike k') : Hires w w' k' c := by
  obtain ⟨maker, body, signal, early⟩ := h
  rw [← alike.gatherer] at maker early
  exact ⟨maker, body, alike.signal.trans signal, early⟩

/-- A worker that was not there has been hired. -/
theorem Acts.newWorker (h : Acts L w w') (none : w.task? x = none)
    (there : w'.task? x = some (.worker k)) :
    L.base <:+ k.signal ∧ Relation.ReflTransGen (L.change x) .fresh k.phase ∧
      ∃ c, Hires w w' k c := by
  induction h generalizing k with
  | refl => cases there.symm.trans none
  | tail before act ih =>
    cases act.became x with
    | same same =>
      obtain ⟨below, phase, c, hires⟩ := ih (same.symm.trans there)
      exact ⟨below, phase, hires.act act⟩
    | worker here there' alike change =>
      cases there.symm.trans there'
      obtain ⟨below, phase, c, hires⟩ := ih here
      refine ⟨alike.signal ▸ below, ?_, (hires.alike alike).act act⟩
      rcases change with same | one
      · exact same ▸ phase
      · exact phase.tail one
    | hired _ there' fresh maker early body signal below =>
      cases there.symm.trans there'
      refine ⟨below, fresh ▸ .refl, Hires.act ⟨maker, body, signal, fun c₀ made => ?_⟩ act⟩
      obtain ⟨c, maker', -, begun, -⟩ := Acts.call before made
      cases maker.symm.trans maker'
      by_contra late
      exact begun late early
    | call _ there' => cases there.symm.trans there'
    | made _ there' => cases there.symm.trans there'

theorem Act.nobody (h : Act L w w') (gone : w'.task? x = none) : w.task? x = none := by
  cases h.became x with
  | same same => exact same.symm.trans gone
  | call _ there => cases gone.symm.trans there
  | worker _ there => cases gone.symm.trans there
  | hired none => exact none
  | made none => exact none

theorem Acts.nobody (h : Acts L w w') (gone : w'.task? x = none) : w.task? x = none := by
  induction h with
  | refl => exact gone
  | tail _ act ih => exact ih (act.nobody gone)

/-- No task turns into a worker. -/
theorem Acts.wasWorker (h : Acts L w w') (there : w'.task? x = some (.worker k)) :
    w.task? x = none ∨ ∃ k₀, w.task? x = some (.worker k₀) := by
  induction h generalizing k with
  | refl => exact .inr ⟨k, there⟩
  | tail before act ih =>
    cases act.became x with
    | same same => exact ih (same.symm.trans there)
    | worker here => exact ih here
    | hired none => exact .inl (Acts.nobody before none)
    | call _ there' => cases there.symm.trans there'
    | made _ there' => cases there.symm.trans there'

/-- The call has been made in the meantime, with a signal of its own, and has not gone on. -/
structure Made (L : Leave) (w w' : World) (x : TaskId) (c : Call) : Prop where
  gone : w.task? x = none
  fresh : L.sets x ∨ c.phase = .fresh
  signal : ∃ n above, c.signal = n :: above ∧ L.base <:+ above ∧ w.signals ≤ n ∧ n < w'.signals

theorem Made.later (h : Made L w w' x c) (later : w'.signals ≤ w''.signals) : Made L w w'' x c := by
  obtain ⟨n, above, signal, below, old, new⟩ := h.signal
  exact ⟨h.gone, h.fresh, n, above, signal, below, old, by omega⟩

/-- Nor into a call. One that was not there has been made. -/
theorem Acts.wasCall (h : Acts L w w') (there : w'.task? x = some (.call c)) :
    (∃ c₀, w.task? x = some (.call c₀) ∧ c₀.Alike c) ∨ Made L w w' x c := by
  induction h generalizing c with
  | refl => exact .inl ⟨c, there, .refl c⟩
  | tail before act ih =>
    cases act.became x with
    | same same => exact (ih (same.symm.trans there)).imp_right fun made => made.later act.signals
    | call here there' alike _ _ set =>
      cases there.symm.trans there'
      rcases ih here with ⟨c₀, first, alike₀⟩ | made
      · exact .inl ⟨c₀, first, alike₀.trans alike⟩
      · obtain ⟨gone, fresh, n, above, signal, rest⟩ := made.later act.signals
        refine .inr ⟨gone, ?_, n, above, alike.signal.trans signal, rest⟩
        rcases set with may | kept
        · exact .inl may
        · cases kept <;> exact fresh
    | made none there' fresh below signal next =>
      cases there.symm.trans there'
      exact .inr ⟨Acts.nobody before none, .inr fresh, _, _, signal, below, Acts.signals before,
        by omega⟩
    | worker _ there' => cases there.symm.trans there'
    | hired _ there' => cases there.symm.trans there'

/-- A signal that has fired has done so for good. -/
theorem Acts.stopped (h : Acts L w w') {s : Signal} (stopped : w.isStopped s = true) :
    w'.isStopped s = true := by
  induction h with
  | refl => exact stopped
  | tail _ act ih =>
    cases act with
    | quiet _ fired => rwa [isStopped, fired]
    | fire => exact (within_fire (S := fun _ => False) _ _).fired s ih
    | call | worker | hire | make => exact ih

/-! ## 3. The world -/

theorem acts_quiet (tasks : w'.tasks = w.tasks) (fired : w'.fired = w.fired)
    (signals : w'.signals = w.signals) : Acts L w w' :=
  (Act.quiet tasks fired signals).acts

theorem acts_wake (w : World) (id : TaskId) : Acts L w (w.wake id) :=
  acts_quiet (tasks_wake w id) (fired_wake w id) (signals_wake w id)

theorem acts_note (w : World) (vs : List Json) : Acts L w (w.note vs) := acts_quiet rfl rfl rfl

theorem acts_setTimer (w : World) (moment : Nat) (id : TaskId) : Acts L w (w.setTimer moment id) :=
  acts_quiet rfl rfl rfl

theorem acts_abort (w : World) (id : TaskId) : Acts L w (w.abort id) := by
  unfold abort
  split
  · next c here =>
    split
    · exact .refl w
    · have set : Act L w (w.setTask id (.call { c with aborted := true })) :=
        .call here c.alike_aborted (fun h => h) (fun _ => .inl) (.inr (.aborted c))
      exact set.acts.trans (acts_wake _ id)
  · next k here =>
    split
    · exact .refl w
    · have set : Act L w (w.setTask id (.worker { k with aborted := true })) :=
        .worker here k.alike_aborted (.inl rfl)
      exact set.acts.trans (acts_wake _ id)
  · exact .refl w

theorem acts_abortWorkers (w : World) (first count : Nat) :
    Acts L w (w.abortWorkers first count) :=
  .foldl (fun _ _ w => acts_abort w _) w

theorem acts_startCall (r : Registry) (w : World) (tool : String) (inputs : Fields Json)
    {signal : Signal} (below : L.base <:+ signal) (limit : Option Nat) (caller : TaskId) :
    Acts L w (startCall r w tool inputs signal limit caller).2 := by
  unfold startCall
  split
  · exact .refl w
  · exact (Act.make rfl below rfl).acts

theorem acts_pollWait (w : World) {wait : Wait} (below : L.base <:+ wait.own) :
    Acts L w (w.pollWait wait).2 := by
  unfold pollWait
  split
  · exact (Act.fire below).acts
  · split
    · exact (acts_abort w wait.call).trans (Act.fire below).acts
    · exact .refl w

/-! ## 4. Calls -/

/-- There is the call of which `c` is a later form, and it may end. -/
structure Ours (L : Leave) (w : World) (id : TaskId) (c : Call) : Prop where
  call : ∃ c₀, w.task? id = some (.call c₀) ∧ c₀.Alike c
  sets : L.sets id
  ends : L.ends id
  below : L.base <:+ c.signal

theorem Ours.acts (h : Ours L w id c) (acts : Acts L w w') : Ours L w' id c := by
  obtain ⟨c₀, here, alike⟩ := h.call
  obtain ⟨c₁, there, alike₁, -⟩ := acts.call here
  exact ⟨⟨c₁, there, alike₁.symm.trans alike⟩, h.sets, h.ends, h.below⟩

theorem Ours.alike (h : Ours L w id c) (alike : c.Alike c') : Ours L w id c' := by
  obtain ⟨c₀, here, before⟩ := h.call
  exact ⟨⟨c₀, here, before.trans alike⟩, h.sets, h.ends, alike.signal ▸ h.below⟩

theorem acts_setCall (h : Ours L w id c) (begun : c.phase ≠ .fresh) :
    Acts L w (w.setTask id (.call c)) := by
  obtain ⟨c₀, here, alike⟩ := h.call
  exact (Act.call here alike (fun _ => begun) (fun _ _ => .inr h.ends) (.inl h.sets)).acts

theorem acts_endCall (h : Ours L w id c) (e : CallEnd) : Acts L w (w.endCall id c e) :=
  (acts_setCall (h.alike (c.alike_phase (.over e))) (by simp)).trans (acts_wake _ c.caller)

theorem acts_completeWork (h : Ours L w id c) (work : Tool.Work) :
    Acts L w (w.completeWork id c work) :=
  have noted := acts_note w work.ended
  noted.trans (acts_endCall (h.acts noted) _)

theorem acts_setDeadline (w : World) (id : TaskId) (c : Call) : Acts L w (w.setDeadline id c) := by
  unfold setDeadline
  split
  · exact acts_setTimer w _ id
  · exact .refl w

theorem acts_pollWaiting (h : Ours L w id c) (moment : Nat) (work : Tool.Work) :
    Acts L w (w.pollWaiting id c moment work) := by
  unfold pollWaiting
  split
  · exact acts_completeWork h work
  · split
    · exact acts_endCall h _
    · split
      · exact acts_endCall h _
      · exact .refl w

theorem acts_beginAlone (h : Ours L w id c) (work : Tool.Work) :
    Acts L w (w.beginAlone id c work) := by
  have noted : Acts L w (w.note work.began) := acts_note w work.began
  have still := h.acts noted
  unfold beginAlone
  dsimp only
  split
  · exact noted.trans (acts_completeWork still work)
  · next ms _ =>
    have waits := still.alike (c.alike_phase (.waiting ((w.note work.began).now + ms) work))
    have set := acts_setCall waits (by simp)
    have polled := (noted.trans set).trans
      (acts_pollWaiting (waits.acts set) ((w.note work.began).now + ms) work)
    split
    · exact (polled.trans (acts_setTimer _ _ id)).trans (acts_setDeadline _ id _)
    · exact polled

theorem acts_pollGathering (h : Ours L w id c) (plan : FanOut.Plan) (first : TaskId)
    (p : FanOut.Progress) : Acts L w (w.pollGathering id c plan first p) := by
  unfold pollGathering
  split
  · have stops : Acts L w ((w.fire c.signal).abortWorkers first plan.queries.length) :=
      (Act.fire h.below).acts.trans (acts_abortWorkers _ first _)
    exact stops.trans (acts_endCall (h.acts stops) _)
  · split
    · exact acts_endCall h _
    · split
      · have stops : Acts L w (w.abortWorkers first plan.queries.length) :=
          acts_abortWorkers w first _
        exact stops.trans (acts_endCall (h.acts stops) _)
      · exact acts_setCall (h.alike (c.alike_phase _)) (by simp)

theorem acts_hire (here : w.task? id = some (.call c)) (fresh : c.phase = .fresh)
    (body : c.tool.body = .fanOut) (below : L.base <:+ c.signal) (queries : List FanOut.Query) :
    Acts L w (w.hire id c.signal queries) := by
  induction queries generalizing w with
  | nil => exact .refl w
  | cons q queries ih =>
    refine (Act.hire rfl here fresh body rfl below).acts.trans (ih ?_)
    exact task?_push here

theorem acts_beginFanOut (r : Registry) (h : Ours L w id c)
    (fresh : ∃ c₀, w.task? id = some (.call c₀) ∧ c₀.phase = .fresh)
    (body : c.tool.body = .fanOut) : Acts L w (w.beginFanOut r id c) := by
  cases planned : FanOut.plan r.maxFanOut c.inputs with
  | error e =>
    have ended : w.beginFanOut r id c = w.endCall id c (.result (.error e)) := by
      rw [beginFanOut, planned]
    exact ended ▸ acts_endCall h _
  | ok plan =>
    obtain ⟨c₀, here, alike⟩ := h.call
    obtain ⟨c₁, here₁, early⟩ := fresh
    cases here.symm.trans here₁
    have hired : Acts L w (w.hire id c.signal plan.queries) := by
      rw [alike.signal]
      exact acts_hire here early (alike.tool ▸ body) (alike.signal ▸ h.below) _
    rw [beginFanOut_eq planned]
    exact (hired.trans (acts_pollGathering (h.acts hired) plan _ _)).trans (acts_setDeadline _ id c)

theorem acts_begin (r : Registry) (h : Ours L w id c)
    (fresh : ∃ c₀, w.task? id = some (.call c₀) ∧ c₀.phase = .fresh) :
    Acts L w (w.begin r id c) := by
  have timed : c.Alike { c with deadline := c.limit.map (w.now + ·) } :=
    ⟨rfl, rfl, rfl, rfl, rfl, rfl⟩
  unfold begin
  dsimp only
  split
  · exact acts_beginAlone (h.alike timed) _
  · next body => exact acts_beginFanOut r (h.alike timed) fresh body

theorem acts_pollFresh (r : Registry) (h : Ours L w id c)
    (fresh : ∃ c₀, w.task? id = some (.call c₀) ∧ c₀.phase = .fresh) :
    Acts L w (w.pollFresh r id c) := by
  unfold pollFresh
  split
  · exact acts_begin r h fresh
  · split
    · exact acts_begin r h fresh
    · exact acts_endCall h _
    · exact acts_endCall h _

/-- **A call that goes on** does this and no more. -/
theorem acts_pollCall (r : Registry) (here : w.task? id = some (.call c)) (sets : L.sets id)
    (ends : L.ends id) (below : L.base <:+ c.signal) : Acts L w (w.pollCall r id c) := by
  have ours : Ours L w id c := ⟨⟨c, here, .refl c⟩, sets, ends, below⟩
  unfold pollCall
  split
  · exact .refl w
  · split
    · unfold endAborted
      dsimp only
      split
      · next plan first p _ =>
        have stops : Acts L w (w.abortWorkers first plan.queries.length) :=
          acts_abortWorkers w first _
        exact stops.trans (acts_endCall (ours.acts stops) _)
      · exact acts_endCall ours _
    · split
      · next fresh => exact acts_pollFresh r ours ⟨c, here, fresh⟩
      · exact acts_pollWaiting ours _ _
      · exact acts_pollGathering ours _ _ _
      · exact .refl w

/-! ## 5. Workers -/

/-- The worker may hand its turn on, and tell its fan-out. -/
structure MayTurn (L : Leave) (w : World) (k : Worker) : Prop where
  sets : L.sets k.gatherer
  turn : ∀ first p i, w.progress? k.gatherer = some (first, p) →
    i ∈ p.waiting ∨ i = k.query.index → L.change (first + i) .queued .admitted

theorem MayTurn.back (h : MayTurn L w k)
    (same : ∀ y, w'.progress? k.gatherer = some y → w.progress? k.gatherer = some y) :
    MayTurn L w' k :=
  ⟨h.sets, fun first p i found => h.turn first p i (same _ found)⟩

/-- There is the worker, as it is. -/
def Mine (w : World) (id : TaskId) (k : Worker) : Prop :=
  ∃ k₀, w.task? id = some (.worker k₀) ∧ k₀.Alike k ∧ k₀.phase = k.phase

/-- It stays so if no phase may change. -/
theorem Mine.acts (h : w.Mine id k) (acts : Acts .still w w') : w'.Mine id k := by
  obtain ⟨k₀, here, alike, phase⟩ := h
  obtain ⟨k₁, there, alike₁, change⟩ := acts.worker here
  refine ⟨k₁, there, ⟨alike₁.gatherer ▸ alike.gatherer, alike₁.query ▸ alike.query,
    alike₁.signal ▸ alike.signal⟩, ?_⟩
  rcases Relation.ReflTransGen.cases_tail change with same | ⟨_, -, one⟩
  · exact same.trans phase
  · exact one.elim

theorem acts_updateProgress (w : World) {g : TaskId} (sets : L.sets g)
    (f : FanOut.Progress → FanOut.Progress) : Acts L w (w.updateProgress g f) := by
  unfold updateProgress
  split
  · next c here =>
    split
    · exact (Act.call here (c.alike_phase _) (by simp) (by simp) (.inl sets)).acts
    · exact .refl w
  · exact .refl w

theorem acts_setWorker (here : w.Mine id k) {phase : WorkerPhase}
    (change : phase = k.phase ∨ L.change id k.phase phase) :
    Acts L w (w.setTask id (.worker { k with phase })) := by
  obtain ⟨k₀, there, alike, same⟩ := here
  exact (Act.worker there (alike.trans (k.alike_phase phase)) (same ▸ change)).acts

theorem acts_giveTurn (w : World) (turn : L.change id .queued .admitted) :
    Acts L w (w.giveTurn id) := by
  unfold giveTurn
  split
  · next k here =>
    split
    · next queued =>
      have set : Act L w (w.setTask id (.worker { k with phase := .admitted })) :=
        .worker here (k.alike_phase _) (.inr (queued ▸ turn))
      exact set.acts.trans (acts_wake _ id)
    · exact .refl w
  · exact .refl w

theorem acts_handOn (turn : MayTurn L w k) : Acts L w (w.handOn k) := by
  have released : Acts L w (w.updateProgress k.gatherer fun p => p.release k.query.index) :=
    acts_updateProgress w turn.sets _
  unfold handOn
  split
  · exact .refl w
  · next first p found =>
    dsimp only
    split
    · next i next =>
      exact released.trans (acts_giveTurn _ (turn.turn first p i found (.inl (List.mem_of_head? next))))
    · exact released

theorem MayTurn.setWorker (h : MayTurn L w k) (here : w.Mine id k) (k' : Worker) :
    MayTurn L (w.setTask id (.worker k')) k := by
  obtain ⟨k₀, there, -⟩ := here
  exact h.back fun _ => progress?_setWorker there

theorem acts_endWorker (here : w.Mine id k) (ends : L.change id k.phase .over)
    (turn : MayTurn L w k) (o : FanOut.Outcome) : Acts L w (w.endWorker id k o) := by
  have ended := acts_setWorker here (.inr ends)
  have handed : Acts L w ((w.setTask id (.worker { k with phase := .over })).handOn k) :=
    ended.trans (acts_handOn (turn.setWorker here _))
  exact (handed.trans (acts_updateProgress _ turn.sets _)).trans (acts_wake _ k.gatherer)

theorem progress?_congr {g : TaskId} (same : w'.task? g = w.task? g) :
    w'.progress? g = w.progress? g := by
  rw [progress?, progress?, same]

/-- To give up a task changes no progress. -/
theorem progress?_abort {g : TaskId} {y : TaskId × FanOut.Progress}
    (found : (w.abort id).progress? g = some y) : w.progress? g = some y := by
  unfold abort at found
  split at found
  · next c here =>
    split at found
    · exact found
    · rw [progress?_congr (congrArg (·[g]?) (tasks_wake _ id))] at found
      by_cases same : id = g
      · subst same
        rw [progress?, task?_setTask_self here] at found
        rw [progress?, here]
        exact found
      · rwa [progress?_congr (task?_setTask_ne _ same)] at found
  · next k here =>
    split at found
    · exact found
    · rw [progress?_congr (congrArg (·[g]?) (tasks_wake _ id))] at found
      exact progress?_setWorker here found
  · exact found

theorem progress?_pollWait {wait : Wait} {g : TaskId} {y : TaskId × FanOut.Progress}
    (found : (w.pollWait wait).2.progress? g = some y) : w.progress? g = some y := by
  unfold pollWait at found
  split at found
  · rwa [progress?_congr (task?_fire w wait.own g)] at found
  · split at found
    · rw [progress?_congr (task?_fire _ wait.own g)] at found
      exact progress?_abort found
    · exact found

theorem acts_pollCalling (here : w.Mine id k) {wait : Wait} (below : L.base <:+ wait.own)
    (calling : .calling wait = k.phase ∨ L.change id k.phase (.calling wait))
    (ends : L.change id k.phase .over) (turn : MayTurn L w k) :
    Acts L w (w.pollCalling id k wait) := by
  have polled : Acts L w (w.pollWait wait).2 := acts_pollWait w below
  have still : (w.pollWait wait).2.Mine id k :=
    here.acts (acts_pollWait w List.nil_suffix)
  have turn' : MayTurn L (w.pollWait wait).2 k := turn.back fun _ => progress?_pollWait
  unfold pollCalling
  split
  · next o w₁ heq =>
    rw [heq] at polled still turn'
    exact polled.trans (acts_endWorker still ends turn' o)
  · next w₁ heq =>
    rw [heq] at polled still
    exact polled.trans (acts_setWorker still calling)

theorem startCall_below {r : Registry} {tool : String} {inputs : Fields Json} {signal : Signal}
    {limit : Option Nat} {caller : TaskId} {wait : Wait}
    (h : startCall r w tool inputs signal limit caller = (.ok wait, w')) : signal <:+ wait.own := by
  unfold startCall at h
  split at h
  · cases h
  · cases h
    exact List.suffix_cons _ _

theorem acts_beginCalling (r : Registry) (here : w.Mine id k) (below : L.base <:+ k.signal)
    (calling : ∀ wait : Wait, k.signal <:+ wait.own → L.change id k.phase (.calling wait))
    (ends : L.change id k.phase .over) (turn : MayTurn L w k) :
    Acts L w (w.beginCalling r id k) := by
  unfold beginCalling
  split
  · next f w₁ heq =>
    obtain ⟨-, -, rfl⟩ := startCall_error heq
    exact acts_endWorker here ends turn _
  · next wait w₁ heq =>
    have started := acts_startCall r w k.query.tool k.query.inputs below none id
    have still : (startCall r w k.query.tool k.query.inputs k.signal none id).2.Mine id k :=
      here.acts (acts_startCall r w _ _ List.nil_suffix none id)
    have alone : Within (fun _ => False) w
        (startCall r w k.query.tool k.query.inputs k.signal none id).2 := within_startCall ..
    rw [heq] at started still alone
    have own := startCall_below heq
    exact started.trans (acts_pollCalling still (below.trans own) (.inr (calling wait own)) ends
      (turn.back fun _ => progress?_of_within alone fun h => h))

theorem acts_endAbortedWorker (here : w.Mine id k) (turn : MayTurn L w k)
    (waits : ∀ wait, k.phase = .calling wait → L.base <:+ wait.own)
    (ends : L.change id k.phase .over) : Acts L w (w.endAbortedWorker id k) := by
  have ended := acts_setWorker here (.inr ends)
  have turn' := turn.setWorker here { k with phase := .over }
  unfold endAbortedWorker
  dsimp only
  split
  · next wait calling =>
    have fired := ended.trans (Act.fire (waits wait calling)).acts
    exact fired.trans (acts_handOn (turn'.back fun y found => by
      rwa [progress?_congr (task?_fire _ wait.own _)] at found))
  · exact ended.trans (acts_handOn turn')
  · exact ended.trans (acts_updateProgress _ turn.sets _)
  · exact ended

/-- A worker that goes on makes its call, in the world `m`: it has its turn, or asks for it and has
it at once. -/
inductive Starts (w : World) (k : Worker) : World → Prop where
  | admitted (phase : k.phase = .admitted) : Starts w k w
  | asked {first : TaskId} {p : FanOut.Progress} (phase : k.phase = .fresh)
      (found : (w.updateProgress k.gatherer fun p => p.request k.query.index).progress? k.gatherer =
        some (first, p))
      (inside : k.query.index ∈ p.inside) :
      Starts w k (w.updateProgress k.gatherer fun p => p.request k.query.index)

theorem pollWorker_of_starts {m : World} (kept : k.aborted = false) (starts : Starts w k m)
    (r : Registry) : w.pollWorker r id k = m.beginCalling r id k := by
  cases starts with
  | admitted phase =>
    unfold pollWorker
    simp only [phase, kept]
    rfl
  | asked phase found inside =>
    have asks : w.pollWorker r id k = w.pollAsking r id k := by
      unfold pollWorker
      simp only [phase, kept]
      rfl
    rw [asks, pollAsking, found]
    simp only [List.contains_iff_mem.mpr inside, if_true]

theorem progress?_updateProgress_of {g first : TaskId} {p : FanOut.Progress}
    (h : w.progress? g = some (first, p)) (f : FanOut.Progress → FanOut.Progress) :
    (w.updateProgress g f).progress? g = some (first, f p) := by
  unfold progress? at h
  split at h
  · next c here =>
    split at h
    · next plan first' p' gathering =>
      cases h
      rw [updateProgress_gathering here gathering]
      exact progress?_gathering (task?_setTask_self here) rfl
    · cases h
  · cases h

/-- It waits for its turn, or looks after its call, or ends: without a turn, when its fan-out
gathers no more or has given it up. -/
theorem acts_silent (r : Registry) (here : w.task? id = some (.worker k))
    (silent : k.aborted = false → ∀ m, ¬ Starts w k m)
    (waits : ∀ wait, k.phase = .calling wait → L.base <:+ wait.own)
    (asks : k.phase = .fresh → L.change id k.phase .queued)
    (ends : k.aborted = true ∨ w.progress? k.gatherer = none ∨ (∃ wait, k.phase = .calling wait) →
      L.change id k.phase .over)
    (turn : MayTurn L w k) : Acts L w (w.pollWorker r id k) := by
  have mine : w.Mine id k := ⟨k, here, .refl k, rfl⟩
  unfold pollWorker
  split
  · exact .refl w
  · split
    · next given => exact acts_endAbortedWorker mine turn waits (ends (.inl given))
    · next kept =>
      have silent := silent (by simpa using kept)
      split
      · next fresh =>
        have asked : Acts L w (w.updateProgress k.gatherer fun p => p.request k.query.index) :=
          acts_updateProgress w turn.sets _
        have still : (w.updateProgress k.gatherer fun p => p.request k.query.index).Mine id k :=
          mine.acts (acts_updateProgress w trivial _)
        unfold pollAsking
        dsimp only
        split
        · next lost =>
          have lost : w.progress? k.gatherer = none := by
            cases found : w.progress? k.gatherer with
            | none => rfl
            | some y =>
              rw [progress?_updateProgress_of found] at lost
              cases lost
          exact asked.trans (acts_setWorker still (.inr (ends (.inr (.inl lost)))))
        · next first p found =>
          split
          · next inside =>
            exact absurd (.asked fresh found (List.contains_iff_mem.mp inside)) (silent _)
          · exact asked.trans (acts_setWorker still (.inr (asks fresh)))
      · next admitted => exact absurd (.admitted admitted) (silent w)
      · next wait calling =>
        exact acts_pollCalling mine (waits wait calling) (.inl calling.symm)
          (ends (.inr (.inr ⟨wait, calling⟩))) turn
      · exact .refl w

/-- A worker that makes its call does so with its turn. -/
theorem acts_starts {m : World} (r : Registry) (here : w.task? id = some (.worker k))
    (kept : k.aborted = false) (starts : Starts w k m) (below : L.base <:+ k.signal)
    (calling : ∀ wait : Wait, k.signal <:+ wait.own → L.change id k.phase (.calling wait))
    (ends : L.change id k.phase .over) (turn : MayTurn L w k) :
    Acts L w (w.pollWorker r id k) := by
  have mine : w.Mine id k := ⟨k, here, .refl k, rfl⟩
  rw [pollWorker_of_starts kept starts r]
  cases starts with
  | admitted => exact acts_beginCalling r mine below calling ends turn
  | asked =>
    have asked : Acts L w (w.updateProgress k.gatherer fun p => p.request k.query.index) :=
      acts_updateProgress w turn.sets _
    refine asked.trans (acts_beginCalling r (mine.acts (acts_updateProgress w trivial _)) below
      calling ends ⟨turn.sets, fun first p i found waits => ?_⟩)
    obtain ⟨p₀, before, rfl⟩ := progress?_updateProgress found
    refine turn.turn first p₀ i before ?_
    rcases waits with waits | own
    · by_cases own : i = k.query.index
      · exact .inr own
      · exact .inl ((FanOut.Progress.mem_waiting_request own).mp waits)
    · exact .inr own

end World
end Runbook.Schedule
