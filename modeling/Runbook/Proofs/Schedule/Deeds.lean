import Runbook.Proofs.Schedule.Turns

/-!
# What a task does to the others

An act (`Act`) says what a task does, and to whom it may do it; a *deed* says who does it. Of the
deeds of one task the others see little: they are woken, given up, given a turn, and nobody but the
task itself is set otherwise (`Spares`). Whoever is woken stands at the end of the line. A worker
that waits for its turn is woken only by being given it or by being given up, so it is not in line.
-/

set_option autoImplicit false

namespace Runbook.Schedule

/-- How far another worker has come: it may have been given a turn, or been given up. -/
structure Worker.Spared (line : Prop) (k k' : Worker) : Prop extends k.Alike k' where
  phase : k'.phase = k.phase ∨ k.phase = .queued ∧ k'.phase = .admitted
  given : k.aborted = true → k'.aborted = true
  /-- One that has just been given up is in line. -/
  up : k'.aborted = true → k.aborted = true ∨ line

theorem Worker.Spared.refl {line : Prop} (k : Worker) : k.Spared line k :=
  ⟨.refl k, .inl rfl, fun h => h, .inl⟩

theorem Worker.Spared.trans {line line' : Prop} {k k' k'' : Worker} (first : k.Spared line k')
    (later : k'.Spared line' k'') (still : line → line') : k.Spared line' k'' where
  toAlike := first.toAlike.trans later.toAlike
  phase := by
    rcases first.phase with same | ⟨queued, admitted⟩
    · rw [← same]
      exact later.phase
    · rcases later.phase with same | ⟨queued', -⟩
      · exact .inr ⟨queued, same.trans admitted⟩
      · cases admitted.symm.trans queued'
  given h := later.given (first.given h)
  up h := (later.up h).elim (fun given => (first.up given).imp_right still) .inr

/-- A turn is given to those only who wait for it. -/
theorem Worker.Spared.stays {line : Prop} {k k' : Worker} (h : k.Spared line k')
    (out : k.phase ≠ .queued) : k'.phase = k.phase :=
  h.phase.resolve_right fun given => out given.1

/-- How far another call has come: it may have been given up, or told of its workers, of whom some
may have finished. -/
structure Call.Spared (line : Prop) (c c' : Call) : Prop extends c.Alike c' where
  phase : c'.phase = c.phase ∨ ∃ plan first p p', c.phase = .gathering plan first p ∧
    c'.phase = .gathering plan first p' ∧ p.finished <+: p'.finished
  deadline : c'.deadline = c.deadline
  /-- One that has just been given up is in line. -/
  up : c'.aborted = true → c.aborted = true ∨ line

theorem Call.Spared.refl {line : Prop} (c : Call) : c.Spared line c :=
    ⟨.refl c, .inl rfl, rfl, .inl⟩

theorem Call.Spared.trans {line line' : Prop} {c c' c'' : Call} (first : c.Spared line c')
    (later : c'.Spared line' c'') (still : line → line') : c.Spared line' c'' where
  toAlike := first.toAlike.trans later.toAlike
  phase := by
    rcases first.phase with same | ⟨plan, from_, p, p', before, after, more⟩
    · rw [← same]
      exact later.phase
    · rcases later.phase with same | ⟨plan', from', q, q', before', after', more'⟩
      · exact .inr ⟨plan, from_, p, p', before, same.trans after, more⟩
      · cases after.symm.trans before'
        exact .inr ⟨plan, from_, p, q', before, after', more.trans more'⟩
  deadline := later.deadline.trans first.deadline
  up h := (later.up h).elim (fun given => (first.up given).imp_right still) .inr

/-- Others end no call. -/
theorem Call.Spared.stays {line : Prop} {c c' : Call} (h : c.Spared line c')
    (alone : ∀ plan first p, c.phase ≠ .gathering plan first p) : c'.phase = c.phase :=
  h.phase.resolve_right fun ⟨plan, first, p, _, gathering, _⟩ => alone plan first p gathering

theorem Call.Spared.stayed {line : Prop} {c c' : Call} (h : c.Spared line c')
    (alone : ∀ plan first p, c'.phase ≠ .gathering plan first p) : c'.phase = c.phase :=
  h.phase.resolve_right fun ⟨plan, first, _, p, _, gathering, _⟩ => alone plan first p gathering

namespace World

variable {hires makes : Prop} {w w' w'' : World} {me x y : TaskId} {c c' : Call} {k k' : Worker}

/-! ## 1. Deeds -/

/-- There is the task, and it does not wait for a turn, unless it has been given up. -/
def Rousable (w : World) (x : TaskId) : Prop :=
  ∃ t, w.task? x = some t ∧ ∀ k, t = .worker k → k.phase = .queued → k.aborted = true

/-- There is the task, and it is no worker. -/
def HasBoss (w : World) (x : TaskId) : Prop := ∃ t, w.task? x = some t ∧ ∀ k, t ≠ .worker k

def HasWorker (w : World) (x : TaskId) : Prop := ∃ k, w.task? x = some (.worker k)

/-- One thing that the task `me` does. It hires workers and makes calls only if it may; clients come
at any time. -/
inductive Deed (hires makes : Prop) (me : TaskId) (w : World) : World → Prop where
  | note (vs : List Json) : Deed hires makes me w (w.note vs)
  | timer (moment : Nat) (boss : w.HasBoss me) : Deed hires makes me w (w.setTimer moment me)
  | wake {x : TaskId} (may : w.Rousable x) : Deed hires makes me w (w.wake x)
  | fire (s : Signal) : Deed hires makes me w (w.fire s)
  | abort {x : TaskId} (other : x ≠ me) (may : w.HasCall x ∨ w.HasCall me) :
      Deed hires makes me w (w.abort x)
  | call {c c' : Call} (here : w.task? me = some (.call c)) (alike : c.Alike c') :
      Deed hires makes me w (w.setTask me (.call c'))
  | worker {k k' : Worker} (here : w.task? me = some (.worker k)) (alike : k.Alike k')
      (given : k'.aborted = k.aborted) (line : k'.phase = .queued → me ∉ w.ready) :
      Deed hires makes me w (w.setTask me (.worker k'))
  | progress (hand : w.HasWorker me) (g : TaskId) (f : FanOut.Progress → FanOut.Progress)
      (more : ∀ p, p.finished <+: (f p).finished) : Deed hires makes me w (w.updateProgress g f)
  | turn (hand : w.HasWorker me) (x : TaskId) : Deed hires makes me w (w.giveTurn x)
  | hire {k : Worker} {c : Call} (may : hires) (here : w.task? me = some (.call c))
      (body : c.tool.body = .fanOut) (fresh : k.phase = .fresh) (gatherer : k.gatherer = me) :
      Deed hires makes me w (w.spawn (.worker k)).2
  | arrive (watched : Option Signal) : Deed hires makes me w (w.spawnIdle (.client watched)).2
  | watch {s : Option Signal} (here : w.task? me = some (.client s)) (s' : Option Signal) :
      Deed hires makes me w (w.setTask me (.client s'))
  | name (above : Signal) : Deed hires makes me w (w.newSignal above).2
  | make {c : Call} {above : Signal} {t : Task} (may : makes) (here : w.task? me = some t)
      (fresh : c.phase = .fresh) (caller : c.caller = me) :
      Deed hires makes me w ((w.newSignal above).2.spawn (.call c)).2

/-- Any number of deeds of one task. -/
def Deeds (hires makes : Prop) (me : TaskId) : World → World → Prop :=
  Relation.ReflTransGen (Deed hires makes me)

theorem Deeds.refl (w : World) : Deeds hires makes me w w := Relation.ReflTransGen.refl

theorem Deed.deeds (h : Deed hires makes me w w') : Deeds hires makes me w w' :=
  Relation.ReflTransGen.single h

theorem Deeds.trans (first : Deeds hires makes me w w') (later : Deeds hires makes me w' w'') :
    Deeds hires makes me w w'' :=
  Relation.ReflTransGen.trans first later

/-- The task may do no less. -/
theorem Deed.imp {hires' makes' : Prop} (h : Deed hires makes me w w') (hire : hires → hires')
    (make : ∀ t, w.task? me = some t → makes → makes') : Deed hires' makes' me w w' := by
  cases h with
  | note vs => exact .note vs
  | timer moment boss => exact .timer moment boss
  | wake may => exact .wake may
  | fire s => exact .fire s
  | abort other may => exact .abort other may
  | call here alike => exact .call here alike
  | worker here alike given line => exact .worker here alike given line
  | progress hand g f more => exact .progress hand g f more
  | turn hand x => exact .turn hand x
  | hire may here body fresh gatherer => exact .hire (hire may) here body fresh gatherer
  | arrive watched => exact .arrive watched
  | watch here s' => exact .watch here s'
  | name above => exact .name above
  | make may here fresh caller => exact .make (make _ here may) here fresh caller

/-- To give up a task that has not ended sets its flag and wakes it. -/
theorem abort_cases (w : World) (x : TaskId) :
    w.abort x = w ∨
      (∃ c, w.task? x = some (.call c) ∧ (∀ e, c.phase ≠ .over e) ∧
        w.abort x = (w.setTask x (.call { c with aborted := true })).wake x) ∨
      ∃ k, w.task? x = some (.worker k) ∧ k.phase ≠ .over ∧
        w.abort x = (w.setTask x (.worker { k with aborted := true })).wake x := by
  unfold abort
  split
  · next c here =>
    split
    · exact .inl rfl
    · next unfinished => exact .inr (.inl ⟨c, here, fun e isOver => unfinished e isOver, rfl⟩)
  · next k here =>
    split
    · exact .inl rfl
    · next unfinished => exact .inr (.inr ⟨k, here, unfinished, rfl⟩)
  · exact .inl rfl

theorem updateProgress_cases (w : World) (g : TaskId) (f : FanOut.Progress → FanOut.Progress) :
    w.updateProgress g f = w ∨
      ∃ c plan first p, w.task? g = some (.call c) ∧ c.phase = .gathering plan first p ∧
        w.updateProgress g f =
          w.setTask g (.call { c with phase := .gathering plan first (f p) }) := by
  unfold updateProgress
  split
  · next c here =>
    split
    · next plan first p gathering => exact .inr ⟨c, plan, first, p, here, gathering, rfl⟩
    · exact .inl rfl
  · exact .inl rfl

theorem giveTurn_cases (w : World) (x : TaskId) :
    w.giveTurn x = w ∨
      ∃ k, w.task? x = some (.worker k) ∧ k.phase = .queued ∧
        w.giveTurn x = (w.setTask x (.worker { k with phase := .admitted })).wake x := by
  unfold giveTurn
  split
  · next k here =>
    split
    · next queued => exact .inr ⟨k, here, queued, rfl⟩
    · exact .inl rfl
  · exact .inl rfl

/-! ## 2. What the others see -/

/-- What becomes of the tasks while `me` goes on. -/
structure Spares (hires makes : Prop) (me : TaskId) (w w' : World) : Prop where
  now : w'.now = w.now
  ready : w.ready <+: w'.ready
  worker : ∀ x k, x ≠ me → w.task? x = some (.worker k) →
    ∃ k', w'.task? x = some (.worker k') ∧ k.Spared (x ∈ w'.ready) k'
  call : ∀ x c, x ≠ me → w.task? x = some (.call c) →
    ∃ c', w'.task? x = some (.call c') ∧ c.Spared (x ∈ w'.ready) c'
  client : ∀ x s, w.task? x = some (.client s) → ∃ s', w'.task? x = some (.client s')
  born : ∀ x, w.task? x = none → w'.task? x = none ∨ (∃ s, w'.task? x = some (.client s)) ∨
    x ≠ me ∧ x ∈ w'.ready ∧
      ((hires ∧ ∃ k, w'.task? x = some (.worker k) ∧ k.phase = .fresh ∧ k.gatherer = me) ∨
        (makes ∧ ∃ c, w'.task? x = some (.call c) ∧ c.phase = .fresh ∧ c.caller = me))
  hand : ∀ k, w.task? me = some (.worker k) →
    ∃ k', w'.task? me = some (.worker k') ∧ k.Alike k' ∧ k'.aborted = k.aborted
  boss : ∀ c, w.task? me = some (.call c) → ∃ c', w'.task? me = some (.call c') ∧ c.Alike c'
  fired : ∀ s, w.isStopped s = true → w'.isStopped s = true
  /-- A call that heeds its signal is woken when it fires. -/
  heeds : ∀ x c moment work, x ≠ me → w.task? x = some (.call c) → c.phase = .waiting moment work →
    work.heedsStop = true → w'.isStopped c.signal = true →
    w.isStopped c.signal = true ∨ x ∈ w'.ready

namespace Spares

theorem refl (w : World) : Spares hires makes me w w where
  now := rfl
  ready := List.prefix_refl _
  worker _ k _ here := ⟨k, here, .refl k⟩
  call _ c _ here := ⟨c, here, .refl c⟩
  client _ s here := ⟨s, here⟩
  born _ none := .inl none
  hand k here := ⟨k, here, .refl k, rfl⟩
  boss c here := ⟨c, here, .refl c⟩
  fired _ h := h
  heeds _ _ _ _ _ _ _ _ stopped := .inl stopped

theorem trans (first : Spares hires makes me w w') (later : Spares hires makes me w' w'') :
    Spares hires makes me w w'' where
  now := later.now.trans first.now
  ready := first.ready.trans later.ready
  worker x k other here := by
    obtain ⟨k', there, left⟩ := first.worker x k other here
    obtain ⟨k'', there', left'⟩ := later.worker x k' other there
    exact ⟨k'', there', left.trans left' fun line => later.ready.subset line⟩
  call x c other here := by
    obtain ⟨c', there, left⟩ := first.call x c other here
    obtain ⟨c'', there', left'⟩ := later.call x c' other there
    exact ⟨c'', there', left.trans left' fun line => later.ready.subset line⟩
  client x s here := by
    obtain ⟨s', there⟩ := first.client x s here
    exact later.client x s' there
  born x none := by
    rcases first.born x none with none' | ⟨s, there⟩ |
      ⟨other, line, ⟨may, k, there, fresh, gatherer⟩ |
      ⟨may, c, there, fresh, caller⟩⟩
    · exact later.born x none'
    · exact .inr (.inl (later.client x s there))
    · obtain ⟨k', there', left⟩ := later.worker x k other there
      exact .inr (.inr ⟨other, later.ready.subset line,
        .inl ⟨may, k', there', (left.stays (by simp [fresh])).trans fresh,
          left.gatherer.trans gatherer⟩⟩)
    · obtain ⟨c', there', left⟩ := later.call x c other there
      exact .inr (.inr ⟨other, later.ready.subset line,
        .inr ⟨may, c', there', (left.stays (by simp [fresh])).trans fresh,
          left.caller.trans caller⟩⟩)
  hand k here := by
    obtain ⟨k', there, alike, given⟩ := first.hand k here
    obtain ⟨k'', there', alike', given'⟩ := later.hand k' there
    exact ⟨k'', there', alike.trans alike', given'.trans given⟩
  boss c here := by
    obtain ⟨c', there, alike⟩ := first.boss c here
    obtain ⟨c'', there', alike'⟩ := later.boss c' there
    exact ⟨c'', there', alike.trans alike'⟩
  fired s h := later.fired s (first.fired s h)
  heeds x c moment work other here waiting heeds stopped := by
    obtain ⟨c', there, left⟩ := first.call x c other here
    have still : c'.phase = .waiting moment work := (left.stays (by simp [waiting])).trans waiting
    rcases later.heeds x c' moment work other there still heeds
      (left.signal ▸ stopped) with stopped' | line
    · exact (first.heeds x c moment work other here waiting heeds
        (left.signal ▸ stopped')).imp_right
        fun line => later.ready.subset line
    · exact .inr line

/-- The tasks are the same ones, and no signal fires. -/
theorem of_tasks (tasks : w'.tasks = w.tasks) (now : w'.now = w.now) (ready : w.ready <+: w'.ready)
    (fired : w'.fired = w.fired) : Spares hires makes me w w' := by
  have same (x : TaskId) : w'.task? x = w.task? x := congrArg (·[x]?) tasks
  have stopped (s : Signal) : w'.isStopped s = w.isStopped s := by rw [isStopped, isStopped, fired]
  exact {
    now, ready
    worker := fun x k _ here => ⟨k, (same x).trans here, .refl k⟩
    call := fun x c _ here => ⟨c, (same x).trans here, .refl c⟩
    client := fun x s here => ⟨s, (same x).trans here⟩
    born := fun x none => .inl ((same x).trans none)
    hand := fun k here => ⟨k, (same me).trans here, .refl k, rfl⟩
    boss := fun c here => ⟨c, (same me).trans here, .refl c⟩
    fired := fun s h => (stopped s).trans h
    heeds := fun _ c _ _ _ _ _ _ h => .inl ((stopped c.signal).symm.trans h) }

/-- One task is set, and someone may be woken. -/
theorem of_set {t t' : Task} (here : w.task? x = some t) (tasks : w'.tasks = (w.setTask x t').tasks)
    (now : w'.now = w.now) (ready : w.ready <+: w'.ready) (fired : w'.fired = w.fired)
    (worker : ∀ k, t = .worker k → ∃ k', t' = .worker k' ∧ (x ≠ me → k.Spared (x ∈ w'.ready) k') ∧
      k.Alike k' ∧ (x = me → k'.aborted = k.aborted))
    (call : ∀ c, t = .call c → ∃ c', t' = .call c' ∧ (x ≠ me → c.Spared (x ∈ w'.ready) c') ∧
      c.Alike c')
    (client : ∀ s, t = .client s → ∃ s', t' = .client s') : Spares hires makes me w w' := by
  have there : w'.task? x = some t' := (congrArg (·[x]?) tasks).trans (task?_setTask_self here)
  have elsewhere {y : TaskId} (h : x ≠ y) : w'.task? y = w.task? y :=
    (congrArg (·[y]?) tasks).trans (task?_setTask_ne t' h)
  have stopped (s : Signal) : w'.isStopped s = w.isStopped s := by rw [isStopped, isStopped, fired]
  refine ⟨now, ready, ?_, ?_, ?_, ?_, ?_, ?_, fun s h => (stopped s).trans h,
    fun _ c _ _ _ _ _ _ h => .inl ((stopped c.signal).symm.trans h)⟩
  · intro y k other here'
    by_cases same : x = y
    · subst same
      obtain ⟨k', rfl, left, -⟩ := worker k (Option.some.inj (here.symm.trans here'))
      exact ⟨k', there, left other⟩
    · exact ⟨k, (elsewhere same).trans here', .refl k⟩
  · intro y c other here'
    by_cases same : x = y
    · subst same
      obtain ⟨c', rfl, left, -⟩ := call c (Option.some.inj (here.symm.trans here'))
      exact ⟨c', there, left other⟩
    · exact ⟨c, (elsewhere same).trans here', .refl c⟩
  · intro y s here'
    by_cases same : x = y
    · subst same
      obtain ⟨s', rfl⟩ := client s (Option.some.inj (here.symm.trans here'))
      exact ⟨s', there⟩
    · exact ⟨s, (elsewhere same).trans here'⟩
  · intro y none
    by_cases same : x = y
    · subst same
      cases here.symm.trans none
    · exact .inl ((elsewhere same).trans none)
  · intro k here'
    by_cases same : x = me
    · subst same
      obtain ⟨k', rfl, -, alike, given⟩ := worker k (Option.some.inj (here.symm.trans here'))
      exact ⟨k', there, alike, given rfl⟩
    · exact ⟨k, (elsewhere same).trans here', .refl k, rfl⟩
  · intro c here'
    by_cases same : x = me
    · subst same
      obtain ⟨c', rfl, -, alike⟩ := call c (Option.some.inj (here.symm.trans here'))
      exact ⟨c', there, alike⟩
    · exact ⟨c, (elsewhere same).trans here', .refl c⟩

/-- A task is added at the end of the line. -/
theorem of_push {t : Task} (tasks : w'.tasks = w.tasks.push t) (now : w'.now = w.now)
    (ready : w'.ready = w.ready ++ [w.tasks.size]) (fired : w'.fired = w.fired)
    (exist : ∃ t, w.task? me = some t)
    (born : (hires ∧ ∃ k, t = .worker k ∧ k.phase = .fresh ∧ k.gatherer = me) ∨
      (makes ∧ ∃ c, t = .call c ∧ c.phase = .fresh ∧ c.caller = me)) :
    Spares hires makes me w w' := by
  have stopped (s : Signal) : w'.isStopped s = w.isStopped s := by rw [isStopped, isStopped, fired]
  have old {y : TaskId} {t' : Task} (here : w.task? y = some t') : w'.task? y = some t' :=
    (congrArg (·[y]?) tasks).trans (task?_push here)
  refine ⟨now, ready ▸ List.prefix_append _ _, fun y k _ here => ⟨k, old here, .refl k⟩,
    fun y c _ here => ⟨c, old here, .refl c⟩, fun y s here => ⟨s, old here⟩, fun y none => ?_,
    fun k here => ⟨k, old here, .refl k, rfl⟩, fun c here => ⟨c, old here, .refl c⟩,
    fun s h => (stopped s).trans h, fun _ c _ _ _ _ _ _ h => .inl ((stopped c.signal).symm.trans h)⟩
  have at_ : w'.task? y = if y = w.tasks.size then some t else w.task? y :=
    (congrArg (·[y]?) tasks).trans (task?_spawn w t y)
  rw [at_]
  split
  · next last =>
    subst last
    refine .inr (.inr ⟨?_, by simp [ready], ?_⟩)
    · rintro rfl
      obtain ⟨t', there⟩ := exist
      cases there.symm.trans none
    · rcases born with ⟨may, k, rfl, rest⟩ | ⟨may, c, rfl, rest⟩
      · exact .inl ⟨may, k, rfl, rest⟩
      · exact .inr ⟨may, c, rfl, rest⟩
  · exact .inl none

end Spares

/-- Someone comes from outside. -/
theorem spares_spawnIdle (w : World) (watched : Option Signal) :
    Spares hires makes me w (w.spawnIdle (.client watched)).2 := by
  have old {y : TaskId} {t : Task} (here : w.task? y = some t) :
      (w.spawnIdle (.client watched)).2.task? y = some t := task?_push here
  exact {
    now := rfl
    ready := List.prefix_rfl
    worker := fun y k _ here => ⟨k, old here, .refl k⟩
    call := fun y c _ here => ⟨c, old here, .refl c⟩
    client := fun y s here => ⟨s, old here⟩
    born := fun y none => by
      rcases task?_spawn_cases w (.client watched) y with ⟨-, new⟩ | same
      · exact .inr (.inl ⟨watched, new⟩)
      · exact .inl (same.trans none)
    hand := fun k here => ⟨k, old here, .refl k, rfl⟩
    boss := fun c here => ⟨c, old here, .refl c⟩
    fired := fun _ h => h
    heeds := fun _ _ _ _ _ _ _ _ h => .inl h }

theorem prefix_wake (w : World) (x : TaskId) : w.ready <+: (w.wake x).ready := by
  unfold wake
  split
  · exact List.prefix_refl _
  · exact List.prefix_append _ _

theorem prefix_wakes (w : World) (ids : List TaskId) : w.ready <+: (ids.foldl wake w).ready := by
  induction ids generalizing w with
  | nil => exact List.prefix_refl _
  | cons id ids ih => exact (prefix_wake w id).trans (ih (w.wake id))

@[simp] theorem now_wake (w : World) (x : TaskId) : (w.wake x).now = w.now := by
  unfold wake
  split <;> rfl

theorem fire_cases (w : World) (s : Signal) :
    w.fire s = w ∨ w.isStopped s = false ∧
      w.fire s = (w.watchers (s :: w.fired)).foldl wake { w with fired := s :: w.fired } := by
  unfold fire
  split
  · exact .inl rfl
  · next unfired => exact .inr ⟨Bool.eq_false_iff.mpr unfired, rfl⟩

theorem spares_fire (w : World) (s : Signal) : Spares hires makes me w (w.fire s) := by
  rcases fire_cases w s with same | ⟨unfired, fires⟩
  · rw [same]
    exact .refl w
  · have tasks (x : TaskId) : (w.fire s).task? x = w.task? x := task?_fire w s x
    obtain ⟨now, -, -, fired⟩ := wakes_keep { w with fired := s :: w.fired }
      (w.watchers (s :: w.fired))
    rw [← fires] at now fired
    exact {
      now
      ready := fires ▸ prefix_wakes { w with fired := s :: w.fired } _
      worker := fun x k _ here => ⟨k, (tasks x).trans here, .refl k⟩
      call := fun x c _ here => ⟨c, (tasks x).trans here, .refl c⟩
      client := fun x s here => ⟨s, (tasks x).trans here⟩
      born := fun x none => .inl ((tasks x).trans none)
      hand := fun k here => ⟨k, (tasks me).trans here, .refl k, rfl⟩
      boss := fun c here => ⟨c, (tasks me).trans here, .refl c⟩
      fired := (within_fire (S := fun _ => False) w s).fired
      heeds := fun x c moment work _ here waiting heeds stopped => by
        by_cases before : w.isStopped c.signal = true
        · exact .inl before
        · refine .inr ?_
          rw [fires]
          refine mem_ready_wakes (mem_watchers here ?_ ?_ before)
          · simp [Task.watched?, waiting, heeds]
          · rwa [isStopped, fired] at stopped }

/-- **What a deed does to the others.** -/
theorem Deed.spares (h : Deed hires makes me w w') : Spares hires makes me w w' := by
  cases h with
  | note | timer => exact .of_tasks rfl rfl (List.prefix_refl _) rfl
  | wake => exact .of_tasks (tasks_wake w _) (now_wake w _) (prefix_wake w _) (fired_wake w _)
  | fire s => exact spares_fire w s
  | @abort x other =>
    rcases abort_cases w x with same | ⟨c, here, -, set⟩ | ⟨k, here, -, set⟩
    · rw [same]
      exact .refl w
    · rw [set]
      refine .of_set here (tasks_wake _ x) (now_wake _ x) (prefix_wake (w.setTask x _) x)
        (fired_wake _ x)
        (by simp) (fun c₁ same => ?_) (by simp)
      cases same
      exact ⟨_, rfl, fun _ => ⟨c.alike_aborted, .inl rfl, rfl, fun _ => .inr (mem_ready_wake _ x)⟩,
        c.alike_aborted⟩
    · rw [set]
      refine .of_set here (tasks_wake _ x) (now_wake _ x) (prefix_wake (w.setTask x _) x)
        (fired_wake _ x)
        (fun k₁ same => ?_) (by simp) (by simp)
      cases same
      exact ⟨_, rfl, fun _ => ⟨k.alike_aborted, .inl rfl, fun _ => rfl,
        fun _ => .inr (mem_ready_wake _ x)⟩, k.alike_aborted, fun same => absurd same other⟩
  | call here alike =>
    refine .of_set here rfl rfl (List.prefix_refl _) rfl (by simp) (fun c₁ same => ?_) (by simp)
    cases same
    exact ⟨_, rfl, fun other => absurd rfl other, alike⟩
  | worker here alike given =>
    refine .of_set here rfl rfl (List.prefix_refl _) rfl (fun k₁ same => ?_) (by simp) (by simp)
    cases same
    exact ⟨_, rfl, fun other => absurd rfl other, alike, fun _ => given⟩
  | progress hand g f more =>
    rcases updateProgress_cases w g f with same | ⟨c, plan, first, p, here, gathering, set⟩
    · rw [same]
      exact .refl w
    · rw [set]
      refine .of_set here rfl rfl (List.prefix_refl _) rfl (by simp) (fun c₁ same => ?_) (by simp)
      cases same
      exact ⟨_, rfl, fun _ => ⟨c.alike_phase _, .inr ⟨plan, first, p, f p, gathering, rfl, more p⟩,
        rfl, .inl⟩, c.alike_phase _⟩
  | turn hand x =>
    rcases giveTurn_cases w x with same | ⟨k, here, queued, set⟩
    · rw [same]
      exact .refl w
    · rw [set]
      refine .of_set here (tasks_wake _ x) (now_wake _ x) (prefix_wake (w.setTask x _) x)
        (fired_wake _ x)
        (fun k₁ same => ?_) (by simp) (by simp)
      cases same
      exact ⟨_, rfl, fun _ => ⟨k.alike_phase _, .inr ⟨queued, rfl⟩, fun h => h, .inl⟩,
        k.alike_phase _, fun _ => rfl⟩
  | arrive watched => exact spares_spawnIdle w watched
  | watch here s' =>
    exact .of_set here rfl rfl (List.prefix_refl _) rfl (by simp) (by simp) fun _ _ => ⟨s', rfl⟩
  | name above => exact .of_tasks rfl rfl (List.prefix_refl _) rfl
  | hire may here body fresh gatherer =>
    exact .of_push rfl rfl rfl rfl ⟨_, here⟩ (.inl ⟨may, _, rfl, fresh, gatherer⟩)
  | make may here fresh caller =>
    exact .of_push rfl rfl rfl rfl ⟨_, here⟩ (.inr ⟨may, _, rfl, fresh, caller⟩)

theorem Deeds.spares (h : Deeds hires makes me w w') : Spares hires makes me w w' := by
  induction h with
  | refl => exact .refl w
  | tail _ deed ih => exact ih.trans deed.spares

/-! ## 3. The line and the timers -/

/-- Nobody is in line twice, nor waits for a turn in line, and timers are in order. -/
structure Tidy (w : World) : Prop where
  once : w.ready.Nodup
  rousable : ∀ x ∈ w.ready, w.Rousable x
  ascending : Ascending w.timers
  bosses : ∀ t ∈ w.timers, w.HasBoss t.task

theorem mem_ready_wake_iff : y ∈ (w.wake x).ready ↔ y ∈ w.ready ∨ y = x := by
  unfold wake
  split
  · next there =>
    refine ⟨.inl, fun h => h.elim id ?_⟩
    rintro rfl
    exact List.contains_iff_mem.mp there
  · simp

@[simp] theorem timers_wake (w : World) (x : TaskId) : (w.wake x).timers = w.timers := by
  unfold wake
  split <;> rfl

@[simp] theorem timers_fire (w : World) (s : Signal) : (w.fire s).timers = w.timers := by
  rcases fire_cases w s with same | ⟨-, fires⟩
  · rw [same]
  · rw [fires, (wakes_keep _ _).2.2.1]

@[simp] theorem timers_abort (w : World) (x : TaskId) : (w.abort x).timers = w.timers := by
  rcases abort_cases w x with same | ⟨_, -, -, set⟩ | ⟨_, -, -, set⟩
  · rw [same]
  · rw [set, timers_wake, setTask]
  · rw [set, timers_wake, setTask]

@[simp] theorem timers_abortWorkers (w : World) (first count : Nat) :
    (w.abortWorkers first count).timers = w.timers := by
  unfold abortWorkers
  induction List.range count generalizing w with
  | nil => rfl
  | cons i is ih => exact (ih _).trans (timers_abort w _)

@[simp] theorem timers_endCall (w : World) (x : TaskId) (c : Call) (e : CallEnd) :
    (w.endCall x c e).timers = w.timers :=
  timers_wake _ _

/-- Whoever watches the signal is there, and is no worker that waits for a turn. -/
theorem rousable_of_mem_watchers {fired : List Signal} (h : x ∈ w.watchers fired) :
    w.Rousable x := by
  obtain ⟨⟨t, y⟩, there, watches⟩ := List.mem_filterMap.mp h
  have here : w.task? y = some t := by
    rw [List.mem_zipIdx_iff_getElem?, Array.getElem?_toList] at there
    exact there
  dsimp only at watches
  split at watches
  · next s watched =>
    split at watches
    · cases watches
      refine ⟨t, here, fun k same queued => ?_⟩
      rw [same, Task.watched?, queued] at watched
      cases watched
    · cases watches
  · cases watches

namespace Tidy

theorem wake (h : w.Tidy) (may : w.Rousable x) : (w.wake x).Tidy where
  once := by
    unfold World.wake
    split
    · exact h.once
    · next apart =>
      have new : x ∉ w.ready := fun hx => apart (List.contains_iff_mem.mpr hx)
      exact List.nodup_append.mpr ⟨h.once, by simp, fun a ha b hb => by
        rw [List.mem_singleton.mp hb]
        rintro rfl
        exact new ha⟩
  rousable y hy := by
    have rousable : w.Rousable y := by
      rcases mem_ready_wake_iff.mp hy with hy | rfl
      · exact h.rousable y hy
      · exact may
    rwa [Rousable, task?, tasks_wake]
  ascending := (timers_wake w x).symm ▸ h.ascending
  bosses t ht := by
    rw [timers_wake] at ht
    rw [HasBoss, task?, tasks_wake]
    exact h.bosses t ht

theorem wakes {ids : List TaskId} (h : w.Tidy) (may : ∀ x ∈ ids, w.Rousable x) :
    (ids.foldl World.wake w).Tidy := by
  induction ids generalizing w with
  | nil => exact h
  | cons x ids ih =>
    obtain ⟨first, later⟩ := List.forall_mem_cons.mp may
    refine ih (h.wake first) fun y hy => ?_
    rw [Rousable, task?, tasks_wake]
    exact later y hy

/-- A task is set that is not made to wait for a turn in line. -/
theorem set {t t' : Task} (h : w.Tidy) (here : w.task? x = some t)
    (kind : (∀ k, t ≠ .worker k) → ∀ k, t' ≠ .worker k)
    (queue : x ∈ w.ready → ∀ k, t' = .worker k → k.phase = .queued → k.aborted = true) :
    (w.setTask x t').Tidy where
  once := h.once
  rousable y hy := by
    rcases task?_setTask_cases here t' y with ⟨rfl, there⟩ | same
    · exact ⟨t', there, queue hy⟩
    · rw [Rousable, same]
      exact h.rousable y hy
  ascending := h.ascending
  bosses u hu := by
    obtain ⟨t₀, boss, other⟩ := h.bosses u hu
    rcases task?_setTask_cases here t' u.task with ⟨same, there⟩ | same
    · rw [same] at boss
      cases here.symm.trans boss
      exact ⟨t', there, kind other⟩
    · rw [HasBoss, same]
      exact ⟨t₀, boss, other⟩

/-- A task is added at the end of the line. -/
theorem push {t : Task} (h : w.Tidy) (tasks : w'.tasks = w.tasks.push t)
    (ready : w'.ready = w.ready ++ [w.tasks.size]) (timers : w'.timers = w.timers)
    (early : ∀ k, t = .worker k → k.phase ≠ .queued) : w'.Tidy where
  once := by
    rw [ready]
    refine List.nodup_append.mpr ⟨h.once, by simp, fun a ha b hb => ?_⟩
    rw [List.mem_singleton.mp hb]
    rintro rfl
    obtain ⟨t', there, -⟩ := h.rousable _ ha
    exact absurd (Array.getElem?_eq_some_iff.mp there).1 (Nat.lt_irrefl _)
  rousable y hy := by
    rw [ready] at hy
    rcases List.mem_append.mp hy with hy | hy
    · obtain ⟨t', there, rest⟩ := h.rousable y hy
      exact ⟨t', (congrArg (·[y]?) tasks).trans (task?_push there), rest⟩
    · obtain rfl := List.mem_singleton.mp hy
      refine ⟨t, ?_, fun k same queued => absurd queued (early k same)⟩
      rw [task?, tasks]
      exact Array.getElem?_push_size
  ascending := timers ▸ h.ascending
  bosses u hu := by
    rw [timers] at hu
    obtain ⟨t', there, other⟩ := h.bosses u hu
    exact ⟨t', (congrArg (·[u.task]?) tasks).trans (task?_push there), other⟩

/-- A task is set and woken. -/
theorem setWake {t t' : Task} (h : w.Tidy) (here : w.task? x = some t)
    (kind : (∀ k, t ≠ .worker k) → ∀ k, t' ≠ .worker k)
    (may : ∀ k, t' = .worker k → k.phase = .queued → k.aborted = true) :
    ((w.setTask x t').wake x).Tidy :=
  (h.set here kind fun _ => may).wake ⟨t', task?_setTask_self here, may⟩

end Tidy

/-- **The line stays tidy.** -/
theorem Deed.tidy (h : Deed hires makes me w w') (tidy : w.Tidy) : w'.Tidy := by
  cases h with
  | note => exact ⟨tidy.once, tidy.rousable, tidy.ascending, tidy.bosses⟩
  | timer moment boss =>
    refine ⟨tidy.once, tidy.rousable, ascending_insertTimer tidy.ascending, fun t ht => ?_⟩
    rcases mem_insertTimer.mp ht with rfl | ht
    · exact boss
    · exact tidy.bosses t ht
  | wake may => exact tidy.wake may
  | fire s =>
    rcases fire_cases w s with same | ⟨-, fires⟩
    · rwa [same]
    · rw [fires]
      exact Tidy.wakes (w := { w with fired := s :: w.fired })
        ⟨tidy.once, tidy.rousable, tidy.ascending, tidy.bosses⟩
        fun x hx => rousable_of_mem_watchers (w := w) hx
  | @abort x =>
    rcases abort_cases w x with same | ⟨c, here, -, set⟩ | ⟨k, here, -, set⟩
    · rwa [same]
    · rw [set]
      exact tidy.setWake here (by simp) (by simp)
    · rw [set]
      refine tidy.setWake here (by simp) fun k' same _ => ?_
      cases same
      rfl
  | call here => exact tidy.set here (by simp) (by simp)
  | worker here alike given line =>
    refine tidy.set here (by simp) fun inLine k' same queued => ?_
    cases same
    exact absurd inLine (line queued)
  | progress hand g f =>
    rcases updateProgress_cases w g f with same | ⟨c, plan, first, p, here, -, set⟩
    · rwa [same]
    · rw [set]
      exact tidy.set here (by simp) (by simp)
  | turn hand x =>
    rcases giveTurn_cases w x with same | ⟨k, here, -, set⟩
    · rwa [same]
    · rw [set]
      refine tidy.setWake here (by simp) fun k' same queued => ?_
      cases same
      cases queued
  | hire may here body fresh =>
    refine tidy.push rfl rfl rfl fun k' same => ?_
    cases same
    simp [fresh]
  | arrive watched =>
    refine ⟨tidy.once, fun x hx => ?_, tidy.ascending, fun t ht => ?_⟩
    · obtain ⟨t, here, rest⟩ := tidy.rousable x hx
      exact ⟨t, task?_push here, rest⟩
    · obtain ⟨t', here, rest⟩ := tidy.bosses t ht
      exact ⟨t', task?_push here, rest⟩
  | watch here => exact tidy.set here (by simp) (by simp)
  | name => exact ⟨tidy.once, tidy.rousable, tidy.ascending, tidy.bosses⟩
  | make => exact tidy.push rfl rfl rfl (by simp)

theorem Deeds.tidy (h : Deeds hires makes me w w') (tidy : w.Tidy) : w'.Tidy := by
  induction h with
  | refl => exact tidy
  | tail _ deed ih => exact deed.tidy ih

/-! ## 4. What was there before -/

theorem Spares.hasCall (h : Spares hires makes me w w') (call : w.HasCall x) : w'.HasCall x := by
  obtain ⟨c, here⟩ := call
  by_cases same : x = me
  · subst same
    obtain ⟨c', there, -⟩ := h.boss c here
    exact ⟨c', there⟩
  · obtain ⟨c', there, -⟩ := h.call x c same here
    exact ⟨c', there⟩

/-- What does not wait for a turn does not begin to, unless it goes on itself. -/
theorem Spares.rousable (h : Spares hires makes me w w') (may : w.Rousable x)
    (own : x = me → w.HasCall me) : w'.Rousable x := by
  obtain ⟨t, here, awake⟩ := may
  cases t with
  | call c =>
    obtain ⟨c', there⟩ := h.hasCall ⟨c, here⟩
    exact ⟨_, there, by simp⟩
  | client s =>
    obtain ⟨s', there⟩ := h.client x s here
    exact ⟨_, there, by simp⟩
  | worker k =>
    have other : x ≠ me := fun same => by
      obtain ⟨c, call⟩ := own same
      cases (same ▸ here).symm.trans call
    obtain ⟨k', there, left⟩ := h.worker x k other here
    refine ⟨_, there, fun k₁ same queued => ?_⟩
    cases same
    rcases left.phase with still | ⟨-, admitted⟩
    · exact left.given (awake k rfl (still ▸ queued))
    · cases admitted.symm.trans queued

theorem Spares.hasWorker (h : Spares hires makes me w w') (there : w.HasWorker x) :
    w'.HasWorker x := by
  obtain ⟨k, here⟩ := there
  by_cases same : x = me
  · subst same
    obtain ⟨k', there, -⟩ := h.hand k here
    exact ⟨k', there⟩
  · obtain ⟨k', there, -⟩ := h.worker x k same here
    exact ⟨k', there⟩

theorem Spares.wasCall (h : Spares hires makes me w w') (there : w'.task? y = some (.call c')) :
    (w.task? y = none ∧ makes ∧ c'.phase = .fresh ∧ c'.caller = me) ∨
      ∃ c, w.task? y = some (.call c) ∧ c.Alike c' ∧ (y ≠ me → c.Spared (y ∈ w'.ready) c') := by
  cases here : w.task? y with
  | none =>
    rcases h.born y here with none | ⟨s, there'⟩ |
      ⟨-, -, ⟨-, k, there', -⟩ | ⟨may, c, there', fresh, caller⟩⟩
    · cases none.symm.trans there
    · cases there.symm.trans there'
    · cases there.symm.trans there'
    · cases there.symm.trans there'
      exact .inl ⟨rfl, may, fresh, caller⟩
  | some t =>
    cases t with
    | client s =>
      obtain ⟨s', there'⟩ := h.client y s here
      cases there.symm.trans there'
    | call c =>
      refine .inr ⟨c, rfl, ?_⟩
      by_cases same : y = me
      · subst same
        obtain ⟨c₁, there', alike⟩ := h.boss c here
        cases there.symm.trans there'
        exact ⟨alike, absurd rfl⟩
      · obtain ⟨c₁, there', spared⟩ := h.call y c same here
        cases there.symm.trans there'
        exact ⟨spared.toAlike, fun _ => spared⟩
    | worker k =>
      by_cases same : y = me
      · subst same
        obtain ⟨k', there', -⟩ := h.hand k here
        cases there.symm.trans there'
      · obtain ⟨k', there', -⟩ := h.worker y k same here
        cases there.symm.trans there'

theorem Spares.wasWorker (h : Spares hires makes me w w') (there : w'.task? x = some (.worker k')) :
    (w.task? x = none ∧ hires ∧ k'.phase = .fresh ∧ k'.gatherer = me ∧ x ∈ w'.ready) ∨
      ∃ k, w.task? x = some (.worker k) ∧ k.Alike k' ∧ (x = me → k'.aborted = k.aborted) ∧
        (x ≠ me → k.Spared (x ∈ w'.ready) k') := by
  cases here : w.task? x with
  | none =>
    rcases h.born x here with none | ⟨s, there'⟩ | ⟨-, line, ⟨may, k, there', fresh, gatherer⟩ |
      ⟨-, c, there', -⟩⟩
    · cases none.symm.trans there
    · cases there.symm.trans there'
    · cases there.symm.trans there'
      exact .inl ⟨rfl, may, fresh, gatherer, line⟩
    · cases there.symm.trans there'
  | some t =>
    cases t with
    | client s =>
      obtain ⟨s', there'⟩ := h.client x s here
      cases there.symm.trans there'
    | call c =>
      by_cases same : x = me
      · subst same
        obtain ⟨c', there', -⟩ := h.boss c here
        cases there.symm.trans there'
      · obtain ⟨c', there', -⟩ := h.call x c same here
        cases there.symm.trans there'
    | worker k =>
      refine .inr ⟨k, rfl, ?_⟩
      by_cases same : x = me
      · subst same
        obtain ⟨k₁, there', alike, given⟩ := h.hand k here
        cases there.symm.trans there'
        exact ⟨alike, fun _ => given, absurd rfl⟩
      · obtain ⟨k₁, there', spared⟩ := h.worker x k same here
        cases there.symm.trans there'
        exact ⟨spared.toAlike, fun h => absurd h same, fun _ => spared⟩

theorem Spares.exist (h : Spares hires makes me w w') {t : Task} (here : w.task? x = some t) :
    ∃ t', w'.task? x = some t' := by
  cases t with
  | client s =>
    obtain ⟨s', there⟩ := h.client x s here
    exact ⟨_, there⟩
  | call c =>
    obtain ⟨c', there⟩ := h.hasCall ⟨c, here⟩
    exact ⟨_, there⟩
  | worker k =>
    by_cases same : x = me
    · subst same
      obtain ⟨k', there, -⟩ := h.hand k here
      exact ⟨_, there⟩
    · obtain ⟨k', there, -⟩ := h.worker x k same here
      exact ⟨_, there⟩

end World
end Runbook.Schedule
