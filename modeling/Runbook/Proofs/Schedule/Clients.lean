import Runbook.Schedule.Poll

/-!
# What the schedule does for those outside

Whoever is outside of the schedule waits as a client: for moments, for which it has set timers, and
for its signal. `Minds id s w w'` says that nothing of this is lost between two states of the world:
the client is still there, its timers are still set, it stays in line once it is woken, and it is
woken when its signal fires. The moment is the same.

Nothing that a task does breaks this, since tasks are set by their own kind only. So there is one
lemma for each operation of the world, and they are put in a row along the definitions.
-/

set_option autoImplicit false

namespace Runbook.Schedule.World

/-- The timers stand in the order of their moments. -/
def Ascending (ts : List Timer) : Prop := ts.Pairwise fun a b => a.moment ≤ b.moment

/-- The client waits outside with its signal. -/
def HasClient (w : World) (id : TaskId) (s : Signal) : Prop :=
  w.task? id = some (.client (some s))

/-- No time passes, and nothing is lost that the client waits for. -/
structure Minds (id : TaskId) (s : Signal) (w w' : World) : Prop where
  now : w'.now = w.now
  client : w.HasClient id s → w'.HasClient id s
  size : w.tasks.size ≤ w'.tasks.size
  ready : id ∈ w.ready → id ∈ w'.ready
  timers : ∀ t ∈ w.timers, t ∈ w'.timers
  ascending : Ascending w.timers → Ascending w'.timers
  fired : ∀ x, w.isStopped x = true → w'.isStopped x = true
  /-- If its signal fires, the client is woken. -/
  woken : w.HasClient id s → w'.isStopped s = true → w.isStopped s = true ∨ id ∈ w'.ready

namespace Minds

variable {id : TaskId} {s : Signal} {w w' w'' : World}

theorem refl (w : World) : Minds id s w w :=
  ⟨rfl, fun h => h, Nat.le_refl _, fun h => h, fun _ h => h, fun h => h, fun _ h => h,
    fun _ h => .inl h⟩

theorem trans (first : Minds id s w w') (later : Minds id s w' w'') : Minds id s w w'' where
  now := later.now.trans first.now
  client h := later.client (first.client h)
  size := Nat.le_trans first.size later.size
  ready h := later.ready (first.ready h)
  timers t h := later.timers t (first.timers t h)
  ascending h := later.ascending (first.ascending h)
  fired x h := later.fired x (first.fired x h)
  woken there h := by
    rcases later.woken (first.client there) h with h | h
    · exact (first.woken there h).imp_right later.ready
    · exact .inr h

theorem foldl {α : Type} {f : World → α → World} (step : ∀ w a, Minds id s w (f w a))
    (w : World) (as : List α) : Minds id s w (as.foldl f w) := by
  induction as generalizing w with
  | nil => exact .refl w
  | cons a as ih => exact (step w a).trans (ih (f w a))

end Minds

section

variable {id : TaskId} {s : Signal}

/-! ## 1. The world -/

theorem minds_wake (w : World) (me : TaskId) : Minds id s w (w.wake me) := by
  unfold wake
  split
  · exact .refl w
  · exact ⟨rfl, fun h => h, Nat.le_refl _, fun h => List.mem_append_left _ h, fun _ h => h, fun h => h,
      fun _ h => h, fun _ h => .inl h⟩

theorem mem_ready_wake (w : World) (me : TaskId) : me ∈ (w.wake me).ready := by
  unfold wake
  split
  · next there => exact List.contains_iff_mem.mp there
  · simp

theorem mem_ready_wakes {w : World} {ids : List TaskId} {me : TaskId} (h : me ∈ ids) :
    me ∈ (ids.foldl wake w).ready := by
  induction ids generalizing w with
  | nil => cases h
  | cons i ids ih =>
    rcases List.mem_cons.mp h with rfl | h
    · exact (Minds.foldl (s := []) minds_wake (w.wake me) ids).ready (mem_ready_wake w me)
    · exact ih h

/-- Setting a task does not touch a client, unless the client itself is replaced. -/
theorem minds_setTask {w : World} {me : TaskId} (t : Task)
    (other : w.HasClient id s → me ≠ id) : Minds id s w (w.setTask me t) where
  now := rfl
  client h := by
    rw [HasClient, task?, setTask, Array.getElem?_setIfInBounds_ne (other h)]
    exact h
  size := Nat.le_of_eq (Array.size_setIfInBounds ..).symm
  ready h := h
  timers _ h := h
  ascending h := h
  fired _ h := h
  woken _ h := .inl h

/-- A task that is no client can be set. -/
theorem minds_setTask_of {w : World} {me : TaskId} {t' : Task} (t : Task)
    (here : w.task? me = some t') (kind : ∀ watched, t' ≠ .client watched) :
    Minds id s w (w.setTask me t) :=
  minds_setTask t fun there same => by
    subst same
    exact kind _ (Option.some.inj (here.symm.trans there))

theorem task?_push {w : World} {me : TaskId} {t x : Task} (h : w.task? me = some t) :
    (w.tasks.push x)[me]? = some t := by
  obtain ⟨lt, -⟩ := Array.getElem?_eq_some_iff.mp h
  rw [Array.getElem?_push_lt lt, ← Array.getElem?_eq_getElem lt]
  exact h

theorem minds_spawn (w : World) (t : Task) : Minds id s w (w.spawn t).2 where
  now := rfl
  client h := task?_push h
  size := by simp [spawn]
  ready h := List.mem_append_left _ h
  timers _ h := h
  ascending h := h
  fired _ h := h
  woken _ h := .inl h

theorem minds_spawnIdle (w : World) (t : Task) : Minds id s w (w.spawnIdle t).2 where
  now := rfl
  client h := task?_push h
  size := by simp [spawnIdle]
  ready h := h
  timers _ h := h
  ascending h := h
  fired _ h := h
  woken _ h := .inl h

theorem minds_note (w : World) (vs : List Json) : Minds id s w (w.note vs) :=
  ⟨rfl, fun h => h, Nat.le_refl _, fun h => h, fun _ h => h, fun h => h, fun _ h => h, fun _ h => .inl h⟩

theorem minds_newSignal (w : World) (above : Signal) : Minds id s w (w.newSignal above).2 :=
  ⟨rfl, fun h => h, Nat.le_refl _, fun h => h, fun _ h => h, fun h => h, fun _ h => h, fun _ h => .inl h⟩

theorem mem_insertTimer {t x : Timer} {ts : List Timer} :
    x ∈ insertTimer t ts ↔ x = t ∨ x ∈ ts := by
  induction ts with
  | nil => simp [insertTimer]
  | cons y ts ih =>
    rw [insertTimer]
    split
    · exact List.mem_cons
    · rw [List.mem_cons, ih, List.mem_cons, or_left_comm]

theorem ascending_insertTimer {t : Timer} {ts : List Timer} (h : Ascending ts) :
    Ascending (insertTimer t ts) := by
  induction ts with
  | nil => exact List.pairwise_singleton _ t
  | cons y ts ih =>
    obtain ⟨front, later⟩ := List.pairwise_cons.mp h
    rw [insertTimer]
    split
    · next lt =>
      refine List.pairwise_cons.mpr ⟨fun x hx => ?_, h⟩
      rcases List.mem_cons.mp hx with rfl | hx
      · omega
      · exact Nat.le_trans (Nat.le_of_lt lt) (front x hx)
    · next le =>
      refine List.pairwise_cons.mpr ⟨fun x hx => ?_, ih later⟩
      rcases mem_insertTimer.mp hx with rfl | hx
      · omega
      · exact front x hx

theorem minds_setTimer (w : World) (moment : Nat) (me : TaskId) :
    Minds id s w (w.setTimer moment me) where
  now := rfl
  client h := h
  size := Nat.le_refl _
  ready h := h
  timers _ h := mem_insertTimer.mpr (.inr h)
  ascending h := ascending_insertTimer h
  fired _ h := h
  woken _ h := .inl h

theorem hasFired_cons {fired : List Signal} {x : Signal} (y : Signal)
    (h : hasFired fired x = true) : hasFired (y :: fired) x = true := by
  induction x with
  | nil =>
    rw [hasFired] at h ⊢
    simp_all
  | cons n above ih =>
    rw [hasFired, Bool.or_eq_true] at h ⊢
    rcases h with h | h
    · left
      simp_all
    · exact .inr (ih h)

/-- Whoever waits for a signal that has just fired is among those who are woken. -/
theorem mem_watchers {w : World} {fired : List Signal} {t : Task} (there : w.task? id = some t)
    (watches : t.watched? = some s) (now : hasFired fired s = true)
    (before : w.isStopped s ≠ true) : id ∈ w.watchers fired := by
  refine List.mem_filterMap.mpr ⟨(t, id), ?_, ?_⟩
  · rw [List.mem_zipIdx_iff_getElem?, Array.getElem?_toList]
    exact there
  · simp only [watches]
    rw [if_pos]
    rw [isStopped] at before
    simp [now, before]

theorem minds_fire (w : World) (x : Signal) : Minds id s w (w.fire x) := by
  unfold fire
  split
  · exact .refl w
  · have wakes : Minds id s { w with fired := x :: w.fired }
        ((w.watchers (x :: w.fired)).foldl wake { w with fired := x :: w.fired }) :=
      Minds.foldl minds_wake _ _
    refine ⟨wakes.now, wakes.client, wakes.size, wakes.ready, wakes.timers, wakes.ascending,
      fun y h => wakes.fired y (hasFired_cons x h), fun there stopped => ?_⟩
    by_cases before : w.isStopped s = true
    · exact .inl before
    · right
      rcases wakes.woken there stopped with now | woken
      · exact mem_ready_wakes (mem_watchers there rfl now before)
      · exact woken

/-! ## 2. Calls and those who wait for them -/

theorem minds_abort (w : World) (k : TaskId) : Minds id s w (w.abort k) := by
  unfold abort
  split
  · next c here =>
    split
    · exact .refl w
    · exact (minds_setTask_of _ here (by simp)).trans (minds_wake _ k)
  · next c here =>
    split
    · exact .refl w
    · exact (minds_setTask_of _ here (by simp)).trans (minds_wake _ k)
  · exact .refl w

theorem minds_startCall (r : Registry) (w : World) (tool : String) (inputs : Fields Json)
    (signal : Signal) (limit : Option Nat) (caller : TaskId) :
    Minds id s w (startCall r w tool inputs signal limit caller).2 := by
  unfold startCall
  split
  · exact .refl w
  · exact (minds_newSignal w signal).trans (minds_spawn _ _)

theorem minds_pollWait (w : World) (wait : Wait) : Minds id s w (w.pollWait wait).2 := by
  unfold pollWait
  split
  · exact minds_fire w _
  · split
    · exact (minds_abort w _).trans (minds_fire _ _)
    · exact .refl w

theorem minds_dropWait (w : World) (wait : Wait) : Minds id s w (w.dropWait wait) :=
  minds_fire w wait.own

variable {me : TaskId}

theorem minds_endCall (other : me ≠ id) (w : World) (c : Call) (e : CallEnd) :
    Minds id s w (w.endCall me c e) :=
  (minds_setTask _ fun _ => other).trans (minds_wake _ c.caller)

theorem minds_abortWorkers (w : World) (first count : Nat) :
    Minds id s w (w.abortWorkers first count) :=
  Minds.foldl (fun w i => minds_abort w (first + i)) w (List.range count)

theorem minds_completeWork (other : me ≠ id) (w : World) (c : Call) (work : Tool.Work) :
    Minds id s w (w.completeWork me c work) :=
  (minds_note w work.ended).trans (minds_endCall other _ c _)

theorem minds_endLate (other : me ≠ id) (w : World) (c : Call) : Minds id s w (w.endLate me c) :=
  minds_endCall other w c _

theorem minds_setDeadline (w : World) (c : Call) : Minds id s w (w.setDeadline me c) := by
  unfold setDeadline
  split
  · exact minds_setTimer w _ me
  · exact .refl w

theorem minds_pollWaiting (other : me ≠ id) (w : World) (c : Call) (moment : Nat)
    (work : Tool.Work) : Minds id s w (w.pollWaiting me c moment work) := by
  unfold pollWaiting
  split
  · exact minds_completeWork other w c work
  · split
    · exact minds_endCall other w c _
    · split
      · exact minds_endLate other w c
      · exact .refl w

theorem minds_beginAlone (other : me ≠ id) (w : World) (c : Call) (work : Tool.Work) :
    Minds id s w (w.beginAlone me c work) := by
  have noted : Minds id s w (w.note work.began) := minds_note w work.began
  unfold beginAlone
  dsimp only
  split
  · exact noted.trans (minds_completeWork other _ c work)
  · have polled : ∀ t c moment, Minds id s w
        (((w.note work.began).setTask me t).pollWaiting me c moment work) := fun t c moment =>
      (noted.trans (minds_setTask t fun _ => other)).trans (minds_pollWaiting other _ c moment work)
    split
    · exact ((polled _ _ _).trans (minds_setTimer _ _ me)).trans (minds_setDeadline _ _)
    · exact polled _ _ _

theorem minds_pollGathering (other : me ≠ id) (w : World) (c : Call) (plan : FanOut.Plan)
    (first : TaskId) (p : FanOut.Progress) : Minds id s w (w.pollGathering me c plan first p) := by
  unfold pollGathering
  split
  · exact ((minds_fire w c.signal).trans (minds_abortWorkers _ first _)).trans
      (minds_endCall other _ c _)
  · split
    · exact minds_endCall other w c _
    · split
      · exact (minds_abortWorkers w first _).trans (minds_endLate other _ c)
      · exact minds_setTask _ fun _ => other

theorem minds_beginFanOut (other : me ≠ id) (w : World) (r : Registry) (c : Call) :
    Minds id s w (w.beginFanOut r me c) := by
  unfold beginFanOut
  split
  · exact minds_endCall other w c _
  · exact ((Minds.foldl (fun w q => minds_spawn w _) w _).trans
      (minds_pollGathering other _ c _ _ _)).trans (minds_setDeadline _ c)

theorem minds_begin (other : me ≠ id) (w : World) (r : Registry) (c : Call) :
    Minds id s w (w.begin r me c) := by
  unfold begin
  dsimp only
  split
  · exact minds_beginAlone other w _ _
  · exact minds_beginFanOut other w r _

theorem minds_pollFresh (other : me ≠ id) (w : World) (r : Registry) (c : Call) :
    Minds id s w (w.pollFresh r me c) := by
  unfold pollFresh
  split
  · exact minds_begin other w r c
  · split
    · exact minds_begin other w r c
    · exact minds_endCall other w c _
    · exact minds_endCall other w c _

theorem minds_endAborted (other : me ≠ id) (w : World) (c : Call) :
    Minds id s w (w.endAborted me c) := by
  unfold endAborted
  dsimp only
  split
  · exact (minds_abortWorkers w _ _).trans (minds_endCall other _ c _)
  · exact minds_endCall other w c _

theorem minds_pollCall (other : me ≠ id) (w : World) (r : Registry) (c : Call) :
    Minds id s w (w.pollCall r me c) := by
  unfold pollCall
  split
  · exact .refl w
  · split
    · exact minds_endAborted other w c
    · split
      · exact minds_pollFresh other w r c
      · exact minds_pollWaiting other w c _ _
      · exact minds_pollGathering other w c _ _ _
      · exact .refl w

/-! ## 3. Workers -/

theorem minds_updateProgress (w : World) (k : TaskId) (f : FanOut.Progress → FanOut.Progress) :
    Minds id s w (w.updateProgress k f) := by
  unfold updateProgress
  split
  · next c here =>
    split
    · exact minds_setTask_of _ here (by simp)
    · exact .refl w
  · exact .refl w

theorem minds_giveTurn (w : World) (k : TaskId) : Minds id s w (w.giveTurn k) := by
  unfold giveTurn
  split
  · next c here =>
    split
    · exact (minds_setTask_of _ here (by simp)).trans (minds_wake _ k)
    · exact .refl w
  · exact .refl w

theorem minds_handOn (w : World) (k : Worker) : Minds id s w (w.handOn k) := by
  unfold handOn
  split
  · exact .refl w
  · dsimp only
    split
    · exact (minds_updateProgress w _ _).trans (minds_giveTurn _ _)
    · exact minds_updateProgress w _ _

theorem minds_endWorker (other : me ≠ id) (w : World) (k : Worker) (o : FanOut.Outcome) :
    Minds id s w (w.endWorker me k o) :=
  (((minds_setTask _ fun _ => other).trans (minds_handOn _ k)).trans
    (minds_updateProgress _ _ _)).trans (minds_wake _ k.gatherer)

theorem minds_endAbortedWorker (other : me ≠ id) (w : World) (k : Worker) :
    Minds id s w (w.endAbortedWorker me k) := by
  have ended := minds_setTask (s := s) (w := w) (.worker { k with phase := .over }) fun _ => other
  unfold endAbortedWorker
  dsimp only
  split
  · exact (ended.trans (minds_dropWait _ _)).trans (minds_handOn _ k)
  · exact ended.trans (minds_handOn _ k)
  · exact ended.trans (minds_updateProgress _ _ _)
  · exact ended

theorem minds_pollCalling (other : me ≠ id) (w : World) (k : Worker) (wait : Wait) :
    Minds id s w (w.pollCalling me k wait) := by
  have polled : Minds id s w (w.pollWait wait).2 := minds_pollWait w wait
  unfold pollCalling
  split
  · next o w' heq =>
    rw [heq] at polled
    exact polled.trans (minds_endWorker other _ k o)
  · next w' heq =>
    rw [heq] at polled
    exact polled.trans (minds_setTask _ fun _ => other)

theorem minds_beginCalling (other : me ≠ id) (w : World) (r : Registry) (k : Worker) :
    Minds id s w (w.beginCalling r me k) := by
  have started : Minds id s w
      (startCall r w k.query.tool k.query.inputs k.signal none me).2 := minds_startCall ..
  unfold beginCalling
  split
  · next f w' heq =>
    rw [heq] at started
    exact started.trans (minds_endWorker other _ k _)
  · next wait w' heq =>
    rw [heq] at started
    exact started.trans (minds_pollCalling other _ k wait)

theorem minds_pollAsking (other : me ≠ id) (w : World) (r : Registry) (k : Worker) :
    Minds id s w (w.pollAsking r me k) := by
  have asked : Minds id s w
      (w.updateProgress k.gatherer fun p => p.request k.query.index) := minds_updateProgress ..
  unfold pollAsking
  dsimp only
  split
  · exact asked.trans (minds_setTask _ fun _ => other)
  · split
    · exact asked.trans (minds_beginCalling other _ r k)
    · exact asked.trans (minds_setTask _ fun _ => other)

theorem minds_pollWorker (other : me ≠ id) (w : World) (r : Registry) (k : Worker) :
    Minds id s w (w.pollWorker r me k) := by
  unfold pollWorker
  split
  · exact .refl w
  · split
    · exact minds_endAbortedWorker other w k
    · split
      · exact minds_pollAsking other w r k
      · exact minds_beginCalling other w r k
      · exact minds_pollCalling other w k _
      · exact .refl w

/-! ## 4. The schedule -/

/-- The first task in line is taken out of it. -/
theorem minds_ready {w : World} {ready : List TaskId} (line : w.ready = me :: ready)
    (other : me ≠ id) : Minds id s w { w with ready } where
  now := rfl
  client h := h
  size := Nat.le_refl _
  ready h := by
    rw [line] at h
    exact (List.mem_cons.mp h).resolve_left (Ne.symm other)
  timers _ h := h
  ascending h := h
  fired _ h := h
  woken _ h := .inl h

/-- Nobody loses anything when another task goes on. -/
theorem minds_step {w w' : World} {r : Registry} (other : ∀ ready, w.ready ≠ id :: ready)
    (h : w.step r = (none, w')) : Minds id s w w' := by
  unfold step at h
  split at h
  · cases h
  · next me ready line =>
    have other : me ≠ id := fun same => other ready (same ▸ line)
    dsimp only at h
    split at h
    · cases h
      exact (minds_ready line other).trans (minds_pollCall other _ r _)
    · cases h
      exact (minds_ready line other).trans (minds_pollWorker other _ r _)
    · cases h
    · cases h
      exact minds_ready line other

/-- **No client loses anything when a task goes on.** -/
theorem minds_step_of_client {w w' : World} {r : Registry} (there : w.HasClient id s)
    (h : w.step r = (none, w')) : Minds id s w w' := by
  refine minds_step (fun ready line => ?_) h
  -- in line first, the client itself would have its turn
  have here : ({ w with ready } : World).task? id = some (.client (some s)) := there
  rw [step, line] at h
  simp only [here] at h
  cases h

/-- When the schedule stops for a client, it has only taken the client out of the line. -/
theorem step_client {w w' : World} {r : Registry} (h : w.step r = (some (.client me), w')) :
    w.ready = me :: w'.ready ∧ w' = { w with ready := w'.ready } := by
  unfold step at h
  split at h
  · cases h
  · next first ready line =>
    dsimp only at h
    split at h
    · cases h
    · cases h
    · cases h
      exact ⟨line, rfl⟩
    · cases h

end
end Runbook.Schedule.World
