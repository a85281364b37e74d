import Runbook.Proofs.Schedule.Deadlines
import Runbook.Proofs.Schedule.FanOut

/-!
# A fan-out whose time is up stops its calls

A fan-out that ends because its time is up lets its workers go, these drop the calls that they have
made, and a call that heeds its signal does not wait any longer. All this happens at the same
moment, in whatever order tasks go on, since no time passes while somebody is in line. So no such
call comes to the end of its work at a later moment, and no worker makes a call once the fan-out has
ended.

If tasks go on in the order of the line, the fan-out is before its workers when its time is up, and
a worker that has no call when that moment comes makes none.
-/

set_option autoImplicit false

namespace Runbook.Schedule.World

variable {r : Registry} {u v w w' : World} {me id x y : TaskId} {c c' : Call} {k : Worker}
  {ready : List TaskId}

/-! ## 1. The end of the work -/

/-- The call is made for a query of the fan-out. -/
def Serves (w : World) (id y : TaskId) (c : Call) : Prop :=
  w.task? y = some (.call c) ∧ ∃ k, w.task? c.caller = some (.worker k) ∧ k.gatherer = id

/-- The call comes to the end of its work when it goes on. -/
def Finishes (w : World) (y : TaskId) : Prop :=
  ∃ c moment work, w.task? y = some (.call c) ∧ c.aborted = false ∧
    c.phase = .waiting moment work ∧ moment ≤ w.now

theorem pollCall_of_finishes (here : w.task? y = some (.call c)) {moment : Nat} {work : Tool.Work}
    (waiting : c.phase = .waiting moment work) (finishes : w.Finishes y) :
    w.pollCall r y c = w.completeWork y c work := by
  obtain ⟨c', moment', work', here', kept, waiting', due⟩ := finishes
  cases here.symm.trans here'
  cases waiting.symm.trans waiting'
  unfold pollCall
  simp [waiting, kept, pollWaiting, due]

theorem notes_endCall (w : World) (id : TaskId) (c : Call) (e : CallEnd) :
    (w.endCall id c e).notes = w.notes := by
  unfold endCall wake
  split <;> rfl

/-- Otherwise nothing is noted of an end. -/
theorem notes_of_not_finishes (here : w.task? y = some (.call c)) {moment : Nat} {work : Tool.Work}
    (waiting : c.phase = .waiting moment work) (not : ¬ w.Finishes y) :
    (w.pollCall r y c).notes = w.notes := by
  unfold pollCall
  simp only [waiting]
  split
  · rw [endAborted, waiting]
    exact notes_endCall w y c _
  · next kept =>
    have early : ¬ moment ≤ w.now := fun due =>
      not ⟨c, moment, work, here, Bool.eq_false_iff.mpr kept, waiting, due⟩
    rw [pollWaiting, if_neg early]
    split
    · exact notes_endCall w y c _
    · split
      · exact notes_endCall w y c _
      · rfl

/-! ## 2. Once time has passed -/

/-- A call that has begun waits on, gathers on, or ends. -/
theorem begun_pollCall (here : w.task? id = some (.call c)) (begun : c.phase ≠ .fresh)
    (others : ∀ plan first p, c.phase = .gathering plan first p →
      ∀ i, i < plan.queries.length → first + i ≠ id)
    (there : (w.pollCall r id c).task? id = some (.call c')) :
    c'.phase = c.phase ∨ (∃ e, c'.phase = .over e) ∨
      ∃ plan first p, c'.phase = .gathering plan first p := by
  have ended {m : World} {e : CallEnd} (call : m.HasCall id)
      (there : (m.endCall id c e).task? id = some (.call c')) : ∃ e, c'.phase = .over e := by
    obtain rfl := ended_endCall call there
    exact ⟨e, rfl⟩
  have still (there' : w.task? id = some (.call c')) : c'.phase = c.phase := by
    cases here.symm.trans there'
    rfl
  unfold pollCall at there
  split at there
  · exact .inl (still there)
  · next unfinished =>
    have open_ : w.Open id c := ⟨c, here, unfinished, .refl c⟩
    split at there
    · unfold endAborted at there
      dsimp only at there
      split at there
      · next plan first p now =>
        exact .inr (.inl (ended (open_.abortWorkers (others plan first p now)).hasCall there))
      · exact .inr (.inl (ended ⟨c, here⟩ there))
    · split at there
      · next fresh => exact absurd fresh begun
      · unfold pollWaiting at there
        split at there
        · next work _ _ => exact .inr (.inl (ended (m := w.note work.ended) ⟨c, here⟩ there))
        · split at there
          · exact .inr (.inl (ended ⟨c, here⟩ there))
          · split at there
            · exact .inr (.inl (ended ⟨c, here⟩ there))
            · exact .inl (still there)
      · next plan first p now =>
        obtain ⟨-, gathered⟩ := gathered_pollGathering open_ (others plan first p now) there
        cases gathered with
        | result x isOver => exact .inr (.inl ⟨_, isOver⟩)
        | late _ ms isOver => exact .inr (.inl ⟨_, isOver⟩)
        | onward _ p' gathering => exact .inr (.inr ⟨plan, first, p', gathering⟩)
      · exact .inl (still there)

/-- All workers of the fan-out have ended, and of the calls that they made none waits but for those
that do not heed their signals. -/
structure Settled (w : World) (id : TaskId) : Prop where
  workers : ∀ x k, w.task? x = some (.worker k) → k.gatherer = id → k.phase = .over
  calls : ∀ y c, w.Serves id y c → c.phase ≠ .fresh ∧
    ∀ moment work, c.phase = .waiting moment work → work.heedsStop = false

/-- **When nobody is in line** any more, the family of a fan-out that has ended is settled. -/
theorem Ordered.settled_of_quiet (ordered : Ordered r w) (quiet : w.ready = [])
    (here : w.task? id = some (.call c)) {e : CallEnd} (isOver : c.phase = .over e) :
    w.Settled id := by
  have nobody (x : TaskId) : x ∉ w.ready := by simp [quiet]
  have workers (x : TaskId) (k : Worker) (there : w.task? x = some (.worker k))
      (gatherer : k.gatherer = id) : k.phase = .over := by
    by_contra unfinished
    have given := (ordered.quit id c e here isOver x k there gatherer).resolve_left unfinished
    exact nobody x (ordered.given x k there given unfinished)
  refine ⟨workers, fun y c' ⟨there, k, maker, gatherer⟩ =>
    ⟨fun fresh => ?_, fun moment work waiting => ?_⟩⟩
  · exact nobody y ((ordered.sane.calls y c' (by simp) there).fresh fresh)
  · have ended := workers _ k maker gatherer
    rcases ordered.attended y c' k there maker with ⟨e, isOver⟩ | stopped | ⟨wait, calling, -⟩
    · cases waiting.symm.trans isOver
    · by_contra heeds
      exact nobody y (ordered.heeds y c' moment work there waiting (by simpa using heeds) stopped)
    · cases ended.symm.trans calling

/-- The calls that serve a fan-out did so before, or have just been made. -/
theorem Turn.served (turn : Turn r w me ready w') (ordered : Ordered r w)
    (serves : w'.Serves id y c') :
    (∃ c, w.Serves id y c ∧ c.Alike c' ∧ (y ≠ me → c.Spared (y ∈ w'.ready) c')) ∨
      ∃ k, w.task? me = some (.worker k) ∧ k.gatherer = id ∧ ¬ k.phase.Begun := by
  obtain ⟨there, k', maker, gatherer⟩ := serves
  rcases turn.spares.wasCall there with ⟨-, may, -, caller⟩ | ⟨c, here, alike, spared⟩
  · rw [caller] at maker
    rcases may with ⟨k, hand, -, m, starts⟩ | ⟨s, client⟩
    · obtain ⟨k'', maker', alike, -⟩ := turn.spares.hand k hand
      cases maker.symm.trans maker'
      exact .inr ⟨k, hand, alike.gatherer.symm.trans gatherer, starts.early⟩
    · obtain ⟨s', client'⟩ := turn.spares.client me s client
      cases maker.symm.trans client'
  · obtain ⟨t, caller, -⟩ := ordered.callers y c here
    rw [← alike.caller] at caller
    rcases turn.spares.wasWorker maker with ⟨new, -⟩ | ⟨k, hand, alike', -⟩
    · cases caller.symm.trans new
    · refine .inl ⟨c, ⟨here, k, ?_, alike'.gatherer.symm.trans gatherer⟩, alike, spared⟩
      rw [← alike.caller]
      exact hand

/-- **A settled family** stays so. -/
theorem Settled.turn (h : w.Settled id) (ordered : Ordered r w) (turn : Turn r w me ready w')
    (here : w.task? id = some (.call c)) {e : CallEnd} (isOver : c.phase = .over e) :
    w'.Settled id := by
  refine ⟨fun x k' there gatherer => ?_, fun y c' serves => ?_⟩
  · rcases turn.spares.wasWorker there with ⟨-, ⟨c₀, here', fresh, -⟩, -, same, -⟩ |
      ⟨k, hand, alike, -, spared⟩
    · obtain rfl : me = id := same.symm.trans gatherer
      cases here.symm.trans here'
      cases isOver.symm.trans fresh
    · have ended := h.workers x k hand (alike.gatherer.symm.trans gatherer)
      by_cases mine : x = me
      · subst mine
        exact (turn.own ordered).ended k k' hand there ended
      · exact ((spared mine).stays (by simp [ended])).trans ended
  · rcases turn.served ordered serves with ⟨c₀, before, alike, spared⟩ | ⟨k, hand, gatherer, early⟩
    · obtain ⟨begun, patient⟩ := h.calls y c₀ before
      have phase : c'.phase = c₀.phase ∨ (∃ e, c'.phase = .over e) ∨
          ∃ plan first p, c'.phase = .gathering plan first p := by
        by_cases mine : y = me
        · subst mine
          have there := serves.1
          rw [turn.call c₀ before.1] at there
          refine begun_pollCall (w := { w with ready }) before.1 begun
            (fun plan first p now i small => ?_) there
          obtain ⟨⟨answers, gathers⟩, -⟩ :=
            (ordered.sane.calls y c₀ (by simp) before.1).gathering plan first p now
          exact gathers.apart before.1 small
        · rcases (spared mine).phase with same | ⟨plan, first, -, p, -, after, -⟩
          · exact .inl same
          · exact .inr (.inr ⟨plan, first, p, after⟩)
      rcases phase with same | ⟨e, ended⟩ | ⟨plan, first, p, gathering⟩
      · rw [same]
        exact ⟨begun, patient⟩
      · simp [ended]
      · simp [gathering]
    · exact absurd (h.workers me k hand gatherer ▸ trivial : k.phase.Begun) early

theorem Pulse.later (h : Pulse r w w') (ordered : Ordered r w) : w.now ≤ w'.now := by
  rcases h.turn ordered with ⟨-, moved⟩ | ⟨me, ready, turn⟩
  · exact (follows_of_advance? moved).later
  · exact Nat.le_of_eq turn.spares.now.symm

theorem Pulses.later (h : Pulses r w w') (ordered : Ordered r w) : w.now ≤ w'.now := by
  induction h with
  | refl => exact Nat.le_refl _
  | tail pulses pulse ih => exact Nat.le_trans ih (pulse.later (Pulses.ordered pulses ordered))

/-- **Once time has passed** after the end of a fan-out, its family is settled. -/
theorem Pulses.settled_after (h : Pulses r w w') (ordered : Ordered r w)
    (here : w.task? id = some (.call c)) {e : CallEnd} (isOver : c.phase = .over e) :
    w'.now = w.now ∨ w'.Settled id := by
  induction h with
  | refl => exact .inl rfl
  | @tail m w' pulses pulse ih =>
    have ordered' := Pulses.ordered pulses ordered
    obtain ⟨c', there, -, kept⟩ := Pulses.call pulses ordered here
    rcases pulse.turn ordered' with ⟨quiet, moved⟩ | ⟨me, ready, turn⟩
    · obtain ⟨-, -, -, -, tasks, -⟩ := advance?_cases moved
      have same (x : TaskId) : w'.task? x = m.task? x := congrArg (·[x]?) tasks
      have settled := ordered'.settled_of_quiet quiet there (kept e isOver)
      refine .inr ⟨fun x k here => settled.workers x k ((same x).symm.trans here), ?_⟩
      rintro y c₁ ⟨call, k, maker, gatherer⟩
      exact settled.calls y c₁ ⟨(same y).symm.trans call, k, (same _).symm.trans maker, gatherer⟩
    · refine ih.imp (turn.spares.now.trans ·) fun settled => ?_
      exact settled.turn ordered' turn there (kept e isOver)

/-- A worker that has ended, or has been given up, before it has made its call. -/
structure Quit (w : World) (x : TaskId) : Prop where
  worker : ∃ k, w.task? x = some (.worker k) ∧ (k.phase = .over ∨ k.aborted = true)
  idle : ∀ y c, w.task? y = some (.call c) → c.caller ≠ x

/-- **When a fan-out has ended**, its workers that have no call have quit. -/
theorem Ordered.quits (ordered : Ordered r w) (here : w.task? id = some (.call c)) {e : CallEnd}
    (isOver : c.phase = .over e) (worker : w.task? x = some (.worker k)) (gatherer : k.gatherer = id)
    (early : ¬ k.phase.Begun) : w.Quit x := by
  refine ⟨⟨k, worker, ordered.quit id c e here isOver x k worker gatherer⟩,
    fun y c' call caller => ?_⟩
  obtain ⟨t, there, begun⟩ := ordered.callers y c' call
  rw [caller] at there
  cases worker.symm.trans there
  exact early (begun k rfl)

/-- **Whoever has a turn**, a worker that has quit makes no call. -/
theorem Quit.turn (h : w.Quit x) (ordered : Ordered r w) (turn : Turn r w me ready w') :
    w'.Quit x := by
  obtain ⟨⟨k, here, quit⟩, idle⟩ := h
  refine ⟨?_, fun y c' there caller => ?_⟩
  · by_cases mine : x = me
    · subst mine
      obtain ⟨k', there, -, given⟩ := turn.spares.hand k here
      exact ⟨k', there, quit.imp ((turn.own ordered).ended k k' here there) (given.trans ·)⟩
    · obtain ⟨k', there, spared⟩ := turn.spares.worker x k mine here
      exact ⟨k', there, quit.imp (fun isOver => (spared.stays (by simp [isOver])).trans isOver)
        spared.given⟩
  · rcases turn.spares.wasCall there with ⟨-, may, -, mine⟩ | ⟨c, call, alike, -⟩
    · obtain rfl : me = x := mine.symm.trans caller
      rcases may with ⟨k', here', kept, m, starts⟩ | ⟨s, client⟩
      · cases here.symm.trans here'
        rcases quit with isOver | given
        · exact starts.early (by simp [isOver, WorkerPhase.Begun])
        · cases kept.symm.trans given
      · cases here.symm.trans client
    · exact idle y c call (alike.caller.symm.trans caller)

/-- **In whatever order tasks go on**, it never makes one. -/
theorem Pulses.quit (h : Pulses r w w') (ordered : Ordered r w) (quit : w.Quit x) : w'.Quit x := by
  induction h with
  | refl => exact quit
  | tail pulses pulse ih =>
    rcases pulse.turn (Pulses.ordered pulses ordered) with ⟨-, moved⟩ | ⟨me, ready, turn⟩
    · obtain ⟨-, -, -, -, tasks, -⟩ := advance?_cases moved
      obtain ⟨⟨k, here, why⟩, idle⟩ := ih
      exact ⟨⟨k, (congrArg (·[x]?) tasks).trans here, why⟩,
        fun y c there => idle y c ((congrArg (·[y]?) tasks).symm.trans there)⟩
    · exact ih.turn (Pulses.ordered pulses ordered) turn

/-! ## 3. A fan-out that ends because its time is up -/

/-- A fan-out that gathers goes on to do so, with its deadline, until it ends. -/
theorem Ordered.gathers_on (ordered : Ordered r w) (pulse : Pulse r w w')
    (here : w.task? id = some (.call c)) {plan : FanOut.Plan} {first : TaskId}
    {p : FanOut.Progress} (gathering : c.phase = .gathering plan first p) :
    ∃ c', w'.task? id = some (.call c') ∧ ((∃ e, c'.phase = .over e) ∨
      ∃ p', c'.phase = .gathering plan first p' ∧ c'.deadline = c.deadline) := by
  obtain ⟨c', there, alike, -⟩ := pulse.call ordered here
  refine ⟨c', there, ?_⟩
  rcases pulse.turn ordered with ⟨-, moved⟩ | ⟨me, ready, turn⟩
  · obtain ⟨-, -, -, -, tasks, -⟩ := advance?_cases moved
    cases here.symm.trans ((congrArg (·[id]?) tasks).symm.trans there)
    exact .inr ⟨p, gathering, rfl⟩
  by_cases own : id = me
  · subst own
    have poised := ordered.sane.poised here turn.others
    have open_ : World.Open { w with ready } id c := ⟨c, here, by simp [gathering], .refl c⟩
    cases fanOutTurn_pollCall (w := { w with ready }) here (by simp [gathering]) poised
      (ordered.body_of_gathering here gathering) (turn.call c here) there with
    | refused e isOver => exact .inl ⟨e, isOver⟩
    | begins fresh => cases gathering.symm.trans fresh
    | gathers now same =>
      cases gathering.symm.trans now
      subst same
      obtain ⟨answers, gathers⟩ := poised.gathering _ _ _ now
      obtain ⟨kept, gathered⟩ := gathered_pollGathering open_ (gathers.ne_of_open open_) there
      cases gathered with
      | result x isOver => exact .inl ⟨_, isOver⟩
      | late _ ms isOver => exact .inl ⟨_, isOver⟩
      | onward _ p' after => exact .inr ⟨p', after, kept⟩
  · obtain ⟨c'', there', spared⟩ := turn.spares.call id c own here
    cases there.symm.trans there'
    rcases spared.phase with same | ⟨plan', first', p', p'', before, after, -⟩
    · exact .inr ⟨p, same.trans gathering, spared.deadline⟩
    · cases gathering.symm.trans before
      exact .inr ⟨p'', after, spared.deadline⟩

/-- If it ends at this moment because its time is up, this is its deadline. -/
theorem Pulses.time_is_up (pulses : Pulses r u w) (ordered : Ordered r u) (timely : u.Timely)
    (here : u.task? id = some (.call c)) {plan : FanOut.Plan} {first : TaskId} {p : FanOut.Progress}
    (gathering : c.phase = .gathering plan first p)
    (there : w.task? id = some (.call c')) {ms : Nat}
    (late : c'.phase = .over (.timedOut ms)) (same : w.now = u.now) : c.deadline = some u.now := by
  induction pulses using Relation.ReflTransGen.head_induction_on generalizing c p with
  | refl =>
    cases here.symm.trans there
    cases gathering.symm.trans late
  | @head u m pulse rest ih =>
    have ordered' := pulse.ordered ordered
    have now : m.now = u.now :=
      Nat.le_antisymm (same ▸ Pulses.later rest ordered') (pulse.later ordered)
    obtain ⟨c₁, next, ⟨e, isOver⟩ | ⟨p₁, gathering', kept⟩⟩ :=
      ordered.gathers_on pulse here gathering
    · -- it has just ended, and so at its deadline
      obtain ⟨c₂, there₂, alike, stays⟩ := Pulses.call rest ordered' next
      cases there.symm.trans there₂
      cases late.symm.trans (stays e isOver)
      have body : c₁.tool.body = .fanOut := by
        obtain ⟨c₃, next₃, alike₃, -⟩ := pulse.call ordered here
        cases next.symm.trans next₃
        rw [alike₃.tool]
        exact ordered.body_of_gathering here gathering
      obtain ⟨-, c₀, here₀, fresh | ⟨_, _, _, -, deadline⟩⟩ :=
        ordered.ends_on_time timely pulse (fun c₀ e here₀ isOver => by
          cases here.symm.trans here₀
          cases gathering.symm.trans isOver) next body isOver
      · cases here.symm.trans here₀
        cases gathering.symm.trans fresh
      · cases here.symm.trans here₀
        exact now ▸ deadline
    · rw [← kept, ← now]
      exact ih ordered' (pulse.timely ordered timely) next gathering' (same.trans now.symm)

/-- **In the order of the line**, a worker that has no call at the moment at which the time of its
fan-out is up is held. -/
theorem held_at_deadline (reached : Beats r {} u) (beats : Beats r u w) (same : w.now = u.now)
    (there : w.task? id = some (.call c')) {ms : Nat} (late : c'.phase = .over (.timedOut ms))
    (here : u.task? x = some (.worker k)) (gatherer : k.gatherer = id) (early : ¬ k.phase.Begun) :
    u.Held id x := by
  subst gatherer
  have ordered := ordered_of_beats reached
  obtain ⟨c, call, body⟩ := ordered.crew x k here
  obtain ⟨c₁, call₁, begun⟩ := (ordered.sane.crew x k here).resolve_left nofun
  cases call.symm.trans call₁
  refine ordered.held here early ?_
  by_cases ended : ∃ e, c.phase = .over e
  · obtain ⟨e, isOver⟩ := ended
    refine .inl ((ordered.quit _ c e call isOver x k here rfl).resolve_left fun isOver => early ?_)
    simp [isOver, WorkerPhase.Begun]
  · obtain ⟨plan, first, p, answers, phase, gathers⟩ :=
      ordered.sane.gathering call body (fun e isOver => ended ⟨e, isOver⟩) begun
    have deadline := beats.pulses.time_is_up ordered (timely_of_pulses reached.pulses) call phase
      there late same
    obtain ⟨i, small, rfl⟩ := gathers.crew x k here rfl
    obtain ⟨before, after, line, older⟩ := prompt_of_beats reached _ c plan first p call phase deadline
    exact .inr ⟨⟨c, plan, first, p, call, phase, .late (by simp [isLate, deadline])⟩,
      before, after, line, fun inside =>
        absurd (older _ inside) (Nat.not_lt.mpr (Nat.le_add_right first i))⟩

/-- Once a fan-out has ended, a worker that has no turn is given none, whatever happens. -/
theorem Moves.turnless {m : World} (moves : Moves r w m) (sane : Sane r none w)
    (here : w.task? id = some (.call c)) {e : CallEnd} (isOver : c.phase = .over e)
    (worker : w.task? x = some (.worker k)) (gatherer : k.gatherer = id)
    (waits : ¬ k.phase.Admitted) :
    ∃ k', m.task? x = some (.worker k') ∧ k'.gatherer = id ∧ ¬ k'.phase.Admitted := by
  induction moves with
  | refl => exact ⟨k, worker, gatherer, waits⟩
  | @tail m m' moves move ih =>
    obtain ⟨k₁, before, gatherer₁, waits₁⟩ := ih
    obtain ⟨k₂, there, alike, goes⟩ := goes_of_move (Moves.sane moves sane) move before
    obtain ⟨c', call, grows⟩ := (Moves.trans moves move.moves).call sane here
    refine ⟨k₂, there, alike.gatherer.trans gatherer₁, fun admitted => ?_⟩
    rcases goes.admitted admitted with had | unended
    · exact waits₁ had
    · exact unended c' e (gatherer₁ ▸ call) (grows.isOver e isOver)

/-- **Whatever happens after the end** of a fan-out, a worker that has no turn makes no call. -/
theorem Moves.silent {m m' : World} (moves : Moves r w m) (sane : Sane r none w)
    (here : w.task? id = some (.call c)) {e : CallEnd} (isOver : c.phase = .over e)
    (worker : w.task? x = some (.worker k)) (gatherer : k.gatherer = id)
    (waits : ¬ k.phase.Admitted) : ¬ MakesCall r m x m' := by
  rintro ⟨before, -, -, starts⟩
  obtain ⟨k', there, gatherer', waits'⟩ := moves.turnless sane here isOver worker gatherer waits
  obtain ⟨c', call, grows⟩ := moves.call sane here
  cases before.symm.trans there
  cases starts with
  | admitted phase => exact waits' (by simp [phase, WorkerPhase.Admitted])
  | asked _ found =>
    obtain ⟨p, gathers, -⟩ := progress?_updateProgress found
    have gone : World.progress? m id = none := by
      rw [progress?, call]
      simp only [grows.isOver e isOver]
    cases (gatherer' ▸ gathers).symm.trans gone

/-- The fan-out has ended because its time was up. -/
structure TimedOut (w : World) (id : TaskId) (c : Call) (ms : Nat) : Prop where
  here : w.task? id = some (.call c)
  body : c.tool.body = .fanOut
  isOver : c.phase = .over (.timedOut ms)

/-- **A fan-out that ends because its time is up stops its calls.** Whatever happens from then on, a
worker that has no turn makes no call.

If no time passes while somebody is in line, and in whatever order those go on who are: it ends at
its deadline, no call of it that heeds its signal comes to the end of its work, if that is at a later
moment, and no worker of it that has no call ever makes one.

In the order of the line, this is so of every worker that has no call when the moment has come, even
before the fan-out has gone on. -/
theorem time_up_stops_calls (r : Registry) (id : TaskId) (ms : Nat) :
    (∀ w c, Moves r {} w → w.TimedOut id c ms → ∀ x k, w.task? x = some (.worker k) →
        k.gatherer = id → ¬ k.phase.Admitted → ∀ m m', Moves r w m → ¬ MakesCall r m x m') ∧
      (∀ v w c, Pulses r {} v → Pulse r v w →
        (∀ c e, v.task? id = some (.call c) → c.phase ≠ .over e) → w.TimedOut id c ms →
          c.deadline = some w.now ∧
          (∀ w' y c' moment work, Pulses r w w' → w'.Serves id y c' →
            c'.phase = .waiting moment work → work.heedsStop = true → w.now < moment →
              ¬ w'.Finishes y) ∧
          ∀ x k, w.task? x = some (.worker k) → k.gatherer = id → ¬ k.phase.Begun →
            ∀ w' y c', Pulses r w w' → w'.task? y = some (.call c') → c'.caller ≠ x) ∧
      ∀ u w c, Beats r {} u → Beats r u w → w.TimedOut id c ms → u.now = w.now →
        ∀ x k, u.task? x = some (.worker k) → k.gatherer = id → ¬ k.phase.Begun →
          ∀ w' y c', Beats r w w' → w'.task? y = some (.call c') → c'.caller ≠ x := by
  refine ⟨?whatever, ?anyOrder, ?inLine⟩
  case whatever =>
    intro w c reached out x k worker gatherer waits m m' later
    exact later.silent (reached.sane (sane_empty r)) out.here out.isOver worker gatherer waits
  case anyOrder =>
    intro v w c reached pulse before ⟨here, body, late⟩
    have ordered := ordered_of_pulses reached
    have ordered' := pulse.ordered ordered
    refine ⟨(ordered.ends_on_time (timely_of_pulses reached) pulse before here body late).1, ?_, ?_⟩
    · rintro w' y c' moment work later serves waiting heeds ahead
        ⟨c₁, moment₁, work₁, there, -, now, due⟩
      cases serves.1.symm.trans there
      cases waiting.symm.trans now
      rcases later.settled_after ordered' here late with same | settled
      · omega
      · cases heeds.symm.trans ((settled.calls y c' serves).2 moment work waiting)
    · intro x k worker gatherer early w' y c' later call
      have quit := ordered'.quits here late worker gatherer early
      exact (later.quit ordered' quit).idle y c' call
  case inLine =>
    intro u w c reached beats out same x k worker gatherer early w' y c' later call
    have ordered := ordered_of_beats reached
    have held := held_at_deadline reached beats same.symm out.here out.isOver worker gatherer early
    exact ((held.beats ordered beats).beats (beats.ordered ordered) later).idle y c' call

/-- Two queries that take five milliseconds each, one at a time. -/
def napInputs : Fields Json :=
  [("queries", .arr [.obj [("tool", .str "say"), ("wait", .nat 5)],
      .obj [("tool", .str "say"), ("wait", .nat 5)]]), ("max_workers", .nat 1)]

def napRegistry : Registry := sayRegistry.register FanOut.tool

/-- The time of the fan-out is up after three. -/
def napCall : World :=
  let (signal, maker, _, w) := callWorld none
  (startCall napRegistry w FanOut.tool.name napInputs signal (some 3) maker).2

def napWaits : World := (napCall.settle napRegistry 20).2

/-- The moment has come. -/
def napUp : World := napWaits.advance?.getD napWaits

def napEnds : World := (napUp.step napRegistry).2

theorem time_up_stops_calls_nap :
    ∃ c k k' c' work, Moves napRegistry {} napEnds ∧ Beats napRegistry {} napUp ∧
      Pulse napRegistry napUp napEnds ∧
      (∀ c e, napUp.task? 2 = some (.call c) → c.phase ≠ .over e) ∧ napEnds.TimedOut 2 c 3 ∧
      (napEnds.Serves 2 5 c' ∧ c'.phase = .waiting 5 work ∧ work.heedsStop = true ∧
        napEnds.now < 5) ∧
      (napEnds.task? 4 = some (.worker k) ∧ k.gatherer = 2 ∧ ¬ k.phase.Admitted ∧
        ¬ k.phase.Begun) ∧
      (napUp.task? 4 = some (.worker k') ∧ k'.gatherer = 2 ∧ ¬ k'.phase.Begun ∧
        napUp.now = napEnds.now) ∧
      c.deadline = some napEnds.now ∧ ¬ napEnds.Finishes 5 ∧
      (∀ m m', Moves napRegistry napEnds m → ¬ MakesCall napRegistry m 4 m') ∧
      (∀ w' y c', Pulses napRegistry napEnds w' → w'.task? y = some (.call c') → c'.caller ≠ 4) ∧
      ∀ w' y c', Beats napRegistry napEnds w' → w'.task? y = some (.call c') → c'.caller ≠ 4 := by
  obtain ⟨came, client⟩ := beats_of_callWorld (r := napRegistry) none
  have called : Beats napRegistry {} napCall :=
    came.trans (beats_of_startCall client FanOut.tool.name napInputs _ (some 3))
  obtain ⟨_, _, passes, rfl⟩ :=
    passes_settle (rfl : napCall.settle napRegistry 20 = (.quiet, napWaits))
  have tick : Beat napRegistry napWaits napUp := .tick rfl rfl
  have reached : Beats napRegistry {} napUp :=
    (called.trans (beats_of_passes passes)).trans tick.beats
  have stepped : napUp.step napRegistry = (none, napEnds) := rfl
  have beat : Beat napRegistry napUp napEnds := beat_of_step stepped (by simp)
  obtain ⟨c₀, call, ⟨plan, first, p, phase⟩⟩ : ∃ c, napUp.task? 2 = some (.call c) ∧
      ∃ plan first p, c.phase = .gathering plan first p := ⟨_, rfl, _, _, _, rfl⟩
  have before (c : Call) (e : CallEnd) (here : napUp.task? 2 = some (.call c)) :
      c.phase ≠ .over e := by
    cases call.symm.trans here
    simp [phase]
  obtain ⟨c, out⟩ : ∃ c, napEnds.TimedOut 2 c 3 := ⟨_, rfl, rfl, rfl⟩
  obtain ⟨c', work, serves, waiting, heeds⟩ : ∃ c' work, napEnds.Serves 2 5 c' ∧
      c'.phase = .waiting 5 work ∧ work.heedsStop = true := ⟨_, _, ⟨rfl, _, rfl, rfl⟩, rfl, rfl⟩
  obtain ⟨k, worker, gatherer, queued⟩ : ∃ k, napEnds.task? 4 = some (.worker k) ∧ k.gatherer = 2 ∧
      k.phase = .queued := ⟨_, rfl, rfl, rfl⟩
  obtain ⟨k', worker', gatherer', queued'⟩ : ∃ k, napUp.task? 4 = some (.worker k) ∧
      k.gatherer = 2 ∧ k.phase = .queued := ⟨_, rfl, rfl, rfl⟩
  have turnless : ¬ k.phase.Admitted := by simp [queued, WorkerPhase.Admitted]
  have early : ¬ k.phase.Begun := by simp [queued, WorkerPhase.Begun]
  have early' : ¬ k'.phase.Begun := by simp [queued', WorkerPhase.Begun]
  have now : napUp.now = napEnds.now := rfl
  have ahead : napEnds.now < 5 := by decide
  have moved : Moves napRegistry {} napEnds :=
    (((moves_of_callWorld none).trans (moves_of_startCall napRegistry _ _ napInputs _ (some 3) _)).trans
      (moves_of_passes passes)).trans (moves_of_passes (.tick rfl rfl (.work stepped (.refl _))))
  obtain ⟨whatever, anyOrder, inLine⟩ := time_up_stops_calls napRegistry 2 3
  obtain ⟨deadline, stops, never⟩ := anyOrder napUp napEnds c reached.pulses beat.pulse before out
  exact ⟨c, k, k', c', work, moved, reached, beat.pulse, before, out,
    ⟨serves, waiting, heeds, ahead⟩, ⟨worker, gatherer, turnless, early⟩,
    ⟨worker', gatherer', early', now⟩, deadline,
    stops napEnds 5 c' 5 work (.refl _) serves waiting heeds ahead,
    fun m m' => whatever napEnds c moved out 4 k worker gatherer turnless m m',
    never 4 k worker gatherer early,
    inLine napUp napEnds c reached beat.beats out now 4 k' worker' gatherer' early'⟩

end Runbook.Schedule.World
