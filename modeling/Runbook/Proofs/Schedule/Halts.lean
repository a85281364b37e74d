import Runbook.Proofs.Schedule.Calm

/-!
# Workers that never start

A fan-out whose time is up, or which is told of a failure that it does not put up with, ends as soon
as it goes on (`Doomed`). A worker that it finds without a call then never makes one, if none of
those in line before the fan-out is the worker itself (`Held`).
-/

set_option autoImplicit false

namespace Runbook.Schedule.World

open FanOut (Progress)

variable {r : Registry} {w w' : World} {me id x : TaskId} {c c' : Call} {k : Worker}
  {ready : List TaskId} {plan : FanOut.Plan} {first : TaskId} {p p' : Progress}

/-! ## 1. In line before another -/

/-- The task is in line, and the other is not before it. -/
def Ahead (w : World) (id x : TaskId) : Prop :=
  ∃ before after, w.ready = before ++ id :: after ∧ x ∉ before

theorem Ahead.busy (h : w.Ahead id x) : w.ready ≠ [] := by
  obtain ⟨before, after, line, -⟩ := h
  simp [line]

/-- It is not the turn of the other. -/
theorem Ahead.ne_of_heads (h : w.Ahead id x) (heads : w.Heads me ready) (other : x ≠ id)
    (worker : w.HasWorker x) : x ≠ me := by
  rintro rfl
  obtain ⟨before, after, line, apart⟩ := h
  rcases heads with head | ⟨-, -, outside⟩
  · cases before with
    | nil => exact other (List.cons.inj (head.symm.trans line)).1
    | cons y before =>
      obtain ⟨rfl, -⟩ := List.cons.inj (head.symm.trans line)
      exact apart List.mem_cons_self
  · exact outside worker

/-- Whoever is in line stays there when the first has its turn, and nobody gets before it. -/
theorem Turn.stays (h : Turn r w me ready w') (heads : w.Heads me ready) (other : me ≠ id)
    {before after : List TaskId} (line : w.ready = before ++ id :: after) :
    ∃ before' after', w'.ready = before' ++ id :: after' ∧ ∀ x ∈ before', x ∈ before := by
  obtain ⟨more, grown⟩ := h.spares.ready
  have grown : w'.ready = ready ++ more := grown.symm
  rcases heads with head | ⟨same, -⟩
  · cases before with
    | nil => exact absurd (List.cons.inj (head.symm.trans line)).1 other
    | cons y before =>
      have rest : ready = before ++ id :: after := (List.cons.inj (head.symm.trans line)).2
      refine ⟨before, after ++ more, ?_, fun x hx => List.mem_cons_of_mem y hx⟩
      rw [grown, rest, List.append_assoc, List.cons_append]
  · refine ⟨before, after ++ more, ?_, fun x hx => hx⟩
    rw [grown, same, line, List.append_assoc, List.cons_append]

/-- The first in line goes on, and the others move up. -/
theorem turn_in_line {pause : Option Pause} (ordered : Ordered r w) {before after : List TaskId}
    (line : w.ready = me :: (before ++ id :: after)) (stepped : w.step r = (pause, w')) :
    ∃ ready after', Turn r w me ready w' ∧ w'.ready = before ++ id :: after' := by
  obtain ⟨me', ready, head, turn⟩ := turn_of_next ordered (by simp [line]) stepped
  obtain ⟨rfl, rfl⟩ := List.cons.inj (head.symm.trans line)
  obtain ⟨more, grown⟩ := turn.spares.ready
  have grown : w'.ready = before ++ id :: after ++ more := grown.symm
  exact ⟨_, after ++ more, turn, by rw [grown, List.append_assoc, List.cons_append]⟩

theorem Ahead.turn (h : w.Ahead id x) (heads : w.Heads me ready) (turn : Turn r w me ready w')
    (other : me ≠ id) : w'.Ahead id x := by
  obtain ⟨before, after, line, apart⟩ := h
  obtain ⟨before', after', line', sub⟩ := turn.stays heads other line
  exact ⟨before', after', line', fun there => apart (sub x there)⟩

/-! ## 2. A fan-out that is about to end -/

/-- Why a fan-out ends when it goes on. -/
inductive Doom (w : World) (c : Call) (plan : FanOut.Plan) (p : Progress) : Prop where
  | late (h : w.isLate c = true)
  | failed {front back : List FanOut.Answer} {q : FanOut.Query} {f : Failure}
      (fast : plan.failFast = true) (finished : p.finished = front ++ (q, .error f) :: back)

/-- The fan-out gathers, and ends when it goes on. -/
def Doomed (w : World) (id : TaskId) : Prop :=
  ∃ c plan first p, w.task? id = some (.call c) ∧ c.phase = .gathering plan first p ∧
    Doom w c plan p

/-- A failure that is not put up with is not looked past. -/
theorem look_failed (arrived : List QueryResult) {front back : List FanOut.Answer}
    {q : FanOut.Query} {f : Failure} :
    ∃ e, Progress.look true arrived (front ++ (q, .error f) :: back) = .error e := by
  induction front generalizing arrived with
  | nil => exact ⟨_, rfl⟩
  | cons a front ih =>
    obtain ⟨q', o⟩ := a
    cases o with
    | ok o => exact ih _
    | error f' => exact ⟨_, rfl⟩

/-- The first failure is the one that is reported. -/
theorem look_firstFailure {arrived : List QueryResult} {front back : List FanOut.Answer}
    {q : FanOut.Query} {f : Failure} (sound : ∀ a ∈ front, ∃ o, a.2 = .ok o) :
    Progress.look true arrived (front ++ (q, .error f) :: back) =
      .error (FanOut.firstFailure q f) := by
  induction front generalizing arrived with
  | nil => rfl
  | cons a front ih =>
    obtain ⟨⟨o, same⟩, later⟩ := List.forall_mem_cons.mp sound
    obtain ⟨q', o'⟩ := a
    obtain rfl : o' = .ok o := same
    exact ih later

/-- What comes of a fan-out that gathers when it goes on: it ends, or it has looked at what has
finished and goes on gathering. -/
theorem gathering_pollCall (here : w.task? id = some (.call c))
    (gathering : c.phase = .gathering plan first p)
    (others : ∀ i, i < plan.queries.length → first + i ≠ id) :
    (∃ (m : World) (e : CallEnd), m.Open id c ∧ m.timers = w.timers ∧
        w.pollCall r id c = m.endCall id c e) ∨
      c.aborted = false ∧ w.isLate c = false ∧ ∃ arrived,
        Progress.look plan.failFast p.arrived p.finished = .ok arrived ∧
          w.pollCall r id c = w.setTask id (.call { c with
            phase := .gathering plan first { p with arrived, finished := [] } }) := by
  have open_ : w.Open id c := ⟨c, here, by simp [gathering], .refl c⟩
  rw [pollCall_gathering r w id gathering]
  split
  · exact .inl ⟨_, _, open_.abortWorkers others, timers_abortWorkers .., rfl⟩
  · next kept =>
    unfold pollGathering
    split
    · exact .inl ⟨_, _, (open_.fire c.signal).abortWorkers others,
        (timers_abortWorkers ..).trans (timers_fire ..), rfl⟩
    · next arrived looked =>
      split
      · exact .inl ⟨_, _, open_, rfl, rfl⟩
      · split
        · exact .inl ⟨_, _, open_.abortWorkers others, timers_abortWorkers .., rfl⟩
        · next timely =>
          exact .inr ⟨Bool.eq_false_iff.mpr kept, Bool.eq_false_iff.mpr timely, arrived, looked,
            rfl⟩

/-- **A doomed fan-out ends** when it goes on. -/
theorem doomed_pollCall (here : w.task? id = some (.call c))
    (gathering : c.phase = .gathering plan first p)
    (others : ∀ i, i < plan.queries.length → first + i ≠ id) (doom : Doom w c plan p) :
    ∃ c' e, (w.pollCall r id c).task? id = some (.call c') ∧ c'.phase = .over e := by
  rcases gathering_pollCall (r := r) here gathering others with
    ⟨m, e, still, -, same⟩ | ⟨-, timely, arrived, looked, -⟩
  · rw [same]
    exact ⟨_, e, task?_endCall still e, rfl⟩
  · cases doom with
    | late late => cases timely.symm.trans late
    | failed fast finished =>
      rw [fast, finished] at looked
      obtain ⟨e, failed⟩ := look_failed p.arrived
      cases failed.symm.trans looked

/-- What dooms a fan-out remains while others have their turns. -/
theorem Doomed.turn (h : w.Doomed id) (turn : Turn r w me ready w') (other : me ≠ id) :
    w'.Doomed id := by
  obtain ⟨c, plan, first, p, here, gathering, doom⟩ := h
  obtain ⟨c', there, spared⟩ := turn.spares.call id c (Ne.symm other) here
  obtain ⟨p', gathering', more⟩ :
      ∃ p', c'.phase = .gathering plan first p' ∧ p.finished <+: p'.finished := by
    rcases spared.phase with same | ⟨plan', first', p₁, p', before, after, more⟩
    · exact ⟨p, same.trans gathering, List.prefix_rfl⟩
    · cases gathering.symm.trans before
      exact ⟨p', after, more⟩
  refine ⟨c', plan, first, p', there, gathering', ?_⟩
  cases doom with
  | late late =>
    refine .late ?_
    rwa [isLate, spared.deadline, turn.spares.now]
  | failed fast finished =>
    obtain ⟨rest, grown⟩ := more
    exact .failed fast (by rw [← grown, finished, List.append_assoc, List.cons_append])

/-- **A doomed fan-out has ended** when it has had its turn. -/
theorem Doomed.ends (h : w.Doomed id) (ordered : Ordered r w) (turn : Turn r w id ready w') :
    ∃ c e, w'.task? id = some (.call c) ∧ c.phase = .over e := by
  obtain ⟨c, plan, first, p, here, gathering, doom⟩ := h
  obtain ⟨⟨answers, gathers⟩, -⟩ := (ordered.sane.calls id c (by simp) here).gathering plan first p
    gathering
  rw [turn.call c here]
  refine doomed_pollCall (w := { w with ready }) here gathering
    (fun i small => gathers.apart here small)
    ?_
  cases doom with
  | late late => exact .late late
  | failed fast finished => exact .failed fast finished

/-! ## 3. Workers that never start -/

/-- The worker of the fan-out has made no call and will make none: it has ended or has been given
up, or will be before it goes on. -/
structure Held (w : World) (id x : TaskId) : Prop where
  worker : ∃ k, w.task? x = some (.worker k) ∧ k.gatherer = id ∧
    (k.phase = .over ∨ k.aborted = true ∨ w.Doomed id ∧ w.Ahead id x)
  idle : ∀ y c, w.task? y = some (.call c) → c.caller ≠ x

theorem Doomed.ne_of_worker (h : w.Doomed id) (here : w.task? x = some (.worker k)) : x ≠ id := by
  rintro rfl
  obtain ⟨c, plan, first, p, call, -⟩ := h
  cases here.symm.trans call

/-- A held worker makes no call when it has its turn. -/
theorem Held.silent (h : w.Held id x) (heads : w.Heads x ready) :
    ¬ MayMake { w with ready } x := by
  obtain ⟨⟨k, here, gatherer, why⟩, -⟩ := h
  rintro (⟨k', here', kept, m, starts⟩ | ⟨s, client⟩)
  · cases here.symm.trans here'
    rcases why with isOver | given | ⟨doomed, ahead⟩
    · exact starts.early (by simp [isOver, WorkerPhase.Begun])
    · cases kept.symm.trans given
    · exact ahead.ne_of_heads heads (doomed.ne_of_worker here) ⟨k, here⟩ rfl
  · cases here.symm.trans client

/-- **When the first in line has its turn**, a held worker makes no call. -/
theorem Held.turn (h : w.Held id x) (ordered : Ordered r w) (ordered' : Ordered r w')
    (heads : w.Heads me ready) (turn : Turn r w me ready w') : w'.Held id x := by
  refine ⟨?_, fun y c' there caller => ?_⟩
  · obtain ⟨⟨k, here, gatherer, why⟩, -⟩ := h
    by_cases mine : x = me
    · subst mine
      obtain ⟨k', there, alike, given'⟩ := turn.spares.hand k here
      refine ⟨k', there, alike.gatherer.trans gatherer, ?_⟩
      rcases why with isOver | given | ⟨doomed, ahead⟩
      · exact .inl ((turn.own ordered).ended k k' here there isOver)
      · exact .inr (.inl (given'.trans given))
      · exact absurd rfl (ahead.ne_of_heads heads (doomed.ne_of_worker here) ⟨k, here⟩)
    · obtain ⟨k', there, spared⟩ := turn.spares.worker x k mine here
      refine ⟨k', there, spared.gatherer.trans gatherer, ?_⟩
      rcases why with isOver | given | ⟨doomed, ahead⟩
      · exact .inl ((spared.stays (by simp [isOver])).trans isOver)
      · exact .inr (.inl (spared.given given))
      · by_cases own : me = id
        · subst own
          obtain ⟨c, e, call, isOver⟩ := doomed.ends ordered turn
          exact (ordered'.quit me c e call isOver x k' there
            (spared.gatherer.trans gatherer)).imp_right
            .inl
        · exact .inr (.inr ⟨doomed.turn turn own, ahead.turn heads turn own⟩)
  · rcases turn.spares.wasCall there with ⟨-, may, -, same⟩ | ⟨c, here, alike, -⟩
    · obtain rfl : me = x := same.symm.trans caller
      exact h.silent heads may
    · exact h.idle y c here (alike.caller.symm.trans caller)

theorem Held.beat (h : w.Held id x) (ordered : Ordered r w) (beat : Beat r w w') :
    w'.Held id x := by
  rcases beat.turn ordered with ⟨quiet, moved⟩ | ⟨me, ready, heads, turn⟩
  · obtain ⟨-, -, -, -, tasks, -⟩ := advance?_cases moved
    have same (y : TaskId) : w'.task? y = w.task? y := congrArg (·[y]?) tasks
    obtain ⟨⟨k, here, gatherer, why⟩, idle⟩ := h
    refine ⟨⟨k, (same x).trans here, gatherer, ?_⟩,
      fun y c there => idle y c ((same y).symm.trans there)⟩
    exact why.imp_right (.imp_right fun doomed => absurd quiet doomed.2.busy)
  · exact h.turn ordered (beat.ordered ordered) heads turn

/-- **A held worker never makes a call.** -/
theorem Held.beats (h : w.Held id x) (ordered : Ordered r w) (beats : Beats r w w') :
    w'.Held id x := by
  induction beats with
  | refl => exact h
  | tail later beat ih => exact ih.beat (Beats.ordered later ordered) beat

/-- A worker that has not made its call is held from the moment on at which its fan-out is doomed
and in line before it. -/
theorem Ordered.held (ordered : Ordered r w) (here : w.task? x = some (.worker k))
    (early : ¬ k.phase.Begun)
    (why : k.aborted = true ∨ w.Doomed k.gatherer ∧ w.Ahead k.gatherer x) :
    w.Held k.gatherer x := by
  refine ⟨⟨k, here, rfl, .inr why⟩, fun y c call caller => ?_⟩
  obtain ⟨t, there, begun⟩ := ordered.callers y c call
  rw [caller] at there
  cases here.symm.trans there
  exact early (begun k rfl)

end Runbook.Schedule.World
