import Runbook.Proofs.Schedule.Acts
import Runbook.Proofs.Schedule.FanOut

/-!
# Workers take turns

A worker makes its call once, when it has its turn (`MakesCall`). `goes_of_move` says how far any
move takes any worker: it comes to its call only by making it, it comes to an end without one only
when its fan-out has given it up or gathers no more, and it is given a turn only while its fan-out
has not ended. `moved_of_move` says what a move does to a call; only the call itself ends it.
-/

set_option autoImplicit false

namespace Runbook.Schedule

/-- The worker has made its call. -/
def WorkerPhase.Begun : WorkerPhase → Prop
  | .calling _ => True
  | .over => True
  | _ => False

/-- The worker waits for its call. -/
def WorkerPhase.Calling : WorkerPhase → Prop
  | .calling _ => True
  | _ => False

theorem WorkerPhase.Calling.begun {a : WorkerPhase} (h : a.Calling) : a.Begun := by
  cases a with
  | calling => trivial
  | _ => exact h.elim

theorem WorkerPhase.Calling.admitted {a : WorkerPhase} (h : a.Calling) : a.Admitted := by
  cases a with
  | calling => trivial
  | _ => exact h.elim

theorem WorkerPhase.Begun.cases {a : WorkerPhase} (h : a.Begun) : a.Calling ∨ a = .over := by
  cases a with
  | calling => exact .inl trivial
  | «over» => exact .inr rfl
  | _ => exact h.elim

/-- How far a worker has come: it makes its call, or ends without, or is given its turn, only if it
may. -/
structure Shift (calls ends turns : Prop) (a b : WorkerPhase) : Prop where
  begun : a.Begun → b.Begun
  calling : b.Calling → a.Calling ∨ calls
  ended : b = .over → a.Begun ∨ calls ∨ ends
  admitted : b.Admitted → a.Admitted ∨ turns

namespace Shift

variable {calls ends turns calls' ends' turns' : Prop} {a b c : WorkerPhase}

theorem refl (a : WorkerPhase) : Shift calls ends turns a a :=
  ⟨fun h => h, .inl, fun h => .inl (h ▸ trivial), .inl⟩

theorem began (h : Shift calls ends turns a b) (begun : b.Begun) : a.Begun ∨ calls ∨ ends := by
  rcases begun.cases with calling | ended
  · exact (h.calling calling).imp WorkerPhase.Calling.begun .inl
  · exact h.ended ended

theorem trans (first : Shift calls ends turns a b) (later : Shift calls ends turns b c) :
    Shift calls ends turns a c where
  begun h := later.begun (first.begun h)
  calling h := (later.calling h).elim first.calling .inr
  ended h := by
    rcases later.ended h with begun | rest
    · exact first.began begun
    · exact .inr rest
  admitted h := (later.admitted h).elim first.admitted .inr

theorem of_closure (h : Relation.ReflTransGen (Shift calls ends turns) a b) :
    Shift calls ends turns a b := by
  induction h with
  | refl => exact .refl a
  | tail _ one ih => exact ih.trans one

theorem imp (h : Shift calls ends turns a b) (made : calls → calls') (stopped : ends → ends')
    (turned : turns → turns') : Shift calls' ends' turns' a b where
  begun := h.begun
  calling b := (h.calling b).imp_right made
  ended b := (h.ended b).imp_right (.imp made stopped)
  admitted b := (h.admitted b).imp_right turned

theorem call (made : calls) (turned : a.Admitted ∨ turns) (early : ¬ a.Begun) (wait : Wait) :
    Shift calls ends turns a (.calling wait) :=
  ⟨fun h => absurd h early, fun _ => .inr made, by simp, fun _ => turned⟩

theorem stop (h : a.Begun ∨ calls ∨ ends) : Shift calls ends turns a .over :=
  ⟨fun _ => trivial, fun h => h.elim, fun _ => h, fun h => h.elim⟩

theorem wait (early : ¬ a.Begun) : Shift calls ends turns a .queued :=
  ⟨fun h => absurd h early, fun h => h.elim, by simp, fun h => h.elim⟩

theorem turn (turned : turns) : Shift calls ends turns .queued .admitted :=
  ⟨fun h => h.elim, fun h => h.elim, by simp, fun _ => .inr turned⟩

end Shift

namespace World

variable {r : Registry} {w w' w'' : World} {id x me : TaskId} {c c' : Call} {k k' : Worker}
  {ready : List TaskId}

/-! ## 1. A worker makes its call -/

/-- The worker goes on and makes the call for its query. -/
inductive MakesCall (r : Registry) (w : World) (x : TaskId) : World → Prop where
  | mk {k : Worker} {ready : List TaskId} {m : World} (here : w.task? x = some (.worker k))
      (others : ∀ y ∈ w.ready, y ≠ x → y ∈ ready) (kept : k.aborted = false)
      (starts : Starts { w with ready } k m) : MakesCall r w x (m.beginCalling r x k)

theorem MakesCall.move (h : MakesCall r w x w') : Move r w w' := by
  cases h with
  | mk here others kept starts =>
    rw [← pollWorker_of_starts kept starts r]
    exact .worker here others

/-- A worker whose query has been answered is over. -/
theorem over_endWorker (here : w.Mine id k) (o : FanOut.Outcome) :
    ∃ k', (w.endWorker id k o).task? id = some (.worker k') ∧ k'.phase = .over := by
  obtain ⟨k₀, there, -⟩ := here
  let turns : Leave := ⟨[], fun _ => True, fun _ => True, fun _ a b => a = .queued ∧ b = .admitted⟩
  have handed : Acts turns (w.setTask id (.worker { k with phase := .over }))
      ((w.setTask id (.worker { k with phase := .over })).handOn k) :=
    acts_handOn ⟨trivial, fun _ _ _ _ _ => ⟨rfl, rfl⟩⟩
  have rest : Acts turns (w.setTask id (.worker { k with phase := .over })) (w.endWorker id k o) :=
    (handed.trans (acts_updateProgress _ trivial _)).trans (acts_wake _ k.gatherer)
  obtain ⟨k', after, -, change⟩ := rest.worker (task?_setTask_self there)
  refine ⟨k', after, ?_⟩
  rcases Relation.ReflTransGen.cases_head change with same | ⟨_, ⟨queued, -⟩, -⟩
  · exact same.symm
  · cases queued

theorem begun_pollCalling (here : w.Mine id k) (wait : Wait) :
    ∃ k', (w.pollCalling id k wait).task? id = some (.worker k') ∧ k'.phase.Begun := by
  have still : (w.pollWait wait).2.Mine id k := here.acts (acts_pollWait w List.nil_suffix)
  unfold pollCalling
  split
  · next o w₁ heq =>
    rw [heq] at still
    obtain ⟨k', there, isOver⟩ := over_endWorker still o
    exact ⟨k', there, isOver ▸ trivial⟩
  · next w₁ heq =>
    rw [heq] at still
    obtain ⟨k₀, there, -⟩ := still
    exact ⟨_, task?_setTask_self there, trivial⟩

theorem begun_beginCalling (here : w.Mine id k) :
    ∃ k', (w.beginCalling r id k).task? id = some (.worker k') ∧ k'.phase.Begun := by
  have still : (startCall r w k.query.tool k.query.inputs k.signal none id).2.Mine id k :=
    here.acts (acts_startCall r w _ _ List.nil_suffix none id)
  unfold beginCalling
  split
  · next f w₁ heq =>
    rw [heq] at still
    obtain ⟨k', there, isOver⟩ := over_endWorker still (.error f)
    exact ⟨k', there, isOver ▸ trivial⟩
  · next wait w₁ heq =>
    rw [heq] at still
    exact begun_pollCalling still wait

theorem Starts.mine {m : World} (starts : Starts w k m) (here : w.task? x = some (.worker k)) :
    m.Mine x k := by
  have mine : w.Mine x k := ⟨k, here, .refl k, rfl⟩
  cases starts with
  | admitted => exact mine
  | asked => exact mine.acts (acts_updateProgress w trivial _)

/-- A worker has not made its call before. -/
theorem Starts.early {m : World} (starts : Starts w k m) : ¬ k.phase.Begun := by
  cases starts with
  | admitted phase => simp [phase, WorkerPhase.Begun]
  | asked phase => simp [phase, WorkerPhase.Begun]

/-- **A worker that makes its call** had not made it, and has made it then. -/
theorem MakesCall.begun (h : MakesCall r w x w') :
    (∃ k, w.task? x = some (.worker k) ∧ ¬ k.phase.Begun) ∧
      ∃ k', w'.task? x = some (.worker k') ∧ k'.phase.Begun := by
  cases h with
  | mk here others kept starts =>
    exact ⟨⟨_, here, starts.early⟩, begun_beginCalling (starts.mine here)⟩

/-! ## 2. How far a move takes a worker -/

theorem gathering_of_progress? {first : TaskId} {p : FanOut.Progress}
    (h : w.progress? id = some (first, p)) :
    ∃ c plan, w.task? id = some (.call c) ∧ c.phase = .gathering plan first p := by
  unfold progress? at h
  split at h
  · next c here =>
    split at h
    · next plan first' p' gathering =>
      cases h
      exact ⟨c, plan, here, gathering⟩
    · cases h
  · cases h

/-- The worker is the one that goes on, or the next one in its fan-out. -/
def Next (w : World) (k : Worker) (y : TaskId) : Prop :=
  ∃ first p i, w.progress? k.gatherer = some (first, p) ∧ (i ∈ p.waiting ∨ i = k.query.index) ∧
    y = first + i

/-- What a worker may do that goes on. -/
def leave (w : World) (me : TaskId) (k : Worker) (calls : Prop) : Leave where
  base := []
  sets x := x = k.gatherer
  ends _ := False
  change y := Shift (y = me ∧ calls)
    (y = me ∧ (k.aborted = true ∨ w.progress? k.gatherer = none)) (w.Next k y)

theorem mayTurn_leave (calls : Prop) : MayTurn (w.leave me k calls) w k :=
  ⟨rfl, fun first p i found waits => .turn ⟨first, p, i, found, waits, rfl⟩⟩

/-- A worker whose fan-out gathers is in its place. -/
theorem Sane.place (sane : Sane r none w) (here : w.task? me = some (.worker k)) {first : TaskId}
    {p : FanOut.Progress} (found : w.progress? k.gatherer = some (first, p)) :
    ∃ c plan answers, w.task? k.gatherer = some (.call c) ∧ c.phase = .gathering plan first p ∧
      Gathers r (fun _ => False) w k.gatherer c plan first p answers ∧
      k.query.index < plan.queries.length ∧ me = first + k.query.index := by
  obtain ⟨c, plan, call, gathering⟩ := gathering_of_progress? found
  obtain ⟨⟨answers, gathers⟩, -⟩ := (sane.calls _ c (by simp) call).gathering plan first p gathering
  obtain ⟨i, small, rfl⟩ := gathers.crew me k here rfl
  obtain ⟨k', worker, -, rfl, -⟩ := gathers.worker small
  cases here.symm.trans worker
  exact ⟨c, plan, answers, call, gathering, gathers, small, rfl⟩

/-- The next one is a worker of the same fan-out. -/
theorem Sane.next (sane : Sane r none w) (here : w.task? me = some (.worker k)) (next : w.Next k x) :
    (∃ c plan first p, w.task? k.gatherer = some (.call c) ∧ c.phase = .gathering plan first p) ∧
      ∃ k', w.task? x = some (.worker k') ∧ k'.gatherer = k.gatherer := by
  obtain ⟨first, p, i, found, waits, rfl⟩ := next
  obtain ⟨c, plan, answers, call, gathering, gathers, small, -⟩ := sane.place here found
  have inside : i < plan.queries.length := by
    rcases waits with waits | rfl
    · exact gathers.order.waiting.2 i waits
    · exact small
  obtain ⟨k', worker, hired, -⟩ := gathers.worker inside
  exact ⟨⟨c, plan, first, p, call, gathering⟩, k', worker, hired.gatherer⟩

/-- **A worker that goes on** makes its call or does not, and does no more than it may. -/
theorem acts_worker (sane : Sane r none w) (here : w.task? me = some (.worker k))
    (others : ∀ y ∈ w.ready, y ≠ me → y ∈ ready) :
    ∃ calls : Prop, (calls → MakesCall r w me (pollWorker { w with ready } r me k)) ∧
      Acts (World.leave { w with ready } me k calls) { w with ready }
        (pollWorker { w with ready } r me k) := by
  by_cases starts : k.aborted = false ∧ ∃ m, Starts { w with ready } k m
  · obtain ⟨kept, m, starts⟩ := starts
    refine ⟨True, fun _ => ?_, ?_⟩
    · rw [pollWorker_of_starts kept starts r]
      exact .mk here others kept starts
    · have turned : k.phase.Admitted ∨ World.Next { w with ready } k me := by
        cases starts with
        | admitted phase => exact .inl (phase ▸ trivial)
        | asked phase found =>
          obtain ⟨p, before, -⟩ := progress?_updateProgress found
          obtain ⟨-, -, -, -, -, -, -, place⟩ := sane.place here before
          exact .inr ⟨_, p, _, before, .inr rfl, place⟩
      exact acts_starts r here kept starts List.nil_suffix
        (fun wait _ => .call ⟨rfl, trivial⟩ turned starts.early wait)
        (.stop (.inr (.inl ⟨rfl, trivial⟩))) (mayTurn_leave True)
  · have silent : k.aborted = false → ∀ m, ¬ Starts { w with ready } k m :=
      fun kept m h => starts ⟨kept, m, h⟩
    refine ⟨False, False.elim, acts_silent r here silent (fun _ _ => List.nil_suffix)
      (fun fresh => .wait (by simp [fresh, WorkerPhase.Begun])) (fun why => .stop ?_)
      (mayTurn_leave False)⟩
    rcases why with given | lost | ⟨wait, calling⟩
    · exact .inr (.inr ⟨rfl, .inl given⟩)
    · exact .inr (.inr ⟨rfl, .inr lost⟩)
    · exact .inl (calling ▸ trivial)

/-- What a call may do that goes on. -/
def callLeave (id : TaskId) : Leave :=
  ⟨[], fun x => x = id, fun x => x = id, fun _ _ _ => False⟩

theorem acts_call (r : Registry) (here : w.task? id = some (.call c)) :
    Acts (callLeave id) w (w.pollCall r id c) :=
  acts_pollCall r here rfl rfl List.nil_suffix

/-- No task goes on. -/
structure Idle (w w' : World) : Prop where
  kept : ∀ x t, w.task? x = some t → ∃ t', w'.task? x = some t' ∧ t.Kept t'
  born : ∀ x t, w.task? x = none → w'.task? x = some t → t.New
  stopped : ∀ s, w.isStopped s = true → w'.isStopped s = true

theorem Within.idle (h : Within (fun _ => False) w w') : Idle w w' :=
  ⟨fun x t => h.kept x t fun h => h, fun x t => h.born x t fun h => h, h.fired⟩

theorem Idle.keptWorker (h : Idle w w') (here : w.task? x = some (.worker k)) :
    w'.task? x = some (.worker k) := by
  obtain ⟨t, there, kept⟩ := h.kept x _ here
  rwa [kept.worker] at there

/-- **A move is a task that goes on**, or none does. -/
theorem Move.split (h : Move r w w') :
    (∃ id c ready, w.task? id = some (.call c) ∧ (∀ x ∈ w.ready, x ≠ id → x ∈ ready) ∧
        w' = pollCall { w with ready } r id c) ∨
      (∃ id k ready, w.task? id = some (.worker k) ∧ (∀ x ∈ w.ready, x ≠ id → x ∈ ready) ∧
        w' = pollWorker { w with ready } r id k) ∨ Idle w w' := by
  cases h with
  | call here others => exact .inl ⟨_, _, _, here, others, rfl⟩
  | worker here others => exact .inr (.inl ⟨_, _, _, here, others, rfl⟩)
  | client =>
    refine .inr (.inr ⟨fun x t here => ⟨t, here, .same t⟩, fun x t none there => ?_, fun _ h => h⟩)
    cases none.symm.trans there
  | time tasks fired line => exact .inr (.inr (Within.of_tasks tasks line fired).idle)
  | make fresh => exact .inr (.inr (within_spawn w fun _ => .call _ fresh).idle)
  | arrive watched => exact .inr (.inr (within_spawnIdle w watched).idle)
  | fire s => exact .inr (.inr (within_fire w s).idle)
  | @abort id call =>
    obtain ⟨c, here⟩ := call
    have within : Within (fun _ => False) w (w.abort id) :=
      within_abort w id fun k there => by cases here.symm.trans there
    exact .inr (.inr within.idle)

/-- How far a move may take a worker. -/
abbrev Goes (r : Registry) (w w' : World) (x : TaskId) (k : Worker) : WorkerPhase → Prop :=
  Shift (MakesCall r w x w') (k.aborted = true ∨ w.progress? k.gatherer = none)
    (∀ c e, w'.task? k.gatherer = some (.call c) → c.phase ≠ .over e) k.phase

/-- **How far a move takes a worker.** -/
theorem goes_of_move (sane : Sane r none w) (move : Move r w w')
    (there : w.task? x = some (.worker k)) :
    ∃ k', w'.task? x = some (.worker k') ∧ k.Alike k' ∧ Goes r w w' x k k'.phase := by
  rcases move.split with ⟨id, c, ready, here, -, rfl⟩ | ⟨me, k₁, ready, here, others, rfl⟩ | idle
  · obtain ⟨k', after, alike, change⟩ := (acts_call (w := { w with ready }) r here).worker there
    refine ⟨k', after, alike, ?_⟩
    rcases Relation.ReflTransGen.cases_tail change with same | ⟨_, -, no⟩
    · exact same ▸ .refl k.phase
    · exact no.elim
  · obtain ⟨calls, made, acts⟩ := acts_worker sane here others
    obtain ⟨k', after, alike, change⟩ := acts.worker there
    refine ⟨k', after, alike, (Shift.of_closure change).imp ?_ ?_ fun next c' e call => ?_⟩
    · rintro ⟨rfl, calls⟩
      exact made calls
    · rintro ⟨rfl, why⟩
      cases here.symm.trans there
      exact why
    · -- the fan-out was gathering, and a worker ends no call
      obtain ⟨⟨c, plan, first, p, before, gathering⟩, k₂, worker, same⟩ := sane.next here next
      cases there.symm.trans worker
      obtain ⟨c₁, after, -, -, ended, -⟩ := acts.call before
      rw [same] at call
      cases call.symm.trans after
      intro isOver
      rcases ended e isOver with isOver | no
      · cases gathering.symm.trans isOver
      · exact no
  · exact ⟨k, idle.keptWorker there, .refl k, .refl k.phase⟩

theorem Hires.popped (h : Hires { w with ready } w' k c) : Hires w w' k c :=
  ⟨h.maker, h.body, h.signal, h.early⟩

/-- A worker that has come with a move has been hired, and has had no turn. -/
theorem hires_of_move (sane : Sane r none w) (move : Move r w w') (none : w.task? x = none)
    (there : w'.task? x = some (.worker k)) :
    (¬ k.phase.Begun ∧ ¬ k.phase.Admitted) ∧ ∃ c, Hires w w' k c := by
  rcases move.split with ⟨id, c, ready, here, -, rfl⟩ | ⟨me, k₁, ready, here, others, rfl⟩ | idle
  · obtain ⟨-, change, c', hires⟩ := (acts_call (w := { w with ready }) r here).newWorker none there
    refine ⟨?_, c', hires.popped⟩
    rcases Relation.ReflTransGen.cases_tail change with fresh | ⟨_, -, no⟩
    · simp [fresh, WorkerPhase.Begun, WorkerPhase.Admitted]
    · exact no.elim
  · obtain ⟨calls, -, acts⟩ := acts_worker sane here others
    obtain ⟨-, change, c', hires⟩ := acts.newWorker none there
    have apart : x ≠ me := fun same => by
      rw [same, here] at none
      cases none
    have shift : Shift False False False .fresh k.phase :=
      (Shift.of_closure change).imp (fun h => apart h.1) (fun h => apart h.1) fun next => by
        obtain ⟨-, k', worker, -⟩ := sane.next here next
        cases none.symm.trans worker
    refine ⟨⟨fun begun => ?_, fun admitted => (shift.admitted admitted).elim id id⟩, c',
      hires.popped⟩
    exact (shift.began begun).elim id fun h => h.elim id id
  · cases idle.born x _ none there

/-- A worker has come with the move, or was one before. -/
theorem was_of_move (sane : Sane r none w) (move : Move r w w')
    (there : w'.task? x = some (.worker k)) :
    w.task? x = none ∨ ∃ k₀, w.task? x = some (.worker k₀) ∧ k₀.Alike k ∧
      Goes r w w' x k₀ k.phase := by
  have was : w.task? x = none ∨ ∃ k₀, w.task? x = some (.worker k₀) := by
    rcases move.split with ⟨id, c, ready, here, -, rfl⟩ | ⟨me, k₁, ready, here, others, rfl⟩ | idle
    · exact (acts_call (w := { w with ready }) r here).wasWorker there
    · obtain ⟨calls, -, acts⟩ := acts_worker sane here others
      exact acts.wasWorker there
    · cases before : w.task? x with
      | none => exact .inl rfl
      | some t =>
        obtain ⟨t', there', kept⟩ := idle.kept x t before
        cases there.symm.trans there'
        cases kept with
        | same => exact .inr ⟨k, rfl⟩
  refine was.imp_right fun ⟨k₀, before⟩ => ?_
  obtain ⟨k', there', alike, goes⟩ := goes_of_move sane move before
  cases there.symm.trans there'
  exact ⟨k₀, before, alike, goes⟩

/-- No two workers make their calls in one move. -/
theorem MakesCall.eq (sane : Sane r none w) {y : TaskId} (h : MakesCall r w x w')
    (h' : MakesCall r w y w') : y = x := by
  obtain ⟨⟨k', there, early⟩, k'', after, begun⟩ := h'.begun
  cases h with
  | mk here others kept starts =>
    rw [← pollWorker_of_starts kept starts r] at after
    obtain ⟨calls, -, acts⟩ := acts_worker sane here others
    obtain ⟨k₁, after', -, change⟩ := acts.worker there
    cases after.symm.trans after'
    have began := (Shift.of_closure change).began begun
    exact began.elim (absurd · early) fun h => h.elim And.left And.left

/-! ## 3. What a move does to a call -/

theorem Sane.employer (sane : Sane r none w) (here : w.task? me = some (.worker k)) :
    w.HasCall k.gatherer := by
  rcases sane.crew me k here with no | ⟨c, call, -⟩
  · cases no
  · exact ⟨c, call⟩

/-- A call that is there after some acts has just been made, or was there before, and is as it was if
it may not be set. -/
theorem Acts.callCases {L : Leave} (h : Acts L w w') (there : w'.task? x = some (.call c'))
    (old : L.sets x → w.HasCall x) :
    c'.phase = .fresh ∨ ∃ c, w.task? x = some (.call c) ∧ c.Alike c' ∧
      (∀ e, c'.phase = .over e → c.phase = .over e ∨ L.ends x) ∧
        (L.sets x ∨ (Task.call c).Kept (.call c')) := by
  rcases h.wasCall there with ⟨c, before, -⟩ | made
  · obtain ⟨c₁, after, alike, -, ended, set⟩ := h.call before
    cases there.symm.trans after
    exact .inr ⟨c, before, alike, ended, set⟩
  · rcases made.fresh with may | fresh
    · obtain ⟨c, before⟩ := old may
      cases before.symm.trans made.gone
    · exact .inl fresh

/-- What a move does to a call: the call goes on, or is left alone, or one of its workers goes on,
which does not end the call. -/
inductive Moved (r : Registry) (w w' : World) (x : TaskId) (c c' : Call) : Prop where
  | own {ready : List TaskId} (others : ∀ y ∈ w.ready, y ≠ x → y ∈ ready)
      (h : w' = pollCall { w with ready } r x c) : Moved r w w' x c c'
  | kept (h : (Task.call c).Kept (.call c')) : Moved r w w' x c c'
  | worker {hand : TaskId} {k : Worker} (there : w.task? hand = some (.worker k))
      (employs : k.gatherer = x) (begun : c.phase ≠ .fresh)
      (ended : ∀ e, c'.phase = .over e → c.phase = .over e) : Moved r w w' x c c'

/-- **What a move does to a call**, unless it has just been made. -/
theorem moved_of_move (sane : Sane r none w) (move : Move r w w')
    (there : w'.task? x = some (.call c')) :
    c'.phase = .fresh ∨
      ∃ c, w.task? x = some (.call c) ∧ c.Alike c' ∧ Moved r w w' x c c' := by
  rcases move.split with ⟨id, c₁, ready, here, others, rfl⟩ | ⟨me, k, ready, here, others, rfl⟩ |
      idle
  · have acts : Acts (callLeave id) { w with ready } (pollCall { w with ready } r id c₁) :=
      acts_call r here
    refine (acts.callCases there fun own => own ▸ ⟨c₁, here⟩).imp_right ?_
    rintro ⟨c, before, alike, -, own | kept⟩
    · obtain rfl : x = id := own
      cases here.symm.trans before
      exact ⟨c₁, here, alike, .own others rfl⟩
    · exact ⟨c, before, alike, .kept kept⟩
  · obtain ⟨calls, -, acts⟩ := acts_worker sane here others
    refine (acts.callCases there fun own => own ▸ sane.employer here).imp_right ?_
    rintro ⟨c, before, alike, ended, employs | kept⟩
    · obtain rfl : x = k.gatherer := employs
      obtain ⟨c₂, call, begun⟩ := (sane.crew me k here).resolve_left nofun
      cases before.symm.trans call
      exact ⟨c, before, alike, .worker here rfl begun fun e isOver =>
        (ended e isOver).resolve_right id⟩
    · exact ⟨c, before, alike, .kept kept⟩
  · cases before : w.task? x with
    | none =>
      cases idle.born x _ before there with
      | call _ fresh => exact .inl fresh
    | some t =>
      obtain ⟨t', there', still⟩ := idle.kept x t before
      cases there.symm.trans there'
      cases still with
      | same => exact .inr ⟨c', rfl, .refl c', .kept (.same _)⟩
      | aborted c => exact .inr ⟨c, rfl, c.alike_aborted, .kept (.aborted c)⟩

/-- A signal that has fired has done so for good. -/
theorem stopped_of_move (sane : Sane r none w) (move : Move r w w') {s : Signal}
    (stopped : w.isStopped s = true) : w'.isStopped s = true := by
  rcases move.split with ⟨id, c, ready, here, -, rfl⟩ | ⟨me, k, ready, here, others, rfl⟩ | idle
  · exact (acts_call (w := { w with ready }) r here).stopped stopped
  · obtain ⟨calls, -, acts⟩ := acts_worker sane here others
    exact acts.stopped stopped
  · exact idle.stopped s stopped

/-- **A call ends only by going on.** -/
theorem ends_of_move (sane : Sane r none w) (move : Move r w w')
    (there : w'.task? x = some (.call c')) {e : CallEnd} (isOver : c'.phase = .over e) :
    ∃ c, w.task? x = some (.call c) ∧ c.Alike c' ∧
      (c.phase = .over e ∨ (∀ e, c.phase ≠ .over e) ∧ ∃ ready, Poised r { w with ready } x c ∧
        w' = pollCall { w with ready } r x c) := by
  rcases moved_of_move sane move there with fresh | ⟨c, before, alike, moved⟩
  · cases fresh.symm.trans isOver
  refine ⟨c, before, alike, ?_⟩
  cases moved with
  | @own ready others goes =>
    by_cases ended : ∃ e', c.phase = .over e'
    · obtain ⟨e', ended⟩ := ended
      obtain ⟨c₁, there₁, grows, -⟩ := (advances_of_move sane move).calls x c before
      cases there.symm.trans there₁
      cases isOver.symm.trans (grows.isOver e' ended)
      exact .inl ended
    · exact .inr ⟨fun e' h => ended ⟨e', h⟩, ready, sane.poised before others, goes⟩
  | kept kept => cases kept <;> exact .inl isOver
  | worker _ _ _ ended => exact .inl (ended e isOver)

/-! ## 4. How a fan-out ends -/

theorem look_error {failFast : Bool} {arrived : List QueryResult} {finished : List FanOut.Answer}
    {e : ToolError} (h : FanOut.Progress.look failFast arrived finished = .error e) :
    failFast = true ∧ ∃ q f, (q, .error f) ∈ finished ∧ e = FanOut.firstFailure q f := by
  induction finished generalizing arrived with
  | nil => cases h
  | cons a finished ih =>
    obtain ⟨q, o⟩ := a
    have later (h : failFast = true ∧ ∃ q f, (q, .error f) ∈ finished ∧ e = FanOut.firstFailure q f) :
        failFast = true ∧ ∃ q' f, (q', .error f) ∈ (q, o) :: finished ∧
          e = FanOut.firstFailure q' f := by
      obtain ⟨fast, q', f, there, same⟩ := h
      exact ⟨fast, q', f, List.mem_cons_of_mem _ there, same⟩
    cases o with
    | ok o => exact later (ih h)
    | error f =>
      cases failFast with
      | true =>
        cases h
        exact ⟨rfl, q, f, List.mem_cons_self .., rfl⟩
      | false => exact later (ih h)

/-- The workers of the call are those from `first` on, one for each query. -/
structure Staffed (w : World) (id : TaskId) (queries : List FanOut.Query) (first : TaskId) :
    Prop where
  roster : ∀ (i : Nat) (q : FanOut.Query), queries[i]? = some q → w.WorksFor id q (first + i)
  crew : ∀ x k, w.task? x = some (.worker k) → k.gatherer = id →
    ∃ i, i < queries.length ∧ x = first + i

/-- The ends of a fan-out. It has an output only when its workers are done. -/
inductive Closes (done : TaskId → Prop) (w : World) (id : TaskId) (plan : FanOut.Plan) :
    CallEnd → Prop where
  | aborted : Closes done w id plan .aborted
  | late (limitMs : Nat) : Closes done w id plan (.timedOut limitMs)
  | failed (fast : plan.failFast = true) (q : FanOut.Query) (f : Failure) :
      Closes done w id plan (.result (.error (FanOut.firstFailure q f)))
  | gathered {first : TaskId} (staffed : w.Staffed id plan.queries first)
      (all : ∀ i, i < plan.queries.length → done (first + i)) (o : ToolOutput) :
      Closes done w id plan (.result (.ok o))

/-- The worker has ended. -/
def IsOver (w : World) (x : TaskId) : Prop := ∃ k, w.task? x = some (.worker k) ∧ k.phase = .over

variable {plan : FanOut.Plan} {first : TaskId} {p : FanOut.Progress} {answers : List FanOut.Answer}

/-- If the call has ended, it has done so as a fan-out does. -/
def Closed (w : World) (id : TaskId) (plan : FanOut.Plan) : Prop :=
  ∀ c e, w.task? id = some (.call c) → c.phase = .over e → Closes w.IsOver w id plan e

theorem closed_endCall (here : w.Open id c) {e : CallEnd}
    (closes : Closes (w.endCall id c e).IsOver (w.endCall id c e) id plan e) :
    Closed (w.endCall id c e) id plan := by
  intro c' e' there isOver
  cases (task?_endCall here e).symm.trans there
  cases isOver
  exact closes

/-- All queries have been answered, so all workers have ended. -/
theorem Gathers.isOver (h : Gathers r (fun x => x = id) w id c plan first p answers)
    (here : w.Open id c) (all : answers.length = plan.queries.length) (i : Nat)
    (small : i < plan.queries.length) : w.IsOver (first + i) := by
  obtain ⟨k, worker, hired, index, stands⟩ := h.worker small
  have once : FanOut.AnsweredOnce plan.queries answers := ⟨h.known, h.once, all⟩
  obtain ⟨o, answered⟩ := once.answered (List.getElem?_eq_getElem small)
  refine ⟨k, worker, (stands (h.ne_of_open here i small)).answered.mp ?_⟩
  rw [hired.query]
  exact List.mem_map_of_mem answered

theorem Gathers.staffed {B : TaskId → Prop} (h : Gathers r B w id c plan first p answers) :
    w.Staffed id plan.queries first where
  roster i q hq := by
    obtain ⟨k, worker, hired, -⟩ := h.roster i q hq
    exact ⟨k, worker, hired.gatherer, hired.query⟩
  crew := h.crew

/-- A call that goes on alone leaves its workers as they are. -/
theorem Staffed.within {queries : List FanOut.Query} (h : w.Staffed id queries first)
    (within : Within (fun x => x = id) w w') (call : w.HasCall id) :
    w'.Staffed id queries first where
  roster i q hq := (h.roster i q hq).within within
  crew x k there gatherer := by
    refine h.crew x k (within.wasWorker ?_ there) gatherer
    rintro rfl
    obtain ⟨c, after⟩ := within.hasCall call
    cases there.symm.trans after

theorem closed_pollGathering (h : Gathers r (fun x => x = id) w id c plan first p answers)
    (here : w.Open id c) : Closed (w.pollGathering id c plan first p) id plan := by
  have apart := h.ne_of_open here
  unfold pollGathering
  split
  · next e failed =>
    obtain ⟨fast, q, f, -, rfl⟩ := look_error failed
    exact closed_endCall ((here.fire c.signal).abortWorkers apart) (.failed fast q f)
  · next arrived looked =>
    split
    · next full =>
      have ended : Within (fun x => x = id) w
          (w.endCall id c (.result (.ok (FanOut.assemble plan arrived)))) :=
        within_endCall (S := fun x => x = id) rfl here _
      have all : answers.length = plan.queries.length := by
        rw [← full, h.arrived_eq looked, List.length_map]
      refine closed_endCall here (.gathered (h.staffed.within ended here.hasCall) (fun i small => ?_) _)
      obtain ⟨k, worker, isOver⟩ := h.isOver here all i small
      exact ⟨k, ended.keptWorker (apart i small) worker, isOver⟩
    · split
      · exact closed_endCall (here.abortWorkers apart) (.late _)
      · intro c' e there isOver
        obtain ⟨c₀, before, -⟩ := here
        cases (task?_setTask_self before).symm.trans there
        cases isOver

/-- Nothing happens to tasks. -/
theorem Closed.of_tasks (h : Closed w id plan) (tasks : w'.tasks = w.tasks) : Closed w' id plan := by
  have same (x : TaskId) : w'.task? x = w.task? x := congrArg (·[x]?) tasks
  intro c e there isOver
  cases h c e ((same id).symm.trans there) isOver with
  | aborted => exact .aborted
  | late ms => exact .late ms
  | failed fast q f => exact .failed fast q f
  | @gathered first staffed all o =>
    have still : w'.Staffed id plan.queries first := by
      refine ⟨fun i q hq => ?_, fun x k here => staffed.crew x k ((same x).symm.trans here)⟩
      obtain ⟨k, here, rest⟩ := staffed.roster i q hq
      exact ⟨k, (same _).trans here, rest⟩
    refine .gathered still (fun i small => ?_) o
    obtain ⟨k, here, isOver⟩ := all i small
    exact ⟨k, (same _).trans here, isOver⟩

theorem closed_beginFanOut (here : w.Open id c)
    (nobody : ∀ x k, w.task? x = some (.worker k) → k.gatherer ≠ id)
    (planned : FanOut.plan r.maxFanOut c.inputs = .ok plan) :
    Closed (w.beginFanOut r id c) id plan := by
  rw [beginFanOut_eq planned]
  have gathered := closed_pollGathering (gathers_hire planned nobody)
    (here.hire id c.signal plan.queries)
  refine gathered.of_tasks ?_
  unfold setDeadline
  split <;> rfl

/-- **A fan-out that goes on** ends, if it does, as a fan-out does. -/
theorem closed_pollCall (here : w.task? id = some (.call c)) (unfinished : ∀ e, c.phase ≠ .over e)
    (body : c.tool.body = .fanOut) (accepted : c.Accepted)
    (planned : FanOut.plan r.maxFanOut c.inputs = .ok plan) (poised : Poised r w id c) :
    Closed (w.pollCall r id c) id plan := by
  have open_ : w.Open id c := ⟨c, here, unfinished, .refl c⟩
  have begins (now : c.phase = .fresh) : Closed (w.begin r id c) id plan := by
    have timed : c.Alike { c with deadline := c.limit.map (w.now + ·) } :=
      ⟨rfl, rfl, rfl, rfl, rfl, rfl⟩
    unfold begin
    dsimp only
    rw [body]
    exact closed_beginFanOut (open_.alike timed) (poised.nobody now) planned
  unfold pollCall
  split
  · next isOver => exact absurd isOver (unfinished _)
  · split
    · unfold endAborted
      dsimp only
      split
      · next plan' first p now =>
        obtain ⟨answers, gathers⟩ := poised.gathering plan' first p now
        exact closed_endCall (open_.abortWorkers fun i small => gathers.apart here small) .aborted
      · exact closed_endCall open_ .aborted
    · split
      · next now =>
        unfold pollFresh
        rcases accepted with unchecked | passed
        · rw [unchecked]
          exact begins now
        · rw [passed]
          split <;> exact begins now
      · next moment work now => exact absurd body (poised.waiting moment work now)
      · next plan' first p now =>
        obtain ⟨answers, gathers⟩ := poised.gathering plan' first p now
        obtain rfl := Except.ok.inj (gathers.planned.symm.trans planned)
        exact closed_pollGathering gathers open_
      · next isOver => exact absurd isOver (unfinished _)

end World
end Runbook.Schedule
