import Runbook.Proofs.Schedule.Gathering

/-!
# Tasks in any order

Nothing is assumed about which task goes on next. A task that goes on belongs to the *family* of a
call, the call with the workers that gather for it, and leaves the other families alone. So the
world stays *sane*: every call that is not over is in line, or waits alone, or gathers.

`Sane r (some g) w` says so of all families but that of `g`, which is going on just now.
-/

set_option autoImplicit false

namespace Runbook.Schedule

/-- The inputs are not checked, or have passed the check. -/
def Call.Accepted (c : Call) : Prop := c.unchecked = true ∨ c.tool.check c.inputs = .accepted

theorem Call.Accepted.alike {c c' : Call} (h : c.Accepted) (alike : c.Alike c') : c'.Accepted := by
  refine h.imp (alike.unchecked.trans ·) fun passed => ?_
  rwa [alike.tool, alike.inputs]

namespace World

open FanOut (Answer)

variable {r : Registry} {w w' w'' : World} {S : TaskId → Prop} {g id me : TaskId} {c c' : Call}
  {o : Option TaskId}

/-! ## 1. Families -/

/-- The task belongs to the call `g`, or is hired for it just now. -/
inductive Family (w w' : World) (g x : TaskId) : Prop where
  | gatherer (same : x = g) (call : w.HasCall g)
  | worker {k : Worker} (here : w.task? x = some (.worker k)) (gatherer : k.gatherer = g)
  | hired {k : Worker} (none : w.task? x = none) (there : w'.task? x = some (.worker k))
      (gatherer : k.gatherer = g) (fresh : k.phase = .fresh)

/-- No other call belongs to it. -/
theorem Family.eq_of_hasCall {x : TaskId} (h : Family w w' g x) (within : Within S w w')
    (call : w'.HasCall x) : x = g := by
  obtain ⟨c, there⟩ := call
  cases h with
  | gatherer same => exact same
  | worker here =>
    obtain ⟨k', there', -⟩ := within.workers x _ here
    cases there.symm.trans there'
  | hired _ there' => cases there.symm.trans there'

/-- Nor does the worker of another. -/
theorem Family.eq_of_worker {x : TaskId} (h : Family w w' g x) {k : Worker}
    (here : w.task? x = some (.worker k)) : k.gatherer = g := by
  cases h with
  | gatherer same call =>
    subst same
    obtain ⟨c, there⟩ := call
    cases here.symm.trans there
  | worker there gatherer =>
    cases here.symm.trans there
    exact gatherer
  | hired none => cases here.symm.trans none

theorem Family.eq_of_worker_later {x : TaskId} (h : Family w w' g x) (within : Within S w w')
    {k : Worker} (there : w'.task? x = some (.worker k)) : k.gatherer = g := by
  cases h with
  | gatherer same call =>
    subst same
    obtain ⟨c, hc⟩ := within.hasCall call
    cases there.symm.trans hc
  | worker here gatherer =>
    obtain ⟨k', hk, alike, -⟩ := within.workers _ _ here
    cases there.symm.trans hk
    exact alike.gatherer.trans gatherer
  | hired _ hk gatherer =>
    cases there.symm.trans hk
    exact gatherer

/-! ## 2. Sane worlds -/

/-- How a call stands that is not going on. -/
structure Rests (r : Registry) (w : World) (id : TaskId) (c : Call) : Prop where
  fresh : c.phase = .fresh → id ∈ w.ready
  waiting : ∀ moment work, c.phase = .waiting moment work → c.tool.body ≠ .fanOut
  gathering : ∀ plan first p, c.phase = .gathering plan first p →
    (∃ answers, Gathers r (fun _ => False) w id c plan first p answers) ∧
      p.arrived.length < plan.queries.length

theorem rests_of_over {e : CallEnd} (isOver : c.phase = .over e) : Rests r w id c :=
  ⟨by simp [isOver], by simp [isOver], by simp [isOver]⟩

/-- Every call stands, but for the one whose family is going on, and workers work for calls. -/
structure Sane (r : Registry) (o : Option TaskId) (w : World) : Prop where
  calls : ∀ id c, o ≠ some id → w.task? id = some (.call c) → Rests r w id c
  waits : ∀ x k wait, w.task? x = some (.worker k) → k.phase = .calling wait → w.HasCall wait.call
  crew : ∀ x k, w.task? x = some (.worker k) →
    o = some k.gatherer ∨ ∃ c, w.task? k.gatherer = some (.call c) ∧ c.phase ≠ .fresh

theorem sane_empty (r : Registry) : Sane r none {} := by
  have nobody (x : TaskId) (t : Task) : ({} : World).task? x ≠ some t := by simp [task?]
  exact ⟨fun _ _ _ h => absurd h (nobody _ _), fun _ _ _ h => absurd h (nobody _ _),
    fun _ _ h => absurd h (nobody _ _)⟩

/-- A call stands as it did when others go on. -/
theorem Rests.within (h : Rests r w id c) (within : Within S w w') (alike : c.Alike c')
    (phase : c'.phase = c.phase)
    (apart : ∀ plan first p, c.phase = .gathering plan first p →
      ∀ x, S x → ∃ g, g ≠ id ∧ Family w w' g x) : Rests r w' id c' where
  fresh now := within.ready id (h.fresh (phase.symm.trans now))
  waiting moment work now := alike.tool ▸ h.waiting moment work (phase.symm.trans now)
  gathering plan first p now := by
    have before := phase.symm.trans now
    obtain ⟨⟨answers, gathers⟩, missing⟩ := h.gathering plan first p before
    refine ⟨⟨answers, gathers.within within (fun i small => .inl fun hs => ?_)
      (fun x k hs there gatherer => ?_) alike.inputs alike.signal⟩, missing⟩
    · obtain ⟨g, other, family⟩ := apart plan first p before _ hs
      obtain ⟨k, here, hired, -⟩ := gathers.worker small
      exact other ((family.eq_of_worker here).symm.trans hired.gatherer)
    · obtain ⟨g, other, family⟩ := apart plan first p before x hs
      exact absurd ((family.eq_of_worker_later within there).symm.trans gatherer) other

/-- A family goes on, and the world stays sane but for it. -/
theorem Sane.within (h : Sane r o w) (within : Within S w w')
    (families : ∀ x, S x → ∃ g, o = some g ∧ Family w w' g x) : Sane r o w' where
  calls id c' other there := by
    have apart (x : TaskId) (hs : S x) : ∃ g, g ≠ id ∧ Family w w' g x := by
      obtain ⟨g, rfl, family⟩ := families x hs
      exact ⟨g, fun same => other (congrArg some same), family⟩
    have outside : ¬ S id := fun hs => by
      obtain ⟨g, different, family⟩ := apart id hs
      exact different (family.eq_of_hasCall within ⟨c', there⟩).symm
    rcases within.wasCall outside there with ⟨fresh, line⟩ | ⟨c, here, alike, phase⟩
    · exact ⟨fun _ => line, by simp [fresh], by simp [fresh]⟩
    · exact (h.calls id c other here).within within alike phase fun _ _ _ _ => apart
  waits x k wait there calling := by
    by_cases hs : S x
    · obtain ⟨g, rfl, family⟩ := families x hs
      cases family with
      | gatherer same call =>
        subst same
        obtain ⟨c, hc⟩ := within.hasCall call
        cases there.symm.trans hc
      | worker here =>
        obtain ⟨k', there', -, employs⟩ := within.workers x _ here
        cases there.symm.trans there'
        rcases employs wait calling with calling | call
        · exact within.hasCall (h.waits x _ wait here calling)
        · exact call
      | hired _ there' _ fresh =>
        cases there.symm.trans there'
        cases fresh.symm.trans calling
    · exact within.hasCall (h.waits x k wait (within.wasWorker hs there) calling)
  crew x k there := by
    by_cases hs : S x
    · obtain ⟨g, rfl, family⟩ := families x hs
      exact .inl (congrArg some (family.eq_of_worker_later within there).symm)
    · refine (h.crew x k (within.wasWorker hs there)).imp_right ?_
      rintro ⟨c, call, begun⟩
      obtain ⟨c', call', grows, -⟩ := within.calls _ c call
      exact ⟨c', call', grows.begun begun⟩

/-- The task that goes on has been taken out of the line. -/
theorem Rests.popped (h : Rests r w id c) {ready : List TaskId}
    (others : ∀ x ∈ w.ready, x ≠ me → x ∈ ready) (apart : id ≠ me)
    (foreign : ∀ plan first p, c.phase = .gathering plan first p →
      ∀ k, w.task? me = some (.worker k) → k.gatherer ≠ id) :
    Rests r { w with ready } id c where
  fresh now := others id (h.fresh now) apart
  waiting := h.waiting
  gathering plan first p now := by
    obtain ⟨⟨answers, gathers⟩, missing⟩ := h.gathering plan first p now
    refine ⟨⟨answers, (gathers.popped (B := fun x => x = me) others).close
      (fun same => absurd same apart) fun i k small here _ same _ => ?_⟩, missing⟩
    obtain ⟨k', here', hired, -⟩ := gathers.worker small
    exact absurd hired.gatherer (foreign plan first p now k' (same ▸ here'))

theorem Sane.popped (h : Sane r none w) {ready : List TaskId}
    (others : ∀ x ∈ w.ready, x ≠ me → x ∈ ready)
    (call : ∀ c, w.task? me = some (.call c) → o = some me)
    (worker : ∀ k, w.task? me = some (.worker k) → o = some k.gatherer) :
    Sane r o { w with ready } where
  calls id c other here := by
    refine (h.calls id c (by simp) here).popped others ?_ fun _ _ _ _ k there same => ?_
    · rintro rfl
      exact other (call c here)
    · exact other (same ▸ worker k there)
  waits := h.waits
  crew x k here := (h.crew x k here).elim (by simp) .inr

/-- The family has gone on, and all is sane. -/
theorem Sane.close (h : Sane r (some g) w) (here : w.task? g = some (.call c))
    (begun : c.phase ≠ .fresh) (rests : Rests r w g c) : Sane r none w where
  calls id c' _ there := by
    by_cases same : g = id
    · subst same
      cases here.symm.trans there
      exact rests
    · exact h.calls id c' (fun h => same (Option.some.inj h)) there
  waits := h.waits
  crew x k there := by
    refine .inr ((h.crew x k there).elim (fun same => ?_) fun h => h)
    exact Option.some.inj same ▸ ⟨c, here, begun⟩

/-- The family of `g` has gone on, and the other calls are as they were. -/
structure Cares (r : Registry) (g : TaskId) (w w' : World) : Prop where
  sane : Sane r (some g) w → Sane r (some g) w'
  within : Within (fun x => x = g ∨ ¬ w.HasCall x) w w'

theorem Cares.refl (w : World) : Cares r g w w := ⟨fun h => h, .refl w⟩

theorem Cares.trans (first : Cares r g w w') (later : Cares r g w' w'') : Cares r g w w'' where
  sane h := later.sane (first.sane h)
  within := first.within.trans (later.within.mono fun _ family =>
    family.imp_right fun none call => none (first.within.hasCall call))

theorem Cares.of_within (h : Within (Family w w' g) w w') : Cares r g w w' where
  sane sane := sane.within h fun _ family => ⟨g, rfl, family⟩
  within := h.mono fun x family => by
    by_cases call : w.HasCall x
    · exact .inl (family.eq_of_hasCall h (h.hasCall call))
    · exact .inr call

/-! ## 3. How a fan-out comes to its end -/

/-- The ends of a fan-out that takes failures as they come. -/
inductive Fate (r : Registry) (w : World) (id : TaskId) (s : Signal) (plan : FanOut.Plan) :
    CallEnd → Prop where
  | aborted : Fate r w id s plan .aborted
  | late (limitMs : Nat) : Fate r w id s plan (.timedOut limitMs)
  | gathered {answers : List Answer} (once : FanOut.AnsweredOnce plan.queries answers)
      (told : ∀ a ∈ answers, Answers r w id s a.1 a.2) :
      Fate r w id s plan (.result (.ok (FanOut.assemble plan (answers.map Answer.result))))

theorem Fate.within {s : Signal} {plan : FanOut.Plan} {e : CallEnd} (h : Fate r w id s plan e)
    (within : Within S w w') : Fate r w' id s plan e := by
  cases h with
  | aborted => exact .aborted
  | late ms => exact .late ms
  | gathered once told => exact .gathered once fun a ha => (told a ha).within within

/-- If the call is such a fan-out, it may end so. -/
def MayEnd (r : Registry) (w : World) (id : TaskId) (c : Call) (e : CallEnd) : Prop :=
  c.tool.body = .fanOut → c.Accepted →
    ∀ plan, FanOut.plan r.maxFanOut c.inputs = .ok plan → plan.failFast = false →
      Fate r w id c.signal plan e

theorem MayEnd.alike {e : CallEnd} (h : MayEnd r w id c' e) (alike : c.Alike c') :
    MayEnd r w id c e := by
  intro kind accepted plan planned slow
  rw [← alike.signal]
  exact h (alike.tool ▸ kind) (accepted.alike alike) plan (alike.inputs ▸ planned) slow

/-- The call has gone on, and either stands or has ended as it may. -/
def Left (r : Registry) (w : World) (id : TaskId) (c : Call) : Prop :=
  ∃ c', w.task? id = some (.call c') ∧ c.Alike c' ∧ c'.phase ≠ .fresh ∧ Rests r w id c' ∧
    ∀ e, c'.phase = .over e → MayEnd r w id c e

theorem Left.alike (h : Left r w id c') (alike : c.Alike c') : Left r w id c := by
  obtain ⟨c'', there, alike', begun, rests, ended⟩ := h
  exact ⟨c'', there, alike.trans alike', begun, rests, fun e isOver => (ended e isOver).alike alike⟩

theorem Left.within (h : Left r w id c) (within : Within (fun _ => False) w w') :
    Left r w' id c := by
  obtain ⟨c', here, alike, begun, rests, ended⟩ := h
  obtain ⟨c'', there, alike', phase⟩ := within.keptCall (fun h => h) here
  refine ⟨c'', there, alike.trans alike', phase ▸ begun,
    rests.within within alike' phase fun _ _ _ _ _ h => h.elim,
    fun e isOver kind accepted plan planned slow => ?_⟩
  exact (ended e (phase.symm.trans isOver) kind accepted plan planned slow).within within

theorem task?_endCall (here : w.Open id c) (e : CallEnd) :
    (w.endCall id c e).task? id = some (.call { c with phase := .over e }) := by
  obtain ⟨c₀, there, -⟩ := here
  exact (congrArg (·[id]?) (tasks_wake _ c.caller)).trans (task?_setTask_self there)

theorem left_endCall (here : w.Open id c) {e : CallEnd}
    (ended : MayEnd r (w.endCall id c e) id c e) : Left r (w.endCall id c e) id c := by
  refine ⟨_, task?_endCall here e, c.alike_phase _, by simp, rests_of_over rfl, fun e' isOver => ?_⟩
  cases isOver
  exact ended

/-- A fan-out that has looked at what has finished. -/
def lookedAt (c : Call) (plan : FanOut.Plan) (first : TaskId) (p : FanOut.Progress)
    (arrived : List QueryResult) : Call :=
  { c with phase := .gathering plan first { p with arrived, finished := [] } }

variable {plan : FanOut.Plan} {first : TaskId} {p : FanOut.Progress} {answers : List Answer}
  {arrived : List QueryResult}

/-- It gathers on. -/
theorem Gathers.lookedAt (h : Gathers r (fun x => x = id) w id c plan first p answers)
    (here : w.Open id c) (all : arrived = answers.map Answer.result) :
    Gathers r (fun _ => False) (w.setTask id (.call (lookedAt c plan first p arrived))) id
      (lookedAt c plan first p arrived) plan first { p with arrived, finished := [] } answers := by
  obtain ⟨set, -⟩ := within_setCall (S := fun x => x = id)
    (c := World.lookedAt c plan first p arrived) rfl (here.alike (c.alike_phase _))
    (by simp [World.lookedAt]) (by simp [World.lookedAt])
  have ⟨c₀, before, _⟩ := here
  have goesOn : Gathers r (fun x => x = id)
      (w.setTask id (.call (World.lookedAt c plan first p arrived))) id
      (World.lookedAt c plan first p arrived) plan first p answers := by
    refine h.within set (fun i small => .inl (h.ne_of_open here i small))
      (fun x k hx worker _ => ?_) rfl rfl
    subst hx
    cases (task?_setTask_self before).symm.trans worker
  -- nothing that has finished is left to look at
  have looked : Gathers r (fun x => x = id)
      (w.setTask id (.call (World.lookedAt c plan first p arrived))) id
      (World.lookedAt c plan first p arrived) plan first { p with arrived, finished := [] }
      answers :=
    { goesOn with
      order := ⟨h.order.inside, h.order.waiting, h.order.apart, h.order.room, h.order.busy⟩
      arrived := ⟨answers, (List.append_nil answers).symm, all⟩
      line := fun some => absurd rfl some
      roster := fun i q hq => by
        obtain ⟨k, worker, hired, before⟩ := goesOn.roster i q hq
        refine ⟨k, worker, hired, fun other => ?_⟩
        have stands := before other
        exact ⟨⟨stands.inside, stands.waiting, stands.answered⟩, stands.line, stands.calls⟩ }
  refine looked.close (fun _ some => absurd rfl some) fun i _ small _ _ same _ => ?_
  exact absurd same (h.ne_of_open here i small)

theorem Gathers.arrived_eq {B : TaskId → Prop} (h : Gathers r B w id c plan first p answers)
    (looked : FanOut.Progress.look plan.failFast p.arrived p.finished = .ok arrived) :
    arrived = answers.map Answer.result := by
  obtain ⟨front, whole, before⟩ := h.arrived
  rw [FanOut.look_ok looked, before, whole, List.map_append]

/-- **A fan-out that looks at what has finished** ends with all answers, or stands. -/
theorem left_pollGathering (h : Gathers r (fun x => x = id) w id c plan first p answers)
    (here : w.Open id c) : Left r (w.pollGathering id c plan first p) id c := by
  have apart := h.ne_of_open here
  unfold pollGathering
  split
  · next e failed =>
    refine left_endCall ((here.fire c.signal).abortWorkers apart) fun _ _ plan' planned slow => ?_
    obtain rfl := Except.ok.inj (h.planned.symm.trans planned)
    obtain ⟨arrived, looked⟩ := FanOut.exists_look p.arrived p.finished
    rw [slow, looked] at failed
    cases failed
  · next arrived looked =>
    have all := h.arrived_eq looked
    have length : arrived.length = answers.length := by rw [all, List.length_map]
    split
    · next full =>
      refine left_endCall here fun _ _ plan' planned _ => ?_
      obtain rfl := Except.ok.inj (h.planned.symm.trans planned)
      have ended : Within (fun x => x = id) w
          (w.endCall id c (.result (.ok (FanOut.assemble plan arrived)))) :=
        within_endCall (S := fun x => x = id) rfl here _
      rw [all] at ended ⊢
      exact .gathered ⟨h.known, h.once, length.symm.trans full⟩ fun a ha =>
        (h.told a ha).within ended
    · next part =>
      split
      · exact left_endCall (here.abortWorkers apart) fun _ _ _ _ _ => .late _
      · have missing : arrived.length < plan.queries.length :=
          Nat.lt_of_le_of_ne (length ▸ FanOut.length_le_of_once h.known h.once) part
        have gathers := h.lookedAt here all
        obtain ⟨c₀, before, -⟩ := here
        refine ⟨lookedAt c plan first p arrived, task?_setTask_self before, c.alike_phase _,
          by simp [lookedAt], ⟨by simp [lookedAt], by simp [lookedAt], ?_⟩, by simp [lookedAt]⟩
        intro plan' first' p' now
        cases now
        exact ⟨⟨answers, gathers⟩, missing⟩

/-! ## 4. A call goes on -/

theorem mayEnd_of_alone {e : CallEnd} (alone : c.tool.body ≠ .fanOut) : MayEnd r w id c e :=
  fun kind => absurd kind alone

theorem left_pollWaiting {moment : Nat} {work : Tool.Work} (here : w.task? id = some (.call c))
    (waiting : c.phase = .waiting moment work) (alone : c.tool.body ≠ .fanOut) :
    Left r (w.pollWaiting id c moment work) id c := by
  have open_ : w.Open id c := ⟨c, here, by simp [waiting], .refl c⟩
  have still : (w.note work.ended).Open id c := open_
  unfold pollWaiting
  split
  · exact left_endCall still (mayEnd_of_alone alone)
  · split
    · exact left_endCall open_ (mayEnd_of_alone alone)
    · split
      · exact left_endCall open_ (mayEnd_of_alone alone)
      · exact ⟨c, here, .refl c, by simp [waiting], ⟨by simp [waiting], fun _ _ _ => alone,
          by simp [waiting]⟩, by simp [waiting]⟩

theorem left_beginAlone (here : w.Open id c) (work : Tool.Work) (alone : c.tool.body ≠ .fanOut) :
    Left r (w.beginAlone id c work) id c := by
  have still : (w.note work.ended).Open id c := here
  unfold beginAlone
  dsimp only
  split
  · exact left_endCall (w := (w.note work.began).note work.ended) here (mayEnd_of_alone alone)
  · next ms _ =>
    obtain ⟨c₀, there, -, -⟩ := here
    let c₁ : Call := { c with phase := .waiting ((w.note work.began).now + ms) work }
    have set : ((w.note work.began).setTask id (.call c₁)).task? id = some (.call c₁) :=
      task?_setTask_self (w := w.note work.began) there
    have polled := (left_pollWaiting (r := r) set rfl alone).alike (c.alike_phase c₁.phase)
    split
    · exact polled.within ((within_setTimer _ _ id).trans (within_setDeadline _ id c₁))
    · exact polled

/-- The workers of a fan-out, one for each query. -/
def hire (w : World) (id : TaskId) (s : Signal) (queries : List FanOut.Query) : World :=
  queries.foldl (fun w q => (w.spawn (.worker { gatherer := id, query := q, signal := s })).2) w

variable {s : Signal} {queries : List FanOut.Query}

theorem hire_eq (w : World) (id : TaskId) (s : Signal) (queries : List FanOut.Query) :
    w.hire id s queries =
      { w with
        tasks := w.tasks ++
          (queries.map fun q => Task.worker { gatherer := id, query := q, signal := s }).toArray
        ready := w.ready ++ List.range' w.tasks.size queries.length } := by
  induction queries generalizing w with
  | nil => simp [hire]
  | cons q queries ih =>
    rw [hire, List.foldl_cons]
    refine (ih _).trans ?_
    simp [spawn, List.range'_succ]

/-- Each has its query and is in line. -/
theorem task?_hire (w : World) (id : TaskId) (s : Signal) {i : Nat} {q : FanOut.Query}
    (h : queries[i]? = some q) :
    (w.hire id s queries).task? (w.tasks.size + i) =
        some (.worker { gatherer := id, query := q, signal := s }) ∧
      w.tasks.size + i ∈ (w.hire id s queries).ready := by
  obtain ⟨small, -⟩ := List.getElem?_eq_some_iff.mp h
  rw [hire_eq]
  constructor
  · rw [task?, Array.getElem?_append_right (Nat.le_add_right _ _), Nat.add_sub_cancel_left,
      List.getElem?_toArray, List.getElem?_map, h]
    rfl
  · exact List.mem_append_right _ (List.mem_range'_1.mpr (by omega))

theorem Open.hire (h : w.Open id c) (g : TaskId) (s : Signal) (queries : List FanOut.Query) :
    (w.hire g s queries).Open id c := by
  obtain ⟨c₀, there, rest⟩ := h
  refine ⟨c₀, ?_, rest⟩
  rw [hire_eq]
  exact (Array.getElem?_append_left (Array.getElem?_eq_some_iff.mp there).1).trans there

/-- Nobody else has come. -/
theorem task?_of_hire {x : TaskId} {t : Task} (h : (w.hire id s queries).task? x = some t) :
    w.task? x = some t ∨ ∃ i, i < queries.length ∧ x = w.tasks.size + i := by
  rw [hire_eq, task?, Array.getElem?_append] at h
  split at h
  · exact .inl h
  · next large =>
    rw [List.getElem?_toArray] at h
    obtain ⟨small, -⟩ := List.getElem?_eq_some_iff.mp h
    rw [List.length_map] at small
    exact .inr ⟨x - w.tasks.size, small, (Nat.add_sub_of_le (Nat.le_of_not_lt large)).symm⟩

theorem cares_hire (w : World) (id : TaskId) (s : Signal) (queries : List FanOut.Query) :
    Cares r id w (w.hire id s queries) := by
  induction queries generalizing w with
  | nil => exact .refl w
  | cons q queries ih =>
    refine Cares.trans (.of_within (within_spawn w fun outside => ?_)) (ih _)
    -- the new worker is one of the family
    refine absurd (Family.hired ?_ ((task?_spawn w _ _).trans (if_pos rfl)) rfl rfl) outside
    exact Array.getElem?_eq_none (Nat.le_refl _)

/-- The workers that have just been hired are in order. -/
theorem gathers_hire (planned : FanOut.plan r.maxFanOut c.inputs = .ok plan)
    (nobody : ∀ x k, w.task? x = some (.worker k) → k.gatherer ≠ id) :
    Gathers r (fun x => x = id) (w.hire id c.signal plan.queries) id c plan w.tasks.size
      { workers := plan.workers } [] where
  planned
  workers := rfl
  order := FanOut.Progress.inOrder_begin plan.workers _
  arrived := ⟨[], rfl, rfl⟩
  line some := absurd rfl some
  known := by simp
  once := .nil
  told := by simp
  roster i q hq := by
    obtain ⟨there, line⟩ := task?_hire w id c.signal hq
    refine ⟨_, there, ⟨rfl, rfl, rfl, rfl⟩, fun _ => ⟨⟨?_, by simp, by simp⟩, fun _ => line,
      fun wait calling => by cases calling⟩⟩
    simp [WorkerPhase.Admitted]
  crew x k there gatherer := by
    rcases task?_of_hire there with before | new
    · exact absurd gatherer (nobody x k before)
    · exact new

theorem beginFanOut_eq (planned : FanOut.plan r.maxFanOut c.inputs = .ok plan) :
    w.beginFanOut r id c =
      ((w.hire id c.signal plan.queries).pollGathering id c plan w.tasks.size
        { workers := plan.workers }).setDeadline id c := by
  rw [beginFanOut, planned]
  rfl

theorem cares_pollGathering {B : TaskId → Prop} (h : Gathers r B w id c plan first p answers)
    (here : w.Open id c) : Cares r id w (w.pollGathering id c plan first p) := by
  refine .of_within (within_pollGathering (.gatherer rfl here.hasCall) here plan
    (h.ne_of_open here) (fun i small => ?_) p)
  obtain ⟨k, worker, hired, -⟩ := h.worker small
  exact .worker worker hired.gatherer

/-- **A fan-out begins.** -/
theorem cares_beginFanOut (here : w.Open id c)
    (nobody : ∀ x k, w.task? x = some (.worker k) → k.gatherer ≠ id) :
    Cares r id w (w.beginFanOut r id c) ∧ Left r (w.beginFanOut r id c) id c := by
  cases planned : FanOut.plan r.maxFanOut c.inputs with
  | error e =>
    have ended : w.beginFanOut r id c = w.endCall id c (.result (.error e)) := by
      rw [beginFanOut, planned]
    rw [ended]
    refine ⟨.of_within (within_endCall (.gatherer rfl here.hasCall) here _), left_endCall here ?_⟩
    intro _ _ plan planned'
    cases planned.symm.trans planned'
  | ok plan =>
    rw [beginFanOut_eq planned]
    have still := here.hire id c.signal plan.queries
    have gathers := gathers_hire planned nobody
    have timed (w : World) : Within (fun _ => False) w (w.setDeadline id c) :=
      within_setDeadline w id c
    exact ⟨((cares_hire w id c.signal plan.queries).trans (cares_pollGathering gathers still)).trans
        (.of_within ((timed _).mono fun _ h => h.elim)),
      (left_pollGathering gathers still).within (timed _)⟩

theorem cares_begin (here : w.Open id c)
    (nobody : ∀ x k, w.task? x = some (.worker k) → k.gatherer ≠ id) :
    Cares r id w (w.begin r id c) ∧ Left r (w.begin r id c) id c := by
  have timed : c.Alike { c with deadline := c.limit.map (w.now + ·) } :=
    ⟨rfl, rfl, rfl, rfl, rfl, rfl⟩
  have here' := here.alike timed
  unfold begin
  dsimp only
  split
  · next work body =>
    exact ⟨.of_within (within_beginAlone (.gatherer rfl here.hasCall) here' _),
      (left_beginAlone here' _ (by simp [body])).alike timed⟩
  · obtain ⟨cares, left⟩ := cares_beginFanOut (r := r) here' nobody
    exact ⟨cares, left.alike timed⟩

theorem cares_pollFresh (here : w.Open id c)
    (nobody : ∀ x k, w.task? x = some (.worker k) → k.gatherer ≠ id) :
    Cares r id w (w.pollFresh r id c) ∧ Left r (w.pollFresh r id c) id c := by
  have refused (e : CallEnd) (h : ¬ c.Accepted) :
      Cares r id w (w.endCall id c e) ∧ Left r (w.endCall id c e) id c :=
    ⟨.of_within (within_endCall (.gatherer rfl here.hasCall) here _),
      left_endCall here fun _ accepted => absurd accepted h⟩
  unfold pollFresh
  split
  · exact cares_begin here nobody
  · next checked =>
    split
    · exact cares_begin here nobody
    · next e rejected => exact refused _ (by simp [Call.Accepted, checked, rejected])
    · next panics => exact refused _ (by simp [Call.Accepted, checked, panics])

/-- **A call goes on.** -/
theorem cares_pollCall (here : w.task? id = some (.call c)) (unfinished : ∀ e, c.phase ≠ .over e)
    (waiting : ∀ moment work, c.phase = .waiting moment work → c.tool.body ≠ .fanOut)
    (gathering : ∀ plan first p, c.phase = .gathering plan first p →
      ∃ answers, Gathers r (fun x => x = id) w id c plan first p answers)
    (nobody : c.phase = .fresh → ∀ x k, w.task? x = some (.worker k) → k.gatherer ≠ id) :
    Cares r id w (w.pollCall r id c) ∧ Left r (w.pollCall r id c) id c := by
  have open_ : w.Open id c := ⟨c, here, unfinished, .refl c⟩
  have crew (plan : FanOut.Plan) (first : TaskId) (p : FanOut.Progress)
      (now : c.phase = .gathering plan first p) (i : Nat) (small : i < plan.queries.length) :
      first + i ≠ id ∧ Family w (w.endAborted id c) id (first + i) := by
    obtain ⟨answers, gathers⟩ := gathering plan first p now
    obtain ⟨k, worker, hired, -⟩ := gathers.worker small
    exact ⟨gathers.apart here small, .worker worker hired.gatherer⟩
  unfold pollCall
  split
  · next isOver => exact absurd isOver (unfinished _)
  · split
    · refine ⟨.of_within (within_endAborted (.gatherer rfl ⟨c, here⟩) open_ crew), ?_⟩
      have aborted (w : World) (still : w.Open id c) : Left r (w.endCall id c .aborted) id c :=
        left_endCall still fun _ _ _ _ _ => .aborted
      unfold endAborted
      dsimp only
      split
      · next plan first p now =>
        exact aborted _ (open_.abortWorkers fun i small => (crew plan first p now i small).1)
      · exact aborted _ open_
    · split
      · next now => exact cares_pollFresh open_ (nobody now)
      · next moment work now =>
        exact ⟨.of_within (within_pollWaiting (.gatherer rfl ⟨c, here⟩) open_ moment work),
          left_pollWaiting here now (waiting moment work now)⟩
      · next plan first p now =>
        obtain ⟨answers, gathers⟩ := gathering plan first p now
        exact ⟨cares_pollGathering gathers open_, left_pollGathering gathers open_⟩
      · next isOver => exact absurd isOver (unfinished _)

end World
end Runbook.Schedule
