import Mathlib.Logic.Relation
import Runbook.Proofs.Schedule.Interleaving
import Runbook.Proofs.Schedule.Moments
import Runbook.Schedule.Dispatch

/-!
# All that can happen

A `Move` of the world is one task that goes on, whichever it is, or something that comes from
outside: time passes, a call is made or given up, a signal fires. What the schedule does is a row of
such moves, in one order of many.

Every move keeps the world sane, and a call that ends with it ends as it may (`advances_of_move`).
-/

set_option autoImplicit false

namespace Runbook.Schedule.World

variable {r : Registry} {w w' w'' : World} {g id me : TaskId} {c c' : Call} {k : Worker}
  {ready : List TaskId}

/-! ## 1. Moves -/

/-- One thing that can happen. A task that goes on leaves the line; the others stay in it. -/
inductive Move (r : Registry) (w : World) : World → Prop where
  | call {id : TaskId} {c : Call} {ready : List TaskId} (here : w.task? id = some (.call c))
      (others : ∀ x ∈ w.ready, x ≠ id → x ∈ ready) : Move r w (pollCall { w with ready } r id c)
  | worker {id : TaskId} {k : Worker} {ready : List TaskId} (here : w.task? id = some (.worker k))
      (others : ∀ x ∈ w.ready, x ≠ id → x ∈ ready) : Move r w (pollWorker { w with ready } r id k)
  /-- Someone outside has been woken. -/
  | client {id : TaskId} {ready : List TaskId} (call : ∀ c, w.task? id ≠ some (.call c))
      (worker : ∀ k, w.task? id ≠ some (.worker k)) (others : ∀ x ∈ w.ready, x ≠ id → x ∈ ready) :
      Move r w { w with ready }
  /-- Time passes, tasks are woken, or signals get their names. -/
  | time {w' : World} (tasks : w'.tasks = w.tasks) (fired : w'.fired = w.fired)
      (line : ∀ x ∈ w.ready, x ∈ w'.ready) : Move r w w'
  | make {c : Call} (fresh : c.phase = .fresh) : Move r w (w.spawn (.call c)).2
  | arrive (watched : Option Signal) : Move r w (w.spawnIdle (.client watched)).2
  | fire (s : Signal) : Move r w (w.fire s)
  | abort {id : TaskId} (call : w.HasCall id) : Move r w (w.abort id)

/-- Any number of moves. -/
def Moves (r : Registry) : World → World → Prop := Relation.ReflTransGen (Move r)

theorem Moves.refl (w : World) : Moves r w w := Relation.ReflTransGen.refl

theorem Move.moves (h : Move r w w') : Moves r w w' := Relation.ReflTransGen.single h

theorem Moves.trans (first : Moves r w w') (later : Moves r w' w'') : Moves r w w'' :=
  Relation.ReflTransGen.trans first later

/-! ## 2. What a move does -/

/-- The world goes on sanely, and calls end only as they may. -/
structure Advances (r : Registry) (w w' : World) : Prop where
  sane : Sane r none w'
  calls : ∀ x c, w.task? x = some (.call c) →
    ∃ c', w'.task? x = some (.call c') ∧ c.Grows c' ∧
      ∀ e, c'.phase = .over e → c.phase = .over e ∨ MayEnd r w' x c e

/-- Those outside end no calls. -/
theorem advances_of_within (sane : Sane r none w) (h : Within (fun _ => False) w w') :
    Advances r w w' where
  sane := sane.within h fun _ h => h.elim
  calls x c here := by
    obtain ⟨c', there, grows, -⟩ := h.calls x c here
    obtain ⟨c'', there', -, phase⟩ := h.keptCall (fun h => h) here
    cases there.symm.trans there'
    exact ⟨c', there, grows, fun e isOver => .inl (phase.symm.trans isOver)⟩

/-- A family has gone on, and the call that it belongs to stands or has ended. -/
theorem advances_of_cares (sane : Sane r (some g) { w with ready })
    (cares : Cares r g { w with ready } w') (there : w'.task? g = some (.call c'))
    (begun : c'.phase ≠ .fresh) (rests : Rests r w' g c')
    (ended : ∀ c e, w.task? g = some (.call c) → c'.phase = .over e →
      c.phase = .over e ∨ MayEnd r w' g c e) : Advances r w w' where
  sane := (cares.sane sane).close there begun rests
  calls x c here := by
    obtain ⟨c'', hc, grows, -⟩ := cares.within.calls x c here
    refine ⟨c'', hc, grows, fun e isOver => ?_⟩
    by_cases same : x = g
    · subst same
      cases there.symm.trans hc
      exact ended c e here isOver
    · obtain ⟨c₁, hc₁, -, phase⟩ := cares.within.keptCall
        (fun family => family.elim same fun none => none ⟨c, here⟩) here
      cases hc.symm.trans hc₁
      exact .inl (phase.symm.trans isOver)

/-- What is known of a call that is about to go on. -/
structure Poised (r : Registry) (w : World) (id : TaskId) (c : Call) : Prop where
  waiting : ∀ moment work, c.phase = .waiting moment work → c.tool.body ≠ .fanOut
  gathering : ∀ plan first p, c.phase = .gathering plan first p →
    ∃ answers, Gathers r (fun x => x = id) w id c plan first p answers
  /-- It has hired nobody before it begins. -/
  nobody : c.phase = .fresh → ∀ x k, w.task? x = some (.worker k) → k.gatherer ≠ id

theorem Sane.poised (sane : Sane r none w) (here : w.task? id = some (.call c))
    (others : ∀ x ∈ w.ready, x ≠ id → x ∈ ready) : Poised r { w with ready } id c where
  waiting := (sane.calls id c (by simp) here).waiting
  gathering plan first p now := by
    obtain ⟨⟨answers, gathers⟩, -⟩ := (sane.calls id c (by simp) here).gathering plan first p now
    exact ⟨answers, gathers.popped others⟩
  nobody fresh x k worker gatherer := by
    rcases sane.crew x k worker with h | ⟨c₁, call, begun⟩
    · cases h
    · rw [gatherer] at call
      cases here.symm.trans call
      exact begun fresh

/-- A fan-out that has not ended gathers. -/
theorem Sane.gathering (sane : Sane r none w) (here : w.task? id = some (.call c))
    (body : c.tool.body = .fanOut) (unfinished : ∀ e, c.phase ≠ .over e) (begun : c.phase ≠ .fresh) :
    ∃ plan first p answers, c.phase = .gathering plan first p ∧
      Gathers r (fun _ => False) w id c plan first p answers := by
  have rests := sane.calls id c (by simp) here
  cases phase : c.phase with
  | fresh => exact absurd phase begun
  | waiting moment work => exact absurd body (rests.waiting moment work phase)
  | gathering plan first p =>
    obtain ⟨⟨answers, gathers⟩, -⟩ := rests.gathering plan first p phase
    exact ⟨plan, first, p, answers, rfl, gathers⟩
  | «over» e => exact absurd phase (unfinished e)

theorem advances_call (sane : Sane r none w) (here : w.task? id = some (.call c))
    (others : ∀ x ∈ w.ready, x ≠ id → x ∈ ready) :
    Advances r w (pollCall { w with ready } r id c) := by
  have popped : Sane r (some id) { w with ready } :=
    sane.popped others (fun _ _ => rfl) fun k worker => by cases here.symm.trans worker
  by_cases isOver : ∃ e, c.phase = .over e
  · obtain ⟨e, isOver⟩ := isOver
    have same : pollCall { w with ready } r id c = { w with ready } := by
      unfold pollCall
      simp only [isOver]
    rw [same]
    refine advances_of_cares popped (.refl _) here (by simp [isOver]) (rests_of_over isOver) ?_
    rintro c' e' here' isOver'
    cases here.symm.trans here'
    exact .inl isOver'
  · have poised : Poised r { w with ready } id c := sane.poised here others
    obtain ⟨cares, c', there, alike, begun, rests', ended⟩ := cares_pollCall (r := r)
      (w := { w with ready }) here (fun e h => isOver ⟨e, h⟩) poised.waiting poised.gathering
      poised.nobody
    refine advances_of_cares popped cares there begun rests' fun c₁ e here' isOver' => ?_
    cases here.symm.trans here'
    exact .inr (ended e isOver')

theorem Sane.popped_worker (sane : Sane r none w) (here : w.task? me = some (.worker k))
    (others : ∀ x ∈ w.ready, x ≠ me → x ∈ ready) : Sane r (some k.gatherer) { w with ready } := by
  refine sane.popped others (fun c there => ?_) fun k' there => ?_
  · cases here.symm.trans there
  · cases here.symm.trans there
    rfl

/-- A worker whose fan-out gathers no more goes on alone. -/
theorem advances_idle (sane : Sane r none w) (here : w.task? me = some (.worker k))
    (others : ∀ x ∈ w.ready, x ≠ me → x ∈ ready) (call : w.task? k.gatherer = some (.call c))
    (begun : c.phase ≠ .fresh) (idle : ∀ plan first p, c.phase ≠ .gathering plan first p) :
    Advances r w (pollWorker { w with ready } r me k) := by
  have apart : me ≠ k.gatherer := fun same => by
    rw [← same, here] at call
    cases call
  have none (x : TaskId × FanOut.Progress) : w.progress? k.gatherer ≠ some x := fun found => by
    rw [progress?, call] at found
    dsimp only at found
    split at found
    · next now => exact idle _ _ _ now
    · cases found
  have within : Within (fun x => x = me) { w with ready } (pollWorker { w with ready } r me k) :=
    within_pollWorker (S := fun x => x = me) (w := { w with ready }) rfl here
      (fun _ _ found => absurd found (none _)) (fun _ _ found => absurd found (none _))
      (fun wait => sane.waits me k wait here) r
  have family : Within (Family { w with ready } (pollWorker { w with ready } r me k) k.gatherer)
      { w with ready } (pollWorker { w with ready } r me k) :=
    within.mono fun x same => .worker (same ▸ here) rfl
  have rests : Rests r { w with ready } k.gatherer c :=
    (sane.calls _ c (by simp) call).popped others (Ne.symm apart) fun _ _ _ now =>
      absurd now (idle _ _ _)
  obtain ⟨c', there, alike, phase⟩ := within.keptCall (Ne.symm apart) call
  refine advances_of_cares (sane.popped_worker here others) (.of_within family) there
    (phase ▸ begun) (rests.within within alike phase fun _ _ _ now => absurd now (idle _ _ _))
    fun c₁ e call' isOver => .inl ?_
  cases call.symm.trans call'
  exact phase.symm.trans isOver

/-- A worker whose fan-out gathers goes on. -/
theorem advances_gathering (sane : Sane r none w) (here : w.task? me = some (.worker k))
    (others : ∀ x ∈ w.ready, x ≠ me → x ∈ ready) (call : w.task? k.gatherer = some (.call c))
    {plan : FanOut.Plan} {first : TaskId} {p : FanOut.Progress}
    (gathering : c.phase = .gathering plan first p) :
    Advances r w (pollWorker { w with ready } r me k) := by
  have rests := sane.calls _ c (by simp) call
  obtain ⟨⟨answers, gathers⟩, missing⟩ := rests.gathering plan first p gathering
  obtain ⟨i, small, rfl⟩ := gathers.crew me k here rfl
  obtain ⟨k', worker, hired, index, stands⟩ := gathers.worker small
  cases here.symm.trans worker
  have stands := stands fun h => h
  have query : plan.queries[i]? = some k.query := by
    rw [hired.query]
    exact List.getElem?_eq_getElem small
  have popped : Gathers r (fun x => x = first + i) { w with ready } k.gatherer c plan first p
      answers := gathers.popped others
  obtain ⟨c', p', answers', there, gathering', same, gathers'⟩ :=
    popped.pollWorker call gathering here { hired with query := rfl } query stands.toPlaced
      fun wait calling => by
        obtain ⟨tool, signal, ⟨c₁, made⟩, -⟩ := stands.calls wait calling
        exact ⟨tool, signal, c₁, made.1, made.2.1, made.2.2.1⟩
  have found (first' : TaskId) (p₁ : FanOut.Progress)
      (found : World.progress? { w with ready } k.gatherer = some (first', p₁)) :
      first' = first ∧ p₁ = p := by
    cases (progress?_gathering call gathering).symm.trans found
    exact ⟨rfl, rfl⟩
  have family {j : Nat} (hj : j < plan.queries.length) :
      Family { w with ready } (pollWorker { w with ready } r (first + i) k) k.gatherer
        (first + j) := by
    obtain ⟨k₁, worker₁, hired₁, -⟩ := gathers.worker hj
    exact .worker worker₁ hired₁.gatherer
  have within : Within (Family { w with ready } (pollWorker { w with ready } r (first + i) k)
      k.gatherer) { w with ready } (pollWorker { w with ready } r (first + i) k) := by
    refine within_pollWorker (w := { w with ready }) (family small) here (fun first' p₁ now => ?_)
      (fun first' p₁ now => ?_) (fun wait => sane.waits _ k wait here) r
    · obtain ⟨rfl, rfl⟩ := found first' p₁ now
      exact ⟨.gatherer rfl ⟨c, call⟩, fun j next =>
        family (gathers.order.waiting.2 j (List.mem_of_head? next))⟩
    · obtain ⟨rfl, rfl⟩ := found first' p₁ now
      rw [index]
      exact family small
  refine advances_of_cares (sane.popped_worker here others) (.of_within within) there
    (by simp [gathering']) ⟨by simp [gathering'], by simp [gathering'], fun plan' first' p₁ now => ?_⟩
    (by simp [gathering'])
  cases gathering'.symm.trans now
  exact ⟨⟨answers', gathers'⟩, same ▸ missing⟩

theorem advances_worker (sane : Sane r none w) (here : w.task? me = some (.worker k))
    (others : ∀ x ∈ w.ready, x ≠ me → x ∈ ready) :
    Advances r w (pollWorker { w with ready } r me k) := by
  obtain h | ⟨c, call, begun⟩ := sane.crew me k here
  · cases h
  by_cases gathering : ∃ plan first p, c.phase = .gathering plan first p
  · obtain ⟨plan, first, p, gathering⟩ := gathering
    exact advances_gathering sane here others call gathering
  · exact advances_idle sane here others call begun fun plan first p now =>
      gathering ⟨plan, first, p, now⟩

/-- **Whatever happens**, the world stays sane, and calls end only as they may. -/
theorem advances_of_move (sane : Sane r none w) (h : Move r w w') : Advances r w w' := by
  cases h with
  | call here others => exact advances_call sane here others
  | worker here others => exact advances_worker sane here others
  | client call worker others =>
    refine ⟨sane.popped others (fun c here => absurd here (call c))
      (fun k here => absurd here (worker k)), fun x c here => ?_⟩
    exact ⟨c, here, .refl c, fun _ isOver => .inl isOver⟩
  | time tasks fired line => exact advances_of_within sane (.of_tasks tasks line fired)
  | make fresh => exact advances_of_within sane (within_spawn w fun _ => .call _ fresh)
  | arrive watched => exact advances_of_within sane (within_spawnIdle w watched)
  | fire s => exact advances_of_within sane (within_fire w s)
  | @abort id call =>
    obtain ⟨c, here⟩ := call
    exact advances_of_within sane (within_abort w id fun k there => by cases here.symm.trans there)

theorem Moves.sane (h : Moves r w w') (sane : Sane r none w) : Sane r none w' := by
  induction h with
  | refl => exact sane
  | tail _ move ih => exact (advances_of_move ih move).sane

/-- A call remains what it is, and one that is over stays so. -/
theorem Moves.call (h : Moves r w w') (sane : Sane r none w) (here : w.task? id = some (.call c)) :
    ∃ c', w'.task? id = some (.call c') ∧ c.Grows c' := by
  induction h with
  | refl => exact ⟨c, here, .refl c⟩
  | tail moves move ih =>
    obtain ⟨c', there, grows⟩ := ih
    have before := Moves.sane moves sane
    obtain ⟨c'', there', grows', -⟩ := (advances_of_move before move).calls id c' there
    exact ⟨c'', there', grows.trans grows'⟩

/-! ## 3. What the schedule does -/

/-- The schedule lets the first in line go on. -/
theorem move_of_step (h : w.step r = (none, w')) : Move r w w' := by
  unfold step at h
  split at h
  · cases h
  · next id ready line =>
    have others : ∀ x ∈ w.ready, x ≠ id → x ∈ ready := fun x hx other =>
      (List.mem_cons.mp (line ▸ hx)).resolve_left other
    dsimp only at h
    split at h
    · next c here =>
      cases h
      exact .call here others
    · next k here =>
      cases h
      exact .worker here others
    · cases h
    · next here =>
      cases h
      have nobody (t : Task) : w.task? id ≠ some t := fun some => by cases here.symm.trans some
      exact .client (fun c => nobody _) (fun k => nobody _) others

theorem moves_of_passes {ws : List World} (h : Passes r w ws w') : Moves r w w' := by
  induction h with
  | refl => exact .refl _
  | work stepped _ ih => exact (move_of_step stepped).moves.trans ih
  | tick quiet moved _ ih =>
    obtain ⟨-, -, -, -, tasks, fired, -, -⟩ := advance?_cases moved
    exact (Move.time tasks fired (by simp [quiet])).moves.trans ih

/-- A client that can go on is taken out of the line. -/
theorem move_of_client (h : w.step r = (some (.client id), w')) : Move r w w' := by
  unfold step at h
  split at h
  · cases h
  · next me ready line =>
    dsimp only at h
    split at h
    · cases h
    · cases h
    · next watched here =>
      cases h
      have apart {t : Task} (h : t ≠ .client watched) : w.task? id ≠ some t := fun some =>
        h (Option.some.inj (some.symm.trans here))
      refine .client (fun c => apart (by simp)) (fun k => apart (by simp)) fun x hx other => ?_
      exact (List.mem_cons.mp (line ▸ hx)).resolve_left other
    · cases h

/-- **Whatever the schedule does** is a row of moves. -/
theorem moves_of_run {horizon fuel : Nat} {next : Option TaskId}
    (h : w.run r horizon fuel = (next, w')) : Moves r w w' := by
  obtain ⟨ws, m, passes, arrives⟩ := passes_run h
  refine (moves_of_passes passes).trans ?_
  cases next with
  | none =>
    cases arrives
    exact .refl _
  | some id => exact (move_of_client arrives).moves

theorem moves_of_newSignal (w : World) (above : Signal) : Moves r w (w.newSignal above).2 := by
  have named : Move r w (w.newSignal above).2 := .time rfl rfl fun _ h => h
  exact named.moves

theorem moves_of_startCall (r : Registry) (w : World) (tool : String) (inputs : Fields Json)
    (signal : Signal) (limit : Option Nat) (caller : TaskId) :
    Moves r w (startCall r w tool inputs signal limit caller).2 := by
  unfold startCall
  split
  · exact .refl w
  · exact (moves_of_newSignal w signal).trans (Move.make rfl).moves

theorem moves_of_pollWait {wait : Wait} (call : w.HasCall wait.call) :
    Moves r w (w.pollWait wait).2 := by
  unfold pollWait
  split
  · exact (Move.fire wait.own).moves
  · split
    · exact (Move.abort call).moves.trans (Move.fire wait.own).moves
    · exact .refl w

theorem moves_of_await {watched : Watched} {fuel : Nat} {report : CallReport}
    (sane : Sane r none w) (call : w.HasCall watched.wait.call)
    (h : await r watched fuel w = some report) : Moves r w report.world := by
  induction fuel generalizing w with
  | zero => cases h
  | succ fuel ih =>
    have polled := moves_of_pollWait (r := r) call
    rw [await] at h
    split at h
    · next heq =>
      rw [heq] at polled
      cases h
      exact polled
    · next w₁ heq =>
      rw [heq] at polled
      split at h
      · cases h
      · next id w₂ ran =>
        have moves : Moves r w w₂ := polled.trans (moves_of_run ran)
        have told :
            Moves r w₂ (if id = watched.stopper then w₂.fire watched.wait.signal else w₂) := by
          split
          · exact (Move.fire _).moves
          · exact .refl _
        have whole := moves.trans told
        obtain ⟨c, here⟩ := call
        obtain ⟨c', there, -⟩ := whole.call sane here
        exact whole.trans (ih (whole.sane sane) ⟨c', there⟩ h)

/-- The world in which a call is made on its own. -/
theorem moves_of_callWorld (stopAt : Option Nat) :
    Moves r {} (callWorld stopAt).2.2.2 := by
  let signal : Signal := (World.newSignal {} []).1
  let w₁ : World := (World.newSignal {} []).2
  let w₂ : World := (w₁.spawnIdle (.client (some signal))).2
  let w₃ : World := (w₂.spawnIdle (.client none)).2
  have made : Moves r {} w₃ := ((moves_of_newSignal {} []).trans (Move.arrive _).moves).trans
    (Move.arrive none).moves
  cases stopAt with
  | none => exact made
  | some ms =>
    cases ms with
    | zero =>
      have told : Move r w₃ (w₃.fire signal) := .fire signal
      exact made.trans told.moves
    | succ ms =>
      have timed : Move r w₃ (w₃.setTimer (ms + 1) w₂.tasks.size) :=
        .time rfl rfl fun _ h => h
      exact made.trans timed.moves

/-- **A call on its own** is made and waited for by moves. -/
theorem moves_of_dispatch {tool : String} {inputs : Fields Json} {limit stopAt : Option Nat}
    {report : CallReport} (h : dispatch r tool inputs limit stopAt = some report) :
    Moves r {} report.world := by
  have made := moves_of_callWorld (r := r) stopAt
  unfold dispatch at h
  generalize callWorld stopAt = made' at made h
  obtain ⟨signal, maker, stopper, w⟩ := made'
  have started := made.trans (moves_of_startCall r w tool inputs signal limit maker)
  dsimp only at h
  split at h
  · next heq =>
    rw [heq] at started
    cases h
    exact started
  · next wait w₁ heq =>
    obtain ⟨t, -, -, -, call⟩ := startCall_ok heq
    rw [heq] at started
    exact started.trans (moves_of_await (started.sane (sane_empty r)) ⟨_, call⟩ h)

theorem ended_of_match {e : CallEnd} (h : (match w.task? id with
    | some (.call { phase := .over e, .. }) => some e
    | _ => none) = some e) : ∃ c, w.task? id = some (.call c) ∧ c.phase = .over e := by
  split at h
  · next there =>
    cases h
    exact ⟨_, there, rfl⟩
  · cases h

/-- What comes of inputs that are not checked is what a call of the tool comes to. -/
theorem moves_of_execute {t : Tool} {inputs : Fields Json} {e : CallEnd} (h : execute r t inputs = some e) :
    ∃ w x c, Moves r {} w ∧ w.task? x = some (.call c) ∧ c.tool = t ∧ c.inputs = inputs ∧
      c.phase = .over e := by
  have made := moves_of_callWorld (r := r) none
  unfold execute at h
  -- the bounds do not matter, and must not be computed with
  generalize stepBound = fuel, 1000000000000 = horizon at h
  generalize callWorld none = made' at made h
  obtain ⟨signal, maker, stopper, w₀⟩ := made'
  obtain ⟨c, there, isOver⟩ := ended_of_match h
  let c₀ : Call := { tool := t, inputs, unchecked := true, signal, limit := none, caller := maker }
  have begun : Moves r {} (w₀.spawn (.call c₀)).2 := made.trans (Move.make rfl).moves
  have here : (w₀.spawn (.call c₀)).2.task? w₀.tasks.size = some (.call c₀) :=
    Array.getElem?_push_size
  have ran : Moves r _ ((w₀.spawn (.call c₀)).2.run r horizon fuel).2 := moves_of_run rfl
  obtain ⟨c', there', grows⟩ := ran.call (begun.sane (sane_empty r)) here
  cases there'.symm.trans there
  exact ⟨_, _, c, begun.trans ran, there', grows.tool, grows.inputs, isOver⟩

end Runbook.Schedule.World
