import Runbook.Proofs.Schedule.Doings
import Runbook.Proofs.Schedule.Roots

/-!
# What tasks leave behind

A call that heeds its signal does not wait any longer once this has fired, and a fan-out that ends
lets its workers go: they have ended too, or are given up. A worker that has been given up ends, and
drops the call that it waits for.
-/

set_option autoImplicit false

namespace Runbook.Schedule.World

variable {r : Registry} {hires makes : Prop} {w w' : World} {me id x y : TaskId} {c c' : Call}
  {k k' : Worker}

/-! ## 1. Calls -/

/-- If the call waits and heeds its signal, this has not fired. -/
def Heedful (w : World) (id : TaskId) : Prop :=
  ∀ c moment work, w.task? id = some (.call c) → c.phase = .waiting moment work →
    work.heedsStop = true → w.isStopped c.signal ≠ true

theorem heedful_endCall (call : w.HasCall id) (c : Call) (e : CallEnd) :
    (w.endCall id c e).Heedful id := by
  intro c' moment work there waiting
  obtain ⟨c₀, here⟩ := call
  have ended : (w.endCall id c e).task? id = some (.call { c with phase := .over e }) :=
    (congrArg (·[id]?) (tasks_wake _ c.caller)).trans (task?_setTask_self here)
  cases there.symm.trans ended
  cases waiting

theorem Heedful.of_tasks (h : w.Heedful id) (tasks : w'.tasks = w.tasks)
    (fired : w'.fired = w.fired) :
    w'.Heedful id := by
  intro c moment work there waiting heeds
  rw [isStopped, fired]
  exact h c moment work ((congrArg (·[id]?) tasks).symm.trans there) waiting heeds

theorem heedful_setTimer (h : w.Heedful id) (moment : Nat) (x : TaskId) :
    (w.setTimer moment x).Heedful id :=
  h.of_tasks rfl rfl

theorem heedful_setDeadline (h : w.Heedful id) (c : Call) : (w.setDeadline id c).Heedful id := by
  unfold setDeadline
  split
  · exact heedful_setTimer h _ _
  · exact h

theorem heedful_pollWaiting {moment : Nat} {work : Tool.Work} (here : w.task? id = some (.call c))
    (waiting : c.phase = .waiting moment work) :
    (w.pollWaiting id c moment work).Heedful id := by
  unfold pollWaiting
  split
  · exact heedful_endCall (w := w.note work.ended) ⟨c, here⟩ c _
  · split
    · exact heedful_endCall ⟨c, here⟩ c _
    · next unheard =>
      split
      · exact heedful_endCall ⟨c, here⟩ c _
      · intro c' moment' work' there waiting' heeds stopped
        cases here.symm.trans there
        cases waiting.symm.trans waiting'
        simp [heeds, stopped] at unheard

theorem heedful_beginAlone (call : w.HasCall id) (c : Call) (work : Tool.Work) :
    (w.beginAlone id c work).Heedful id := by
  obtain ⟨c₀, here⟩ := call
  unfold beginAlone
  dsimp only
  split
  · exact heedful_endCall (w := (w.note work.began).note work.ended) ⟨c₀, here⟩ c _
  · next ms _ =>
    let c' : Call := { c with phase := .waiting ((w.note work.began).now + ms) work }
    have set : ((w.note work.began).setTask id (.call c')).task? id = some (.call c') :=
      task?_setTask_self here
    have polled := heedful_pollWaiting set rfl
    split
    · exact heedful_setDeadline (heedful_setTimer polled _ _) _
    · exact polled

theorem heedful_pollGathering (h : w.Bossy id c) {plan : FanOut.Plan} {first : TaskId}
    (others : ∀ i, i < plan.queries.length → first + i ≠ id) (p : FanOut.Progress) :
    (w.pollGathering id c plan first p).Heedful id := by
  unfold pollGathering
  split
  · have fired : Deeds False False id w (w.fire c.signal) := (Deed.fire _).deeds
    have stops : Deeds False False id w
        ((w.fire c.signal).abortWorkers first plan.queries.length) :=
      fired.trans (deeds_abortWorkers (h.deeds fired).hasCall others)
    exact heedful_endCall (stops.spares.hasCall h.hasCall) c _
  · split
    · exact heedful_endCall h.hasCall c _
    · split
      · have stops : Deeds False False id w (w.abortWorkers first plan.queries.length) :=
          deeds_abortWorkers h.hasCall others
        exact heedful_endCall (stops.spares.hasCall h.hasCall) c _
      · intro c' moment work there waiting
        obtain ⟨c₀, here⟩ := h.hasCall
        cases there.symm.trans (task?_setTask_self here)
        cases waiting

theorem heedful_begin (h : w.Bossy id c) : (w.begin r id c).Heedful id := by
  unfold begin
  dsimp only
  split
  · exact heedful_beginAlone h.hasCall _ _
  · next body =>
    have timed : c.Alike { c with deadline := c.limit.map (w.now + ·) } :=
      ⟨rfl, rfl, rfl, rfl, rfl, rfl⟩
    have h := h.alike timed
    cases planned : FanOut.plan r.maxFanOut c.inputs with
    | error e =>
      rw [beginFanOut, planned]
      exact heedful_endCall h.hasCall _ _
    | ok plan =>
      obtain ⟨c₀, here, alike⟩ := h.call
      have planned : FanOut.plan r.maxFanOut
          { c with deadline := c.limit.map (w.now + ·) }.inputs = .ok plan := planned
      rw [beginFanOut_eq planned]
      have hired : Deeds True False id w (w.hire id c.signal plan.queries) :=
        deeds_hire trivial here (alike.tool ▸ body) _ _
      have size : id < w.tasks.size := (Array.getElem?_eq_some_iff.mp here).1
      exact heedful_setDeadline (heedful_pollGathering (h.deeds hired)
        (fun i _ => Nat.ne_of_gt (Nat.lt_of_lt_of_le size (Nat.le_add_right _ i))) _) _

/-- **A call that has gone on** has heeded its signal, if it heeds it. -/
theorem heedful_pollCall (here : w.task? id = some (.call c)) (h : w.Bossy id c)
    (others : ∀ plan first p, c.phase = .gathering plan first p →
      ∀ i, i < plan.queries.length → first + i ≠ id) :
    (w.pollCall r id c).Heedful id := by
  unfold pollCall
  split
  · next isOver =>
    intro c' moment work there waiting
    cases here.symm.trans there
    cases isOver.symm.trans waiting
  · split
    · unfold endAborted
      dsimp only
      split
      · next plan first p gathering =>
        have stops : Deeds False False id w (w.abortWorkers first plan.queries.length) :=
          deeds_abortWorkers h.hasCall (others plan first p gathering)
        exact heedful_endCall (stops.spares.hasCall h.hasCall) c _
      · exact heedful_endCall h.hasCall c _
    · split
      · unfold pollFresh
        split
        · exact heedful_begin h
        · split
          · exact heedful_begin h
          · exact heedful_endCall h.hasCall c _
          · exact heedful_endCall h.hasCall c _
      · next waiting => exact heedful_pollWaiting here waiting
      · next plan first p gathering =>
        exact heedful_pollGathering h (others plan first p gathering) p
      · next isOver =>
        intro c' moment work there waiting
        cases here.symm.trans there
        cases isOver.symm.trans waiting

/-- The worker has ended or has been given up. -/
def Let (w : World) (x : TaskId) : Prop :=
  ∀ k, w.task? x = some (.worker k) → k.phase = .over ∨ k.aborted = true

theorem Let.deeds (h : w.Let x) (deeds : Deeds hires makes me w w') (there : w.HasWorker x)
    (other : x ≠ me) : w'.Let x := by
  intro k' after
  obtain ⟨k, here⟩ := there
  obtain ⟨k₁, after', spared⟩ := deeds.spares.worker x k other here
  cases after.symm.trans after'
  exact (h k here).imp (fun ended => (spared.stays (by simp [ended])).trans ended) spared.given

theorem let_abort (w : World) (x : TaskId) : (w.abort x).Let x := by
  intro k' there
  cases here : w.task? x with
  | none =>
    rw [abort, here] at there
    cases here.symm.trans there
  | some t =>
    cases t with
    | client s =>
      rw [abort, here] at there
      cases here.symm.trans there
    | call c =>
      have within : Within (fun _ => False) w (w.abort x) :=
        within_abort w x fun k there' => by cases here.symm.trans there'
      obtain ⟨c', there'⟩ := within.hasCall ⟨c, here⟩
      cases there.symm.trans there'
    | worker k =>
      rw [abort, here] at there
      dsimp only at there
      split at there
      · next ended =>
        cases here.symm.trans there
        exact .inl ended
      · cases there.symm.trans ((congrArg (·[x]?) (tasks_wake _ x)).trans (task?_setTask_self here))
        exact .inr rfl

theorem let_abortWorkers (call : w.HasCall id) {first count i : Nat}
    (others : ∀ i, i < count → first + i ≠ id) (there : w.HasWorker (first + i))
    (small : i < count) :
    (w.abortWorkers first count).Let (first + i) := by
  unfold abortWorkers
  have apart : ∀ j ∈ List.range count, first + j ≠ id := fun j hj => others j (List.mem_range.mp hj)
  -- whoever has been given up remains so while the rest are given up
  have listed : i ∈ List.range count ∨ w.Let (first + i) := .inl (List.mem_range.mpr small)
  generalize List.range count = is at apart listed
  induction is generalizing w with
  | nil => exact listed.resolve_left (by simp)
  | cons j is ih =>
    obtain ⟨other, later⟩ := List.forall_mem_cons.mp apart
    have deed : Deeds False False id w (w.abort (first + j)) := (Deed.abort other (.inr call)).deeds
    refine ih (deed.spares.hasCall call) (deed.spares.hasWorker there) later ?_
    rcases listed with listed | given
    · rcases List.mem_cons.mp listed with rfl | listed
      · exact .inr (let_abort w (first + i))
      · exact .inl listed
    · refine .inr (given.deeds deed there fun same => ?_)
      obtain ⟨c, call⟩ := call
      obtain ⟨k, here⟩ := there
      cases (same ▸ here).symm.trans call

/-- All workers of the call have ended or have been given up. -/
def LetGo (w : World) (id : TaskId) : Prop :=
  ∀ x k, w.task? x = some (.worker k) → k.gatherer = id → k.phase = .over ∨ k.aborted = true

/-- If the call has ended, it has let its workers go. -/
def Dismissed (w : World) (id : TaskId) : Prop :=
  ∀ c e, w.task? id = some (.call c) → c.phase = .over e → w.LetGo id

theorem LetGo.deeds (h : w.LetGo id) (call : w.HasCall id) (deeds : Deeds False makes me w w')
    (own : me = id) : w'.LetGo id := by
  subst own
  intro x k' there gatherer
  rcases deeds.spares.wasWorker there with ⟨-, never, -⟩ | ⟨k, here, alike, -, -⟩
  · exact never.elim
  · refine Let.deeds (x := x) (fun k₁ here' => ?_) deeds ⟨k, here⟩ ?_ k' there
    · cases here.symm.trans here'
      exact h x k here (alike.gatherer.symm.trans gatherer)
    · rintro rfl
      obtain ⟨c, call⟩ := call
      cases here.symm.trans call

theorem dismissed_endCall (h : w.Bossy id c) (go : w.LetGo id) (e : CallEnd) :
    (w.endCall id c e).Dismissed id := fun _ _ _ _ => by
  have ends : Deeds False False id w (w.endCall id c e) := deeds_endCall h e
  exact go.deeds h.hasCall ends rfl

/-- A fan-out that gives up its workers lets them go. -/
theorem letGo_abortWorkers (call : w.HasCall id) {first count : Nat}
    (others : ∀ i, i < count → first + i ≠ id)
    (crew : ∀ x k, w.task? x = some (.worker k) → k.gatherer = id →
      ∃ i, i < count ∧ x = first + i) :
    (w.abortWorkers first count).LetGo id := by
  intro x k' there gatherer
  have deeds : Deeds False False id w (w.abortWorkers first count) := deeds_abortWorkers call others
  rcases deeds.spares.wasWorker there with ⟨-, never, -⟩ | ⟨k, here, alike, -, -⟩
  · exact never.elim
  · obtain ⟨i, small, rfl⟩ := crew x k here (alike.gatherer.symm.trans gatherer)
    exact let_abortWorkers call others ⟨k, here⟩ small k' there

variable {plan : FanOut.Plan} {first : TaskId} {p : FanOut.Progress} {answers : List FanOut.Answer}

theorem dismissed_pollGathering (h : Gathers r (fun x => x = id) w id c plan first p answers)
    (here : w.Open id c) (bossy : w.Bossy id c) :
    (w.pollGathering id c plan first p).Dismissed id := by
  have apart := h.ne_of_open here
  unfold pollGathering
  split
  · have fired : Deeds False False id w (w.fire c.signal) := (Deed.fire _).deeds
    have stops : Deeds False False id w
        ((w.fire c.signal).abortWorkers first plan.queries.length) :=
      fired.trans (deeds_abortWorkers (bossy.deeds fired).hasCall apart)
    refine dismissed_endCall (bossy.deeds stops)
      (letGo_abortWorkers (bossy.deeds fired).hasCall apart
      fun x k there => ?_) _
    exact h.crew x k ((task?_fire w c.signal x).symm.trans there)
  · next arrived looked =>
    split
    · next full =>
      have all : answers.length = plan.queries.length := by
        rw [← full, h.arrived_eq looked, List.length_map]
      refine dismissed_endCall bossy (fun x k there gatherer => .inl ?_) _
      obtain ⟨i, small, rfl⟩ := h.crew x k there gatherer
      obtain ⟨k', there', isOver⟩ := h.isOver here all i small
      cases there.symm.trans there'
      exact isOver
    · split
      · have stops : Deeds False False id w (w.abortWorkers first plan.queries.length) :=
          deeds_abortWorkers bossy.hasCall apart
        exact dismissed_endCall (bossy.deeds stops)
          (letGo_abortWorkers bossy.hasCall apart h.crew) _
      · intro c' e there isOver
        obtain ⟨c₀, before⟩ := bossy.hasCall
        cases there.symm.trans (task?_setTask_self before)
        cases isOver

theorem dismissed_beginFanOut (here : w.Open id c) (bossy : w.Bossy id c)
    (body : c.tool.body = .fanOut)
    (nobody : ∀ x k, w.task? x = some (.worker k) → k.gatherer ≠ id) :
    (w.beginFanOut r id c).Dismissed id := by
  cases planned : FanOut.plan r.maxFanOut c.inputs with
  | error e =>
    rw [beginFanOut, planned]
    exact dismissed_endCall bossy (fun x k there gatherer => absurd gatherer (nobody x k there)) _
  | ok plan =>
    rw [beginFanOut_eq planned]
    obtain ⟨c₀, there, alike⟩ := bossy.call
    have hired : Deeds True False id w (w.hire id c.signal plan.queries) :=
      deeds_hire trivial there (alike.tool ▸ body) _ _
    have gathered := dismissed_pollGathering (gathers_hire planned nobody)
      (here.hire id c.signal plan.queries) (bossy.deeds hired)
    unfold setDeadline
    split
    · exact gathered
    · exact gathered

/-- **A call that has gone on and has ended** has let its workers go. -/
theorem dismissed_pollCall (here : w.task? id = some (.call c)) (bossy : w.Bossy id c)
    (poised : Poised r w id c) (before : w.Dismissed id)
    (crew : ∀ x k, w.task? x = some (.worker k) → k.gatherer = id → c.tool.body = .fanOut) :
    (w.pollCall r id c).Dismissed id := by
  by_cases ended : ∃ e, c.phase = .over e
  · obtain ⟨e, isOver⟩ := ended
    unfold pollCall
    simp only [isOver]
    exact before
  have unfinished (e : CallEnd) : c.phase ≠ .over e := fun isOver => ended ⟨e, isOver⟩
  by_cases body : c.tool.body = .fanOut
  · have open_ : w.Open id c := ⟨c, here, unfinished, .refl c⟩
    have begins (fresh : c.phase = .fresh) : (w.begin r id c).Dismissed id := by
      have timed : c.Alike { c with deadline := c.limit.map (w.now + ·) } :=
        ⟨rfl, rfl, rfl, rfl, rfl, rfl⟩
      unfold begin
      dsimp only
      rw [body]
      exact dismissed_beginFanOut (open_.alike timed) (bossy.alike timed) body (poised.nobody fresh)
    have nobody (fresh : c.phase = .fresh) : w.LetGo id := fun x k there gatherer =>
      absurd gatherer (poised.nobody fresh x k there)
    unfold pollCall
    split
    · next isOver => exact absurd isOver (unfinished _)
    · split
      · unfold endAborted
        dsimp only
        split
        · next plan first p gathering =>
          obtain ⟨answers, gathers⟩ := poised.gathering plan first p gathering
          have others (i : Nat) (small : i < plan.queries.length) : first + i ≠ id :=
            gathers.apart here small
          have stops : Deeds False False id w (w.abortWorkers first plan.queries.length) :=
            deeds_abortWorkers bossy.hasCall others
          exact dismissed_endCall (bossy.deeds stops)
            (letGo_abortWorkers bossy.hasCall others gathers.crew) _
        · next alone =>
          refine dismissed_endCall bossy (nobody ?_) _
          cases phase : c.phase with
          | fresh => rfl
          | waiting moment work => exact absurd body (poised.waiting moment work phase)
          | gathering plan first p => exact absurd phase (alone plan first p)
          | _ => exact absurd phase (unfinished _)
      · split
        · next fresh =>
          unfold pollFresh
          split
          · exact begins fresh
          · split
            · exact begins fresh
            · exact dismissed_endCall bossy (nobody fresh) _
            · exact dismissed_endCall bossy (nobody fresh) _
        · next moment work waiting => exact absurd body (poised.waiting moment work waiting)
        · next plan first p gathering =>
          obtain ⟨answers, gathers⟩ := poised.gathering plan first p gathering
          exact dismissed_pollGathering gathers open_ bossy
        · next isOver => exact absurd isOver (unfinished _)
  · have nobody (x : TaskId) (k : Worker) (there : w.task? x = some (.worker k)) :
        k.gatherer ≠ id := fun gatherer => body (crew x k there gatherer)
    have go : w.LetGo id := fun x k there gatherer => absurd gatherer (nobody x k there)
    have deeds : Deeds False False id w (w.pollCall r id c) :=
      deeds_pollCall r (fun _ fanOut => absurd fanOut body) bossy
        fun plan first p gathering i small => by
        obtain ⟨answers, gathers⟩ := poised.gathering plan first p gathering
        exact gathers.apart here small
    exact fun _ _ _ _ => go.deeds bossy.hasCall deeds rfl

/-! ## 2. Workers -/

/-- The call is over, or its signal has fired, or the worker looks after it. -/
def Attended (w : World) (y : TaskId) (c : Call) (k : Worker) : Prop :=
  (∃ e, c.phase = .over e) ∨ w.isStopped c.signal = true ∨
    ∃ wait, k.phase = .calling wait ∧ wait.call = y ∧ wait.own = c.signal

/-- A worker that has been given up is over when it has gone on. -/
theorem over_endAbortedWorker (here : w.task? me = some (.worker k)) :
    ∃ k', (w.endAbortedWorker me k).task? me = some (.worker k') ∧ k'.phase = .over := by
  let turns : Leave := ⟨[], fun _ => True, fun _ => True, fun _ a b => a = .queued ∧ b = .admitted⟩
  have may (w : World) : MayTurn turns w k := ⟨trivial, fun _ _ _ _ _ => ⟨rfl, rfl⟩⟩
  let w₁ := w.setTask me (.worker { k with phase := .over })
  have rest : Acts turns w₁ (w.endAbortedWorker me k) := by
    unfold endAbortedWorker
    dsimp only
    split
    · next wait _ => exact (Act.fire List.nil_suffix).acts.trans (acts_handOn (may _))
    · exact acts_handOn (may _)
    · exact acts_updateProgress w₁ trivial _
    · exact .refl w₁
  obtain ⟨k', after, -, change⟩ := rest.worker (task?_setTask_self here)
  refine ⟨k', after, ?_⟩
  rcases Relation.ReflTransGen.cases_head change with same | ⟨_, ⟨queued, -⟩, -⟩
  · exact same.symm
  · cases queued

/-- It drops the call that it waits for. -/
theorem stopped_endAbortedWorker (h : w.Handy me k) {wait : Wait}
    (calling : k.phase = .calling wait) :
    (w.endAbortedWorker me k).isStopped wait.own = true := by
  have ended : Deeds False False me w (w.setTask me (.worker { k with phase := .over })) :=
    deeds_setWorker h (by simp)
  have dropped := ended.trans (Deed.fire wait.own).deeds
  have handed : Deeds False False me _ (((w.setTask me (.worker { k with phase := .over })).fire
      wait.own).handOn k) := deeds_handOn (h.deeds dropped)
  unfold endAbortedWorker
  simp only [calling]
  exact handed.spares.fired _ (isStopped_fire_iff.mpr (.inr List.suffix_rfl))

/-- However a wait ends, the signal of the call has fired. -/
theorem stopped_pollWait {wait : Wait} {o : Except Failure ToolOutput}
    (h : w.pollWait wait = (some o, w')) : w'.isStopped wait.own = true := by
  unfold pollWait at h
  split at h
  · cases h
    exact isStopped_fire_iff.mpr (.inr List.suffix_rfl)
  · split at h
    · cases h
      exact isStopped_fire_iff.mpr (.inr List.suffix_rfl)
    · cases h

theorem pollWait_none {wait : Wait} (h : w.pollWait wait = (none, w')) : w' = w := by
  unfold pollWait at h
  split at h
  · cases h
  · split at h
    · cases h
    · cases h
      rfl

/-- A worker looks after the call that it waits for. -/
theorem attended_pollCalling (h : w.Handy me k) {wait : Wait}
    (call : w.task? wait.call = some (.call c)) (own : wait.own = c.signal)
    (there : (w.pollCalling me k wait).task? wait.call = some (.call c'))
    (there' : (w.pollCalling me k wait).task? me = some (.worker k')) :
    (w.pollCalling me k wait).Attended wait.call c' k' := by
  have other : wait.call ≠ me := fun same => by
    obtain ⟨k₀, here⟩ := h.hasWorker
    cases (same ▸ call).symm.trans here
  have deeds : Deeds False False me w (w.pollCalling me k wait) := deeds_pollCalling h ⟨c, call⟩
  have signal : c'.signal = c.signal := by
    obtain ⟨c₁, after, spared⟩ := deeds.spares.call wait.call c other call
    cases there.symm.trans after
    exact spared.signal
  unfold pollCalling at there' ⊢
  split
  · next o w₁ heq =>
    have polled : Deeds False False me w w₁ := by
      have polled : Deeds False False me w (w.pollWait wait).2 := deeds_pollWait ⟨c, call⟩ other
      rwa [heq] at polled
    have ended : Deeds False False me w₁ (w₁.endWorker me k o) := deeds_endWorker (h.deeds polled) o
    exact .inr (.inl (ended.spares.fired _ ((own.trans signal.symm) ▸ stopped_pollWait heq)))
  · next w₁ heq =>
    rw [heq] at there'
    obtain rfl := pollWait_none heq
    obtain ⟨k₀, here⟩ := h.hasWorker
    cases there'.symm.trans (task?_setTask_self here)
    exact .inr (.inr ⟨wait, rfl, rfl, own.trans signal.symm⟩)

/-- Only one task is new when a call has been started. -/
theorem startCall_new {tool : String} {inputs : Fields Json} {signal : Signal} {limit : Option Nat}
    {caller : TaskId} {wait : Wait} {t : Task}
    (h : startCall r w tool inputs signal limit caller = (.ok wait, w')) (new : w.task? y = none)
    (there : w'.task? y = some t) : y = wait.call := by
  unfold startCall at h
  split at h
  · cases h
  · cases h
    have pushed := (task?_spawn (w.newSignal signal).2 _ y).symm.trans there
    split at pushed
    · next last => exact last
    · cases new.symm.trans pushed

/-- The only call that is new is the one that the worker has just made. -/
theorem born_beginCalling (h : w.Handy me k) (new : w.task? y = none)
    (there : (w.beginCalling r me k).task? y = some (.call c')) :
    ∃ wait w₁, startCall r w k.query.tool k.query.inputs k.signal none me = (.ok wait, w₁) ∧
      w.beginCalling r me k = w₁.pollCalling me k wait ∧ w₁.Handy me k ∧ y = wait.call := by
  unfold beginCalling at there ⊢
  split
  · next f w₁ heq =>
    rw [heq] at there
    obtain ⟨-, -, rfl⟩ := startCall_error heq
    have ended : Deeds False False me w₁ (w₁.endWorker me k (.error f)) := deeds_endWorker h _
    rcases ended.spares.wasCall there with ⟨-, never, -⟩ | ⟨c, here, -⟩
    · exact never.elim
    · cases new.symm.trans here
  · next wait w₁ heq =>
    rw [heq] at there
    dsimp only at there
    obtain ⟨k₀, here⟩ := h.hasWorker
    have started : Deeds False True me w
        (startCall r w k.query.tool k.query.inputs k.signal none me).2 :=
      deeds_startCall r trivial here _ _ _ _
    rw [heq] at started
    have handy := h.deeds started
    obtain ⟨t, -, -, -, call⟩ := startCall_ok heq
    have rest : Deeds False False me w₁ (w₁.pollCalling me k wait) :=
      deeds_pollCalling handy ⟨_, call⟩
    refine ⟨wait, w₁, heq, rfl, handy, ?_⟩
    rcases rest.spares.wasCall there with ⟨-, never, -⟩ | ⟨c, here', -⟩
    · exact never.elim
    · exact startCall_new heq new here'

/-- So it looks after this call. -/
theorem attended_beginCalling (h : w.Handy me k) (new : w.task? y = none)
    (there : (w.beginCalling r me k).task? y = some (.call c'))
    (there' : (w.beginCalling r me k).task? me = some (.worker k')) :
    (w.beginCalling r me k).Attended y c' k' := by
  obtain ⟨wait, w₁, started, same, handy, rfl⟩ := born_beginCalling h new there
  obtain ⟨t, -, -, -, call⟩ := startCall_ok started
  rw [same] at there there' ⊢
  exact attended_pollCalling handy call rfl there there'

/-- The call is the one for its query. -/
theorem for_beginCalling (h : w.Handy me k) (new : w.task? y = none)
    (there : (w.beginCalling r me k).task? y = some (.call c')) : c'.For r k.query := by
  obtain ⟨wait, w₁, started, same, handy, rfl⟩ := born_beginCalling h new there
  obtain ⟨t, known, -, -, call⟩ := startCall_ok started
  have made : Call.For r k.query
      { tool := t, inputs := k.query.inputs, signal := wait.own,
        limit := (none : Option Nat).or (r.timeoutFor k.query.tool), caller := me } :=
    ⟨known, rfl, Option.none_or, rfl⟩
  have rest : Deeds False False me w₁ (w₁.pollCalling me k wait) := deeds_pollCalling handy ⟨_, call⟩
  rw [same] at there
  rcases rest.spares.wasCall there with ⟨-, never, -⟩ | ⟨c, here, alike, -⟩
  · exact never.elim
  · cases call.symm.trans here
    exact made.alike alike

end Runbook.Schedule.World
