import Runbook.Proofs.Schedule.Deeds

/-!
# What calls and workers do

All that a task does when it goes on are deeds of its own. There is one lemma for each operation, in
the order of the definitions.
-/

set_option autoImplicit false

namespace Runbook.Schedule.World

variable {hires makes : Prop} {w w' : World} {me x y : TaskId} {c c' : Call} {k k' : Worker}

/-! ## 1. Calls -/

/-- There is the call of which `c` is a later form, and its maker may be woken. -/
structure Bossy (w : World) (me : TaskId) (c : Call) : Prop where
  call : ∃ c₀, w.task? me = some (.call c₀) ∧ c₀.Alike c
  caller : w.Rousable c.caller

namespace Bossy

theorem hasCall (h : w.Bossy me c) : w.HasCall me := by
  obtain ⟨c₀, here, -⟩ := h.call
  exact ⟨c₀, here⟩

theorem hasBoss (h : w.Bossy me c) : w.HasBoss me := by
  obtain ⟨c₀, here, -⟩ := h.call
  exact ⟨_, here, by simp⟩

theorem deeds (h : w.Bossy me c) (deeds : Deeds hires makes me w w') : w'.Bossy me c := by
  obtain ⟨c₀, here, alike⟩ := h.call
  obtain ⟨c₁, there, alike₁⟩ := deeds.spares.boss c₀ here
  exact ⟨⟨c₁, there, alike₁.symm.trans alike⟩, deeds.spares.rousable h.caller fun _ => ⟨c₀, here⟩⟩

theorem alike (h : w.Bossy me c) (alike : c.Alike c') : w.Bossy me c' := by
  obtain ⟨c₀, here, before⟩ := h.call
  exact ⟨⟨c₀, here, before.trans alike⟩, alike.caller ▸ h.caller⟩

end Bossy

theorem deeds_setCall (h : w.Bossy me c) : Deeds hires makes me w (w.setTask me (.call c)) := by
  obtain ⟨c₀, here, alike⟩ := h.call
  exact (Deed.call here alike).deeds

theorem deeds_endCall (h : w.Bossy me c) (e : CallEnd) :
    Deeds hires makes me w (w.endCall me c e) := by
  have over_ := h.alike (c.alike_phase (.over e))
  have set : Deeds hires makes me w (w.setTask me (.call { c with phase := .over e })) :=
    deeds_setCall over_
  exact set.trans (Deed.wake (over_.deeds set).caller).deeds

theorem deeds_abortWorkers (call : w.HasCall me) {first count : Nat}
    (others : ∀ i, i < count → first + i ≠ me) :
    Deeds hires makes me w (w.abortWorkers first count) := by
  unfold abortWorkers
  have small : ∀ i ∈ List.range count, first + i ≠ me := fun i hi => others i (List.mem_range.mp hi)
  generalize List.range count = is at small
  induction is generalizing w with
  | nil => exact .refl w
  | cons i is ih =>
    obtain ⟨other, later⟩ := List.forall_mem_cons.mp small
    have one : Deeds hires makes me w (w.abort (first + i)) := (Deed.abort other (.inr call)).deeds
    exact one.trans (ih (one.spares.hasCall call) later)

theorem deeds_completeWork (h : w.Bossy me c) (work : Tool.Work) :
    Deeds hires makes me w (w.completeWork me c work) :=
  have noted : Deeds hires makes me w (w.note work.ended) := (Deed.note _).deeds
  noted.trans (deeds_endCall (h.deeds noted) _)

theorem deeds_setDeadline (h : w.Bossy me c) : Deeds hires makes me w (w.setDeadline me c) := by
  unfold setDeadline
  split
  · exact (Deed.timer _ h.hasBoss).deeds
  · exact .refl w

theorem deeds_pollWaiting (h : w.Bossy me c) (moment : Nat) (work : Tool.Work) :
    Deeds hires makes me w (w.pollWaiting me c moment work) := by
  unfold pollWaiting
  split
  · exact deeds_completeWork h work
  · split
    · exact deeds_endCall h _
    · split
      · exact deeds_endCall h _
      · exact .refl w

theorem deeds_beginAlone (h : w.Bossy me c) (work : Tool.Work) :
    Deeds hires makes me w (w.beginAlone me c work) := by
  have noted : Deeds hires makes me w (w.note work.began) := (Deed.note _).deeds
  have still := h.deeds noted
  unfold beginAlone
  dsimp only
  split
  · exact noted.trans (deeds_completeWork still work)
  · next ms _ =>
    have waits := still.alike (c.alike_phase (.waiting ((w.note work.began).now + ms) work))
    have set : Deeds hires makes me (w.note work.began) _ := deeds_setCall waits
    have polled := (noted.trans set).trans
      (deeds_pollWaiting (waits.deeds set) ((w.note work.began).now + ms) work)
    split
    · have timed := polled.trans
        (Deed.timer ((w.note work.began).now + ms) (h.deeds polled).hasBoss).deeds
      exact timed.trans (deeds_setDeadline ((h.deeds timed).alike (c.alike_phase _)))
    · exact polled

theorem deeds_pollGathering (h : w.Bossy me c) {plan : FanOut.Plan} {first : TaskId}
    (others : ∀ i, i < plan.queries.length → first + i ≠ me) (p : FanOut.Progress) :
    Deeds hires makes me w (w.pollGathering me c plan first p) := by
  unfold pollGathering
  split
  · have fired : Deeds hires makes me w (w.fire c.signal) := (Deed.fire _).deeds
    have stops := fired.trans (deeds_abortWorkers (h.deeds fired).hasCall others)
    exact stops.trans (deeds_endCall (h.deeds stops) _)
  · split
    · exact deeds_endCall h _
    · split
      · have stops : Deeds hires makes me w (w.abortWorkers first plan.queries.length) :=
          deeds_abortWorkers h.hasCall others
        exact stops.trans (deeds_endCall (h.deeds stops) _)
      · exact deeds_setCall (h.alike (c.alike_phase _))

theorem deeds_hire (may : hires) (here : w.task? me = some (.call c))
    (body : c.tool.body = .fanOut) (s : Signal) (queries : List FanOut.Query) :
    Deeds hires makes me w (w.hire me s queries) := by
  induction queries generalizing w with
  | nil => exact .refl w
  | cons q queries ih =>
    exact (Deed.hire may here body rfl rfl).deeds.trans (ih (task?_push here))

theorem deeds_beginFanOut (r : Registry) (may : hires) (h : w.Bossy me c)
    (body : c.tool.body = .fanOut) : Deeds hires makes me w (w.beginFanOut r me c) := by
  cases planned : FanOut.plan r.maxFanOut c.inputs with
  | error e =>
    have ended : w.beginFanOut r me c = w.endCall me c (.result (.error e)) := by
      rw [beginFanOut, planned]
    exact ended ▸ deeds_endCall h _
  | ok plan =>
    obtain ⟨c₀, here, alike⟩ := h.call
    have hired : Deeds hires makes me w (w.hire me c.signal plan.queries) :=
      deeds_hire may here (alike.tool ▸ body) _ _
    have size : me < w.tasks.size := (Array.getElem?_eq_some_iff.mp here).1
    rw [beginFanOut_eq planned]
    have others (i : Nat) (_ : i < plan.queries.length) : w.tasks.size + i ≠ me :=
      Nat.ne_of_gt (Nat.lt_of_lt_of_le size (Nat.le_add_right _ i))
    have gathered := hired.trans
      (deeds_pollGathering (h.deeds hired) others { workers := plan.workers })
    exact gathered.trans (deeds_setDeadline (h.deeds gathered))

/-- A call hires workers only if it is a fan-out. -/
theorem deeds_begin (r : Registry) (may : c.tool.body = .fanOut → hires) (h : w.Bossy me c) :
    Deeds hires makes me w (w.begin r me c) := by
  have timed : c.Alike { c with deadline := c.limit.map (w.now + ·) } :=
    ⟨rfl, rfl, rfl, rfl, rfl, rfl⟩
  unfold begin
  dsimp only
  split
  · exact deeds_beginAlone (h.alike timed) _
  · next body => exact deeds_beginFanOut r (may body) (h.alike timed) body

theorem deeds_pollFresh (r : Registry) (may : c.tool.body = .fanOut → hires) (h : w.Bossy me c) :
    Deeds hires makes me w (w.pollFresh r me c) := by
  unfold pollFresh
  split
  · exact deeds_begin r may h
  · split
    · exact deeds_begin r may h
    · exact deeds_endCall h _
    · exact deeds_endCall h _

/-- **A call that goes on** does this and no more. -/
theorem deeds_pollCall (r : Registry) (may : c.phase = .fresh → c.tool.body = .fanOut → hires)
    (h : w.Bossy me c)
    (others : ∀ plan first p, c.phase = .gathering plan first p →
      ∀ i, i < plan.queries.length → first + i ≠ me) :
    Deeds hires makes me w (w.pollCall r me c) := by
  unfold pollCall
  split
  · exact .refl w
  · split
    · unfold endAborted
      dsimp only
      split
      · next plan first p gathering =>
        have stops : Deeds hires makes me w (w.abortWorkers first plan.queries.length) :=
          deeds_abortWorkers h.hasCall (others plan first p gathering)
        exact stops.trans (deeds_endCall (h.deeds stops) _)
      · exact deeds_endCall h _
    · split
      · next fresh => exact deeds_pollFresh r (may fresh) h
      · exact deeds_pollWaiting h _ _
      · next plan first p gathering => exact deeds_pollGathering h (others plan first p gathering) p
      · exact .refl w

/-! ## 2. Workers -/

/-- There is the worker of which `k` is a later form, and its fan-out. -/
structure Handy (w : World) (me : TaskId) (k : Worker) : Prop where
  worker : ∃ k₀, w.task? me = some (.worker k₀) ∧ k₀.Alike k ∧ k.aborted = k₀.aborted
  gatherer : w.HasCall k.gatherer

namespace Handy

theorem hasWorker (h : w.Handy me k) : w.HasWorker me := by
  obtain ⟨k₀, here, -⟩ := h.worker
  exact ⟨k₀, here⟩

theorem deeds (h : w.Handy me k) (deeds : Deeds hires makes me w w') : w'.Handy me k := by
  obtain ⟨k₀, here, alike, given⟩ := h.worker
  obtain ⟨k₁, there, alike₁, given₁⟩ := deeds.spares.hand k₀ here
  refine ⟨⟨k₁, there, ⟨?_, ?_, ?_⟩, given.trans given₁.symm⟩, deeds.spares.hasCall h.gatherer⟩
  · exact alike.gatherer.trans alike₁.gatherer.symm
  · exact alike.query.trans alike₁.query.symm
  · exact alike.signal.trans alike₁.signal.symm

end Handy

theorem deeds_setWorker (h : w.Handy me k) {phase : WorkerPhase}
    (line : phase = .queued → me ∉ w.ready) :
    Deeds hires makes me w (w.setTask me (.worker { k with phase })) := by
  obtain ⟨k₀, here, alike, given⟩ := h.worker
  exact (Deed.worker here (alike.trans (k.alike_phase phase)) given line).deeds

theorem deeds_request (h : w.Handy me k) :
    Deeds hires makes me w (w.updateProgress k.gatherer fun p => p.request k.query.index) :=
  (Deed.progress h.hasWorker _ _ fun p =>
    (p.request_keeps _).2.1.symm ▸ List.prefix_rfl).deeds

theorem deeds_handOn (h : w.Handy me k) : Deeds hires makes me w (w.handOn k) := by
  have released : Deeds hires makes me w
      (w.updateProgress k.gatherer fun p => p.release k.query.index) :=
    (Deed.progress h.hasWorker _ _ fun p =>
      (p.release_keeps _).2.1.symm ▸ List.prefix_rfl).deeds
  unfold handOn
  split
  · exact .refl w
  · dsimp only
    split
    · exact released.trans (Deed.turn (h.deeds released).hasWorker _).deeds
    · exact released

theorem deeds_endWorker (h : w.Handy me k) (o : FanOut.Outcome) :
    Deeds hires makes me w (w.endWorker me k o) := by
  have ended : Deeds hires makes me w (w.setTask me (.worker { k with phase := .over })) :=
    deeds_setWorker h (by simp)
  have handed := ended.trans (deeds_handOn (h.deeds ended))
  have told := handed.trans (Deed.progress (h.deeds handed).hasWorker k.gatherer
    (fun p => { p with finished := p.finished ++ [(k.query, o)] }) fun p =>
      List.prefix_append _ _).deeds
  obtain ⟨c, call⟩ := (h.deeds told).gatherer
  exact told.trans (Deed.wake ⟨_, call, by simp⟩).deeds

theorem deeds_endAbortedWorker (h : w.Handy me k) :
    Deeds hires makes me w (w.endAbortedWorker me k) := by
  have ended : Deeds hires makes me w (w.setTask me (.worker { k with phase := .over })) :=
    deeds_setWorker h (by simp)
  unfold endAbortedWorker
  dsimp only
  split
  · next wait _ =>
    have dropped := ended.trans (Deed.fire wait.own).deeds
    exact dropped.trans (deeds_handOn (h.deeds dropped))
  · exact ended.trans (deeds_handOn (h.deeds ended))
  · exact ended.trans (Deed.progress (h.deeds ended).hasWorker k.gatherer
      (fun p => { p with waiting := p.waiting.erase k.query.index }) fun _ => List.prefix_rfl).deeds
  · exact ended

theorem deeds_pollWait {wait : Wait} (call : w.HasCall wait.call) (other : wait.call ≠ me) :
    Deeds hires makes me w (w.pollWait wait).2 := by
  unfold pollWait
  split
  · exact (Deed.fire _).deeds
  · split
    · exact (Deed.abort other (.inl call)).deeds.trans (Deed.fire _).deeds
    · exact .refl w

theorem deeds_startCall (r : Registry) (may : makes) {t : Task} (here : w.task? me = some t)
    (tool : String) (inputs : Fields Json) (signal : Signal) (limit : Option Nat) :
    Deeds hires makes me w (startCall r w tool inputs signal limit me).2 := by
  unfold startCall
  split
  · exact .refl w
  · exact (Deed.make may here rfl rfl).deeds

theorem deeds_pollCalling (h : w.Handy me k) {wait : Wait} (call : w.HasCall wait.call) :
    Deeds hires makes me w (w.pollCalling me k wait) := by
  have other : wait.call ≠ me := fun same => by
    obtain ⟨c, call⟩ := call
    obtain ⟨k₀, here⟩ := h.hasWorker
    cases (same ▸ call).symm.trans here
  have polled : Deeds hires makes me w (w.pollWait wait).2 := deeds_pollWait call other
  unfold pollCalling
  split
  · next o w₁ heq =>
    rw [heq] at polled
    exact polled.trans (deeds_endWorker (h.deeds polled) o)
  · next w₁ heq =>
    rw [heq] at polled
    exact polled.trans (deeds_setWorker (h.deeds polled) (by simp))

theorem deeds_beginCalling (r : Registry) (may : makes) (h : w.Handy me k) :
    Deeds hires makes me w (w.beginCalling r me k) := by
  unfold beginCalling
  split
  · next f w₁ heq =>
    obtain ⟨-, -, rfl⟩ := startCall_error heq
    exact deeds_endWorker h _
  · next wait w₁ heq =>
    obtain ⟨k₀, here⟩ := h.hasWorker
    have started : Deeds hires makes me w
        (startCall r w k.query.tool k.query.inputs k.signal none me).2 :=
      deeds_startCall r may here _ _ _ _
    obtain ⟨t, -, -, -, call⟩ := startCall_ok heq
    rw [heq] at started
    exact started.trans (deeds_pollCalling (h.deeds started) ⟨_, call⟩)

/-- **A worker that goes on** does this and no more. It makes a call only if it has its turn. -/
theorem deeds_pollWorker (r : Registry) (here : w.task? me = some (.worker k))
    (gatherer : w.HasCall k.gatherer) (waits : ∀ wait, k.phase = .calling wait →
      w.HasCall wait.call)
    (apart : me ∉ w.ready) (may : ∀ m, k.aborted = false → Starts w k m → makes) :
    Deeds hires makes me w (w.pollWorker r me k) := by
  have handy : w.Handy me k := ⟨⟨k, here, .refl k, rfl⟩, gatherer⟩
  by_cases starts : k.aborted = false ∧ ∃ m, Starts w k m
  · obtain ⟨kept, m, starts⟩ := starts
    have makes_ := may m kept starts
    rw [pollWorker_of_starts kept starts r]
    cases starts with
    | admitted => exact deeds_beginCalling r makes_ handy
    | asked =>
      have asked : Deeds hires makes me w
          (w.updateProgress k.gatherer fun p => p.request k.query.index) := deeds_request handy
      exact asked.trans (deeds_beginCalling r makes_ (handy.deeds asked))
  · have silent (kept : k.aborted = false) (m : World) : ¬ Starts w k m :=
      fun h => starts ⟨kept, m, h⟩
    unfold pollWorker
    split
    · exact .refl w
    · split
      · exact deeds_endAbortedWorker handy
      · next kept =>
        have silent := silent (Bool.eq_false_iff.mpr kept)
        split
        · next fresh =>
          have asked : Deeds hires makes me w
              (w.updateProgress k.gatherer fun p => p.request k.query.index) := deeds_request handy
          have still := handy.deeds asked
          have line :
              me ∉ (w.updateProgress k.gatherer fun p => p.request k.query.index).ready := by
            rcases updateProgress_cases w k.gatherer (fun p => p.request k.query.index) with
              same | ⟨_, _, _, _, -, -, set⟩
            · rwa [same]
            · rw [set]
              exact apart
          unfold pollAsking
          dsimp only
          split
          · exact asked.trans (deeds_setWorker still (by simp))
          · next first p found =>
            split
            · next inside =>
              exact absurd (.asked fresh found (List.contains_iff_mem.mp inside)) (silent _)
            · exact asked.trans (deeds_setWorker still fun _ => line)
        · next admitted => exact absurd (.admitted admitted) (silent w)
        · next wait calling => exact deeds_pollCalling handy (waits wait calling)
        · exact .refl w

end Runbook.Schedule.World
