import Runbook.Proofs.Schedule.Beats

/-!
# A call on its own, by beats

What the schedule does is a row of beats, and so is all that comes of a call that is made on its own.
Once it is made nobody outside makes another (`CalmBeats`): those outside look how far it has come,
fire its signal and give it up. So whatever is called from there on is called by a worker.
-/

set_option autoImplicit false

namespace Runbook.Schedule.World

variable {r : Registry} {hires makes : Prop} {u v w w' w'' : World} {me id x y : TaskId} {c c' : Call}
  {ready : List TaskId}

/-! ## 1. Calm -/

/-- A beat in which nobody outside makes a call. -/
inductive CalmBeat (r : Registry) (w : World) : World → Prop where
  | next {pause : Option Pause} {w' : World} (busy : w.ready ≠ []) (h : w.step r = (pause, w')) :
      CalmBeat r w w'
  | tick {w' : World} (quiet : w.ready = []) (h : w.advance? = some w') : CalmBeat r w w'
  | outside {me : TaskId} {w' : World} (call : ¬ w.HasCall me) (worker : ¬ w.HasWorker me)
      (h : Deed False False me w w') : CalmBeat r w w'

/-- Any number of them. -/
def CalmBeats (r : Registry) : World → World → Prop := Relation.ReflTransGen (CalmBeat r)

theorem CalmBeats.refl (w : World) : CalmBeats r w w := Relation.ReflTransGen.refl

theorem CalmBeat.calm (h : CalmBeat r w w') : CalmBeats r w w' := Relation.ReflTransGen.single h

theorem CalmBeats.trans (first : CalmBeats r w w') (later : CalmBeats r w' w'') :
    CalmBeats r w w'' :=
  Relation.ReflTransGen.trans first later

theorem CalmBeat.beat (h : CalmBeat r w w') : Beat r w w' := by
  cases h with
  | next busy stepped => exact .next busy stepped
  | tick quiet moved => exact .tick quiet moved
  | outside call worker deed => exact .outside call worker (deed.imp id fun _ _ h => h.elim)

theorem CalmBeats.beats (h : CalmBeats r w w') : Beats r w w' :=
  Relation.ReflTransGen.mono (fun _ _ => CalmBeat.beat) _ _ h

/-- Someone outside does something, but makes no call. -/
theorem Deed.calm {s : Option Signal} (client : w.task? me = some (.client s))
    (h : Deed False False me w w') : CalmBeats r w w' := by
  refine (CalmBeat.outside (fun ⟨c, here⟩ => ?_) (fun ⟨k, here⟩ => ?_) h).calm
  · cases client.symm.trans here
  · cases client.symm.trans here

/-! ## 2. No call is made from outside -/

/-- The call has been made from outside. -/
def Asked (w : World) (y : TaskId) : Prop :=
  ∃ c s, w.task? y = some (.call c) ∧ w.task? c.caller = some (.client s)

/-- If none but workers make calls, none is made from outside. -/
theorem Spares.asked (spares : Spares hires makes me { w with ready } w') (ordered : Ordered r w)
    (inside : makes → w.HasWorker me) (asked : w'.Asked y) : w.Asked y := by
  obtain ⟨c', s', there, caller⟩ := asked
  rcases spares.wasCall there with ⟨-, may, -, mine⟩ | ⟨c, here, alike, -⟩
  · obtain ⟨k, hand⟩ := inside may
    obtain ⟨k', there', -⟩ := spares.hand k hand
    cases (mine ▸ caller).symm.trans there'
  · obtain ⟨t, here', -⟩ := ordered.callers y c here
    rw [alike.caller] at caller
    cases t with
    | client s => exact ⟨c, s, here, here'⟩
    | call c₁ =>
      obtain ⟨c₂, there'⟩ := spares.hasCall ⟨c₁, here'⟩
      cases caller.symm.trans there'
    | worker k =>
      obtain ⟨k', there'⟩ := spares.hasWorker ⟨k, here'⟩
      cases caller.symm.trans there'

theorem CalmBeat.asked (h : CalmBeat r w w') (ordered : Ordered r w) (asked : w'.Asked y) :
    w.Asked y := by
  cases h with
  | next busy stepped =>
    obtain ⟨id, rest, line, goer⟩ := goer_of_next busy stepped
    obtain rfl : w.ready.erase id = rest := by rw [line, List.erase_cons_head]
    cases goer with
    | call here =>
      have deeds : Deeds True False id { w with ready := w.ready.erase id } _ :=
        deeds_call ordered here fun _ _ => trivial
      exact deeds.spares.asked ordered False.elim asked
    | @worker k here =>
      have deeds : Deeds False True id { w with ready := w.ready.erase id } _ :=
        deeds_worker ordered.sane here (ordered.tidy.leave id).1 fun _ _ _ => trivial
      exact deeds.spares.asked ordered (fun _ => ⟨k, here⟩) asked
    | client => exact asked
  | tick quiet moved =>
    obtain ⟨-, -, -, -, tasks, -⟩ := advance?_cases moved
    have same (x : TaskId) : w'.task? x = w.task? x := congrArg (·[x]?) tasks
    obtain ⟨c, s, there, caller⟩ := asked
    exact ⟨c, s, (same _).symm.trans there, (same _).symm.trans caller⟩
  | outside call worker deed => exact deed.spares.asked ordered False.elim asked

/-- **In calm no call is made from outside.** -/
theorem CalmBeats.asked (h : CalmBeats r w w') (ordered : Ordered r w) (asked : w'.Asked y) :
    w.Asked y := by
  induction h with
  | refl => exact asked
  | tail calm beat ih =>
    exact ih (beat.asked ((CalmBeats.beats calm).ordered ordered) asked)

/-! ## 3. What the schedule does -/

theorem calmBeat_of_step {pause : Option Pause} (h : w.step r = (pause, w'))
    (turn : pause ≠ some .quiet) : CalmBeat r w w' := by
  refine .next (fun quiet => turn ?_) h
  rw [step, quiet] at h
  exact (congrArg Prod.fst h).symm

theorem beat_of_step {pause : Option Pause} (h : w.step r = (pause, w'))
    (turn : pause ≠ some .quiet) : Beat r w w' :=
  (calmBeat_of_step h turn).beat

theorem calm_of_passes {ws : List World} (h : Passes r w ws w') : CalmBeats r w w' := by
  induction h with
  | refl => exact .refl _
  | work stepped _ ih => exact (calmBeat_of_step stepped (by simp)).calm.trans ih
  | tick quiet moved _ ih => exact (CalmBeat.tick quiet moved).calm.trans ih

theorem beats_of_passes {ws : List World} (h : Passes r w ws w') : Beats r w w' :=
  (calm_of_passes h).beats

/-- **Whatever the schedule does** is a row of calm beats. -/
theorem calm_of_run {horizon fuel : Nat} {next : Option TaskId}
    (h : w.run r horizon fuel = (next, w')) : CalmBeats r w w' := by
  obtain ⟨ws, m, passes, arrives⟩ := passes_run h
  refine (calm_of_passes passes).trans ?_
  cases next with
  | none =>
    cases arrives
    exact .refl _
  | some id => exact (calmBeat_of_step arrives (by simp)).calm

/-! ## 4. A call is waited for -/

/-- Someone outside who waits for a call looks whether it has ended. -/
theorem calm_of_pollWait {s : Option Signal} (client : w.task? me = some (.client s)) {wait : Wait}
    (call : w.HasCall wait.call) : CalmBeats r w (w.pollWait wait).2 := by
  unfold pollWait
  split
  · exact (Deed.fire _).calm client
  · split
    · have other : wait.call ≠ me := fun same => by
        obtain ⟨c, call⟩ := call
        cases (same ▸ call).symm.trans client
      have given : Deed False False me w (w.abort wait.call) := .abort other (.inl call)
      obtain ⟨s', still⟩ := given.spares.client me s client
      exact (given.calm client).trans ((Deed.fire _).calm still)
    · exact .refl w

theorem calm_of_await {watched : Watched} {fuel : Nat} {report : CallReport}
    (ordered : Ordered r w)
    {s : Option Signal} (maker : w.task? watched.maker = some (.client s))
    (call : w.HasCall watched.wait.call) (h : await r watched fuel w = some report) :
    CalmBeats r w report.world := by
  induction fuel generalizing w s with
  | zero => cases h
  | succ fuel ih =>
    have polled : CalmBeats r w (w.pollWait watched.wait).2 := calm_of_pollWait maker call
    rw [await] at h
    split at h
    · next heq =>
      rw [heq] at polled
      cases h
      exact polled
    · next w₁ heq =>
      rw [heq] at polled
      split at h
      · cases h
      · next id w₂ ran =>
        have calm : CalmBeats r w w₂ := polled.trans (calm_of_run ran)
        obtain ⟨s', there⟩ := calm.beats.client ordered maker
        have told : CalmBeats r w₂
            (if id = watched.stopper then w₂.fire watched.wait.signal else w₂) := by
          split
          · exact (Deed.fire _).calm there
          · exact .refl w₂
        have whole := calm.trans told
        obtain ⟨c, here⟩ := call
        obtain ⟨c', there', -⟩ := whole.beats.call ordered here
        obtain ⟨s'', there''⟩ := whole.beats.client ordered maker
        exact whole.trans (ih (whole.beats.ordered ordered) there'' ⟨c', there'⟩ h)

/-- What comes after the report of a call. -/
theorem calm_of_after (report : CallReport) (ms : Nat) :
    CalmBeats r report.world (report.after r ms) := by
  have goes (fuel : Nat) (w : World) : CalmBeats r w (CallReport.after.go report r ms fuel w) := by
    induction fuel generalizing w with
    | zero => exact .refl w
    | succ fuel ih =>
      rw [CallReport.after.go]
      split
      · next ran => exact calm_of_run ran
      · next ran => exact (calm_of_run ran).trans (ih _)
  exact goes _ _

/-! ## 5. A call on its own -/

/-- The call that is made on its own, the first and only one from outside. -/
structure Begins (t : Tool) (inputs : Fields Json) (w : World) : Prop where
  call : ∃ c, w.task? 2 = some (.call c) ∧ c.tool = t ∧ c.inputs = inputs ∧ c.unchecked = false
  only : ∀ y, w.Asked y → y = 2

theorem begins_of_tasks {t : Tool} {inputs : Fields Json} {signal : Signal} {limit : Option Nat}
    (tasks : w.tasks = #[.client (some [0]), .client none,
      .call { tool := t, inputs, signal, limit, caller := 0 }]) : Begins t inputs w := by
  refine ⟨⟨_, by rw [task?, tasks]; rfl, rfl, rfl, rfl⟩, ?_⟩
  rintro y ⟨c, s, there, -⟩
  rw [task?, tasks] at there
  rcases y with _ | _ | _ | y
  · cases there
  · cases there
  · rfl
  · cases there

theorem Begins.later {t : Tool} {inputs : Fields Json} (h : Begins t inputs w)
    (calm : CalmBeats r w w') (ordered : Ordered r w) : Begins t inputs w' := by
  obtain ⟨c, here, rfl, rfl, checked⟩ := h.call
  obtain ⟨c', there, alike, -⟩ := calm.beats.call ordered here
  exact ⟨⟨c', there, alike.tool, alike.inputs, alike.unchecked.trans checked⟩,
    fun y asked => h.only y (calm.asked ordered asked)⟩

theorem begins_of_startCall {tool : String} {t : Tool} (known : r.tool? tool = some t)
    (inputs : Fields Json) (limit stopAt : Option Nat) :
    Begins t inputs (startCall r (callWorld stopAt).2.2.2 tool inputs (callWorld stopAt).1 limit
      (callWorld stopAt).2.1).2 := by
  unfold startCall
  rw [known]
  match stopAt with
  | none | some 0 | some (ms + 1) => exact begins_of_tasks rfl

/-- **A call on its own** is made, and waited for in calm. -/
theorem dispatched_in_calm {tool : String} {inputs : Fields Json} {limit stopAt : Option Nat}
    {report : CallReport} (h : dispatch r tool inputs limit stopAt = some report) :
    ∃ w, w = (startCall r (callWorld stopAt).2.2.2 tool inputs (callWorld stopAt).1 limit
        (callWorld stopAt).2.1).2 ∧ Beats r {} w ∧ CalmBeats r w report.world := by
  obtain ⟨made, client⟩ := beats_of_callWorld (r := r) stopAt
  have started := beats_of_startCall (r := r) client tool inputs (callWorld stopAt).1 limit
  have reached := made.trans started
  obtain ⟨s, still⟩ := started.client (ordered_of_beats made) client
  refine ⟨_, rfl, reached, ?_⟩
  unfold dispatch at h
  dsimp only at h
  split at h
  · next heq =>
    cases h
    rw [heq]
    exact .refl _
  · next wait w heq =>
    obtain ⟨t, -, -, -, call⟩ := startCall_ok heq
    rw [heq] at reached still ⊢
    exact calm_of_await (ordered_of_beats reached) still ⟨_, call⟩ h

theorem beats_of_dispatch {tool : String} {inputs : Fields Json} {limit stopAt : Option Nat}
    {report : CallReport} (h : dispatch r tool inputs limit stopAt = some report) :
    Beats r {} report.world := by
  obtain ⟨w, -, reached, calm⟩ := dispatched_in_calm h
  exact reached.trans calm.beats

theorem begins_of_dispatch {tool : String} {t : Tool} (known : r.tool? tool = some t)
    {inputs : Fields Json} {limit stopAt : Option Nat} {report : CallReport}
    (h : dispatch r tool inputs limit stopAt = some report) : Begins t inputs report.world := by
  obtain ⟨w, rfl, reached, calm⟩ := dispatched_in_calm h
  exact (begins_of_startCall known inputs limit stopAt).later calm (ordered_of_beats reached)

end Runbook.Schedule.World
