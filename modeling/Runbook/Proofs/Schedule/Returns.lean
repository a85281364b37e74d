import Runbook.Proofs.Schedule.Untimed

/-!
# What a call returns

Someone waits for a call, and the world goes on (`World.stir`) until the wait returns something
(`Returns`). Unlike `dispatch`, which goes on for so many steps and up to a horizon, this has no
bounds; what `dispatch` reports is what is returned (`answered_of_dispatch`), and nothing else is
(`Answered.unique`).
-/

set_option autoImplicit false

namespace Runbook.Schedule
namespace World

variable {r : Registry} {k : Watched} {w w' w'' m : World} {o o' : Except Failure ToolOutput}
  {c : Call} {e : CallEnd}

/-! ## 1. The world goes on -/

/-- What the one who waits does when the task can go on, someone outside: the stopper fires the
signal first. -/
def look (k : Watched) (id : TaskId) (w : World) : Option (Except Failure ToolOutput) × World :=
  (if id = k.stopper then w.fire k.wait.signal else w).pollWait k.wait

/-- The world goes on by one step: a task does, time passes, or the one who waits looks what has
come of the call. -/
def stir (r : Registry) (k : Watched) (w : World) : Option (Except Failure ToolOutput) × World :=
  match w.step r with
  | (none, w) => (none, w)
  | (some .quiet, w) => (none, w.advance?.getD w)
  | (some (.client id), w) => w.look k id

/-- The wait for the call returns something, sooner or later. -/
inductive Returns (r : Registry) (k : Watched) :
    World → Except Failure ToolOutput → World → Prop where
  | now {w w' : World} {o : Except Failure ToolOutput} (h : w.stir r k = (some o, w')) :
      Returns r k w o w'
  | later {w m w' : World} {o : Except Failure ToolOutput} (h : w.stir r k = (none, m))
      (rest : Returns r k m o w') : Returns r k w o w'

theorem Returns.unique (h : Returns r k w o w') (h' : Returns r k w o' w'') :
    o' = o ∧ w'' = w' := by
  induction h with
  | now h =>
    cases h' with
    | now h' =>
      cases h.symm.trans h'
      exact ⟨rfl, rfl⟩
    | later h' => cases h.symm.trans h'
  | later h _ ih =>
    cases h' with
    | now h' => cases h.symm.trans h'
    | later h' rest =>
      cases h.symm.trans h'
      exact ih rest

theorem stir_of_step (h : w.step r = (none, m)) : w.stir r k = (none, m) := by
  rw [stir, h]

theorem stir_of_quiet (quiet : w.ready = []) (h : w.advance? = some m) :
    w.stir r k = (none, m) := by
  have stepped : w.step r = (some .quiet, w) := by rw [step, quiet]
  rw [stir, stepped]
  dsimp only
  rw [h, Option.getD_some]

theorem stir_of_client {id : TaskId} (h : w.step r = (some (.client id), m)) :
    w.stir r k = m.look k id := by
  rw [stir, h]

theorem Returns.of_passes {ws : List World} (passes : Passes r w ws m) (h : Returns r k m o w') :
    Returns r k w o w' := by
  induction passes with
  | refl => exact h
  | work stepped _ ih => exact .later (stir_of_step stepped) (ih h)
  | tick quiet moved _ ih => exact .later (stir_of_quiet quiet moved) (ih h)

/-- It is returned at this moment. -/
def ReturnsAt (r : Registry) (k : Watched) (w : World) (o : Except Failure ToolOutput)
    (moment : Nat) : Prop :=
  ∃ w', Returns r k w o w' ∧ w'.now = moment

theorem ReturnsAt.of_stir {moment : Nat} (stirred : w.stir r k = (none, m))
    (h : ReturnsAt r k m o moment) : ReturnsAt r k w o moment := by
  obtain ⟨w', returns, now⟩ := h
  exact ⟨w', .later stirred returns, now⟩

/-- Someone begins to wait for a call. -/
inductive Awaited (r : Registry) (k : Watched) (w : World) (o : Except Failure ToolOutput)
    (w' : World) : Prop where
  | now (h : w.pollWait k.wait = (some o, w'))
  | later {m : World} (h : w.pollWait k.wait = (none, m)) (rest : Returns r k m o w')

theorem Awaited.unique (h : Awaited r k w o w') (h' : Awaited r k w o' w'') :
    o' = o ∧ w'' = w' := by
  cases h with
  | now h =>
    cases h' with
    | now h' =>
      cases h.symm.trans h'
      exact ⟨rfl, rfl⟩
    | later h' => cases h.symm.trans h'
  | later h rest =>
    cases h' with
    | now h' => cases h.symm.trans h'
    | later h' rest' =>
      cases h.symm.trans h'
      exact rest.unique rest'

theorem awaited_of_await {fuel : Nat} {report : CallReport} (h : await r k fuel w = some report) :
    Awaited r k w report.outcome report.world ∧ report.moment = report.world.now := by
  induction fuel generalizing w with
  | zero => cases h
  | succ fuel ih =>
    rw [await] at h
    split at h
    · next polled =>
      cases h
      exact ⟨.now polled, rfl⟩
    · next w₁ polled =>
      split at h
      · cases h
      · next id w₂ ran =>
        obtain ⟨ws, m, passes, arrives⟩ := passes_run ran
        obtain ⟨awaited, moment⟩ := ih h
        have looks : m.stir r k =
            (if id = k.stopper then w₂.fire k.wait.signal else w₂).pollWait k.wait :=
          stir_of_client arrives
        refine ⟨.later polled (.of_passes passes ?_), moment⟩
        cases awaited with
        | now looked => exact .now (looks.trans looked)
        | later looked rest => exact .later (looks.trans looked) rest

/-! ## 2. A call on its own -/

/-- What a call is answered with that is made on its own, and the world then. -/
def Answered (r : Registry) (tool : String) (inputs : Fields Json) (limit stopAt : Option Nat)
    (o : Except Failure ToolOutput) (w' : World) : Prop :=
  let (signal, maker, stopper, w) := callWorld stopAt
  match w.startCall r tool inputs signal limit maker with
  | (.error f, w) => o = .error f ∧ w' = w
  | (.ok wait, w) => Awaited r ⟨maker, stopper, wait⟩ w o w'

variable {tool : String} {inputs : Fields Json} {limit stopAt : Option Nat} {moment : Nat}

theorem Answered.unique (h : Answered r tool inputs limit stopAt o w')
    (h' : Answered r tool inputs limit stopAt o' w'') : o' = o ∧ w'' = w' := by
  unfold Answered at h h'
  generalize callWorld stopAt = made at h h'
  obtain ⟨signal, maker, stopper, w⟩ := made
  dsimp only at h h'
  split at h
  · next started =>
    rw [started] at h'
    exact ⟨h'.1.trans h.1.symm, h'.2.trans h.2.symm⟩
  · next started =>
    rw [started] at h'
    exact h.unique h'

/-- **What is reported** is what the call is answered with. -/
theorem answered_of_dispatch {report : CallReport}
    (h : dispatch r tool inputs limit stopAt = some report) :
    Answered r tool inputs limit stopAt report.outcome report.world ∧
      report.moment = report.world.now := by
  unfold dispatch at h
  unfold Answered
  generalize callWorld stopAt = made at h
  obtain ⟨signal, maker, stopper, w⟩ := made
  dsimp only at h ⊢
  generalize w.startCall r tool inputs signal limit maker = started at h ⊢
  match started with
  | (.error f, w) =>
    cases h
    exact ⟨⟨rfl, rfl⟩, rfl⟩
  | (.ok wait, w) => exact awaited_of_await h

/-- The call is answered with this, at this moment, and with nothing else; and this is reported. -/
structure AnsweredAt (r : Registry) (tool : String) (inputs : Fields Json)
    (limit stopAt : Option Nat)
    (o : Except Failure ToolOutput) (moment : Nat) : Prop where
  answered : ∃ w', w'.now = moment ∧
    ∀ o' w'', Answered r tool inputs limit stopAt o' w'' ↔ o' = o ∧ w'' = w'
  reported : ∀ report, dispatch r tool inputs limit stopAt = some report →
    report.outcome = o ∧ report.moment = moment

theorem Answered.at (h : Answered r tool inputs limit stopAt o w') :
    AnsweredAt r tool inputs limit stopAt o w'.now where
  answered := ⟨w', rfl, fun _ _ => ⟨h.unique, fun ⟨same, same'⟩ => same ▸ same' ▸ h⟩⟩
  reported report reported := by
    obtain ⟨answered, moment⟩ := answered_of_dispatch reported
    obtain ⟨same, same'⟩ := h.unique answered
    exact ⟨same, moment.trans (congrArg World.now same')⟩

end World
end Runbook.Schedule
