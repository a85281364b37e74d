import Mathlib.Data.List.TakeWhile
import Runbook.Proofs.Schedule.Clients

/-!
# How time passes

Time passes only when no task is in line, and then to the next moment for which a timer is set. So a
client that has set a timer is in line when its moment has come, and no moment goes by without it
(`Due`).

`Passes r w ws w'` says that the world goes on by itself from `w` to `w'` and comes through the
worlds `ws`. Whatever `World.run` does is such a passage, up to a client that can go on.
-/

set_option autoImplicit false

namespace Runbook.Schedule.World

variable {id : TaskId} {s : Signal} {w w' : World}

/-- A moment that a client waits for: its timer is set, or it has come and the client is in line. -/
def Due (w : World) (id : TaskId) (moment : Nat) : Prop :=
  (w.now < moment ∧ ⟨moment, id⟩ ∈ w.timers) ∨ (w.now = moment ∧ id ∈ w.ready)

theorem Minds.due (h : Minds id s w w') {moment : Nat} (due : w.Due id moment) :
    w'.Due id moment := by
  rw [Due, h.now]
  exact due.imp (And.imp_right (h.timers _)) (And.imp_right h.ready)

/-- Waking tasks changes the line alone. -/
theorem wakes_keep (w : World) (ids : List TaskId) :
    (ids.foldl wake w).now = w.now ∧ (ids.foldl wake w).tasks = w.tasks ∧
      (ids.foldl wake w).timers = w.timers ∧ (ids.foldl wake w).fired = w.fired := by
  induction ids generalizing w with
  | nil => exact ⟨rfl, rfl, rfl, rfl⟩
  | cons me ids ih =>
    have one : (w.wake me).now = w.now ∧ (w.wake me).tasks = w.tasks ∧
        (w.wake me).timers = w.timers ∧ (w.wake me).fired = w.fired := by
      unfold wake
      split <;> exact ⟨rfl, rfl, rfl, rfl⟩
    obtain ⟨now, tasks, timers, fired⟩ := ih (w.wake me)
    exact ⟨now.trans one.1, tasks.trans one.2.1, timers.trans one.2.2.1, fired.trans one.2.2.2⟩

/-! ## 1. The next moment -/

/-- What comes with the next moment: the timers of that moment are gone, and those who had set them
are in line. -/
theorem advance?_cases (h : w.advance? = some w') :
    ∃ t ts, w.timers = t :: ts ∧ w'.now = max w.now t.moment ∧ w'.tasks = w.tasks ∧
      w'.fired = w.fired ∧ w'.timers = w.timers.dropWhile (·.moment ≤ t.moment) ∧
      ∀ x ∈ w.timers.takeWhile (·.moment ≤ t.moment), x.task ∈ w'.ready := by
  unfold advance? at h
  split at h
  · cases h
  · next t ts timers =>
    obtain rfl := Option.some.inj h
    have rest : w.timers.drop (w.timers.takeWhile (·.moment ≤ t.moment)).length =
        w.timers.dropWhile (·.moment ≤ t.moment) :=
      (congrArg (List.drop _) List.takeWhile_append_dropWhile.symm).trans List.drop_left
    rw [rest, ← List.foldl_map]
    obtain ⟨now, tasks, left, fired⟩ := wakes_keep
      { w with now := max w.now t.moment, timers := w.timers.dropWhile (·.moment ≤ t.moment) }
      ((w.timers.takeWhile (·.moment ≤ t.moment)).map (·.task))
    refine ⟨t, ts, timers, now, tasks, fired, left, fun x hx => ?_⟩
    exact mem_ready_wakes (List.mem_map.mpr ⟨x, hx, rfl⟩)

theorem mem_takeWhile_of_ascending {ts : List Timer} {x : Timer} {moment : Nat}
    (ascending : Ascending ts) (hx : x ∈ ts) (h : x.moment ≤ moment) :
    x ∈ ts.takeWhile (·.moment ≤ moment) := by
  induction ts with
  | nil => cases hx
  | cons y ts ih =>
    obtain ⟨front, later⟩ := List.pairwise_cons.mp ascending
    rcases List.mem_cons.mp hx with rfl | hx
    · rw [List.takeWhile_cons_of_pos (by simpa using h)]
      exact List.mem_cons_self
    · have first : y.moment ≤ moment := Nat.le_trans (front x hx) h
      rw [List.takeWhile_cons_of_pos (by simpa using first)]
      exact List.mem_cons_of_mem y (ih later hx)

theorem mem_dropWhile_of_late {ts : List Timer} {x : Timer} {moment : Nat} (hx : x ∈ ts)
    (h : moment < x.moment) : x ∈ ts.dropWhile (·.moment ≤ moment) := by
  rw [← List.takeWhile_append_dropWhile (p := (·.moment ≤ moment)) (l := ts)] at hx
  rcases List.mem_append.mp hx with hx | hx
  · have early := List.mem_takeWhile_imp hx
    simp only [decide_eq_true_eq] at early
    omega
  · exact hx

theorem ascending_of_advance? (ascending : Ascending w.timers) (h : w.advance? = some w') :
    Ascending w'.timers := by
  obtain ⟨t, -, -, -, -, -, left, -⟩ := advance?_cases h
  rw [left]
  exact ascending.sublist (List.dropWhile_sublist _)

/-- **No moment goes by**: whoever waits for one is in line when it has come. -/
theorem due_of_advance? (quiet : w.ready = []) (ascending : Ascending w.timers)
    (h : w.advance? = some w') {moment : Nat} (due : w.Due id moment) : w'.Due id moment := by
  obtain ⟨t, ts, timers, now, -, -, left, woken⟩ := advance?_cases h
  obtain ⟨later, set⟩ | ⟨-, inLine⟩ := due
  · by_cases next : moment ≤ t.moment
    · -- no earlier timer is set, so the next moment is this one
      have least : t.moment ≤ moment := by
        have set := set
        rw [timers] at ascending set
        rcases List.mem_cons.mp set with same | behind
        · exact Nat.le_of_eq (congrArg Timer.moment same.symm)
        · exact (List.pairwise_cons.mp ascending).1 _ behind
      exact .inr ⟨by omega, woken _ (mem_takeWhile_of_ascending ascending set next)⟩
    · refine .inl ⟨by omega, ?_⟩
      rw [left]
      exact mem_dropWhile_of_late set (by simpa using next)
  · rw [quiet] at inLine
    cases inLine

/-! ## 2. What is kept as time passes -/

/-- Time does not run backwards, and nothing is forgotten. -/
structure Follows (w w' : World) : Prop where
  later : w.now ≤ w'.now
  size : w.tasks.size ≤ w'.tasks.size
  ascending : Ascending w.timers → Ascending w'.timers
  fired : ∀ x, w.isStopped x = true → w'.isStopped x = true

theorem Minds.follows (h : Minds id s w w') : Follows w w' :=
  ⟨Nat.le_of_eq h.now.symm, h.size, h.ascending, h.fired⟩

theorem follows_step {r : Registry} (h : w.step r = (none, w')) : Follows w w' := by
  cases line : w.ready with
  | nil =>
    rw [step, line] at h
    cases h
  | cons me ready =>
    have other : ∀ back, w.ready ≠ (me + 1) :: back := by
      intro back same
      exact Nat.succ_ne_self me (List.cons.inj (line.symm.trans same)).1.symm
    exact (minds_step (s := []) other h).follows

theorem follows_of_advance? (h : w.advance? = some w') : Follows w w' := by
  obtain ⟨t, -, -, now, tasks, fired, left, -⟩ := advance?_cases h
  refine ⟨by omega, by rw [tasks], fun ascending => ascending_of_advance? ascending h, ?_⟩
  intro x hx
  rwa [isStopped, fired]

/-- Nothing goes by that the client waits for: it is in line when one of its moments has come and
when its signal has fired, and then no time passes. -/
structure Keeps (id : TaskId) (s : Signal) (w w' : World) : Prop where
  client : w.HasClient id s → w'.HasClient id s
  due : ∀ moment, w.Due id moment → w'.Due id moment
  woken : w.HasClient id s → (w.isStopped s = true → id ∈ w.ready) → w'.isStopped s = true →
    id ∈ w'.ready
  moved : (w.isStopped s = true → id ∈ w.ready) → w.now < w'.now → ¬ w.isStopped s = true

theorem Minds.keeps (h : Minds id s w w') : Keeps id s w w' where
  client := h.client
  due _ := h.due
  woken there before fired := (h.woken there fired).elim (fun old => h.ready (before old)) fun x => x
  moved _ later := absurd h.now (Nat.ne_of_gt later)

theorem keeps_of_advance? (quiet : w.ready = []) (ascending : Ascending w.timers)
    (h : w.advance? = some w') : Keeps id s w w' := by
  obtain ⟨t, -, -, -, tasks, fired, -, -⟩ := advance?_cases h
  have unfired : (w.isStopped s = true → id ∈ w.ready) → ¬ w.isStopped s = true := by
    intro before stopped
    have inLine := before stopped
    rw [quiet] at inLine
    cases inLine
  refine ⟨fun there => ?_, fun _ => due_of_advance? quiet ascending h, fun _ before stopped => ?_,
    fun before _ => unfired before⟩
  · rwa [HasClient, task?, tasks]
  · rw [isStopped, fired] at stopped
    exact absurd stopped (unfired before)

/-! ## 3. A passage -/

/-- The world goes on by itself from the first world to the last, through the worlds in the list:
tasks do, and when none is in line, time passes. -/
inductive Passes (r : Registry) : World → List World → World → Prop where
  | refl (w : World) : Passes r w [] w
  | work {w w₁ w' : World} {ws : List World} (h : w.step r = (none, w₁))
      (later : Passes r w₁ ws w') : Passes r w (w :: ws) w'
  | tick {w w₁ w' : World} {ws : List World} (quiet : w.ready = []) (h : w.advance? = some w₁)
      (later : Passes r w₁ ws w') : Passes r w (w :: ws) w'

theorem passes_append {r : Registry} {w m w' : World} {us vs : List World}
    (first : Passes r w us m) (later : Passes r m vs w') : Passes r w (us ++ vs) w' := by
  induction first with
  | refl => exact later
  | work h _ ih => exact .work h (ih later)
  | tick quiet h _ ih => exact .tick quiet h (ih later)

/-- A passage comes to its end: with a client that can go on, or without one. -/
def Arrives (r : Registry) (m w' : World) : Option TaskId → Prop
  | none => m = w'
  | some id => m.step r = (some (.client id), w')

def Pause.client? : Pause → Option TaskId
  | .quiet => none
  | .client id => some id

theorem arrives_of_step {r : Registry} {w w' : World} {pause : Pause}
    (h : w.step r = (some pause, w')) : Arrives r w w' pause.client? := by
  cases pause with
  | client id => exact h
  | quiet =>
    unfold step at h
    split at h
    · cases h
      rfl
    · dsimp only at h
      split at h <;> cases h

theorem passes_settle {r : Registry} {fuel : Nat} {w w' : World} {pause : Pause}
    (h : w.settle r fuel = (pause, w')) :
    ∃ ws m, Passes r w ws m ∧ Arrives r m w' pause.client? := by
  induction fuel generalizing w with
  | zero =>
    cases h
    exact ⟨[], _, .refl _, rfl⟩
  | succ fuel ih =>
    rw [settle] at h
    split at h
    · next stepped =>
      cases h
      exact ⟨[], w, .refl w, arrives_of_step stepped⟩
    · next stepped =>
      obtain ⟨ws, m, later, last⟩ := ih h
      exact ⟨w :: ws, m, .work stepped later, last⟩

/-- **Whatever the schedule does is a passage**, up to a client that can go on. -/
theorem passes_run {r : Registry} {horizon fuel : Nat} {w w' : World} {next : Option TaskId}
    (h : w.run r horizon fuel = (next, w')) :
    ∃ ws m, Passes r w ws m ∧ Arrives r m w' next := by
  induction fuel generalizing w with
  | zero =>
    cases h
    exact ⟨[], _, .refl _, rfl⟩
  | succ fuel ih =>
    rw [run] at h
    split at h
    · next settled =>
      cases h
      exact passes_settle settled
    · next settled =>
      obtain ⟨us, m, first, rfl⟩ := passes_settle settled
      -- time passes if no task is in line and there is a next moment within the horizon
      split at h
      · next quiet timers =>
        split at h
        · cases h
          exact ⟨us, _, first, rfl⟩
        · split at h
          · next moved =>
            obtain ⟨vs, m', later, last⟩ := ih h
            exact ⟨us ++ m :: vs, m', passes_append first (.tick quiet moved later), last⟩
          · cases h
            exact ⟨us, _, first, rfl⟩
      · cases h
        exact ⟨us, _, first, rfl⟩

end Runbook.Schedule.World
