import Runbook.Dialogue
import Runbook.Memory.Recording
import Runbook.Run.Question

/-!
# What an exchange of a run amounts to

`Yields d t a` is read backwards here: from a result, to what must have been asked and answered.
There is one rule for each way to build a dialogue, so the exchanges of a `do` block fall apart
along its lines.

A function that answers every question picks one list of exchanges, the transcript. It yields the
function's result (`yields_transcript`), so no dialogue is without a behaviour, and what holds of
all `t` holds of what a surrounding really does.

The exchanges of a run are of five kinds, and three of them matter to its order: those that
*engage* the surroundings for a step (reading memory, asking for approval, calling a tool), those
that append a slice, and those whose answer ends the run.

Recording is the one thing a run does with appends. `yields_appendAll` says which appends took
place: all of them, in order, if it succeeded; else a front part, and then the one that failed.
-/

set_option autoImplicit false

namespace Runbook

namespace Dialogue

variable {Q : Type} {A : Q → Type} {α β σ : Type}

/-! ## 1. One rule for each form of a dialogue -/

theorem yields_done_iff {a b : α} {t : List (Exchange Q A)} :
    Yields (.done a) t b ↔ t = [] ∧ b = a := by
  constructor
  · intro h
    cases h
    exact ⟨rfl, rfl⟩
  · rintro ⟨rfl, rfl⟩
    exact .done b

theorem yields_pure_iff {a b : α} {t : List (Exchange Q A)} :
    Yields (pure a) t b ↔ t = [] ∧ b = a := yields_done_iff

theorem yields_ask_iff {q : Q} {next : A q → Dialogue Q A α} {t : List (Exchange Q A)} {a : α} :
    Yields (.ask q next) t a ↔ ∃ x u, t = ⟨q, x⟩ :: u ∧ Yields (next x) u a := by
  constructor
  · intro h
    cases h with
    | ask x h => exact ⟨x, _, rfl, h⟩
  · rintro ⟨x, u, rfl, h⟩
    exact .ask x h

/-- `yields_bind_iff` in the notation of `do` blocks. -/
theorem yields_do_iff {d : Dialogue Q A α} {f : α → Dialogue Q A β} {t : List (Exchange Q A)}
    {b : β} : Yields (d >>= f) t b ↔ ∃ t₁ t₂ a, t = t₁ ++ t₂ ∧ Yields d t₁ a ∧ Yields (f a) t₂ b :=
  yields_bind_iff

/-- A single question is a single exchange, with the answer for its result. -/
theorem yields_question_do_iff {q : Q} {f : A q → Dialogue Q A β} {t : List (Exchange Q A)}
    {b : β} : Yields ((Dialogue.ask q .done : Dialogue Q A (A q)) >>= f) t b ↔
      ∃ x u, t = ⟨q, x⟩ :: u ∧ Yields (f x) u b :=
  yields_ask_iff

/-! ## 2. The transcript -/

/-- The exchanges that take place when every question is answered from a state. -/
def transcript (reply : (q : Q) → σ → A q × σ) : Dialogue Q A α → σ → List (Exchange Q A)
  | .done _, _ => []
  | .ask q next, s => ⟨q, (reply q s).1⟩ :: transcript reply (next (reply q s).1) (reply q s).2

theorem yields_transcript (reply : (q : Q) → σ → A q × σ) (d : Dialogue Q A α) (s : σ) :
    Yields d (d.transcript reply s) (d.answered reply s).1 := by
  induction d generalizing s with
  | done a => exact .done a
  | ask q next ih => exact .ask _ (ih _ _)

/-- An answer in a transcript was given from some state. -/
theorem answer_of_mem_transcript {reply : (q : Q) → σ → A q × σ} {d : Dialogue Q A α} {s : σ}
    {x : Exchange Q A} (h : x ∈ d.transcript reply s) :
    ∃ s', x.answer = (reply x.question s').1 := by
  induction d generalizing s with
  | done => cases h
  | ask q next ih =>
    rcases List.mem_cons.mp h with rfl | h
    · exact ⟨s, rfl⟩
    · exact ih _ h

end Dialogue

/-! ## 3. The exchanges of a run -/

/-- A question of a run with its answer. -/
abbrev RunExchange := Dialogue.Exchange RunQuestion RunAnswer

/-- The exchanges of a run, in their order. -/
abbrev RunTrace := List RunExchange

/-- Reads memory, asks for approval, or calls a tool. -/
def RunQuestion.engages : RunQuestion → Prop
  | .store (.append _) => False
  | .store (.query _) => True
  | .store (.history _) => True
  | .time => False
  | .stopRequested => False
  | .approval .. => True
  | .call .. => True

namespace RunExchange

/-- The slice was appended. -/
def appended (s : NewSlice) (id : Nat) : RunExchange := ⟨.store (.append s), .ok id⟩

/-- The slice could not be appended. -/
def refused (s : NewSlice) (e : StoreError) : RunExchange := ⟨.store (.append s), .error e⟩

/-- The exchange engages the surroundings for a step. -/
def Engages (x : RunExchange) : Prop := x.question.engages

/-- The answer ends the run: a slice is not stored, a gate is not passed, or the run is told to
stop. -/
inductive EndsRun : RunExchange → Prop where
  | refused (s : NewSlice) (e : StoreError) : EndsRun (refused s e)
  | gate (step prompt : String) (limit : Option Nat) (a : Approval) (h : a ≠ .approved) :
      EndsRun ⟨.approval step prompt limit, a⟩
  | stop : EndsRun ⟨.stopRequested, true⟩

/-- The slice that the exchange put into the store, if it did. -/
def stored? : RunExchange → Option NewSlice
  | ⟨.store (.append s), .ok _⟩ => some s
  | _ => none

@[simp] theorem stored?_appended (s : NewSlice) (id : Nat) : (appended s id).stored? = some s := rfl

@[simp] theorem stored?_refused (s : NewSlice) (e : StoreError) : (refused s e).stored? = none := rfl

theorem stored?_eq_some {x : RunExchange} {s : NewSlice} (h : x.stored? = some s) :
    ∃ id, x = appended s id := by
  unfold stored? at h
  split at h
  · simp only [Option.some.injEq] at h
    subst h
    exact ⟨_, rfl⟩
  · exact absurd h (by simp)

/-- Only an exchange with the store puts anything into it. -/
theorem stored?_eq_none_of_other {x : RunExchange} (h : ∀ q, x.question ≠ .store q) :
    x.stored? = none := by
  cases hs : x.stored? with
  | none => rfl
  | some s =>
    obtain ⟨id, rfl⟩ := stored?_eq_some hs
    exact absurd rfl (h _)

end RunExchange

namespace RunTrace

/-- The slices that the exchanges put into the store, in their order. -/
def stored (t : RunTrace) : List NewSlice := t.filterMap RunExchange.stored?

@[simp] theorem stored_nil : stored [] = [] := rfl

@[simp] theorem stored_append (t u : RunTrace) : stored (t ++ u) = stored t ++ stored u :=
  List.filterMap_append

theorem mem_stored {t : RunTrace} {s : NewSlice} (h : s ∈ stored t) :
    ∃ id, RunExchange.appended s id ∈ t := by
  obtain ⟨x, hx, hs⟩ := List.mem_filterMap.mp h
  obtain ⟨id, rfl⟩ := RunExchange.stored?_eq_some hs
  exact ⟨id, hx⟩

theorem stored_eq_nil {t : RunTrace} (h : ∀ x ∈ t, x.stored? = none) : stored t = [] :=
  List.filterMap_eq_nil_iff.mpr h

/-- The exchanges append the slices, one each, and all succeed. -/
inductive Appends : List NewSlice → RunTrace → Prop where
  | nil : Appends [] []
  | cons (s : NewSlice) (id : Nat) {ss : List NewSlice} {t : RunTrace} (h : Appends ss t) :
      Appends (s :: ss) (.appended s id :: t)

theorem Appends.stored {ss : List NewSlice} {t : RunTrace} (h : Appends ss t) :
    RunTrace.stored t = ss := by
  induction h with
  | nil => rfl
  | cons s id _ ih =>
    rw [RunTrace.stored, List.filterMap_cons_some (RunExchange.stored?_appended s id)]
    exact congrArg _ ih

theorem Appends.mem {ss : List NewSlice} {t : RunTrace} (h : Appends ss t) {x : RunExchange}
    (hx : x ∈ t) : ∃ s ∈ ss, ∃ id, x = RunExchange.appended s id := by
  induction h with
  | nil => exact absurd hx (by simp)
  | cons s id _ ih =>
    rcases List.mem_cons.mp hx with rfl | hx
    · exact ⟨s, by simp, id, rfl⟩
    · obtain ⟨s', hs, h⟩ := ih hx
      exact ⟨s', List.mem_cons_of_mem _ hs, h⟩

end RunTrace

/-! ## 4. Recording -/

namespace RunDialogue

open Dialogue

/-- A dialogue with the store is the same exchanges, put to the store by the run. -/
theorem yields_ofStore_iff {α : Type} {d : Memory.StoreDialogue α} {t : RunTrace} {a : α} :
    Yields (ofStore d) t a ↔
      ∃ u, t = u.map (fun x => ⟨.store x.question, x.answer⟩) ∧ Yields d u a := by
  constructor
  · intro h
    induction d generalizing t with
    | done b =>
      obtain ⟨rfl, rfl⟩ := yields_done_iff.mp h
      exact ⟨[], rfl, .done a⟩
    | ask q next ih =>
      obtain ⟨x, t', rfl, h'⟩ := yields_ask_iff.mp h
      obtain ⟨u, rfl, hu⟩ := ih x h'
      exact ⟨⟨q, x⟩ :: u, rfl, yields_ask_iff.mpr ⟨x, u, rfl, hu⟩⟩
  · rintro ⟨u, rfl, h⟩
    induction h with
    | done a => exact .done a
    | ask x _ ih => exact yields_ask_iff.mpr ⟨x, _, rfl, ih⟩

/-- **What was appended when slices are recorded**: all of them, or a front part up to the first
refusal. -/
theorem yields_appendAll {ss : List NewSlice} {t : RunTrace} {r : Except StoreError Unit}
    (h : Yields (ofStore (Memory.appendAll ss)) t r) :
    (r = .ok () ∧ RunTrace.Appends ss t) ∨
      ∃ front s back u e, ss = front ++ s :: back ∧ RunTrace.Appends front u ∧
        t = u ++ [.refused s e] ∧ r = .error (Memory.asWriteError e) := by
  induction ss generalizing t with
  | nil =>
    obtain ⟨rfl, rfl⟩ := yields_done_iff.mp h
    exact .inl ⟨rfl, .nil⟩
  | cons s ss ih =>
    obtain ⟨x, t', rfl, h'⟩ := yields_ask_iff.mp h
    cases x with
    | error e =>
      obtain ⟨rfl, rfl⟩ := yields_done_iff.mp h'
      exact .inr ⟨[], s, ss, [], e, rfl, .nil, rfl, rfl⟩
    | ok id =>
      rcases ih h' with ⟨rfl, hall⟩ | ⟨front, s', back, u, e, rfl, hu, rfl, rfl⟩
      · exact .inl ⟨rfl, .cons s id hall⟩
      · exact .inr ⟨s :: front, s', back, .appended s id :: u, e, rfl, .cons s id hu, rfl, rfl⟩

/-- Recording has no other exchanges than appends of its slices. -/
theorem append_of_mem_appendAll {ss : List NewSlice} {t : RunTrace} {r : Except StoreError Unit}
    (h : Yields (ofStore (Memory.appendAll ss)) t r) {x : RunExchange} (hx : x ∈ t) :
    ∃ s ∈ ss, x.question = .store (.append s) := by
  rcases yields_appendAll h with ⟨-, all⟩ | ⟨front, s, back, u, e, rfl, hu, rfl, -⟩
  · obtain ⟨s, hs, id, rfl⟩ := all.mem hx
    exact ⟨s, hs, rfl⟩
  · rcases List.mem_append.mp hx with hx | hx
    · obtain ⟨s', hs, id, rfl⟩ := hu.mem hx
      exact ⟨s', by simp [hs], rfl⟩
    · rw [List.mem_singleton.mp hx]
      exact ⟨s, by simp, rfl⟩

end RunDialogue
end Runbook
