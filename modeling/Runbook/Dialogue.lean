/-!
# Dialogues

A dialogue is a computation that asks questions of its surroundings and goes on with the answers.
It is a tree: a result, or a question with one subtree for each answer. What a computation asks,
in which order and with which consequences can be read off the tree, whoever answers.

`Yields d t a` says that `d` can come to the result `a` after the exchanges `t`, in their order,
under some answers; so a statement over all `t` is one about every behaviour of the surroundings.
-/

set_option autoImplicit false

namespace Runbook

/-- A computation that asks questions from `Q`; `A q` are the answers to `q`. -/
inductive Dialogue (Q : Type) (A : Q → Type) (α : Type) where
  | done (result : α)
  | ask (question : Q) (next : A question → Dialogue Q A α)

namespace Dialogue

variable {Q : Type} {A : Q → Type} {α β σ : Type}

/-- Goes on with the result. -/
def bind (d : Dialogue Q A α) (f : α → Dialogue Q A β) : Dialogue Q A β :=
  match d with
  | .done a => f a
  | .ask q next => .ask q fun x => bind (next x) f

instance : Monad (Dialogue Q A) where
  pure := .done
  bind := bind

/-- Asks a single question. -/
def question (q : Q) : Dialogue Q A (A q) := .ask q .done

/-- The same dialogue among more questions. -/
def embed {Q' : Type} {A' : Q' → Type} (f : Q → Q') (back : (q : Q) → A' (f q) → A q) :
    Dialogue Q A α → Dialogue Q' A' α
  | .done a => .done a
  | .ask q next => .ask (f q) fun x => embed f back (next (back q x))

/-- Answers every question from a state. -/
def answered (reply : (q : Q) → σ → A q × σ) : Dialogue Q A α → σ → α × σ
  | .done a, s => (a, s)
  | .ask q next, s =>
      let (x, s) := reply q s
      answered reply (next x) s

/-- A question with its answer. -/
structure Exchange (Q : Type) (A : Q → Type) where
  question : Q
  answer : A question

/-- The dialogue can come to the result after the exchanges. -/
inductive Yields : Dialogue Q A α → List (Exchange Q A) → α → Prop where
  | done (a : α) : Yields (.done a) [] a
  | ask {q : Q} {next : A q → Dialogue Q A α} (x : A q) {t : List (Exchange Q A)} {a : α} :
      Yields (next x) t a → Yields (.ask q next) (⟨q, x⟩ :: t) a

/-- A dialogue that goes on comes to its result in two stretches. -/
theorem yields_bind_iff {d : Dialogue Q A α} {f : α → Dialogue Q A β} {t : List (Exchange Q A)}
    {b : β} : Yields (d.bind f) t b ↔ ∃ t₁ t₂ a, t = t₁ ++ t₂ ∧ Yields d t₁ a ∧ Yields (f a) t₂ b := by
  constructor
  · intro h
    induction d generalizing t with
    | done a => exact ⟨[], t, a, rfl, .done a, h⟩
    | ask q next ih =>
      cases h with
      | ask x h =>
        obtain ⟨t₁, t₂, a, rfl, h₁, h₂⟩ := ih x h
        exact ⟨⟨q, x⟩ :: t₁, t₂, a, rfl, .ask x h₁, h₂⟩
  · rintro ⟨t₁, t₂, a, rfl, h₁, h₂⟩
    induction h₁ with
    | done a => exact h₂
    | ask x _ ih => exact .ask x (ih h₂)

end Dialogue
end Runbook
