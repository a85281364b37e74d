import Mathlib.Data.List.Forall2
import Runbook.Proofs.Run.Twin

/-!
# What a run sees of a store

A store is shared by runs, but an append or a query of one run only goes by what the store has of
that run. `ScopedStore` says so with a relation between stores that look the same to a run: they
answer its questions alike, and go on looking the same, also if one of them is asked by another
run.

The store of one process gives slices that differ in ids and times, whatever the two clocks tell.
The durable store reads its times back from texts, and the law is for clocks that tell the same.
-/

set_option autoImplicit false

namespace Runbook.Memory

/-- A store of which each run sees its own part. -/
class ScopedStore (T : Instant → Instant → Prop) (σ : Type) [MemoryStore σ] where
  /-- The stores look the same to the run. -/
  Same : RunId → σ → σ → Prop
  /-- The run is answered alike. -/
  own {run : RunId} {st st' : σ} (same : Same run st st') {q q' : StoreQuestion}
    (asks : Asks T run (.store q) (.store q')) {now now' : Instant} (time : T now now') :
    Agrees T ⟨.store q, (reply now q st).1⟩ ⟨.store q', (reply now' q' st').1⟩ ∧
      Same run (reply now q st).2 (reply now' q' st').2
  /-- What another run asks is not seen. -/
  aside {run other : RunId} {st st' : σ} (same : Same run st st') {q q' : StoreQuestion}
    (asks : Asks T other (.store q) (.store q')) (apart : other ≠ run) (now : Instant) :
    Same run (reply now q st).2 st'

theorem like_upTo {α : Type} {R : α → α → Prop} {l l' : List α} (h : List.Forall₂ R l l')
    (limit : Option Nat) : List.Forall₂ R (upTo limit l) (upTo limit l') := by
  cases limit with
  | none => exact h
  | some n => exact List.forall₂_take n h

theorem mem_of_mem_upTo {α : Type} {a : α} {limit : Option Nat} {l : List α}
    (h : a ∈ upTo limit l) : a ∈ l := by
  cases limit with
  | none => exact h
  | some n => exact List.mem_of_mem_take h

/-- A slice that is found has the classification that was asked for. -/
theorem classification_of_found {σ : Type} [MemoryStore σ] [LogStore σ] {q : SliceQuery}
    (st : σ) {st' : σ} {found : List Slice} (h : MemoryStore.query q st = (.ok found, st'))
    (proper : q.Proper) {s : Slice} (hs : s ∈ found) (c : Classification)
    (asked : q.classification = some c) : s.classification = c := by
  have listed : s.entry ∈ upTo q.limit ((LogStore.entries q.run st).filter q.admits).reverse := by
    rw [← LogStore.query_ok h proper]
    exact List.mem_map_of_mem hs
  have admitted := (List.mem_filter.mp (List.mem_reverse.mp (mem_of_mem_upTo listed))).2
  rw [SliceQuery.admits, asked] at admitted
  simp only [Option.all_some, Bool.and_eq_true, beq_iff_eq] at admitted
  exact admitted.2.symm

/-! ## 1. The store of one process -/

namespace RunTable

variable {T : Instant → Instant → Prop}

theorem slicesOf_append_self (s : NewSlice) (now : Instant) (t : RunTable) :
    (t.append s now).2.slicesOf s.run = t.slicesOf s.run ++ [Slice.ofNew (t.lastId + 1) now s] :=
  slicesOf_push_self t.drawId.2 (Slice.ofNew (t.lastId + 1) now s)

theorem slicesOf_append_of_ne {s : NewSlice} {run : RunId} (h : s.run ≠ run) (now : Instant)
    (t : RunTable) : (t.append s now).2.slicesOf run = t.slicesOf run :=
  slicesOf_push_of_ne t.drawId.2 (s := Slice.ofNew (t.lastId + 1) now s) h

/-- The slices of the run are alike. -/
def SameFor (T : Instant → Instant → Prop) (run : RunId) (t t' : RunTable) : Prop :=
  List.Forall₂ (Slice.Like T) (t.slicesOf run) (t'.slicesOf run)

theorem SameFor.append {t t' : RunTable} {s s' : NewSlice} (same : SameFor T s.run t t')
    (like : s.Like T s') {now now' : Instant} (time : T now now') :
    SameFor T s.run (t.append s now).2 (t'.append s' now').2 := by
  have last : (Slice.ofNew (t.lastId + 1) now s).Like T (Slice.ofNew (t'.lastId + 1) now' s') :=
    .ofNew like time _ _
  have there := slicesOf_append_self s' now' t'
  rw [← like.run_eq] at there
  rw [SameFor, slicesOf_append_self, there]
  exact List.rel_append same (.cons last .nil)

theorem SameFor.query {t t' : RunTable} {q : SliceQuery} (same : SameFor T q.run t t') :
    List.Forall₂ (Slice.Like T) (t.query q) (t'.query q) := by
  refine like_upTo (List.forall₂_reverse_iff.mpr ?_) q.limit
  refine List.rel_filter (fun {s s'} like => ?_) same
  exact Eq.to_iff (congrArg (· = true) (like.accepts_eq q))

end RunTable

instance (T : Instant → Instant → Prop) : ScopedStore T RunTable where
  Same := RunTable.SameFor T
  own {run t t'} same {q q'} asks {now now'} time := by
    cases asks with
    | append like own =>
      subst own
      exact ⟨.appended like _ _, same.append like time⟩
    | query proper own =>
      subst own
      exact ⟨.found same.query fun s hs => classification_of_found t rfl proper hs, same⟩
  aside {run other t t'} same {q q'} asks apart now := by
    cases asks with
    | @append s _ _ own =>
      have away : s.run ≠ run := own ▸ apart
      show List.Forall₂ (Slice.Like T) ((t.append s now).2.slicesOf run) (t'.slicesOf run)
      rwa [RunTable.slicesOf_append_of_ne away]
    | query => exact same

/-! ## 2. The durable store -/

/-- Both succeed with related results, or both fail in the same way. -/
inductive EndsAlike {α ε : Type} (R : α → α → Prop) : Except ε α → Except ε α → Prop where
  | ok {a a' : α} (h : R a a') : EndsAlike R (.ok a) (.ok a')
  | error (e : ε) : EndsAlike R (.error e) (.error e)

theorem EndsAlike.mapM {α β ε : Type} {R : α → α → Prop} {S : β → β → Prop}
    {f : α → Except ε β} (step : ∀ a a', R a a' → EndsAlike S (f a) (f a')) {l l' : List α}
    (h : List.Forall₂ R l l') : EndsAlike (List.Forall₂ S) (l.mapM f) (l'.mapM f) := by
  induction h with
  | nil => exact .ok .nil
  | @cons a a' l l' first _ ih =>
    have head := step a a' first
    rw [List.mapM_cons, List.mapM_cons]
    generalize f a = x at head ⊢
    generalize f a' = x' at head ⊢
    cases head with
    | error e => exact .error e
    | ok one =>
      generalize l.mapM f = xs at ih ⊢
      generalize l'.mapM f = xs' at ih ⊢
      cases ih with
      | error e => exact .error e
      | ok others => exact .ok (.cons one others)

namespace Row

/-- The rows have the same texts. -/
def SameTexts (r r' : Row) : Prop := ∃ id, r' = { r with id }

theorem SameTexts.toSlice {r r' : Row} (h : r.SameTexts r') :
    EndsAlike (Slice.Like Eq) r.toSlice r'.toSlice := by
  obtain ⟨id, rfl⟩ := h
  unfold Row.toSlice
  dsimp only
  split
  · cases Row.time r.createdAt with
    | error e => exact .error e
    | ok t => exact .ok ⟨rfl, rfl, rfl, .inl rfl, rfl⟩
  · exact .error _

theorem SameTexts.accepted_eq {r r' : Row} (h : r.SameTexts r') (q : SliceQuery) :
    accepted q r = accepted q r' := by
  obtain ⟨id, rfl⟩ := h
  rfl

end Row

namespace RowTable

/-- The rows of a run, oldest first. -/
def rowsOf (t : RowTable) (run : RunId) : List Row := t.rows.filter (·.run == run)

theorem rowsOf_append_self (s : NewSlice) (now : Instant) (t : RowTable) :
    (t.append s now).2.rowsOf s.run = t.rowsOf s.run ++ [Row.ofNew (t.lastId + 1) now s] := by
  simp [append, rowsOf, Row.ofNew]

theorem rowsOf_append_of_ne {s : NewSlice} {run : RunId} (h : s.run ≠ run) (now : Instant)
    (t : RowTable) : (t.append s now).2.rowsOf run = t.rowsOf run := by
  simp [append, rowsOf, Row.ofNew, h]

/-- A query looks at the rows of its run. -/
theorem query_eq (t : RowTable) (q : SliceQuery) :
    t.query q = (upTo q.limit ((t.rowsOf q.run).filter (Row.accepted q)).reverse).mapM
      Row.toSlice := by
  have inside : (t.rowsOf q.run).filter (Row.accepted q) = t.rows.filter (Row.accepted q) := by
    rw [rowsOf, List.filter_filter]
    refine List.filter_congr fun r _ => ?_
    cases own : r.run == q.run <;> simp [Row.accepted, own]
  rw [query, inside]

/-- The rows of the run have the same texts. -/
def SameFor (run : RunId) (t t' : RowTable) : Prop :=
  List.Forall₂ Row.SameTexts (t.rowsOf run) (t'.rowsOf run)

theorem SameFor.append {t t' : RowTable} {s : NewSlice} (same : SameFor s.run t t')
    (now : Instant) : SameFor s.run (t.append s now).2 (t'.append s now).2 := by
  have last : (Row.ofNew (t.lastId + 1) now s).SameTexts (Row.ofNew (t'.lastId + 1) now s) :=
    ⟨t'.lastId + 1, rfl⟩
  rw [SameFor, rowsOf_append_self, rowsOf_append_self]
  exact List.rel_append same (.cons last .nil)

theorem SameFor.query {t t' : RowTable} {q : SliceQuery} (same : SameFor q.run t t') :
    EndsAlike (List.Forall₂ (Slice.Like Eq)) (t.query q) (t'.query q) := by
  rw [query_eq, query_eq]
  refine EndsAlike.mapM (fun _ _ h => Row.SameTexts.toSlice h)
    (like_upTo (List.forall₂_reverse_iff.mpr ?_) q.limit)
  refine List.rel_filter (fun {r r'} h => ?_) same
  exact Eq.to_iff (congrArg (· = true) (h.accepted_eq q))

end RowTable

instance : ScopedStore Eq RowTable where
  Same := RowTable.SameFor
  own {run t t'} same {q q'} asks {now now'} time := by
    subst time
    cases asks with
    | append like own =>
      obtain rfl := like.eq (T := Eq) fun _ _ h => h
      subst own
      exact ⟨.appended like _ _, same.append now⟩
    | @query q proper own =>
      subst own
      refine ⟨?_, same⟩
      have kind (found : List Slice) (h : t.query q = .ok found) (s : Slice) (hs : s ∈ found) :=
        classification_of_found t (Prod.ext h rfl) proper hs
      show Agrees Eq ⟨.store (.query q), t.query q⟩ ⟨.store (.query q), t'.query q⟩
      have alike := same.query
      generalize t.query q = x at alike kind ⊢
      generalize t'.query q = x' at alike ⊢
      cases alike with
      | ok like => exact .found like (kind _ rfl)
      | error e => exact .unread q e
  aside {run other t t'} same {q q'} asks apart now := by
    cases asks with
    | @append s _ _ own =>
      have away : s.run ≠ run := own ▸ apart
      show List.Forall₂ Row.SameTexts ((t.append s now).2.rowsOf run) (t'.rowsOf run)
      rwa [RowTable.rowsOf_append_of_ne away]
    | query => exact same

end Runbook.Memory
