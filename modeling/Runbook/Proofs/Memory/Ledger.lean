import Runbook.Proofs.Memory.Contention

/-!
# One log

What the stores have in common is a list of slices in the order of their appends, and a counter that
is never turned back. All that can be asked of a store is said of this list. The store of one
process, with its table of runs, gives the answers of the list to every sequence of commands.
-/

set_option autoImplicit false

namespace Runbook.Memory

/-! ## 1. The ledger -/

/-- The slices of all runs, oldest first. -/
structure Ledger where
  slices : List Slice := []
  lastId : Nat := 0

namespace Ledger

def append (s : NewSlice) (now : Instant) (l : Ledger) : Nat × Ledger :=
  (l.lastId + 1,
    { slices := l.slices ++ [Slice.ofNew (l.lastId + 1) now s], lastId := l.lastId + 1 })

/-- The matching slices, newest first. -/
def query (q : SliceQuery) (l : Ledger) : List Slice :=
  upTo q.limit (l.slices.filter q.accepts).reverse

def history (run : RunId) (l : Ledger) : List Slice := l.slices.filter fun s => s.run == run

def latest (run : RunId) (l : Ledger) : Option Slice := (l.history run).getLast?

/-- The runs by their newest slices, the newest first. -/
def recentRuns (l : Ledger) : List RunId := (l.slices.reverse.map (·.run)).eraseDups

def overview? (run : RunId) (l : Ledger) : Option RunOverview :=
  match l.history run with
  | [] => none
  | s :: rest =>
      let times := rest.map (·.createdAt)
      some { run, sliceCount := rest.length + 1
             firstAt := times.foldl RunTable.earlier s.createdAt
             lastAt := times.foldl RunTable.later s.createdAt }

def overviews (limit : Nat) (l : Ledger) : List RunOverview :=
  (l.recentRuns.take limit).filterMap fun run => l.overview? run

def stats (l : Ledger) : MemoryStats :=
  { totalSlices := l.slices.length
    distinctRuns := l.recentRuns.length
    byClassification := tally (l.slices.map (·.classification.name)) }

def purge (cutoff : Instant) (l : Ledger) : Nat × Ledger :=
  let (kept, old) := l.slices.partition fun s => cutoff ≤ s.createdAt
  (old.length, { l with slices := kept })

end Ledger

instance : MemoryStore Ledger where
  append s now l := let (id, l) := l.append s now; (.ok id, l)
  query q l := (.ok (l.query q), l)
  latest run l := (.ok (l.latest run), l)
  history run l := (.ok (l.history run), l)
  runs limit l := .ok (l.overviews limit)
  stats l := .ok l.stats
  purge cutoff l := let (n, l) := l.purge cutoff; (.ok n, l)

/-! ## 2. Commands -/

/-- All that can be asked of a store. -/
inductive StoreCommand where
  | append (slice : NewSlice) (now : Instant)
  | query (q : SliceQuery)
  | latest (run : RunId)
  | history (run : RunId)
  | runs (limit : Nat)
  | stats
  | purge (cutoff : Instant)

/-- What a store says to it. -/
inductive StoreReply where
  | appended (id : Except StoreError Nat)
  | found (slices : Except StoreError (List Slice))
  | newest (slice : Except StoreError (Option Slice))
  | listed (runs : Except StoreError (List RunOverview))
  | totals (stats : Except StoreError MemoryStats)
  | purged (count : Except StoreError Nat)

section
variable {σ τ : Type} [MemoryStore σ] [MemoryStore τ]

def perform : StoreCommand → σ → StoreReply × σ
  | .append s now, st => let (r, st) := MemoryStore.append s now st; (.appended r, st)
  | .query q, st => let (r, st) := MemoryStore.query q st; (.found r, st)
  | .latest run, st => let (r, st) := MemoryStore.latest run st; (.newest r, st)
  | .history run, st => let (r, st) := MemoryStore.history run st; (.found r, st)
  | .runs limit, st => (.listed (MemoryStore.runs limit st), st)
  | .stats, st => (.totals (MemoryStore.stats st), st)
  | .purge cutoff, st => let (r, st) := MemoryStore.purge cutoff st; (.purged r, st)

/-- The replies to commands, one after another. -/
def replies : List StoreCommand → σ → List StoreReply
  | [], _ => []
  | c :: cs, st => (perform c st).1 :: replies cs (perform c st).2

/-- Two stores that stay in step say the same, up to the way in which one of them says it. -/
theorem replies_of_step {R : σ → τ → Prop} {P : StoreCommand → Prop}
    {say : StoreReply → StoreReply}
    (step : ∀ c st st', P c → R st st' → (perform c st).1 = say (perform c st').1 ∧
      R (perform c st).2 (perform c st').2)
    {cs : List StoreCommand} (ok : ∀ c ∈ cs, P c) {st : σ} {st' : τ} (h : R st st') :
    replies cs st = (replies cs st').map say := by
  induction cs generalizing st st' with
  | nil => rfl
  | cons c cs ih =>
    rw [List.forall_mem_cons] at ok
    obtain ⟨reply, next⟩ := step c st st' ok.1 h
    rw [replies, replies, List.map_cons, reply, ih ok.2 next]

end

/-! ## 3. Recent runs -/

/-- In a list that begins with the newest slice, the runs as they are met are in the order of their
newest slices. -/
theorem met_in_order {newest : List Slice} (h : newest.Pairwise fun a b => b.id < a.id) :
    (newest.map (·.run)).eraseDups.Pairwise fun r r' =>
      ∃ s ∈ newest, s.run = r ∧ ∀ s' ∈ newest, s'.run = r' → s'.id < s.id := by
  match newest with
  | [] => exact List.Pairwise.nil
  | s :: rest =>
    rw [List.pairwise_cons] at h
    have others : (rest.map (·.run)).filter (fun r => !r == s.run) =
        (rest.filter fun x => !x.run == s.run).map (·.run) := by
      rw [List.filter_map]
      rfl
    rw [List.map_cons, List.eraseDups_cons, others, List.pairwise_cons]
    -- a slice of another run is among those that are left
    have left : ∀ r' ∈ ((rest.filter fun x => !x.run == s.run).map (·.run)).eraseDups,
        ∀ s' ∈ s :: rest, s'.run = r' → s' ∈ rest.filter fun x => !x.run == s.run := by
      intro r' hr' s' hs' own
      obtain ⟨x, hx, hxr⟩ := List.mem_map.mp (List.mem_eraseDups.mp hr')
      have other : s'.run ≠ s.run := by
        have := (List.mem_filter.mp hx).2
        rw [own, ← hxr]
        simpa using this
      rcases List.mem_cons.mp hs' with rfl | hs'
      · exact absurd rfl other
      · exact List.mem_filter.mpr ⟨hs', by simpa using other⟩
    constructor
    · intro r' hr'
      exact ⟨s, List.mem_cons_self .., rfl, fun s' hs' own =>
        h.1 s' (List.mem_of_mem_filter (left r' hr' s' hs' own))⟩
    · refine (met_in_order (h.2.filter _)).imp_of_mem fun hr hr' ⟨x, hx, own, newer⟩ => ?_
      exact ⟨x, List.mem_cons_of_mem _ (List.mem_of_mem_filter hx), own, fun s' hs' own' =>
        newer s' (left _ hr' s' hs' own') own'⟩
termination_by newest.length
decreasing_by
  exact Nat.lt_succ_of_le (List.length_filter_le ..)

namespace Ledger

variable {l : Ledger}

theorem mem_recentRuns {run : RunId} : run ∈ l.recentRuns ↔ l.history run ≠ [] := by
  rw [recentRuns, List.mem_eraseDups, List.mem_map, Ne, history, List.filter_eq_nil_iff]
  simp

/-- The runs are in the order of their newest slices. -/
theorem recentRuns_in_order (h : l.slices.Pairwise (·.id < ·.id)) :
    l.recentRuns.Pairwise fun r r' =>
      ∃ s ∈ l.history r, ∀ s' ∈ l.history r', s'.id < s.id := by
  refine (met_in_order (List.pairwise_reverse.mpr h)).imp fun {r r'} ⟨s, hs, own, newer⟩ => ?_
  refine ⟨s, List.mem_filter.mpr ⟨List.mem_reverse.mp hs, beq_iff_eq.mpr own⟩, fun s' hs' => ?_⟩
  obtain ⟨hs', own'⟩ := List.mem_filter.mp hs'
  exact newer s' (List.mem_reverse.mpr hs') (eq_of_beq own')

theorem nodup_recentRuns (h : l.slices.Pairwise (·.id < ·.id)) : l.recentRuns.Nodup := by
  refine (List.pairwise_iff_forall_sublist.mpr fun {r r'} sub => ?_)
  rintro rfl
  obtain ⟨s, hs, newer⟩ := List.pairwise_iff_forall_sublist.mp (recentRuns_in_order h) sub
  exact Nat.lt_irrefl _ (newer s hs)

end Ledger

/-! ## 4. The table of runs -/

namespace RunTable

/-- The table holds what the ledger does, run by run. -/
structure Shows (t : RunTable) (l : Ledger) : Prop where
  lastId : t.lastId = l.lastId
  distinct : t.runs.names.Nodup
  filled : ∀ e ∈ t.runs, e.2 ≠ []
  history : ∀ run, t.slicesOf run = l.history run
  ascending : l.slices.Pairwise (·.id < ·.id)
  drawn : ∀ s ∈ l.slices, s.id ≤ l.lastId

variable {t : RunTable} {l : Ledger}

theorem Shows.append (h : t.Shows l) (s : NewSlice) (now : Instant) :
    (t.append s now).1 = (l.append s now).1 ∧ (t.append s now).2.Shows (l.append s now).2 := by
  have id : t.drawId.1 = l.lastId + 1 := congrArg (· + 1) h.lastId
  refine ⟨id, ⟨id, ?_, ?_, ?_, ?_, ?_⟩⟩
  · exact Fields.nodup_names_put h.distinct ..
  · intro e he
    rcases Fields.mem_put he with rfl | old
    · exact List.append_ne_nil_of_right_ne_nil _ (List.cons_ne_nil _ _)
    · exact h.filled e old
  · intro run
    have table : (t.append s now).2 = t.drawId.2.push (Slice.ofNew t.drawId.1 now s) := rfl
    rw [table, id, Ledger.append, Ledger.history, List.filter_append, ← Ledger.history,
      ← h.history run]
    by_cases hr : s.run = run
    · subst hr
      have pushed := slicesOf_push_self t.drawId.2 (Slice.ofNew (l.lastId + 1) now s)
      simpa [Slice.ofNew] using pushed
    · have kept := slicesOf_push_of_ne t.drawId.2 (s := Slice.ofNew (l.lastId + 1) now s) hr
      simpa [Slice.ofNew, hr] using kept
  · refine List.pairwise_append.mpr ⟨h.ascending, List.pairwise_singleton .., fun a ha b hb => ?_⟩
    obtain rfl := List.mem_singleton.mp hb
    exact Nat.lt_succ_of_le (h.drawn a ha)
  · intro a ha
    rcases List.mem_append.mp ha with ha | ha
    · exact Nat.le_succ_of_le (h.drawn a ha)
    · obtain rfl := List.mem_singleton.mp ha
      exact Nat.le_refl _

theorem Shows.query (h : t.Shows l) (q : SliceQuery) : t.query q = l.query q := by
  have here : ∀ s, (q.accepts s && s.run == q.run) = q.accepts s := by
    intro s
    rw [SliceQuery.accepts_eq, Bool.and_right_comm, Bool.and_self]
  rw [RunTable.query, Ledger.query, h.history, Ledger.history, List.filter_filter]
  simp only [here]

theorem Shows.history_eq (h : t.Shows l) (run : RunId) : t.history run = l.history run := by
  have all : SliceQuery.accepts { run } = fun s : Slice => s.run == run := by
    funext s
    simp [SliceQuery.accepts]
  rw [RunTable.history, h.query, Ledger.query, all, upTo, List.reverse_reverse, Ledger.history]

theorem Shows.latest (h : t.Shows l) (run : RunId) : t.latest run = l.latest run := by
  have all : SliceQuery.accepts { run, limit := some 1 } = fun s : Slice => s.run == run := by
    funext s
    simp [SliceQuery.accepts]
  rw [RunTable.latest, h.query, Ledger.query, all, upTo, Ledger.latest, Ledger.history,
    List.head?_take, if_neg (by decide), List.head?_reverse]

theorem Shows.orderly (h : t.Shows l) : t.Orderly where
  distinct := h.distinct
  own run s hs := by
    rw [h.history] at hs
    exact eq_of_beq (List.mem_filter.mp hs).2
  ascending run := by
    rw [h.history]
    exact h.ascending.filter _
  drawn run s hs := by
    rw [h.history] at hs
    rw [h.lastId]
    exact h.drawn s (List.mem_of_mem_filter hs)
  apart run run' s hs s' hs' same := by
    rw [h.history] at hs hs'
    obtain ⟨hs, own⟩ := List.mem_filter.mp hs
    obtain ⟨hs', own'⟩ := List.mem_filter.mp hs'
    have distinct : (l.slices.map (·.id)).Nodup :=
      List.pairwise_map.mpr (h.ascending.imp fun lt => Nat.ne_of_lt lt)
    obtain rfl := List.inj_on_of_nodup_map distinct hs hs' same
    exact (eq_of_beq own).symm.trans (eq_of_beq own')

theorem Shows.mem_names_iff (h : t.Shows l) {run : RunId} :
    run ∈ t.runs.names ↔ l.history run ≠ [] := by
  rw [← h.history]
  constructor
  · intro there
    obtain ⟨e, he, rfl⟩ := List.mem_map.mp there
    rw [slicesOf_of_mem h.distinct he]
    exact h.filled e he
  · intro filled
    refine (Fields.get?_isSome_iff run t.runs).mp ?_
    rw [slicesOf] at filled
    cases hg : Fields.get? run t.runs with
    | none => exact absurd (by rw [hg]; rfl) filled
    | some v => rfl

theorem Shows.names_perm (h : t.Shows l) : t.runs.names.Perm l.recentRuns :=
  (List.perm_ext_iff_of_nodup h.distinct (Ledger.nodup_recentRuns h.ascending)).mpr fun _ =>
    h.mem_names_iff.trans Ledger.mem_recentRuns.symm

theorem foldl_max_spec (x : Nat) (ids : List Nat) :
    ids.foldl max x ∈ x :: ids ∧ ∀ y ∈ x :: ids, y ≤ ids.foldl max x := by
  induction ids generalizing x with
  | nil => simp
  | cons y ids ih =>
    obtain ⟨there, least⟩ := ih (max x y)
    rw [List.forall_mem_cons] at least
    rw [List.foldl_cons]
    refine ⟨?_, ?_⟩
    · rcases List.mem_cons.mp there with top | there
      · rw [top]
        rcases Nat.le_total x y with le | le
        · simp [Nat.max_eq_right le]
        · simp [Nat.max_eq_left le]
      · exact List.mem_cons_of_mem _ (List.mem_cons_of_mem _ there)
    · have := least.1
      exact List.forall_mem_cons.mpr ⟨by omega, List.forall_mem_cons.mpr ⟨by omega, least.2⟩⟩

/-- The overview of a run with its largest id, from what the ledger holds of it. -/
def ranked? (l : Ledger) (run : RunId) : Option (Nat × RunOverview) :=
  overview? run (l.history run)

theorem overview?_of_ranked? (l : Ledger) (run : RunId) :
    l.overview? run = (ranked? l run).map (·.2) := by
  rw [ranked?, Ledger.overview?]
  cases l.history run <;> rfl

theorem isSome_ranked? {run : RunId} (filled : l.history run ≠ []) :
    (ranked? l run).isSome = true := by
  rw [ranked?]
  cases hl : l.history run with
  | nil => exact absurd hl filled
  | cons s rest => rfl

/-- The number in front is the largest id of the run. -/
theorem ranked?_spec {run : RunId} {e : Nat × RunOverview} (h : ranked? l run = some e) :
    (∃ s ∈ l.history run, s.id = e.1) ∧ ∀ s ∈ l.history run, s.id ≤ e.1 := by
  rw [ranked?] at h
  cases hl : l.history run with
  | nil =>
    rw [hl] at h
    cases h
  | cons s rest =>
    rw [hl] at h
    cases h
    obtain ⟨there, least⟩ := foldl_max_spec s.id (rest.map (·.id))
    rw [← List.map_cons] at there least
    exact ⟨List.mem_map.mp there, fun x hx => least _ (List.mem_map_of_mem hx)⟩

/-- Two runs with one largest id are one run. -/
theorem ranked?_inj (h : t.Shows l) {run run' : RunId} {e e' : Nat × RunOverview}
    (he : ranked? l run = some e) (he' : ranked? l run' = some e') (same : e.1 = e'.1) : e = e' := by
  obtain ⟨s, hs, hid⟩ := (ranked?_spec he).1
  obtain ⟨s', hs', hid'⟩ := (ranked?_spec he').1
  rw [← h.history] at hs hs'
  obtain rfl := h.orderly.apart run run' s hs s' hs' (hid.trans (same.trans hid'.symm))
  exact Option.some.inj (he.symm.trans he')

theorem take_filterMap {α β : Type} {f : α → Option β} {items : List α}
    (all : ∀ a ∈ items, (f a).isSome = true) (n : Nat) :
    (items.filterMap f).take n = (items.take n).filterMap f := by
  induction items generalizing n with
  | nil => simp
  | cons a items ih =>
    rw [List.forall_mem_cons] at all
    obtain ⟨b, hb⟩ := Option.isSome_iff_exists.mp all.1
    cases n with
    | zero => simp
    | succ n =>
      rw [List.filterMap_cons_some hb, List.take_succ_cons, List.take_succ_cons,
        List.filterMap_cons_some hb, ih all.2]

theorem Shows.overviews (h : t.Shows l) (limit : Nat) : t.overviews limit = l.overviews limit := by
  have found : (t.runs.filterMap fun e => overview? e.1 e.2) =
      t.runs.names.filterMap (ranked? l) := by
    rw [Fields.names, List.filterMap_map]
    refine List.filterMap_congr fun e he => ?_
    rw [Function.comp_apply, ranked?, ← h.history, slicesOf_of_mem h.distinct he]
  have sorted : (t.runs.names.filterMap (ranked? l)).mergeSort (fun a b => b.1 ≤ a.1) =
      l.recentRuns.filterMap (ranked? l) := by
    refine mergeSort_eq (fun a b c => ?_) (fun a b => ?_) (fun a ha b hb ba ab => ?_)
      (h.names_perm.symm.filterMap _) ?_
    · simpa using fun ab bc => Nat.le_trans bc ab
    · simpa using Nat.le_total b.1 a.1
    · obtain ⟨run, -, ha⟩ := List.mem_filterMap.mp ha
      obtain ⟨run', -, hb⟩ := List.mem_filterMap.mp hb
      exact ranked?_inj h ha hb
        (Nat.le_antisymm (of_decide_eq_true ab) (of_decide_eq_true ba))
    · refine List.pairwise_filterMap.mpr ((Ledger.recentRuns_in_order h.ascending).imp ?_)
      rintro r r' ⟨s, hs, newer⟩ a ha b hb
      obtain ⟨s', hs', hid'⟩ := (ranked?_spec hb).1
      have := (ranked?_spec ha).2 s hs
      have := newer s' hs'
      exact decide_eq_true (by omega)
  have all : ∀ run ∈ l.recentRuns, (l.overview? run).isSome = true := fun run hr => by
    rw [overview?_of_ranked?, Option.isSome_map]
    exact isSome_ranked? (Ledger.mem_recentRuns.mp hr)
  have overviews : (l.recentRuns.filterMap (ranked? l)).map (·.2) =
      l.recentRuns.filterMap fun run => l.overview? run := by
    rw [List.map_filterMap]
    exact List.filterMap_congr fun run _ => (overview?_of_ranked? l run).symm
  rw [RunTable.overviews, Ledger.overviews, found, sorted, overviews, take_filterMap all]

/-! ### Totals -/

theorem Shows.slices_perm (h : t.Shows l) : t.slices.Perm l.slices := by
  have distinct : (l.slices.map (·.id)).Nodup :=
    List.pairwise_map.mpr (h.ascending.imp fun lt => Nat.ne_of_lt lt)
  refine (List.perm_ext_iff_of_nodup (List.Nodup.of_map _ h.orderly.nodup_ids)
    (List.Nodup.of_map _ distinct)).mpr fun s => ?_
  rw [mem_slices h.distinct]
  simp only [h.history]
  constructor
  · rintro ⟨run, hs⟩
    exact List.mem_of_mem_filter hs
  · intro hs
    exact ⟨s.run, List.mem_filter.mpr ⟨hs, beq_self_eq_true _⟩⟩

theorem Shows.stats (h : t.Shows l) : t.stats = l.stats := by
  have runs : t.runs.length = l.recentRuns.length :=
    (List.length_map Prod.fst).symm.trans h.names_perm.length_eq
  rw [RunTable.stats, Ledger.stats, ← slices, h.slices_perm.length_eq, runs,
    tally_perm (h.slices_perm.map _)]

/-! ### Purging -/

theorem flatMap_filled (runs : Fields (List Slice)) :
    (runs.filter fun e => !e.2.isEmpty).flatMap (·.2) = runs.flatMap (·.2) := by
  induction runs with
  | nil => rfl
  | cons e runs ih =>
    rw [List.filter_cons]
    split
    · rw [List.flatMap_cons, List.flatMap_cons, ih]
    · next none_left =>
      have none_left : e.2 = [] := by simpa using none_left
      rw [ih, List.flatMap_cons, none_left, List.nil_append]

/-- What a purge leaves of the whole table. -/
theorem slices_purge (t : RunTable) (cutoff : Instant) :
    (t.purge cutoff).2.slices = t.slices.filter fun s => cutoff ≤ s.createdAt := by
  rw [slices, purge, flatMap_filled, List.flatMap_map, slices, List.filter_flatMap]

theorem purge_count (t : RunTable) (cutoff : Instant) :
    (t.purge cutoff).1 = t.slices.length - (t.purge cutoff).2.slices.length := by
  have count : ∀ runs : Fields (List Slice),
      runs.foldr (fun e n => e.2.length + n) 0 = (runs.flatMap (·.2)).length := by
    intro runs
    induction runs with
    | nil => rfl
    | cons e runs ih => rw [List.foldr_cons, ih, List.flatMap_cons, List.length_append]
  rw [slices, slices, ← count, ← count]
  rfl

theorem Shows.purge (h : t.Shows l) (cutoff : Instant) :
    (t.purge cutoff).1 = (l.purge cutoff).1 ∧ (t.purge cutoff).2.Shows (l.purge cutoff).2 := by
  have kept : (l.purge cutoff).2.slices = l.slices.filter fun s => cutoff ≤ s.createdAt := by
    rw [Ledger.purge, List.partition_eq_filter_filter]
  refine ⟨?_, ⟨h.lastId, (h.orderly.purge cutoff).distinct, ?_, fun run => ?_, ?_, ?_⟩⟩
  · have old : (l.purge cutoff).1 =
        (l.slices.filter fun s => !decide (cutoff ≤ s.createdAt)).length := by
      rw [Ledger.purge, List.partition_eq_filter_filter]
      rfl
    have whole := List.length_eq_length_filter_add (l := l.slices)
      fun s => decide (cutoff ≤ s.createdAt)
    rw [purge_count, slices_purge, (h.slices_perm.filter _).length_eq, h.slices_perm.length_eq, old]
    omega
  · intro e he
    have := (List.mem_filter.mp he).2
    simpa using this
  · rw [slicesOf_purge h.distinct, h.history, Ledger.history, Ledger.history, kept,
      List.filter_filter, List.filter_filter]
    exact List.filter_congr fun s _ => Bool.and_comm ..
  · rw [kept]
    exact h.ascending.filter _
  · intro s hs
    rw [kept] at hs
    exact h.drawn s (List.mem_of_mem_filter hs)

/-! ### All commands -/

theorem Shows.step (c : StoreCommand) (h : t.Shows l) :
    (perform c t).1 = (perform c l).1 ∧ (perform c t).2.Shows (perform c l).2 := by
  cases c with
  | append s now =>
    obtain ⟨id, next⟩ := h.append s now
    exact ⟨congrArg (fun n => StoreReply.appended (.ok n)) id, next⟩
  | query q => exact ⟨congrArg (fun x => StoreReply.found (.ok x)) (h.query q), h⟩
  | latest run => exact ⟨congrArg (fun x => StoreReply.newest (.ok x)) (h.latest run), h⟩
  | history run => exact ⟨congrArg (fun x => StoreReply.found (.ok x)) (h.history_eq run), h⟩
  | runs limit => exact ⟨congrArg (fun x => StoreReply.listed (.ok x)) (h.overviews limit), h⟩
  | stats => exact ⟨congrArg (fun x => StoreReply.totals (.ok x)) h.stats, h⟩
  | purge cutoff =>
    obtain ⟨count, next⟩ := h.purge cutoff
    exact ⟨congrArg (fun n => StoreReply.purged (.ok n)) count, next⟩

theorem Shows.empty : ({} : RunTable).Shows {} where
  lastId := rfl
  distinct := List.nodup_nil
  filled _ he := absurd he List.not_mem_nil
  history _ := rfl
  ascending := List.Pairwise.nil
  drawn _ hs := absurd hs List.not_mem_nil

end RunTable

/-- The store of one process gives the replies of the ledger. -/
theorem replies_runTable (cs : List StoreCommand) :
    replies cs ({} : RunTable) = replies cs ({} : Ledger) := by
  have step : ∀ (c : StoreCommand) (t : RunTable) (l : Ledger), True → t.Shows l →
      (perform c t).1 = id (perform c l).1 ∧ (perform c t).2.Shows (perform c l).2 :=
    fun c _ _ _ h => h.step c
  have same : replies cs ({} : RunTable) = (replies cs ({} : Ledger)).map id :=
    replies_of_step step (fun _ _ => trivial) .empty
  exact same.trans (List.map_id _)

/-! ## 5. Ids -/

/-- The id that an append has been answered. -/
def StoreReply.newId? : StoreReply → Option Nat
  | .appended (.ok id) => some id
  | _ => none

def StoreCommand.isAppend : StoreCommand → Bool
  | .append .. => true
  | _ => false

/-- Ids are counted up, whatever happens between the appends. -/
theorem newIds_from (cs : List StoreCommand) (l : Ledger) :
    (replies cs l).filterMap StoreReply.newId? =
      List.range' (l.lastId + 1) (cs.countP StoreCommand.isAppend) := by
  induction cs generalizing l with
  | nil => rfl
  | cons c cs ih =>
    rw [replies, List.filterMap_cons, ih, List.countP_cons]
    cases c with
    | append s now => exact (List.range'_succ ..).symm
    | query | latest | history | runs | stats | purge => rfl

end Runbook.Memory
