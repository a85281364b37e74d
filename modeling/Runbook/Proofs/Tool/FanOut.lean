import Mathlib.Data.List.Forall2
import Mathlib.Data.List.Perm.Subperm
import Runbook.Tool.FanOut

/-!
# Queries and their results

A plan has one query for each entry of the list, and a query has the index of its entry. Results
arrive in any order. If each query has arrived exactly once, the assembled output has one result for
each query, in the order of the queries (`AnsweredOnce.ordered_eq`).
-/

set_option autoImplicit false

namespace Runbook.FanOut

/-! ## 1. Plans -/

@[simp] theorem index_ofFields (index : Nat) (fs : Fields Json) :
    (Query.ofFields index fs).index = index := by
  unfold Query.ofFields
  dsimp only
  split <;> rfl

/-- The planned queries are the entries of the list, split with their places. -/
theorem planQueries_eq (start : Nat) (fss : List (Fields Json)) :
    planQueries start (fss.map .obj) = .ok (fss.mapIdx fun i => Query.ofFields (start + i)) := by
  induction fss generalizing start with
  | nil => rfl
  | cons fs fss ih =>
    rw [List.map_cons, planQueries, ih, List.mapIdx_cons]
    simp only [Nat.add_zero, Nat.add_right_comm start 1, Nat.add_assoc]

theorem planQueries_ok {start : Nat} {vs : List Json} {queries : List Query}
    (h : planQueries start vs = .ok queries) : ∃ fss : List (Fields Json), vs = fss.map .obj := by
  induction vs generalizing start queries with
  | nil => exact ⟨[], rfl⟩
  | cons v vs ih =>
    cases v with
    | obj fs =>
      rw [planQueries] at h
      split at h
      · cases h
      · next planned =>
        obtain ⟨fss, rfl⟩ := ih planned
        exact ⟨fs :: fss, rfl⟩
    | null | bool | num | str | arr => cases h

/-- What is planned for a list of tables. -/
theorem plan_eq (ceiling : Nat) {inputs : Fields Json} {fss : List (Fields Json)}
    (listed : Fields.get? "queries" inputs = some (.arr (fss.map .obj))) :
    plan ceiling inputs =
      .ok { workers := workersOf ceiling inputs
            failFast := ((Fields.get? "fail_fast" inputs).bind Json.bool?).getD false
            queries := fss.mapIdx Query.ofFields } := by
  rw [plan, listed]
  simp only [planQueries_eq, Nat.zero_add]

theorem plan_ok {ceiling : Nat} {inputs : Fields Json} {p : Plan}
    (h : plan ceiling inputs = .ok p) :
    ∃ fss : List (Fields Json), Fields.get? "queries" inputs = some (.arr (fss.map .obj)) := by
  unfold plan at h
  split at h
  · next vs found =>
    split at h
    · cases h
    · next queries planned =>
      obtain ⟨fss, rfl⟩ := planQueries_ok planned
      exact ⟨fss, found⟩
  · cases h

/-- A query has its place as its index. -/
def Indexed (queries : List Query) : Prop :=
  ∀ (i : Nat) (q : Query), queries[i]? = some q → q.index = i

theorem indexed_of_plan {ceiling : Nat} {inputs : Fields Json} {p : Plan}
    (h : plan ceiling inputs = .ok p) : Indexed p.queries := by
  obtain ⟨fss, listed⟩ := plan_ok h
  obtain rfl := Except.ok.inj (h.symm.trans (plan_eq ceiling listed))
  intro i q hq
  obtain ⟨fs, -, rfl⟩ := Option.map_eq_some_iff.mp (List.getElem?_mapIdx.symm.trans hq)
  exact index_ofFields i fs

/-- There is at least one worker. -/
theorem workers_pos {ceiling : Nat} {inputs : Fields Json} {p : Plan}
    (h : plan ceiling inputs = .ok p) : 0 < p.workers := by
  obtain ⟨fss, listed⟩ := plan_ok h
  obtain rfl := Except.ok.inj (h.symm.trans (plan_eq ceiling listed))
  show 0 < min (max 1 _) (max 1 ceiling)
  omega

/-! ## 2. Results -/

/-- A query with what it came to. -/
abbrev Answer := Query × Outcome

/-- The result that an answer is reported as. -/
def Answer.result (a : Answer) : QueryResult := resultOf a.1 a.2

@[simp] theorem Answer.index_result (a : Answer) : a.result.index = a.1.index := by
  obtain ⟨q, o⟩ := a
  cases o <;> rfl

theorem index_subset {queries : List Query} {answers : List Answer}
    (known : ∀ a ∈ answers, queries[a.1.index]? = some a.1) :
    answers.map (·.1.index) ⊆ List.range queries.length := by
  intro j hj
  obtain ⟨a, ha, rfl⟩ := List.mem_map.mp hj
  exact List.mem_range.mpr (List.getElem?_eq_some_iff.mp (known a ha)).1

/-- There are no more answers than queries. -/
theorem length_le_of_once {queries : List Query} {answers : List Answer}
    (known : ∀ a ∈ answers, queries[a.1.index]? = some a.1)
    (once : (answers.map (·.1.index)).Nodup) : answers.length ≤ queries.length := by
  have le := (List.subperm_of_subset once (index_subset known)).length_le
  rwa [List.length_map, List.length_range] at le

/-- With fewer answers than queries, some query is without one. -/
theorem exists_unanswered {answers : List Answer} {n : Nat} (few : answers.length < n) :
    ∃ i < n, i ∉ answers.map (·.1.index) := by
  by_contra all
  push Not at all
  have sub : List.range n ⊆ answers.map (·.1.index) := fun i hi => all i (List.mem_range.mp hi)
  have le := (List.subperm_of_subset List.nodup_range sub).length_le
  rw [List.length_range, List.length_map] at le
  omega

/-- Each query has been answered once. -/
structure AnsweredOnce (queries : List Query) (answers : List Answer) : Prop where
  known : ∀ a ∈ answers, queries[a.1.index]? = some a.1
  once : (answers.map (·.1.index)).Nodup
  all : answers.length = queries.length

/-- Each query is among the answers. -/
theorem AnsweredOnce.answered {queries : List Query} {answers : List Answer}
    (h : AnsweredOnce queries answers)
    {i : Nat} {q : Query} (hq : queries[i]? = some q) : ∃ o, (q, o) ∈ answers := by
  -- as many different numbers as there are places
  have perm : (answers.map (·.1.index)).Perm (List.range queries.length) := by
    refine (List.subperm_of_subset h.once (index_subset h.known)).perm_of_length_le ?_
    exact Nat.le_of_eq (by rw [List.length_range, List.length_map, h.all])
  have place : i ∈ answers.map (·.1.index) :=
    perm.mem_iff.mpr (List.mem_range.mpr (List.getElem?_eq_some_iff.mp hq).1)
  obtain ⟨⟨q', o⟩, ha, same⟩ := List.mem_map.mp place
  have known := h.known _ ha
  rw [show q'.index = i from same, hq] at known
  cases known
  exact ⟨o, ha⟩

theorem exists_forall₂ {α β : Type} {R : α → β → Prop} {l : List α} (h : ∀ a ∈ l, ∃ b, R a b) :
    ∃ l', List.Forall₂ R l l' := by
  induction l with
  | nil => exact ⟨[], .nil⟩
  | cons a l ih =>
    rw [List.forall_mem_cons] at h
    obtain ⟨b, hb⟩ := h.1
    obtain ⟨l', rest⟩ := ih h.2
    exact ⟨b :: l', .cons hb rest⟩

/-- What is found under the index of a query is its own result. -/
theorem find_result {answers : List Answer} (once : (answers.map (·.1.index)).Nodup) {a : Answer}
    (h : a ∈ answers) :
    (answers.map Answer.result).find? (·.index = a.1.index) = some a.result := by
  induction answers with
  | nil => cases h
  | cons b answers ih =>
    rw [List.map_cons, List.nodup_cons] at once
    rw [List.map_cons, List.find?_cons]
    rcases List.mem_cons.mp h with rfl | h
    · simp
    · have other : b.result.index ≠ a.1.index := by
        rw [Answer.index_result]
        exact fun same => once.1 (same ▸ List.mem_map_of_mem h)
      rw [decide_eq_false other]
      exact ih once.2 h

/-- The results stand in the order of the queries, whatever the order of the answers. -/
theorem AnsweredOnce.ordered_eq {queries : List Query} {answers : List Answer}
    (h : AnsweredOnce queries answers) (indexed : Indexed queries) :
    ∃ outcomes : List Outcome, List.Forall₂ (fun q o => (q, o) ∈ answers) queries outcomes ∧
      ordered queries.length (answers.map Answer.result) =
        List.zipWith resultOf queries outcomes := by
  have answered : ∀ q ∈ queries, ∃ o, (q, o) ∈ answers := fun q hq => by
    obtain ⟨i, hi⟩ := List.mem_iff_getElem?.mp hq
    exact h.answered hi
  obtain ⟨outcomes, each⟩ := exists_forall₂ answered
  refine ⟨outcomes, each, List.ext_getElem ?_ fun i small _ => ?_⟩
  · rw [ordered, List.length_map, List.length_range, List.length_zipWith, ← each.length_eq,
      Nat.min_self]
  · have inside : i < queries.length := by simpa [ordered] using small
    have there : i < outcomes.length := each.length_eq ▸ inside
    have member := (List.forall₂_iff_get.mp each).2 i inside there
    have index := indexed i _ (List.getElem?_eq_getElem inside)
    have found := find_result h.once member
    rw [show ((queries.get ⟨i, inside⟩, outcomes.get ⟨i, there⟩) : Answer).1.index = i from index]
      at found
    rw [List.getElem_zipWith]
    simp only [ordered, List.getElem_map, List.getElem_range, found]
    rfl

/-- The entry says what has come of the query: its output and metadata, or its failure. -/
structure Entry (q : Query) (outcome : Outcome) (entry : QueryResult) : Prop where
  index : entry.index = q.index
  tool : entry.tool = q.tool
  success : ∀ o, outcome = .ok o → entry.status = .success ∧ entry.output = o.output ∧
    entry.metadata = o.metadata ∧ entry.error = none
  failed : ∀ f, outcome = .error f → entry.status = .failed ∧ entry.output = "" ∧
    entry.metadata = [] ∧ entry.error = some f

theorem entry_resultOf (q : Query) (outcome : Outcome) : Entry q outcome (resultOf q outcome) := by
  cases outcome with
  | ok o =>
    refine ⟨rfl, rfl, fun o' h => ?_, nofun⟩
    cases h
    exact ⟨rfl, rfl, rfl, rfl⟩
  | error f =>
    refine ⟨rfl, rfl, nofun, fun f' h => ?_⟩
    cases h
    exact ⟨rfl, rfl, rfl, rfl⟩

/-- The output has one entry for each query, in the place of the query, and says what has come of
it. -/
structure Reports (queries : List Query) (outcomes : List Outcome) (o : ToolOutput) : Prop where
  length : o.outputs.length = queries.length
  entries : ∀ (i : Nat) (entry : QueryResult), o.outputs[i]? = some entry → entry.index = i ∧
    ∃ q outcome, queries[i]? = some q ∧ outcomes[i]? = some outcome ∧ Entry q outcome entry
  joined : o.output =
    String.intercalate "\n\n" ((o.outputs.filter (·.status = .success)).map (·.output))
  count : Fields.get? "query_count" o.metadata = some (Json.nat o.outputs.length)
  successes : Fields.get? "successful_queries" o.metadata =
    some (Json.nat (o.outputs.filter (·.status = .success)).length)

/-- **The output of a fan-out whose queries have all been answered.** -/
theorem reports_assemble {p : Plan} {answers : List Answer} (h : AnsweredOnce p.queries answers)
    (indexed : Indexed p.queries) :
    ∃ outcomes : List Outcome, List.Forall₂ (fun q o => (q, o) ∈ answers) p.queries outcomes ∧
      Reports p.queries outcomes (assemble p (answers.map Answer.result)) := by
  obtain ⟨outcomes, each, ordered⟩ := h.ordered_eq indexed
  have length : (List.zipWith resultOf p.queries outcomes).length = p.queries.length := by
    rw [List.length_zipWith, ← each.length_eq, Nat.min_self]
  refine ⟨outcomes, each, ?_⟩
  rw [assemble, ordered]
  refine ⟨length, fun i entry there => ?_, rfl, ?_, ?_⟩
  · obtain ⟨q, outcome, query, come, rfl⟩ := List.getElem?_zipWith_eq_some.mp there
    have entry := entry_resultOf q outcome
    exact ⟨entry.index.trans (indexed i q query), q, outcome, query, come, entry⟩
  · rw [length]
    rfl
  · rw [List.length_map]
    rfl

/-! ## 3. Looking at what has finished -/

/-- What has finished arrives, unless a failure among it ends the whole. -/
theorem look_ok {failFast : Bool} {arrived arrived' : List QueryResult} {finished : List Answer}
    (h : Progress.look failFast arrived finished = .ok arrived') :
    arrived' = arrived ++ finished.map Answer.result := by
  induction finished generalizing arrived with
  | nil =>
    cases h
    rw [List.map_nil, List.append_nil]
  | cons a finished ih =>
    obtain ⟨q, o⟩ := a
    have next (h : Progress.look failFast (arrived ++ [resultOf q o]) finished = .ok arrived') :
        arrived' = arrived ++ ((q, o) :: finished).map Answer.result := by
      rw [ih h, List.append_assoc]
      rfl
    cases o with
    | ok o => exact next h
    | error f =>
      cases failFast with
      | true => cases h
      | false => exact next h

/-- Without `failFast` no failure does. -/
theorem exists_look (arrived : List QueryResult) (finished : List Answer) :
    ∃ arrived', Progress.look false arrived finished = .ok arrived' := by
  induction finished generalizing arrived with
  | nil => exact ⟨arrived, rfl⟩
  | cons a finished ih =>
    obtain ⟨q, o⟩ := a
    cases o <;> exact ih _

/-! ## 4. Taking turns -/

namespace Progress

/-- Of the `n` queries, each has a worker or waits for one or does neither, and none waits while a
worker is free. -/
structure InOrder (p : Progress) (n : Nat) : Prop where
  inside : p.inside.Nodup ∧ ∀ i ∈ p.inside, i < n
  waiting : p.waiting.Nodup ∧ ∀ i ∈ p.waiting, i < n
  apart : ∀ i ∈ p.waiting, i ∉ p.inside
  room : p.inside.length ≤ p.workers
  busy : p.waiting ≠ [] → p.inside.length = p.workers

variable {p : Progress} {n i : Nat}

theorem inOrder_begin (workers n : Nat) : InOrder { workers } n :=
  ⟨⟨.nil, by simp⟩, ⟨.nil, by simp⟩, by simp, Nat.zero_le _, fun h => absurd rfl h⟩

/-- Asking for a worker and giving it back changes who has one and who waits. -/
theorem request_keeps (p : Progress) (i : Nat) : (p.request i).workers = p.workers ∧
    (p.request i).finished = p.finished ∧ (p.request i).arrived = p.arrived := by
  unfold request
  split <;> exact ⟨rfl, rfl, rfl⟩

theorem release_keeps (p : Progress) (i : Nat) : (p.release i).workers = p.workers ∧
    (p.release i).finished = p.finished ∧ (p.release i).arrived = p.arrived := by
  unfold release
  dsimp only
  split <;> exact ⟨rfl, rfl, rfl⟩

theorem InOrder.request (h : p.InOrder n) (small : i < n) (outside : i ∉ p.inside)
    (idle : i ∉ p.waiting) : (p.request i).InOrder n := by
  have snoc {l : List Nat} (hl : l.Nodup ∧ ∀ j ∈ l, j < n) (new : i ∉ l) :
      (l ++ [i]).Nodup ∧ ∀ j ∈ l ++ [i], j < n := by
    constructor
    · rw [List.nodup_append]
      exact ⟨hl.1, by simp, fun a ha b hb same => new (List.mem_singleton.mp hb ▸ same ▸ ha)⟩
    · intro j hj
      rcases List.mem_append.mp hj with hj | hj
      · exact hl.2 j hj
      · rw [List.mem_singleton.mp hj]
        exact small
  unfold Progress.request
  split
  · next free =>
    have none : p.waiting = [] := by
      by_contra some
      exact absurd (h.busy some) (Nat.ne_of_lt free)
    refine ⟨snoc h.inside outside, h.waiting, ?_, ?_, fun some => absurd none some⟩
    · simp [none]
    · rw [List.length_append, List.length_singleton]
      exact free
  · next full =>
    refine ⟨h.inside, snoc h.waiting idle, fun j hj => ?_, h.room, fun _ => ?_⟩
    · rcases List.mem_append.mp hj with hj | hj
      · exact h.apart j hj
      · rw [List.mem_singleton.mp hj]
        exact outside
    · exact Nat.le_antisymm h.room (Nat.le_of_not_lt full)

/-- The query that asks has a worker now, or waits. -/
theorem mem_request (p : Progress) (i : Nat) :
    i ∈ (p.request i).inside ∨ i ∈ (p.request i).waiting := by
  unfold request
  split <;> simp

theorem mem_inside_request {j : Nat} (other : j ≠ i) :
    j ∈ (p.request i).inside ↔ j ∈ p.inside := by
  unfold request
  split <;> simp [other]

theorem mem_waiting_request {j : Nat} (other : j ≠ i) :
    j ∈ (p.request i).waiting ↔ j ∈ p.waiting := by
  unfold request
  split <;> simp [other]

/-- One that asks comes last. -/
theorem next?_of_request {j : Nat} (h : (p.request i).next? = some j) (other : j ≠ i) :
    p.next? = some j := by
  unfold request next? at h
  split at h
  · exact h
  · cases some : p.waiting with
    | nil =>
      rw [some] at h
      exact absurd (Option.some.inj h).symm other
    | cons next rest =>
      rw [some] at h
      rw [next?, some]
      exact h

theorem mem_inside_release (h : p.InOrder n) {j : Nat} :
    j ∈ (p.release i).inside ↔ (j ∈ p.inside ∧ j ≠ i) ∨ p.next? = some j := by
  have erased : j ∈ p.inside.erase i ↔ j ≠ i ∧ j ∈ p.inside := h.inside.1.mem_erase_iff
  unfold release next?
  dsimp only
  split
  · next none => simp [none, erased, and_comm]
  · next next rest some => simp [some, erased, and_comm, eq_comm]

theorem mem_waiting_release (h : p.InOrder n) {j : Nat} :
    j ∈ (p.release i).waiting ↔ j ∈ p.waiting ∧ p.next? ≠ some j := by
  unfold release next?
  dsimp only
  split
  · next none => simp [none]
  · next next rest some =>
    have new : next ∉ rest := (List.nodup_cons.mp (some ▸ h.waiting.1)).1
    rw [some]
    constructor
    · intro hj
      refine ⟨List.mem_cons_of_mem _ hj, fun same => ?_⟩
      cases same
      exact new hj
    · rintro ⟨hj, other⟩
      rcases List.mem_cons.mp hj with rfl | hj
      · exact absurd rfl other
      · exact hj

theorem InOrder.release (h : p.InOrder n) (here : i ∈ p.inside) : (p.release i).InOrder n := by
  have kept : (p.inside.erase i).Nodup := h.inside.1.erase i
  have length : (p.inside.erase i).length + 1 = p.inside.length := by
    rw [List.length_erase_of_mem here]
    have := List.length_pos_of_mem here
    omega
  have small (j : Nat) (hj : j ∈ (p.release i).inside) : j < n := by
    rcases (mem_inside_release h).mp hj with ⟨hj, -⟩ | next
    · exact h.inside.2 j hj
    · exact h.waiting.2 j (List.mem_of_head? next)
  have waiting (j : Nat) (hj : j ∈ (p.release i).waiting) : j ∈ p.waiting ∧ p.next? ≠ some j :=
    (mem_waiting_release h).mp hj
  have apart (j : Nat) (hj : j ∈ (p.release i).waiting) : j ∉ (p.release i).inside := by
    intro inside
    rcases (mem_inside_release h).mp inside with ⟨inside, -⟩ | next
    · exact h.apart j (waiting j hj).1 inside
    · exact (waiting j hj).2 next
  have room := h.room
  cases some : p.waiting with
  | nil =>
    refine ⟨⟨?_, small⟩, ⟨?_, fun j hj => h.waiting.2 j (waiting j hj).1⟩, apart, ?_,
      fun more => ?_⟩
    all_goals simp only [Progress.release, some] at *
    · exact kept
    · exact .nil
    · omega
    · exact absurd rfl more
  | cons next rest =>
    have busy := h.busy (by simp [some])
    have outside : next ∉ p.inside := h.apart next (by simp [some])
    refine ⟨⟨?_, small⟩, ⟨?_, fun j hj => h.waiting.2 j (waiting j hj).1⟩, apart, ?_, fun _ => ?_⟩
    all_goals simp only [Progress.release, some]
    · rw [List.nodup_append]
      refine ⟨kept, by simp, fun a ha b hb same => outside ?_⟩
      rw [← List.mem_singleton.mp hb, ← same]
      exact List.mem_of_mem_erase ha
    · exact (List.nodup_cons.mp (some ▸ h.waiting.1)).2
    · rw [List.length_append, List.length_singleton]
      omega
    · rw [List.length_append, List.length_singleton]
      omega

end Progress
end Runbook.FanOut
