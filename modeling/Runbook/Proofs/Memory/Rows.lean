import Runbook.Proofs.InstantOrder
import Runbook.Proofs.Memory.Ledger

/-!
# The ledger in rows

The durable store writes each slice as a row of texts. Which rows answer a command is decided on the
texts, and they decide as the slices would: classifications by their names, times by texts of one
width. Only what is listed has to be read back, and of that only the metadata can be lost. So the
replies are those of the ledger, each slice with its metadata read again.
-/

set_option autoImplicit false

namespace Runbook

open Memory

/-! ## 1. Slices and rows -/

namespace Slice

/-- The slice with its metadata as they are read again from their text. -/
def retold (s : Slice) : Except StoreError Slice :=
  match Json.parse? (Json.obj s.metadata).compress with
  | some (.obj metadata) => .ok { s with metadata }
  | _ => .error (.read s!"invalid slice metadata: {(Json.obj s.metadata).compress}")

/-- All but the metadata can be read back from a row. -/
structure Writable (s : Slice) : Prop where
  proper : s.classification.Proper
  plain : s.createdAt.Plain

theorem retold_of_lossless {s : Slice} (h : (Json.obj s.metadata).Lossless) :
    s.retold = .ok s := by
  rw [retold, h]

end Slice

namespace Memory

namespace Row

def ofSlice (s : Slice) : Row :=
  Row.ofNew s.id s.createdAt ⟨s.run, s.step, s.classification, s.content, s.metadata⟩

theorem time_timeText {t : Instant} (plain : t.Plain) : time (timeText t) = .ok t := by
  rw [time, timeText, Instant.parseFourDigits?_microsText plain]

theorem toSlice_ofSlice {s : Slice} (h : s.Writable) : (ofSlice s).toSlice = s.retold := by
  have created : time (ofSlice s).createdAt = .ok s.createdAt := time_timeText h.plain
  have tag : Classification.ofName (ofSlice s).classification = s.classification := h.proper
  rw [toSlice, Slice.retold, created, tag]
  rfl

theorem accepted_ofSlice {q : SliceQuery} (hq : q.Proper) {s : Slice} (h : s.Writable) :
    accepted q (ofSlice s) = q.accepts s := by
  have tag : Classification.ofName (ofSlice s).classification = s.classification := h.proper
  rw [accepted_eq hq, SliceQuery.accepts_eq, entry, tag]
  rfl

end Row

/-! ## 2. The times of a run -/

namespace RowTable

theorem smaller_timeText {t u : Instant} (ht : t.Plain) (hu : u.Plain) :
    smaller (Row.timeText t) (Row.timeText u) = Row.timeText (RunTable.earlier t u) := by
  rw [smaller, RunTable.earlier, apply_ite Row.timeText]
  exact if_congr (Instant.microsText_lt_iff hu (.inl ht)) rfl rfl

theorem larger_timeText {t u : Instant} (ht : t.Plain) (hu : u.Plain) :
    larger (Row.timeText t) (Row.timeText u) = Row.timeText (RunTable.later t u) := by
  rw [larger, RunTable.later, apply_ite Row.timeText]
  exact if_congr (Instant.microsText_lt_iff ht (.inl hu)) rfl rfl

/-- A choice between texts is a choice between times. -/
theorem foldl_timeText {choose : String → String → String} {among : Instant → Instant → Instant}
    (same : ∀ {t u : Instant}, t.Plain → u.Plain →
      choose (Row.timeText t) (Row.timeText u) = Row.timeText (among t u))
    (one : ∀ t u, among t u = t ∨ among t u = u) {first : Instant} {times : List Instant}
    (plain : ∀ t ∈ first :: times, t.Plain) :
    (times.map Row.timeText).foldl choose (Row.timeText first) =
        Row.timeText (times.foldl among first) ∧ (times.foldl among first).Plain := by
  induction times generalizing first with
  | nil => exact ⟨rfl, plain first (List.mem_cons_self ..)⟩
  | cons t times ih =>
    rw [List.forall_mem_cons, List.forall_mem_cons] at plain
    obtain ⟨hfirst, ht, plain⟩ := plain
    have chosen : (among first t).Plain := by
      rcases one first t with h | h <;> rw [h]
      · exact hfirst
      · exact ht
    rw [List.map_cons, List.foldl_cons, List.foldl_cons, same hfirst ht]
    exact ih (List.forall_mem_cons.mpr ⟨chosen, plain⟩)

theorem overview_ofSlice (run : RunId) {s : Slice} {rest : List Slice}
    (writable : ∀ x ∈ s :: rest, x.Writable) :
    overview run (Row.ofSlice s) (rest.map Row.ofSlice) =
      .ok { run, sliceCount := rest.length + 1
            firstAt := (rest.map (·.createdAt)).foldl RunTable.earlier s.createdAt
            lastAt := (rest.map (·.createdAt)).foldl RunTable.later s.createdAt } := by
  have plain : ∀ t ∈ s.createdAt :: rest.map (·.createdAt), t.Plain := by
    rw [← List.map_cons, List.forall_mem_map]
    exact fun x hx => (writable x hx).plain
  have times : (rest.map Row.ofSlice).map (·.createdAt) =
      (rest.map (·.createdAt)).map Row.timeText := by
    rw [List.map_map, List.map_map]
    rfl
  obtain ⟨first, hfirst⟩ := foldl_timeText smaller_timeText
    (fun t u => by unfold RunTable.earlier; split <;> simp) plain
  obtain ⟨last, hlast⟩ := foldl_timeText larger_timeText
    (fun t u => by unfold RunTable.later; split <;> simp) plain
  have own : (Row.ofSlice s).createdAt = Row.timeText s.createdAt := rfl
  simp only [overview, times, own, first, last, Row.time_timeText hfirst,
    Row.time_timeText hlast, List.length_map]
  rfl

/-! ## 3. The rows of a ledger -/

/-- The table holds the slices of the ledger, written as rows. -/
structure Writes (t : RowTable) (l : Ledger) : Prop where
  rows : t.rows = l.slices.map Row.ofSlice
  lastId : t.lastId = l.lastId
  writable : ∀ s ∈ l.slices, s.Writable

variable {t : RowTable} {l : Ledger}

theorem mapM_toSlice {slices : List Slice} (writable : ∀ s ∈ slices, s.Writable) :
    (slices.map Row.ofSlice).mapM Row.toSlice = slices.mapM Slice.retold := by
  induction slices with
  | nil => rfl
  | cons s rest ih =>
    rw [List.forall_mem_cons] at writable
    rw [List.map_cons, List.mapM_cons, List.mapM_cons, Row.toSlice_ofSlice writable.1,
      ih writable.2]

theorem Writes.append (h : t.Writes l) {s : NewSlice} (proper : s.classification.Proper)
    {now : Instant} (plain : now.Plain) :
    (t.append s now).1 = (l.append s now).1 ∧ (t.append s now).2.Writes (l.append s now).2 := by
  have id : t.lastId + 1 = l.lastId + 1 := congrArg (· + 1) h.lastId
  refine ⟨id, ⟨?_, id, ?_⟩⟩
  · rw [RowTable.append, Ledger.append, h.rows, h.lastId, List.map_append]
    rfl
  · intro x hx
    rcases List.mem_append.mp hx with hx | hx
    · exact h.writable x hx
    · obtain rfl := List.mem_singleton.mp hx
      exact ⟨proper, plain⟩

theorem filter_map_congr {α β : Type} {f : α → β} {p : β → Bool} {q : α → Bool} {items : List α}
    (h : ∀ a ∈ items, p (f a) = q a) : (items.map f).filter p = (items.filter q).map f := by
  rw [List.filter_map]
  exact congrArg (List.map f) (List.filter_congr h)

theorem Writes.filter_accepted (h : t.Writes l) {q : SliceQuery} (hq : q.Proper) :
    t.rows.filter (Row.accepted q) = (l.slices.filter q.accepts).map Row.ofSlice := by
  rw [h.rows]
  exact filter_map_congr fun s hs => Row.accepted_ofSlice hq (h.writable s hs)

theorem Writes.filter_run (h : t.Writes l) (run : RunId) :
    (t.rows.filter fun r => r.run == run) = (l.history run).map Row.ofSlice := by
  rw [h.rows]
  exact filter_map_congr fun _ _ => rfl

theorem mem_upTo {α : Type} {limit : Option Nat} {items : List α} {a : α}
    (h : a ∈ upTo limit items) : a ∈ items := by
  cases limit with
  | none => exact h
  | some n => exact List.mem_of_mem_take h

theorem Writes.query (h : t.Writes l) {q : SliceQuery} (hq : q.Proper) :
    t.query q = (l.query q).mapM Slice.retold := by
  rw [RowTable.query, h.filter_accepted hq, ← List.map_reverse, ← map_upTo, ← Ledger.query]
  refine mapM_toSlice fun s hs => h.writable s ?_
  exact List.mem_of_mem_filter (List.mem_reverse.mp (mem_upTo hs))

theorem Writes.history (h : t.Writes l) (run : RunId) :
    t.history run = (l.history run).mapM Slice.retold := by
  rw [RowTable.history, h.filter_run]
  exact mapM_toSlice fun s hs => h.writable s (List.mem_of_mem_filter hs)

/-- The newest slice of a run, read again. -/
def newestRetold : Option Slice → Except StoreError (Option Slice)
  | some s => s.retold.map some
  | none => .ok none

theorem Writes.latest (h : t.Writes l) (run : RunId) :
    t.latest run = newestRetold (l.latest run) := by
  have all : SliceQuery.accepts { run, limit := some 1 } = fun s : Slice => s.run == run := by
    funext s
    simp [SliceQuery.accepts]
  have proper : SliceQuery.Proper { run, limit := some 1 } := fun c hc => by cases hc
  rw [RowTable.latest, h.query proper, Ledger.query, all, upTo, Ledger.latest, Ledger.history,
    ← List.head?_reverse]
  cases (l.slices.filter fun s => s.run == run).reverse with
  | nil => rfl
  | cons s rest =>
    rw [List.take_succ_cons, List.take_zero, List.head?_cons, newestRetold, List.mapM_cons,
      List.mapM_nil]
    cases s.retold <;> rfl

theorem Writes.recentRuns (h : t.Writes l) : t.recentRuns = l.recentRuns := by
  rw [RowTable.recentRuns, Ledger.recentRuns, h.rows, ← List.map_reverse, List.map_map]
  rfl

theorem mapM_id_ok {α ε : Type} (items : List α) :
    (items.map (Except.ok (ε := ε))).mapM id = .ok items := by
  induction items with
  | nil => rfl
  | cons a items ih =>
    rw [List.map_cons, List.mapM_cons, ih]
    rfl

theorem Writes.overviews (h : t.Writes l) (limit : Nat) :
    t.overviews limit = .ok (l.overviews limit) := by
  rw [RowTable.overviews, Ledger.overviews, h.recentRuns, ← mapM_id_ok, List.map_filterMap]
  refine congrArg (List.mapM id) (List.filterMap_congr fun run _ => ?_)
  have writable : ∀ s ∈ l.history run, s.Writable :=
    fun s hs => h.writable s (List.mem_of_mem_filter hs)
  rw [h.filter_run, Ledger.overview?]
  cases hl : l.history run with
  | nil => rfl
  | cons s rest =>
    rw [hl] at writable
    exact congrArg some (overview_ofSlice run writable)

theorem Writes.stats (h : t.Writes l) : t.stats = l.stats := by
  rw [RowTable.stats, Ledger.stats, h.recentRuns, h.rows, List.length_map, List.map_map]
  rfl

theorem Writes.purge (h : t.Writes l) {cutoff : Instant}
    (hc : cutoff.Plain ∨ cutoff.calendar.1 < 0) :
    (t.purge cutoff).1 = (l.purge cutoff).1 ∧ (t.purge cutoff).2.Writes (l.purge cutoff).2 := by
  -- a row is old by its text if the slice is by its time
  have old : ∀ s ∈ l.slices, decide ((Row.ofSlice s).createdAt < Row.timeText cutoff) =
      !decide (cutoff ≤ s.createdAt) := by
    intro s hs
    have order := Instant.microsText_lt_iff (h.writable s hs).plain hc
    have le : cutoff ≤ s.createdAt ↔ ¬ s.createdAt < cutoff := Int.not_lt.symm
    rw [← decide_not, decide_eq_decide, le, Decidable.not_not]
    exact order
  have young : ∀ s ∈ l.slices, (!decide ((Row.ofSlice s).createdAt < Row.timeText cutoff)) =
      decide (cutoff ≤ s.createdAt) := by
    intro s hs
    rw [old s hs, Bool.not_not]
  have removed : (l.slices.map Row.ofSlice).filter (fun r => r.createdAt < Row.timeText cutoff) =
      (l.slices.filter fun s => !decide (cutoff ≤ s.createdAt)).map Row.ofSlice :=
    filter_map_congr old
  have kept : (l.slices.map Row.ofSlice).filter
      (fun r => !decide (r.createdAt < Row.timeText cutoff)) =
      (l.slices.filter fun s => cutoff ≤ s.createdAt).map Row.ofSlice :=
    filter_map_congr young
  rw [RowTable.purge, Ledger.purge, List.partition_eq_filter_filter,
    List.partition_eq_filter_filter, h.rows]
  exact ⟨(congrArg List.length removed).trans (List.length_map _), kept, h.lastId,
    fun s hs => h.writable s (List.mem_of_mem_filter hs)⟩

end RowTable

/-! ## 4. What the durable store says -/

/-- The reply with the metadata of each slice read again. -/
def StoreReply.retold : StoreReply → StoreReply
  | .found (.ok slices) => .found (slices.mapM Slice.retold)
  | .newest (.ok slice) => .newest (RowTable.newestRetold slice)
  | reply => reply

/-- Classifications are as they are read from their tags. Times have texts of one width, that say
all of them; but a purge may go back to any time before. -/
def StoreCommand.Sound : StoreCommand → Prop
  | .append s now => s.classification.Proper ∧ now.Plain
  | .query q => q.Proper
  | .purge cutoff => cutoff.Plain ∨ cutoff.calendar.1 < 0
  | .latest _ | .history _ | .runs _ | .stats => True

/-- What is appended has metadata that come back from their text. -/
def StoreCommand.Lossless : StoreCommand → Prop
  | .append s _ => (Json.obj s.metadata).Lossless
  | _ => True

namespace RowTable

variable {t : RowTable} {l : Ledger}

theorem Writes.step {c : StoreCommand} (sound : c.Sound) (h : t.Writes l) :
    (perform c t).1 = (perform c l).1.retold ∧ (perform c t).2.Writes (perform c l).2 := by
  cases c with
  | append s now =>
    obtain ⟨id, next⟩ := h.append sound.1 sound.2
    exact ⟨congrArg (fun n => StoreReply.appended (.ok n)) id, next⟩
  | query q => exact ⟨congrArg StoreReply.found (h.query sound), h⟩
  | latest run => exact ⟨congrArg StoreReply.newest (h.latest run), h⟩
  | history run => exact ⟨congrArg StoreReply.found (h.history run), h⟩
  | runs limit => exact ⟨congrArg StoreReply.listed (h.overviews limit), h⟩
  | stats => exact ⟨congrArg (fun x => StoreReply.totals (.ok x)) h.stats, h⟩
  | purge cutoff =>
    obtain ⟨count, next⟩ := h.purge sound
    exact ⟨congrArg (fun n => StoreReply.purged (.ok n)) count, next⟩

theorem Writes.empty : ({} : RowTable).Writes {} where
  rows := rfl
  lastId := rfl
  writable _ hs := absurd hs List.not_mem_nil

end RowTable

namespace Ledger

variable {l : Ledger}

/-- All metadata come back from their texts. -/
def Whole (l : Ledger) : Prop := ∀ s ∈ l.slices, (Json.obj s.metadata).Lossless

theorem mapM_retold {slices : List Slice} (whole : ∀ s ∈ slices, (Json.obj s.metadata).Lossless) :
    slices.mapM Slice.retold = .ok slices := by
  induction slices with
  | nil => rfl
  | cons s rest ih =>
    rw [List.forall_mem_cons] at whole
    rw [List.mapM_cons, Slice.retold_of_lossless whole.1, ih whole.2]
    rfl

theorem Whole.step {c : StoreCommand} (lossless : c.Lossless) (h : l.Whole) :
    (perform c l).1.retold = (perform c l).1 ∧ (perform c l).2.Whole := by
  cases c with
  | append s now =>
    refine ⟨rfl, fun x hx => ?_⟩
    rcases List.mem_append.mp hx with hx | hx
    · exact h x hx
    · obtain rfl := List.mem_singleton.mp hx
      exact lossless
  | query q =>
    refine ⟨congrArg StoreReply.found (mapM_retold fun s hs => h s ?_), h⟩
    exact List.mem_of_mem_filter (List.mem_reverse.mp (RowTable.mem_upTo hs))
  | latest run =>
    refine ⟨congrArg StoreReply.newest ?_, h⟩
    cases hl : l.latest run with
    | none => rfl
    | some s =>
      have there : s ∈ l.slices := List.mem_of_mem_filter (List.mem_of_getLast? hl)
      rw [RowTable.newestRetold, Slice.retold_of_lossless (h s there)]
      rfl
  | history run =>
    exact ⟨congrArg StoreReply.found (mapM_retold fun s hs => h s (List.mem_of_mem_filter hs)), h⟩
  | runs | stats => exact ⟨rfl, h⟩
  | purge cutoff =>
    refine ⟨rfl, fun s hs => h s ?_⟩
    have kept : (l.purge cutoff).2.slices = l.slices.filter fun s => cutoff ≤ s.createdAt := by
      rw [Ledger.purge, List.partition_eq_filter_filter]
    rw [show (perform (.purge cutoff) l).2 = (l.purge cutoff).2 from rfl, kept] at hs
    exact List.mem_of_mem_filter hs

end Ledger

/-- The durable store gives the replies of the ledger, with all metadata read again. -/
theorem replies_rowTable {cs : List StoreCommand} (sound : ∀ c ∈ cs, c.Sound) :
    replies cs ({} : RowTable) = (replies cs ({} : Ledger)).map StoreReply.retold :=
  replies_of_step (fun _ _ _ sound h => RowTable.Writes.step sound h) sound .empty

/-- Where all metadata come back, it gives the same replies. -/
theorem replies_rowTable_of_lossless {cs : List StoreCommand} (sound : ∀ c ∈ cs, c.Sound)
    (lossless : ∀ c ∈ cs, c.Lossless) : replies cs ({} : RowTable) = replies cs ({} : Ledger) := by
  have step : ∀ (c : StoreCommand) (t : RowTable) (l : Ledger), c.Sound ∧ c.Lossless →
      t.Writes l ∧ l.Whole → (perform c t).1 = id (perform c l).1 ∧
        (perform c t).2.Writes (perform c l).2 ∧ (perform c l).2.Whole := by
    intro c t l ok h
    obtain ⟨reply, writes⟩ := h.1.step ok.1
    obtain ⟨same, whole⟩ := h.2.step ok.2
    exact ⟨reply.trans same, writes, whole⟩
  have same : replies cs ({} : RowTable) = (replies cs ({} : Ledger)).map id :=
    replies_of_step step (fun c hc => ⟨sound c hc, lossless c hc⟩)
      ⟨.empty, fun s hs => absurd hs List.not_mem_nil⟩
  exact same.trans (List.map_id _)

/-! ## 5. One log in two stores -/

/-- **The stores are one log.** To every sequence of commands both stores reply what the ledger
does: ids counted up from 1 and never given again, queries newest first, histories oldest first, runs
by their newest slices. The durable store does so for classifications and times that their texts say
all of, and but for the metadata of what it lists: these it reads again from their text, and fails
if that cannot be read. So the two never differ where all metadata come back. -/
theorem stores_agree {cs : List StoreCommand} (sound : ∀ c ∈ cs, c.Sound) :
    replies cs ({} : RunTable) = replies cs ({} : Ledger) ∧
    replies cs ({} : RowTable) = (replies cs ({} : Ledger)).map StoreReply.retold ∧
    ((∀ c ∈ cs, c.Lossless) → replies cs ({} : RowTable) = replies cs ({} : RunTable)) ∧
    (replies cs ({} : Ledger)).filterMap StoreReply.newId? =
      List.range' 1 (cs.countP StoreCommand.isAppend) :=
  ⟨replies_runTable cs, replies_rowTable sound,
    fun lossless => (replies_rowTable_of_lossless sound lossless).trans (replies_runTable cs).symm,
    newIds_from cs {}⟩

/-- A slice of the run `a`. -/
def note (metadata : Fields Json) : NewSlice :=
  { run := "a", step := "s", classification := .output, content := "x", metadata }

/-- The first of two slices is purged, and a third one appended. -/
def purgedCommands : List StoreCommand :=
  [.append (note []) ⟨0⟩, .append (note [("k", .bool true)]) ⟨2000⟩, .purge ⟨1000⟩,
    .append (note []) ⟨3000⟩, .query { run := "a", limit := some 1 }, .history "a", .runs 5, .stats]

theorem plain_of_small {nanos : Int} (h0 : 0 ≤ nanos) (h1 : nanos < 86400000000000)
    (whole : nanos % 1000 = 0) : Instant.Plain ⟨nanos⟩ := by
  have day : Int.fdiv nanos (86400 * 1000000000) = 0 := by
    rw [Int.fdiv_eq_ediv_of_nonneg _ (by decide)]
    omega
  have year : (Instant.calendar ⟨nanos⟩).1 = 1970 := by
    simp only [Instant.calendar, day]
    rfl
  exact ⟨by rw [year]; decide, by rw [year]; decide, whole⟩

theorem stores_agree_purged :
    (∀ c ∈ purgedCommands, c.Sound) ∧ (∀ c ∈ purgedCommands, c.Lossless) ∧
      replies purgedCommands ({} : RowTable) = replies purgedCommands ({} : RunTable) ∧
      (replies purgedCommands ({} : Ledger)).filterMap StoreReply.newId? = [1, 2, 3] := by
  have sound : ∀ c ∈ purgedCommands, c.Sound := by
    simp only [purgedCommands, List.forall_mem_cons]
    refine ⟨⟨rfl, ?_⟩, ⟨rfl, ?_⟩, .inl ?_, ⟨rfl, ?_⟩, fun c hc => (by cases hc), trivial, trivial,
      trivial, fun _ h => absurd h List.not_mem_nil⟩
    all_goals exact plain_of_small (by decide) (by decide) (by decide)
  have lossless : ∀ c ∈ purgedCommands, c.Lossless := by
    simp only [purgedCommands, List.forall_mem_cons]
    exact ⟨Json.lossless_iff.mpr rfl, Json.lossless_iff.mpr rfl, trivial,
      Json.lossless_iff.mpr rfl, trivial, trivial, trivial, trivial,
      fun _ h => absurd h List.not_mem_nil⟩
  obtain ⟨-, -, same, ids⟩ := stores_agree sound
  exact ⟨sound, lossless, same lossless, ids⟩

/-- Metadata that are nested more deeply than the reader goes. -/
def deepCommands : List StoreCommand :=
  [.append (note [("trail", nested 200)]) ⟨0⟩, .history "a"]

/-- A slice from the first moment of the year 10000, and a purge of what is older than 1970. -/
def lateCommands : List StoreCommand :=
  [.append (note []) ⟨253402300800000000000⟩, .purge ⟨0⟩]

/-- **The stores differ on metadata that are nested too deeply**: one lists them, and the other fails
to. They also differ on times behind the year 9999, whose texts come before all others. -/
theorem stores_differ :
    (∀ c ∈ deepCommands, c.Sound) ∧
    (∃ s, replies deepCommands ({} : RunTable) = [.appended (.ok 1), .found (.ok [s])]) ∧
    (∃ e, replies deepCommands ({} : RowTable) = [.appended (.ok 1), .found (.error e)]) ∧
    replies lateCommands ({} : RunTable) = [.appended (.ok 1), .purged (.ok 0)] ∧
    replies lateCommands ({} : RowTable) = [.appended (.ok 1), .purged (.ok 1)] := by
  have sound : ∀ c ∈ deepCommands, c.Sound := by
    simp only [deepCommands, List.forall_mem_cons]
    exact ⟨⟨rfl, plain_of_small (by decide) (by decide) (by decide)⟩, trivial,
      fun _ h => absurd h List.not_mem_nil⟩
  have unread : Json.parse? (Json.obj [("trail", nested 200)]).compress = none := by
    rw [Json.parse?_compress]
    exact reread_obj_eq_none (k := "trail") (List.nodup_singleton _) rfl
      (reread_nested (by decide))
  have retold : ∀ s : Slice, s.metadata = [("trail", nested 200)] → ∃ e, s.retold = .error e := by
    intro s hs
    rw [Slice.retold, hs, unread]
    exact ⟨_, rfl⟩
  refine ⟨sound, ⟨_, rfl⟩, ?_, ?_, ?_⟩
  · obtain ⟨e, he⟩ := retold (Slice.ofNew 1 ⟨0⟩ (note [("trail", nested 200)])) rfl
    have read : [Slice.ofNew 1 ⟨0⟩ (note [("trail", nested 200)])].mapM Slice.retold = .error e := by
      rw [List.mapM_cons, he]
      rfl
    refine ⟨e, (replies_rowTable sound).trans ?_⟩
    exact congrArg (fun r => [StoreReply.appended (.ok 1), .found r]) read
  · rfl
  · have count : ((({} : RowTable).append (note []) ⟨253402300800000000000⟩).2.purge ⟨0⟩).1 = 1 := by
      decide +kernel
    exact congrArg (fun n => [StoreReply.appended (.ok 1), .purged (.ok n)]) count

end Memory
end Runbook
