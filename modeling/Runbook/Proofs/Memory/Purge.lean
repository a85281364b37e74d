import Runbook.Proofs.Memory.Rows

/-!
# Purging by age

A purge removes what was created before a moment, which is as long ago as the age. Three things stand
between the two. The age may be longer than any span that is reckoned with, and the moment may lie
before the earliest instant; the cutoff is the earliest instant then (`cutoff_nanos`). And the durable
store compares texts. These have one width in the years from 0 to 9999, and a sign, which comes
before all digits, in the years before; so they decide as the microseconds do.

So it is said once what a purge does, of a ledger and a moment, and up to the unit in which a store
tells times apart: a nanosecond in the store of one process, a microsecond in the durable one.
-/

set_option autoImplicit false

namespace Runbook

open Memory

variable {now : Instant} {age longer : Age}

namespace Instant

theorem FourDigits.dated {t : Instant} (h : t.FourDigits) : t.Dated := by
  obtain ⟨h0, h9⟩ := h
  rw [Dated, hasDates, Bool.and_eq_true, decide_eq_true_eq, decide_eq_true_eq]
  omega

theorem FourDigits.earliest_le {t : Instant} (h : t.FourDigits) : earliest.nanos ≤ t.nanos :=
  (dated_iff.mp h.dated).1

theorem latest_sub_longestSpan : latest.nanos - Age.longestSpan < earliest.nanos := by
  decide +kernel

end Instant

namespace Memory

/-- What is appended is created in the years from 0 to 9999. -/
def StoreCommand.FourDigits : StoreCommand → Prop
  | .append _ now => now.FourDigits
  | _ => True

/-! ## 1. The cutoff -/

/-- The moment that is as long ago as the age, in nanoseconds since the start of 1970. -/
def moment (now : Instant) (age : Age) : Int := now.nanos - age.length

theorem moment_le (h : age.length ≤ longer.length) : moment now longer ≤ moment now age := by
  rw [moment, moment]
  omega

/-- **The cutoff is the moment, but not before the earliest instant.** -/
theorem cutoff_nanos (clock : now.Dated) (age : Age) :
    (cutoff now age).nanos = max Instant.earliest.nanos (moment now age) := by
  have range := Instant.latest_sub_longestSpan
  have high : now.nanos ≤ Instant.latest.nanos := (Instant.dated_iff.mp clock).2
  have low : Instant.earliest.nanos ≤ now.nanos := (Instant.dated_iff.mp clock).1
  rw [cutoff, Age.span?, moment]
  split
  · next short =>
    rw [Option.bind_some, Instant.back?]
    split
    · next there =>
      have : Instant.earliest.nanos ≤ now.nanos - age.length := there.1
      rw [Option.getD_some]
      dsimp only
      omega
    · next missing =>
      have : ¬ (Instant.earliest.nanos ≤ now.nanos - age.length ∧
        now.nanos - age.length ≤ Instant.latest.nanos) := missing
      rw [Option.getD_none]
      omega
  · -- from no clock does a longer span lead back to an instant
    rw [Option.bind_none, Option.getD_none]
    omega

theorem cutoff_le (clock : now.Dated) (age : Age) : cutoff now age ≤ now := by
  change (cutoff now age).nanos ≤ now.nanos
  have low : Instant.earliest.nanos ≤ now.nanos := (Instant.dated_iff.mp clock).1
  rw [cutoff_nanos clock, moment]
  omega

/-- The cutoff is always an instant that has a text. -/
theorem dated_cutoff (clock : now.Dated) (age : Age) : (cutoff now age).Dated := by
  have high : now.nanos ≤ Instant.latest.nanos := (Instant.dated_iff.mp clock).2
  have below : (cutoff now age).nanos ≤ now.nanos := cutoff_le clock age
  refine Instant.dated_iff.mpr ⟨?_, Int.le_trans below high⟩
  change Instant.earliest.nanos ≤ (cutoff now age).nanos
  rw [cutoff_nanos clock]
  omega

/-! ## 2. What is to be removed -/

namespace Ledger

variable {l : Ledger} {unit : Nat} {m m' : Int}

/-- All slices were created in the years from 0 to 9999. -/
def FourDigits (l : Ledger) : Prop := ∀ s ∈ l.slices, s.createdAt.FourDigits

/-- How many slices were created before a moment, in units of so many nanoseconds. -/
def countBefore (unit : Nat) (m : Int) (l : Ledger) : Nat :=
  l.slices.countP fun s => s.createdAt.nanos / unit < m / unit

/-- The ledger without these slices. -/
def since (unit : Nat) (m : Int) (l : Ledger) : Ledger :=
  { l with slices := l.slices.filter fun s => m / unit ≤ s.createdAt.nanos / unit }

theorem purge_eq (c : Instant) : l.purge c = (l.countBefore 1 c.nanos, l.since 1 c.nanos) := by
  have young : ∀ s : Slice, decide (c ≤ s.createdAt) =
      decide (c.nanos / (1 : Nat) ≤ s.createdAt.nanos / (1 : Nat)) := by
    intro s
    rw [Nat.cast_one, Int.ediv_one, Int.ediv_one]
    rfl
  have old : ∀ s : Slice, (!decide (c ≤ s.createdAt)) =
      decide (s.createdAt.nanos / (1 : Nat) < c.nanos / (1 : Nat)) := by
    intro s
    rw [young, ← decide_not, decide_eq_decide, Int.not_le]
  have kept : l.slices.filter (fun s => decide (c ≤ s.createdAt)) = (l.since 1 c.nanos).slices :=
    List.filter_congr fun s _ => young s
  have removed : (l.slices.filter fun s => !decide (c ≤ s.createdAt)).length =
      l.countBefore 1 c.nanos := by
    rw [countBefore, List.countP_eq_length_filter]
    exact congrArg List.length (List.filter_congr fun s _ => old s)
  rw [purge, List.partition_eq_filter_filter, kept]
  exact congrArg (·, l.since 1 c.nanos) removed

/-- A later moment has no fewer slices before it. -/
theorem countBefore_mono (le : m ≤ m') (pos : 0 < unit) :
    l.countBefore unit m ≤ l.countBefore unit m' := by
  refine List.countP_mono_left fun s _ before => ?_
  have := Int.ediv_le_ediv (c := (unit : Int)) (by omega) le
  simp only [decide_eq_true_eq] at before ⊢
  omega

theorem since_sublist (le : m ≤ m') (pos : 0 < unit) :
    (l.since unit m').slices.Sublist (l.since unit m).slices := by
  have both : ∀ s : Slice, decide (m' / unit ≤ s.createdAt.nanos / unit) = true →
      decide (m / unit ≤ s.createdAt.nanos / unit) = true := by
    intro s behind
    have := Int.ediv_le_ediv (c := (unit : Int)) (by omega) le
    simp only [decide_eq_true_eq] at behind ⊢
    omega
  exact List.monotone_filter_right l.slices both

/-- Nothing was created before the moment. -/
theorem since_eq_self (pos : 0 < unit) (all : ∀ s ∈ l.slices, m ≤ s.createdAt.nanos) :
    l.countBefore unit m = 0 ∧ l.since unit m = l := by
  have behind : ∀ s ∈ l.slices, m / unit ≤ s.createdAt.nanos / unit :=
    fun s hs => Int.ediv_le_ediv (by omega) (all s hs)
  constructor
  · rw [countBefore, List.countP_eq_zero]
    intro s hs
    simpa using behind s hs
  · have kept : l.slices.filter (fun s => m / unit ≤ s.createdAt.nanos / unit) = l.slices :=
      List.filter_eq_self.mpr fun s hs => decide_eq_true (behind s hs)
    rw [since, kept]

/-- **The cutoff removes what the moment does**: if they differ, there is nothing before either. -/
theorem before_cutoff (pos : 0 < unit) (clock : now.Dated) (age : Age) (h : l.FourDigits) :
    l.countBefore unit (cutoff now age).nanos = l.countBefore unit (moment now age) ∧
      l.since unit (cutoff now age).nanos = l.since unit (moment now age) := by
  have equal := cutoff_nanos clock age
  have dated : ∀ s ∈ l.slices, Instant.earliest.nanos ≤ s.createdAt.nanos :=
    fun s hs => (h s hs).earliest_le
  -- a cutoff that is not the moment has nothing before it, as the moment has not
  rcases Int.le_total Instant.earliest.nanos (moment now age) with there | early
  · rw [Int.max_eq_right there] at equal
    rw [equal]
    exact ⟨rfl, rfl⟩
  · rw [Int.max_eq_left early] at equal
    rw [equal]
    obtain ⟨none, all⟩ := since_eq_self pos dated
    obtain ⟨none', all'⟩ := since_eq_self pos fun s hs => Int.le_trans early (dated s hs)
    exact ⟨none.trans none'.symm, all.trans all'.symm⟩

theorem FourDigits.step {c : StoreCommand} (h : l.FourDigits) (hc : c.FourDigits) :
    (perform c l).2.FourDigits := by
  cases c with
  | append s now =>
    intro x hx
    rcases List.mem_append.mp hx with hx | hx
    · exact h x hx
    · obtain rfl := List.mem_singleton.mp hx
      exact hc
  | query | latest | history | runs | stats => exact h
  | purge c =>
    intro s hs
    have kept : (perform (.purge c) l).2 = l.since 1 c.nanos := congrArg Prod.snd (purge_eq c)
    rw [kept] at hs
    exact h s (List.mem_of_mem_filter hs)

end Ledger

/-! ## 3. What the stores do -/

section

variable {σ : Type} [MemoryStore σ]

/-- The store after commands, one after another. -/
def after : List StoreCommand → σ → σ
  | [], st => st
  | c :: cs, st => after cs (perform c st).2

theorem after_of_step {I : σ → Prop} {P : StoreCommand → Prop}
    (step : ∀ c st, P c → I st → I (perform c st).2) {cs : List StoreCommand}
    (ok : ∀ c ∈ cs, P c) {st : σ} (h : I st) : I (after cs st) := by
  induction cs generalizing st with
  | nil => exact h
  | cons c cs ih =>
    rw [List.forall_mem_cons] at ok
    exact ih ok.2 (step c st ok.1 h)

/-- The purge of a store that holds the ledger: it says how many slices were created before the
moment, and holds the others as they were, in their order. -/
def Purges (Holds : σ → Ledger → Prop) (unit : Nat) (now : Instant) (age : Age) (l : Ledger)
    (st : σ) : Prop :=
  ∃ st', MemoryStore.purge (cutoff now age) st =
      (.ok (l.countBefore unit (moment now age)), st') ∧
    Holds st' (l.since unit (moment now age))

end

namespace RunTable

variable {t : RunTable} {l : Ledger}

/-- **The store of one process purges to the nanosecond.** -/
theorem Shows.purges (h : t.Shows l) (digits : l.FourDigits) (clock : now.Dated) (age : Age) :
    Purges Shows 1 now age l t := by
  obtain ⟨count, next⟩ := h.purge (cutoff now age)
  obtain ⟨removed, kept⟩ := Ledger.before_cutoff Nat.one_pos clock age digits
  rw [Ledger.purge_eq, removed] at count
  rw [Ledger.purge_eq, kept] at next
  exact ⟨_, Prod.ext (congrArg Except.ok count) rfl, next⟩

/-- Every table that is reached holds a ledger. -/
theorem shows_after {cs : List StoreCommand} (digits : ∀ c ∈ cs, c.FourDigits) :
    ∃ l : Ledger, l.FourDigits ∧ (after cs ({} : RunTable)).Shows l := by
  refine after_of_step (I := fun t : RunTable => ∃ l : Ledger, l.FourDigits ∧ t.Shows l) ?_ digits
    ⟨{}, fun s hs => absurd hs List.not_mem_nil, .empty⟩
  rintro c t hc ⟨l, hl, shown⟩
  exact ⟨_, hl.step hc, (shown.step c).2⟩

end RunTable

namespace RowTable

/-- The table holds the slices of the ledger, written as rows. -/
structure Keeps (t : RowTable) (l : Ledger) : Prop where
  rows : t.rows = l.slices.map Row.ofSlice
  lastId : t.lastId = l.lastId

variable {t : RowTable} {l : Ledger}

/-- A purge decides by the texts. -/
theorem Keeps.purge (h : t.Keeps l) (c : Instant) :
    (t.purge c).1 = l.slices.countP (fun s => Row.timeText s.createdAt < Row.timeText c) ∧
      (t.purge c).2.Keeps { l with
        slices := l.slices.filter fun s => ¬ Row.timeText s.createdAt < Row.timeText c } := by
  have removed : (l.slices.map Row.ofSlice).filter (fun r => r.createdAt < Row.timeText c) =
      (l.slices.filter fun s => Row.timeText s.createdAt < Row.timeText c).map Row.ofSlice :=
    filter_map_congr fun _ _ => rfl
  have kept : (l.slices.map Row.ofSlice).filter (fun r => !decide (r.createdAt < Row.timeText c)) =
      (l.slices.filter fun s => ¬ Row.timeText s.createdAt < Row.timeText c).map Row.ofSlice :=
    filter_map_congr fun s _ => decide_not.symm
  rw [RowTable.purge, List.partition_eq_filter_filter, List.countP_eq_length_filter, h.rows]
  exact ⟨(congrArg List.length removed).trans (List.length_map _), kept, h.lastId⟩

/-- **The durable store purges to the microsecond**, if the cutoff is not behind the year 9999. -/
theorem Keeps.purges (h : t.Keeps l) (digits : l.FourDigits) (clock : now.Dated) {age : Age}
    (year : (cutoff now age).calendar.1 ≤ 9999) : Purges Keeps 1000 now age l t := by
  have text : ∀ s ∈ l.slices, Row.timeText s.createdAt < Row.timeText (cutoff now age) ↔
      s.createdAt.nanos / (1000 : Nat) < (cutoff now age).nanos / (1000 : Nat) :=
    fun s hs => Instant.microsText_lt_iff_micros (digits s hs) year
  have old : l.slices.countP
        (fun s => Row.timeText s.createdAt < Row.timeText (cutoff now age)) =
      l.countBefore 1000 (cutoff now age).nanos :=
    List.countP_congr fun s hs => by simpa using text s hs
  have young : l.slices.filter
        (fun s => ¬ Row.timeText s.createdAt < Row.timeText (cutoff now age)) =
      (l.since 1000 (cutoff now age).nanos).slices :=
    List.filter_congr fun s hs => by rw [decide_eq_decide, text s hs, Int.not_lt]
  obtain ⟨count, next⟩ := h.purge (cutoff now age)
  obtain ⟨removed, kept⟩ := Ledger.before_cutoff (show 0 < 1000 by decide) clock age digits
  rw [old, removed] at count
  have next : (t.purge (cutoff now age)).2.Keeps (l.since 1000 (cutoff now age).nanos) := by
    rw [young] at next
    exact next
  rw [kept] at next
  exact ⟨_, Prod.ext (congrArg Except.ok count) rfl, next⟩

/-- A cutoff behind the year 9999 has a text that comes before all others, and removes nothing. -/
theorem Keeps.purge_late (h : t.Keeps l) (digits : l.FourDigits) {c : Instant}
    (year : 9999 < c.calendar.1) : (t.purge c).1 = 0 ∧ (t.purge c).2.Keeps l := by
  have signed : ¬ c.FourDigits := fun four => Int.not_lt.mpr four.2 year
  have behind : ∀ s ∈ l.slices, ¬ Row.timeText s.createdAt < Row.timeText c :=
    fun s hs lt => String.lt_asymm lt (Instant.microsText_of_signed signed (digits s hs))
  have kept : l.slices.filter (fun s => ¬ Row.timeText s.createdAt < Row.timeText c) = l.slices :=
    List.filter_eq_self.mpr fun s hs => decide_eq_true (behind s hs)
  obtain ⟨count, next⟩ := h.purge c
  rw [kept] at next
  exact ⟨count.trans (List.countP_eq_zero.mpr fun s hs => by simpa using behind s hs), next⟩

/-- Every table that is reached holds a ledger. -/
theorem keeps_after {cs : List StoreCommand} (digits : ∀ c ∈ cs, c.FourDigits) :
    ∃ l : Ledger, l.FourDigits ∧ (after cs ({} : RowTable)).Keeps l := by
  refine after_of_step (I := fun t : RowTable => ∃ l : Ledger, l.FourDigits ∧ t.Keeps l) ?_ digits
    ⟨{}, fun s hs => absurd hs List.not_mem_nil, rfl, rfl⟩
  rintro c t hc ⟨l, hl, keeps⟩
  cases c with
  | append s now =>
    refine ⟨(l.append s now).2, hl.step (c := .append s now) hc, ?_, ?_⟩
    · rw [Ledger.append, List.map_append, ← keeps.rows, ← keeps.lastId]
      rfl
    · exact congrArg (· + 1) keeps.lastId
  | query | latest | history | runs | stats => exact ⟨l, hl, keeps⟩
  | purge c =>
    exact ⟨_, fun s hs => hl s (List.mem_of_mem_filter hs), (keeps.purge c).2⟩

end RowTable

/-! ## 4. All ages -/

/-- **A purge removes what was created before the moment that is as long ago as the age**, says how
much that was, and leaves the rest as it was, in its order: to the nanosecond in the store of one
process, and to the microsecond in the durable one, if its clock too is in a year up to 9999. The
texts of that store have one width and are in the order of the microseconds, also against a cutoff
in a negative year, such as that of the earliest instant. The cutoff is always an instant; where the
moment is none, nothing is removed. A longer age removes no more. Whatever is done with a store, it
holds a ledger. -/
theorem purge_by_age (clock : now.Dated) :
    (∀ (age : Age) (l : Ledger), l.FourDigits →
      (cutoff now age).Dated ∧
      (∀ t : RunTable, t.Shows l → Purges RunTable.Shows 1 now age l t) ∧
      (now.calendar.1 ≤ 9999 →
        ∀ t : RowTable, t.Keeps l → Purges RowTable.Keeps 1000 now age l t) ∧
      ∀ unit, 0 < unit →
        (¬ Instant.Dated ⟨moment now age⟩ →
          l.countBefore unit (moment now age) = 0 ∧ l.since unit (moment now age) = l) ∧
        ∀ longer : Age, age.length ≤ longer.length →
          l.countBefore unit (moment now longer) ≤ l.countBefore unit (moment now age) ∧
          (l.since unit (moment now age)).slices.Sublist
            (l.since unit (moment now longer)).slices) ∧
    (∀ t u : Instant, t.FourDigits → u.calendar.1 ≤ 9999 →
      (Row.timeText t).length = 27 ∧
      (Row.timeText t < Row.timeText u ↔ t.truncated < u.truncated)) ∧
    Instant.earliest.calendar.1 < 0 ∧
    ∀ cs : List StoreCommand, (∀ c ∈ cs, c.FourDigits) →
      (∃ l : Ledger, l.FourDigits ∧ (after cs ({} : RunTable)).Shows l) ∧
      ∃ l : Ledger, l.FourDigits ∧ (after cs ({} : RowTable)).Keeps l := by
  refine ⟨?_, ?_, by decide +kernel,
    fun cs digits => ⟨RunTable.shows_after digits, RowTable.keeps_after digits⟩⟩
  · intro age l digits
    refine ⟨dated_cutoff clock age, fun t h => h.purges digits clock age, ?_, ?_⟩
    · intro year t h
      exact h.purges digits clock (Int.le_trans (Instant.year_mono (cutoff_le clock age)) year)
    · intro unit pos
      refine ⟨fun undated => ?_, fun longer le => ?_⟩
      · refine Ledger.since_eq_self pos fun s hs => ?_
        have low := (digits s hs).earliest_le
        have high : now.nanos ≤ Instant.latest.nanos := (Instant.dated_iff.mp clock).2
        have beyond : ¬ (Instant.earliest.nanos ≤ moment now age ∧
            moment now age ≤ Instant.latest.nanos) := fun h => undated (Instant.dated_iff.mpr h)
        rw [moment] at beyond ⊢
        omega
      · have earlier : moment now longer ≤ moment now age := moment_le le
        exact ⟨Ledger.countBefore_mono earlier pos, Ledger.since_sublist earlier pos⟩
  · intro t u digits year
    refine ⟨digits.length_microsText, (Instant.microsText_lt_iff_micros digits year).trans ?_⟩
    change _ ↔ t.nanos / 1000 * 1000 < u.nanos / 1000 * 1000
    omega

/-- Three slices, of which two share a microsecond with the moment or lie before it. -/
def agedCommands : List StoreCommand :=
  [.append (note []) ⟨0⟩, .append (note []) ⟨1200⟩, .append (note []) ⟨2000⟩]

/-- What is in the microsecond of the moment, but before it, is removed by one store only. -/
theorem purge_by_age_between : Instant.Dated ⟨3000⟩ ∧ ∃ t u,
    MemoryStore.purge (cutoff ⟨3000⟩ ⟨0, 1500⟩) (after agedCommands ({} : RunTable)) = (.ok 2, t) ∧
    MemoryStore.purge (cutoff ⟨3000⟩ ⟨0, 1500⟩) (after agedCommands ({} : RowTable)) =
      (.ok 1, u) := by
  have clock : Instant.Dated ⟨3000⟩ := by decide +kernel
  have digits : (after agedCommands ({} : Ledger)).FourDigits := by
    have days : Instant.FourDigits ⟨0⟩ ∧ Instant.FourDigits ⟨1200⟩ ∧ Instant.FourDigits ⟨2000⟩ := by
      decide +kernel
    rintro s (_ | ⟨_, _ | ⟨_, _ | ⟨_, h⟩⟩⟩)
    · exact days.1
    · exact days.2.1
    · exact days.2.2
    · cases h
  have shown : (after agedCommands ({} : RunTable)).Shows (after agedCommands {}) :=
    (((RunTable.Shows.empty.append _ _).2.append _ _).2.append _ _).2
  have keeps : (after agedCommands ({} : RowTable)).Keeps (after agedCommands {}) := ⟨rfl, rfl⟩
  obtain ⟨-, nanos, micros, -⟩ := (purge_by_age clock).1 ⟨0, 1500⟩ _ digits
  obtain ⟨t, purged, -⟩ := nanos _ shown
  obtain ⟨u, purged', -⟩ := micros (by decide +kernel) _ keeps
  exact ⟨clock, t, u, purged, purged'⟩

end Memory
end Runbook
