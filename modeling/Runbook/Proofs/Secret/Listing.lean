import Runbook.Proofs.Secret.Vault
import Runbook.Secret.Chain

/-!
# What a chain of keepers lists and what it answers

A lookup takes the first keeper that has the secret, and a listing the first one that has it and
shows it. The environment shows only the keys of model providers of all that it has. So a secret
that is listed is also found, but not always where it is listed: another variable of the environment
covers a secret of the vault without being shown.
-/

set_option autoImplicit false

namespace Runbook

/-! ## 1. Any chain -/

namespace Secret.Chain

theorem mem_unseen {seen : List String} {es : List SecretEntry} {e : SecretEntry} :
    e ∈ unseen seen es ↔ e.key ∉ seen ∧ es.find? (fun e' => e'.key = e.key) = some e := by
  induction es generalizing seen with
  | nil => simp [unseen]
  | cons first es ih =>
    rw [unseen, List.find?_cons]
    by_cases old : first.key ∈ seen
    · rw [if_pos (List.contains_iff_mem.mpr old), ih]
      refine and_congr_right fun new => ?_
      have other : first.key ≠ e.key := fun same => new (same ▸ old)
      simp [other]
    · rw [if_neg (mt List.contains_iff_mem.mp old), List.mem_cons, ih, List.mem_cons]
      by_cases same : first.key = e.key
      · have new : e = first → e.key ∉ seen := fun eq => eq ▸ old
        simpa [same, eq_comm] using new
      · have other : e ≠ first := fun eq => same (eq ▸ rfl)
        simp [same, Ne.symm same, other]

theorem nodup_unseen (seen : List String) (es : List SecretEntry) :
    ((unseen seen es).map SecretEntry.key).Nodup := by
  induction es generalizing seen with
  | nil => exact List.nodup_nil
  | cons first es ih =>
    rw [unseen]
    split
    · exact ih seen
    · refine List.nodup_cons.mpr ⟨?_, ih (first.key :: seen)⟩
      intro again
      obtain ⟨e, there, same⟩ := List.mem_map.mp again
      exact (mem_unseen.mp there).1 (same ▸ List.mem_cons_self)

variable {σ : Type} [SecretKeeper σ] {key : String}

/-- The keeper has a value for the name. -/
def answers (key : String) (k : σ) : Bool :=
  match SecretKeeper.get key k with
  | .ok (some _) => true
  | _ => false

theorem answers_iff {k : σ} :
    answers key k = true ↔ ∃ value, SecretKeeper.get key k = .ok (some value) := by
  rw [answers]
  split
  · next value h => simp [h]
  · next none => simpa using fun value h => none value h

/-- The keeper whose value a lookup gives. -/
def holder? (key : String) (ks : List σ) : Option σ := ks.find? (answers key)

theorem get?_eq_some_iff {ks : List σ} {value : String} :
    get? key ks = some value ↔
      ∃ k, holder? key ks = some k ∧ SecretKeeper.get key k = .ok (some value) := by
  induction ks with
  | nil => simp [get?, holder?]
  | cons k ks ih =>
    rw [get?, holder?, List.find?_cons]
    split
    · next v h => simp [answers, h]
    · next none =>
      have silent : answers key k = false := by
        rw [Bool.eq_false_iff, ne_eq, answers_iff]
        exact fun ⟨v, h⟩ => none v h
      rw [silent]
      exact ih

/-- The entries that a keeper lists, none if it fails. -/
def listed (k : σ) : List SecretEntry := ((SecretKeeper.list k).toOption).getD []

end Secret.Chain

/-! ## 2. Keepers of the usual kinds -/

namespace Keeper

open Secret Chain

def source : Keeper → SecretSource
  | .environment _ => .environment
  | .vault _ => .vault

/-- The keeper lists the name if it has it. -/
def shows (key : String) : Keeper → Bool
  | .environment _ => (Provider.all.map Provider.keyName).contains key
  | .vault _ => true

theorem answers_environment (key : String) (e : Environment) :
    answers key (environment e) = (e.get? key).isSome := by
  simp only [answers, SecretKeeper.get]
  cases e.get? key <;> rfl

theorem mem_listed_environment {e : Environment} {entry : SecretEntry} :
    entry ∈ listed (environment e) ↔
      ((e.get? entry.key).isSome = true ∧ entry.key ∈ Provider.all.map Provider.keyName) ∧
        entry.source = .environment := by
  obtain ⟨key, source⟩ := entry
  simp only [listed, SecretKeeper.list, Except.toOption, Option.getD_some, Environment.providerKeys,
    List.mem_map, List.mem_filter, SecretEntry.mk.injEq]
  constructor
  · rintro ⟨name, ⟨provider, some⟩, rfl, rfl⟩
    exact ⟨⟨some, provider⟩, rfl⟩
  · rintro ⟨⟨some, provider⟩, rfl⟩
    exact ⟨key, ⟨provider, some⟩, rfl, rfl⟩

theorem answers_vault {v : Vault} {secrets : Fields String} (loaded : v.load = .ok secrets)
    (key : String) : answers key (vault v) = Fields.has key secrets := by
  simp only [answers, SecretKeeper.get, loaded, Except.map, Fields.has]
  cases Fields.get? key secrets <;> rfl

theorem mem_listed_vault {v : Vault} {entry : SecretEntry} :
    entry ∈ listed (vault v) ↔ answers entry.key (vault v) = true ∧ entry.source = .vault := by
  obtain ⟨key, source⟩ := entry
  cases loaded : v.load with
  | error e => simp [listed, answers, SecretKeeper.list, SecretKeeper.get, loaded, Except.map,
      Except.toOption]
  | ok secrets =>
    rw [answers_vault loaded, Fields.has, Fields.get?_isSome_iff]
    simp only [listed, SecretKeeper.list, loaded, Except.map, Except.toOption, Option.getD_some,
      List.mem_map, SecretEntry.mk.injEq]
    constructor
    · rintro ⟨name, there, rfl, rfl⟩
      exact ⟨there, rfl⟩
    · rintro ⟨there, rfl⟩
      exact ⟨key, there, rfl, rfl⟩

theorem mem_listed {k : Keeper} {entry : SecretEntry} :
    entry ∈ listed k ↔
      (answers entry.key k && k.shows entry.key) = true ∧ entry.source = k.source := by
  rw [Bool.and_eq_true]
  cases k with
  | environment e =>
    rw [mem_listed_environment, answers_environment, shows, List.contains_iff_mem, Keeper.source]
  | vault v => rw [mem_listed_vault, shows, and_iff_left rfl, Keeper.source]

/-- The keeper from which a listing takes a name. -/
def lister? (key : String) (ks : List Keeper) : Option Keeper :=
  ks.find? fun k => answers key k && k.shows key

/-- A keeper lists at most one entry of a name that counts. -/
theorem find?_listed (key : String) (k : Keeper) :
    (listed k).find? (fun e => e.key = key) =
      if (answers key k && k.shows key) = true then some ⟨key, k.source⟩ else none := by
  cases h : (listed k).find? fun e => e.key = key with
  | some e =>
    obtain rfl : e.key = key := by simpa using List.find?_some h
    obtain ⟨here, source⟩ := mem_listed.mp (List.mem_of_find?_eq_some h)
    rw [if_pos here, ← source]
  | none =>
    rw [if_neg]
    intro here
    have there : (⟨key, k.source⟩ : SecretEntry) ∈ listed k := mem_listed.mpr ⟨here, rfl⟩
    simpa using List.find?_eq_none.mp h _ there

/-- An entry is listed if it says from where the listing takes its name. -/
theorem mem_list {ks : List Keeper} {entry : SecretEntry} :
    entry ∈ Chain.list ks ↔ ∃ k, lister? entry.key ks = some k ∧ entry.source = k.source := by
  rw [Chain.list, mem_unseen]
  simp only [List.not_mem_nil, not_false_eq_true, true_and]
  induction ks with
  | nil => simp [lister?]
  | cons k ks ih =>
    rw [List.flatMap_cons, List.find?_append, ← listed, find?_listed, lister?, List.find?_cons]
    split
    · next here =>
      obtain ⟨key, source⟩ := entry
      simp [here, eq_comm]
    · next absent =>
      rw [Bool.eq_false_iff.mpr absent, Option.none_or]
      exact ih

/-! ## 3. The usual chain -/

/-- The environment has the name, though it does not list it. -/
def Covered (env : Option Environment) (key : String) : Prop :=
  key ∉ Provider.all.map Provider.keyName ∧ ∃ e, env = some e ∧ (e.get? key).isSome = true

variable {env : Option Environment} {vault : Option Vault} {key : String}

theorem covered_some {e : Environment} :
    Covered (some e) key ↔
      answers key (environment e) = true ∧ (environment e).shows key = false := by
  rw [Covered, answers_environment, shows, ← Bool.not_eq_true, List.contains_iff_mem, and_comm]
  simp

/-- A vault lists all that it has. -/
theorem lister?_vault (key : String) (vault : Option Vault) :
    lister? key (vault.map Keeper.vault).toList = holder? key (vault.map Keeper.vault).toList := by
  simp only [lister?, holder?]
  cases vault with
  | none => rfl
  | some v => simp only [Option.map_some, Option.toList_some, List.find?_singleton, shows,
      Bool.and_true]

/-- A name that is listed is found: where it is listed if it is not covered, and otherwise in the
environment, though it is listed in the vault. -/
theorem holder?_of_lister? {k : Keeper} (h : lister? key (chain env vault) = some k) :
    ∃ keeper, holder? key (chain env vault) = some keeper ∧
      (¬ Covered env key → keeper = k) ∧
      (Covered env key → keeper.source = .environment ∧ k.source = .vault) := by
  cases env with
  | none =>
    have uncovered : ¬ Covered none key := by simp [Covered]
    refine ⟨k, (lister?_vault key vault).symm.trans h, fun _ => rfl, fun cover => ?_⟩
    exact absurd cover uncovered
  | some e =>
    have there : chain (some e) vault = environment e :: (vault.map Keeper.vault).toList := rfl
    rw [there, lister?, List.find?_cons] at h
    rw [there, holder?, List.find?_cons, covered_some]
    cases answered : answers key (environment e) with
    | false =>
      -- the environment has no say, so all is left to the vault
      rw [answered, Bool.false_and] at h
      refine ⟨k, (lister?_vault key vault).symm.trans h, fun _ => rfl, fun cover => ?_⟩
      exact absurd cover.1 Bool.false_ne_true
    | true =>
      refine ⟨environment e, rfl, fun uncovered => ?_, fun cover => ⟨rfl, ?_⟩⟩
      · have shown : (environment e).shows key = true :=
          (Bool.not_eq_false _).mp fun hidden => uncovered ⟨rfl, hidden⟩
        rw [answered, shown] at h
        exact Option.some.inj h
      · rw [answered, cover.2] at h
        cases vault with
        | none => cases h
        | some v =>
          have same : k = Keeper.vault v := List.mem_singleton.mp (List.mem_of_find?_eq_some h)
          exact same ▸ rfl

/-- **Whatever the environment and the vault hold**, each name is listed once, each listed name is
found, and it is found where it is listed unless a variable of the environment covers it. -/
theorem listed_and_found (env : Option Environment) (vault : Option Vault) :
    ((Chain.list (chain env vault)).map SecretEntry.key).Nodup ∧
      ∀ entry ∈ Chain.list (chain env vault), ∃ keeper value,
        Chain.get? entry.key (chain env vault) = some value ∧
          holder? entry.key (chain env vault) = some keeper ∧
          SecretKeeper.get entry.key keeper = .ok (some value) ∧
          (¬ Covered env entry.key → keeper.source = entry.source) ∧
          (Covered env entry.key → keeper.source = .environment ∧ entry.source = .vault) := by
  refine ⟨nodup_unseen [] _, fun entry there => ?_⟩
  obtain ⟨k, taken, source⟩ := mem_list.mp there
  obtain ⟨keeper, held, apart, covered⟩ := holder?_of_lister? taken
  obtain ⟨value, answer⟩ := answers_iff.mp (List.find?_some held)
  refine ⟨keeper, value, get?_eq_some_iff.mpr ⟨keeper, held, answer⟩, held, answer, ?_, ?_⟩
  · exact fun open_ => (congrArg Keeper.source (apart open_)).trans source.symm
  · exact fun cover => source ▸ covered cover

/-- The contents of a vault that was written once. -/
def noted : Contents := Finmap.insert "MY_KEY" "from-vault" ∅

/-- A vault that was written once. -/
def notedVault : Vault := (Vault.perform (.set "MY_KEY" "from-vault") .unwritten).2

theorem notedVault_holds : notedVault.Holds noted :=
  ((Vault.holds_opened Vault.unwritten_missing _ _).perform (.set "MY_KEY" "from-vault")).2

theorem noted_listed {e : Environment}
    (unlisted : (answers "MY_KEY" (environment e) && (environment e).shows "MY_KEY") = false) :
    ⟨"MY_KEY", .vault⟩ ∈ Chain.list (chain (some e) (some notedVault)) := by
  refine mem_list.mpr ⟨Keeper.vault notedVault, ?_, rfl⟩
  have answered : answers "MY_KEY" (Keeper.vault notedVault) = true :=
    answers_iff.mpr ⟨"from-vault", notedVault_holds.get "MY_KEY"⟩
  change lister? "MY_KEY" [environment e, Keeper.vault notedVault] = _
  rw [lister?, List.find?_cons, unlisted, List.find?_cons, answered]
  rfl

/-- With the key of a provider in the environment beside it, the secret of the vault is listed and
found in the vault. -/
theorem listed_and_found_apart :
    let keepers := chain (some ⟨[("OPENAI_API_KEY", "from-env")]⟩) (some notedVault)
    ⟨"MY_KEY", .vault⟩ ∈ Chain.list keepers ∧
      ∃ keeper, holder? "MY_KEY" keepers = some keeper ∧ keeper.source = .vault := by
  intro keepers
  have silent : answers "MY_KEY" (environment ⟨[("OPENAI_API_KEY", "from-env")]⟩) = false := by
    decide
  have there : ⟨"MY_KEY", .vault⟩ ∈ Chain.list keepers :=
    noted_listed (by rw [silent, Bool.false_and])
  obtain ⟨keeper, -, -, held, -, apart, -⟩ := (listed_and_found _ _).2 _ there
  refine ⟨there, keeper, held, apart fun cover => ?_⟩
  exact absurd (covered_some.mp cover).1 (silent ▸ Bool.false_ne_true)

/-- **A secret may be listed elsewhere than it is found**: with a variable of its name in the
environment, the secret of the vault is listed in the vault and found in the environment, with
another value. -/
theorem listed_in_vault_found_in_environment :
    let env : Environment := ⟨[("MY_KEY", "from-env")]⟩
    let keepers := chain (some env) (some notedVault)
    ⟨"MY_KEY", .vault⟩ ∈ Chain.list keepers ∧
      holder? "MY_KEY" keepers = some (environment env) ∧
      Chain.get? "MY_KEY" keepers = some "from-env" ∧
      SecretKeeper.get "MY_KEY" notedVault = .ok (some "from-vault") :=
  ⟨noted_listed (by decide), rfl, rfl, notedVault_holds.get "MY_KEY"⟩

end Keeper
end Runbook
