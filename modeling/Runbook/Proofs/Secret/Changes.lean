import Mathlib.Data.List.Forall2
import Runbook.Proofs.Secret.Vault
import Runbook.Rehearsal.Keeper
import Runbook.Secret.Chain

/-!
# Changes in a chain of keepers

A secret is written to one keeper of a chain, and deleted from all of them. Writing stops at the
first keeper that is not read-only, so a failure to write has changed nothing. Deleting goes on until
a keeper fails, and what was deleted in front of that one stays deleted: only if nothing was found
anywhere is a failure sure to have changed nothing.

This is said of keepers that account for what they keep (`AccountableKeeper`): a request that fails
leaves them as they were, and one that succeeds changes a single name. The environment and vaults are
such keepers, and so are those that follow a script.
-/

set_option autoImplicit false

namespace Runbook

/-! ## 1. Keepers that account for their secrets -/

/-- The keepers of a kind do what they say, as long as they are sound: a request that fails changes
nothing, and one that succeeds changes what is kept under one name. -/
class AccountableKeeper (σ : Type) [SecretKeeper σ] where
  Sound : σ → Prop
  /-- The secret under a name, whether or not the keeper can be asked for it. -/
  held : σ → String → Option String
  get_ok {key : String} {k : σ} {v : Option String} (h : SecretKeeper.get key k = .ok v) :
    held k key = v
  set_ok {key value : String} {k k' : σ} (sound : Sound k)
    (h : SecretKeeper.set key value k = (.ok (), k')) :
    Sound k' ∧ SecretKeeper.get key k' = .ok (some value) ∧
      ∀ name, held k' name = if name = key then some value else held k name
  set_error {key value : String} {k k' : σ} {e : SecretError}
    (h : SecretKeeper.set key value k = (.error e, k')) : k' = k
  delete_ok {key : String} {k k' : σ} (sound : Sound k)
    (h : SecretKeeper.delete key k = (.ok (), k')) :
    Sound k' ∧ ∀ name, held k' name = if name = key then none else held k name
  delete_error {key : String} {k k' : σ} {e : SecretError}
    (h : SecretKeeper.delete key k = (.error e, k')) : k' = k
  /-- What is said not to be there is not there. -/
  delete_missing {key : String} {k k' : σ} (sound : Sound k)
    (h : SecretKeeper.delete key k = (.error .notFound, k')) : held k key = none

/-- Under this name is now kept this, and under the others what was kept there before. -/
def Becomes {σ : Type} [SecretKeeper σ] [AccountableKeeper σ] (key : String) (v : Option String)
    (k k' : σ) : Prop :=
  ∀ name, AccountableKeeper.held k' name =
    if name = key then v else AccountableKeeper.held k name

namespace Fields

theorem sorted_inOrder {α : Type} (fs : Fields α) : (sorted fs).InOrder := by
  have blank : (names ([] : Fields α)).Nodup := List.nodup_nil
  have distinct : (ofWrites fs).names.Nodup := nodup_names_extend blank fs
  have same : sorted (ofWrites fs) = sorted fs := by
    rw [sorted, ofWrites_of_nodup distinct, sorted]
  exact same ▸ inOrder_sorted distinct

theorem get?_sorted_put {α : Type} {fs : Fields α} (distinct : fs.names.Nodup) (key name : String)
    (value : α) : get? name (sorted (put key value fs)) =
      if name = key then some value else get? name fs := by
  rw [get?_sorted (nodup_names_put distinct key value)]
  split
  · next same => rw [same, get?_put_self]
  · next other => rw [get?_put_of_ne _ _ (Ne.symm other)]

end Fields

/-! ## 2. The environment and vaults -/

instance : AccountableKeeper Environment where
  Sound _ := True
  held e := e.get?
  get_ok h := Except.ok.inj h
  set_ok _ h := by cases h
  set_error h := (Prod.mk.inj h).2.symm
  delete_ok _ h := by cases h
  delete_error h := (Prod.mk.inj h).2.symm
  delete_missing _ h := by cases h

namespace Vault

variable {v : Vault} {secrets : Fields String} {e : SecretError}

theorem inOrder_of_secretsOf {c : Cipher} {s : String} (h : secretsOf c s = .ok secrets) :
    secrets.InOrder := by
  rw [secretsOf] at h
  split at h
  · cases h
    exact List.Pairwise.nil
  · split at h
    · cases h
    · split at h
      · cases h
      · rw [decodeSecrets] at h
        split at h
        · cases h
        · split at h
          · cases h
            exact Fields.sorted_inOrder _
          · cases h

/-- What is read of a vault is in order, whatever wrote it. -/
theorem inOrder_of_load (h : v.load = .ok secrets) : secrets.InOrder := by
  rw [load] at h
  split at h
  · exact inOrder_of_secretsOf h
  · cases h
    exact List.Pairwise.nil
  · cases h

/-- A vault that cannot be read does not say that something is missing from it. -/
theorem ne_notFound_of_load (h : v.load = .error e) : e ≠ .notFound := by
  rintro rfl
  rw [load] at h
  split at h
  · rw [secretsOf] at h
    split at h
    · cases h
    · split at h
      · cases h
      · split at h
        · cases h
        · rw [decodeSecrets] at h
          split at h
          · cases h
          · split at h <;> cases h
  · cases h
  · cases h

/-- The secrets that can be read of the vault. -/
def secret? (v : Vault) (key : String) : Option String :=
  match v.load with
  | .ok secrets => Fields.get? key secrets
  | .error _ => none

theorem secret?_of_load (h : v.load = .ok secrets) (key : String) :
    v.secret? key = Fields.get? key secrets := by
  rw [secret?, h]

/-- The vault can read what it writes. -/
def Sound (v : Vault) : Prop :=
  v.cipher.Inverts ∧ ∀ n, (v.nonces n).size = Cipher.nonceSize

theorem Sound.store (h : v.Sound) (secrets : Fields String) : (v.store secrets).2.Sound := by
  obtain ⟨cipher, nonces⟩ := store_keeps v secrets
  exact ⟨cipher ▸ h.1, nonces ▸ h.2⟩

instance : AccountableKeeper Vault where
  Sound := Sound
  held := secret?
  get_ok {key v value} h := by
    cases loaded : v.load with
    | error e => simp [SecretKeeper.get, loaded, Except.map] at h
    | ok secrets =>
      simp only [SecretKeeper.get, loaded, Except.map, Except.ok.injEq] at h
      rw [secret?_of_load loaded, h]
  set_ok {key value v v'} sound h := by
    cases loaded : v.load with
    | error e => simp [SecretKeeper.set, loaded] at h
    | ok secrets =>
      simp only [SecretKeeper.set, loaded] at h
      have ordered := Fields.sorted_inOrder (Fields.put key value secrets)
      have kept := sound.store (Fields.sorted (Fields.put key value secrets))
      have again := (load_store sound.1 sound.2 loaded ordered).2
      rw [h] at kept again
      have put : ∀ name, Fields.get? name (Fields.sorted (Fields.put key value secrets)) =
          if name = key then some value else Fields.get? name secrets :=
        fun name => Fields.get?_sorted_put (inOrder_of_load loaded).nodup key name value
      refine ⟨kept, ?_, fun name => ?_⟩
      · simp only [SecretKeeper.get, again, Except.map, put, if_pos]
      · rw [secret?_of_load again, secret?_of_load loaded, put]
  set_error {key value v v' e} h := by
    have failed : (SecretKeeper.set key value v).1 = .error e := by rw [h]
    have kept := set_error failed
    rwa [h] at kept
  delete_ok {key v v'} sound h := by
    cases loaded : v.load with
    | error e => simp [SecretKeeper.delete, loaded] at h
    | ok secrets =>
      simp only [SecretKeeper.delete, loaded] at h
      split at h
      · have ordered : (without key secrets).InOrder :=
          List.Pairwise.sublist (List.filter_sublist.map _) (inOrder_of_load loaded)
        have kept := sound.store (without key secrets)
        have again := (load_store sound.1 sound.2 loaded ordered).2
        rw [h] at kept again
        refine ⟨kept, fun name => ?_⟩
        rw [secret?_of_load again, secret?_of_load loaded, get?_without]
      · cases h
  delete_error {key v v' e} h := by
    have failed : (SecretKeeper.delete key v).1 = .error e := by rw [h]
    have kept := delete_error failed
    rwa [h] at kept
  delete_missing {key v v'} _ h := by
    cases loaded : v.load with
    | error e =>
      simp only [SecretKeeper.delete, loaded, Prod.mk.injEq, Except.error.injEq] at h
      exact absurd h.1 (ne_notFound_of_load loaded)
    | ok secrets =>
      simp only [SecretKeeper.delete, loaded] at h
      split at h
      · rw [store] at h
        split at h <;> cases h
      · next missing =>
        rw [secret?_of_load loaded]
        simpa [Fields.has] using missing

end Vault

/-- The keepers of the usual chain. -/
instance : AccountableKeeper Keeper where
  Sound
    | .environment _ => True
    | .vault v => v.Sound
  held
    | .environment e => AccountableKeeper.held e
    | .vault v => AccountableKeeper.held v
  get_ok {key k v} h := by
    cases k with
    | environment e => exact AccountableKeeper.get_ok (k := e) h
    | vault v => exact AccountableKeeper.get_ok (k := v) h
  set_ok {key value k k'} sound h := by
    cases k with
    | environment e => cases h
    | vault v =>
      obtain ⟨done, rfl⟩ := Prod.mk.inj h
      exact AccountableKeeper.set_ok (k := v) sound (Prod.ext done rfl)
  set_error {key value k k' e} h := by
    obtain ⟨failed, rfl⟩ := Prod.mk.inj h
    cases k with
    | environment e => rfl
    | vault v => exact congrArg Keeper.vault (AccountableKeeper.set_error (Prod.ext failed rfl))
  delete_ok {key k k'} sound h := by
    cases k with
    | environment e => cases h
    | vault v =>
      obtain ⟨done, rfl⟩ := Prod.mk.inj h
      exact AccountableKeeper.delete_ok (k := v) sound (Prod.ext done rfl)
  delete_error {key k k' e} h := by
    obtain ⟨failed, rfl⟩ := Prod.mk.inj h
    cases k with
    | environment e => rfl
    | vault v => exact congrArg Keeper.vault (AccountableKeeper.delete_error (Prod.ext failed rfl))
  delete_missing {key k k'} sound h := by
    cases k with
    | environment e => cases h
    | vault v => exact AccountableKeeper.delete_missing (k := v) sound (Prod.ext (Prod.mk.inj h).1 rfl)

/-! ## 3. Keepers that follow a script -/

namespace Rehearsal.Keeper

variable {k k' : Keeper} {f : Fields String → Except SecretError (Fields String)} {e : SecretError}

theorem change_ok (h : k.change f = (.ok (), k')) :
    k.failure = none ∧ k.isReadOnly = false ∧
      ∃ secrets, f k.secrets = .ok secrets ∧ k' = { k with secrets } := by
  rw [change, unlessFailing] at h
  cases failure : k.failure with
  | some e =>
    rw [failure] at h
    cases h
  | none =>
    cases locked : k.isReadOnly with
    | true =>
      simp only [failure, locked] at h
      cases h
    | false =>
      cases changed : f k.secrets with
      | error e =>
        simp only [failure, locked, changed] at h
        cases h
      | ok secrets =>
        simp only [failure, locked, changed] at h
        cases h
        exact ⟨rfl, rfl, secrets, rfl, rfl⟩

theorem change_error (h : k.change f = (.error e, k')) :
    k' = k ∧ (k.failure = some e ∨ e = .readOnly ∨ f k.secrets = .error e) := by
  rw [change, unlessFailing] at h
  cases failure : k.failure with
  | some e =>
    rw [failure] at h
    cases h
    exact ⟨rfl, .inl rfl⟩
  | none =>
    cases locked : k.isReadOnly with
    | true =>
      simp only [failure, locked] at h
      cases h
      exact ⟨rfl, .inr (.inl rfl)⟩
    | false =>
      cases changed : f k.secrets with
      | error e =>
        simp only [failure, locked, changed] at h
        cases h
        exact ⟨rfl, .inr (.inr rfl)⟩
      | ok secrets =>
        simp only [failure, locked, changed] at h
        cases h

/-- Names are distinct, and no failure is taken for a secret that is not there. -/
def Sound (k : Keeper) : Prop := k.secrets.names.Nodup ∧ k.failure ≠ some .notFound

/-- A script asks for sound keepers only. -/
theorem sound_ofJson (script : Json) : (ofJson script).Sound := by
  refine ⟨(Fields.sorted_inOrder _).nodup, fun failure => ?_⟩
  obtain ⟨name, -, named⟩ := Option.bind_eq_some_iff.mp failure
  unfold failureOf at named
  split at named <;> cases named

instance : AccountableKeeper Keeper where
  Sound := Sound
  held k name := Fields.get? name k.secrets
  get_ok {key k v} h := by
    simp only [SecretKeeper.get, unlessFailing] at h
    split at h
    · cases h
    · exact Except.ok.inj h
  set_ok {key value k k'} sound h := by
    obtain ⟨working, -, secrets, put, rfl⟩ := change_ok h
    cases put
    have found : ∀ name, Fields.get? name (Fields.sorted (Fields.put key value k.secrets)) =
        if name = key then some value else Fields.get? name k.secrets :=
      fun name => Fields.get?_sorted_put sound.1 key name value
    refine ⟨⟨(Fields.sorted_inOrder _).nodup, sound.2⟩, ?_, found⟩
    simp only [SecretKeeper.get, unlessFailing, working, found, if_pos]
  set_error h := (change_error h).1
  delete_ok {key k k'} sound h := by
    obtain ⟨-, -, secrets, removed, rfl⟩ := change_ok h
    split at removed
    · cases removed
      exact ⟨⟨sound.1.sublist (List.filter_sublist.map _), sound.2⟩,
        fun name => Vault.get?_without key name k.secrets⟩
    · cases removed
  delete_error h := (change_error h).1
  delete_missing {key k k'} sound h := by
    rcases (change_error h).2 with failing | locked | missing
    · exact absurd failing sound.2
    · cases locked
    · split at missing
      · cases missing
      · next absent => simpa [Fields.has] using absent

end Rehearsal.Keeper

/-! ## 4. Chains -/

namespace Secret.Chain

open AccountableKeeper

variable {σ : Type} [SecretKeeper σ] {ks ks' front back : List σ} {key value : String}

theorem get?_append (key : String) (front back : List σ) :
    get? key (front ++ back) = (get? key front).or (get? key back) := by
  induction front with
  | nil => rfl
  | cons k front ih =>
    rw [List.cons_append, get?, get?]
    split
    · rfl
    · exact ih

theorem get?_eq_none (h : ∀ k ∈ front, ∀ v, SecretKeeper.get key k ≠ .ok (some v)) :
    get? key front = none := by
  induction front with
  | nil => rfl
  | cons k front ih =>
    rw [List.forall_mem_cons] at h
    rw [get?]
    split
    · next v found => exact absurd found (h.1 v)
    · exact ih h.2

/-- A deletion succeeds if some keeper deletes, and none fails. -/
theorem deleteFrom_ok_iff {found : Bool} :
    (deleteFrom key found ks).1 = .ok () ↔
      (∀ k ∈ ks, ∀ e, (SecretKeeper.delete key k).1 = .error e → e = .notFound ∨ e = .readOnly) ∧
        (found = true ∨ ∃ k ∈ ks, (SecretKeeper.delete key k).1 = .ok ()) := by
  induction ks generalizing found with
  | nil => cases found <;> simp [deleteFrom]
  | cons k ks ih =>
    rw [deleteFrom]
    split
    · next done => simp [ih, done]
    · next missing => simp [ih, missing]
    · next locked => simp [ih, locked]
    · next e k' present writable failed =>
      have fails : ¬ (e = .notFound ∨ e = .readOnly) := by
        rintro (rfl | rfl)
        · exact present rfl
        · exact writable rfl
      simp [failed, fails]

variable [AccountableKeeper σ]

/-- Writing fails without a change, or changes the first keeper that is not read-only. -/
theorem set_cases (key value : String) (ks : List σ) :
    (∃ e, set key value ks = (.error e, ks)) ∨
      ∃ front k k' back, ks = front ++ k :: back ∧
        (∀ x ∈ front, (SecretKeeper.set key value x).1 = .error .readOnly) ∧
        SecretKeeper.set key value k = (.ok (), k') ∧
        set key value ks = (.ok (), front ++ k' :: back) := by
  induction ks with
  | nil => exact .inl ⟨_, rfl⟩
  | cons k ks ih =>
    rw [set]
    split
    · next k' locked =>
      obtain rfl := set_error locked
      rcases ih with ⟨e, failed⟩ | ⟨front, x, x', back, rfl, locked', done, written⟩
      · exact .inl ⟨e, by rw [failed]⟩
      · refine .inr ⟨k' :: front, x, x', back, rfl, List.forall_mem_cons.mpr ⟨?_, locked'⟩, done, ?_⟩
        · rw [locked]
        · rw [written]
          rfl
    · next r k' _ answered =>
      cases r with
      | error e =>
        obtain rfl := set_error answered
        exact .inl ⟨e, rfl⟩
      | ok u => exact .inr ⟨[], k, k', ks, rfl, by simp, answered, rfl⟩

/-- Keepers that are read-only are passed over, and the first other one is written to. -/
theorem set_of_first {k k' : σ}
    (locked : ∀ x ∈ front, (SecretKeeper.set key value x).1 = .error .readOnly)
    (done : SecretKeeper.set key value k = (.ok (), k')) :
    set key value (front ++ k :: back) = (.ok (), front ++ k' :: back) := by
  induction front with
  | nil => rw [List.nil_append, set, done, List.nil_append]
  | cons x front ih =>
    obtain ⟨refused, others⟩ := List.forall_mem_cons.mp locked
    have kept : SecretKeeper.set key value x = (.error .readOnly, x) :=
      Prod.ext refused (set_error (Prod.ext refused rfl))
    rw [List.cons_append, set, kept, ih others, List.cons_append]

/-- The keeper is read-only and as it was, or does not keep anything under the name any more, and
keeps all else. -/
inductive Cleared (key : String) (k k' : σ) : Prop where
  | locked (refused : (SecretKeeper.delete key k).1 = .error .readOnly) (same : k' = k)
  | gone (accepts : (SecretKeeper.delete key k).1 ≠ .error .readOnly)
      (only : Becomes key none k k')

/-- One keeper of a chain is passed, with or without a deletion, or it fails and ends the attempt. -/
theorem deleteFrom_cons {k : σ} (sound : Sound k) (key : String) (found : Bool) (ks : List σ) :
    (∃ k' found', Cleared key k k' ∧ (found' = true ∨ found' = found ∧ k' = k) ∧
      deleteFrom key found (k :: ks) =
        ((deleteFrom key found' ks).1, k' :: (deleteFrom key found' ks).2)) ∨
    ∃ e, e ≠ .notFound ∧ (SecretKeeper.delete key k).1 = .error e ∧
      deleteFrom key found (k :: ks) = (.error e, k :: ks) := by
  rw [deleteFrom]
  split
  · next k' done =>
    refine .inl ⟨k', true, .gone (by simp [done]) (delete_ok sound done).2, .inl rfl, rfl⟩
  · next k' missing =>
    obtain rfl := delete_error missing
    refine .inl ⟨k', found, .gone (by simp [missing]) fun name => ?_, .inr ⟨rfl, rfl⟩, rfl⟩
    split
    · next same => rw [same, delete_missing sound missing]
    · rfl
  · next k' locked =>
    obtain rfl := delete_error locked
    exact .inl ⟨k', found, .locked (by rw [locked]) rfl, .inr ⟨rfl, rfl⟩, rfl⟩
  · next e k' present _ failed =>
    obtain rfl := delete_error failed
    exact .inr ⟨e, present, by rw [failed], rfl⟩

/-- A deletion that succeeds has cleared all keepers. -/
theorem cleared_of_deleteFrom {found : Bool} (sound : ∀ k ∈ ks, Sound k)
    (h : deleteFrom key found ks = (.ok (), ks')) : List.Forall₂ (Cleared key) ks ks' := by
  induction ks generalizing found ks' with
  | nil =>
    cases found <;> cases h
    exact .nil
  | cons k ks ih =>
    rw [List.forall_mem_cons] at sound
    rcases deleteFrom_cons sound.1 key found ks with ⟨k', found', cleared, -, eq⟩ | ⟨e, -, -, eq⟩
    · rw [eq] at h
      obtain ⟨done, rfl⟩ := Prod.mk.inj h
      exact .cons cleared (ih sound.2 (Prod.ext done rfl))
    · cases eq.symm.trans h

/-- If nothing was found, nothing was changed. -/
theorem eq_of_deleteFrom_missing {found : Bool} (sound : ∀ k ∈ ks, Sound k)
    (h : deleteFrom key found ks = (.error .notFound, ks')) : found = false ∧ ks' = ks := by
  induction ks generalizing found ks' with
  | nil =>
    cases found <;> cases h
    exact ⟨rfl, rfl⟩
  | cons k ks ih =>
    rw [List.forall_mem_cons] at sound
    rcases deleteFrom_cons sound.1 key found ks with ⟨k', found', -, kept, eq⟩ | ⟨e, other, -, eq⟩
    · rw [eq] at h
      obtain ⟨missing, rfl⟩ := Prod.mk.inj h
      obtain ⟨none_found, same⟩ := ih sound.2 (Prod.ext missing rfl)
      rcases kept with rfl | ⟨rfl, rfl⟩
      · cases none_found
      · exact ⟨none_found, congrArg _ same⟩
    · cases eq.symm.trans h
      exact absurd rfl other

/-- Any other failure is that of a keeper, and only what is in front of it has been cleared. -/
theorem cleared_of_deleteFrom_failed {found : Bool} {e : SecretError} (sound : ∀ k ∈ ks, Sound k)
    (present : e ≠ .notFound) (h : deleteFrom key found ks = (.error e, ks')) :
    ∃ front front' k back, ks = front ++ k :: back ∧ ks' = front' ++ k :: back ∧
      (SecretKeeper.delete key k).1 = .error e ∧ List.Forall₂ (Cleared key) front front' := by
  induction ks generalizing found ks' with
  | nil =>
    cases found <;> cases h
    exact absurd rfl present
  | cons k ks ih =>
    rw [List.forall_mem_cons] at sound
    rcases deleteFrom_cons sound.1 key found ks with ⟨k', found', cleared, -, eq⟩ | ⟨e', -, fails, eq⟩
    · rw [eq] at h
      obtain ⟨failed, rfl⟩ := Prod.mk.inj h
      obtain ⟨front, front', x, back, rfl, rest, fails, all⟩ := ih sound.2 (Prod.ext failed rfl)
      exact ⟨k :: front, k' :: front', x, back, rfl, congrArg _ rest, fails, .cons cleared all⟩
    · cases eq.symm.trans h
      exact ⟨[], [], k, ks, rfl, rfl, fails, .nil⟩

/-! ## 5. What a change leaves -/

/-- **What a request to change a secret leaves of a chain.** If writing fails, all is as it was. It
succeeds if the first keeper that is not read-only can be written to; that keeper has changed then,
under the one name, and what is looked up from now on is the new value, unless a keeper in front has
one of its own. Deleting succeeds if some keeper deletes and none fails; then no keeper that accepts
deletions has the secret, and nothing else has changed. If nothing is found, all is as it was. Any
other failure is that of a keeper, from which on all is as it was, and in front of which the chain is
as after a deletion that succeeds. -/
theorem changes_left {ks : List σ} (sound : ∀ k ∈ ks, Sound k) (key value : String) :
    (∀ e ks', set key value ks = (.error e, ks') → ks' = ks) ∧
    (∀ ks', set key value ks = (.ok (), ks') →
      ∃ front k k' back, ks = front ++ k :: back ∧ ks' = front ++ k' :: back ∧
        (∀ x ∈ front, (SecretKeeper.set key value x).1 = .error .readOnly) ∧
        (SecretKeeper.set key value k).1 = .ok () ∧ Becomes key (some value) k k' ∧
        get? key ks' = some ((get? key front).getD value) ∧
        ((∀ x ∈ front, ∀ v, SecretKeeper.get key x ≠ .ok (some v)) → get? key ks' = some value)) ∧
    ((set key value ks).1 = .ok () ↔ ∃ front k back, ks = front ++ k :: back ∧
      (∀ x ∈ front, (SecretKeeper.set key value x).1 = .error .readOnly) ∧
      (SecretKeeper.set key value k).1 = .ok ()) ∧
    (∀ ks', delete key ks = (.ok (), ks') → List.Forall₂ (Cleared key) ks ks') ∧
    ((delete key ks).1 = .ok () ↔
      (∀ k ∈ ks, ∀ e, (SecretKeeper.delete key k).1 = .error e → e = .notFound ∨ e = .readOnly) ∧
        ∃ k ∈ ks, (SecretKeeper.delete key k).1 = .ok ()) ∧
    (∀ ks', delete key ks = (.error .notFound, ks') → ks' = ks) ∧
    ∀ e ks', e ≠ .notFound → delete key ks = (.error e, ks') →
      ∃ front front' k back, ks = front ++ k :: back ∧ ks' = front' ++ k :: back ∧
        (SecretKeeper.delete key k).1 = .error e ∧ List.Forall₂ (Cleared key) front front' := by
  refine ⟨?_, ?_, ?_, fun ks' => cleared_of_deleteFrom sound, ?_,
    fun ks' h => (eq_of_deleteFrom_missing sound h).2,
    fun e ks' present => cleared_of_deleteFrom_failed sound present⟩
  · intro e ks' h
    rcases set_cases key value ks with ⟨e', failed⟩ | ⟨front, k, k', back, -, -, -, written⟩
    · exact (Prod.mk.inj (failed.symm.trans h)).2.symm
    · cases written.symm.trans h
  · intro ks' h
    rcases set_cases key value ks with ⟨e', failed⟩ | ⟨front, k, k', back, rfl, locked, done, written⟩
    · cases failed.symm.trans h
    · obtain rfl := (Prod.mk.inj (written.symm.trans h)).2
      have there : k ∈ front ++ k :: back := List.mem_append_right _ (List.mem_cons_self ..)
      obtain ⟨-, read, changed⟩ := set_ok (sound k there) done
      have found : get? key (front ++ k' :: back) = some ((get? key front).getD value) := by
        rw [get?_append, get?, read]
        cases get? key front <;> rfl
      refine ⟨front, k, k', back, rfl, rfl, locked, by rw [done], changed, found, fun free => ?_⟩
      rw [found, get?_eq_none free]
      rfl
  · constructor
    · intro done
      rcases set_cases key value ks with ⟨e, failed⟩ | ⟨front, k, k', back, rfl, locked, first, -⟩
      · rw [failed] at done
        cases done
      · exact ⟨front, k, back, rfl, locked, by rw [first]⟩
    · rintro ⟨front, k, back, rfl, locked, first⟩
      rw [set_of_first locked (Prod.ext first rfl)]
  · rw [delete, deleteFrom_ok_iff]
    simp

/-- A keeper that is read-only, one that is not, and one that fails. -/
def mixedChain : List Rehearsal.Keeper :=
  [{ secrets := [("K", "one")], isReadOnly := true }, { secrets := [("K", "two"), ("W", "w")] },
    { secrets := [], failure := some .unavailable }]

theorem sound_mixedChain : ∀ k ∈ mixedChain, Sound k := by
  simp only [mixedChain, List.forall_mem_cons]
  exact ⟨⟨by decide, by decide⟩, ⟨by decide, by decide⟩, ⟨by decide, by decide⟩,
    fun _ h => absurd h List.not_mem_nil⟩

theorem changes_left_mixed : (∀ k ∈ mixedChain, Sound k) ∧
    (∃ front k k' back, mixedChain = front ++ k :: back ∧
      (set "K" "new" mixedChain).2 = front ++ k' :: back ∧ Becomes "K" (some "new") k k') ∧
    get? "K" (set "K" "new" mixedChain).2 = some "one" ∧
    ∃ front front' k back, mixedChain = front ++ k :: back ∧
      (delete "W" mixedChain).2 = front' ++ k :: back ∧
      (SecretKeeper.delete "W" k).1 = .error .unavailable ∧
      List.Forall₂ (Cleared "W") front front' := by
  obtain ⟨-, written, -⟩ := changes_left sound_mixedChain "K" "new"
  obtain ⟨-, -, -, -, -, -, failed⟩ := changes_left sound_mixedChain "W" "new"
  obtain ⟨front, k, k', back, split, left, -, -, changed, -⟩ := written _ rfl
  exact ⟨sound_mixedChain, ⟨front, k, k', back, split, left, changed⟩, rfl,
    failed .unavailable _ (by decide) rfl⟩

/-- **A failure to delete may follow a deletion**: the second keeper has lost its secret when the third
one fails. -/
theorem deleted_before_failure :
    (∀ k ∈ mixedChain, Sound k) ∧ ∃ ks', delete "W" mixedChain = (.error .unavailable, ks') ∧
      mixedChain.map (held · "W") = [none, some "w", none] ∧
      ks'.map (held · "W") = [none, none, none] :=
  ⟨sound_mixedChain, _, rfl, rfl, rfl⟩

end Secret.Chain
end Runbook
