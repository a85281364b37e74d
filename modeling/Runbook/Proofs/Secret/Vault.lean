import Mathlib.Data.Finmap
import Mathlib.Data.Finset.Sort
import Runbook.Proofs.Secret.Sealing

/-!
# A vault is a finite map

Whatever a vault is asked to do, and however often it is opened again with its key, it answers as a
finite map from names to values would. Between two requests nothing is kept but the file: each
request reads it from scratch, so all that has to hold of the file is that it reads as the map. A
request that ends in an error writes nothing.
-/

set_option autoImplicit false

namespace Runbook

/-! ## 1. Requests and answers -/

namespace Vault

/-- What is asked of a vault. Opening it again keeps its file and its key and nothing else. -/
inductive Call where
  | get (key : String)
  | set (key value : String)
  | delete (key : String)
  | list
  | reopen (nonces : Nat → Cipher.Nonce)

inductive Reply where
  | value (v : Option String)
  | done
  | entries (es : List SecretEntry)
  deriving DecidableEq

abbrev Answer := Except SecretError Reply

/-- The vault with a key at a path, as it is when it has just been opened. -/
def opened (path : FilePath) (key : ByteArray) (nonces : Nat → Cipher.Nonce) (tree : FileTree) :
    Vault :=
  { path, cipher := Cipher.ofKey key, tree, nonces := fun n => (nonces n).1 }

def perform : Call → Vault → Answer × Vault
  | .get key, v => ((SecretKeeper.get key v).map .value, v)
  | .set key value, v => (SecretKeeper.set key value v).map (·.map fun _ => .done) id
  | .delete key, v => (SecretKeeper.delete key v).map (·.map fun _ => .done) id
  | .list, v => ((SecretKeeper.list v).map .entries, v)
  | .reopen nonces, v =>
      (.ok .done, ⟨v.path, v.cipher, v.tree, fun n => (nonces n).1, 0⟩)

end Vault

/-- A finite map from names to values. -/
abbrev Contents := Finmap fun _ : String => String

namespace Contents

/-- The entries of a vault with these contents, in the order of the names. -/
def entries (m : Contents) : List SecretEntry :=
  (m.keys.sort (· ≤ ·)).map fun key => { key, source := .vault }

def perform : Vault.Call → Contents → Vault.Answer × Contents
  | .get key, m => (.ok (.value (m.lookup key)), m)
  | .set key value, m => (.ok .done, m.insert key value)
  | .delete key, m => if key ∈ m then (.ok .done, m.erase key) else (.error .notFound, m)
  | .list, m => (.ok (.entries m.entries), m)
  | .reopen _, m => (.ok .done, m)

end Contents

/-- The answers to requests made one after another, and what there is in the end. -/
def Vault.runCalls {σ : Type} (perform : Call → σ → Answer × σ) : List Call → σ → List Answer × σ
  | [], s => ([], s)
  | call :: calls, s =>
      let (answer, s) := perform call s
      let (answers, s) := runCalls perform calls s
      (answer :: answers, s)

/-! ## 2. Tables that are pictures of maps -/

/-- The table has the entries of the map, in the order of their names. -/
structure Contents.Pictured (secrets : Fields String) (m : Contents) : Prop where
  ordered : secrets.InOrder
  same : ∀ key, Fields.get? key secrets = m.lookup key

theorem Vault.get?_without (key other : String) (secrets : Fields String) :
    Fields.get? other (without key secrets) =
      if other = key then none else Fields.get? other secrets := by
  induction secrets with
  | nil => simp [without]
  | cons e secrets ih =>
    rw [without] at ih ⊢
    by_cases gone : e.1 = key
    · rw [List.filter_cons_of_neg (by simp [gone]), ih, Fields.get?_cons]
      split
      · rfl
      · next ne => rw [if_neg (gone ▸ Ne.symm ne)]
    · rw [List.filter_cons_of_pos (by simp [gone]), Fields.get?_cons, ih, Fields.get?_cons]
      by_cases here : e.1 = other
      · rw [if_pos here, if_pos here, if_neg (here ▸ gone)]
      · rw [if_neg here, if_neg here]

namespace Contents.Pictured

variable {secrets : Fields String} {m : Contents}

theorem empty : Pictured [] ∅ where
  ordered := List.Pairwise.nil
  same _ := rfl

theorem has (h : Pictured secrets m) (key : String) : Fields.has key secrets = true ↔ key ∈ m := by
  rw [Fields.has, h.same, Finmap.lookup_isSome]

theorem names (h : Pictured secrets m) : m.keys.sort (· ≤ ·) = secrets.names := by
  have keys : m.keys = secrets.names.toFinset := by
    ext key
    rw [Finmap.mem_keys, ← h.has, Fields.has, Fields.get?_isSome_iff, List.mem_toFinset]
  rw [keys]
  exact (List.toFinset_sort (· ≤ ·) h.ordered.nodup).mpr (h.ordered.imp fun before => before.le)

theorem put (h : Pictured secrets m) (key value : String) :
    Pictured (Fields.sorted (Fields.put key value secrets)) (m.insert key value) where
  ordered := Fields.inOrder_sorted (Fields.nodup_names_put h.ordered.nodup key value)
  same other := by
    rw [Fields.get?_sorted (Fields.nodup_names_put h.ordered.nodup key value)]
    by_cases eq : key = other
    · rw [← eq, Fields.get?_put_self, Finmap.lookup_insert]
    · rw [Fields.get?_put_of_ne _ _ eq, Finmap.lookup_insert_of_ne _ (Ne.symm eq), h.same]

theorem without (h : Pictured secrets m) (key : String) :
    Pictured (Vault.without key secrets) (m.erase key) where
  ordered := List.Pairwise.sublist (List.filter_sublist.map _) h.ordered
  same other := by
    rw [Vault.get?_without]
    split
    · next eq => rw [eq, Finmap.lookup_erase]
    · next ne => rw [Finmap.lookup_erase_ne ne, h.same]

end Contents.Pictured

/-! ## 3. One request -/

namespace Vault

variable {v : Vault} {m : Contents}

/-- The vault can read what it writes, and its file reads as the map. -/
structure Holds (v : Vault) (m : Contents) : Prop where
  inverts : v.cipher.Inverts
  nonces : ∀ n, (v.nonces n).size = Cipher.nonceSize
  file : ∃ secrets, v.load = .ok secrets ∧ Contents.Pictured secrets m

theorem free_of_load {secrets : Fields String} (h : v.load = .ok secrets) : v.tree.Free v.path := by
  rw [load] at h
  split at h
  · next s there => exact .inr ⟨s, there⟩
  · next missing => exact .inl missing
  · cases h

theorem Holds.get (h : v.Holds m) (key : String) : SecretKeeper.get key v = .ok (m.lookup key) := by
  obtain ⟨secrets, loaded, pictured⟩ := h.file
  simp only [SecretKeeper.get, loaded, Except.map, pictured.same]

theorem Holds.list (h : v.Holds m) : SecretKeeper.list v = .ok m.entries := by
  obtain ⟨secrets, loaded, pictured⟩ := h.file
  simp only [SecretKeeper.list, loaded, Except.map, Contents.entries, pictured.names]

/-- What is written in a vault that can be read is read of it again. -/
theorem load_store (inverts : v.cipher.Inverts) (nonces : ∀ n, (v.nonces n).size = Cipher.nonceSize)
    {old secrets : Fields String} (loaded : v.load = .ok old) (ordered : secrets.InOrder) :
    (v.store secrets).1 = .ok () ∧ (v.store secrets).2.load = .ok secrets := by
  have sealed := secretsOf_textOf inverts ⟨_, nonces v.used⟩ ordered
  obtain ⟨tree, written⟩ := FileTree.write_of_free (free_of_load loaded)
    (textOf v.cipher (v.nonces v.used) secrets).toUTF8
  simp only [Vault.store, written]
  refine ⟨trivial, ?_⟩
  simp only [load, FileTree.readText_of_write written]
  exact sealed

/-- Writing keeps the key and the nonces. -/
theorem store_keeps (v : Vault) (secrets : Fields String) :
    (v.store secrets).2.cipher = v.cipher ∧ (v.store secrets).2.nonces = v.nonces := by
  rw [Vault.store]
  split <;> exact ⟨rfl, rfl⟩

/-- Writing replaces what the vault holds. -/
theorem Holds.store (h : v.Holds m) {secrets : Fields String} {m' : Contents}
    (pictured : Contents.Pictured secrets m') :
    (v.store secrets).1 = .ok () ∧ (v.store secrets).2.Holds m' := by
  obtain ⟨old, loaded, -⟩ := h.file
  obtain ⟨cipher, nonces⟩ := store_keeps v secrets
  obtain ⟨stored, again⟩ := load_store h.inverts h.nonces loaded pictured.ordered
  exact ⟨stored, cipher ▸ h.inverts, nonces ▸ h.nonces, secrets, again, pictured⟩

/-- A vault and a map that it holds give the same answer, and then the vault holds the new map. -/
theorem Holds.perform (h : v.Holds m) (call : Call) :
    (Vault.perform call v).1 = (Contents.perform call m).1 ∧
      (Vault.perform call v).2.Holds (Contents.perform call m).2 := by
  obtain ⟨secrets, loaded, pictured⟩ := h.file
  cases call with
  | get key => exact ⟨congrArg (Except.map Reply.value) (h.get key), h⟩
  | list => exact ⟨congrArg (Except.map Reply.entries) h.list, h⟩
  | set key value =>
    obtain ⟨stored, holds⟩ := h.store (pictured.put key value)
    simp only [Vault.perform, SecretKeeper.set, loaded, Prod.map_fst, Prod.map_snd, id_eq, stored]
    exact ⟨rfl, holds⟩
  | delete key =>
    simp only [Vault.perform, SecretKeeper.delete, loaded, Contents.perform]
    by_cases there : key ∈ m
    · obtain ⟨stored, holds⟩ := h.store (pictured.without key)
      rw [if_pos there, if_pos ((pictured.has key).mpr there), Prod.map_fst, stored]
      exact ⟨rfl, holds⟩
    · rw [if_neg there, if_neg (mt (pictured.has key).mp there)]
      exact ⟨rfl, h⟩
  | reopen nonces => exact ⟨rfl, h.inverts, fun n => (nonces n).2, secrets, loaded, pictured⟩

theorem store_error {secrets : Fields String} {e : SecretError}
    (h : (v.store secrets).1 = .error e) : (v.store secrets).2 = v := by
  rw [store] at h ⊢
  split at h
  · cases h
  · rfl

theorem set_error {key value : String} {e : SecretError}
    (h : (SecretKeeper.set key value v).1 = .error e) : (SecretKeeper.set key value v).2 = v := by
  simp only [SecretKeeper.set] at h ⊢
  split at h
  · rfl
  · exact store_error h

theorem delete_error {key : String} {e : SecretError}
    (h : (SecretKeeper.delete key v).1 = .error e) : (SecretKeeper.delete key v).2 = v := by
  simp only [SecretKeeper.delete] at h ⊢
  split at h
  · rfl
  · split at h
    · next there => rw [if_pos there]; exact store_error h
    · next missing => rw [if_neg missing]

/-- A request that ends in an error leaves the vault as it was. -/
theorem perform_error {call : Call} {e : SecretError} (h : (perform call v).1 = .error e) :
    (perform call v).2 = v := by
  have unmapped : ∀ {r : Except SecretError Unit},
      r.map (fun _ => Reply.done) = .error e → r = .error e := by
    rintro (e | u) h <;> cases h
    rfl
  cases call with
  | get key => rfl
  | list => rfl
  | set key value => exact set_error (unmapped h)
  | delete key => exact delete_error (unmapped h)
  | reopen nonces => cases h

/-- As long as its file cannot be read, a vault answers every request with that error. -/
theorem perform_unread {e : SecretError} (unread : v.load = .error e) {call : Call}
    (asks : ∀ nonces, call ≠ .reopen nonces) : (perform call v).1 = .error e := by
  cases call with
  | reopen nonces => exact absurd rfl (asks nonces)
  | get | list | set | delete =>
    simp only [perform, SecretKeeper.get, SecretKeeper.set, SecretKeeper.delete, SecretKeeper.list,
      unread, Except.map, Prod.map]

/-! ## 4. Any number of requests -/

theorem Holds.runCalls (h : v.Holds m) (calls : List Call) :
    (Vault.runCalls Vault.perform calls v).1 = (Vault.runCalls Contents.perform calls m).1 ∧
      (Vault.runCalls Vault.perform calls v).2.Holds
        (Vault.runCalls Contents.perform calls m).2 := by
  induction calls generalizing v m with
  | nil => exact ⟨rfl, h⟩
  | cons call calls ih =>
    obtain ⟨same, holds⟩ := h.perform call
    obtain ⟨answers, final⟩ := ih holds
    simp only [Vault.runCalls]
    exact ⟨by rw [same, answers], final⟩

/-- There is no file, or one with nothing but blanks in it. -/
def Unwritten (path : FilePath) (tree : FileTree) : Prop :=
  tree.readText path = .error .notFound ∨
    ∃ s, tree.readText path = .ok s ∧ Text.allBlank s = true

theorem holds_opened {path : FilePath} {tree : FileTree} (empty : Unwritten path tree)
    (key : ByteArray) (nonces : Nat → Cipher.Nonce) :
    (opened path key nonces tree).Holds ∅ where
  inverts := Cipher.ofKey_inverts key
  nonces n := (nonces n).2
  file := by
    refine ⟨[], ?_, .empty⟩
    rw [load, opened]
    rcases empty with missing | ⟨s, there, blank⟩
    · simp only [missing]
    · simp only [there, secretsOf, blank, if_true]

/-- **A vault that starts without a file is a finite map**, also if it is opened again on the way.
And in no vault does a request that ends in an error change any file; if the vault's own file cannot
be read, every request ends so. -/
theorem finite_map {path : FilePath} {tree : FileTree} (empty : Unwritten path tree)
    (key : ByteArray) (nonces : Nat → Cipher.Nonce) (calls : List Call) :
    (runCalls perform calls (opened path key nonces tree)).1 =
        (runCalls Contents.perform calls ∅).1 ∧
      (∀ (v : Vault) (call : Call) (e : SecretError), (perform call v).1 = .error e →
        (perform call v).2.tree = v.tree) ∧
      ∀ (v : Vault) (call : Call) (e : SecretError), v.load = .error e →
        (∀ nonces, call ≠ .reopen nonces) → (perform call v).1 = .error e := by
  refine ⟨((holds_opened empty key nonces).runCalls calls).1, fun v call e failed => ?_,
    fun v call e unread => perform_unread unread⟩
  rw [perform_error failed]

/-- A vault without a file. -/
def unwritten : Vault :=
  opened ["vault.enc"] ⟨Array.replicate 32 7⟩ (fun _ => ⟨⟨Array.replicate 12 0⟩, rfl⟩) .empty

theorem unwritten_missing : Unwritten unwritten.path unwritten.tree := .inl rfl

theorem finite_map_rewritten :
    Unwritten unwritten.path unwritten.tree ∧
      (runCalls perform
          [.set "b" "1", .set "a" "2", .set "b" "3", .get "b", .delete "b", .delete "b", .get "b",
            .get "a"] unwritten).1 =
        [.ok .done, .ok .done, .ok .done, .ok (.value (some "3")), .ok .done, .error .notFound,
          .ok (.value none), .ok (.value (some "2"))] := by
  refine ⟨unwritten_missing, (finite_map unwritten_missing _ _ _).1.trans ?_⟩
  decide

/-! ## 5. Opening in a directory -/

/-- A later state of a vault: the same file and key, and the other files of the directory as they
were. -/
structure Later (v v' : Vault) : Prop where
  path : v'.path = v.path
  cipher : v'.cipher = v.cipher
  others : ∀ {dir name other}, v.path = dir ++ [name] → name ≠ other →
    v'.tree.readText (dir ++ [other]) = v.tree.readText (dir ++ [other])

theorem Later.refl (v : Vault) : Later v v := ⟨rfl, rfl, fun _ _ => rfl⟩

theorem Later.trans {v₁ v₂ v₃ : Vault} (h : Later v₁ v₂) (h' : Later v₂ v₃) : Later v₁ v₃ where
  path := h'.path.trans h.path
  cipher := h'.cipher.trans h.cipher
  others at_ ne := (h'.others (h.path.trans at_) ne).trans (h.others at_ ne)

theorem store_later (v : Vault) (secrets : Fields String) : Later v (v.store secrets).2 := by
  rw [store]
  split
  · next tree written =>
    exact ⟨rfl, rfl, fun at_ ne => FileTree.readText_of_write_sibling ne (at_ ▸ written)⟩
  · exact .refl v

theorem perform_later (v : Vault) (call : Call) : Later v (perform call v).2 := by
  cases call with
  | get key => exact .refl v
  | list => exact .refl v
  | set key value =>
    simp only [perform, SecretKeeper.set, Prod.map_snd, id_eq]
    split
    · exact .refl v
    · exact store_later v _
  | delete key =>
    simp only [perform, SecretKeeper.delete, Prod.map_snd, id_eq]
    split
    · exact .refl v
    · split
      · exact store_later v _
      · exact .refl v
  | reopen nonces => exact ⟨rfl, rfl, fun _ _ => rfl⟩

theorem runCalls_later (v : Vault) (calls : List Call) :
    Later v (runCalls perform calls v).2 := by
  induction calls generalizing v with
  | nil => exact .refl v
  | cons call calls ih => exact (perform_later v call).trans (ih _)

/-- A key file that was written or read gives its key from then on. -/
theorem text_of_keyOfFile {path : FilePath} {random key : ByteArray} {tree tree' : FileTree}
    (size : random.size = keySize) (h : keyOfFile path random tree = (.ok key, tree')) :
    ∃ s, tree'.readText path = .ok s ∧ keyOfText s = .ok key := by
  rw [keyOfFile] at h
  split at h
  · next s there =>
    obtain ⟨read, rfl⟩ := Prod.mk.inj h
    exact ⟨s, there, read⟩
  · split at h
    · next written =>
      cases h
      refine ⟨_, FileTree.readText_of_write written, ?_⟩
      rw [keyOfText, Text.trim_of_solid (Base64.encode_solid random), Base64.decode?_encode]
      exact if_pos size
    · cases h
  · cases h

theorem key_again {env : Environment} {dir : FilePath} {random key : ByteArray}
    {tree tree' later : FileTree} (size : random.size = keySize)
    (h : Vault.key env dir random tree = (.ok key, tree'))
    (same : later.readText (dir ++ [keyFile]) = tree'.readText (dir ++ [keyFile]))
    (random' : ByteArray) : Vault.key env dir random' later = (.ok key, later) := by
  have fromFile (h : keyOfFile (dir ++ [keyFile]) random tree = (.ok key, tree')) :
      keyOfFile (dir ++ [keyFile]) random' later = (.ok key, later) := by
    obtain ⟨s, there, read⟩ := text_of_keyOfFile size h
    rw [keyOfFile, same, there, ← read]
  rw [Vault.key] at h ⊢
  split at h
  · next password =>
    split at h
    · next blank => exact (if_pos blank).trans (fromFile h)
    · next some =>
      cases h
      exact if_neg some
  · exact fromFile h

/-- To open the vault of a directory anew is to open it again: the environment or the key file gives
the key it gave at first, whatever was done with the vault. -/
theorem openIn_again {env : Environment} {dir : FilePath} {random : ByteArray}
    {nonces : Nat → ByteArray} {tree tree' : FileTree} {v : Vault} (size : random.size = keySize)
    (h : openIn env dir random nonces tree = (.ok v, tree')) (calls : List Call)
    (random' : ByteArray) (nonces' : Nat → Cipher.Nonce) :
    let last := (runCalls perform calls v).2
    openIn env dir random' (fun n => (nonces' n).1) last.tree =
      (.ok (perform (.reopen nonces') last).2, last.tree) := by
  intro last
  have later : Later v last := runCalls_later v calls
  rw [openIn] at h
  split at h
  · cases h
  · next key tree found =>
    cases h
    have distinct : vaultFile ≠ keyFile := by decide
    rw [openIn, key_again size found (later.others rfl distinct) random']
    simp only [perform, later.path, later.cipher]

end Vault
end Runbook
