import Runbook.Json.Decode
import Runbook.Json.Reader
import Runbook.Secret.Key

/-!
# The vault

A vault is one file that holds all its secrets. They are written as a table of texts in the order
of their names, encrypted under a new nonce each time, and written in base 64. A file that is
missing or blank holds no secrets. Every change reads the file first, so a file that cannot be
read is never replaced.
-/

set_option autoImplicit false

namespace Runbook

structure Vault where
  path : FilePath
  cipher : Cipher
  tree : FileTree
  /-- The nonces that are used one after another. -/
  nonces : Nat → ByteArray
  /-- How many nonces have been used. -/
  used : Nat := 0

namespace Vault

/-- The name of the vault's file in the data directory. -/
def vaultFile : String := "vault.enc"

/-! ## The text of a vault -/

def decodeSecrets (plain : ByteArray) : Except SecretError (Fields String) :=
  match (String.fromUTF8? plain).bind Json.parse? with
  | none => .error (.format "not a table of texts")
  | some v =>
      match Decode.table Decode.text v with
      | .ok secrets => .ok (Fields.sorted secrets)
      | .error e => .error (.format e.message)

/-- The secrets that the text of a vault holds. -/
def secretsOf (c : Cipher) (s : String) : Except SecretError (Fields String) :=
  if Text.allBlank s then .ok []
  else
    match Base64.decode? (Text.trim s) with
    | none => .error (.format "vault file is not valid base64")
    | some data =>
        match c.unpack data with
        | .error _ => .error .decryption
        | .ok plain => decodeSecrets plain

def encodeSecrets (secrets : Fields String) : String :=
  (Json.obj (secrets.map fun e => (e.1, .str e.2))).compress

/-- The text of a vault with these secrets. -/
def textOf (c : Cipher) (nonce : ByteArray) (secrets : Fields String) : String :=
  Base64.encode (c.pack nonce (encodeSecrets secrets).toUTF8)

/-! ## Reading and writing -/

/-- The secrets in the vault, in the order of their names. -/
def load (v : Vault) : Except SecretError (Fields String) :=
  match v.tree.readText v.path with
  | .ok s => secretsOf v.cipher s
  | .error .notFound => .ok []
  | .error e => .error (.io e.message)

/-- Writes the secrets in place of all that was in the vault. -/
def store (v : Vault) (secrets : Fields String) : Except SecretError Unit × Vault :=
  let text := textOf v.cipher (v.nonces v.used) secrets
  match v.tree.write v.path text.toUTF8 with
  | .ok tree => (.ok (), { v with tree, used := v.used + 1 })
  | .error e => (.error (.io e.message), v)

/-- Removes a name; the others keep their order. -/
def without (key : String) (secrets : Fields String) : Fields String :=
  secrets.filter fun e => e.1 ≠ key

instance : SecretKeeper Vault where
  name _ := "vault"
  get key v := v.load.map (Fields.get? key)
  set key value v :=
    match v.load with
    | .error e => (.error e, v)
    | .ok secrets => v.store (Fields.sorted (Fields.put key value secrets))
  delete key v :=
    match v.load with
    | .error e => (.error e, v)
    | .ok secrets =>
        if Fields.has key secrets then v.store (without key secrets) else (.error .notFound, v)
  list v := v.load.map fun secrets =>
    (Fields.names secrets).map fun key => { key, source := .vault }

/-- The vault of a data directory. The tree comes back even if there is no key for it. -/
def openIn (env : Environment) (dir : FilePath) (random : ByteArray) (nonces : Nat → ByteArray)
    (tree : FileTree) : Except SecretError Vault × FileTree :=
  match key env dir random tree with
  | (.error e, tree) => (.error (.io e.message), tree)
  | (.ok key, tree) =>
      (.ok { path := dir ++ [vaultFile], cipher := Cipher.ofKey key, tree, nonces }, tree)

end Vault

/-! ## The usual chain -/

/-- A keeper of the usual kinds. -/
inductive Keeper where
  | environment (e : Environment)
  | vault (v : Vault)

namespace Keeper

instance : SecretKeeper Keeper where
  name
    | .environment e => SecretKeeper.name e
    | .vault v => SecretKeeper.name v
  get key
    | .environment e => SecretKeeper.get key e
    | .vault v => SecretKeeper.get key v
  set key value
    | .environment e => (SecretKeeper.set key value e).map id .environment
    | .vault v => (SecretKeeper.set key value v).map id .vault
  delete key
    | .environment e => (SecretKeeper.delete key e).map id .environment
    | .vault v => (SecretKeeper.delete key v).map id .vault
  list
    | .environment e => SecretKeeper.list e
    | .vault v => SecretKeeper.list v

/-- The environment, if it is to be asked, then the vault, if there is one. -/
def chain (env : Option Environment) (vault : Option Vault) : List Keeper :=
  (env.map Keeper.environment).toList ++ (vault.map Keeper.vault).toList

end Keeper
end Runbook
