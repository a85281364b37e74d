import Mathlib.Data.List.Nodup
import Runbook.FileTree
import Runbook.Proofs.Text

/-!
# Reading what was written

What is written to a path is read from that path again, and other files of the same directory are
as they were. Writing works wherever a file could be read, and wherever there is no file yet.

A tree is proper if no two entries of a directory have one name; writing keeps it so. All files of a
proper tree are those that its paths lead to, each once.
-/

set_option autoImplicit false

namespace Runbook

/-- The bytes of a text are the text. -/
theorem fromUTF8?_toUTF8 (s : String) : String.fromUTF8? s.toUTF8 = some s := by
  rw [String.fromUTF8?, String.toUTF8_eq_toByteArray, dif_pos s.isValidUTF8]
  rfl

namespace FileTree

variable {t t' what : FileTree} {path : FilePath}

/-! ## 1. Placing -/

theorem at?_place (h : place what path t = .ok t') : t'.at? path = .ok what := by
  induction path generalizing t t' with
  | nil =>
    cases h
    rfl
  | cons name path ih =>
    cases t with
    | file content => cases h
    | directory entries =>
      rw [place] at h
      split at h
      · cases h
      · next inner hinner =>
        cases h
        rw [at?, Fields.get?_put_self]
        exact ih hinner

/-- Nothing can be placed behind a file, and anything everywhere else. -/
theorem place_of_at? (open_ : t.at? path ≠ .error .notADirectory) :
    ∃ t', place what path t = .ok t' := by
  induction path generalizing t with
  | nil => exact ⟨what, rfl⟩
  | cons name path ih =>
    cases t with
    | file content => exact absurd rfl open_
    | directory entries =>
      have inner : ((Fields.get? name entries).getD empty).at? path ≠ .error .notADirectory := by
        rw [at?] at open_
        cases h : Fields.get? name entries with
        | none => cases path <;> simp [empty, at?]
        | some u =>
          rw [h] at open_
          exact open_
      obtain ⟨u, hu⟩ := ih inner
      refine ⟨.directory (Fields.put name u entries), ?_⟩
      rw [place, hu]

/-- Another entry of the directory stays as it is. -/
theorem at?_place_sibling {dir : FilePath} {name other : String} (ne : name ≠ other)
    (h : place what (dir ++ [name]) t = .ok t') :
    t'.at? (dir ++ [other]) = t.at? (dir ++ [other]) := by
  induction dir generalizing t t' with
  | nil =>
    cases t with
    | file content => cases h
    | directory entries =>
      cases h
      simp only [List.nil_append, at?, Fields.get?_put_of_ne _ _ ne]
  | cons step dir ih =>
    cases t with
    | file content => cases h
    | directory entries =>
      rw [List.cons_append, place] at h
      split at h
      · cases h
      · next inner hinner =>
        cases h
        rw [List.cons_append, at?, at?, Fields.get?_put_self]
        refine (ih hinner).trans ?_
        cases Fields.get? step entries with
        | none => cases dir <;> rfl
        | some u => rfl

/-! ## 2. Files -/

theorem at?_of_readText {s : String} (h : t.readText path = .ok s) :
    ∃ content, t.at? path = .ok (.file content) := by
  rw [readText, read] at h
  split at h
  · cases h
  · next bytes hbytes =>
    split at hbytes
    · next content there => exact ⟨content, there⟩
    · cases hbytes
    · cases hbytes

theorem at?_of_readText_notFound (h : t.readText path = .error .notFound) :
    t.at? path = .error .notFound := by
  rw [readText, read] at h
  split at h
  · next e he =>
    cases h
    split at he
    · cases he
    · cases he
    · next e there =>
      cases he
      exact there
  · split at h <;> cases h

/-- What was written as a text is read as that text. -/
theorem readText_of_write {s : String} (h : t.write path s.toUTF8 = .ok t') :
    t'.readText path = .ok s := by
  rw [write] at h
  split at h
  · cases h
  · simp only [readText, read, at?_place h, fromUTF8?_toUTF8]

theorem readText_of_write_sibling {dir : FilePath} {name other : String} {content : ByteArray}
    (ne : name ≠ other) (h : t.write (dir ++ [name]) content = .ok t') :
    t'.readText (dir ++ [other]) = t.readText (dir ++ [other]) := by
  rw [write] at h
  split at h
  · cases h
  · rw [readText, readText, read, read, at?_place_sibling ne h]

/-- A path is free for a text: one is there already, or nothing is. -/
def Free (path : FilePath) (t : FileTree) : Prop :=
  t.readText path = .error .notFound ∨ ∃ s, t.readText path = .ok s

theorem write_of_free (free : t.Free path) (content : ByteArray) :
    ∃ t', t.write path content = .ok t' := by
  have here : t.at? path = .error .notFound ∨ ∃ old, t.at? path = .ok (.file old) := by
    rcases free with missing | ⟨s, there⟩
    · exact .inl (at?_of_readText_notFound missing)
    · exact .inr (at?_of_readText there)
  have notDirectory : t.isDirectory path = false := by
    rcases here with h | ⟨old, h⟩ <;> rw [isDirectory, h]
  have open_ : t.at? path ≠ .error .notADirectory := by
    rcases here with h | ⟨old, h⟩ <;> rw [h] <;> exact nofun
  rw [write, notDirectory]
  exact place_of_at? open_

/-! ## 3. Proper trees -/

mutual

/-- No two entries of a directory have one name. -/
def Proper : FileTree → Prop
  | .file _ => True
  | .directory entries => (Fields.names entries).Nodup ∧ ProperIn entries

def ProperIn : List (String × FileTree) → Prop
  | [] => True
  | (_, t) :: rest => t.Proper ∧ ProperIn rest

end

theorem properIn_iff {entries : List (String × FileTree)} :
    ProperIn entries ↔ ∀ e ∈ entries, e.2.Proper := by
  induction entries with
  | nil => simp [ProperIn]
  | cons e entries ih => simp [ProperIn, ih]

theorem proper_empty : empty.Proper := ⟨List.nodup_nil, trivial⟩

theorem proper_place (proper : t.Proper) (new : what.Proper) (h : place what path t = .ok t') :
    t'.Proper := by
  induction path generalizing t t' with
  | nil =>
    cases h
    exact new
  | cons name path ih =>
    cases t with
    | file content => cases h
    | directory entries =>
      obtain ⟨distinct, inside⟩ := proper
      rw [properIn_iff] at inside
      have here : ((Fields.get? name entries).getD empty).Proper := by
        cases there : Fields.get? name entries with
        | none => exact proper_empty
        | some u => exact inside _ (Fields.mem_of_get? there)
      rw [place] at h
      split at h
      · cases h
      · next inner placed =>
        cases h
        refine ⟨Fields.nodup_names_put distinct .., properIn_iff.mpr fun e he => ?_⟩
        rcases Fields.mem_put he with rfl | old
        · exact ih here placed
        · exact inside e old

/-- Writing and making directories keep a tree proper. -/
theorem proper_write {content : ByteArray} (proper : t.Proper) (h : t.write path content = .ok t') :
    t'.Proper := by
  rw [write] at h
  split at h
  · cases h
  · have whole : (FileTree.file content).Proper := trivial
    exact proper_place proper whole h

theorem proper_makeDirectory (proper : t.Proper) (h : t.makeDirectory path = .ok t') :
    t'.Proper := by
  rw [makeDirectory] at h
  split at h
  · cases h
    exact proper
  · cases h
  · exact proper_place proper proper_empty h
  · cases h

/-! ## 4. All files -/

theorem nil_not_mem_filesIn {entries : List (String × FileTree)} {content : ByteArray} :
    ([], content) ∉ filesIn entries := by
  induction entries with
  | nil => simp [filesIn]
  | cons e entries ih => simp [filesIn, ih]

mutual

/-- **The files of a proper tree** are those that its paths lead to. -/
theorem mem_files_iff : {t : FileTree} → t.Proper → ∀ {path : FilePath} {content : ByteArray},
    (path, content) ∈ t.files ↔ t.at? path = .ok (.file content)
  | .file old, _, path, content => by
      cases path with
      | nil => simp [files, at?, eq_comm]
      | cons name path => simp [files, at?]
  | .directory entries, ⟨distinct, proper⟩, path, content => by
      rw [files]
      cases path with
      | nil => simp [at?, nil_not_mem_filesIn]
      | cons name path =>
        rw [mem_filesIn_iff distinct proper, at?]
        cases Fields.get? name entries <;> simp

theorem mem_filesIn_iff : {entries : List (String × FileTree)} → (Fields.names entries).Nodup →
    ProperIn entries → ∀ {name : String} {path : FilePath} {content : ByteArray},
    (name :: path, content) ∈ filesIn entries ↔
      ∃ u, Fields.get? name entries = some u ∧ u.at? path = .ok (.file content)
  | [], _, _, name, path, content => by simp [filesIn]
  | (first, t) :: entries, distinct, ⟨proper, others⟩, name, path, content => by
      rw [Fields.names, List.map_cons, List.nodup_cons] at distinct
      have later : (name :: path, content) ∈ filesIn entries ↔ _ :=
        mem_filesIn_iff distinct.2 others
      rw [filesIn, List.mem_append, later, Fields.get?_cons]
      have here : (name :: path, content) ∈ t.files.map (fun f => (first :: f.1, f.2)) ↔
          first = name ∧ t.at? path = .ok (.file content) := by
        rw [← mem_files_iff proper, List.mem_map]
        constructor
        · rintro ⟨f, hf, same⟩
          cases same
          exact ⟨rfl, hf⟩
        · rintro ⟨rfl, hf⟩
          exact ⟨_, hf, rfl⟩
      rw [here]
      split
      · next same =>
        -- the name does not stand behind
        have absent : Fields.get? name entries = none := by
          rw [← Option.not_isSome_iff_eq_none, Fields.get?_isSome_iff, ← same]
          exact distinct.1
        simp [absent, show first = name from same]
      · next other => simp [show first ≠ name from other]

end

mutual

/-- Each file is there once. -/
theorem nodup_files : {t : FileTree} → t.Proper → (t.files.map (·.1)).Nodup
  | .file _, _ => List.nodup_singleton _
  | .directory _, ⟨distinct, proper⟩ => nodup_filesIn distinct proper

theorem nodup_filesIn : {entries : List (String × FileTree)} → (Fields.names entries).Nodup →
    ProperIn entries → ((filesIn entries).map (·.1)).Nodup
  | [], _, _ => List.nodup_nil
  | (first, t) :: entries, distinct, ⟨proper, others⟩ => by
      rw [Fields.names, List.map_cons, List.nodup_cons] at distinct
      have here : ((t.files.map fun f => (first :: f.1, f.2)).map (·.1)).Nodup := by
        rw [List.map_map]
        have inner := (nodup_files proper).map (List.cons_injective (a := first))
        rwa [List.map_map] at inner
      rw [filesIn, List.map_append, List.nodup_append]
      refine ⟨here, nodup_filesIn distinct.2 others, ?_⟩
      rintro _ inside path outside rfl
      -- both begin with the first name, which does not stand behind
      obtain ⟨f, hf, rfl⟩ := List.mem_map.mp inside
      obtain ⟨g, -, rfl⟩ := List.mem_map.mp hf
      obtain ⟨⟨_, content⟩, hg, rfl⟩ := List.mem_map.mp outside
      obtain ⟨u, there, -⟩ := (mem_filesIn_iff distinct.2 others).mp hg
      exact distinct.1 ((Fields.get?_isSome_iff _ _).mp (Option.isSome_of_eq_some there))

end

end FileTree
end Runbook
