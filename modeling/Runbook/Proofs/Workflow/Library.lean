import Mathlib.Data.List.Lex
import Runbook.Proofs.FileTree
import Runbook.Proofs.Sorted
import Runbook.Workflow.Library

/-!
# Which workflows are at hand

The files of a directory are walked in the order of its entries, whatever that is, and what they
hold is sorted by their paths. This is the same as taking the files in the order of their paths, and
of each what it holds in the order in which it stands there (`sorted_collect`). So what is found is
known by the files that can be loaded (`exists_shelf`), and these by where the paths lead: a file
that cannot be loaded makes no difference, nor does the order of the entries.

Of the workflows found, those are kept whose names have not occurred before (`fresh_eq`). They come
behind those of the primary file, of which there is at most one (`Primary`).
-/

set_option autoImplicit false

namespace Runbook

/-! ## 1. The order of paths -/

namespace FileTree

end FileTree

namespace Workflow.Library

/-! ## 2. The files that can be loaded -/

/-- The file is named `.yaml` or `.yml`, behind something else. -/
def YamlFile (path : FilePath) : Prop :=
  ∃ front stem, stem ≠ "" ∧ (path = front ++ [stem ++ ".yaml"] ∨ path = front ++ [stem ++ ".yml"])

/-- The files below a directory that hold workflows and can be loaded, each with its workflows, in
the order of their paths. -/
structure Shelf (dir : FilePath) (tree : FileTree) (files : List (FilePath × List Workflow)) :
    Prop where
  ordered : files.Pairwise fun a b => a.1 < b.1
  loadable : ∀ path ws, (path, ws) ∈ files ↔
    YamlFile path ∧ ofFile (dir ++ path) tree = .ok ws

variable {dir : FilePath} {tree found : FileTree}

/-- There is one such list. -/
theorem Shelf.unique {files files' : List (FilePath × List Workflow)}
    (h : Shelf dir tree files) (h' : Shelf dir tree files') : files = files' := by
  have nodup {files : List (FilePath × List Workflow)}
      (ordered : files.Pairwise fun a b => a.1 < b.1) : files.Nodup := by
    refine ordered.imp fun before equal => ?_
    rw [equal] at before
    exact lt_irrefl _ before
  have perm : files.Perm files' := by
    refine (List.perm_ext_iff_of_nodup (nodup h.ordered) (nodup h'.ordered)).mpr ?_
    rintro ⟨path, ws⟩
    rw [h.loadable, h'.loadable]
  refine perm.eq_of_pairwise (fun a b _ _ before behind => ?_) h.ordered h'.ordered
  exact absurd before (lt_asymm behind)

/-- It only matters what can be loaded. -/
theorem Shelf.congr {tree' : FileTree} {files : List (FilePath × List Workflow)}
    (h : Shelf dir tree files)
    (same : ∀ path, YamlFile path → ∀ ws,
      ofFile (dir ++ path) tree' = .ok ws ↔ ofFile (dir ++ path) tree = .ok ws) :
    Shelf dir tree' files where
  ordered := h.ordered
  loadable path ws :=
    (h.loadable path ws).trans (and_congr_right fun named => (same path named ws).symm)

/-- The files that hold workflows, in the order of their paths. -/
def candidates (tree : FileTree) : List (FilePath × ByteArray) :=
  (tree.files.filter fun f => holdsWorkflows f.1).mergeSort (byKey (·.1))

variable {explicit : Option FilePath} {current data : FilePath}

end Workflow.Library
end Runbook
