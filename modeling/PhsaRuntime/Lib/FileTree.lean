import Mathlib.Data.Finset.Union
import Mathlib.Data.Finset.Insert
import Mathlib.Data.List.Infix
import Mathlib.Tactic.Common

/-!
# File trees

A file tree is a finite set of paths that has the directory of each of its paths. A path is the
list of its components, from the root on. Files and directories are not told apart.

## Main definitions

* `FileTree.create` — a new path in a directory of the tree.
* `FileTree.createDirectories` — a path with all its directories.
* `FileTree.removeAll` — the removal of a path with everything below it.

## Main results

* `mem_above` — the tree has all directories above a path.
* `not_mem_below` — below a path that the tree does not have there is nothing.
-/

namespace PhsaRuntime

universe u

/-- A path, as the list of its components. -/
abbrev FilePath (α : Type u) := List α

/-- A finite set of paths with their directories. -/
structure FileTree (α : Type u) [DecidableEq α] where
  paths : Finset (FilePath α)
  closed : ∀ p ∈ paths, p.dropLast ∈ paths

namespace FileTree

variable {α : Type u} [DecidableEq α]

instance : Membership (FilePath α) (FileTree α) := ⟨fun t p => p ∈ t.paths⟩

instance (p : FilePath α) (t : FileTree α) : Decidable (p ∈ t) :=
  inferInstanceAs (Decidable (p ∈ t.paths))

variable {t : FileTree α} {p q d : FilePath α} {c : α}

theorem mem_def : p ∈ t ↔ p ∈ t.paths := Iff.rfl

@[ext]
theorem ext {t t' : FileTree α} (h : ∀ p, p ∈ t ↔ p ∈ t') : t = t' := by
  cases t
  cases t'
  rw [mk.injEq]
  apply Finset.ext
  exact h

/-- **The directories above a path** are in the tree. -/
theorem mem_above (h : p ∈ t) (hd : d <+: p) : d ∈ t := by
  induction p using List.reverseRecOn with
  | nil =>
    obtain rfl := List.prefix_nil.mp hd
    exact h
  | append_singleton p c ih =>
    rcases List.prefix_concat_iff.mp hd with rfl | hd
    · exact h
    · apply ih _ hd
      simpa [mem_def] using t.closed _ h

/-- Below a path that is not in the tree there is nothing. -/
theorem not_mem_below (h : d ∉ t) (hd : d <+: p) : p ∉ t :=
  fun hp => h (mem_above hp hd)

/-- Create a path, if the tree has its directory. -/
def create (t : FileTree α) (p : FilePath α) : FileTree α :=
  if h : p.dropLast ∈ t.paths then
    { paths := insert p t.paths
      closed := by
        intro q hq
        rcases Finset.mem_insert.mp hq with rfl | hq
        · exact Finset.mem_insert_of_mem h
        · exact Finset.mem_insert_of_mem (t.closed q hq) }
  else t

theorem mem_create (h : d ∈ t) : q ∈ t.create (d ++ [c]) ↔ q = d ++ [c] ∨ q ∈ t := by
  have hd : (d ++ [c]).dropLast ∈ t.paths := by simpa [mem_def] using h
  rw [create, dif_pos hd]
  exact Finset.mem_insert

/-- Create a path and all directories above it. -/
def createDirectories (t : FileTree α) (p : FilePath α) : FileTree α where
  paths := t.paths ∪ p.inits.toFinset
  closed := by
    intro q hq
    rcases Finset.mem_union.mp hq with hq | hq
    · exact Finset.mem_union_left _ (t.closed q hq)
    · apply Finset.mem_union_right
      rw [List.mem_toFinset, List.mem_inits] at hq ⊢
      exact (List.dropLast_prefix q).trans hq

@[simp] theorem mem_createDirectories : q ∈ t.createDirectories p ↔ q ∈ t ∨ q <+: p := by
  rw [mem_def, createDirectories, Finset.mem_union, List.mem_toFinset, List.mem_inits]
  rfl

/-- A directory that is there is not created again. -/
theorem mem_createDirectories_of_mem (h : p ∈ t) : q ∈ t.createDirectories p ↔ q ∈ t := by
  rw [mem_createDirectories]
  constructor
  · rintro (hq | hq)
    · exact hq
    · exact mem_above h hq
  · exact .inl

/-- Remove a path and everything below it. -/
def removeAll (t : FileTree α) (d : FilePath α) : FileTree α where
  paths := t.paths.filter fun p => ¬ d <+: p
  closed := by
    intro p hp
    rw [Finset.mem_filter] at hp ⊢
    refine ⟨t.closed p hp.1, ?_⟩
    intro hd
    exact hp.2 (hd.trans (List.dropLast_prefix p))

@[simp] theorem mem_removeAll : p ∈ t.removeAll d ↔ p ∈ t ∧ ¬ d <+: p := Finset.mem_filter

end FileTree

end PhsaRuntime
