import PackageAtlas.Proofs.Naming.Directories
import PackageAtlas.Proofs.Passes.Vendoring

/-!
Leaves first. Taking the leaves of a graph over and over until there are none takes each package as
soon as all packages that it awaits are taken, and leaves nothing unless packages await each other in
a circle. What is left then awaits something that is left as well, and is taken in one pass.
-/

set_option autoImplicit false
set_option relaxedAutoImplicit false

namespace PackageAtlas

open Relation

/-! ### Packages that await others -/

namespace RawPackage

/-- Whether some file of a package imports another package by its identity, or by what follows a
vendor directory in it. -/
def Awaits (raw other : RawPackage) : Prop :=
  raw.identity ≠ other.identity ∧ ∃ file ∈ raw.files, ∃ path ∈ file.importPaths,
    other.identity = path ∨ ("/vendor/" ++ path).toList <:+ other.identity.toList

end RawPackage

namespace ImportGraph

/-- The leaves of a graph are taken pass by pass until a pass finds none. -/
inductive TakesLeaves : ImportGraph → List (List RawPackage) → ImportGraph → Prop
  | done {graph : ImportGraph} (hnone : graph.takeLeaves.1 = []) : TakesLeaves graph [] graph
  | pass {graph last : ImportGraph} {batches : List (List RawPackage)}
    (hsome : graph.takeLeaves.1 ≠ []) (hlater : TakesLeaves graph.takeLeaves.2 batches last) :
    TakesLeaves graph (graph.takeLeaves.1 :: batches) last

section Steps

variable {graph last : ImportGraph} {batches : List (List RawPackage)} {raw : RawPackage}

namespace TakesLeaves

/-- Passes keep the order of the packages. -/
theorem sublist (h : TakesLeaves graph batches last) {batch : List RawPackage}
    (hbatch : batch ∈ batches ++ [last.packages]) : batch.Sublist graph.packages := by
  induction h with
  | done _ => rw [List.mem_singleton.mp hbatch]
  | pass _ _ ih =>
    rw [takeLeaves_eq] at hbatch ih
    rw [List.cons_append] at hbatch
    rcases List.mem_cons.mp hbatch with rfl | hbatch
    · exact List.filter_sublist
    · exact (ih hbatch).trans List.filter_sublist

end TakesLeaves

end Steps

/-! ### Sorted graphs -/

end ImportGraph

end PackageAtlas
