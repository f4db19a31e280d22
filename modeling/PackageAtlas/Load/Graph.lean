import PackageAtlas.Load.RawPackage

/-!
Import graphs: the order in which the packages of a load are checked. A package waits for those that
it imports, directly or through a vendor directory, as long as they are not checked; packages that
wait for none are taken together.
-/

set_option autoImplicit false
set_option relaxedAutoImplicit false

namespace PackageAtlas

/-- The packages that are still to be checked, sorted by identity, each once. -/
structure ImportGraph where
  packages : List RawPackage
deriving Inhabited

namespace ImportGraph

/-- Puts a package into a sorted list, in place of another one of its identity. -/
def insert (raw : RawPackage) : List RawPackage → List RawPackage
  | [] => [raw]
  | other :: rest =>
    if raw.identity = other.identity then raw :: rest
    else if raw.identity < other.identity then raw :: other :: rest
    else other :: insert raw rest

def ofPackages (packages : List RawPackage) : ImportGraph :=
  ⟨packages.foldl (fun sorted raw ↦ insert raw sorted) []⟩

/-- Whether an import path may stand for a package: it is the identity, or the identity ends with it
below a vendor directory. -/
def names (path identity : String) : Bool :=
  identity == path || identity.endsWith ("/vendor/" ++ path)

/-- Whether a package that imports some paths has to wait for another one. -/
def waitsFor (identity : String) (imports : List String) (other : RawPackage) : Bool :=
  identity != other.identity && imports.any (names · other.identity)

def isEmpty (graph : ImportGraph) : Bool := graph.packages.isEmpty

def size (graph : ImportGraph) : Nat := graph.packages.length

/-- Whether a package waits for none of the others. -/
def isLeaf (graph : ImportGraph) (raw : RawPackage) : Bool :=
  let imports := raw.imports
  !graph.packages.any (waitsFor raw.identity imports)

/-- The packages that wait for none, and the graph without them. There are none when all packages
that are left wait for each other. -/
def takeLeaves (graph : ImportGraph) : List RawPackage × ImportGraph :=
  let (leaves, others) := graph.packages.partition graph.isLeaf
  (leaves, ⟨others⟩)

/-- The packages to check next: those that wait for none, or all if there are none. -/
def takeBatch (graph : ImportGraph) : List RawPackage × ImportGraph :=
  match graph.takeLeaves with
  | ([], _) => (graph.packages, ⟨[]⟩)
  | batch => batch

/-- Passes over a graph in so many steps. -/
def passesWithin : Nat → ImportGraph → List (List RawPackage)
  | 0, _ => []
  | steps + 1, graph =>
    if graph.isEmpty then []
    else
      let (batch, rest) := graph.takeBatch
      batch :: passesWithin steps rest

/-- The packages in the order of their checks, pass by pass. Each pass takes one package or
more. -/
def passes (graph : ImportGraph) : List (List RawPackage) := passesWithin graph.size graph

end ImportGraph

end PackageAtlas
