import PackageAtlas.Check.Package
import PackageAtlas.Load.Dedupe
import PackageAtlas.Load.Error
import PackageAtlas.Load.Lifetime
import PackageAtlas.Types.Atlas

/-!
Checked packages. All files of a package are checked together, those of the build first, so that the
whole directory can be queried. A problem in a file that does not take part in the build is no
problem of the package, and neither is an unused name.
-/

set_option autoImplicit false
set_option relaxedAutoImplicit false

namespace PackageAtlas

/-- Where the imports of a package are resolved: the loader that does it, and the directory from
which it does. -/
structure ImportPlace where
  loader : Nat
  dir : String
deriving DecidableEq, Repr, Inhabited

/-- A package after its check. -/
structure ResolvedPackage where
  identity : String
  dir : String
  tree : PackageTree
  space : FileSet
  scope : PackageScope
  info : TypeInfo
  lifetimes : LifetimeIndex
  place : ImportPlace
deriving Inhabited

namespace ResolvedPackage

/-- The path that the package was checked as. -/
def path (package : ResolvedPackage) : String := package.scope.path

/-- The identity of this check of the package. -/
def handle (package : ResolvedPackage) : NodeId := package.tree.id

def root (package : ResolvedPackage) : Node := .package package.tree

def lifetime? (package : ResolvedPackage) (id : SymbolId) : Option Lifetime :=
  package.lifetimes.find? id

/-- The symbols that the package mentions and that pass a test, by their first mention. -/
def search (package : ResolvedPackage) (test : SymbolId → Bool) : List SymbolId :=
  package.lifetimes.symbols.filter test

/-- Where the package has a symbol: its first mention, or its declaration if it has no name. -/
def placeOf (package : ResolvedPackage) (store : Store) (id : SymbolId) : Nat :=
  ((package.lifetime? id).map (·.span.start)).getD (store.get id).pos

/-- The symbols that the package mentions or makes without a name, by their place. -/
def objects (package : ResolvedPackage) (store : Store) : List SymbolId :=
  let unnamed := package.info.implicits.values.filter fun id ↦ (package.lifetime? id).isNone
  (package.lifetimes.symbols ++ unnamed).mergeSort fun first second ↦
    package.placeOf store first ≤ package.placeOf store second

end ResolvedPackage

namespace RawPackage

/-- The files in the order of their check: those of the build come first. -/
def checkOrder (raw : RawPackage) : List SourceFile := raw.buildableFiles ++ raw.excludedFiles

/-- Whether a problem is one of the package. -/
def isFatal (raw : RawPackage) (diagnostic : Diagnostic) : Bool :=
  !diagnostic.isSoft &&
    !((raw.space.file? diagnostic.pos).map (·.name)).any raw.excluded.contains

/-- The first problem of the package. -/
def failure? (raw : RawPackage) (diagnostics : List Diagnostic) : Option LoadError :=
  (diagnostics.find? raw.isFatal).map fun diagnostic ↦
    let location := (raw.space.location? diagnostic.pos).getD (Location.inFile raw.dir)
    .analysis raw.identity location diagnostic.problem

/-- What a check of the package starts from. -/
def input (raw : RawPackage) (importer : String → Except ImportError PackageScope) :
    CheckInput :=
  ⟨raw.identity, raw.space.space, importer, true⟩

/-- The package with what its check found out. -/
def resolved (raw : RawPackage) (place : ImportPlace) (checked : Checked) : ResolvedPackage :=
  { identity := raw.identity
    dir := raw.dir
    tree := PackageTree.ofFiles raw.space.space raw.name raw.files
    space := raw.space
    scope := checked.scope
    info := checked.info
    lifetimes := LifetimeIndex.ofInfo checked.info
    place }

/-- Checks a package with names made different, and gives the store with its symbols; without a
result when the check has none. -/
def check (raw : RawPackage) (place : ImportPlace)
    (importer : String → Except ImportError PackageScope) (store : Store) :
    Option (Except LoadError ResolvedPackage × Store) := do
  let deduped := raw.dedupe.1
  let checked ← checkFiles (deduped.input importer) deduped.checkOrder store
  match deduped.failure? checked.diagnostics with
  | some error => return (.error error, checked.store)
  | none => return (.ok (deduped.resolved place checked), checked.store)

/-- The paths that have to be resolved before the package is checked, in the order of its files. -/
def neededPaths (raw : RawPackage) : List String :=
  ((raw.checkOrder.flatMap SourceFile.importPaths).filter (· ≠ foreignPath)).eraseDups

end RawPackage

end PackageAtlas
