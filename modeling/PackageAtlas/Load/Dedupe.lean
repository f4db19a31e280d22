import PackageAtlas.Load.RawPackage
import PackageAtlas.Tree.Rename
import PackageAtlas.Types.Dict

/-!
Names declared twice. All files of a package are checked together, so a package-level name of a file
that does not take part in the build gives way when it is taken: it gets a new name, everywhere in
its file. Methods are told apart by the type of their receiver.
-/

set_option autoImplicit false
set_option relaxedAutoImplicit false

namespace PackageAtlas

/-- What may be declared once: a package-level name, or a method of a type. -/
structure DeclKey where
  owner : Option String
  name : String
deriving DecidableEq, Repr

namespace DeclKey

/-- The key of a function or method, if it has one. Initializers have none. -/
def ofFunc? (decl : FuncDecl) : Option DeclKey :=
  if decl.receiver.isSome then decl.receiverBase?.map fun base ↦ ⟨some base.name, decl.name.name⟩
  else if decl.name.name = "init" then none
  else some ⟨none, decl.name.name⟩

/-- The names that a spec declares. -/
def ofSpec : Spec → List DeclKey
  | .imports _ => []
  | .value spec => spec.names.map fun name ↦ ⟨none, name.name⟩
  | .type spec => [⟨none, spec.name.name⟩]

def ofDecl : Decl → List DeclKey
  | .func decl => (ofFunc? decl).toList
  | .gen decl => decl.specs.flatMap ofSpec

/-- The keys of what a file declares, blank names left out. -/
def ofFile (file : SourceFile) : List DeclKey :=
  (file.decls.flatMap ofDecl).filter (·.name != "_")

/-- The new name with a number. -/
def numbered (name : String) (number : Nat) : String := name ++ "_nobuild" ++ toString number

/-- The first new name that is free. Among as many numbers as names are taken, and one more, there
is one. -/
def freeName (taken : List DeclKey) (key : DeclKey) : String :=
  (((List.range (taken.length + 1)).map fun k ↦ numbered key.name (k + 1)).find? fun name ↦
    !taken.contains ⟨key.owner, name⟩).getD ""

/-- Takes a key; one that is taken already gets a new name, which is taken too. -/
def claim (key : DeclKey) : StateM (List DeclKey) (Option String) := do
  let taken ← get
  if taken.contains key then
    let name := freeName taken key
    set (⟨key.owner, name⟩ :: taken)
    return some name
  else
    set (key :: taken)
    return none

end DeclKey

namespace SourceFile

/-- New names for the package-level names of a file that are taken. -/
def claimNames (file : SourceFile) : StateM (List DeclKey) (Dict String String) :=
  ((DeclKey.ofFile file).filter (·.owner.isNone)).foldlM (fun renames key ↦ do
    match ← key.claim with
    | some name => return renames.insert key.name name
    | none => return renames) Dict.empty

/-- A declaration with a new name if it is a method that is declared already, and whether it got
one. The type of the receiver counts under its new name. -/
def claimMethod (renames : Dict String String) (decl : Decl) :
    StateM (List DeclKey) (Decl × Bool) := do
  match decl with
  | .gen _ => return (decl, false)
  | .func func =>
    match func.receiverBase? with
    | none => return (decl, false)
    | some base =>
      let owner := (renames.find? base.name).getD base.name
      match ← (DeclKey.mk (some owner) func.name.name).claim with
      | none => return (decl, false)
      | some name => return (.func { func with name.name := name }, true)

/-- A file with new names for all that is declared already, and how many got one. -/
def dedupe (file : SourceFile) : StateM (List DeclKey) (SourceFile × Nat) := do
  let renames ← file.claimNames
  let decls ← file.decls.mapM (claimMethod renames)
  let claimed : SourceFile := { file with decls := decls.map Prod.fst }
  return ((claimed.rename renames.entries).1, decls.countP Prod.snd + renames.entries.length)

end SourceFile

namespace RawPackage

/-- Renames the files that do not take part in the build, one after the other. -/
def dedupeFiles (raw : RawPackage) : StateM (List DeclKey) (List SourceFile × Nat) := do
  let renamed : List (SourceFile × Nat) ← raw.files.mapM fun file ↦
    if raw.isBuildable file then return (file, 0) else file.dedupe
  return (renamed.map (·.1), renamed.foldl (fun count file ↦ count + file.2) 0)

/-- The package without names that are declared twice, and how many declarations got a new name. The
files that take part in the build keep their names. -/
def dedupe (raw : RawPackage) : RawPackage × Nat :=
  let taken := raw.buildableFiles.flatMap DeclKey.ofFile
  let ((files, count), _) := raw.dedupeFiles.run taken
  ({ raw with files }, count)

end RawPackage

end PackageAtlas
