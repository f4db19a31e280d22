import PackageAtlas.Check.Package
import PackageAtlas.Load.Directory
import PackageAtlas.Types.Atlas

/-!
Imports from source. An imported package is checked without its tests and without the files that do
not take part in the build, after everything that it imports itself. Each directory is checked once;
one that is met again while it is being checked is a cycle.
-/

set_option autoImplicit false
set_option relaxedAutoImplicit false

namespace PackageAtlas

/-- The results for the directories that were checked, and the directories that are being checked,
by the parts of their paths. -/
structure ImportMemo where
  done : List (List String × Except ImportError PackageScope)
  inProgress : List (List String)
deriving Inhabited

namespace ImportMemo

def empty : ImportMemo := ⟨[], []⟩

end ImportMemo

structure ImportState where
  atlas : Atlas
  memo : ImportMemo

/-- A step of an import; without a result when imports nest too deep. -/
abbrev Importing := StateT ImportState Option

/-- How a path is imported from a directory. -/
abbrev Importer := String → Option String → Importing (Except ImportError PackageScope)

namespace Importing

/-- Whether an item of a directory is a file of the importable package. -/
def isImportable (item : FileItem) : Bool :=
  item.node.isFile && item.name.endsWith ".go" && !item.name.endsWith "_test.go"

/-- Parses the files of an importable package into a space; those that do not take part in the build
are left out. The error is a text. -/
def parseFiles (site : Site) : FileSet → List String → Except String (FileSet × List SourceFile)
  | space, [] => return (space, [])
  | space, path :: paths => do
    let text ← (site.tree.read path).mapError ReadError.message
    match space.parseFile path text with
    | (_, .error error) => throw error.text
    | (space, .ok file) =>
      let (space, files) ← parseFiles site space paths
      return (space, if site.builds file text then file :: files else files)

/-- The files of a directory as one package. The error is a text. -/
def packageFiles (site : Site) (space : SpaceId) (dir : String) :
    Except String (FileSet × List SourceFile) := do
  let items ← (site.tree.list dir).mapError ReadError.message
  let paths := (items.filter isImportable).map fun item ↦ Path.join dir item.name
  let (space, files) ← parseFiles site (FileSet.empty space) paths
  match files with
  | [] => throw ("no buildable source files in " ++ dir)
  | first :: _ =>
    match files.find? (·.packageName.name != first.packageName.name) with
    | some other =>
      throw ("found packages " ++ first.packageName.name ++ " and " ++ other.packageName.name ++
        " in " ++ dir)
    | none => return (space, files)

/-- Imports paths from a directory, one after the other. -/
def importAll (importer : Importer) (dir : String) (paths : List String) :
    Importing (List (String × Except ImportError PackageScope)) :=
  paths.mapM fun path ↦ do return (path, ← importer path (some dir))

/-- The results of imports as a function. -/
def resultOf (results : List (String × Except ImportError PackageScope)) (path : String) :
    Except ImportError PackageScope :=
  (results.lookup path).getD (.error (.notFound path))

/-- The text of the first problem that makes a package unusable. -/
def failureText? (space : FileSet) (dir : String) (checked : Checked) : Option String :=
  checked.hard.head?.map fun diagnostic ↦
    ((space.location? diagnostic.pos).map Location.text).getD dir ++ ": " ++ diagnostic.message

/-- Checks files as a package that is found under a path. -/
def checkImported (importer : Importer) (dir path : String) (space : FileSet)
    (files : List SourceFile) : Importing (Except ImportError PackageScope) := do
  let paths := ((files.flatMap SourceFile.importPaths).filter (· ≠ foreignPath)).eraseDups
  let results ← importAll importer dir paths
  let s ← get
  let checked ← checkFiles ⟨path, space.space, resultOf results, true⟩ files s.atlas.store
  set { s with atlas := { s.atlas with store := checked.store } }
  match failureText? space dir checked with
  | some text => return .error (.broken path text)
  | none => return .ok checked.scope

/-- Checks the package of a directory. -/
def checkDir (site : Site) (importer : Importer) (dir path : String) :
    Importing (Except ImportError PackageScope) := do
  match packageFiles site (← get).atlas.nextSpace dir with
  | .error text => return .error (.broken path text)
  | .ok (space, files) =>
    modify fun s ↦ { s with atlas := s.atlas.addSpace space }
    checkImported importer dir path space files

/-- Runs the check of a directory, unless it was run before or is running. -/
def once (dir path : String) (check : Importing (Except ImportError PackageScope)) :
    Importing (Except ImportError PackageScope) := do
  let key := Path.parts dir
  let memo := (← get).memo
  match memo.done.lookup key with
  | some result => return result
  | none =>
    if memo.inProgress.contains key then return .error (.cycle path)
    modify fun s ↦ { s with memo.inProgress := key :: s.memo.inProgress }
    let result ← check
    modify fun s ↦
      { s with memo := ⟨(key, result) :: s.memo.done, s.memo.inProgress.erase key⟩ }
    return result

/-- Imports a path from a directory, with imports nested no deeper than a number. -/
def within (site : Site) : Nat → Importer
  | 0 => fun _ _ _ ↦ none
  | depth + 1 => fun path importing ↦ do
    match site.locate? path importing with
    | none => return .error (.notFound path)
    | some (dir, found) => once dir found (checkDir site (within site depth) dir found)

/-- How deep imports nest: each goes to another directory, and two dots in paths may lead to a
directory under several names. -/
def depthFor (site : Site) : Nat :=
  let places := (site.tree.walk "." fun _ ↦ true).length + 2
  places * places

/-- Imports a path from a directory. -/
def fromSource (site : Site) : Importer := within site (depthFor site)

end Importing

end PackageAtlas
