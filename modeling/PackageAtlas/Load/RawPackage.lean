import PackageAtlas.Source.FileSet
import PackageAtlas.Tree.LiteralValue

/-!
Packages that are parsed but not checked. The files of a package are sorted by name; those that do
not take part in the build are kept and marked.
-/

set_option autoImplicit false
set_option relaxedAutoImplicit false

namespace PackageAtlas

/-- A parsed file, and whether it takes part in the build. -/
structure ParsedFile where
  file : SourceFile
  isBuildable : Bool
deriving Inhabited

structure RawPackage where
  identity : String
  dir : String
  name : String
  /-- The space of all packages of the directory. -/
  space : FileSet
  files : List SourceFile
  /-- The names of the files that do not take part in the build. -/
  excluded : List String
deriving Inhabited

namespace RawPackage

/-- The package of some files. -/
def ofFiles (identity dir name : String) (space : FileSet) (files : List ParsedFile) :
    RawPackage :=
  let sorted := files.mergeSort fun first second ↦ first.file.name ≤ second.file.name
  let excluded := (sorted.filter (!·.isBuildable)).map (·.file.name)
  ⟨identity, dir, name, space, sorted.map (·.file), excluded⟩

/-- The package of some files, named by the first of them. -/
def assemble (identity dir : String) (space : FileSet) (files : List ParsedFile) : RawPackage :=
  let name := (files.head?.map (·.file.packageName.name)).getD ""
  ofFiles identity dir name space files

def isBuildable (raw : RawPackage) (file : SourceFile) : Bool := !raw.excluded.contains file.name

def buildableFiles (raw : RawPackage) : List SourceFile := raw.files.filter raw.isBuildable

def excludedFiles (raw : RawPackage) : List SourceFile := raw.files.filter (!raw.isBuildable ·)

/-- A sorted list without repetitions. -/
def distinct : List String → List String
  | first :: second :: rest =>
    if first = second then distinct (second :: rest) else first :: distinct (second :: rest)
  | short => short

/-- The paths that the files import, sorted, each once. -/
def imports (raw : RawPackage) : List String :=
  distinct ((raw.files.flatMap SourceFile.importPaths).mergeSort fun first second ↦ first ≤ second)

end RawPackage

end PackageAtlas
