import PackageAtlas.Load.RawPackage
import PackageAtlas.Load.Site
import PackageAtlas.Parse.File

/-!
The packages of a directory. Its files are parsed and grouped by the name of their package: one
package takes part in the build, one holds the external tests, and the others are excluded. Files
with foreign code are given to a tool, whose output replaces them.
-/

set_option autoImplicit false
set_option relaxedAutoImplicit false

namespace PackageAtlas

/-- A step that may ask a tool for foreign code; the requests are kept, also if it fails. -/
abbrev Prepare := ExceptT LoadError (StateM (List PreprocessRequest))

/-- The files of a directory that declare the same package. -/
structure PackageGroup where
  name : String
  files : List ParsedFile

namespace PackageGroup

def isTest (group : PackageGroup) : Bool := group.name.endsWith "_test"

def isBuildable (group : PackageGroup) : Bool := group.files.any (·.isBuildable)

/-- The groups of files by the name of their package, sorted by it. -/
def ofFiles (files : List ParsedFile) : List PackageGroup :=
  let names := RawPackage.distinct
    ((files.map (·.file.packageName.name)).mergeSort fun first second ↦ first ≤ second)
  names.map fun name ↦ ⟨name, files.filter (·.file.packageName.name == name)⟩

/-- The groups of a directory with their variants: the main package, that of the tests, and the
excluded ones. A single excluded package is the main one if no other is. -/
def withVariants (dir : String) (groups : List PackageGroup) :
    Except LoadError (List (PackageGroup × Variant)) := do
  let tests := groups.filter isTest
  let others := groups.filter (!isTest ·)
  let candidates := others.filter isBuildable
  let excluded := others.filter (!isBuildable ·)
  let noBuild := excluded.map fun group ↦ (group, Variant.noBuild group.name)
  let test := tests.map (·, Variant.externalTest)
  match tests, candidates, excluded with
  | _ :: _ :: _, _, _ => throw (.multipleTestPackages dir)
  | _, first :: second :: _, _ => throw (.ambiguousPackage dir first.name second.name)
  | _, [primary], _ => return (primary, .primary) :: test ++ noBuild
  | _, [], [single] => return (single, .primary) :: test
  | _, [], _ => return test ++ noBuild

end PackageGroup

namespace Site

/-- Whether an item of a directory is a source file. -/
def isSource (item : FileItem) : Bool :=
  item.node.isFile && Path.extension? item.name == some "go"

/-- Registers and parses a text as a file. -/
def parseText (space : FileSet) (name text : String) : Except LoadError (FileSet × SourceFile) :=
  match space.parseFile name text with
  | (_, .error error) => .error (.parse error)
  | (space, .ok file) => .ok (space, file)

/-- Whether a file takes part in the build. -/
def builds (site : Site) (file : SourceFile) (text : String) : Bool :=
  site.config.build.matchesFile file.baseName text file.importsForeign

/-- Registers and parses files, one after the other. -/
def parseFiles (site : Site) : FileSet → List String → Except LoadError (FileSet × List ParsedFile)
  | space, [] => return (space, [])
  | space, path :: paths => do
    let text ← (site.tree.read path).mapError (LoadError.unreadable path)
    let (space, file) ← parseText space path text
    let (space, files) ← parseFiles site space paths
    return (space, ⟨file, site.builds file text⟩ :: files)

/-! ### Foreign code -/

/-- Files with one more, in place of the file of its name or at the end. -/
def substitute (name : String) (made : ParsedFile) : List ParsedFile → List ParsedFile
  | [] => [made]
  | file :: rest =>
    if file.file.baseName = name then made :: rest else file :: substitute name made rest

/-- Files with what a tool made. -/
def substituteAll (dir : String) :
    FileSet → List ParsedFile → List PreprocessedFile → Except LoadError (FileSet × List ParsedFile)
  | space, files, [] => return (space, files)
  | space, files, output :: outputs => do
    let (space, file) ← parseText space (Path.join dir output.displayName) output.contents
    substituteAll dir space (substitute output.displayName ⟨file, true⟩ files) outputs

/-- The files of a package that a tool has to replace. -/
def foreignFiles (files : List ParsedFile) : List String :=
  (files.filter fun file ↦ file.isBuildable && file.file.importsForeign).map (·.file.baseName)

/-- Runs the tool for the files of a package that have foreign code. -/
def preprocess (site : Site) (dir identity : String) (space : FileSet)
    (files : List ParsedFile) : Prepare (FileSet × List ParsedFile) := do
  match foreignFiles files with
  | [] => return (space, files)
  | foreign =>
    match site.preprocessor with
    | none => throw (.missingPreprocessor identity)
    | some run =>
      let request : PreprocessRequest := ⟨dir, identity, foreign⟩
      modify (· ++ [request])
      match run request with
      | .error failure => throw (.preprocessor identity failure)
      | .ok outputs => substituteAll dir space files outputs

/-! ### Packages -/

/-- The packages of the groups of a directory. -/
def packages (site : Site) (dir base : String) :
    FileSet → List (PackageGroup × Variant) → Prepare (FileSet × List RawPackage)
  | space, [] => return (space, [])
  | space, (group, variant) :: groups => do
    let identity := variant.identity base
    let (space, files) ← site.preprocess dir identity space group.files
    let (space, raws) ← packages site dir base space groups
    return (space, RawPackage.ofFiles identity dir group.name space files :: raws)

/-- Parses the files of a directory into a space of their own, and makes its packages under the path
of the directory. -/
def parseDir (site : Site) (space : SpaceId) (dir base : String) :
    Prepare (FileSet × List RawPackage) := do
  let items ← (site.tree.list dir).mapError (LoadError.unreadable dir)
  let paths := (items.filter isSource).map fun item ↦ Path.join dir item.name
  let (files, parsed) ← site.parseFiles (FileSet.empty space) paths
  let sorted ← PackageGroup.withVariants dir (PackageGroup.ofFiles parsed)
  site.packages dir base files sorted

end Site

end PackageAtlas
