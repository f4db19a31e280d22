import PackageAtlas.Build.Context
import PackageAtlas.Project.Path

/-!
Load configurations: where packages are looked for and for which build.
-/

set_option autoImplicit false
set_option relaxedAutoImplicit false

namespace PackageAtlas

/-- Settings as a user writes them; each may be absent. -/
structure Settings where
  paths : Option String
  os : Option String
  arch : Option String
  tags : Option String
  interop : Option String
deriving DecidableEq, Repr

/-- Where and how packages are loaded. -/
structure LoadConfig where
  roots : List String
  workingDir : String
  build : BuildContext
  reservedDirs : List String
deriving DecidableEq, Repr, Inhabited

namespace LoadConfig

/-- The directory names that walks skip in any configuration. -/
def defaultReserved : List String := ["testdata"]

/-- The items of a list with a separator, empty ones left out. -/
def listItems (separator : Char) (text : String) : List String :=
  ((Text.splitOn separator text.toList).filter (· ≠ [])).map String.ofList

/-- Whether a setting switches foreign code on. -/
def switchedOn (setting : Option String) : Bool :=
  setting.any fun text ↦ Text.trim text.toList == ['1']

/-- The configuration that settings give, on top of the platform of the host. A root that has a
source directory stands for that directory. -/
def ofSettings (settings : Settings) (hostOs hostArch workingDir : String)
    (isDir : String → Bool) : LoadConfig :=
  let roots := (listItems ':' (settings.paths.getD "")).map fun root ↦
    if isDir (Path.join root "src") then Path.join root "src" else root
  let tags := ((Text.splitOn ',' (settings.tags.getD "").toList).map Text.trim).filter (· ≠ [])
  let build : BuildContext := {
    os := settings.os.getD hostOs
    arch := settings.arch.getD hostArch
    tags := tags.map String.ofList
    foreignInterop := switchedOn settings.interop }
  ⟨roots, workingDir, build, defaultReserved⟩

/-- Whether walks skip directories of this name. -/
def isReserved (config : LoadConfig) (name : String) : Bool :=
  config.reservedDirs.contains name

/-- The first root that a directory is below, and the path from there. -/
def rootRelative? (config : LoadConfig) (dir : String) : Option (String × String) :=
  config.roots.findSome? fun root ↦
    (Path.below? root dir).map fun parts ↦ (root, Path.slashed parts)

/-- The directories whose vendored packages come first for an importing directory: its own path
below its root and the paths above it, the nearest first. -/
def vendorPlaces (parts : List String) : List (List String) :=
  (List.range (parts.length + 1)).reverse.map parts.take

/-- The vendored path of an import at a place. -/
def vendored (place : List String) (path : String) : String :=
  Path.slashed (place ++ ["vendor", path])

/-- The paths to try for an import from a directory: vendored copies, the nearest first, and then
the path itself. -/
def importCandidates (config : LoadConfig) (path : String) (dir : Option String) : List String :=
  let places :=
    match dir.bind config.rootRelative? with
    | none => []
    | some (_, rel) => vendorPlaces (listItems '/' rel)
  places.map (vendored · path) ++ [path]

end LoadConfig

end PackageAtlas
