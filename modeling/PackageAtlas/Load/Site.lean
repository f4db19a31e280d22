import PackageAtlas.Load.Error
import PackageAtlas.Project.Config
import PackageAtlas.Project.Pattern

/-!
Sites: where packages are loaded from, and where an import is looked for. An import with a dot at
its start is looked for from the importing directory; all others are looked for below the roots,
vendored copies first.
-/

set_option autoImplicit false
set_option relaxedAutoImplicit false

namespace PackageAtlas

/-- A file tree, a configuration, and the tool for foreign code. -/
structure Site where
  tree : FileTree
  config : LoadConfig
  preprocessor : Option Preprocessor

namespace Site

/-- The directory of a path below the first root that has it. -/
def findInRoots? (site : Site) (path : String) : Option String :=
  (site.config.roots.map (Path.join · path)).find? site.tree.isDir

/-- The directory that a local path leads to. -/
def findLocal? (site : Site) (base path : String) : Option String :=
  if site.tree.isDir (Path.join base path) then some (Path.join base path) else none

/-- The directory that an import leads to, and the path under which it is found there. -/
def locate? (site : Site) (path : String) (importing : Option String) : Option (String × String) :=
  if isLocalPath path then
    (site.findLocal? (importing.getD site.config.workingDir) path).map (·, path)
  else
    (site.config.importCandidates path importing).findSome? fun candidate ↦
      (site.findInRoots? candidate).map (·, candidate)

/-- Whether walks pass by a directory: hidden, marked or reserved ones. -/
def skipsDir (site : Site) (name : String) : Bool :=
  name.startsWith "." || name.startsWith "_" || site.config.isReserved name

/-- Whether a walk goes into the directory that names lead to. -/
def enters (site : Site) (names : List String) : Bool :=
  !names.getLast?.any site.skipsDir

end Site

end PackageAtlas
