import PackageAtlas.Load.Discovery
import PackageAtlas.Load.Importer
import PackageAtlas.Load.Resolved

/-!
Workspaces: several loaders over one file tree and one cache. A checked package is never dropped
from the cache or replaced, so that it stays the answer for its identity; the packages of a pattern
that was loaded are kept too.
-/

set_option autoImplicit false
set_option relaxedAutoImplicit false

namespace PackageAtlas

/-- Checked packages by identity, and those of each pattern that was loaded. -/
structure PackageCache where
  packages : Dict String ResolvedPackage
  groups : Dict String (List ResolvedPackage)
deriving Inhabited

namespace PackageCache

def empty : PackageCache := ⟨Dict.empty, Dict.empty⟩

def find? (cache : PackageCache) (identity : String) : Option ResolvedPackage :=
  cache.packages.find? identity

def contains (cache : PackageCache) (identity : String) : Bool :=
  cache.packages.contains identity

def size (cache : PackageCache) : Nat := cache.packages.entries.length

/-- Adds a package, unless there is one of its identity. -/
def add (cache : PackageCache) (package : ResolvedPackage) : PackageCache :=
  if cache.contains package.identity then cache
  else { cache with packages := cache.packages.insert package.identity package }

/-- Keeps the packages of a pattern, unless they are kept already. -/
def addGroup (cache : PackageCache) (pattern : String) (packages : List ResolvedPackage) :
    PackageCache :=
  if cache.groups.contains pattern then cache
  else { cache with groups := cache.groups.insert pattern packages }

/-- The packages of a pattern that was loaded, or of an exact path that is cached. -/
def group? (cache : PackageCache) (pattern : String) : Option (List ResolvedPackage) :=
  match cache.groups.find? pattern with
  | some packages => some packages
  | none =>
    match Pattern.parse pattern with
    | .exact path variant => (cache.find? (variant.identity path)).map ([·])
    | _ => none

end PackageCache

/-- A loader: its configuration, the tool for foreign code with the requests it got so far, and the
directories that were imported from source. -/
structure Loader where
  config : LoadConfig
  preprocessor : Option Preprocessor
  requests : List PreprocessRequest := []
  memo : ImportMemo := .empty

instance : Inhabited Loader := ⟨{ config := default, preprocessor := none }⟩

/-- What a package was asked for, and the answers. -/
structure LookupMemo where
  types : List ((NodeId × String) × Ty)
  objects : List ((NodeId × String) × SymbolId)
deriving Inhabited

structure Workspace where
  tree : FileTree
  atlas : Atlas
  cache : PackageCache
  loaders : List Loader
  lookups : LookupMemo

namespace Workspace

/-- A workspace in which nothing was loaded. -/
def start (tree : FileTree) (loaders : List Loader) : Workspace :=
  ⟨tree, Atlas.start, PackageCache.empty, loaders, ⟨[], []⟩⟩

def loader (workspace : Workspace) (number : Nat) : Loader :=
  workspace.loaders[number]?.getD default

def site (workspace : Workspace) (number : Nat) : Site :=
  let loader := workspace.loader number
  ⟨workspace.tree, loader.config, loader.preprocessor⟩

def changeLoader (workspace : Workspace) (number : Nat) (change : Loader → Loader) : Workspace :=
  { workspace with loaders := workspace.loaders.modify number change }

end Workspace

/-- A step in a workspace; without a result when a check has none. -/
abbrev Load := StateT Workspace Option

namespace Load

def store : Load Store := return (← get).atlas.store

/-- Imports a path from source, with the memory of a loader. -/
def importFromSource (loader : Nat) (path : String) (importing : Option String) :
    Load (Except ImportError PackageScope) := do
  let w ← get
  let (result, s) ← Importing.fromSource (w.site loader) path importing
    ⟨w.atlas, (w.loader loader).memo⟩
  set ({ w with atlas := s.atlas }.changeLoader loader ({ · with memo := s.memo }))
  return result

/-- The cached package that an import may take: the first candidate that is cached, before one that
is a directory below a root. -/
def cachedImport? (site : Site) (cache : PackageCache) :
    List String → Option ResolvedPackage
  | [] => none
  | candidate :: rest =>
    match cache.find? candidate with
    | some package => some package
    | none => if (site.findInRoots? candidate).isSome then none else cachedImport? site cache rest

/-- Imports a path: from the cache if it is there, else from source. -/
def importPath (loader : Nat) (path : String) (importing : Option String) :
    Load (Except ImportError PackageScope) := do
  let w ← get
  let site := w.site loader
  let candidates :=
    if isLocalPath path then [] else site.config.importCandidates path importing
  match cachedImport? site w.cache candidates with
  | some package => return .ok package.scope
  | none => importFromSource loader path importing

/-- Imports paths for a package, one after the other. -/
def importAll (place : ImportPlace) (paths : List String) :
    Load (List (String × Except ImportError PackageScope)) :=
  paths.mapM fun path ↦ do return (path, ← importPath place.loader path (some place.dir))

/-- Checks a package after everything that it imports. -/
def check (place : ImportPlace) (raw : RawPackage) :
    Load (Except LoadError ResolvedPackage) := do
  let results ← importAll place raw.neededPaths
  let (result, store) ← raw.check place (Importing.resultOf results) (← store)
  modify fun w ↦ { w with atlas.store := store }
  return result

end Load

end PackageAtlas
