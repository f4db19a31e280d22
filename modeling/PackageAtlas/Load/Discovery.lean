import PackageAtlas.Load.Directory
import PackageAtlas.Types.Atlas

/-!
Discovery: from patterns to the packages that they ask for. A directory is parsed once under each of
its names, however many patterns reach it. Trees are walked root by root, and for each name the
first root wins.
-/

set_option autoImplicit false
set_option relaxedAutoImplicit false

namespace PackageAtlas

/-- The packages found for some patterns, and the identities for each of them. -/
structure Discovery where
  packages : Dict String RawPackage
  groups : List (List String)
deriving Inhabited

structure DiscoveryState where
  atlas : Atlas
  requests : List PreprocessRequest
  packages : Dict String RawPackage
  /-- The identities found in each directory, by the name of the directory. -/
  visited : Dict String (List String)

namespace DiscoveryState

/-- The state before a discovery. -/
def start (atlas : Atlas) (requests : List PreprocessRequest) : DiscoveryState :=
  ⟨atlas, requests, Dict.empty, Dict.empty⟩

end DiscoveryState

/-- A step of a discovery. -/
abbrev Discover := ExceptT LoadError (StateM DiscoveryState)

namespace Discover

/-- Parses a directory and gives its files a space. -/
def parse (site : Site) (dir base : String) : Discover (List RawPackage) := do
  let s ← get
  let (result, requests) := (site.parseDir s.atlas.nextSpace dir base).run.run s.requests
  set { s with requests }
  let (space, raws) ← result
  modify fun s ↦ { s with atlas := s.atlas.addSpace space }
  return raws

/-- The identities of the packages of a directory, which is parsed if it was not visited. -/
def visit (site : Site) (dir base : String) : Discover (List String) := do
  match (← get).visited.find? base with
  | some ids => return ids
  | none =>
    let raws ← parse site dir base
    let ids := raws.map (·.identity)
    modify fun s ↦
      { s with
        packages := raws.foldl (fun found raw ↦ found.insert raw.identity raw) s.packages
        visited := s.visited.insert base ids }
    return ids

/-- The directory of an exact path. -/
def exactDir? (site : Site) (path : String) : Option String :=
  if isLocalPath path then site.findLocal? site.config.workingDir path
  else site.findInRoots? path

/-- The package that an exact pattern names. -/
def exact (site : Site) (path : String) (variant : Variant) : Discover String := do
  let wanted := variant.identity path
  match exactDir? site path with
  | none => throw (.packageNotFound wanted)
  | some dir =>
    if (← visit site dir path).contains wanted then return wanted
    else throw (.packageNotFound wanted)

/-- The path of a directory that names lead to. -/
def below (root : String) (names : List String) : String := names.foldl Path.join root

/-- The name of a directory below the base of a local pattern. -/
def localName (base : String) (names : List String) : String :=
  match names with
  | [] =>
    let bare := (base.toList.reverse.dropWhile (· == '/')).reverse
    if bare.isEmpty then "." else String.ofList bare
  | _ => base ++ Path.slashed names

/-- The packages that match a local pattern. -/
def localTree (site : Site) (matcher : PatternMatcher) : Discover (List String) := do
  let base := matcher.walkBase
  let root := Path.join site.config.workingDir base
  let found := (site.tree.walk root site.enters).filter (matcher.accepts <| localName base ·)
  let ids ← found.mapM fun names ↦ visit site (below root names) (localName base names)
  return ids.flatten

/-! ### Trees below the roots -/

/-- A directory below a root: its name there, and its path. -/
structure NamedDir where
  name : String
  dir : String
deriving DecidableEq, Repr

/-- The directories below a root that may hold what some patterns ask for, without the root. -/
def rootDirs (site : Site) (matchers : List PatternMatcher) (root : String) : List NamedDir :=
  let enter (names : List String) : Bool :=
    site.enters names && matchers.any (·.canAcceptBelow (Path.slashed names))
  ((site.tree.walk root enter).filter (· ≠ [])).map fun names ↦
    ⟨Path.slashed names, below root names⟩

/-- The directories of each name that come first. -/
def firstOfName (seen : List String) : List NamedDir → List NamedDir
  | [] => []
  | dir :: rest =>
    if seen.contains dir.name then firstOfName seen rest
    else dir :: firstOfName (dir.name :: seen) rest

/-- The packages below all roots, with the name of their directory, that match one of some
patterns. -/
def trees (site : Site) (matchers : List PatternMatcher) :
    Discover (List (String × List String)) := do
  let dirs := firstOfName [] (site.config.roots.flatMap (rootDirs site matchers))
  (dirs.filter fun dir ↦ matchers.any (·.accepts dir.name)).mapM fun dir ↦ do
    return (dir.name, ← visit site dir.dir dir.name)

/-- What a pattern found by itself, or the matcher of a tree, which is walked together with all
other trees. -/
def ownGroup (site : Site) (pattern : String) :
    Discover (Except PatternMatcher (List String)) := do
  match Pattern.parse pattern with
  | .exact path variant => return .ok [← exact site path variant]
  | .locals matcher => return .ok (← localTree site matcher)
  | .tree matcher => return .error matcher

/-- The matcher of a tree that is still to be walked. -/
def matcher? : Except PatternMatcher (List String) → Option PatternMatcher
  | .error matcher => some matcher
  | .ok _ => none

/-- The group of a pattern, read off the walked trees if it is one. -/
def groupOf (found : List (String × List String)) :
    Except PatternMatcher (List String) → List String
  | .ok ids => ids
  | .error matcher => (found.filter (matcher.accepts ·.1)).flatMap (·.2)

/-- The packages that patterns ask for. -/
def patterns (site : Site) (wanted : List String) : Discover Discovery := do
  let own ← wanted.mapM (ownGroup site)
  let found ← trees site (own.filterMap matcher?)
  return ⟨(← get).packages, own.map (groupOf found)⟩

end Discover

end PackageAtlas
