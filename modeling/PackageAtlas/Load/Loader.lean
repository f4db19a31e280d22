import PackageAtlas.Load.Graph
import PackageAtlas.Load.Workspace

/-!
Loads. What is cached is taken from there; the rest is discovered and checked in the order of its
imports, each package as soon as those it imports are cached.
-/

set_option autoImplicit false
set_option relaxedAutoImplicit false

namespace PackageAtlas.Load

/-- Runs a step of a discovery for a loader. -/
def discovering {α : Type} (loader : Nat) (step : Site → Discover α) :
    Load (Except LoadError α) := do
  let w ← get
  let start := DiscoveryState.start w.atlas (w.loader loader).requests
  let (result, s) := (step (w.site loader)).run.run start
  set ({ w with atlas := s.atlas }.changeLoader loader ({ · with requests := s.requests }))
  return result

/-- The packages that patterns ask for, parsed but not checked. -/
def discover (loader : Nat) (patterns : List String) : Load (Except LoadError Discovery) :=
  discovering loader (Discover.patterns · patterns)

/-- The packages of a directory under a path, parsed but not checked. -/
def parseDir (loader : Nat) (dir base : String) : Load (Except LoadError (List RawPackage)) :=
  discovering loader (Discover.parse · dir base)

/-- Checks a package and caches it if it is good. -/
def checkAndCache (loader : Nat) (raw : RawPackage) : Load (Except LoadError Unit) := do
  match ← check ⟨loader, raw.dir⟩ raw with
  | .error error => return .error error
  | .ok package =>
    modify fun w ↦ { w with cache := w.cache.add package }
    return .ok ()

/-- The first error among results. -/
def firstError : List (Except LoadError Unit) → Except LoadError Unit
  | [] => .ok ()
  | .error error :: _ => .error error
  | .ok () :: rest => firstError rest

/-- Checks pass after pass; a pass is checked to its end, also after an error. -/
def checkPasses (loader : Nat) : List (List RawPackage) → Load (Except LoadError Unit)
  | [] => return .ok ()
  | pass :: passes => do
    match firstError (← pass.mapM (checkAndCache loader)) with
    | .error error => return .error error
    | .ok () => checkPasses loader passes

/-- The cached packages of identities, sorted, each once. -/
def groupOf (cache : PackageCache) (identities : List String) : List ResolvedPackage :=
  (RawPackage.distinct (identities.mergeSort fun first second ↦ first ≤ second)).filterMap
    cache.find?

/-- The first pattern that nothing was found for. -/
def unmatched? (patterns : List String) (groups : List (List String)) : Option String :=
  ((patterns.zip groups).find? (·.2.isEmpty)).map (·.1)

/-- The packages to check: those that were asked for and are not cached. -/
def pending (cache : PackageCache) (found : Discovery) : List RawPackage :=
  (found.packages.entries.filter fun (identity, _) ↦
    found.groups.flatten.contains identity && !cache.contains identity).map (·.2)

/-- Loads patterns that are not cached, and gives the packages of each. -/
def loadMissing (loader : Nat) (patterns : List String) :
    Load (Except LoadError (List (List ResolvedPackage))) := do
  match ← discover loader patterns with
  | .error error => return .error error
  | .ok found =>
    match unmatched? patterns found.groups with
    | some pattern => return .error (.noMatch pattern)
    | none =>
      let graph := ImportGraph.ofPackages (pending (← get).cache found)
      match ← checkPasses loader graph.passes with
      | .error error => return .error error
      | .ok () =>
        let groups := found.groups.map (groupOf (← get).cache)
        modify fun w ↦
          { w with cache := (patterns.zip groups).foldl (fun cache (pattern, group) ↦
              cache.addGroup pattern group) w.cache }
        return .ok groups

/-- Puts the groups of the missing patterns into their places. -/
def fillGroups : List (Option (List ResolvedPackage)) → List (List ResolvedPackage) →
    List (List ResolvedPackage)
  | [], _ => []
  | some group :: rest, missing => group :: fillGroups rest missing
  | none :: rest, group :: missing => group :: fillGroups rest missing
  | none :: rest, [] => [] :: fillGroups rest []

/-- The packages that come first with their identities. -/
def firstOfIdentity (seen : List String) : List ResolvedPackage → List ResolvedPackage
  | [] => []
  | package :: rest =>
    if seen.contains package.identity then firstOfIdentity seen rest
    else package :: firstOfIdentity (package.identity :: seen) rest

/-- Loads the packages of patterns: those of each pattern sorted by identity, pattern by pattern,
and each package where it is first asked for. -/
def patterns (loader : Nat) (wanted : List String) :
    Load (Except LoadError (List ResolvedPackage)) := do
  let cached := wanted.map (← get).cache.group?
  let missing := (wanted.zip cached).filterMap fun (pattern, group) ↦
    if group.isNone then some pattern else none
  if missing.isEmpty then return .ok (firstOfIdentity [] (fillGroups cached []).flatten)
  match ← loadMissing loader missing with
  | .error error => return .error error
  | .ok groups => return .ok (firstOfIdentity [] (fillGroups cached groups).flatten)

end PackageAtlas.Load
