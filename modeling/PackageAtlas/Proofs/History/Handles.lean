import PackageAtlas.Proofs.History.Independence

/-!
Packages that stay. A cache is filled at different moments: package by package while a load checks
them, pattern by pattern at its end. A load that fails in between leaves the packages that were good
by then. Whatever the loads, a package that was cached once stays the answer for its identity, and
the packages of a pattern or of a result are the cached ones.
-/

set_option autoImplicit false
set_option relaxedAutoImplicit false

namespace PackageAtlas

namespace PackageCache

/-- A package is the cached one of its identity. -/
def Holds (cache : PackageCache) (package : ResolvedPackage) : Prop :=
  cache.find? package.identity = some package

/-- Each package is cached under its own identity, and the packages of patterns are cached. -/
structure Filed (cache : PackageCache) : Prop where
  identities : ∀ identity package, cache.find? identity = some package →
    package.identity = identity
  groups : ∀ pattern group, cache.groups.find? pattern = some group →
    ∀ package ∈ group, cache.Holds package

/-- What was cached is cached later, the same for each identity and each pattern. -/
structure Extends (cache later : PackageCache) : Prop where
  packages : ∀ identity package, cache.find? identity = some package →
    later.find? identity = some package
  groups : ∀ pattern group, cache.groups.find? pattern = some group →
    later.groups.find? pattern = some group

/-- Packages are added in good order, and no pattern is. -/
structure Fills (cache later : PackageCache) : Prop where
  filed : cache.Filed → later.Filed
  grows : cache.Extends later
  groups : later.groups = cache.groups

variable {cache middle later : PackageCache}

theorem filed_empty : empty.Filed where
  identities _ _ h := by cases h
  groups _ _ h := by cases h

theorem Filed.holds (h : cache.Filed) {identity : String} {package : ResolvedPackage}
    (hfound : cache.find? identity = some package) : cache.Holds package := by
  rw [Holds, h.identities identity package hfound]
  exact hfound

theorem Extends.refl (cache : PackageCache) : cache.Extends cache :=
  ⟨fun _ _ h ↦ h, fun _ _ h ↦ h⟩

theorem Extends.trans (h : cache.Extends middle) (h' : middle.Extends later) :
    cache.Extends later :=
  ⟨fun identity package hfound ↦ h'.packages identity package (h.packages identity package hfound),
    fun pattern group hfound ↦ h'.groups pattern group (h.groups pattern group hfound)⟩

theorem Extends.holds (h : cache.Extends later) {package : ResolvedPackage}
    (hpackage : cache.Holds package) : later.Holds package :=
  h.packages _ _ hpackage

theorem Fills.refl (cache : PackageCache) : cache.Fills cache :=
  ⟨id, Extends.refl cache, rfl⟩

theorem Fills.trans (h : cache.Fills middle) (h' : middle.Fills later) : cache.Fills later :=
  ⟨fun hfiled ↦ h'.filed (h.filed hfiled), h.grows.trans h'.grows, h'.groups.trans h.groups⟩

/-- A package is added only under an identity that is new, which is its own. -/
theorem fills_add (cache : PackageCache) (package : ResolvedPackage) :
    cache.Fills (cache.add package) := by
  unfold add
  split
  · exact Fills.refl cache
  · rename_i hnew
    have hself : (cache.packages.insert package.identity package).find? package.identity =
        some package := Dict.find?_insert_self _ _ _
    have hother : ∀ identity, identity ≠ package.identity →
        (cache.packages.insert package.identity package).find? identity = cache.find? identity :=
      fun identity hne ↦ Dict.find?_insert_of_ne _ _ hne
    have hkept : ∀ identity found, cache.find? identity = some found →
        (cache.packages.insert package.identity package).find? identity = some found := by
      intro identity found hfound
      have hne : identity ≠ package.identity := by
        rintro rfl
        exact hnew (Option.isSome_iff_exists.mpr ⟨found, hfound⟩)
      rw [hother identity hne, hfound]
    refine ⟨fun hfiled ↦ ⟨?_, ?_⟩, ⟨hkept, fun _ _ h ↦ h⟩, rfl⟩
    · intro identity found hfound
      by_cases heq : identity = package.identity
      · subst heq
        cases hself.symm.trans hfound
        rfl
      · exact hfiled.identities identity found ((hother identity heq).symm.trans hfound)
    · intro pattern group hgroup member hmember
      exact hkept _ _ (hfiled.groups pattern group hgroup member hmember)

theorem find?_add_eq_some {cache : PackageCache} {package found : ResolvedPackage}
    {identity : String} (h : (cache.add package).find? identity = some found) :
    cache.find? identity = some found ∨ (package = found ∧ package.identity = identity) := by
  unfold add at h
  split at h
  · exact .inl h
  · by_cases heq : identity = package.identity
    · cases heq
      exact .inr ⟨Option.some.inj ((Dict.find?_insert_self _ _ _).symm.trans h), rfl⟩
    · exact .inl ((Dict.find?_insert_of_ne _ _ heq).symm.trans h)

theorem extends_addGroup (cache : PackageCache) (pattern : String)
    (group : List ResolvedPackage) : cache.Extends (cache.addGroup pattern group) := by
  unfold addGroup
  split
  · exact Extends.refl cache
  · rename_i hnew
    refine ⟨fun _ _ h ↦ h, fun other found hfound ↦ ?_⟩
    have hne : other ≠ pattern := by
      rintro rfl
      exact hnew (Option.isSome_iff_exists.mpr ⟨found, hfound⟩)
    exact (Dict.find?_insert_of_ne _ _ hne).trans hfound

theorem find?_addGroup (cache : PackageCache) (pattern : String) (group : List ResolvedPackage)
    (identity : String) : (cache.addGroup pattern group).find? identity = cache.find? identity := by
  unfold addGroup
  split <;> rfl

theorem find?_foldl_addGroup (cache : PackageCache)
    (entries : List (String × List ResolvedPackage)) (identity : String) :
    (entries.foldl (fun cache entry ↦ cache.addGroup entry.1 entry.2) cache).find? identity =
      cache.find? identity := by
  induction entries generalizing cache with
  | nil => rfl
  | cons entry rest ih => exact (ih _).trans (find?_addGroup _ _ _ _)

theorem Filed.addGroup (h : cache.Filed) (pattern : String) {group : List ResolvedPackage}
    (hgroup : ∀ package ∈ group, cache.Holds package) : (cache.addGroup pattern group).Filed := by
  unfold PackageCache.addGroup
  split
  · exact h
  · refine ⟨h.identities, fun other found hfound ↦ ?_⟩
    by_cases heq : other = pattern
    · subst heq
      cases (Dict.find?_insert_self _ _ _).symm.trans hfound
      exact hgroup
    · exact h.groups other found ((Dict.find?_insert_of_ne _ _ heq).symm.trans hfound)

/-- The packages of a load are kept with its patterns. -/
theorem Filed.foldl_addGroup (h : cache.Filed) {entries : List (String × List ResolvedPackage)}
    (hentries : ∀ entry ∈ entries, ∀ package ∈ entry.2, cache.Holds package) :
    (entries.foldl (fun cache entry ↦ cache.addGroup entry.1 entry.2) cache).Filed ∧
      cache.Extends (entries.foldl (fun cache entry ↦ cache.addGroup entry.1 entry.2) cache) := by
  induction entries generalizing cache with
  | nil => exact ⟨h, Extends.refl cache⟩
  | cons entry rest ih =>
    obtain ⟨hentry, hrest⟩ := List.forall_mem_cons.mp hentries
    have hmore : ∀ other ∈ rest, ∀ package ∈ other.2,
        (cache.addGroup entry.1 entry.2).Holds package :=
      fun other hother package hpackage ↦
        (find?_addGroup _ _ _ _).trans (hrest other hother package hpackage)
    obtain ⟨hfiled, hgrows⟩ := ih (h.addGroup entry.1 hentry) hmore
    exact ⟨hfiled, (extends_addGroup cache entry.1 entry.2).trans hgrows⟩

/-- What a cache has for a pattern is cached. -/
theorem Filed.group? (h : cache.Filed) {pattern : String} {group : List ResolvedPackage}
    (hgroup : cache.group? pattern = some group) : ∀ package ∈ group, cache.Holds package := by
  unfold PackageCache.group? at hgroup
  split at hgroup
  · rename_i packages hfound
    cases hgroup
    exact h.groups pattern _ hfound
  · split at hgroup
    · obtain ⟨package, hpackage, rfl⟩ := Option.map_eq_some_iff.mp hgroup
      intro member hmember
      rw [List.mem_singleton.mp hmember]
      exact h.holds hpackage
    · cases hgroup

end PackageCache

namespace Load

open PackageCache (Filed Fills Extends Holds)

variable {α β : Type}

/-! ### Steps of a load -/

/-- A step adds packages in good order, and no pattern. -/
def FillsCache (step : Load α) : Prop :=
  ∀ w a later, step.run w = some (a, later) → w.cache.Fills later.cache

theorem FillsCache.pure (a : α) : FillsCache (Pure.pure a : Load α) := by
  intro w b later h
  cases h
  exact Fills.refl _

theorem FillsCache.bind {step : Load α} {k : α → Load β} (h : FillsCache step)
    (hk : ∀ a, FillsCache (k a)) : FillsCache (step >>= k) := by
  intro w b later hrun
  obtain ⟨a, middle, hstep, hlater⟩ := run_bind_eq_some hrun
  exact (h w a middle hstep).trans (hk a middle b later hlater)

theorem FillsCache.mapM {step : α → Load β} (h : ∀ a, FillsCache (step a)) (list : List α) :
    FillsCache (list.mapM step) := by
  induction list with
  | nil => exact FillsCache.pure []
  | cons a rest ih =>
    rw [List.mapM_cons]
    exact (h a).bind fun b ↦ ih.bind fun others ↦ FillsCache.pure (b :: others)

theorem fillsCache_of_cache_eq {step : Load α}
    (h : ∀ w a later, step.run w = some (a, later) → later.cache = w.cache) : FillsCache step := by
  intro w a later hrun
  rw [h w a later hrun]
  exact Fills.refl _

theorem fillsCache_checkAndCache (loader : Nat) (raw : RawPackage) :
    FillsCache (checkAndCache loader raw) := by
  refine FillsCache.bind (fillsCache_of_cache_eq fun _ _ _ h ↦ (run_check h).2.2) fun verdict ↦ ?_
  cases verdict with
  | error error => exact FillsCache.pure _
  | ok package =>
    intro w _ later h
    cases h
    exact PackageCache.fills_add w.cache package

theorem fillsCache_checkPasses (loader : Nat) (passes : List (List RawPackage)) :
    FillsCache (checkPasses loader passes) := by
  induction passes with
  | nil => exact FillsCache.pure _
  | cons pass passes ih =>
    refine FillsCache.bind (FillsCache.mapM (fillsCache_checkAndCache loader) pass) fun results ↦ ?_
    cases firstError results with
    | error error => exact FillsCache.pure _
    | ok _ => exact ih

/-! ### Whole loads -/

/-- What a load does to the cache: it keeps the order and all that is cached. The packages that it
gives are cached; if it fails, it adds no pattern. -/
structure Hands (cache later : PackageCache)
    (result : Except LoadError (List ResolvedPackage)) : Prop where
  filed : later.Filed
  grows : cache.Extends later
  held : ∀ packages, result = .ok packages → ∀ package ∈ packages, later.Holds package
  failed : ∀ error, result = .error error → later.groups = cache.groups

variable {cache later : PackageCache} {error : LoadError}

theorem hands_of_failure (hfiled : cache.Filed) (h : cache.Fills later) :
    Hands cache later (.error error) where
  filed := h.filed hfiled
  grows := h.grows
  held _ hok := by cases hok
  failed _ _ := h.groups

theorem holds_of_mem_groupOf (h : cache.Filed) {identities : List String} :
    ∀ package ∈ groupOf cache identities, cache.Holds package := by
  intro package hpackage
  obtain ⟨identity, -, hfound⟩ := List.mem_filterMap.mp hpackage
  exact h.holds hfound

theorem hands_loadMissing {loader : Nat} {wanted : List String} {w later : Workspace}
    {result : Except LoadError (List (List ResolvedPackage))} (hfiled : w.cache.Filed)
    (h : (loadMissing loader wanted).run w = some (result, later)) :
    Hands w.cache later.cache (result.map List.flatten) := by
  have hdiscovered {found : Except LoadError Discovery} {middle : Workspace}
      (hdiscover : (discover loader wanted).run w = some (found, middle)) :
      w.cache.Fills middle.cache := by
    obtain ⟨-, hsame, -⟩ := run_discovering hdiscover
    exact hsame ▸ Fills.refl _
  cases endsMissing_of_run h with
  | undiscovered hdiscover => exact hands_of_failure hfiled (hdiscovered hdiscover)
  | unmatched hdiscover => exact hands_of_failure hfiled (hdiscovered hdiscover)
  | refused hdiscover _ hpasses =>
    exact hands_of_failure hfiled
      ((hdiscovered hdiscover).trans (fillsCache_checkPasses _ _ _ _ _ hpasses))
  | @loaded found _ checked hdiscover _ hpasses =>
    have hchecked := (hdiscovered hdiscover).trans (fillsCache_checkPasses _ _ _ _ _ hpasses)
    have hheld : ∀ group ∈ found.groups.map (groupOf checked.cache), ∀ package ∈ group,
        checked.cache.Holds package := by
      intro group hgroup
      obtain ⟨identities, -, rfl⟩ := List.mem_map.mp hgroup
      exact holds_of_mem_groupOf (hchecked.filed hfiled)
    obtain ⟨hlater, hgrows⟩ := (hchecked.filed hfiled).foldl_addGroup
      fun entry hentry ↦ hheld entry.2 (List.of_mem_zip hentry).2
    refine ⟨hlater, hchecked.grows.trans hgrows, ?_, fun _ herror ↦ (by cases herror)⟩
    rintro packages hpackages package hpackage
    cases hpackages
    obtain ⟨group, hgroup, hmember⟩ := List.mem_flatten.mp hpackage
    exact hgrows.holds (hheld group hgroup package hmember)

theorem mem_fillGroups {cached : List (Option (List ResolvedPackage))}
    {missing : List (List ResolvedPackage)} {group : List ResolvedPackage}
    (h : group ∈ fillGroups cached missing) :
    some group ∈ cached ∨ group ∈ missing ∨ group = [] := by
  fun_induction fillGroups cached missing with
  | case1 => cases h
  | case2 first rest missing ih =>
    rcases List.mem_cons.mp h with rfl | hrest
    · exact Or.inl List.mem_cons_self
    · exact (ih hrest).imp_left (List.mem_cons_of_mem _)
  | case3 rest first missing ih =>
    rcases List.mem_cons.mp h with rfl | hrest
    · exact Or.inr (Or.inl List.mem_cons_self)
    · exact (ih hrest).imp (List.mem_cons_of_mem _) (Or.imp_left (List.mem_cons_of_mem _))
  | case4 rest ih =>
    rcases List.mem_cons.mp h with rfl | hrest
    · exact Or.inr (Or.inr rfl)
    · exact (ih hrest).imp_left (List.mem_cons_of_mem _)

theorem mem_of_mem_firstOfIdentity {seen : List String} {packages : List ResolvedPackage}
    {package : ResolvedPackage} (h : package ∈ firstOfIdentity seen packages) :
    package ∈ packages := by
  fun_induction firstOfIdentity seen packages with
  | case1 => cases h
  | case2 seen first rest hseen ih => exact List.mem_cons_of_mem _ (ih h)
  | case3 seen first rest hseen ih =>
    rcases List.mem_cons.mp h with rfl | hrest
    · exact List.mem_cons_self
    · exact List.mem_cons_of_mem _ (ih hrest)

/-- The packages of a result are cached if those of the cached patterns and of the missing ones
are. -/
theorem holds_of_mem_result {wanted : List String} {missing : List (List ResolvedPackage)}
    (hcached : ∀ pattern group, cache.group? pattern = some group →
      ∀ package ∈ group, later.Holds package)
    (hmissing : ∀ package ∈ missing.flatten, later.Holds package) {package : ResolvedPackage}
    (h : package ∈ firstOfIdentity [] (fillGroups (wanted.map cache.group?) missing).flatten) :
    later.Holds package := by
  obtain ⟨group, hgroup, hmember⟩ := List.mem_flatten.mp (mem_of_mem_firstOfIdentity h)
  rcases mem_fillGroups hgroup with hin | hin | rfl
  · obtain ⟨pattern, -, hfound⟩ := List.mem_map.mp hin
    exact hcached pattern group hfound package hmember
  · exact hmissing package (List.mem_flatten.mpr ⟨group, hin, hmember⟩)
  · cases hmember

theorem hands_patterns {loader : Nat} {wanted : List String} {w later : Workspace}
    {result : Except LoadError (List ResolvedPackage)} (hfiled : w.cache.Filed)
    (h : (patterns loader wanted).run w = some (result, later)) :
    Hands w.cache later.cache result := by
  have hcached : ∀ pattern group, w.cache.group? pattern = some group →
      ∀ package ∈ group, w.cache.Holds package := fun _ _ hgroup ↦ hfiled.group? hgroup
  obtain ⟨loaded, rfl, ⟨-, rfl, rfl⟩ | hload⟩ := exists_of_patterns h
  · refine ⟨hfiled, Extends.refl _, ?_, fun _ herror ↦ (by cases herror)⟩
    rintro packages hpackages package hpackage
    cases hpackages
    exact holds_of_mem_result hcached (fun _ hin ↦ (by cases hin)) hpackage
  · have hhands := hands_loadMissing hfiled hload
    cases loaded with
    | error error =>
      exact ⟨hhands.filed, hhands.grows, fun _ hok ↦ (by cases hok), fun _ _ ↦ hhands.failed _ rfl⟩
    | ok groups =>
      refine ⟨hhands.filed, hhands.grows, ?_, fun _ herror ↦ (by cases herror)⟩
      rintro packages hpackages package hpackage
      cases hpackages
      exact holds_of_mem_result
        (fun pattern group hgroup member hmember ↦
          hhands.grows.holds (hcached pattern group hgroup member hmember))
        (hhands.held _ rfl) hpackage

/-! ### Sequences of loads -/

end Load

/-- A call of a load: the files as they are by then, the loader, and the patterns. -/
structure LoadCall where
  tree : FileTree
  loader : Nat
  wanted : List String

namespace Load

/-- Runs a call of a load. -/
def call (c : LoadCall) : Load (Except LoadError (List ResolvedPackage)) := do
  modify fun w ↦ { w with tree := c.tree }
  patterns c.loader c.wanted

/-- Runs calls one after the other, also after failures. -/
def calls (list : List LoadCall) : Load (List (Except LoadError (List ResolvedPackage))) :=
  list.mapM call

open PackageCache (Filed Extends)

theorem hands_call {c : LoadCall} {w later : Workspace}
    {result : Except LoadError (List ResolvedPackage)} (hfiled : w.cache.Filed)
    (h : (call c).run w = some (result, later)) : Hands w.cache later.cache result := by
  obtain ⟨_, _, hmodify, hrest⟩ := run_bind_eq_some h
  cases hmodify
  exact hands_patterns (w := { w with tree := c.tree }) hfiled hrest

theorem run_calls {list : List LoadCall} {w later : Workspace}
    {results : List (Except LoadError (List ResolvedPackage))} (hfiled : w.cache.Filed)
    (h : (calls list).run w = some (results, later)) :
    later.cache.Filed ∧ w.cache.Extends later.cache := by
  induction list generalizing w results with
  | nil =>
    cases h
    exact ⟨hfiled, Extends.refl _⟩
  | cons c rest ih =>
    rw [calls, List.mapM_cons] at h
    obtain ⟨result, middle, hcall, hrest⟩ := run_bind_eq_some h
    obtain ⟨others, last, hothers, hpure⟩ := run_bind_eq_some hrest
    cases hpure
    have hhands := hands_call hfiled hcall
    obtain ⟨hlater, hgrows⟩ := ih hhands.filed hothers
    exact ⟨hlater, hhands.grows.trans hgrows⟩

/-- Whatever loads run over a cache, and whichever of them fail: a package that is cached stays the
one of its identity, the packages that are kept for patterns are the cached ones, and those that a
load gives are so for ever. A load that fails adds no pattern and replaces no package. -/
theorem calls_keep_handles {tree : FileTree} {loaders : List Loader}
    {before after : List LoadCall} {c : LoadCall} {w middle later : Workspace}
    {earlier others : List (Except LoadError (List ResolvedPackage))}
    {result : Except LoadError (List ResolvedPackage)}
    (hbefore : (calls before).run (Workspace.start tree loaders) = some (earlier, w))
    (hcall : (call c).run w = some (result, middle))
    (hafter : (calls after).run middle = some (others, later)) :
    (∀ identity package, w.cache.find? identity = some package →
        later.cache.find? identity = some package) ∧
      (∀ pattern group, later.cache.groups.find? pattern = some group →
        ∀ package ∈ group, later.cache.find? package.identity = some package) ∧
      (∀ packages, result = .ok packages →
        ∀ package ∈ packages, later.cache.find? package.identity = some package) ∧
      ∀ error, result = .error error → middle.cache.groups = w.cache.groups ∧
        ∀ identity package, w.cache.find? identity = some package →
          middle.cache.find? identity = some package := by
  obtain ⟨hw, -⟩ := run_calls (w := Workspace.start tree loaders) PackageCache.filed_empty hbefore
  have hhands := hands_call hw hcall
  obtain ⟨hlater, hgrows⟩ := run_calls hhands.filed hafter
  refine ⟨(hhands.grows.trans hgrows).packages, hlater.groups, ?_, ?_⟩
  · intro packages hok package hpackage
    exact hgrows.holds (hhands.held packages hok package hpackage)
  · exact fun error herror ↦ ⟨hhands.failed error herror, hhands.grows.packages⟩

/-- Three packages, each of which imports the one before it; the last one is broken. -/
def brokenTree : FileTree := ⟨.dir [⟨"src", .dir [
  ⟨"app", .dir [⟨"a.go", .text "package app\nimport \"dep\"\nvar X int = dep.S\n"⟩]⟩,
  ⟨"base", .dir [⟨"b.go", .text "package base\nconst S = \"\"\n"⟩]⟩,
  ⟨"dep", .dir [⟨"d.go", .text "package dep\nimport \"base\"\nvar S = base.S\n"⟩]⟩]⟩]⟩

/-- Two loaders share a cache, and the load of the second one fails at its last package. -/
theorem brokenTree_keeps_handles :
    ∃ earlier others error w middle later base dep,
      (calls [⟨brokenTree, 0, ["base"]⟩]).run
        (Workspace.start brokenTree [plainLoader, plainLoader]) = some (earlier, w) ∧
      (call ⟨brokenTree, 1, ["app", "dep"]⟩).run w = some (.error error, middle) ∧
      (calls [⟨brokenTree, 0, ["gone"]⟩, ⟨brokenTree, 1, ["./..."]⟩, ⟨brokenTree, 0, ["dep"]⟩]).run
        middle = some (others, later) ∧
      w.cache.find? "base" = some base ∧ later.cache.find? "base" = some base ∧
      middle.cache.find? "dep" = some dep ∧ middle.cache.groups = w.cache.groups := by
  have hruns : (StateT.run (do
      let _ ← calls [⟨brokenTree, 0, ["base"]⟩]
      let w ← get
      let result ← call ⟨brokenTree, 1, ["app", "dep"]⟩
      let middle ← get
      let _ ← calls
        [⟨brokenTree, 0, ["gone"]⟩, ⟨brokenTree, 1, ["./..."]⟩, ⟨brokenTree, 0, ["dep"]⟩]
      return (w.cache.contains "base", result.toOption.isNone, middle.cache.contains "dep"))
        (Workspace.start brokenTree [plainLoader, plainLoader])).map Prod.fst =
      some (true, true, true) := by decide +kernel
  obtain ⟨⟨_, later⟩, hrun, hfound⟩ := Option.map_eq_some_iff.mp hruns
  obtain ⟨earlier, w, hbefore, hrun⟩ := run_bind_eq_some hrun
  obtain ⟨_, _, hget, hrun⟩ := run_bind_eq_some hrun
  cases hget
  obtain ⟨result, middle, hcall, hrun⟩ := run_bind_eq_some hrun
  obtain ⟨_, _, hget, hrun⟩ := run_bind_eq_some hrun
  cases hget
  obtain ⟨others, _, hafter, hpure⟩ := run_bind_eq_some hrun
  cases hpure
  injection hfound with hbase hrest
  injection hrest with hfailed hdep
  obtain ⟨base, hbase⟩ := Option.isSome_iff_exists.mp hbase
  obtain ⟨dep, hdep⟩ := Option.isSome_iff_exists.mp hdep
  cases result with
  | ok packages => cases hfailed
  | error error =>
    obtain ⟨hkept, -, -, hnone⟩ := calls_keep_handles hbefore hcall hafter
    exact ⟨earlier, others, error, w, middle, later, base, dep, hbefore, hcall, hafter, hbase,
      hkept "base" base hbase, hdep, (hnone error rfl).1⟩

end Load

end PackageAtlas
