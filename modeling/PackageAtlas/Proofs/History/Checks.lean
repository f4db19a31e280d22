import Mathlib.Tactic.Push
import PackageAtlas.Load.Loader
import PackageAtlas.Proofs.History.Visits
import PackageAtlas.Proofs.Passes.Order

/-!
What checks change. Imports from source and checks leave the cache and the sites alone; a pass adds
the packages whose checks succeed, each under its identity, and replaces none. All errors of checks
are broken rules.
-/

set_option autoImplicit false
set_option relaxedAutoImplicit false

namespace PackageAtlas

/-- An error about a rule that a package breaks; all others come from before its check. -/
def LoadError.IsAnalysis (error : LoadError) : Prop :=
  ∃ identity location problem, error = .analysis identity location problem

namespace Workspace

theorem site_changeLoader (w : Workspace) (number other : Nat) {change : Loader → Loader}
    (hconfig : ∀ loader, (change loader).config = loader.config)
    (hpreprocessor : ∀ loader, (change loader).preprocessor = loader.preprocessor) :
    (w.changeLoader number change).site other = w.site other := by
  have hloader : ((w.changeLoader number change).loader other).config = (w.loader other).config ∧
      ((w.changeLoader number change).loader other).preprocessor =
        (w.loader other).preprocessor := by
    unfold loader changeLoader
    dsimp only
    rw [List.getElem?_modify]
    cases w.loaders[other]? with
    | none => exact ⟨rfl, rfl⟩
    | some loader =>
      by_cases hnumber : number = other
      · rw [Option.map_eq_map, Option.map_some, if_pos hnumber]
        exact ⟨hconfig loader, hpreprocessor loader⟩
      · rw [Option.map_eq_map, Option.map_some, if_neg hnumber]
        exact ⟨rfl, rfl⟩
  unfold site
  dsimp only
  rw [hloader.1, hloader.2]
  rfl

end Workspace

namespace Load

variable {α β : Type}

theorem run_bind_eq_some {step : Load α} {k : α → Load β} {w later : Workspace} {b : β}
    (h : (step >>= k).run w = some (b, later)) :
    ∃ a middle, step.run w = some (a, middle) ∧ (k a).run middle = some (b, later) := by
  rw [StateT.run_bind] at h
  obtain ⟨⟨a, middle⟩, hstep, hk⟩ := Option.bind_eq_some_iff.mp h
  exact ⟨a, middle, hstep, hk⟩

/-- A step leaves the sites and the cache as they are. -/
def Keeps (step : Load α) : Prop :=
  ∀ w a later, step.run w = some (a, later) →
    (∀ number, later.site number = w.site number) ∧ later.cache = w.cache

theorem Keeps.pure (a : α) : Keeps (Pure.pure a : Load α) := by
  intro w b later h
  cases h
  exact ⟨fun _ ↦ rfl, rfl⟩

theorem Keeps.bind {step : Load α} {k : α → Load β} (h : Keeps step) (hk : ∀ a, Keeps (k a)) :
    Keeps (step >>= k) := by
  intro w b later hrun
  obtain ⟨a, middle, hstep, hlater⟩ := run_bind_eq_some hrun
  obtain ⟨hsites, hcache⟩ := h w a middle hstep
  obtain ⟨hmore, hsame⟩ := hk a middle b later hlater
  exact ⟨fun number ↦ (hmore number).trans (hsites number), hsame.trans hcache⟩

theorem Keeps.mapM {step : α → Load β} (h : ∀ a, Keeps (step a)) (list : List α) :
    Keeps (list.mapM step) := by
  induction list with
  | nil => exact Keeps.pure []
  | cons a rest ih =>
    rw [List.mapM_cons]
    exact (h a).bind fun b ↦ ih.bind fun others ↦ Keeps.pure (b :: others)

theorem keeps_get : Keeps get := by
  intro w a later h
  cases h
  exact ⟨fun _ ↦ rfl, rfl⟩

theorem keeps_importFromSource (loader : Nat) (path : String) (importing : Option String) :
    Keeps (importFromSource loader path importing) := by
  intro w a later h
  obtain ⟨_, middle, hget, hrest⟩ := run_bind_eq_some h
  cases hget
  obtain ⟨⟨result, s⟩, middle, -, hset⟩ := run_bind_eq_some hrest
  cases hset
  exact ⟨fun number ↦ Workspace.site_changeLoader _ loader number (fun _ ↦ rfl) fun _ ↦ rfl, rfl⟩

theorem keeps_importPath (loader : Nat) (path : String) (importing : Option String) :
    Keeps (importPath loader path importing) := by
  unfold importPath
  refine keeps_get.bind fun w ↦ ?_
  dsimp only
  split
  · exact Keeps.pure _
  · exact keeps_importFromSource loader path importing

theorem keeps_importAll (place : ImportPlace) (paths : List String) :
    Keeps (importAll place paths) :=
  Keeps.mapM (fun path ↦ (keeps_importPath place.loader path (some place.dir)).bind fun _ ↦
    Keeps.pure _) paths

/-- What a check gives: a package under the identity, or a rule that is broken. -/
def Judges (identity : String) (result : Except LoadError ResolvedPackage) : Prop :=
  match result with
  | .ok package => package.identity = identity
  | .error error => error.IsAnalysis

end Load

namespace RawPackage

theorem identity_dedupe (raw : RawPackage) : raw.dedupe.1.identity = raw.identity := rfl

theorem judges_check {raw : RawPackage} {place : ImportPlace}
    {importer : String → Except ImportError PackageScope} {store later : Store}
    {result : Except LoadError ResolvedPackage}
    (h : raw.check place importer store = some (result, later)) :
    Load.Judges raw.identity result := by
  unfold check at h
  obtain ⟨checked, -, hrest⟩ := Option.bind_eq_some_iff.mp h
  cases hfailure : raw.dedupe.1.failure? checked.diagnostics with
  | some error =>
    rw [hfailure] at hrest
    cases hrest
    obtain ⟨diagnostic, -, rfl⟩ := Option.map_eq_some_iff.mp hfailure
    exact ⟨_, _, _, rfl⟩
  | none =>
    rw [hfailure] at hrest
    cases hrest
    exact raw.identity_dedupe

end RawPackage

namespace Load

theorem run_check {place : ImportPlace} {raw : RawPackage} {w later : Workspace}
    {result : Except LoadError ResolvedPackage}
    (h : (check place raw).run w = some (result, later)) :
    Judges raw.identity result ∧ (∀ number, later.site number = w.site number) ∧
      later.cache = w.cache := by
  obtain ⟨results, middle, himports, hrest⟩ := run_bind_eq_some h
  obtain ⟨hsites, hcache⟩ := keeps_importAll place raw.neededPaths w results middle himports
  obtain ⟨current, _, hstore, hcheck⟩ := run_bind_eq_some hrest
  cases hstore
  obtain ⟨⟨verdict, store⟩, last, hraw, hset⟩ := run_bind_eq_some hcheck
  obtain ⟨⟨outcome, made⟩, hsome, hlast⟩ := Option.bind_eq_some_iff.mp hraw
  cases hlast
  cases hset
  exact ⟨RawPackage.judges_check hsome, hsites, hcache⟩

/-! ### Growing caches -/

/-- A cache has more packages than before, all of them from a list of identities. -/
structure Grows (identities : List String) (cache later : PackageCache) : Prop where
  found : ∀ identity package, later.find? identity = some package →
    cache.find? identity = some package ∨
      (package.identity = identity ∧ identity ∈ identities)
  kept : ∀ identity, cache.contains identity = true → later.contains identity = true
  groups : later.groups = cache.groups

theorem Grows.refl (identities : List String) (cache : PackageCache) :
    Grows identities cache cache :=
  ⟨fun _ _ h ↦ Or.inl h, fun _ h ↦ h, rfl⟩

theorem Grows.trans {identities others : List String} {cache middle later : PackageCache}
    (h : Grows identities cache middle) (h' : Grows others middle later) :
    Grows (identities ++ others) cache later where
  found identity package hfound := by
    rcases h'.found identity package hfound with hmiddle | ⟨hidentity, hin⟩
    · exact (h.found identity package hmiddle).imp_right fun hnew ↦
        ⟨hnew.1, List.mem_append_left others hnew.2⟩
    · exact Or.inr ⟨hidentity, List.mem_append_right identities hin⟩
  kept identity hin := h'.kept identity (h.kept identity hin)
  groups := h'.groups.trans h.groups

theorem grows_add (cache : PackageCache) (package : ResolvedPackage) :
    Grows [package.identity] cache (cache.add package) ∧
      (cache.add package).contains package.identity = true := by
  unfold PackageCache.add
  by_cases hcontains : cache.contains package.identity = true
  · rw [if_pos hcontains]
    exact ⟨Grows.refl _ cache, hcontains⟩
  · rw [if_neg hcontains]
    refine ⟨⟨?_, ?_, rfl⟩, ?_⟩
    · intro identity other hother
      change (cache.packages.insert package.identity package).find? identity = some other at hother
      by_cases heq : identity = package.identity
      · rw [heq, Dict.find?_insert_self] at hother
        cases hother
        exact Or.inr ⟨heq.symm, List.mem_singleton.mpr heq⟩
      · rw [Dict.find?_insert_of_ne _ _ heq] at hother
        exact Or.inl hother
    · intro identity hin
      exact (Dict.contains_insert _ _ _ _).mpr (Or.inr hin)
    · exact (Dict.contains_insert _ _ _ _).mpr (Or.inl rfl)

/-- What checks of packages lead to: the same sites, a cache with some more of them, with all of
them if there is no error, and no error but for broken rules. -/
structure ChecksTo (identities : List String) (w later : Workspace)
    (result : Except LoadError Unit) : Prop where
  sites : ∀ number, later.site number = w.site number
  grows : Grows identities w.cache later.cache
  all : result = .ok () → ∀ identity ∈ identities, later.cache.contains identity = true
  broken : ∀ error, result = .error error → error.IsAnalysis

theorem run_checkAndCache {loader : Nat} {raw : RawPackage} {w later : Workspace}
    {result : Except LoadError Unit}
    (h : (checkAndCache loader raw).run w = some (result, later)) :
    ChecksTo [raw.identity] w later result := by
  obtain ⟨verdict, middle, hcheck, hrest⟩ := run_bind_eq_some h
  obtain ⟨hjudges, hsites, hcache⟩ := run_check hcheck
  cases verdict with
  | error error =>
    cases hrest
    refine ⟨hsites, ?_, fun hok ↦ (by cases hok), fun other hother ↦ ?_⟩
    · rw [hcache]
      exact Grows.refl _ _
    · cases hother
      exact hjudges
  | ok package =>
    obtain ⟨hgrows, hcontains⟩ := grows_add middle.cache package
    cases hrest
    have hidentity : package.identity = raw.identity := hjudges
    rw [hidentity, hcache] at hgrows hcontains
    refine ⟨hsites, ?_, fun _ identity hin ↦ ?_, fun other hother ↦ (by cases hother)⟩
    · change Grows [raw.identity] w.cache (middle.cache.add package)
      rw [hcache]
      exact hgrows
    · rw [List.mem_singleton.mp hin]
      change (middle.cache.add package).contains raw.identity = true
      rw [hcache]
      exact hcontains

theorem Grows.weaken {identities others : List String} {cache later : PackageCache}
    (h : Grows identities cache later) (hsub : ∀ identity ∈ identities, identity ∈ others) :
    Grows others cache later where
  found identity package hfound := (h.found identity package hfound).imp_right fun hnew ↦
    ⟨hnew.1, hsub identity hnew.2⟩
  kept := h.kept
  groups := h.groups

/-- Checks one after the other, where the result is good if both are and an error if one is. -/
theorem ChecksTo.append {identities others : List String} {w middle later : Workspace}
    {first second result : Except LoadError Unit} (h : ChecksTo identities w middle first)
    (h' : ChecksTo others middle later second)
    (hok : result = .ok () → first = .ok () ∧ second = .ok ())
    (herror : ∀ error, result = .error error → first = .error error ∨ second = .error error) :
    ChecksTo (identities ++ others) w later result where
  sites number := (h'.sites number).trans (h.sites number)
  grows := h.grows.trans h'.grows
  all hresult identity hin := by
    obtain ⟨hfirst, hsecond⟩ := hok hresult
    rcases List.mem_append.mp hin with hin | hin
    · exact h'.grows.kept identity (h.all hfirst identity hin)
    · exact h'.all hsecond identity hin
  broken error hresult := (herror error hresult).elim (h.broken error) (h'.broken error)

theorem checksTo_nil (w : Workspace) : ChecksTo [] w w (.ok ()) :=
  ⟨fun _ ↦ rfl, Grows.refl [] _, fun _ _ hin ↦ (by cases hin), fun _ herror ↦ (by cases herror)⟩

theorem run_pass {loader : Nat} {pass : List RawPackage} {w later : Workspace}
    {results : List (Except LoadError Unit)}
    (h : (pass.mapM (checkAndCache loader)).run w = some (results, later)) :
    ChecksTo (pass.map (·.identity)) w later (firstError results) := by
  induction pass generalizing w results with
  | nil =>
    cases h
    exact checksTo_nil _
  | cons raw rest ih =>
    rw [List.mapM_cons] at h
    obtain ⟨result, middle, hfirst, hrest⟩ := run_bind_eq_some h
    obtain ⟨others, last, hothers, hpure⟩ := run_bind_eq_some hrest
    cases hpure
    refine (run_checkAndCache hfirst).append (ih hothers) (fun hok ↦ ?_) fun error herror ↦ ?_
    · cases result with
      | error error => cases hok
      | ok _ => exact ⟨rfl, hok⟩
    · cases result with
      | error other => exact Or.inl herror
      | ok _ => exact Or.inr herror

theorem run_checkPasses {loader : Nat} {passes : List (List RawPackage)} {w later : Workspace}
    {result : Except LoadError Unit}
    (h : (checkPasses loader passes).run w = some (result, later)) :
    ChecksTo (passes.flatten.map (·.identity)) w later result := by
  induction passes generalizing w with
  | nil =>
    cases h
    exact checksTo_nil _
  | cons pass passes ih =>
    rw [checkPasses] at h
    obtain ⟨results, middle, hpass, hrest⟩ := run_bind_eq_some h
    have hfirst := run_pass hpass
    rw [List.flatten_cons, List.map_append]
    cases herror : firstError results with
    | error error =>
      rw [herror] at hrest hfirst
      cases hrest
      exact ⟨hfirst.sites, hfirst.grows.weaken fun _ hin ↦ List.mem_append_left _ hin,
        fun hok ↦ (by cases hok), hfirst.broken⟩
    | ok _ =>
      rw [herror] at hrest hfirst
      exact hfirst.append (ih hrest) (fun hok ↦ ⟨rfl, hok⟩) fun _ hother ↦ Or.inr hother

/-- Checks one after the other keep what each of them keeps, where the packages that wait become
fewer. After an error some of them wait for ever. -/
theorem keeps_checkPasses {loader : Nat} {kept : List RawPackage → Workspace → Prop}
    (hcheck : ∀ raw waiting w result later, kept (raw :: waiting) w →
      (checkAndCache loader raw).run w = some (result, later) → kept waiting later)
    {passes : List (List RawPackage)} {w later : Workspace} {result : Except LoadError Unit}
    (hw : kept passes.flatten w) (h : (checkPasses loader passes).run w = some (result, later)) :
    ∃ waiting, kept waiting later := by
  have hpass (pass : List RawPackage) : ∀ waiting w results last, kept (pass ++ waiting) w →
      (pass.mapM (checkAndCache loader)).run w = some (results, last) → kept waiting last := by
    induction pass with
    | nil =>
      intro waiting w results last hw hrun
      cases hrun
      exact hw
    | cons raw rest ih =>
      intro waiting w results last hw hrun
      rw [List.mapM_cons] at hrun
      obtain ⟨result, middle, hfirst, hrest⟩ := run_bind_eq_some hrun
      obtain ⟨others, _, hothers, hpure⟩ := run_bind_eq_some hrest
      cases hpure
      exact ih waiting middle others _ (hcheck raw _ w result middle hw hfirst) hothers
  induction passes generalizing w with
  | nil =>
    cases h
    exact ⟨[], hw⟩
  | cons pass passes ih =>
    rw [checkPasses] at h
    obtain ⟨results, middle, hfirst, hrest⟩ := run_bind_eq_some h
    have hmiddle := hpass pass _ w results middle hw hfirst
    cases herror : firstError results with
    | error error =>
      rw [herror] at hrest
      cases hrest
      exact ⟨_, hmiddle⟩
    | ok _ =>
      rw [herror] at hrest
      exact ih hmiddle hrest

/-! ### Graphs of pending packages -/

theorem mem_insert_identity (raw : RawPackage) (sorted : List RawPackage) (identity : String) :
    identity ∈ (ImportGraph.insert raw sorted).map (·.identity) ↔
      identity = raw.identity ∨ identity ∈ sorted.map (·.identity) := by
  induction sorted with
  | nil => simp [ImportGraph.insert]
  | cons other rest ih =>
    rw [ImportGraph.insert]
    by_cases heq : raw.identity = other.identity
    · rw [if_pos heq, List.map_cons, List.map_cons, List.mem_cons, List.mem_cons, heq]
      tauto
    · rw [if_neg heq]
      split
      · simp
      · rw [List.map_cons, List.map_cons, List.mem_cons, List.mem_cons, ih]
        tauto

/-- The passes check the packages that are pending, by their identities. -/
theorem mem_passes_identity (packages : List RawPackage) (identity : String) :
    identity ∈ ((ImportGraph.ofPackages packages).passes.flatten).map (·.identity) ↔
      identity ∈ packages.map (·.identity) := by
  have hperm := ImportGraph.flatten_passesWithin_perm
    (Nat.le_refl (ImportGraph.ofPackages packages).size)
  have hfold : ∀ rest sorted : List RawPackage, identity ∈
        (rest.foldl (fun sorted raw ↦ ImportGraph.insert raw sorted) sorted).map (·.identity) ↔
      identity ∈ rest.map (·.identity) ∨ identity ∈ sorted.map (·.identity) := by
    intro rest
    induction rest with
    | nil => exact fun sorted ↦ ⟨Or.inr, fun h ↦ h.elim (fun hin ↦ (by cases hin)) id⟩
    | cons raw rest ih =>
      intro sorted
      rw [List.foldl_cons, ih, mem_insert_identity, List.map_cons, List.mem_cons]
      tauto
  rw [ImportGraph.passes, (hperm.map _).mem_iff, ImportGraph.ofPackages, hfold]
  exact or_iff_left (fun hin ↦ by cases hin)

end Load

end PackageAtlas
