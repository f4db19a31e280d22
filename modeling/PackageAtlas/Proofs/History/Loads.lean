import PackageAtlas.Proofs.History.Answers
import PackageAtlas.Proofs.History.Checks
import PackageAtlas.Proofs.Naming.Directories

/-!
Loads and what was loaded before. What a cache keeps for a pattern is the answer to it, so that a
load that leaves out cached patterns is refused exactly when it would be refused without a cache,
and gives the same packages. Only the checks of packages can end in another way.
-/

set_option autoImplicit false
set_option relaxedAutoImplicit false

namespace PackageAtlas

/-- Identities in the order in which a load gives them for one pattern. -/
def Load.ordered (identities : List String) : List String :=
  RawPackage.distinct (identities.mergeSort fun first second ↦ first ≤ second)

namespace PackageCache

/-- A cache over a site: each package is cached under its identity and is from a directory that the
identity leads to, and the packages of a pattern are those that it finds. -/
structure Sound (site : Site) (cache : PackageCache) : Prop where
  packages : ∀ identity package, cache.find? identity = some package →
    package.identity = identity ∧ ∃ dir base ids, Discover.exactDir? site base = some dir ∧
      site.outcome dir base = .ok ids ∧ identity ∈ ids
  groups : ∀ pattern group, cache.groups.find? pattern = some group →
    ∃ ids, Discover.answer site pattern = .ok ids ∧ ids ≠ [] ∧
      group.map (·.identity) = Load.ordered ids

theorem sound_empty (site : Site) : empty.Sound site where
  packages _ _ h := by cases h
  groups _ _ h := by cases h

/-- The path of a directory that is there has no colon. -/
theorem no_colon_of_exactDir? {site : Site} (h : site.tree.Regular) {base dir : String}
    (hdir : Discover.exactDir? site base = some dir) : ':' ∉ base.toList := by
  have hjoin : ∃ start, dir = Path.join start base := by
    unfold Discover.exactDir? at hdir
    by_cases hlocal : isLocalPath base = true
    · rw [if_pos hlocal, Site.findLocal?] at hdir
      split at hdir
      · cases hdir
        exact ⟨_, rfl⟩
      · cases hdir
    · rw [if_neg hlocal] at hdir
      obtain ⟨root, -, hroot⟩ := List.mem_map.mp (List.mem_of_find?_eq_some hdir)
      exact ⟨root, hroot.symm⟩
  obtain ⟨start, rfl⟩ := hjoin
  have hcolon := h.no_colon (Discover.ne_empty_of_exactDir? hdir).1
  exact fun hin ↦ hcolon (Path.mem_join_right start hin)

/-- What a cache has for a pattern is what the pattern finds. -/
theorem Sound.group? {site : Site} (hsite : site.Regular) {cache : PackageCache}
    (h : cache.Sound site) {pattern : String} {group : List ResolvedPackage}
    (hgroup : cache.group? pattern = some group) :
    ∃ ids, Discover.answer site pattern = .ok ids ∧ ids ≠ [] ∧
      group.map (·.identity) = Load.ordered ids := by
  unfold PackageCache.group? at hgroup
  cases hfound : cache.groups.find? pattern with
  | some packages =>
    rw [hfound] at hgroup
    cases hgroup
    exact h.groups pattern _ hfound
  | none =>
    rw [hfound] at hgroup
    cases hwild : PatternMatcher.isWildcard ⟨pattern⟩ with
    | true =>
      rw [Pattern.parse_of_isWildcard hwild] at hgroup
      by_cases hlocal : isLocalPath pattern = true
      · rw [if_pos hlocal] at hgroup
        cases hgroup
      · rw [if_neg hlocal] at hgroup
        cases hgroup
    | false =>
      obtain ⟨path, variant, hparse, hidentity⟩ := Pattern.parse_of_not_isWildcard hwild
      rw [hparse] at hgroup
      obtain ⟨package, hpackage, rfl⟩ := Option.map_eq_some_iff.mp hgroup
      rw [hidentity] at hpackage
      obtain ⟨hown, dir, base, ids, hdir, houtcome, hin⟩ := h.packages _ _ hpackage
      have hne := (Discover.ne_empty_of_exactDir? hdir).2
      obtain ⟨other, hother⟩ := Site.exists_variant_of_outcome hne houtcome _ hin
      have hcolon := no_colon_of_exactDir? hsite.tree hdir
      have hsame : Pattern.parse pattern = .exact base other := by
        rw [hother] at hwild ⊢
        exact Pattern.parse_identity hcolon other hwild
      rw [hparse] at hsame
      cases hsame
      refine ⟨[pattern], ?_, List.cons_ne_nil _ _, ?_⟩
      · have hexact : Discover.exactAnswer site path variant = .ok pattern := by
          unfold Discover.exactAnswer
          rw [hdir]
          dsimp only
          rw [houtcome, hidentity]
          change (if ids.contains pattern = true then _ else _) = _
          rw [if_pos (List.contains_iff_mem.mpr hin)]
          rfl
        unfold Discover.answer
        rw [Discover.ownAnswer_of_exact hparse, hexact]
        rfl
      · rw [List.map_singleton, hown, Load.ordered, List.mergeSort_singleton]
        rfl

/-- A sound cache stays sound when packages of places are added. -/
theorem Sound.grows {site : Site} {cache later : PackageCache} {identities : List String}
    (h : cache.Sound site) (hgrows : Load.Grows identities cache later)
    (hplaces : ∀ identity ∈ identities, ∃ dir base ids, Discover.exactDir? site base = some dir ∧
      site.outcome dir base = .ok ids ∧ identity ∈ ids) : later.Sound site where
  packages identity package hfound := by
    rcases hgrows.found identity package hfound with hold | ⟨hidentity, hin⟩
    · exact h.packages identity package hold
    · exact ⟨hidentity, hplaces identity hin⟩
  groups := hgrows.groups ▸ h.groups

theorem Sound.addGroup {site : Site} {cache : PackageCache} (h : cache.Sound site)
    {pattern : String} {group : List ResolvedPackage} {ids : List String}
    (hanswer : Discover.answer site pattern = .ok ids) (hne : ids ≠ [])
    (hgroup : group.map (·.identity) = Load.ordered ids) :
    (cache.addGroup pattern group).Sound site := by
  unfold PackageCache.addGroup
  split
  · exact h
  · refine ⟨h.packages, fun other found hfound ↦ ?_⟩
    by_cases heq : other = pattern
    · rw [heq] at hfound ⊢
      rw [Dict.find?_insert_self] at hfound
      cases hfound
      exact ⟨ids, hanswer, hne, hgroup⟩
    · rw [Dict.find?_insert_of_ne _ _ heq] at hfound
      exact h.groups other found hfound

end PackageCache

namespace Load

variable {site : Site}

theorem mem_of_mem_ordered {identity : String} {ids : List String} (h : identity ∈ ordered ids) :
    identity ∈ ids :=
  (List.mergeSort_perm ids _).mem_iff.mp (RawPackage.mem_of_mem_distinct h)

/-- The cached packages of identities are all there. -/
theorem map_groupOf {cache : PackageCache} {ids : List String}
    (hcache : ∀ identity package, cache.find? identity = some package →
      package.identity = identity)
    (h : ∀ identity ∈ ids, cache.contains identity = true) :
    (groupOf cache ids).map (·.identity) = ordered ids := by
  have hall : ∀ list : List String, (∀ identity ∈ list, cache.contains identity = true) →
      (list.filterMap cache.find?).map (·.identity) = list := by
    intro list
    induction list with
    | nil => exact fun _ ↦ rfl
    | cons identity rest ih =>
      intro hlist
      obtain ⟨hfirst, hrest⟩ := List.forall_mem_cons.mp hlist
      obtain ⟨package, hpackage⟩ := Option.isSome_iff_exists.mp hfirst
      have hfound : cache.find? identity = some package := hpackage
      rw [List.filterMap_cons, hfound]
      exact congrArg₂ List.cons (hcache identity package hfound) (ih hrest)
  exact hall (ordered ids) fun identity hin ↦ h identity (mem_of_mem_ordered hin)

/-- A group holds what its pattern finds. -/
def Found (site : Site) (pattern : String) (group : List ResolvedPackage) : Prop :=
  ∃ ids, Discover.answer site pattern = .ok ids ∧ ids ≠ [] ∧ group.map (·.identity) = ordered ids

/-! ### Patterns without a match -/

theorem unmatched?_eq {wanted : List String} {groups : List (List String)}
    (h : List.Forall₂ (fun pattern group ↦ Discover.answer site pattern = .ok group)
      wanted groups) :
    (unmatched? wanted groups).map LoadError.noMatch = wanted.findSome? fun pattern ↦
      match Discover.answer site pattern with
      | .ok [] => some (.noMatch pattern)
      | _ => none := by
  unfold unmatched?
  induction h with
  | nil => rfl
  | cons hfirst _ ih =>
    rw [List.zip_cons_cons, List.find?_cons, List.findSome?_cons, hfirst]
    rename_i group _ _ _
    cases group with
    | nil => rfl
    | cons identity rest => exact ih

theorem refusal?_eq_none {wanted : List String} (h : Discover.refusal? site wanted = none) :
    ∀ pattern ∈ wanted, Discover.answer site pattern ≠ .ok [] := by
  intro pattern hpattern hempty
  unfold Discover.refusal? at h
  cases hfailure : Discover.failure? site wanted with
  | some error =>
    rw [hfailure] at h
    cases h
  | none =>
    rw [hfailure] at h
    have hnone := List.findSome?_eq_none_iff.mp h pattern hpattern
    rw [hempty] at hnone
    cases hnone

/-! ### Loads of missing patterns -/

theorem run_discovering {α : Type} {loader : Nat} {step : Site → Discover α} {w later : Workspace}
    {result : Except LoadError α} (h : (discovering loader step).run w = some (result, later)) :
    (∀ number, later.site number = w.site number) ∧ later.cache = w.cache ∧
      result = ((step (w.site loader)).run.run
        (DiscoveryState.start w.atlas (w.loader loader).requests)).1 := by
  obtain ⟨_, middle, hget, hrest⟩ := run_bind_eq_some h
  cases hget
  obtain ⟨_, last, hset, hpure⟩ := run_bind_eq_some hrest
  cases hset
  cases hpure
  exact ⟨fun number ↦ Workspace.site_changeLoader _ loader number (fun _ ↦ rfl) fun _ ↦ rfl, rfl, rfl⟩

theorem mem_entries_of_contains {dict : Dict String RawPackage} {identity : String}
    (h : dict.contains identity = true) : ∃ raw, (identity, raw) ∈ dict.entries := by
  obtain ⟨raw, hraw⟩ := Option.isSome_iff_exists.mp h
  obtain ⟨before, after, hentries, -⟩ := List.lookup_eq_some_iff.mp hraw
  exact ⟨raw, hentries ▸ List.mem_append_right before List.mem_cons_self⟩

theorem refusal?_of_answers {wanted : List String} {groups : List (List String)}
    (h : Discover.answers site wanted = .ok groups) :
    Discover.refusal? site wanted = (unmatched? wanted groups).map LoadError.noMatch := by
  have hfailure : Discover.error? (Discover.answers site wanted) = _ :=
    Discover.error?_answers wanted
  rw [h] at hfailure
  rw [Discover.refusal?, ← hfailure, unmatched?_eq (Discover.forall₂_answer h)]
  rfl

/-- Pending packages are from directories that their identities lead to. -/
theorem places_of_pending {s : DiscoveryState} (hs : s.Sound site) {cache : PackageCache}
    {groups : List (List String)} {identity : String}
    (h : identity ∈ (pending cache ⟨s.packages, groups⟩).map (·.identity)) :
    ∃ dir base ids, Discover.exactDir? site base = some dir ∧ site.outcome dir base = .ok ids ∧
      identity ∈ ids := by
  obtain ⟨raw, hraw, rfl⟩ := List.mem_map.mp h
  obtain ⟨⟨identity, other⟩, hentry, rfl⟩ := List.mem_map.mp hraw
  obtain ⟨hidentity, hplace⟩ := hs.packages identity other (List.mem_filter.mp hentry).1
  rw [← hidentity] at hplace
  exact hplace

/-- What was found is cached or pending. -/
theorem mem_pending {found : Discovery} {cache : PackageCache} {identity : String}
    (hidentities : ∀ identity raw, (identity, raw) ∈ found.packages.entries →
      raw.identity = identity) (hin : identity ∈ found.groups.flatten)
    (hfound : found.packages.contains identity = true)
    (hcache : ¬ cache.contains identity = true) :
    identity ∈ (pending cache found).map (·.identity) := by
  obtain ⟨raw, hraw⟩ := mem_entries_of_contains hfound
  refine List.mem_map.mpr ⟨raw, List.mem_map.mpr ⟨(identity, raw), ?_, rfl⟩,
    hidentities identity raw hraw⟩
  refine List.mem_filter.mpr ⟨hraw, ?_⟩
  rw [Bool.and_eq_true, List.contains_iff_mem, (Bool.not_eq_true _).mp hcache]
  exact ⟨hin, rfl⟩

/-- Groups that hold what their patterns find may be kept. -/
theorem sound_foldl_addGroup {cache : PackageCache} (hcache : cache.Sound site)
    {wanted : List String} {groups : List (List ResolvedPackage)}
    (h : List.Forall₂ (Found site) wanted groups) :
    ((wanted.zip groups).foldl (fun cache entry ↦ cache.addGroup entry.1 entry.2) cache).Sound
      site := by
  induction h generalizing cache with
  | nil => exact hcache
  | cons hfirst _ ih =>
    obtain ⟨ids, hanswer, hne, hgroup⟩ := hfirst
    exact ih (hcache.addGroup hanswer hne hgroup)

/-- The ways in which a load of missing patterns ends: nothing is discovered, a pattern has no match, a
package is refused, or all packages are checked and cached and the patterns are kept. -/
inductive EndsMissing (loader : Nat) (wanted : List String) (w : Workspace) :
    Except LoadError (List (List ResolvedPackage)) → Workspace → Prop
  | undiscovered {error : LoadError} {middle : Workspace}
    (hdiscover : (discover loader wanted).run w = some (.error error, middle)) :
    EndsMissing loader wanted w (.error error) middle
  | unmatched {found : Discovery} {middle : Workspace} {pattern : String}
    (hdiscover : (discover loader wanted).run w = some (.ok found, middle))
    (hunmatched : unmatched? wanted found.groups = some pattern) :
    EndsMissing loader wanted w (.error (.noMatch pattern)) middle
  | refused {found : Discovery} {middle last : Workspace} {error : LoadError}
    (hdiscover : (discover loader wanted).run w = some (.ok found, middle))
    (hunmatched : unmatched? wanted found.groups = none)
    (hpasses : (checkPasses loader
      (ImportGraph.ofPackages (pending middle.cache found)).passes).run middle =
        some (.error error, last)) : EndsMissing loader wanted w (.error error) last
  | loaded {found : Discovery} {middle last : Workspace}
    (hdiscover : (discover loader wanted).run w = some (.ok found, middle))
    (hunmatched : unmatched? wanted found.groups = none)
    (hpasses : (checkPasses loader
      (ImportGraph.ofPackages (pending middle.cache found)).passes).run middle =
        some (.ok (), last)) :
    EndsMissing loader wanted w (.ok (found.groups.map (groupOf last.cache))) { last with
      cache := (wanted.zip (found.groups.map (groupOf last.cache))).foldl
        (fun cache entry ↦ cache.addGroup entry.1 entry.2) last.cache }

theorem endsMissing_of_run {loader : Nat} {wanted : List String} {w later : Workspace}
    {result : Except LoadError (List (List ResolvedPackage))}
    (h : (loadMissing loader wanted).run w = some (result, later)) :
    EndsMissing loader wanted w result later := by
  obtain ⟨found, middle, hdiscover, hrest⟩ := run_bind_eq_some h
  cases found with
  | error error =>
    cases hrest
    exact .undiscovered hdiscover
  | ok found =>
    dsimp only at hrest
    cases hunmatched : unmatched? wanted found.groups with
    | some pattern =>
      rw [hunmatched] at hrest
      cases hrest
      exact .unmatched hdiscover hunmatched
    | none =>
      rw [hunmatched] at hrest
      obtain ⟨_, _, hget, hrest⟩ := run_bind_eq_some hrest
      cases hget
      obtain ⟨verdict, last, hpasses, hrest⟩ := run_bind_eq_some hrest
      cases verdict with
      | error error =>
        cases hrest
        exact .refused hdiscover hunmatched hpasses
      | ok _ =>
        obtain ⟨_, _, hget, hrest⟩ := run_bind_eq_some hrest
        cases hget
        obtain ⟨_, _, hmodify, hpure⟩ := run_bind_eq_some hrest
        cases hmodify
        cases hpure
        exact .loaded hdiscover hunmatched hpasses

/-- The result of a load, with the packages of each pattern, as the file tree decides it: refused,
or not refused and then loaded or broken. -/
structure LoadsMissing (site : Site) (wanted : List String) (w later : Workspace)
    (result : Except LoadError (List (List ResolvedPackage))) : Prop where
  sites : ∀ number, later.site number = w.site number
  cache : later.cache.Sound site
  loaded : ∀ groups, result = .ok groups →
    Discover.refusal? site wanted = none ∧ List.Forall₂ (Found site) wanted groups
  refused : ∀ error, result = .error error → Discover.refusal? site wanted = some error ∨
    (Discover.refusal? site wanted = none ∧ error.IsAnalysis)

theorem run_loadMissing {loader : Nat} {wanted : List String} {w later : Workspace}
    {result : Except LoadError (List (List ResolvedPackage))} (hsite : (w.site loader).Regular)
    (hwalks : ∀ pattern ∈ wanted, (w.site loader).Walks pattern)
    (hcache : w.cache.Sound (w.site loader))
    (h : (loadMissing loader wanted).run w = some (result, later)) :
    LoadsMissing (w.site loader) wanted w later result := by
  obtain ⟨found, middle, hdiscover, hrest⟩ := run_bind_eq_some h
  obtain ⟨hsites, hsame, hfound⟩ := run_discovering hdiscover
  obtain ⟨s, hsound, hrun, hcovered⟩ := Discover.run_patterns hsite.preprocesses
    (Discover.placed hsite hwalks) (DiscoveryState.sound_start (w.site loader) w.atlas
      (w.loader loader).requests)
  rw [hrun] at hfound
  cases hanswers : Discover.answers (w.site loader) wanted with
  | error error =>
    have hfailure : Discover.error? (Discover.answers (w.site loader) wanted) = _ :=
      Discover.error?_answers wanted
    rw [hanswers] at hfound hfailure
    cases hfound
    cases hrest
    refine ⟨hsites, hsame ▸ hcache, fun groups hgroups ↦ (by cases hgroups), ?_⟩
    intro other hother
    cases hother
    rw [Discover.refusal?, ← hfailure]
    exact Or.inl rfl
  | ok groups =>
    have hall := Discover.forall₂_answer hanswers
    have hrefusal := refusal?_of_answers hanswers
    rw [hanswers] at hfound
    change found = Except.ok ⟨s.packages, groups⟩ at hfound
    rw [hfound] at hrest
    dsimp only at hrest
    cases hunmatched : unmatched? wanted groups with
    | some pattern =>
      rw [hunmatched] at hrest hrefusal
      cases hrest
      refine ⟨hsites, hsame ▸ hcache, fun groups hgroups ↦ (by cases hgroups), ?_⟩
      intro other hother
      cases hother
      exact Or.inl hrefusal
    | none =>
      rw [hunmatched] at hrest hrefusal
      obtain ⟨_, _, hget, hrest⟩ := run_bind_eq_some hrest
      cases hget
      obtain ⟨verdict, last, hpasses, hrest⟩ := run_bind_eq_some hrest
      have hchecks := run_checkPasses hpasses
      have hsites' : ∀ number, last.site number = w.site number :=
        fun number ↦ (hchecks.sites number).trans (hsites number)
      have hplaces := fun identity hin ↦ places_of_pending hsound
        ((mem_passes_identity (pending middle.cache ⟨s.packages, groups⟩) identity).mp hin)
      have hlast : last.cache.Sound (w.site loader) :=
        (hsame ▸ hcache : middle.cache.Sound _).grows hchecks.grows hplaces
      cases verdict with
      | error error =>
        cases hrest
        refine ⟨hsites', hlast, fun groups hgroups ↦ (by cases hgroups), ?_⟩
        intro other hother
        cases hother
        exact Or.inr ⟨hrefusal, hchecks.broken _ rfl⟩
      | ok _ =>
        have hcached : ∀ group ∈ groups, ∀ identity ∈ group,
            last.cache.contains identity = true := by
          intro group hgroup identity hin
          have hflat := List.mem_flatten.mpr ⟨group, hgroup, hin⟩
          by_cases hold : middle.cache.contains identity = true
          · exact hchecks.grows.kept identity hold
          · exact hchecks.all rfl identity ((mem_passes_identity _ identity).mpr
              (mem_pending (fun identity raw hraw ↦ (hsound.packages identity raw hraw).1) hflat
                (hcovered groups hanswers identity hflat) hold))
        have hne : ∀ pattern ∈ wanted, ∀ group,
            Discover.answer (w.site loader) pattern = .ok group → group ≠ [] := by
          rintro pattern hpattern group hgroup rfl
          have hnone := refusal?_eq_none hrefusal pattern hpattern
          exact hnone hgroup
        have hgroups : List.Forall₂ (Found (w.site loader)) wanted
            (groups.map (groupOf last.cache)) := by
          refine List.forall₂_map_right_iff.mpr (Discover.forall₂_of_mem hall ?_)
          intro pattern hpattern group hgroup hanswer
          exact ⟨group, hanswer, hne pattern hpattern group hanswer,
            map_groupOf (fun identity package hfound ↦ (hlast.packages identity package hfound).1)
              (hcached group hgroup)⟩
        obtain ⟨_, _, hget, hrest⟩ := run_bind_eq_some hrest
        cases hget
        obtain ⟨_, _, hmodify, hpure⟩ := run_bind_eq_some hrest
        cases hmodify
        cases hpure
        refine ⟨hsites', sound_foldl_addGroup hlast hgroups, ?_, fun error herror ↦ (by cases herror)⟩
        intro other hother
        cases hother
        exact ⟨hrefusal, hgroups⟩

/-! ### Loads -/

/-- The patterns that a cache has no packages for. -/
theorem missing_eq (cache : PackageCache) (wanted : List String) :
    ((wanted.zip (wanted.map cache.group?)).filterMap fun (pattern, group) ↦
      if group.isNone then some pattern else none) =
    wanted.filter fun pattern ↦ (cache.group? pattern).isNone := by
  induction wanted with
  | nil => rfl
  | cons pattern rest ih =>
    rw [List.map_cons, List.zip_cons_cons, List.filterMap_cons, List.filter_cons, ih]
    cases cache.group? pattern <;> rfl

/-- A load puts the packages of the missing patterns into their places, and loads nothing if there are
none. -/
theorem exists_of_patterns {loader : Nat} {wanted : List String} {w later : Workspace}
    {result : Except LoadError (List ResolvedPackage)}
    (h : (patterns loader wanted).run w = some (result, later)) :
    ∃ loaded, result = loaded.map (fun missing ↦
        firstOfIdentity [] (fillGroups (wanted.map w.cache.group?) missing).flatten) ∧
      (((wanted.filter fun pattern ↦ (w.cache.group? pattern).isNone) = [] ∧ loaded = .ok [] ∧
          later = w) ∨
        (loadMissing loader (wanted.filter fun pattern ↦ (w.cache.group? pattern).isNone)).run w =
          some (loaded, later)) := by
  obtain ⟨_, _, hget, hrest⟩ := run_bind_eq_some h
  cases hget
  dsimp only at hrest
  rw [missing_eq] at hrest
  split at hrest
  · rename_i hempty
    cases hrest
    exact ⟨.ok [], rfl, .inl ⟨List.isEmpty_iff.mp hempty, rfl, rfl⟩⟩
  · obtain ⟨loaded, middle, hload, hpure⟩ := run_bind_eq_some hrest
    cases loaded <;> cases hpure <;> exact ⟨_, rfl, .inr hload⟩

theorem forall₂_fillGroups {cache : PackageCache} {wanted : List String}
    (hcached : ∀ pattern group, cache.group? pattern = some group → Found site pattern group)
    {missing : List (List ResolvedPackage)}
    (h : List.Forall₂ (Found site) (wanted.filter fun pattern ↦ (cache.group? pattern).isNone)
      missing) :
    List.Forall₂ (Found site) wanted (fillGroups (wanted.map cache.group?) missing) := by
  induction wanted generalizing missing with
  | nil => exact .nil
  | cons pattern rest ih =>
    rw [List.filter_cons] at h
    rw [List.map_cons]
    cases hgroup : cache.group? pattern with
    | some group =>
      rw [hgroup] at h
      rw [fillGroups]
      exact .cons (hcached pattern group hgroup) (ih h)
    | none =>
      rw [hgroup, Option.isNone_none, if_pos rfl] at h
      cases h with
      | cons hfirst hrest => exact .cons hfirst (ih hrest)

/-- What a load leads to: the same sites and a sound cache, and the packages that the patterns find
where the file tree does not refuse the patterns and no package breaks a rule. -/
structure Loads (site : Site) (wanted : List String) (w later : Workspace)
    (result : Except LoadError (List ResolvedPackage)) : Prop where
  sites : ∀ number, later.site number = w.site number
  cache : later.cache.Sound site
  loaded : ∀ packages, result = .ok packages → Discover.refusal? site wanted = none ∧
    ∃ groups, List.Forall₂ (Found site) wanted groups ∧
      packages = firstOfIdentity [] groups.flatten
  refused : ∀ error, result = .error error → Discover.refusal? site wanted = some error ∨
    (Discover.refusal? site wanted = none ∧ error.IsAnalysis)

/-- A load leads to what the file tree decides, whatever its cache holds. -/
theorem run_patterns {loader : Nat} {wanted : List String} {w later : Workspace}
    {result : Except LoadError (List ResolvedPackage)} (hsite : (w.site loader).Regular)
    (hwalks : ∀ pattern ∈ wanted, (w.site loader).Walks pattern)
    (hcache : w.cache.Sound (w.site loader))
    (h : (patterns loader wanted).run w = some (result, later)) :
    Loads (w.site loader) wanted w later result := by
  have hcached : ∀ pattern group, w.cache.group? pattern = some group →
      Found (w.site loader) pattern group := fun pattern group hgroup ↦ hcache.group? hsite hgroup
  have hrefusal : Discover.refusal? (w.site loader)
        (wanted.filter fun pattern ↦ (w.cache.group? pattern).isNone) =
      Discover.refusal? (w.site loader) wanted := by
    refine Discover.refusal?_filter fun pattern _ hkeep ↦ ?_
    cases hgroup : w.cache.group? pattern with
    | none =>
      rw [hgroup] at hkeep
      cases hkeep
    | some group =>
      obtain ⟨ids, hanswer, hne, -⟩ := hcached pattern group hgroup
      exact ⟨ids, hanswer, hne⟩
  have hmissingWalks : ∀ pattern ∈ wanted.filter fun pattern ↦ (w.cache.group? pattern).isNone,
      (w.site loader).Walks pattern :=
    fun pattern hpattern ↦ hwalks pattern (List.mem_filter.mp hpattern).1
  obtain ⟨loaded, rfl, ⟨hempty, rfl, rfl⟩ | hload⟩ := exists_of_patterns h
  · rw [hempty] at hrefusal
    refine ⟨fun _ ↦ rfl, hcache, ?_, fun error herror ↦ (by cases herror)⟩
    intro packages hpackages
    cases hpackages
    refine ⟨hrefusal.symm.trans Discover.refusal?_nil, _, forall₂_fillGroups hcached ?_, rfl⟩
    rw [hempty]
    exact .nil
  · have hmissing := run_loadMissing hsite hmissingWalks hcache hload
    cases loaded with
    | error error =>
      refine ⟨hmissing.sites, hmissing.cache, fun packages hpackages ↦ (by cases hpackages), ?_⟩
      intro other hother
      cases hother
      rw [← hrefusal]
      exact hmissing.refused _ rfl
    | ok groups =>
      obtain ⟨hnone, hgroups⟩ := hmissing.loaded groups rfl
      refine ⟨hmissing.sites, hmissing.cache, ?_, fun error herror ↦ (by cases herror)⟩
      intro packages hpackages
      cases hpackages
      exact ⟨hrefusal ▸ hnone, _, forall₂_fillGroups hcached hgroups, rfl⟩

/-- Loads one after the other are the first and then the others, whatever the first gives. -/
theorem run_history_cons {loader : Nat} {earlier : List String} {rest : List (List String)}
    {w later : Workspace}
    (h : ((earlier :: rest).forM fun earlier ↦ discard (patterns loader earlier)).run w =
      some ((), later)) :
    ∃ result middle, (patterns loader earlier).run w = some (result, middle) ∧
      (rest.forM fun earlier ↦ discard (patterns loader earlier)).run middle = some ((), later) := by
  have hboth : (discard (patterns loader earlier) >>= fun _ ↦
      rest.forM fun earlier ↦ discard (patterns loader earlier)).run w = some ((), later) := h
  obtain ⟨_, middle, hfirst, hrest⟩ := run_bind_eq_some hboth
  obtain ⟨⟨result, last⟩, hload, hdiscard⟩ := Option.bind_eq_some_iff.mp hfirst
  cases hdiscard
  exact ⟨result, _, hload, hrest⟩

/-- Loads one after the other keep the sites and the soundness of the cache. -/
theorem run_history {loader : Nat} {history : List (List String)} {w later : Workspace}
    (hsite : (w.site loader).Regular)
    (hwalks : ∀ earlier ∈ history, ∀ pattern ∈ earlier, (w.site loader).Walks pattern)
    (hcache : w.cache.Sound (w.site loader))
    (h : (history.forM fun earlier ↦ discard (patterns loader earlier)).run w =
      some ((), later)) :
    later.site loader = w.site loader ∧ later.cache.Sound (w.site loader) := by
  induction history generalizing w with
  | nil =>
    cases h
    exact ⟨rfl, hcache⟩
  | cons earlier rest ih =>
    obtain ⟨hfirst, hothers⟩ := List.forall_mem_cons.mp hwalks
    obtain ⟨result, middle, hload, hrest⟩ := run_history_cons h
    have hloads := run_patterns hsite hfirst hcache hload
    have hsame := hloads.sites loader
    have hsound := hloads.cache
    rw [← hsame] at hsite hothers hsound ⊢
    exact ih hsite hothers hsound hrest

end Load

end PackageAtlas
