import PackageAtlas.Proofs.History.Handles

/-!
What a load gives, and in which order. Each pattern asks for the packages that are kept for it, for
the one cached package of its path, or for those that a discovery of the missing patterns finds in
its place; a load gives the packages of each pattern sorted, pattern by pattern, and each package
where it is first asked for. Nothing that was found is lost on the way: a load succeeds only after
all of it is cached.
-/

set_option autoImplicit false
set_option relaxedAutoImplicit false

namespace PackageAtlas

/-! ### Identities in order -/

/-- Identities as they are given for one pattern: sorted, each once. -/
structure Load.InOrder (identities inOrder : List String) : Prop where
  sorted : inOrder.Pairwise (· < ·)
  mem_iff : ∀ identity, identity ∈ inOrder ↔ identity ∈ identities

namespace Load

theorem inOrder_ordered (identities : List String) : InOrder identities (ordered identities) where
  sorted := RawPackage.pairwise_distinct_mergeSort identities
  mem_iff _ := RawPackage.mem_distinct.trans (List.mergeSort_perm identities _).mem_iff

end Load

/-! ### What a discovery finds -/

namespace DiscoveryState

/-- All that was found in some directory is there, under its identity. -/
structure Filed (s : DiscoveryState) : Prop where
  identities : ∀ identity raw, (identity, raw) ∈ s.packages.entries → raw.identity = identity
  covered : ∀ base ids, s.visited.find? base = some ids →
    ∀ identity ∈ ids, s.packages.contains identity = true

theorem filed_start (atlas : Atlas) (requests : List PreprocessRequest) :
    (start atlas requests).Filed where
  identities _ _ h := by cases h
  covered _ _ h := by cases h

end DiscoveryState

namespace Discover

variable {site : Site} {α β : Type}

theorem run_bind_eq_ok {step : Discover α} {k : α → Discover β} {s later : DiscoveryState} {b : β}
    (h : (step >>= k).run.run s = (.ok b, later)) :
    ∃ a middle, step.run.run s = (.ok a, middle) ∧ (k a).run.run middle = (.ok b, later) := by
  rw [ExceptT.run_bind, StateT.run_bind] at h
  rcases hstep : step.run.run s with ⟨error | a, middle⟩
  · rw [hstep] at h
    cases h
  · rw [hstep] at h
    exact ⟨a, middle, rfl, h⟩

/-- A step that succeeds finds the packages that its result names, besides all that was found
before. -/
def Finds (named : α → List String) (step : Discover α) : Prop :=
  ∀ s a later, s.Filed → step.run.run s = (.ok a, later) → later.Filed ∧
    (∀ identity, s.packages.contains identity = true → later.packages.contains identity = true) ∧
    ∀ identity ∈ named a, later.packages.contains identity = true

theorem Finds.pure {named : α → List String} {a : α} (h : named a = []) :
    Finds named (Pure.pure a) := by
  intro s b later hs hrun
  cases hrun
  exact ⟨hs, fun _ hin ↦ hin, fun identity hin ↦ by rw [h] at hin; cases hin⟩

theorem Finds.throw {named : α → List String} (error : LoadError) :
    Finds named (throw error : Discover α) := by
  intro s a later _ hrun
  cases hrun

theorem Finds.bind {named : α → List String} {step : Discover α} (h : Finds named step)
    {also : α → β → List String} {given : β → List String} {k : α → Discover β}
    (hk : ∀ a, Finds (also a) (k a))
    (hgiven : ∀ a s b later, (k a).run.run s = (.ok b, later) → ∀ identity ∈ given b,
      identity ∈ named a ∨ identity ∈ also a b) : Finds given (step >>= k) := by
  intro s b later hs hrun
  obtain ⟨a, middle, hstep, hlater⟩ := run_bind_eq_ok hrun
  obtain ⟨hmiddle, hkept, hnamed⟩ := h s a middle hs hstep
  obtain ⟨hfiled, hmore, halso⟩ := hk a middle b later hmiddle hlater
  refine ⟨hfiled, fun identity hin ↦ hmore identity (hkept identity hin), fun identity hin ↦ ?_⟩
  exact (hgiven a middle b later hlater identity hin).elim
    (fun hfirst ↦ hmore identity (hnamed identity hfirst)) (halso identity)

/-- The same when what follows only rewrites the result. -/
theorem Finds.map {named : α → List String} {step : Discover α} (h : Finds named step) (f : α → β)
    {given : β → List String} (hgiven : ∀ a, ∀ identity ∈ given (f a), identity ∈ named a) :
    Finds given (step >>= fun a ↦ Pure.pure (f a)) := by
  have hpure (a : α) : Finds (fun _ ↦ []) (Pure.pure (f a)) := .pure rfl
  refine h.bind hpure fun a s b later hrun identity hin ↦ ?_
  cases hrun
  exact Or.inl (hgiven a identity hin)

theorem Finds.mapM {named : β → List String} {step : α → Discover β} (h : ∀ a, Finds named (step a))
    (list : List α) : Finds (List.flatMap named) (list.mapM step) := by
  induction list with
  | nil => exact Finds.pure rfl
  | cons a rest ih =>
    rw [List.mapM_cons]
    have hrest (b : β) : Finds (fun all ↦ all.tail.flatMap named)
        (rest.mapM step >>= fun others ↦ Pure.pure (b :: others)) :=
      ih.map (List.cons b) fun _ _ hin ↦ hin
    refine (h a).bind hrest fun b s all later hrun identity hin ↦ ?_
    obtain ⟨others, middle, -, hpure⟩ := run_bind_eq_ok hrun
    cases hpure
    rw [List.flatMap_cons] at hin
    exact List.mem_append.mp hin

theorem length_of_run_mapM {step : α → Discover β} {list : List α} {found : List β}
    {s later : DiscoveryState} (h : (list.mapM step).run.run s = (.ok found, later)) :
    found.length = list.length := by
  induction list generalizing s found with
  | nil =>
    cases h
    rfl
  | cons a rest ih =>
    rw [List.mapM_cons] at h
    obtain ⟨b, middle, -, hrest⟩ := run_bind_eq_ok h
    obtain ⟨others, last, hothers, hpure⟩ := run_bind_eq_ok hrest
    cases hpure
    rw [List.length_cons, List.length_cons, ih hothers]

theorem finds_visit (dir base : String) : Finds id (visit site dir base) := by
  intro s ids later hs hrun
  cases hvisited : s.visited.find? base with
  | some known =>
    rw [run_visit_of_visited hvisited] at hrun
    cases hrun
    exact ⟨hs, fun _ hin ↦ hin, hs.covered base _ hvisited⟩
  | none =>
    rw [run_visit_of_not_visited hvisited] at hrun
    rcases hparse : (site.parseDir s.atlas.nextSpace dir base).run.run s.requests with
      ⟨error | ⟨space, raws⟩, requests⟩
    · rw [hparse] at hrun
      cases hrun
    · rw [hparse] at hrun
      cases hrun
      have hcontains := contains_foldl_insert raws s.packages
      refine ⟨⟨?_, ?_⟩, fun identity hin ↦ (hcontains identity).mpr (Or.inr hin),
        fun identity hin ↦ (hcontains identity).mpr (Or.inl hin)⟩
      · intro identity raw hraw
        rcases mem_entries_foldl_insert hraw with hold | ⟨-, hidentity⟩
        · exact hs.identities identity raw hold
        · exact hidentity
      · intro other ids hother identity hin
        refine (hcontains identity).mpr ?_
        by_cases heq : other = base
        · rw [heq, Dict.find?_insert_self] at hother
          cases hother
          exact Or.inl hin
        · rw [Dict.find?_insert_of_ne _ _ heq] at hother
          exact Or.inr (hs.covered other ids hother identity hin)

theorem finds_exact (path : String) (variant : Variant) :
    Finds ([·]) (exact site path variant) := by
  unfold exact
  cases exactDir? site path with
  | none => exact Finds.throw _
  | some dir =>
    have hrest : ∀ ids : List String, Finds (fun _ ↦ [])
        (if ids.contains (variant.identity path) then pure (variant.identity path)
          else throw (.packageNotFound (variant.identity path)) : Discover String) := by
      intro ids
      split
      · exact Finds.pure rfl
      · exact Finds.throw _
    refine (finds_visit dir path).bind hrest fun ids s identity later hrun other hother ↦ ?_
    split at hrun
    · next hcontains =>
      cases hrun
      rw [List.mem_singleton.mp hother]
      exact Or.inl (List.contains_iff_mem.mp hcontains)
    · cases hrun

theorem finds_localTree (matcher : PatternMatcher) : Finds id (localTree site matcher) := by
  unfold localTree
  exact (Finds.mapM (fun names ↦ finds_visit _ _) _).map List.flatten
    fun ids identity hin ↦ by rwa [List.flatMap_id]

theorem finds_ownGroup (pattern : String) : Finds ownNames (ownGroup site pattern) := by
  unfold ownGroup
  cases Pattern.parse pattern with
  | exact path variant =>
    exact (finds_exact path variant).map
      (fun identity ↦ (Except.ok [identity] : Except PatternMatcher (List String))) fun _ _ h ↦ h
  | locals matcher => exact (finds_localTree matcher).map Except.ok fun _ _ h ↦ h
  | tree matcher => exact Finds.pure rfl

theorem finds_trees (matchers : List PatternMatcher) :
    Finds (List.flatMap (·.2)) (trees site matchers) :=
  Finds.mapM (fun dir : NamedDir ↦ (finds_visit dir.dir dir.name).map (fun ids ↦ (dir.name, ids))
    fun _ _ h ↦ h) _

end Discover

/-- One group for each of so many patterns, and the packages of all groups under their
identities. -/
structure Discovery.Complete (found : Discovery) (count : Nat) : Prop where
  length : found.groups.length = count
  identities : ∀ identity raw, (identity, raw) ∈ found.packages.entries → raw.identity = identity
  covered : ∀ identity ∈ found.groups.flatten, found.packages.contains identity = true

namespace Discover

variable {site : Site}

theorem complete_patterns {wanted : List String} {s later : DiscoveryState} {found : Discovery}
    (hs : s.Filed) (h : (patterns site wanted).run.run s = (.ok found, later)) :
    found.Complete wanted.length := by
  obtain ⟨own, middle, hown, hrest⟩ := run_bind_eq_ok h
  obtain ⟨hmiddle, -, hnames⟩ := Finds.mapM finds_ownGroup wanted s own middle hs hown
  obtain ⟨trees, last, htrees, hrest⟩ := run_bind_eq_ok hrest
  obtain ⟨hlast, hmore, hbelow⟩ := finds_trees _ middle trees last hmiddle htrees
  obtain ⟨_, _, hget, hpure⟩ := run_bind_eq_ok hrest
  cases hget
  cases hpure
  refine ⟨(List.length_map _).trans (length_of_run_mapM hown), hlast.identities, ?_⟩
  intro identity hin
  obtain ⟨group, hgroup, hidentity⟩ := List.mem_flatten.mp hin
  obtain ⟨one, hone, rfl⟩ := List.mem_map.mp hgroup
  rcases mem_of_mem_groupOf hidentity with hnamed | hfound
  · exact hmore identity (hnames identity (List.mem_flatMap.mpr ⟨one, hone, hnamed⟩))
  · exact hbelow identity hfound

/-- Without patterns nothing is visited. -/
theorem run_patterns_nil (s : DiscoveryState) :
    (patterns site []).run.run s = (.ok ⟨s.packages, []⟩, s) := by
  have htrees : trees site [] = pure [] := by
    unfold trees
    simp only [List.any_nil, List.filter_false, List.mapM_nil]
  change ((trees site []) >>= _).run.run s = _
  rw [htrees]
  rfl

end Discover

/-! ### Packages of patterns, in order -/

namespace PackageCache

/-- The packages of each pattern are kept sorted by identity, each once. -/
def InOrder (cache : PackageCache) : Prop :=
  ∀ pattern group, cache.groups.find? pattern = some group →
    (group.map (·.identity)).Pairwise (· < ·)

/-- What each of some patterns asks for: the packages that are kept for it, or else the cached
package of its path, or else what is found next for patterns without either. -/
inductive Asks (cache : PackageCache) :
    List String → List (List String) → List (List String) → Prop
  | nil : Asks cache [] [] []
  | kept {pattern : String} {group : List ResolvedPackage} {rest : List String}
      {found asked : List (List String)}
      (hgroup : cache.groups.find? pattern = some group) (hrest : Asks cache rest found asked) :
      Asks cache (pattern :: rest) found (group.map (·.identity) :: asked)
  | cached {pattern path : String} {variant : Variant} {package : ResolvedPackage}
      {rest : List String} {found asked : List (List String)}
      (hnone : cache.groups.find? pattern = none)
      (hparse : Pattern.parse pattern = .exact path variant)
      (hpackage : cache.find? (variant.identity path) = some package)
      (hrest : Asks cache rest found asked) :
      Asks cache (pattern :: rest) found ([package.identity] :: asked)
  | missing {pattern : String} {ids rest : List String} {found asked : List (List String)}
      (hnone : cache.group? pattern = none) (hrest : Asks cache rest found asked) :
      Asks cache (pattern :: rest) (ids :: found) (ids :: asked)

variable {cache : PackageCache}

theorem group?_eq_some {pattern : String} {group : List ResolvedPackage}
    (h : cache.group? pattern = some group) :
    cache.groups.find? pattern = some group ∨
      (cache.groups.find? pattern = none ∧ ∃ path variant package,
        Pattern.parse pattern = .exact path variant ∧
          cache.find? (variant.identity path) = some package ∧ group = [package]) := by
  unfold group? at h
  cases hfound : cache.groups.find? pattern with
  | some packages =>
    rw [hfound] at h
    exact Or.inl h
  | none =>
    rw [hfound] at h
    dsimp only at h
    cases hparse : Pattern.parse pattern with
    | exact path variant =>
      rw [hparse] at h
      obtain ⟨package, hpackage, rfl⟩ := Option.map_eq_some_iff.mp h
      exact Or.inr ⟨rfl, path, variant, package, rfl, hpackage, rfl⟩
    | locals matcher =>
      rw [hparse] at h
      cases h
    | tree matcher =>
      rw [hparse] at h
      cases h

theorem InOrder.foldl_addGroup (h : cache.InOrder) {entries : List (String × List ResolvedPackage)}
    (hentries : ∀ entry ∈ entries, (entry.2.map (·.identity)).Pairwise (· < ·)) :
    (entries.foldl (fun cache entry ↦ cache.addGroup entry.1 entry.2) cache).InOrder := by
  induction entries generalizing cache with
  | nil => exact h
  | cons entry rest ih =>
    obtain ⟨hentry, hrest⟩ := List.forall_mem_cons.mp hentries
    rw [List.foldl_cons]
    refine ih ?_ hrest
    unfold addGroup
    split
    · exact h
    · intro pattern group hgroup
      by_cases heq : pattern = entry.1
      · rw [heq, Dict.find?_insert_self] at hgroup
        cases hgroup
        exact hentry
      · rw [Dict.find?_insert_of_ne _ _ heq] at hgroup
        exact h pattern group hgroup

end PackageCache

namespace Load

open PackageCache (Filed Asks)

variable {cache : PackageCache}

/-- A load of missing patterns that succeeds gives, for each of them, all that was found for it. -/
theorem run_loadMissing_ok {loader : Nat} {wanted : List String} {w later : Workspace}
    {groups : List (List ResolvedPackage)} (hfiled : w.cache.Filed)
    (h : (loadMissing loader wanted).run w = some (.ok groups, later)) :
    ∃ found middle, (discover loader wanted).run w = some (.ok found, middle) ∧
      found.groups.length = wanted.length ∧
      groups.map (·.map (·.identity)) = found.groups.map ordered ∧
      (w.cache.InOrder → later.cache.InOrder) := by
  cases endsMissing_of_run h with
  | @loaded found middle checked hdiscover hunmatched hpasses =>
    obtain ⟨-, hsame, hfound⟩ := run_discovering hdiscover
    have hcomplete := Discover.complete_patterns
      (DiscoveryState.filed_start w.atlas (w.loader loader).requests) (Prod.ext hfound.symm rfl)
    have hchecks := run_checkPasses hpasses
    have hfills := fillsCache_checkPasses _ _ _ _ _ hpasses
    have hcached : ∀ ids ∈ found.groups, ∀ identity ∈ ids,
        checked.cache.contains identity = true := by
      intro ids hids identity hin
      have hflat := List.mem_flatten.mpr ⟨ids, hids, hin⟩
      by_cases hold : middle.cache.contains identity = true
      · exact hchecks.grows.kept identity hold
      · exact hchecks.all rfl identity ((mem_passes_identity _ identity).mpr
          (mem_pending hcomplete.identities hflat (hcomplete.covered identity hflat) hold))
    have hgroups : ∀ ids ∈ found.groups,
        (groupOf checked.cache ids).map (·.identity) = ordered ids := fun ids hids ↦
      map_groupOf (hfills.filed (hsame ▸ hfiled)).identities (hcached ids hids)
    refine ⟨found, middle, hdiscover, hcomplete.length, ?_, fun hsorted ↦ ?_⟩
    · rw [List.map_map]
      exact List.map_congr_left hgroups
    · have hkept : checked.cache.InOrder := by
        intro pattern group hgroup
        rw [hchecks.grows.groups, hsame] at hgroup
        exact hsorted pattern group hgroup
      refine hkept.foldl_addGroup fun entry hentry ↦ ?_
      obtain ⟨ids, hids, hgroup⟩ := List.mem_map.mp (List.of_mem_zip hentry).2
      rw [← hgroup, hgroups ids hids]
      exact (inOrder_ordered ids).sorted

/-- Cached groups and those of the missing patterns, each in the place of its pattern. -/
theorem asks_fillGroups (hsorted : cache.InOrder) {wanted : List String}
    {found : List (List String)} {missing : List (List ResolvedPackage)}
    (hlength : found.length = (wanted.filter fun pattern ↦ (cache.group? pattern).isNone).length)
    (hmissing : missing.map (·.map (·.identity)) = found.map ordered) :
    ∃ asked, cache.Asks wanted found asked ∧ List.Forall₂ InOrder asked
      ((fillGroups (wanted.map cache.group?) missing).map (·.map (·.identity))) := by
  induction wanted generalizing found missing with
  | nil =>
    cases List.eq_nil_of_length_eq_zero hlength
    exact ⟨[], .nil, .nil⟩
  | cons pattern rest ih =>
    rw [List.filter_cons] at hlength
    rw [List.map_cons]
    cases hgroup : cache.group? pattern with
    | some group =>
      rw [hgroup] at hlength
      obtain ⟨asked, hasks, hrest⟩ := ih hlength hmissing
      rw [fillGroups, List.map_cons]
      rcases PackageCache.group?_eq_some hgroup with
        hkept | ⟨hnone, path, variant, package, hparse, hpackage, rfl⟩
      · exact ⟨_, .kept hkept hasks, .cons ⟨hsorted pattern group hkept, fun _ ↦ Iff.rfl⟩ hrest⟩
      · exact ⟨_, .cached hnone hparse hpackage hasks,
          .cons ⟨List.pairwise_singleton _ _, fun _ ↦ Iff.rfl⟩ hrest⟩
    | none =>
      rw [hgroup, Option.isNone_none, if_pos rfl] at hlength
      cases found with
      | nil => cases hlength
      | cons ids found =>
        cases missing with
        | nil => cases hmissing
        | cons group missing =>
          rw [List.map_cons, List.map_cons] at hmissing
          injection hmissing with hfirst hmissing
          obtain ⟨asked, hasks, hrest⟩ := ih (Nat.succ.inj hlength) hmissing
          rw [fillGroups, List.map_cons, hfirst]
          exact ⟨ids :: asked, .missing hgroup hasks, .cons (inOrder_ordered ids) hrest⟩

/-! ### Each package where it is first asked for -/

theorem map_firstOfIdentity (packages : List ResolvedPackage) (seen : List String) :
    List.eraseDupsBy.loop (· == ·) (packages.map (·.identity)) seen =
      seen.reverse ++ (firstOfIdentity seen packages).map (·.identity) := by
  induction packages generalizing seen with
  | nil => exact (List.append_nil _).symm
  | cons package rest ih =>
    rw [List.map_cons, List.eraseDupsBy.loop, firstOfIdentity, List.contains_eq_any_beq]
    cases seen.any (package.identity == ·) with
    | true => exact ih seen
    | false =>
      dsimp only
      rw [ih, if_neg Bool.false_ne_true, List.map_cons, List.reverse_cons, List.append_assoc,
        List.singleton_append]

theorem mem_firstOfIdentity {packages : List ResolvedPackage} {seen : List String}
    {identity : String} : identity ∈ (firstOfIdentity seen packages).map (·.identity) ↔
      identity ∉ seen ∧ identity ∈ packages.map (·.identity) := by
  fun_induction firstOfIdentity seen packages with
  | case1 => simp
  | case2 seen package rest hseen ih =>
    rw [ih, List.map_cons, List.mem_cons]
    have hin := List.contains_iff_mem.mp hseen
    exact ⟨fun h ↦ ⟨h.1, Or.inr h.2⟩, fun h ↦ ⟨h.1, h.2.resolve_left fun heq ↦ h.1 (heq ▸ hin)⟩⟩
  | case3 seen package rest hseen ih =>
    rw [List.map_cons, List.map_cons, List.mem_cons, List.mem_cons, ih, List.mem_cons]
    have hnot : package.identity ∉ seen := fun hin ↦ hseen (List.contains_iff_mem.mpr hin)
    by_cases heq : identity = package.identity
    · simp [heq, hnot]
    · simp [heq]

theorem nodup_firstOfIdentity (packages : List ResolvedPackage) (seen : List String) :
    ((firstOfIdentity seen packages).map (·.identity)).Nodup := by
  fun_induction firstOfIdentity seen packages with
  | case1 => exact List.nodup_nil
  | case2 seen package rest hseen ih => exact ih
  | case3 seen package rest hseen ih =>
    rw [List.map_cons]
    exact List.nodup_cons.mpr
      ⟨fun hin ↦ (mem_firstOfIdentity.mp hin).1 List.mem_cons_self, ih⟩

theorem exists_mem_of_forall₂ {asked groups : List (List String)}
    (h : List.Forall₂ InOrder asked groups) (identity : String) :
    identity ∈ groups.flatten ↔ ∃ ids ∈ asked, identity ∈ ids := by
  induction h with
  | nil => simp
  | cons hfirst _ ih =>
    rw [List.flatten_cons, List.mem_append, hfirst.mem_iff, ih]
    simp

/-! ### Loads -/

variable {loader : Nat} {w later : Workspace}

/-- A discovery of no pattern finds nothing. -/
theorem run_discover_nil (loader : Nat) (w : Workspace) :
    ∃ middle, (discover loader []).run w = some (.ok ⟨Dict.empty, []⟩, middle) := by
  have hrun : ∃ middle, (discover loader []).run w = some
      (((Discover.patterns (w.site loader) []).run.run
        (DiscoveryState.start w.atlas (w.loader loader).requests)).1, middle) := ⟨_, rfl⟩
  rw [Discover.run_patterns_nil] at hrun
  exact hrun

theorem run_patterns_ok {wanted : List String} {packages : List ResolvedPackage}
    (hfiled : w.cache.Filed) (hsorted : w.cache.InOrder)
    (h : (patterns loader wanted).run w = some (.ok packages, later)) :
    later.cache.InOrder ∧ ∃ found middle asked groups,
      (discover loader (wanted.filter fun pattern ↦ (w.cache.group? pattern).isNone)).run w =
          some (.ok found, middle) ∧
        w.cache.Asks wanted found.groups asked ∧ List.Forall₂ InOrder asked groups ∧
        packages.map (·.identity) = groups.flatten.eraseDups ∧
        (packages.map (·.identity)).Nodup ∧
        ∀ identity, identity ∈ packages.map (·.identity) ↔ ∃ ids ∈ asked, identity ∈ ids := by
  -- Both ways in which a load ends well give the groups of all patterns, put together.
  have hgives : ∀ {found : List (List String)} {missing : List (List ResolvedPackage)},
      found.length = (wanted.filter fun pattern ↦ (w.cache.group? pattern).isNone).length →
      missing.map (·.map (·.identity)) = found.map ordered →
      packages = firstOfIdentity [] (fillGroups (wanted.map w.cache.group?) missing).flatten →
      ∃ asked groups, w.cache.Asks wanted found asked ∧ List.Forall₂ InOrder asked groups ∧
        packages.map (·.identity) = groups.flatten.eraseDups ∧
        (packages.map (·.identity)).Nodup ∧
        ∀ identity, identity ∈ packages.map (·.identity) ↔ ∃ ids ∈ asked, identity ∈ ids := by
    rintro found missing hlength hmissing rfl
    obtain ⟨asked, hasks, hgroups⟩ := asks_fillGroups hsorted hlength hmissing
    refine ⟨asked, _, hasks, hgroups, ?_, nodup_firstOfIdentity _ _, fun identity ↦ ?_⟩
    · rw [← List.map_flatten]
      exact (map_firstOfIdentity _ []).symm
    · rw [mem_firstOfIdentity, List.map_flatten, exists_mem_of_forall₂ hgroups]
      exact and_iff_right List.not_mem_nil
  obtain ⟨loaded, hresult, ⟨hempty, rfl, rfl⟩ | hload⟩ := exists_of_patterns h
  · rw [hempty] at hgives ⊢
    obtain ⟨middle, hdiscover⟩ := run_discover_nil loader later
    obtain ⟨asked, groups, hall⟩ := @hgives [] [] rfl rfl (Except.ok.inj hresult)
    exact ⟨hsorted, _, middle, asked, groups, hdiscover, hall⟩
  · cases loaded with
    | error error => cases hresult
    | ok groups =>
      obtain ⟨found, last, hdiscover, hlength, hmap, hkept⟩ := run_loadMissing_ok hfiled hload
      obtain ⟨asked, all, hall⟩ := hgives hlength hmap (Except.ok.inj hresult)
      exact ⟨hkept hsorted, found, last, asked, all, hdiscover, hall⟩

end Load

/-- The caches that loads lead to, whatever happens to their workspaces in between. -/
inductive PackageCache.Reached : PackageCache → Prop
  | empty : Reached .empty
  | load {c : LoadCall} {w later : Workspace}
      {result : Except LoadError (List ResolvedPackage)} (hbefore : Reached w.cache)
      (hcall : (Load.call c).run w = some (result, later)) : Reached later.cache

theorem PackageCache.Reached.inOrder {cache : PackageCache} (h : cache.Reached) :
    cache.Filed ∧ cache.InOrder := by
  induction h with
  | empty => exact ⟨PackageCache.filed_empty, fun _ _ h ↦ by cases h⟩
  | @load c w later result _ hcall ih =>
    obtain ⟨hfiled, hsorted⟩ := ih
    have hhands := Load.hands_call hfiled hcall
    refine ⟨hhands.filed, ?_⟩
    obtain ⟨_, _, hmodify, hload⟩ := Load.run_bind_eq_some hcall
    cases hmodify
    cases result with
    | error error =>
      intro pattern group hgroup
      rw [hhands.failed error rfl] at hgroup
      exact hsorted pattern group hgroup
    | ok packages =>
      exact (Load.run_patterns_ok (w := { w with tree := c.tree }) hfiled hsorted hload).1

namespace Load

/-- Whatever is cached by then: a load that succeeds gives the identities that its patterns ask for,
those of each pattern sorted and once, pattern by pattern, without those that occurred before. -/
theorem call_gives_in_order {c : LoadCall} {w later : Workspace} {packages : List ResolvedPackage}
    (hreached : w.cache.Reached) (hcall : (call c).run w = some (.ok packages, later)) :
    ∃ found middle asked, ∃ groups : List (List String),
      (discover c.loader (c.wanted.filter fun pattern ↦ (w.cache.group? pattern).isNone)).run
          { w with tree := c.tree } = some (.ok found, middle) ∧
        w.cache.Asks c.wanted found.groups asked ∧ List.Forall₂ InOrder asked groups ∧
        packages.map (·.identity) = groups.flatten.eraseDups ∧
        (packages.map (·.identity)).Nodup ∧
        ∀ identity, identity ∈ packages.map (·.identity) ↔ ∃ ids ∈ asked, identity ∈ ids := by
  obtain ⟨hfiled, hsorted⟩ := hreached.inOrder
  obtain ⟨_, _, hmodify, hload⟩ := run_bind_eq_some hcall
  cases hmodify
  exact (run_patterns_ok (w := { w with tree := c.tree }) hfiled hsorted hload).2

/-- Kept, cached and missing patterns that overlap, with one directory under two paths. -/
theorem brokenTree_gives_in_order :
    ∃ earlier w later packages found middle asked,
      (call ⟨brokenTree, 0, ["b...", "dep"]⟩).run (Workspace.start brokenTree [plainLoader]) =
        some (.ok earlier, w) ∧
      (call ⟨brokenTree, 0, ["d...", "./base", "base", "b...", "dep"]⟩).run w =
        some (.ok packages, later) ∧
      (discover 0 (["d...", "./base", "base", "b...", "dep"].filter fun pattern ↦
        (w.cache.group? pattern).isNone)).run { w with tree := brokenTree } =
        some (.ok found, middle) ∧
      w.cache.Asks ["d...", "./base", "base", "b...", "dep"] found.groups asked ∧
      packages.map (·.identity) = ["dep", "./base", "base"] := by
  have hruns : (StateT.run (do
      let earlier ← call ⟨brokenTree, 0, ["b...", "dep"]⟩
      let result ← call ⟨brokenTree, 0, ["d...", "./base", "base", "b...", "dep"]⟩
      return (earlier.toOption.isSome, result.toOption.map fun packages ↦
        packages.map (·.identity)))
        (Workspace.start brokenTree [plainLoader])).map Prod.fst =
      some (true, some ["dep", "./base", "base"]) := by decide +kernel
  obtain ⟨⟨_, later⟩, hrun, hfound⟩ := Option.map_eq_some_iff.mp hruns
  obtain ⟨earlier, w, hbefore, hrun⟩ := run_bind_eq_some hrun
  obtain ⟨result, _, hcall, hpure⟩ := run_bind_eq_some hrun
  cases hpure
  injection hfound with hearlier hresult
  cases earlier with
  | error error => cases hearlier
  | ok earlier =>
    cases result with
    | error error => cases hresult
    | ok packages =>
      obtain ⟨found, middle, asked, _, hdiscover, hasks, -⟩ :=
        call_gives_in_order (.load .empty hbefore) hcall
      exact ⟨earlier, w, later, packages, found, middle, asked, hbefore, hcall, hdiscover, hasks,
        Option.some.inj hresult⟩

end Load

end PackageAtlas
