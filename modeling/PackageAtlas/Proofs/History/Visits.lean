import PackageAtlas.Load.Discovery
import PackageAtlas.Proofs.History.Directory

/-!
What a discovery finds does not depend on what it visited before. Each directory that was visited
under a name is the one that the name leads to, so that the packages which were found there are
those that would be found again; a discovery of some patterns gives the answers that can be read off
the file tree.
-/

set_option autoImplicit false
set_option relaxedAutoImplicit false

namespace PackageAtlas

namespace Dict

variable {κ α : Type} [DecidableEq κ]

theorem mem_entries_insert {dict : Dict κ α} {key other : κ} {value found : α}
    (h : (other, found) ∈ (dict.insert key value).entries) :
    (other, found) ∈ dict.entries ∨ (other = key ∧ found = value) := by
  obtain ⟨entries⟩ := dict
  change (other, found) ∈ put key value entries at h
  induction entries with
  | nil =>
    rw [put, List.mem_singleton] at h
    cases h
    exact Or.inr ⟨rfl, rfl⟩
  | cons entry rest ih =>
    rw [put] at h
    by_cases heq : entry.1 = key
    · rw [if_pos heq] at h
      rcases List.mem_cons.mp h with h | h
      · cases h
        exact Or.inr ⟨rfl, rfl⟩
      · exact Or.inl (List.mem_cons_of_mem entry h)
    · rw [if_neg heq] at h
      rcases List.mem_cons.mp h with h | h
      · exact Or.inl (h ▸ List.mem_cons_self)
      · exact (ih h).imp_left (List.mem_cons_of_mem entry)

end Dict

namespace DiscoveryState

/-- Each directory that was visited is the one that its name leads to, with the packages that are
there, and all packages found are from such directories. -/
structure Sound (site : Site) (s : DiscoveryState) : Prop where
  visited : ∀ base ids, s.visited.find? base = some ids →
    ∃ dir, Discover.exactDir? site base = some dir ∧ site.outcome dir base = .ok ids
  packages : ∀ identity raw, (identity, raw) ∈ s.packages.entries → raw.identity = identity ∧
    ∃ dir base ids, Discover.exactDir? site base = some dir ∧ site.outcome dir base = .ok ids ∧
      identity ∈ ids
  covered : ∀ base ids, s.visited.find? base = some ids →
    ∀ identity ∈ ids, s.packages.contains identity = true

theorem sound_start (site : Site) (atlas : Atlas) (requests : List PreprocessRequest) :
    (start atlas requests).Sound site where
  visited _ _ h := by cases h
  packages _ _ h := by cases h
  covered _ _ h := by cases h

end DiscoveryState

namespace Discover

variable {site : Site} {α β γ : Type}

/-! ### Steps that give what can be read off -/

/-- A step gives a value after whatever was visited before, and finds the packages that the value
names. -/
def Yields (site : Site) (named : α → List String) (step : Discover α)
    (value : Except LoadError α) : Prop :=
  ∀ s : DiscoveryState, s.Sound site → ∃ later : DiscoveryState,
    step.run.run s = (value, later) ∧ later.Sound site ∧
      (∀ identity, s.packages.contains identity = true →
        later.packages.contains identity = true) ∧
      ∀ a, value = .ok a → ∀ identity ∈ named a, later.packages.contains identity = true

theorem Yields.pure {named : α → List String} {a : α} (h : named a = []) :
    Yields site named (Pure.pure a) (.ok a) := by
  refine fun s hs ↦ ⟨s, rfl, hs, fun _ h ↦ h, fun b hb identity hin ↦ ?_⟩
  cases hb
  rw [h] at hin
  cases hin

theorem Yields.throw {named : α → List String} (error : LoadError) :
    Yields site named (throw error) (.error error) :=
  fun s hs ↦ ⟨s, rfl, hs, fun _ h ↦ h, fun _ h ↦ by cases h⟩

theorem Yields.bind {named : α → List String} {step : Discover α} {value : Except LoadError α}
    (h : Yields site named step value) {also : α → β → List String} {given : β → List String}
    {k : α → Discover β} {next : α → Except LoadError β}
    (hk : ∀ a, value = .ok a → Yields site (also a) (k a) (next a))
    (hgiven : ∀ a b, next a = .ok b → ∀ identity ∈ given b,
      identity ∈ named a ∨ identity ∈ also a b) :
    Yields site given (step >>= k) (value >>= next) := by
  intro s hs
  obtain ⟨middle, hrun, hmiddle, hkept, hnamed⟩ := h s hs
  cases value with
  | error error =>
    refine ⟨middle, ?_, hmiddle, hkept, fun _ h ↦ by cases h⟩
    rw [ExceptT.run_bind, StateT.run_bind, hrun]
    rfl
  | ok a =>
    obtain ⟨later, hlater, hsound, hmore, halso⟩ := hk a rfl middle hmiddle
    refine ⟨later, ?_, hsound, fun identity hin ↦ hmore identity (hkept identity hin), ?_⟩
    · rw [ExceptT.run_bind, StateT.run_bind, hrun]
      exact hlater
    · intro b hb identity hin
      exact (hgiven a b hb identity hin).elim (fun h ↦ hmore identity (hnamed a rfl identity h))
        (halso b hb identity)

/-- The same when what follows visits nothing. -/
theorem Yields.map {named : α → List String} {step : Discover α} {value : Except LoadError α}
    (h : Yields site named step value) {given : β → List String} (f : α → β)
    (hgiven : ∀ a, ∀ identity ∈ given (f a), identity ∈ named a) :
    Yields site given (step >>= fun a ↦ Pure.pure (f a)) (value >>= fun a ↦ Pure.pure (f a)) := by
  have hpure : ∀ a, Yields site (fun _ ↦ []) (Pure.pure (f a)) (.ok (f a)) := fun a ↦ .pure rfl
  refine h.bind (fun a _ ↦ hpure a) fun a b hb identity hin ↦ ?_
  cases hb
  exact Or.inl (hgiven a identity hin)

theorem Yields.mapM {named : β → List String} {step : α → Discover β}
    {value : α → Except LoadError β} {list : List α}
    (h : ∀ a ∈ list, Yields site named (step a) (value a)) :
    Yields site (List.flatMap named) (list.mapM step) (list.mapM value) := by
  induction list with
  | nil => exact Yields.pure rfl
  | cons a rest ih =>
    have hlater := ih fun other hother ↦ h other (List.mem_cons_of_mem a hother)
    have hrest : ∀ b, Yields site (fun found ↦ found.tail.flatMap named)
        (rest.mapM step >>= fun found ↦ Pure.pure (b :: found))
        (rest.mapM value >>= fun found ↦ Pure.pure (b :: found)) :=
      fun b ↦ hlater.map (b :: ·) fun _ _ hin ↦ hin
    rw [List.mapM_cons, List.mapM_cons]
    refine (h a List.mem_cons_self).bind (fun b _ ↦ hrest b) fun b found hfound identity hin ↦ ?_
    cases hvalue : rest.mapM value with
    | error error =>
      rw [hvalue] at hfound
      cases hfound
    | ok others =>
      rw [hvalue] at hfound
      cases hfound
      exact List.mem_append.mp hin

/-! ### Visits -/

/-- A directory to which a name leads, however its path is written. -/
def IsPlace (site : Site) (dir base : String) : Prop :=
  dir ≠ "" ∧ ∃ own, exactDir? site base = some own ∧ own ≠ "" ∧ Path.parts own = Path.parts dir

theorem ne_empty_of_exactDir? {path dir : String} (h : exactDir? site path = some dir) :
    site.tree.isDir dir = true ∧ dir ≠ "" := by
  have hdir : site.tree.isDir dir = true := by
    unfold exactDir? at h
    by_cases hlocal : isLocalPath path = true
    · rw [if_pos hlocal] at h
      unfold Site.findLocal? at h
      split at h
      · next hisDir =>
        cases h
        exact hisDir
      · cases h
    · rw [if_neg hlocal] at h
      exact List.find?_some h
  refine ⟨hdir, ?_⟩
  rintro rfl
  cases hdir

theorem isPlace_of_exactDir? {path dir : String} (h : exactDir? site path = some dir) :
    IsPlace site dir path :=
  ⟨(ne_empty_of_exactDir? h).2, dir, h, (ne_empty_of_exactDir? h).2, rfl⟩

theorem run_get_bind (k : DiscoveryState → Discover α) (s : DiscoveryState) :
    (get >>= k).run.run s = (k s).run.run s := rfl

theorem run_visit_of_visited {s : DiscoveryState} {base : String} {ids : List String}
    (h : s.visited.find? base = some ids) (dir : String) :
    (visit site dir base).run.run s = (.ok ids, s) := by
  unfold visit
  rw [run_get_bind, h]
  rfl

theorem run_visit_of_not_visited {s : DiscoveryState} {base : String}
    (h : s.visited.find? base = none) (dir : String) :
    (visit site dir base).run.run s =
      match (site.parseDir s.atlas.nextSpace dir base).run.run s.requests with
      | (.error error, requests) => (.error error, { s with requests })
      | (.ok (space, raws), requests) =>
        (.ok (raws.map (·.identity)),
          ⟨s.atlas.addSpace space, requests,
            raws.foldl (fun found raw ↦ found.insert raw.identity raw) s.packages,
            s.visited.insert base (raws.map (·.identity))⟩) := by
  unfold visit parse
  rw [run_get_bind, h]
  dsimp only
  rw [bind_assoc, run_get_bind]
  rcases (site.parseDir s.atlas.nextSpace dir base).run.run s.requests with
    ⟨_ | ⟨space, raws⟩, requests⟩ <;> rfl

theorem contains_foldl_insert (raws : List RawPackage) (packages : Dict String RawPackage)
    (identity : String) :
    (raws.foldl (fun found raw ↦ found.insert raw.identity raw) packages).contains identity = true ↔
      identity ∈ raws.map (·.identity) ∨ packages.contains identity = true := by
  induction raws generalizing packages with
  | nil => exact ⟨Or.inr, fun h ↦ h.elim (fun hin ↦ by cases hin) id⟩
  | cons raw rest ih =>
    rw [List.foldl_cons, ih, Dict.contains_insert, List.map_cons, List.mem_cons]
    tauto

theorem mem_entries_foldl_insert {raws : List RawPackage} {packages : Dict String RawPackage}
    {identity : String} {raw : RawPackage}
    (h : (identity, raw) ∈
      (raws.foldl (fun found raw ↦ found.insert raw.identity raw) packages).entries) :
    (identity, raw) ∈ packages.entries ∨ (raw ∈ raws ∧ raw.identity = identity) := by
  induction raws generalizing packages with
  | nil => exact Or.inl h
  | cons first rest ih =>
    rcases ih h with hin | ⟨hin, hidentity⟩
    · rcases Dict.mem_entries_insert hin with hold | ⟨rfl, rfl⟩
      · exact Or.inl hold
      · exact Or.inr ⟨List.mem_cons_self, rfl⟩
    · exact Or.inr ⟨List.mem_cons_of_mem first hin, hidentity⟩

/-- A visit gives what the directory holds. -/
theorem yields_visit (hrun : site.PreprocessesPaths) {dir base : String}
    (hplace : IsPlace site dir base) :
    Yields site id (visit site dir base) (site.outcome dir base) := by
  obtain ⟨hdir, own, hown, hne, hsame⟩ := hplace
  intro s hs
  cases hvisited : s.visited.find? base with
  | some ids =>
    obtain ⟨other, hother, houtcome⟩ := hs.visited base ids hvisited
    rw [hown] at hother
    cases hother
    have hvalue := Site.outcome_congr hrun hsame hne hdir houtcome
    rw [hvalue]
    refine ⟨s, run_visit_of_visited hvisited dir, hs, fun _ h ↦ h, fun a ha identity hin ↦ ?_⟩
    cases ha
    exact hs.covered base _ hvisited identity hin
  | none =>
    have hstep : (visit site dir base).run.run s = _ := run_visit_of_not_visited hvisited dir
    have hvalue := site.map_parseDir hdir base s.atlas.nextSpace s.requests
    rcases hparse : (site.parseDir s.atlas.nextSpace dir base).run.run s.requests with
      ⟨error | ⟨space, raws⟩, requests⟩
    · rw [hparse] at hstep hvalue
      rw [← hvalue]
      exact ⟨_, hstep, ⟨hs.visited, hs.packages, hs.covered⟩, fun _ h ↦ h, fun _ h ↦ by cases h⟩
    · rw [hparse] at hstep hvalue
      have hfound : site.outcome own base = .ok (raws.map (·.identity)) :=
        Site.outcome_congr hrun hsame.symm hdir hne hvalue.symm
      rw [← hvalue]
      refine ⟨_, hstep, ⟨?_, ?_, ?_⟩, ?_, ?_⟩
      · intro other ids hother
        by_cases heq : other = base
        · rw [heq, Dict.find?_insert_self] at hother
          cases hother
          exact ⟨own, heq ▸ hown, heq ▸ hfound⟩
        · rw [Dict.find?_insert_of_ne _ _ heq] at hother
          exact hs.visited other ids hother
      · intro identity raw hraw
        rcases mem_entries_foldl_insert hraw with hold | ⟨hin, rfl⟩
        · exact hs.packages identity raw hold
        · exact ⟨rfl, own, base, _, hown, hfound, List.mem_map_of_mem hin⟩
      · intro other ids hother identity hin
        rw [contains_foldl_insert]
        by_cases heq : other = base
        · rw [heq, Dict.find?_insert_self] at hother
          cases hother
          exact Or.inl hin
        · rw [Dict.find?_insert_of_ne _ _ heq] at hother
          exact Or.inr (hs.covered other ids hother identity hin)
      · intro identity hin
        exact (contains_foldl_insert raws s.packages identity).mpr (Or.inr hin)
      · intro a ha identity hin
        cases ha
        exact (contains_foldl_insert raws s.packages identity).mpr (Or.inl hin)

/-! ### Answers -/

/-- What an exact pattern finds. -/
def exactAnswer (site : Site) (path : String) (variant : Variant) : Except LoadError String :=
  match exactDir? site path with
  | none => .error (.packageNotFound (variant.identity path))
  | some dir => do
    if (← site.outcome dir path).contains (variant.identity path) then
      return variant.identity path
    else throw (.packageNotFound (variant.identity path))

/-- The directories that a local pattern accepts, by the names that lead there. -/
def localPlaces (site : Site) (matcher : PatternMatcher) : List (List String) :=
  (site.tree.walk (Path.join site.config.workingDir matcher.walkBase) site.enters).filter
    (matcher.accepts <| localName matcher.walkBase ·)

/-- What a local pattern finds. -/
def localAnswer (site : Site) (matcher : PatternMatcher) : Except LoadError (List String) := do
  let ids ← (localPlaces site matcher).mapM fun names ↦
    site.outcome (below (Path.join site.config.workingDir matcher.walkBase) names)
      (localName matcher.walkBase names)
  return ids.flatten

/-- What a pattern finds by itself. -/
def ownAnswer (site : Site) (pattern : String) :
    Except LoadError (Except PatternMatcher (List String)) := do
  match Pattern.parse pattern with
  | .exact path variant => return .ok [← exactAnswer site path variant]
  | .locals matcher => return .ok (← localAnswer site matcher)
  | .tree matcher => return .error matcher

/-- The directories below the roots that some patterns ask for. -/
def treePlaces (site : Site) (matchers : List PatternMatcher) : List NamedDir :=
  (firstOfName [] (site.config.roots.flatMap (rootDirs site matchers))).filter fun dir ↦
    matchers.any (·.accepts dir.name)

/-- What trees find, directory by directory. -/
def treeAnswers (site : Site) (matchers : List PatternMatcher) :
    Except LoadError (List (String × List String)) :=
  (treePlaces site matchers).mapM fun dir ↦ do return (dir.name, ← site.outcome dir.dir dir.name)

/-- What patterns find. -/
def answers (site : Site) (wanted : List String) : Except LoadError (List (List String)) := do
  let own ← wanted.mapM (ownAnswer site)
  let found ← treeAnswers site (own.filterMap matcher?)
  return own.map (groupOf found)

theorem yields_exact (hrun : site.PreprocessesPaths) (path : String) (variant : Variant) :
    Yields site ([·]) (exact site path variant) (exactAnswer site path variant) := by
  unfold exact exactAnswer
  cases hdir : exactDir? site path with
  | none => exact .throw _
  | some dir =>
    have hrest : ∀ ids : List String, Yields site (fun _ ↦ [])
        (if ids.contains (variant.identity path) then pure (variant.identity path)
          else throw (.packageNotFound (variant.identity path)))
        (if ids.contains (variant.identity path) then pure (variant.identity path)
          else throw (.packageNotFound (variant.identity path))) := by
      intro ids
      split
      · exact .pure rfl
      · exact .throw _
    refine (yields_visit hrun (isPlace_of_exactDir? hdir)).bind (fun ids _ ↦ hrest ids) ?_
    intro ids identity hidentity other hother
    rcases List.mem_singleton.mp hother with rfl
    by_cases hcontains : ids.contains (variant.identity path) = true
    · rw [if_pos hcontains] at hidentity
      cases hidentity
      exact Or.inl (List.contains_iff_mem.mp hcontains)
    · rw [if_neg hcontains] at hidentity
      cases hidentity

theorem yields_localTree (hrun : site.PreprocessesPaths) {matcher : PatternMatcher}
    (hplaces : ∀ names ∈ localPlaces site matcher,
      IsPlace site (below (Path.join site.config.workingDir matcher.walkBase) names)
        (localName matcher.walkBase names)) :
    Yields site id (localTree site matcher) (localAnswer site matcher) := by
  have hall := Yields.mapM fun names hnames ↦ yields_visit hrun (hplaces names hnames)
  exact hall.map List.flatten fun ids identity hin ↦ by rwa [List.flatMap_id]

/-- The identities that a pattern found by itself. -/
def ownNames : Except PatternMatcher (List String) → List String
  | .ok ids => ids
  | .error _ => []

theorem yields_ownGroup (hrun : site.PreprocessesPaths) {pattern : String}
    (hplaces : ∀ matcher, Pattern.parse pattern = .locals matcher →
      ∀ names ∈ localPlaces site matcher,
        IsPlace site (below (Path.join site.config.workingDir matcher.walkBase) names)
          (localName matcher.walkBase names)) :
    Yields site ownNames (ownGroup site pattern) (ownAnswer site pattern) := by
  unfold ownGroup ownAnswer
  cases hparse : Pattern.parse pattern with
  | exact path variant =>
    exact (yields_exact hrun path variant).map
      (fun identity ↦ (Except.ok [identity] : Except PatternMatcher (List String))) fun _ _ h ↦ h
  | locals matcher =>
    exact (yields_localTree hrun (hplaces matcher hparse)).map Except.ok fun _ _ h ↦ h
  | tree matcher => exact .pure rfl

theorem yields_trees (hrun : site.PreprocessesPaths) {matchers : List PatternMatcher}
    (hplaces : ∀ dir ∈ treePlaces site matchers, IsPlace site dir.dir dir.name) :
    Yields site (List.flatMap (·.2)) (trees site matchers) (treeAnswers site matchers) := by
  refine Yields.mapM fun dir hdir ↦ ?_
  exact (yields_visit hrun (hplaces dir hdir)).map (fun ids ↦ (dir.name, ids)) fun _ _ h ↦ h

theorem mem_of_mem_groupOf {found : List (String × List String)}
    {own : Except PatternMatcher (List String)} {identity : String}
    (h : identity ∈ groupOf found own) : identity ∈ ownNames own ∨ identity ∈ found.flatMap (·.2) := by
  cases own with
  | ok ids => exact Or.inl h
  | error matcher =>
    obtain ⟨entry, hentry, hin⟩ := List.mem_flatMap.mp h
    exact Or.inr (List.mem_flatMap.mpr ⟨entry, (List.mem_filter.mp hentry).1, hin⟩)

/-- Whatever some patterns ask for, and all that is below the roots, is the place of its name. -/
structure Placed (site : Site) (wanted : List String) : Prop where
  locals : ∀ pattern ∈ wanted, ∀ matcher, Pattern.parse pattern = .locals matcher →
    ∀ names ∈ localPlaces site matcher,
      IsPlace site (below (Path.join site.config.workingDir matcher.walkBase) names)
        (localName matcher.walkBase names)
  trees : ∀ matchers, ∀ dir ∈ treePlaces site matchers, IsPlace site dir.dir dir.name

theorem yields_groups (hrun : site.PreprocessesPaths) {wanted : List String}
    (hplaced : Placed site wanted) :
    Yields site List.flatten
      (do
        let own ← wanted.mapM (ownGroup site)
        let found ← trees site (own.filterMap matcher?)
        return own.map (groupOf found))
      (answers site wanted) := by
  have hown := Yields.mapM fun pattern (hpattern : pattern ∈ wanted) ↦
    yields_ownGroup hrun (hplaced.locals pattern hpattern)
  have hrest : ∀ own : List (Except PatternMatcher (List String)), Yields site
      (fun groups : List (List String) ↦ groups.flatten.filter fun identity ↦ !(own.flatMap ownNames).contains identity)
      (trees site (own.filterMap matcher?) >>= fun found ↦ pure (own.map (groupOf found)))
      (treeAnswers site (own.filterMap matcher?) >>= fun found ↦
        pure (own.map (groupOf found))) := by
    intro own
    refine (yields_trees hrun (hplaced.trees _)).map _ fun found identity hin ↦ ?_
    obtain ⟨hflat, hnot⟩ := List.mem_filter.mp hin
    obtain ⟨group, hgroup, hidentity⟩ := List.mem_flatten.mp hflat
    obtain ⟨one, hone, rfl⟩ := List.mem_map.mp hgroup
    refine (mem_of_mem_groupOf hidentity).resolve_left fun hnames ↦ ?_
    have hcontains : (own.flatMap ownNames).contains identity = true :=
      List.contains_iff_mem.mpr (List.mem_flatMap.mpr ⟨one, hone, hnames⟩)
    rw [hcontains] at hnot
    cases hnot
  refine hown.bind (fun own _ ↦ hrest own) fun own groups _ identity hin ↦ ?_
  by_cases hmem : identity ∈ own.flatMap ownNames
  · exact Or.inl hmem
  · refine Or.inr (List.mem_filter.mpr ⟨hin, ?_⟩)
    rw [Bool.not_eq_true', ← Bool.not_eq_true, List.contains_iff_mem]
    exact hmem

/-- A discovery gives the answers that can be read off, with the packages that they name. -/
theorem run_patterns (hrun : site.PreprocessesPaths) {wanted : List String}
    (hplaced : Placed site wanted) {s : DiscoveryState} (hs : s.Sound site) :
    ∃ later : DiscoveryState, later.Sound site ∧
      (patterns site wanted).run.run s =
        ((answers site wanted).map fun groups ↦ ⟨later.packages, groups⟩, later) ∧
      ∀ groups, answers site wanted = .ok groups →
        ∀ identity ∈ groups.flatten, later.packages.contains identity = true := by
  obtain ⟨later, hgroups, hsound, -, hnamed⟩ := yields_groups hrun hplaced s hs
  refine ⟨later, hsound, ?_, hnamed⟩
  have hpatterns : patterns site wanted =
      (do
        let own ← wanted.mapM (ownGroup site)
        let found ← trees site (own.filterMap matcher?)
        return own.map (groupOf found)) >>= fun groups ↦ do
          return ⟨(← get).packages, groups⟩ := by
    unfold patterns
    simp only [bind_assoc, pure_bind]
  rw [hpatterns, ExceptT.run_bind, StateT.run_bind, hgroups]
  cases answers site wanted with
  | error error => rfl
  | ok groups => rfl

end Discover

end PackageAtlas
