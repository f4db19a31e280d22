import PackageAtlas.Proofs.Imports.Dotless
import PackageAtlas.Proofs.Lookup.Handles
import PackageAtlas.Proofs.Naming.Declarations

/-!
Imports that the cache answers. Every cached package is from a directory that its identity leads to;
so the first candidate of an import that is cached is also the first that is a directory below a
root, and the package is from that directory (`Load.locate?_of_cachedImport?`). An importing
directory with two dots may have candidates that start with them, which are cached as local paths and
looked up below the roots; these are left out.
-/

set_option autoImplicit false
set_option relaxedAutoImplicit false

namespace PackageAtlas

/-- A directory that an identity leads to, however its path is written. -/
def Site.IsHome (site : Site) (identity dir : String) : Prop :=
  ∃ base variant, identity = Variant.identity base variant ∧ Discover.IsPlace site dir base

/-! ### Packages that are found -/

namespace Site

variable {site : Site} {set : FileSet} {dir base : String}

/-- The packages of a directory have its path, and are told apart by their variants. -/
def AreOf (dir base : String) (raws : List RawPackage) : Prop :=
  ∀ raw ∈ raws, raw.dir = dir ∧ ∃ variant, raw.identity = Variant.identity base variant

theorem areOf_packages (groups : List (PackageGroup × Variant)) :
    Gives (packages site dir base set groups) fun result ↦ AreOf dir base result.2 := by
  induction groups generalizing set with
  | nil => exact .pure fun _ h ↦ (by cases h)
  | cons group groups ih =>
    have hany {α : Type} (step : Prepare α) : Gives step fun _ ↦ True := fun _ _ _ ↦ trivial
    refine (hany _).bind fun _ _ ↦ ih.bind fun _ hrest ↦ .pure ?_
    exact List.forall_mem_cons.2 ⟨⟨rfl, group.2, rfl⟩, hrest⟩

theorem areOf_parseDir (space : SpaceId) :
    Gives (parseDir site space dir base) fun result ↦ AreOf dir base result.2 := by
  have hany {α : Type} (step : Prepare α) : Gives step fun _ ↦ True := fun _ _ _ ↦ trivial
  exact (hany _).bind fun _ _ ↦ (hany _).bind fun _ _ ↦ (hany _).bind fun _ _ ↦ areOf_packages _

end Site

namespace Discover

variable {site : Site}

/-- All packages that were found are from directories that their identities lead to. -/
def AtHome (site : Site) (s : DiscoveryState) : Prop :=
  ∀ entry ∈ s.packages.entries, site.IsHome entry.2.identity entry.2.dir

theorem keeps_visit {dir base : String} (hplace : IsPlace site dir base) :
    Keeps (AtHome site) (visit site dir base) := by
  intro s hs
  cases hvisited : s.visited.find? base with
  | some ids =>
    rw [run_visit_of_visited hvisited]
    exact hs
  | none =>
    rw [run_visit_of_not_visited hvisited]
    have hgives := @Site.areOf_parseDir site dir base s.atlas.nextSpace s.requests
    rcases hrun : (site.parseDir s.atlas.nextSpace dir base).run.run s.requests with
      ⟨error | ⟨set, raws⟩, requests⟩
    · exact hs
    · have hraws := hgives _ (congrArg Prod.fst hrun)
      intro entry hentry
      rcases mem_entries_foldl_insert hentry with hold | ⟨hin, -⟩
      · exact hs entry hold
      · obtain ⟨hdir, variant, hidentity⟩ := hraws _ hin
        exact ⟨base, variant, hidentity, hdir ▸ hplace⟩

theorem atHome_patterns {wanted : List String} (hplaced : Placed site wanted) :
    Keeps (AtHome site) (patterns site wanted) :=
  keeps_patterns (fun _ _ ↦ keeps_visit) (fun _ _ ↦ isPlace_of_exactDir?) hplaced.locals
    hplaced.trees

end Discover

/-! ### Packages that are cached -/

namespace PackageCache

/-- All cached packages are from directories that their identities lead to. -/
def AtHome (site : Site) (cache : PackageCache) : Prop :=
  ∀ identity package, cache.find? identity = some package →
    package.identity = identity ∧ site.IsHome identity package.dir

variable {site : Site} {cache : PackageCache}

theorem atHome_empty (site : Site) : empty.AtHome site := fun _ _ h ↦ (by cases h)

end PackageCache

namespace Load

variable {loader : Nat} {site : Site} {raw : RawPackage} {w later : Workspace}

theorem dir_of_check {place : ImportPlace} {package : ResolvedPackage}
    (h : (check place raw).run w = some (.ok package, later)) : package.dir = raw.dir := by
  obtain ⟨results, middle, -, hrest⟩ := run_bind_eq_some h
  obtain ⟨current, _, hstore, hcheck⟩ := run_bind_eq_some hrest
  cases hstore
  obtain ⟨⟨verdict, store⟩, last, hraw, hset⟩ := run_bind_eq_some hcheck
  obtain ⟨⟨outcome, made⟩, hsome, hlast⟩ := Option.bind_eq_some_iff.1 hraw
  cases hlast
  cases hset
  obtain ⟨checked, -, rfl, -⟩ := RawPackage.check_eq_some hsome
  rfl

theorem atHome_checkAndCache {result : Except LoadError Unit}
    (hraw : site.IsHome raw.identity raw.dir) (hw : w.cache.AtHome site)
    (h : (checkAndCache loader raw).run w = some (result, later)) : later.cache.AtHome site := by
  obtain ⟨verdict, middle, hcheck, hrest⟩ := run_bind_eq_some h
  obtain ⟨hjudges, -, hcache⟩ := run_check hcheck
  cases verdict with
  | error error =>
    cases hrest
    exact hcache ▸ hw
  | ok package =>
    cases hrest
    intro identity found hfound
    rcases PackageCache.find?_add_eq_some hfound with hold | ⟨rfl, hidentity⟩
    · rw [hcache] at hold
      exact hw identity found hold
    · have hown : package.identity = raw.identity := hjudges
      refine ⟨hidentity, ?_⟩
      rw [← hidentity, hown, dir_of_check hcheck]
      exact hraw

theorem atHome_checkPasses {passes : List (List RawPackage)} {result : Except LoadError Unit}
    (hpasses : ∀ raw ∈ passes.flatten, site.IsHome raw.identity raw.dir)
    (hw : w.cache.AtHome site) (h : (checkPasses loader passes).run w = some (result, later)) :
    later.cache.AtHome site := by
  have hkeeps := @keeps_checkPasses loader fun waiting w ↦
    (∀ raw ∈ waiting, site.IsHome raw.identity raw.dir) ∧ w.cache.AtHome site
  obtain ⟨_, -, hlater⟩ := hkeeps
    (fun raw waiting w result later ⟨hwaiting, hw⟩ hcheck ↦ by
      obtain ⟨hraw, hrest⟩ := List.forall_mem_cons.1 hwaiting
      exact ⟨hrest, atHome_checkAndCache hraw hw hcheck⟩)
    ⟨hpasses, hw⟩ h
  exact hlater

/-- The packages that a load is about to check are from where their identities lead to. -/
theorem isHome_of_pending {wanted : List String} {found : Discovery}
    (hplaced : Discover.Placed (w.site loader) wanted)
    (h : (discover loader wanted).run w = some (.ok found, later)) (cache : PackageCache) :
    ∀ raw ∈ (ImportGraph.ofPackages (pending cache found)).passes.flatten,
      (w.site loader).IsHome raw.identity raw.dir := by
  obtain ⟨requests, s, hstep, -⟩ := exists_of_discovering h
  have hfound := Discover.atHome_patterns hplaced (DiscoveryState.start w.atlas requests)
    fun _ hentry ↦ (by cases hentry)
  rw [hstep] at hfound
  intro raw hraw
  obtain ⟨entry, hentry, rfl⟩ := List.mem_map.1 ((ImportGraph.passes_subperm _).subset hraw)
  rw [Discover.packages_of_patterns hstep] at hentry
  exact hfound entry (List.mem_filter.1 hentry).1

theorem atHome_loadMissing {wanted : List String}
    {result : Except LoadError (List (List ResolvedPackage))}
    (hplaced : Discover.Placed (w.site loader) wanted) (hw : w.cache.AtHome (w.site loader))
    (h : (loadMissing loader wanted).run w = some (result, later)) :
    later.cache.AtHome (w.site loader) := by
  have hdiscovered {found : Except LoadError Discovery} {middle : Workspace}
      (hdiscover : (discover loader wanted).run w = some (found, middle)) :
      middle.cache.AtHome (w.site loader) := by
    obtain ⟨-, hsame, -⟩ := run_discovering hdiscover
    exact hsame ▸ hw
  cases endsMissing_of_run h with
  | undiscovered hdiscover => exact hdiscovered hdiscover
  | unmatched hdiscover => exact hdiscovered hdiscover
  | refused hdiscover _ hpasses =>
    exact atHome_checkPasses (isHome_of_pending hplaced hdiscover _) (hdiscovered hdiscover) hpasses
  | loaded hdiscover _ hpasses =>
    intro identity package hfound
    rw [PackageCache.find?_foldl_addGroup] at hfound
    exact atHome_checkPasses (isHome_of_pending hplaced hdiscover _) (hdiscovered hdiscover)
      hpasses identity package hfound

theorem atHome_patterns {wanted : List String} {result : Except LoadError (List ResolvedPackage)}
    (hsite : (w.site loader).Regular) (hwalks : ∀ pattern ∈ wanted, (w.site loader).Walks pattern)
    (hw : w.cache.AtHome (w.site loader))
    (h : (patterns loader wanted).run w = some (result, later)) :
    later.cache.AtHome (w.site loader) := by
  obtain ⟨loaded, -, ⟨-, -, rfl⟩ | hload⟩ := exists_of_patterns h
  · exact hw
  · exact atHome_loadMissing (Discover.placed hsite fun pattern hpattern ↦
      hwalks pattern (List.mem_filter.1 hpattern).1) hw hload

/-- Loads one after the other cache packages from where their identities lead to. -/
theorem atHome_history {history : List (List String)} (hsite : (w.site loader).Regular)
    (hwalks : ∀ earlier ∈ history, ∀ pattern ∈ earlier, (w.site loader).Walks pattern)
    (hcache : w.cache.Sound (w.site loader)) (hw : w.cache.AtHome (w.site loader))
    (h : (history.forM fun earlier ↦ discard (patterns loader earlier)).run w =
      some ((), later)) : later.cache.AtHome (w.site loader) := by
  induction history generalizing w with
  | nil =>
    cases h
    exact hw
  | cons earlier rest ih =>
    obtain ⟨hfirst, hothers⟩ := List.forall_mem_cons.1 hwalks
    obtain ⟨result, middle, hload, hrest⟩ := run_history_cons h
    have hloads := run_patterns hsite hfirst hcache hload
    have hmiddle := atHome_patterns hsite hfirst hw hload
    have hsame := hloads.sites loader
    have hsound := hloads.cache
    rw [← hsame] at hsite hothers hsound hmiddle ⊢
    exact ih hsite hothers hsound hmiddle hrest

end Load

/-! ### Candidates -/

/-- A path that is looked up below the roots, and is no mark of a variant. -/
def IsBelowRoots (path : String) : Prop := isLocalPath path = false ∧ ':' ∉ path.toList

instance (path : String) : Decidable (IsBelowRoots path) := inferInstanceAs (Decidable (_ ∧ _))

namespace Path

theorem mem_slashed {c : Char} {names : List String} (h : c ∈ (slashed names).toList) :
    c = '/' ∨ ∃ name ∈ names, c ∈ name.toList := by
  induction names with
  | nil => cases h
  | cons name rest ih =>
    by_cases hrest : rest = []
    · rw [hrest, slashed_singleton] at h
      exact .inr ⟨name, List.mem_cons_self, h⟩
    · rw [toList_slashed_cons hrest, List.mem_append, List.mem_cons] at h
      rcases h with h | rfl | h
      · exact .inr ⟨name, List.mem_cons_self, h⟩
      · exact .inl rfl
      · exact (ih h).imp_right fun ⟨other, hother, hc⟩ ↦
          ⟨other, List.mem_cons_of_mem name hother, hc⟩

/-- The parts of a path below a root are names, if the path never leads back up. -/
theorem isName_of_below? {root path name : String} {rest : List String} (hroot : root ≠ "")
    (hpath : Dotless path) (h : below? root path = some rest) (hname : name ∈ rest) :
    IsName name ∧ ∀ c ∈ name.toList, c ∈ path.toList := by
  obtain ⟨first, others, hparts, -⟩ := exists_parts_eq_cons hroot
  have hne : path ≠ "" := by
    rintro rfl
    rw [below?, hparts] at h
    cases h
  obtain ⟨start, names, hstart, hnames⟩ := exists_parts_eq_cons hne
  rw [below?, hparts, hstart, dropParts?] at h
  split at h
  · have hmem := (suffix_of_dropParts? h).subset hname
    obtain ⟨hempty, hdot, hsplit⟩ := hnames name hmem
    refine ⟨⟨hempty, hdot, ?_, Text.not_mem_of_mem_splitOn hsplit⟩, fun c hc ↦
      (Text.mem_of_mem_splitOn hsplit hc).1⟩
    rintro rfl
    exact hpath (hstart ▸ List.mem_cons_of_mem start hmem)
  · cases h

end Path

namespace LoadConfig

theorem listItems_slashed {names : List String} (h : ∀ name ∈ names, Path.IsName name) :
    listItems '/' (Path.slashed names) = names := by
  have hone {name : String} (hname : Path.IsName name) :
      ((Text.splitOn '/' name.toList).filter (· ≠ [])).map String.ofList = [name] := by
    have hne : name.toList ≠ [] := fun hnil ↦ hname.ne_empty (String.toList_eq_nil_iff.1 hnil)
    rw [Text.splitOn_of_not_mem hname.no_slash]
    simp [hne]
  unfold listItems
  induction names with
  | nil => rfl
  | cons name rest ih =>
    obtain ⟨hname, hrest⟩ := List.forall_mem_cons.1 h
    by_cases hnil : rest = []
    · rw [hnil, Path.slashed_singleton]
      exact hone hname
    · rw [Path.toList_slashed_cons hnil, Text.splitOn_append_cons, List.filter_append,
        List.map_append, ih hrest, hone hname]
      rfl

/-- All candidates of an import are below the roots, if no two dots lead out of the importing
directory. -/
theorem isBelowRoots_of_mem_importCandidates {config : LoadConfig} {path candidate : String}
    {importing : Option String} (hroots : ∀ root ∈ config.roots, root ≠ "")
    (hpath : IsBelowRoots path)
    (himporting : ∀ dir ∈ importing, ':' ∉ dir.toList ∧ Path.Dotless dir)
    (h : candidate ∈ config.importCandidates path importing) : IsBelowRoots candidate := by
  rcases exists_of_mem_importCandidates h with rfl | ⟨place, rfl, hplace⟩
  · exact hpath
  · have hnames : ∀ name ∈ place, Path.IsName name ∧ ':' ∉ name.toList := by
      intro name hname
      obtain ⟨dir, hdir, root, hroot, parts, hparts, hitem⟩ := hplace name hname
      obtain ⟨hcolon, hdotless⟩ := himporting dir hdir
      have hall (name : String) (hname : name ∈ parts) :=
        Path.isName_of_below? (hroots root hroot) hdotless hparts hname
      rw [listItems_slashed fun name hname ↦ (hall name hname).1] at hitem
      obtain ⟨hisName, hchars⟩ := hall name hitem
      exact ⟨hisName, fun hin ↦ hcolon (hchars ':' hin)⟩
    refine ⟨?_, fun hcolon ↦ ?_⟩
    · cases place with
      | nil => exact Discover.isLocalPath_slashed ⟨by decide, by decide, by decide, by decide⟩ _
      | cons name rest =>
        exact Discover.isLocalPath_slashed (hnames name List.mem_cons_self).1 _
    · rcases Path.mem_slashed hcolon with hslash | ⟨name, hname, hin⟩
      · exact absurd hslash (by decide)
      · rcases List.mem_append.1 hname with hname | hname
        · exact (hnames name hname).2 hin
        · rcases List.mem_cons.1 hname with rfl | hname
          · exact absurd hin (by decide)
          · rw [List.mem_singleton.1 hname] at hin
            exact hpath.2 hin

end LoadConfig

/-! ### Imports -/

namespace Load

variable {site : Site} {cache : PackageCache} {package : ResolvedPackage}

/-- Below the roots an identity without a mark leads to the directory that is found for it. -/
theorem findInRoots?_of_isHome {identity dir : String} (hbelow : IsBelowRoots identity)
    (h : site.IsHome identity dir) :
    ∃ own, site.findInRoots? identity = some own ∧ Path.parts own = Path.parts dir := by
  obtain ⟨base, variant, hidentity, -, own, hexact, -, hparts⟩ := h
  have hbase : base = identity := by
    cases variant with
    | primary => exact hidentity.symm
    | externalTest =>
      refine absurd ?_ hbelow.2
      rw [hidentity, Variant.identity, String.toList_append]
      exact List.mem_append_right _ (by decide)
    | noBuild name =>
      refine absurd ?_ hbelow.2
      rw [hidentity, Variant.identity, String.toList_append, String.toList_append,
        String.toList_append]
      exact List.mem_append_left _ (List.mem_append_left _ (List.mem_append_right _ (by decide)))
  rw [hbase, Discover.exactDir?, hbelow.1] at hexact
  exact ⟨own, hexact, hparts⟩

/-- The cached package that an import may take is from the directory that is found first. -/
theorem findSome?_of_cachedImport? {candidates : List String} (hcache : cache.AtHome site)
    (hbelow : ∀ candidate ∈ candidates, IsBelowRoots candidate)
    (h : cachedImport? site cache candidates = some package) :
    ∃ dir, (candidates.findSome? fun candidate ↦ (site.findInRoots? candidate).map (·, candidate)) =
      some (dir, package.identity) ∧ Path.parts dir = Path.parts package.dir := by
  induction candidates with
  | nil => cases h
  | cons candidate rest ih =>
    obtain ⟨hfirst, hrest⟩ := List.forall_mem_cons.1 hbelow
    rw [cachedImport?] at h
    rw [List.findSome?_cons]
    cases hfound : cache.find? candidate with
    | some found =>
      rw [hfound] at h
      cases h
      obtain ⟨rfl, hhome⟩ := hcache candidate package hfound
      obtain ⟨dir, hdir, hparts⟩ := findInRoots?_of_isHome hfirst hhome
      exact ⟨dir, by rw [hdir]; rfl, hparts⟩
    | none =>
      rw [hfound] at h
      dsimp only at h
      cases hdir : site.findInRoots? candidate with
      | some dir =>
        rw [hdir] at h
        cases h
      | none =>
        rw [hdir] at h
        exact ih hrest h

/-- After any loads of one loader: if an import is answered by the cache, it is found from source in
the directory of the cached package under its identity. The nearest vendored copy is taken, whatever
is cached. -/
theorem locate?_of_cachedImport? {tree : FileTree} {loader : Loader}
    (hsite : (Site.mk tree loader.config loader.preprocessor).Regular)
    {history : List (List String)}
    (hwalks : ∀ earlier ∈ history, ∀ pattern ∈ earlier,
      (Site.mk tree loader.config loader.preprocessor).Walks pattern) {w : Workspace}
    (hrun : (history.forM fun earlier ↦ discard (patterns 0 earlier)).run
      (Workspace.start tree [loader]) = some ((), w))
    {path : String} {importing : Option String} (hpath : IsBelowRoots path)
    (himporting : ∀ dir ∈ importing, ':' ∉ dir.toList ∧ Path.Dotless dir)
    (hcached : cachedImport? (w.site 0) w.cache
      ((w.site 0).config.importCandidates path importing) = some package) :
    ∃ dir, (w.site 0).locate? path importing = some (dir, package.identity) ∧
      Path.parts dir = Path.parts package.dir := by
  let start := Workspace.start tree [loader]
  have hstart : (start.site 0).Regular := hsite
  have hsound := PackageCache.sound_empty (start.site 0)
  obtain ⟨hsame, -⟩ := run_history hstart hwalks hsound hrun
  have hcache := atHome_history hstart hwalks hsound (PackageCache.atHome_empty _) hrun
  rw [hsame] at hcached ⊢
  rw [Site.locate?, hpath.1]
  refine findSome?_of_cachedImport? hcache (fun candidate hcandidate ↦ ?_) hcached
  exact LoadConfig.isBelowRoots_of_mem_importCandidates hstart.roots hpath himporting hcandidate

/-- An import that is answered by the cache, after a load that gave the package and one that failed. -/
theorem sharedTree_locate? : ∃ w package dir,
    ([["dep"], ["gone"]].forM fun earlier ↦ discard (patterns 0 earlier)).run
      (Workspace.start sharedTree [plainLoader]) = some ((), w) ∧
    cachedImport? (w.site 0) w.cache
      ((w.site 0).config.importCandidates "dep" (some "src/mid")) = some package ∧
    (w.site 0).locate? "dep" (some "src/mid") = some (dir, package.identity) ∧
      Path.parts dir = Path.parts package.dir := by
  have htop : sharedTree.top.Regular := by decide +kernel
  have hsite : (Site.mk sharedTree plainLoader.config plainLoader.preprocessor).Regular :=
    { tree := FileTree.regular_of_top htop
      roots := by decide
      nodes := fun _ _ _ hnode ↦ FileTree.regular_node htop hnode
      preprocesses := fun _ hrun ↦ by cases hrun }
  have hexact : ∀ earlier ∈ [["dep"], ["gone"]], ∀ pattern ∈ earlier,
      Pattern.parse pattern = .exact pattern .primary := by decide +kernel
  have hwalks : ∀ earlier ∈ [["dep"], ["gone"]], ∀ pattern ∈ earlier,
      (Site.mk sharedTree plainLoader.config plainLoader.preprocessor).Walks pattern := by
    intro earlier hearlier pattern hpattern matcher hparse
    rw [hexact earlier hearlier pattern hpattern] at hparse
    cases hparse
  have hruns : ((([["dep"], ["gone"]].forM fun earlier ↦ discard (patterns 0 earlier)).run
      (Workspace.start sharedTree [plainLoader])).bind fun result ↦
        cachedImport? (result.2.site 0) result.2.cache
          ((result.2.site 0).config.importCandidates "dep" (some "src/mid"))).isSome = true := by
    decide +kernel
  obtain ⟨package, hpackage⟩ := Option.isSome_iff_exists.1 hruns
  obtain ⟨⟨_, w⟩, hrun, hcached⟩ := Option.bind_eq_some_iff.1 hpackage
  obtain ⟨dir, hdir, hparts⟩ := locate?_of_cachedImport? hsite hwalks hrun (by decide +kernel)
    (by decide +kernel) hcached
  exact ⟨w, package, dir, hrun, hcached, hdir, hparts⟩

/-- A vendored package next to the root, and another one next to the working directory. -/
def twoCopiesTree : FileTree := ⟨.dir [
  ⟨"tools", .dir [⟨"vendor", .dir [⟨"dep", .dir [⟨"d.go", .text "package dep\nconst V = 1\n"⟩]⟩]⟩]⟩,
  ⟨"v", .dir [⟨"deep", .dir []⟩, ⟨"tools", .dir [⟨"vendor", .dir [⟨"dep", .dir [
    ⟨"d.go", .text "package dep\nconst V = 2\n"⟩]⟩]⟩]⟩]⟩,
  ⟨"w", .dir []⟩]⟩

def twoCopiesLoader : Loader :=
  { config := ⟨["w"], "v/deep", ⟨"linux", "amd64", [], false⟩, []⟩, preprocessor := none }

/-- With two dots out of the root a candidate is taken for the local path of a cached package, which
is another one than the one next to the importing directory. -/
theorem twoCopies_mislead : ∃ w package,
    (∃ loaded, (patterns 0 ["../tools/vendor/dep"]).run
      (Workspace.start twoCopiesTree [twoCopiesLoader]) = some (loaded, w)) ∧
    cachedImport? (w.site 0) w.cache
      ((w.site 0).config.importCandidates "dep" (some "w/../tools")) = some package ∧
    package.dir = "v/deep/../tools/vendor/dep" ∧
    (w.site 0).locate? "dep" (some "w/../tools") =
      some ("w/../tools/vendor/dep", package.identity) := by
  have hruns : ((patterns 0 ["../tools/vendor/dep"]).run
      (Workspace.start twoCopiesTree [twoCopiesLoader])).bind (fun result ↦
        (cachedImport? (result.2.site 0) result.2.cache
          ((result.2.site 0).config.importCandidates "dep" (some "w/../tools"))).map fun package ↦
            (package.dir, (result.2.site 0).locate? "dep" (some "w/../tools") ==
              some ("w/../tools/vendor/dep", package.identity))) =
      some ("v/deep/../tools/vendor/dep", true) := by decide +kernel
  obtain ⟨⟨loaded, w⟩, hrun, hcached⟩ := Option.bind_eq_some_iff.1 hruns
  obtain ⟨package, hpackage, hresult⟩ := Option.map_eq_some_iff.1 hcached
  obtain ⟨hdir, hlocate⟩ := Prod.mk.inj hresult
  exact ⟨w, package, ⟨loaded, hrun⟩, hpackage, hdir, eq_of_beq hlocate⟩

end Load

end PackageAtlas
