import PackageAtlas.Proofs.History.Groups
import PackageAtlas.Proofs.Lookup.Growth
import PackageAtlas.Proofs.Naming.Directories
import PackageAtlas.Proofs.Naming.Trees

/-!
The identities of checks. A check is told apart from others by the space of its directory and by the
place of its first file in that space. The packages of a directory have no file in common, and each
directory that is parsed gets a space of its own; so the packages that a load is about to check have
identities that no check had before (`Load.ready_of_discover`).
-/

set_option autoImplicit false
set_option relaxedAutoImplicit false

namespace PackageAtlas

/-! ### Packages of a directory -/

namespace RawPackage

/-- A package is told apart by the place of one of its files. -/
theorem exists_handle_eq {raw : RawPackage} (h : raw.files ≠ []) :
    ∃ file ∈ raw.files, raw.handle = ⟨raw.space.space, file.info.span.start, 0⟩ := by
  have hstays := raw.filesStay_dedupe
  have hperm := List.mergeSort_perm raw.dedupe.1.files fun first second ↦ first.name ≤ second.name
  unfold handle PackageTree.ofFiles
  dsimp only
  cases hsorted : raw.dedupe.1.files.mergeSort fun first second ↦ first.name ≤ second.name with
  | nil =>
    rw [hsorted] at hperm
    rw [← hperm.nil_eq, List.forall₂_nil_right_iff] at hstays
    exact absurd hstays h
  | cons first rest =>
    have hfirst : first ∈ raw.dedupe.1.files :=
      hperm.mem_iff.1 (hsorted ▸ List.mem_cons_self)
    obtain ⟨file, hfile, hstay⟩ := exists_of_forall₂ hstays hfirst
    refine ⟨file, hfile, ?_⟩
    rw [List.head?_cons, Option.map_some, Option.getD_some,
      SourceFile.info_of_outline hstay.outline]

/-- Packages that are ready for their checks: they declare names, and their checks have identities
of their own, in spaces from one number up to another. -/
structure Ready (first next : Nat) (raws : List RawPackage) : Prop where
  named : ∀ raw ∈ raws, ∀ file ∈ raw.files, file.Named
  spaces : ∀ raw ∈ raws, first ≤ raw.handle.space.number ∧ raw.handle.space.number < next
  handles : (raws.map handle).Nodup

namespace Ready

variable {first mid next : Nat} {raws others : List RawPackage}

theorem nil (first next : Nat) : Ready first next [] :=
  ⟨fun _ h ↦ (by cases h), fun _ h ↦ (by cases h), List.nodup_nil⟩

theorem mono (h : Ready first mid raws) (hnext : mid ≤ next) : Ready first next raws :=
  ⟨h.named, fun raw hraw ↦ (h.spaces raw hraw).imp_right fun hlt ↦ Nat.lt_of_lt_of_le hlt hnext,
    h.handles⟩

theorem subperm (h : Ready first next raws) (hsub : others.Subperm raws) :
    Ready first next others where
  named raw hraw := h.named raw (hsub.subset hraw)
  spaces raw hraw := h.spaces raw (hsub.subset hraw)
  handles := by
    obtain ⟨list, hperm, hlist⟩ := hsub
    exact (hperm.map _).nodup_iff.1 (h.handles.sublist (hlist.map _))

/-- Packages of later spaces are other ones. -/
theorem append (h : Ready first mid raws) (hothers : Ready mid next others) (hfirst : first ≤ mid)
    (hnext : mid ≤ next) : Ready first next (raws ++ others) where
  named := List.forall_mem_append.2 ⟨h.named, hothers.named⟩
  spaces := List.forall_mem_append.2
    ⟨fun raw hraw ↦ ⟨(h.spaces raw hraw).1, Nat.lt_of_lt_of_le (h.spaces raw hraw).2 hnext⟩,
      fun raw hraw ↦ ⟨Nat.le_trans hfirst (hothers.spaces raw hraw).1,
        (hothers.spaces raw hraw).2⟩⟩
  handles := by
    rw [List.map_append]
    refine h.handles.append hothers.handles (List.disjoint_left.2 fun handle hin hin' ↦ ?_)
    obtain ⟨raw, hraw, rfl⟩ := List.mem_map.1 hin
    obtain ⟨other, hother, heq⟩ := List.mem_map.1 hin'
    have hlow := (hothers.spaces other hother).1
    rw [heq] at hlow
    exact absurd (h.spaces raw hraw).2 (Nat.not_lt_of_le hlow)

end Ready

end RawPackage

/-- Files of a set start at different places. -/
theorem FileSet.HasParsed.pairwise_start {set : FileSet} {files : List SourceFile}
    (h : set.HasParsed files) :
    files.Pairwise fun file other ↦ file.info.span.start ≠ other.info.span.start := by
  obtain ⟨parsed, hparsed, hperm⟩ := h
  obtain ⟨hlaid, hapart⟩ := hparsed.laidOut
  have hlt : ∀ file ∈ parsed, file.info.span.start < file.info.span.stop := by
    intro file hfile
    obtain ⟨input, last, hi, -, -, hrun⟩ := hlaid file hfile
    exact hrun.span_lt (List.mem_singleton_self _)
  refine (hperm.pairwise_iff fun h ↦ h.symm).2 (hapart.imp_of_mem fun hfile hother happart ↦ ?_)
  have hfirst := hlt _ hfile
  have hsecond := hlt _ hother
  have hspan := happart.span
  omega

/-- The packages of a directory that is parsed into a space. -/
theorem Site.ready_of_parseDir {site : Site} (space : SpaceId) (dir base : String) :
    Gives (site.parseDir space dir base) fun result ↦
      RawPackage.Ready space.number (space.number + 1) result.2 := by
  refine packages_of_parseDir.weaken fun ⟨set, raws⟩ ⟨hset, hraws, hparsed⟩ ↦ ?_
  have hhandle : ∀ raw ∈ raws, ∃ file ∈ raw.files,
      raw.handle = ⟨space, file.info.span.start, 0⟩ := by
    intro raw hraw
    obtain ⟨hspace, hfiles⟩ := hraws raw hraw
    obtain ⟨file, hfile, heq⟩ := RawPackage.exists_handle_eq hfiles
    exact ⟨file, hfile, by rw [heq, hspace, hset]⟩
  refine ⟨fun raw hraw file hfile ↦ ?_, fun raw hraw ↦ ?_, List.pairwise_map.2 ?_⟩
  · obtain ⟨parsed, hall, hperm⟩ := hparsed
    exact hall.named file (hperm.subset (List.mem_flatMap.2 ⟨raw, hraw, hfile⟩))
  · obtain ⟨file, -, heq⟩ := hhandle raw hraw
    rw [heq]
    exact ⟨Nat.le_refl _, Nat.lt_succ_self _⟩
  · refine (List.pairwise_flatMap.1 hparsed.pairwise_start).2.imp_of_mem
      fun hraw hother happart heq ↦ ?_
    obtain ⟨file, hfile, hstart⟩ := hhandle _ hraw
    obtain ⟨file', hfile', hstart'⟩ := hhandle _ hother
    rw [hstart, hstart'] at heq
    exact happart file hfile file' hfile' (congrArg NodeId.file heq)

/-! ### Discoveries -/

namespace DiscoveryState

/-- The packages that were found since there were so many spaces. -/
def Ready (first : Nat) (s : DiscoveryState) : Prop :=
  first ≤ s.atlas.spaces.length ∧
    RawPackage.Ready first s.atlas.spaces.length s.packages.values

/-- A state with more in its atlas, in which packages that were ready for their checks still are. -/
structure Advances (s later : DiscoveryState) : Prop where
  atlas : s.atlas.Grows later.atlas
  ready : ∀ first, s.Ready first → later.Ready first

theorem Advances.refl (s : DiscoveryState) : s.Advances s := ⟨.refl _, fun _ h ↦ h⟩

theorem Advances.trans {s middle later : DiscoveryState} (h : s.Advances middle)
    (h' : middle.Advances later) : s.Advances later :=
  ⟨h.atlas.trans h'.atlas, fun first hs ↦ h'.ready first (h.ready first hs)⟩

theorem ready_start (atlas : Atlas) (requests : List PreprocessRequest) :
    (start atlas requests).Ready atlas.spaces.length :=
  ⟨Nat.le_refl _, .nil _ _⟩

end DiscoveryState

/-- A value that is put takes the place of another one or comes last. -/
theorem Dict.values_insert_subperm {κ α : Type} [DecidableEq κ] (dict : Dict κ α) (key : κ)
    (value : α) : (dict.insert key value).values.Subperm (dict.values ++ [value]) := by
  obtain ⟨entries⟩ := dict
  change ((put key value entries).map (·.2)).Subperm (entries.map (·.2) ++ [value])
  induction entries with
  | nil => exact (List.Perm.refl _).subperm
  | cons entry rest ih =>
    unfold put
    split
    · exact ((List.perm_append_singleton value _).symm.subperm).trans
        (List.sublist_cons_self _ _).subperm
    · exact (List.subperm_cons entry.2).2 ih

theorem Discover.values_foldl_insert_subperm (raws : List RawPackage)
    (packages : Dict String RawPackage) :
    (raws.foldl (fun found raw ↦ found.insert raw.identity raw) packages).values.Subperm
      (packages.values ++ raws) := by
  induction raws generalizing packages with
  | nil =>
    rw [List.append_nil]
    exact (List.Perm.refl _).subperm
  | cons raw rest ih =>
    have hfirst := (List.subperm_append_right rest).2
      (packages.values_insert_subperm raw.identity raw)
    rw [List.append_assoc] at hfirst
    exact (ih _).trans hfirst

namespace Discover

variable {site : Site} {α β : Type}

/-- A step keeps a property of states, whether or not it fails. -/
def Keeps (kept : DiscoveryState → Prop) (step : Discover α) : Prop :=
  ∀ s : DiscoveryState, kept s → kept (step.run.run s).2

section Keeps

variable {kept : DiscoveryState → Prop}

theorem Keeps.pure (a : α) : Keeps kept (Pure.pure a : Discover α) := fun _ hs ↦ hs

theorem Keeps.throw (error : LoadError) : Keeps kept (throw error : Discover α) := fun _ hs ↦ hs

theorem Keeps.bind {step : Discover α} {next : α → Discover β} (h : Keeps kept step)
    (hnext : ∀ a, Keeps kept (next a)) : Keeps kept (step >>= next) := by
  intro s hs
  rw [ExceptT.run_bind, StateT.run_bind]
  have hstep := h s hs
  rcases hrun : step.run.run s with ⟨error | a, middle⟩
  · rw [hrun] at hstep
    exact hstep
  · rw [hrun] at hstep
    exact hnext a middle hstep

theorem Keeps.mapM {step : α → Discover β} {list : List α} (h : ∀ a ∈ list, Keeps kept (step a)) :
    Keeps kept (list.mapM step) := by
  induction list with
  | nil => exact .pure []
  | cons a rest ih =>
    obtain ⟨ha, hrest⟩ := List.forall_mem_cons.1 h
    rw [List.mapM_cons]
    exact ha.bind fun b ↦ (ih hrest).bind fun others ↦ .pure (b :: others)

/-- Discoveries keep what is kept by visits of the directories that patterns lead to. -/
theorem keeps_patterns {wanted : List String} {leads : String → String → Prop}
    (hvisit : ∀ dir base, leads dir base → Keeps kept (visit site dir base))
    (hexact : ∀ path dir, exactDir? site path = some dir → leads dir path)
    (hlocals : ∀ pattern ∈ wanted, ∀ matcher, Pattern.parse pattern = .locals matcher →
      ∀ names ∈ localPlaces site matcher,
        leads (below (Path.join site.config.workingDir matcher.walkBase) names)
          (localName matcher.walkBase names))
    (htrees : ∀ matchers, ∀ dir ∈ treePlaces site matchers, leads dir.dir dir.name) :
    Keeps kept (patterns site wanted) := by
  have hown : ∀ pattern ∈ wanted, Keeps kept (ownGroup site pattern) := by
    intro pattern hpattern
    unfold ownGroup
    split
    · rename_i path variant _
      refine Keeps.bind ?_ fun _ ↦ .pure _
      unfold exact
      dsimp only
      split
      · exact .throw _
      · rename_i dir hdir
        refine (hvisit dir path (hexact path dir hdir)).bind fun ids ↦ ?_
        split
        · exact .pure _
        · exact .throw _
    · rename_i matcher hparse
      have hplaces := hlocals pattern hpattern matcher hparse
      exact ((Keeps.mapM fun names hnames ↦ hvisit _ _ (hplaces names hnames)).bind fun _ ↦
        .pure _).bind fun _ ↦ .pure _
    · exact .pure _
  refine (Keeps.mapM hown).bind fun own ↦ Keeps.bind ?_ fun found _ hs ↦ hs
  exact Keeps.mapM fun dir hdir ↦ (hvisit _ _ (htrees _ dir hdir)).bind fun _ ↦ .pure _

end Keeps

/-- A step only adds to the atlas, and finds packages that are ready for their checks. -/
def Advances (step : Discover α) : Prop :=
  ∀ s : DiscoveryState, s.Advances (step.run.run s).2

theorem run_parse (site : Site) (dir base : String) (s : DiscoveryState) :
    (parse site dir base).run.run s =
      match (site.parseDir s.atlas.nextSpace dir base).run.run s.requests with
      | (.error error, requests) => (.error error, { s with requests })
      | (.ok (space, raws), requests) =>
        (.ok raws, { s with atlas := s.atlas.addSpace space, requests }) := by
  unfold parse
  rw [run_get_bind]
  rcases (site.parseDir s.atlas.nextSpace dir base).run.run s.requests with
    ⟨_ | ⟨space, raws⟩, requests⟩ <;> rfl

/-- A directory that is parsed without being visited takes a space. -/
theorem advances_parse (site : Site) (dir base : String) : Advances (parse site dir base) := by
  intro s
  rw [run_parse]
  rcases (site.parseDir s.atlas.nextSpace dir base).run.run s.requests with
    ⟨error | ⟨set, raws⟩, requests⟩
  · exact ⟨.refl _, fun _ h ↦ h⟩
  · have hgrows := s.atlas.grows_addSpace set
    exact ⟨hgrows, fun first ⟨hfirst, hready⟩ ↦
      ⟨Nat.le_trans hfirst hgrows.length_le, hready.mono hgrows.length_le⟩⟩

theorem advances_visit (site : Site) (dir base : String) : Advances (visit site dir base) := by
  intro s
  cases hvisited : s.visited.find? base with
  | some ids =>
    rw [run_visit_of_visited hvisited]
    exact .refl s
  | none =>
    rw [run_visit_of_not_visited hvisited]
    have hgives := @Site.ready_of_parseDir site s.atlas.nextSpace dir base s.requests
    rcases hrun : (site.parseDir s.atlas.nextSpace dir base).run.run s.requests with
      ⟨error | ⟨set, raws⟩, requests⟩
    · exact ⟨.refl _, fun _ h ↦ h⟩
    · have hraws := hgives _ (congrArg Prod.fst hrun)
      have hlength : (s.atlas.addSpace set).spaces.length = s.atlas.spaces.length + 1 :=
        List.length_append
      refine ⟨s.atlas.grows_addSpace set, fun first ⟨hfirst, hready⟩ ↦ ⟨?_, ?_⟩⟩
      · dsimp only
        omega
      · refine RawPackage.Ready.subperm ?_ (values_foldl_insert_subperm raws s.packages)
        rw [hlength]
        exact hready.append hraws hfirst (Nat.le_succ _)

/-- Discoveries find packages that are ready for their checks. -/
theorem advances_patterns (site : Site) (wanted : List String) :
    Advances (patterns site wanted) := by
  intro s
  have hvisit (dir base : String) (_ : True) : Keeps s.Advances (visit site dir base) :=
    fun middle hmiddle ↦ hmiddle.trans (advances_visit site dir base middle)
  exact keeps_patterns hvisit (fun _ _ _ ↦ trivial) (fun _ _ _ _ _ _ ↦ trivial)
    (fun _ _ _ ↦ trivial) s (.refl s)

theorem packages_of_patterns {wanted : List String} {s later : DiscoveryState} {found : Discovery}
    (h : (patterns site wanted).run.run s = (.ok found, later)) : found.packages = later.packages := by
  obtain ⟨own, middle, -, hrest⟩ := run_bind_eq_ok h
  obtain ⟨trees, last, -, hrest⟩ := run_bind_eq_ok hrest
  obtain ⟨_, _, hget, hpure⟩ := run_bind_eq_ok hrest
  cases hget
  cases hpure
  rfl

end Discover

/-! ### Packages to check -/

namespace ImportGraph

theorem insert_subperm (raw : RawPackage) (sorted : List RawPackage) :
    (insert raw sorted).Subperm (raw :: sorted) := by
  induction sorted with
  | nil => exact (List.Perm.refl _).subperm
  | cons other rest ih =>
    unfold insert
    split
    · exact (List.subperm_cons raw).2 (List.sublist_cons_self _ _).subperm
    · split
      · exact (List.Perm.refl _).subperm
      · exact ((List.subperm_cons other).2 ih).trans (List.Perm.swap _ _ _).subperm

/-- The passes over a graph take the packages that it is made of, each at most once. -/
theorem passes_subperm (packages : List RawPackage) :
    (ofPackages packages).passes.flatten.Subperm packages := by
  have hfold (rest : List RawPackage) : ∀ sorted : List RawPackage,
      (rest.foldl (fun sorted raw ↦ insert raw sorted) sorted).Subperm (sorted ++ rest) := by
    induction rest with
    | nil =>
      intro sorted
      rw [List.append_nil]
      exact (List.Perm.refl _).subperm
    | cons raw rest ih =>
      intro sorted
      have hfirst := (List.subperm_append_right rest).2 (insert_subperm raw sorted)
      exact ((ih _).trans hfirst).trans List.perm_middle.symm.subperm
  exact (flatten_passesWithin_perm (Nat.le_refl _)).subperm.trans (hfold packages [])

end ImportGraph

namespace Load

variable {loader : Nat} {w later : Workspace}

/-- A discovery starts from the atlas of the workspace, which it changes and nothing else. -/
theorem exists_of_discovering {α : Type} {step : Site → Discover α} {result : Except LoadError α}
    (h : (discovering loader step).run w = some (result, later)) :
    ∃ requests s, (step (w.site loader)).run.run (DiscoveryState.start w.atlas requests) =
      (result, s) ∧ later.atlas = s.atlas ∧ later.cache = w.cache ∧ later.lookups = w.lookups := by
  obtain ⟨_, _, hget, hrest⟩ := run_bind_eq_some h
  cases hget
  obtain ⟨_, _, hset, hpure⟩ := run_bind_eq_some hrest
  cases hset
  cases hpure
  exact ⟨_, _, rfl, rfl, rfl, rfl⟩

theorem advances_discovering {α : Type} {step : Site → Discover α}
    (h : ∀ site, Discover.Advances (step site)) : Advances (discovering loader step) := by
  intro w result later hrun
  obtain ⟨requests, s, hstep, hatlas, hcache, hlookups⟩ := exists_of_discovering hrun
  have hadvances := h (w.site loader) (DiscoveryState.start w.atlas requests)
  rw [hstep] at hadvances
  exact ⟨hatlas ▸ hadvances.atlas, hcache, hlookups⟩

/-- What a discovery finds is ready for checks, whose identities no check had before. -/
theorem ready_of_discover {wanted : List String} {found : Discovery}
    (h : (discover loader wanted).run w = some (.ok found, later)) :
    w.Advances later ∧ RawPackage.Ready w.atlas.spaces.length later.atlas.spaces.length
      found.packages.values := by
  refine ⟨advances_discovering (Discover.advances_patterns · wanted) _ _ _ h, ?_⟩
  obtain ⟨requests, s, hstep, hatlas, -, -⟩ := exists_of_discovering h
  have hadvances := Discover.advances_patterns (w.site loader) wanted
    (DiscoveryState.start w.atlas requests)
  rw [hstep] at hadvances
  rw [hatlas, Discover.packages_of_patterns hstep]
  exact (hadvances.ready _ (DiscoveryState.ready_start _ _)).2

/-- The packages that a load is about to check. -/
theorem ready_of_pending {first next : Nat} {found : Discovery}
    (h : RawPackage.Ready first next found.packages.values) (cache : PackageCache) :
    RawPackage.Ready first next
      (ImportGraph.ofPackages (pending cache found)).passes.flatten :=
  h.subperm ((ImportGraph.passes_subperm _).trans (List.filter_sublist.map _).subperm)

end Load

end PackageAtlas
