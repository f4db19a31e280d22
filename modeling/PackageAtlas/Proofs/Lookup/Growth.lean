import PackageAtlas.Proofs.History.Checks
import PackageAtlas.Proofs.Imports.Memo
import PackageAtlas.Proofs.Lookup.Members
import PackageAtlas.Proofs.Lookup.Names
import PackageAtlas.Query.Lookup
import PackageAtlas.Query.Snippet

/-!
Steps that only add to an atlas. Whatever is imported, checked or evaluated, the symbols and the
spaces that are there stay (`Atlas.Grows`), and all but loads and lookups leave the cache and the
answers of lookups alone (`Workspace.Advances`). A check gives a package of which the members have
names and known types (`Load.outlined_of_check`).
-/

set_option autoImplicit false
set_option relaxedAutoImplicit false

namespace PackageAtlas

/-! ### Atlases -/

/-- An atlas with more symbols and more spaces than before. -/
structure Atlas.Grows (atlas later : Atlas) : Prop where
  store : atlas.store.Grows later.store
  spaces : atlas.spaces <+: later.spaces

namespace Atlas

variable {atlas middle later : Atlas}

theorem Grows.refl (atlas : Atlas) : atlas.Grows atlas := ⟨.refl _, List.prefix_rfl⟩

theorem Grows.trans (h : atlas.Grows middle) (h' : middle.Grows later) : atlas.Grows later :=
  ⟨h.store.trans h'.store, h.spaces.trans h'.spaces⟩

theorem Grows.length_le (h : atlas.Grows later) : atlas.spaces.length ≤ later.spaces.length :=
  h.spaces.length_le

theorem grows_addSpace (atlas : Atlas) (files : FileSet) : atlas.Grows (atlas.addSpace files) :=
  ⟨.refl _, List.prefix_append _ _⟩

theorem grows_of_store {store : Store} (h : atlas.store.Grows store) :
    atlas.Grows { atlas with store } :=
  ⟨h, List.prefix_rfl⟩

end Atlas

/-- A check adds symbols. -/
theorem grows_of_checkFiles {input : CheckInput} {files : List SourceFile} {store : Store}
    {checked : Checked} (h : checkFiles input files store = some checked) :
    store.Grows checked.store := by
  have houtlined : store.Grows checked.store ∧
      checked.scope.Outlined (fun _ ↦ True) checked.store :=
    checkWithin_outlined (fun _ _ _ _ ↦ trivial) h
  exact houtlined.1

/-- A type expression adds symbols. -/
theorem grows_of_evalType {space : SpaceId} {store : Store} {source : String}
    {evaluated : Evaluated} (h : evalType space store source = some evaluated) :
    store.Grows evaluated.store := by
  unfold evalType at h
  cases hparsed : (FileSet.empty space).parseExpr typeSourceName source with
  | mk files parsed =>
    simp only [hparsed] at h
    cases parsed with
    | error error =>
      cases h
      exact .refl _
    | ok expr =>
      obtain ⟨⟨type, s⟩, hrun, hpure⟩ := Option.bind_eq_some_iff.1 h
      cases hpure
      exact (Checker.within_frame hrun).lasts.store.grows

/-! ### Imports from source -/

namespace Importing

variable {α β : Type} {site : Site} {importer : Importer}

/-- A step only adds to the atlas. -/
def GrowsAtlas (step : Importing α) : Prop :=
  ∀ s a later, step s = some (a, later) → s.atlas.Grows later.atlas

theorem GrowsAtlas.pure (a : α) : GrowsAtlas (Pure.pure a : Importing α) := by
  intro s b later h
  cases h
  exact .refl _

theorem GrowsAtlas.bind {step : Importing α} {next : α → Importing β} (h : GrowsAtlas step)
    (hnext : ∀ a, GrowsAtlas (next a)) : GrowsAtlas (step >>= next) := by
  intro s b later hrun
  obtain ⟨a, middle, hstep, hrest⟩ := exists_of_run_bind hrun
  exact (h s a middle hstep).trans (hnext a middle b later hrest)

theorem GrowsAtlas.get_bind {next : ImportState → Importing α} (h : ∀ s, GrowsAtlas (next s)) :
    GrowsAtlas (get >>= next) :=
  fun s b later hrun ↦ h s s b later hrun

theorem GrowsAtlas.mapM {step : α → Importing β} (h : ∀ a, GrowsAtlas (step a)) (list : List α) :
    GrowsAtlas (list.mapM step) := by
  induction list with
  | nil => exact .pure []
  | cons a rest ih =>
    rw [List.mapM_cons]
    exact (h a).bind fun b ↦ ih.bind fun others ↦ .pure (b :: others)

theorem growsAtlas_remember (memo : ImportState → ImportMemo) :
    GrowsAtlas (modify fun s ↦ { s with memo := memo s }) := by
  intro s _ later hrun
  cases hrun
  exact .refl _

theorem growsAtlas_addSpace (files : FileSet) :
    GrowsAtlas (modify fun s ↦ { s with atlas := s.atlas.addSpace files }) := by
  intro s _ later hrun
  cases hrun
  exact s.atlas.grows_addSpace files

theorem growsAtlas_checkImported (himporter : ∀ path dir, GrowsAtlas (importer path dir))
    (dir path : String) (space : FileSet) (files : List SourceFile) :
    GrowsAtlas (checkImported importer dir path space files) := by
  intro s result later h
  obtain ⟨results, middle, checked, himports, hcheck, rfl, -⟩ := exists_of_checkImported h
  have hall (paths : List String) : GrowsAtlas (importAll importer dir paths) :=
    .mapM (fun path ↦ (himporter path (some dir)).bind fun _ ↦ .pure _) paths
  exact (hall _ s results middle himports).trans
    (Atlas.grows_of_store (grows_of_checkFiles hcheck))

theorem growsAtlas_checkDir (himporter : ∀ path dir, GrowsAtlas (importer path dir))
    (dir path : String) : GrowsAtlas (checkDir site importer dir path) := by
  refine .get_bind fun s ↦ ?_
  cases packageFiles site s.atlas.nextSpace dir with
  | error text => exact .pure _
  | ok parsed =>
    exact (growsAtlas_addSpace parsed.1).bind fun _ ↦
      growsAtlas_checkImported himporter dir path parsed.1 parsed.2

theorem growsAtlas_once {check : Importing (Except ImportError PackageScope)}
    (h : GrowsAtlas check) (dir path : String) : GrowsAtlas (once dir path check) := by
  refine .get_bind fun s ↦ ?_
  dsimp only
  split
  · exact .pure _
  · split
    · exact .pure _
    · exact (growsAtlas_remember _).bind fun _ ↦ h.bind fun result ↦
        (growsAtlas_remember _).bind fun _ ↦ .pure result

/-- Imports add to the atlas, at any depth. -/
theorem growsAtlas_within (site : Site) (depth : Nat) (path : String) (importing : Option String) :
    GrowsAtlas (within site depth path importing) := by
  induction depth generalizing path importing with
  | zero => exact fun _ _ _ h ↦ (by cases h)
  | succ depth ih =>
    unfold within
    split
    · exact .pure _
    · exact growsAtlas_once (growsAtlas_checkDir ih _ _) _ _

end Importing

/-! ### Steps of a workspace -/

/-- A workspace with more in its atlas, and the same cache and answers of lookups. -/
structure Workspace.Advances (w later : Workspace) : Prop where
  atlas : w.atlas.Grows later.atlas
  cache : later.cache = w.cache
  lookups : later.lookups = w.lookups

namespace Workspace.Advances

variable {w middle later : Workspace}

theorem refl (w : Workspace) : w.Advances w := ⟨.refl _, rfl, rfl⟩

theorem trans (h : w.Advances middle) (h' : middle.Advances later) : w.Advances later :=
  ⟨h.atlas.trans h'.atlas, h'.cache.trans h.cache, h'.lookups.trans h.lookups⟩

end Workspace.Advances

namespace Load

variable {α β : Type}

/-- A step only adds to the atlas. -/
def Advances (step : Load α) : Prop :=
  ∀ w a later, step.run w = some (a, later) → w.Advances later

theorem Advances.pure (a : α) : Advances (Pure.pure a : Load α) := by
  intro w b later h
  cases h
  exact .refl _

theorem Advances.bind {step : Load α} {next : α → Load β} (h : Advances step)
    (hnext : ∀ a, Advances (next a)) : Advances (step >>= next) := by
  intro w b later hrun
  obtain ⟨a, middle, hstep, hrest⟩ := run_bind_eq_some hrun
  exact (h w a middle hstep).trans (hnext a middle b later hrest)

theorem Advances.mapM {step : α → Load β} (h : ∀ a, Advances (step a)) (list : List α) :
    Advances (list.mapM step) := by
  induction list with
  | nil => exact .pure []
  | cons a rest ih =>
    rw [List.mapM_cons]
    exact (h a).bind fun b ↦ ih.bind fun others ↦ .pure (b :: others)

theorem advances_importFromSource (loader : Nat) (path : String) (importing : Option String) :
    Advances (importFromSource loader path importing) := by
  intro w result later h
  obtain ⟨_, _, hget, hrest⟩ := run_bind_eq_some h
  cases hget
  obtain ⟨⟨found, s⟩, _, himport, hset⟩ := run_bind_eq_some hrest
  obtain ⟨⟨found', s'⟩, hsome, hlift⟩ := Option.bind_eq_some_iff.1 himport
  cases hlift
  cases hset
  exact ⟨Importing.growsAtlas_within _ _ path importing _ _ _ hsome, rfl, rfl⟩

theorem advances_importPath (loader : Nat) (path : String) (importing : Option String) :
    Advances (importPath loader path importing) := by
  intro w result later h
  obtain ⟨_, _, hget, hrest⟩ := run_bind_eq_some h
  cases hget
  dsimp only at hrest
  split at hrest
  · exact Advances.pure _ _ _ _ hrest
  · exact advances_importFromSource loader path importing _ _ _ hrest

theorem advances_importAll (place : ImportPlace) (paths : List String) :
    Advances (importAll place paths) :=
  .mapM (fun path ↦ (advances_importPath place.loader path (some place.dir)).bind fun _ ↦ .pure _)
    paths

end Load

/-! ### Checks -/

namespace RawPackage

/-- The identity of the check of a package. -/
def handle (raw : RawPackage) : NodeId :=
  (PackageTree.ofFiles raw.space.space raw.name raw.dedupe.1.files).id

/-- A check adds symbols, and a package that passes it has members with names and known types. -/
theorem outlined_of_check {raw : RawPackage} {place : ImportPlace}
    {importer : String → Except ImportError PackageScope} {store later : Store}
    {result : Except LoadError ResolvedPackage}
    (h : raw.check place importer store = some (result, later)) :
    store.Grows later ∧ ∀ package, result = .ok package → package.handle = raw.handle ∧
      ((∀ file ∈ raw.files, file.Named) → package.scope.Outlined IsName later) := by
  unfold check at h
  obtain ⟨checked, hcheck, hrest⟩ := Option.bind_eq_some_iff.1 h
  have hgrows := grows_of_checkFiles hcheck
  cases hfailure : raw.dedupe.1.failure? checked.diagnostics with
  | some error =>
    rw [hfailure] at hrest
    cases hrest
    exact ⟨hgrows, fun _ h ↦ (by cases h)⟩
  | none =>
    rw [hfailure] at hrest
    cases hrest
    refine ⟨hgrows, fun package hpackage ↦ ?_⟩
    cases hpackage
    exact ⟨rfl, fun hnamed ↦ (checkWithin_outlined (named_of_mem_checkOrder hnamed) hcheck).2⟩

end RawPackage

namespace Load

variable {place : ImportPlace} {raw : RawPackage} {w later : Workspace}
  {result : Except LoadError ResolvedPackage}

/-- A check only adds to the atlas, and a package that passes it has members with names and known
types. -/
theorem outlined_of_check (h : (check place raw).run w = some (result, later)) :
    w.Advances later ∧ ∀ package, result = .ok package → package.handle = raw.handle ∧
      ((∀ file ∈ raw.files, file.Named) → package.scope.Outlined IsName later.atlas.store) := by
  obtain ⟨results, middle, himports, hrest⟩ := run_bind_eq_some h
  have hadvances := advances_importAll place raw.neededPaths w results middle himports
  obtain ⟨current, _, hstore, hcheck⟩ := run_bind_eq_some hrest
  cases hstore
  obtain ⟨⟨verdict, store⟩, last, hraw, hset⟩ := run_bind_eq_some hcheck
  obtain ⟨⟨outcome, made⟩, hsome, hlast⟩ := Option.bind_eq_some_iff.1 hraw
  cases hlast
  cases hset
  obtain ⟨hgrows, hpackage⟩ := RawPackage.outlined_of_check hsome
  exact ⟨hadvances.trans ⟨Atlas.grows_of_store hgrows, rfl, rfl⟩, hpackage⟩

theorem advances_check (place : ImportPlace) (raw : RawPackage) : Advances (check place raw) :=
  fun _ _ _ h ↦ (outlined_of_check h).1

end Load

/-! ### Lookups -/

namespace ResolvedPackage

open Load

theorem advances_evalTypeExpr (spec : String) : Advances (evalTypeExpr spec) := by
  intro w result later h
  obtain ⟨_, _, hget, hrest⟩ := run_bind_eq_some h
  cases hget
  obtain ⟨evaluated, middle, heval, hrest⟩ := run_bind_eq_some hrest
  obtain ⟨found, hsome, hlift⟩ := Option.bind_eq_some_iff.1 heval
  cases hlift
  obtain ⟨_, _, hmodify, hpure⟩ := run_bind_eq_some hrest
  cases hmodify
  cases hpure
  exact ⟨⟨grows_of_evalType hsome, (w.atlas.grows_addSpace _).spaces⟩, rfl, rfl⟩

theorem advances_scopeFor (package : ResolvedPackage) (path : String) :
    Advances (package.scopeFor path) := by
  unfold scopeFor
  split
  · exact .pure _
  · exact (advances_importPath _ path _).bind fun _ ↦ .pure _

theorem advances_store : Advances Load.store := by
  intro w store later h
  cases h
  exact .refl _

theorem advances_resolveType (package : ResolvedPackage) (spec : String) :
    Advances (package.resolveType spec) := by
  unfold resolveType
  split
  · exact advances_evalTypeExpr spec
  · refine (advances_scopeFor package _).bind fun found ↦ ?_
    cases found with
    | error error => exact .pure _
    | ok scope => exact advances_store.bind fun _ ↦ .pure _

theorem advances_resolveObject (package : ResolvedPackage) (spec : String) :
    Advances (package.resolveObject spec) := by
  unfold resolveObject
  split
  · exact .pure _
  · refine (advances_scopeFor package _).bind fun found ↦ ?_
    cases found with
    | error error => exact .pure _
    | ok scope => exact advances_store.bind fun _ ↦ .pure _

end ResolvedPackage

end PackageAtlas
