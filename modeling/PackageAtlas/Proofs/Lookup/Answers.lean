import PackageAtlas.Proofs.Lookup.Handles
import PackageAtlas.Proofs.Lookup.Specifiers

/-!
The answers that lookups keep. An answer is kept with the identity of the check of the package that
was asked; no two packages share one, so an answer is only ever given to the package that it was
found for (`Workspace.Orderly`). For a member of a package whose path has no dot in its last element,
what is kept is the member itself, or its type behind as many pointers as there are stars.
-/

set_option autoImplicit false
set_option relaxedAutoImplicit false

namespace PackageAtlas

open RawPackage (Ready)

/-! ### Right answers -/

namespace ResolvedPackage

/-- What a specifier of an object stands for, if it is made of the path of the package and of the
name of a member. -/
def IsObject (package : ResolvedPackage) (spec : String) (found : SymbolId) : Prop :=
  IsPlainPath package.path → ∀ name id, package.scope.find? name = some id →
    spec = specifier package.path name 0 0 → found = id

/-- The same for a specifier of a type. -/
def IsType (package : ResolvedPackage) (store : Store) (spec : String) (type : Ty) : Prop :=
  IsPlainPath package.path → package.path.toList.head? ≠ some '*' →
    ∀ name id outer inner, package.scope.find? name = some id →
      (store.get id).kind = .typeName → spec = specifier package.path name outer inner →
      type = (store.typeOf id).pointers (outer + inner)

variable {package : ResolvedPackage} {spec : String} {w later : Workspace}

/-- Types stay what they are. -/
theorem IsType.mono {store later : Store} {type : Ty} (h : package.IsType store spec type)
    (hscope : package.scope.Outlined IsName store) (hgrows : store.Grows later) :
    package.IsType later spec type := by
  intro hpath hstar name id outer inner hfound hkind hspec
  rw [hgrows.kind id (hscope.placed name id hfound)] at hkind
  rw [hscope.typeOf hgrows hfound hkind]
  exact h hpath hstar name id outer inner hfound hkind hspec

theorem isObject_of_resolveObject {store : Store} (hscope : package.scope.Outlined IsName store)
    {found : SymbolId} (h : (package.resolveObject spec).run w = some (.ok found, later)) :
    package.IsObject spec found := by
  rintro hpath name id hfound rfl
  rw [run_resolveObject hpath (hscope.name name id hfound) hfound] at h
  cases h
  rfl

theorem isType_of_resolveType (hscope : package.scope.Outlined IsName w.atlas.store) {type : Ty}
    (h : (package.resolveType spec).run w = some (.ok type, later)) :
    package.IsType w.atlas.store spec type := by
  rintro hpath hstar name id outer inner hfound hkind rfl
  rw [run_resolveType hpath hstar (hscope.name name id hfound) hfound hkind] at h
  cases h
  rfl

end ResolvedPackage

/-! ### What is kept -/

namespace LookupMemo

/-- The checks whose packages were asked. -/
def handles (lookups : LookupMemo) : List NodeId :=
  lookups.types.map (·.1.1) ++ lookups.objects.map (·.1.1)

/-- The answers that are kept for a package are right. -/
structure Right (lookups : LookupMemo) (store : Store) (package : ResolvedPackage) : Prop where
  objects : ∀ spec found, lookups.objects.lookup (package.handle, spec) = some found →
    package.IsObject spec found
  types : ∀ spec type, lookups.types.lookup (package.handle, spec) = some type →
    package.IsType store spec type

/-- Nothing is kept for a package that was not asked. -/
theorem right_of_not_mem {lookups : LookupMemo} {store : Store} {package : ResolvedPackage}
    (h : package.handle ∉ lookups.handles) : lookups.Right store package := by
  have hnone {α : Type} {table : List ((NodeId × String) × α)} {spec : String} {a : α}
      (hfound : table.lookup (package.handle, spec) = some a) :
      package.handle ∈ table.map (·.1.1) :=
    List.mem_map_of_mem (mem_of_lookup hfound)
  exact ⟨fun _ _ hfound ↦ absurd (List.mem_append_right _ (hnone hfound)) h,
    fun _ _ hfound ↦ absurd (List.mem_append_left _ (hnone hfound)) h⟩

end LookupMemo

/-- What is found after a new answer was put in front. -/
theorem LookupMemo.lookup_cons_eq_some {κ α : Type} [BEq κ] [LawfulBEq κ] {table : List (κ × α)}
    {key other : κ} {value found : α} (h : ((key, value) :: table).lookup other = some found) :
    (other = key ∧ found = value) ∨ table.lookup other = some found := by
  rw [List.lookup_cons] at h
  cases hkey : other == key with
  | true =>
    rw [hkey] at h
    exact .inl ⟨eq_of_beq hkey, (Option.some.inj h).symm⟩
  | false =>
    rw [hkey] at h
    exact .inr h

/-! ### Packages at hand -/

/-- A workspace with some packages that wait for their checks, and some at hand, the cached ones
among them. All of their checks have identities of their own, in spaces that are there, and the
answers that are kept are right answers for packages at hand. -/
structure Workspace.Orderly (w : Workspace) (waiting : List RawPackage)
    (hand : List ResolvedPackage) : Prop where
  named : ∀ raw ∈ waiting, ∀ file ∈ raw.files, file.Named
  handles : (waiting.map (·.handle) ++ hand.map (·.handle)).Nodup
  spaces : ∀ handle ∈ waiting.map (·.handle) ++ hand.map (·.handle),
    handle.space.number < w.atlas.spaces.length
  cached : ∀ identity package, w.cache.find? identity = some package → package ∈ hand
  outlined : ∀ package ∈ hand, package.scope.Outlined IsName w.atlas.store
  right : ∀ package ∈ hand, w.lookups.Right w.atlas.store package
  asked : ∀ handle ∈ w.lookups.handles, handle ∈ hand.map (·.handle)

namespace Workspace.Orderly

variable {w later : Workspace} {waiting others : List RawPackage} {raw : RawPackage}
  {hand : List ResolvedPackage} {package : ResolvedPackage}

theorem start (tree : FileTree) (loaders : List Loader) :
    (Workspace.start tree loaders).Orderly [] [] where
  named _ h := by cases h
  handles := List.nodup_nil
  spaces _ h := by cases h
  cached _ _ h := by cases h
  outlined _ h := by cases h
  right _ h := by cases h
  asked _ h := by cases h

theorem advance (h : w.Orderly waiting hand) (hadvances : w.Advances later) :
    later.Orderly waiting hand where
  named := h.named
  handles := h.handles
  spaces handle hhandle := Nat.lt_of_lt_of_le (h.spaces handle hhandle) hadvances.atlas.length_le
  cached := by
    rw [hadvances.cache]
    exact h.cached
  outlined package hpackage := (h.outlined package hpackage).mono hadvances.atlas.store
  right package hpackage := by
    have hright := h.right package hpackage
    rw [hadvances.lookups]
    exact ⟨hright.objects, fun spec type hfound ↦
      (hright.types spec type hfound).mono (h.outlined package hpackage) hadvances.atlas.store⟩
  asked := by
    rw [hadvances.lookups]
    exact h.asked

/-- Some of the packages no longer wait. -/
theorem subperm (h : w.Orderly waiting hand) (hsub : others.Subperm waiting) :
    w.Orderly others hand where
  named raw hraw := h.named raw (hsub.subset hraw)
  handles := by
    obtain ⟨list, hperm, hlist⟩ := hsub
    refine ((hperm.map _).append_right _).nodup_iff.1 (h.handles.sublist ?_)
    exact (hlist.map _).append_right _
  spaces handle hhandle := by
    refine h.spaces handle (List.mem_append.2 ((List.mem_append.1 hhandle).imp_left fun hin ↦ ?_))
    obtain ⟨raw, hraw, rfl⟩ := List.mem_map.1 hin
    exact List.mem_map_of_mem (hsub.subset hraw)
  cached := h.cached
  outlined := h.outlined
  right := h.right
  asked := h.asked

/-- Packages of new spaces may wait for their checks. -/
theorem await (h : w.Orderly [] hand) (hadvances : w.Advances later)
    (hready : Ready w.atlas.spaces.length later.atlas.spaces.length others) :
    later.Orderly others hand := by
  have hlater := h.advance hadvances
  refine ⟨hready.named, hready.handles.append h.handles ?_, List.forall_mem_append.2
    ⟨List.forall_mem_map.2 fun raw hraw ↦ (hready.spaces raw hraw).2, hlater.spaces⟩,
    hlater.cached, hlater.outlined, hlater.right, hlater.asked⟩
  refine List.disjoint_left.2 fun handle hnew hold ↦ ?_
  obtain ⟨raw, hraw, rfl⟩ := List.mem_map.1 hnew
  exact absurd (h.spaces _ hold) (Nat.not_lt_of_le (hready.spaces raw hraw).1)

/-- A package that passed its check is at hand. -/
theorem arrive (h : w.Orderly (raw :: waiting) hand) (hhandle : package.handle = raw.handle)
    (houtlined : package.scope.Outlined IsName w.atlas.store) :
    w.Orderly waiting (package :: hand) := by
  have hperm : (waiting.map (·.handle) ++ (package :: hand).map (·.handle)).Perm
      ((raw :: waiting).map (·.handle) ++ hand.map (·.handle)) := by
    rw [List.map_cons, List.map_cons, hhandle]
    exact List.perm_middle
  have hnew : package.handle ∉ hand.map (·.handle) := by
    rw [hhandle]
    exact fun hin ↦ (List.nodup_cons.1 h.handles).1 (List.mem_append_right _ hin)
  exact ⟨fun other hother ↦ h.named other (List.mem_cons_of_mem raw hother),
    hperm.nodup_iff.2 h.handles, fun handle hin ↦ h.spaces handle (hperm.mem_iff.1 hin),
    fun identity other hfound ↦ List.mem_cons_of_mem package (h.cached identity other hfound),
    List.forall_mem_cons.2 ⟨houtlined, h.outlined⟩,
    List.forall_mem_cons.2
      ⟨LookupMemo.right_of_not_mem fun hin ↦ hnew (h.asked _ hin), h.right⟩,
    fun handle hin ↦ List.mem_cons_of_mem _ (h.asked handle hin)⟩

/-- A package at hand may be cached. -/
theorem add (h : w.Orderly waiting hand) (hpackage : package ∈ hand) :
    Orderly { w with cache := w.cache.add package } waiting hand :=
  { h with
    cached := fun identity other hfound ↦ by
      rcases PackageCache.find?_add_eq_some hfound with hold | ⟨rfl, -⟩
      · exact h.cached identity other hold
      · exact hpackage }

/-- Groups hold nothing but cached packages. -/
theorem addGroups (h : w.Orderly waiting hand) (entries : List (String × List ResolvedPackage)) :
    Orderly { w with
      cache := entries.foldl (fun cache entry ↦ cache.addGroup entry.1 entry.2) w.cache }
      waiting hand :=
  { h with
    cached := fun identity other hfound ↦ by
      rw [PackageCache.find?_foldl_addGroup] at hfound
      exact h.cached identity other hfound }

/-- Two packages at hand with one identity are one package. -/
theorem eq_of_handle_eq (h : w.Orderly waiting hand) {other : ResolvedPackage}
    (hpackage : package ∈ hand) (hother : other ∈ hand) (heq : package.handle = other.handle) :
    package = other :=
  List.inj_on_of_nodup_map (List.nodup_append.1 h.handles).2.1 hpackage hother heq

/-- A right answer may be kept for a package at hand. -/
theorem keepObject (h : w.Orderly waiting hand) (hpackage : package ∈ hand) {spec : String}
    {found : SymbolId} (hanswer : package.IsObject spec found) :
    Orderly { w with lookups.objects := ((package.handle, spec), found) :: w.lookups.objects }
      waiting hand :=
  { h with
    right := fun other hother ↦ by
      refine ⟨fun spec' found' hlookup ↦ ?_, (h.right other hother).types⟩
      rcases LookupMemo.lookup_cons_eq_some hlookup with ⟨heq, rfl⟩ | hold
      · obtain ⟨hhandle, rfl⟩ := Prod.mk.inj heq
        rw [h.eq_of_handle_eq hother hpackage hhandle]
        exact hanswer
      · exact (h.right other hother).objects spec' found' hold
    asked := by
      obtain ⟨htypes, hobjects⟩ := List.forall_mem_append.1 h.asked
      exact List.forall_mem_append.2
        ⟨htypes, List.forall_mem_cons.2 ⟨List.mem_map_of_mem hpackage, hobjects⟩⟩ }

theorem keepType (h : w.Orderly waiting hand) (hpackage : package ∈ hand) {spec : String}
    {type : Ty} (hanswer : package.IsType w.atlas.store spec type) :
    Orderly { w with lookups.types := ((package.handle, spec), type) :: w.lookups.types }
      waiting hand :=
  { h with
    right := fun other hother ↦ by
      refine ⟨(h.right other hother).objects, fun spec' type' hlookup ↦ ?_⟩
      rcases LookupMemo.lookup_cons_eq_some hlookup with ⟨heq, rfl⟩ | hold
      · obtain ⟨hhandle, rfl⟩ := Prod.mk.inj heq
        rw [h.eq_of_handle_eq hother hpackage hhandle]
        exact hanswer
      · exact (h.right other hother).types spec' type' hold
    asked := by
      obtain ⟨htypes, hobjects⟩ := List.forall_mem_append.1 h.asked
      exact List.forall_mem_append.2
        ⟨List.forall_mem_cons.2 ⟨List.mem_map_of_mem hpackage, htypes⟩, hobjects⟩ }

end Workspace.Orderly

/-! ### Steps -/

namespace Load

variable {loader : Nat} {raw : RawPackage} {w later : Workspace} {waiting : List RawPackage}
  {hand : List ResolvedPackage}

/-- A package that is checked is at hand if it is good. -/
theorem orderly_check {place : ImportPlace} {result : Except LoadError ResolvedPackage}
    (h : w.Orderly (raw :: waiting) hand) (hrun : (check place raw).run w = some (result, later)) :
    ∃ more, hand ⊆ more ∧ later.Orderly waiting more ∧
      ∀ package, result = .ok package → package ∈ more := by
  obtain ⟨hadvances, hpackage⟩ := outlined_of_check hrun
  have hlater := h.advance hadvances
  cases result with
  | error error =>
    exact ⟨hand, List.Subset.refl _, hlater.subperm (List.sublist_cons_self _ _).subperm,
      fun _ h ↦ (by cases h)⟩
  | ok package =>
    obtain ⟨hhandle, houtlined⟩ := hpackage package rfl
    refine ⟨package :: hand, List.subset_cons_self _ _,
      hlater.arrive hhandle (houtlined (h.named raw List.mem_cons_self)), fun other heq ↦ ?_⟩
    cases heq
    exact List.mem_cons_self

theorem orderly_checkAndCache {result : Except LoadError Unit}
    (h : w.Orderly (raw :: waiting) hand)
    (hrun : (checkAndCache loader raw).run w = some (result, later)) :
    ∃ more, hand ⊆ more ∧ later.Orderly waiting more := by
  obtain ⟨verdict, middle, hcheck, hrest⟩ := run_bind_eq_some hrun
  obtain ⟨more, hmore, hmiddle, hpackage⟩ := orderly_check h hcheck
  cases verdict with
  | error error =>
    cases hrest
    exact ⟨more, hmore, hmiddle⟩
  | ok package =>
    cases hrest
    exact ⟨more, hmore, hmiddle.add (hpackage package rfl)⟩

/-- After the passes no package waits, also if one of them was refused. -/
theorem orderly_checkPasses {passes : List (List RawPackage)} {result : Except LoadError Unit}
    (h : w.Orderly passes.flatten hand)
    (hrun : (checkPasses loader passes).run w = some (result, later)) :
    ∃ more, hand ⊆ more ∧ later.Orderly [] more := by
  have hkeeps := @keeps_checkPasses loader fun waiting w ↦
    ∃ more, hand ⊆ more ∧ w.Orderly waiting more
  obtain ⟨waiting, more, hmore, hlater⟩ := hkeeps
    (fun raw waiting w result later ⟨more, hmore, hw⟩ hcheck ↦ by
      obtain ⟨most, hmost, hlater⟩ := orderly_checkAndCache hw hcheck
      exact ⟨most, List.Subset.trans hmore hmost, hlater⟩)
    ⟨hand, List.Subset.refl _, h⟩ hrun
  exact ⟨more, hmore, hlater.subperm List.nil_subperm⟩

theorem orderly_loadMissing {wanted : List String}
    {result : Except LoadError (List (List ResolvedPackage))} (h : w.Orderly [] hand)
    (hrun : (loadMissing loader wanted).run w = some (result, later)) :
    ∃ more, hand ⊆ more ∧ later.Orderly [] more := by
  cases endsMissing_of_run hrun with
  | undiscovered hdiscover =>
    exact ⟨hand, List.Subset.refl _, h.advance
      (advances_discovering (Discover.advances_patterns · wanted) _ _ _ hdiscover)⟩
  | unmatched hdiscover =>
    exact ⟨hand, List.Subset.refl _, h.advance (ready_of_discover hdiscover).1⟩
  | refused hdiscover _ hpasses =>
    obtain ⟨hadvances, hready⟩ := ready_of_discover hdiscover
    exact orderly_checkPasses (h.await hadvances (ready_of_pending hready _)) hpasses
  | loaded hdiscover _ hpasses =>
    obtain ⟨hadvances, hready⟩ := ready_of_discover hdiscover
    obtain ⟨more, hmore, hchecked⟩ :=
      orderly_checkPasses (h.await hadvances (ready_of_pending hready _)) hpasses
    exact ⟨more, hmore, hchecked.addGroups _⟩

/-- A load brings packages to hand and keeps the rest in order, also if it fails. -/
theorem orderly_patterns {wanted : List String}
    {result : Except LoadError (List ResolvedPackage)} (h : w.Orderly [] hand)
    (hrun : (patterns loader wanted).run w = some (result, later)) :
    ∃ more, hand ⊆ more ∧ later.Orderly [] more := by
  obtain ⟨loaded, -, ⟨-, -, rfl⟩ | hload⟩ := exists_of_patterns hrun
  · exact ⟨hand, List.Subset.refl _, h⟩
  · exact orderly_loadMissing h hload

/-! ### Snippets -/

/-- A snippet has a space of its own. -/
theorem ready_of_snippet {space : SpaceId} {set : FileSet} {file : SourceFile}
    {fileName code : String} (identity dir : String) (isBuildable : Bool)
    (h : Site.parseText (.empty space) fileName code = .ok (set, file)) :
    Ready space.number (space.number + 1)
      [RawPackage.assemble identity dir set [⟨file, isBuildable⟩]] := by
  obtain ⟨hspace, parsed, hparsed, hperm⟩ :=
    Site.parseText_hasParsed ⟨[], .empty space, .nil⟩ h
  have hfiles : (RawPackage.assemble identity dir set [⟨file, isBuildable⟩]).files = [file] :=
    List.perm_singleton.1 (Site.files_ofFiles_perm _ _ _ _ _)
  obtain ⟨start, -, hhandle⟩ := RawPackage.exists_handle_eq (hfiles ▸ List.cons_ne_nil file [])
  refine ⟨List.forall_mem_singleton.2 ?_, List.forall_mem_singleton.2 ?_, List.nodup_singleton _⟩
  · rw [hfiles]
    exact List.forall_mem_singleton.2 (hparsed.named file (hperm.subset List.mem_cons_self))
  · have hset : set.space = space := hspace
    change space.number ≤ _ ∧ _
    rw [hhandle]
    change space.number ≤ set.space.number ∧ set.space.number < space.number + 1
    rw [hset]
    exact ⟨Nat.le_refl _, Nat.lt_succ_self _⟩

theorem advances_checkSnippet (loader : Nat) (dir fileName code : String)
    (isBuildable : SourceFile → Bool) :
    Advances (checkSnippet loader dir fileName code isBuildable) := by
  intro w result later hrun
  obtain ⟨_, _, hget, hrest⟩ := run_bind_eq_some hrun
  cases hget
  cases hparse : Site.parseText (.empty w.atlas.nextSpace) fileName code with
  | error error =>
    rw [hparse] at hrest
    cases hrest
    exact .refl w
  | ok parsed =>
    rw [hparse] at hrest
    obtain ⟨_, _, hset, hcheck⟩ := run_bind_eq_some hrest
    cases hset
    have hspace : w.Advances { w with atlas := w.atlas.addSpace parsed.1 } :=
      ⟨w.atlas.grows_addSpace parsed.1, rfl, rfl⟩
    exact hspace.trans (advances_check _ _ _ _ _ hcheck)

/-- A snippet that passes its check is at hand. -/
theorem orderly_checkSnippet {dir fileName code : String} {isBuildable : SourceFile → Bool}
    {result : Except LoadError ResolvedPackage} (h : w.Orderly [] hand)
    (hrun : (checkSnippet loader dir fileName code isBuildable).run w = some (result, later)) :
    ∃ more, hand ⊆ more ∧ later.Orderly [] more ∧
      ∀ package, result = .ok package → package ∈ more := by
  obtain ⟨_, _, hget, hrest⟩ := run_bind_eq_some hrun
  cases hget
  cases hparse : Site.parseText (.empty w.atlas.nextSpace) fileName code with
  | error error =>
    rw [hparse] at hrest
    cases hrest
    exact ⟨hand, List.Subset.refl _, h, fun _ h ↦ (by cases h)⟩
  | ok parsed =>
    obtain ⟨space, file⟩ := parsed
    rw [hparse] at hrest
    obtain ⟨_, _, hset, hcheck⟩ := run_bind_eq_some hrest
    cases hset
    have hready := ready_of_snippet (snippetPath file.packageName.name) dir (isBuildable file)
      hparse
    have hadvances : w.Advances { w with atlas := w.atlas.addSpace space } :=
      ⟨w.atlas.grows_addSpace space, rfl, rfl⟩
    have hlength : (w.atlas.addSpace space).spaces.length = w.atlas.spaces.length + 1 :=
      List.length_append
    exact orderly_check (h.await hadvances (hlength ▸ hready)) hcheck

theorem advances_evalTest (loader : Nat) (test : StaticCheck) (code : String) :
    Advances (evalTest loader test code) := by
  intro w result later hrun
  obtain ⟨_, _, hget, hrest⟩ := run_bind_eq_some hrun
  cases hget
  obtain ⟨verdict, middle, hcheck, hrest⟩ := run_bind_eq_some hrest
  have hadvances := advances_checkSnippet _ _ _ _ _ _ _ _ hcheck
  cases verdict <;> cases hrest <;> exact hadvances

end Load

/-! ### Lookups -/

namespace ResolvedPackage

variable {package : ResolvedPackage} {spec : String} {w later : Workspace}
  {waiting : List RawPackage} {hand : List ResolvedPackage}

/-- A lookup keeps its answer, and leaves the cache as it is. -/
theorem orderly_lookupObject {result : Except LookupError SymbolId} (h : w.Orderly waiting hand)
    (hpackage : package ∈ hand) (hrun : (package.lookupObject spec).run w = some (result, later)) :
    later.cache = w.cache ∧ later.Orderly waiting hand := by
  obtain ⟨_, _, hget, hrest⟩ := Load.run_bind_eq_some hrun
  cases hget
  split at hrest
  · cases hrest
    exact ⟨rfl, h⟩
  · obtain ⟨found, middle, hresolve, hrest⟩ := Load.run_bind_eq_some hrest
    have hadvances := package.advances_resolveObject spec _ _ _ hresolve
    have hmiddle := h.advance hadvances
    cases found with
    | error error =>
      cases hrest
      exact ⟨hadvances.cache, hmiddle⟩
    | ok id =>
      cases hrest
      exact ⟨hadvances.cache, hmiddle.keepObject hpackage
        (isObject_of_resolveObject (h.outlined package hpackage) hresolve)⟩

theorem orderly_lookupType {result : Except LookupError Ty} (h : w.Orderly waiting hand)
    (hpackage : package ∈ hand) (hrun : (package.lookupType spec).run w = some (result, later)) :
    later.cache = w.cache ∧ later.Orderly waiting hand := by
  obtain ⟨_, _, hget, hrest⟩ := Load.run_bind_eq_some hrun
  cases hget
  split at hrest
  · cases hrest
    exact ⟨rfl, h⟩
  · obtain ⟨found, middle, hresolve, hrest⟩ := Load.run_bind_eq_some hrest
    have hadvances := package.advances_resolveType spec _ _ _ hresolve
    have hmiddle := h.advance hadvances
    cases found with
    | error error =>
      cases hrest
      exact ⟨hadvances.cache, hmiddle⟩
    | ok type =>
      cases hrest
      have hscope := h.outlined package hpackage
      exact ⟨hadvances.cache, hmiddle.keepType hpackage
        ((isType_of_resolveType hscope hresolve).mono hscope hadvances.atlas.store)⟩

/-- The specifier of a member leads to it, whether it was looked up before or not. -/
theorem run_lookupObject (h : w.Orderly waiting hand) (hpackage : package ∈ hand)
    (hpath : IsPlainPath package.path) {name : String} {id : SymbolId}
    (hfound : package.scope.find? name = some id) :
    ∃ later, (package.lookupObject (specifier package.path name 0 0)).run w =
      some (.ok id, later) := by
  unfold lookupObject
  cases hkept : w.lookups.objects.lookup (package.handle, specifier package.path name 0 0) with
  | some kept =>
    have hid : kept = id :=
      (h.right package hpackage).objects _ _ hkept hpath name id hfound rfl
    exact ⟨w, by simp [StateT.run_bind, hkept, hid]⟩
  | none =>
    have hresolve := run_resolveObject hpath
      ((h.outlined package hpackage).name name id hfound) hfound w
    exact ⟨_, by simp [StateT.run_bind, hkept, hresolve]; rfl⟩

/-- The specifier of a type leads to it, behind as many pointers as there are stars. -/
theorem run_lookupType (h : w.Orderly waiting hand) (hpackage : package ∈ hand)
    (hpath : IsPlainPath package.path) (hstar : package.path.toList.head? ≠ some '*')
    {name : String} {id : SymbolId} (hfound : package.scope.find? name = some id)
    (hkind : (w.atlas.store.get id).kind = .typeName) (outer inner : Nat) :
    ∃ later, (package.lookupType (specifier package.path name outer inner)).run w =
      some (.ok ((w.atlas.store.typeOf id).pointers (outer + inner)), later) := by
  unfold lookupType
  cases hkept : w.lookups.types.lookup
      (package.handle, specifier package.path name outer inner) with
  | some kept =>
    have htype := (h.right package hpackage).types _ _ hkept hpath hstar name id outer inner hfound
      hkind rfl
    exact ⟨w, by simp [StateT.run_bind, hkept, htype]⟩
  | none =>
    have hresolve := run_resolveType hpath hstar
      ((h.outlined package hpackage).name name id hfound) hfound hkind outer inner
    exact ⟨_, by simp [StateT.run_bind, hkept, hresolve]; rfl⟩

end ResolvedPackage

end PackageAtlas
