import PackageAtlas.Proofs.Lookup.Answers
import PackageAtlas.Query.Owner

/-!
Sessions: whatever happens to a workspace, call by call. Loads, imports, snippets and lookups follow
one another in any order, also after failures and while the files change. At any time the specifier
of a member of a package that was given leads to the member, and that of a type to the type, if the
path of the package has no dot in its last element (`Session.lookup_member`).
-/

set_option autoImplicit false
set_option relaxedAutoImplicit false

namespace PackageAtlas

/-- The workspaces that calls lead to, with the packages that were given by then. -/
inductive Session : Workspace → List ResolvedPackage → Prop
  | start (tree : FileTree) (loaders : List Loader) : Session (Workspace.start tree loaders) []
  | edit {w : Workspace} {given : List ResolvedPackage} (h : Session w given) (tree : FileTree) :
    Session { w with tree } given
  | load {w later : Workspace} {given : List ResolvedPackage} {loader : Nat} {wanted : List String}
    {result : Except LoadError (List ResolvedPackage)} (h : Session w given)
    (hrun : (Load.patterns loader wanted).run w = some (result, later)) :
    Session later (result.toOption.getD [] ++ given)
  | find {w : Workspace} {given : List ResolvedPackage} {identity : String}
    {package : ResolvedPackage} (h : Session w given)
    (hfound : w.cache.find? identity = some package) : Session w (package :: given)
  | discover {w later : Workspace} {given : List ResolvedPackage} {loader : Nat}
    {wanted : List String} {result : Except LoadError Discovery} (h : Session w given)
    (hrun : (Load.discover loader wanted).run w = some (result, later)) : Session later given
  | parse {w later : Workspace} {given : List ResolvedPackage} {loader : Nat} {dir base : String}
    {result : Except LoadError (List RawPackage)} (h : Session w given)
    (hrun : (Load.parseDir loader dir base).run w = some (result, later)) : Session later given
  | importPath {w later : Workspace} {given : List ResolvedPackage} {loader : Nat} {path : String}
    {importing : Option String} {result : Except ImportError PackageScope} (h : Session w given)
    (hrun : (Load.importPath loader path importing).run w = some (result, later)) :
    Session later given
  | importFromSource {w later : Workspace} {given : List ResolvedPackage} {loader : Nat}
    {path : String} {importing : Option String} {result : Except ImportError PackageScope}
    (h : Session w given)
    (hrun : (Load.importFromSource loader path importing).run w = some (result, later)) :
    Session later given
  | evalPackage {w later : Workspace} {given : List ResolvedPackage} {loader : Nat}
    {scratch code : String} {result : Except LoadError ResolvedPackage} (h : Session w given)
    (hrun : (Load.evalPackage loader scratch code).run w = some (result, later)) :
    Session later (result.toOption.toList ++ given)
  | evalTest {w later : Workspace} {given : List ResolvedPackage} {loader : Nat}
    {test : StaticCheck} {code : String} {result : Except LoadError (List Finding)}
    (h : Session w given)
    (hrun : (Load.evalTest loader test code).run w = some (result, later)) : Session later given
  | lookupType {w later : Workspace} {given : List ResolvedPackage} {package : ResolvedPackage}
    {spec : String} {result : Except LookupError Ty} (h : Session w given)
    (hpackage : package ∈ given)
    (hrun : (package.lookupType spec).run w = some (result, later)) : Session later given
  | lookupObject {w later : Workspace} {given : List ResolvedPackage} {package : ResolvedPackage}
    {spec : String} {result : Except LookupError SymbolId} (h : Session w given)
    (hpackage : package ∈ given)
    (hrun : (package.lookupObject spec).run w = some (result, later)) : Session later given
  | ownerOf {w later : Workspace} {given : List ResolvedPackage} {loader : Nat}
    {package : ResolvedPackage} {id : SymbolId} {result : Except QueryError ResolvedPackage}
    (h : Session w given) (hpackage : package ∈ given)
    (hrun : (Load.ownerOf loader package id).run w = some (result, later)) :
    Session later (result.toOption.toList ++ given)

namespace Load

/-- The owner of a symbol is the package itself, or one of those of a load. -/
theorem run_ownerOf {loader : Nat} {package : ResolvedPackage} {id : SymbolId}
    {w later : Workspace} {result : Except QueryError ResolvedPackage}
    (h : (ownerOf loader package id).run w = some (result, later)) :
    (later = w ∧ ∀ owner, result = .ok owner → owner = package) ∨
      ∃ path loaded, (patterns loader [path]).run w = some (loaded, later) ∧
        ∀ owner, result = .ok owner → ∃ packages, loaded = .ok packages ∧ owner ∈ packages := by
  obtain ⟨_, _, hstore, hrest⟩ := run_bind_eq_some h
  cases hstore
  dsimp only at hrest
  split at hrest
  · cases hrest
    exact .inl ⟨rfl, fun _ h ↦ (by cases h)⟩
  · split at hrest
    · cases hrest
      exact .inl ⟨rfl, fun owner h ↦ (Except.ok.inj h).symm⟩
    · rename_i path _ _
      obtain ⟨loaded, middle, hload, hrest⟩ := run_bind_eq_some hrest
      refine .inr ⟨path, loaded, ?_⟩
      cases loaded with
      | error error =>
        cases hrest
        exact ⟨hload, fun _ h ↦ (by cases h)⟩
      | ok packages =>
        dsimp only at hrest
        split at hrest
        · rename_i owner hfound
          cases hrest
          refine ⟨hload, fun other h ↦ ⟨packages, rfl, ?_⟩⟩
          cases h
          exact List.mem_of_find?_eq_some hfound
        · cases hrest
          exact ⟨hload, fun _ h ↦ (by cases h)⟩

end Load

namespace Session

variable {w : Workspace} {given : List ResolvedPackage}

/-- A workspace in order, in which all packages that were given are at hand. -/
def Holds (w : Workspace) (given : List ResolvedPackage) : Prop :=
  w.cache.Filed ∧ ∃ hand, given ⊆ hand ∧ w.Orderly [] hand

theorem Holds.advance {later : Workspace} (h : Holds w given) (hadvances : w.Advances later) :
    Holds later given := by
  obtain ⟨hfiled, hand, hgiven, horderly⟩ := h
  exact ⟨hadvances.cache ▸ hfiled, hand, hgiven, horderly.advance hadvances⟩

theorem Holds.load {later : Workspace} {loader : Nat} {wanted : List String}
    {result : Except LoadError (List ResolvedPackage)} (h : Holds w given)
    (hrun : (Load.patterns loader wanted).run w = some (result, later)) :
    Holds later (result.toOption.getD [] ++ given) := by
  obtain ⟨hfiled, hand, hgiven, horderly⟩ := h
  have hhands := Load.hands_patterns hfiled hrun
  obtain ⟨more, hmore, hlater⟩ := Load.orderly_patterns horderly hrun
  refine ⟨hhands.filed, more, List.append_subset.2 ⟨fun package hpackage ↦ ?_,
    List.Subset.trans hgiven hmore⟩, hlater⟩
  cases result with
  | error error => cases hpackage
  | ok packages => exact hlater.cached _ _ (hhands.held packages rfl package hpackage)

theorem Holds.subset {others : List ResolvedPackage} (h : Holds w given) (hsub : others ⊆ given) :
    Holds w others := by
  obtain ⟨hfiled, hand, hgiven, horderly⟩ := h
  exact ⟨hfiled, hand, List.Subset.trans hsub hgiven, horderly⟩

/-- Whatever is called, in whatever order: all that was given is at hand, and what is at hand is in
order. -/
theorem holds (h : Session w given) : Holds w given := by
  induction h with
  | start tree loaders => exact ⟨PackageCache.filed_empty, [], List.Subset.refl _, .start _ _⟩
  | @edit w given h tree ih =>
    have hadvances : w.Advances { w with tree } := ⟨.refl _, rfl, rfl⟩
    exact ih.advance hadvances
  | load h hrun ih => exact ih.load hrun
  | find h hfound ih =>
    obtain ⟨hfiled, hand, hgiven, horderly⟩ := ih
    exact ⟨hfiled, hand, List.cons_subset.2 ⟨horderly.cached _ _ hfound, hgiven⟩, horderly⟩
  | discover h hrun ih =>
    exact ih.advance (Load.advances_discovering (Discover.advances_patterns · _) _ _ _ hrun)
  | parse h hrun ih =>
    exact ih.advance (Load.advances_discovering (Discover.advances_parse · _ _) _ _ _ hrun)
  | importPath h hrun ih => exact ih.advance (Load.advances_importPath _ _ _ _ _ _ hrun)
  | importFromSource h hrun ih => exact ih.advance (Load.advances_importFromSource _ _ _ _ _ _ hrun)
  | @evalPackage w later given loader scratch code result h hrun ih =>
    obtain ⟨hfiled, hand, hgiven, horderly⟩ := ih
    obtain ⟨_, _, hget, hrun⟩ := Load.run_bind_eq_some hrun
    cases hget
    have hcache := (Load.advances_checkSnippet _ _ _ _ _ _ _ _ hrun).cache
    obtain ⟨more, hmore, hlater, hpackage⟩ := Load.orderly_checkSnippet horderly hrun
    refine ⟨hcache ▸ hfiled, more, List.append_subset.2 ⟨fun package hin ↦ ?_,
      List.Subset.trans hgiven hmore⟩, hlater⟩
    cases result with
    | error error => cases hin
    | ok made => exact hpackage package (by rw [List.mem_singleton.1 hin])
  | evalTest h hrun ih => exact ih.advance (Load.advances_evalTest _ _ _ _ _ _ hrun)
  | lookupType h hpackage hrun ih =>
    obtain ⟨hfiled, hand, hgiven, horderly⟩ := ih
    obtain ⟨hcache, hlater⟩ := ResolvedPackage.orderly_lookupType horderly (hgiven hpackage) hrun
    exact ⟨hcache ▸ hfiled, hand, hgiven, hlater⟩
  | lookupObject h hpackage hrun ih =>
    obtain ⟨hfiled, hand, hgiven, horderly⟩ := ih
    obtain ⟨hcache, hlater⟩ := ResolvedPackage.orderly_lookupObject horderly (hgiven hpackage) hrun
    exact ⟨hcache ▸ hfiled, hand, hgiven, hlater⟩
  | @ownerOf w later given loader package id result h hpackage hrun ih =>
    rcases Load.run_ownerOf hrun with ⟨rfl, hsame⟩ | ⟨path, loaded, hload, hfound⟩
    · refine ih.subset (List.append_subset.2 ⟨fun owner hin ↦ ?_, List.Subset.refl _⟩)
      cases result with
      | error error => cases hin
      | ok found => rwa [List.mem_singleton.1 hin, hsame found rfl]
    · refine (ih.load hload).subset (List.append_subset.2
        ⟨fun owner hin ↦ List.mem_append_left _ ?_, List.subset_append_right _ _⟩)
      cases result with
      | error error => cases hin
      | ok found =>
        obtain ⟨packages, rfl, hmem⟩ := hfound found rfl
        rwa [List.mem_singleton.1 hin]

/-- At any time, the specifier of a member of a package that was given leads to the member, and that
of a type leads to the type, behind as many pointers as there are stars before the path and before
the name, if the path has no dot in its last element and, for a type, does not start with a star. -/
theorem lookup_member (h : Session w given) {package : ResolvedPackage} (hpackage : package ∈ given)
    (hpath : IsPlainPath package.path) {name : String} {id : SymbolId}
    (hfound : package.scope.find? name = some id) :
    (∃ later, (package.lookupObject (package.path ++ "." ++ name)).run w = some (.ok id, later)) ∧
      ((w.atlas.store.get id).kind = .typeName → package.path.toList.head? ≠ some '*' →
        ∀ outer inner, ∃ later,
          (package.lookupType (specifier package.path name outer inner)).run w =
            some (.ok ((w.atlas.store.typeOf id).pointers (outer + inner)), later)) := by
  obtain ⟨-, hand, hgiven, horderly⟩ := h.holds
  refine ⟨?_, fun hkind hstar ↦
    ResolvedPackage.run_lookupType horderly (hgiven hpackage) hpath hstar hfound hkind⟩
  rw [← specifier_zero]
  exact ResolvedPackage.run_lookupObject horderly (hgiven hpackage) hpath hfound

/-- Packages of one type each, under paths with a star, with a dot in an element before the last one,
and with a dot in the last element. -/
def dottedTree : FileTree := ⟨.dir [⟨"src", .dir [
  ⟨"*p", .dir [⟨"a.go", .text "package p\ntype T int\n"⟩]⟩,
  ⟨"a.b", .dir [⟨"p", .dir [⟨"a.go", .text "package p\ntype T int\n"⟩]⟩]⟩,
  ⟨"lib.v2", .dir [⟨"a.go", .text "package lib\ntype T int\n"⟩]⟩]⟩]⟩

/-- A type that is looked up again after its package was loaded and asked for it. -/
theorem dottedTree_lookup_member : ∃ w package id, Session w [package] ∧
    package.path = "a.b/p" ∧ package.scope.find? "T" = some id ∧
    (∃ later, (package.lookupObject "a.b/p.T").run w = some (.ok id, later)) ∧
    ∃ later, (package.lookupType "**a.b/p.*T").run w =
      some (.ok ((w.atlas.store.typeOf id).pointers 3), later) := by
  have hruns : (StateT.run (do
      let packages := (← Load.patterns 0 ["a.b/p"]).toOption.getD []
      let package := packages.headD default
      let _ ← package.lookupType "**a.b/p.*T"
      let store ← Load.store
      return (packages.length, package.path,
        (package.scope.find? "T").map fun id ↦ (store.get id).kind))
        (Workspace.start dottedTree [Load.plainLoader])).map Prod.fst =
      some (1, "a.b/p", some .typeName) := by decide +kernel
  obtain ⟨⟨_, w⟩, hrun, hresult⟩ := Option.map_eq_some_iff.1 hruns
  obtain ⟨loaded, _, hload, hrun⟩ := Load.run_bind_eq_some hrun
  obtain ⟨answer, _, hlookup, hrun⟩ := Load.run_bind_eq_some hrun
  obtain ⟨_, _, hstore, hpure⟩ := Load.run_bind_eq_some hrun
  cases hstore
  cases hpure
  obtain ⟨hlength, hresult⟩ := Prod.mk.inj hresult
  obtain ⟨package, hpackages⟩ := List.length_eq_one_iff.1 hlength
  have hsession := (start dottedTree [Load.plainLoader]).load hload
  rw [hpackages] at hlookup hresult hsession
  have hpath : package.path = "a.b/p" := congrArg Prod.fst hresult
  obtain ⟨id, hfound, hkind⟩ := Option.map_eq_some_iff.1 (congrArg Prod.snd hresult)
  have hasked : Session w [package] := hsession.lookupType List.mem_cons_self hlookup
  have hplain : IsPlainPath package.path := by
    rw [hpath]
    decide
  have hstar : package.path.toList.head? ≠ some '*' := by
    rw [hpath]
    decide
  obtain ⟨hobject, htype⟩ := hasked.lookup_member List.mem_cons_self hplain hfound
  obtain ⟨later, hlater⟩ := htype hkind hstar 2 1
  rw [hpath] at hobject hlater
  exact ⟨w, package, id, hasked, hpath, hfound, hobject, later, hlater⟩

/-- A dot in the last element of a path cuts the path there, and a star before it is taken for a
pointer. -/
theorem dottedTree_misleads : ∃ w dotted starred, Session w [dotted, starred] ∧
    (dotted.path = "lib.v2" ∧ ∃ id, dotted.scope.find? "T" = some id ∧
      ∀ later, (dotted.lookupObject "lib.v2.T").run w ≠ some (.ok id, later)) ∧
    starred.path = "*p" ∧ ∃ id, starred.scope.find? "T" = some id ∧
      (w.atlas.store.get id).kind = .typeName ∧
      ∀ later, (starred.lookupType "*p.T").run w ≠
        some (.ok (w.atlas.store.typeOf id), later) := by
  have hruns : (StateT.run (do
      let packages := (← Load.patterns 0 ["lib.v2", "*p"]).toOption.getD []
      let dotted := packages.headD default
      let starred := packages.tail.headD default
      let w ← get
      let object ← dotted.lookupObject "lib.v2.T"
      set w
      let type ← starred.lookupType "*p.T"
      return (packages.length, [dotted.path, starred.path], (dotted.scope.find? "T").isSome,
        (starred.scope.find? "T").map fun id ↦ (w.atlas.store.get id).kind,
        [object.toOption.isSome, type.toOption.isSome]))
        (Workspace.start dottedTree [Load.plainLoader])).map Prod.fst =
      some (2, ["lib.v2", "*p"], true, some .typeName, [false, false]) := by decide +kernel
  obtain ⟨⟨_, last⟩, hrun, hresult⟩ := Option.map_eq_some_iff.1 hruns
  obtain ⟨loaded, w, hload, hrun⟩ := Load.run_bind_eq_some hrun
  obtain ⟨_, _, hget, hrun⟩ := Load.run_bind_eq_some hrun
  cases hget
  obtain ⟨object, _, hobject, hrun⟩ := Load.run_bind_eq_some hrun
  obtain ⟨_, _, hset, hrun⟩ := Load.run_bind_eq_some hrun
  cases hset
  obtain ⟨type, _, htype, hpure⟩ := Load.run_bind_eq_some hrun
  cases hpure
  obtain ⟨hlength, hresult⟩ := Prod.mk.inj hresult
  obtain ⟨dotted, starred, hpackages⟩ := List.length_eq_two.1 hlength
  have hsession := (start dottedTree [Load.plainLoader]).load hload
  rw [hpackages] at hobject htype hresult hsession
  simp only [Prod.mk.injEq, List.cons.injEq, and_true] at hresult
  obtain ⟨⟨hdotted, hstarred⟩, hmember, hkind, hno, hnone⟩ := hresult
  obtain ⟨id, hid⟩ := Option.isSome_iff_exists.1 hmember
  obtain ⟨id', hid', hkind⟩ := Option.map_eq_some_iff.1 hkind
  refine ⟨w, dotted, starred, hsession, ⟨hdotted, id, hid, fun later h ↦ ?_⟩, hstarred, id', hid',
    hkind, fun later h ↦ ?_⟩
  · cases hobject.symm.trans h
    cases hno
  · cases htype.symm.trans h
    cases hnone

end Session

end PackageAtlas
