import Mathlib.Data.List.Count
import PackageAtlas.Proofs.Dedupe.Fates
import PackageAtlas.Proofs.Dedupe.PackageDedupe

/-!
Collisions of names. A name changes only if its key was claimed and led to a new name, unless it has
no key and is given up all the same (`DeclaredName.Exempt`), and all claims that led to a new name
changed a name (`Traced`). This adds up over files (`Traced.append`), so that the claims of a
package make one run, from the keys that the build has. What a claim of it needs to lead to a new
name is there in the package: the key of another declaration, or a name that was made for one
(`Collides`). It is the keys under new names that count, not those that were parsed.
-/

set_option autoImplicit false
set_option relaxedAutoImplicit false

namespace PackageAtlas

open DeclKey

/-! ### Claims and names -/

/-- Names that have no key and may be given up all the same: that of a blank method, which is
claimed like any other, and that of an initializer where a spec declares this name too. -/
def DeclaredName.Exempt (among : List DeclaredName) : DeclaredName → Prop
  | ⟨name, .method _⟩ => name = "_"
  | ⟨name, .function⟩ => name = "init" ∧ ⟨"init", .spec⟩ ∈ among
  | ⟨_, .spec⟩ => False

/-- What claims did to some names. The keys of the names are those that were kept and those that
were claimed, but for blank ones. A name changed only if the claim of its key led to a new name, and
each claim that did changed a name. -/
structure Traced (kept : List DeclKey) (fates : List NameFate) (trace : List ClaimedKey) :
    Prop where
  keys : (fates.filterMap NameFate.key?).Perm
    (kept ++ (trace.map Prod.fst).filter (·.name != "_"))
  claimed : ∀ fate ∈ fates, fate.Changed → ¬fate.old.Exempt (fates.map (·.old)) →
    fate.isExcluded = true ∧ ∃ key new, fate.key? = some key ∧ (key, some new) ∈ trace
  changed : ∀ key new, (key, some new) ∈ trace →
    ∃ fate ∈ fates, fate.isExcluded = true ∧ fate.Changed ∧ fate.claim? = some key

theorem DeclaredName.Exempt.mono {among among' : List DeclaredName} {declared : DeclaredName}
    (h : declared.Exempt among) (hamong : among ⊆ among') : declared.Exempt among' := by
  obtain ⟨name, _ | _ | base⟩ := declared
  · exact h
  · exact ⟨h.1, hamong h.2⟩
  · exact h

namespace Traced

variable {kept kept' : List DeclKey} {fates fates' : List NameFate}
  {trace trace' : List ClaimedKey}

theorem append (h : Traced kept fates trace) (h' : Traced kept' fates' trace') :
    Traced (kept ++ kept') (fates ++ fates') (trace ++ trace') where
  keys := by
    rw [List.filterMap_append, List.map_append, List.filter_append, List.append_assoc]
    refine (h.keys.append h'.keys).trans ?_
    rw [List.append_assoc]
    exact List.Perm.append_left kept (List.perm_append_comm_assoc ..)
  claimed := by
    intro fate hfate hchanged hexempt
    rw [List.map_append] at hexempt
    rcases List.mem_append.mp hfate with hfate | hfate
    · obtain ⟨hexcluded, key, new, hkey, hclaim⟩ := h.claimed fate hfate hchanged fun hfirst ↦
        hexempt (hfirst.mono (List.subset_append_left _ _))
      exact ⟨hexcluded, key, new, hkey, List.mem_append_left _ hclaim⟩
    · obtain ⟨hexcluded, key, new, hkey, hclaim⟩ := h'.claimed fate hfate hchanged fun hlast ↦
        hexempt (hlast.mono (List.subset_append_right _ _))
      exact ⟨hexcluded, key, new, hkey, List.mem_append_right _ hclaim⟩
  changed := by
    intro key new hclaim
    rcases List.mem_append.mp hclaim with hclaim | hclaim
    · obtain ⟨fate, hfate, hfacts⟩ := h.changed key new hclaim
      exact ⟨fate, List.mem_append_left _ hfate, hfacts⟩
    · obtain ⟨fate, hfate, hfacts⟩ := h'.changed key new hclaim
      exact ⟨fate, List.mem_append_right _ hfate, hfacts⟩

end Traced

/-- A name as it stays in a file of the build. -/
def NameFate.kept (declared : DeclaredName) : NameFate := ⟨false, declared, declared⟩

/-- The names of a file that is left alone. -/
theorem SourceFile.kept_traced (file : SourceFile) :
    Traced (ofFile file) (file.declared.map NameFate.kept) [] where
  keys := by
    rw [List.filterMap_map, List.map_nil, List.filter_nil, List.append_nil,
      ← file.filterMap_key?_declared]
    exact .refl _
  claimed := by
    intro fate hfate hchanged
    obtain ⟨declared, -, rfl⟩ := List.mem_map.mp hfate
    exact absurd rfl hchanged
  changed := fun _ _ hclaim ↦ absurd hclaim List.not_mem_nil

/-! ### The names of a file -/

section File

variable {file : SourceFile} {taken takenNames last : List DeclKey}
  {renames : Renames} {names methods : List ClaimedKey} {claimed : List (Decl × Bool)}
  {fates : List NameFate} {fate : NameFate}

theorem init_mem_declared (h : (⟨none, "init"⟩ : DeclKey) ∈ ofFile file) :
    ⟨"init", .spec⟩ ∈ file.declared := by
  rw [← file.filterMap_key?_declared] at h
  obtain ⟨declared, hdeclared, hkey⟩ := List.mem_filterMap.mp h
  obtain ⟨⟨-, hinit⟩, hclaim⟩ := Option.ite_none_right_eq_some.mp hkey
  obtain ⟨name, _ | _ | _ | base⟩ := declared <;> cases hclaim
  · exact hdeclared
  · exact absurd rfl hinit

/-- The claims of package-level names that led to a new name are those of keys with one in the
table. -/
theorem Claims.exists_of_apply_ne {name : String} (h : Claims taken names takenNames)
    (hkeys : names.map Prod.fst = (ofFile file).filter (·.owner.isNone))
    (hname : Renames.apply (names.foldl noteClaim Dict.empty).entries name ≠ name) :
    ⟨none, name⟩ ∈ ofFile file ∧ ∃ new, (⟨none, name⟩, some new) ∈ names := by
  obtain ⟨key, new, hclaim, rfl⟩ := h.apply_ne_iff.mp hname
  have hmem : key ∈ (ofFile file).filter (·.owner.isNone) := hkeys ▸ List.mem_map_of_mem hclaim
  obtain ⟨hfile, howner⟩ := List.mem_filter.mp hmem
  obtain ⟨_ | owner, name⟩ := key
  · exact ⟨hfile, new, hclaim⟩
  · cases howner

theorem name_ne_blank {key : DeclKey} (h : key ∈ ofFile file) : key.name ≠ "_" := by
  simpa using (List.mem_filter.mp h).2

namespace MethodsClaimed

/-- The keys of the names of a file are those that are claimed, but for blank names. -/
theorem keys_traced (hkeys : names.map Prod.fst = (ofFile file).filter (·.owner.isNone))
    (h : MethodsClaimed renames file.decls claimed methods fates) :
    (fates.filterMap NameFate.key?).Perm
      (((names ++ methods).map Prod.fst).filter (·.name != "_")) := by
  refine h.keys_perm.trans ?_
  rw [List.filter_append, List.map_append, List.filter_append, hkeys, filter_owner_isNone_ofFile,
    List.filter_filter]
  simp only [Bool.and_self]
  exact .refl _

/-- A name that changed has a key, and the claim of it led to a new name. -/
theorem claimed_traced (hnames : Claims taken names takenNames)
    (hkeys : names.map Prod.fst = (ofFile file).filter (·.owner.isNone))
    (h : MethodsClaimed (names.foldl noteClaim Dict.empty).entries file.decls claimed methods fates)
    (hfate : fate ∈ fates) (hchanged : fate.Changed) (hexempt : ¬fate.old.Exempt file.declared) :
    ∃ key new, fate.key? = some key ∧ (key, some new) ∈ names ++ methods := by
  rcases h.fate_cases hfate with ⟨declared, rfl, hdeclarer⟩ | ⟨name, base, result, rfl, hclaim⟩
  · obtain ⟨name, _ | _ | _ | base⟩ := declared
    · obtain ⟨hfile, new, hclaim⟩ := hnames.exists_of_apply_ne hkeys hchanged
      refine ⟨⟨none, name⟩, new, ?_, List.mem_append_left _ hclaim⟩
      exact Option.ite_none_right_eq_some.mpr
        ⟨⟨name_ne_blank hfile, fun hinit ↦ nomatch hinit⟩, rfl⟩
    · obtain ⟨hfile, new, hclaim⟩ := hnames.exists_of_apply_ne hkeys hchanged
      refine ⟨⟨none, name⟩, new, ?_, List.mem_append_left _ hclaim⟩
      refine Option.ite_none_right_eq_some.mpr ⟨⟨name_ne_blank hfile, fun hinit ↦ ?_⟩, rfl⟩
      cases hinit
      exact hexempt ⟨rfl, init_mem_declared hfile⟩
    · exact absurd rfl hchanged
    · exact absurd rfl (hdeclarer base)
  · cases result with
    | none => exact absurd rfl hchanged
    | some new =>
      refine ⟨_, new, ?_, List.mem_append_right _ hclaim⟩
      exact Option.ite_none_right_eq_some.mpr ⟨⟨hexempt, fun hinit ↦ nomatch hinit⟩, rfl⟩

/-- A claim that led to a new name changed a name. -/
theorem changed_traced (hnames : Claims taken names takenNames)
    (hkeys : names.map Prod.fst = (ofFile file).filter (·.owner.isNone))
    (hmethods : Claims takenNames methods last)
    (h : MethodsClaimed (names.foldl noteClaim Dict.empty).entries file.decls claimed methods fates)
    {key : DeclKey} {new : String} (hclaim : (key, some new) ∈ names ++ methods) :
    ∃ fate ∈ fates, fate.Changed ∧ fate.claim? = some key := by
  rcases List.mem_append.mp hclaim with hclaim | hclaim
  · have hmem : key ∈ (ofFile file).filter (·.owner.isNone) := hkeys ▸ List.mem_map_of_mem hclaim
    obtain ⟨hfile, howner⟩ := List.mem_filter.mp hmem
    have hkey : key ∈ fates.filterMap NameFate.key? := by
      have hblank := (List.mem_filter.mp hfile).2
      refine (h.keys_traced hkeys).mem_iff.mpr (List.mem_filter.mpr ⟨?_, hblank⟩)
      rw [List.map_append, hkeys]
      exact List.mem_append_left _ hmem
    obtain ⟨fate, hfate, hfound⟩ := List.mem_filterMap.mp hkey
    have hclaimed := (Option.ite_none_right_eq_some.mp hfound).2
    refine ⟨fate, hfate, ?_, hclaimed⟩
    rcases h.fate_cases hfate with ⟨declared, rfl, -⟩ | ⟨name, base, result, rfl, -⟩
    · obtain ⟨name, _ | _ | _ | base⟩ := declared <;> cases hclaimed
      · exact hnames.apply_ne_iff.mpr ⟨_, new, hclaim, rfl⟩
      · exact hnames.apply_ne_iff.mpr ⟨_, new, hclaim, rfl⟩
      · cases howner
    · cases hclaimed
      cases howner
  · obtain ⟨name, base, hfate, rfl⟩ := h.exists_fate hclaim
    exact ⟨_, hfate, (hmethods.isNumbered hclaim).ne, rfl⟩

end MethodsClaimed

end File

/-- What becomes of a file: its names are claimed one after the other, and the claims tell which of
them change. -/
theorem SourceFile.dedupe_traced (file : SourceFile) (taken : List DeclKey) :
    ∃ deduped trace taken' fates, file.dedupe.run taken = (deduped, taken') ∧
      Claims taken trace taken' ∧ fates.map (·.old) = file.declared ∧
      fates.map (·.new) = deduped.1.declared ∧ (∀ fate ∈ fates, fate.isExcluded = true) ∧
      Traced [] fates trace := by
  obtain ⟨names, takenNames, hrunNames, hnames, hkeys⟩ :=
    claimNames_traced ((ofFile file).filter (·.owner.isNone)) Dict.empty taken
  let renames := names.foldl noteClaim Dict.empty
  obtain ⟨claimed, methods, takenLast, fates, hrunMethods, hmethods, hclaimed⟩ :=
    claimMethods_traced renames file.decls takenNames
  let out := (({ file with decls := claimed.map Prod.fst } : SourceFile).rename renames.entries).1
  refine ⟨(out, claimed.countP Prod.snd + renames.entries.length), names ++ methods, takenLast,
    fates, ?_, hnames.append hmethods, hclaimed.map_old, ?_, hclaimed.isExcluded, ?_⟩
  · have hclaim : file.claimNames.run taken = (renames, takenNames) := hrunNames
    rw [SourceFile.dedupe, run_bind_of_run hclaim, run_bind_of_run hrunMethods]
    rfl
  · rw [hclaimed.map_new, SourceFile.declared_rename]
    rfl
  · constructor
    · exact hclaimed.keys_traced hkeys
    · intro fate hfate hchanged hexempt
      rw [hclaimed.map_old] at hexempt
      exact ⟨hclaimed.isExcluded fate hfate,
        hclaimed.claimed_traced hnames hkeys hfate hchanged hexempt⟩
    · intro key new hclaim
      obtain ⟨fate, hfate, hfacts⟩ := hclaimed.changed_traced hnames hkeys hmethods hclaim
      exact ⟨fate, hfate, hclaimed.isExcluded fate hfate, hfacts⟩

/-! ### The names of a package -/

theorem zipWith_fates (isExcluded : Bool) {fates : List NameFate}
    (h : ∀ fate ∈ fates, fate.isExcluded = isExcluded) :
    List.zipWith (NameFate.mk isExcluded) (fates.map (·.old)) (fates.map (·.new)) = fates := by
  induction fates with
  | nil => rfl
  | cons fate fates ih =>
    obtain ⟨excluded, old, new⟩ := fate
    cases (h ⟨excluded, old, new⟩ List.mem_cons_self : excluded = isExcluded)
    rw [List.map_cons, List.map_cons, List.zipWith_cons_cons,
      ih fun other hother ↦ h other (List.mem_cons_of_mem _ hother)]

namespace RawPackage

/-- The names that some files declare, with those at their places in other files. -/
def fatesOf (raw : RawPackage) (files deduped : List SourceFile) : List NameFate :=
  (List.zipWith (fun old new ↦
    List.zipWith (NameFate.mk (!raw.isBuildable old)) old.declared new.declared)
    files deduped).flatten

/-- What becomes of the names of a package when they are told apart. -/
def fates (raw : RawPackage) : List NameFate := raw.fatesOf raw.files raw.dedupe.1.files

/-- The names of some files of a package, and what becomes of them. -/
structure FilesTraced (raw : RawPackage) (files deduped : List SourceFile)
    (trace : List ClaimedKey) (fates : List NameFate) : Prop where
  fates_eq : fates = raw.fatesOf files deduped
  map_old : fates.map (·.old) = files.flatMap SourceFile.declared
  map_new : fates.map (·.new) = deduped.flatMap SourceFile.declared
  traced : Traced ((files.filter raw.isBuildable).flatMap ofFile) fates trace

section Files

variable {raw : RawPackage} {file new : SourceFile} {files rest : List SourceFile}
  {trace trace' : List ClaimedKey} {fates fates' : List NameFate}

theorem FilesTraced.cons (hexcluded : ∀ fate ∈ fates, fate.isExcluded = !raw.isBuildable file)
    (hold : fates.map (·.old) = file.declared) (hnew : fates.map (·.new) = new.declared)
    (htraced : Traced (if raw.isBuildable file then ofFile file else []) fates trace)
    (h : raw.FilesTraced files rest trace' fates') :
    raw.FilesTraced (file :: files) (new :: rest) (trace ++ trace') (fates ++ fates') where
  fates_eq := by
    rw [fatesOf, List.zipWith_cons_cons, List.flatten_cons, ← hold, ← hnew,
      zipWith_fates _ hexcluded, h.fates_eq, fatesOf]
  map_old := by rw [List.map_append, hold, h.map_old, List.flatMap_cons]
  map_new := by rw [List.map_append, hnew, h.map_new, List.flatMap_cons]
  traced := by
    have hkept : ((file :: files).filter raw.isBuildable).flatMap ofFile =
        (if raw.isBuildable file then ofFile file else []) ++
          (files.filter raw.isBuildable).flatMap ofFile := by
      cases hbuildable : raw.isBuildable file <;> simp [hbuildable]
    rw [hkept]
    exact htraced.append h.traced

end Files

theorem dedupeFile_traced (raw : RawPackage) (file : SourceFile) (taken : List DeclKey) :
    ∃ deduped trace taken' fates, (raw.dedupeFile file).run taken = (deduped, taken') ∧
      Claims taken trace taken' ∧ (∀ fate ∈ fates, fate.isExcluded = !raw.isBuildable file) ∧
      fates.map (·.old) = file.declared ∧ fates.map (·.new) = deduped.1.declared ∧
      Traced (if raw.isBuildable file then ofFile file else []) fates trace := by
  cases hbuildable : raw.isBuildable file with
  | true =>
    refine ⟨(file, 0), [], taken, file.declared.map NameFate.kept, ?_, .nil taken, ?_, ?_, ?_,
      file.kept_traced⟩
    · rw [dedupeFile, if_pos hbuildable]
      rfl
    · intro fate hfate
      obtain ⟨declared, -, rfl⟩ := List.mem_map.mp hfate
      rfl
    · rw [List.map_map]
      exact List.map_id _
    · rw [List.map_map]
      exact List.map_id _
  | false =>
    obtain ⟨deduped, trace, taken', fates, hrun, hclaims, hold, hnew, hexcluded, htraced⟩ :=
      file.dedupe_traced taken
    refine ⟨deduped, trace, taken', fates, ?_, hclaims, hexcluded, hold, hnew, htraced⟩
    rw [dedupeFile, hbuildable, if_neg Bool.false_ne_true, hrun]

theorem dedupeFiles_traced (raw : RawPackage) (files : List SourceFile) (taken : List DeclKey) :
    ∃ deduped trace taken' fates, (files.mapM raw.dedupeFile).run taken = (deduped, taken') ∧
      Claims taken trace taken' ∧ raw.FilesTraced files (deduped.map Prod.fst) trace fates := by
  induction files generalizing taken with
  | nil =>
    refine ⟨[], [], taken, [], rfl, .nil taken, rfl, rfl, rfl, .refl [], ?_, ?_⟩
    · exact fun _ hfate ↦ absurd hfate List.not_mem_nil
    · exact fun _ _ hclaim ↦ absurd hclaim List.not_mem_nil
  | cons file files ih =>
    obtain ⟨deduped, trace, taken', fates, hrunFile, hclaims, hexcluded, hold, hnew, htraced⟩ :=
      raw.dedupeFile_traced file taken
    obtain ⟨rest, traceRest, last, fatesRest, hrun, hclaimsRest, hrest⟩ := ih taken'
    refine ⟨deduped :: rest, trace ++ traceRest, last, fates ++ fatesRest, ?_,
      hclaims.append hclaimsRest, hrest.cons hexcluded hold hnew htraced⟩
    rw [List.mapM_cons, run_bind_of_run hrunFile, run_bind_of_run hrun]
    rfl

/-! ### Collisions -/

/-- Whether a key is that of two declarations of a package, or a numbered one that may have been
made for another declaration, which is not part of the build and loses its name. -/
def Collides (raw : RawPackage) (key : DeclKey) : Prop :=
  2 ≤ (raw.fates.filterMap NameFate.key?).count key ∨
    ∃ other ∈ raw.fates, other.isExcluded = true ∧ other.Changed ∧
      ∃ claim, other.claim? = some claim ∧ claim.owner = key.owner ∧ IsNumbered claim.name key.name

/-- The names of a package are told apart by changes of names that collide, all of them in files
that are not part of the build. -/
structure RenamesCollisions (raw : RawPackage) : Prop where
  map_old : raw.fates.map (·.old) = raw.files.flatMap SourceFile.declared
  map_new : raw.fates.map (·.new) = raw.dedupe.1.files.flatMap SourceFile.declared
  changed : ∀ fate ∈ raw.fates, fate.Changed →
    ¬fate.old.Exempt (raw.files.flatMap SourceFile.declared) →
      fate.isExcluded = true ∧ fate.old.IsKeyed ∧ ∃ key, fate.key? = some key ∧ raw.Collides key

/-- What accounts for a taken key is there among the names that were claimed and kept. -/
theorem collides_of_claim {raw : RawPackage} {kept taken' : List DeclKey}
    {trace : List ClaimedKey} {key : DeclKey} {new : String} (hclaims : Claims kept trace taken')
    (htraced : Traced kept raw.fates trace) (hclaim : (key, some new) ∈ trace)
    (hblank : key.name ≠ "_") : raw.Collides key := by
  obtain ⟨before, after, rfl⟩ := List.append_of_mem hclaim
  have hcount : (raw.fates.filterMap NameFate.key?).count key =
      kept.count key + (before.map Prod.fst).count key + (1 + (after.map Prod.fst).count key) := by
    rw [htraced.keys.count_eq, List.count_append, List.count_filter (by simpa using hblank),
      List.map_append, List.count_append, List.map_cons, List.count_cons_self]
    omega
  rcases hclaims.reason with hkept | hfree | ⟨claim, made, hmade, rfl⟩
  · have hpos := List.count_pos_iff.mpr hkept
    exact Or.inl (by omega)
  · have hpos : 0 < (before.map Prod.fst).count key :=
      List.count_pos_iff.mpr (List.mem_map_of_mem hfree)
    exact Or.inl (by omega)
  · have hmem := List.mem_append_left ((⟨claim.owner, made⟩, some new) :: after) hmade
    obtain ⟨other, hother, hexcluded, hchanged, hkey⟩ := htraced.changed claim made hmem
    exact Or.inr ⟨other, hother, hexcluded, hchanged, claim, hkey, rfl, hclaims.isNumbered hmem⟩

/-- A name changes only in a file that is not part of the build, and only if it collides. -/
theorem dedupe_renamesCollisions (raw : RawPackage) : raw.RenamesCollisions := by
  obtain ⟨deduped, trace, taken', fates, hrun, hclaims, hfiles⟩ :=
    raw.dedupeFiles_traced raw.files (raw.buildableFiles.flatMap ofFile)
  have hdedupe : raw.dedupe.1.files = deduped.map Prod.fst := by rw [dedupe_eq (by rw [hrun])]
  have hfates : fates = raw.fates := by rw [hfiles.fates_eq, RawPackage.fates, hdedupe]
  subst hfates
  have htraced : Traced (raw.buildableFiles.flatMap ofFile) raw.fates trace := hfiles.traced
  constructor
  · exact hfiles.map_old
  · rw [hfiles.map_new, hdedupe]
  · intro fate hfate hchanged hexempt
    rw [← hfiles.map_old] at hexempt
    obtain ⟨hexcluded, key, new, hkey, hclaim⟩ := htraced.claimed fate hfate hchanged hexempt
    obtain ⟨hkeyed, hclaimed⟩ := Option.ite_none_right_eq_some.mp hkey
    have hblank : key.name ≠ "_" := DeclaredName.name_of_claim? hclaimed ▸ hkeyed.1
    exact ⟨hexcluded, hkeyed, key, hkey, collides_of_claim hclaims htraced hclaim hblank⟩

/-- Three files. The first two declare two types. The third one, which is excluded like the second,
declares a type of the name that one of them gets there, and for the other under its new name a
method that the second file declares as well. -/
def numberedClash : RawPackage :=
  { (default : RawPackage) with
    files := [⟨default, "a.go", default, [typeDecl "S", typeDecl "T"]⟩,
      ⟨default, "b.go", default, [typeDecl "S", typeDecl "T", methodDecl "T" "M"]⟩,
      ⟨default, "c.go", default, [typeDecl "S_nobuild1", methodDecl "T_nobuild1" "M"]⟩]
    excluded := ["b.go", "c.go"] }

/-- The type of the third file gives way to a name that is made. -/
theorem numberedClash_collides : numberedClash.Collides ⟨none, "S_nobuild1"⟩ := by
  obtain ⟨-, -, key, hkey, hcollides⟩ := (dedupe_renamesCollisions numberedClash).changed
    ⟨true, ⟨"S_nobuild1", .spec⟩, ⟨"S_nobuild1_nobuild1", .spec⟩⟩ (by decide) (by decide) id
  cases hkey
  exact hcollides

/-! ### Keys as parsed -/

/-- Collisions of the names as they are parsed: a name changes only in a file that is not part of
the build, and only if its key is there twice before any name changes. -/
def RenamesParsedCollisions (raw : RawPackage) : Prop :=
  ∀ fate ∈ raw.fates, fate.Changed →
    fate.isExcluded = true ∧ ∃ key ∈ fate.old.key?, 2 ≤ (raw.files.flatMap ofFile).count key

instance : DecidablePred RenamesParsedCollisions := fun raw ↦
  inferInstanceAs (Decidable (∀ fate ∈ raw.fates, fate.Changed →
    fate.isExcluded = true ∧ ∃ key ∈ fate.old.key?, 2 ≤ (raw.files.flatMap ofFile).count key))

/-- The new names matter: two names change whose keys are parsed once. -/
theorem numberedClash_not_parsedCollisions :
    (numberedClash.files.map (·.name)).Nodup ∧ ¬numberedClash.RenamesParsedCollisions ∧
      ∀ key ∈ [⟨none, "S_nobuild1"⟩, ⟨some "T_nobuild1", "M"⟩],
        (numberedClash.files.flatMap ofFile).count key = 1 ∧
          ∃ fate ∈ numberedClash.fates, fate.Changed ∧ fate.old.key? = some key := by
  decide

end RawPackage

end PackageAtlas
