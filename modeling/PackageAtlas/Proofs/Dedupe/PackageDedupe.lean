import Mathlib.Algebra.GroupWithZero.Nat
import PackageAtlas.Proofs.Dedupe.EmptyRenaming
import PackageAtlas.Proofs.Dedupe.FileDedupe

/-!
A package without names that are declared twice. Its files are taken one after the other, and what
the files before took is never given again. The files of the build stay as they are, and so does a
file whose names are free; hence a second run finds nothing to do.
-/

set_option autoImplicit false
set_option relaxedAutoImplicit false

namespace PackageAtlas

open DeclKey

/-! ### Files whose names are free -/

/-- The claims of package-level names that are free. -/
theorem claimInto_of_fresh {keys taken : List DeclKey} (renames : Dict String String)
    (hnodup : keys.Nodup) (hfresh : ∀ key ∈ keys, key ∉ taken) :
    (keys.foldlM claimInto renames).run taken = (renames, keys.reverse ++ taken) := by
  induction keys generalizing taken with
  | nil => rfl
  | cons key keys ih =>
    obtain ⟨hkey, hkeys⟩ := List.nodup_cons.mp hnodup
    have hrun : (claimInto renames key).run taken = (renames, key :: taken) := by
      rw [claimInto, run_bind_of_run (claim_of_not_mem (hfresh key List.mem_cons_self))]
      rfl
    have hrest : ∀ other ∈ keys, other ∉ key :: taken := by
      intro other hother hmem
      rcases List.mem_cons.mp hmem with rfl | hmem
      · exact hkey hother
      · exact hfresh other (List.mem_cons_of_mem _ hother) hmem
    rw [List.foldlM_cons, run_bind_of_run hrun, ih hkeys hrest, List.reverse_cons,
      List.append_assoc]
    rfl

theorem rename_nil (key : DeclKey) : key.rename [] = key := by
  obtain ⟨_ | owner, name⟩ := key <;> rfl

/-- The claim of a declaration whose method, if it is one, is free. -/
theorem claimMethod_of_fresh {decl : Decl} {taken : List DeclKey}
    (hfresh : ∀ key ∈ methodKeys [] [decl], key ∉ taken) :
    (SourceFile.claimMethod Dict.empty decl).run taken =
      ((decl, false), (methodKeys [] [decl]).reverse ++ taken) := by
  cases decl with
  | gen decl => rw [methodKeys_gen]; rfl
  | func func =>
    cases hbase : func.receiverBase? with
    | none =>
      rw [methodKeys_func_of_none _ hbase]
      simp only [SourceFile.claimMethod, hbase]
      rfl
    | some base =>
      rw [methodKeys_func _ hbase] at hfresh ⊢
      have hrun := claim_of_not_mem (hfresh _ (List.mem_singleton_self _))
      simp only [SourceFile.claimMethod, hbase]
      exact run_bind_of_run hrun

theorem claimMethods_of_fresh {decls : List Decl} {taken : List DeclKey}
    (hnodup : (methodKeys [] decls).Nodup) (hfresh : ∀ key ∈ methodKeys [] decls, key ∉ taken) :
    (decls.mapM (SourceFile.claimMethod Dict.empty)).run taken =
      (decls.map (·, false), (methodKeys [] decls).reverse ++ taken) := by
  induction decls generalizing taken with
  | nil => rfl
  | cons decl decls ih =>
    rw [methodKeys_cons] at hnodup hfresh
    have hdecl := claimMethod_of_fresh fun key hkey ↦ hfresh key (List.mem_append_left _ hkey)
    have hrest : ∀ key ∈ methodKeys [] decls, key ∉ (methodKeys [] [decl]).reverse ++ taken := by
      intro key hkey hmem
      rcases List.mem_append.mp hmem with hmem | hmem
      · exact List.disjoint_of_nodup_append hnodup (List.mem_reverse.mp hmem) hkey
      · exact hfresh key (List.mem_append_right _ hkey) hmem
    rw [List.mapM_cons, run_bind_of_run hdecl,
      run_bind_of_run (ih (List.Nodup.of_append_right hnodup) hrest),
      methodKeys_cons [] decl decls, List.reverse_append, List.append_assoc]
    rfl

/-- The methods of a file without blank ones. -/
theorem filter_methodKeys {file : SourceFile}
    (h : ∀ decl ∈ file.decls, decl.isMethod = true → "_" ∉ decl.declaredNames) :
    (ofFile file).filter (·.owner.isSome) = methodKeys [] file.decls := by
  have hmap : methodKeys [] file.decls = (file.decls.flatMap ofDecl).filter (·.owner.isSome) := by
    rw [methodKeys, List.map_congr_left (g := id) fun key _ ↦ rename_nil key, List.map_id]
  rw [filter_owner_isSome_ofFile, hmap, List.filter_eq_self]
  intro key hkey
  obtain ⟨hmem, howner⟩ := List.mem_filter.mp hkey
  obtain ⟨decl, hdecl, hof⟩ := List.mem_flatMap.mp hmem
  cases decl with
  | gen decl =>
    obtain ⟨spec, -, hspec⟩ := List.mem_flatMap.mp hof
    rw [owner_of_mem_ofSpec hspec] at howner
    cases howner
  | func func =>
    rw [ofDecl, Option.mem_toList, ofFunc?] at hof
    split at hof
    · rename_i hreceiver
      obtain ⟨base, -, rfl⟩ := Option.map_eq_some_iff.mp hof
      have hblank := h _ hdecl hreceiver
      rw [Decl.declaredNames, List.mem_singleton] at hblank
      simpa using Ne.symm hblank
    · split at hof
      · cases hof
      · cases hof
        cases howner

/-- A file whose keys are told apart and free keeps all its names. -/
theorem dedupe_of_fresh {file : SourceFile} {taken : List DeclKey} (hnodup : (ofFile file).Nodup)
    (hfresh : ∀ key ∈ ofFile file, key ∉ taken)
    (hblank : ∀ decl ∈ file.decls, decl.isMethod = true → "_" ∉ decl.declaredNames) :
    ∃ taken', file.dedupe.run taken = ((file, 0), taken') ∧
      ∀ key ∈ taken', key ∈ ofFile file ∨ key ∈ taken := by
  let names := (ofFile file).filter (·.owner.isNone)
  have hnames : file.claimNames.run taken = (Dict.empty, names.reverse ++ taken) :=
    claimInto_of_fresh Dict.empty (hnodup.filter _)
      fun key hkey ↦ hfresh key (List.mem_filter.mp hkey).1
  have hmethods := filter_methodKeys hblank
  have hrest : ∀ key ∈ methodKeys [] file.decls, key ∉ names.reverse ++ taken := by
    intro key hkey hmem
    rw [← hmethods] at hkey
    obtain ⟨hkey, howner⟩ := List.mem_filter.mp hkey
    rcases List.mem_append.mp hmem with hmem | hmem
    · have hnone := (List.mem_filter.mp (List.mem_reverse.mp hmem)).2
      rw [Option.isNone_iff_eq_none] at hnone
      rw [hnone] at howner
      cases howner
    · exact hfresh key hkey hmem
  have hclaims := claimMethods_of_fresh (by rw [← hmethods]; exact hnodup.filter _) hrest
  refine ⟨(methodKeys [] file.decls).reverse ++ (names.reverse ++ taken), ?_, ?_⟩
  · rw [SourceFile.dedupe, run_bind_of_run hnames, run_bind_of_run hclaims]
    have hdecls : (file.decls.map (·, false)).map Prod.fst = file.decls := by
      rw [List.map_map]
      exact List.map_id _
    have hcount : (file.decls.map (·, false)).countP Prod.snd = 0 := by
      rw [List.countP_map, List.countP_eq_zero]
      exact fun _ _ h ↦ Bool.noConfusion h
    have hrename := SourceFile.rename_nil file
    rw [hdecls, hcount]
    change ((((file.rename []).1, 0) : SourceFile × Nat), _) = _
    rw [hrename]
  · intro key hkey
    rw [← hmethods, List.mem_append, List.mem_append, List.mem_reverse, List.mem_reverse] at hkey
    rcases hkey with hkey | hkey | hkey
    · exact Or.inl (List.mem_filter.mp hkey).1
    · exact Or.inl (List.mem_filter.mp hkey).1
    · exact Or.inr hkey

/-! ### One file after the other -/

namespace RawPackage

/-- One file of a package, without names that are taken if it does not take part in the build. -/
def dedupeFile (raw : RawPackage) (file : SourceFile) :
    StateM (List DeclKey) (SourceFile × Nat) :=
  if raw.isBuildable file then return (file, 0) else file.dedupe

/-- What a package must keep to for its names to be told apart: each of its files does, and no
name of the build is declared twice. -/
structure TellsApart (raw : RawPackage) : Prop where
  files : ∀ file ∈ raw.files, file.TellsApart
  buildable : (raw.buildableFiles.flatMap ofFile).Nodup

instance (raw : RawPackage) : Decidable raw.TellsApart :=
  decidable_of_iff
    ((∀ file ∈ raw.files, file.TellsApart) ∧ (raw.buildableFiles.flatMap ofFile).Nodup)
    ⟨fun h ↦ ⟨h.1, h.2⟩, fun h ↦ ⟨h.files, h.buildable⟩⟩

/-- A file of a package before and after its names are told apart. -/
structure FileKept (raw : RawPackage) (old : SourceFile) (new : SourceFile × Nat) : Prop where
  name : new.1.name = old.name
  buildable : raw.isBuildable old = true → new = (old, 0)
  changed : NamesChanged old.declaredNames new.1.declaredNames new.2
  noBlankMethod : ∀ decl ∈ new.1.decls, decl.isMethod = true → "_" ∉ decl.declaredNames

/-- The keys of those of some files that do not take part in the build. -/
def excludedKeys (raw : RawPackage) (files : List SourceFile) : List DeclKey :=
  (files.filter (!raw.isBuildable ·)).flatMap ofFile

/-- What became of some files of a package. -/
structure FilesDeduped (raw : RawPackage) (taken : List DeclKey) (files : List SourceFile)
    (deduped : List (SourceFile × Nat)) : Prop where
  kept : List.Forall₂ raw.FileKept files deduped
  nodup : (raw.excludedKeys (deduped.map Prod.fst)).Nodup
  fresh : ∀ key ∈ raw.excludedKeys (deduped.map Prod.fst), key ∉ taken

section Files

variable {raw : RawPackage} {taken taken' : List DeclKey} {file : SourceFile}
  {files : List SourceFile} {deduped : SourceFile × Nat} {rest : List (SourceFile × Nat)}

theorem isBuildable_congr {old new : SourceFile} (h : new.name = old.name) :
    raw.isBuildable new = raw.isBuildable old := by
  rw [isBuildable, isBuildable, h]

theorem excludedKeys_cons (raw : RawPackage) (file : SourceFile) (files : List SourceFile) :
    raw.excludedKeys (file :: files) =
      (if raw.isBuildable file then [] else ofFile file) ++ raw.excludedKeys files := by
  cases h : raw.isBuildable file <;> simp [excludedKeys, h]

theorem FilesDeduped.cons_buildable (hbuildable : raw.isBuildable file = true)
    (hfile : file.TellsApart) (h : raw.FilesDeduped taken files rest) :
    raw.FilesDeduped taken (file :: files) ((file, 0) :: rest) := by
  have hkeys : raw.excludedKeys (((file, 0) :: rest).map Prod.fst) =
      raw.excludedKeys (rest.map Prod.fst) := by
    rw [List.map_cons, excludedKeys_cons, if_pos hbuildable, List.nil_append]
  constructor
  · exact List.Forall₂.cons ⟨rfl, fun _ ↦ rfl, NamesChanged.refl _, hfile.noBlankMethod⟩ h.kept
  · rw [hkeys]
    exact h.nodup
  · rw [hkeys]
    exact h.fresh

theorem FilesDeduped.cons_excluded (hexcluded : raw.isBuildable file = false)
    (hfile : FileDeduped taken file deduped taken') (h : raw.FilesDeduped taken' files rest) :
    raw.FilesDeduped taken (file :: files) (deduped :: rest) := by
  have hsame : raw.isBuildable deduped.1 = false := by
    rw [isBuildable_congr hfile.name, hexcluded]
  have hkeys : raw.excludedKeys ((deduped :: rest).map Prod.fst) =
      ofFile deduped.1 ++ raw.excludedKeys (rest.map Prod.fst) := by
    rw [List.map_cons, excludedKeys_cons, hsame]
    rfl
  constructor
  · refine List.Forall₂.cons ⟨hfile.name, ?_, hfile.changed, hfile.noBlankMethod⟩ h.kept
    intro hbuildable
    rw [hbuildable] at hexcluded
    cases hexcluded
  · rw [hkeys]
    refine hfile.nodup.append h.nodup ?_
    intro key hkey hlater
    exact h.fresh key hlater (hfile.mem_taken key (Or.inl hkey))
  · intro key hkey hmem
    rw [hkeys, List.mem_append] at hkey
    rcases hkey with hkey | hkey
    · exact hfile.fresh key hkey hmem
    · exact h.fresh key hkey (hfile.mem_taken key (Or.inr hmem))

end Files

theorem dedupeFiles_spec (raw : RawPackage) {files : List SourceFile}
    (hfiles : ∀ file ∈ files, file.TellsApart) (taken : List DeclKey) :
    ∃ deduped taken', (files.mapM raw.dedupeFile).run taken = (deduped, taken') ∧
      raw.FilesDeduped taken files deduped := by
  induction files generalizing taken with
  | nil => exact ⟨[], taken, rfl, List.Forall₂.nil, List.nodup_nil,
      fun _ hkey ↦ absurd hkey List.not_mem_nil⟩
  | cons file files ih =>
    have hfile := hfiles file List.mem_cons_self
    have hrest := fun other hother ↦ hfiles other (List.mem_cons_of_mem file hother)
    rw [List.mapM_cons]
    cases hbuildable : raw.isBuildable file with
    | true =>
      obtain ⟨rest, taken', hrun, hdeduped⟩ := ih hrest taken
      refine ⟨(file, 0) :: rest, taken', ?_, hdeduped.cons_buildable hbuildable hfile⟩
      rw [dedupeFile, if_pos hbuildable, pure_bind, run_bind_of_run hrun]
      rfl
    | false =>
      obtain ⟨deduped, taken', hrunFile, hspec⟩ := dedupe_spec hfile taken
      obtain ⟨rest, takenLast, hrun, hdeduped⟩ := ih hrest taken'
      refine ⟨deduped :: rest, takenLast, ?_, hdeduped.cons_excluded hbuildable hspec⟩
      rw [dedupeFile, hbuildable, if_neg Bool.false_ne_true, run_bind_of_run hrunFile,
        run_bind_of_run hrun]
      rfl

/-- Files whose keys are told apart and free stay as they are. -/
theorem dedupeFiles_of_fresh {raw : RawPackage} {files : List SourceFile} {taken : List DeclKey}
    (hnodup : (raw.excludedKeys files).Nodup) (hfresh : ∀ key ∈ raw.excludedKeys files, key ∉ taken)
    (hblank : ∀ file ∈ files, ∀ decl ∈ file.decls,
      decl.isMethod = true → "_" ∉ decl.declaredNames) :
    ((files.mapM raw.dedupeFile).run taken).1 = files.map (·, 0) := by
  induction files generalizing taken with
  | nil => rfl
  | cons file files ih =>
    rw [excludedKeys_cons] at hnodup hfresh
    have hrest := fun other hother ↦ hblank other (List.mem_cons_of_mem file hother)
    have hfile := hblank file List.mem_cons_self
    rw [List.mapM_cons, List.map_cons]
    cases hbuildable : raw.isBuildable file with
    | true =>
      rw [hbuildable, if_pos rfl, List.nil_append] at hnodup hfresh
      rw [dedupeFile, if_pos hbuildable, pure_bind, ← ih hnodup hfresh hrest]
      rfl
    | false =>
      rw [hbuildable, if_neg Bool.false_ne_true] at hnodup hfresh
      obtain ⟨taken', hrun, htaken⟩ := dedupe_of_fresh (List.Nodup.of_append_left hnodup)
        (fun key hkey ↦ hfresh key (List.mem_append_left _ hkey)) hfile
      have hlater : ∀ key ∈ raw.excludedKeys files, key ∉ taken' := by
        intro key hkey hmem
        rcases htaken key hmem with hmem | hmem
        · exact List.disjoint_of_nodup_append hnodup hmem hkey
        · exact hfresh key (List.mem_append_right _ hkey) hmem
      rw [dedupeFile, hbuildable, if_neg Bool.false_ne_true, run_bind_of_run hrun,
        ← ih (List.Nodup.of_append_right hnodup) hlater hrest]
      rfl

/-! ### The whole package -/

section Package

variable {raw : RawPackage} {files : List SourceFile} {deduped : List (SourceFile × Nat)}

theorem filter_isBuildable_deduped (h : List.Forall₂ raw.FileKept files deduped) :
    (deduped.map Prod.fst).filter raw.isBuildable = files.filter raw.isBuildable := by
  induction h with
  | nil => rfl
  | @cons file new files rest hfile _ ih =>
    rw [List.map_cons, List.filter_cons, List.filter_cons, isBuildable_congr hfile.name, ih]
    cases hbuildable : raw.isBuildable file with
    | false => rfl
    | true => rw [hfile.buildable hbuildable]

theorem namesChanged_deduped (h : List.Forall₂ raw.FileKept files deduped) :
    NamesChanged (files.flatMap SourceFile.declaredNames)
      ((deduped.map Prod.fst).flatMap SourceFile.declaredNames) (deduped.map Prod.snd).sum := by
  induction h with
  | nil => exact NamesChanged.refl []
  | cons hfile _ ih =>
    rw [List.flatMap_cons, List.map_cons, List.flatMap_cons, List.map_cons, List.sum_cons]
    exact hfile.changed.append ih

/-- The package that the files of a run make. -/
theorem dedupe_eq
    (h : ((raw.files.mapM raw.dedupeFile).run (raw.buildableFiles.flatMap ofFile)).1 = deduped) :
    raw.dedupe = ({ raw with files := deduped.map Prod.fst }, (deduped.map Prod.snd).sum) := by
  subst h
  rw [List.sum_eq_foldl, List.foldl_map]
  rfl

theorem dedupe_of_unchanged
    (h : ((raw.files.mapM raw.dedupeFile).run (raw.buildableFiles.flatMap ofFile)).1 =
      raw.files.map (·, 0)) : raw.dedupe = (raw, 0) := by
  have hfiles : (raw.files.map (·, 0)).map Prod.fst = raw.files := by
    rw [List.map_map]
    exact List.map_id _
  have hcounts : (raw.files.map (·, 0)).map Prod.snd = List.replicate raw.files.length 0 := by
    rw [List.map_map]
    exact List.map_const' ..
  rw [dedupe_eq h, hfiles, hcounts, List.sum_replicate_nat, Nat.mul_zero]

theorem keys_perm (raw : RawPackage) (files : List SourceFile) :
    ((files.filter raw.isBuildable).flatMap ofFile ++ raw.excludedKeys files).Perm
      (files.flatMap ofFile) := by
  rw [excludedKeys, ← List.flatMap_append]
  exact (List.filter_append_perm raw.isBuildable files).flatMap_right ofFile

end Package

/-- The names of a package are told apart: no key is declared twice in its files, those of the build
stay as they are, names change only to numbered ones, the count is the number of declared names that
changed, and a second run changes nothing. -/
theorem dedupe_tellsApart {raw : RawPackage} (h : raw.TellsApart) :
    (raw.dedupe.1.files.flatMap ofFile).Nodup ∧
      List.Forall₂ (fun old new ↦ new.name = old.name ∧ (raw.isBuildable old = true → new = old))
        raw.files raw.dedupe.1.files ∧
      NamesChanged (raw.files.flatMap SourceFile.declaredNames)
        (raw.dedupe.1.files.flatMap SourceFile.declaredNames) raw.dedupe.2 ∧
      raw.dedupe.1.dedupe = (raw.dedupe.1, 0) := by
  obtain ⟨deduped, taken', hrun, hspec⟩ :=
    raw.dedupeFiles_spec h.files (raw.buildableFiles.flatMap ofFile)
  have hdedupe : raw.dedupe =
      ({ raw with files := deduped.map Prod.fst }, (deduped.map Prod.snd).sum) :=
    dedupe_eq (by rw [hrun])
  have hbuildable := filter_isBuildable_deduped hspec.kept
  rw [hdedupe]
  refine ⟨?_, ?_, namesChanged_deduped hspec.kept, ?_⟩
  · refine (raw.keys_perm (deduped.map Prod.fst)).nodup_iff.mp ?_
    rw [hbuildable]
    refine h.buildable.append hspec.nodup ?_
    intro key hkey hexcluded
    exact hspec.fresh key hexcluded hkey
  · rw [List.forall₂_map_right_iff]
    refine hspec.kept.imp fun old new hkept ↦ ⟨hkept.name, fun hbuild ↦ ?_⟩
    rw [hkept.buildable hbuild]
  · have hblank : ∀ file ∈ deduped.map Prod.fst, ∀ decl ∈ file.decls,
        decl.isMethod = true → "_" ∉ decl.declaredNames := by
      intro file hfile
      obtain ⟨new, hnew, rfl⟩ := List.mem_map.mp hfile
      obtain ⟨old, -, hkept⟩ := exists_of_forall₂ hspec.kept hnew
      exact hkept.noBlankMethod
    let out : RawPackage := { raw with files := deduped.map Prod.fst }
    have hunchanged : ((out.files.mapM out.dedupeFile).run (out.buildableFiles.flatMap ofFile)).1 =
        out.files.map (·, 0) := by
      have htaken : out.buildableFiles = raw.buildableFiles := hbuildable
      rw [htaken]
      exact dedupeFiles_of_fresh hspec.nodup hspec.fresh hblank
    exact dedupe_of_unchanged hunchanged

/-! ### A package with clashing files -/

/-- The declaration of a type of this name. -/
def typeDecl (name : String) : Decl :=
  .gen ⟨default, .type, [.type ⟨default, ⟨default, name⟩, false, .structType default []⟩]⟩

/-- The declaration of a method of this type. -/
def methodDecl (owner name : String) : Decl :=
  .func ⟨default, some ⟨default, [], .ident ⟨default, owner⟩⟩, ⟨default, name⟩, default, none⟩

/-- Two files with one type. The second, which is excluded, declares the new name of the type as
well, and one of its methods twice. -/
def clashing : RawPackage :=
  { (default : RawPackage) with
    files := [⟨default, "a.go", default, [typeDecl "T", methodDecl "T" "M"]⟩,
      ⟨default, "b.go", default, [typeDecl "T", typeDecl "T_nobuild1", methodDecl "T" "M",
        methodDecl "T" "M"]⟩]
    excluded := ["b.go"] }

theorem dedupe_clashing :
    (clashing.dedupe.1.files.flatMap ofFile).Nodup ∧ clashing.dedupe.2 = 3 ∧
      clashing.dedupe.1.dedupe = (clashing.dedupe.1, 0) := by
  have hclashing : clashing.TellsApart := by decide
  obtain ⟨hnodup, -, -, hagain⟩ := dedupe_tellsApart hclashing
  exact ⟨hnodup, by decide, hagain⟩

end RawPackage

end PackageAtlas
