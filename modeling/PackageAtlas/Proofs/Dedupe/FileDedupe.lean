import PackageAtlas.Proofs.Dedupe.MethodClaims

/-!
One file without names that are taken. Its keys end pairwise different and were free, every changed
name is a numbered one, and the count that is returned is the number of declared names that changed.
-/

set_option autoImplicit false
set_option relaxedAutoImplicit false

namespace PackageAtlas

open DeclKey

/-! ### Declared names of a file -/

/-- A declaration before and after renaming: a method stays one, and so many names changed. -/
structure DeclRenamed (old new : Decl) (count : Nat) : Prop where
  isMethod : new.isMethod = old.isMethod
  names : NamesChanged old.declaredNames new.declaredNames count

theorem Decl.isMethod_onDecl (renames : Renames) (decl : Decl) (count : Nat) :
    Decl.isMethod ((renames.onDecl decl).run count).1 = decl.isMethod := by
  cases decl with
  | gen decl => rfl
  | func decl => exact Renames.receiver_onFuncDecl renames decl count

/-- How many of some keys have names with a new name. -/
def changedKeys (renames : Renames) (keys : List DeclKey) : Nat :=
  keys.countP fun key ↦ renames.apply key.name != key.name

theorem changedKeys_method (renames : Renames) {decl : Decl} (h : decl.isMethod = true) :
    changedKeys renames (plainKeys [decl]) = 0 := by
  cases decl with
  | gen decl => cases h
  | func func =>
    have hreceiver : func.receiver.isSome := h
    have hnil : plainKeys [.func func] = [] := by
      cases hbase : func.receiverBase? with
      | none => simp [plainKeys, ofDecl, ofFunc?, hreceiver, hbase]
      | some base => exact plainKeys_func hbase
    rw [hnil]
    rfl

theorem changedKeys_plain {renames : Renames} (hrenames : renames.Numbering) {decl : Decl}
    (h : decl.isMethod = false) :
    changedKeys renames (plainKeys [decl]) =
      decl.declaredNames.countP fun name ↦ renames.apply name != name := by
  cases decl with
  | gen decl =>
    rw [changedKeys, plainKeys_gen, Decl.declaredNames, List.countP_map]
    rfl
  | func func =>
    have hreceiver : func.receiver.isSome = false := h
    by_cases hname : func.name.name = "init"
    · have hinit : renames.apply "init" = "init" := (hrenames.keepsInit "init").mpr rfl
      simp [plainKeys, ofDecl, ofFunc?, hreceiver, hname, Decl.declaredNames, hinit, changedKeys]
    · simp [plainKeys, ofDecl, ofFunc?, hreceiver, hname, Decl.declaredNames, changedKeys]

theorem MethodRenamed.onDecl {renames : Renames} (hrenames : renames.Numbering) {decl : Decl}
    {claimed : Decl × Bool} (h : MethodRenamed decl claimed) (count : Nat) :
    DeclRenamed decl ((renames.onDecl claimed.1).run count).1
      ((if claimed.2 then 1 else 0) + changedKeys renames (plainKeys [decl])) := by
  constructor
  · rw [Decl.isMethod_onDecl, h.isMethod]
  · rw [Decl.declaredNames_onDecl, h.isMethod]
    cases hmethod : decl.isMethod with
    | false =>
      rw [h.unchanged hmethod, changedKeys_plain hrenames hmethod]
      simpa using NamesChanged.of_map renames.apply decl.declaredNames hrenames.apply
    | true =>
      obtain ⟨old, new, hold, hnew, hchanged⟩ := h.name hmethod
      rw [changedKeys_method renames hmethod, hold, if_pos rfl, hnew]
      exact NamesChanged.singleton hchanged

theorem changedKeys_cons (renames : Renames) (decl : Decl) (decls : List Decl) :
    changedKeys renames (plainKeys (decl :: decls)) =
      changedKeys renames (plainKeys [decl]) + changedKeys renames (plainKeys decls) := by
  rw [plainKeys_cons, changedKeys, List.countP_append]
  rfl

/-- Renaming the declarations of a file after its methods are claimed. -/
theorem onDecls_renamed {renames : Renames} (hrenames : renames.Numbering) {decls : List Decl}
    {claimed : List (Decl × Bool)} (h : List.Forall₂ MethodRenamed decls claimed) (count : Nat) :
    List.Forall₂ (fun old new ↦ ∃ changed, DeclRenamed old new changed) decls
        (((claimed.map Prod.fst).mapM renames.onDecl).run count).1 ∧
      NamesChanged (decls.flatMap Decl.declaredNames)
        ((((claimed.map Prod.fst).mapM renames.onDecl).run count).1.flatMap Decl.declaredNames)
        (claimed.countP Prod.snd + changedKeys renames (plainKeys decls)) := by
  induction h generalizing count with
  | nil => exact ⟨List.Forall₂.nil, NamesChanged.refl []⟩
  | @cons decl claim decls rest hclaim _ ih =>
    have hdecl := hclaim.onDecl hrenames count
    obtain ⟨hall, hnames⟩ := ih ((renames.onDecl claim.1).run count).2
    rw [List.map_cons, List.mapM_cons]
    refine ⟨List.Forall₂.cons ⟨_, hdecl⟩ hall, ?_⟩
    have happend := hdecl.names.append hnames
    have hcount : (claim :: rest).countP Prod.snd + changedKeys renames (plainKeys (decl :: decls)) =
        (if claim.2 then 1 else 0) + changedKeys renames (plainKeys [decl]) +
          (rest.countP Prod.snd + changedKeys renames (plainKeys decls)) := by
      rw [changedKeys_cons, List.countP_cons]
      omega
    rw [hcount]
    exact happend

/-! ### Keys of a file -/

/-- What a file must keep to for its names to be told apart: it declares each package-level name
once, only functions are called init, and no method is blank. -/
structure SourceFile.TellsApart (file : SourceFile) : Prop where
  once : ((ofFile file).filter (·.owner.isNone)).Nodup
  noInit : ∀ decl ∈ file.decls, decl.isFunc = false → "init" ∉ decl.declaredNames
  noBlankMethod : ∀ decl ∈ file.decls, decl.isMethod = true → "_" ∉ decl.declaredNames

instance (file : SourceFile) : Decidable file.TellsApart :=
  decidable_of_iff
    (((ofFile file).filter (·.owner.isNone)).Nodup ∧
      (∀ decl ∈ file.decls, decl.isFunc = false → "init" ∉ decl.declaredNames) ∧
      ∀ decl ∈ file.decls, decl.isMethod = true → "_" ∉ decl.declaredNames)
    ⟨fun h ↦ ⟨h.1, h.2.1, h.2.2⟩, fun h ↦ ⟨h.once, h.noInit, h.noBlankMethod⟩⟩

theorem filter_owner_isNone_ofFile (file : SourceFile) :
    (ofFile file).filter (·.owner.isNone) = (plainKeys file.decls).filter (·.name != "_") := by
  rw [ofFile, plainKeys, List.filter_comm]

theorem filter_owner_isSome_ofFile (file : SourceFile) :
    (ofFile file).filter (·.owner.isSome) =
      ((file.decls.flatMap ofDecl).filter (·.owner.isSome)).filter (·.name != "_") := by
  rw [ofFile, List.filter_comm]

theorem ofFile_perm (file : SourceFile) :
    ((ofFile file).filter (·.owner.isNone) ++ (ofFile file).filter (·.owner.isSome)).Perm
      (ofFile file) := by
  have h := List.filter_append_perm (fun key : DeclKey ↦ key.owner.isNone) (ofFile file)
  have hnot : (fun key : DeclKey ↦ !key.owner.isNone) = fun key ↦ key.owner.isSome := by
    funext key
    cases key.owner <;> rfl
  rwa [hnot] at h

theorem SourceFile.TellsApart.name_ne_init {file : SourceFile} (h : file.TellsApart)
    {key : DeclKey} (hkey : key ∈ (ofFile file).filter (·.owner.isNone)) : key.name ≠ "init" := by
  rw [ofFile, List.mem_filter, List.mem_filter] at hkey
  obtain ⟨⟨hmem, -⟩, howner⟩ := hkey
  obtain ⟨decl, hdecl, hof⟩ := List.mem_flatMap.mp hmem
  cases decl with
  | gen decl =>
    intro hname
    exact h.noInit _ hdecl rfl (List.mem_map.mpr ⟨key, hof, hname⟩)
  | func func =>
    rw [ofDecl, Option.mem_toList, ofFunc?] at hof
    split at hof
    · obtain ⟨base, -, rfl⟩ := Option.map_eq_some_iff.mp hof
      cases howner
    · split at hof
      · cases hof
      · rename_i hname
        cases hof
        exact hname

/-- The new names that a file got. -/
theorem DeclKey.NameClaims.numbering {file : SourceFile} (hfile : file.TellsApart)
    {taken taken' : List DeclKey} {renames : Dict String String}
    (h : NameClaims taken ((ofFile file).filter (·.owner.isNone)) renames taken') :
    Renames.Numbering renames.entries where
  numbered := fun entry hentry ↦ (h.numbered entry hentry).2
  notInit := fun entry hentry ↦ hfile.name_ne_init (h.numbered entry hentry).1
  notBlank := by
    intro entry hentry
    have hkey := (List.mem_filter.mp (h.numbered entry hentry).1).1
    simpa using (List.mem_filter.mp hkey).2

/-- What became of a file: its keys were free before, are told apart and are taken now, and so many
of its names changed. -/
structure FileDeduped (taken : List DeclKey) (file : SourceFile) (deduped : SourceFile × Nat)
    (taken' : List DeclKey) : Prop where
  name : deduped.1.name = file.name
  nodup : (ofFile deduped.1).Nodup
  fresh : ∀ key ∈ ofFile deduped.1, key ∉ taken
  mem_taken : ∀ key, key ∈ ofFile deduped.1 ∨ key ∈ taken → key ∈ taken'
  changed : NamesChanged file.declaredNames deduped.1.declaredNames deduped.2
  noBlankMethod : ∀ decl ∈ deduped.1.decls, decl.isMethod = true → "_" ∉ decl.declaredNames

section Keys

variable {renames : Renames} {file : SourceFile} {decls : List Decl}

theorem ofDecls_rename (hrenames : renames.Numbering) (count : Nat) :
    ((decls.mapM renames.onDecl).run count).1.flatMap ofDecl =
      (decls.flatMap ofDecl).map (rename renames) := by
  rw [Renames.flatMap_mapM_run_fst
    (fun decl count ↦ ofDecl_onDecl hrenames.keepsInit decl count) decls count, List.map_flatMap]

theorem ofFile_rename (hrenames : renames.Numbering) :
    ofFile (({ file with decls } : SourceFile).rename renames).1 =
      ((decls.flatMap ofDecl).map (rename renames)).filter (·.name != "_") := by
  rw [ofFile, ← ofDecls_rename hrenames 0]
  rfl

/-- The package-level keys of a file under new names. -/
theorem plainKeys_rename (hrenames : renames.Numbering) :
    (ofFile (({ file with decls } : SourceFile).rename renames).1).filter (·.owner.isNone) =
      ((plainKeys decls).filter (·.name != "_")).map (rename renames) := by
  have hblank : ∀ key ∈ plainKeys decls,
      ((key.rename renames).name != "_") = (key.name != "_") := by
    intro key hkey
    have howner : key.owner.isNone := (List.mem_filter.mp hkey).2
    obtain ⟨_ | owner, name⟩ := key
    · rw [Bool.eq_iff_iff]
      simp [rename, hrenames.apply_blank name]
    · cases howner
  rw [ofFile_rename hrenames, List.filter_comm, List.filter_map, List.filter_map]
  congr 1
  have howner : ((fun key : DeclKey ↦ key.owner.isNone) ∘ rename renames) =
      fun key ↦ key.owner.isNone := funext (owner_isNone_rename renames)
  rw [howner]
  exact List.filter_congr hblank

/-- The keys of the methods of a file under new names. -/
theorem methodKeys_rename (hrenames : renames.Numbering) :
    (ofFile (({ file with decls } : SourceFile).rename renames).1).filter (·.owner.isSome) =
      (methodKeys renames decls).filter (·.name != "_") := by
  have howner : ((fun key : DeclKey ↦ key.owner.isSome) ∘ rename renames) =
      fun key ↦ key.owner.isSome := by
    funext key
    obtain ⟨_ | owner, name⟩ := key <;> rfl
  rw [ofFile_rename hrenames, List.filter_comm, List.filter_map, howner, methodKeys]

end Keys

theorem dedupe_spec {file : SourceFile} (hfile : file.TellsApart) (taken : List DeclKey) :
    ∃ deduped taken', file.dedupe.run taken = (deduped, taken') ∧
      FileDeduped taken file deduped taken' := by
  obtain ⟨renames, takenNames, hrunNames, hnames⟩ :=
    NameClaims.run _ (NameClaims.nil taken) hfile.once (fun key hkey ↦ by
      simpa using (List.mem_filter.mp hkey).2)
  obtain ⟨claimed, takenLast, hrunMethods, hmethods⟩ :=
    claimMethods_spec renames takenNames file.decls
  rw [List.nil_append] at hnames
  have hnumbering := hnames.numbering hfile
  obtain ⟨hdecls, hchanged⟩ := onDecls_renamed hnumbering hmethods.renamed 0
  let out := (({ file with decls := claimed.map Prod.fst } : SourceFile).rename renames.entries).1
  have hplain : (ofFile out).filter (·.owner.isNone) =
      ((ofFile file).filter (·.owner.isNone)).map (rename renames.entries) := by
    rw [filter_owner_isNone_ofFile file, ← hmethods.plain]
    exact plainKeys_rename hnumbering
  have hmethod : (ofFile out).filter (·.owner.isSome) =
      (methodKeys renames.entries (claimed.map Prod.fst)).filter (·.name != "_") :=
    methodKeys_rename hnumbering
  have hperm := ofFile_perm out
  rw [hplain, hmethod] at hperm
  have hmem : ∀ key ∈ ofFile out,
      key ∈ ((ofFile file).filter (·.owner.isNone)).map (rename renames.entries) ∨
        key ∈ methodKeys renames.entries (claimed.map Prod.fst) := by
    intro key hkey
    rcases List.mem_append.mp (hperm.mem_iff.mpr hkey) with hkey | hkey
    · exact Or.inl hkey
    · exact Or.inr (List.mem_filter.mp hkey).1
  refine ⟨(out, claimed.countP Prod.snd + renames.entries.length), takenLast, ?_, ?_⟩
  · have hclaim : file.claimNames.run taken = (renames, takenNames) := hrunNames
    rw [SourceFile.dedupe, run_bind_of_run hclaim, run_bind_of_run hrunMethods]
    rfl
  · constructor
    · rfl
    · refine hperm.nodup_iff.mp (hnames.nodup.append (hmethods.nodup.filter _) ?_)
      intro key hname hmethod
      exact hmethods.fresh key (List.mem_filter.mp hmethod).1
        ((hnames.mem_taken key).mpr (Or.inl hname))
    · intro key hkey
      rcases hmem key hkey with hkey | hkey
      · exact hnames.fresh key hkey
      · exact fun htaken ↦ hmethods.fresh key hkey ((hnames.mem_taken key).mpr (Or.inr htaken))
    · intro key hkey
      rw [hmethods.mem_taken, hnames.mem_taken]
      rcases hkey with hkey | hkey
      · exact (hmem key hkey).elim (fun h ↦ Or.inr (Or.inl h)) Or.inl
      · exact Or.inr (Or.inr hkey)
    · have hlength : renames.entries.length =
          changedKeys renames.entries (plainKeys file.decls) := by
        rw [hnames.length, filter_owner_isNone_ofFile, List.countP_filter]
        refine List.countP_congr fun key hkey ↦ ?_
        have hblank := hnumbering.apply_blank key.name
        grind
      rw [hlength]
      exact hchanged
    · intro decl hdecl hmethod hblank
      obtain ⟨old, hold, changed, hrenamed⟩ := exists_of_forall₂ hdecls hdecl
      rw [hrenamed.isMethod] at hmethod
      exact hfile.noBlankMethod old hold hmethod (hrenamed.names.blank_mem hblank)

end PackageAtlas
