import Mathlib.Data.List.Forall2
import Mathlib.Data.List.Nodup
import PackageAtlas.Proofs.Dedupe.NameClaims

/-!
New names for the methods of a file. A method is claimed under the new name of its type, so that the
keys of the methods, read after the types are renamed, were free and are pairwise different.

A table made of numbered names changes neither blank names nor initializers, so that counting the
keys with a new name counts the declared names that change (`NamesChanged`).
-/

set_option autoImplicit false
set_option relaxedAutoImplicit false

namespace PackageAtlas

open DeclKey

/-- The keys of the methods of declarations, with new names for their types. -/
def methodKeys (renames : Renames) (decls : List Decl) : List DeclKey :=
  ((decls.flatMap ofDecl).filter (·.owner.isSome)).map (DeclKey.rename renames)

/-- The keys of the other declarations. -/
def plainKeys (decls : List Decl) : List DeclKey :=
  (decls.flatMap ofDecl).filter (·.owner.isNone)

theorem methodKeys_cons (renames : Renames) (decl : Decl) (decls : List Decl) :
    methodKeys renames (decl :: decls) = methodKeys renames [decl] ++ methodKeys renames decls := by
  simp [methodKeys]

theorem plainKeys_cons (decl : Decl) (decls : List Decl) :
    plainKeys (decl :: decls) = plainKeys [decl] ++ plainKeys decls := by
  simp [plainKeys]

/-! ### Keys of functions -/

theorem FuncDecl.receiver_isSome_of_base {func : FuncDecl} {base : Ident}
    (h : func.receiverBase? = some base) : func.receiver.isSome := by
  cases hreceiver : func.receiver with
  | none => simp [FuncDecl.receiverBase?, hreceiver] at h
  | some receiver => rfl

theorem FuncDecl.ofFunc?_of_base {func : FuncDecl} {base : Ident}
    (h : func.receiverBase? = some base) :
    ofFunc? func = some ⟨some base.name, func.name.name⟩ := by
  rw [ofFunc?, if_pos (FuncDecl.receiver_isSome_of_base h), h, Option.map_some]

theorem methodKeys_func {func : FuncDecl} {base : Ident} (renames : Renames)
    (h : func.receiverBase? = some base) :
    methodKeys renames [.func func] = [⟨some (renames.apply base.name), func.name.name⟩] := by
  simp [methodKeys, ofDecl, FuncDecl.ofFunc?_of_base h, DeclKey.rename]

theorem plainKeys_func {func : FuncDecl} {base : Ident} (h : func.receiverBase? = some base) :
    plainKeys [.func func] = [] := by
  simp [plainKeys, ofDecl, FuncDecl.ofFunc?_of_base h]

theorem methodKeys_gen (renames : Renames) (decl : GenDecl) : methodKeys renames [.gen decl] = [] := by
  have hnone : ∀ key ∈ decl.specs.flatMap ofSpec, ¬key.owner.isSome = true := by
    intro key hkey
    obtain ⟨spec, -, hspec⟩ := List.mem_flatMap.mp hkey
    simp [owner_of_mem_ofSpec hspec]
  rw [methodKeys, List.flatMap_singleton, ofDecl, List.filter_eq_nil_iff.mpr hnone, List.map_nil]

theorem plainKeys_gen (decl : GenDecl) : plainKeys [.gen decl] = decl.specs.flatMap ofSpec := by
  rw [plainKeys, List.flatMap_singleton, ofDecl, List.filter_eq_self]
  intro key hkey
  obtain ⟨spec, -, hspec⟩ := List.mem_flatMap.mp hkey
  rw [owner_of_mem_ofSpec hspec]
  rfl

theorem methodKeys_func_of_none {func : FuncDecl} (renames : Renames)
    (h : func.receiverBase? = none) : methodKeys renames [.func func] = [] := by
  have hnone : ∀ key ∈ (ofFunc? func).toList, ¬key.owner.isSome = true := by
    intro key hkey
    rw [Option.mem_toList, ofFunc?, h] at hkey
    split at hkey
    · cases hkey
    · split at hkey
      · cases hkey
      · cases hkey
        simp
  rw [methodKeys, List.flatMap_singleton, ofDecl, List.filter_eq_nil_iff.mpr hnone, List.map_nil]

/-! ### Claims -/

/-- What the claim of a declaration may change: the name of a method, and then to a numbered one. -/
structure MethodRenamed (decl : Decl) (claimed : Decl × Bool) : Prop where
  isMethod : claimed.1.isMethod = decl.isMethod
  unchanged : decl.isMethod = false → claimed = (decl, false)
  name : decl.isMethod = true → ∃ old new, decl.declaredNames = [old] ∧
    claimed.1.declaredNames = [new] ∧ if claimed.2 then IsNumbered old new else new = old

theorem MethodRenamed.refl (decl : Decl) : MethodRenamed decl (decl, false) where
  isMethod := rfl
  unchanged := fun _ ↦ rfl
  name := by
    intro h
    cases decl with
    | gen decl => cases h
    | func func => exact ⟨func.name.name, func.name.name, rfl, rfl, rfl⟩

/-- What the claims of the methods among some declarations did. -/
structure MethodClaims (renames : Renames) (taken : List DeclKey) (decls : List Decl)
    (claimed : List (Decl × Bool)) (taken' : List DeclKey) : Prop where
  plain : plainKeys (claimed.map Prod.fst) = plainKeys decls
  nodup : (methodKeys renames (claimed.map Prod.fst)).Nodup
  fresh : ∀ key ∈ methodKeys renames (claimed.map Prod.fst), key ∉ taken
  mem_taken : ∀ key, key ∈ taken' ↔ key ∈ methodKeys renames (claimed.map Prod.fst) ∨ key ∈ taken
  renamed : List.Forall₂ MethodRenamed decls claimed

section Claims

variable {renames : Dict String String} {taken taken' : List DeclKey} {decl : Decl}

/-- A declaration that is no method, or a method of no named type, is left alone. -/
theorem MethodClaims.unclaimed (h : methodKeys renames.entries [decl] = []) :
    MethodClaims renames.entries taken [decl] [(decl, false)] taken where
  plain := rfl
  nodup := by
    rw [List.map_singleton, h]
    exact List.nodup_nil
  fresh := by
    rw [List.map_singleton, h]
    exact fun _ hkey ↦ absurd hkey List.not_mem_nil
  mem_taken := by
    rw [List.map_singleton, h]
    simp
  renamed := List.Forall₂.cons (MethodRenamed.refl decl) List.Forall₂.nil

/-- A method with the name that its claim left to it. -/
theorem MethodClaims.claimed {func : FuncDecl} {base : Ident} (changed : Bool) {name : String}
    (hbase : func.receiverBase? = some base)
    (hname : if changed then IsNumbered func.name.name name else name = func.name.name)
    (hfresh : (⟨some (Renames.apply renames.entries base.name), name⟩ : DeclKey) ∉ taken) :
    MethodClaims renames.entries taken [.func func]
      [(.func { func with name.name := name }, changed)]
      (⟨some (Renames.apply renames.entries base.name), name⟩ :: taken) := by
  have hnew : ({ func with name.name := name } : FuncDecl).receiverBase? = some base := hbase
  have hkeys := methodKeys_func renames.entries hnew
  constructor
  · rw [List.map_singleton, plainKeys_func hnew, plainKeys_func hbase]
  · rw [List.map_singleton, hkeys]
    exact List.nodup_singleton _
  · rw [List.map_singleton, hkeys]
    intro key hkey
    rwa [List.mem_singleton.mp hkey]
  · intro key
    rw [List.map_singleton, hkeys, List.mem_cons, List.mem_singleton]
  · refine List.Forall₂.cons ⟨rfl, ?_, ?_⟩ List.Forall₂.nil
    · intro hnone
      have hsome := FuncDecl.receiver_isSome_of_base hbase
      rw [Decl.isMethod, hsome] at hnone
      cases hnone
    · intro _
      exact ⟨func.name.name, name, rfl, rfl, hname⟩

theorem claimMethod_spec (renames : Dict String String) (taken : List DeclKey) (decl : Decl) :
    ∃ claimed taken', (SourceFile.claimMethod renames decl).run taken = (claimed, taken') ∧
      MethodClaims renames.entries taken [decl] [claimed] taken' := by
  cases decl with
  | gen decl =>
    exact ⟨(.gen decl, false), taken, rfl, MethodClaims.unclaimed (methodKeys_gen _ decl)⟩
  | func func =>
    cases hbase : func.receiverBase? with
    | none =>
      refine ⟨(.func func, false), taken, ?_,
        MethodClaims.unclaimed (methodKeys_func_of_none _ hbase)⟩
      simp only [SourceFile.claimMethod, hbase]
      rfl
    | some base =>
      obtain ⟨result, hrun, hfresh, hnumbered⟩ :=
        claim_spec ⟨some (Renames.apply renames.entries base.name), func.name.name⟩ taken
      have hrun' : (DeclKey.mk (some ((renames.find? base.name).getD base.name))
          func.name.name).claim.run taken = _ := hrun
      cases result with
      | none =>
        refine ⟨(.func func, false), _, ?_,
          MethodClaims.claimed false hbase rfl hfresh⟩
        simp only [SourceFile.claimMethod, hbase]
        rw [run_bind_of_run hrun']
        rfl
      | some name =>
        refine ⟨(.func { func with name.name := name }, true), _, ?_,
          MethodClaims.claimed true hbase (hnumbered name rfl) hfresh⟩
        simp only [SourceFile.claimMethod, hbase]
        rw [run_bind_of_run hrun']
        rfl

theorem MethodClaims.nil : MethodClaims renames.entries taken [] [] taken where
  plain := rfl
  nodup := List.nodup_nil
  fresh := fun _ hkey ↦ absurd hkey List.not_mem_nil
  mem_taken := fun key ↦ by simp [methodKeys]
  renamed := List.Forall₂.nil

/-- The claim of one declaration, and then those of the rest from what is taken by then. -/
theorem MethodClaims.cons {claimed : Decl × Bool} {decls : List Decl} {rest : List (Decl × Bool)}
    {takenLast : List DeclKey} (h : MethodClaims renames.entries taken [decl] [claimed] taken')
    (hrest : MethodClaims renames.entries taken' decls rest takenLast) :
    MethodClaims renames.entries taken (decl :: decls) (claimed :: rest) takenLast := by
  have hkeys : methodKeys renames.entries ((claimed :: rest).map Prod.fst) =
      methodKeys renames.entries ([claimed].map Prod.fst) ++
        methodKeys renames.entries (rest.map Prod.fst) :=
    methodKeys_cons renames.entries claimed.1 (rest.map Prod.fst)
  constructor
  · rw [List.map_cons, plainKeys_cons, hrest.plain, plainKeys_cons decl, ← h.plain]
    rfl
  · rw [hkeys]
    refine h.nodup.append hrest.nodup ?_
    intro key hfirst hlast
    exact hrest.fresh key hlast ((h.mem_taken key).mpr (Or.inl hfirst))
  · intro key hkey
    rw [hkeys, List.mem_append] at hkey
    rcases hkey with hkey | hkey
    · exact h.fresh key hkey
    · exact fun hmem ↦ hrest.fresh key hkey ((h.mem_taken key).mpr (Or.inr hmem))
  · intro key
    rw [hrest.mem_taken, h.mem_taken, hkeys, List.mem_append]
    tauto
  · obtain ⟨hrenamed, -⟩ := List.forall₂_cons.mp h.renamed
    exact List.Forall₂.cons hrenamed hrest.renamed

end Claims

/-- The claims of all methods of a file, one after the other. -/
theorem claimMethods_spec (renames : Dict String String) (taken : List DeclKey)
    (decls : List Decl) :
    ∃ claimed taken', (decls.mapM (SourceFile.claimMethod renames)).run taken = (claimed, taken') ∧
      MethodClaims renames.entries taken decls claimed taken' := by
  induction decls generalizing taken with
  | nil => exact ⟨[], taken, rfl, MethodClaims.nil⟩
  | cons decl decls ih =>
    obtain ⟨claimed, taken', hrun, hspec⟩ := claimMethod_spec renames taken decl
    obtain ⟨rest, takenLast, hrunRest, hrest⟩ := ih taken'
    refine ⟨claimed :: rest, takenLast, ?_, hspec.cons hrest⟩
    rw [List.mapM_cons, run_bind_of_run hrun, run_bind_of_run hrunRest]
    rfl

/-! ### Tables of numbered names -/

namespace Renames

variable {renames : Renames}

theorem apply_eq_or_mem (renames : Renames) (name : String) :
    renames.apply name = name ∨ (name, renames.apply name) ∈ renames := by
  unfold apply
  cases hlookup : renames.lookup name with
  | none => exact Or.inl rfl
  | some new =>
    obtain ⟨before, after, rfl, -⟩ := List.lookup_eq_some_iff.mp hlookup
    exact Or.inr (List.mem_append_right _ List.mem_cons_self)

/-- A table that gives numbered names, to other names than blank ones and initializers. -/
structure Numbering (renames : Renames) : Prop where
  numbered : ∀ entry ∈ renames, IsNumbered entry.1 entry.2
  notInit : ∀ entry ∈ renames, entry.1 ≠ "init"
  notBlank : ∀ entry ∈ renames, entry.1 ≠ "_"

theorem Numbering.apply (h : Numbering renames) (name : String) :
    renames.apply name = name ∨ IsNumbered name (renames.apply name) :=
  (apply_eq_or_mem renames name).imp_right (h.numbered _)

/-- A name that is too short for a numbered one and has no new name is the image of itself only. -/
theorem Numbering.apply_eq_iff (h : Numbering renames) {reserved : String}
    (hsource : ∀ entry ∈ renames, entry.1 ≠ reserved) (hshort : reserved.toList.length ≤ 8)
    (name : String) : renames.apply name = reserved ↔ name = reserved := by
  constructor
  · intro hname
    rcases h.apply name with hself | hnumbered
    · rwa [hself] at hname
    · rw [hname] at hnumbered
      exact absurd hnumbered.length (Nat.not_lt.mpr hshort)
  · rintro rfl
    exact Renames.apply_eq_self hsource

theorem Numbering.keepsInit (h : Numbering renames) : DeclKey.KeepsInit renames :=
  h.apply_eq_iff h.notInit (by decide)

theorem Numbering.apply_blank (h : Numbering renames) (name : String) :
    renames.apply name = "_" ↔ name = "_" :=
  h.apply_eq_iff h.notBlank (by decide) name

end Renames

/-! ### Changed names -/

theorem exists_of_forall₂ {α β : Type} {R : α → β → Prop} {left : List α} {right : List β} {b : β}
    (h : List.Forall₂ R left right) (hb : b ∈ right) : ∃ a ∈ left, R a b := by
  induction h with
  | nil => cases hb
  | cons hhead _ ih =>
    rcases List.mem_cons.mp hb with rfl | hb
    · exact ⟨_, List.mem_cons_self, hhead⟩
    · obtain ⟨a, ha, hr⟩ := ih hb
      exact ⟨a, List.mem_cons_of_mem _ ha, hr⟩

/-- Declared names before and after renaming: those that changed are numbered now, and there are
this many of them. -/
structure NamesChanged (old new : List String) (count : Nat) : Prop where
  numbered : List.Forall₂ (fun old new ↦ new = old ∨ IsNumbered old new) old new
  count_eq : (old.zip new).countP (fun pair ↦ pair.1 != pair.2) = count

namespace NamesChanged

variable {old new old' new' : List String} {count count' : Nat}

theorem append (h : NamesChanged old new count) (h' : NamesChanged old' new' count') :
    NamesChanged (old ++ old') (new ++ new') (count + count') where
  numbered := List.rel_append h.numbered h'.numbered
  count_eq := by
    rw [List.zip_append h.numbered.length_eq, List.countP_append, h.count_eq, h'.count_eq]

/-- Each name under the name that a function gives it. -/
theorem of_map (value : String → String) (names : List String)
    (h : ∀ name, value name = name ∨ IsNumbered name (value name)) :
    NamesChanged names (names.map value) (names.countP fun name ↦ value name != name) := by
  induction names with
  | nil => exact ⟨List.Forall₂.nil, rfl⟩
  | cons name rest ih =>
    constructor
    · exact List.Forall₂.cons (h name) ih.numbered
    · have hcomm : (name != value name) = (value name != name) := bne_comm
      rw [List.map_cons, List.zip_cons_cons, List.countP_cons, ih.count_eq, List.countP_cons, hcomm]

theorem refl (names : List String) : NamesChanged names names 0 := by
  have h := of_map id names fun name ↦ Or.inl rfl
  rw [List.map_id] at h
  simpa using h

theorem singleton {before after : String} {changed : Bool}
    (h : if changed then IsNumbered before after else after = before) :
    NamesChanged [before] [after] (if changed then 1 else 0) := by
  cases changed with
  | false =>
    cases (show after = before from h)
    exact refl [before]
  | true =>
    have hne : after ≠ before := IsNumbered.ne h
    refine ⟨List.Forall₂.cons (Or.inr h) List.Forall₂.nil, ?_⟩
    simp [hne.symm]

/-- No name becomes blank. -/
theorem blank_mem (h : NamesChanged old new count) (hmem : "_" ∈ new) : "_" ∈ old := by
  obtain ⟨name, hname, hrenamed⟩ := exists_of_forall₂ h.numbered hmem
  rcases hrenamed with rfl | hnumbered
  · exact hname
  · exact absurd hnumbered.length (by decide)

end NamesChanged

end PackageAtlas
