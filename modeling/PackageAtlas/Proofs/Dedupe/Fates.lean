import PackageAtlas.Proofs.Dedupe.Traces

/-!
What the claims of methods leave of the names of a file. A method gets the name that its own claim
led to, and every other name is left to the table of the new names of its file. A name and what
becomes of it are kept together, with the key under which it counts.
-/

set_option autoImplicit false
set_option relaxedAutoImplicit false

namespace PackageAtlas

open DeclKey

/-! ### Names and what declares them -/

/-- What declares a name: a spec, a function, or a method of a type, which goes without a name in a
broken receiver. -/
inductive Declarer where
  | spec
  | function
  | method (base : Option String)
deriving DecidableEq

/-- A name at the top level of a file. -/
structure DeclaredName where
  name : String
  declarer : Declarer
deriving DecidableEq

namespace DeclaredName

/-- The key under which a name can be claimed. -/
def claim? : DeclaredName → Option DeclKey
  | ⟨name, .method base⟩ => base.map fun base ↦ ⟨some base, name⟩
  | ⟨name, _⟩ => some ⟨none, name⟩

theorem name_of_claim? {declared : DeclaredName} {key : DeclKey}
    (h : declared.claim? = some key) : key.name = declared.name := by
  obtain ⟨name, _ | _ | _ | base⟩ := declared <;> cases h <;> rfl

/-- Whether a name is told apart from others. Blank names and initializers are not. -/
def IsKeyed (declared : DeclaredName) : Prop :=
  declared.name ≠ "_" ∧ declared ≠ ⟨"init", .function⟩

instance : DecidablePred IsKeyed := fun declared ↦
  inferInstanceAs (Decidable (declared.name ≠ "_" ∧ declared ≠ ⟨"init", .function⟩))

/-- The key of a name that is told apart. -/
def key? (declared : DeclaredName) : Option DeclKey :=
  if declared.IsKeyed then declared.claim? else none

/-- A name under new names. A method keeps its name, and its type gets the new one. -/
def rename (renames : Renames) : DeclaredName → DeclaredName
  | ⟨name, .method base⟩ => ⟨name, .method (base.map renames.apply)⟩
  | ⟨name, declarer⟩ => ⟨renames.apply name, declarer⟩

end DeclaredName

/-- The names that a declaration declares. -/
def Decl.declared : Decl → List DeclaredName
  | .gen decl => (decl.specs.flatMap ofSpec).map fun key ↦ ⟨key.name, .spec⟩
  | .func decl => [⟨decl.name.name,
    if decl.receiver.isSome then .method (decl.receiverBase?.map (·.name)) else .function⟩]

/-- The names that a file declares. -/
def SourceFile.declared (file : SourceFile) : List DeclaredName := file.decls.flatMap Decl.declared

theorem Decl.declared_onDecl (renames : Renames) (decl : Decl) (count : Nat) :
    Decl.declared ((renames.onDecl decl).run count).1 =
      decl.declared.map (DeclaredName.rename renames) := by
  cases decl with
  | gen decl =>
    obtain ⟨info, kind, specs⟩ := decl
    change (((renames.onSpecs specs).run count).1.flatMap ofSpec).map _ = _
    rw [ofSpecs_onSpecs, Decl.declared, List.map_map, List.map_map]
    refine List.map_congr_left fun key hkey ↦ ?_
    obtain ⟨spec, -, hspec⟩ := List.mem_flatMap.mp hkey
    have howner := owner_of_mem_ofSpec hspec
    obtain ⟨owner, name⟩ := key
    cases howner
    rfl
  | func decl =>
    change [DeclaredName.mk ((renames.onFuncDecl decl).run count).1.name.name
      (if ((renames.onFuncDecl decl).run count).1.receiver.isSome then
        .method (((renames.onFuncDecl decl).run count).1.receiverBase?.map (·.name))
        else .function)] = _
    rw [Renames.receiver_onFuncDecl, Renames.receiverBase?_onFuncDecl, Decl.declared]
    cases hreceiver : decl.receiver with
    | none =>
      rw [Renames.name_onFuncDecl_function hreceiver]
      rfl
    | some receiver =>
      rw [Renames.name_onFuncDecl_method (by rw [hreceiver]; rfl), Option.map_map]
      simp only [Option.isSome_some, if_true, List.map_cons, List.map_nil, DeclaredName.rename,
        Option.map_map]
      rfl

/-- A file under new names declares the new names of what it declared. -/
theorem SourceFile.declared_rename (file : SourceFile) (renames : Renames) :
    (file.rename renames).1.declared = file.declared.map (DeclaredName.rename renames) := by
  change ((file.decls.mapM renames.onDecl).run 0).1.flatMap Decl.declared = _
  rw [Renames.flatMap_mapM_run_fst (Decl.declared_onDecl renames) file.decls 0, declared,
    List.map_flatMap]

/-! ### Names before and after -/

/-- A declared name before and after the names are told apart, and whether its file is left out of
the build. -/
structure NameFate where
  isExcluded : Bool
  old : DeclaredName
  new : DeclaredName
deriving DecidableEq

namespace NameFate

def Changed (fate : NameFate) : Prop := fate.new.name ≠ fate.old.name

instance : DecidablePred Changed := fun fate ↦
  inferInstanceAs (Decidable (fate.new.name ≠ fate.old.name))

/-- The key under which the name was claimed: a method counts under the new name of its type. -/
def claim? (fate : NameFate) : Option DeclKey :=
  DeclaredName.claim? ⟨fate.old.name, fate.new.declarer⟩

/-- The key of a name that is told apart, under the new name of its type. -/
def key? (fate : NameFate) : Option DeclKey := if fate.old.IsKeyed then fate.claim? else none

/-- The fate of a name of an excluded file under new names. -/
def renamed (renames : Renames) (declared : DeclaredName) : NameFate :=
  ⟨true, declared, declared.rename renames⟩

/-- The fate of a method whose claim led to this. -/
def claimed (renames : Renames) (name base : String) (result : Option String) : NameFate :=
  ⟨true, ⟨name, .method (some base)⟩, ⟨result.getD name, .method (some (renames.apply base))⟩⟩

end NameFate

/-! ### Methods and the other declarations -/

/-- The type that a method is declared for. -/
def Decl.methodBase? : Decl → Option Ident
  | .gen _ => none
  | .func decl => decl.receiverBase?

/-- What the claims of methods did to some declarations, and what becomes of the names of these with
a table of new names. -/
inductive MethodsClaimed (renames : Renames) :
    List Decl → List (Decl × Bool) → List ClaimedKey → List NameFate → Prop
  | nil : MethodsClaimed renames [] [] [] []
  | other {decl : Decl} {decls : List Decl} {claimed : List (Decl × Bool)}
    {trace : List ClaimedKey} {fates : List NameFate} (hbase : decl.methodBase? = none)
    (hrest : MethodsClaimed renames decls claimed trace fates) :
    MethodsClaimed renames (decl :: decls) ((decl, false) :: claimed) trace
      (decl.declared.map (NameFate.renamed renames) ++ fates)
  | method {func : FuncDecl} {base : Ident} {decls : List Decl} {claimed : List (Decl × Bool)}
    {trace : List ClaimedKey} {fates : List NameFate} (hbase : func.receiverBase? = some base)
    (result : Option String) (hrest : MethodsClaimed renames decls claimed trace fates) :
    MethodsClaimed renames (.func func :: decls)
      ((.func { func with name.name := result.getD func.name.name }, result.isSome) :: claimed)
      ((⟨some (renames.apply base.name), func.name.name⟩, result) :: trace)
      (.claimed renames func.name.name base.name result :: fates)

theorem claimMethods_traced (renames : Dict String String) (decls : List Decl)
    (taken : List DeclKey) :
    ∃ claimed trace taken' fates,
      (decls.mapM (SourceFile.claimMethod renames)).run taken = (claimed, taken') ∧
      Claims taken trace taken' ∧ MethodsClaimed renames.entries decls claimed trace fates := by
  induction decls generalizing taken with
  | nil => exact ⟨[], [], taken, [], rfl, .nil taken, .nil⟩
  | cons decl decls ih =>
    rw [List.mapM_cons]
    cases hbase : decl.methodBase? with
    | none =>
      obtain ⟨claimed, trace, taken', fates, hrun, htrace, hclaimed⟩ := ih taken
      have hdecl : (SourceFile.claimMethod renames decl).run taken = ((decl, false), taken) := by
        cases decl with
        | gen decl => rfl
        | func func =>
          have hnone : func.receiverBase? = none := hbase
          simp only [SourceFile.claimMethod, hnone]
          rfl
      refine ⟨_, trace, taken', _, ?_, htrace, .other hbase hclaimed⟩
      rw [run_bind_of_run hdecl, run_bind_of_run hrun]
      rfl
    | some base =>
      cases decl with
      | gen decl => cases hbase
      | func func =>
        have hsome : func.receiverBase? = some base := hbase
        obtain ⟨result, taken', hclaim⟩ : ∃ result taken',
            (DeclKey.mk (some ((renames.find? base.name).getD base.name))
              func.name.name).claim.run taken = (result, taken') := ⟨_, _, rfl⟩
        obtain ⟨claimed, trace, last, fates, hrun, htrace, hclaimed⟩ := ih taken'
        refine ⟨_, _, last, _, ?_, .cons hclaim htrace, .method hsome result hclaimed⟩
        have hdecl : (SourceFile.claimMethod renames (.func func)).run taken =
            ((.func { func with name.name := result.getD func.name.name }, result.isSome),
              taken') := by
          simp only [SourceFile.claimMethod, hsome]
          rw [run_bind_of_run hclaim]
          cases result <;> rfl
        rw [run_bind_of_run hdecl, run_bind_of_run hrun]
        rfl

theorem Decl.declared_method {func : FuncDecl} {base : Ident}
    (hbase : func.receiverBase? = some base) (name : Ident) :
    Decl.declared (.func { func with name }) = [⟨name.name, .method (some base.name)⟩] := by
  have hnew : ({ func with name } : FuncDecl).receiverBase? = some base := hbase
  rw [Decl.declared, if_pos (FuncDecl.receiver_isSome_of_base hnew), hnew, Option.map_some]

/-- The keys of the names of a declaration. -/
theorem Decl.filterMap_key?_declared (decl : Decl) :
    decl.declared.filterMap DeclaredName.key? = (ofDecl decl).filter (·.name != "_") := by
  cases decl with
  | gen decl =>
    rw [Decl.declared, ofDecl, List.filterMap_map, ← List.filterMap_eq_filter]
    refine List.filterMap_congr fun key hkey ↦ ?_
    obtain ⟨spec, -, hspec⟩ := List.mem_flatMap.mp hkey
    have howner := owner_of_mem_ofSpec hspec
    obtain ⟨owner, name⟩ := key
    cases howner
    by_cases hname : name = "_" <;>
      simp [DeclaredName.key?, DeclaredName.IsKeyed, DeclaredName.claim?, Option.guard, hname]
  | func func =>
    by_cases hname : func.name.name = "_" <;> cases hreceiver : func.receiver with
    | none =>
      by_cases hinit : func.name.name = "init" <;>
        simp [Decl.declared, hreceiver, DeclaredName.key?, DeclaredName.IsKeyed,
          DeclaredName.claim?, ofDecl, ofFunc?, hname, hinit]
    | some receiver =>
      cases hbase : func.receiverBase? <;>
        simp [Decl.declared, hreceiver, hbase, DeclaredName.key?, DeclaredName.IsKeyed,
          DeclaredName.claim?, ofDecl, ofFunc?, hname]

theorem SourceFile.filterMap_key?_declared (file : SourceFile) :
    file.declared.filterMap DeclaredName.key? = ofFile file := by
  rw [declared, ofFile, List.filterMap_flatMap, List.filter_flatMap]
  exact List.flatMap_congr fun decl _ ↦ decl.filterMap_key?_declared

theorem plainKeys_of_methodBase? {decl : Decl} (h : decl.methodBase? = none) :
    plainKeys [decl] = ofDecl decl := by
  cases decl with
  | gen decl => exact plainKeys_gen decl
  | func func =>
    have hnone : func.receiverBase? = none := h
    by_cases hinit : func.name.name = "init" <;> cases hreceiver : func.receiver <;>
      simp [plainKeys, ofDecl, ofFunc?, hreceiver, hnone, hinit]

theorem Decl.declarer_ne_method {decl : Decl} {declared : DeclaredName}
    (h : decl.methodBase? = none) (hdeclared : declared ∈ decl.declared) (base : String) :
    declared.declarer ≠ .method (some base) := by
  intro hdeclarer
  cases decl with
  | gen decl =>
    obtain ⟨key, -, rfl⟩ := List.mem_map.mp hdeclared
    cases hdeclarer
  | func func =>
    have hnone : func.receiverBase? = none := h
    rw [Decl.declared, hnone, List.mem_singleton] at hdeclared
    subst hdeclared
    split at hdeclarer <;> cases hdeclarer

/-- Names that are left to the table keep their keys. -/
theorem filterMap_key?_renamed (renames : Renames) {decl : Decl} (h : decl.methodBase? = none) :
    (decl.declared.map (NameFate.renamed renames)).filterMap NameFate.key? =
      (plainKeys [decl]).filter (·.name != "_") := by
  rw [plainKeys_of_methodBase? h, ← decl.filterMap_key?_declared, List.filterMap_map]
  refine List.filterMap_congr fun declared hdeclared ↦ ?_
  have hdeclarer := Decl.declarer_ne_method h hdeclared
  obtain ⟨name, _ | _ | _ | base⟩ := declared
  · rfl
  · rfl
  · rfl
  · exact absurd rfl (hdeclarer base)

namespace MethodsClaimed

variable {renames : Renames} {decls : List Decl} {claimed : List (Decl × Bool)}
  {trace : List ClaimedKey} {fates : List NameFate} {fate : NameFate}

theorem map_old (h : MethodsClaimed renames decls claimed trace fates) :
    fates.map (·.old) = decls.flatMap Decl.declared := by
  induction h with
  | nil => rfl
  | other _ _ ih =>
    rw [List.map_append, ih, List.map_map, List.flatMap_cons]
    exact congrArg (· ++ _) (List.map_id _)
  | @method func base decls claimed trace fates hbase result _ ih =>
    have hdeclared := Decl.declared_method hbase func.name
    rw [List.map_cons, ih, List.flatMap_cons]
    exact congrArg (· ++ _) hdeclared.symm

theorem map_new (h : MethodsClaimed renames decls claimed trace fates) :
    fates.map (·.new) =
      ((claimed.map Prod.fst).flatMap Decl.declared).map (DeclaredName.rename renames) := by
  induction h with
  | nil => rfl
  | other _ _ ih =>
    rw [List.map_append, ih, List.map_map, List.map_cons, List.flatMap_cons, List.map_append]
    rfl
  | method hbase result _ ih =>
    rw [List.map_cons, ih, List.map_cons, List.flatMap_cons, Decl.declared_method hbase,
      List.map_append]
    rfl

theorem isExcluded (h : MethodsClaimed renames decls claimed trace fates) :
    ∀ fate ∈ fates, fate.isExcluded = true := by
  induction h with
  | nil => exact fun _ hfate ↦ absurd hfate List.not_mem_nil
  | other _ _ ih =>
    intro fate hfate
    rcases List.mem_append.mp hfate with hfate | hfate
    · obtain ⟨declared, -, rfl⟩ := List.mem_map.mp hfate
      rfl
    · exact ih fate hfate
  | method _ _ _ ih =>
    intro fate hfate
    rcases List.mem_cons.mp hfate with rfl | hfate
    · rfl
    · exact ih fate hfate

/-- The keys of the names are those of the package-level names and those of the claims of methods,
but for blank names. -/
theorem keys_perm (h : MethodsClaimed renames decls claimed trace fates) :
    (fates.filterMap NameFate.key?).Perm
      ((plainKeys decls ++ trace.map Prod.fst).filter (·.name != "_")) := by
  induction h with
  | nil => exact .refl []
  | @other decl decls claimed trace fates hbase _ ih =>
    rw [plainKeys_cons, List.append_assoc, List.filter_append, List.filterMap_append,
      filterMap_key?_renamed renames hbase]
    exact ih.append_left _
  | @method func base decls claimed trace fates hbase result _ ih =>
    rw [plainKeys_cons, plainKeys_func hbase, List.nil_append, List.map_cons]
    refine List.Perm.trans ?_ (List.perm_middle.symm.filter _)
    by_cases hname : func.name.name = "_"
    · have hnone : (NameFate.claimed renames func.name.name base.name result).key? = none := by
        simp [NameFate.claimed, NameFate.key?, DeclaredName.IsKeyed, hname]
      rw [List.filterMap_cons_none hnone, List.filter_cons_of_neg (by simpa using hname)]
      exact ih
    · have hsome : (NameFate.claimed renames func.name.name base.name result).key? =
          some ⟨some (renames.apply base.name), func.name.name⟩ := by
        simp [NameFate.claimed, NameFate.key?, NameFate.claim?, DeclaredName.IsKeyed,
          DeclaredName.claim?, hname]
      rw [List.filterMap_cons_some hsome, List.filter_cons_of_pos (by simpa using hname)]
      exact ih.cons _

/-- A name is renamed by the table, or it is that of a method and its claim tells its fate. -/
theorem fate_cases (h : MethodsClaimed renames decls claimed trace fates) (hfate : fate ∈ fates) :
    (∃ declared, fate = .renamed renames declared ∧
        ∀ base, declared.declarer ≠ .method (some base)) ∨
      ∃ name base result, fate = .claimed renames name base result ∧
        (⟨some (renames.apply base), name⟩, result) ∈ trace := by
  induction h with
  | nil => cases hfate
  | @other decl decls claimed trace fates hbase _ ih =>
    rcases List.mem_append.mp hfate with hfate | hfate
    · obtain ⟨declared, hdeclared, rfl⟩ := List.mem_map.mp hfate
      exact Or.inl ⟨declared, rfl, Decl.declarer_ne_method hbase hdeclared⟩
    · exact ih hfate
  | method _ _ _ ih =>
    rcases List.mem_cons.mp hfate with rfl | hfate
    · exact Or.inr ⟨_, _, _, rfl, List.mem_cons_self⟩
    · exact (ih hfate).imp_right fun ⟨name, base, result, heq, hmem⟩ ↦
        ⟨name, base, result, heq, List.mem_cons_of_mem _ hmem⟩

/-- Each claim of a method is that of a name. -/
theorem exists_fate (h : MethodsClaimed renames decls claimed trace fates) {key : DeclKey}
    {result : Option String} (hclaim : (key, result) ∈ trace) :
    ∃ name base, .claimed renames name base result ∈ fates ∧
      key = ⟨some (renames.apply base), name⟩ := by
  induction h with
  | nil => cases hclaim
  | other _ _ ih =>
    obtain ⟨name, base, hfate, hkey⟩ := ih hclaim
    exact ⟨name, base, List.mem_append_right _ hfate, hkey⟩
  | method _ _ _ ih =>
    rcases List.mem_cons.mp hclaim with heq | hclaim
    · cases heq
      exact ⟨_, _, List.mem_cons_self, rfl⟩
    · obtain ⟨name, base, hfate, hkey⟩ := ih hclaim
      exact ⟨name, base, List.mem_cons_of_mem _ hfate, hkey⟩

end MethodsClaimed

end PackageAtlas
