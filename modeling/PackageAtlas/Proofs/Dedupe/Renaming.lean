import PackageAtlas.Load.Dedupe

/-!
Renaming and the keys of declarations. A table of new names acts on the names that a declaration
declares and on the type of a receiver, and on nothing else that a key is made of. The empty table
leaves every tree as it is.
-/

set_option autoImplicit false
set_option relaxedAutoImplicit false

namespace PackageAtlas

namespace Renames

/-- The name that stands for a name. -/
def apply (renames : Renames) (name : String) : String := (renames.lookup name).getD name

/-- An identifier under its new name. -/
def renamed (renames : Renames) (ident : Ident) : Ident :=
  { ident with name := renames.apply ident.name }

theorem onIdent_run_fst (renames : Renames) (ident : Ident) (count : Nat) :
    ((renames.onIdent ident).run count).1 = renames.renamed ident := by
  unfold onIdent renamed apply
  cases renames.lookup ident.name <;> rfl

/-- What a step computes for a list when its results do not depend on the count. -/
theorem mapM_run_fst {α β : Type} {step : α → StateM Nat β} {value : α → β} {list : List α}
    (h : ∀ a ∈ list, ∀ count, ((step a).run count).1 = value a) (count : Nat) :
    ((list.mapM step).run count).1 = list.map value := by
  induction list generalizing count with
  | nil => rfl
  | cons a rest ih =>
    have hrest := ih (fun b hb ↦ h b (List.mem_cons_of_mem a hb)) ((step a).run count).2
    rw [List.mapM_cons, List.map_cons, ← h a List.mem_cons_self count, ← hrest]
    rfl

/-- What steps collect from a list when it does not depend on the count. -/
theorem flatMap_mapM_run_fst {α β γ : Type} {step : α → StateM Nat β} {collect : β → List γ}
    {value : α → List γ} (h : ∀ a count, collect ((step a).run count).1 = value a) (list : List α)
    (count : Nat) : ((list.mapM step).run count).1.flatMap collect = list.flatMap value := by
  induction list generalizing count with
  | nil => rfl
  | cons a rest ih =>
    have hrest := ih ((step a).run count).2
    rw [List.mapM_cons, List.flatMap_cons, ← h a count, ← hrest]
    rfl

theorem onIdents_run_fst (renames : Renames) (idents : List Ident) (count : Nat) :
    ((renames.onIdents idents).run count).1 = idents.map renames.renamed :=
  mapM_run_fst (fun ident _ count ↦ onIdent_run_fst renames ident count) count

/-! ### Receivers -/

/-- Whether an expression stands in parentheses. -/
def isParen : Expr → Bool
  | .paren .. => true
  | _ => false

theorem isParen_unparen (expr : Expr) : isParen expr.unparen = false := by
  fun_induction Expr.unparen expr with
  | case1 info inner ih => exact ih
  | case2 expr h =>
    cases expr with
    | paren info inner => exact absurd rfl (h info inner)
    | _ => rfl

theorem exists_onExpr_unparen (renames : Renames) (expr : Expr) (count : Nat) :
    ∃ inner, ((renames.onExpr expr).run count).1.unparen =
      ((renames.onExpr expr.unparen).run inner).1.unparen := by
  fun_induction Expr.unparen expr with
  | case1 info inner ih => exact ih
  | case2 expr h => exact ⟨count, rfl⟩

theorem isParen_onExpr (renames : Renames) (expr : Expr) (count : Nat) :
    isParen ((renames.onExpr expr).run count).1 = isParen expr := by
  cases expr <;> rfl

theorem unparen_of_not_isParen {expr : Expr} (h : isParen expr = false) : expr.unparen = expr := by
  cases expr with
  | paren info inner => cases h
  | _ => rfl

theorem ident?_onExpr (renames : Renames) (expr : Expr) (count : Nat) :
    ((renames.onExpr expr).run count).1.ident? = expr.ident?.map renames.renamed := by
  cases expr with
  | ident ident => exact congrArg some (onIdent_run_fst renames ident count)
  | _ => rfl

theorem ident?_unparen_onExpr (renames : Renames) (expr : Expr) (count : Nat) :
    ((renames.onExpr expr).run count).1.unparen.ident? =
      expr.unparen.ident?.map renames.renamed := by
  obtain ⟨inner, hinner⟩ := exists_onExpr_unparen renames expr count
  have hparen : isParen ((renames.onExpr expr.unparen).run inner).1 = false := by
    rw [isParen_onExpr, isParen_unparen]
  rw [hinner, unparen_of_not_isParen hparen, ident?_onExpr]

/-- The base of a receiver written as this type. -/
def baseOf? (type : Expr) : Option Ident :=
  match type.unparen with
  | .ident i => some i
  | .star _ operand => operand.unparen.ident?
  | _ => none

theorem baseOf?_onExpr (renames : Renames) (type : Expr) (count : Nat) :
    baseOf? ((renames.onExpr type).run count).1 = (baseOf? type).map renames.renamed := by
  obtain ⟨inner, hinner⟩ := exists_onExpr_unparen renames type count
  have hparen : isParen ((renames.onExpr type.unparen).run inner).1 = false := by
    rw [isParen_onExpr, isParen_unparen]
  unfold baseOf?
  rw [hinner, unparen_of_not_isParen hparen]
  cases type.unparen with
  | ident ident => exact congrArg some (onIdent_run_fst renames ident inner)
  | star info operand => exact ident?_unparen_onExpr renames operand inner
  | _ => rfl

theorem receiver_onFuncDecl (renames : Renames) (decl : FuncDecl) (count : Nat) :
    ((renames.onFuncDecl decl).run count).1.receiver.isSome = decl.receiver.isSome := by
  obtain ⟨info, receiver, name, type, body⟩ := decl
  cases receiver <;> rfl

theorem receiverBase?_onFuncDecl (renames : Renames) (decl : FuncDecl) (count : Nat) :
    ((renames.onFuncDecl decl).run count).1.receiverBase? =
      decl.receiverBase?.map renames.renamed := by
  obtain ⟨info, receiver, name, type, body⟩ := decl
  cases receiver with
  | none => rfl
  | some receiver =>
    obtain ⟨info, names, type⟩ := receiver
    exact baseOf?_onExpr renames type _

theorem name_onFuncDecl_method {decl : FuncDecl} (h : decl.receiver.isSome) (renames : Renames)
    (count : Nat) : ((renames.onFuncDecl decl).run count).1.name = decl.name := by
  obtain ⟨info, receiver, name, type, body⟩ := decl
  cases receiver with
  | none => cases h
  | some receiver => rfl

theorem name_onFuncDecl_function {decl : FuncDecl} (h : decl.receiver = none) (renames : Renames)
    (count : Nat) :
    ((renames.onFuncDecl decl).run count).1.name = renames.renamed decl.name := by
  obtain ⟨info, receiver, name, type, body⟩ := decl
  cases h
  exact onIdent_run_fst renames name count

end Renames

/-! ### Keys -/

namespace DeclKey

/-- A key under new names: a package-level name changes, and so does the type of a receiver, but
the name of a method does not. -/
def rename (renames : Renames) : DeclKey → DeclKey
  | ⟨none, name⟩ => ⟨none, renames.apply name⟩
  | ⟨some owner, name⟩ => ⟨some (renames.apply owner), name⟩

theorem owner_isNone_rename (renames : Renames) (key : DeclKey) :
    (key.rename renames).owner.isNone = key.owner.isNone := by
  obtain ⟨_ | owner, name⟩ := key <;> rfl

/-- A table that neither makes initializers nor renames them. -/
def KeepsInit (renames : Renames) : Prop :=
  ∀ name, renames.apply name = "init" ↔ name = "init"

theorem ofFunc?_onFuncDecl {renames : Renames} (hinit : KeepsInit renames) (decl : FuncDecl)
    (count : Nat) :
    ofFunc? ((renames.onFuncDecl decl).run count).1 = (ofFunc? decl).map (rename renames) := by
  unfold ofFunc?
  rw [Renames.receiver_onFuncDecl, Renames.receiverBase?_onFuncDecl]
  cases hreceiver : decl.receiver with
  | none =>
    rw [Renames.name_onFuncDecl_function hreceiver]
    by_cases hname : decl.name.name = "init"
    · simp [Renames.renamed, hname, (hinit "init").mpr rfl]
    · have hnew : renames.apply decl.name.name ≠ "init" := fun h ↦ hname ((hinit _).mp h)
      simp [Renames.renamed, hname, hnew, rename]
  | some receiver =>
    have hmethod : decl.receiver.isSome := by rw [hreceiver]; rfl
    rw [Renames.name_onFuncDecl_method hmethod]
    cases decl.receiverBase? <;> rfl

theorem ofSpec_onSpec (renames : Renames) (spec : Spec) (count : Nat) :
    ofSpec ((renames.onSpec spec).run count).1 = (ofSpec spec).map (rename renames) := by
  cases spec with
  | imports spec => rfl
  | value spec =>
    obtain ⟨info, names, type, values⟩ := spec
    have hnames := Renames.onIdents_run_fst renames names count
    change (((renames.onIdents names).run count).1.map fun name ↦ (⟨none, name.name⟩ : DeclKey)) = _
    rw [hnames, ofSpec, List.map_map, List.map_map]
    rfl
  | type spec =>
    obtain ⟨info, name, isAlias, type⟩ := spec
    have hname := Renames.onIdent_run_fst renames name count
    change [(⟨none, ((renames.onIdent name).run count).1.name⟩ : DeclKey)] = _
    rw [hname]
    rfl

theorem ofSpecs_onSpecs (renames : Renames) (specs : List Spec) (count : Nat) :
    ((renames.onSpecs specs).run count).1.flatMap ofSpec =
      (specs.flatMap ofSpec).map (rename renames) := by
  induction specs generalizing count with
  | nil => rfl
  | cons spec rest ih =>
    have hspec := ofSpec_onSpec renames spec count
    have hrest := ih ((renames.onSpec spec).run count).2
    rw [List.flatMap_cons, List.map_append, ← hspec, ← hrest]
    rfl

theorem ofDecl_onDecl {renames : Renames} (hinit : KeepsInit renames) (decl : Decl)
    (count : Nat) :
    ofDecl ((renames.onDecl decl).run count).1 = (ofDecl decl).map (rename renames) := by
  cases decl with
  | gen decl =>
    obtain ⟨info, kind, specs⟩ := decl
    exact ofSpecs_onSpecs renames specs count
  | func decl =>
    have hfunc := ofFunc?_onFuncDecl hinit decl count
    change (ofFunc? ((renames.onFuncDecl decl).run count).1).toList = _
    rw [hfunc, ofDecl]
    cases ofFunc? decl <;> rfl

end DeclKey

/-! ### Declared names -/

/-- The names that a declaration declares, blank ones and initializers among them. -/
def Decl.declaredNames : Decl → List String
  | .gen decl => (decl.specs.flatMap DeclKey.ofSpec).map (·.name)
  | .func decl => [decl.name.name]

/-- The names that a file declares at the top level, in their order. -/
def SourceFile.declaredNames (file : SourceFile) : List String :=
  file.decls.flatMap Decl.declaredNames

theorem DeclKey.owner_of_mem_ofSpec {spec : Spec} {key : DeclKey} (h : key ∈ ofSpec spec) :
    key.owner = none := by
  cases spec with
  | imports spec => cases h
  | value spec =>
    obtain ⟨name, -, rfl⟩ := List.mem_map.mp h
    rfl
  | type spec => rw [List.mem_singleton.mp h]

theorem DeclKey.map_name_rename (renames : Renames) {keys : List DeclKey}
    (h : ∀ key ∈ keys, key.owner = none) :
    (keys.map (rename renames)).map (·.name) = (keys.map (·.name)).map renames.apply := by
  rw [List.map_map, List.map_map]
  refine List.map_congr_left fun key hkey ↦ ?_
  obtain ⟨owner, name⟩ := key
  cases h _ hkey
  rfl

/-- Whether a declaration is a function or a method. -/
def Decl.isFunc : Decl → Bool
  | .gen _ => false
  | .func _ => true

/-- Whether a declaration is a method. -/
def Decl.isMethod : Decl → Bool
  | .gen _ => false
  | .func decl => decl.receiver.isSome

theorem Decl.declaredNames_onDecl (renames : Renames) (decl : Decl) (count : Nat) :
    Decl.declaredNames ((renames.onDecl decl).run count).1 =
      if decl.isMethod then decl.declaredNames else decl.declaredNames.map renames.apply := by
  cases decl with
  | gen decl =>
    obtain ⟨info, kind, specs⟩ := decl
    have howner : ∀ key ∈ specs.flatMap DeclKey.ofSpec, key.owner = none := by
      intro key hkey
      obtain ⟨spec, -, hspec⟩ := List.mem_flatMap.mp hkey
      exact DeclKey.owner_of_mem_ofSpec hspec
    change (((renames.onSpecs specs).run count).1.flatMap DeclKey.ofSpec).map (·.name) = _
    rw [DeclKey.ofSpecs_onSpecs, DeclKey.map_name_rename renames howner]
    rfl
  | func decl =>
    change [((renames.onFuncDecl decl).run count).1.name.name] = _
    by_cases h : decl.receiver.isSome
    · rw [Renames.name_onFuncDecl_method h]
      simp [Decl.isMethod, Decl.declaredNames, h]
    · rw [Renames.name_onFuncDecl_function (Option.not_isSome_iff_eq_none.mp h)]
      simp [Decl.isMethod, Decl.declaredNames, h, Renames.renamed]

end PackageAtlas
