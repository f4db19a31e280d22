import PackageAtlas.Proofs.Resolution.StmtRules
import PackageAtlas.Check.DeclRules

/-!
The rules that resolve a package-level symbol on demand, and the look at what is imported. What is
being resolved is noted and taken back, and the context of the declaration gives way to the one
before, so that a resolution leaves both as they were.
-/

set_option autoImplicit false
set_option relaxedAutoImplicit false

namespace PackageAtlas

open Check CheckRule

variable {inv inv' : CheckState → Prop} {hangs : Prop} {reach : Reach} {c : Checker}

/-! ### Imports -/

theorem sees_importedScope (path : String) :
    Sees (importedScope path) fun input _ ↦
      if path = foreignPath && input.fakeForeign then .ok (PackageScope.fake foreignPath)
      else input.importer path := by
  intro input s
  change (if path = foreignPath && input.fakeForeign then _ else _ : Check _) input s = _
  dsimp only
  split <;> rfl

/-! ### While a symbol is resolved -/

/-- A step during which a type counts as being resolved. -/
def Check.resolving (id : SymbolId) (step : Check Unit) : Check Unit :=
  Check.between (fun s ↦ { s with resolving := id :: s.resolving })
    (fun s ↦ { s with resolving := s.resolving.erase id }) step

/-- A step during which a group counts as being resolved. -/
def Check.resolvingGroup (number : Nat) (step : Check Unit) : Check Unit :=
  Check.between (fun s ↦ { s with resolvingGroups := number :: s.resolvingGroups })
    (fun s ↦ { s with resolvingGroups := s.resolvingGroups.erase number }) step

theorem RunsAt.resolving {input : CheckInput} {s : CheckState} {id : SymbolId} {step : Check Unit}
    (h : RunsAt hangs .nothing input { s with resolving := id :: s.resolving } step) :
    RunsAt hangs .nothing input s (Check.resolving id step) := by
  refine RunsAt.between _ _ h fun later hlater ↦ ⟨⟨hlater.lasts.store, hlater.lasts.collected, ?_,
    hlater.lasts.resolvingGroups, hlater.lasts.reports, hlater.lasts.info⟩, hlater.context⟩
  rw [hlater.lasts.resolving]
  exact List.erase_cons_head ..

theorem RunsAt.resolvingGroup {input : CheckInput} {s : CheckState} {number : Nat}
    {step : Check Unit}
    (h : RunsAt hangs .nothing input
      { s with resolvingGroups := number :: s.resolvingGroups } step) :
    RunsAt hangs .nothing input s (Check.resolvingGroup number step) := by
  refine RunsAt.between _ _ h fun later hlater ↦ ⟨⟨hlater.lasts.store, hlater.lasts.collected,
    hlater.lasts.resolving, ?_, hlater.lasts.reports, hlater.lasts.info⟩, hlater.context⟩
  rw [hlater.lasts.resolvingGroups]
  exact List.erase_cons_head ..

/-! ### Types, values and functions -/

theorem runs_settleType (id : SymbolId) (isAlias : Bool) (type : Ty) :
    Runs inv hangs reach (settleType id isAlias type) :=
  .ite (fun _ ↦ runs_setType id type) fun _ ↦ runs_setUnderlying id type

/-- The step that settles a type name, from the type expression of its declaration. -/
def typeStep (c : Checker) (id : SymbolId) (spec : TypeSpec) (file : Nat) : Check Unit := do
  let type ← inContext (Context.ofFile file) (c.typeExpr spec.type)
  if spec.isAlias then settleType id true type
  else settleType id false (← c.underlying type)

theorem resolveType_eq (c : Checker) (id : SymbolId) (spec : TypeSpec) (file : Nat) :
    resolveType c id spec file = (do
      let found ← symbol id
      if (if spec.isAlias then found.type.isSome else found.underlying.isSome) then return
      if (← get).resolving.contains id then
        report spec.name.pos (.recursiveType spec.name.name)
        settleType id spec.isAlias .invalid
      else Check.resolving id (typeStep c id spec file)) := by
  unfold resolveType Check.resolving Check.between typeStep
  cases spec.isAlias <;> simp only [bind_assoc, Bool.false_eq_true, if_false, if_true] <;> rfl

variable {input : CheckInput} {s : CheckState}

/-- A type name asks for its type expression only if it is not being resolved yet. -/
theorem runsAt_resolveType [Lasting inv'] {id : SymbolId} {spec : TypeSpec} {file : Nat}
    (henter : id ∉ s.resolving → inv' { s with resolving := id :: s.resolving })
    (htype : id ∉ s.resolving → Runs inv' hangs .nothing (c.typeExpr spec.type))
    (hresolve : id ∉ s.resolving → ∀ other, Runs inv' hangs .nothing (c.resolve other)) :
    RunsAt hangs .nothing input s (resolveType c id spec file) := by
  rw [resolveType_eq]
  refine .look (sees_symbol id) (.ite (fun _ ↦ .pure ()) fun _ ↦ .look sees_get ?_)
  split
  · have hcycle : Runs (fun _ ↦ True) hangs .nothing (do
        report spec.name.pos (.recursiveType spec.name.name)
        settleType id spec.isAlias .invalid) :=
      .bind (runs_report _ _) fun _ ↦ runs_settleType id _ _
    exact hcycle input s trivial
  · rename_i hnew
    have hnew : id ∉ s.resolving := fun hmem ↦ hnew (List.contains_iff_mem.mpr hmem)
    have hstep : Runs inv' hangs .nothing (typeStep c id spec file) := by
      refine .bind (.inContext (htype hnew) fun s hs ↦ Lasting.keeps hs (.ofContext s _))
        fun type ↦ .ite (fun _ ↦ runs_settleType id true type) fun _ ↦ ?_
      exact .bind (runs_underlying (hresolve hnew)) fun shape ↦ runs_settleType id false shape
    exact .resolving (hstep input _ (henter hnew))

theorem runs_cyclicValue [Stable inv reach] (id : SymbolId) :
    Runs inv hangs reach (cyclicValue id) :=
  .looking (sees_symbol id) fun _ ↦
    .ite (fun _ ↦ .bind (runs_report _ _) fun _ ↦ runs_setType id _) fun _ ↦ .pure ()

/-- The step that gives the symbols of a group their types. -/
def groupStep (c : Checker) (group : ValueGroup) : Check Unit :=
  inContext { Context.ofFile group.file with
      iota := if group.isConst then some group.iota else none } do
    initSymbols c group.symbols group.type group.values group.isConst

theorem resolveGroup_eq (c : Checker) (number : Nat) :
    resolveGroup c number = (do
      let s ← get
      let group := s.groups[number]?.getD default
      if group.symbols.all fun id ↦ (s.store.get id).type.isSome then return
      if s.resolvingGroups.contains number then group.symbols.forM cyclicValue
      else Check.resolvingGroup number (groupStep c group)) :=
  rfl

/-- A group asks for its initializers only if it is not being resolved yet. -/
theorem runsAt_resolveGroup [Lasting inv'] {number : Nat}
    (henter : number < s.groups.length → number ∉ s.resolvingGroups →
      inv' { s with resolvingGroups := number :: s.resolvingGroups })
    (hinit : ∀ group ∈ s.groups[number]?, number ∉ s.resolvingGroups →
      InitRuns inv' hangs c (group.type, group.values)) :
    RunsAt hangs .nothing input s (resolveGroup c number) := by
  rw [resolveGroup_eq]
  cases hgroup : s.groups[number]? with
  | none =>
    refine .look sees_get (.ite (fun _ ↦ .pure ()) fun hsome ↦ absurd ?_ hsome)
    rw [hgroup]
    rfl
  | some group =>
    have hlt : number < s.groups.length := (List.getElem?_eq_some_iff.mp hgroup).1
    refine .look sees_get (.ite (fun _ ↦ .pure ()) fun _ ↦ ?_)
    rw [hgroup, Option.getD_some]
    split
    · have hcycle : Runs (fun _ ↦ True) hangs .nothing (group.symbols.forM cyclicValue) :=
        .forM fun id _ ↦ runs_cyclicValue id
      exact hcycle input s trivial
    · rename_i hnew
      have hnew : number ∉ s.resolvingGroups := fun hmem ↦ hnew (List.contains_iff_mem.mpr hmem)
      have hgroup := hinit group hgroup hnew
      have hstep : Runs inv' hangs .nothing (groupStep c group) :=
        .inContext (runs_initSymbols _ _ hgroup.type hgroup.values) fun s hs ↦
          Lasting.keeps hs (.ofContext s _)
      exact .resolvingGroup (hstep input _ (henter hlt hnew))

/-- A function asks for the types of its parameters and results. -/
theorem runs_resolveFunc [Stable inv .nothing] {id : SymbolId} {decl : FuncDecl} {file : Nat}
    (henter : ∀ s, inv s → inv' { s with context := Context.ofFile file })
    [Stable inv' .nothing]
    (htype : ∀ field ∈ decl.type.params ++ decl.type.results,
      Runs inv' hangs .nothing (c.typeExpr field.type)) :
    Runs inv hangs .nothing (resolveFunc c id decl file) := by
  refine .looking (sees_symbol id) fun found ↦ .ite (fun _ ↦ ?_) fun _ ↦ .pure ()
  exact .bind (.inContext (runs_signature htype) henter) fun signature ↦ runs_setType id _

/-- A symbol is resolved by the rule for what it is pending as. -/
theorem runsAt_resolve {id : SymbolId}
    (htype : ∀ spec file, s.pending.find? id = some (.type spec file) →
      RunsAt hangs .nothing input s (resolveType c id spec file))
    (hvalue : ∀ number, s.pending.find? id = some (.value number) →
      RunsAt hangs .nothing input s (resolveGroup c number))
    (hfunc : ∀ decl file, s.pending.find? id = some (.func decl file) →
      RunsAt hangs .nothing input s (resolveFunc c id decl file)) :
    RunsAt hangs .nothing input s (resolve c id) := by
  refine .look sees_get ?_
  cases hpending : s.pending.find? id with
  | none => exact .pure ()
  | some pending =>
    cases pending with
    | type spec file => exact htype spec file hpending
    | value number => exact hvalue number hpending
    | func decl file => exact hfunc decl file hpending

/-! ### Bodies -/

theorem runs_declareReceiver [Lasting inv] {receiver : Field}
    (h : Runs inv hangs .nothing (c.typeExpr receiver.type)) :
    Runs inv hangs .names (declareReceiver c receiver) :=
  .bind (.ofNothing h) fun type ↦ .forM fun name _ ↦
    .bind (runs_addVariable name type false) fun id ↦ runs_declareLocal name id

/-- The body of a function is checked in a block of its own. -/
theorem runs_funcBody [Lasting inv] {decl : FuncDecl} {file : Nat} (id : SymbolId)
    (hreceiver : ∀ receiver ∈ decl.receiver, Runs inv hangs .nothing (c.typeExpr receiver.type))
    (hbody : ∀ body ∈ decl.body, ∀ s ∈ body.stmts, Runs inv hangs .names (c.stmt s)) :
    Runs inv hangs reach (funcBody c decl id file) := by
  refine .looking sees_store fun store ↦ ?_
  split
  · exact .pure ()
  · rename_i signature _
    have hbody : Runs inv hangs .names (do
        decl.receiver.forM (declareReceiver c)
        declareParams decl.type signature
        decl.body.forM fun body ↦ inFunction signature.results (c.stmts body.stmts)) := by
      refine .bind (.forOption fun receiver h ↦ runs_declareReceiver (hreceiver receiver h))
        fun _ ↦ .bind (runs_declareParams decl.type _) fun _ ↦ ?_
      exact .forOption fun body h ↦ .inFunction (runs_stmts (hbody body h))
    exact .inContext (.namesInBlock hbody : Runs inv hangs .nothing _) fun s hs ↦
      Lasting.keeps hs (.ofContext s _)

end PackageAtlas
