import PackageAtlas.Proofs.Resolution.ExprRules
import PackageAtlas.Check.StmtRules

/-!
The rules for statements. A statement leaves the context as it was but for new names of the
innermost block.
-/

set_option autoImplicit false
set_option relaxedAutoImplicit false

namespace PackageAtlas

open Check CheckRule

variable {inv : CheckState → Prop} {hangs : Prop} {reach : Reach} {c : Checker} [Lasting inv]

/-! ### Blocks and conditions -/

theorem runs_block {body : List Stmt} (h : ∀ s ∈ body, Runs inv hangs .names (c.stmt s)) :
    Runs inv hangs reach (block c body) :=
  .namesInBlock (runs_stmts h)

omit [Lasting inv] in
theorem runs_optionalStmt {stmt : Option Stmt}
    (h : ∀ s ∈ stmt, Runs inv hangs .names (c.stmt s)) :
    Runs inv hangs .names (optionalStmt c stmt) :=
  .forOption h

theorem runs_condition {test : Expr} (keyword : String)
    (h : Runs inv hangs .nothing (c.expr test)) :
    Runs inv hangs reach (condition c keyword test) := by
  refine .bind (.ofNothing (runs_value h)) fun operand ↦ ?_
  cases operand.type.isInvalid with
  | true => exact .pure ()
  | false =>
    exact .looking sees_store fun _ ↦ .ite (fun _ ↦ .pure ()) fun _ ↦ runs_report _ _

/-! ### Local declarations -/

omit [Lasting inv] in
theorem runs_addLocal (id : SymbolId) : Runs inv hangs reach (addLocal id) :=
  runs_record (fun _ ↦ ⟨Store.Lasts.refl _, rfl, rfl, rfl, List.suffix_refl _, TypeInfo.Grows.refl _⟩)
    fun _ ↦ rfl

theorem runs_withIota {α : Type} {step : Check α} (iota : Option Int)
    (h : Runs inv hangs .nothing step) : Runs inv hangs .nothing (withIota iota step) := by
  refine .look sees_get fun input s hs ↦ ?_
  refine RunsAt.between (fun s ↦ { s with context.iota := iota })
    (fun later ↦ { later with context.iota := s.context.iota })
    (h input _ (Lasting.keeps hs (.ofContext s _))) fun later hlater ↦ hlater.inContext ?_
  rw [show later.context = { s.context with iota } from hlater.context]
  rfl

theorem runs_localSymbols (kind : SymbolKind) (names : List Ident) :
    Runs inv hangs reach (names.mapM fun name ↦ do
      addSymbol { (← declared kind name) with isLocal := true }) :=
  .mapM fun name _ ↦ .looking (sees_declared kind name) fun _ ↦ runs_addSymbol _

/-- What the initializers of a spec ask for. -/
structure InitRuns (inv : CheckState → Prop) (hangs : Prop) (c : Checker) (init : Initializers) :
    Prop where
  type : ∀ e ∈ init.1, Runs inv hangs .nothing (c.typeExpr e)
  values : ∀ e ∈ init.2, Runs inv hangs .nothing (c.expr e)

theorem runs_localConstants (iota : Nat) (spec : ValueSpec) {init : Initializers}
    (h : InitRuns inv hangs c init) :
    Runs inv hangs .names (localConstants c iota spec init) := by
  refine .bind (runs_localSymbols .const spec.names) fun ids ↦ ?_
  refine .bind (.ofNothing (runs_withIota _ (runs_initSymbols ids true h.type h.values))) fun _ ↦ ?_
  exact .forM fun entry _ ↦ runs_declareLocal entry.1 entry.2

theorem runs_localVariables {spec : ValueSpec} (h : InitRuns inv hangs c (spec.type, spec.values)) :
    Runs inv hangs .names (localVariables c spec) := by
  refine .bind (runs_localSymbols .var spec.names) fun ids ↦ ?_
  refine .bind (.ofNothing (runs_initSymbols ids false h.type h.values)) fun _ ↦ ?_
  refine .forM fun entry _ ↦ .bind (runs_declareLocal entry.1 entry.2) fun _ ↦ ?_
  exact .ite (fun _ ↦ .pure ()) fun _ ↦ runs_addLocal _

theorem runs_localType {spec : TypeSpec} (htype : Runs inv hangs .nothing (c.typeExpr spec.type))
    (hresolve : ∀ id, Runs inv hangs .nothing (c.resolve id)) :
    Runs inv hangs .names (localType c spec) := by
  refine .looking (sees_declared .typeName spec.name) fun found ↦ .bind (runs_addSymbol _) fun id ↦
    .bind (runs_declareLocal spec.name id) fun _ ↦ .bind (.ofNothing htype) fun type ↦ ?_
  refine .ite (fun _ ↦ runs_setType id type) fun _ ↦ ?_
  exact .bind (.ofNothing (runs_underlying hresolve)) fun shape ↦ runs_setUnderlying id shape

/-- What the specs of a declaration ask for. -/
structure SpecsRun (inv : CheckState → Prop) (hangs : Prop) (c : Checker) (specs : List Spec) :
    Prop where
  type : ∀ spec, .type spec ∈ specs → Runs inv hangs .nothing (c.typeExpr spec.type)
  value : ∀ spec, .value spec ∈ specs → InitRuns inv hangs c (spec.type, spec.values)

/-- Constants without initializers take over those of the spec before. -/
theorem constInitializers_induction {motive : Initializers → Prop} {inherited : Option Initializers}
    {spec : ValueSpec} (hnone : motive (none, [])) (hinherited : ∀ init ∈ inherited, motive init)
    (hspec : motive (spec.type, spec.values)) : motive (constInitializers inherited spec) := by
  unfold constInitializers
  split
  · cases inherited with
    | none => exact hnone
    | some init => exact hinherited init rfl
  · exact hspec

theorem runs_localSpecs {specs : List Spec} (isConst : Bool) (iota : Nat)
    {inherited : Option Initializers} (hinherited : ∀ init ∈ inherited, InitRuns inv hangs c init)
    (h : SpecsRun inv hangs c specs) (hresolve : ∀ id, Runs inv hangs .nothing (c.resolve id)) :
    Runs inv hangs .names (localSpecs c isConst iota inherited specs) := by
  induction specs generalizing iota inherited with
  | nil => exact .pure ()
  | cons spec rest ih =>
    have hrest : SpecsRun inv hangs c rest :=
      ⟨fun other hother ↦ h.type other (List.mem_cons_of_mem _ hother),
        fun other hother ↦ h.value other (List.mem_cons_of_mem _ hother)⟩
    cases spec with
    | imports _ => exact ih (iota + 1) hinherited hrest
    | type spec =>
      exact .bind (runs_localType (h.type spec List.mem_cons_self) hresolve) fun _ ↦
        ih (iota + 1) hinherited hrest
    | value spec =>
      have hspec := h.value spec List.mem_cons_self
      refine .ite (fun _ ↦ ?_) fun _ ↦ ?_
      · have hinit : InitRuns inv hangs c (constInitializers inherited spec) :=
          constInitializers_induction ⟨fun _ he ↦ (by cases he), fun _ he ↦ (by cases he)⟩
            hinherited hspec
        exact .bind (runs_localConstants iota spec hinit) fun _ ↦
          ih (iota + 1) (fun _ hsome ↦ Option.mem_some.mp hsome ▸ hinit) hrest
      · exact .bind (runs_localVariables hspec) fun _ ↦ ih (iota + 1) hinherited hrest

/-! ### Assignments -/

theorem runs_shortTarget (made : List (Ident × SymbolId)) (target : Expr) (type : Ty) :
    Runs inv hangs .names (shortTarget made target type) := by
  unfold shortTarget
  cases target.ident? with
  | none => exact .bind (runs_report _ _) fun _ ↦ .pure _
  | some ident =>
    refine .ite (fun _ ↦ .pure _) fun _ ↦ .looking (sees_lookupInnermost? _) fun found ↦ ?_
    cases found with
    | some existing =>
      refine .bind (runs_recordUse ident existing) fun _ ↦ .looking (sees_typeOf _) fun old ↦ ?_
      refine .looking (sees_assignable _ _) fun _ ↦ .ite (fun _ ↦ .pure _) fun _ ↦ ?_
      exact .bind (runs_report _ _) fun _ ↦ .pure _
    | none =>
      refine .ite (fun _ ↦ .bind (runs_report _ _) fun _ ↦ .pure _) fun _ ↦ ?_
      exact .bind (runs_addVariable ident _ true) fun _ ↦ .pure _

theorem runs_shortDecl {rhs : List Expr} (info : NodeInfo) (lhs : List Expr)
    (h : ∀ e ∈ rhs, Runs inv hangs .nothing (c.expr e)) :
    Runs inv hangs .names (shortDecl c info lhs rhs) := by
  refine .bind (.ofNothing (runs_valueTypes _ _ h)) fun types ↦ ?_
  refine .bind (.foldlM [] fun made _ _ ↦ runs_shortTarget made _ _) fun made ↦ ?_
  have hmade : Runs inv hangs .names (made.forM fun entry ↦ do
      declareLocal entry.1 entry.2
      addLocal entry.2) :=
    .forM fun entry _ ↦ .bind (runs_declareLocal entry.1 entry.2) fun _ ↦ runs_addLocal _
  exact .ite (fun _ ↦ .bind (runs_report _ _) fun _ ↦ hmade) fun _ ↦ hmade

omit [Lasting inv] in
theorem runs_badTarget [Stable inv reach] (pos : Nat) (problem : Problem) :
    Runs inv hangs reach (badTarget pos problem) :=
  .bind (runs_report pos problem) fun _ ↦ .pure _

theorem runs_targetType {target : Expr} (h : Runs inv hangs .nothing (c.expr target))
    (hresolve : ∀ id, Runs inv hangs .nothing (c.resolve id)) :
    Runs inv hangs .nothing (targetType c target) := by
  unfold targetType
  cases target.unparen.ident? with
  | none => exact .bind (runs_value h) fun _ ↦ .pure _
  | some ident =>
    refine .ite (fun _ ↦ .pure _) fun _ ↦ .looking (sees_lookup? _) fun found ↦ ?_
    cases found with
    | none => exact runs_badTarget _ _
    | some id =>
      refine .bind (runs_recordUse ident id) fun _ ↦ .looking (sees_symbol id) fun found ↦ ?_
      refine .ite (fun _ ↦ ?_) fun _ ↦ .ite (fun _ ↦ ?_) fun _ ↦ runs_badTarget _ _
      · exact .bind (hresolve id) fun _ ↦ .looking (sees_typeOf id) fun _ ↦
          .bind (runs_recordType _ _) fun _ ↦ .pure _
      · exact .bind (runs_markUsed id) fun _ ↦ runs_badTarget _ _

theorem runs_assignment {lhs rhs : List Expr} (info : NodeInfo)
    (hlhs : ∀ e ∈ lhs, Runs inv hangs .nothing (c.expr e))
    (hrhs : ∀ e ∈ rhs, Runs inv hangs .nothing (c.expr e))
    (hresolve : ∀ id, Runs inv hangs .nothing (c.resolve id)) :
    Runs inv hangs .nothing (assignment c info lhs rhs) := by
  refine .bind (.mapM fun e he ↦ runs_targetType (hlhs e he) hresolve) fun targets ↦ ?_
  refine .bind (runs_valueTypes _ _ hrhs) fun types ↦ .forM fun entry _ ↦ ?_
  exact runs_unlessAssignable _ _ _ _

theorem runs_compoundAssignment {lhs rhs : List Expr}
    (hlhs : ∀ e ∈ lhs, Runs inv hangs .nothing (c.expr e))
    (hrhs : ∀ e ∈ rhs, Runs inv hangs .nothing (c.expr e))
    (hresolve : ∀ id, Runs inv hangs .nothing (c.resolve id)) :
    Runs inv hangs .nothing (compoundAssignment c lhs rhs) := by
  unfold compoundAssignment
  split
  · exact .bind (runs_targetType (hlhs _ List.mem_cons_self) hresolve) fun _ ↦
      runs_valueFor (hrhs _ List.mem_cons_self)
  · exact .pure ()

theorem runs_incDec {target : Expr} (info : NodeInfo) (increment : Bool)
    (h : Runs inv hangs .nothing (c.expr target))
    (hresolve : ∀ id, Runs inv hangs .nothing (c.resolve id)) :
    Runs inv hangs .nothing (incDec c info target increment) := by
  refine .bind (runs_targetType h hresolve) fun type ↦ ?_
  cases type.isInvalid with
  | true => exact .pure ()
  | false =>
    exact .looking sees_store fun _ ↦ .ite (fun _ ↦ .pure ()) fun _ ↦ runs_report _ _

/-! ### Calls and results -/

theorem runs_exprStmt {expr : Expr} (info : NodeInfo) (h : Runs inv hangs .nothing (c.expr expr)) :
    Runs inv hangs .nothing (exprStmt c info expr) :=
  .bind h fun _ ↦ .ite (fun _ ↦ .pure ()) fun _ ↦ runs_report _ _

theorem runs_deferred {call : Expr} (isGo : Bool) (h : Runs inv hangs .nothing (c.expr call)) :
    Runs inv hangs .nothing (deferred c isGo call) := by
  have hcall : Runs inv hangs .nothing (c.exprs [call]) :=
    runs_exprs fun e he ↦ List.mem_singleton.mp he ▸ h
  exact .ite (fun _ ↦ hcall) fun _ ↦ .bind (runs_report _ _) fun _ ↦ hcall

theorem runs_returnSpread {given : Expr} (info : NodeInfo) (wanted : List Ty)
    (h : Runs inv hangs .nothing (c.expr given)) :
    Runs inv hangs .nothing (returnSpread c info wanted given) := by
  refine .bind h fun operand ↦ ?_
  split
  · exact .ite (fun _ ↦ runs_assignEach _ _ _ _) fun _ ↦ runs_report _ _
  · exact runs_report _ _

theorem runs_returned {given : List Expr} (info : NodeInfo)
    (h : ∀ e ∈ given, Runs inv hangs .nothing (c.expr e)) :
    Runs inv hangs .nothing (returned c info given) := by
  refine .looking sees_get fun s ↦ ?_
  dsimp only
  split
  · exact .pure ()
  · exact .bind (runs_exprs h) fun _ ↦ runs_report _ _
  · refine .ite (fun _ ↦ .forM fun entry hentry ↦ ?_) fun _ ↦ ?_
    · exact runs_valueFor (h _ (List.of_mem_zip hentry).1)
    · split
      · exact runs_returnSpread _ _ (h _ List.mem_cons_self)
      · exact .bind (runs_exprs h) fun _ ↦ runs_report _ _

/-! ### Switches -/

theorem runs_caseExpr {expr : Expr} (tag : Option Ty) (h : Runs inv hangs .nothing (c.expr expr)) :
    Runs inv hangs reach (caseExpr c tag expr) :=
  .bind (.ofNothing (runs_value h)) fun _ ↦ .looking sees_store fun _ ↦
    .ite (fun _ ↦ .pure ()) fun _ ↦ runs_report _ _

theorem runs_switch {init : Option Stmt} {tag : Option Expr} {clauses : List CaseClause}
    (hinit : ∀ s ∈ init, Runs inv hangs .names (c.stmt s))
    (htag : ∀ e ∈ tag, Runs inv hangs .nothing (c.expr e))
    (hlist : ∀ clause ∈ clauses, ∀ e ∈ clause.list, Runs inv hangs .nothing (c.expr e))
    (hbody : ∀ clause ∈ clauses, ∀ s ∈ clause.body, Runs inv hangs .names (c.stmt s)) :
    Runs inv hangs reach (switch c init tag clauses) := by
  refine .inBlock (.bind (.toBlock (runs_optionalStmt hinit)) fun _ ↦ .bind (.mapOption ?_) ?_)
  · exact fun e he ↦ .bind (.ofNothing (runs_value (htag e he))) fun _ ↦ .pure _
  · refine fun tag ↦ .forM fun clause hclause ↦ ?_
    exact .bind (.forM fun e he ↦ runs_caseExpr tag (hlist clause hclause e he)) fun _ ↦
      runs_block (hbody clause hclause)

theorem runs_guardType {guard : Expr}
    (h : ∀ info operand, guard.unparen = .typeAssert info operand none →
      Runs inv hangs .nothing (c.expr operand)) :
    Runs inv hangs .nothing (guardType c guard) := by
  unfold guardType
  split
  · rename_i hguard
    refine .bind (runs_value (h _ _ hguard)) fun found ↦ ?_
    cases found.type.isInvalid with
    | true => exact .pure _
    | false =>
      exact .looking sees_store fun _ ↦ .ite (fun _ ↦ .pure _) fun _ ↦
        .bind (runs_report _ _) fun _ ↦ .pure _
  · exact runs_badTarget _ _

omit [Lasting inv] in
theorem runs_nilCase [Stable inv reach] (expr : Expr) :
    Runs inv hangs reach (nilCase? expr) := by
  unfold nilCase?
  cases expr.ident? with
  | none => exact .pure _
  | some ident =>
    refine .ite (fun _ ↦ .pure _) fun _ ↦ .looking (sees_lookup? "nil") fun found ↦ ?_
    cases found with
    | none => exact .pure _
    | some id => exact .looking (sees_symbol id) fun _ ↦ .pure _

theorem runs_caseType {expr : Expr} (h : Runs inv hangs .nothing (c.typeExpr expr)) :
    Runs inv hangs .nothing (caseType c expr) := by
  refine .bind (runs_nilCase expr) fun found ↦ ?_
  cases found with
  | some entry => exact .bind (runs_recordUse _ _) fun _ ↦ .pure _
  | none => exact .bind h fun _ ↦ .pure _

theorem runs_bindArm (clause : CaseClause) (type : Ty) (binding : Ident) :
    Runs inv hangs .block (bindArm clause type binding) := by
  refine .bind (runs_addVariable binding type true) fun id ↦
    .bind (runs_recordImplicit _ id) fun _ ↦ ?_
  exact .ite (fun _ ↦ .pure _) fun _ ↦ .bind (runs_bind _ id) fun _ ↦ .pure _

theorem runs_typeArm {clause : CaseClause} (guard : Ty) (binding : Option Ident)
    (hlist : ∀ e ∈ clause.list, Runs inv hangs .nothing (c.typeExpr e))
    (hbody : ∀ s ∈ clause.body, Runs inv hangs .names (c.stmt s)) :
    Runs inv hangs reach (typeArm c guard binding clause) := by
  refine .bind (.mapM fun e he ↦ .ofNothing (runs_caseType (hlist e he))) fun types ↦ .inBlock ?_
  refine .bind (.mapOption fun ident _ ↦ runs_bindArm clause _ ident) fun bound ↦ ?_
  exact .bind (.toBlock (runs_stmts hbody)) fun _ ↦ .pure bound

theorem runs_typeSwitch {init : Option Stmt} {guard : Expr} {clauses : List CaseClause}
    (binding : Option Ident) (hinit : ∀ s ∈ init, Runs inv hangs .names (c.stmt s))
    (hguard : ∀ info operand, guard.unparen = .typeAssert info operand none →
      Runs inv hangs .nothing (c.expr operand))
    (hlist : ∀ clause ∈ clauses, ∀ e ∈ clause.list, Runs inv hangs .nothing (c.typeExpr e))
    (hbody : ∀ clause ∈ clauses, ∀ s ∈ clause.body, Runs inv hangs .names (c.stmt s)) :
    Runs inv hangs reach (typeSwitch c init binding guard clauses) := by
  refine .inBlock (.bind (.toBlock (runs_optionalStmt hinit)) fun _ ↦
    .bind (.ofNothing (runs_guardType hguard)) fun type ↦ .bind (.mapM ?_) fun bound ↦ ?_)
  · exact fun clause hclause ↦
      runs_typeArm type binding (hlist clause hclause) (hbody clause hclause)
  · cases binding with
    | none => exact .pure ()
    | some binding =>
      refine .ite (fun _ ↦ .pure ()) fun _ ↦ runs_record ?_ fun _ ↦ rfl
      exact fun _ ↦ ⟨Store.Lasts.refl _, rfl, rfl, rfl, List.suffix_refl _, TypeInfo.Grows.refl _⟩

end PackageAtlas
