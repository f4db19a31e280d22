import PackageAtlas.Proofs.Resolution.TypeRules
import PackageAtlas.Check.ExprRules
import PackageAtlas.Check.ValueRules

/-!
The rules for expressions, and what they leave as it is. Each asks only for the expressions and the
type expressions that it has below itself, and for symbols.
-/

set_option autoImplicit false
set_option relaxedAutoImplicit false

namespace PackageAtlas

open Check CheckRule

variable {inv : CheckState → Prop} {hangs : Prop} {c : Checker}

section Values

variable [Stable inv .nothing]

/-! ### Several values -/

theorem runs_spreadTypes {expr : Expr} (count pos : Nat)
    (h : Runs inv hangs .nothing (c.expr expr)) :
    Runs inv hangs .nothing (spreadTypes c expr count pos) := by
  refine .bind h fun operand ↦ .looking sees_get fun s ↦ .ite (fun _ ↦ .pure _) fun _ ↦ ?_
  have hfailed (problem : Problem) : Runs inv hangs .nothing (do
      report pos problem
      return List.replicate count Ty.invalid) :=
    .bind (runs_report _ _) fun _ ↦ .pure _
  split
  · exact .ite (fun _ ↦ .pure _) fun _ ↦ hfailed _
  · exact .pure _
  · exact hfailed _

theorem runs_valueTypes {exprs : List Expr} (count pos : Nat)
    (h : ∀ e ∈ exprs, Runs inv hangs .nothing (c.expr e)) :
    Runs inv hangs .nothing (valueTypes c exprs count pos) := by
  refine .ite (fun _ ↦ .mapM fun e he ↦ .bind (runs_value (h e he)) fun _ ↦ .pure _) fun _ ↦ ?_
  split
  · exact runs_spreadTypes count pos (h _ List.mem_cons_self)
  · exact .bind (runs_exprs h) fun _ ↦ .bind (runs_report _ _) fun _ ↦ .pure _

theorem runs_initConstant {expr : Expr} (declared : Option Ty) (id : SymbolId)
    (h : Runs inv hangs .nothing (c.expr expr)) :
    Runs inv hangs .nothing (initConstant c declared id expr) := by
  refine .bind h fun operand ↦ .looking (sees_assignable _ _) fun fits ↦ ?_
  have hset : Runs inv hangs .nothing (do
      modifyStore (·.setValue id operand.value)
      setType id (declared.getD operand.type)) :=
    .bind (runs_setValue id _) fun _ ↦ runs_setType id _
  exact .ite (fun _ ↦ hset) fun _ ↦ .bind (runs_report _ _) fun _ ↦ hset

theorem runs_initConstants (declared : Option Ty) (ids : List SymbolId) {exprs : List Expr}
    (h : ∀ e ∈ exprs, Runs inv hangs .nothing (c.expr e)) :
    Runs inv hangs .nothing (initConstants c declared ids exprs) := by
  have hmissing (ids : List SymbolId) : Runs inv hangs .nothing (ids.forM fun id ↦ do
      report (← symbol id).pos .missingInit
      setType id .invalid) :=
    .forM fun id _ ↦ .looking (sees_symbol id) fun _ ↦ .bind (runs_report _ _) fun _ ↦
      runs_setType id _
  induction ids generalizing exprs with
  | nil => exact .pure ()
  | cons id ids ih =>
    cases exprs with
    | nil => exact hmissing (id :: ids)
    | cons e exprs =>
      exact .bind (runs_initConstant declared id (h e List.mem_cons_self)) fun _ ↦
        ih fun other hother ↦ h other (List.mem_cons_of_mem e hother)

theorem runs_initVariable (declared : Option Ty) (id : SymbolId) (type : Ty) :
    Runs inv hangs .nothing (initVariable declared id type) := by
  cases declared with
  | none => exact runs_setType id _
  | some target =>
    refine .looking (sees_assignable type target) fun fits ↦ ?_
    refine .ite (fun _ ↦ runs_setType id target) fun _ ↦ .looking (sees_symbol id) fun _ ↦ ?_
    exact .bind (runs_report _ _) fun _ ↦ runs_setType id target

theorem runs_initSymbols (ids : List SymbolId) {type : Option Expr} {exprs : List Expr}
    (isConst : Bool) (htype : ∀ e ∈ type, Runs inv hangs .nothing (c.typeExpr e))
    (hexprs : ∀ e ∈ exprs, Runs inv hangs .nothing (c.expr e)) :
    Runs inv hangs .nothing (initSymbols c ids type exprs isConst) := by
  refine .bind (.mapOption htype) fun declared ↦ .looking sees_store fun store ↦ ?_
  refine .ite (fun _ ↦ .bind (runs_initConstants declared ids hexprs) fun _ ↦ ?_) fun _ ↦ ?_
  · exact .ite (fun _ ↦ runs_report _ _) fun _ ↦ .pure ()
  · refine .ite (fun _ ↦ .forM fun id _ ↦ runs_setType id _) fun _ ↦ ?_
    exact .bind (runs_valueTypes _ _ hexprs) fun types ↦
      .forM fun _ _ ↦ runs_initVariable declared _ _

/-! ### Calls -/

theorem runs_conversion {args : List Expr} (info : NodeInfo) (target : Ty)
    (h : ∀ e ∈ args, Runs inv hangs .nothing (c.expr e)) :
    Runs inv hangs .nothing (conversion c info target args) := by
  unfold conversion
  split
  · exact .bind (runs_value (h _ List.mem_cons_self)) fun _ ↦ .pure _
  · exact .bind (runs_report _ _) fun _ ↦ .pure _
  · exact .bind (runs_report _ _) fun _ ↦ .bind (runs_exprs h) fun _ ↦ .pure _

theorem runs_builtinCall {args : List Expr} (pos : Nat) (name : String) (arity : Option Nat)
    (result : BuiltinResult) (h : ∀ e ∈ args, Runs inv hangs .nothing (c.expr e)) :
    Runs inv hangs .nothing (builtinCall c pos name arity result args) := by
  have hresult (done : Operand) : Runs inv hangs .nothing (do
      values c args
      return done) :=
    .bind (runs_values h) fun _ ↦ .pure _
  have hchecked (done : Operand) (count : Nat) : Runs inv hangs .nothing (do
      if args.length ≠ count then report pos (.builtinArity name (toString count))
      values c args
      return done) :=
    .ite (fun _ ↦ .bind (runs_report _ _) fun _ ↦ hresult done) fun _ ↦ hresult done
  cases arity with
  | none => cases result <;> exact hresult _
  | some count => cases result <;> exact hchecked _ count

theorem runs_appendCall {slice : Expr} {added : List Expr}
    (hslice : Runs inv hangs .nothing (c.expr slice))
    (hadded : ∀ e ∈ added, Runs inv hangs .nothing (c.expr e)) :
    Runs inv hangs .nothing (appendCall c slice added) := by
  refine .bind (runs_value hslice) fun operand ↦ .looking (sees_underlying _) fun shape ↦ ?_
  split
  · exact .bind (.forM fun e he ↦ runs_valueFor (hadded e he)) fun _ ↦ .pure _
  · exact .bind (runs_values hadded) fun _ ↦ .pure _

theorem runs_builtin {args : List Expr} (info : NodeInfo) (name : String)
    (h : ∀ e ∈ args, Runs inv hangs .nothing (c.expr e))
    (htype : ∀ e ∈ args, Runs inv hangs .nothing (c.typeExpr e)) :
    Runs inv hangs .nothing (builtin c info name args) := by
  unfold builtin
  split
  · exact runs_builtinCall _ _ _ _ h
  · exact runs_builtinCall _ _ _ _ h
  · exact runs_builtinCall _ _ _ _ h
  · exact runs_builtinCall _ _ _ _ h
  · exact runs_appendCall (h _ List.mem_cons_self) fun e he ↦ h e (List.mem_cons_of_mem _ he)
  · exact .bind (htype _ List.mem_cons_self) fun _ ↦
      .bind (runs_values fun e he ↦ h e (List.mem_cons_of_mem _ he)) fun _ ↦ .pure _
  · exact .bind (htype _ List.mem_cons_self) fun _ ↦
      .bind (runs_values fun e he ↦ h e (List.mem_cons_of_mem _ he)) fun _ ↦ .pure _
  · exact runs_badExpr _ _
  · exact runs_badExpr _ _
  · exact runs_badExpr _ _
  · exact runs_builtinCall _ _ _ _ h

omit [Stable inv .nothing] in
theorem runs_argCount (info : NodeInfo) (callee : String) (given wanted : Nat) :
    Runs inv hangs .nothing (argCount info callee given wanted) :=
  .ite (fun _ ↦ runs_report _ _) fun _ ↦ .ite (fun _ ↦ runs_report _ _) fun _ ↦ .pure ()

theorem runs_spreadArg {arg : Expr} (info : NodeInfo) (callee : String) (params : List Ty)
    (h : Runs inv hangs .nothing (c.expr arg)) :
    Runs inv hangs .nothing (spreadArg c info callee params arg) := by
  refine .bind h fun operand ↦ ?_
  split
  · exact .ite (fun _ ↦ runs_argCount _ _ _ _) fun _ ↦ runs_assignEach _ _ _ _
  · exact .bind (runs_singleValue operand arg) fun _ ↦ .bind (runs_assignTo _ _ _ _) fun _ ↦
      runs_argCount _ _ _ _

theorem runs_eachArg {args : List Expr} (usage : Usage) (params : List Ty)
    (h : ∀ e ∈ args, Runs inv hangs .nothing (c.expr e)) :
    Runs inv hangs .nothing (eachArg c usage params args) := by
  induction params generalizing args with
  | nil =>
    cases args with
    | nil => exact .pure ()
    | cons arg args => exact runs_values h
  | cons param params ih =>
    cases args with
    | nil => exact .pure ()
    | cons arg args =>
      exact .bind (runs_valueFor (h arg List.mem_cons_self)) fun _ ↦
        ih fun e he ↦ h e (List.mem_cons_of_mem arg he)

theorem runs_arguments {args : List Expr} (info : NodeInfo) (callee : String) (params : List Ty)
    (h : ∀ e ∈ args, Runs inv hangs .nothing (c.expr e)) :
    Runs inv hangs .nothing (arguments c info callee params args) := by
  unfold arguments
  split
  · exact runs_spreadArg _ _ _ (h _ List.mem_cons_self)
  · exact .bind (runs_eachArg _ _ h) fun _ ↦ runs_argCount _ _ _ _

theorem runs_valueCall {args : List Expr} (info : NodeInfo) (callee : Expr) (type : Ty)
    (h : ∀ e ∈ args, Runs inv hangs .nothing (c.expr e)) :
    Runs inv hangs .nothing (valueCall c info callee type args) := by
  refine .looking sees_store fun store ↦ ?_
  cases store.signature? type with
  | some signature => exact .bind (runs_arguments _ _ _ h) fun _ ↦ .pure _
  | none =>
    have hargs : Runs inv hangs .nothing (do
        c.exprs args
        return Operand.unknown) :=
      .bind (runs_exprs h) fun _ ↦ .pure _
    exact .ite (fun _ ↦ hargs) fun _ ↦ .bind (runs_report _ _) fun _ ↦ hargs

theorem runs_call {callee : Expr} {args : List Expr} (info : NodeInfo)
    (hcallee : Runs inv hangs .nothing (c.expr callee))
    (h : ∀ e ∈ args, Runs inv hangs .nothing (c.expr e))
    (htype : ∀ e ∈ args, Runs inv hangs .nothing (c.typeExpr e)) :
    Runs inv hangs .nothing (call c info callee args) := by
  refine .bind hcallee fun found ↦ ?_
  split
  · exact runs_conversion _ _ h
  · exact runs_builtin _ _ h htype
  · exact runs_valueCall _ _ _ h
  · exact .bind (runs_singleValue found callee) fun _ ↦ .bind (runs_exprs h) fun _ ↦ .pure _

/-! ### Operators -/

theorem runs_indirection {pointer : Expr} (info : NodeInfo)
    (h : Runs inv hangs .nothing (c.expr pointer)) :
    Runs inv hangs .nothing (indirection c info pointer) := by
  refine .bind h fun found ↦ ?_
  split
  · exact .pure _
  · refine .looking sees_store fun store ↦ ?_
    cases store.pointee? found.type with
    | some element => exact .pure _
    | none => exact .ite (fun _ ↦ .pure _) fun _ ↦ runs_badExpr _ _
  · exact .bind (runs_singleValue found pointer) fun _ ↦ .pure _

theorem runs_unary {operand : Expr} (info : NodeInfo) (op : UnaryOp)
    (h : Runs inv hangs .nothing (c.expr operand)) :
    Runs inv hangs .nothing (unary c info op operand) := by
  refine .bind (runs_value h) fun found ↦ .ite (fun _ ↦ .pure _) fun _ ↦ ?_
  refine .looking sees_store fun store ↦ ?_
  cases op with
  | addr => exact .pure _
  | not | neg | plus | bitNot => exact .ite (fun _ ↦ .pure _) fun _ ↦ runs_badExpr _ _

theorem runs_comparison (b : BinaryOperands) : Runs inv hangs .nothing (comparison b) := by
  refine .looking (sees_assignable _ _) fun fits ↦ ?_
  cases fits with
  | true => exact .pure _
  | false =>
    exact .looking (sees_assignable _ _) fun _ ↦ .ite (fun _ ↦ .pure _) fun _ ↦ runs_badExpr _ _

theorem runs_logical (b : BinaryOperands) : Runs inv hangs .nothing (logical b) :=
  .looking sees_store fun _ ↦ .ite (fun _ ↦ runs_badExpr _ _) fun _ ↦
    .ite (fun _ ↦ runs_badExpr _ _) fun _ ↦ .pure _

theorem runs_arithmetic (b : BinaryOperands) (left right : Option Int) :
    Runs inv hangs .nothing (arithmetic b left right) := by
  refine .looking sees_store fun store ↦ ?_
  cases sharedType? store b.leftType b.rightType with
  | none => exact runs_badExpr _ _
  | some type =>
    refine .ite (fun _ ↦ runs_badExpr _ _) fun _ ↦ ?_
    split
    · exact .ite (fun _ ↦ runs_badExpr _ _) fun _ ↦ .pure _
    · exact .pure _

theorem runs_binary {left right : Expr} (info : NodeInfo) (op : BinaryOp)
    (hleft : Runs inv hangs .nothing (c.expr left))
    (hright : Runs inv hangs .nothing (c.expr right)) :
    Runs inv hangs .nothing (binary c info op left right) := by
  refine .bind (runs_value hleft) fun x ↦ .bind (runs_value hright) fun y ↦ ?_
  refine .ite (fun _ ↦ .pure _) fun _ ↦ .ite (fun _ ↦ runs_comparison _) fun _ ↦ ?_
  exact .ite (fun _ ↦ runs_logical _) fun _ ↦ .ite (fun _ ↦ .pure _) fun _ ↦ runs_arithmetic _ _ _

theorem runs_typeAssertion {operand : Expr} {type : Option Expr} (info : NodeInfo)
    (h : Runs inv hangs .nothing (c.expr operand))
    (htype : ∀ e ∈ type, Runs inv hangs .nothing (c.typeExpr e)) :
    Runs inv hangs .nothing (typeAssertion c info operand type) := by
  refine .bind (runs_value h) fun found ↦ ?_
  cases type with
  | none => exact runs_badExpr _ _
  | some e =>
    refine .bind (htype e rfl) fun type ↦ ?_
    cases found.type.isInvalid with
    | true => exact .pure _
    | false =>
      exact .looking sees_store fun _ ↦ .ite (fun _ ↦ .pure _) fun _ ↦
        .bind (runs_report _ _) fun _ ↦ .pure _

/-! ### Indexing and composite literals -/

theorem runs_index {indexed key : Expr} (info : NodeInfo)
    (hindexed : Runs inv hangs .nothing (c.expr indexed))
    (hkey : Runs inv hangs .nothing (c.expr key)) :
    Runs inv hangs .nothing (index c info indexed key) := by
  refine .bind (runs_value hindexed) fun found ↦ .bind (runs_value hkey) fun place ↦ ?_
  refine .ite (fun _ ↦ .pure _) fun _ ↦ .looking sees_store fun store ↦ ?_
  split
  · exact .pure _
  · exact .pure _
  · exact .bind (runs_assignTo _ _ _ _) fun _ ↦ .pure _
  · exact .ite (fun _ ↦ .pure _) fun _ ↦ runs_badExpr _ _
  · exact runs_badExpr _ _

theorem runs_namedElement {given : Expr} (type : Ty) (fields : List Member) (key : Expr)
    (h : Runs inv hangs .nothing (c.expr given)) :
    Runs inv hangs .nothing (namedElement c type fields key given) := by
  unfold namedElement
  cases key.ident? with
  | none => exact .bind (runs_report _ _) fun _ ↦ .bind (runs_value h) fun _ ↦ .pure _
  | some name =>
    refine .bind (runs_value h) fun operand ↦ ?_
    cases fields.find? (·.name == name.name) with
    | none => exact runs_report _ _
    | some field => exact .bind (runs_recordUse _ _) fun _ ↦ runs_assignTo _ _ _ _

/-- What the elements of a literal ask for: themselves, or what stands on both sides of a colon. -/
structure ElementRuns (inv : CheckState → Prop) (hangs : Prop) (c : Checker) (element : Expr) :
    Prop where
  whole : Runs inv hangs .nothing (c.expr element)
  parts : ∀ info key given, element = .keyValue info key given →
    Runs inv hangs .nothing (c.expr key) ∧ Runs inv hangs .nothing (c.expr given)

theorem runs_structElement {element : Expr} (type : Ty) (fields : List Member) (place : Nat)
    (h : ElementRuns inv hangs c element) :
    Runs inv hangs .nothing (structElement c type fields place element) := by
  unfold structElement
  split
  · exact runs_namedElement _ _ _ (h.parts _ _ _ rfl).2
  · refine .bind (runs_value h.whole) fun operand ↦ ?_
    cases fields[place]? with
    | some field => exact runs_assignTo _ _ _ _
    | none => exact runs_report _ _

theorem runs_listElement {element : Expr} (type : Ty) (h : ElementRuns inv hangs c element) :
    Runs inv hangs .nothing (listElement c type element) := by
  unfold listElement
  split
  · exact .bind (runs_value (h.parts _ _ _ rfl).1) fun _ ↦ runs_valueFor (h.parts _ _ _ rfl).2
  · exact runs_valueFor h.whole

theorem runs_mapElement {element : Expr} (keyType valueType : Ty)
    (h : ElementRuns inv hangs c element) :
    Runs inv hangs .nothing (mapElement c keyType valueType element) := by
  unfold mapElement
  split
  · exact .bind (runs_valueFor (h.parts _ _ _ rfl).1) fun _ ↦ runs_valueFor (h.parts _ _ _ rfl).2
  · exact .bind (runs_report _ _) fun _ ↦ .bind (runs_value h.whole) fun _ ↦ .pure _

theorem runs_looseElement {element : Expr} (h : ElementRuns inv hangs c element) :
    Runs inv hangs .nothing (looseElement c element) := by
  unfold looseElement
  split
  · exact runs_exprs fun e he ↦ List.mem_singleton.mp he ▸ (h.parts _ _ _ rfl).2
  · exact runs_exprs fun e he ↦ List.mem_singleton.mp he ▸ h.whole

theorem runs_elements {given : List Expr} (typePos : Nat) (type shape : Ty)
    (h : ∀ e ∈ given, ElementRuns inv hangs c e) :
    Runs inv hangs .nothing (elements c typePos type shape given) := by
  unfold elements
  split
  · exact .forM fun entry hentry ↦
      runs_structElement _ _ _ (h _ (List.fst_mem_of_mem_zipIdx hentry))
  · exact .forM fun e he ↦ runs_listElement _ (h e he)
  · exact .forM fun e he ↦ runs_listElement _ (h e he)
  · exact .forM fun e he ↦ runs_mapElement _ _ (h e he)
  · exact .forM fun e he ↦ runs_looseElement (h e he)
  · exact runs_report _ _

theorem runs_composite {type : Expr} {given : List Expr}
    (htype : Runs inv hangs .nothing (c.typeExpr type))
    (hgiven : ∀ e ∈ given, ElementRuns inv hangs c e)
    (hresolve : ∀ id, Runs inv hangs .nothing (c.resolve id)) :
    Runs inv hangs .nothing (composite c type given) :=
  .bind htype fun _ ↦ .bind (runs_underlying hresolve) fun _ ↦
    .bind (runs_elements _ _ _ hgiven) fun _ ↦ .pure _

theorem runs_recordOperand (id : NodeId) {step : Check Operand} (h : Runs inv hangs .nothing step) :
    Runs inv hangs .nothing (do
      let operand ← step
      match operand.mode with
      | .value | .type => recordType id operand.type
      | _ => pure ()
      return operand) := by
  refine .bind h fun operand ↦ ?_
  split
  · exact .bind (runs_recordType _ _) fun _ ↦ .pure _
  · exact .bind (runs_recordType _ _) fun _ ↦ .pure _
  · exact .bind (.pure ()) fun _ ↦ .pure _

end Values

/-! ### Function literals -/

theorem runs_stmts [Lasting inv] {stmts : List Stmt}
    (h : ∀ s ∈ stmts, Runs inv hangs .names (c.stmt s)) : Runs inv hangs .names (c.stmts stmts) :=
  .forM h

theorem runs_funcLiteral [Lasting inv] {type : FuncType} {body : Block}
    (htype : ∀ field ∈ type.params ++ type.results, Runs inv hangs .nothing (c.typeExpr field.type))
    (hbody : ∀ s ∈ body.stmts, Runs inv hangs .names (c.stmt s)) :
    Runs inv hangs .nothing (funcLiteral c type body) := by
  refine .bind (runs_signature htype) fun signature ↦ .bind (.namesInBlock ?_) fun _ ↦
    .pure _
  exact .bind (runs_declareParams type signature) fun _ ↦ .inFunction (runs_stmts hbody)

end PackageAtlas
