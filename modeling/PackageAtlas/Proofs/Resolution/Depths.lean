import PackageAtlas.Proofs.Resolution.Ends

/-!
The depth to which tasks may nest does not show. Where a step has a result, a step in which all
tasks have at least the results that they had has the same one (`Check.Refines`); the judgement is
closed under sequences and loops, so that every rule carries it from its tasks to itself
(`refines_rule`). So tasks that may nest deeper have the same results (`Checker.within_refines`),
and any two depths at which a check ends agree on what it finds out (`checkWithin_unique`). The
depth that files ask for by their size is as good as any other where signatures are plain
(`checkFiles_eq_some_iff`).
-/

set_option autoImplicit false
set_option relaxedAutoImplicit false

namespace PackageAtlas

open Check CheckRule

/-- Where a step has a result, another one has the same. -/
def Check.Refines {α : Type} (step step' : Check α) : Prop :=
  ∀ input s result, step input s = some result → step' input s = some result

/-- Where a task of one checker has a result, it has the same in another one. -/
def Checker.Refines (c c' : Checker) : Prop := ∀ task, Check.Refines (c task) (c' task)

section Judgements

variable {α β γ : Type} {step step' : Check α} {next next' : α → Check β}

namespace Check.Refines

theorem refl (step : Check α) : Refines step step := fun _ _ _ ↦ id

theorem bind (h : Refines step step') (hnext : ∀ a, Refines (next a) (next' a)) :
    Refines (step >>= next) (step' >>= next') := by
  intro input s result hrun
  obtain ⟨a, middle, hstep, hrest⟩ := exists_of_run_bind hrun
  rw [run_bind_of_some (h input s (a, middle) hstep)]
  exact hnext a input middle result hrest

/-- What follows the same step. -/
theorem after (hnext : ∀ a, Refines (next a) (next' a)) :
    Refines (step >>= next) (step >>= next') :=
  .bind (.refl step) hnext

theorem ite {p : Prop} [Decidable p] {other other' : Check α} (h : Refines step step')
    (h' : Refines other other') :
    Refines (if p then step else other) (if p then step' else other') := by
  split
  · exact h
  · exact h'

theorem mapM {step step' : γ → Check α} (h : ∀ a, Refines (step a) (step' a)) (list : List γ) :
    Refines (list.mapM step) (list.mapM step') := by
  induction list with
  | nil => exact .refl _
  | cons a rest ih =>
    rw [List.mapM_cons, List.mapM_cons]
    exact .bind (h a) fun _ ↦ .bind ih fun _ ↦ .refl _

theorem forM {step step' : γ → Check Unit} (h : ∀ a, Refines (step a) (step' a)) (list : List γ) :
    Refines (list.forM step) (list.forM step') := by
  induction list with
  | nil => exact .refl _
  | cons a rest ih => exact .bind (h a) fun _ ↦ ih

theorem foldlM {step step' : β → γ → Check β} (h : ∀ b a, Refines (step b a) (step' b a))
    (list : List γ) (start : β) : Refines (list.foldlM step start) (list.foldlM step' start) := by
  induction list generalizing start with
  | nil => exact .refl _
  | cons a rest ih => exact .bind (h start a) fun b ↦ ih b

theorem mapOption {step step' : γ → Check α} (h : ∀ a, Refines (step a) (step' a))
    (option : Option γ) : Refines (option.mapM step) (option.mapM step') := by
  cases option with
  | none => exact .refl _
  | some a => exact .bind (h a) fun b ↦ .refl (pure (some b))

theorem forOption {step step' : γ → Check Unit} (h : ∀ a, Refines (step a) (step' a))
    (option : Option γ) : Refines (option.forM step) (option.forM step') := by
  cases option with
  | none => exact .refl _
  | some a => exact h a

theorem inBlock (h : Refines step step') : Refines (inBlock step) (inBlock step') :=
  .after fun _ ↦ .bind h fun _ ↦ .refl _

theorem inFunction (results : List Ty) (h : Refines step step') :
    Refines (inFunction results step) (inFunction results step') :=
  .after fun _ ↦ .bind h fun _ ↦ .refl _

theorem inContext (context : Context) (h : Refines step step') :
    Refines (inContext context step) (inContext context step') :=
  .after fun _ ↦ .after fun _ ↦ .bind h fun _ ↦ .refl _

theorem withIota (iota : Option Int) (h : Refines step step') :
    Refines (withIota iota step) (withIota iota step') :=
  .after fun _ ↦ .after fun _ ↦ .bind h fun _ ↦ .refl _

end Check.Refines

end Judgements

variable {c c' : Checker}

/-! ### Tasks and operands -/

namespace Checker.Refines

variable (h : c.Refines c')

include h

theorem expr (e : Expr) : Check.Refines (c.expr e) (c'.expr e) := h (.expr e)

theorem typeExpr (e : Expr) : Check.Refines (c.typeExpr e) (c'.typeExpr e) := h (.typeExpr e)

theorem stmt (s : Stmt) : Check.Refines (c.stmt s) (c'.stmt s) := h (.stmt s)

theorem resolve (id : SymbolId) : Check.Refines (c.resolve id) (c'.resolve id) := h (.resolve id)

theorem stmts (list : List Stmt) : Check.Refines (c.stmts list) (c'.stmts list) :=
  .forM h.stmt list

theorem exprs (list : List Expr) : Check.Refines (c.exprs list) (c'.exprs list) :=
  .forM (fun e ↦ .bind (h.expr e) fun _ ↦ .refl _) list

theorem underlying (type : Ty) : Check.Refines (c.underlying type) (c'.underlying type) := by
  unfold Checker.underlying
  split
  · exact .bind (h.resolve _) fun _ ↦ .refl _
  · exact .refl _

theorem value (e : Expr) : Check.Refines (value c e) (value c' e) :=
  .bind (h.expr e) fun _ ↦ .refl _

theorem values (list : List Expr) : Check.Refines (values c list) (values c' list) :=
  .forM (fun e ↦ .bind (h.value e) fun _ ↦ .refl _) list

theorem valueFor (target : Ty) (usage : Usage) (e : Expr) :
    Check.Refines (valueFor c target usage e) (valueFor c' target usage e) :=
  .bind (h.value e) fun _ ↦ .refl _

/-! ### Names -/

theorem constantOperand (id : SymbolId) (pos : Nat) :
    Check.Refines (constantOperand c id pos) (constantOperand c' id pos) :=
  .ite (.refl _) (.bind (h.resolve id) fun _ ↦ .refl _)

theorem symbolOperand (id : SymbolId) (pos : Nat) :
    Check.Refines (symbolOperand c id pos) (symbolOperand c' id pos) := by
  refine .after fun found ↦ ?_
  cases found.kind with
  | var | func | typeName => exact .bind (h.resolve id) fun _ ↦ .refl _
  | const => exact h.constantOperand id pos
  | pkgName | builtin | nil => exact .refl _

theorem name (ident : Ident) : Check.Refines (name c ident) (name c' ident) := by
  refine .ite (.refl _) (.after fun found ↦ ?_)
  cases found with
  | none => exact .refl _
  | some id => exact .after fun _ ↦ .after fun _ ↦ h.symbolOperand id ident.pos

theorem packageMember (scope : PackageScope) (package : String) (selected : Ident) :
    Check.Refines (packageMember c scope package selected)
      (packageMember c' scope package selected) := by
  refine .ite (.refl _) ?_
  cases scope.find? selected.name with
  | none => exact .refl _
  | some id => exact .after fun _ ↦ .ite (.after fun _ ↦ h.symbolOperand id selected.pos) (.refl _)

theorem methodOfType (type : Ty) (selected : Ident) :
    Check.Refines (methodOfType c type selected) (methodOfType c' type selected) := by
  refine .after fun store ↦ ?_
  cases (store.member? type selected.name).filter fun id ↦ (store.get id).isFunc with
  | none => exact .refl _
  | some method => exact .after fun _ ↦ .bind (h.resolve method) fun _ ↦ .refl _

theorem memberOfValue (operand : Expr) (type : Ty) (selected : Ident) :
    Check.Refines (memberOfValue c operand type selected)
      (memberOfValue c' operand type selected) := by
  refine .ite (.refl _) (.after fun store ↦ ?_)
  cases store.member? type selected.name with
  | none => exact .refl _
  | some member =>
    exact .after fun _ ↦ .ite (.bind (h.resolve member) fun _ ↦ .refl _) (.refl _)

theorem selector (operand : Expr) (selected : Ident) :
    Check.Refines (selector c operand selected) (selector c' operand selected) := by
  refine .bind (h.expr operand) fun found ↦ ?_
  cases found.mode with
  | package scope => exact h.packageMember scope operand.text selected
  | type => exact h.methodOfType found.type selected
  | value => exact .after fun type ↦ h.memberOfValue operand type selected
  | noValue | builtin | invalid => exact .refl _

/-! ### Type expressions -/

theorem namedType (ident : Ident) : Check.Refines (namedType c ident) (namedType c' ident) := by
  refine .after fun found ↦ ?_
  cases found with
  | none => exact .refl _
  | some id =>
    exact .after fun _ ↦ .after fun _ ↦ .ite (.refl _) <|
      .ite (.bind (h.resolve id) fun _ ↦ .refl _) (.refl _)

theorem arrayType (length : Option Expr) (element : Expr) :
    Check.Refines (arrayType c length element) (arrayType c' length element) := by
  refine .bind (h.typeExpr element) fun _ ↦ ?_
  cases length with
  | none => exact .refl _
  | some length => exact .bind (h.expr length) fun _ ↦ .refl _

theorem structType (fields : List Field) :
    Check.Refines (structType c fields) (structType c' fields) :=
  .bind (.foldlM (fun _ field ↦ .bind (h.typeExpr field.type) fun _ ↦ .refl _) fields [])
    fun _ ↦ .refl _

theorem interfaceType (elements : List Field) :
    Check.Refines (interfaceType c elements) (interfaceType c' elements) := by
  refine .bind (.foldlM (fun methods element ↦ .bind (h.typeExpr element.type) fun type ↦ ?_)
    elements []) fun _ ↦ .refl _
  cases element.names with
  | nil => exact .bind (h.underlying type) fun _ ↦ .refl _
  | cons name rest => exact .refl _

theorem fieldTypes (fields : List Field) :
    Check.Refines (fieldTypes c fields) (fieldTypes c' fields) :=
  .bind (.mapM (fun field ↦ .bind (h.typeExpr field.type) fun _ ↦ .refl _) fields) fun _ ↦ .refl _

theorem signature (type : FuncType) : Check.Refines (signature c type) (signature c' type) :=
  .bind (h.fieldTypes type.params) fun _ ↦ .bind (h.fieldTypes type.results) fun _ ↦ .refl _

theorem typeOfExpr (e : Expr) : Check.Refines (typeOfExpr c e) (typeOfExpr c' e) := by
  cases e with
  | ident i => exact h.namedType i
  | paren info inner => exact h.typeExpr inner
  | star info operand => exact .bind (h.typeExpr operand) fun _ ↦ .refl _
  | arrayType info length element => exact h.arrayType length element
  | mapType info key value =>
    exact .bind (h.typeExpr key) fun _ ↦ .bind (h.typeExpr value) fun _ ↦ .refl _
  | structType info fields => exact h.structType fields
  | interfaceType info elements => exact h.interfaceType elements
  | funcType type => exact .bind (h.signature type) fun _ ↦ .refl _
  | selector | literal | call | unary | binary | typeAssert | index | composite | keyValue
  | funcLit => exact .refl _

/-! ### Expressions -/

theorem conversion (info : NodeInfo) (target : Ty) (args : List Expr) :
    Check.Refines (conversion c info target args) (conversion c' info target args) := by
  match args with
  | [] => exact .refl _
  | [arg] => exact .bind (h.value arg) fun _ ↦ .refl _
  | first :: second :: rest =>
    exact .after fun _ ↦ .bind (h.exprs (first :: second :: rest)) fun _ ↦ .refl _

theorem builtinCall (pos : Nat) (name : String) (arity : Option Nat) (result : BuiltinResult)
    (args : List Expr) :
    Check.Refines (builtinCall c pos name arity result args)
      (builtinCall c' pos name arity result args) := by
  have hresult (done : Operand) : Check.Refines
      (do CheckRule.values c args
          return done)
      (do CheckRule.values c' args
          return done) :=
    .bind (h.values args) fun _ ↦ .refl _
  cases arity with
  | none => cases result <;> exact hresult _
  | some arity => cases result <;> exact .ite (.after fun _ ↦ hresult _) (hresult _)

theorem appendCall (slice : Expr) (added : List Expr) :
    Check.Refines (appendCall c slice added) (appendCall c' slice added) := by
  refine .bind (h.value slice) fun operand ↦ .after fun shape ↦ ?_
  split
  · exact .bind (.forM (h.valueFor _ _) added) fun _ ↦ .refl _
  · exact .bind (h.values added) fun _ ↦ .refl _

theorem builtin (info : NodeInfo) (name : String) (args : List Expr) :
    Check.Refines (builtin c info name args) (builtin c' info name args) := by
  unfold CheckRule.builtin
  split
  · exact h.builtinCall _ _ _ _ _
  · exact h.builtinCall _ _ _ _ _
  · exact h.builtinCall _ _ _ _ _
  · exact h.builtinCall _ _ _ _ _
  · exact h.appendCall _ _
  · exact .bind (h.typeExpr _) fun _ ↦ .bind (h.values _) fun _ ↦ .refl _
  · exact .bind (h.typeExpr _) fun _ ↦ .bind (h.values _) fun _ ↦ .refl _
  · exact .refl _
  · exact .refl _
  · exact .refl _
  · exact h.builtinCall _ _ _ _ _

theorem spreadArg (info : NodeInfo) (callee : String) (params : List Ty) (arg : Expr) :
    Check.Refines (spreadArg c info callee params arg) (spreadArg c' info callee params arg) :=
  .bind (h.expr arg) fun _ ↦ .refl _

theorem eachArg (usage : Usage) (params : List Ty) (args : List Expr) :
    Check.Refines (eachArg c usage params args) (eachArg c' usage params args) := by
  induction params generalizing args with
  | nil =>
    cases args with
    | nil => exact .refl _
    | cons arg args => exact h.values (arg :: args)
  | cons param params ih =>
    cases args with
    | nil => exact .refl _
    | cons arg args => exact .bind (h.valueFor param usage arg) fun _ ↦ ih args

theorem arguments (info : NodeInfo) (callee : String) (params : List Ty) (args : List Expr) :
    Check.Refines (arguments c info callee params args) (arguments c' info callee params args) := by
  unfold CheckRule.arguments
  split
  · exact h.spreadArg _ _ _ _
  · exact .bind (h.eachArg _ _ _) fun _ ↦ .refl _

theorem valueCall (info : NodeInfo) (callee : Expr) (type : Ty) (args : List Expr) :
    Check.Refines (valueCall c info callee type args) (valueCall c' info callee type args) := by
  refine .after fun store ↦ ?_
  cases store.signature? type with
  | some signature => exact .bind (h.arguments _ _ _ _) fun _ ↦ .refl _
  | none =>
    have hargs : Check.Refines
        (do c.exprs args
            return Operand.unknown)
        (do c'.exprs args
            return Operand.unknown) :=
      .bind (h.exprs args) fun _ ↦ .refl _
    exact .ite hargs (.after fun _ ↦ hargs)

theorem call (info : NodeInfo) (callee : Expr) (args : List Expr) :
    Check.Refines (call c info callee args) (call c' info callee args) := by
  refine .bind (h.expr callee) fun found ↦ ?_
  cases found.mode with
  | type => exact h.conversion info found.type args
  | builtin name => exact h.builtin info name args
  | value => exact h.valueCall info callee found.type args
  | noValue | package | invalid => exact .after fun _ ↦ .bind (h.exprs args) fun _ ↦ .refl _

theorem indirection (info : NodeInfo) (pointer : Expr) :
    Check.Refines (indirection c info pointer) (indirection c' info pointer) :=
  .bind (h.expr pointer) fun _ ↦ .refl _

theorem unary (info : NodeInfo) (op : UnaryOp) (e : Expr) :
    Check.Refines (unary c info op e) (unary c' info op e) :=
  .bind (h.value e) fun _ ↦ .refl _

theorem binary (info : NodeInfo) (op : BinaryOp) (left right : Expr) :
    Check.Refines (binary c info op left right) (binary c' info op left right) :=
  .bind (h.value left) fun _ ↦ .bind (h.value right) fun _ ↦ .refl _

theorem funcLiteral (type : FuncType) (body : Block) :
    Check.Refines (funcLiteral c type body) (funcLiteral c' type body) :=
  .bind (h.signature type) fun signature ↦
    .bind (.inBlock <| .after fun _ ↦ .inFunction signature.results (h.stmts body.stmts)) fun _ ↦
      .refl _

theorem typeAssertion (info : NodeInfo) (operand : Expr) (type : Option Expr) :
    Check.Refines (typeAssertion c info operand type) (typeAssertion c' info operand type) := by
  refine .bind (h.value operand) fun found ↦ ?_
  cases type with
  | none => exact .refl _
  | some type => exact .bind (h.typeExpr type) fun _ ↦ .refl _

theorem index (info : NodeInfo) (indexed key : Expr) :
    Check.Refines (index c info indexed key) (index c' info indexed key) :=
  .bind (h.value indexed) fun _ ↦ .bind (h.value key) fun _ ↦ .refl _

theorem namedElement (type : Ty) (fields : List Member) (key given : Expr) :
    Check.Refines (namedElement c type fields key given)
      (namedElement c' type fields key given) := by
  unfold CheckRule.namedElement
  cases key.ident? with
  | none => exact .after fun _ ↦ .bind (h.value given) fun _ ↦ .refl _
  | some name => exact .bind (h.value given) fun _ ↦ .refl _

theorem structElement (type : Ty) (fields : List Member) (place : Nat) (element : Expr) :
    Check.Refines (structElement c type fields place element)
      (structElement c' type fields place element) := by
  unfold CheckRule.structElement
  split
  · exact h.namedElement _ _ _ _
  · exact .bind (h.value _) fun _ ↦ .refl _

theorem listElement (type : Ty) (element : Expr) :
    Check.Refines (listElement c type element) (listElement c' type element) := by
  unfold CheckRule.listElement
  split
  · exact .bind (h.value _) fun _ ↦ h.valueFor _ _ _
  · exact h.valueFor _ _ _

theorem mapElement (keyType valueType : Ty) (element : Expr) :
    Check.Refines (mapElement c keyType valueType element)
      (mapElement c' keyType valueType element) := by
  unfold CheckRule.mapElement
  split
  · exact .bind (h.valueFor _ _ _) fun _ ↦ h.valueFor _ _ _
  · exact .after fun _ ↦ .bind (h.value _) fun _ ↦ .refl _

theorem looseElement (element : Expr) :
    Check.Refines (looseElement c element) (looseElement c' element) := by
  unfold CheckRule.looseElement
  split
  · exact h.exprs _
  · exact h.exprs _

theorem elements (typePos : Nat) (type shape : Ty) (list : List Expr) :
    Check.Refines (elements c typePos type shape list) (elements c' typePos type shape list) := by
  unfold CheckRule.elements
  split
  · exact .forM (fun entry : Expr × Nat ↦ h.structElement _ _ entry.2 entry.1) _
  · exact .forM (h.listElement _) _
  · exact .forM (h.listElement _) _
  · exact .forM (h.mapElement _ _) _
  · exact .forM h.looseElement _
  · exact .refl _

theorem composite (type : Expr) (given : List Expr) :
    Check.Refines (composite c type given) (composite c' type given) :=
  .bind (h.typeExpr type) fun literalType ↦ .bind (h.underlying literalType) fun _ ↦
    .bind (h.elements _ _ _ given) fun _ ↦ .refl _

theorem operandOf (e : Expr) : Check.Refines (operandOf c e) (operandOf c' e) := by
  cases e with
  | ident ident => exact h.name ident
  | selector info operand selected => exact h.selector operand selected
  | call info callee args => exact h.call info callee args
  | star info pointer => exact h.indirection info pointer
  | unary info op operand => exact h.unary info op operand
  | binary info op left right => exact h.binary info op left right
  | paren info inner => exact h.expr inner
  | typeAssert info operand type => exact h.typeAssertion info operand type
  | index info indexed key => exact h.index info indexed key
  | composite info type given => exact h.composite type given
  | funcLit info type body => exact h.funcLiteral type body
  | literal | keyValue => exact .refl _
  | arrayType | mapType | structType | interfaceType | funcType =>
    exact .bind (h.typeExpr _) fun _ ↦ .refl _

/-! ### Values for several targets -/

theorem spreadTypes (e : Expr) (count pos : Nat) :
    Check.Refines (spreadTypes c e count pos) (spreadTypes c' e count pos) :=
  .bind (h.expr e) fun _ ↦ .refl _

theorem valueTypes (exprs : List Expr) (count pos : Nat) :
    Check.Refines (valueTypes c exprs count pos) (valueTypes c' exprs count pos) := by
  refine .ite (.mapM (fun e ↦ .bind (h.value e) fun _ ↦ .refl _) exprs) ?_
  split
  · exact h.spreadTypes _ count pos
  · exact .bind (h.exprs exprs) fun _ ↦ .refl _

theorem initConstant (declared : Option Ty) (id : SymbolId) (e : Expr) :
    Check.Refines (initConstant c declared id e) (initConstant c' declared id e) :=
  .bind (h.expr e) fun _ ↦ .refl _

theorem initConstants (declared : Option Ty) (ids : List SymbolId) (exprs : List Expr) :
    Check.Refines (initConstants c declared ids exprs) (initConstants c' declared ids exprs) := by
  induction ids generalizing exprs with
  | nil => exact .refl _
  | cons id ids ih =>
    cases exprs with
    | nil => exact .refl _
    | cons e exprs => exact .bind (h.initConstant declared id e) fun _ ↦ ih exprs

theorem initSymbols (ids : List SymbolId) (type : Option Expr) (exprs : List Expr)
    (isConst : Bool) :
    Check.Refines (initSymbols c ids type exprs isConst) (initSymbols c' ids type exprs isConst) :=
  .bind (.mapOption h.typeExpr type) fun declared ↦ .after fun _ ↦
    .ite (.bind (h.initConstants declared ids exprs) fun _ ↦ .refl _) <|
      .ite (.refl _) (.bind (h.valueTypes exprs ids.length _) fun _ ↦ .refl _)

/-! ### Statements -/

theorem block (body : List Stmt) : Check.Refines (block c body) (block c' body) :=
  .inBlock (h.stmts body)

theorem optionalStmt (s : Option Stmt) : Check.Refines (optionalStmt c s) (optionalStmt c' s) :=
  .forOption h.stmt s

theorem condition (keyword : String) (test : Expr) :
    Check.Refines (condition c keyword test) (condition c' keyword test) :=
  .bind (h.value test) fun _ ↦ .refl _

theorem localConstants (iota : Nat) (spec : ValueSpec) (init : Initializers) :
    Check.Refines (localConstants c iota spec init) (localConstants c' iota spec init) :=
  .after fun ids ↦ .bind (.withIota _ (h.initSymbols ids init.1 init.2 true)) fun _ ↦ .refl _

theorem localVariables (spec : ValueSpec) :
    Check.Refines (localVariables c spec) (localVariables c' spec) :=
  .after fun ids ↦ .bind (h.initSymbols ids spec.type spec.values false) fun _ ↦ .refl _

theorem localType (spec : TypeSpec) : Check.Refines (localType c spec) (localType c' spec) :=
  .after fun _ ↦ .after fun _ ↦ .after fun _ ↦ .bind (h.typeExpr spec.type) fun type ↦
    .ite (.refl _) (.bind (h.underlying type) fun _ ↦ .refl _)

theorem localSpecs (isConst : Bool) (specs : List Spec) (iota : Nat)
    (inherited : Option Initializers) :
    Check.Refines (localSpecs c isConst iota inherited specs)
      (localSpecs c' isConst iota inherited specs) := by
  induction specs generalizing iota inherited with
  | nil => exact .refl _
  | cons spec rest ih =>
    cases spec with
    | imports spec => exact ih _ _
    | type spec => exact .bind (h.localType spec) fun _ ↦ ih _ _
    | value spec =>
      exact .ite (.bind (h.localConstants iota spec _) fun _ ↦ ih _ _) <|
        .bind (h.localVariables spec) fun _ ↦ ih _ _

theorem shortDecl (info : NodeInfo) (lhs rhs : List Expr) :
    Check.Refines (shortDecl c info lhs rhs) (shortDecl c' info lhs rhs) :=
  .bind (h.valueTypes rhs lhs.length _) fun _ ↦ .refl _

theorem targetType (target : Expr) :
    Check.Refines (targetType c target) (targetType c' target) := by
  unfold CheckRule.targetType
  cases target.unparen.ident? with
  | none => exact .bind (h.value target) fun _ ↦ .refl _
  | some ident =>
    refine .ite (.refl _) (.after fun found ↦ ?_)
    cases found with
    | none => exact .refl _
    | some id =>
      exact .after fun _ ↦ .after fun _ ↦ .ite (.bind (h.resolve id) fun _ ↦ .refl _) (.refl _)

theorem assignment (info : NodeInfo) (lhs rhs : List Expr) :
    Check.Refines (assignment c info lhs rhs) (assignment c' info lhs rhs) :=
  .bind (.mapM h.targetType lhs) fun _ ↦ .bind (h.valueTypes rhs lhs.length _) fun _ ↦ .refl _

theorem compoundAssignment (lhs rhs : List Expr) :
    Check.Refines (compoundAssignment c lhs rhs) (compoundAssignment c' lhs rhs) := by
  unfold CheckRule.compoundAssignment
  split
  · exact .bind (h.targetType _) fun _ ↦ h.valueFor _ _ _
  · exact .refl _

theorem incDec (info : NodeInfo) (target : Expr) (increment : Bool) :
    Check.Refines (incDec c info target increment) (incDec c' info target increment) :=
  .bind (h.targetType target) fun _ ↦ .refl _

theorem exprStmt (info : NodeInfo) (e : Expr) :
    Check.Refines (exprStmt c info e) (exprStmt c' info e) :=
  .bind (h.expr e) fun _ ↦ .refl _

theorem deferred (isGo : Bool) (call : Expr) :
    Check.Refines (deferred c isGo call) (deferred c' isGo call) :=
  .ite (h.exprs [call]) (.after fun _ ↦ h.exprs [call])

theorem returnSpread (info : NodeInfo) (wanted : List Ty) (given : Expr) :
    Check.Refines (returnSpread c info wanted given) (returnSpread c' info wanted given) :=
  .bind (h.expr given) fun _ ↦ .refl _

theorem returned (info : NodeInfo) (given : List Expr) :
    Check.Refines (returned c info given) (returned c' info given) := by
  refine .after fun s ↦ ?_
  cases given with
  | nil => exact .refl _
  | cons first rest =>
    dsimp only
    cases s.context.results.headD [] with
    | nil => exact .bind (h.exprs _) fun _ ↦ .refl _
    | cons wanted others =>
      refine .ite (.forM (fun entry : Expr × Ty ↦ h.valueFor _ _ entry.1) _) ?_
      cases rest with
      | nil => exact h.returnSpread _ _ first
      | cons second rest => exact .bind (h.exprs _) fun _ ↦ .refl _

theorem caseExpr (tag : Option Ty) (e : Expr) :
    Check.Refines (caseExpr c tag e) (caseExpr c' tag e) :=
  .bind (h.value e) fun _ ↦ .refl _

theorem switch (init : Option Stmt) (tag : Option Expr) (clauses : List CaseClause) :
    Check.Refines (switch c init tag clauses) (switch c' init tag clauses) :=
  .inBlock <| .bind (h.optionalStmt init) fun _ ↦
    .bind (.mapOption (fun tag ↦ .bind (h.value tag) fun _ ↦ .refl _) tag) fun tag ↦
    .forM (fun clause ↦ .bind (.forM (h.caseExpr tag) clause.list) fun _ ↦ h.block clause.body)
      clauses

theorem guardType (guard : Expr) : Check.Refines (guardType c guard) (guardType c' guard) := by
  unfold CheckRule.guardType
  split
  · exact .bind (h.value _) fun _ ↦ .refl _
  · exact .refl _

theorem caseType (e : Expr) : Check.Refines (caseType c e) (caseType c' e) := by
  refine .after fun found ↦ ?_
  cases found with
  | some entry => exact .refl _
  | none => exact .bind (h.typeExpr e) fun _ ↦ .refl _

theorem typeArm (guard : Ty) (binding : Option Ident) (clause : CaseClause) :
    Check.Refines (typeArm c guard binding clause) (typeArm c' guard binding clause) :=
  .bind (.mapM h.caseType clause.list) fun _ ↦ .inBlock <| .after fun _ ↦
    .bind (h.stmts clause.body) fun _ ↦ .refl _

theorem typeSwitch (init : Option Stmt) (binding : Option Ident) (guard : Expr)
    (clauses : List CaseClause) :
    Check.Refines (typeSwitch c init binding guard clauses)
      (typeSwitch c' init binding guard clauses) :=
  .inBlock <| .bind (h.optionalStmt init) fun _ ↦ .bind (h.guardType guard) fun guard ↦
    .bind (.mapM (h.typeArm guard binding) clauses) fun _ ↦ .refl _

end Checker.Refines

theorem refines_stmt (h : c.Refines c') (s : Stmt) :
    Check.Refines (CheckRule.stmt c s) (CheckRule.stmt c' s) := by
  cases s with
  | decl info decl => exact h.localSpecs _ decl.specs 0 none
  | assign info lhs op rhs =>
    cases op with
    | define => exact h.shortDecl info lhs rhs
    | assign => exact h.assignment info lhs rhs
    | compound op => exact h.compoundAssignment lhs rhs
  | expr info operand => exact h.exprStmt info operand
  | incDec info operand increment => exact h.incDec info operand increment
  | ret info results => exact h.returned info results
  | block body => exact h.block body.stmts
  | cond info init test body otherwise =>
    exact .inBlock <| .bind (h.optionalStmt init) fun _ ↦ .bind (h.condition "if" test) fun _ ↦
      .bind (h.block body.stmts) fun _ ↦ h.optionalStmt otherwise
  | loop info init test post body =>
    exact .inBlock <| .bind (h.optionalStmt init) fun _ ↦
      .bind (.forOption (h.condition "for") test) fun _ ↦
      .bind (h.optionalStmt post) fun _ ↦ h.block body.stmts
  | switch info init tag clauses => exact h.switch init tag clauses
  | typeSwitch info init binding guard clauses => exact h.typeSwitch init binding guard clauses
  | deferred info isGo call => exact h.deferred isGo call
  | branch info isBreak => exact .refl _

/-! ### Declarations -/

theorem refines_resolveType (h : c.Refines c') (id : SymbolId) (spec : TypeSpec) (file : Nat) :
    Check.Refines (resolveType c id spec file) (resolveType c' id spec file) :=
  .after fun _ ↦ .ite (.refl _) <| .after fun _ ↦ .ite (.refl _) <| .after fun _ ↦
    .bind (.inContext _ (h.typeExpr spec.type)) fun type ↦
    .ite (.refl _) (.bind (h.underlying type) fun _ ↦ .refl _)

theorem refines_resolveGroup (h : c.Refines c') (number : Nat) :
    Check.Refines (resolveGroup c number) (resolveGroup c' number) :=
  .after fun _ ↦ .ite (.refl _) <| .ite (.refl _) <| .after fun _ ↦
    .bind (.inContext _ (h.initSymbols _ _ _ _)) fun _ ↦ .refl _

theorem refines_resolveFunc (h : c.Refines c') (id : SymbolId) (decl : FuncDecl) (file : Nat) :
    Check.Refines (resolveFunc c id decl file) (resolveFunc c' id decl file) :=
  .after fun _ ↦ .ite (.bind (.inContext _ (h.signature decl.type)) fun _ ↦ .refl _) (.refl _)

theorem refines_resolve (h : c.Refines c') (id : SymbolId) :
    Check.Refines (CheckRule.resolve c id) (CheckRule.resolve c' id) := by
  refine .after fun s ↦ ?_
  split
  · exact .refl _
  · exact refines_resolveType h id _ _
  · exact refines_resolveGroup h _
  · exact refines_resolveFunc h id _ _

theorem refines_funcBody (h : c.Refines c') (decl : FuncDecl) (id : SymbolId) (file : Nat) :
    Check.Refines (funcBody c decl id file) (funcBody c' decl id file) := by
  refine .after fun store ↦ ?_
  cases store.signature? (store.typeOf id) with
  | none => exact .refl _
  | some signature =>
    refine .inContext _ <| .inBlock <| .bind (.forOption (fun receiver ↦ ?_) decl.receiver) fun _ ↦
      .after fun _ ↦ .forOption (fun body ↦ .inFunction _ (h.stmts body.stmts)) decl.body
    exact .bind (h.typeExpr receiver.type) fun _ ↦ .refl _

/-! ### Depths -/

/-- Over tasks that have at least the results that they had, a rule has the results that it had. -/
theorem refines_rule (h : c.Refines c') : (Checker.rule c).Refines (Checker.rule c') := by
  intro task
  cases task with
  | expr e => exact .bind (h.operandOf e) fun _ ↦ .refl _
  | typeExpr e => exact .bind (h.typeOfExpr e) fun _ ↦ .refl _
  | stmt s => exact refines_stmt h s
  | resolve id => exact refines_resolve h id

/-- Tasks that may nest deeper have the same results. -/
theorem Checker.within_refines {depth more : Nat} (h : depth ≤ more) :
    (Checker.within depth).Refines (Checker.within more) := by
  induction depth generalizing more with
  | zero => exact fun task input s result hrun ↦ (by cases hrun)
  | succ depth ih =>
    obtain ⟨more, rfl⟩ := Nat.exists_eq_add_of_le' (Nat.le_trans (Nat.succ_pos depth) h)
    exact refines_rule (ih (Nat.le_of_succ_le_succ h))

theorem refines_package (h : c.Refines c') (files : List SourceFile) :
    Check.Refines (package c files) (package c' files) := by
  unfold package
  refine .after fun _ ↦ .after fun _ ↦ .after fun _ ↦ ?_
  refine .bind (.forM h.resolve _) fun _ ↦ .after fun _ ↦ ?_
  refine .bind (.forM h.resolve _) fun _ ↦ .after fun s ↦ ?_
  refine .bind (.forM (fun entry ↦ ?_) s.funcs) fun _ ↦
    .bind (.forM (fun entry ↦ ?_) s.funcs) fun _ ↦ .refl _
  · exact h.resolve entry.2.1
  · obtain ⟨decl, id, file⟩ := entry
    exact refines_funcBody h decl id file

/-- A check that ends comes out the same if tasks may nest deeper. -/
theorem checkWithin_of_le {depth more : Nat} (hle : depth ≤ more) {input : CheckInput}
    {files : List SourceFile} {store : Store} {checked : Checked}
    (h : checkWithin depth input files store = some checked) :
    checkWithin more input files store = some checked := by
  obtain ⟨⟨⟨⟩, last⟩, hrun, hdone⟩ := Option.bind_eq_some_iff.mp h
  have hmore := refines_package (Checker.within_refines hle) files input _ _ hrun
  exact Option.bind_eq_some_iff.mpr ⟨((), last), hmore, hdone⟩

/-- The depths at which a check ends agree on what it finds out. -/
theorem checkWithin_unique {depth depth' : Nat} {input : CheckInput} {files : List SourceFile}
    {store : Store} {checked checked' : Checked}
    (h : checkWithin depth input files store = some checked)
    (h' : checkWithin depth' input files store = some checked') : checked = checked' := by
  have hmost := checkWithin_of_le (Nat.le_max_left depth depth') h
  have hmost' := checkWithin_of_le (Nat.le_max_right depth depth') h'
  exact Option.some.inj (hmost.symm.trans hmost')

/-- What a check finds out is what it finds out at any depth at which it ends. -/
theorem checkFiles_eq_some_iff {input : CheckInput} {files : List SourceFile} {store : Store}
    (hpredeclared : Universe.symbols.length < store.symbols.size)
    (himports : ∀ path scope, input.importer path = .ok scope → store.Holds scope)
    (hplain : PlainSignatures files) {checked : Checked} :
    checkFiles input files store = some checked ↔
      ∃ depth, checkWithin depth input files store = some checked := by
  refine ⟨fun h ↦ ⟨_, h⟩, fun ⟨depth, h⟩ ↦ ?_⟩
  obtain ⟨found, hfound, -⟩ := checkFiles_ends hpredeclared himports hplain
  rw [hfound, checkWithin_unique h hfound]

end PackageAtlas
