import PackageAtlas.Check.TypeRules
import PackageAtlas.Check.ValueRules

/-!
Statements. Blocks, conditions and arms open scopes of their own; to be assigned to is no use of a
variable.
-/

set_option autoImplicit false
set_option relaxedAutoImplicit false

namespace PackageAtlas.CheckRule

open Check

/-- Checks the statements of a block in a scope of their own. -/
def block (c : Checker) (body : List Stmt) : Check Unit := inBlock (c.stmts body)

/-- Checks a statement that may be missing. -/
def optionalStmt (c : Checker) (stmt : Option Stmt) : Check Unit := stmt.forM c.stmt

/-- Checks that a condition is boolean. -/
def condition (c : Checker) (keyword : String) (test : Expr) : Check Unit := do
  let operand ← value c test
  unless operand.type.isInvalid || (← store).isBoolean operand.type do
    report test.pos (.nonBoolean keyword test.text)

/-! ### Local declarations -/

/-- Notes a local variable, which is reported if it stays unused. -/
def addLocal (id : SymbolId) : Check Unit := modify fun s ↦ { s with locals := s.locals ++ [id] }

/-- Runs a step with another number for the constants of a group. -/
def withIota {α : Type} (iota : Option Int) (step : Check α) : Check α := do
  let saved := (← get).context.iota
  modify fun s ↦ { s with context.iota := iota }
  let result ← step
  modify fun s ↦ { s with context.iota := saved }
  return result

/-- The type and the initializers of a spec. -/
abbrev Initializers := Option Expr × List Expr

/-- The type and the initializers of constants: those of the spec before if it gives none. -/
def constInitializers (inherited : Option Initializers) (spec : ValueSpec) : Initializers :=
  if spec.type.isNone && spec.values.isEmpty then inherited.getD (none, [])
  else (spec.type, spec.values)

/-- Declares local constants, numbered in their group. -/
def localConstants (c : Checker) (iota : Nat) (spec : ValueSpec) (init : Initializers) :
    Check Unit := do
  let ids ← spec.names.mapM fun name ↦ do
    addSymbol { (← declared .const name) with isLocal := true }
  withIota (some iota) (initSymbols c ids init.1 init.2 true)
  (spec.names.zip ids).forM fun (name, id) ↦ declareLocal name id

/-- Declares local variables. -/
def localVariables (c : Checker) (spec : ValueSpec) : Check Unit := do
  let ids ← spec.names.mapM fun name ↦ do
    addSymbol { (← declared .var name) with isLocal := true }
  initSymbols c ids spec.type spec.values false
  (spec.names.zip ids).forM fun (name, id) ↦ do
    declareLocal name id
    unless name.isBlank do addLocal id

/-- Declares a local type, which may refer to itself. -/
def localType (c : Checker) (spec : TypeSpec) : Check Unit := do
  let id ← addSymbol
    { (← declared .typeName spec.name) with isAlias := spec.isAlias, isLocal := true }
  declareLocal spec.name id
  let type ← c.typeExpr spec.type
  if spec.isAlias then setType id type
  else
    let shape ← c.underlying type
    modifyStore (·.setUnderlying id shape)

/-- Checks the specs of a local declaration, the first of which has this number. -/
def localSpecs (c : Checker) (isConst : Bool) :
    Nat → Option Initializers → List Spec → Check Unit
  | _, _, [] => return
  | iota, inherited, spec :: rest => do
    match spec with
    | .imports _ => localSpecs c isConst (iota + 1) inherited rest
    | .type spec =>
      localType c spec
      localSpecs c isConst (iota + 1) inherited rest
    | .value spec =>
      if isConst then
        let init := constInitializers inherited spec
        localConstants c iota spec init
        localSpecs c isConst (iota + 1) (some init) rest
      else
        localVariables c spec
        localSpecs c isConst (iota + 1) inherited rest

/-! ### Assignments -/

/-- One target of a short declaration: a new name, or a name of this block that is assigned to. -/
def shortTarget (made : List (Ident × SymbolId)) (target : Expr) (type : Ty) :
    Check (List (Ident × SymbolId)) := do
  match target.ident? with
  | none =>
    report target.pos (.nonName target.text)
    return made
  | some ident =>
    if ident.isBlank then return made
    match ← lookupInnermost? ident.name with
    | some existing =>
      recordUse ident existing
      let old ← typeOf existing
      unless ← assignable type old do report ident.pos (.badTypeUse type old .assignment)
      return made
    | none =>
      if made.any (·.1.name == ident.name) then
        report ident.pos (.repeatedName ident.name)
        return made
      return made ++ [(ident, ← addVariable ident type.defaultType true)]

/-- A short declaration, which must make a new name. -/
def shortDecl (c : Checker) (info : NodeInfo) (lhs rhs : List Expr) : Check Unit := do
  let pos := info.span.start
  let types ← valueTypes c rhs lhs.length pos
  let made ← (lhs.zip types).foldlM (fun made (target, type) ↦ shortTarget made target type) []
  if made.isEmpty then report pos .nothingNew
  made.forM fun (ident, id) ↦ do
    declareLocal ident id
    addLocal id

/-- Reports a target that cannot be assigned to. -/
def badTarget (pos : Nat) (problem : Problem) : Check Ty := do
  report pos problem
  return .invalid

/-- The type of an assignment target. -/
def targetType (c : Checker) (target : Expr) : Check Ty := do
  match target.unparen.ident? with
  | none => return (← value c target).type
  | some ident =>
    if ident.isBlank then return .invalid
    match ← lookup? ident.name with
    | none => badTarget ident.pos (.undefined ident.name)
    | some id =>
      recordUse ident id
      let kind := (← symbol id).kind
      if kind = .var then
        c.resolve id
        let type ← typeOf id
        recordType target.id type
        return type
      if kind = .pkgName then markUsed id
      badTarget ident.pos (.notAssignable ident.name)

def assignment (c : Checker) (info : NodeInfo) (lhs rhs : List Expr) : Check Unit := do
  let targets ← lhs.mapM (targetType c)
  let types ← valueTypes c rhs lhs.length info.span.start
  ((targets.zip types).zip lhs).forM fun ((target, type), expr) ↦ do
    unless ← assignable type target do
      report expr.pos (.badTypeUse type target (.assignmentTo expr.text))

/-- An operation on a target in place. -/
def compoundAssignment (c : Checker) (lhs rhs : List Expr) : Check Unit := do
  match lhs, rhs with
  | target :: _, given :: _ =>
    let type ← targetType c target
    valueFor c type .assignment given
  | _, _ => return

def incDec (c : Checker) (info : NodeInfo) (target : Expr) (increment : Bool) : Check Unit := do
  let type ← targetType c target
  unless type.isInvalid || (← store).isNumeric type do
    report info.span.start (.nonNumeric target.text (if increment then "++" else "--") type)

/-! ### Calls and results -/

/-- Whether an expression is a call, perhaps in parentheses. -/
def isCall (expr : Expr) : Bool :=
  match expr.unparen with
  | .call .. => true
  | _ => false

/-- An expression for its effect, which must be a call. -/
def exprStmt (c : Checker) (info : NodeInfo) (expr : Expr) : Check Unit := do
  let operand ← c.expr expr
  unless isCall expr || operand.type.isInvalid do report info.span.start (.notUsed expr.text)

/-- A call that runs later or beside. -/
def deferred (c : Checker) (isGo : Bool) (call : Expr) : Check Unit := do
  unless isCall call do report call.pos (.noDeferredCall (if isGo then "go" else "defer"))
  c.exprs [call]

/-- Reports that a statement returns another number of values than the function. -/
def returnCount (info : NodeInfo) (given wanted : Nat) : Check Unit :=
  report info.span.start (if wanted < given then .tooManyReturned else .tooFewReturned)

/-- One expression returned for another number of results: a call may provide them all. -/
def returnSpread (c : Checker) (info : NodeInfo) (wanted : List Ty) (given : Expr) :
    Check Unit := do
  let operand ← c.expr given
  match operand.type with
  | .tuple types =>
    if types.length = wanted.length then assignEach given.pos .returned types wanted
    else returnCount info 1 wanted.length
  | _ => returnCount info 1 wanted.length

/-- A return statement: a bare one is always allowed. -/
def returned (c : Checker) (info : NodeInfo) (given : List Expr) : Check Unit := do
  let wanted := (← get).context.results.headD []
  match given, wanted with
  | [], _ => return
  | first :: _, [] =>
    c.exprs given
    report first.pos .tooManyReturned
  | _, _ =>
    if given.length = wanted.length then
      (given.zip wanted).forM fun (expr, target) ↦ valueFor c target .returned expr
    else
      match given with
      | [single] => returnSpread c info wanted single
      | _ =>
        c.exprs given
        returnCount info given.length wanted.length

/-! ### Switches -/

/-- A case of a switch: comparable with the tag, or boolean where there is none. -/
def caseExpr (c : Checker) (tag : Option Ty) (expr : Expr) : Check Unit := do
  let operand ← value c expr
  let store ← store
  let fits := match tag with
    | some tag => store.assignable operand.type tag || store.assignable tag operand.type
    | none => operand.type.isInvalid || store.isBoolean operand.type
  unless fits do report expr.pos (.badCase expr.text operand.type tag)

def switch (c : Checker) (init : Option Stmt) (tag : Option Expr) (clauses : List CaseClause) :
    Check Unit :=
  inBlock do
    optionalStmt c init
    let tag ← tag.mapM fun tag ↦ do return (← value c tag).type
    clauses.forM fun clause ↦ do
      clause.list.forM (caseExpr c tag)
      block c clause.body

/-- The type of the value that a type switch looks into. -/
def guardType (c : Checker) (guard : Expr) : Check Ty := do
  match guard.unparen with
  | .typeAssert _ operand none =>
    let found ← value c operand
    unless found.type.isInvalid || (← store).isInterface found.type do
      report operand.pos (.guardNoInterface operand.text found.type)
    return found.type
  | other => badTarget other.pos .badGuard

/-- Whether a case of a type switch stands for the nil value. -/
def nilCase? (expr : Expr) : Check (Option (Ident × SymbolId)) := do
  match expr.ident? with
  | none => return none
  | some ident =>
    if ident.name ≠ "nil" then return none
    match ← lookup? "nil" with
    | none => return none
    | some id => return if (← symbol id).kind = .nil then some (ident, id) else none

/-- The type of a case of a type switch, which the nil value has not. -/
def caseType (c : Checker) (expr : Expr) : Check (Option Ty) := do
  match ← nilCase? expr with
  | some (ident, id) =>
    recordUse ident id
    return none
  | none => return some (← c.typeExpr expr)

/-- The type of the bound name in an arm: that of its only case, or that of the guard. -/
def bindingType (guard : Ty) : List (Option Ty) → Ty
  | [some single] => single
  | _ => guard

/-- Binds the name of a type switch in an arm. -/
def bindArm (clause : CaseClause) (type : Ty) (binding : Ident) : Check SymbolId := do
  let id ← addVariable binding type true
  recordImplicit clause.info.id id
  unless binding.isBlank do bind binding.name id
  return id

/-- Checks an arm of a type switch and returns its symbol for the bound name. -/
def typeArm (c : Checker) (guard : Ty) (binding : Option Ident) (clause : CaseClause) :
    Check (Option SymbolId) := do
  let types ← clause.list.mapM (caseType c)
  inBlock do
    let bound ← binding.mapM (bindArm clause (bindingType guard types))
    c.stmts clause.body
    return bound

def typeSwitch (c : Checker) (init : Option Stmt) (binding : Option Ident) (guard : Expr)
    (clauses : List CaseClause) : Check Unit :=
  inBlock do
    optionalStmt c init
    let guard ← guardType c guard
    let bound ← clauses.mapM (typeArm c guard binding)
    match binding with
    | none => return
    | some binding =>
      unless binding.isBlank do
        modify fun s ↦ { s with bindings := s.bindings ++ [⟨binding, bound.filterMap (·)⟩] }

/-! ### All statements -/

/-- Checks a statement. -/
def stmt (c : Checker) : Stmt → Check Unit
  | .decl _ decl => localSpecs c (decl.kind == .const) 0 none decl.specs
  | .assign info lhs .define rhs => shortDecl c info lhs rhs
  | .assign info lhs .assign rhs => assignment c info lhs rhs
  | .assign _ lhs (.compound _) rhs => compoundAssignment c lhs rhs
  | .expr info operand => exprStmt c info operand
  | .incDec info operand increment => incDec c info operand increment
  | .ret info results => returned c info results
  | .block body => block c body.stmts
  | .cond _ init test body otherwise =>
    inBlock do
      optionalStmt c init
      condition c "if" test
      block c body.stmts
      optionalStmt c otherwise
  | .loop _ init test post body =>
    inBlock do
      optionalStmt c init
      test.forM (condition c "for")
      optionalStmt c post
      block c body.stmts
  | .switch _ init tag clauses => switch c init tag clauses
  | .typeSwitch _ init binding guard clauses => typeSwitch c init binding guard clauses
  | .deferred _ isGo call => deferred c isGo call
  | .branch _ _ => return

end PackageAtlas.CheckRule
