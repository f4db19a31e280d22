import PackageAtlas.Check.NameRules

/-!
Calls: conversions to a type, calls of a predeclared function, and calls of a function value. The
arguments of a function may also be the results of one call.
-/

set_option autoImplicit false
set_option relaxedAutoImplicit false

namespace PackageAtlas.CheckRule

open Check

/-- A conversion takes one argument and keeps its constant value. -/
def conversion (c : Checker) (info : NodeInfo) (target : Ty) (args : List Expr) :
    Check Operand := do
  match args with
  | [arg] => return .constant target (← value c arg).value
  | [] =>
    report info.span.start (.conversionWithout target)
    return .ofValue target
  | _ =>
    report info.span.start (.conversionTooMany target)
    c.exprs args
    return .ofValue target

/-! ### Predeclared functions -/

/-- What a call of a predeclared function produces. -/
inductive BuiltinResult where
  | int
  | nothing

/-- A predeclared function with a fixed number of arguments, if that number is checked. -/
def builtinCall (c : Checker) (pos : Nat) (name : String) (arity : Option Nat)
    (result : BuiltinResult) (args : List Expr) : Check Operand := do
  if let some arity := arity then
    if args.length ≠ arity then report pos (.builtinArity name (toString arity))
  values c args
  match result with
  | .int => return .ofValue (.basic .int)
  | .nothing => return .ofMode .noValue

/-- A call of `append`: what is appended must fit the elements of the slice. -/
def appendCall (c : Checker) (slice : Expr) (added : List Expr) : Check Operand := do
  let slice ← value c slice
  match ← Check.underlying slice.type with
  | .slice element => added.forM (valueFor c element (.argument "append"))
  | _ => values c added
  return .ofValue slice.type.defaultType

/-- A call of a predeclared function. -/
def builtin (c : Checker) (info : NodeInfo) (name : String) (args : List Expr) :
    Check Operand := do
  let pos := info.span.start
  match name, args with
  | "len", _ | "cap", _ => builtinCall c pos name (some 1) .int args
  | "copy", _ => builtinCall c pos name (some 2) .int args
  | "delete", _ => builtinCall c pos name (some 2) .nothing args
  | "append", slice :: added => appendCall c slice added
  | "make", type :: sizes =>
    let type ← c.typeExpr type
    values c sizes
    return .ofValue type
  | "new", type :: others =>
    let type ← c.typeExpr type
    values c others
    return .ofValue (.pointer type)
  | "append", [] | "make", [] | "new", [] => badExpr pos (.builtinArity name "at least 1")
  | _, _ => builtinCall c pos name none .nothing args

/-! ### Function values -/

/-- Reports a wrong number of arguments, behind the last one. -/
def argCount (info : NodeInfo) (callee : String) (given wanted : Nat) : Check Unit := do
  if given < wanted then report info.span.stop (.tooFewArgs callee)
  else if wanted < given then report info.span.stop (.tooManyArgs callee)

/-- One argument where several are wanted: a call may provide them all. -/
def spreadArg (c : Checker) (info : NodeInfo) (callee : String) (params : List Ty) (arg : Expr) :
    Check Unit := do
  let usage := Usage.argument callee
  let operand ← c.expr arg
  match operand.type with
  | .tuple types =>
    if types.length ≠ params.length then argCount info callee types.length params.length
    else assignEach arg.pos usage types params
  | _ =>
    let type ← singleValue operand arg
    assignTo (params.headD .invalid) usage { operand with type } arg
    argCount info callee 1 params.length

/-- Arguments beside their parameters; those beyond the last parameter are checked as values. -/
def eachArg (c : Checker) (usage : Usage) : List Ty → List Expr → Check Unit
  | _, [] => return
  | [], args => values c args
  | param :: params, arg :: args => do
    valueFor c param usage arg
    eachArg c usage params args

/-- Checks the arguments of a call against the parameters. -/
def arguments (c : Checker) (info : NodeInfo) (callee : String) (params : List Ty)
    (args : List Expr) : Check Unit := do
  match args, params with
  | [arg], _ :: _ :: _ => spreadArg c info callee params arg
  | _, _ =>
    eachArg c (.argument callee) params args
    argCount info callee args.length params.length

/-- What a call of a function with these results is. -/
def resultOperand : List Ty → Operand
  | [] => .ofMode .noValue
  | [single] => .ofValue single
  | many => .ofValue (.tuple many)

/-- A call of a value, which must be a function. -/
def valueCall (c : Checker) (info : NodeInfo) (callee : Expr) (type : Ty) (args : List Expr) :
    Check Operand := do
  match (← store).signature? type with
  | some signature =>
    arguments c info callee.text signature.params args
    return resultOperand signature.results
  | none =>
    unless type.isInvalid do report info.span.start (.noFunction callee.text type)
    c.exprs args
    return .unknown

/-- A call as an expression. -/
def call (c : Checker) (info : NodeInfo) (callee : Expr) (args : List Expr) : Check Operand := do
  let found ← c.expr callee
  match found.mode with
  | .type => conversion c info found.type args
  | .builtin name => builtin c info name args
  | .value => valueCall c info callee found.type args
  | _ =>
    let _ ← singleValue found callee
    c.exprs args
    return .invalid

end PackageAtlas.CheckRule
