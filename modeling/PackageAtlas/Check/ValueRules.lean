import PackageAtlas.Check.Operand

/-!
Values for several targets: one value for each, or one expression that produces them all. Variables
and constants take their types from a declared type or from their initializers.
-/

set_option autoImplicit false
set_option relaxedAutoImplicit false

namespace PackageAtlas.CheckRule

open Check

/-- Whether an expression may also tell if it succeeded: a type assertion or an index into a map. -/
def isCommaOk (store : Store) (info : TypeInfo) (expr : Expr) : Bool :=
  match expr.unparen with
  | .typeAssert _ _ type => type.isSome
  | .index _ indexed _ =>
    match (info.typeOf? indexed.id).map store.underlying with
    | some (.map _ _) => true
    | _ => false
  | _ => false

/-- How many values an expression of a type produces. -/
def producedCount : Ty → Nat
  | .tuple types => types.length
  | _ => 1

/-- The types of several targets from one expression. -/
def spreadTypes (c : Checker) (expr : Expr) (count pos : Nat) : Check (List Ty) := do
  let operand ← c.expr expr
  let s ← get
  if count = 2 && isCommaOk s.store s.info expr then
    return [operand.type, .basic .untypedBool]
  let unknown := List.replicate count Ty.invalid
  let failed : Check (List Ty) := do
    report pos (.singleMismatch count (producedCount operand.type))
    return unknown
  match operand.type with
  | .tuple types => if types.length = count then return types else failed
  | .invalid => return unknown
  | _ => failed

/-- The types that expressions give to so many targets. -/
def valueTypes (c : Checker) (exprs : List Expr) (count pos : Nat) : Check (List Ty) := do
  if exprs.length = count then
    exprs.mapM fun expr ↦ do return (← value c expr).type
  else
    match exprs with
    | [expr] => spreadTypes c expr count pos
    | _ =>
      c.exprs exprs
      report pos (.countMismatch count exprs.length)
      return List.replicate count .invalid

/-! ### Initializers -/

/-- Gives a constant the value and the type of its expression. -/
def initConstant (c : Checker) (declared : Option Ty) (id : SymbolId) (expr : Expr) :
    Check Unit := do
  let operand ← c.expr expr
  let type := declared.getD operand.type
  unless ← assignable operand.type type do
    report expr.pos (.initMismatch operand.type type)
  modifyStore (·.setValue id operand.value)
  setType id type

/-- Gives constants their expressions in order. -/
def initConstants (c : Checker) (declared : Option Ty) : List SymbolId → List Expr → Check Unit
  | id :: ids, expr :: exprs => do
    initConstant c declared id expr
    initConstants c declared ids exprs
  | ids, _ => ids.forM fun id ↦ do
    report (← symbol id).pos .missingInit
    setType id .invalid

/-- Gives a variable its declared type, or the one that a value of its initializer gets. -/
def initVariable (declared : Option Ty) (id : SymbolId) (type : Ty) : Check Unit := do
  match declared with
  | none => setType id type.defaultType
  | some target =>
    unless ← assignable type target do
      report (← symbol id).pos (.initMismatch type target)
    setType id target

/-- Gives the symbols of a spec their types, and constants their values. -/
def initSymbols (c : Checker) (ids : List SymbolId) (type : Option Expr) (exprs : List Expr)
    (isConst : Bool) : Check Unit := do
  let declared ← type.mapM c.typeExpr
  let store ← store
  let pos := (ids.head?.map fun id ↦ (store.get id).pos).getD 0
  if isConst then
    initConstants c declared ids exprs
    if ids.length < exprs.length then report pos .extraInit
  else if exprs.isEmpty then
    ids.forM fun id ↦ setType id (declared.getD .invalid)
  else
    let types ← valueTypes c exprs ids.length pos
    (ids.zip types).forM fun (id, type) ↦ initVariable declared id type

end PackageAtlas.CheckRule
