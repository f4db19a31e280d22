import PackageAtlas.Check.Operand

/-!
Names and selectors. A name stands for its symbol; a selector for a member of a package, a method of
a type, or a field or method of a value.
-/

set_option autoImplicit false
set_option relaxedAutoImplicit false

namespace PackageAtlas.CheckRule

open Check

/-- Reports a problem of an expression that then has no value. -/
def badExpr (pos : Nat) (problem : Problem) : Check Operand := do
  report pos problem
  return .invalid

/-- A constant; `iota` has a value inside a group of constants only. -/
def constantOperand (c : Checker) (id : SymbolId) (pos : Nat) : Check Operand := do
  if Universe.isIota id then
    match (← get).context.iota with
    | some iota => return .constant (.basic .untypedInt) (some iota)
    | none => badExpr pos .iotaOutside
  else
    c.resolve id
    return .constant (← typeOf id) (← symbol id).value

/-- What a symbol stands for in an expression. -/
def symbolOperand (c : Checker) (id : SymbolId) (pos : Nat) : Check Operand := do
  let found ← symbol id
  match found.kind with
  | .var | .func =>
    c.resolve id
    return .ofValue (← typeOf id)
  | .const => constantOperand c id pos
  | .typeName =>
    c.resolve id
    return .ofType (← typeOf id)
  | .pkgName => return (found.imported.map fun scope ↦ .ofMode (.package scope)).getD .invalid
  | .builtin => return .ofMode (.builtin found.name)
  | .nil => return .ofValue (.basic .untypedNil)

/-- A name as an expression. -/
def name (c : Checker) (ident : Ident) : Check Operand := do
  if ident.isBlank then badExpr ident.pos .blankValue
  else
    match ← lookup? ident.name with
    | none => badExpr ident.pos (.undefined ident.name)
    | some id =>
      recordUse ident id
      markUsed id
      symbolOperand c id ident.pos

/-- An exported member of a package. Of a stand-in package any name is a member. -/
def packageMember (c : Checker) (scope : PackageScope) (package : String) (selected : Ident) :
    Check Operand := do
  if scope.isFake then
    recordUse selected (← foreignMember selected.name)
    return .unknown
  match scope.find? selected.name with
  | none => badExpr selected.pos (.undefinedMember package selected.name)
  | some id =>
    if (← symbol id).isExported then
      recordUse selected id
      symbolOperand c id selected.pos
    else badExpr selected.pos (.notExported package selected.name)

/-- The type of a method as a function whose first parameter is the receiver. -/
def methodExprType (store : Store) (receiver : Ty) (method : SymbolId) : Ty :=
  match store.signature? (store.typeOf method) with
  | some signature => .func ⟨receiver :: signature.params, signature.results⟩
  | none => .invalid

/-- A method selected from a type. -/
def methodOfType (c : Checker) (type : Ty) (selected : Ident) : Check Operand := do
  let store ← store
  match (store.member? type selected.name).filter fun id ↦ (store.get id).isFunc with
  | none =>
    unless type.isInvalid do report selected.pos (.noMethod type selected.name)
    return .invalid
  | some method =>
    recordUse selected method
    c.resolve method
    return .ofValue (methodExprType (← Check.store) type method)

/-- A field or method selected from a value. -/
def memberOfValue (c : Checker) (operand : Expr) (type : Ty) (selected : Ident) :
    Check Operand := do
  if type.isInvalid then return .unknown
  let store ← store
  match store.member? type selected.name with
  | none => badExpr selected.pos (.noMember operand.text selected.name type)
  | some member =>
    recordUse selected member
    if (store.get member).isFunc then c.resolve member
    return .ofValue (← typeOf member)

/-- A selector as an expression. -/
def selector (c : Checker) (operand : Expr) (selected : Ident) : Check Operand := do
  let found ← c.expr operand
  match found.mode with
  | .package scope => packageMember c scope operand.text selected
  | .type => methodOfType c found.type selected
  | .value => memberOfValue c operand (← singleValue found operand) selected
  | _ =>
    let _ ← singleValue found operand
    return .invalid

end PackageAtlas.CheckRule
