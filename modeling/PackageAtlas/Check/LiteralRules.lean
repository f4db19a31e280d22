import PackageAtlas.Check.OperatorRules
import PackageAtlas.Check.TypeRules

/-!
Literals, indexing and type assertions. A composite literal lists the fields of a struct, by name or
in order, the elements of a slice or an array, or the entries of a map.
-/

set_option autoImplicit false
set_option relaxedAutoImplicit false

namespace PackageAtlas.CheckRule

open Check

/-- The type and the value of a literal. -/
def literalOperand (literal : Literal) : Operand :=
  match literal.kind with
  | .int => .constant (.basic .untypedInt) literal.intValue?
  | .float => .ofValue (.basic .untypedFloat)
  | .char => .constant (.basic .untypedRune) (Constant.charValue? literal.text)
  | .string => .ofValue (.basic .untypedString)

/-- A function literal: its body is checked in place. -/
def funcLiteral (c : Checker) (type : FuncType) (body : Block) : Check Operand := do
  let signature ← signature c type
  inBlock do
    declareParams type signature
    inFunction signature.results (c.stmts body.stmts)
  return .ofValue (.func signature)

/-- Reports the operand of a type assertion if it is no interface. -/
def typeAssertion (c : Checker) (info : NodeInfo) (operand : Expr) (type : Option Expr) :
    Check Operand := do
  let found ← value c operand
  match type with
  | none => badExpr info.span.start .guardOutside
  | some type =>
    let type ← c.typeExpr type
    unless found.type.isInvalid || (← store).isInterface found.type do
      report operand.pos (.noAssertion operand.text found.type)
    return .ofValue type

/-! ### Indexing -/

/-- The structure that an index goes into: a pointer to an array counts as the array. -/
def indexedShape (store : Store) (type : Ty) : Ty :=
  match store.underlying type with
  | .pointer element =>
    match store.underlying element with
    | .array length inner => .array length inner
    | _ => .pointer element
  | shape => shape

def index (c : Checker) (info : NodeInfo) (indexed key : Expr) : Check Operand := do
  let found ← value c indexed
  let keyOperand ← value c key
  if found.type.isInvalid then return .unknown
  let failed := badExpr info.span.start (.noIndex indexed.text found.type)
  match indexedShape (← store) found.type with
  | .slice element | .array _ element => return .ofValue element
  | .map keyType valueType =>
    assignTo keyType .mapIndex keyOperand key
    return .ofValue valueType
  | .basic kind => if kind.isString then return .ofValue (.basic .uint8) else failed
  | _ => failed

/-! ### Composite literals -/

/-- A field given by its name. -/
def namedElement (c : Checker) (type : Ty) (fields : List Member) (key given : Expr) :
    Check Unit := do
  match key.ident? with
  | none =>
    report key.pos .badFieldName
    let _ ← value c given
  | some name =>
    let operand ← value c given
    match fields.find? (·.name == name.name) with
    | none => report name.pos (.unknownField name.name type)
    | some field =>
      recordUse name field.symbol
      assignTo field.type .structLiteral operand given

/-- An element of a struct literal, by name or by its place. -/
def structElement (c : Checker) (type : Ty) (fields : List Member) (place : Nat)
    (element : Expr) : Check Unit := do
  match element with
  | .keyValue _ key given => namedElement c type fields key given
  | _ =>
    let operand ← value c element
    match fields[place]? with
    | some field => assignTo field.type .structLiteral operand element
    | none => report element.pos (.tooManyFields type)

/-- An element of a slice or an array, perhaps with its place. -/
def listElement (c : Checker) (type : Ty) : Expr → Check Unit
  | .keyValue _ place given => do
    let _ ← value c place
    valueFor c type .sliceLiteral given
  | element => valueFor c type .sliceLiteral element

/-- An entry of a map. -/
def mapElement (c : Checker) (keyType valueType : Ty) : Expr → Check Unit
  | .keyValue _ key given => do
    valueFor c keyType .mapLiteral key
    valueFor c valueType .mapLiteral given
  | element => do
    report element.pos .missingKey
    let _ ← value c element

/-- An element of a literal whose type is unknown. -/
def looseElement (c : Checker) : Expr → Check Unit
  | .keyValue _ _ given => c.exprs [given]
  | element => c.exprs [element]

/-- Checks the elements of a literal against the structure of its type. -/
def elements (c : Checker) (typePos : Nat) (type shape : Ty) (elements : List Expr) :
    Check Unit := do
  match shape with
  | .struct fields =>
    elements.zipIdx.forM fun (element, place) ↦ structElement c type fields place element
  | .slice element | .array _ element => elements.forM (listElement c element)
  | .map keyType valueType => elements.forM (mapElement c keyType valueType)
  | .invalid => elements.forM (looseElement c)
  | _ => report typePos (.badLiteralType type)

def composite (c : Checker) (type : Expr) (given : List Expr) : Check Operand := do
  let literalType ← c.typeExpr type
  elements c type.pos literalType (← c.underlying literalType) given
  return .ofValue literalType

end PackageAtlas.CheckRule
