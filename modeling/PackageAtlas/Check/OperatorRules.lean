import PackageAtlas.Check.Constant
import PackageAtlas.Check.NameRules

/-!
Operators. The operands of a binary operator share a type, which untyped constants take from the
other side; comparisons and shifts have rules of their own.
-/

set_option autoImplicit false
set_option relaxedAutoImplicit false

namespace PackageAtlas.CheckRule

open Check

/-- Reports an operator that is not defined on an operand. -/
def noOperator (pos : Nat) (op : String) (expr : Expr) (type : Ty) : Check Operand :=
  badExpr pos (.noOperator op expr.text type)

/-- The value behind a pointer, or a pointer type. -/
def indirection (c : Checker) (info : NodeInfo) (pointer : Expr) : Check Operand := do
  let found ← c.expr pointer
  match found.mode with
  | .type => return .ofType (.pointer found.type)
  | .value =>
    match (← store).pointee? found.type with
    | some element => return .ofValue element
    | none =>
      if found.type.isInvalid then return .unknown
      badExpr info.span.start (.noIndirection pointer.text found.type)
  | _ =>
    let _ ← singleValue found pointer
    return .invalid

def unary (c : Checker) (info : NodeInfo) (op : UnaryOp) (expr : Expr) : Check Operand := do
  let operand ← value c expr
  if operand.type.isInvalid then return .unknown
  let store ← store
  match op with
  | .addr => return .ofValue (.pointer operand.type)
  | .not =>
    if store.isBoolean operand.type then return .ofValue operand.type
    noOperator info.span.start op.text expr operand.type
  | .neg | .plus | .bitNot =>
    if store.isNumeric operand.type then
      return .constant operand.type (operand.value.bind (Constant.unary? op))
    noOperator info.span.start op.text expr operand.type

/-! ### Binary operators -/

/-- The operands of a binary operator in their places. -/
structure BinaryOperands where
  info : NodeInfo
  op : BinaryOp
  left : Expr
  right : Expr
  leftType : Ty
  rightType : Ty

/-- Reports operands whose types do not go together. -/
def BinaryOperands.mismatched (b : BinaryOperands) : Check Operand :=
  badExpr b.info.span.start
    (.mismatched b.left.text b.op.text b.right.text b.leftType b.rightType)

/-- A comparison: one side must be assignable to the other. -/
def comparison (b : BinaryOperands) : Check Operand := do
  if (← assignable b.leftType b.rightType) || (← assignable b.rightType b.leftType) then
    return .ofValue (.basic .untypedBool)
  b.mismatched

/-- A logical operator: both sides must be boolean; a typed side gives its type. -/
def logical (b : BinaryOperands) : Check Operand := do
  let store ← store
  if !store.isBoolean b.leftType then noOperator b.left.pos b.op.text b.left b.leftType
  else if !store.isBoolean b.rightType then noOperator b.right.pos b.op.text b.right b.rightType
  else return .ofValue (if b.leftType.isUntyped then b.rightType else b.leftType)

/-- The type that the two sides of an arithmetic operator share. -/
def sharedType? (store : Store) (left right : Ty) : Option Ty :=
  match left.isUntyped, right.isUntyped with
  | true, true => some (left.widerUntyped right)
  | true, false => if store.assignable left right then some right else none
  | false, true => if store.assignable right left then some left else none
  | false, false => if left.identical right then some left else none

/-- Whether an arithmetic operator is defined on a type: on numbers, and addition on texts too. -/
def isArithmetic (store : Store) (op : BinaryOp) (type : Ty) : Bool :=
  (op == .add && store.isString type) || store.isNumeric type

/-- An arithmetic operator; a constant divisor must not be zero. -/
def arithmetic (b : BinaryOperands) (left right : Option Int) : Check Operand := do
  let store ← store
  match sharedType? store b.leftType b.rightType with
  | none => b.mismatched
  | some type =>
    if !isArithmetic store b.op type then noOperator b.info.span.start b.op.text b.left type
    else
      match left, right with
      | some x, some y =>
        if (b.op = .div || b.op = .rem) && y = 0 then badExpr b.right.pos .divisionByZero
        else return .constant type (Constant.binary? b.op x y)
      | _, _ => return .ofValue type

/-- The value of a shift of one constant by another. -/
def shiftValue? (op : BinaryOp) (left right : Option Int) : Option Int :=
  match left, right with
  | some x, some y => Constant.shift? (op == .shl) x y
  | _, _ => none

def binary (c : Checker) (info : NodeInfo) (op : BinaryOp) (left right : Expr) :
    Check Operand := do
  let x ← value c left
  let y ← value c right
  if x.type.isInvalid || y.type.isInvalid then return .unknown
  let operands : BinaryOperands := ⟨info, op, left, right, x.type, y.type⟩
  if op.isComparison then comparison operands
  else if op = .logAnd || op = .logOr then logical operands
  else if op.isShift then return .constant x.type (shiftValue? op x.value y.value)
  else arithmetic operands x.value y.value

end PackageAtlas.CheckRule
