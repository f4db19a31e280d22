import PackageAtlas.Check.CallRules
import PackageAtlas.Check.LiteralRules

/-!
Expressions. The type of an expression is recorded if it is a value or a type.
-/

set_option autoImplicit false
set_option relaxedAutoImplicit false

namespace PackageAtlas.CheckRule

open Check

/-- Checks an expression by its form. -/
def operandOf (c : Checker) (expr : Expr) : Check Operand := do
  match expr with
  | .ident ident => name c ident
  | .literal literal => return literalOperand literal
  | .selector _ operand selected => selector c operand selected
  | .call info callee args => call c info callee args
  | .star info pointer => indirection c info pointer
  | .unary info op operand => unary c info op operand
  | .binary info op left right => binary c info op left right
  | .paren _ inner => c.expr inner
  | .typeAssert info operand type => typeAssertion c info operand type
  | .index info indexed key => index c info indexed key
  | .composite _ type given => composite c type given
  | .keyValue info _ _ => badExpr info.span.start .keyValueOutside
  | .funcLit _ type body => funcLiteral c type body
  | .arrayType .. | .mapType .. | .structType .. | .interfaceType .. | .funcType .. =>
    return .ofType (← c.typeExpr expr)

/-- Checks an expression and records its type. -/
def expr (c : Checker) (expr : Expr) : Check Operand := do
  let operand ← operandOf c expr
  match operand.mode with
  | .value | .type => recordType expr.id operand.type
  | _ => pure ()
  return operand

end PackageAtlas.CheckRule
