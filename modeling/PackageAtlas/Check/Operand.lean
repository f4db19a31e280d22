import PackageAtlas.Check.Task

/-!
Operands as values: what stands where one value is wanted, and what is assigned to what.
-/

set_option autoImplicit false
set_option relaxedAutoImplicit false

namespace PackageAtlas

/-- Why an operand is not one value, if it is not and that was not reported before. -/
def Operand.valueProblem? (operand : Operand) (expr : Expr) : Option Problem :=
  match operand.mode, operand.type with
  | .value, .tuple types => some (.multipleValue expr.text (.tuple types))
  | .value, _ => none
  | .noValue, _ => some (.noValue expr.text)
  | .type, _ => some (.typeNoExpr expr.text)
  | .package _, _ => some (.packageNoSelector expr.text)
  | .builtin name, _ => some (.builtinNotCalled name)
  | .invalid, _ => none

theorem Operand.isSoft_valueProblem {operand : Operand} {expr : Expr} {problem : Problem}
    (h : operand.valueProblem? expr = some problem) : problem.isSoft = false := by
  unfold valueProblem? at h
  split at h <;> cases h <;> rfl

/-- The type of an operand as one value, invalid if it is none. -/
def Operand.valueType (operand : Operand) : Ty :=
  match operand.mode, operand.type with
  | .value, .tuple _ => .invalid
  | .value, type => type
  | _, _ => .invalid

namespace CheckRule

open Check

/-- The type of an expression as one value; what is none is reported. -/
def singleValue (operand : Operand) (expr : Expr) : Check Ty := do
  if let some problem := operand.valueProblem? expr then report expr.pos problem
  return operand.valueType

/-- Checks an expression as one value. -/
def value (c : Checker) (expr : Expr) : Check Operand := do
  let operand ← c.expr expr
  return { operand with type := ← singleValue operand expr }

/-- Checks expressions as one value each. -/
def values (c : Checker) (exprs : List Expr) : Check Unit :=
  exprs.forM fun expr ↦ do let _ ← value c expr

/-- Reports a value that cannot be assigned to a target. -/
def assignTo (target : Ty) (usage : Usage) (operand : Operand) (expr : Expr) : Check Unit := do
  unless ← assignable operand.type target do
    report expr.pos (.badUse expr.text operand.type target usage)

/-- Checks an expression as one value for a target. -/
def valueFor (c : Checker) (target : Ty) (usage : Usage) (expr : Expr) : Check Unit := do
  assignTo target usage (← value c expr) expr

/-- Reports results of a call that cannot be assigned to their targets, all at one place. -/
def assignEach (pos : Nat) (usage : Usage) (types targets : List Ty) : Check Unit :=
  (types.zip targets).forM fun (type, target) ↦ do
    unless ← assignable type target do report pos (.badTypeUse type target usage)

end CheckRule

end PackageAtlas
