import PackageAtlas.Check.State
import PackageAtlas.Tree.ExprText

/-!
The recursive tasks of a check. A rule is a step over the steps of all tasks; the recursion between
rules is tied once, for the whole package.
-/

set_option autoImplicit false
set_option relaxedAutoImplicit false

namespace PackageAtlas

/-- How an expression may be used. -/
inductive Mode where
  /-- A call without results. -/
  | noValue
  | value
  | type
  | package (scope : PackageScope)
  | builtin (name : String)
  /-- Reported already, or depends on what was. -/
  | invalid

/-- A checked expression: its mode, its type, and the value of an integer constant. -/
structure Operand where
  mode : Mode
  type : Ty
  value : Option Int

namespace Operand

def ofValue (type : Ty) : Operand := ⟨.value, type, none⟩

def constant (type : Ty) (value : Option Int) : Operand := ⟨.value, type, value⟩

def ofType (type : Ty) : Operand := ⟨.type, type, none⟩

def ofMode (mode : Mode) : Operand := ⟨mode, .invalid, none⟩

def invalid : Operand := ofMode .invalid

/-- A value of which nothing is known. -/
def unknown : Operand := ofValue .invalid

instance : Inhabited Operand := ⟨invalid⟩

end Operand

/-- A task: an expression or a statement to check, a type expression to evaluate, or a
package-level symbol to resolve. -/
inductive Task where
  | expr (expr : Expr)
  | typeExpr (expr : Expr)
  | stmt (stmt : Stmt)
  | resolve (symbol : SymbolId)

@[reducible] def Task.Result : Task → Type
  | expr _ => Operand
  | typeExpr _ => Ty
  | stmt _ | resolve _ => Unit

/-- The steps of all tasks. -/
abbrev Checker := (task : Task) → Check task.Result

namespace Checker

def expr (c : Checker) (e : Expr) : Check Operand := c (.expr e)
def typeExpr (c : Checker) (e : Expr) : Check Ty := c (.typeExpr e)
def stmt (c : Checker) (s : Stmt) : Check Unit := c (.stmt s)
def resolve (c : Checker) (id : SymbolId) : Check Unit := c (.resolve id)

def stmts (c : Checker) (ss : List Stmt) : Check Unit := ss.forM c.stmt

/-- Checks expressions whose values are not wanted. -/
def exprs (c : Checker) (es : List Expr) : Check Unit := es.forM fun e ↦ do let _ ← c.expr e

/-- The structure behind a type, which is resolved if need be. -/
def underlying (c : Checker) (type : Ty) : Check Ty := do
  match type with
  | .named name =>
    c.resolve name.symbol
    Check.underlying type
  | other => return other

end Checker

end PackageAtlas
