import PackageAtlas.Parse.ExprRules

/-!
The rules for statements. In the header of a statement an opening brace starts the body, so the
composite-literal level is below zero there.
-/

set_option autoImplicit false
set_option relaxedAutoImplicit false

namespace PackageAtlas.Rule

open PackageAtlas.Parser

/-- The operator of an assignment. -/
def assignOp? : TokenKind → Option AssignOp
  | .colonEq => some .define
  | .eq => some .assign
  | .addAssign => some (.compound .add)
  | .subAssign => some (.compound .sub)
  | .mulAssign => some (.compound .mul)
  | .divAssign => some (.compound .div)
  | .remAssign => some (.compound .rem)
  | .andAssign => some (.compound .and)
  | .orAssign => some (.compound .or)
  | .xorAssign => some (.compound .xor)
  | .shlAssign => some (.compound .shl)
  | .shrAssign => some (.compound .shr)
  | .andNotAssign => some (.compound .andNot)
  | _ => none

def block (g : Grammar) : Parser Block := do
  let start ← start
  let _ ← expect .lbrace
  let stmts ← g.stmts
  let _ ← expect .rbrace
  return ⟨← nodeFrom start, stmts⟩

/-- Statements up to a closing brace or the next arm; empty statements leave no trace. -/
def stmts (g : Grammar) : Parser (List Stmt) := do
  match ← peek? with
  | none | some .rbrace | some .kwCase | some .kwDefault => return []
  | _ =>
    if ← eat .semicolon then g.stmts
    else
      let stmt ← g.stmt
      separator
      return stmt :: (← g.stmts)

/-- An assignment, an increment or an expression. -/
def simpleStmt (g : Grammar) : Parser Stmt := do
  let start ← start
  let lhs ← g.exprs
  match (← peek?).bind assignOp? with
  | some op =>
    let _ ← bump
    let rhs ← g.exprs
    if op = .define && lhs.any (·.ident?.isNone) then fail .defineNoName
    return .assign (← nodeFrom start) lhs op rhs
  | none =>
    match lhs with
    | [operand] =>
      match ← peek? with
      | some .plusPlus =>
        let _ ← bump
        return .incDec (← nodeFrom start) operand true
      | some .minusMinus =>
        let _ ← bump
        return .incDec (← nodeFrom start) operand false
      | _ => return .expr (← nodeFrom start) operand
    | _ => fail (.expected .oneExpression)

/-- Runs the parser of a statement header. -/
def header {α : Type} (parser : Parser α) : Parser α := withLevel (fun _ ↦ -1) parser

/-- A condition, after an optional statement. -/
def condHeader (g : Grammar) : Parser (Option Stmt × Expr) := do
  let first ← g.simpleStmt
  if ← eat .semicolon then return (some first, ← g.expr)
  match first with
  | .expr _ test => return (none, test)
  | _ => fail (.expected .condition)

def condStmt (g : Grammar) : Parser Stmt := do
  let start ← start
  let _ ← expect .kwIf
  let (init, test) ← header (condHeader g)
  let body ← g.block
  let otherwise ←
    if ← eat .kwElse then
      match ← peek? with
      | some .kwIf => some <$> g.condStmt
      | some .lbrace => (some ∘ Stmt.block) <$> g.block
      | _ => fail (.expected .ifOrBlock)
    else pure none
  return .cond (← nodeFrom start) init test body otherwise

/-- The header of a loop: nothing, a condition, or three clauses that may be empty. -/
def loopHeader (g : Grammar) : Parser (Option Stmt × Option Expr × Option Stmt) := do
  if ← isNext .lbrace then return (none, none, none)
  let init ← if ← isNext .semicolon then pure none else some <$> g.simpleStmt
  if ← isNext .lbrace then
    match init with
    | some (.expr _ test) => return (none, some test, none)
    | _ => fail (.expected .loopCondition)
  let _ ← expect .semicolon
  let test ← if ← isNext .semicolon then pure none else some <$> g.expr
  let _ ← expect .semicolon
  let post ← if ← isNext .lbrace then pure none else some <$> g.simpleStmt
  return (init, test, post)

def loopStmt (g : Grammar) : Parser Stmt := do
  let start ← start
  let _ ← expect .kwFor
  let (init, test, post) ← header (loopHeader g)
  let body ← g.block
  return .loop (← nodeFrom start) init test post body

/-- The header of a switch: an optional statement, and the tag as a statement. -/
def switchHeader (g : Grammar) : Parser (Option Stmt × Option Stmt) := do
  if ← isNext .lbrace then return (none, none)
  let first ← if ← isNext .semicolon then pure none else some <$> g.simpleStmt
  if ← eat .semicolon then
    let tag ← if ← isNext .lbrace then pure none else some <$> g.simpleStmt
    return (first, tag)
  else return (none, first)

/-- Whether an expression asks for the dynamic type of its operand. -/
def isTypeGuard : Expr → Bool
  | .typeAssert _ _ none => true
  | _ => false

/-- The statement that a switch with this tag is. A type guard as tag, on its own or bound to a
name, makes it a type switch. -/
def switchOf (span : Span) (init tag : Option Stmt) (clauses : List CaseClause) : Parser Stmt := do
  match tag with
  | none => return .switch (← node span) init none clauses
  | some (.expr _ tag) =>
    if isTypeGuard tag then return .typeSwitch (← node span) init none tag clauses
    else return .switch (← node span) init (some tag) clauses
  | some (.assign _ [.ident binding] .define [guard]) =>
    if isTypeGuard guard then return .typeSwitch (← node span) init (some binding) guard clauses
    else fail .switchNoExpression
  | some _ => fail .switchNoExpression

def switchStmt (g : Grammar) : Parser Stmt := do
  let start ← start
  let _ ← expect .kwSwitch
  let (init, tag) ← header (switchHeader g)
  let _ ← expect .lbrace
  let clauses ← g.clauses
  let _ ← expect .rbrace
  let span : Span := ⟨start, (← read).entry.pos (← get).lastStop⟩
  switchOf span init tag clauses

def clause (g : Grammar) : Parser CaseClause := do
  let start ← start
  let list ←
    if ← eat .kwDefault then pure []
    else do
      let _ ← expect .kwCase
      g.exprs
  let _ ← expect .colon
  let body ← g.stmts
  return ⟨← nodeFrom start, list, body⟩

/-- The arms of a switch up to its closing brace. -/
def clauses (g : Grammar) : Parser (List CaseClause) := do
  match ← peek? with
  | some .kwCase | some .kwDefault =>
    let first ← clause g
    return first :: (← g.clauses)
  | _ => return []

def returnStmt (g : Grammar) : Parser Stmt := do
  let start ← start
  let _ ← bump
  let results ← if (← isNext .semicolon) || (← isNext .rbrace) then pure [] else g.exprs
  return .ret (← nodeFrom start) results

def branchStmt (isBreak : Bool) : Parser Stmt := do
  let start ← start
  let _ ← bump
  return .branch (← nodeFrom start) isBreak

def deferredStmt (g : Grammar) (isGo : Bool) : Parser Stmt := do
  let start ← start
  let _ ← bump
  let call ← g.expr
  match call.unparen with
  | .call .. => return .deferred (← nodeFrom start) isGo call
  | _ => fail .deferredNoCall

def declStmt (g : Grammar) : Parser Stmt := do
  let decl ← g.genDecl
  return .decl (← node decl.info.span) decl

def stmt (g : Grammar) : Parser Stmt := do
  match ← peek? with
  | some .kwVar | some .kwConst | some .kwType => declStmt g
  | some .kwReturn => returnStmt g
  | some .kwBreak => branchStmt true
  | some .kwContinue | some .kwFallthrough => branchStmt false
  | some .lbrace => .block <$> g.block
  | some .kwIf => g.condStmt
  | some .kwFor => loopStmt g
  | some .kwSwitch => switchStmt g
  | some .kwGo => deferredStmt g true
  | some .kwDefer => deferredStmt g false
  | _ => g.simpleStmt

end PackageAtlas.Rule
