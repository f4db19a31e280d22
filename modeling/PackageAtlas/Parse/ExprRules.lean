import PackageAtlas.Parse.TypeRules

/-!
The rules for expressions: operands, what may follow an operand, and operators by precedence.
-/

set_option autoImplicit false
set_option relaxedAutoImplicit false

namespace PackageAtlas.Rule

open PackageAtlas.Parser

/-- The binary operator that a mark stands for. -/
def binaryOp? : TokenKind → Option BinaryOp
  | .pipePipe => some .logOr
  | .ampAmp => some .logAnd
  | .eqEq => some .eq
  | .bangEq => some .ne
  | .lt => some .lt
  | .ltEq => some .le
  | .gt => some .gt
  | .gtEq => some .ge
  | .plus => some .add
  | .minus => some .sub
  | .pipe => some .or
  | .caret => some .xor
  | .star => some .mul
  | .slash => some .div
  | .percent => some .rem
  | .shl => some .shl
  | .shr => some .shr
  | .amp => some .and
  | .andNot => some .andNot
  | _ => none

/-- The unary operator that a mark stands for; the star is a case of its own. -/
def unaryOp? : TokenKind → Option UnaryOp
  | .minus => some .neg
  | .plus => some .plus
  | .bang => some .not
  | .caret => some .bitNot
  | .amp => some .addr
  | _ => none

/-- Expressions with commas between them, at least one. -/
def exprs (g : Grammar) : Parser (List Expr) := do
  let first ← g.expr
  if ← eat .comma then return first :: (← g.exprs) else return [first]

/-- An expression of operators that bind at least as tightly as `minimum`. -/
def binary (g : Grammar) (minimum : Nat) : Parser Expr := do
  g.binaryRest minimum (← g.unary)

/-- Takes operators from the left as long as they bind tightly enough. -/
def binaryRest (g : Grammar) (minimum : Nat) (left : Expr) : Parser Expr := do
  match (← peek?).bind binaryOp? with
  | none => return left
  | some op =>
    if op.precedence < minimum then return left
    let _ ← bump
    let right ← g.binary (op.precedence + 1)
    let info ← node (left.span.cover right.span)
    g.binaryRest minimum (.binary info op left right)

def unary (g : Grammar) : Parser Expr := do
  let start ← start
  match ← peek? with
  | some .star =>
    let _ ← bump
    let operand ← g.unary
    return .star (← nodeFrom start) operand
  | kind =>
    match kind.bind unaryOp? with
    | some op =>
      let _ ← bump
      let operand ← g.unary
      return .unary (← nodeFrom start) op operand
    | none => g.primary

def literal (kind : LiteralKind) : Parser Expr := return .literal (← literalOf (← bump) kind)

/-- The body of a function, where composite literals are allowed again. -/
def body (g : Grammar) : Parser Block := withLevel (fun _ ↦ 0) g.block

def operand (g : Grammar) : Parser Expr := do
  let start ← start
  match ← peek? with
  | some .ident => return .ident (← ident)
  | some .int => literal .int
  | some .float => literal .float
  | some .char => literal .char
  | some .string => literal .string
  | some .lparen =>
    let _ ← bump
    let inner ← nested g.expr
    let _ ← expect .rparen
    return .paren (← nodeFrom start) inner
  | some .kwFunc =>
    let _ ← bump
    let type ← g.signature start
    if ← isNext .lbrace then
      let body ← body g
      return .funcLit (← nodeFrom start) type body
    else return .funcType type
  | some .lbracket | some .kwMap | some .kwStruct | some .kwInterface => g.type
  | _ => fail (.expected .expression)

def primary (g : Grammar) : Parser Expr := do
  let start ← start
  g.postfixRest start (← operand g)

/-- The arguments of a call up to its closing parenthesis. -/
def args (g : Grammar) : Parser (List Expr) := do
  if ← isNext .rparen then return []
  let first ← g.expr
  if ← eat .comma then return first :: (← g.args) else return [first]

/-- The elements of a composite literal up to its closing brace. -/
def elements (g : Grammar) : Parser (List Expr) := do
  if ← isNext .rbrace then return []
  let key ← g.expr
  let element ←
    if ← eat .colon then do
      let value ← g.expr
      pure (Expr.keyValue (← node (key.span.cover value.span)) key value)
    else pure key
  if ← eat .comma then return element :: (← g.elements) else return [element]

/-- Whether a composite literal may have this type: its braces follow a written type directly. -/
def isLiteralType : Expr → Bool
  | .ident _ | .arrayType .. | .mapType .. | .structType .. => true
  | .selector _ (.ident _) _ => true
  | _ => false

def composite (g : Grammar) (start : Nat) (type : Expr) : Parser Expr := do
  let _ ← expect .lbrace
  let elements ← withLevel (fun _ ↦ 0) g.elements
  let _ ← expect .rbrace
  return .composite (← nodeFrom start) type elements

/-- After a dot: a type assertion or a selected name. -/
def afterDot (g : Grammar) (start : Nat) (operand : Expr) : Parser Expr := do
  if ← eat .lparen then
    let type ← if ← eat .kwType then pure none else some <$> g.type
    let _ ← expect .rparen
    return .typeAssert (← nodeFrom start) operand type
  else
    let selected ← ident
    return .selector (← nodeFrom start) operand selected

/-- Takes selectors, assertions, indexes, calls and literal braces as long as they follow. -/
def postfixRest (g : Grammar) (start : Nat) (operand : Expr) : Parser Expr := do
  match ← peek? with
  | some .dot =>
    let _ ← bump
    g.postfixRest start (← afterDot g start operand)
  | some .lbracket =>
    let _ ← bump
    let key ← nested g.expr
    let _ ← expect .rbracket
    g.postfixRest start (.index (← nodeFrom start) operand key)
  | some .lparen =>
    let _ ← bump
    let args ← nested g.args
    let _ ← expect .rparen
    g.postfixRest start (.call (← nodeFrom start) operand args)
  | some .lbrace =>
    if (← get).level ≥ 0 && isLiteralType operand then
      g.postfixRest start (← composite g start operand)
    else return operand
  | _ => return operand

end PackageAtlas.Rule
