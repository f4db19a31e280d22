import PackageAtlas.Parse.Parser

/-!
The nonterminals of the grammar and what each of them reads. A rule of the grammar is a parser over
the parsers of all nonterminals, so that rules are plain definitions and the recursion between them
is tied once, in `Goal.parser`.
-/

set_option autoImplicit false
set_option relaxedAutoImplicit false

namespace PackageAtlas

/-- A nonterminal. A list goal reads the rest of a list, and `binaryRest` and `postfixRest` go on
after the operand that they carry. -/
inductive Goal where
  | decls
  | importDecls
  | genDecl
  | specs (kind : DeclKind)
  | spec (kind : DeclKind) (docOffset : Nat)
  | funcDecl
  | signature (start : Nat)
  | parameters
  | parameterEntries
  | idents
  | type
  | structFields
  | interfaceElements
  | block
  | stmts
  | stmt
  | simpleStmt
  | condStmt
  | clauses
  | exprs
  | binary (minimum : Nat)
  | binaryRest (minimum : Nat) (left : Expr)
  | unary
  | primary
  | postfixRest (start : Nat) (operand : Expr)
  | args
  | elements

/-- What a nonterminal reads. -/
@[reducible] def Goal.Result : Goal → Type
  | decls | importDecls => List Decl
  | genDecl => GenDecl
  | specs _ => List Spec
  | spec _ _ => Spec
  | funcDecl => FuncDecl
  | signature _ => FuncType
  | parameters => List Field
  | parameterEntries => List (Expr × Option Expr)
  | idents => List Ident
  | structFields | interfaceElements => List Field
  | block => Block
  | stmts => List Stmt
  | stmt | simpleStmt | condStmt => Stmt
  | clauses => List CaseClause
  | exprs | args | elements => List Expr
  | type | binary _ | binaryRest _ _ | unary | primary | postfixRest _ _ => Expr

/-- The parsers of all nonterminals. -/
abbrev Grammar := (goal : Goal) → Parser goal.Result

namespace Grammar

def decls (g : Grammar) : Parser (List Decl) := g .decls
def importDecls (g : Grammar) : Parser (List Decl) := g .importDecls
def genDecl (g : Grammar) : Parser GenDecl := g .genDecl
def specs (g : Grammar) (kind : DeclKind) : Parser (List Spec) := g (.specs kind)
def spec (g : Grammar) (kind : DeclKind) (docOffset : Nat) : Parser Spec :=
  g (.spec kind docOffset)
def funcDecl (g : Grammar) : Parser FuncDecl := g .funcDecl
def signature (g : Grammar) (start : Nat) : Parser FuncType := g (.signature start)
def parameters (g : Grammar) : Parser (List Field) := g .parameters
def parameterEntries (g : Grammar) : Parser (List (Expr × Option Expr)) := g .parameterEntries
def idents (g : Grammar) : Parser (List Ident) := g .idents
def type (g : Grammar) : Parser Expr := g .type
def structFields (g : Grammar) : Parser (List Field) := g .structFields
def interfaceElements (g : Grammar) : Parser (List Field) := g .interfaceElements
def block (g : Grammar) : Parser Block := g .block
def stmts (g : Grammar) : Parser (List Stmt) := g .stmts
def stmt (g : Grammar) : Parser Stmt := g .stmt
def simpleStmt (g : Grammar) : Parser Stmt := g .simpleStmt
def condStmt (g : Grammar) : Parser Stmt := g .condStmt
def clauses (g : Grammar) : Parser (List CaseClause) := g .clauses
def exprs (g : Grammar) : Parser (List Expr) := g .exprs
def binary (g : Grammar) (minimum : Nat) : Parser Expr := g (.binary minimum)
def binaryRest (g : Grammar) (minimum : Nat) (left : Expr) : Parser Expr :=
  g (.binaryRest minimum left)
def unary (g : Grammar) : Parser Expr := g .unary
def primary (g : Grammar) : Parser Expr := g .primary
def postfixRest (g : Grammar) (start : Nat) (operand : Expr) : Parser Expr :=
  g (.postfixRest start operand)
def args (g : Grammar) : Parser (List Expr) := g .args
def elements (g : Grammar) : Parser (List Expr) := g .elements

/-- Any expression: a binary one of the loosest operators. -/
def expr (g : Grammar) : Parser Expr := g.binary 1

end Grammar

end PackageAtlas
