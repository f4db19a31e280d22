import PackageAtlas.Source.FileSet
import PackageAtlas.Text.Uppercase

/-!
The tree of a source file. Each node has an identity and a span; the identity names the coordinate
space, the file and the place in the file's count of nodes, so that no two nodes of a session share
one. A function type, a block and a name are nodes of their own wherever they stand.
-/

set_option autoImplicit false
set_option relaxedAutoImplicit false

namespace PackageAtlas

/-- The identity of a node: the coordinate space, the first position of the file, and the number of
the node in that file. -/
structure NodeId where
  space : SpaceId
  file : Nat
  index : Nat
deriving DecidableEq, Repr, Inhabited

/-- Which node it is and where it stands. -/
structure NodeInfo where
  id : NodeId
  span : Span
deriving DecidableEq, Repr, Inhabited

/-! ### Leaves -/

/-- An occurrence of a name. Renaming changes the name and keeps the span. -/
structure Ident where
  info : NodeInfo
  name : String
deriving DecidableEq, Repr, Inhabited

/-- A name is exported when it starts with an upper-case character. -/
def isExported (name : String) : Bool :=
  match name.toList with
  | [] => false
  | c :: _ => Text.isUppercase c

namespace Ident

def pos (ident : Ident) : Nat := ident.info.span.start

def isBlank (ident : Ident) : Bool := ident.name == "_"

end Ident

inductive LiteralKind where
  | int | float | char | string
deriving DecidableEq, Repr, Inhabited

/-- A literal with its text as written. -/
structure Literal where
  info : NodeInfo
  kind : LiteralKind
  text : String
deriving DecidableEq, Repr, Inhabited

inductive UnaryOp where
  | neg | plus | not | bitNot | addr
deriving DecidableEq, Repr, Inhabited

inductive BinaryOp where
  | logOr | logAnd | eq | ne | lt | le | gt | ge | add | sub | or | xor | mul | div | rem
  | shl | shr | and | andNot
deriving DecidableEq, Repr, Inhabited

namespace BinaryOp

/-- How tightly an operator binds, from 1 to 5. -/
def precedence : BinaryOp → Nat
  | logOr => 1
  | logAnd => 2
  | eq | ne | lt | le | gt | ge => 3
  | add | sub | or | xor => 4
  | mul | div | rem | shl | shr | and | andNot => 5

def isComparison (op : BinaryOp) : Bool := op.precedence == 3

def isShift : BinaryOp → Bool
  | shl | shr => true
  | _ => false

end BinaryOp

inductive AssignOp where
  | define
  | assign
  | compound (op : BinaryOp)
deriving DecidableEq, Repr, Inhabited

inductive DeclKind where
  | imports | const | var | type
deriving DecidableEq, Repr, Inhabited

/-- An import, with the comment block right above it. -/
structure ImportSpec where
  info : NodeInfo
  name : Option Ident
  path : Literal
  doc : Option String
deriving DecidableEq, Repr, Inhabited

/-! ### Expressions, statements and declarations -/

mutual

/-- An expression or a type expression. -/
inductive Expr where
  | ident (ident : Ident)
  | literal (literal : Literal)
  | selector (info : NodeInfo) (operand : Expr) (selected : Ident)
  | call (info : NodeInfo) (callee : Expr) (args : List Expr)
  | star (info : NodeInfo) (operand : Expr)
  | unary (info : NodeInfo) (op : UnaryOp) (operand : Expr)
  | binary (info : NodeInfo) (op : BinaryOp) (left right : Expr)
  | paren (info : NodeInfo) (inner : Expr)
  | typeAssert (info : NodeInfo) (operand : Expr) (type : Option Expr)
  | index (info : NodeInfo) (operand key : Expr)
  | composite (info : NodeInfo) (type : Expr) (elements : List Expr)
  | keyValue (info : NodeInfo) (key value : Expr)
  | funcLit (info : NodeInfo) (type : FuncType) (body : Block)
  | arrayType (info : NodeInfo) (length : Option Expr) (element : Expr)
  | mapType (info : NodeInfo) (key value : Expr)
  | structType (info : NodeInfo) (fields : List Field)
  | interfaceType (info : NodeInfo) (elements : List Field)
  | funcType (type : FuncType)

/-- Parameters, results, struct fields or interface elements that share a type; without names for
unnamed parameters and embedded types. -/
structure Field where
  info : NodeInfo
  names : List Ident
  type : Expr

structure FuncType where
  info : NodeInfo
  params : List Field
  results : List Field

structure Block where
  info : NodeInfo
  stmts : List Stmt

inductive Stmt where
  | decl (info : NodeInfo) (decl : GenDecl)
  | assign (info : NodeInfo) (lhs : List Expr) (op : AssignOp) (rhs : List Expr)
  | expr (info : NodeInfo) (operand : Expr)
  | incDec (info : NodeInfo) (operand : Expr) (increment : Bool)
  | ret (info : NodeInfo) (results : List Expr)
  | block (block : Block)
  | cond (info : NodeInfo) (init : Option Stmt) (test : Expr) (body : Block)
      (otherwise : Option Stmt)
  | loop (info : NodeInfo) (init : Option Stmt) (test : Option Expr) (post : Option Stmt)
      (body : Block)
  | switch (info : NodeInfo) (init : Option Stmt) (tag : Option Expr) (clauses : List CaseClause)
  | typeSwitch (info : NodeInfo) (init : Option Stmt) (binding : Option Ident) (guard : Expr)
      (clauses : List CaseClause)
  | deferred (info : NodeInfo) (isGo : Bool) (call : Expr)
  | branch (info : NodeInfo) (isBreak : Bool)

/-- An arm of a switch; the default arm has no list. -/
structure CaseClause where
  info : NodeInfo
  list : List Expr
  body : List Stmt

structure ValueSpec where
  info : NodeInfo
  names : List Ident
  type : Option Expr
  values : List Expr

structure TypeSpec where
  info : NodeInfo
  name : Ident
  isAlias : Bool
  type : Expr

inductive Spec where
  | imports (spec : ImportSpec)
  | value (spec : ValueSpec)
  | type (spec : TypeSpec)

/-- One or several specs under a keyword. -/
structure GenDecl where
  info : NodeInfo
  kind : DeclKind
  specs : List Spec

end

instance : Inhabited Expr := ⟨.ident default⟩
instance : Inhabited FuncType := ⟨⟨default, [], []⟩⟩
instance : Inhabited Block := ⟨⟨default, []⟩⟩
instance : Inhabited Stmt := ⟨.branch default true⟩
instance : Inhabited GenDecl := ⟨⟨default, .var, []⟩⟩

structure FuncDecl where
  info : NodeInfo
  receiver : Option Field
  name : Ident
  type : FuncType
  body : Option Block
deriving Inhabited

inductive Decl where
  | gen (decl : GenDecl)
  | func (decl : FuncDecl)
deriving Inhabited

/-- A parsed file under the name that its file set knows. -/
structure SourceFile where
  info : NodeInfo
  name : String
  packageName : Ident
  decls : List Decl
deriving Inhabited

/-- The files of one package. -/
structure PackageTree where
  id : NodeId
  name : String
  files : List SourceFile
deriving Inhabited

/-! ### Expressions -/

namespace Expr

def info : Expr → NodeInfo
  | ident i => i.info
  | literal l => l.info
  | selector info .. | call info .. | star info .. | unary info .. | binary info ..
  | paren info .. | typeAssert info .. | index info .. | composite info .. | keyValue info ..
  | funcLit info .. | arrayType info .. | mapType info .. | structType info ..
  | interfaceType info .. => info
  | funcType type => type.info

def id (expr : Expr) : NodeId := expr.info.id

def span (expr : Expr) : Span := expr.info.span

def pos (expr : Expr) : Nat := expr.info.span.start

def ident? : Expr → Option Ident
  | ident i => some i
  | _ => none

/-- The expression inside any number of parentheses. -/
def unparen : Expr → Expr
  | paren _ inner => inner.unparen
  | expr => expr

end Expr

/-! ### Statements and declarations -/

def Stmt.info : Stmt → NodeInfo
  | decl info .. | assign info .. | expr info .. | incDec info .. | ret info .. | cond info ..
  | loop info .. | switch info .. | typeSwitch info .. | deferred info .. | branch info .. => info
  | block b => b.info

/-- How many parameters or fields an entry declares. -/
def Field.arity (field : Field) : Nat := max field.names.length 1

def Decl.info : Decl → NodeInfo
  | gen decl => decl.info
  | func decl => decl.info

/-- The name of the receiver's base type, for a receiver written as a name or a pointer to one. -/
def FuncDecl.receiverBase? (decl : FuncDecl) : Option Ident :=
  decl.receiver.bind fun receiver ↦
    match receiver.type.unparen with
    | .ident i => some i
    | .star _ operand => operand.unparen.ident?
    | _ => none

/-! ### Files and packages -/

namespace SourceFile

/-- The imports of a file in their order. -/
def imports (file : SourceFile) : List ImportSpec :=
  file.decls.flatMap fun
    | .gen decl =>
      if decl.kind = .imports then
        decl.specs.filterMap fun
          | .imports spec => some spec
          | _ => none
      else []
    | .func _ => []

end SourceFile

/-- The part of a path after the last slash or backslash. -/
def baseName (path : String) : String :=
  String.ofList (path.toList.reverse.takeWhile fun c ↦ c != '/' && c != '\\').reverse

def SourceFile.baseName (file : SourceFile) : String := PackageAtlas.baseName file.name

namespace PackageTree

/-- The tree of a package, its files sorted by name. -/
def ofFiles (space : SpaceId) (name : String) (files : List SourceFile) : PackageTree :=
  let files := files.mergeSort fun first second ↦ first.name ≤ second.name
  ⟨⟨space, (files.head?.map (·.info.span.start)).getD 0, 0⟩, name, files⟩

def file? (tree : PackageTree) (name : String) : Option SourceFile :=
  tree.files.find? (·.name == name)

/-- The least span that holds all files. -/
def span (tree : PackageTree) : Span :=
  match tree.files with
  | [] => ⟨0, 0⟩
  | file :: rest => rest.foldl (fun span file ↦ span.cover file.info.span) file.info.span

end PackageTree

end PackageAtlas
