import PackageAtlas.Parse.DeclRules

/-!
Files under another name, in another space, and at other positions. The nodes of a relocated tree
name the other space and lie further on, all by the same distance, and nothing else about them
changes, so that whatever a parser asks of a tree has the same answer.
-/

set_option autoImplicit false
set_option relaxedAutoImplicit false

namespace PackageAtlas

/-- Where a file goes: to a space, under a name, and how far. -/
structure Relocation where
  space : SpaceId
  name : String
  distance : Nat

namespace Relocation

def pos (move : Relocation) (pos : Nat) : Nat := pos + move.distance

def span (move : Relocation) (span : Span) : Span := ⟨move.pos span.start, move.pos span.stop⟩

def info (move : Relocation) (info : NodeInfo) : NodeInfo :=
  ⟨⟨move.space, move.pos info.id.file, info.id.index⟩, move.span info.span⟩

def ident (move : Relocation) (ident : Ident) : Ident := ⟨move.info ident.info, ident.name⟩

def literal (move : Relocation) (literal : Literal) : Literal :=
  ⟨move.info literal.info, literal.kind, literal.text⟩

mutual

def expr (move : Relocation) : Expr → Expr
  | .ident i => .ident (move.ident i)
  | .literal l => .literal (move.literal l)
  | .selector info operand selected =>
    .selector (move.info info) (expr move operand) (move.ident selected)
  | .call info callee args => .call (move.info info) (expr move callee) (exprs move args)
  | .star info operand => .star (move.info info) (expr move operand)
  | .unary info op operand => .unary (move.info info) op (expr move operand)
  | .binary info op left right =>
    .binary (move.info info) op (expr move left) (expr move right)
  | .paren info inner => .paren (move.info info) (expr move inner)
  | .typeAssert info operand type =>
    .typeAssert (move.info info) (expr move operand) (expr? move type)
  | .index info operand key => .index (move.info info) (expr move operand) (expr move key)
  | .composite info type elements =>
    .composite (move.info info) (expr move type) (exprs move elements)
  | .keyValue info key value => .keyValue (move.info info) (expr move key) (expr move value)
  | .funcLit info type body => .funcLit (move.info info) (funcType move type) (block move body)
  | .arrayType info length element =>
    .arrayType (move.info info) (expr? move length) (expr move element)
  | .mapType info key value => .mapType (move.info info) (expr move key) (expr move value)
  | .structType info fields => .structType (move.info info) (fields' move fields)
  | .interfaceType info elements => .interfaceType (move.info info) (fields' move elements)
  | .funcType type => .funcType (funcType move type)

def expr? (move : Relocation) : Option Expr → Option Expr
  | none => none
  | some e => some (expr move e)

def exprs (move : Relocation) : List Expr → List Expr
  | [] => []
  | e :: rest => expr move e :: exprs move rest

def field (move : Relocation) : Field → Field
  | ⟨info, names, type⟩ => ⟨move.info info, names.map move.ident, expr move type⟩

def fields' (move : Relocation) : List Field → List Field
  | [] => []
  | f :: rest => field move f :: fields' move rest

def funcType (move : Relocation) : FuncType → FuncType
  | ⟨info, params, results⟩ => ⟨move.info info, fields' move params, fields' move results⟩

def block (move : Relocation) : Block → Block
  | ⟨info, stmts⟩ => ⟨move.info info, stmts' move stmts⟩

def stmt (move : Relocation) : Stmt → Stmt
  | .decl info decl => .decl (move.info info) (genDecl move decl)
  | .assign info lhs op rhs => .assign (move.info info) (exprs move lhs) op (exprs move rhs)
  | .expr info operand => .expr (move.info info) (expr move operand)
  | .incDec info operand increment => .incDec (move.info info) (expr move operand) increment
  | .ret info results => .ret (move.info info) (exprs move results)
  | .block b => .block (block move b)
  | .cond info init test body otherwise =>
    .cond (move.info info) (stmt? move init) (expr move test) (block move body)
      (stmt? move otherwise)
  | .loop info init test post body =>
    .loop (move.info info) (stmt? move init) (expr? move test) (stmt? move post) (block move body)
  | .switch info init tag clauses =>
    .switch (move.info info) (stmt? move init) (expr? move tag) (clauses' move clauses)
  | .typeSwitch info init binding guard clauses =>
    .typeSwitch (move.info info) (stmt? move init) (binding.map move.ident) (expr move guard)
      (clauses' move clauses)
  | .deferred info isGo call => .deferred (move.info info) isGo (expr move call)
  | .branch info isBreak => .branch (move.info info) isBreak

def stmt? (move : Relocation) : Option Stmt → Option Stmt
  | none => none
  | some s => some (stmt move s)

def stmts' (move : Relocation) : List Stmt → List Stmt
  | [] => []
  | s :: rest => stmt move s :: stmts' move rest

def clause (move : Relocation) : CaseClause → CaseClause
  | ⟨info, list, body⟩ => ⟨move.info info, exprs move list, stmts' move body⟩

def clauses' (move : Relocation) : List CaseClause → List CaseClause
  | [] => []
  | c :: rest => clause move c :: clauses' move rest

def spec (move : Relocation) : Spec → Spec
  | .imports ⟨info, name, path, doc⟩ =>
    .imports ⟨move.info info, name.map move.ident, move.literal path, doc⟩
  | .value ⟨info, names, type, values⟩ =>
    .value ⟨move.info info, names.map move.ident, expr? move type, exprs move values⟩
  | .type ⟨info, name, isAlias, type⟩ =>
    .type ⟨move.info info, move.ident name, isAlias, expr move type⟩

def specs (move : Relocation) : List Spec → List Spec
  | [] => []
  | s :: rest => spec move s :: specs move rest

def genDecl (move : Relocation) : GenDecl → GenDecl
  | ⟨info, kind, list⟩ => ⟨move.info info, kind, specs move list⟩

end

def funcDecl (move : Relocation) (decl : FuncDecl) : FuncDecl :=
  ⟨move.info decl.info, decl.receiver.map move.field, move.ident decl.name,
    move.funcType decl.type, decl.body.map move.block⟩

def decl (move : Relocation) : Decl → Decl
  | .gen decl => .gen (move.genDecl decl)
  | .func decl => .func (move.funcDecl decl)

def file (move : Relocation) (file : SourceFile) : SourceFile :=
  ⟨move.info file.info, move.name, move.ident file.packageName, file.decls.map move.decl⟩

/-- An entry of a type or parameter list. -/
def entry (move : Relocation) (entry : Expr × Option Expr) : Expr × Option Expr :=
  (move.expr entry.1, move.expr? entry.2)

/-! ### What parsers ask of trees -/

section Answers

variable (move : Relocation)

@[simp] theorem span_info (info : NodeInfo) : (move.info info).span = move.span info.span := rfl

/-- What holds two ranges goes as far as they do. -/
theorem cover_span (first second : Span) :
    (move.span first).cover (move.span second) = move.span (first.cover second) := by
  simp only [Span.cover, span, pos, Nat.add_min_add_right, Nat.add_max_add_right]

theorem expr?_eq_map (e : Option Expr) : move.expr? e = e.map move.expr := by
  cases e <;> rfl

theorem exprs_eq_map (list : List Expr) : move.exprs list = list.map move.expr := by
  induction list with
  | nil => rfl
  | cons e rest ih => rw [exprs, ih, List.map_cons]

theorem isEmpty_exprs (list : List Expr) : (move.exprs list).isEmpty = list.isEmpty := by
  cases list <;> rfl

theorem fields'_eq_map (list : List Field) : move.fields' list = list.map move.field := by
  induction list with
  | nil => rfl
  | cons f rest ih => rw [fields', ih, List.map_cons]

@[simp] theorem span_expr (e : Expr) : (move.expr e).span = move.span e.span := by
  cases e with
  | funcType type => cases type; rfl
  | _ => rfl

theorem ident?_expr (e : Expr) : (move.expr e).ident? = e.ident?.map move.ident := by
  cases e <;> rfl

theorem unparen_expr : ∀ e : Expr, (move.expr e).unparen = move.expr e.unparen
  | .paren _ inner => unparen_expr inner
  | .ident _ | .literal _ | .selector .. | .call .. | .star .. | .unary .. | .binary .. => rfl
  | .typeAssert .. | .index .. | .composite .. | .keyValue .. | .funcLit .. => rfl
  | .arrayType .. | .mapType .. | .structType .. | .interfaceType .. | .funcType _ => rfl

theorem isLiteralType_expr (e : Expr) :
    Rule.isLiteralType (move.expr e) = Rule.isLiteralType e := by
  cases e with
  | selector info operand selected => cases operand <;> rfl
  | _ => rfl

theorem isTypeGuard_expr (e : Expr) : Rule.isTypeGuard (move.expr e) = Rule.isTypeGuard e := by
  cases e with
  | typeAssert info operand type => cases type <;> rfl
  | _ => rfl

theorem arity_field (field : Field) : (move.field field).arity = field.arity := by
  cases field with
  | mk info names type => simp [Relocation.field, Field.arity]

theorem info_genDecl (decl : GenDecl) : (move.genDecl decl).info = move.info decl.info := by
  cases decl; rfl

end Answers

end Relocation

end PackageAtlas
