import Mathlib.Tactic.Push
import PackageAtlas.Tree.Rename

/-!
Trees without names. What is left of a tree when every identifier is blank is all that the tree says
besides names: kinds and identities, spans, literals, operators and comments. Two trees that leave
the same differ in the names of identifiers only. Renaming leaves the same (`Unnamed.file_rename`).
-/

set_option autoImplicit false
set_option relaxedAutoImplicit false

namespace PackageAtlas

namespace Unnamed

def ident (ident : Ident) : Ident := { ident with name := "" }

mutual

def expr : Expr → Expr
  | .ident i => .ident (ident i)
  | .literal l => .literal l
  | .selector info operand selected => .selector info (expr operand) (ident selected)
  | .call info callee args => .call info (expr callee) (exprs args)
  | .star info operand => .star info (expr operand)
  | .unary info op operand => .unary info op (expr operand)
  | .binary info op left right => .binary info op (expr left) (expr right)
  | .paren info inner => .paren info (expr inner)
  | .typeAssert info operand type => .typeAssert info (expr operand) (expr? type)
  | .index info operand key => .index info (expr operand) (expr key)
  | .composite info type elements => .composite info (expr type) (exprs elements)
  | .keyValue info key value => .keyValue info (expr key) (expr value)
  | .funcLit info type body => .funcLit info (funcType type) (block body)
  | .arrayType info length element => .arrayType info (expr? length) (expr element)
  | .mapType info key value => .mapType info (expr key) (expr value)
  | .structType info members => .structType info (fields members)
  | .interfaceType info elements => .interfaceType info (fields elements)
  | .funcType type => .funcType (funcType type)

def expr? : Option Expr → Option Expr
  | none => none
  | some e => some (expr e)

def exprs : List Expr → List Expr
  | [] => []
  | e :: rest => expr e :: exprs rest

def field : Field → Field
  | ⟨info, names, type⟩ => ⟨info, names.map ident, expr type⟩

def fields : List Field → List Field
  | [] => []
  | f :: rest => field f :: fields rest

def funcType : FuncType → FuncType
  | ⟨info, params, results⟩ => ⟨info, fields params, fields results⟩

def block : Block → Block
  | ⟨info, list⟩ => ⟨info, stmts list⟩

def stmts : List Stmt → List Stmt
  | [] => []
  | s :: rest => stmt s :: stmts rest

def stmt? : Option Stmt → Option Stmt
  | none => none
  | some s => some (stmt s)

def stmt : Stmt → Stmt
  | .decl info decl => .decl info (genDecl decl)
  | .assign info lhs op rhs => .assign info (exprs lhs) op (exprs rhs)
  | .expr info operand => .expr info (expr operand)
  | .incDec info operand increment => .incDec info (expr operand) increment
  | .ret info results => .ret info (exprs results)
  | .block b => .block (block b)
  | .cond info init test body otherwise =>
    .cond info (stmt? init) (expr test) (block body) (stmt? otherwise)
  | .loop info init test post body =>
    .loop info (stmt? init) (expr? test) (stmt? post) (block body)
  | .switch info init tag arms => .switch info (stmt? init) (expr? tag) (clauses arms)
  | .typeSwitch info init binding guard arms =>
    .typeSwitch info (stmt? init) (binding.map ident) (expr guard) (clauses arms)
  | .deferred info isGo call => .deferred info isGo (expr call)
  | .branch info isBreak => .branch info isBreak

def clause : CaseClause → CaseClause
  | ⟨info, list, body⟩ => ⟨info, exprs list, stmts body⟩

def clauses : List CaseClause → List CaseClause
  | [] => []
  | c :: rest => clause c :: clauses rest

def spec : Spec → Spec
  | .imports ⟨info, name, path, doc⟩ => .imports ⟨info, name.map ident, path, doc⟩
  | .value ⟨info, names, type, values⟩ =>
    .value ⟨info, names.map ident, expr? type, exprs values⟩
  | .type ⟨info, name, isAlias, type⟩ => .type ⟨info, ident name, isAlias, expr type⟩

def specs : List Spec → List Spec
  | [] => []
  | s :: rest => spec s :: specs rest

def genDecl : GenDecl → GenDecl
  | ⟨info, kind, list⟩ => ⟨info, kind, specs list⟩

end

def funcDecl : FuncDecl → FuncDecl
  | ⟨info, receiver, name, type, body⟩ =>
    ⟨info, receiver.map field, ident name, funcType type, body.map block⟩

def decl : Decl → Decl
  | .gen d => .gen (genDecl d)
  | .func d => .func (funcDecl d)

/-- A file with blank identifiers. -/
def file : SourceFile → SourceFile
  | ⟨info, name, packageName, decls⟩ => ⟨info, name, ident packageName, decls.map decl⟩

/-! ### New names -/

open Renames

variable (renames : Renames)

theorem ident_onIdent (name : Ident) (count : Nat) :
    ident (renames.onIdent name count).1 = ident name := by
  unfold onIdent
  cases renames.lookup name.name <;> rfl

/-- What a step leaves of each member of a list, it leaves of the list. -/
theorem map_mapM {σ α β : Type} {step : α → StateM σ α} {blank : α → β}
    (h : ∀ a s, blank (step a s).1 = blank a) (list : List α) (s : σ) :
    (list.mapM step s).1.map blank = list.map blank := by
  induction list generalizing s with
  | nil => rfl
  | cons a rest ih =>
    rw [List.mapM_cons]
    exact congrArg₂ List.cons (h a s) (ih (step a s).2)

theorem idents_onIdents (names : List Ident) (count : Nat) :
    (renames.onIdents names count).1.map ident = names.map ident :=
  map_mapM (ident_onIdent renames) names count

/-- Elements of a composite literal, when what stands in them is left the same. -/
theorem exprs_onElements_cons {values : Bool} {element : Expr} {rest : List Expr}
    (helement : ∀ count, expr (onExpr renames element count).1 = expr element)
    (hvalue : ∀ {info key value}, element = .keyValue info key value →
      ∀ count, expr (onExpr renames value count).1 = expr value)
    (hrest : ∀ count, exprs (onElements renames values rest count).1 = exprs rest) (count : Nat) :
    exprs (onElements renames values (element :: rest) count).1 = exprs (element :: rest) := by
  by_cases h : ∀ info key value, element ≠ .keyValue info (.ident key) value
  · rw [onElements]
    · exact congrArg₂ List.cons (helement count) (hrest _)
    · exact h
  · push Not at h
    obtain ⟨info, key, value, rfl⟩ := h
    cases values with
    | true =>
      exact congrArg₂ List.cons (congrArg₂ (Expr.keyValue info)
        (congrArg Expr.ident (ident_onIdent renames key count)) (hvalue rfl _)) (hrest _)
    | false =>
      exact congrArg₂ List.cons (congrArg (Expr.keyValue info (.ident (ident key))) (hvalue rfl _))
        (hrest _)

mutual

theorem expr_onExpr : (e : Expr) → (count : Nat) → expr (onExpr renames e count).1 = expr e
  | .ident name, count => congrArg Expr.ident (ident_onIdent renames name count)
  | .literal _, _ => rfl
  | .selector info operand selected, count =>
    congrArg (Expr.selector info · (ident selected)) (expr_onExpr operand count)
  | .call info callee args, count =>
    congrArg₂ (Expr.call info) (expr_onExpr callee count) (exprs_onExprs args _)
  | .star info operand, count => congrArg (Expr.star info) (expr_onExpr operand count)
  | .unary info op operand, count => congrArg (Expr.unary info op) (expr_onExpr operand count)
  | .binary info op left right, count =>
    congrArg₂ (Expr.binary info op) (expr_onExpr left count) (expr_onExpr right _)
  | .paren info inner, count => congrArg (Expr.paren info) (expr_onExpr inner count)
  | .typeAssert info operand type, count =>
    congrArg₂ (Expr.typeAssert info) (expr_onExpr operand count) (expr?_onExpr? type _)
  | .index info operand key, count =>
    congrArg₂ (Expr.index info) (expr_onExpr operand count) (expr_onExpr key _)
  | .composite info type elements, count =>
    congrArg₂ (Expr.composite info) (expr_onExpr type count) (exprs_onElements _ elements _)
  | .keyValue info key value, count =>
    congrArg₂ (Expr.keyValue info) (expr_onExpr key count) (expr_onExpr value _)
  | .funcLit info type body, count =>
    congrArg₂ (Expr.funcLit info) (funcType_onFuncType type count) (block_onBlock body _)
  | .arrayType info length element, count =>
    congrArg₂ (Expr.arrayType info) (expr?_onExpr? length count) (expr_onExpr element _)
  | .mapType info key value, count =>
    congrArg₂ (Expr.mapType info) (expr_onExpr key count) (expr_onExpr value _)
  | .structType info members, count =>
    congrArg (Expr.structType info) (fields_onMembers members count)
  | .interfaceType info elements, count =>
    congrArg (Expr.interfaceType info) (fields_onMembers elements count)
  | .funcType type, count => congrArg Expr.funcType (funcType_onFuncType type count)

theorem expr?_onExpr? : (e : Option Expr) → (count : Nat) →
    expr? (onExpr? renames e count).1 = expr? e
  | none, _ => rfl
  | some e, count => congrArg some (expr_onExpr e count)

theorem exprs_onExprs : (list : List Expr) → (count : Nat) →
    exprs (onExprs renames list count).1 = exprs list
  | [], _ => rfl
  | e :: rest, count => congrArg₂ List.cons (expr_onExpr e count) (exprs_onExprs rest _)

theorem exprs_onElements (values : Bool) : (elements : List Expr) → (count : Nat) →
    exprs (onElements renames values elements count).1 = exprs elements
  | [], _ => rfl
  | e :: rest, count => exprs_onElements_cons renames (expr_onExpr e) (expr_onValue e)
      (exprs_onElements values rest) count

/-- The value of an element with a key, which is renamed on its own when the key is a name. -/
theorem expr_onValue : (e : Expr) → ∀ {info key value}, e = .keyValue info key value →
    ∀ count, expr (onExpr renames value count).1 = expr value
  | .keyValue _ _ value => fun h count ↦ (Expr.keyValue.inj h).2.2 ▸ expr_onExpr value count
  | .ident _ | .literal _ | .selector .. | .call .. | .star .. | .unary .. | .binary .. => nofun
  | .paren .. | .typeAssert .. | .index .. | .composite .. | .funcLit .. | .arrayType .. => nofun
  | .mapType .. | .structType .. | .interfaceType .. | .funcType _ => nofun

theorem field_onField : (f : Field) → (count : Nat) → field (onField renames f count).1 = field f
  | ⟨info, names, type⟩, count =>
    congrArg₂ (Field.mk info) (idents_onIdents renames names count) (expr_onExpr type _)

theorem fields_onFields : (list : List Field) → (count : Nat) →
    fields (onFields renames list count).1 = fields list
  | [], _ => rfl
  | f :: rest, count => congrArg₂ List.cons (field_onField f count) (fields_onFields rest _)

theorem field_onMember : (f : Field) → (count : Nat) →
    field (onMember renames f count).1 = field f
  | ⟨info, names, type⟩, count =>
    congrArg (Field.mk info (names.map ident)) (expr_onExpr type count)

theorem fields_onMembers : (list : List Field) → (count : Nat) →
    fields (onMembers renames list count).1 = fields list
  | [], _ => rfl
  | f :: rest, count => congrArg₂ List.cons (field_onMember f count) (fields_onMembers rest _)

theorem funcType_onFuncType : (type : FuncType) → (count : Nat) →
    funcType (onFuncType renames type count).1 = funcType type
  | ⟨info, params, results⟩, count =>
    congrArg₂ (FuncType.mk info) (fields_onFields params count) (fields_onFields results _)

theorem block_onBlock : (b : Block) → (count : Nat) → block (onBlock renames b count).1 = block b
  | ⟨info, list⟩, count => congrArg (Block.mk info) (stmts_onStmts list count)

theorem stmts_onStmts : (list : List Stmt) → (count : Nat) →
    stmts (onStmts renames list count).1 = stmts list
  | [], _ => rfl
  | s :: rest, count => congrArg₂ List.cons (stmt_onStmt s count) (stmts_onStmts rest _)

theorem stmt?_onStmt? : (s : Option Stmt) → (count : Nat) →
    stmt? (onStmt? renames s count).1 = stmt? s
  | none, _ => rfl
  | some s, count => congrArg some (stmt_onStmt s count)

theorem stmt_onStmt : (s : Stmt) → (count : Nat) → stmt (onStmt renames s count).1 = stmt s
  | .decl info decl, count => congrArg (Stmt.decl info) (genDecl_onGenDecl decl count)
  | .assign info lhs op rhs, count =>
    congrArg₂ (Stmt.assign info · op ·) (exprs_onExprs lhs count) (exprs_onExprs rhs _)
  | .expr info operand, count => congrArg (Stmt.expr info) (expr_onExpr operand count)
  | .incDec info operand increment, count =>
    congrArg (Stmt.incDec info · increment) (expr_onExpr operand count)
  | .ret info results, count => congrArg (Stmt.ret info) (exprs_onExprs results count)
  | .block b, count => congrArg Stmt.block (block_onBlock b count)
  | .cond info init test body otherwise, count =>
    (congr (congr (congrArg₂ (Stmt.cond info) (stmt?_onStmt? init count) (expr_onExpr test _))
      (block_onBlock body _)) (stmt?_onStmt? otherwise _) :)
  | .loop info init test post body, count =>
    (congr (congr (congrArg₂ (Stmt.loop info) (stmt?_onStmt? init count) (expr?_onExpr? test _))
      (stmt?_onStmt? post _)) (block_onBlock body _) :)
  | .switch info init tag arms, count =>
    (congr (congrArg₂ (Stmt.switch info) (stmt?_onStmt? init count) (expr?_onExpr? tag _))
      (clauses_onClauses arms _) :)
  | .typeSwitch info init none guard arms, count =>
    (congr (congrArg₂ (Stmt.typeSwitch info · none ·) (stmt?_onStmt? init count)
      (expr_onExpr guard _)) (clauses_onClauses arms _) :)
  | .typeSwitch info init (some binding) guard arms, count =>
    (congr (congr (congrArg₂ (Stmt.typeSwitch info) (stmt?_onStmt? init count)
      (congrArg some (ident_onIdent renames binding _))) (expr_onExpr guard _))
      (clauses_onClauses arms _) :)
  | .deferred info isGo call, count => congrArg (Stmt.deferred info isGo) (expr_onExpr call count)
  | .branch _ _, _ => rfl

theorem clause_onClause : (c : CaseClause) → (count : Nat) →
    clause (onClause renames c count).1 = clause c
  | ⟨info, list, body⟩, count =>
    congrArg₂ (CaseClause.mk info) (exprs_onExprs list count) (stmts_onStmts body _)

theorem clauses_onClauses : (list : List CaseClause) → (count : Nat) →
    clauses (onClauses renames list count).1 = clauses list
  | [], _ => rfl
  | c :: rest, count => congrArg₂ List.cons (clause_onClause c count) (clauses_onClauses rest _)

theorem spec_onSpec : (s : Spec) → (count : Nat) → spec (onSpec renames s count).1 = spec s
  | .imports _, _ => rfl
  | .value ⟨info, names, type, values⟩, count =>
    congrArg Spec.value (congr (congrArg₂ (ValueSpec.mk info) (idents_onIdents renames names count)
      (expr?_onExpr? type _)) (exprs_onExprs values _))
  | .type ⟨info, name, isAlias, type⟩, count =>
    congrArg Spec.type (congrArg₂ (TypeSpec.mk info · isAlias ·) (ident_onIdent renames name count)
      (expr_onExpr type _))

theorem specs_onSpecs : (list : List Spec) → (count : Nat) →
    specs (onSpecs renames list count).1 = specs list
  | [], _ => rfl
  | s :: rest, count => congrArg₂ List.cons (spec_onSpec s count) (specs_onSpecs rest _)

theorem genDecl_onGenDecl : (d : GenDecl) → (count : Nat) →
    genDecl (onGenDecl renames d count).1 = genDecl d
  | ⟨info, kind, list⟩, count => congrArg (GenDecl.mk info kind) (specs_onSpecs list count)

end

theorem body_onBlock (body : Option Block) (count : Nat) :
    (body.mapM renames.onBlock count).1.map block = body.map block := by
  cases body with
  | none => rfl
  | some body => exact congrArg some (block_onBlock renames body count)

theorem funcDecl_onFuncDecl (d : FuncDecl) (count : Nat) :
    funcDecl (onFuncDecl renames d count).1 = funcDecl d := by
  obtain ⟨info, receiver, name, type, body⟩ := d
  cases receiver with
  | none =>
    exact (congr (congrArg₂ (FuncDecl.mk info none) (ident_onIdent renames name count)
      (funcType_onFuncType renames type _)) (body_onBlock renames body _) :)
  | some receiver =>
    exact (congr (congrArg₂ (FuncDecl.mk info · (ident name) ·)
      (congrArg some (field_onField renames receiver count)) (funcType_onFuncType renames type _))
      (body_onBlock renames body _) :)

theorem decl_onDecl (d : Decl) (count : Nat) : decl (onDecl renames d count).1 = decl d := by
  cases d with
  | gen d => exact congrArg Decl.gen (genDecl_onGenDecl renames d count)
  | func d => exact congrArg Decl.func (funcDecl_onFuncDecl renames d count)

/-- Renaming changes nothing but the names of identifiers. -/
theorem file_rename (f : SourceFile) : file (f.rename renames).1 = file f := by
  obtain ⟨info, name, packageName, decls⟩ := f
  exact congrArg (SourceFile.mk info name (ident packageName))
    (map_mapM (decl_onDecl renames) decls 0)

end Unnamed

end PackageAtlas
