import Mathlib.Tactic.Push
import PackageAtlas.Tree.Rename

/-!
The empty table of new names. It leaves every tree as it is and counts nothing, so that a file in
which nothing is renamed is the file itself.
-/

set_option autoImplicit false
set_option relaxedAutoImplicit false

namespace PackageAtlas

namespace Renames

theorem onIdent_nil (ident : Ident) : onIdent [] ident = pure ident := rfl

theorem onIdents_nil (idents : List Ident) : onIdents [] idents = pure idents := by
  unfold onIdents
  induction idents with
  | nil => rfl
  | cons ident rest ih =>
    rw [List.mapM_cons, ih]
    rfl

/-- A named element is one of the two shapes that are renamed on their own, and what its own
expression says of it settles its value. -/
theorem onElements_cons_nil {values : Bool} {expr : Expr} {rest : List Expr}
    (hexpr : onExpr [] expr = pure expr) (hrest : onElements [] values rest = pure rest) :
    onElements [] values (expr :: rest) = pure (expr :: rest) := by
  by_cases h : ∀ info key value, expr ≠ .keyValue info (.ident key) value
  · rw [onElements, hexpr, hrest]
    · rfl
    · exact h
  · push Not at h
    obtain ⟨info, key, value, rfl⟩ := h
    have hvalue : onExpr [] value = pure value := by
      funext count
      have hrun := congrFun hexpr count
      have hvalue := congrArg Prod.fst hrun
      have hcount := congrArg Prod.snd hrun
      injection hvalue with _ _ hvalue
      exact Prod.ext hvalue hcount
    rw [onElements, hvalue, hrest, onIdent_nil, ite_self]
    rfl

mutual

theorem onExpr_nil : (expr : Expr) → onExpr [] expr = pure expr
  | .ident _ | .literal _ => rfl
  | .selector _ operand _ | .star _ operand | .unary _ _ operand | .paren _ operand => by
    rw [onExpr, onExpr_nil operand]
    rfl
  | .call _ callee args => by
    rw [onExpr, onExpr_nil callee, onExprs_nil args]
    rfl
  | .binary _ _ left right | .index _ left right | .keyValue _ left right
  | .mapType _ left right => by
    rw [onExpr, onExpr_nil left, onExpr_nil right]
    rfl
  | .typeAssert _ operand type => by
    rw [onExpr, onExpr_nil operand, onExpr?_nil type]
    rfl
  | .composite _ type elements => by
    rw [onExpr, onExpr_nil type, onElements_nil _ elements]
    rfl
  | .funcLit _ type body => by
    rw [onExpr, onFuncType_nil type, onBlock_nil body]
    rfl
  | .arrayType _ length element => by
    rw [onExpr, onExpr?_nil length, onExpr_nil element]
    rfl
  | .structType _ members | .interfaceType _ members => by
    rw [onExpr, onMembers_nil members]
    rfl
  | .funcType type => by
    rw [onExpr, onFuncType_nil type]
    rfl

theorem onExpr?_nil : (expr : Option Expr) → onExpr? [] expr = pure expr
  | none => rfl
  | some expr => by
    rw [onExpr?, onExpr_nil expr]
    rfl

theorem onExprs_nil : (exprs : List Expr) → onExprs [] exprs = pure exprs
  | [] => rfl
  | expr :: rest => by
    rw [onExprs, onExpr_nil expr, onExprs_nil rest]
    rfl

theorem onElements_nil (values : Bool) : (elements : List Expr) →
    onElements [] values elements = pure elements
  | [] => rfl
  | expr :: rest => onElements_cons_nil (onExpr_nil expr) (onElements_nil values rest)

theorem onField_nil : (field : Field) → onField [] field = pure field
  | ⟨info, names, type⟩ => by
    rw [onField, onIdents_nil, onExpr_nil type]
    rfl

theorem onFields_nil : (fields : List Field) → onFields [] fields = pure fields
  | [] => rfl
  | field :: rest => by
    rw [onFields, onField_nil field, onFields_nil rest]
    rfl

theorem onMember_nil : (member : Field) → onMember [] member = pure member
  | ⟨info, names, type⟩ => by
    rw [onMember, onExpr_nil type]
    rfl

theorem onMembers_nil : (members : List Field) → onMembers [] members = pure members
  | [] => rfl
  | member :: rest => by
    rw [onMembers, onMember_nil member, onMembers_nil rest]
    rfl

theorem onFuncType_nil : (type : FuncType) → onFuncType [] type = pure type
  | ⟨info, params, results⟩ => by
    rw [onFuncType, onFields_nil params, onFields_nil results]
    rfl

theorem onBlock_nil : (block : Block) → onBlock [] block = pure block
  | ⟨info, stmts⟩ => by
    rw [onBlock, onStmts_nil stmts]
    rfl

theorem onStmts_nil : (stmts : List Stmt) → onStmts [] stmts = pure stmts
  | [] => rfl
  | stmt :: rest => by
    rw [onStmts, onStmt_nil stmt, onStmts_nil rest]
    rfl

theorem onStmt?_nil : (stmt : Option Stmt) → onStmt? [] stmt = pure stmt
  | none => rfl
  | some stmt => by
    rw [onStmt?, onStmt_nil stmt]
    rfl

theorem onStmt_nil : (stmt : Stmt) → onStmt [] stmt = pure stmt
  | .decl _ decl => by
    rw [onStmt, onGenDecl_nil decl]
    rfl
  | .assign _ lhs _ rhs => by
    rw [onStmt, onExprs_nil lhs, onExprs_nil rhs]
    rfl
  | .expr _ operand | .incDec _ operand _ | .deferred _ _ operand => by
    rw [onStmt, onExpr_nil operand]
    rfl
  | .ret _ results => by
    rw [onStmt, onExprs_nil results]
    rfl
  | .block block => by
    rw [onStmt, onBlock_nil block]
    rfl
  | .cond _ init test body otherwise => by
    rw [onStmt, onStmt?_nil init, onExpr_nil test, onBlock_nil body, onStmt?_nil otherwise]
    rfl
  | .loop _ init test post body => by
    rw [onStmt, onStmt?_nil init, onExpr?_nil test, onStmt?_nil post, onBlock_nil body]
    rfl
  | .switch _ init tag clauses => by
    rw [onStmt, onStmt?_nil init, onExpr?_nil tag, onClauses_nil clauses]
    rfl
  | .typeSwitch _ init binding guard clauses => by
    rw [onStmt, onStmt?_nil init, onExpr_nil guard, onClauses_nil clauses]
    cases binding <;> rfl
  | .branch _ _ => rfl

theorem onClause_nil : (clause : CaseClause) → onClause [] clause = pure clause
  | ⟨info, list, body⟩ => by
    rw [onClause, onExprs_nil list, onStmts_nil body]
    rfl

theorem onClauses_nil : (clauses : List CaseClause) → onClauses [] clauses = pure clauses
  | [] => rfl
  | clause :: rest => by
    rw [onClauses, onClause_nil clause, onClauses_nil rest]
    rfl

theorem onSpec_nil : (spec : Spec) → onSpec [] spec = pure spec
  | .imports _ => rfl
  | .value ⟨info, names, type, values⟩ => by
    rw [onSpec, onIdents_nil, onExpr?_nil type, onExprs_nil values]
    rfl
  | .type ⟨info, name, isAlias, type⟩ => by
    rw [onSpec, onExpr_nil type]
    rfl

theorem onSpecs_nil : (specs : List Spec) → onSpecs [] specs = pure specs
  | [] => rfl
  | spec :: rest => by
    rw [onSpecs, onSpec_nil spec, onSpecs_nil rest]
    rfl

theorem onGenDecl_nil : (decl : GenDecl) → onGenDecl [] decl = pure decl
  | ⟨info, kind, specs⟩ => by
    rw [onGenDecl, onSpecs_nil specs]
    rfl

end

theorem onFuncDecl_nil (decl : FuncDecl) : onFuncDecl [] decl = pure decl := by
  obtain ⟨info, receiver, name, type, body⟩ := decl
  have hreceiver : receiver.mapM (onField []) = pure receiver := by
    cases receiver with
    | none => rfl
    | some field =>
      rw [Option.mapM_some, onField_nil]
      rfl
  have hbody : body.mapM (onBlock []) = pure body := by
    cases body with
    | none => rfl
    | some block =>
      rw [Option.mapM_some, onBlock_nil]
      rfl
  simp only [onFuncDecl, hreceiver, hbody, onFuncType_nil, onIdent_nil, ite_self, pure_bind]

theorem onDecl_nil (decl : Decl) : onDecl [] decl = pure decl := by
  cases decl with
  | gen decl =>
    rw [onDecl, onGenDecl_nil]
    rfl
  | func decl =>
    rw [onDecl, onFuncDecl_nil]
    rfl

end Renames

/-- Nothing changes under no new names. -/
theorem SourceFile.rename_nil (file : SourceFile) : file.rename [] = (file, 0) := by
  have hdecls : file.decls.mapM (Renames.onDecl []) = pure file.decls := by
    induction file.decls with
    | nil => rfl
    | cons decl rest ih =>
      rw [List.mapM_cons, ih, Renames.onDecl_nil]
      rfl
  unfold SourceFile.rename
  rw [hdecls]
  rfl

end PackageAtlas
