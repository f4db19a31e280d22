import PackageAtlas.Tree.Basic

/-!
Renaming of the names that a file declares or uses at the top level. Names that denote members are
left alone: selected names, struct fields and interface methods, keys of struct literals and the
names of method declarations. All names change at once, and spans stay.
-/

set_option autoImplicit false
set_option relaxedAutoImplicit false

namespace PackageAtlas

/-- New names by old name. -/
abbrev Renames := List (String × String)

namespace Renames

/-- Renames an identifier and counts it when the table has its name. -/
def onIdent (renames : Renames) (ident : Ident) : StateM Nat Ident :=
  match renames.lookup ident.name with
  | none => return ident
  | some name => do
    modify (· + 1)
    return { ident with name }

def onIdents (renames : Renames) (idents : List Ident) : StateM Nat (List Ident) :=
  idents.mapM renames.onIdent

/-- Whether the keys of a composite literal of this type are expressions rather than field names. -/
def keysAreValues : Expr → Bool
  | .mapType .. | .arrayType .. => true
  | _ => false

mutual

def onExpr (renames : Renames) : Expr → StateM Nat Expr
  | .ident i => return .ident (← renames.onIdent i)
  | .literal l => return .literal l
  | .selector info operand selected =>
    return .selector info (← onExpr renames operand) selected
  | .call info callee args =>
    return .call info (← onExpr renames callee) (← onExprs renames args)
  | .star info operand => return .star info (← onExpr renames operand)
  | .unary info op operand => return .unary info op (← onExpr renames operand)
  | .binary info op left right =>
    return .binary info op (← onExpr renames left) (← onExpr renames right)
  | .paren info inner => return .paren info (← onExpr renames inner)
  | .typeAssert info operand type =>
    return .typeAssert info (← onExpr renames operand) (← onExpr? renames type)
  | .index info operand key =>
    return .index info (← onExpr renames operand) (← onExpr renames key)
  | .composite info type elements =>
    return .composite info (← onExpr renames type)
      (← onElements renames (keysAreValues type) elements)
  | .keyValue info key value =>
    return .keyValue info (← onExpr renames key) (← onExpr renames value)
  | .funcLit info type body =>
    return .funcLit info (← onFuncType renames type) (← onBlock renames body)
  | .arrayType info length element =>
    return .arrayType info (← onExpr? renames length) (← onExpr renames element)
  | .mapType info key value =>
    return .mapType info (← onExpr renames key) (← onExpr renames value)
  | .structType info fields => return .structType info (← onMembers renames fields)
  | .interfaceType info elements => return .interfaceType info (← onMembers renames elements)
  | .funcType type => return .funcType (← onFuncType renames type)

def onExpr? (renames : Renames) : Option Expr → StateM Nat (Option Expr)
  | none => return none
  | some e => return some (← onExpr renames e)

def onExprs (renames : Renames) : List Expr → StateM Nat (List Expr)
  | [] => return []
  | e :: rest => return (← onExpr renames e) :: (← onExprs renames rest)

/-- The elements of a composite literal; a name as key is a field unless keys are values. -/
def onElements (renames : Renames) (values : Bool) : List Expr → StateM Nat (List Expr)
  | [] => return []
  | .keyValue info (.ident key) value :: rest => do
    let key ← if values then renames.onIdent key else pure key
    let value ← onExpr renames value
    return .keyValue info (.ident key) value :: (← onElements renames values rest)
  | e :: rest => return (← onExpr renames e) :: (← onElements renames values rest)

def onField (renames : Renames) : Field → StateM Nat Field
  | ⟨info, names, type⟩ => return ⟨info, ← renames.onIdents names, ← onExpr renames type⟩

def onFields (renames : Renames) : List Field → StateM Nat (List Field)
  | [] => return []
  | f :: rest => return (← onField renames f) :: (← onFields renames rest)

/-- A struct field or an interface element keeps its names. -/
def onMember (renames : Renames) : Field → StateM Nat Field
  | ⟨info, names, type⟩ => return ⟨info, names, ← onExpr renames type⟩

def onMembers (renames : Renames) : List Field → StateM Nat (List Field)
  | [] => return []
  | f :: rest => return (← onMember renames f) :: (← onMembers renames rest)

def onFuncType (renames : Renames) : FuncType → StateM Nat FuncType
  | ⟨info, params, results⟩ =>
    return ⟨info, ← onFields renames params, ← onFields renames results⟩

def onBlock (renames : Renames) : Block → StateM Nat Block
  | ⟨info, stmts⟩ => return ⟨info, ← onStmts renames stmts⟩

def onStmts (renames : Renames) : List Stmt → StateM Nat (List Stmt)
  | [] => return []
  | s :: rest => return (← onStmt renames s) :: (← onStmts renames rest)

def onStmt? (renames : Renames) : Option Stmt → StateM Nat (Option Stmt)
  | none => return none
  | some s => return some (← onStmt renames s)

def onStmt (renames : Renames) : Stmt → StateM Nat Stmt
  | .decl info decl => return .decl info (← onGenDecl renames decl)
  | .assign info lhs op rhs =>
    return .assign info (← onExprs renames lhs) op (← onExprs renames rhs)
  | .expr info operand => return .expr info (← onExpr renames operand)
  | .incDec info operand increment =>
    return .incDec info (← onExpr renames operand) increment
  | .ret info results => return .ret info (← onExprs renames results)
  | .block b => return .block (← onBlock renames b)
  | .cond info init test body otherwise =>
    return .cond info (← onStmt? renames init) (← onExpr renames test) (← onBlock renames body)
      (← onStmt? renames otherwise)
  | .loop info init test post body =>
    return .loop info (← onStmt? renames init) (← onExpr? renames test)
      (← onStmt? renames post) (← onBlock renames body)
  | .switch info init tag clauses =>
    return .switch info (← onStmt? renames init) (← onExpr? renames tag)
      (← onClauses renames clauses)
  | .typeSwitch info init binding guard clauses =>
    return .typeSwitch info (← onStmt? renames init) (← binding.mapM renames.onIdent)
      (← onExpr renames guard) (← onClauses renames clauses)
  | .deferred info isGo call => return .deferred info isGo (← onExpr renames call)
  | .branch info isBreak => return .branch info isBreak

def onClause (renames : Renames) : CaseClause → StateM Nat CaseClause
  | ⟨info, list, body⟩ => return ⟨info, ← onExprs renames list, ← onStmts renames body⟩

def onClauses (renames : Renames) : List CaseClause → StateM Nat (List CaseClause)
  | [] => return []
  | c :: rest => return (← onClause renames c) :: (← onClauses renames rest)

def onSpec (renames : Renames) : Spec → StateM Nat Spec
  | .imports spec => return .imports spec
  | .value ⟨info, names, type, values⟩ =>
    return .value ⟨info, ← renames.onIdents names, ← onExpr? renames type,
      ← onExprs renames values⟩
  | .type ⟨info, name, isAlias, type⟩ =>
    return .type ⟨info, ← renames.onIdent name, isAlias, ← onExpr renames type⟩

def onSpecs (renames : Renames) : List Spec → StateM Nat (List Spec)
  | [] => return []
  | s :: rest => return (← onSpec renames s) :: (← onSpecs renames rest)

def onGenDecl (renames : Renames) : GenDecl → StateM Nat GenDecl
  | ⟨info, kind, specs⟩ => return ⟨info, kind, ← onSpecs renames specs⟩

end

/-- A method keeps its name, a function does not. -/
def onFuncDecl (renames : Renames) (decl : FuncDecl) : StateM Nat FuncDecl := do
  let receiver ← decl.receiver.mapM (onField renames)
  let name ← if decl.receiver.isNone then renames.onIdent decl.name else pure decl.name
  let type ← onFuncType renames decl.type
  let body ← decl.body.mapM (onBlock renames)
  return { decl with receiver, name, type, body }

def onDecl (renames : Renames) : Decl → StateM Nat Decl
  | .gen decl => return .gen (← onGenDecl renames decl)
  | .func decl => return .func (← onFuncDecl renames decl)

end Renames

/-- A file under new names, and the number of identifiers that changed. -/
def SourceFile.rename (file : SourceFile) (renames : Renames) : SourceFile × Nat :=
  let (decls, count) := (file.decls.mapM renames.onDecl).run 0
  ({ file with decls }, count)

end PackageAtlas
