import PackageAtlas.Tree.Basic

/-!
One view of all nodes of a tree. `Node.children` lists the direct children of a node in source
order; every traversal goes through it. A child is smaller than its parent
(`sizeOf_lt_of_mem_children`), which is what traversals end by.
-/

set_option autoImplicit false
set_option relaxedAutoImplicit false

namespace PackageAtlas

/-- A node of a package tree. Names, blocks and function types always come as nodes of their own,
never as expressions or statements. -/
inductive Node where
  | package (tree : PackageTree)
  | file (file : SourceFile)
  | genDecl (decl : GenDecl)
  | funcDecl (decl : FuncDecl)
  | importSpec (spec : ImportSpec)
  | valueSpec (spec : ValueSpec)
  | typeSpec (spec : TypeSpec)
  | field (field : Field)
  | funcType (type : FuncType)
  | block (block : Block)
  | clause (clause : CaseClause)
  | stmt (stmt : Stmt)
  | expr (expr : Expr)
  | ident (ident : Ident)

namespace Node

def ofExpr : Expr → Node
  | .ident i => .ident i
  | .funcType type => .funcType type
  | other => .expr other

def ofStmt : Stmt → Node
  | .block b => .block b
  | other => .stmt other

def ofDecl : Decl → Node
  | .gen decl => .genDecl decl
  | .func decl => .funcDecl decl

def ofSpec : Spec → Node
  | .imports spec => .importSpec spec
  | .value spec => .valueSpec spec
  | .type spec => .typeSpec spec

def info : Node → NodeInfo
  | package tree => ⟨tree.id, tree.span⟩
  | file n => n.info
  | genDecl n => n.info
  | funcDecl n => n.info
  | importSpec n => n.info
  | valueSpec n => n.info
  | typeSpec n => n.info
  | field n => n.info
  | funcType n => n.info
  | block n => n.info
  | clause n => n.info
  | stmt n => n.info
  | expr n => n.info
  | ident n => n.info

def id (node : Node) : NodeId := node.info.id

def span (node : Node) : Span := node.info.span

def pos (node : Node) : Nat := node.info.span.start

/-! ### Kinds -/

/-- The kind of a statement. -/
def stmtKind : Stmt → String
  | .decl .. => "DeclStmt"
  | .assign .. => "AssignStmt"
  | .expr .. => "ExprStmt"
  | .incDec .. => "IncDecStmt"
  | .ret .. => "ReturnStmt"
  | .block .. => "BlockStmt"
  | .cond .. => "IfStmt"
  | .loop .. => "ForStmt"
  | .switch .. => "SwitchStmt"
  | .typeSwitch .. => "TypeSwitchStmt"
  | .deferred _ isGo _ => if isGo then "GoStmt" else "DeferStmt"
  | .branch .. => "BranchStmt"

/-- The kind of an expression. -/
def exprKind : Expr → String
  | .ident .. => "Ident"
  | .literal .. => "BasicLit"
  | .selector .. => "SelectorExpr"
  | .call .. => "CallExpr"
  | .star .. => "StarExpr"
  | .unary .. => "UnaryExpr"
  | .binary .. => "BinaryExpr"
  | .paren .. => "ParenExpr"
  | .typeAssert .. => "TypeAssertExpr"
  | .index .. => "IndexExpr"
  | .composite .. => "CompositeLit"
  | .keyValue .. => "KeyValueExpr"
  | .funcLit .. => "FuncLit"
  | .arrayType .. => "ArrayType"
  | .mapType .. => "MapType"
  | .structType .. => "StructType"
  | .interfaceType .. => "InterfaceType"
  | .funcType .. => "FuncType"

/-- The name of a node's kind. -/
def kindName : Node → String
  | package _ => "Package"
  | file _ => "File"
  | genDecl _ => "GenDecl"
  | funcDecl _ => "FuncDecl"
  | importSpec _ => "ImportSpec"
  | valueSpec _ => "ValueSpec"
  | typeSpec _ => "TypeSpec"
  | field _ => "Field"
  | funcType _ => "FuncType"
  | block _ => "BlockStmt"
  | clause _ => "CaseClause"
  | stmt s => stmtKind s
  | expr e => exprKind e
  | ident _ => "Ident"

def ident? : Node → Option Ident
  | ident i => some i
  | _ => none

def block? : Node → Option Block
  | block b => some b
  | _ => none

/-- Whether the node is a call. -/
def isCall : Node → Bool
  | expr (.call ..) => true
  | _ => false

/-! ### Children -/

def exprChildren : Expr → List Node
  | .ident _ | .literal _ => []
  | .selector _ operand selected => [ofExpr operand, ident selected]
  | .call _ callee args => ofExpr callee :: args.map ofExpr
  | .star _ operand | .unary _ _ operand | .paren _ operand => [ofExpr operand]
  | .binary _ _ left right => [ofExpr left, ofExpr right]
  | .typeAssert _ operand type => ofExpr operand :: type.toList.map ofExpr
  | .index _ operand key => [ofExpr operand, ofExpr key]
  | .composite _ type elements => ofExpr type :: elements.map ofExpr
  | .keyValue _ key value | .mapType _ key value => [ofExpr key, ofExpr value]
  | .funcLit _ type body => [funcType type, block body]
  | .arrayType _ length element => length.toList.map ofExpr ++ [ofExpr element]
  | .structType _ fields | .interfaceType _ fields => fields.map field
  | .funcType type => type.params.map field ++ type.results.map field

def stmtChildren : Stmt → List Node
  | .decl _ decl => [genDecl decl]
  | .assign _ lhs _ rhs => lhs.map ofExpr ++ rhs.map ofExpr
  | .expr _ operand | .incDec _ operand _ | .deferred _ _ operand => [ofExpr operand]
  | .ret _ results => results.map ofExpr
  | .block b => b.stmts.map ofStmt
  | .cond _ init test body otherwise =>
    init.toList.map ofStmt ++ [ofExpr test, block body] ++ otherwise.toList.map ofStmt
  | .loop _ init test post body =>
    init.toList.map ofStmt ++ test.toList.map ofExpr ++ post.toList.map ofStmt ++ [block body]
  | .switch _ init tag clauses =>
    init.toList.map ofStmt ++ tag.toList.map ofExpr ++ clauses.map clause
  | .typeSwitch _ init binding guard clauses =>
    init.toList.map ofStmt ++ binding.toList.map ident ++ [ofExpr guard] ++ clauses.map clause
  | .branch .. => []

/-- The direct children of a node in source order. -/
def children : Node → List Node
  | package tree => tree.files.map file
  | file n => ident n.packageName :: n.decls.map ofDecl
  | genDecl n => n.specs.map ofSpec
  | funcDecl n =>
    n.receiver.toList.map field ++ [ident n.name, funcType n.type] ++ n.body.toList.map block
  | importSpec n => n.name.toList.map ident ++ [expr (.literal n.path)]
  | valueSpec n => n.names.map ident ++ n.type.toList.map ofExpr ++ n.values.map ofExpr
  | typeSpec n => [ident n.name, ofExpr n.type]
  | field n => n.names.map ident ++ [ofExpr n.type]
  | funcType n => n.params.map field ++ n.results.map field
  | block n => n.stmts.map ofStmt
  | clause n => n.list.map ofExpr ++ n.body.map ofStmt
  | stmt s => stmtChildren s
  | expr e => exprChildren e
  | ident _ => []

/-! ### Children are smaller -/

theorem sizeOf_ofExpr_le (e : Expr) : sizeOf (ofExpr e) ≤ 1 + sizeOf e := by
  cases e <;> simp [ofExpr]

theorem sizeOf_ofStmt_le (s : Stmt) : sizeOf (ofStmt s) ≤ 1 + sizeOf s := by
  cases s <;> simp [ofStmt]

theorem sizeOf_ofDecl_le (d : Decl) : sizeOf (ofDecl d) ≤ sizeOf d := by
  cases d <;> simp [ofDecl]

theorem sizeOf_ofSpec_le (s : Spec) : sizeOf (ofSpec s) ≤ sizeOf s := by
  cases s <;> simp [ofSpec]

/-- The bound on a child that comes from a list, read off the list. -/
theorem sizeOf_lt_of_mem_map {α : Type} [SizeOf α] {f : α → Node} {l : List α} {c : Node}
    {bound : Nat} (hf : ∀ a, sizeOf (f a) ≤ 1 + sizeOf a) (h : c ∈ l.map f)
    (hl : sizeOf l ≤ bound) : sizeOf c < 1 + bound := by
  obtain ⟨a, ha, rfl⟩ := List.mem_map.1 h
  have := List.sizeOf_lt_of_mem ha
  have := hf a
  omega

/-- The bound on a child that may be absent, read off the option. -/
theorem sizeOf_lt_of_mem_option {α : Type} [SizeOf α] {f : α → Node} {o : Option α} {c : Node}
    {bound : Nat} (hf : ∀ a, sizeOf (f a) ≤ 1 + sizeOf a) (h : c ∈ o.toList.map f)
    (ho : sizeOf o ≤ bound) : sizeOf c < 1 + bound := by
  cases o with
  | none => simp at h
  | some a =>
    simp only [Option.toList_some, List.map_cons, List.map_nil, List.mem_singleton] at h
    subst h
    have := hf a
    simp only [Option.some.sizeOf_spec] at ho
    omega

theorem sizeOf_exprChildren_lt {e : Expr} {c : Node} (h : c ∈ exprChildren e) :
    sizeOf c < 1 + sizeOf e := by
  have he := sizeOf_ofExpr_le
  have hf (f : Field) : sizeOf (field f) ≤ 1 + sizeOf f := by simp
  cases e <;> simp only [exprChildren, List.mem_cons, List.mem_append, List.not_mem_nil,
    or_false] at h
  case funcType type =>
    cases type
    rcases h with h | h <;> exact sizeOf_lt_of_mem_map hf h (by simp; omega)
  all_goals
    repeat' rcases h with h | h
  all_goals first
    | exact Nat.lt_of_le_of_lt (he _) (by simp <;> omega)
    | (simp <;> omega)
    | exact sizeOf_lt_of_mem_option he h (by simp <;> omega)
    | exact sizeOf_lt_of_mem_map he h (by simp)
    | exact sizeOf_lt_of_mem_map hf h (by simp)

theorem sizeOf_stmtChildren_lt {s : Stmt} {c : Node} (h : c ∈ stmtChildren s) :
    sizeOf c < 1 + sizeOf s := by
  have he := sizeOf_ofExpr_le
  have hs := sizeOf_ofStmt_le
  have hc (k : CaseClause) : sizeOf (clause k) ≤ 1 + sizeOf k := by simp
  have hi (i : Ident) : sizeOf (ident i) ≤ 1 + sizeOf i := by simp
  cases s <;> simp only [stmtChildren, List.mem_cons, List.mem_append, List.not_mem_nil,
    or_false] at h
  case block b =>
    cases b
    exact sizeOf_lt_of_mem_map hs h (by simp; omega)
  all_goals
    repeat' rcases h with h | h
  all_goals first
    | exact Nat.lt_of_le_of_lt (he _) (by simp <;> omega)
    | (simp <;> omega)
    | exact sizeOf_lt_of_mem_option he h (by simp; omega)
    | exact sizeOf_lt_of_mem_option hs h (by simp <;> omega)
    | exact sizeOf_lt_of_mem_option hi h (by simp; omega)
    | exact sizeOf_lt_of_mem_map he h (by simp <;> omega)
    | exact sizeOf_lt_of_mem_map hc h (by simp)

/-- Every child is smaller than its parent. -/
theorem sizeOf_lt_of_mem_children {node c : Node} (h : c ∈ node.children) :
    sizeOf c < sizeOf node := by
  have he := sizeOf_ofExpr_le
  have hs := sizeOf_ofStmt_le
  have hi (i : Ident) : sizeOf (ident i) ≤ 1 + sizeOf i := by simp
  have hf (f : Field) : sizeOf (field f) ≤ 1 + sizeOf f := by simp
  have hb (b : Block) : sizeOf (block b) ≤ 1 + sizeOf b := by simp
  have hd (d : Decl) : sizeOf (ofDecl d) ≤ 1 + sizeOf d := by have := sizeOf_ofDecl_le d; omega
  have hp (p : Spec) : sizeOf (ofSpec p) ≤ 1 + sizeOf p := by have := sizeOf_ofSpec_le p; omega
  have hl (l : SourceFile) : sizeOf (file l) ≤ 1 + sizeOf l := by simp
  cases node
  case expr e => simpa using sizeOf_exprChildren_lt h
  case stmt s => simpa using sizeOf_stmtChildren_lt h
  case ident => simp [children] at h
  case importSpec n =>
    obtain ⟨⟨_, _⟩, _, _, _⟩ := n
    rcases List.mem_append.1 h with h | h
    · exact sizeOf_lt_of_mem_option hi h (by simp; omega)
    · rw [List.mem_singleton.1 h]
      simp
      omega
  all_goals
    rename_i n
    cases n
    simp only [children, List.mem_cons, List.mem_append, List.not_mem_nil, or_false] at h
    repeat' rcases h with h | h
  all_goals first
    | exact Nat.lt_of_le_of_lt (he _) (by simp <;> omega)
    | (simp; omega)
    | exact sizeOf_lt_of_mem_option he h (by simp; omega)
    | exact sizeOf_lt_of_mem_option hf h (by simp; omega)
    | exact sizeOf_lt_of_mem_option hb h (by simp)
    | exact sizeOf_lt_of_mem_map he h (by simp <;> omega)
    | exact sizeOf_lt_of_mem_map hs h (by simp)
    | exact sizeOf_lt_of_mem_map hi h (by simp; omega)
    | exact sizeOf_lt_of_mem_map hf h (by simp <;> omega)
    | exact sizeOf_lt_of_mem_map hd h (by simp)
    | exact sizeOf_lt_of_mem_map hp h (by simp)
    | exact sizeOf_lt_of_mem_map hl h (by simp)

end Node

end PackageAtlas
