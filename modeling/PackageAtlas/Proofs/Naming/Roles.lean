import Mathlib.Data.List.Nodup
import PackageAtlas.Proofs.Spans.Traversal

/-!
The roles of names. Whether a name declares something is a matter of where it stands, with one
exception: a target of a short declaration declares a new name, unless the block around it has the
name already. So each node of a tree gets its role from its parent, and a statement the names that
stand before it in its block.
-/

set_option autoImplicit false
set_option relaxedAutoImplicit false

namespace PackageAtlas

/-- What a node is to the check of a package. A name uses a symbol, declares one, or does neither:
the name of a package, and that of a type switch. A block, a clause or a statement is run in a block
that has some names by then. All other nodes count as uses. -/
inductive Role where
  | uses
  | declares
  | titles
  | inBlock (names : List String)
deriving DecidableEq, Repr

/-- The names that the block around a node has before it. -/
def Role.names : Role → List String
  | inBlock names => names
  | _ => []

/-! ### Names of declarations and statements -/

def Field.nameTexts (field : Field) : List String := field.names.map (·.name)

/-- The names that a function type gives to the block of a body. -/
def FuncType.nameTexts (type : FuncType) : List String :=
  type.params.flatMap Field.nameTexts ++ type.results.flatMap Field.nameTexts

/-- The names that the block of a function body starts with. -/
def FuncDecl.nameTexts (decl : FuncDecl) : List String :=
  decl.receiver.toList.flatMap Field.nameTexts ++ decl.type.nameTexts

def Spec.nameTexts : Spec → List String
  | .imports _ => []
  | .value spec => spec.names.map (·.name)
  | .type spec => [spec.name.name]

/-- The names of targets. -/
def targetTexts (targets : List Expr) : List String :=
  targets.flatMap fun target ↦ target.ident?.toList.map (·.name)

/-- The names that the block of a statement has after it, besides those before. -/
def Stmt.nameTexts : Stmt → List String
  | .decl _ group => group.specs.flatMap Spec.nameTexts
  | .assign _ lhs .define _ => targetTexts lhs
  | _ => []

/-- The role of a statement: a block that stands as a statement starts without names. -/
def Stmt.role (names : List String) : Stmt → Role
  | .block _ => .inBlock []
  | _ => .inBlock names

/-- The names of a block after statements. -/
def namesAfter (names : List String) (stmts : List Stmt) : List String :=
  stmts.foldl (fun names stmt ↦ stmt.nameTexts ++ names) names

/-- The role of a target of a short declaration. -/
def targetRole (names : List String) (target : Expr) : Role :=
  match target.ident? with
  | some ident => if ident.name ∈ names then .uses else .declares
  | none => .uses

theorem targetRole_ident (names : List String) (ident : Ident) :
    targetRole names (.ident ident) = if ident.name ∈ names then .uses else .declares :=
  rfl

/-! ### Roles of children -/

namespace Node

/-- Statements one after the other in a block. -/
def stmtsWithRoles : List String → List Stmt → List (Role × Node)
  | _, [] => []
  | names, s :: rest => (s.role names, ofStmt s) :: stmtsWithRoles (s.nameTexts ++ names) rest

def exprRoles : Expr → List (Role × Node)
  | .funcLit _ type body => [(.uses, funcType type), (.inBlock type.nameTexts, block body)]
  | other => (exprChildren other).map (.uses, ·)

def stmtRoles (names : List String) : Stmt → List (Role × Node)
  | .assign _ lhs .define rhs =>
    lhs.map (fun target ↦ (targetRole names target, ofExpr target)) ++
      rhs.map fun e ↦ (.uses, ofExpr e)
  | .block b => stmtsWithRoles names b.stmts
  | .cond _ init test body otherwise =>
    stmtsWithRoles [] init.toList ++ [(.uses, ofExpr test), (.inBlock [], block body)] ++
      stmtsWithRoles (namesAfter [] init.toList) otherwise.toList
  | .loop _ init test post body =>
    stmtsWithRoles [] init.toList ++ test.toList.map (fun e ↦ (.uses, ofExpr e)) ++
      stmtsWithRoles (namesAfter [] init.toList) post.toList ++ [(.inBlock [], block body)]
  | .switch _ init tag clauses =>
    stmtsWithRoles [] init.toList ++ tag.toList.map (fun e ↦ (.uses, ofExpr e)) ++
      clauses.map fun arm ↦ (.inBlock [], clause arm)
  | .typeSwitch _ init binding guard clauses =>
    stmtsWithRoles [] init.toList ++ binding.toList.map (fun i ↦ (.titles, ident i)) ++
      [(.uses, ofExpr guard)] ++
      clauses.map fun arm ↦ (.inBlock (binding.toList.map (·.name)), clause arm)
  | other => (stmtChildren other).map (.uses, ·)

/-- The direct children of a node with their roles. -/
def roles (role : Role) : Node → List (Role × Node)
  | file n => (.titles, ident n.packageName) :: n.decls.map fun decl ↦ (.uses, ofDecl decl)
  | funcDecl n =>
    n.receiver.toList.map (fun receiver ↦ (.uses, field receiver)) ++
      [(.declares, ident n.name), (.uses, funcType n.type)] ++
      n.body.toList.map fun body ↦ (.inBlock n.nameTexts, block body)
  | importSpec n =>
    n.name.toList.map (fun name ↦ (.declares, ident name)) ++ [(.uses, expr (.literal n.path))]
  | valueSpec n =>
    n.names.map (fun name ↦ (.declares, ident name)) ++
      n.type.toList.map (fun type ↦ (.uses, ofExpr type)) ++
      n.values.map fun value ↦ (.uses, ofExpr value)
  | typeSpec n => [(.declares, ident n.name), (.uses, ofExpr n.type)]
  | field n => n.names.map (fun name ↦ (.declares, ident name)) ++ [(.uses, ofExpr n.type)]
  | block n => stmtsWithRoles role.names n.stmts
  | clause n =>
    n.list.map (fun e ↦ (.uses, ofExpr e)) ++ stmtsWithRoles role.names n.body
  | stmt s => stmtRoles role.names s
  | expr e => exprRoles e
  | other => other.children.map (.uses, ·)

theorem map_snd_stmtsWithRoles (names : List String) (stmts : List Stmt) :
    (stmtsWithRoles names stmts).map (·.2) = stmts.map ofStmt := by
  induction stmts generalizing names with
  | nil => rfl
  | cons s rest ih => rw [stmtsWithRoles, List.map_cons, ih, List.map_cons]

theorem map_snd_exprRoles (e : Expr) : (exprRoles e).map (·.2) = exprChildren e := by
  cases e with
  | funcLit => rfl
  | _ => simp [exprRoles, Function.comp_def]

theorem map_snd_stmtRoles (names : List String) (s : Stmt) :
    (stmtRoles names s).map (·.2) = stmtChildren s := by
  cases s with
  | assign info lhs op rhs => cases op <;> simp [stmtRoles, stmtChildren, Function.comp_def]
  | _ => simp [stmtRoles, stmtChildren, map_snd_stmtsWithRoles, Function.comp_def]

theorem map_snd_roles (role : Role) (node : Node) :
    (node.roles role).map (·.2) = node.children := by
  cases node with
  | stmt s => exact map_snd_stmtRoles _ s
  | expr e => exact map_snd_exprRoles e
  | _ => simp [roles, children, map_snd_stmtsWithRoles, Function.comp_def]

theorem mem_children_of_mem_roles {role : Role} {node : Node} {entry : Role × Node}
    (h : entry ∈ node.roles role) : entry.2 ∈ node.children :=
  map_snd_roles role node ▸ List.mem_map_of_mem h

/-! ### Roles of all nodes -/

/-- All nodes of a tree with their roles. -/
def cast (role : Role) (node : Node) : List (Role × Node) :=
  (role, node) :: (node.roles role).attach.flatMap fun ⟨entry, _⟩ ↦ cast entry.1 entry.2
termination_by sizeOf node
decreasing_by exact sizeOf_lt_of_mem_children (mem_children_of_mem_roles (by assumption))

theorem cast_eq (role : Role) (node : Node) :
    node.cast role =
      (role, node) :: (node.roles role).flatMap fun entry ↦ entry.2.cast entry.1 := by
  rw [cast, List.flatMap_def, List.flatMap_def]
  refine congrArg ((role, node) :: List.flatten ·) ?_
  exact List.attach_map_val (f := fun entry : Role × Node ↦ entry.2.cast entry.1)

theorem map_snd_cast (role : Role) (node : Node) : (node.cast role).map (·.2) = node.nodes := by
  induction node using treeInduction generalizing role with
  | step node ih =>
    rw [cast_eq, nodes_eq, List.map_cons, List.map_flatMap, ← map_snd_roles role, List.flatMap_map,
      List.flatMap_def, List.flatMap_def]
    refine congrArg (node :: List.flatten ·) (List.map_congr_left fun entry hentry ↦ ?_)
    exact ih entry.2 (mem_children_of_mem_roles hentry) entry.1

theorem mem_cast_self (role : Role) (node : Node) : (role, node) ∈ node.cast role := by
  rw [cast_eq]
  exact List.mem_cons_self

/-- The children of a node of a tree have their roles in the tree. -/
theorem mem_cast_of_mem_roles {role role' : Role} {root node : Node} {entry : Role × Node}
    (h : (role, node) ∈ root.cast role') (hentry : entry ∈ node.roles role) :
    entry ∈ root.cast role' := by
  induction root using treeInduction generalizing role' with
  | step root ih =>
    rw [cast_eq] at h ⊢
    rcases List.mem_cons.1 h with heq | h
    · cases heq
      refine List.mem_cons_of_mem _ (List.mem_flatMap.2 ⟨entry, hentry, ?_⟩)
      exact mem_cast_self entry.1 entry.2
    · obtain ⟨child, hchild, hnode⟩ := List.mem_flatMap.1 h
      refine List.mem_cons_of_mem _ (List.mem_flatMap.2 ⟨child, hchild, ?_⟩)
      exact ih child.2 (mem_children_of_mem_roles hchild) hnode

/-- Where nodes have identities of their own, each has one role. -/
theorem role_unique {root node node' : Node} {role role' start : Role}
    (hdistinct : (root.nodes.map (·.id)).Nodup) (h : (role, node) ∈ root.cast start)
    (h' : (role', node') ∈ root.cast start) (hid : node.id = node'.id) : role = role' := by
  rw [← map_snd_cast start root, List.map_map] at hdistinct
  have hsame := List.inj_on_of_nodup_map hdistinct h h' hid
  exact congrArg Prod.fst hsame

end Node

end PackageAtlas
