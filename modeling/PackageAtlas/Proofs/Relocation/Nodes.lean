import PackageAtlas.Proofs.Relocation.File
import PackageAtlas.Proofs.Spans.Traversal

/-!
The nodes of relocated files. They are the relocated nodes, in the same order, so that two files
that were parsed from one text under one name say the same at the same offsets
(`FileSet.sameText_of_parseFile`).
-/

set_option autoImplicit false
set_option relaxedAutoImplicit false

namespace PackageAtlas

namespace Relocation

open Node (ofExpr ofStmt ofDecl ofSpec)

def importSpec (move : Relocation) (spec : ImportSpec) : ImportSpec :=
  ⟨move.info spec.info, spec.name.map move.ident, move.literal spec.path, spec.doc⟩

/-- A node of a relocated file. The files of a package are relocated one by one. -/
def node (move : Relocation) : Node → Node
  | .package tree => .package { tree with files := tree.files.map move.file }
  | .file file => .file (move.file file)
  | .genDecl decl => .genDecl (move.genDecl decl)
  | .funcDecl decl => .funcDecl (move.funcDecl decl)
  | .importSpec spec => .importSpec (move.importSpec spec)
  | .valueSpec spec =>
    .valueSpec ⟨move.info spec.info, spec.names.map move.ident, move.expr? spec.type,
      move.exprs spec.values⟩
  | .typeSpec spec =>
    .typeSpec ⟨move.info spec.info, move.ident spec.name, spec.isAlias, move.expr spec.type⟩
  | .field field => .field (move.field field)
  | .funcType type => .funcType (move.funcType type)
  | .block block => .block (move.block block)
  | .clause clause => .clause (move.clause clause)
  | .stmt stmt => .stmt (move.stmt stmt)
  | .expr expr => .expr (move.expr expr)
  | .ident ident => .ident (move.ident ident)

section

variable (move : Relocation)

theorem node_ident (i : Ident) : move.node (.ident i) = .ident (move.ident i) := rfl

theorem node_funcType (type : FuncType) :
    move.node (.funcType type) = .funcType (move.funcType type) := rfl

theorem node_block (b : Block) : move.node (.block b) = .block (move.block b) := rfl

theorem node_genDecl (d : GenDecl) : move.node (.genDecl d) = .genDecl (move.genDecl d) := rfl

theorem ofExpr_expr (e : Expr) : ofExpr (move.expr e) = move.node (ofExpr e) := by
  cases e <;> rfl

theorem ofStmt_stmt (s : Stmt) : ofStmt (move.stmt s) = move.node (ofStmt s) := by
  cases s <;> rfl

theorem ofDecl_decl (d : Decl) : ofDecl (move.decl d) = move.node (ofDecl d) := by
  cases d <;> rfl

theorem ofSpec_spec (s : Spec) : ofSpec (move.spec s) = move.node (ofSpec s) := by
  rcases s with ⟨info, name, path, doc⟩ | ⟨info, names, type, values⟩ | ⟨info, name, isAlias, type⟩
    <;> rfl

/-! ### Lists of trees -/

theorem map_ofExpr_exprs (list : List Expr) :
    (move.exprs list).map ofExpr = (list.map ofExpr).map move.node := by
  rw [exprs_eq_map, List.map_map, List.map_map]
  exact List.map_congr_left fun e _ ↦ move.ofExpr_expr e

theorem map_ofExpr_expr? (e : Option Expr) :
    (move.expr? e).toList.map ofExpr = (e.toList.map ofExpr).map move.node := by
  cases e with
  | none => rfl
  | some e => exact congrArg ([·]) (move.ofExpr_expr e)

theorem map_field_fields' (list : List Field) :
    (move.fields' list).map Node.field = (list.map Node.field).map move.node := by
  rw [fields'_eq_map, List.map_map, List.map_map]
  rfl

theorem map_ident (list : List Ident) :
    (list.map move.ident).map Node.ident = (list.map Node.ident).map move.node := by
  rw [List.map_map, List.map_map]
  rfl

theorem map_ident? (name : Option Ident) :
    (name.map move.ident).toList.map Node.ident = (name.toList.map Node.ident).map move.node := by
  cases name <;> rfl

theorem map_ofStmt_stmts' (list : List Stmt) :
    (move.stmts' list).map ofStmt = (list.map ofStmt).map move.node := by
  induction list with
  | nil => rfl
  | cons s rest ih => rw [stmts', List.map_cons, ih, ofStmt_stmt]; rfl

theorem map_ofStmt_stmt? (s : Option Stmt) :
    (move.stmt? s).toList.map ofStmt = (s.toList.map ofStmt).map move.node := by
  cases s with
  | none => rfl
  | some s => exact congrArg ([·]) (move.ofStmt_stmt s)

theorem map_clause_clauses' (list : List CaseClause) :
    (move.clauses' list).map Node.clause = (list.map Node.clause).map move.node := by
  induction list with
  | nil => rfl
  | cons c rest ih => rw [clauses', List.map_cons, ih]; rfl

theorem map_ofSpec_specs (list : List Spec) :
    (move.specs list).map ofSpec = (list.map ofSpec).map move.node := by
  induction list with
  | nil => rfl
  | cons s rest ih => rw [specs, List.map_cons, ih, ofSpec_spec]; rfl

/-! ### Children -/

theorem exprChildren_expr (e : Expr) :
    Node.exprChildren (move.expr e) = (Node.exprChildren e).map move.node := by
  cases e with
  | funcType type =>
    obtain ⟨info, params, results⟩ := type
    simp only [expr, funcType, Node.exprChildren, List.map_append, map_field_fields']
  | _ =>
    simp only [expr, Node.exprChildren, List.map_append, List.map_cons, List.map_nil, ofExpr_expr,
      map_ofExpr_exprs, map_ofExpr_expr?, map_field_fields', node_ident, node_funcType, node_block]

theorem stmtChildren_stmt (s : Stmt) :
    Node.stmtChildren (move.stmt s) = (Node.stmtChildren s).map move.node := by
  cases s with
  | block body =>
    obtain ⟨info, stmts⟩ := body
    simp only [stmt, block, Node.stmtChildren, map_ofStmt_stmts']
  | _ =>
    simp only [stmt, Node.stmtChildren, List.map_append, List.map_cons, List.map_nil, ofExpr_expr,
      map_ofExpr_exprs, map_ofExpr_expr?, map_ofStmt_stmt?, map_clause_clauses', map_ident?,
      node_block, node_genDecl]

theorem children_node (n : Node) : (move.node n).children = n.children.map move.node := by
  cases n with
  | package tree =>
    change (tree.files.map move.file).map Node.file = (tree.files.map Node.file).map move.node
    rw [List.map_map, List.map_map]
    rfl
  | file file =>
    change _ :: (file.decls.map move.decl).map ofDecl = _ :: (file.decls.map ofDecl).map move.node
    rw [List.map_map, List.map_map]
    exact congrArg _ (List.map_congr_left fun d _ ↦ move.ofDecl_decl d)
  | genDecl decl =>
    obtain ⟨info, kind, specs⟩ := decl
    exact move.map_ofSpec_specs specs
  | funcDecl decl =>
    obtain ⟨info, receiver, name, type, body⟩ := decl
    cases receiver <;> cases body <;> rfl
  | importSpec spec =>
    obtain ⟨info, name, path, doc⟩ := spec
    cases name <;> rfl
  | valueSpec spec =>
    simp only [node, Node.children, List.map_append, map_ident, map_ofExpr_expr?, map_ofExpr_exprs]
  | typeSpec spec => exact congrArg (_ :: [·]) (move.ofExpr_expr spec.type)
  | field field =>
    obtain ⟨info, names, type⟩ := field
    simp only [node, Relocation.field, Node.children, List.map_append, map_ident, List.map_cons,
      List.map_nil, ofExpr_expr]
  | funcType type =>
    obtain ⟨info, params, results⟩ := type
    simp only [node, funcType, Node.children, List.map_append, map_field_fields']
  | block block =>
    obtain ⟨info, stmts⟩ := block
    exact move.map_ofStmt_stmts' stmts
  | clause clause =>
    obtain ⟨info, list, body⟩ := clause
    simp only [node, Relocation.clause, Node.children, List.map_append, map_ofExpr_exprs,
      map_ofStmt_stmts']
  | stmt stmt => exact move.stmtChildren_stmt stmt
  | expr expr => exact move.exprChildren_expr expr
  | ident ident => rfl

/-- The nodes of a relocated tree are the relocated nodes. -/
theorem nodes_node (n : Node) : (move.node n).nodes = n.nodes.map move.node := by
  induction n using Node.treeInduction with
  | step n ih =>
    rw [Node.nodes_eq, Node.nodes_eq n, children_node, List.map_cons, List.flatMap_map,
      List.map_flatMap]
    rw [List.flatMap_def, List.flatMap_def]
    exact congrArg (move.node n :: List.flatten ·) (List.map_congr_left ih)

end

end Relocation

/-! ### Two files of one text -/

/-- Two files say the same at the same distances from their starts: the names in them, and the
imports that are not given a name. -/
structure SourceFile.SameText (file other : SourceFile) : Prop where
  ident : ∀ ident, .ident ident ∈ (Node.file file).nodes →
    ∃ ident', .ident ident' ∈ (Node.file other).nodes ∧ ident'.name = ident.name ∧
      ident'.pos + file.info.span.start = ident.pos + other.info.span.start
  importSpec : ∀ spec, .importSpec spec ∈ (Node.file file).nodes → spec.name = none →
    ∃ spec', .importSpec spec' ∈ (Node.file other).nodes ∧ spec'.name = none ∧
      spec'.path.info.span.start + file.info.span.start =
        spec.path.info.span.start + other.info.span.start

/-- Relocations of one file say the same. -/
theorem Relocation.sameText_file (move other : Relocation) (file : SourceFile) :
    (move.file file).SameText (other.file file) := by
  have hnodes (move : Relocation) :
      (Node.file (move.file file)).nodes = (Node.file file).nodes.map move.node :=
    move.nodes_node (.file file)
  have hstart (move : Relocation) :
      (move.file file).info.span.start = file.info.span.start + move.distance := rfl
  constructor
  · intro ident hident
    rw [hnodes] at hident
    obtain ⟨node, hnode, hmoved⟩ := List.mem_map.1 hident
    cases node with
    | ident origin =>
      cases hmoved
      refine ⟨other.ident origin, hnodes other ▸ List.mem_map_of_mem hnode, rfl, ?_⟩
      have hpos (move : Relocation) : (move.ident origin).pos = origin.pos + move.distance := rfl
      rw [hstart, hstart, hpos, hpos]
      omega
    | _ => cases hmoved
  · intro spec hspec hname
    rw [hnodes] at hspec
    obtain ⟨node, hnode, hmoved⟩ := List.mem_map.1 hspec
    cases node with
    | importSpec origin =>
      cases hmoved
      have hnone : origin.name = none := Option.map_eq_none_iff.1 hname
      refine ⟨other.importSpec origin, hnodes other ▸ List.mem_map_of_mem hnode,
        Option.map_eq_none_iff.2 hnone, ?_⟩
      have hpos (move : Relocation) : (move.importSpec origin).path.info.span.start =
        origin.path.info.span.start + move.distance := rfl
      rw [hstart, hstart, hpos, hpos]
      omega
    | _ => cases hmoved

/-- A text parses to files that say the same, wherever it is registered under a name. -/
theorem FileSet.sameText_of_parseFile {set set' : FileSet} {name text : String}
    {file file' : SourceFile} (h : (set.parseFile name text).2 = .ok file)
    (h' : (set'.parseFile name text).2 = .ok file') : file.SameText file' := by
  have hrun (set : FileSet) {file : SourceFile} (h : (set.parseFile name text).2 = .ok file) :
      Relocation.result ⟨set.space, name, set.nextBase⟩
        (Parser.runOn Parser.sourceFile ⟨0⟩ (FileEntry.ofText name 0 text) text) = .ok file := by
    rw [← h, ← Relocation.runOn_sourceFile]
    unfold parseFile nextEntry Relocation.fileEntry Relocation.pos FileEntry.ofText
    rw [Nat.zero_add]
  have hfile := hrun set h
  have hfile' := hrun set' h'
  cases hparsed : Parser.runOn Parser.sourceFile ⟨0⟩ (FileEntry.ofText name 0 text) text with
  | error error =>
    rw [hparsed] at hfile
    cases hfile
  | ok origin =>
    rw [hparsed] at hfile hfile'
    cases hfile
    cases hfile'
    exact Relocation.sameText_file _ _ origin

end PackageAtlas
