import Mathlib.Algebra.GroupWithZero.Nat
import PackageAtlas.Proofs.Resolution.DeclRules
import PackageAtlas.Proofs.Spans.Traversal
import PackageAtlas.Check.Package

/-!
All tasks of a check. Every rule but the resolution of a symbol asks only for tasks about smaller
trees and for symbols (`TasksRun.rule`); so no task, however deep it nests, leaves the context or
what is being resolved otherwise than it found it (`Checker.within_frame`). A symbol is resolved in
the context of its own file, so that it comes out the same from any context in which it is first
needed (`Checker.within_resolve`).
-/

set_option autoImplicit false
set_option relaxedAutoImplicit false

namespace PackageAtlas

open Check CheckRule

/-! ### Nodes below a node -/

namespace Node

/-- The nodes of a tree without its root. -/
def below (node : Node) : List Node := node.children.flatMap nodes

theorem mem_below {node child : Node} (h : child ∈ node.children) : child ∈ node.below :=
  List.mem_flatMap.mpr ⟨child, h, mem_nodes_self child⟩

theorem mem_below_of_child {node child inner : Node} (h : child ∈ node.children)
    (hinner : inner ∈ child.below) : inner ∈ node.below :=
  List.mem_flatMap.mpr ⟨child, h, nodes_eq child ▸ List.mem_cons_of_mem _ hinner⟩

theorem nodes_subset_of_mem_below {node inner : Node} (h : inner ∈ node.below) :
    inner.nodes ⊆ node.nodes := by
  obtain ⟨child, hchild, hinner⟩ := List.mem_flatMap.mp h
  exact List.Subset.trans (nodes_subset_of_mem_nodes hinner) (nodes_subset_of_mem_children hchild)

theorem count_eq (node : Node) : node.count = node.nodes.length := by
  have hcount (list : List (Node × List Node)) (start : Nat) :
      list.foldl (fun seen _ ↦ seen + 1) start = start + list.length := by
    induction list generalizing start with
    | nil => rfl
    | cons path rest ih => rw [List.foldl_cons, ih, List.length_cons, Nat.add_assoc, Nat.add_comm 1]
  rw [count, walk, walkBelow_descend fun seen _ _ ↦ seen + 1]
  rw [hcount, Nat.zero_add, ← map_fst_paths [] node, List.length_map]

/-- A tree has one node more than the trees of its children together. -/
theorem count_eq_sum (node : Node) : node.count = (node.children.map count).sum + 1 := by
  rw [count_eq, nodes_eq, List.length_cons, List.length_flatMap]
  exact congrArg (List.sum · + 1) (List.map_congr_left fun child _ ↦ (count_eq child).symm)

theorem length_children_lt (node : Node) : node.children.length < node.count := by
  rw [count_eq_sum]
  refine Nat.lt_succ_of_le ?_
  generalize node.children = children
  induction children with
  | nil => exact Nat.le_refl _
  | cons child rest ih =>
    rw [List.length_cons, List.map_cons, List.sum_cons, count_eq_sum child]
    omega

theorem count_lt_of_mem_below {node inner : Node} (h : inner ∈ node.below) :
    inner.count < node.count := by
  induction node using treeInduction with
  | step node ih =>
    obtain ⟨child, hchild, hinner⟩ := List.mem_flatMap.mp h
    have hlt : child.count < node.count := by
      rw [count_eq, count_eq, nodes_eq node, List.length_cons, List.flatMap_def]
      exact Nat.lt_succ_of_le
        (List.sublist_flatten_of_mem (List.mem_map_of_mem hchild)).length_le
    rw [nodes_eq] at hinner
    rcases List.mem_cons.mp hinner with rfl | hinner
    · exact hlt
    · exact Nat.lt_trans (ih child hchild hinner) hlt

end Node

variable {inv : CheckState → Prop} {hangs : Prop} {c : Checker}

/-! ### Rules by syntax -/

/-- All tasks about the trees below a node run, and so does every resolution. -/
structure TasksRun (inv : CheckState → Prop) (hangs : Prop) (c : Checker) (node : Node) : Prop where
  expr : ∀ e, Node.ofExpr e ∈ node.below → Runs inv hangs .nothing (c.expr e)
  typeExpr : ∀ e, Node.ofExpr e ∈ node.below → Runs inv hangs .nothing (c.typeExpr e)
  stmt : ∀ s, Node.ofStmt s ∈ node.below → Runs inv hangs .names (c.stmt s)
  resolve : ∀ id, Runs inv hangs .nothing (c.resolve id)

/-- What a type expression asks for: the type expressions below, the types behind names, the lengths
of arrays and, for what is embedded in an interface, symbols. -/
structure TypeTasksRun (inv : CheckState → Prop) (hangs : Prop) (c : Checker) (e : Expr) :
    Prop where
  typeExpr : ∀ e', Node.ofExpr e' ∈ (Node.ofExpr e).below → Runs inv hangs .nothing (c.typeExpr e')
  name : ∀ id, Runs (fun s ↦ inv s ∧ (s.store.get id).kind = .typeName) hangs .nothing
    (c.resolve id)
  length : ∀ info length element, e = .arrayType info (some length) element →
    Runs inv hangs .nothing (c.expr length)
  embedded : ∀ info elements, e = .interfaceType info elements → ∀ element ∈ elements,
    element.names = [] → ∀ id, Runs inv hangs .nothing (c.resolve id)

theorem TasksRun.toType {e : Expr} (h : TasksRun inv hangs c (.ofExpr e)) :
    TypeTasksRun inv hangs c e where
  typeExpr := h.typeExpr
  name id := (h.resolve id).mono fun _ hs ↦ hs.1
  length info length element he := h.expr length (Node.mem_below (by
    subst he
    simp [Node.ofExpr, Node.children, Node.exprChildren]))
  embedded _ _ _ _ _ _ := h.resolve

theorem runs_typeOfExpr [Stable inv .nothing] {e : Expr} (h : TypeTasksRun inv hangs c e) :
    Runs inv hangs .nothing (typeOfExpr c e) := by
  have hchild {e' : Expr} (he' : Node.ofExpr e' ∈ (Node.ofExpr e).children) :=
    h.typeExpr e' (Node.mem_below he')
  have hfield {field : Field} (hf : Node.field field ∈ (Node.ofExpr e).children) :=
    h.typeExpr field.type (Node.mem_below_of_child hf (Node.mem_below (by simp [Node.children])))
  cases e with
  | ident i => exact runs_namedType h.name
  | selector info operand selected => exact runs_qualifiedType _ _ _
  | paren info inner => exact hchild (by simp [Node.ofExpr, Node.children, Node.exprChildren])
  | star info operand =>
    exact .bind (hchild (by simp [Node.ofExpr, Node.children, Node.exprChildren])) fun _ ↦ .pure _
  | arrayType info length element =>
    refine runs_arrayType (fun e' he' ↦ h.length info e' element (by rw [Option.mem_def.mp he']))
      (hchild ?_)
    simp [Node.ofExpr, Node.children, Node.exprChildren]
  | mapType info key value =>
    refine .bind (hchild ?_) fun _ ↦ .bind (hchild ?_) fun _ ↦ .pure _ <;>
      simp [Node.ofExpr, Node.children, Node.exprChildren]
  | structType info fields =>
    refine runs_structType fun field hf ↦ hfield ?_
    simpa [Node.ofExpr, Node.children, Node.exprChildren] using hf
  | interfaceType info elements =>
    refine runs_interfaceType (fun element he ↦ hfield ?_) (h.embedded info elements rfl)
    simpa [Node.ofExpr, Node.children, Node.exprChildren] using he
  | funcType type =>
    refine .bind (runs_signature fun field hf ↦ hfield ?_) fun _ ↦ .pure _
    simpa [Node.ofExpr, Node.children, or_comm] using hf
  | literal | call | unary | binary | typeAssert | index | composite | keyValue | funcLit =>
    exact runs_badType _ _

/-- The elements of a literal, and what stands on both sides of their colons, are below it. -/
theorem TasksRun.element {node : Node} {element : Expr} (h : TasksRun inv hangs c node)
    (hbelow : Node.ofExpr element ∈ node.children) : ElementRuns inv hangs c element where
  whole := h.expr element (Node.mem_below hbelow)
  parts info key given heq := by
    subst heq
    constructor <;> refine h.expr _ (Node.mem_below_of_child hbelow (Node.mem_below ?_)) <;>
      simp [Node.ofExpr, Node.children, Node.exprChildren]

/-- An expression asks for what is below it, and for its type if it is a type expression. -/
theorem runs_operandOf [Lasting inv] {e : Expr} (h : TasksRun inv hangs c (.ofExpr e))
    (htype : Runs inv hangs .nothing (c.typeExpr e)) :
    Runs inv hangs .nothing (operandOf c e) := by
  have hchild {e' : Expr} (he' : Node.ofExpr e' ∈ (Node.ofExpr e).children) :=
    h.expr e' (Node.mem_below he')
  have hchildType {e' : Expr} (he' : Node.ofExpr e' ∈ (Node.ofExpr e).children) :=
    h.typeExpr e' (Node.mem_below he')
  cases e with
  | ident i => exact runs_name fun id _ ↦ h.resolve id
  | literal literal => exact .pure _
  | selector info operand selected =>
    refine runs_selector h.resolve (hchild ?_)
    simp [Node.ofExpr, Node.children, Node.exprChildren]
  | call info callee args =>
    refine runs_call info (hchild ?_) (fun e he ↦ hchild ?_) fun e he ↦ hchildType ?_
    · simp [Node.ofExpr, Node.children, Node.exprChildren]
    all_goals
      exact List.mem_cons_of_mem _ (List.mem_map_of_mem he)
  | star info operand =>
    exact runs_indirection info (hchild (by simp [Node.ofExpr, Node.children, Node.exprChildren]))
  | unary info op operand =>
    exact runs_unary info op (hchild (by simp [Node.ofExpr, Node.children, Node.exprChildren]))
  | binary info op left right =>
    refine runs_binary info op (hchild ?_) (hchild ?_) <;>
      simp [Node.ofExpr, Node.children, Node.exprChildren]
  | paren info inner => exact hchild (by simp [Node.ofExpr, Node.children, Node.exprChildren])
  | typeAssert info operand type =>
    refine runs_typeAssertion info (hchild ?_) fun e he ↦ hchildType ?_
    · simp [Node.ofExpr, Node.children, Node.exprChildren]
    · exact List.mem_cons_of_mem _ (List.mem_map_of_mem (Option.mem_toList.mpr he))
  | index info indexed key =>
    refine runs_index info (hchild ?_) (hchild ?_) <;>
      simp [Node.ofExpr, Node.children, Node.exprChildren]
  | composite info type elements =>
    refine runs_composite (hchildType ?_) (fun e he ↦ h.element ?_) h.resolve
    · simp [Node.ofExpr, Node.children, Node.exprChildren]
    · exact List.mem_cons_of_mem _ (List.mem_map_of_mem he)
  | keyValue info key given => exact runs_badExpr _ _
  | funcLit info type body =>
    have htypeNode : Node.funcType type ∈ (Node.ofExpr (.funcLit info type body)).children := by
      simp [Node.ofExpr, Node.children, Node.exprChildren]
    have hbodyNode : Node.block body ∈ (Node.ofExpr (.funcLit info type body)).children := by
      simp [Node.ofExpr, Node.children, Node.exprChildren]
    refine runs_funcLiteral (fun field hf ↦ h.typeExpr _ ?_) fun s hs ↦ h.stmt s ?_
    · have hfield : Node.field field ∈ (Node.funcType type).children := by
        simpa [Node.children] using hf
      exact Node.mem_below_of_child htypeNode
        (Node.mem_below_of_child hfield (Node.mem_below (by simp [Node.children])))
    · exact Node.mem_below_of_child hbodyNode (Node.mem_below (List.mem_map_of_mem hs))
  | arrayType | mapType | structType | interfaceType | funcType =>
    exact .bind htype fun _ ↦ .pure _

/-- What is inside the parentheses around an expression is one of its nodes. -/
theorem Node.mem_nodes_unparen (e : Expr) : Node.ofExpr e.unparen ∈ (Node.ofExpr e).nodes := by
  by_cases h : ∃ info inner, e = .paren info inner
  · obtain ⟨info, inner, rfl⟩ := h
    refine Node.nodes_subset_of_mem_children ?_ (mem_nodes_unparen inner)
    simp [Node.ofExpr, Node.children, Node.exprChildren]
  · have hself : e.unparen = e := by
      cases e with
      | paren info inner => exact absurd ⟨info, inner, rfl⟩ h
      | _ => rfl
    rw [hself]
    exact Node.mem_nodes_self _

/-- The specs of a declaration are below it, and what they ask for is below them. -/
theorem TasksRun.specs {node : Node} {decl : GenDecl} (h : TasksRun inv hangs c node)
    (hdecl : Node.genDecl decl ∈ node.children) : SpecsRun inv hangs c decl.specs := by
  have hspec {spec : Spec} (hs : spec ∈ decl.specs) {inner : Node}
      (hinner : inner ∈ (Node.ofSpec spec).children) : inner ∈ node.below :=
    Node.mem_below_of_child hdecl
      (Node.mem_below_of_child (List.mem_map_of_mem hs) (Node.mem_below hinner))
  refine ⟨fun spec hs ↦ h.typeExpr _ (hspec hs ?_), fun spec hs ↦ ⟨fun e he ↦ ?_, fun e he ↦ ?_⟩⟩
  · simp [Node.ofSpec, Node.children]
  · refine h.typeExpr e (hspec hs ?_)
    simp only [Node.ofSpec, Node.children, List.mem_append]
    exact .inl (.inr (List.mem_map_of_mem (Option.mem_toList.mpr he)))
  · refine h.expr e (hspec hs ?_)
    simp only [Node.ofSpec, Node.children, List.mem_append]
    exact .inr (List.mem_map_of_mem he)

/-- A statement asks for what is below it. -/
theorem runs_stmt [Lasting inv] {s : Stmt} (h : TasksRun inv hangs c (.ofStmt s)) :
    Runs inv hangs .names (CheckRule.stmt c s) := by
  have hexpr {e : Expr} (he : Node.ofExpr e ∈ (Node.ofStmt s).children) :=
    h.expr e (Node.mem_below he)
  have hstmt {s' : Stmt} (hs' : Node.ofStmt s' ∈ (Node.ofStmt s).children) :=
    h.stmt s' (Node.mem_below hs')
  have hbody {body : Block} (hb : Node.block body ∈ (Node.ofStmt s).children) :
      ∀ s' ∈ body.stmts, Runs inv hangs .names (c.stmt s') := fun s' hs' ↦
    h.stmt s' (Node.mem_below_of_child hb (Node.mem_below (List.mem_map_of_mem hs')))
  have hlist {clause : CaseClause} (hc : Node.clause clause ∈ (Node.ofStmt s).children)
      {e : Expr} (he : e ∈ clause.list) : Node.ofExpr e ∈ (Node.ofStmt s).below := by
    refine Node.mem_below_of_child hc (Node.mem_below ?_)
    exact List.mem_append_left _ (List.mem_map_of_mem he)
  have harm {clause : CaseClause} (hc : Node.clause clause ∈ (Node.ofStmt s).children)
      (s' : Stmt) (hs' : s' ∈ clause.body) : Runs inv hangs .names (c.stmt s') := by
    refine h.stmt s' (Node.mem_below_of_child hc (Node.mem_below ?_))
    exact List.mem_append_right _ (List.mem_map_of_mem hs')
  cases s with
  | decl info decl =>
    refine runs_localSpecs _ _ (fun _ hsome ↦ (by cases hsome)) (h.specs ?_) h.resolve
    simp [Node.ofStmt, Node.children, Node.stmtChildren]
  | assign info lhs op rhs =>
    have hlhs : ∀ e ∈ lhs, Runs inv hangs .nothing (c.expr e) := fun e he ↦
      hexpr (List.mem_append_left _ (List.mem_map_of_mem he))
    have hrhs : ∀ e ∈ rhs, Runs inv hangs .nothing (c.expr e) := fun e he ↦
      hexpr (List.mem_append_right _ (List.mem_map_of_mem he))
    cases op with
    | define => exact runs_shortDecl info lhs hrhs
    | assign => exact .ofNothing (runs_assignment info hlhs hrhs h.resolve)
    | compound op => exact .ofNothing (runs_compoundAssignment hlhs hrhs h.resolve)
  | expr info operand => exact .ofNothing (runs_exprStmt info (hexpr List.mem_cons_self))
  | incDec info operand increment =>
    exact .ofNothing (runs_incDec info increment (hexpr List.mem_cons_self) h.resolve)
  | ret info results =>
    exact .ofNothing (runs_returned info fun e he ↦ hexpr (List.mem_map_of_mem he))
  | block body => exact runs_block fun s' hs' ↦ hstmt (List.mem_map_of_mem hs')
  | cond info init test body otherwise =>
    refine .namesInBlock ?_
    refine .bind (runs_optionalStmt fun s' hs' ↦ hstmt ?_) fun _ ↦
      .bind (runs_condition "if" (hexpr ?_)) fun _ ↦
      .bind (runs_block (hbody ?_)) fun _ ↦ runs_optionalStmt fun s' hs' ↦ hstmt ?_
    · simp [Node.ofStmt, Node.children, Node.stmtChildren, Option.mem_def.mp hs']
    · simp [Node.ofStmt, Node.children, Node.stmtChildren]
    · simp [Node.ofStmt, Node.children, Node.stmtChildren]
    · simp [Node.ofStmt, Node.children, Node.stmtChildren, Option.mem_def.mp hs']
  | loop info init test post body =>
    refine .namesInBlock ?_
    refine .bind (runs_optionalStmt fun s' hs' ↦ hstmt ?_) fun _ ↦
      .bind (.forOption fun e he ↦ runs_condition "for" (hexpr ?_)) fun _ ↦
      .bind (runs_optionalStmt fun s' hs' ↦ hstmt ?_) fun _ ↦ runs_block (hbody ?_)
    · simp [Node.ofStmt, Node.children, Node.stmtChildren, Option.mem_def.mp hs']
    · simp [Node.ofStmt, Node.children, Node.stmtChildren, Option.mem_def.mp he]
    · simp [Node.ofStmt, Node.children, Node.stmtChildren, Option.mem_def.mp hs']
    · simp [Node.ofStmt, Node.children, Node.stmtChildren]
  | switch info init tag clauses =>
    have hclause {clause : CaseClause} (hc : clause ∈ clauses) :
        Node.clause clause ∈ (Node.ofStmt (.switch info init tag clauses)).children :=
      List.mem_append_right _ (List.mem_map_of_mem hc)
    refine runs_switch (fun s' hs' ↦ hstmt ?_) (fun e he ↦ hexpr ?_)
      (fun clause hc e he ↦ h.expr e (hlist (hclause hc) he)) fun clause hc ↦ harm (hclause hc)
    · simp [Node.ofStmt, Node.children, Node.stmtChildren, Option.mem_def.mp hs']
    · simp [Node.ofStmt, Node.children, Node.stmtChildren, Option.mem_def.mp he]
  | typeSwitch info init binding guard clauses =>
    have hclause {clause : CaseClause} (hc : clause ∈ clauses) :
        Node.clause clause ∈ (Node.ofStmt (.typeSwitch info init binding guard clauses)).children :=
      List.mem_append_right _ (List.mem_map_of_mem hc)
    have hguard : Node.ofExpr guard ∈
        (Node.ofStmt (.typeSwitch info init binding guard clauses)).children := by
      simp [Node.ofStmt, Node.children, Node.stmtChildren]
    refine runs_typeSwitch binding (fun s' hs' ↦ hstmt ?_)
      (fun info operand heq ↦ h.expr operand ?_)
      (fun clause hc e he ↦ h.typeExpr e (hlist (hclause hc) he)) fun clause hc ↦ harm (hclause hc)
    · simp [Node.ofStmt, Node.children, Node.stmtChildren, Option.mem_def.mp hs']
    · have hassert := Node.mem_nodes_unparen guard
      rw [heq] at hassert
      have hoperand :
          Node.ofExpr operand ∈ (Node.ofExpr (.typeAssert info operand none)).children :=
        List.mem_cons_self
      exact List.mem_flatMap.mpr ⟨_, hguard, Node.nodes_subset_of_mem_nodes hassert
        (Node.nodes_subset_of_mem_children hoperand (Node.mem_nodes_self _))⟩
  | deferred info isGo call => exact .ofNothing (runs_deferred isGo (hexpr List.mem_cons_self))
  | branch info isBreak => exact .pure ()

/-! ### Any depth -/

/-- How far a task reaches: a statement may add names to the innermost block. -/
def Task.reach : Task → Reach
  | .stmt _ => .names
  | .expr _ | .typeExpr _ | .resolve _ => .nothing

/-- The rule of a task keeps to its reach if all tasks that it asks for do. -/
theorem runs_rule (h : ∀ task : Task, Runs (fun _ ↦ True) hangs task.reach (c task)) (task : Task) :
    Runs (fun _ ↦ True) hangs task.reach (Checker.rule c task) := by
  have hbelow (node : Node) : TasksRun (fun _ ↦ True) hangs c node :=
    ⟨fun e _ ↦ h (.expr e), fun e _ ↦ h (.typeExpr e), fun s _ ↦ h (.stmt s),
      fun id ↦ h (.resolve id)⟩
  cases task with
  | expr e => exact runs_recordOperand e.id (runs_operandOf (hbelow _) (h (.typeExpr e)))
  | typeExpr e =>
    exact .bind (runs_typeOfExpr (hbelow _).toType) fun type ↦
      .bind (runs_recordType e.id type) fun _ ↦ .pure type
  | stmt s => exact runs_stmt (hbelow _)
  | resolve id =>
    refine fun input s _ ↦ runsAt_resolve (fun spec file _ ↦ ?_) (fun number _ ↦ ?_)
      fun decl file _ ↦ ?_
    · exact runsAt_resolveType (fun _ ↦ trivial) (fun _ ↦ h (.typeExpr spec.type))
        fun _ other ↦ h (.resolve other)
    · exact runsAt_resolveGroup (fun _ _ ↦ trivial)
        fun _ _ _ ↦ ⟨fun e _ ↦ h (.typeExpr e), fun e _ ↦ h (.expr e)⟩
    · have hfunc : Runs (fun _ ↦ True) hangs .nothing (resolveFunc c id decl file) :=
        runs_resolveFunc (fun _ _ ↦ trivial) fun field _ ↦ h (.typeExpr field.type)
      exact hfunc input s trivial

theorem Checker.within_runs (depth : Nat) (task : Task) :
    Runs (fun _ ↦ True) True task.reach (Checker.within depth task) := by
  induction depth generalizing task with
  | zero => exact fun _ _ _ ↦ ⟨fun _ ↦ trivial, fun _ _ h ↦ (by cases h)⟩
  | succ depth ih => exact runs_rule ih task

/-- An expression, a type expression or a symbol that is resolved leaves the context as it was, and
so does a statement but for new names of the innermost block; and none of them changes what was
collected from the files or what is being resolved. -/
theorem Checker.within_frame {depth : Nat} {task : Task} {input : CheckInput} {s later : CheckState}
    {result : task.Result} (h : Checker.within depth task input s = some (result, later)) :
    s.Frame task.reach later :=
  (Checker.within_runs depth task input s trivial).frame result later h

/-! ### From any context -/

/-- A step goes on in the same way from any context, and comes back to it. -/
def IgnoresContext {α : Type} (step : Check α) : Prop :=
  ∀ input s context, step input { s with context } =
    (step input s).map fun (a, later) ↦ (a, { later with context })

namespace IgnoresContext

variable {α β γ : Type} {step : Check α} {next : α → Check β}

theorem pure (a : α) : IgnoresContext (Pure.pure a : Check α) := fun _ _ _ ↦ rfl

theorem bind (h : IgnoresContext step) (hnext : ∀ a, IgnoresContext (next a)) :
    IgnoresContext (step >>= next) := by
  intro input s context
  cases hstep : step input s with
  | none => rw [run_bind_of_none hstep, run_bind_of_none (by rw [h, hstep]; rfl)]; rfl
  | some result =>
    obtain ⟨a, middle⟩ := result
    have hother : step input { s with context } = some (a, { middle with context }) := by
      rw [h, hstep]
      rfl
    rw [run_bind_of_some hstep, run_bind_of_some hother]
    exact hnext a input middle context

/-- What is seen is the same from any context. -/
theorem look {f : CheckInput → CheckState → α} (hlook : Sees step f)
    (hsame : ∀ input s context, f input { s with context } = f input s)
    (hnext : ∀ a, IgnoresContext (next a)) : IgnoresContext (step >>= next) :=
  bind (fun input s context ↦ by rw [hlook, hlook, hsame]; rfl) hnext

/-- Going on from the whole state, in a way that does not depend on the context. -/
theorem look_state {next : CheckState → Check β}
    (hsame : ∀ s context, next { s with context } = next s)
    (hnext : ∀ s, IgnoresContext (next s)) : IgnoresContext ((get : Check CheckState) >>= next) := by
  intro input s context
  change next { s with context } input { s with context } = (next s input s).map _
  rw [hsame]
  exact hnext s input s context

theorem modify {f : CheckState → CheckState}
    (h : ∀ s context, f { s with context } = { f s with context }) :
    IgnoresContext (modify f : Check Unit) := by
  intro input s context
  change some ((), f { s with context }) = some ((), { f s with context })
  rw [h]

theorem ite {p : Prop} [Decidable p] {step' : Check α} (h : IgnoresContext step)
    (h' : IgnoresContext step') : IgnoresContext (if p then step else step') := by
  split
  · exact h
  · exact h'

theorem forM {step : γ → Check Unit} (h : ∀ a, IgnoresContext (step a)) (list : List γ) :
    IgnoresContext (list.forM step) := by
  induction list with
  | nil => exact pure ()
  | cons a rest ih => exact (h a).bind fun _ ↦ ih

/-- Between two changes that leave the context alone. -/
theorem between {enter leave : CheckState → CheckState}
    (henter : ∀ s context, enter { s with context } = { enter s with context })
    (hleave : ∀ s context, leave { s with context } = { leave s with context })
    (h : IgnoresContext step) : IgnoresContext (Check.between enter leave step) :=
  (modify henter).bind fun _ ↦ h.bind fun a ↦ (modify hleave).bind fun _ ↦ pure a

/-- In a context of its own any step ignores the one around. -/
theorem inContext (own : Context) (step : Check α) : IgnoresContext (Check.inContext own step) := by
  intro input s context
  have hrun (s : CheckState) : Check.inContext own step input s =
      (step input { s with context := own }).map fun (a, later) ↦
        (a, { later with context := s.context }) := by
    change (step input { s with context := own }).bind _ = _
    rw [Option.map_eq_bind]
    rfl
  rw [hrun, hrun, Option.map_map]
  rfl

end IgnoresContext

/-! ### Resolving -/

section Rules

variable {c : Checker}

theorem ignoresContext_report (pos : Nat) (problem : Problem) :
    IgnoresContext (report pos problem) :=
  .modify fun _ _ ↦ rfl

theorem ignoresContext_modifyStore (change : Store → Store) :
    IgnoresContext (modifyStore change) :=
  .modify fun _ _ ↦ rfl

theorem ignoresContext_settleType (id : SymbolId) (isAlias : Bool) (type : Ty) :
    IgnoresContext (settleType id isAlias type) :=
  .ite (ignoresContext_modifyStore _) (ignoresContext_modifyStore _)

theorem ignoresContext_underlying (h : ∀ id, IgnoresContext (c.resolve id)) (type : Ty) :
    IgnoresContext (c.underlying type) := by
  unfold Checker.underlying
  split
  · next name =>
    exact (h name.symbol).bind fun _ ↦ .look sees_store (fun _ _ _ ↦ rfl) fun _ ↦ .pure _
  · exact .pure _

theorem ignoresContext_resolveType (h : ∀ id, IgnoresContext (c.resolve id)) (id : SymbolId)
    (spec : TypeSpec) (file : Nat) : IgnoresContext (resolveType c id spec file) := by
  have hstep : IgnoresContext (typeStep c id spec file) :=
    (IgnoresContext.inContext _ _).bind fun type ↦
      .ite (ignoresContext_settleType id true type) <|
        (ignoresContext_underlying h type).bind fun shape ↦ ignoresContext_settleType id false shape
  rw [resolveType_eq]
  refine .look (sees_symbol id) (fun _ _ _ ↦ rfl) fun found ↦ .ite (.pure ()) ?_
  refine .look_state (fun _ _ ↦ rfl) fun s ↦
    .ite ?_ (.between (fun _ _ ↦ rfl) (fun _ _ ↦ rfl) hstep)
  exact (ignoresContext_report _ _).bind fun _ ↦ ignoresContext_settleType id _ _

theorem ignoresContext_cyclicValue (id : SymbolId) : IgnoresContext (cyclicValue id) :=
  .look (sees_symbol id) (fun _ _ _ ↦ rfl) fun _ ↦
    .ite ((ignoresContext_report _ _).bind fun _ ↦ ignoresContext_modifyStore _) (.pure ())

theorem ignoresContext_resolveGroup (number : Nat) : IgnoresContext (resolveGroup c number) := by
  rw [resolveGroup_eq]
  refine .look_state (fun _ _ ↦ rfl) fun s ↦ .ite (.pure ()) (.ite ?_ ?_)
  · exact .forM ignoresContext_cyclicValue _
  · exact .between (fun _ _ ↦ rfl) (fun _ _ ↦ rfl) (.inContext _ _)

theorem ignoresContext_resolveFunc (id : SymbolId) (decl : FuncDecl) (file : Nat) :
    IgnoresContext (resolveFunc c id decl file) :=
  .look (sees_symbol id) (fun _ _ _ ↦ rfl) fun _ ↦
    .ite ((IgnoresContext.inContext _ _).bind fun _ ↦ ignoresContext_modifyStore _) (.pure ())

/-- A symbol is resolved in the same way from any context if the symbols that it asks for are. -/
theorem ignoresContext_resolve (h : ∀ id, IgnoresContext (c.resolve id)) (id : SymbolId) :
    IgnoresContext (CheckRule.resolve c id) := by
  refine .look_state (fun _ _ ↦ rfl) fun s ↦ ?_
  split
  · exact .pure ()
  · exact ignoresContext_resolveType h id _ _
  · exact ignoresContext_resolveGroup _
  · exact ignoresContext_resolveFunc id _ _

end Rules

namespace Checker

/-- Tasks nested to any depth resolve a symbol in the same way from any context. -/
theorem within_resolve (depth : Nat) (id : SymbolId) :
    IgnoresContext ((within depth).resolve id) := by
  induction depth generalizing id with
  | zero => exact fun _ _ _ ↦ rfl
  | succ depth ih => exact ignoresContext_resolve ih id

/-- What a check keeps of the context, from any state. Expressions, type expressions and symbols that
are resolved leave it as it was: the file, the number of the constant, the results and all blocks. A
statement leaves it as it was but for new names of the innermost block. And a symbol is resolved from
another context just as from this one, so that what is known of it afterwards does not depend on the
file or the blocks from which it was first needed. -/
theorem within_keeps_context (depth : Nat) (input : CheckInput) (s : CheckState) :
    (∀ e operand later, (within depth).expr e input s = some (operand, later) →
      later.context = s.context) ∧
    (∀ e type later, (within depth).typeExpr e input s = some (type, later) →
      later.context = s.context) ∧
    (∀ id later, (within depth).resolve id input s = some ((), later) →
      later.context = s.context) ∧
    (∀ stmt later, (within depth).stmt stmt input s = some ((), later) →
      s.context.Grows later.context) ∧
    ∀ id context, (within depth).resolve id input { s with context } =
      ((within depth).resolve id input s).map fun (_, later) ↦ ((), { later with context }) := by
  refine ⟨fun e operand later h ↦ ?_, fun e type later h ↦ ?_, fun id later h ↦ ?_,
    fun stmt later h ↦ ?_, fun id context ↦ within_resolve depth id input s context⟩
  · exact (@within_frame depth (.expr e) input s later _ h).context
  · exact (@within_frame depth (.typeExpr e) input s later _ h).context
  · exact (@within_frame depth (.resolve id) input s later _ h).context
  · exact (@within_frame depth (.stmt stmt) input s later _ h).context

/-- A short declaration in a block of one file needs a constant of another file, whose number is not
the one around the block. -/
theorem within_keeps_context_shortDecl :
    let ident (index : Nat) (name : String) : Ident := ⟨⟨⟨⟨0⟩, 1, index⟩, ⟨index, index⟩⟩, name⟩
    let s : CheckState :=
      { CheckState.start (Universe.store.push { kind := .const, name := "k" }) with
        context := ⟨0, [Dict.empty, Dict.empty], some 7, [[.basic .int]]⟩
        files := [FileScope.empty, FileScope.empty]
        members := Dict.empty.insert "k" Universe.store.next
        pending := Dict.empty.insert Universe.store.next (.value 0)
        groups := [⟨[Universe.store.next], none, [.ident (ident 1 "iota")], 2, true, 1⟩] }
    let stmt : Stmt :=
      .assign (ident 2 "y").info [.ident (ident 2 "y")] .define [.ident (ident 3 "k")]
    ∃ later, (within 5).stmt stmt (CheckInput.alone ⟨0⟩) s = some ((), later) ∧
      (later.store.get Universe.store.next).value = some 2 ∧
      later.context.scopes.map (·.keys) = [["y"], []] ∧ s.context.Grows later.context := by
  intro ident s stmt
  have hrun : ((within 5).stmt stmt (CheckInput.alone ⟨0⟩) s).any (fun result ↦
      (result.2.store.get Universe.store.next).value = some 2 ∧
        result.2.context.scopes.map (·.keys) = [["y"], []]) = true := by
    decide +kernel
  obtain ⟨⟨⟨⟩, later⟩, hlater, hfound⟩ := (Option.any_eq_true _ _).1 hrun
  obtain ⟨hvalue, hnames⟩ := of_decide_eq_true hfound
  exact ⟨later, hlater, hvalue, hnames,
    (within_keeps_context 5 (CheckInput.alone ⟨0⟩) s).2.2.2.1 stmt later hlater⟩

end Checker

end PackageAtlas
