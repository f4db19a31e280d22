import PackageAtlas.Tree.Walk

/-!
The nodes of a tree as a list: every node before the nodes below it, and the children of a node in
order. The depth-first traversal goes through this list, each node with its path from the root
(`withAncestors_eq`, `findAncestors?_eq`).
-/

set_option autoImplicit false
set_option relaxedAutoImplicit false

namespace PackageAtlas

namespace Node

/-- All nodes of a tree, parents before children. -/
def nodes (node : Node) : List Node :=
  node :: node.children.attach.flatMap fun ⟨child, _⟩ ↦ nodes child
termination_by sizeOf node
decreasing_by exact sizeOf_lt_of_mem_children (by assumption)

theorem nodes_eq (node : Node) : node.nodes = node :: node.children.flatMap nodes := by
  rw [nodes, List.flatMap_def, List.flatMap_def]
  exact congrArg (node :: List.flatten ·) List.attach_map_val

theorem mem_nodes_self (node : Node) : node ∈ node.nodes := by
  rw [nodes_eq]
  exact List.mem_cons_self

theorem nodes_subset_of_mem_children {node child : Node} (h : child ∈ node.children) :
    child.nodes ⊆ node.nodes := by
  rw [nodes_eq node]
  exact fun other hother ↦ List.mem_cons_of_mem _ (List.mem_flatMap.2 ⟨child, h, hother⟩)

/-- All nodes of a tree below some ancestors, each with its path from the root. -/
def paths (ancestors : List Node) (node : Node) : List (Node × List Node) :=
  (node, ancestors) :: node.children.attach.flatMap fun ⟨child, _⟩ ↦
    paths (ancestors ++ [node]) child
termination_by sizeOf node
decreasing_by exact sizeOf_lt_of_mem_children (by assumption)

theorem paths_eq (ancestors : List Node) (node : Node) :
    node.paths ancestors =
      (node, ancestors) :: node.children.flatMap (paths (ancestors ++ [node])) := by
  rw [paths, List.flatMap_def, List.flatMap_def]
  exact congrArg ((node, ancestors) :: List.flatten ·) List.attach_map_val

/-- Induction over a tree: what holds of a node if it holds of its children. -/
theorem treeInduction {motive : Node → Prop}
    (step : ∀ node, (∀ child ∈ node.children, motive child) → motive node) (node : Node) :
    motive node :=
  step node fun child _ ↦ treeInduction step child
termination_by sizeOf node
decreasing_by exact sizeOf_lt_of_mem_children (by assumption)

theorem nodes_subset_of_mem_nodes {root node : Node} (h : node ∈ root.nodes) :
    node.nodes ⊆ root.nodes := by
  induction root using treeInduction with
  | step root ih =>
    rw [nodes_eq] at h
    rcases List.mem_cons.1 h with rfl | h
    · exact List.Subset.refl _
    · obtain ⟨child, hchild, hnode⟩ := List.mem_flatMap.1 h
      exact List.Subset.trans (ih child hchild hnode) (nodes_subset_of_mem_children hchild)

theorem map_fst_paths (ancestors : List Node) (node : Node) :
    (node.paths ancestors).map (·.1) = node.nodes := by
  induction node using treeInduction generalizing ancestors with
  | step node ih =>
    rw [paths_eq, nodes_eq, List.map_cons, List.map_flatMap, List.flatMap_def, List.flatMap_def]
    exact congrArg (node :: List.flatten ·)
      (List.map_congr_left fun child hchild ↦ ih child hchild _)

theorem mem_nodes_of_mem_paths {root node : Node} {above ancestors : List Node}
    (h : (node, ancestors) ∈ root.paths above) : node ∈ root.nodes := by
  rw [← map_fst_paths above]
  exact List.mem_map_of_mem h

/-! ### Traversals -/

section Walk

variable {σ : Type}

/-- A traversal visits a node and then its children, as long as it goes on. -/
theorem walkBelow_eq (visit : σ → Node → List Node → σ × Visit) (ancestors : List Node)
    (node : Node) (state : σ) :
    walkBelow visit ancestors node state =
      match visit state node ancestors with
      | (state, .stop) => (state, false)
      | (state, .skipChildren) => (state, true)
      | (state, .descend) =>
        node.children.foldl (fun result child ↦
          if result.2 then walkBelow visit (ancestors ++ [node]) child result.1
          else (result.1, false)) (state, true) := by
  rw [walkBelow]
  rcases visit state node ancestors with ⟨state, _ | _ | _⟩
  · exact List.foldl_attach (f := fun (result : σ × Bool) child ↦
      if result.2 then walkBelow visit (ancestors ++ [node]) child result.1
      else (result.1, false))
  · rfl
  · rfl

/-- A traversal that never stops folds over the list of nodes. -/
theorem walkBelow_descend (f : σ → Node → List Node → σ) (ancestors : List Node) (node : Node)
    (state : σ) :
    walkBelow (fun state node ancestors ↦ (f state node ancestors, .descend)) ancestors node state =
      ((node.paths ancestors).foldl (fun state path ↦ f state path.1 path.2) state, true) := by
  induction node using treeInduction generalizing ancestors state with
  | step node ih =>
    rw [walkBelow_eq, paths_eq, List.foldl_cons, List.foldl_flatMap]
    generalize f state node ancestors = state
    dsimp only
    generalize hchildren : node.children = children at ih
    clear hchildren
    induction children generalizing state with
    | nil => rfl
    | cons child rest ihrest =>
      rw [List.foldl_cons, if_pos rfl, ih child List.mem_cons_self]
      exact ihrest _ fun other hother ↦ ih other (List.mem_cons_of_mem _ hother)

/-- A traversal that stops at the first node that passes a test finds its path. -/
theorem walkBelow_find (test : Node → Prop) [DecidablePred test] (ancestors : List Node)
    (node : Node) :
    walkBelow (fun found node ancestors ↦
        if test node then (some ancestors, .stop) else (found, .descend)) ancestors node none =
      (((node.paths ancestors).find? fun path ↦ test path.1).map (·.2),
        ((node.paths ancestors).find? fun path ↦ test path.1).isNone) := by
  induction node using treeInduction generalizing ancestors with
  | step node ih =>
    rw [walkBelow_eq, paths_eq, List.find?_cons]
    by_cases htest : test node
    · simp [htest]
    · simp only [htest, if_false, decide_false]
      generalize hchildren : node.children = children at ih
      clear hchildren
      induction children with
      | nil => rfl
      | cons child rest ihrest =>
        rw [List.foldl_cons, if_pos rfl, ih child List.mem_cons_self, List.flatMap_cons,
          List.find?_append]
        cases hfind : (child.paths (ancestors ++ [node])).find? fun path ↦ test path.1 with
        | none =>
          exact ihrest fun other hother ↦ ih other (List.mem_cons_of_mem _ hother)
        | some path =>
          clear ih ihrest
          induction rest with
          | nil => rfl
          | cons other rest ihrest =>
            rw [List.foldl_cons]
            exact ihrest

end Walk

theorem withAncestors_eq (root : Node) : root.withAncestors = root.paths [] := by
  have hfold : ∀ (list seen : List (Node × List Node)),
      list.foldl (fun seen path ↦ path :: seen) seen = list.reverse ++ seen := by
    intro list seen
    induction list generalizing seen with
    | nil => rfl
    | cons path rest ih => rw [List.foldl_cons, ih, List.reverse_cons, List.append_assoc]; rfl
  rw [withAncestors, walk, walkBelow_descend fun seen node ancestors ↦ (node, ancestors) :: seen]
  rw [hfold, List.append_nil, List.reverse_reverse]

theorem findAncestors?_eq (root : Node) (target : NodeId) :
    root.findAncestors? target =
      ((root.paths []).find? fun path ↦ decide (path.1.id = target)).map (·.2) := by
  rw [findAncestors?, walk, walkBelow_find fun node ↦ node.id = target]

/-- Where nodes have identities of their own, the search for a node of the tree finds its path. -/
theorem findAncestors?_of_mem {root node : Node} {ancestors : List Node}
    (hdistinct : (root.nodes.map (·.id)).Nodup) (h : (node, ancestors) ∈ root.paths []) :
    root.findAncestors? node.id = some ancestors := by
  rw [← map_fst_paths [] root, List.map_map] at hdistinct
  rw [findAncestors?_eq]
  obtain ⟨before, after, hsplit⟩ := List.append_of_mem h
  rw [hsplit, List.map_append, List.map_cons] at hdistinct
  have hbefore : before.find? (fun path ↦ decide (path.1.id = node.id)) = none := by
    refine List.find?_eq_none.2 fun path hpath hsame ↦ ?_
    refine (List.nodup_append.1 hdistinct).2.2 path.1.id (List.mem_map.2 ⟨path, hpath, rfl⟩) node.id
      List.mem_cons_self (of_decide_eq_true hsame)
  rw [hsplit, List.find?_append, hbefore, List.find?_cons, decide_eq_true (rfl : node.id = node.id)]
  rfl

end Node

end PackageAtlas
