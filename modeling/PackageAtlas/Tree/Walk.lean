import PackageAtlas.Tree.Node

/-!
Depth-first traversal. `Node.walk` shows a visitor every node with its path from the root, and the
visitor's answers prune or end the traversal; `Node.findAncestors?` is the path of a node with a
given identity. `nextStmt?` reads the following statement off such a path.
-/

set_option autoImplicit false
set_option relaxedAutoImplicit false

namespace PackageAtlas

/-- What a traversal does after a node. -/
inductive Visit where
  | descend
  | skipChildren
  | stop
deriving DecidableEq, Repr

namespace Node

/-- Visits a node below the given ancestors, root first, and then its children in order. The visitor
has a state of its own; the flag tells whether the traversal came to its end. -/
def walkBelow {σ : Type} (visit : σ → Node → List Node → σ × Visit) (ancestors : List Node)
    (node : Node) (state : σ) : σ × Bool :=
  match visit state node ancestors with
  | (state, .stop) => (state, false)
  | (state, .skipChildren) => (state, true)
  | (state, .descend) =>
    node.children.attach.foldl (fun (state, going) ⟨child, _⟩ ↦
      if going then walkBelow visit (ancestors ++ [node]) child state else (state, false))
      (state, true)
termination_by sizeOf node
decreasing_by exact sizeOf_lt_of_mem_children (by assumption)

/-- Visits a whole tree. -/
def walk {σ : Type} (root : Node) (visit : σ → Node → List Node → σ × Visit) (state : σ) :
    σ × Bool :=
  walkBelow visit [] root state

/-- All nodes of a tree, parents before children, each with its path from the root. -/
def withAncestors (root : Node) : List (Node × List Node) :=
  (walk root (fun seen node ancestors ↦ ((node, ancestors) :: seen, .descend)) []).1.reverse

/-- How many nodes a tree has. -/
def count (root : Node) : Nat :=
  (walk root (fun seen _ _ ↦ (seen + 1, .descend)) 0).1

/-- The path from the root to the parent of the node with an identity. -/
def findAncestors? (root : Node) (target : NodeId) : Option (List Node) :=
  (walk root (fun found node ancestors ↦
    if node.id = target then (some ancestors, .stop) else (found, .descend)) none).1

end Node

/-- The `n`th ancestor of a path, counted from the parent outward. -/
def nthOutward? (ancestors : List Node) (n : Nat) : Option Node :=
  ancestors.reverse[n]?

/-- The statement after the one that holds `below`, in the nearest block of the nodes around it,
listed outward. -/
def nextStmtOutward? (below : Node) : List Node → Option Stmt
  | [] => none
  | .block b :: _ => ((b.stmts.dropWhile (·.info.id ≠ below.id)).drop 1).head?
  | parent :: outward => nextStmtOutward? parent outward

/-- The statement after the one that holds a node, in the nearest block around the node. -/
def nextStmt? (node : Node) (ancestors : List Node) : Option Stmt :=
  nextStmtOutward? node ancestors.reverse

end PackageAtlas
