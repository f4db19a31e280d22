import PackageAtlas.Tree.Walk

/-!
The innermost node around an interval of positions, with its path from the package.
-/

set_option autoImplicit false
set_option relaxedAutoImplicit false

namespace PackageAtlas

/-- The innermost node that encloses an interval and the path to its parent. -/
structure EnclosingPath where
  node : Node
  ancestors : List Node

namespace EnclosingPath

/-- Whether the node is the interval itself; a name or a literal is, for any interval inside it. -/
def isExact (path : EnclosingPath) (start stop : Nat) : Bool :=
  match path.node with
  | .ident _ => true
  | .expr (.literal _) => true
  | node => node.span == ⟨start, stop⟩

/-- Descends from a node into the first child that encloses the interval, as long as there is
one. -/
def descend (start stop : Nat) (ancestors : List Node) (node : Node) : EnclosingPath :=
  match _h : node.children.find? (·.span.containsInterval start stop) with
  | none => ⟨node, ancestors⟩
  | some child => descend start stop (ancestors ++ [node]) child
termination_by sizeOf node
decreasing_by exact Node.sizeOf_lt_of_mem_children (List.mem_of_find?_eq_some _h)

end EnclosingPath

/-- The innermost node of a package around an interval, in the first file that encloses it. -/
def PackageTree.enclosing? (tree : PackageTree) (start stop : Nat) : Option EnclosingPath :=
  (tree.files.find? (·.info.span.containsInterval start stop)).map fun file ↦
    EnclosingPath.descend start stop [.package tree] (.file file)

end PackageAtlas
