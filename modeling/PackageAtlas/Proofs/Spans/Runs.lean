import PackageAtlas.Parse.Parser
import PackageAtlas.Proofs.Spans.Tokens
import PackageAtlas.Proofs.Spans.Traversal

/-!
Runs of trees: what a parser has built so far, from left to right. The trees of a run stand one
behind the other between two positions, their nodes have numbers of their own from a range, and
inside each of them spans nest (`Node.SpansNest`). A run goes on to the right (`Run.append`),
neighbours in it become the children of a node around them (`Run.gather`), and a node gives way to
its children (`Run.splice`).
-/

set_option autoImplicit false
set_option relaxedAutoImplicit false

namespace PackageAtlas

open Lexeme

/-! ### Views of expressions and statements as nodes -/

namespace Node

@[simp] theorem info_ofExpr (e : Expr) : (ofExpr e).info = e.info := by cases e <;> rfl

/-- The span of a node of a parsed text is not empty and holds those of its children, which follow
one another; a name stands on its own letters. Positions of the text start at a base. -/
structure SpansNest (text : List Char) (base : Nat) (node : Node) : Prop where
  nonempty : node.span.start < node.span.stop
  within : ∀ child ∈ node.children,
    node.span.start ≤ child.span.start ∧ child.span.stop ≤ node.span.stop
  ordered : node.children.Pairwise fun first second ↦ first.span.stop ≤ second.span.start
  spelled : ∀ ident, node.ident? = some ident → ∃ offset,
    node.span = ⟨base + offset, base + offset + byteLength ident.name.toList⟩ ∧
      HoldsAt text ident.name.toList offset

/-- All nodes of some trees. -/
def forest (trees : List Node) : List Node := trees.flatMap nodes

@[simp] theorem forest_nil : forest [] = [] := rfl

@[simp] theorem forest_cons (tree : Node) (rest : List Node) :
    forest (tree :: rest) = tree.nodes ++ forest rest := rfl

@[simp] theorem forest_append (first second : List Node) :
    forest (first ++ second) = forest first ++ forest second := List.flatMap_append

theorem mem_forest {node : Node} {trees : List Node} (h : node ∈ trees) : node ∈ forest trees :=
  List.mem_flatMap.2 ⟨node, h, node.mem_nodes_self⟩

theorem forest_children_subset (node : Node) : forest node.children ⊆ node.nodes := by
  rw [nodes_eq]
  exact List.subset_cons_self _ _

end Node

open Node

/-- Trees of a parsed file that follow one another between two positions, with the numbers of their
nodes from a range. -/
structure Run (input : ParseInput) (first last : Nat) (lo hi : Nat) (trees : List Node) : Prop where
  ordered : trees.Pairwise fun left right ↦ left.span.stop ≤ right.span.start
  within : ∀ tree ∈ trees, lo ≤ tree.span.start ∧ tree.span.stop ≤ hi
  nest : ∀ node ∈ forest trees, node.SpansNest input.chars input.entry.base
  distinct : ((forest trees).map (·.id)).Nodup
  numbered : ∀ node ∈ forest trees, ∃ index, node.id = ⟨input.space, input.entry.base, index⟩ ∧
    first ≤ index ∧ index < last

namespace Run

variable {input : ParseInput} {first last middle lo hi : Nat} {left right trees : List Node}

theorem nil : Run input first last lo hi [] :=
  ⟨.nil, by simp, by simp, by simp, by simp⟩

theorem mono {first' last' lo' hi' : Nat} (h : Run input first last lo hi trees)
    (hfirst : first' ≤ first) (hlast : last ≤ last') (hlo : lo' ≤ lo) (hhi : hi ≤ hi') :
    Run input first' last' lo' hi' trees where
  ordered := h.ordered
  within := fun tree htree ↦
    ⟨hlo.trans (h.within tree htree).1, (h.within tree htree).2.trans hhi⟩
  nest := h.nest
  distinct := h.distinct
  numbered := fun node hnode ↦
    have ⟨index, hid, hge, hlt⟩ := h.numbered node hnode
    ⟨index, hid, hfirst.trans hge, hlt.trans_le hlast⟩

theorem span_lt {tree : Node} (h : Run input first last lo hi trees) (htree : tree ∈ trees) :
    tree.span.start < tree.span.stop := (h.nest tree (mem_forest htree)).nonempty

/-- A run and another one behind it. -/
theorem append {stop start : Nat} (hleft : Run input first middle lo stop left)
    (hright : Run input middle last start hi right) (hmid : stop ≤ start) (hlo : lo ≤ start)
    (hhi : stop ≤ hi) (hfirst : first ≤ middle) (hlast : middle ≤ last) :
    Run input first last lo hi (left ++ right) where
  ordered := List.pairwise_append.2 ⟨hleft.ordered, hright.ordered, fun x hx y hy ↦
    (hleft.within x hx).2.trans (hmid.trans (hright.within y hy).1)⟩
  within := by
    intro tree htree
    rcases List.mem_append.1 htree with htree | htree
    · exact ⟨(hleft.within tree htree).1, (hleft.within tree htree).2.trans hhi⟩
    · exact ⟨hlo.trans (hright.within tree htree).1, (hright.within tree htree).2⟩
  nest := by
    intro node hnode
    rw [forest_append] at hnode
    exact (List.mem_append.1 hnode).elim (hleft.nest node) (hright.nest node)
  distinct := by
    rw [forest_append, List.map_append]
    refine List.nodup_append.2 ⟨hleft.distinct, hright.distinct, fun id hid id' hid' hsame ↦ ?_⟩
    obtain ⟨node, hnode, rfl⟩ := List.mem_map.1 hid
    obtain ⟨other, hother, rfl⟩ := List.mem_map.1 hid'
    obtain ⟨index, hindex, -, hlt⟩ := hleft.numbered node hnode
    obtain ⟨index', hindex', hge, -⟩ := hright.numbered other hother
    rw [hindex, hindex', NodeId.mk.injEq] at hsame
    omega
  numbered := by
    intro node hnode
    rw [forest_append] at hnode
    rcases List.mem_append.1 hnode with hnode | hnode
    · obtain ⟨index, hid, hge, hlt⟩ := hleft.numbered node hnode
      exact ⟨index, hid, hge, hlt.trans_le hlast⟩
    · obtain ⟨index, hid, hge, hlt⟩ := hright.numbered node hnode
      exact ⟨index, hid, hfirst.trans hge, hlt⟩

/-- Neighbours in a run are a run. -/
theorem part {trees' : List Node} (h : Run input first last lo hi (left ++ trees ++ trees')) :
    Run input first last lo hi trees where
  ordered := (List.pairwise_append.1 (List.pairwise_append.1 h.ordered).1).2.1
  within := fun tree htree ↦ h.within tree (List.mem_append_left _ (List.mem_append_right _ htree))
  nest := fun node hnode ↦ h.nest node (by simp [hnode])
  distinct := h.distinct.sublist (List.Sublist.map _ (by
    rw [forest_append, forest_append]
    exact (List.sublist_append_right _ _).trans (List.sublist_append_left _ _)))
  numbered := fun node hnode ↦ h.numbered node (by simp [hnode])

/-- Neighbours in a run become the children of the node with the next number, whose span holds
them and leaves the others outside. -/
theorem gather {children : List Node} {node : Node}
    (h : Run input first last lo hi (left ++ children ++ right)) (hlast : first ≤ last)
    (hchildren : node.children = children) (hident : node.ident? = none)
    (hid : node.id = ⟨input.space, input.entry.base, last⟩)
    (hspan : node.span.start < node.span.stop) (hlo : lo ≤ node.span.start)
    (hhi : node.span.stop ≤ hi)
    (hwithin : ∀ child ∈ children, node.span.start ≤ child.span.start ∧
      child.span.stop ≤ node.span.stop)
    (hleft : ∀ tree ∈ left, tree.span.stop ≤ node.span.start)
    (hright : ∀ tree ∈ right, node.span.stop ≤ tree.span.start) :
    Run input first (last + 1) lo hi (left ++ node :: right) := by
  obtain ⟨hordered, horder_right, -⟩ := List.pairwise_append.1 h.ordered
  obtain ⟨horder_left, horder_children, -⟩ := List.pairwise_append.1 hordered
  have hlefts : ∀ tree ∈ left, tree ∈ left ++ children ++ right := fun tree htree ↦
    List.mem_append_left _ (List.mem_append_left _ htree)
  have hrights : ∀ tree ∈ right, tree ∈ left ++ children ++ right := fun tree htree ↦
    List.mem_append_right _ htree
  -- the same nodes as before, and the new one
  have hperm : (forest (left ++ node :: right)).Perm
      (node :: forest (left ++ children ++ right)) := by
    simp only [forest_append, forest_cons, nodes_eq node, hchildren, List.append_assoc,
      List.cons_append]
    exact List.perm_middle
  have hnew : node.SpansNest input.chars input.entry.base :=
    ⟨hspan, by rwa [hchildren], by rwa [hchildren], by simp [hident]⟩
  have hmem : ∀ {other : Node}, other ∈ forest (left ++ node :: right) →
      other = node ∨ other ∈ forest (left ++ children ++ right) := fun hother ↦
    List.mem_cons.1 (hperm.mem_iff.1 hother)
  constructor
  · refine List.pairwise_append.2 ⟨horder_left, List.pairwise_cons.2 ⟨hright, horder_right⟩, ?_⟩
    intro tree htree other hother
    rcases List.mem_cons.1 hother with rfl | hother
    · exact hleft tree htree
    · exact (hleft tree htree).trans (hspan.le.trans (hright other hother))
  · intro tree htree
    rcases List.mem_append.1 htree with htree | htree
    · exact h.within tree (hlefts tree htree)
    · rcases List.mem_cons.1 htree with rfl | htree
      · exact ⟨hlo, hhi⟩
      · exact h.within tree (hrights tree htree)
  · intro other hother
    rcases hmem hother with rfl | hother
    · exact hnew
    · exact h.nest other hother
  · rw [(hperm.map _).nodup_iff, List.map_cons, List.nodup_cons]
    refine ⟨fun hin ↦ ?_, h.distinct⟩
    obtain ⟨other, hother, hsame⟩ := List.mem_map.1 hin
    obtain ⟨index, hindex, -, hlt⟩ := h.numbered other hother
    rw [hindex, hid, NodeId.mk.injEq] at hsame
    omega
  · intro other hother
    rcases hmem hother with rfl | hother
    · exact ⟨last, hid, hlast, last.lt_succ_self⟩
    · obtain ⟨index, hindex, hge, hlt⟩ := h.numbered other hother
      exact ⟨index, hindex, hge, hlt.trans last.lt_succ_self⟩

/-- A node in a run gives way to its children. -/
theorem splice {node : Node} (h : Run input first last lo hi (left ++ node :: right)) :
    Run input first last lo hi (left ++ node.children ++ right) := by
  have hnode : node ∈ left ++ node :: right := List.mem_append_right _ List.mem_cons_self
  have hspans := h.nest node (mem_forest hnode)
  have hsublist : (forest (left ++ node.children ++ right)).Sublist
      (forest (left ++ node :: right)) := by
    simp only [forest_append, forest_cons, nodes_eq node, List.append_assoc, List.cons_append]
    exact (List.Sublist.refl _).append (List.sublist_cons_self _ _)
  obtain ⟨horder_left, horder, hacross⟩ := List.pairwise_append.1 h.ordered
  obtain ⟨hbehind, horder_right⟩ := List.pairwise_cons.1 horder
  constructor
  · refine List.pairwise_append.2 ⟨List.pairwise_append.2
      ⟨horder_left, hspans.ordered, fun tree htree child hchild ↦ ?_⟩, horder_right, ?_⟩
    · exact (hacross tree htree node List.mem_cons_self).trans (hspans.within child hchild).1
    · intro tree htree other hother
      rcases List.mem_append.1 htree with htree | htree
      · exact hacross tree htree other (List.mem_cons_of_mem _ hother)
      · exact (hspans.within tree htree).2.trans (hbehind other hother)
  · intro tree htree
    rcases List.mem_append.1 htree with htree | htree
    · rcases List.mem_append.1 htree with htree | htree
      · exact h.within tree (List.mem_append_left _ htree)
      · have hbounds := h.within node hnode
        exact ⟨hbounds.1.trans (hspans.within tree htree).1,
          (hspans.within tree htree).2.trans hbounds.2⟩
    · exact h.within tree (List.mem_append_right _ (List.mem_cons_of_mem _ htree))
  · exact fun other hother ↦ h.nest other (hsublist.subset hother)
  · exact (hsublist.map _).nodup h.distinct
  · exact fun other hother ↦ h.numbered other (hsublist.subset hother)

/-- A leaf with the next number. -/
theorem leaf {node : Node} (hchildren : node.children = []) (hlast : first ≤ last)
    (hid : node.id = ⟨input.space, input.entry.base, last⟩)
    (hspan : node.span.start < node.span.stop) (hlo : lo ≤ node.span.start)
    (hhi : node.span.stop ≤ hi)
    (hspelled : ∀ ident, node.ident? = some ident → ∃ offset,
      node.span = ⟨input.entry.base + offset,
        input.entry.base + offset + byteLength ident.name.toList⟩ ∧
        HoldsAt input.chars ident.name.toList offset) :
    Run input first (last + 1) lo hi [node] := by
  have hnodes : forest [node] = [node] := by simp [nodes_eq, hchildren]
  constructor
  · exact List.pairwise_singleton _ _
  · exact List.forall_mem_singleton.2 ⟨hlo, hhi⟩
  · rw [hnodes]
    exact List.forall_mem_singleton.2 ⟨hspan, by simp [hchildren], by simp [hchildren], hspelled⟩
  · simp [hnodes]
  · rw [hnodes]
    exact List.forall_mem_singleton.2 ⟨last, hid, hlast, last.lt_succ_self⟩

end Run

end PackageAtlas
