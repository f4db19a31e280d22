import Mathlib.Data.List.Pairwise
import PackageAtlas.Proofs.Spans.Package

/-!
Outlines of trees: the identities and spans of all nodes, without what the nodes say. Renaming keeps
outlines, so that a file under other names stands where the parsed file stands. A position is where
one leaf starts at most, and the descent into a package ends there.
-/

set_option autoImplicit false
set_option relaxedAutoImplicit false

namespace PackageAtlas

/-- The identities and the spans of a node and of all nodes below it. -/
inductive Outline where
  | mk (info : NodeInfo) (parts : List Outline)

def Outline.info : Outline → NodeInfo
  | mk info _ => info

namespace Node

def outline (node : Node) : Outline :=
  .mk node.info (node.children.attach.map fun ⟨child, _⟩ ↦ outline child)
termination_by sizeOf node
decreasing_by exact sizeOf_lt_of_mem_children (by assumption)

theorem outline_eq (node : Node) : node.outline = .mk node.info (node.children.map outline) := by
  rw [outline]
  have hparts : node.children.attach.map (fun child ↦ outline child.1) =
      node.children.map outline := List.attach_map_val
  exact congrArg (Outline.mk node.info) hparts

theorem info_eq_comp : info = Outline.info ∘ outline := by
  funext node
  rw [Function.comp_apply, outline_eq]
  rfl

variable {node other : Node}

theorem outline_eq_iff : node.outline = other.outline ↔
    node.info = other.info ∧ node.children.map outline = other.children.map outline := by
  rw [outline_eq node, outline_eq other, Outline.mk.injEq]

/-- What follows from outlines of trees holds of lists of trees. -/
theorem map_flatMap_congr {α β : Type} {f : Node → List α} {g : α → β} {trees others : List Node}
    (h : ∀ tree ∈ trees, ∀ other, tree.outline = other.outline → (f tree).map g = (f other).map g)
    (hsame : trees.map outline = others.map outline) :
    (trees.flatMap f).map g = (others.flatMap f).map g := by
  induction trees generalizing others with
  | nil => rw [List.map_eq_nil_iff.1 hsame.symm]
  | cons tree rest ih =>
    cases others with
    | nil => cases hsame
    | cons other others =>
      rw [List.map_cons, List.map_cons, List.cons.injEq] at hsame
      rw [List.flatMap_cons, List.flatMap_cons, List.map_append, List.map_append,
        h tree List.mem_cons_self other hsame.1,
        ih (fun tree htree ↦ h tree (List.mem_cons_of_mem _ htree)) hsame.2]

/-- Trees with one outline have nodes with the same outlines in the same order. -/
theorem map_outline_nodes (h : node.outline = other.outline) :
    node.nodes.map outline = other.nodes.map outline := by
  induction node using treeInduction generalizing other with
  | step node ih =>
    rw [nodes_eq, nodes_eq, List.map_cons, List.map_cons, h,
      map_flatMap_congr (fun child hchild _ ↦ ih child hchild) (outline_eq_iff.1 h).2]

theorem map_info_nodes (h : node.outline = other.outline) :
    node.nodes.map info = other.nodes.map info := by
  rw [info_eq_comp, ← List.map_map, ← List.map_map, map_outline_nodes h]

/-- Each node has one with its outline where another tree with the same outline has it. -/
theorem exists_of_mem_nodes (h : node.outline = other.outline) {inner : Node}
    (hinner : inner ∈ node.nodes) : ∃ inner' ∈ other.nodes, inner'.outline = inner.outline := by
  have hmem : inner.outline ∈ node.nodes.map outline := List.mem_map_of_mem hinner
  rw [map_outline_nodes h] at hmem
  exact List.mem_map.1 hmem

/-- A node that stands where another one stands tells the same about intervals. -/
theorem Separates.congr {start stop : Nat} (h : node.Separates start stop)
    (hsame : node.outline = other.outline) : other.Separates start stop := by
  obtain ⟨hinfo, hchildren⟩ := outline_eq_iff.1 hsame
  have hspans : node.children.map span = other.children.map span := by
    have hspan : span = (fun outline ↦ outline.info.span) ∘ outline := by
      funext node
      rw [Function.comp_apply, outline_eq]
      rfl
    rw [hspan, ← List.map_map, ← List.map_map, hchildren]
  constructor
  · intro child hchild hencloses
    have hmem : child.span ∈ node.children.map span := hspans ▸ List.mem_map_of_mem hchild
    obtain ⟨first, hfirst, heq⟩ := List.mem_map.1 hmem
    have hwithin := h.within first hfirst (heq ▸ hencloses)
    rwa [span, hinfo] at hwithin
  · have halone {nodes : List Node} : nodes.Pairwise (fun first second ↦
        first.span.containsInterval start stop → ¬second.span.containsInterval start stop) ↔
        (nodes.map span).Pairwise fun first second ↦
          first.containsInterval start stop → ¬second.containsInterval start stop := by
      rw [List.pairwise_map]
    exact halone.2 (hspans ▸ halone.1 h.alone)

end Node

/-! ### The way to a leaf -/

open Node

/-- The descent to an interval inside a leaf ends there, in a tree where at most one child of a node
encloses the interval. -/
theorem EnclosingPath.node_descend_leaf {start stop : Nat} (ancestors : List Node)
    {node leaf : Node} (h : ∀ other ∈ node.nodes, other.Separates start stop)
    (hleaf : leaf ∈ node.nodes) (hchildren : leaf.children = [])
    (hencloses : leaf.span.containsInterval start stop) :
    (descend start stop ancestors node).node = leaf := by
  induction node using treeInduction generalizing ancestors with
  | step node ih =>
    rw [nodes_eq] at hleaf
    rcases List.mem_cons.1 hleaf with rfl | hleaf
    · rw [descend_of_none ancestors (by rw [hchildren]; rfl)]
    · obtain ⟨child, hchild, hleaf⟩ := List.mem_flatMap.1 hleaf
      have hbelow : ∀ other ∈ child.nodes, other.Separates start stop := fun other hother ↦
        h other (nodes_subset_of_mem_children hchild hother)
      have hfound := encloses_of_mem_nodes hbelow hleaf hencloses
      cases hfind : node.children.find? (·.span.containsInterval start stop) with
      | none => exact absurd hfound (List.find?_eq_none.1 hfind child hchild)
      | some first =>
        obtain ⟨henclosing, before, after, hsplit, hbefore⟩ :=
          List.find?_eq_some_iff_append.1 hfind
        have halone := (h node node.mem_nodes_self).alone
        rw [hsplit] at hchild halone
        obtain ⟨-, hrest, -⟩ := List.pairwise_append.1 halone
        obtain rfl : child = first := by
          rcases List.mem_append.1 hchild with hmem | hmem
          · exact absurd hfound (by simpa using hbefore child hmem)
          · refine (List.mem_cons.1 hmem).resolve_right fun hafter ↦ ?_
            exact (List.pairwise_cons.1 hrest).1 child hafter henclosing hfound
        rw [descend_of_find ancestors hfind]
        exact ih child (List.mem_of_find?_eq_some hfind) (ancestors ++ [node]) hbelow hleaf

/-- Two leaves that enclose an interval are the same. -/
theorem Node.eq_of_leaves {start stop : Nat} {node leaf leaf' : Node}
    (h : ∀ other ∈ node.nodes, other.Separates start stop) (hleaf : leaf ∈ node.nodes)
    (hleaf' : leaf' ∈ node.nodes) (hchildren : leaf.children = [])
    (hchildren' : leaf'.children = [])
    (hencloses : leaf.span.containsInterval start stop)
    (hencloses' : leaf'.span.containsInterval start stop) : leaf = leaf' := by
  rw [← EnclosingPath.node_descend_leaf [] h hleaf hchildren hencloses]
  exact EnclosingPath.node_descend_leaf [] h hleaf' hchildren' hencloses'

/-! ### Files under other names -/

/-- What is known of the nodes of a file that was parsed, whatever its names are now. -/
structure SourceFile.Stands (file : SourceFile) : Prop where
  distinct : ((Node.file file).nodes.map (·.id)).Nodup
  numbered : ∀ node ∈ (Node.file file).nodes, node.id.file = file.info.id.file
  separates : ∀ start stop, ∀ node ∈ (Node.file file).nodes, node.Separates start stop
  nonempty : ∀ node ∈ (Node.file file).nodes, node.span.start < node.span.stop
  within : ∀ node ∈ (Node.file file).nodes,
    file.info.span.start ≤ node.span.start ∧ node.span.stop ≤ file.info.span.stop

/-- Where the span of each node holds those of its children, that of the root holds all. -/
theorem Node.span_within {node : Node}
    (h : ∀ other ∈ node.nodes, ∀ child ∈ other.children,
      other.span.start ≤ child.span.start ∧ child.span.stop ≤ other.span.stop) :
    ∀ other ∈ node.nodes,
      node.span.start ≤ other.span.start ∧ other.span.stop ≤ node.span.stop := by
  induction node using treeInduction with
  | step node ih =>
    intro other hother
    rw [nodes_eq] at hother
    rcases List.mem_cons.1 hother with rfl | hother
    · exact ⟨le_rfl, le_rfl⟩
    · obtain ⟨child, hchild, hother⟩ := List.mem_flatMap.1 hother
      have hnode := h node node.mem_nodes_self child hchild
      have hbelow := ih child hchild
        (fun inner hinner ↦ h inner (nodes_subset_of_mem_children hchild hinner)) other hother
      exact ⟨hnode.1.trans hbelow.1, hbelow.2.trans hnode.2⟩

theorem SourceFile.LaidOut.stands {space : SpaceId} {bound : Nat} {file : SourceFile}
    (h : file.LaidOut space bound) : file.Stands := by
  obtain ⟨input, last, hi, -, -, hrun⟩ := h
  have hforest : forest [.file file] = (Node.file file).nodes := by simp
  have hnest : ∀ node ∈ (Node.file file).nodes, node.SpansNest input.chars input.entry.base :=
    fun node hnode ↦ hrun.nest node (hforest ▸ hnode)
  have hfile : ∀ node ∈ (Node.file file).nodes, node.id.file = input.entry.base := by
    intro node hnode
    obtain ⟨index, hid, -⟩ := hrun.numbered node (hforest ▸ hnode)
    rw [hid]
  refine ⟨hforest ▸ hrun.distinct, fun node hnode ↦ ?_, fun start stop node hnode ↦ ?_,
    fun node hnode ↦ (hnest node hnode).nonempty, ?_⟩
  · rw [hfile node hnode]
    exact (hfile _ (Node.file file).mem_nodes_self).symm
  · refine (hnest node hnode).separates fun child hchild ↦ (hnest child ?_).nonempty
    exact nodes_subset_of_mem_nodes hnode (nodes_subset_of_mem_children hchild child.mem_nodes_self)
  · exact Node.span_within fun node hnode ↦ (hnest node hnode).within

theorem SourceFile.Stands.congr {file other : SourceFile} (h : file.Stands)
    (hsame : (Node.file other).outline = (Node.file file).outline) : other.Stands := by
  have hinfo : other.info = file.info := (outline_eq_iff.1 hsame).1
  have hids : (Node.file other).nodes.map (·.id) = (Node.file file).nodes.map (·.id) := by
    have hid : (fun node : Node ↦ node.id) = NodeInfo.id ∘ Node.info := rfl
    rw [hid, ← List.map_map, ← List.map_map, map_info_nodes hsame]
  have hnode {node : Node} (hmem : node ∈ (Node.file other).nodes) :
      ∃ node' ∈ (Node.file file).nodes, node'.outline = node.outline ∧ node'.info = node.info := by
    obtain ⟨node', hmem', houtline⟩ := exists_of_mem_nodes hsame hmem
    exact ⟨node', hmem', houtline, (outline_eq_iff.1 houtline).1⟩
  refine ⟨hids ▸ h.distinct, fun node hmem ↦ ?_, fun start stop node hmem ↦ ?_, fun node hmem ↦ ?_,
    fun node hmem ↦ ?_⟩
  all_goals obtain ⟨node', hmem', houtline, hsame'⟩ := hnode hmem
  · rw [Node.id, ← hsame', hinfo]
    exact h.numbered node' hmem'
  · exact (h.separates start stop node' hmem').congr houtline
  · rw [span, ← hsame']
    exact h.nonempty node' hmem'
  · rw [span, ← hsame', hinfo]
    exact h.within node' hmem'

/-- Files that stand where files of a set stand; none of them is there under two sets of names. -/
structure FileSet.Holds (set : FileSet) (files : List SourceFile) : Prop where
  parsed : ∃ originals, set.Parsed originals ∧ ∀ file ∈ files, ∃ original ∈ originals,
    (Node.file file).outline = (Node.file original).outline
  once : ∀ file ∈ files, ∀ other ∈ files, file.info.id = other.info.id → file = other

namespace FileSet.Holds

variable {set : FileSet} {files : List SourceFile} {file other : SourceFile}

theorem stands (h : set.Holds files) (hfile : file ∈ files) : file.Stands := by
  obtain ⟨originals, hparsed, hfiles⟩ := h.parsed
  obtain ⟨original, horiginal, hsame⟩ := hfiles file hfile
  exact (hparsed.laidOut.1 original horiginal).stands.congr hsame

/-- Two files of a set stand apart from one another. -/
theorem apart (h : set.Holds files) (hfile : file ∈ files) (hother : other ∈ files) :
    file = other ∨ file.Apart other := by
  obtain ⟨originals, hparsed, hfiles⟩ := h.parsed
  obtain ⟨original, horiginal, hsame⟩ := hfiles file hfile
  obtain ⟨original', horiginal', hsame'⟩ := hfiles other hother
  have hinfo : file.info = original.info := (outline_eq_iff.1 hsame).1
  have hinfo' : other.info = original'.info := (outline_eq_iff.1 hsame').1
  by_cases heq : original = original'
  · refine .inl (h.once file hfile other hother ?_)
    rw [hinfo, hinfo', heq]
  · have happart : original.Apart original' := by
      have hsymm : Std.Symm SourceFile.Apart := ⟨fun _ _ h ↦ h.symm⟩
      exact hparsed.laidOut.2.forall horiginal horiginal' heq
    refine .inr ⟨?_, ?_⟩
    · rw [hinfo, hinfo']
      exact happart.identity
    · rw [hinfo, hinfo']
      exact happart.span

/-- The files in which the same node stands are the same. -/
theorem file_eq_of_id (h : set.Holds files) (hfile : file ∈ files) (hother : other ∈ files)
    {node node' : Node} (hnode : node ∈ (Node.file file).nodes)
    (hnode' : node' ∈ (Node.file other).nodes) (hid : node.id = node'.id) : file = other := by
  refine (h.apart hfile hother).resolve_right fun happart ↦ happart.identity ?_
  rw [← (h.stands hfile).numbered node hnode, ← (h.stands hother).numbered node' hnode', hid]

/-- One leaf at most starts at a position. -/
theorem leaf_unique (h : set.Holds files) (hfile : file ∈ files) (hother : other ∈ files)
    {leaf leaf' : Node} (hleaf : leaf ∈ (Node.file file).nodes)
    (hleaf' : leaf' ∈ (Node.file other).nodes) (hchildren : leaf.children = [])
    (hchildren' : leaf'.children = []) (hstart : leaf.span.start = leaf'.span.start) :
    leaf = leaf' := by
  have hlt := (h.stands hfile).nonempty leaf hleaf
  have hlt' := (h.stands hother).nonempty leaf' hleaf'
  have hwithin := (h.stands hfile).within leaf hleaf
  have hwithin' := (h.stands hother).within leaf' hleaf'
  obtain rfl : file = other := by
    refine (h.apart hfile hother).resolve_right fun happart ↦ ?_
    have := happart.span
    omega
  refine eq_of_leaves ((h.stands hfile).separates leaf.span.start (leaf.span.start + 1)) hleaf
    hleaf' hchildren hchildren' ?_ ?_
  · rw [Span.containsInterval_iff]
    omega
  · rw [Span.containsInterval_iff]
    omega

end FileSet.Holds

end PackageAtlas
