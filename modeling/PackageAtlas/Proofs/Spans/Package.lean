import Mathlib.Data.List.Nodup
import PackageAtlas.Proofs.Spans.File
import PackageAtlas.Tree.Enclosing

/-!
Packages of files that were parsed into one file set. Their files stand apart, so no two of them
enclose an interval, and their nodes have identities of their own. Where a node holds the spans of
its children and no two children share an interval, the search for the first child that encloses the
interval never has to come back: it passes all nodes that do (`descend_eq`), in the order of the
traversal. The descent therefore finds all nodes around an interval, and the search by identity
finds the path that the descent took (`enclosing_complete`).
-/

set_option autoImplicit false
set_option relaxedAutoImplicit false

namespace PackageAtlas

/-! ### The descent -/

namespace Node

variable {start stop : Nat} {node other : Node}

/-- What a node tells about an interval: a child encloses it only if the node does, and at most one
child encloses it. -/
structure Separates (start stop : Nat) (node : Node) : Prop where
  within : ∀ child ∈ node.children, child.span.containsInterval start stop →
    node.span.containsInterval start stop
  alone : node.children.Pairwise fun first second ↦
    first.span.containsInterval start stop → ¬second.span.containsInterval start stop

theorem SpansNest.separates {text : List Char} {base : Nat} (hnode : node.SpansNest text base)
    (hchildren : ∀ child ∈ node.children, child.span.start < child.span.stop) :
    node.Separates start stop where
  within := by
    intro child hchild hencloses
    have hwithin := hnode.within child hchild
    have hlt := hchildren child hchild
    rw [Span.containsInterval_iff] at hencloses ⊢
    omega
  alone := hnode.ordered.imp_of_mem fun {first second} hfirst _ hordered hencloses hencloses' ↦ by
    have hlt := hchildren first hfirst
    rw [Span.containsInterval_iff] at hencloses hencloses'
    omega

/-- A node encloses what the nodes below it enclose. -/
theorem encloses_of_mem_nodes (h : ∀ other ∈ node.nodes, other.Separates start stop)
    (hother : other ∈ node.nodes) (hencloses : other.span.containsInterval start stop) :
    node.span.containsInterval start stop := by
  induction node using treeInduction with
  | step node ih =>
    rw [nodes_eq] at hother
    rcases List.mem_cons.1 hother with rfl | hother
    · exact hencloses
    · obtain ⟨child, hchild, hother⟩ := List.mem_flatMap.1 hother
      have hbelow := ih child hchild
        (fun other hother ↦ h other (nodes_subset_of_mem_children hchild hother)) hother
      exact (h node node.mem_nodes_self).within child hchild hbelow

/-- The nodes that enclose an interval below some trees, where none of the trees does. -/
theorem filter_forest_eq_nil {trees : List Node}
    (h : ∀ other ∈ forest trees, other.Separates start stop)
    (hnone : ∀ tree ∈ trees, ¬tree.span.containsInterval start stop) :
    (forest trees).filter (·.span.containsInterval start stop) = [] := by
  refine List.filter_eq_nil_iff.2 fun other hother hencloses ↦ ?_
  obtain ⟨tree, htree, hmem⟩ := List.mem_flatMap.1 hother
  refine hnone tree htree (encloses_of_mem_nodes (fun other hother ↦ ?_) hmem hencloses)
  exact h other (List.mem_flatMap.2 ⟨tree, htree, hother⟩)

/-- The nodes that enclose an interval below some trees, where one of the trees does. -/
theorem filter_forest_eq {trees : List Node} {tree : Node}
    (h : ∀ other ∈ forest trees, other.Separates start stop)
    (halone : trees.Pairwise fun first second ↦
      first.span.containsInterval start stop → ¬second.span.containsInterval start stop)
    (hfind : trees.find? (·.span.containsInterval start stop) = some tree) :
    (forest trees).filter (·.span.containsInterval start stop) =
      tree.nodes.filter (·.span.containsInterval start stop) := by
  obtain ⟨hencloses, before, after, rfl, hbefore⟩ := List.find?_eq_some_iff_append.1 hfind
  obtain ⟨-, hrest, -⟩ := List.pairwise_append.1 halone
  rw [forest_append, forest_cons, List.filter_append, List.filter_append,
    filter_forest_eq_nil (fun other hother ↦ h other (by simp [hother])) (by simpa using hbefore),
    filter_forest_eq_nil (fun other hother ↦ h other (by simp [hother]))
      fun other hother ↦ (List.pairwise_cons.1 hrest).1 other hother hencloses,
    List.append_nil, List.nil_append]

end Node

open Node

theorem EnclosingPath.descend_of_find {start stop : Nat} (ancestors : List Node) {node child : Node}
    (h : node.children.find? (·.span.containsInterval start stop) = some child) :
    descend start stop ancestors node = descend start stop (ancestors ++ [node]) child := by
  conv_lhs => unfold descend
  split
  · rename_i hnone
    rw [hnone] at h
    cases h
  · rename_i other hother
    rw [hother] at h
    cases h
    rfl

theorem EnclosingPath.descend_of_none {start stop : Nat} (ancestors : List Node) {node : Node}
    (h : node.children.find? (·.span.containsInterval start stop) = none) :
    descend start stop ancestors node = ⟨node, ancestors⟩ := by
  unfold descend
  split
  · rfl
  · rename_i other hother
    rw [hother] at h
    cases h

/-- The descent from a node that encloses an interval passes all nodes below it that do, and ends
with a node of the tree and its path. -/
theorem EnclosingPath.descend_eq {start stop : Nat} (ancestors : List Node) {node : Node}
    (h : ∀ other ∈ node.nodes, other.Separates start stop)
    (hencloses : node.span.containsInterval start stop) :
    let path := descend start stop ancestors node
    path.ancestors ++ [path.node] =
        ancestors ++ node.nodes.filter (·.span.containsInterval start stop) ∧
      (path.node, path.ancestors) ∈ node.paths ancestors := by
  induction node using treeInduction generalizing ancestors with
  | step node ih =>
    have hbelow : ∀ other ∈ forest node.children, other.Separates start stop := fun other hother ↦
      h other (forest_children_subset node hother)
    have hnodes : node.nodes.filter (·.span.containsInterval start stop) =
        node :: (forest node.children).filter (·.span.containsInterval start stop) := by
      rw [nodes_eq]
      exact List.filter_cons_of_pos hencloses
    cases hfind : node.children.find? (·.span.containsInterval start stop) with
    | none =>
      rw [descend_of_none ancestors hfind, hnodes,
        filter_forest_eq_nil hbelow (by simpa using List.find?_eq_none.1 hfind), paths_eq]
      exact ⟨rfl, List.mem_cons_self⟩
    | some child =>
      have hchild := List.mem_of_find?_eq_some hfind
      have hfound : child.span.containsInterval start stop := by simpa using List.find?_some hfind
      obtain ⟨hpath, hmem⟩ := ih child hchild (ancestors ++ [node])
        (fun other hother ↦ h other (nodes_subset_of_mem_children hchild hother)) hfound
      rw [descend_of_find ancestors hfind, hnodes,
        filter_forest_eq hbelow (h node node.mem_nodes_self).alone hfind, paths_eq]
      refine ⟨hpath.trans (List.append_assoc _ _ _), ?_⟩
      exact List.mem_cons_of_mem _ (List.mem_flatMap.2 ⟨child, hchild, hmem⟩)

open Node

theorem eq_ok_of_toOption {ε α : Type} {result : Except ε α} {a : α}
    (h : result.toOption = some a) : result = .ok a := by
  cases result with
  | error error => cases h
  | ok b => exact congrArg Except.ok (Option.some.inj h)

/-! ### Files of a file set -/

/-- A file set and the files parsed into it, last first. Other texts may be registered as well. -/
inductive FileSet.Parsed : FileSet → List SourceFile → Prop where
  | empty (space : SpaceId) : Parsed (.empty space) []
  | register {set : FileSet} {files : List SourceFile} (name text : String) (h : set.Parsed files) :
    Parsed (set.add name text) files
  | parse {set : FileSet} {files : List SourceFile} {name text : String} {file : SourceFile}
    (h : set.Parsed files) (hparse : (set.parseFile name text).2 = .ok file) :
    Parsed (set.parseFile name text).1 (file :: files)

theorem FileSet.nextBase_add_eq (set : FileSet) (name text : String) :
    (set.add name text).nextBase = set.nextBase + text.utf8ByteSize + 1 := by
  rw [FileSet.nextBase, FileSet.add, List.getLast?_concat]
  rfl

/-- A file of a space that is laid out before a position. -/
def SourceFile.LaidOut (space : SpaceId) (bound : Nat) (file : SourceFile) : Prop :=
  ∃ input last hi, input.space = space ∧ hi < bound ∧
    Run input 1 last input.entry.base hi [.file file]

/-- Two files of a file set: other identities and no common position. -/
structure SourceFile.Apart (first second : SourceFile) : Prop where
  identity : first.info.id.file ≠ second.info.id.file
  span : first.info.span.stop < second.info.span.start ∨
    second.info.span.stop < first.info.span.start

theorem SourceFile.Apart.symm {first second : SourceFile} (h : first.Apart second) :
    second.Apart first :=
  ⟨h.identity.symm, h.span.symm⟩

theorem SourceFile.LaidOut.mono {space : SpaceId} {bound bound' : Nat} {file : SourceFile}
    (h : file.LaidOut space bound) (hbound : bound ≤ bound') : file.LaidOut space bound' := by
  obtain ⟨input, last, hi, hspace, hhi, hrun⟩ := h
  exact ⟨input, last, hi, hspace, hhi.trans_le hbound, hrun⟩

theorem SourceFile.LaidOut.span_stop_lt {space : SpaceId} {bound : Nat} {file : SourceFile}
    (h : file.LaidOut space bound) : file.info.span.stop < bound := by
  obtain ⟨input, last, hi, -, hhi, hrun⟩ := h
  exact (hrun.within _ (List.mem_singleton_self _)).2.trans_lt hhi

theorem SourceFile.LaidOut.identity_lt {space : SpaceId} {bound : Nat} {file : SourceFile}
    (h : file.LaidOut space bound) : file.info.id.file < bound := by
  obtain ⟨input, last, hi, -, hhi, hrun⟩ := h
  obtain ⟨index, hid, -⟩ := hrun.numbered _ (mem_forest (List.mem_singleton_self _))
  have hbase : file.info.id.file = input.entry.base := congrArg NodeId.file hid
  have hwithin := hrun.within _ (List.mem_singleton_self _)
  have hlt := hrun.span_lt (List.mem_singleton_self _)
  omega

/-- A file whose nodes are numbered from 1 on, each with a number of its own. -/
structure SourceFile.Numbered (file : SourceFile) : Prop where
  distinct : ((Node.file file).nodes.map (·.id)).Nodup
  numbered : ∀ node ∈ (Node.file file).nodes, node.id.space = file.info.id.space ∧
    node.id.file = file.info.id.file ∧ 0 < node.id.index

theorem SourceFile.LaidOut.numbered {space : SpaceId} {bound : Nat} {file : SourceFile}
    (h : file.LaidOut space bound) : file.Numbered := by
  obtain ⟨input, last, hi, -, -, hrun⟩ := h
  have hforest : forest [.file file] = (Node.file file).nodes := by simp
  obtain ⟨index, hfile, -⟩ := hrun.numbered (.file file) (mem_forest (List.mem_singleton_self _))
  change file.info.id = _ at hfile
  refine ⟨hforest ▸ hrun.distinct, fun node hnode ↦ ?_⟩
  obtain ⟨index', hid, hpos, -⟩ := hrun.numbered node (hforest ▸ hnode)
  rw [hid, hfile]
  exact ⟨rfl, rfl, hpos⟩

theorem SourceFile.LaidOut.space_eq {space : SpaceId} {bound : Nat} {file : SourceFile}
    (h : file.LaidOut space bound) : file.info.id.space = space := by
  obtain ⟨input, last, hi, hspace, -, hrun⟩ := h
  obtain ⟨index, hfile, -⟩ := hrun.numbered (.file file) (mem_forest (List.mem_singleton_self _))
  change file.info.id = _ at hfile
  rw [hfile, ← hspace]

/-- All files parsed into a set are laid out in it, apart from one another. -/
theorem FileSet.Parsed.laidOut {set : FileSet} {files : List SourceFile} (h : set.Parsed files) :
    (∀ file ∈ files, file.LaidOut set.space set.nextBase) ∧ files.Pairwise SourceFile.Apart := by
  induction h with
  | empty space => exact ⟨by simp, .nil⟩
  | @register set files name text h ih =>
    have hgrows : set.nextBase ≤ (set.add name text).nextBase := by
      rw [nextBase_add_eq]
      omega
    exact ⟨fun file hfile ↦ (ih.1 file hfile).mono hgrows, ih.2⟩
  | @parse set files name text file h hparse ih =>
    obtain ⟨comments, last, hrun⟩ := run_parseFile hparse
    have hnext : (set.parseFile name text).1.nextBase = set.nextBase + text.utf8ByteSize + 1 :=
      nextBase_add_eq set name text
    have hnew : file.LaidOut set.space (set.parseFile name text).1.nextBase :=
      ⟨_, last, set.nextBase + text.utf8ByteSize, rfl, by omega, hrun⟩
    obtain ⟨index, hid, -⟩ := hrun.numbered _ (mem_forest (List.mem_singleton_self _))
    have hbase : file.info.id.file = set.nextBase := congrArg NodeId.file hid
    have hstart := (hrun.within _ (List.mem_singleton_self _)).1
    refine ⟨fun other hother ↦ ?_, List.pairwise_cons.2 ⟨fun other hother ↦ ?_, ih.2⟩⟩
    · rcases List.mem_cons.1 hother with rfl | hother
      · exact hnew
      · exact (ih.1 other hother).mono (by omega)
    · have hother := ih.1 other hother
      exact ⟨by have := hother.identity_lt; omega, .inr (hother.span_stop_lt.trans_le hstart)⟩

/-! ### Packages -/

namespace PackageTree

variable {set : FileSet} {files chosen : List SourceFile} {tree : PackageTree}

/-- The span of a package holds those of its files. -/
theorem span_holds (tree : PackageTree) {file : SourceFile} (h : file ∈ tree.files) :
    tree.span.start ≤ file.info.span.start ∧ file.info.span.stop ≤ tree.span.stop := by
  have hfold : ∀ (rest : List SourceFile) (span : Span),
      let whole := rest.foldl (fun span file ↦ span.cover file.info.span) span
      (whole.start ≤ span.start ∧ span.stop ≤ whole.stop) ∧ ∀ file ∈ rest,
        whole.start ≤ file.info.span.start ∧ file.info.span.stop ≤ whole.stop := by
    intro rest
    induction rest with
    | nil => exact fun span ↦ ⟨⟨le_rfl, le_rfl⟩, by simp⟩
    | cons first rest ih =>
      intro span
      obtain ⟨⟨hstart, hstop⟩, hrest⟩ := ih (span.cover first.info.span)
      refine ⟨⟨hstart.trans (min_le_left _ _), (le_max_left _ _).trans hstop⟩, ?_⟩
      refine List.forall_mem_cons.2 ⟨⟨hstart.trans (min_le_right _ _),
        (le_max_right _ _).trans hstop⟩, hrest⟩
  unfold span
  cases hfiles : tree.files with
  | nil => simp [hfiles] at h
  | cons first rest =>
    rw [hfiles] at h
    obtain ⟨hfirst, hrest⟩ := hfold rest first.info.span
    rcases List.mem_cons.1 h with rfl | h
    · exact hfirst
    · exact hrest file h

/-- A tree of files that are laid out in a space, apart from one another. -/
structure LaidOut (space : SpaceId) (tree : PackageTree) : Prop where
  id_eq : ∃ file, tree.id = ⟨space, file, 0⟩
  files_laidOut : ∀ file ∈ tree.files, ∃ bound, file.LaidOut space bound
  files_apart : tree.files.Pairwise SourceFile.Apart

theorem laidOut_ofFiles (h : set.Parsed files) (hchosen : chosen.Perm files) (name : String) :
    (ofFiles set.space name chosen).LaidOut set.space := by
  obtain ⟨hlaid, hapart⟩ := h.laidOut
  have hperm : (ofFiles set.space name chosen).files.Perm files :=
    (List.mergeSort_perm chosen _).trans hchosen
  refine ⟨⟨_, rfl⟩, fun file hfile ↦ ⟨_, hlaid file (hperm.mem_iff.1 hfile)⟩, ?_⟩
  exact (hperm.pairwise_iff fun h ↦ h.symm).2 hapart

theorem LaidOut.span_lt {space : SpaceId} (h : tree.LaidOut space) {file : SourceFile}
    (hfile : file ∈ tree.files) : file.info.span.start < file.info.span.stop := by
  obtain ⟨bound, input, last, hi, -, -, hrun⟩ := h.files_laidOut file hfile
  exact hrun.span_lt (List.mem_singleton_self _)

/-- At every node of the tree at most one child encloses an interval. -/
theorem LaidOut.separates {space : SpaceId} (h : tree.LaidOut space) (start stop : Nat) :
    ∀ node ∈ (Node.package tree).nodes, node.Separates start stop := by
  rw [nodes_eq]
  refine List.forall_mem_cons.2 ⟨⟨?_, ?_⟩, ?_⟩
  · simp only [children, List.forall_mem_map]
    intro file hfile hencloses
    obtain ⟨hstart, hstop⟩ := span_holds tree hfile
    have hlt := h.span_lt hfile
    simp only [Span.containsInterval_iff, Node.span, Node.info] at hencloses ⊢
    omega
  · refine List.pairwise_map.2 (h.files_apart.imp_of_mem ?_)
    intro first second hfirst hsecond happart hencloses hencloses'
    have hlt := h.span_lt hfirst
    have hlt' := h.span_lt hsecond
    have hspan := happart.span
    simp only [Span.containsInterval_iff, Node.span, Node.info] at hencloses hencloses'
    omega
  · intro node hnode
    obtain ⟨tree, htree, hnode⟩ := List.mem_flatMap.1 hnode
    obtain ⟨file, hfile, rfl⟩ := List.mem_map.1 htree
    obtain ⟨bound, input, last, hi, -, -, hrun⟩ := h.files_laidOut file hfile
    have hnest : ∀ node ∈ (Node.file file).nodes, node.SpansNest input.chars input.entry.base :=
      fun node hnode ↦ hrun.nest node (List.mem_append_left _ hnode)
    refine (hnest node hnode).separates fun child hchild ↦ ?_
    exact (hnest child (nodes_subset_of_mem_nodes hnode
      (nodes_subset_of_mem_children hchild child.mem_nodes_self))).nonempty

/-- A tree whose files have identities of their own and numbers from 1 on for their nodes, while the
tree itself has the number 0: its nodes have identities of their own. -/
theorem distinct_of_numbered (hid : tree.id.index = 0) (hfiles : ∀ file ∈ tree.files, file.Numbered)
    (hapart : tree.files.Pairwise fun first second ↦ first.info.id.space ≠ second.info.id.space ∨
      first.info.id.file ≠ second.info.id.file) :
    ((Node.package tree).nodes.map (·.id)).Nodup := by
  rw [nodes_eq, List.map_cons, List.map_flatMap, List.nodup_cons, List.nodup_flatMap]
  refine ⟨fun hmem ↦ ?_, ?_, ?_⟩
  · obtain ⟨child, hchild, hmem⟩ := List.mem_flatMap.1 hmem
    obtain ⟨file, hfile, rfl⟩ := List.mem_map.1 hchild
    obtain ⟨node, hnode, hsame⟩ := List.mem_map.1 hmem
    have hpos := ((hfiles file hfile).numbered node hnode).2.2
    rw [hsame] at hpos
    exact hpos.ne' hid
  · intro child hchild
    obtain ⟨file, hfile, rfl⟩ := List.mem_map.1 hchild
    exact (hfiles file hfile).distinct
  · refine List.pairwise_map.2 (hapart.imp_of_mem fun hfirst hsecond hother ↦ ?_)
    refine List.disjoint_left.2 fun id hid hid' ↦ ?_
    obtain ⟨node, hnode, rfl⟩ := List.mem_map.1 hid
    obtain ⟨node', hnode', hsame⟩ := List.mem_map.1 hid'
    obtain ⟨hspace, hfile, -⟩ := (hfiles _ hfirst).numbered node hnode
    obtain ⟨hspace', hfile', -⟩ := (hfiles _ hsecond).numbered node' hnode'
    rw [← hspace, ← hspace', ← hfile, ← hfile', hsame] at hother
    exact hother.elim (fun h ↦ h rfl) fun h ↦ h rfl

/-- The nodes of the tree have identities of their own. -/
theorem LaidOut.distinct {space : SpaceId} (h : tree.LaidOut space) :
    ((Node.package tree).nodes.map (·.id)).Nodup := by
  obtain ⟨base, hid⟩ := h.id_eq
  refine distinct_of_numbered (congrArg NodeId.index hid) (fun file hfile ↦ ?_)
    (h.files_apart.imp fun happart ↦ Or.inr happart.identity)
  obtain ⟨bound, hlaid⟩ := h.files_laidOut file hfile
  exact hlaid.numbered

/-- The innermost node around an interval is searched for when a file encloses the interval. -/
theorem enclosing?_eq (tree : PackageTree) (start stop : Nat) :
    tree.enclosing? start stop =
      if ∃ file ∈ tree.files, file.info.span.containsInterval start stop then
        some (EnclosingPath.descend start stop [] (.package tree))
      else none := by
  have hchildren : (Node.package tree).children.find? (·.span.containsInterval start stop) =
      (tree.files.find? (·.info.span.containsInterval start stop)).map .file := List.find?_map
  unfold enclosing?
  cases hfind : tree.files.find? (·.info.span.containsInterval start stop) with
  | none =>
    rw [if_neg]
    · rfl
    · simpa using hfind
  | some file =>
    rw [if_pos ⟨file, List.mem_of_find?_eq_some hfind, by simpa using List.find?_some hfind⟩]
    rw [hfind] at hchildren
    exact congrArg some (EnclosingPath.descend_of_find [] hchildren).symm

/-- A package of files that were parsed into one file set: no node is found around an interval when
no file encloses it, and otherwise the innermost node and its path are all nodes of the tree that
enclose the interval, outermost first; the search for the node by its identity finds the same
path. -/
theorem enclosing_complete (h : set.Parsed files) (hchosen : chosen.Perm files) (name : String)
    (start stop : Nat) :
    let tree := ofFiles set.space name chosen
    (tree.enclosing? start stop = none ↔
      ∀ file ∈ tree.files, ¬file.info.span.containsInterval start stop) ∧
    ∀ path, tree.enclosing? start stop = some path →
      path.ancestors ++ [path.node] =
        (Node.package tree).nodes.filter (·.span.containsInterval start stop) ∧
      (Node.package tree).findAncestors? path.node.id = some path.ancestors := by
  intro tree
  have hlaid : tree.LaidOut set.space := laidOut_ofFiles h hchosen name
  have hseparates := hlaid.separates start stop
  rw [enclosing?_eq]
  split
  · rename_i hfile
    obtain ⟨file, hfile, hencloses⟩ := hfile
    refine ⟨by simpa using ⟨file, hfile, hencloses⟩, ?_⟩
    rintro path ⟨rfl⟩
    have hroot := hseparates _ (Node.package tree).mem_nodes_self
    have hpackage : (Node.package tree).span.containsInterval start stop :=
      hroot.within (.file file) (List.mem_map_of_mem hfile) hencloses
    obtain ⟨hpath, hmem⟩ := EnclosingPath.descend_eq [] hseparates hpackage
    exact ⟨hpath, findAncestors?_of_mem hlaid.distinct hmem⟩
  · rename_i hnone
    exact ⟨by simpa using hnone, fun path hpath ↦ by cases hpath⟩

/-- The name in the package clause of the second of two files, in a package that lists it first. -/
theorem enclosing_complete_twoFiles : ∃ set files path, FileSet.Parsed set files ∧
    (ofFiles set.space "p" files).enclosing? 20 21 = some path ∧
    path.ancestors ++ [path.node] = (Node.package (ofFiles set.space "p" files)).nodes.filter
      (·.span.containsInterval 20 21) ∧
    (Node.package (ofFiles set.space "p" files)).findAncestors? path.node.id =
      some path.ancestors := by
  have hfile : ∀ {result : Except ParseError SourceFile} {span : Span},
      result.toOption.map (·.info.span) = some span →
        ∃ file, result = .ok file ∧ file.info.span = span := by
    intro result span h
    cases result with
    | error error => cases h
    | ok file => exact ⟨file, rfl, Option.some.inj h⟩
  let set := ((FileSet.empty ⟨0⟩).parseFile "b.go" "package p\n").1
  obtain ⟨first, hfirst, -⟩ : ∃ file, ((FileSet.empty ⟨0⟩).parseFile "b.go" "package p\n").2 =
      .ok file ∧ file.info.span = ⟨1, 11⟩ := hfile (by decide +kernel)
  obtain ⟨second, hsecond, hspan⟩ : ∃ file, (set.parseFile "a.go" "package p\n").2 = .ok file ∧
      file.info.span = ⟨12, 22⟩ := hfile (by decide +kernel)
  have hparsed := ((FileSet.Parsed.empty ⟨0⟩).parse hfirst).parse hsecond
  obtain ⟨hnone, hsome⟩ := enclosing_complete hparsed (List.Perm.refl _) "p" 20 21
  have hmem : second ∈ (ofFiles ⟨0⟩ "p" [second, first]).files :=
    (List.mergeSort_perm _ _).mem_iff.2 List.mem_cons_self
  cases hpath : (ofFiles ⟨0⟩ "p" [second, first]).enclosing? 20 21 with
  | none =>
    have hencloses := hnone.1 hpath second hmem
    rw [hspan] at hencloses
    exact absurd (by decide) hencloses
  | some path => exact ⟨_, _, path, hparsed, hpath, hsome path hpath⟩

end PackageTree

end PackageAtlas
