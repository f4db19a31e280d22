import PackageAtlas.Load.Resolved
import PackageAtlas.Proofs.Naming.Renaming

/-!
The tree of a package whose names were told apart. Its nodes stand where those of the parsed files
stand, so that they have identities of their own, and the descent to the start of a leaf ends at the
leaf (`PackageTree.Stands.enclosing?_leaf`).
-/

set_option autoImplicit false
set_option relaxedAutoImplicit false

namespace PackageAtlas

open Node (outline outline_eq_iff)

namespace SourceFile

/-- What a file is called, and where its nodes stand. -/
def place (file : SourceFile) : String × Outline := (file.name, (Node.file file).outline)

theorem info_of_outline {file other : SourceFile}
    (h : (Node.file file).outline = (Node.file other).outline) : file.info = other.info :=
  (outline_eq_iff.1 h).1

end SourceFile

namespace PackageTree

/-- A tree in which nodes have identities of their own, at most one child of a node encloses an
interval, and the files stand as they were parsed. -/
structure Stands (tree : PackageTree) : Prop where
  distinct : ((Node.package tree).nodes.map (·.id)).Nodup
  separates : ∀ start stop, ∀ node ∈ (Node.package tree).nodes, node.Separates start stop
  files : ∀ file ∈ tree.files, file.Stands

/-! ### Trees of files that stand alike -/

theorem span_congr {tree other : PackageTree}
    (h : List.Forall₂ (fun file file' ↦ file.place = file'.place) tree.files other.files) :
    tree.span = other.span := by
  have hinfo {file file' : SourceFile} (h : file.place = file'.place) : file.info = file'.info :=
    SourceFile.info_of_outline (congrArg Prod.snd h)
  have hfold {rest rest' : List SourceFile}
      (h : List.Forall₂ (fun file file' ↦ file.place = file'.place) rest rest') (span : Span) :
      rest.foldl (fun span file ↦ span.cover file.info.span) span =
        rest'.foldl (fun span file ↦ span.cover file.info.span) span := by
    induction h generalizing span with
    | nil => rfl
    | cons hfile _ ih => rw [List.foldl_cons, List.foldl_cons, hinfo hfile, ih]
  obtain ⟨id, name, files⟩ := tree
  obtain ⟨id', name', files'⟩ := other
  change List.Forall₂ _ files files' at h
  unfold span
  cases h with
  | nil => rfl
  | cons hfile hrest =>
    dsimp only
    rw [hinfo hfile]
    exact hfold hrest _

/-- Files that are called the same and stand alike make trees that stand alike. -/
theorem outline_ofFiles (space : SpaceId) (name : String) {files others : List SourceFile}
    (h : files.map SourceFile.place = others.map SourceFile.place) :
    (Node.package (ofFiles space name files)).outline =
      (Node.package (ofFiles space name others)).outline := by
  have hsorted (files : List SourceFile) :
      (ofFiles space name files).files.map SourceFile.place =
        (files.map SourceFile.place).mergeSort fun first second ↦ first.1 ≤ second.1 :=
    List.map_mergeSort fun _ _ _ _ ↦ rfl
  have hplaces : (ofFiles space name files).files.map SourceFile.place =
      (ofFiles space name others).files.map SourceFile.place := by
    rw [hsorted, hsorted, h]
  have hall : List.Forall₂ (fun file file' ↦ file.place = file'.place)
      (ofFiles space name files).files (ofFiles space name others).files := by
    rw [← List.forall₂_eq_eq_eq] at hplaces
    simpa only [List.forall₂_map_left_iff, List.forall₂_map_right_iff] using hplaces
  refine Node.outline_gather ?_ ?_
  · have hid : (ofFiles space name files).id = (ofFiles space name others).id := by
      have hstart (files : List SourceFile) : (ofFiles space name files).id =
          ⟨space, (((ofFiles space name files).files.map SourceFile.place).head?.map
            (·.2.info.span.start)).getD 0, 0⟩ := by
        rw [List.head?_map, Option.map_map]
        have hinfo : ((fun place : String × Outline ↦ place.2.info.span.start) ∘
            SourceFile.place) = fun file ↦ file.info.span.start := by
          funext file
          rw [Function.comp_apply, SourceFile.place, Node.outline_eq]
          rfl
        rw [hinfo]
        rfl
      rw [hstart, hstart, hplaces]
    have hspan := span_congr hall
    change NodeInfo.mk _ _ = NodeInfo.mk _ _
    rw [hid, hspan]
  · have houtlines := congrArg (List.map Prod.snd) hplaces
    rw [List.map_map, List.map_map] at houtlines
    change ((ofFiles space name files).files.map Node.file).map outline =
      ((ofFiles space name others).files.map Node.file).map outline
    rw [List.map_map, List.map_map]
    exact houtlines

/-- The tree of parsed files under other names. -/
theorem stands_ofFiles {set : FileSet} {files chosen others : List SourceFile}
    (h : set.Parsed files) (hchosen : chosen.Perm files) (name : String)
    (hothers : others.map SourceFile.place = chosen.map SourceFile.place) :
    (ofFiles set.space name others).Stands := by
  have hlaid := laidOut_ofFiles h hchosen name
  have houtline := outline_ofFiles set.space name hothers
  refine ⟨?_, fun start stop node hnode ↦ ?_, fun file hfile ↦ ?_⟩
  · have hids (node : Node) : node.nodes.map (·.id) = (node.nodes.map Node.info).map (·.id) := by
      rw [List.map_map]
      rfl
    rw [hids, Node.map_info_nodes houtline, ← hids]
    exact hlaid.distinct
  · obtain ⟨node', hnode', hsame⟩ := Node.exists_of_mem_nodes houtline hnode
    exact (hlaid.separates start stop node' hnode').congr hsame
  · have hmem : file.place ∈ others.map SourceFile.place :=
      List.mem_map_of_mem ((List.mergeSort_perm others _).mem_iff.1 hfile)
    rw [hothers] at hmem
    obtain ⟨original, horiginal, hplace⟩ := List.mem_map.1 hmem
    have hstands := (h.laidOut.1 original (hchosen.mem_iff.1 horiginal)).stands
    exact hstands.congr (congrArg Prod.snd hplace).symm

/-! ### The way to a leaf -/

/-- The innermost node at the start of a leaf is the leaf, with the way to it. -/
theorem Stands.enclosing?_leaf {tree : PackageTree} (h : tree.Stands) {file : SourceFile}
    {leaf : Node} (hfile : file ∈ tree.files) (hleaf : leaf ∈ (Node.file file).nodes)
    (hchildren : leaf.children = []) :
    ∃ ancestors, tree.enclosing? leaf.span.start leaf.span.start = some ⟨leaf, ancestors⟩ ∧
      (leaf, ancestors) ∈ (Node.package tree).withAncestors ∧
      (Node.package tree).findAncestors? leaf.id = some ancestors := by
  have hlt := (h.files file hfile).nonempty leaf hleaf
  have hwithin := (h.files file hfile).within leaf hleaf
  have hfileEncloses :
      file.info.span.containsInterval leaf.span.start leaf.span.start = true := by
    rw [Span.containsInterval_iff]
    omega
  have hencloses : leaf.span.containsInterval leaf.span.start leaf.span.start = true := by
    rw [Span.containsInterval_iff]
    omega
  have hseparates := h.separates leaf.span.start leaf.span.start
  have hroot := hseparates _ (Node.package tree).mem_nodes_self
  have hpackage : (Node.package tree).span.containsInterval leaf.span.start leaf.span.start :=
    hroot.within (.file file) (List.mem_map_of_mem hfile) hfileEncloses
  have hmem : leaf ∈ (Node.package tree).nodes :=
    Node.nodes_subset_of_mem_children (List.mem_map_of_mem hfile) hleaf
  obtain ⟨-, hpath⟩ := EnclosingPath.descend_eq [] hseparates hpackage
  have hnode := EnclosingPath.node_descend_leaf [] hseparates hmem hchildren hencloses
  rw [hnode] at hpath
  refine ⟨_, ?_, ?_, Node.findAncestors?_of_mem h.distinct hpath⟩
  · rw [enclosing?_eq, if_pos ⟨file, hfile, hfileEncloses⟩]
    exact congrArg (fun node ↦ some (EnclosingPath.mk node _)) hnode
  · rw [Node.withAncestors_eq]
    exact hpath

end PackageTree

/-! ### Packages -/

namespace RawPackage

variable {raw : RawPackage} {files : List SourceFile}

theorem map_place_dedupe (raw : RawPackage) :
    raw.dedupe.1.files.map SourceFile.place = raw.files.map SourceFile.place := by
  have hplaces : raw.files.map SourceFile.place = raw.dedupe.1.files.map SourceFile.place := by
    rw [← List.forall₂_eq_eq_eq]
    simp only [List.forall₂_map_left_iff, List.forall₂_map_right_iff]
    exact raw.filesStay_dedupe.imp fun old new h ↦ Prod.ext h.name.symm h.outline.symm
  exact hplaces.symm

theorem mem_checkOrder (raw : RawPackage) (file : SourceFile) :
    file ∈ raw.checkOrder ↔ file ∈ raw.files :=
  (List.filter_append_perm raw.isBuildable raw.files).mem_iff

/-- The files of the build stay as they are when names are told apart. -/
theorem mem_dedupe_of_buildable {file : SourceFile} (h : file ∈ raw.buildableFiles) :
    file ∈ raw.dedupe.1.files := by
  obtain ⟨hmem, hbuildable⟩ := List.mem_filter.1 h
  obtain ⟨new, hnew, hstays⟩ := exists_of_forall₂ raw.filesStay_dedupe.flip hmem
  rw [hstays.buildable hbuildable] at hnew
  exact hnew

/-- The files of a package that are checked stand where they were parsed. -/
theorem holds_checkOrder (h : raw.space.Parsed files) (hfiles : raw.files.Perm files) :
    raw.space.Holds raw.dedupe.1.checkOrder := by
  have hids : (raw.dedupe.1.files.map (·.info.id)).Nodup := by
    have hplaces : raw.dedupe.1.files.map (·.info.id) = raw.files.map (·.info.id) := by
      have hinfo : (fun file : SourceFile ↦ file.info.id) =
          (fun place : String × Outline ↦ place.2.info.id) ∘ SourceFile.place := by
        funext file
        rw [Function.comp_apply, SourceFile.place, Node.outline_eq]
        rfl
      rw [hinfo, ← List.map_map, ← List.map_map, raw.map_place_dedupe]
    rw [hplaces, (hfiles.map _).nodup_iff, List.nodup_iff_pairwise_ne, List.pairwise_map]
    exact h.laidOut.2.imp fun happart hsame ↦ happart.identity (congrArg NodeId.file hsame)
  refine ⟨⟨files, h, fun file hfile ↦ ?_⟩, fun file hfile other hother hsame ↦ ?_⟩
  · have hplace : file.place ∈ raw.files.map SourceFile.place := by
      rw [← raw.map_place_dedupe]
      exact List.mem_map_of_mem ((mem_checkOrder _ file).1 hfile)
    obtain ⟨original, horiginal, hplace⟩ := List.mem_map.1 hplace
    exact ⟨original, hfiles.mem_iff.1 horiginal, (congrArg Prod.snd hplace).symm⟩
  · exact List.inj_on_of_nodup_map hids ((mem_checkOrder _ file).1 hfile)
      ((mem_checkOrder _ other).1 hother) hsame

end RawPackage

end PackageAtlas
