import PackageAtlas.Load.Site
import PackageAtlas.Proofs.History.Walks

/-!
Paths without two dots. They only lead downwards, so that there are no more of them that lead to
directories than a tree has places (`FileTree.parts_mem_places`). What is imported under such a path
from such a directory is found under such a path again.
-/

set_option autoImplicit false
set_option relaxedAutoImplicit false

namespace PackageAtlas

namespace Text

/-- The parts of a text have its characters, but for the separator. -/
theorem mem_of_mem_splitOn {separator c : Char} {text part : List Char}
    (h : part ∈ splitOn separator text) (hc : c ∈ part) : c ∈ text ∧ c ≠ separator := by
  unfold splitOn at h
  induction text generalizing part with
  | nil =>
    rw [List.mem_singleton.mp h] at hc
    cases hc
  | cons d rest ih =>
    obtain ⟨first, others, hrest⟩ :=
      List.exists_cons_of_ne_nil (splitAt_ne_nil (· == separator) rest)
    rw [splitAt_cons hrest] at h
    rw [hrest] at ih
    have hlater {part : List Char} (h : part ∈ first :: others) (hc : c ∈ part) :
        c ∈ d :: rest ∧ c ≠ separator := (ih h hc).imp_left (List.mem_cons_of_mem d)
    split at h
    · rcases List.mem_cons.mp h with rfl | h
      · cases hc
      · exact hlater h hc
    · rename_i hne
      rcases List.mem_cons.mp h with rfl | h
      · rcases List.mem_cons.mp hc with rfl | hc
        · exact ⟨List.mem_cons_self, fun heq ↦ hne (beq_iff_eq.mpr heq)⟩
        · exact hlater List.mem_cons_self hc
      · exact hlater (List.mem_cons_of_mem _ h) hc

theorem not_mem_of_mem_splitOn {separator : Char} {text part : List Char}
    (h : part ∈ splitOn separator text) : separator ∉ part :=
  fun hmem ↦ (mem_of_mem_splitOn h hmem).2 rfl

end Text

namespace Path

/-- A path that never leads back up. -/
def Dotless (path : String) : Prop := ".." ∉ parts path

instance (path : String) : Decidable (Dotless path) :=
  inferInstanceAs (Decidable (".." ∉ parts path))

/-- The parts of a path stand between its slashes, but for the slash that an absolute path starts
with. -/
theorem mem_splitOn_of_mem_parts {path name : String} (h : name ∈ parts path) :
    name = "/" ∨ name.toList ∈ Text.splitOn '/' path.toList := by
  obtain ⟨first, rest, hsplit⟩ := List.exists_cons_of_ne_nil (Text.splitOn_ne_nil '/' path.toList)
  have hrest : name ∈ (rest.map String.ofList).filter (fun text ↦ text != "" && text != ".") →
      name.toList ∈ Text.splitOn '/' path.toList := by
    intro hmem
    obtain ⟨text, htext, rfl⟩ := List.mem_map.mp (List.mem_filter.mp hmem).1
    rw [String.toList_ofList, hsplit]
    exact List.mem_cons_of_mem _ htext
  unfold parts at h
  simp only [hsplit, List.map_cons, List.drop_succ_cons, List.drop_zero, List.head?_cons] at h
  split at h
  · cases h
  · split at h
    · cases h
    · exact (List.mem_cons.mp h).imp_right hrest
  · rename_i heq
    cases heq
    right
    rcases List.mem_cons.mp h with rfl | hmem
    · rw [String.toList_ofList, hsplit]
      exact List.mem_cons_self
    · exact hrest hmem

theorem dotless_iff {path : String} :
    Dotless path ↔ ['.', '.'] ∉ Text.splitOn '/' path.toList := by
  refine not_congr ⟨fun h ↦ ?_, fun h ↦ mem_parts h (by decide) (by decide)⟩
  rcases mem_splitOn_of_mem_parts h with heq | hmem
  · exact absurd heq (by decide)
  · exact hmem

theorem dotless_of_slash {path : String} {start rest : List Char}
    (h : path.toList = start ++ '/' :: rest) (hstart : Dotless (String.ofList start))
    (hrest : Dotless (String.ofList rest)) : Dotless path := by
  rw [dotless_iff, String.toList_ofList] at hstart hrest
  rw [dotless_iff, h, Text.splitOn_append_cons, List.mem_append]
  exact not_or.mpr ⟨hstart, hrest⟩

theorem Dotless.join {base path : String} (hbase : Dotless base) (hpath : Dotless path) :
    Dotless (join base path) := by
  by_cases hrelative : IsRelative path
  · by_cases hempty : base = ""
    · rwa [hempty, join_empty]
    · obtain ⟨start, hjoin, hstart | hstart⟩ := toList_join hrelative hempty
      · refine dotless_of_slash hjoin ?_ (by rwa [String.ofList_toList])
        rwa [← hstart, String.ofList_toList]
      · refine dotless_of_slash hjoin ?_ (by rwa [String.ofList_toList])
        rw [dotless_iff, hstart, Text.splitOn_append_cons, List.mem_append, not_or] at hbase
        rw [dotless_iff, String.toList_ofList]
        exact hbase.1
  · rwa [join_of_not_isRelative hrelative]

/-- A name without slashes, other than two dots. -/
theorem dotless_of_not_mem {name : String} (hslash : '/' ∉ name.toList) (hne : name ≠ "..") :
    Dotless name := by
  rw [dotless_iff, Text.splitOn_of_not_mem hslash, List.mem_singleton]
  intro heq
  refine hne ?_
  rw [← String.ofList_toList (s := name), ← heq]

theorem Dotless.slashed {names : List String} (h : ∀ name ∈ names, Dotless name) :
    Dotless (slashed names) := by
  induction names with
  | nil => decide
  | cons name rest ih =>
    cases rest with
    | nil =>
      rw [slashed_singleton]
      exact h name List.mem_cons_self
    | cons second rest =>
      refine dotless_of_slash (toList_slashed_cons (List.cons_ne_nil second rest)) ?_ ?_
      · rw [String.ofList_toList]
        exact h name List.mem_cons_self
      · rw [String.ofList_toList]
        exact ih fun other hother ↦ h other (List.mem_cons_of_mem _ hother)

theorem Dotless.of_mem_parts {path name : String} (h : Dotless path) (hname : name ∈ parts path) :
    Dotless name := by
  rcases mem_splitOn_of_mem_parts hname with rfl | hmem
  · decide
  · exact dotless_of_not_mem (Text.not_mem_of_mem_splitOn hmem) fun heq ↦ h (heq ▸ hname)

theorem suffix_of_dropParts? {root path rest : List String} (h : dropParts? root path = some rest) :
    rest <:+ path := by
  induction root generalizing path with
  | nil =>
    cases h
    exact List.suffix_refl _
  | cons part root ih =>
    cases path with
    | nil => cases h
    | cons name path =>
      unfold dropParts? at h
      split at h
      · exact (ih h).trans (List.suffix_cons _ _)
      · cases h

end Path

/-! ### Imports -/

open PackageAtlas.Path

/-- A candidate of an import is the path itself, or a vendored path at a place made of parts of the
importing directory below a root. -/
theorem LoadConfig.exists_of_mem_importCandidates {config : LoadConfig} {path candidate : String}
    {importing : Option String} (h : candidate ∈ config.importCandidates path importing) :
    candidate = path ∨ ∃ place, candidate = vendored place path ∧ ∀ name ∈ place,
      ∃ dir ∈ importing, ∃ root ∈ config.roots, ∃ parts, below? root dir = some parts ∧
        name ∈ listItems '/' (slashed parts) := by
  unfold importCandidates at h
  rcases List.mem_append.mp h with hmem | hmem
  · right
    split at hmem
    · cases hmem
    · rename_i root rel hrel
      obtain ⟨place, hplace, rfl⟩ := List.mem_map.mp hmem
      obtain ⟨length, -, rfl⟩ := List.mem_map.mp hplace
      obtain ⟨dir, hdir, hroot⟩ := Option.bind_eq_some_iff.mp hrel
      obtain ⟨own, hown, hbelow⟩ := List.exists_of_findSome?_eq_some hroot
      obtain ⟨parts, hparts, heq⟩ := Option.map_eq_some_iff.mp hbelow
      cases heq
      exact ⟨_, rfl, fun name hname ↦
        ⟨dir, hdir, _, hown, parts, hparts, List.mem_of_mem_take hname⟩⟩
  · exact .inl (List.mem_singleton.mp hmem)

theorem LoadConfig.dotless_of_mem_importCandidates {config : LoadConfig} {path candidate : String}
    {dir : Option String} (hpath : Dotless path) (hdir : ∀ importing ∈ dir, Dotless importing)
    (h : candidate ∈ config.importCandidates path dir) : Dotless candidate := by
  rcases exists_of_mem_importCandidates h with rfl | ⟨place, rfl, hplace⟩
  · exact hpath
  · refine Dotless.slashed fun name hname ↦ ?_
    rcases List.mem_append.mp hname with hname | hname
    · obtain ⟨importing, himporting, root, -, parts, hparts, hitem⟩ := hplace name hname
      have hrelative : Dotless (slashed parts) := Dotless.slashed fun part hpart ↦
        (hdir importing himporting).of_mem_parts ((suffix_of_dropParts? hparts).subset hpart)
      obtain ⟨text, htext, rfl⟩ := List.mem_map.mp hitem
      have htext := (List.mem_filter.mp htext).1
      refine dotless_of_not_mem ?_ fun heq ↦ dotless_iff.mp hrelative ?_
      · rw [String.toList_ofList]
        exact Text.not_mem_of_mem_splitOn htext
      · rw [← String.toList_ofList (l := text), heq] at htext
        exact htext
    · rcases List.mem_cons.mp hname with rfl | hname
      · decide
      · rw [List.mem_singleton.mp hname]
        exact hpath

namespace Site

variable {site : Site}

/-- Roots and a working directory without two dots. -/
structure IsDotless (site : Site) : Prop where
  roots : ∀ root ∈ site.config.roots, Dotless root
  workingDir : Dotless site.config.workingDir

/-- An import without two dots leads from a directory without two dots to another. -/
theorem dotless_of_locate? (hsite : site.IsDotless) {path target found : String}
    {importing : Option String} (hpath : Dotless path) (hdir : ∀ dir ∈ importing, Dotless dir)
    (h : site.locate? path importing = some (target, found)) : Dotless target := by
  unfold locate? at h
  split at h
  · unfold findLocal? at h
    split at h
    · cases h
      refine Dotless.join ?_ hpath
      cases importing with
      | none => exact hsite.workingDir
      | some dir => exact hdir dir rfl
    · cases h
  · obtain ⟨candidate, hcandidate, hfound⟩ := List.exists_of_findSome?_eq_some h
    obtain ⟨dir, hfind, heq⟩ := Option.map_eq_some_iff.mp hfound
    cases heq
    obtain ⟨root, hroot, rfl⟩ := List.mem_map.mp (List.mem_of_find?_eq_some hfind)
    exact (hsite.roots root hroot).join
      (LoadConfig.dotless_of_mem_importCandidates hpath hdir hcandidate)

end Site

/-! ### Places -/

namespace FileNode

/-- A walk through everything comes to every directory. -/
theorem mem_dirs_of_descend? {node found : FileNode} {names : List String} (path : List String)
    (h : node.descend? names = some found) (hfound : found.isDir = true) :
    path ++ names ∈ dirs (fun _ ↦ true) path node := by
  induction names generalizing node path with
  | nil =>
    cases h
    cases found with
    | dir items =>
      rw [List.append_nil, dirs]
      exact List.mem_cons_self
    | text contents => cases hfound
    | binary => cases hfound
  | cons name rest ih =>
    rw [descend?_cons] at h
    obtain ⟨child, hchild, hrest⟩ := Option.bind_eq_some_iff.mp h
    cases node with
    | text contents => cases hchild
    | binary => cases hchild
    | dir items =>
      obtain ⟨item, hitem, rfl, rfl⟩ := child?_mem hchild
      have hbelow := ih (path ++ [item.name]) hrest
      rw [List.append_assoc, List.singleton_append] at hbelow
      rw [dirs]
      refine List.mem_cons_of_mem _ ?_
      clear hchild h
      induction items with
      | nil => cases hitem
      | cons other items ih' =>
        obtain ⟨otherName, otherNode⟩ := other
        rw [dirsIn, List.mem_append]
        rcases List.mem_cons.mp hitem with rfl | hitem
        · exact .inl (by simpa using hbelow)
        · exact .inr (ih' hitem)

end FileNode

/-- The parts of the paths without two dots that may lead to a directory: those of a walk, and the
same after a dot. -/
def FileTree.places (tree : FileTree) : List (List String) :=
  let walked := tree.walk "." fun _ ↦ true
  walked ++ walked.map ("." :: ·)

/-- What follows the first part of a path is names, two dots among them. -/
theorem Path.exists_parts_eq_cons {path : String} (hne : path ≠ "") :
    ∃ first names, parts path = first :: names ∧
      ∀ name ∈ names, name ≠ "" ∧ name ≠ "." ∧ name.toList ∈ Text.splitOn '/' path.toList := by
  obtain ⟨first, rest, hsplit⟩ := List.exists_cons_of_ne_nil (Text.splitOn_ne_nil '/' path.toList)
  have hempty : path.isEmpty = false := by
    rw [← Bool.not_eq_true, String.isEmpty_iff]
    exact hne
  have hnames : ∀ name ∈ (rest.map String.ofList).filter (fun text ↦ text != "" && text != "."),
      name ≠ "" ∧ name ≠ "." ∧ name.toList ∈ first :: rest := by
    intro name hname
    obtain ⟨hmem, hkept⟩ := List.mem_filter.mp hname
    rw [Bool.and_eq_true, bne_iff_ne, bne_iff_ne] at hkept
    obtain ⟨text, htext, rfl⟩ := List.mem_map.mp hmem
    rw [String.toList_ofList]
    exact ⟨hkept.1, hkept.2, List.mem_cons_of_mem _ htext⟩
  unfold parts
  simp only [hsplit, List.map_cons, List.drop_succ_cons, List.drop_zero, List.head?_cons, hempty]
  split
  · rename_i heq
    cases heq
  · exact ⟨_, _, rfl, hnames⟩
  · exact ⟨_, _, rfl, hnames⟩

theorem FileTree.walk_top {tree : FileTree} (h : tree.top.isDir = true) :
    (tree.walk "." fun _ ↦ true) = FileNode.dirs (fun _ ↦ true) [] tree.top := by
  have hnode : tree.node? "." = some tree.top := by
    have hparts : Path.parts "." = ["."] := by decide
    rw [tree.node?_of_ne (by decide), hparts, FileNode.follow?_cons, h, if_neg (by decide),
      if_pos rfl, FileNode.follow?_nil]
  rw [walk, hnode]
  rfl

theorem FileTree.parts_mem_places {tree : FileTree} {path : String} (hpath : Dotless path)
    (hdir : tree.isDir path = true) : Path.parts path ∈ tree.places := by
  obtain ⟨found, hnode, hfound⟩ := (Option.any_eq_true _ _).mp hdir
  have hne : path ≠ "" := by
    rintro rfl
    cases hdir
  obtain ⟨first, names, hparts, hdot⟩ := Path.exists_parts_eq_cons hne
  rw [tree.node?_of_ne hne, hparts] at hnode
  have hdots : ∀ name ∈ first :: names, name ≠ ".." :=
    fun name hname heq ↦ hpath (hparts ▸ heq ▸ hname)
  have hnames : ∀ name ∈ names, name ≠ "." ∧ name ≠ ".." :=
    fun name hname ↦ ⟨(hdot name hname).2.1, hdots name (List.mem_cons_of_mem _ hname)⟩
  have htop := FileNode.isDir_of_follow? hnode hfound
  have hwalk {names : List String} (h : tree.top.descend? names = some found) :
      names ∈ tree.walk "." fun _ ↦ true := by
    rw [tree.walk_top htop]
    exact FileNode.mem_dirs_of_descend? [] h hfound
  rw [hparts, places, List.mem_append]
  by_cases hfirst : first = "."
  · subst hfirst
    rw [FileNode.follow?_cons, htop, if_neg (by decide), if_pos rfl,
      FileNode.follow?_of_forall_ne _ _ hnames] at hnode
    exact .inr (List.mem_map_of_mem (hwalk hnode))
  · have hall : ∀ name ∈ first :: names, name ≠ "." ∧ name ≠ ".." :=
      List.forall_mem_cons.mpr ⟨⟨hfirst, hdots first List.mem_cons_self⟩, hnames⟩
    rw [FileNode.follow?_of_forall_ne _ _ hall] at hnode
    exact .inl (hwalk hnode)

end PackageAtlas
