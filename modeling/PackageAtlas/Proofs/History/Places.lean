import PackageAtlas.Proofs.History.Patterns
import PackageAtlas.Proofs.History.Visits

/-!
Names and directories. Whatever a walk meets is what its name leads to: below the working directory
the name of a local pattern goes on from the place where the walk starts, and below the roots the
first root that has a directory of a name is the one where the name is looked up. A walk for tree
patterns leaves out every directory below which none of them can accept a name, and what it leaves
out is nothing that is asked for (`prune_loses_nothing`).
-/

set_option autoImplicit false
set_option relaxedAutoImplicit false

namespace PackageAtlas

/-- A site as a user has it: a file system whose names are names, roots that are not empty and have
no absolute paths as items, and a tool that asks which directory it gets and not how that is
written. -/
structure Site.Regular (site : Site) : Prop where
  tree : site.tree.Regular
  roots : ∀ root ∈ site.config.roots, root ≠ ""
  nodes : ∀ root ∈ site.config.roots, ∀ node, site.tree.node? root = some node → node.Regular
  preprocesses : site.PreprocessesPaths

/-- A pattern that is not walked from the directory that has the absolute paths as an item. -/
def Site.Walks (site : Site) (pattern : String) : Prop :=
  ∀ matcher, Pattern.parse pattern = .locals matcher → ∀ node,
    site.tree.node? (Path.join site.config.workingDir matcher.walkBase) = some node → node.Regular

namespace Discover

variable {site : Site}

theorem exactDir?_of_isLocalPath {path : String} (hlocal : isLocalPath path = true)
    (hdir : site.tree.isDir (Path.join site.config.workingDir path) = true) :
    exactDir? site path = some (Path.join site.config.workingDir path) := by
  rw [exactDir?, if_pos hlocal, Site.findLocal?, if_pos hdir]

/-! ### Local places -/

/-- A text without the slashes at its end. -/
def stripped (text : List Char) : List Char := (text.reverse.dropWhile (· == '/')).reverse

theorem stripped_append (text : List Char) :
    ∃ count, text = stripped text ++ List.replicate count '/' := by
  refine ⟨(text.reverse.takeWhile (· == '/')).length, ?_⟩
  have hslashes : text.reverse.takeWhile (· == '/') =
      List.replicate (text.reverse.takeWhile (· == '/')).length '/' := by
    refine List.eq_replicate_iff.mpr ⟨rfl, fun c hc ↦ ?_⟩
    have hall := List.all_eq_true.mp (List.all_takeWhile (p := (· == '/')) (l := text.reverse)) c hc
    exact beq_iff_eq.mp hall
  have hboth := congrArg List.reverse
    (List.takeWhile_append_dropWhile (p := (· == '/')) (l := text.reverse))
  rw [List.reverse_append, List.reverse_reverse] at hboth
  rw [← List.reverse_replicate, ← hslashes]
  exact hboth.symm

section Locals

variable {base : String} {start rest : List Char} (hstart : start = ['.'] ∨ start = ['.', '.'])
  (hbase : base.toList = start ++ '/' :: rest) (hlast : ('/' :: rest).getLast? = some '/')
include hstart hbase

theorem isLocalPath_append (path : String) : isLocalPath (base ++ path) = true := by
  refine (isLocalPath_iff _).mpr ⟨start, hstart, Or.inr ⟨rest ++ path.toList, ?_⟩⟩
  rw [String.toList_append, hbase, List.append_assoc]
  rfl

theorem isRelative_base : Path.IsRelative base := by
  intro other hother
  rw [hbase] at hother
  rcases hstart with rfl | rfl <;> cases hother

/-- The name of the place where a walk starts is its path without the slashes at the end. -/
theorem toList_localName_nil : ∃ count,
    base.toList = (localName base []).toList ++ List.replicate count '/' ∧
      isLocalPath (localName base []) = true := by
  have hname : localName base [] =
      if (stripped base.toList).isEmpty then "." else String.ofList (stripped base.toList) := rfl
  have hstripped : stripped base.toList = start ∨
      ∃ more, stripped base.toList = start ++ '/' :: more := by
    rw [hbase, stripped, List.reverse_append, List.dropWhile_append]
    split
    · refine Or.inl ?_
      rcases hstart with rfl | rfl <;> rfl
    · next hsome =>
      rw [List.reverse_append, List.reverse_reverse]
      obtain ⟨count, hcount⟩ := stripped_append ('/' :: rest)
      unfold stripped at hcount
      cases hrest : (('/' :: rest).reverse.dropWhile (· == '/')).reverse with
      | nil =>
        rw [List.reverse_eq_nil_iff.mp hrest] at hsome
        exact absurd rfl hsome
      | cons c more =>
        rw [hrest] at hcount
        injection hcount with hc
        exact Or.inr ⟨more, by rw [hc]⟩
  have hne : stripped base.toList ≠ [] := by
    rcases hstripped with h | ⟨more, h⟩
    · rw [h]
      rcases hstart with rfl | rfl <;> exact List.cons_ne_nil _ _
    · rw [h]
      exact List.append_ne_nil_of_right_ne_nil start (List.cons_ne_nil _ _)
  have hsome : ¬ (stripped base.toList).isEmpty = true := by
    rw [List.isEmpty_iff]
    exact hne
  rw [if_neg hsome] at hname
  obtain ⟨count, hcount⟩ := stripped_append base.toList
  refine ⟨count, ?_, ?_⟩
  · rw [hname, String.toList_ofList]
    exact hcount
  · rw [hname, isLocalPath_iff]
    exact ⟨start, hstart, by rwa [String.toList_ofList]⟩

omit hstart

include hlast

theorem endsWith_base : base.endsWith "/" = true := by
  refine (Path.endsWith_slash_iff base).mpr ⟨base.toList.dropLast, ?_⟩
  have hne : base.toList ≠ [] := by
    rw [hbase]
    exact List.append_ne_nil_of_right_ne_nil start (List.cons_ne_nil _ _)
  have hend : base.toList.getLast? = some '/' := by
    rw [hbase, List.getLast?_append, hlast]
    rfl
  rw [List.getLast?_eq_some_getLast hne] at hend
  have hlast' := List.dropLast_append_getLast hne
  rw [Option.some.inj hend] at hlast'
  exact hlast'.symm

end Locals

/-- Slashes at the end of a joined path lead nowhere. -/
theorem parts_join_slashes (wd : String) {base name : String} {count : Nat} (hname : name ≠ "")
    (hrelative : Path.IsRelative name) (h : base.toList = name.toList ++ List.replicate count '/') :
    Path.parts (Path.join wd name) = Path.parts (Path.join wd base) := by
  have hchars : name.toList ≠ [] := fun hnil ↦ hname (String.toList_eq_nil_iff.mp hnil)
  have hbase : base = String.ofList (name.toList ++ List.replicate count '/') := by
    rw [← h, String.ofList_toList]
  have hrelative' : Path.IsRelative base := by
    intro rest hrest
    rw [h] at hrest
    cases hcons : name.toList with
    | nil => exact hchars hcons
    | cons c more =>
      rw [hcons] at hrest
      injection hrest with hc
      exact hrelative more (hc ▸ hcons)
  by_cases hwd : wd = ""
  · rw [hwd, Path.join_empty, Path.join_empty, hbase, Path.parts_append_slashes hchars,
      String.ofList_toList]
  · have hjoin : Path.join wd base =
        String.ofList ((Path.join wd name).toList ++ List.replicate count '/') := by
      rw [← String.toList_inj, String.toList_ofList]
      by_cases hends : wd.endsWith "/" = true
      · rw [Path.join_of_endsWith hrelative' hends, Path.join_of_endsWith hrelative hends,
          String.toList_append, String.toList_append, h, List.append_assoc]
      · have hends := (Bool.not_eq_true _).mp hends
        rw [Path.join_of_not_endsWith hrelative' hwd hends,
          Path.join_of_not_endsWith hrelative hwd hends]
        simp only [String.toList_append, h, List.append_assoc]
    have hne : (Path.join wd name).toList ≠ [] := fun hnil ↦
      Path.join_ne_empty (Or.inl hwd) (String.toList_eq_nil_iff.mp hnil)
    rw [hjoin, Path.parts_append_slashes hne, String.ofList_toList]

theorem isPlace_local {pattern : String} (h : site.Walks pattern) {matcher : PatternMatcher}
    (hparse : Pattern.parse pattern = .locals matcher) {names : List String}
    (hnames : names ∈ localPlaces site matcher) :
    IsPlace site (below (Path.join site.config.workingDir matcher.walkBase) names)
      (localName matcher.walkBase names) := by
  obtain ⟨hwild, hlocal⟩ := Pattern.parse_eq_locals hparse
  obtain ⟨start, hstart, rest, hbase, hlast⟩ := PatternMatcher.walkBase_of_isLocalPath hwild hlocal
  have hrelative := isRelative_base hstart hbase
  have hne : matcher.walkBase ≠ "" := by
    intro hempty
    rw [hempty] at hbase
    exact List.append_ne_nil_of_right_ne_nil start (List.cons_ne_nil _ _) hbase.symm
  have hroot : Path.join site.config.workingDir matcher.walkBase ≠ "" :=
    Path.join_ne_empty (Or.inr hne)
  have hnodes := h matcher hparse
  have hwalk := (List.mem_filter.mp hnames).1
  obtain ⟨hdir, -⟩ := (site.tree.mem_walk_iff hnodes _ names).mp hwalk
  have hisName := site.tree.isName_of_mem_walk hnodes hwalk
  by_cases hnil : names = []
  · rw [hnil] at hdir ⊢
    obtain ⟨count, hcount, hlocalName⟩ := toList_localName_nil hstart hbase
    obtain ⟨first, hfirst, hchars⟩ := (isLocalPath_iff _).mp hlocalName
    have hname : localName matcher.walkBase [] ≠ "" := by
      intro hempty
      rw [hempty] at hlocalName
      revert hlocalName
      decide
    have hnameRelative : Path.IsRelative (localName matcher.walkBase []) := by
      intro more hmore
      rw [hmore] at hchars
      rcases hfirst with rfl | rfl <;> rcases hchars with hc | ⟨_, hc⟩ <;> cases hc
    have hsame := parts_join_slashes site.config.workingDir hname hnameRelative hcount
    have hown : Path.join site.config.workingDir (localName matcher.walkBase []) ≠ "" :=
      Path.join_ne_empty (Or.inr hname)
    refine ⟨hroot, _, exactDir?_of_isLocalPath hlocalName ?_, hown, hsame⟩
    rw [FileTree.isDir, site.tree.node?_congr hsame hown hroot]
    have hhere : ∀ node : Option FileNode, node.bind (FileNode.descend? · []) = node :=
      fun node ↦ by cases node <;> rfl
    rw [hhere] at hdir
    exact hdir
  · have hpath : below (Path.join site.config.workingDir matcher.walkBase) names =
        Path.join site.config.workingDir (localName matcher.walkBase names) := by
      rw [below, Path.foldl_join hroot hisName hnil, Path.join_join hrelative
        (endsWith_base hbase hlast) (Path.isRelative_slashed hisName)]
      cases names with
      | nil => exact absurd rfl hnil
      | cons name more => rfl
    have hlocalName : isLocalPath (localName matcher.walkBase names) = true := by
      cases names with
      | nil => exact absurd rfl hnil
      | cons name more => exact isLocalPath_append hstart hbase _
    rw [hpath]
    refine isPlace_of_exactDir? (exactDir?_of_isLocalPath hlocalName ?_)
    rw [← hpath, FileTree.isDir, below, Path.foldl_join hroot hisName hnil,
      site.tree.node?_join_slashed hroot hisName hnil]
    exact hdir

/-! ### Places below the roots -/

section FirstOfName

variable {seen : List String} {list : List NamedDir}

theorem mem_firstOfName {dir : NamedDir} (h : dir ∈ firstOfName seen list) :
    dir ∈ list ∧ dir.name ∉ seen := by
  induction list generalizing seen with
  | nil => cases h
  | cons first rest ih =>
    rw [firstOfName] at h
    by_cases hseen : seen.contains first.name = true
    · rw [if_pos hseen] at h
      exact ⟨List.mem_cons_of_mem first (ih h).1, (ih h).2⟩
    · rw [if_neg hseen] at h
      rcases List.mem_cons.mp h with rfl | hlater
      · exact ⟨List.mem_cons_self, fun hmem ↦ hseen (List.contains_iff_mem.mpr hmem)⟩
      · obtain ⟨hrest, hnot⟩ := ih hlater
        exact ⟨List.mem_cons_of_mem first hrest, fun hmem ↦ hnot (List.mem_cons_of_mem _ hmem)⟩

/-- The first of a name is in the first list, or the name is not there. -/
theorem mem_firstOfName_append {dir : NamedDir} {others : List NamedDir}
    (h : dir ∈ firstOfName seen (list ++ others)) :
    dir ∈ list ∨ (dir.name ∉ list.map (·.name) ∧ ∃ more, dir ∈ firstOfName more others) := by
  induction list generalizing seen with
  | nil => exact Or.inr ⟨List.not_mem_nil, seen, h⟩
  | cons first rest ih =>
    have hname := (mem_firstOfName h).2
    rw [List.cons_append, firstOfName] at h
    by_cases hseen : seen.contains first.name = true
    · rw [if_pos hseen] at h
      refine (ih h).imp (List.mem_cons_of_mem first) fun hrest ↦ ⟨?_, hrest.2⟩
      rw [List.map_cons, List.mem_cons, not_or]
      exact ⟨fun heq ↦ hname (heq ▸ List.contains_iff_mem.mp hseen), hrest.1⟩
    · rw [if_neg hseen] at h
      rcases List.mem_cons.mp h with rfl | hlater
      · exact Or.inl List.mem_cons_self
      · have hother := (mem_firstOfName hlater).2
        refine (ih hlater).imp (List.mem_cons_of_mem first) fun hrest ↦ ⟨?_, hrest.2⟩
        rw [List.map_cons, List.mem_cons, not_or]
        exact ⟨fun heq ↦ hother (heq ▸ List.mem_cons_self), hrest.1⟩

theorem firstOfName_congr {other : List String}
    (h : ∀ dir ∈ list, dir.name ∈ seen ↔ dir.name ∈ other) :
    firstOfName seen list = firstOfName other list := by
  induction list generalizing seen other with
  | nil => rfl
  | cons first rest ih =>
    have hfirst : seen.contains first.name = other.contains first.name := by
      rw [Bool.eq_iff_iff, List.contains_iff_mem, List.contains_iff_mem]
      exact h first List.mem_cons_self
    rw [firstOfName, firstOfName, hfirst]
    split
    · exact ih fun dir hdir ↦ h dir (List.mem_cons_of_mem first hdir)
    · refine congrArg (first :: ·) (ih fun dir hdir ↦ ?_)
      rw [List.mem_cons, List.mem_cons, h dir (List.mem_cons_of_mem first hdir)]

/-- Names that are not wanted do not decide which directory of a name comes first. -/
theorem filter_firstOfName (wanted : String → Bool) :
    (firstOfName seen list).filter (wanted ·.name) =
      firstOfName seen (list.filter (wanted ·.name)) := by
  induction list generalizing seen with
  | nil => rfl
  | cons first rest ih =>
    rw [firstOfName, List.filter_cons]
    by_cases hwanted : wanted first.name = true
    · rw [if_pos hwanted, firstOfName]
      split
      · exact ih
      · rw [List.filter_cons, if_pos hwanted, ih]
    · rw [if_neg hwanted]
      split
      · exact ih
      · rw [List.filter_cons, if_neg hwanted, ih]
        refine firstOfName_congr fun dir hdir ↦ ?_
        have hne : dir.name ≠ first.name := by
          intro heq
          have hkept := (List.mem_filter.mp hdir).2
          rw [heq] at hkept
          exact hwanted hkept
        rw [List.mem_cons, or_iff_right hne]

end FirstOfName

/-- The directories below a root that walks enter, without the root. -/
def rootPlaces (site : Site) (root : String) : List NamedDir :=
  ((site.tree.walk root site.enters).filter (· ≠ [])).map fun names ↦
    ⟨Path.slashed names, below root names⟩

/-- The directories below the roots that patterns may ask for. -/
def places (site : Site) : List NamedDir :=
  firstOfName [] (site.config.roots.flatMap (rootPlaces site))

/-- Walks that leave out what their patterns cannot accept find the same directories. -/
theorem treePlaces_eq (matchers : List PatternMatcher) :
    treePlaces site matchers =
      (places site).filter fun dir ↦ matchers.any (·.accepts dir.name) := by
  have hroot : ∀ root, (rootDirs site matchers root).filter
        (fun dir ↦ matchers.any (·.accepts dir.name)) =
      (rootPlaces site root).filter fun dir ↦ matchers.any (·.accepts dir.name) := by
    intro root
    have hlets : FileNode.LetsIn (fun names ↦ matchers.any (·.canAcceptBelow (Path.slashed names)))
        fun names ↦ matchers.any (·.accepts (Path.slashed names)) := by
      intro names hsought above habove hne
      obtain ⟨matcher, hmatcher, haccepts⟩ := List.any_eq_true.mp hsought
      exact List.any_eq_true.mpr ⟨matcher, hmatcher,
        PatternMatcher.canAcceptBelow_of_accepts haccepts habove hne⟩
    have hwalk : (site.tree.walk root fun names ↦
          site.enters names && matchers.any (·.canAcceptBelow (Path.slashed names))).filter
          (fun names ↦ matchers.any (·.accepts (Path.slashed names))) =
        (site.tree.walk root site.enters).filter
          fun names ↦ matchers.any (·.accepts (Path.slashed names)) := by
      unfold FileTree.walk
      cases site.tree.node? root with
      | none => rfl
      | some node => exact FileNode.filter_dirs_and hlets [] node
    unfold rootDirs rootPlaces
    rw [List.filter_map, List.filter_map]
    refine congrArg _ ?_
    rw [List.filter_comm, List.filter_comm _ (· ≠ [])]
    exact congrArg _ hwalk
  unfold treePlaces places
  rw [filter_firstOfName fun name ↦ matchers.any (·.accepts name),
    filter_firstOfName fun name ↦ matchers.any (·.accepts name), List.filter_flatMap,
    List.filter_flatMap]
  exact congrArg _ (congrArg (fun f ↦ site.config.roots.flatMap f) (funext hroot))

theorem head?_splitOn {first text : List Char} (hfirst : '/' ∉ first)
    (h : text = first ∨ ∃ more, text = first ++ '/' :: more) :
    (Text.splitOn '/' text).head? = some first := by
  rcases h with rfl | ⟨more, rfl⟩
  · rw [Text.splitOn_of_not_mem hfirst]
    rfl
  · rw [Text.splitOn_append_cons, Text.splitOn_of_not_mem hfirst]
    rfl

/-- A path that starts with a name is not local. -/
theorem isLocalPath_of_isName {name path : String} (hname : Path.IsName name)
    (h : path.toList = name.toList ∨ ∃ more, path.toList = name.toList ++ '/' :: more) :
    isLocalPath path = false := by
  rw [← Bool.not_eq_true, isLocalPath_iff]
  rintro ⟨start, hstart, hpath⟩
  have hslash : '/' ∉ start := by
    rcases hstart with rfl | rfl <;> decide
  have hhead := head?_splitOn hslash hpath
  rw [head?_splitOn hname.no_slash h] at hhead
  have hstart' : String.ofList start = name := by
    rw [← Option.some.inj hhead, String.ofList_toList]
  rcases hstart with rfl | rfl
  · exact hname.ne_dot hstart'.symm
  · exact hname.ne_dots hstart'.symm

/-- What comes after the first name makes no difference. -/
theorem isLocalPath_slashed {name : String} (hname : Path.IsName name) (rest : List String) :
    isLocalPath (Path.slashed (name :: rest)) = false := by
  refine isLocalPath_of_isName hname ?_
  by_cases hrest : rest = []
  · rw [hrest, Path.slashed_singleton]
    exact Or.inl rfl
  · exact Or.inr ⟨_, Path.toList_slashed_cons hrest⟩

section Roots

variable {matchers : List PatternMatcher} {root : String} (hroot : root ≠ "")
  (hnode : ∀ node, site.tree.node? root = some node → node.Regular)
include hroot hnode

/-- What a walk of a root meets is a directory below it. -/
theorem isDir_of_mem_rootDirs {dir : NamedDir} (hdir : dir ∈ rootDirs site matchers root) :
    dir.dir = Path.join root dir.name ∧ site.tree.isDir dir.dir = true ∧
      ∃ names, dir.name = Path.slashed names ∧ names ≠ [] ∧ (∀ name ∈ names, Path.IsName name) ∧
        FileNode.Entered (fun names ↦ site.enters names &&
          matchers.any (·.canAcceptBelow (Path.slashed names))) [] names := by
  obtain ⟨names, hnames, rfl⟩ := List.mem_map.mp hdir
  obtain ⟨hwalk, hsome⟩ := List.mem_filter.mp hnames
  have hne : names ≠ [] := of_decide_eq_true hsome
  have hisName := site.tree.isName_of_mem_walk hnode hwalk
  obtain ⟨hisDir, hentered⟩ := (site.tree.mem_walk_iff hnode _ names).mp hwalk
  have hpath : below root names = Path.join root (Path.slashed names) :=
    Path.foldl_join hroot hisName hne
  refine ⟨hpath, ?_, names, rfl, hne, hisName, hentered⟩
  rw [hpath, FileTree.isDir, site.tree.node?_join_slashed hroot hisName hne]
  exact hisDir

/-- A walk of a root meets every directory below it that it may enter. -/
theorem mem_rootDirs {names : List String} (hne : names ≠ [])
    (hisName : ∀ name ∈ names, Path.IsName name)
    (hentered : FileNode.Entered (fun names ↦ site.enters names &&
      matchers.any (·.canAcceptBelow (Path.slashed names))) [] names)
    (hdir : site.tree.isDir (Path.join root (Path.slashed names)) = true) :
    Path.slashed names ∈ (rootDirs site matchers root).map (·.name) := by
  rw [FileTree.isDir, site.tree.node?_join_slashed hroot hisName hne] at hdir
  have hwalk := (site.tree.mem_walk_iff hnode _ names).mpr ⟨hdir, hentered⟩
  exact List.mem_map.mpr ⟨_, List.mem_map.mpr ⟨names, List.mem_filter.mpr
    ⟨hwalk, decide_eq_true hne⟩, rfl⟩, rfl⟩

end Roots

/-- The directory that comes first under a name is below the first root that has one. -/
theorem find?_of_mem_firstOfName {matchers : List PatternMatcher} {roots : List String}
    (hroots : ∀ root ∈ roots, root ≠ "")
    (hnodes : ∀ root ∈ roots, ∀ node, site.tree.node? root = some node → node.Regular)
    {seen : List String} {dir : NamedDir}
    (hdir : dir ∈ firstOfName seen (roots.flatMap (rootDirs site matchers))) :
    (roots.map (Path.join · dir.name)).find? site.tree.isDir = some dir.dir := by
  induction roots generalizing seen with
  | nil => cases hdir
  | cons root rest ih =>
    have hroot := hroots root List.mem_cons_self
    have hnode := hnodes root List.mem_cons_self
    rw [List.flatMap_cons] at hdir
    rw [List.map_cons]
    rcases mem_firstOfName_append hdir with hhere | ⟨hnot, more, hlater⟩
    · obtain ⟨hpath, hisDir, -⟩ := isDir_of_mem_rootDirs hroot hnode hhere
      rw [← hpath, List.find?_cons, hisDir]
    · -- The root has no directory of this name, or the walk would have met it there.
      obtain ⟨other, hother, hin⟩ := List.mem_flatMap.mp (mem_firstOfName hlater).1
      obtain ⟨-, -, names, hname, hne, hisName, hentered⟩ := isDir_of_mem_rootDirs
        (hroots other (List.mem_cons_of_mem root hother))
        (hnodes other (List.mem_cons_of_mem root hother)) hin
      have hnone : site.tree.isDir (Path.join root dir.name) = false := by
        rw [← Bool.not_eq_true, hname]
        intro hisDir
        exact hnot (hname ▸ mem_rootDirs hroot hnode hne hisName hentered hisDir)
      rw [List.find?_cons, hnone]
      exact ih (fun other hother ↦ hroots other (List.mem_cons_of_mem root hother))
        (fun other hother ↦ hnodes other (List.mem_cons_of_mem root hother)) hlater

/-- What a walk below the roots meets first under a name is what the name is looked up as. -/
theorem isPlace_tree (h : site.Regular) {matchers : List PatternMatcher} {dir : NamedDir}
    (hdir : dir ∈ treePlaces site matchers) : IsPlace site dir.dir dir.name := by
  have hfirst := (List.mem_filter.mp hdir).1
  obtain ⟨root, hroot, hin⟩ := List.mem_flatMap.mp (mem_firstOfName hfirst).1
  obtain ⟨-, -, names, hname, hne, hisName, -⟩ :=
    isDir_of_mem_rootDirs (h.roots root hroot) (h.nodes root hroot) hin
  obtain ⟨first, rest, rfl⟩ := List.exists_cons_of_ne_nil hne
  have hexact : exactDir? site dir.name = some dir.dir := by
    rw [exactDir?, hname, isLocalPath_slashed (hisName first List.mem_cons_self), ← hname]
    exact find?_of_mem_firstOfName h.roots h.nodes hfirst
  exact isPlace_of_exactDir? hexact

theorem placed (h : site.Regular) {wanted : List String}
    (hwalks : ∀ pattern ∈ wanted, site.Walks pattern) : Placed site wanted where
  locals pattern hpattern _ hparse _ hnames := isPlace_local (hwalks pattern hpattern) hparse hnames
  trees _ _ hdir := isPlace_tree h hdir

/-! ### Pruned walks -/

/-- What a pruned walk finds for each of some tree patterns. -/
def treeGroups (site : Site) (matchers : List PatternMatcher) : Discover (List (List String)) := do
  let found ← trees site matchers
  return matchers.map fun matcher ↦ groupOf found (.error matcher)

/-- What each of some tree patterns asks for among all directories below the roots, of which the
first counts for each name: the packages of those whose names it accepts, in the order of the walk.
A directory is parsed when some pattern accepts its name. -/
def wholeTreeGroups (site : Site) (matchers : List PatternMatcher) :
    Discover (List (List String)) := do
  let accepted := (places site).filter fun dir ↦ matchers.any (·.accepts dir.name)
  let found ← accepted.mapM fun dir ↦ do return (dir.name, ← visit site dir.dir dir.name)
  return matchers.map fun matcher ↦ (found.filter fun entry ↦ matcher.accepts entry.1).flatMap (·.2)

theorem trees_eq_places (site : Site) (matchers : List PatternMatcher) :
    trees site matchers = ((places site).filter fun dir ↦ matchers.any (·.accepts dir.name)).mapM
      fun dir ↦ do return (dir.name, ← visit site dir.dir dir.name) := by
  rw [← treePlaces_eq]
  rfl

/-- A pattern that accepts a name can accept below that name and below every name that goes on to it
with a slash. So a walk that is pruned by some tree patterns gives each of them, and parses, what
the walk of all directories below the roots does. -/
theorem prune_loses_nothing :
    (∀ (matcher : PatternMatcher) (above name : String),
      (name = above ∨ ∃ rest, name = above ++ "/" ++ rest) → matcher.accepts name = true →
        matcher.canAcceptBelow above = true) ∧
    ∀ (site : Site) (matchers : List PatternMatcher),
      treeGroups site matchers = wholeTreeGroups site matchers := by
  constructor
  · intro matcher above name hbelow haccepts
    rcases hbelow with rfl | ⟨rest, rfl⟩
    · exact PatternMatcher.canAcceptBelow_of_goesOn haccepts (List.append_nil _).symm (Or.inl rfl)
    · have hname : (above ++ "/" ++ rest).toList = above.toList ++ '/' :: rest.toList := by
        rw [String.toList_append, String.toList_append, List.append_assoc]
        rfl
      exact PatternMatcher.canAcceptBelow_of_goesOn haccepts hname (Or.inr ⟨_, rfl⟩)
  · intro site matchers
    rw [treeGroups, trees_eq_places]
    rfl

/-- A wildcard in the middle of a name, seen from the directory above. -/
theorem prune_loses_nothing_midElement :
    PatternMatcher.accepts ⟨"example.com/l...y/v2"⟩ "example.com/library/v2" = true ∧
      PatternMatcher.canAcceptBelow ⟨"example.com/l...y/v2"⟩ "example.com/library" = true := by
  have haccepts :
      PatternMatcher.accepts ⟨"example.com/l...y/v2"⟩ "example.com/library/v2" = true := by
    decide +kernel
  exact ⟨haccepts, prune_loses_nothing.1 _ _ _ (Or.inr ⟨"v2", by decide +kernel⟩) haccepts⟩

end Discover

end PackageAtlas
