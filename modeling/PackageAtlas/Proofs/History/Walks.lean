import PackageAtlas.Proofs.History.Paths

/-!
Walks and the directories that they meet. In a tree whose names are parts of paths, a walk meets
exactly the directories that its test lets it enter, each under the names that lead there, and a
path with these names leads to the same directory. A test that lets in everything above what is
sought does not change what is found.
-/

set_option autoImplicit false
set_option relaxedAutoImplicit false

namespace PackageAtlas

/-- An item as file systems have them: its name is one part of a path, and the name of a directory
has no colon, which marks the variants of packages. -/
structure FileItem.IsNamed (item : FileItem) : Prop where
  isName : Path.IsName item.name
  no_colon : item.node.isDir = true → ':' ∉ item.name.toList

/-- A node below which all items are named, those of each directory by different names. -/
inductive FileNode.Regular : FileNode → Prop where
  | text (contents : String) : Regular (.text contents)
  | binary : Regular .binary
  | dir {items : List FileItem} (different : (items.map (·.name)).Nodup)
      (named : ∀ item ∈ items, item.IsNamed) (below : ∀ item ∈ items, Regular item.node) :
      Regular (.dir items)

namespace FileNode

/-! ### Deciding whether a node is regular -/

instance (name : String) : Decidable (Path.IsName name) :=
  decidable_of_iff (name ≠ "" ∧ name ≠ "." ∧ name ≠ ".." ∧ '/' ∉ name.toList)
    ⟨fun ⟨h, hdot, hdots, hslash⟩ ↦ ⟨h, hdot, hdots, hslash⟩,
      fun h ↦ ⟨h.ne_empty, h.ne_dot, h.ne_dots, h.no_slash⟩⟩

instance (item : FileItem) : Decidable item.IsNamed :=
  decidable_of_iff (Path.IsName item.name ∧ (item.node.isDir = true → ':' ∉ item.name.toList))
    ⟨fun ⟨hname, hcolon⟩ ↦ ⟨hname, hcolon⟩, fun h ↦ ⟨h.isName, h.no_colon⟩⟩

mutual

def isRegular : FileNode → Bool
  | dir items => decide (items.map (·.name)).Nodup && areRegular items
  | _ => true

def areRegular : List FileItem → Bool
  | [] => true
  | ⟨name, node⟩ :: rest =>
    decide (FileItem.IsNamed ⟨name, node⟩) && isRegular node && areRegular rest

end

mutual

theorem isRegular_iff (node : FileNode) : node.isRegular = true ↔ node.Regular := by
  cases node with
  | text contents => exact ⟨fun _ ↦ .text contents, fun _ ↦ rfl⟩
  | binary => exact ⟨fun _ ↦ .binary, fun _ ↦ rfl⟩
  | dir items =>
    rw [isRegular, Bool.and_eq_true, decide_eq_true_iff, areRegular_iff items]
    constructor
    · rintro ⟨different, hitems⟩
      exact .dir different (fun item hitem ↦ (hitems item hitem).1)
        fun item hitem ↦ (hitems item hitem).2
    · intro h
      cases h with
      | dir different named below =>
        exact ⟨different, fun item hitem ↦ ⟨named item hitem, below item hitem⟩⟩

theorem areRegular_iff (items : List FileItem) :
    areRegular items = true ↔ ∀ item ∈ items, item.IsNamed ∧ item.node.Regular := by
  cases items with
  | nil => exact ⟨fun _ item hitem ↦ (by cases hitem), fun _ ↦ rfl⟩
  | cons item rest =>
    obtain ⟨name, node⟩ := item
    rw [areRegular, Bool.and_eq_true, Bool.and_eq_true, decide_eq_true_iff, isRegular_iff node,
      areRegular_iff rest, List.forall_mem_cons]

end

instance (node : FileNode) : Decidable node.Regular := decidable_of_iff _ (isRegular_iff node)

/-! ### Names that lead from directory to directory -/

/-- The node that names lead to, from directory to directory. -/
def descend? : FileNode → List String → Option FileNode
  | node, [] => some node
  | node, name :: rest => (node.child? name).bind (descend? · rest)

theorem descend?_cons (node : FileNode) (name : String) (rest : List String) :
    node.descend? (name :: rest) = (node.child? name).bind (descend? · rest) := rfl

theorem descend?_of_not_isDir {node : FileNode} (h : node.isDir = false) (name : String)
    (rest : List String) : node.descend? (name :: rest) = none := by
  cases node with
  | dir items => cases h
  | text contents => rfl
  | binary => rfl

theorem follow?_nil (above : List FileNode) (node : FileNode) :
    follow? above node [] = some node := by
  cases above <;> rfl

theorem follow?_cons (above : List FileNode) (node : FileNode) (name : String)
    (path : List String) :
    follow? above node (name :: path) =
      if !node.isDir then none
      else if name = "." then follow? above node path
      else if name = ".." then follow? above.tail (above.headD node) path
      else (node.child? name).bind fun child ↦ follow? (node :: above) child path := by
  cases above <;> rfl

/-- Names without dots lead from directory to directory. -/
theorem follow?_of_forall_ne (above : List FileNode) (node : FileNode) {names : List String}
    (hnames : ∀ name ∈ names, name ≠ "." ∧ name ≠ "..") :
    follow? above node names = node.descend? names := by
  induction names generalizing above node with
  | nil => rw [follow?_nil, descend?]
  | cons name rest ih =>
    obtain ⟨hdot, hdots⟩ := hnames name List.mem_cons_self
    cases hdir : node.isDir with
    | false =>
      rw [descend?_of_not_isDir hdir, follow?_cons, hdir]
      rfl
    | true =>
      have hrest : ∀ child, follow? (node :: above) child rest = child.descend? rest :=
        fun child ↦ ih _ child fun other hother ↦ hnames other (List.mem_cons_of_mem name hother)
      rw [follow?_cons, descend?_cons, hdir, if_neg hdot, if_neg hdots]
      simp only [hrest]
      rfl

theorem follow?_names (above : List FileNode) (node : FileNode) {names : List String}
    (hnames : ∀ name ∈ names, Path.IsName name) : follow? above node names = node.descend? names :=
  follow?_of_forall_ne above node fun name hname ↦
    ⟨(hnames name hname).ne_dot, (hnames name hname).ne_dots⟩

/-- What comes before names leads to where they start. -/
theorem follow?_append (above : List FileNode) (node : FileNode) (path : List String)
    {names : List String} (hnames : ∀ name ∈ names, Path.IsName name) :
    follow? above node (path ++ names) = (follow? above node path).bind (descend? · names) := by
  induction path generalizing above node with
  | nil =>
    rw [List.nil_append, follow?_names above node hnames, follow?_nil, Option.bind_some]
  | cons name path ih =>
    rw [List.cons_append, follow?_cons, follow?_cons]
    by_cases hdir : (!node.isDir) = true
    · rw [if_pos hdir, if_pos hdir, Option.bind_none]
    · rw [if_neg hdir, if_neg hdir]
      by_cases hdot : name = "."
      · rw [if_pos hdot, if_pos hdot, ih]
      · rw [if_neg hdot, if_neg hdot]
        by_cases hdots : name = ".."
        · rw [if_pos hdots, if_pos hdots, ih]
        · rw [if_neg hdots, if_neg hdots, Option.bind_assoc]
          exact congrArg _ (funext fun child ↦ ih _ child)

/-! ### Children -/

theorem child?_dir (items : List FileItem) (name : String) :
    (dir items).child? name = (items.find? (·.name == name)).map (·.node) := rfl

theorem child?_mem {items : List FileItem} {name : String} {child : FileNode}
    (h : (dir items).child? name = some child) :
    ∃ item ∈ items, item.name = name ∧ item.node = child := by
  rw [child?_dir] at h
  obtain ⟨item, hfind, rfl⟩ := Option.map_eq_some_iff.mp h
  refine ⟨item, List.mem_of_find?_eq_some hfind, ?_, rfl⟩
  have hname := List.find?_some hfind
  exact beq_iff_eq.mp hname

theorem child?_of_mem {items : List FileItem} (different : (items.map (·.name)).Nodup)
    {item : FileItem} (hitem : item ∈ items) : (dir items).child? item.name = some item.node := by
  rw [child?_dir]
  induction items with
  | nil => cases hitem
  | cons first rest ih =>
    rw [List.map_cons, List.nodup_cons] at different
    rcases List.mem_cons.mp hitem with rfl | hlater
    · rw [List.find?_cons, beq_self_eq_true]
      rfl
    · have hne : ¬ (first.name == item.name) = true := by
        intro heq
        exact different.1 (beq_iff_eq.mp heq ▸ List.mem_map_of_mem hlater)
      rw [List.find?_cons, (Bool.not_eq_true _).mp hne]
      exact ih different.2 hlater

theorem Regular.child {node child : FileNode} {name : String} (h : node.Regular)
    (hchild : node.child? name = some child) : child.Regular := by
  cases h with
  | text contents => cases hchild
  | binary => cases hchild
  | dir different named below =>
    obtain ⟨item, hitem, -, rfl⟩ := child?_mem hchild
    exact below item hitem

/-- Names that lead somewhere are names. -/
theorem Regular.isName {node found : FileNode} {names : List String} (h : node.Regular)
    (hfound : node.descend? names = some found) : ∀ name ∈ names, Path.IsName name := by
  induction names generalizing node with
  | nil => exact fun name hname ↦ by cases hname
  | cons first rest ih =>
    obtain ⟨child, hchild, hrest⟩ := Option.bind_eq_some_iff.mp hfound
    intro name hname
    rcases List.mem_cons.mp hname with rfl | hlater
    · cases h with
      | text contents => cases hchild
      | binary => cases hchild
      | dir different named below =>
        obtain ⟨item, hitem, rfl, -⟩ := child?_mem hchild
        exact (named item hitem).isName
    · exact ih (h.child hchild) hrest name hlater

/-! ### Walks -/

section Walks

variable {enter : List String → Bool}

mutual

theorem path_prefix_of_mem_dirs {path names : List String} {node : FileNode}
    (h : names ∈ dirs enter path node) : path <+: names := by
  cases node with
  | text contents => cases h
  | binary => cases h
  | dir items =>
    rw [dirs] at h
    rcases List.mem_cons.mp h with rfl | hin
    · exact List.prefix_rfl
    · exact path_prefix_of_mem_dirsIn hin

theorem path_prefix_of_mem_dirsIn {path names : List String} {items : List FileItem}
    (h : names ∈ dirsIn enter path items) : path <+: names := by
  cases items with
  | nil => cases h
  | cons item rest =>
    obtain ⟨name, node⟩ := item
    rw [dirsIn] at h
    rcases List.mem_append.mp h with hin | hlater
    · by_cases henter : enter (path ++ [name]) = true
      · rw [if_pos henter] at hin
        exact (List.prefix_append path [name]).trans (path_prefix_of_mem_dirs hin)
      · rw [if_neg henter] at hin
        cases hin
    · exact path_prefix_of_mem_dirsIn hlater

end

/-- What is sought, and whatever lies above it, is let in by a test. -/
def LetsIn (test sought : List String → Bool) : Prop :=
  ∀ names, sought names = true → ∀ above, above <+: names → above ≠ [] → test above = true

mutual

/-- A walk that leaves out directories above nothing that is sought finds the same. -/
theorem filter_dirs_and {test sought : List String → Bool} (h : LetsIn test sought)
    (path : List String) (node : FileNode) :
    (dirs (fun names ↦ enter names && test names) path node).filter sought =
      (dirs enter path node).filter sought := by
  cases node with
  | text contents => rfl
  | binary => rfl
  | dir items =>
    rw [dirs, dirs, List.filter_cons, List.filter_cons, filter_dirsIn_and h path items]

theorem filter_dirsIn_and {test sought : List String → Bool} (h : LetsIn test sought)
    (path : List String) (items : List FileItem) :
    (dirsIn (fun names ↦ enter names && test names) path items).filter sought =
      (dirsIn enter path items).filter sought := by
  cases items with
  | nil => rfl
  | cons item rest =>
    obtain ⟨name, node⟩ := item
    rw [dirsIn, dirsIn, List.filter_append, List.filter_append, filter_dirsIn_and h path rest]
    congr 1
    by_cases henter : enter (path ++ [name]) = true
    · by_cases htest : test (path ++ [name]) = true
      · rw [if_pos (by rw [henter, htest]; rfl), if_pos henter, filter_dirs_and h]
      · have hnone : (dirs enter (path ++ [name]) node).filter sought = [] := by
          refine List.filter_eq_nil_iff.mpr fun names hnames hsought ↦ htest ?_
          exact h names hsought _ (path_prefix_of_mem_dirs hnames)
            (List.append_ne_nil_of_right_ne_nil path (List.cons_ne_nil name []))
        rw [if_neg (by rw [henter, (Bool.not_eq_true _).mp htest]; decide), if_pos henter, hnone]
        rfl
    · rw [if_neg (by rw [(Bool.not_eq_true _).mp henter]; exact Bool.false_ne_true),
        if_neg henter]

end

/-- The names below a place that lead through entered directories. -/
def Entered (enter : List String → Bool) (path : List String) (names : List String) : Prop :=
  ∀ above, above <+: names → above ≠ [] → enter (path ++ above) = true

theorem entered_nil (path : List String) : Entered enter path [] := by
  intro above habove hne
  exact absurd (List.prefix_nil.mp habove) hne

theorem entered_cons {path rest : List String} {name : String} :
    Entered enter path (name :: rest) ↔
      enter (path ++ [name]) = true ∧ Entered enter (path ++ [name]) rest := by
  constructor
  · intro h
    refine ⟨h [name] (List.prefix_append [name] rest) (List.cons_ne_nil _ _), ?_⟩
    intro above habove _
    rw [List.append_assoc]
    exact h (name :: above) (List.cons_prefix_cons.mpr ⟨rfl, habove⟩) (List.cons_ne_nil _ _)
  · rintro ⟨hfirst, hrest⟩ above habove hne
    cases above with
    | nil => exact absurd rfl hne
    | cons other above =>
      obtain ⟨rfl, hbelow⟩ := List.cons_prefix_cons.mp habove
      by_cases hnil : above = []
      · rw [hnil]
        exact hfirst
      · have hlater := hrest above hbelow hnil
        rw [List.append_assoc] at hlater
        exact hlater

mutual

/-- A walk meets the directories that it may enter. -/
theorem mem_dirs_iff {node : FileNode} (h : node.Regular) (path rest : List String) :
    path ++ rest ∈ dirs enter path node ↔
      (node.descend? rest).any isDir = true ∧ Entered enter path rest := by
  cases node with
  | text contents =>
    refine ⟨fun hmem ↦ (by cases hmem), fun hdir ↦ ?_⟩
    cases rest with
    | nil => cases hdir.1
    | cons name rest =>
      rw [descend?_of_not_isDir rfl] at hdir
      cases hdir.1
  | binary =>
    refine ⟨fun hmem ↦ (by cases hmem), fun hdir ↦ ?_⟩
    cases rest with
    | nil => cases hdir.1
    | cons name rest =>
      rw [descend?_of_not_isDir rfl] at hdir
      cases hdir.1
  | dir items =>
    obtain ⟨different, hbelow⟩ : (items.map (·.name)).Nodup ∧
        ∀ item ∈ items, item.node.Regular := by
      cases h with
      | dir different named below => exact ⟨different, below⟩
    rw [dirs, List.mem_cons]
    cases rest with
    | nil =>
      rw [List.append_nil]
      exact ⟨fun _ ↦ ⟨rfl, entered_nil path⟩, fun _ ↦ Or.inl rfl⟩
    | cons name rest =>
      have hne : path ++ name :: rest ≠ path := fun heq ↦
        List.cons_ne_nil _ _ (List.append_cancel_left (heq.trans (List.append_nil path).symm))
      rw [or_iff_right hne, mem_dirsIn_iff hbelow path name rest, entered_cons]
      constructor
      · rintro ⟨item, hitem, rfl, hdir, hentered⟩
        rw [descend?_cons, child?_of_mem different hitem]
        exact ⟨hdir, hentered⟩
      · rintro ⟨hdir, hentered⟩
        rw [descend?_cons] at hdir
        cases hchild : (FileNode.dir items).child? name with
        | none =>
          rw [hchild] at hdir
          cases hdir
        | some child =>
          obtain ⟨item, hitem, hname, rfl⟩ := child?_mem hchild
          rw [hchild] at hdir
          exact ⟨item, hitem, hname, hdir, hentered⟩

theorem mem_dirsIn_iff {items : List FileItem} (h : ∀ item ∈ items, item.node.Regular)
    (path : List String) (name : String) (rest : List String) :
    path ++ name :: rest ∈ dirsIn enter path items ↔
      ∃ item ∈ items, item.name = name ∧ (item.node.descend? rest).any isDir = true ∧
        enter (path ++ [name]) = true ∧ Entered enter (path ++ [name]) rest := by
  cases items with
  | nil =>
    refine ⟨fun hmem ↦ (by cases hmem), ?_⟩
    rintro ⟨item, hitem, -⟩
    cases hitem
  | cons first others =>
    obtain ⟨firstName, node⟩ := first
    have hlater := mem_dirsIn_iff (fun item hitem ↦ h item (List.mem_cons_of_mem _ hitem)) path name
      rest
    have hhere : path ++ name :: rest ∈
        (if enter (path ++ [firstName]) then dirs enter (path ++ [firstName]) node else []) ↔
        firstName = name ∧ (node.descend? rest).any isDir = true ∧
          enter (path ++ [name]) = true ∧ Entered enter (path ++ [name]) rest := by
      by_cases hname : firstName = name
      · subst hname
        have hnode := mem_dirs_iff (h ⟨firstName, node⟩ List.mem_cons_self) (path ++ [firstName])
          rest
        rw [List.append_assoc] at hnode
        by_cases henter : enter (path ++ [firstName]) = true
        · rw [if_pos henter]
          exact hnode.trans ⟨fun hin ↦ ⟨rfl, hin.1, henter, hin.2⟩,
            fun hin ↦ ⟨hin.2.1, hin.2.2.2⟩⟩
        · rw [if_neg henter]
          exact ⟨fun hin ↦ (by cases hin), fun hin ↦ absurd hin.2.2.1 henter⟩
      · refine ⟨fun hin ↦ absurd ?_ hname, fun hin ↦ absurd hin.1 hname⟩
        by_cases henter : enter (path ++ [firstName]) = true
        · rw [if_pos henter] at hin
          have hprefix := path_prefix_of_mem_dirs hin
          rw [List.prefix_append_right_inj] at hprefix
          exact (List.cons_prefix_cons.mp hprefix).1
        · rw [if_neg henter] at hin
          cases hin
    rw [dirsIn, List.mem_append, hhere, hlater]
    constructor
    · rintro (⟨hname, hrest⟩ | ⟨item, hitem, hrest⟩)
      · exact ⟨⟨firstName, node⟩, List.mem_cons_self, hname, hrest⟩
      · exact ⟨item, List.mem_cons_of_mem _ hitem, hrest⟩
    · rintro ⟨item, hitem, hrest⟩
      rcases List.mem_cons.mp hitem with rfl | hin
      · exact Or.inl hrest
      · exact Or.inr ⟨item, hin, hrest⟩

end

end Walks

/-! ### Colons -/

/-- A node whose directories have names without colons, with regular nodes below it. -/
def IsPlain (node : FileNode) : Prop :=
  ∀ item ∈ node.items, (item.node.isDir = true → ':' ∉ item.name.toList) ∧ item.node.Regular

theorem Regular.isPlain {node : FileNode} (h : node.Regular) : node.IsPlain := by
  cases h with
  | text contents => exact fun item hitem ↦ by cases hitem
  | binary => exact fun item hitem ↦ by cases hitem
  | dir different named below => exact fun item hitem ↦ ⟨(named item hitem).no_colon, below item hitem⟩

/-- Where a path leads to, below regular nodes. -/
theorem Regular.follow {above : List FileNode} {node found : FileNode} {path : List String}
    (habove : ∀ outer ∈ above, outer.Regular) (hnode : node.Regular)
    (h : follow? above node path = some found) : found.Regular := by
  induction path generalizing above node with
  | nil =>
    rw [follow?_nil] at h
    cases h
    exact hnode
  | cons name path ih =>
    rw [follow?_cons] at h
    by_cases hdir : (!node.isDir) = true
    · rw [if_pos hdir] at h
      cases h
    · rw [if_neg hdir] at h
      by_cases hdot : name = "."
      · rw [if_pos hdot] at h
        exact ih habove hnode h
      · rw [if_neg hdot] at h
        by_cases hdots : name = ".."
        · rw [if_pos hdots] at h
          cases above with
          | nil => exact ih habove hnode h
          | cons parent outer =>
            exact ih (fun other hother ↦ habove other (List.mem_cons_of_mem parent hother))
              (habove parent List.mem_cons_self) h
        · rw [if_neg hdots] at h
          obtain ⟨child, hchild, hrest⟩ := Option.bind_eq_some_iff.mp h
          exact ih (List.forall_mem_cons.mpr ⟨hnode, habove⟩) (hnode.child hchild) hrest

theorem isDir_of_follow? {above : List FileNode} {node found : FileNode} {path : List String}
    (h : follow? above node path = some found) (hfound : found.isDir = true) :
    node.isDir = true := by
  cases path with
  | nil =>
    rw [follow?_nil] at h
    cases h
    exact hfound
  | cons name path =>
    rw [follow?_cons] at h
    by_cases hdir : (!node.isDir) = true
    · rw [if_pos hdir] at h
      cases h
    · exact (Bool.not_eq_false _).mp fun hfalse ↦ hdir (by rw [hfalse]; rfl)

/-- A path that leads to a directory below plain ones has no colon. -/
theorem no_colon_of_follow? {above : List FileNode} {node found : FileNode} {path : List String}
    (habove : ∀ outer ∈ above, outer.IsPlain) (hnode : node.IsPlain)
    (h : follow? above node path = some found) (hfound : found.isDir = true) :
    ∀ name ∈ path, ':' ∉ name.toList := by
  induction path generalizing above node with
  | nil => exact fun name hname ↦ by cases hname
  | cons first path ih =>
    intro name hname
    have hdir := isDir_of_follow? h hfound
    rw [follow?_cons, hdir] at h
    rw [if_neg (by decide)] at h
    by_cases hdot : first = "."
    · rw [if_pos hdot] at h
      rcases List.mem_cons.mp hname with rfl | hlater
      · rw [hdot]
        decide
      · exact ih habove hnode h name hlater
    · rw [if_neg hdot] at h
      by_cases hdots : first = ".."
      · rw [if_pos hdots] at h
        rcases List.mem_cons.mp hname with rfl | hlater
        · rw [hdots]
          decide
        · cases above with
          | nil => exact ih habove hnode h name hlater
          | cons parent outer =>
            exact ih (fun other hother ↦ habove other (List.mem_cons_of_mem parent hother))
              (habove parent List.mem_cons_self) h name hlater
      · rw [if_neg hdots] at h
        obtain ⟨child, hchild, hrest⟩ := Option.bind_eq_some_iff.mp h
        cases node with
        | text contents => cases hchild
        | binary => cases hchild
        | dir items =>
          obtain ⟨item, hitem, rfl, rfl⟩ := child?_mem hchild
          obtain ⟨hcolon, hregular⟩ := hnode item hitem
          rcases List.mem_cons.mp hname with rfl | hlater
          · exact hcolon (isDir_of_follow? hrest hfound)
          · exact ih (List.forall_mem_cons.mpr ⟨hnode, habove⟩) hregular.isPlain hrest name hlater

end FileNode

/-! ### Trees -/

namespace FileTree

/-- A tree of named items. The directory of the absolute paths is an item of the top one. -/
def Regular (tree : FileTree) : Prop :=
  ∀ item ∈ tree.top.items, (item.name = "/" ∨ item.IsNamed) ∧ item.node.Regular

theorem regular_of_top {tree : FileTree} (h : tree.top.Regular) : tree.Regular := by
  intro item hitem
  cases htop : tree.top with
  | text contents =>
    rw [htop] at hitem
    cases hitem
  | binary =>
    rw [htop] at hitem
    cases hitem
  | dir items =>
    rw [htop] at h hitem
    cases h with
    | dir different named below => exact ⟨Or.inr (named item hitem), below item hitem⟩

theorem regular_node {tree : FileTree} (h : tree.top.Regular) {path : String} {node : FileNode}
    (hnode : tree.node? path = some node) : node.Regular := by
  unfold node? at hnode
  split at hnode
  · cases hnode
  · exact FileNode.Regular.follow (fun outer houter ↦ (by cases houter)) h hnode

theorem Regular.isPlain {tree : FileTree} (h : tree.Regular) : tree.top.IsPlain := by
  intro item hitem
  obtain ⟨hname | hname, hregular⟩ := h item hitem
  · refine ⟨fun _ ↦ ?_, hregular⟩
    rw [hname]
    decide
  · exact ⟨hname.no_colon, hregular⟩

variable (tree : FileTree)

theorem node?_of_ne {path : String} (hne : path ≠ "") :
    tree.node? path = FileNode.follow? [] tree.top (Path.parts path) := by
  have hempty : ¬ path.isEmpty = true := fun h ↦ hne (String.isEmpty_iff.mp h)
  rw [node?, if_neg hempty]

theorem node?_congr {path other : String} (hsame : Path.parts path = Path.parts other)
    (hne : path ≠ "") (hother : other ≠ "") : tree.node? path = tree.node? other := by
  rw [tree.node?_of_ne hne, tree.node?_of_ne hother, hsame]

theorem node?_join_slashed {base : String} (hne : base ≠ "") {names : List String}
    (hnames : ∀ name ∈ names, Path.IsName name) (hsome : names ≠ []) :
    tree.node? (Path.join base (Path.slashed names)) =
      (tree.node? base).bind (FileNode.descend? · names) := by
  rw [tree.node?_of_ne hne, tree.node?_of_ne (Path.join_ne_empty (Or.inl hne)),
    Path.parts_join (Path.isRelative_slashed hnames) hne, Path.namesIn_slashed hnames hsome,
    FileNode.follow?_append _ _ _ hnames]

theorem mem_walk_iff {path : String} (h : ∀ node, tree.node? path = some node → node.Regular)
    (enter : List String → Bool) (names : List String) :
    names ∈ tree.walk path enter ↔
      ((tree.node? path).bind (FileNode.descend? · names)).any FileNode.isDir = true ∧
        FileNode.Entered enter [] names := by
  unfold walk
  cases hnode : tree.node? path with
  | none => exact ⟨fun hmem ↦ (by cases hmem), fun hdir ↦ (by cases hdir.1)⟩
  | some node => exact FileNode.mem_dirs_iff (h node hnode) [] names

theorem isName_of_mem_walk {path : String}
    (h : ∀ node, tree.node? path = some node → node.Regular) {enter : List String → Bool}
    {names : List String} (hnames : names ∈ tree.walk path enter) :
    ∀ name ∈ names, Path.IsName name := by
  have hdir := ((tree.mem_walk_iff h enter names).mp hnames).1
  obtain ⟨found, hfound, -⟩ := Option.any_eq_true _ _ |>.mp hdir
  obtain ⟨node, hnode, hdescend⟩ := Option.bind_eq_some_iff.mp hfound
  exact (h node hnode).isName hdescend

/-- No directory has a colon in its path. -/
theorem Regular.no_colon {tree : FileTree} (h : tree.Regular) {path : String}
    (hdir : tree.isDir path = true) : ':' ∉ path.toList := by
  intro hcolon
  have hne : path ≠ "" := by
    rintro rfl
    cases hcolon
  obtain ⟨found, hfound, hisDir⟩ := Option.any_eq_true _ _ |>.mp hdir
  rw [tree.node?_of_ne hne] at hfound
  have hparts := FileNode.no_colon_of_follow? (fun outer houter ↦ (by cases houter)) h.isPlain
    hfound hisDir
  obtain ⟨text, htext, hin⟩ := Text.mem_splitOn hcolon (by decide : ':' ≠ '/')
  have hother : ∀ other : String, ':' ∉ other.toList → String.ofList text ≠ other := by
    rintro other hother rfl
    rw [String.toList_ofList] at hother
    exact hother hin
  have hname := Path.mem_parts htext (hother "" (by decide)) (hother "." (by decide))
  have hnone := hparts _ hname
  rw [String.toList_ofList] at hnone
  exact hnone hin

end FileTree

end PackageAtlas
