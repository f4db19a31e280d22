import PackageAtlas.Proofs.Naming.Declarations
import PackageAtlas.Proofs.Naming.Lifetimes

/-!
From a function to its calls. A callee goes by a name if it is the name or selects it; parentheses
around it hide the name. The lifetime of a function has all names that use it by position, and the
way to such a name in the tree of the package shows the call that goes by it, if there is one; so the
calls that are found are those that go by a name of the function, each once
(`RawPackage.check_invokes`).
-/

set_option autoImplicit false
set_option relaxedAutoImplicit false

namespace PackageAtlas

/-! ### Ways in a tree -/

namespace Node

variable {root node child : Node} {above ancestors : List Node}

/-- The way to a child goes through its parent. -/
theorem mem_paths_child (h : (node, ancestors) ∈ root.paths above) (hchild : child ∈ node.children) :
    (child, ancestors ++ [node]) ∈ root.paths above := by
  induction root using treeInduction generalizing above with
  | step root ih =>
    rw [paths_eq] at h ⊢
    refine List.mem_cons_of_mem _ (List.mem_flatMap.2 ?_)
    rcases List.mem_cons.1 h with heq | hbelow
    · cases heq
      refine ⟨child, hchild, ?_⟩
      rw [paths_eq]
      exact List.mem_cons_self
    · obtain ⟨other, hother, hin⟩ := List.mem_flatMap.1 hbelow
      exact ⟨other, hother, ih other hother hin⟩

/-- All nodes but the root are children of the last node on the way to them. -/
theorem exists_parent_of_mem_paths (h : (node, ancestors) ∈ root.paths above) :
    (node = root ∧ ancestors = above) ∨ ∃ front parent, ancestors = front ++ [parent] ∧
      (parent, front) ∈ root.paths above ∧ node ∈ parent.children := by
  induction root using treeInduction generalizing above with
  | step root ih =>
    rw [paths_eq] at h ⊢
    rcases List.mem_cons.1 h with heq | hbelow
    · cases heq
      exact .inl ⟨rfl, rfl⟩
    · obtain ⟨other, hother, hin⟩ := List.mem_flatMap.1 hbelow
      rcases ih other hother hin with ⟨rfl, rfl⟩ | ⟨front, parent, heq, hparent, hnode⟩
      · exact .inr ⟨above, root, rfl, List.mem_cons_self, hother⟩
      · exact .inr ⟨front, parent, heq,
          List.mem_cons_of_mem _ (List.mem_flatMap.2 ⟨other, hother, hparent⟩), hnode⟩

theorem mem_paths_parent {parent : Node} (h : (node, ancestors ++ [parent]) ∈ root.paths []) :
    (parent, ancestors) ∈ root.paths [] ∧ node ∈ parent.children := by
  rcases exists_parent_of_mem_paths h with ⟨-, hnil⟩ | ⟨front, other, heq, hparent, hnode⟩
  · exact absurd hnil (List.append_ne_nil_of_right_ne_nil _ (List.cons_ne_nil _ _))
  · obtain ⟨rfl, hsame⟩ := List.append_inj' heq rfl
    cases hsame
    exact ⟨hparent, hnode⟩

theorem exists_mem_paths (h : node ∈ root.nodes) : ∃ ancestors, (node, ancestors) ∈ root.paths [] := by
  rw [← map_fst_paths []] at h
  obtain ⟨⟨_, ancestors⟩, hpath, rfl⟩ := List.mem_map.1 h
  exact ⟨ancestors, hpath⟩

/-- A tree in which nodes have identities of their own. -/
def Distinct (root : Node) : Prop := (root.nodes.map (·.id)).Nodup

namespace Distinct

variable {other : Node} {others : List Node}

theorem eq_of_id (h : root.Distinct) (hnode : node ∈ root.nodes) (hother : other ∈ root.nodes)
    (hid : node.id = other.id) : node = other :=
  List.inj_on_of_nodup_map h hnode hother hid

theorem paths_unique (h : root.Distinct) (hnode : (node, ancestors) ∈ root.paths [])
    (hother : (node, others) ∈ root.paths []) : ancestors = others :=
  Option.some.inj ((findAncestors?_of_mem h hnode).symm.trans (findAncestors?_of_mem h hother))

end Distinct

theorem ident_of_ofExpr {e : Expr} {name : Ident} (h : ofExpr e = .ident name) : e = .ident name := by
  cases e <;> cases h
  rfl

theorem selector_of_ofExpr {e operand : Expr} {info : NodeInfo} {selected : Ident}
    (h : ofExpr e = .expr (.selector info operand selected)) :
    e = .selector info operand selected := by
  cases e <;> cases h
  rfl

end Node

/-! ### Calls -/

/-- The name that a callee goes by. -/
def Expr.calledName? : Expr → Option Ident
  | .ident name => some name
  | .selector _ _ selected => some selected
  | _ => none

/-- The callee of a call. -/
def Node.callee? : Node → Option Expr
  | .expr (.call _ callee _) => some callee
  | _ => none

namespace ResolvedPackage

/-- The symbol before the dot of a callee. -/
def receiverOf? (package : ResolvedPackage) : Expr → Option SymbolId
  | .selector _ operand _ =>
    operand.unparen.ident?.bind fun name ↦ package.info.objectOf? name.info.id
  | _ => none

/-- The call that is the first node around what has an identity, if it is the callee. -/
def callAround? (through : NodeId) (receiver : Option SymbolId) : List Node → Option Invocation
  | .expr (.call info callee args) :: outward =>
    if callee.id = through then some ⟨info, callee, args, receiver, outward.reverse⟩ else none
  | _ => none

variable {package : ResolvedPackage} {used : Ident} {ancestors outward : List Node}
  {invocation : Invocation}

theorem callAround?_eq_some {through : NodeId} {receiver : Option SymbolId} :
    callAround? through receiver outward = some invocation ↔
      outward = invocation.call :: invocation.ancestors.reverse ∧
        invocation.callee.id = through ∧ invocation.receiver = receiver := by
  constructor
  · intro h
    unfold callAround? at h
    split at h
    · rename_i info callee args outward
      obtain ⟨hid, hsome⟩ := Option.ite_none_right_eq_some.1 h
      cases hsome
      exact ⟨by rw [Invocation.call, List.reverse_reverse], hid, rfl⟩
    · cases h
  · rintro ⟨rfl, rfl, rfl⟩
    exact (if_pos rfl).trans (by rw [List.reverse_reverse])

theorem invocation?_eq (package : ResolvedPackage) (used : Ident) (ancestors : List Node) :
    package.invocation? used ancestors =
      callAround? (package.calledThrough used ancestors.reverse).1
        (package.calledThrough used ancestors.reverse).2.1
        (package.calledThrough used ancestors.reverse).2.2 := rfl

/-- A name is called through a selector around it that selects it, and else by itself. -/
theorem calledThrough_cases (package : ResolvedPackage) (used : Ident) (outward : List Node) :
    (∃ info operand selected rest, outward = .expr (.selector info operand selected) :: rest ∧
      selected.info.id = used.info.id ∧ package.calledThrough used outward =
        (info.id, package.receiverOf? (.selector info operand selected), rest)) ∨
      package.calledThrough used outward = (used.info.id, none, outward) := by
  unfold calledThrough
  split
  · rename_i info operand selected rest
    split
    · rename_i hid
      exact .inl ⟨info, operand, selected, rest, rfl, hid, rfl⟩
    · exact .inr rfl
  · exact .inr rfl

/-- What has the identity of the callee of a call in the tree is the callee. -/
theorem ofExpr_callee_eq (h : package.root.Distinct) {node : Node}
    (hcall : (invocation.call, invocation.ancestors) ∈ package.root.paths [])
    (hnode : node ∈ package.root.nodes) (hid : invocation.callee.id = node.id) :
    Node.ofExpr invocation.callee = node := by
  refine h.eq_of_id (Node.mem_nodes_of_mem_paths (Node.mem_paths_child hcall List.mem_cons_self))
    hnode ?_
  rw [← hid, Node.id, Node.info_ofExpr, Expr.id]

/-- A call that the way to a used name shows is in the tree, and its callee goes by the name. -/
theorem called_of_invocation? (h : package.root.Distinct)
    (hused : (.ident used, ancestors) ∈ package.root.paths [])
    (hsome : package.invocation? used ancestors = some invocation) :
    (invocation.call, invocation.ancestors) ∈ package.root.paths [] ∧
      invocation.callee.calledName? = some used ∧
      invocation.receiver = package.receiverOf? invocation.callee := by
  rw [invocation?_eq] at hsome
  obtain ⟨houtward, hcallee, hreceiver⟩ := callAround?_eq_some.1 hsome
  rcases package.calledThrough_cases used ancestors.reverse with
    ⟨info, operand, selected, rest, hrest, hid, hthrough⟩ | hthrough
  · rw [hthrough] at houtward hcallee hreceiver
    change rest = _ at houtward
    rw [List.reverse_eq_cons_iff, houtward, List.reverse_cons, List.reverse_reverse] at hrest
    rw [hrest] at hused
    obtain ⟨hselector, -⟩ := Node.mem_paths_parent hused
    obtain ⟨hcall, -⟩ := Node.mem_paths_parent hselector
    have hselected : Node.ident selected = .ident used :=
      h.eq_of_id (Node.mem_nodes_of_mem_paths (Node.mem_paths_child hselector
        (List.mem_cons_of_mem _ List.mem_cons_self))) (Node.mem_nodes_of_mem_paths hused) hid
    cases hselected
    rw [Node.selector_of_ofExpr
      (ofExpr_callee_eq h hcall (Node.mem_nodes_of_mem_paths hselector) hcallee)]
    exact ⟨hcall, rfl, hreceiver⟩
  · rw [hthrough] at houtward hcallee hreceiver
    change ancestors.reverse = _ at houtward
    rw [List.reverse_eq_cons_iff, List.reverse_reverse] at houtward
    rw [houtward] at hused
    obtain ⟨hcall, -⟩ := Node.mem_paths_parent hused
    rw [Node.ident_of_ofExpr
      (ofExpr_callee_eq h hcall (Node.mem_nodes_of_mem_paths hused) hcallee)]
    exact ⟨hcall, rfl, hreceiver⟩

/-- The way to the name that the callee of a call goes by shows the call. -/
theorem invocation?_of_called (h : package.root.Distinct)
    (hused : (.ident used, ancestors) ∈ package.root.paths [])
    (hcall : (invocation.call, invocation.ancestors) ∈ package.root.paths [])
    (hname : invocation.callee.calledName? = some used)
    (hreceiver : invocation.receiver = package.receiverOf? invocation.callee) :
    package.invocation? used ancestors = some invocation := by
  rw [invocation?_eq]
  obtain ⟨callInfo, callee, args, receiver, front⟩ := invocation
  change receiver = package.receiverOf? callee at hreceiver
  subst hreceiver
  have hcallee : (Node.ofExpr callee, front ++ [.expr (.call callInfo callee args)]) ∈
      package.root.paths [] := Node.mem_paths_child hcall List.mem_cons_self
  cases callee with
  | ident name =>
    cases hname
    rw [h.paths_unique hused hcallee, List.reverse_append]
    exact callAround?_eq_some.2 ⟨rfl, rfl, rfl⟩
  | selector info operand selected =>
    cases hname
    have hselected := Node.mem_paths_child hcallee (List.mem_cons_of_mem _ List.mem_cons_self)
    have hthrough : package.calledThrough used
        (front ++ [Node.expr (.call callInfo (.selector info operand used) args)] ++
          [Node.ofExpr (.selector info operand used)]).reverse =
        (info.id, package.receiverOf? (.selector info operand used),
          .expr (.call callInfo (.selector info operand used) args) :: front.reverse) := by
      rw [List.reverse_append, List.reverse_append]
      exact if_pos rfl
    rw [h.paths_unique hused hselected, hthrough]
    exact callAround?_eq_some.2 ⟨rfl, rfl, rfl⟩
  | _ => cases hname

/-- A call of a function in a package, with the way to it from the package. -/
structure Invokes (package : ResolvedPackage) (function : SymbolId) (invocation : Invocation) :
    Prop where
  path : (invocation.call, invocation.ancestors) ∈ package.root.withAncestors
  called : ∃ name, invocation.callee.calledName? = some name ∧
    package.info.uses.find? name.info.id = some ⟨name, function⟩
  receiver : invocation.receiver = package.receiverOf? invocation.callee

/-- The calls of a function, each once, by the position of the name that the callee goes by. -/
structure ListsCalls (package : ResolvedPackage) (function : SymbolId) (found : List Invocation) :
    Prop where
  mem : ∀ invocation, invocation ∈ found ↔ package.Invokes function invocation
  ordered : found.Pairwise fun first second ↦ ∀ name ∈ first.callee.calledName?,
    ∀ other ∈ second.callee.calledName?, name.pos < other.pos

/-- A package whose records of uses are of names in its tree, each recorded once, and no two at one
place. -/
structure RecordsUses (package : ResolvedPackage) : Prop where
  distinct : package.root.Distinct
  lifetimes : package.lifetimes = LifetimeIndex.ofInfo package.info
  keys : package.info.uses.keys.Nodup
  names : ∀ id ref, package.info.uses.find? id = some ref →
    ref.ident.info.id = id ∧ .ident ref.ident ∈ package.root.nodes
  places : ∀ id id' ref ref', package.info.uses.find? id = some ref →
    package.info.uses.find? id' = some ref' → ref.ident.pos = ref'.ident.pos →
    ref.ident = ref'.ident

/-- The names that use a symbol, by position. -/
def usesOf (package : ResolvedPackage) (id : SymbolId) : List Ident :=
  ((package.lifetime? id).map (·.uses)).getD []

theorem mapM_eq_ok {α β ε : Type} {list : List α} {step : α → Except ε β} {result : α → β}
    (h : ∀ a ∈ list, step a = .ok (result a)) : list.mapM step = .ok (list.map result) := by
  induction list with
  | nil => rfl
  | cons a rest ih =>
    obtain ⟨ha, hrest⟩ := List.forall_mem_cons.1 h
    rw [List.mapM_cons, ha, ih hrest]
    rfl

namespace RecordsUses

variable {function : SymbolId}

theorem usesOf_eq (h : package.RecordsUses) : package.usesOf function =
    (package.info.usesOf function).mergeSort fun first second ↦ first.pos ≤ second.pos := by
  unfold usesOf lifetime?
  rw [h.lifetimes, LifetimeIndex.uses_ofInfo]

theorem mem_usesOf (h : package.RecordsUses) : used ∈ package.usesOf function ↔
    package.info.uses.find? used.info.id = some ⟨used, function⟩ := by
  rw [h.usesOf_eq, List.mem_mergeSort]
  constructor
  · intro hmem
    obtain ⟨ref, href, rfl⟩ := List.mem_map.1 hmem
    obtain ⟨hvalue, hsymbol⟩ := List.mem_filter.1 href
    obtain ⟨⟨id, ref⟩, hentry, rfl⟩ := List.mem_map.1 hvalue
    have hfound : package.info.uses.find? id = some ref :=
      (Dict.lookup_eq_some_iff h.keys).2 hentry
    rw [(h.names id ref hfound).1, hfound, ← of_decide_eq_true hsymbol]
  · intro hfound
    refine List.mem_map.2 ⟨⟨used, function⟩, List.mem_filter.2 ⟨?_, decide_eq_true rfl⟩, rfl⟩
    exact List.mem_map.2 ⟨_, (Dict.lookup_eq_some_iff h.keys).1 hfound, rfl⟩

theorem nodup_usesOf (h : package.RecordsUses) : (package.usesOf function).Nodup := by
  have hids : package.info.uses.values.map (·.ident.info.id) = package.info.uses.keys := by
    refine (List.map_map ..).trans (List.map_congr_left fun entry hentry ↦ ?_)
    exact (h.names _ _ ((Dict.lookup_eq_some_iff h.keys).2 hentry)).1
  rw [h.usesOf_eq, (List.mergeSort_perm _ _).nodup_iff]
  refine List.Nodup.of_map (·.info.id) ?_
  rw [TypeInfo.usesOf, List.map_map]
  refine List.Nodup.sublist (List.filter_sublist.map _) ?_
  exact hids ▸ h.keys

/-- The uses of a symbol stand one behind the other. -/
theorem pairwise_usesOf (h : package.RecordsUses) :
    (package.usesOf function).Pairwise fun first second ↦ first.pos < second.pos := by
  have hsorted : (package.usesOf function).Pairwise fun first second ↦ first.pos ≤ second.pos := by
    rw [h.usesOf_eq]
    exact Lifetime.pairwise_mergeSort_place Ident.pos _
  refine (hsorted.and h.nodup_usesOf).imp_of_mem fun hfirst hsecond hboth ↦ ?_
  obtain ⟨hle, hne⟩ := hboth
  refine lt_of_le_of_ne hle fun hsame ↦ hne ?_
  exact h.places _ _ _ _ (h.mem_usesOf.1 hfirst) (h.mem_usesOf.1 hsecond) hsame

/-- All uses of a symbol are found in the tree. -/
theorem exists_path_of_mem_usesOf (h : package.RecordsUses) (hused : used ∈ package.usesOf function) :
    ∃ ancestors, package.ancestorsOf used.info.id = .ok ancestors ∧
      (.ident used, ancestors) ∈ package.root.paths [] := by
  obtain ⟨-, hnode⟩ := h.names _ _ (h.mem_usesOf.1 hused)
  obtain ⟨ancestors, hpath⟩ := Node.exists_mem_paths hnode
  have hfound : package.root.findAncestors? used.info.id = some ancestors :=
    Node.findAncestors?_of_mem h.distinct hpath
  refine ⟨ancestors, ?_, hpath⟩
  unfold ResolvedPackage.ancestorsOf
  rw [hfound]

/-- The calls of a function are found, all of those that go by a name of it and no others. -/
theorem invocationsOf_lists (h : package.RecordsUses) {store : Store}
    (hfunc : (store.get function).isFunc = true) :
    ∃ found, package.invocationsOf store function = .ok found ∧
      package.ListsCalls function found := by
  let result (used : Ident) : Option Invocation :=
    package.invocation? used ((package.ancestorsOf used.info.id).toOption.getD [])
  have hway {used : Ident} (hused : used ∈ package.usesOf function) :
      package.ancestorsOf used.info.id =
          .ok ((package.ancestorsOf used.info.id).toOption.getD []) ∧
        (.ident used, (package.ancestorsOf used.info.id).toOption.getD []) ∈
          package.root.paths [] := by
    obtain ⟨ancestors, hfound, hpath⟩ := h.exists_path_of_mem_usesOf hused
    rw [hfound]
    exact ⟨rfl, hpath⟩
  refine ⟨(package.usesOf function).filterMap result, ?_, fun invocation ↦ ?_, ?_⟩
  · have hmap : (package.usesOf function).mapM (fun used ↦ do
        return package.invocation? used (← package.ancestorsOf used.info.id)) =
        .ok ((package.usesOf function).map result) := by
      refine mapM_eq_ok fun used hused ↦ ?_
      rw [(hway hused).1]
      rfl
    unfold invocationsOf
    rw [hfunc]
    change (do
      let found ← (package.usesOf function).mapM _
      return found.filterMap (·)) = _
    rw [hmap]
    exact congrArg Except.ok (List.filterMap_map ..)
  · rw [List.mem_filterMap]
    constructor
    · rintro ⟨used, hused, hsome⟩
      obtain ⟨hpath, hname, hreceiver⟩ := called_of_invocation? h.distinct (hway hused).2 hsome
      exact ⟨Node.withAncestors_eq _ ▸ hpath, ⟨used, hname, h.mem_usesOf.1 hused⟩, hreceiver⟩
    · rintro ⟨hpath, ⟨used, hname, hfound⟩, hreceiver⟩
      rw [Node.withAncestors_eq] at hpath
      have hused := h.mem_usesOf.2 hfound
      exact ⟨used, hused,
        invocation?_of_called h.distinct (hway hused).2 hpath hname hreceiver⟩
  · refine List.pairwise_filterMap.2 (h.pairwise_usesOf.imp_of_mem ?_)
    intro first second hfirst hsecond hlt one hone two htwo name hname other hother
    obtain ⟨-, hcalled, -⟩ := called_of_invocation? h.distinct (hway hfirst).2 hone
    obtain ⟨-, hcalled', -⟩ := called_of_invocation? h.distinct (hway hsecond).2 htwo
    cases hcalled.symm.trans hname
    cases hcalled'.symm.trans hother
    exact hlt

end RecordsUses

end ResolvedPackage

/-! ### Packages that were checked -/

namespace RawPackage

variable {raw : RawPackage} {place : ImportPlace}
  {importer : String → Except ImportError PackageScope} {store later : Store}
  {package : ResolvedPackage} {scopes : List PackageScope}

theorem recordsUses_of_check (h : raw.space.HasParsed raw.files) (hmade : MadeBy store scopes)
    (himports : ∀ path scope, importer path = .ok scope → scope ∈ scopes)
    (hcheck : raw.check place importer store = some (.ok package, later)) :
    package.RecordsUses := by
  obtain ⟨files, hparsed, hfiles⟩ := h
  obtain ⟨checked, hchecked, rfl, -⟩ := check_eq_some hcheck
  obtain ⟨hstore, hscopes⟩ := hmade.named
  obtain ⟨s, hs⟩ := checkWithin_sound hstore
    (fun path scope hscope ↦ hscopes scope (himports path scope hscope)) hchecked
  have huses := hs.sound.uses
  have hkeys := hs.sound.keys
  rw [← hs.info] at huses hkeys
  have hnames : ∀ id ref, checked.info.uses.find? id = some ref → ref.ident.info.id = id ∧
      ∃ file ∈ raw.dedupe.1.checkOrder, .ident ref.ident ∈ (Node.file file).nodes := by
    intro id ref hfound
    obtain ⟨hid, hplaced, -⟩ := huses id ref hfound
    exact ⟨hid, castOf.mem_nodes hplaced⟩
  refine ⟨(stands_resolved hparsed hfiles checked).distinct, rfl, hkeys, ?_, ?_⟩
  · intro id ref hfound
    obtain ⟨hid, file, hfile, hmem⟩ := hnames id ref hfound
    refine ⟨hid, Node.nodes_subset_of_mem_children (List.mem_map_of_mem ?_) hmem⟩
    exact (List.mergeSort_perm _ _).mem_iff.2 ((mem_checkOrder _ file).1 hfile)
  · intro id id' ref ref' hfound hfound' hpos
    obtain ⟨-, file, hfile, hmem⟩ := hnames id ref hfound
    obtain ⟨-, file', hfile', hmem'⟩ := hnames id' ref' hfound'
    have hholds := holds_checkOrder hparsed hfiles
    exact Node.ident.inj (hholds.leaf_unique hfile hfile' hmem hmem' rfl rfl hpos)

/-- In a package that passes its check the calls of every function are found: those whose callee is
a name of the function or selects one, each once and with the way to it. -/
theorem check_invokes (h : raw.space.HasParsed raw.files) (hmade : MadeBy store scopes)
    (himports : ∀ path scope, importer path = .ok scope → scope ∈ scopes)
    (hcheck : raw.check place importer store = some (.ok package, later)) {now : Store}
    {function : SymbolId} (hfunc : (now.get function).isFunc = true) :
    ∃ found, package.invocationsOf now function = .ok found ∧
      package.ListsCalls function found :=
  (recordsUses_of_check h hmade himports hcheck).invocationsOf_lists hfunc

/-- Two calls of one function, the second one with parentheses around the name. It is a call of the
function all the same, but not one that is found. -/
theorem check_invokes_parenthesized : ∃ (raw : RawPackage) (package : ResolvedPackage)
    (later : Store) (found : List Invocation) (callee : Expr) (name : Ident),
      raw.space.HasParsed raw.files ∧
      raw.check ⟨0, "p"⟩ importNothing Universe.store = some (.ok package, later) ∧
      package.invocationsOf later ⟨34⟩ = .ok found ∧ package.ListsCalls ⟨34⟩ found ∧
      callee ∈ package.root.withAncestors.filterMap (·.1.callee?) ∧
      callee.unparen.ident? = some name ∧
      (package.info.uses.find? name.info.id).map (·.symbol) = some ⟨34⟩ ∧
      ∀ invocation ∈ found, invocation.callee ≠ callee := by
  let text := "package p\n\nfunc f(n int) int \x7b return n \x7d\n\n" ++
    "var a = f(1)\nvar b = (f)(2)\n"
  let parsed := (FileSet.empty ⟨0⟩).parseFile "a.go" text
  let make (file : SourceFile) : RawPackage := ⟨"p", "p", "p", parsed.1, [file], []⟩
  let describe (package : ResolvedPackage) (callee : Expr) : Bool × Option SymbolId :=
    (callee.calledName?.isSome, callee.unparen.ident?.bind fun name ↦
      (package.info.uses.find? name.info.id).map (·.symbol))
  have hrun : (parsed.2.toOption.bind fun file ↦
      ((make file).check ⟨0, "p"⟩ importNothing Universe.store).bind fun result ↦
        result.1.toOption.map fun package ↦ ((result.2.get ⟨34⟩).isFunc,
          (package.root.withAncestors.filterMap (·.1.callee?)).map (describe package))) =
      some (true, [(true, some ⟨34⟩), (false, some ⟨34⟩)]) := by
    decide +kernel
  obtain ⟨file, hfile, hrun⟩ := Option.bind_eq_some_iff.1 hrun
  obtain ⟨⟨result, later⟩, hcheck, hrun⟩ := Option.bind_eq_some_iff.1 hrun
  obtain ⟨package, hresult, hrun⟩ := Option.map_eq_some_iff.1 hrun
  obtain rfl := eq_ok_of_toOption hresult
  obtain ⟨hfunc, hcallees⟩ := Prod.mk.inj hrun
  have hhas : (make file).space.HasParsed (make file).files :=
    ⟨[file], (FileSet.Parsed.empty ⟨0⟩).parse (eq_ok_of_toOption hfile), .refl _⟩
  obtain ⟨found, hfound, hlists⟩ := check_invokes hhas .start importNothing_mem hcheck hfunc
  have hsecond : (false, some ⟨34⟩) ∈
      (package.root.withAncestors.filterMap (·.1.callee?)).map (describe package) :=
    hcallees ▸ List.mem_cons_of_mem _ List.mem_cons_self
  obtain ⟨callee, hcallee, hdescribe⟩ := List.mem_map.1 hsecond
  obtain ⟨hnone, hsymbol⟩ := Prod.mk.inj hdescribe
  obtain ⟨name, hname, huse⟩ := Option.bind_eq_some_iff.1 hsymbol
  refine ⟨make file, package, later, found, callee, name, hhas, hcheck, hfound, hlists, hcallee,
    hname, huse, ?_⟩
  rintro invocation hinvocation rfl
  obtain ⟨called, hcalled, -⟩ := ((hlists.mem invocation).1 hinvocation).called
  rw [hcalled] at hnone
  cases hnone

end RawPackage

end PackageAtlas
