import Mathlib.Data.List.Chain
import PackageAtlas.Proofs.Spans.Package

/-!
What a visitor sees of a tree. A traversal calls its visitor for the nodes in their order, each with
its path from the root; it passes over the nodes below a node whose children the visitor skips, and
ends with the first call that the visitor answers with a stop (`Node.Visits`). In a package of
parsed files nodes have identities of their own, so what is passed over and what is searched for can
be told by identities (`PackageTree.traversals_exact`).
-/

set_option autoImplicit false
set_option relaxedAutoImplicit false

namespace PackageAtlas

namespace Node

/-! ### Paths -/

/-- The nodes from the root of a tree down to the parent of a node, each a child of the one
before. -/
structure LeadsTo (root : Node) (path : List Node) (node : Node) : Prop where
  first : (path ++ [node]).head? = some root
  next : (path ++ [node]).IsChain fun parent child ↦ child ∈ parent.children

theorem leadsTo_cons_iff {root parent node : Node} {path : List Node} :
    root.LeadsTo (parent :: path) node ↔
      root = parent ∧ ∃ child ∈ root.children, child.LeadsTo path node := by
  constructor
  · rintro ⟨hfirst, hnext⟩
    obtain rfl : parent = root := Option.some.inj hfirst
    refine ⟨rfl, ?_⟩
    rw [List.cons_append, List.isChain_cons] at hnext
    cases hhead : (path ++ [node]).head? with
    | none => simp at hhead
    | some child => exact ⟨child, hnext.1 child hhead, hhead, hnext.2⟩
  · rintro ⟨rfl, child, hchild, hfirst, hnext⟩
    refine ⟨rfl, ?_⟩
    rw [List.cons_append, List.isChain_cons, hfirst]
    refine ⟨fun other hother ↦ ?_, hnext⟩
    obtain rfl : child = other := Option.some.inj hother
    exact hchild

theorem leadsTo_nil_iff {root node : Node} : root.LeadsTo [] node ↔ root = node := by
  constructor
  · rintro ⟨hfirst, -⟩
    exact (Option.some.inj hfirst).symm
  · rintro rfl
    exact ⟨rfl, List.isChain_singleton _⟩

/-- A node is listed with the nodes that lead to it. -/
theorem mem_paths_iff {root node : Node} {ancestors path : List Node} :
    (node, path) ∈ root.paths ancestors ↔
      ∃ below, path = ancestors ++ below ∧ root.LeadsTo below node := by
  induction root using treeInduction generalizing ancestors with
  | step root ih =>
    rw [paths_eq, List.mem_cons, List.mem_flatMap, Prod.mk.injEq]
    constructor
    · rintro (⟨rfl, rfl⟩ | ⟨child, hchild, hmem⟩)
      · exact ⟨[], (List.append_nil _).symm, leadsTo_nil_iff.2 rfl⟩
      · obtain ⟨below, rfl, hleads⟩ := (ih child hchild).1 hmem
        refine ⟨root :: below, by simp, ?_⟩
        exact leadsTo_cons_iff.2 ⟨rfl, child, hchild, hleads⟩
    · rintro ⟨below, rfl, hleads⟩
      cases below with
      | nil => exact Or.inl ⟨(leadsTo_nil_iff.1 hleads).symm, List.append_nil _⟩
      | cons parent below =>
        obtain ⟨rfl, child, hchild, hleads⟩ := leadsTo_cons_iff.1 hleads
        exact Or.inr ⟨child, hchild, (ih child hchild).2 ⟨below, by simp, hleads⟩⟩

theorem mem_paths_nil_iff {root node : Node} {path : List Node} :
    (node, path) ∈ root.paths [] ↔ root.LeadsTo path node := by
  rw [mem_paths_iff]
  constructor
  · rintro ⟨below, rfl, hleads⟩
    exact hleads
  · exact fun hleads ↦ ⟨path, rfl, hleads⟩

/-- Above a node stand the given ancestors and nodes of the tree. -/
theorem above_of_mem_paths {root : Node} {ancestors : List Node} {place : Node × List Node}
    (h : place ∈ root.paths ancestors) {above : Node} (habove : above ∈ place.2) :
    above ∈ ancestors ++ root.nodes := by
  induction root using treeInduction generalizing ancestors with
  | step root ih =>
    rw [paths_eq, List.mem_cons, List.mem_flatMap] at h
    rcases h with rfl | ⟨child, hchild, hmem⟩
    · exact List.mem_append_left _ habove
    · rcases List.mem_append.1 (ih child hchild hmem) with h | h
      · rcases List.mem_append.1 h with h | h
        · exact List.mem_append_left _ h
        · obtain rfl := List.mem_singleton.1 h
          exact List.mem_append_right _ (mem_nodes_self _)
      · exact List.mem_append_right _ (nodes_subset_of_mem_children hchild h)

/-! ### Calls -/

section Visitors

variable {σ : Type}

/-- A visitor with a state of its own, which is shown nodes with their paths. -/
abbrev Visitor (σ : Type) := σ → Node → List Node → σ × Visit

/-- A call of a visitor: what it was shown and its answer. -/
structure VisitCall where
  node : Node
  ancestors : List Node
  answer : Visit

def VisitCall.place (call : VisitCall) : Node × List Node := (call.node, call.ancestors)

/-- A visitor that does as another and notes the calls. -/
def Visitor.recording (visit : Visitor σ) : Visitor (σ × List VisitCall) :=
  fun (state, calls) node ancestors ↦
    let (next, answer) := visit state node ancestors
    ((next, calls ++ [⟨node, ancestors, answer⟩]), answer)

/-- The visitor answers some calls one after another. -/
inductive Answers (visit : Visitor σ) : σ → List VisitCall → σ → Prop where
  | nil (state : σ) : Answers visit state [] state
  | cons {state next final : σ} {call : VisitCall} {calls : List VisitCall}
    (hanswer : visit state call.node call.ancestors = (next, call.answer))
    (h : Answers visit next calls final) : Answers visit state (call :: calls) final

/-- The identities of the nodes whose children are skipped. -/
def skippedIds (calls : List VisitCall) : List NodeId :=
  (calls.filter (·.answer = .skipChildren)).map (·.node.id)

/-- Some places of a tree without those below nodes whose children are skipped. -/
def unskipped (calls : List VisitCall) (places : List (Node × List Node)) :
    List (Node × List Node) :=
  places.filter fun place ↦ place.2.all fun above ↦ above.id ∉ skippedIds calls

/-- What a visitor is called for when it is sent along some places of a tree, and the result. -/
structure Visits (visit : Visitor σ) (places : List (Node × List Node)) (state : σ)
    (calls : List VisitCall) (result : σ × Bool) : Prop where
  answered : Answers visit state calls result.1
  ordered : calls.map (·.place) <+: unskipped calls places
  whole : result.2 = true → calls.map (·.place) = unskipped calls places
  endsAtStop : calls.Pairwise fun earlier _ ↦ earlier.answer ≠ .stop
  finished_iff : result.2 = false ↔ ∃ call ∈ calls, call.answer = .stop

variable {visit : Visitor σ} {places places' : List (Node × List Node)} {state middle final : σ}
  {calls calls' : List VisitCall} {result : σ × Bool}

theorem Answers.append (h : Answers visit state calls middle)
    (h' : Answers visit middle calls' final) : Answers visit state (calls ++ calls') final := by
  induction h with
  | nil state => exact h'
  | cons hanswer _ ih => exact .cons hanswer (ih h')

theorem mem_skippedIds {id : NodeId} :
    id ∈ skippedIds calls ↔ ∃ call ∈ calls, call.answer = .skipChildren ∧ call.node.id = id := by
  simp [skippedIds, and_assoc]

theorem skippedIds_append :
    skippedIds (calls ++ calls') = skippedIds calls ++ skippedIds calls' := by
  rw [skippedIds, List.filter_append, List.map_append]
  rfl

theorem unskipped_append_places :
    unskipped calls (places ++ places') = unskipped calls places ++ unskipped calls places' :=
  List.filter_append _ _

/-- Calls that skip nothing above some places change nothing there. -/
theorem unskipped_congr
    (h : ∀ place ∈ places, ∀ above ∈ place.2,
      above.id ∈ skippedIds calls ↔ above.id ∈ skippedIds calls') :
    unskipped calls places = unskipped calls' places := by
  refine List.filter_congr fun place hplace ↦ ?_
  rw [Bool.eq_iff_iff, List.all_eq_true, List.all_eq_true]
  refine forall₂_congr fun above habove ↦ ?_
  rw [decide_eq_true_iff, decide_eq_true_iff, h place hplace above habove]

theorem unskipped_eq_self (h : ∀ place ∈ places, ∀ above ∈ place.2, above.id ∉ skippedIds calls) :
    unskipped calls places = places := by
  refine List.filter_eq_self.2 fun place hplace ↦ List.all_eq_true.2 fun above habove ↦ ?_
  exact decide_eq_true (h place hplace above habove)

namespace Visits

theorem mem_places (h : Visits visit places state calls result) {call : VisitCall}
    (hcall : call ∈ calls) : call.place ∈ places :=
  List.mem_of_mem_filter (h.ordered.subset (List.mem_map_of_mem hcall))

/-- No node is skipped that is not among the nodes of the places. -/
theorem not_mem_skippedIds (h : Visits visit places state calls result) {id : NodeId}
    (hid : ∀ place ∈ places, id ≠ place.1.id) : id ∉ skippedIds calls := by
  intro hmem
  obtain ⟨call, hcall, -, hsame⟩ := mem_skippedIds.1 hmem
  exact hid call.place (h.mem_places hcall) hsame.symm

protected theorem nil (visit : Visitor σ) (state : σ) : Visits visit [] state [] (state, true) where
  answered := .nil state
  ordered := List.prefix_refl _
  whole := fun _ ↦ rfl
  endsAtStop := .nil
  finished_iff := by simp

/-- Places that are visited to the end, and the places behind them. -/
theorem append (h : Visits visit places state calls (middle, true))
    (h' : Visits visit places' middle calls' result)
    (hbefore : ∀ place ∈ places, ∀ above ∈ place.2, above.id ∉ skippedIds calls')
    (hbehind : ∀ place ∈ places', ∀ above ∈ place.2, above.id ∉ skippedIds calls) :
    Visits visit (places ++ places') state (calls ++ calls') result := by
  have hgoing : ∀ call ∈ calls, call.answer ≠ .stop := fun call hcall hstop ↦
    Bool.noConfusion (h.finished_iff.2 ⟨call, hcall, hstop⟩)
  have hunskipped : unskipped (calls ++ calls') (places ++ places') =
      calls.map (·.place) ++ unskipped calls' places' := by
    rw [unskipped_append_places, h.whole rfl]
    congr 1
    · refine unskipped_congr fun place hplace above habove ↦ ?_
      rw [skippedIds_append, List.mem_append, or_iff_left (hbefore place hplace above habove)]
    · refine unskipped_congr fun place hplace above habove ↦ ?_
      rw [skippedIds_append, List.mem_append, or_iff_right (hbehind place hplace above habove)]
  constructor
  · exact h.answered.append h'.answered
  · rw [hunskipped, List.map_append]
    exact (List.prefix_append_right_inj _).2 h'.ordered
  · intro hfinished
    rw [hunskipped, List.map_append, h'.whole hfinished]
  · refine List.pairwise_append.2 ⟨h.endsAtStop, h'.endsAtStop, ?_⟩
    exact fun call hcall _ _ ↦ hgoing call hcall
  · rw [h'.finished_iff]
    constructor
    · rintro ⟨call, hcall, hstop⟩
      exact ⟨call, List.mem_append_right _ hcall, hstop⟩
    · rintro ⟨call, hcall, hstop⟩
      rcases List.mem_append.1 hcall with hcall | hcall
      · exact absurd hstop (hgoing call hcall)
      · exact ⟨call, hcall, hstop⟩

/-- After a stop the places behind do not count. -/
theorem append_of_stopped (h : Visits visit places state calls (final, false))
    (places' : List (Node × List Node)) :
    Visits visit (places ++ places') state calls (final, false) where
  answered := h.answered
  ordered := by
    rw [unskipped_append_places]
    exact h.ordered.trans (List.prefix_append _ _)
  whole := fun hfinished ↦ Bool.noConfusion hfinished
  endsAtStop := h.endsAtStop
  finished_iff := h.finished_iff

/-- A single call, at a node above which nothing is skipped. -/
theorem single {node : Node} {ancestors : List Node} {answer : Visit}
    (hanswer : visit state node ancestors = (final, answer))
    (habove : ∀ above ∈ ancestors, above.id ≠ node.id) :
    Visits visit [(node, ancestors)] state [⟨node, ancestors, answer⟩]
      (final, decide (answer ≠ .stop)) := by
  have hunskipped : unskipped [⟨node, ancestors, answer⟩] [(node, ancestors)] =
      [(node, ancestors)] := by
    refine unskipped_eq_self fun place hplace above hmem hskipped ↦ ?_
    obtain rfl := List.mem_singleton.1 hplace
    obtain ⟨call, hcall, -, hsame⟩ := mem_skippedIds.1 hskipped
    obtain rfl := List.mem_singleton.1 hcall
    exact habove above hmem hsame.symm
  constructor
  · exact .cons hanswer (.nil final)
  · rw [hunskipped]
    exact List.prefix_refl _
  · rw [hunskipped]
    exact fun _ ↦ rfl
  · exact List.pairwise_singleton _ _
  · simp

/-- A node whose children are skipped stands for all nodes below it. -/
theorem skip {node : Node} {ancestors : List Node}
    (hanswer : visit state node ancestors = (final, .skipChildren))
    (habove : ∀ above ∈ ancestors, above.id ≠ node.id)
    (hbelow : ∀ place ∈ places, node ∈ place.2) :
    Visits visit ((node, ancestors) :: places) state [⟨node, ancestors, .skipChildren⟩]
      (final, true) := by
  have hsingle := single hanswer habove
  have hrest : unskipped [⟨node, ancestors, .skipChildren⟩] places = [] := by
    refine List.filter_eq_nil_iff.2 fun place hplace hall ↦ ?_
    have hnode := List.all_eq_true.1 hall node (hbelow place hplace)
    exact of_decide_eq_true hnode (mem_skippedIds.2 ⟨_, List.mem_singleton_self _, rfl, rfl⟩)
  have hunskipped : unskipped [⟨node, ancestors, .skipChildren⟩] ((node, ancestors) :: places) =
      [(node, ancestors)] := by
    change unskipped _ ([(node, ancestors)] ++ places) = _
    rw [unskipped_append_places, hrest, List.append_nil]
    exact (hsingle.whole rfl).symm
  constructor
  · exact hsingle.answered
  · rw [hunskipped]
    exact List.prefix_refl _
  · rw [hunskipped]
    exact fun _ ↦ rfl
  · exact hsingle.endsAtStop
  · exact hsingle.finished_iff

end Visits

/-! ### Traversals -/

/-- Visits some neighbours below the given ancestors, as long as the traversal goes on. -/
def walkSiblings (visit : Visitor σ) (ancestors : List Node) (siblings : List Node)
    (result : σ × Bool) : σ × Bool :=
  siblings.foldl (fun result child ↦
    if result.2 then walkBelow visit ancestors child result.1 else (result.1, false)) result

theorem walkSiblings_stopped (visit : Visitor σ) (ancestors siblings : List Node) (state : σ) :
    walkSiblings visit ancestors siblings (state, false) = (state, false) := by
  induction siblings with
  | nil => rfl
  | cons child rest ih => exact ih

theorem walkSiblings_cons (visit : Visitor σ) (ancestors rest : List Node) (child : Node)
    (state : σ) :
    walkSiblings visit ancestors (child :: rest) (state, true) =
      walkSiblings visit ancestors rest (walkBelow visit ancestors child state) := rfl

/-- What a traversal below some ancestors does: the calls it makes, noted behind those before, and
its result. -/
structure Calls (visit : Visitor σ) (places : List (Node × List Node)) (state : σ)
    (calls : List VisitCall) (result : σ × Bool)
    (recorded : List VisitCall → (σ × List VisitCall) × Bool) : Prop where
  recorded_eq : ∀ before, recorded before = ((result.1, before ++ calls), result.2)
  visits : Visits visit places state calls result

/-- Neighbours are visited one after another if each of them is visited as its places say. -/
theorem exists_calls_siblings {ancestors siblings : List Node}
    (hdistinct : ((ancestors ++ siblings.flatMap nodes).map (·.id)).Nodup)
    (hcalls : ∀ child ∈ siblings, ∀ {ancestors : List Node},
      ((ancestors ++ child.nodes).map (·.id)).Nodup → ∀ state, ∃ calls,
        Calls visit (child.paths ancestors) state calls (walkBelow visit ancestors child state)
          fun before ↦ walkBelow visit.recording ancestors child (state, before)) (state : σ) :
    ∃ calls, Calls visit (siblings.flatMap (paths ancestors)) state calls
      (walkSiblings visit ancestors siblings (state, true))
      fun before ↦ walkSiblings visit.recording ancestors siblings ((state, before), true) := by
  induction siblings generalizing state with
  | nil => exact ⟨[], fun before ↦ by rw [List.append_nil]; rfl, Visits.nil visit state⟩
  | cons child rest ih =>
    rw [List.flatMap_cons, ← List.append_assoc, List.map_append, List.nodup_append] at hdistinct
    obtain ⟨hfirst, hrest, hbehind⟩ := hdistinct
    obtain ⟨calls, hrecorded, hvisits⟩ := hcalls child List.mem_cons_self hfirst state
    rw [List.map_append] at hfirst hbehind
    obtain ⟨hancestors, -, hchild⟩ := List.nodup_append.1 hfirst
    rw [List.flatMap_cons]
    simp only [walkSiblings_cons, hrecorded]
    generalize walkBelow visit ancestors child state = result at hvisits
    obtain ⟨middle, finished⟩ := result
    cases finished with
    | false =>
      refine ⟨calls, fun before ↦ ?_, ?_⟩
      · rw [walkSiblings_stopped, walkSiblings_stopped]
      · rw [walkSiblings_stopped]
        exact hvisits.append_of_stopped _
    | true =>
      have hdistinct' : ((ancestors ++ rest.flatMap nodes).map (·.id)).Nodup := by
        rw [List.map_append]
        refine List.nodup_append.2 ⟨hancestors, hrest, fun id hid id' hid' ↦ ?_⟩
        exact hbehind id (List.mem_append_left _ hid) id' hid'
      obtain ⟨calls', hrecorded', hvisits'⟩ := ih hdistinct'
        (fun other hother ↦ hcalls other (List.mem_cons_of_mem _ hother)) middle
      refine ⟨calls ++ calls', fun before ↦ ?_, hvisits.append hvisits' ?_ ?_⟩
      · rw [hrecorded', List.append_assoc]
      · intro place hplace above habove
        refine hvisits'.not_mem_skippedIds fun place' hplace' ↦ ?_
        obtain ⟨other, hother, hplace'⟩ := List.mem_flatMap.1 hplace'
        refine hbehind _ ?_ _ (List.mem_map_of_mem (List.mem_flatMap.2
          ⟨other, hother, mem_nodes_of_mem_paths hplace'⟩))
        rw [← List.map_append]
        exact List.mem_map_of_mem (above_of_mem_paths hplace habove)
      · intro place hplace above habove
        refine hvisits.not_mem_skippedIds fun place' hplace' ↦ ?_
        have hnode' := List.mem_map_of_mem (f := (·.id)) (mem_nodes_of_mem_paths hplace')
        obtain ⟨other, hother, hplace⟩ := List.mem_flatMap.1 hplace
        rcases List.mem_append.1 (above_of_mem_paths hplace habove) with h | h
        · exact hchild _ (List.mem_map_of_mem h) _ hnode'
        · have hother' := List.mem_flatMap.2 ⟨other, hother, h⟩
          exact (hbehind _ (List.mem_append_right _ hnode') _ (List.mem_map_of_mem hother')).symm

/-- A traversal of a tree whose nodes have identities of their own. -/
theorem exists_calls (visit : Visitor σ) {ancestors : List Node} {node : Node}
    (hdistinct : ((ancestors ++ node.nodes).map (·.id)).Nodup) (state : σ) :
    ∃ calls, Calls visit (node.paths ancestors) state calls (walkBelow visit ancestors node state)
      fun before ↦ walkBelow visit.recording ancestors node (state, before) := by
  induction node using treeInduction generalizing ancestors state with
  | step node ih =>
    rw [nodes_eq, ← List.singleton_append, ← List.append_assoc] at hdistinct
    have habove : ∀ above ∈ ancestors, above.id ≠ node.id := by
      intro above hmem
      rw [List.map_append, List.map_append] at hdistinct
      have hnode := (List.nodup_append.1 (List.nodup_append.1 hdistinct).1).2.2
      exact hnode _ (List.mem_map_of_mem hmem) _ (List.mem_singleton_self _)
    rw [paths_eq]
    simp only [walkBelow_eq _ ancestors node, Visitor.recording]
    cases hanswer : visit state node ancestors with
    | mk next answer =>
      have hsingle := Visits.single hanswer habove
      cases answer with
      | stop => exact ⟨_, fun before ↦ rfl, hsingle.append_of_stopped _⟩
      | skipChildren =>
        refine ⟨_, fun before ↦ rfl, Visits.skip hanswer habove fun place hplace ↦ ?_⟩
        obtain ⟨child, -, hplace⟩ := List.mem_flatMap.1 hplace
        obtain ⟨below, habove, -⟩ := mem_paths_iff.1 hplace
        rw [habove]
        exact List.mem_append_left _ (List.mem_append_right _ (List.mem_singleton_self _))
      | descend =>
        obtain ⟨calls, hrecorded, hvisits⟩ := exists_calls_siblings hdistinct ih next
        refine ⟨⟨node, ancestors, .descend⟩ :: calls, fun before ↦ ?_, hsingle.append hvisits ?_ ?_⟩
        · have hbehind := hrecorded (before ++ [⟨node, ancestors, .descend⟩])
          rw [List.append_assoc] at hbehind
          exact hbehind
        · intro place hplace above hmem
          obtain rfl := List.mem_singleton.1 hplace
          refine hvisits.not_mem_skippedIds fun place hplace ↦ ?_
          obtain ⟨child, hchild, hplace⟩ := List.mem_flatMap.1 hplace
          have hbelow := List.mem_flatMap.2 ⟨child, hchild, mem_nodes_of_mem_paths hplace⟩
          rw [List.map_append] at hdistinct
          exact (List.nodup_append.1 hdistinct).2.2 _ (List.mem_map_of_mem
            (List.mem_append_left _ hmem)) _ (List.mem_map_of_mem hbelow)
        · simp [skippedIds]

end Visitors

/-! ### Search by identity -/

section Search

variable {root : Node}

theorem findAncestors?_eq_none_iff {target : NodeId} :
    root.findAncestors? target = none ↔ ∀ node ∈ root.nodes, node.id ≠ target := by
  rw [findAncestors?_eq, Option.map_eq_none_iff, List.find?_eq_none, ← map_fst_paths [] root,
    List.forall_mem_map]
  simp only [decide_eq_true_eq, ne_eq]

/-- Where nodes have identities of their own, the search for one finds what leads to its node. -/
theorem findAncestors?_eq_some_iff (hdistinct : (root.nodes.map (·.id)).Nodup) {target : NodeId}
    {path : List Node} :
    root.findAncestors? target = some path ↔ ∃ node, root.LeadsTo path node ∧ node.id = target := by
  constructor
  · rw [findAncestors?_eq, Option.map_eq_some_iff]
    rintro ⟨⟨node, above⟩, hfind, rfl⟩
    refine ⟨node, mem_paths_nil_iff.1 (List.mem_of_find?_eq_some hfind), ?_⟩
    have hid := List.find?_some hfind
    exact of_decide_eq_true hid
  · rintro ⟨node, hleads, rfl⟩
    exact findAncestors?_of_mem hdistinct (mem_paths_nil_iff.2 hleads)

end Search

end Node

/-! ### Packages -/

namespace PackageTree

open Node

/-- Files that were parsed, each once, into file sets that have spaces of their own. -/
def ParsedOnce (files : List SourceFile) : Prop :=
  ∃ sets : List (FileSet × List SourceFile), (sets.map (·.1.space)).Nodup ∧
    (∀ entry ∈ sets, entry.1.Parsed entry.2) ∧ files.Subperm (sets.flatMap (·.2))

/-- The nodes of a package of parsed files have identities of their own. -/
theorem distinct_of_parsedOnce {files : List SourceFile} (h : ParsedOnce files) (space : SpaceId)
    (name : String) : ((Node.package (ofFiles space name files)).nodes.map (·.id)).Nodup := by
  obtain ⟨sets, hspaces, hparsed, chosen, hchosen, hsublist⟩ := h
  have hperm : (ofFiles space name files).files.Perm chosen :=
    (List.mergeSort_perm files _).trans hchosen.symm
  refine distinct_of_numbered rfl (fun file hfile ↦ ?_) ?_
  · obtain ⟨entry, hentry, hfile⟩ := List.mem_flatMap.1 (hsublist.subset (hperm.mem_iff.1 hfile))
    exact ((hparsed entry hentry).laidOut.1 file hfile).numbered
  · refine (hperm.pairwise_iff fun hapart ↦ hapart.imp Ne.symm Ne.symm).2 (.sublist hsublist ?_)
    refine List.pairwise_flatMap.2 ⟨fun entry hentry ↦ ?_, ?_⟩
    · exact (hparsed entry hentry).laidOut.2.imp fun happart ↦ Or.inr happart.identity
    · refine (List.pairwise_map.1 hspaces).imp_of_mem fun hfirst hsecond hspace ↦ ?_
      intro file hfile other hother
      left
      rwa [((hparsed _ hfirst).laidOut.1 file hfile).space_eq,
        ((hparsed _ hsecond).laidOut.1 other hother).space_eq]

/-- A package of parsed files: its nodes have identities of their own, and they are listed parents
first, each with the nodes that lead to it from the package. A traversal calls its visitor along
that list, without the nodes below those whose children are skipped and up to the first stop, and
tells whether there was none. The search for an identity finds what leads to the node with it. -/
theorem traversals_exact {files : List SourceFile} (h : ParsedOnce files) (space : SpaceId)
    (name : String) :
    let root := Node.package (ofFiles space name files)
    (root.nodes.map (·.id)).Nodup ∧
    (root.paths []).map (·.1) = root.nodes ∧
    (∀ node path, (node, path) ∈ root.paths [] ↔ root.LeadsTo path node) ∧
    (∀ {σ : Type} (visit : Visitor σ) (state : σ), ∃ calls final finished,
      root.walk visit state = (final, finished) ∧
      root.walk visit.recording (state, []) = ((final, calls), finished) ∧
      Visits visit (root.paths []) state calls (final, finished)) ∧
    ∀ target,
      (∀ path, root.findAncestors? target = some path ↔
        ∃ node, root.LeadsTo path node ∧ node.id = target) ∧
      (root.findAncestors? target = none ↔ ∀ node ∈ root.nodes, node.id ≠ target) := by
  intro root
  have hdistinct : (root.nodes.map (·.id)).Nodup := distinct_of_parsedOnce h space name
  refine ⟨hdistinct, map_fst_paths [] root, fun node path ↦ mem_paths_nil_iff,
    fun visit state ↦ ?_, fun target ↦ ⟨fun path ↦ ?_, findAncestors?_eq_none_iff⟩⟩
  · have hwhole : (([] ++ root.nodes).map Node.id).Nodup := hdistinct
    obtain ⟨calls, hrecorded, hvisits⟩ := exists_calls visit hwhole state
    exact ⟨calls, _, _, rfl, hrecorded [], hvisits⟩
  · exact findAncestors?_eq_some_iff hdistinct

/-- The second of two files of the same text, parsed into different file sets. -/
theorem traversals_exact_twoSets : ∃ first second,
    ((FileSet.empty ⟨0⟩).parseFile "a.go" "package p\n").2 = .ok first ∧
    ((FileSet.empty ⟨1⟩).parseFile "b.go" "package p\n").2 = .ok second ∧
    ParsedOnce [first, second] ∧
    (Node.package (ofFiles ⟨2⟩ "p" [first, second])).findAncestors? second.info.id =
      some [.package (ofFiles ⟨2⟩ "p" [first, second])] := by
  have hfile : ∀ {result : Except ParseError SourceFile}, result.isOk = true →
      ∃ file, result = .ok file := by
    intro result h
    cases result with
    | error error => cases h
    | ok file => exact ⟨file, rfl⟩
  obtain ⟨first, hfirst⟩ : ∃ file, ((FileSet.empty ⟨0⟩).parseFile "a.go" "package p\n").2 =
      .ok file := hfile (by decide +kernel)
  obtain ⟨second, hsecond⟩ : ∃ file, ((FileSet.empty ⟨1⟩).parseFile "b.go" "package p\n").2 =
      .ok file := hfile (by decide +kernel)
  have hparsed : ParsedOnce [first, second] := by
    refine ⟨[(((FileSet.empty ⟨0⟩).parseFile "a.go" "package p\n").1, [first]),
      (((FileSet.empty ⟨1⟩).parseFile "b.go" "package p\n").1, [second])], ?_, ?_,
      ⟨_, List.Perm.refl _, List.Sublist.refl _⟩⟩
    · change [(⟨0⟩ : SpaceId), ⟨1⟩].Nodup
      decide
    · refine List.forall_mem_cons.2 ⟨(FileSet.Parsed.empty ⟨0⟩).parse hfirst, ?_⟩
      exact List.forall_mem_cons.2 ⟨(FileSet.Parsed.empty ⟨1⟩).parse hsecond, by simp⟩
  refine ⟨first, second, hfirst, hsecond, hparsed, ?_⟩
  obtain ⟨-, -, -, -, hsearch⟩ := traversals_exact hparsed ⟨2⟩ "p"
  have hmem : second ∈ (ofFiles ⟨2⟩ "p" [first, second]).files :=
    (List.mergeSort_perm _ _).mem_iff.2 (List.mem_cons_of_mem _ List.mem_cons_self)
  refine ((hsearch second.info.id).1 _).2
    ⟨.file second, leadsTo_cons_iff.2 ⟨rfl, .file second, ?_, ?_⟩, rfl⟩
  · exact List.mem_map_of_mem hmem
  · exact leadsTo_nil_iff.2 rfl

end PackageTree

end PackageAtlas
