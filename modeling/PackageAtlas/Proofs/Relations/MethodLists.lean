import Mathlib.Data.List.Induction
import Mathlib.Data.List.Nodup
import Mathlib.Data.List.Perm.Subperm
import PackageAtlas.Check.TypeRules
import PackageAtlas.Proofs.Relations.Identity
import PackageAtlas.Proofs.Resolution.Steps

/-!
The methods of interfaces. Each element of an interface brings methods: one of its own, or those of
an interface that is embedded (`interfaceType_gathers`). The interface has the names that its
elements bring and no others (`mem_names_gather_iff`).

A method that comes with an embedded interface is passed over if its name is there, but a method of
its own is added whatever came before. So an interface has each name once if and only if none of its
elements is a method whose name was brought before it (`nodup_names_gather_iff`). The order of the
elements matters for that: `E; a()` has the method `a` of an embedded `E` twice, and `a(); E` once.
The same elements in another order make an identical interface if and only if no name is repeated in
that order either (`same_gather_perm_iff`).
-/

set_option autoImplicit false
set_option relaxedAutoImplicit false

namespace PackageAtlas

open Check CheckRule Ty

/-- What an element brings to an interface: a method of its own, or those of what it embeds. -/
inductive Contribution where
  | own (method : Member)
  | embedded (methods : List Member)

namespace Contribution

/-- The methods that an element brings, those that are there included. -/
def methods : Contribution → List Member
  | own method => [method]
  | embedded methods => methods

/-- The methods of an interface after one more element. -/
def addTo (before : List Member) : Contribution → List Member
  | own method => before ++ [method]
  | embedded inner => withEmbedded before inner

/-- The methods of an interface with some elements. -/
def gather (elements : List Contribution) : List Member := elements.foldl addTo []

/-- All that some elements bring. -/
def brought (elements : List Contribution) : List Member := elements.flatMap methods

/-- A later element is a method whose name an earlier one brings. -/
def Repeats (earlier later : Contribution) : Prop :=
  ∃ method, later = own method ∧ method.name ∈ earlier.methods.map (·.name)

/-- No element is a method whose name is brought before it. -/
def RepeatNone (elements : List Contribution) : Prop :=
  elements.Pairwise fun earlier later ↦ ¬Repeats earlier later

/-! ### Embedded methods -/

section Embedded

variable {before inner : List Member}

theorem withEmbedded_cons (method : Member) :
    withEmbedded before (method :: inner) = withEmbedded
      (if before.any (·.name == method.name) then before else before ++ [method]) inner :=
  rfl

theorem any_name_iff {name : String} :
    before.any (·.name == name) = true ↔ name ∈ before.map (·.name) := by
  simp only [List.any_eq_true, beq_iff_eq, List.mem_map]

theorem mem_names_withEmbedded_iff {name : String} :
    name ∈ (withEmbedded before inner).map (·.name) ↔
      name ∈ before.map (·.name) ∨ name ∈ inner.map (·.name) := by
  induction inner generalizing before with
  | nil => simp [withEmbedded]
  | cons method inner ih =>
    rw [withEmbedded_cons, ih]
    split
    · have hthere := any_name_iff.1 ‹_›
      rw [List.map_cons, List.mem_cons]
      constructor
      · exact Or.imp_right Or.inr
      · rintro (h | rfl | h)
        · exact Or.inl h
        · exact Or.inl hthere
        · exact Or.inr h
    · simp [or_assoc]

theorem mem_of_mem_withEmbedded {method : Member} (h : method ∈ withEmbedded before inner) :
    method ∈ before ∨ method ∈ inner := by
  induction inner generalizing before with
  | nil => exact Or.inl h
  | cons other inner ih =>
    rw [withEmbedded_cons] at h
    rcases ih h with h | h
    · split at h
      · exact Or.inl h
      · rcases List.mem_append.1 h with h | h
        · exact Or.inl h
        · exact Or.inr (List.mem_singleton.1 h ▸ List.mem_cons_self)
    · exact Or.inr (List.mem_cons_of_mem other h)

theorem nodup_names_concat_iff {method : Member} :
    ((before ++ [method]).map (·.name)).Nodup ↔
      (before.map (·.name)).Nodup ∧ method.name ∉ before.map (·.name) := by
  rw [List.map_append, List.map_singleton, List.nodup_append_comm]
  exact List.nodup_cons.trans and_comm

/-- Embedding brings no name twice. -/
theorem nodup_names_withEmbedded_iff :
    ((withEmbedded before inner).map (·.name)).Nodup ↔ (before.map (·.name)).Nodup := by
  induction inner generalizing before with
  | nil => rfl
  | cons method inner ih =>
    rw [withEmbedded_cons, ih]
    split
    · rfl
    · have hnew := mt any_name_iff.2 ‹_›
      rw [nodup_names_concat_iff, and_iff_left hnew]

end Embedded

/-! ### All elements -/

section Gathered

variable {elements : List Contribution}

theorem gather_concat (elements : List Contribution) (last : Contribution) :
    gather (elements ++ [last]) = addTo (gather elements) last :=
  List.foldl_concat addTo [] last elements

theorem mem_names_brought_iff {name : String} :
    name ∈ (brought elements).map (·.name) ↔
      ∃ element ∈ elements, name ∈ element.methods.map (·.name) := by
  rw [brought, List.map_flatMap, List.mem_flatMap]

theorem repeats_own_iff {earlier : Contribution} {method : Member} :
    Repeats earlier (own method) ↔ method.name ∈ earlier.methods.map (·.name) :=
  ⟨fun ⟨_, heq, hname⟩ ↦ own.inj heq ▸ hname, fun hname ↦ ⟨method, rfl, hname⟩⟩

/-- An interface has the names that its elements bring. -/
theorem mem_names_gather_iff {name : String} :
    name ∈ (gather elements).map (·.name) ↔ name ∈ (brought elements).map (·.name) := by
  induction elements using List.reverseRecOn with
  | nil => rfl
  | append_singleton elements last ih =>
    rw [gather_concat]
    cases last with
    | own method => simp_all [addTo, brought, methods]
    | embedded inner =>
      rw [addTo, mem_names_withEmbedded_iff, ih]
      simp [brought, methods]

theorem mem_brought_of_mem_gather {method : Member} (h : method ∈ gather elements) :
    method ∈ brought elements := by
  induction elements using List.reverseRecOn with
  | nil => exact h
  | append_singleton elements last ih =>
    rw [gather_concat] at h
    rw [brought, List.flatMap_append, List.mem_append, List.flatMap_singleton]
    cases last with
    | own other => exact (List.mem_append.1 h).imp_left ih
    | embedded inner => exact (mem_of_mem_withEmbedded h).imp_left ih

/-- An interface has each name once if no element is a method whose name is brought before it, and
only then. -/
theorem nodup_names_gather_iff :
    ((gather elements).map (·.name)).Nodup ↔ RepeatNone elements := by
  induction elements using List.reverseRecOn with
  | nil => exact iff_of_true List.nodup_nil List.Pairwise.nil
  | append_singleton elements last ih =>
    have hconcat : RepeatNone (elements ++ [last]) ↔
        RepeatNone elements ∧ ∀ earlier ∈ elements, ¬Repeats earlier last := by
      simp [RepeatNone, List.pairwise_append]
    rw [gather_concat, hconcat]
    cases last with
    | own method =>
      rw [addTo, nodup_names_concat_iff, ih, mem_names_gather_iff, mem_names_brought_iff]
      simp only [repeats_own_iff, not_exists, not_and]
    | embedded inner =>
      have hrepeats : ∀ earlier ∈ elements, ¬Repeats earlier (embedded inner) :=
        fun earlier _ ⟨method, hmethod, _⟩ ↦ by cases hmethod
      rw [addTo, nodup_names_withEmbedded_iff, ih, and_iff_left hrepeats]

/-- With parts that can be compared from both sides, an interface without repeated methods can. -/
theorem distinct_gather (h : RepeatNone elements)
    (hdistinct : ∀ method ∈ brought elements, Distinct method.type) :
    Distinct (.interface (gather elements)) := by
  refine .interface ?_ fun method hmethod ↦ hdistinct method (mem_brought_of_mem_gather hmethod)
  have hnames := List.pairwise_map.1 (nodup_names_gather_iff.2 h)
  exact hnames.imp fun hne hsame ↦ hne hsame.name

/-- Other elements bring the same names, and methods of one name have identical types. If an
interface repeats no method, one with the other elements is identical to it if it repeats none
either, and only then. -/
theorem same_gather_iff {others : List Contribution} (h : RepeatNone elements)
    (hnames : ∀ name, name ∈ (brought elements).map (·.name) ↔
      name ∈ (brought others).map (·.name))
    (htypes : ∀ method ∈ brought elements, ∀ other ∈ brought others, method.name = other.name →
      Same method.type other.type) :
    Same (.interface (gather elements)) (.interface (gather others)) ↔ RepeatNone others := by
  have hnodup := nodup_names_gather_iff.2 h
  have hiff : ∀ name, name ∈ (gather elements).map (·.name) ↔
      name ∈ (gather others).map (·.name) := by
    intro name
    rw [mem_names_gather_iff, mem_names_gather_iff, hnames]
  constructor
  · intro hsame
    cases same_iff.1 hsame with | interface hlength hwithin =>
    -- as many methods, and all the different names among theirs: no room for a repeated one
    have hsub := List.subperm_of_subset hnodup fun name ↦ (hiff name).1
    refine nodup_names_gather_iff.1 ((hsub.perm_of_length_le ?_).nodup_iff.1 hnodup)
    rw [List.length_map, List.length_map]
    exact Nat.le_of_eq hlength.symm
  · intro h'
    have hperm := (List.perm_ext_iff_of_nodup hnodup (nodup_names_gather_iff.2 h')).2 hiff
    have hlength : (gather elements).length = (gather others).length := by
      simpa using hperm.length_eq
    refine same_iff.2 (.interface hlength fun method hmethod ↦ ?_)
    obtain ⟨other, hother, hname⟩ := List.mem_map.1 ((hiff _).1 (List.mem_map_of_mem hmethod))
    exact ⟨other, hother, hname.symm, htypes method (mem_brought_of_mem_gather hmethod) other
      (mem_brought_of_mem_gather hother) hname.symm⟩

/-- The elements of an interface in another order. -/
theorem same_gather_perm_iff {others : List Contribution} (hperm : elements.Perm others)
    (h : RepeatNone elements)
    (htypes : ∀ method ∈ brought elements, ∀ other ∈ brought elements, method.name = other.name →
      Same method.type other.type) :
    Same (.interface (gather elements)) (.interface (gather others)) ↔ RepeatNone others := by
  have hbrought : (brought elements).Perm (brought others) := hperm.flatMap_right methods
  refine same_gather_iff h (fun name ↦ (hbrought.map (·.name)).mem_iff)
    fun method hmethod other hother ↦ ?_
  exact htypes method hmethod other (hbrought.mem_iff.2 hother)

example : (gather [own ⟨⟨7⟩, "a", false, .func ⟨[], []⟩⟩,
      embedded [⟨⟨8⟩, "a", false, .func ⟨[], []⟩⟩]]).map (·.name) = ["a"] ∧
    (gather [embedded [⟨⟨8⟩, "a", false, .func ⟨[], []⟩⟩],
      own ⟨⟨7⟩, "a", false, .func ⟨[], []⟩⟩]).map (·.name) = ["a", "a"] := by
  decide

end Gathered

/-! ### Interface types of a check -/

/-- A step gives a result, from some state. -/
def Gives {α : Type} (input : CheckInput) (step : Check α) (a : α) : Prop :=
  ∃ s later, step input s = some (a, later)

/-- What an element of an interface type brings to it. What has failed, or is no interface, is as if
it had no methods. -/
inductive Brings (c : Checker) (input : CheckInput) (element : Field) : Contribution → Prop
  | own {name : Ident} {others : List Ident} (names : element.names = name :: others) {type : Ty}
    (htype : Gives input (c.typeExpr element.type) type) (id : SymbolId) :
    Brings c input element (own ⟨id, name.name, false, type⟩)
  | embedded (names : element.names = []) {type : Ty} {inner : List Member}
    (htype : Gives input (c.typeExpr element.type) type)
    (hshape : Gives input (c.underlying type) (.interface inner)) :
    Brings c input element (embedded inner)
  | failed (names : element.names = []) {type shape : Ty}
    (htype : Gives input (c.typeExpr element.type) type)
    (hshape : Gives input (c.underlying type) shape) (hno : ∀ inner, shape ≠ .interface inner) :
    Brings c input element (embedded [])

theorem foldlM_gathers {c : Checker} {input : CheckInput}
    {step : List Member → Field → Check (List Member)}
    (hstep : ∀ before element after s later, step before element input s = some (after, later) →
      ∃ contribution, Brings c input element contribution ∧ after = addTo before contribution)
    {elements : List Field} {before after : List Member} {s later : CheckState}
    (h : elements.foldlM step before input s = some (after, later)) :
    ∃ contributions, List.Forall₂ (Brings c input) elements contributions ∧
      after = contributions.foldl addTo before := by
  induction elements generalizing before s with
  | nil =>
    cases h
    exact ⟨[], .nil, rfl⟩
  | cons element elements ih =>
    rw [List.foldlM_cons] at h
    obtain ⟨next, middle, hnext, hrest⟩ := exists_of_run_bind h
    obtain ⟨contribution, hbrings, rfl⟩ := hstep before element next s middle hnext
    obtain ⟨contributions, hall, rfl⟩ := ih hrest
    exact ⟨contribution :: contributions, .cons hbrings hall, rfl⟩

/-- An interface type has the methods that its elements bring. -/
theorem interfaceType_gathers {c : Checker} {input : CheckInput} {elements : List Field} {type : Ty}
    {s later : CheckState} (h : interfaceType c elements input s = some (type, later)) :
    ∃ contributions, List.Forall₂ (Brings c input) elements contributions ∧
      type = .interface (gather contributions) := by
  unfold interfaceType at h
  obtain ⟨methods, middle, hmethods, hpure⟩ := exists_of_run_bind h
  cases hpure
  refine (foldlM_gathers (c := c) (fun before element after s later hstep ↦ ?_) hmethods).imp
    fun _ ⟨hall, hgathered⟩ ↦ ⟨hall, congrArg Ty.interface hgathered⟩
  obtain ⟨type, s₁, htype, hadd⟩ := exists_of_run_bind hstep
  have hgives : Gives input (c.typeExpr element.type) type := ⟨s, s₁, htype⟩
  cases hnames : element.names with
  | cons name others =>
    simp only [hnames] at hadd
    rw [run_bind_of_some (sees_declared .func name input s₁)] at hadd
    obtain ⟨id, s₂, hid, hadd⟩ := exists_of_run_bind hadd
    obtain ⟨_, s₃, hdef, hadd⟩ := exists_of_run_bind hadd
    cases hadd
    exact ⟨_, .own hnames hgives id, rfl⟩
  | nil =>
    simp only [hnames] at hadd
    obtain ⟨shape, s₂, hshape, hadd⟩ := exists_of_run_bind hadd
    have hgivesShape : Gives input (c.underlying type) shape := ⟨s₁, s₂, hshape⟩
    by_cases hinner : ∃ inner, shape = .interface inner
    · obtain ⟨inner, rfl⟩ := hinner
      cases hadd
      exact ⟨_, .embedded hnames hgives hgivesShape, rfl⟩
    · refine ⟨_, .failed hnames hgives hgivesShape fun inner heq ↦ hinner ⟨inner, heq⟩, ?_⟩
      split at hadd
      · exact absurd ⟨_, rfl⟩ hinner
      · cases hadd
        rfl
      · obtain ⟨_, s₃, hreport, hadd⟩ := exists_of_run_bind hadd
        cases hadd
        rfl

/-- An interface type has the names that its elements bring and no others, and each of them once if
no element is a method whose name is brought before it, and only then. -/
theorem interfaceType_names {c : Checker} {input : CheckInput} {elements : List Field} {type : Ty}
    {s later : CheckState} (h : interfaceType c elements input s = some (type, later)) :
    ∃ contributions methods, List.Forall₂ (Brings c input) elements contributions ∧
      type = .interface methods ∧
      (∀ name, name ∈ methods.map (·.name) ↔ name ∈ (brought contributions).map (·.name)) ∧
      ((methods.map (·.name)).Nodup ↔ RepeatNone contributions) := by
  obtain ⟨contributions, hall, htype⟩ := interfaceType_gathers h
  exact ⟨contributions, gather contributions, hall, htype, fun _ ↦ mem_names_gather_iff,
    nodup_names_gather_iff⟩

end Contribution

end PackageAtlas
