import Mathlib.Data.List.Forall2
import PackageAtlas.Types.Basic

/-!
Identity of types as a relation. Types are identical if they are made in the same way of identical
parts (`same_iff`), so that every type is identical to itself (`Same.refl`) and identity can be
passed on (`Same.trans`).

Methods are compared from one side only: an interface is identical to another one with as many
methods if each of its methods is among those of the other. Where an interface has one method twice,
the other one may have another method in its place, and identity does not turn round
(`same_twice_not_symm`). It does for types in which no interface has a method twice
(`Distinct.same_symm`): no two methods are identical to the same one, so that none of the others is
left over (`exists_of_mem_others`). On those types identity is an equivalence (`equivalence_same`).
-/

set_option autoImplicit false
set_option relaxedAutoImplicit false

namespace PackageAtlas.Ty

/-! ### Types by their parts -/

/-- What holds of a type if it holds of its parts holds of all types. -/
@[elab_as_elim]
theorem induct {motive : Ty → Prop} (invalid : motive .invalid)
    (basic : ∀ kind, motive (.basic kind)) (named : ∀ name, motive (.named name))
    (pointer : ∀ element, motive element → motive (.pointer element))
    (slice : ∀ element, motive element → motive (.slice element))
    (array : ∀ length element, motive element → motive (.array length element))
    (map : ∀ key value, motive key → motive value → motive (.map key value))
    (struct : ∀ fields : List Member, (∀ field ∈ fields, motive field.type) →
      motive (.struct fields))
    (interface : ∀ methods : List Member, (∀ method ∈ methods, motive method.type) →
      motive (.interface methods))
    (func : ∀ signature : Signature, (∀ type ∈ signature.params, motive type) →
      (∀ type ∈ signature.results, motive type) → motive (.func signature))
    (tuple : ∀ types : List Ty, (∀ type ∈ types, motive type) → motive (.tuple types))
    (type : Ty) : motive type :=
  @Ty.rec motive (fun member ↦ motive member.type)
    (fun signature ↦ (∀ type ∈ signature.params, motive type) ∧
      ∀ type ∈ signature.results, motive type)
    (fun members ↦ ∀ member ∈ members, motive member.type)
    (fun types ↦ ∀ type ∈ types, motive type)
    invalid basic named pointer slice array map struct interface
    (fun signature h ↦ func signature h.1 h.2) tuple (fun _ _ _ _ h ↦ h)
    (fun _ _ hparams hresults ↦ ⟨hparams, hresults⟩) nofun
    (fun _ _ hfirst hrest ↦ List.forall_mem_cons.2 ⟨hfirst, hrest⟩) nofun
    (fun _ _ hfirst hrest ↦ List.forall_mem_cons.2 ⟨hfirst, hrest⟩) type

/-- Identity, as a relation. -/
def Same (first second : Ty) : Prop := first.identical second = true

/-- Fields of one place in identical structs. -/
structure SameField (first second : Member) : Prop where
  name : first.name = second.name
  isEmbedded : first.isEmbedded = second.isEmbedded
  type : Same first.type second.type

/-- A method among those of an identical interface. -/
structure SameMethod (first second : Member) : Prop where
  name : first.name = second.name
  type : Same first.type second.type

theorem identicalLists_iff {types types' : List Ty} :
    identicalLists types types' = true ↔ List.Forall₂ Same types types' := by
  induction types generalizing types' with
  | nil => cases types' <;> simp [identicalLists]
  | cons type types ih =>
    cases types' with
    | nil => simp [identicalLists]
    | cons type' types' =>
      rw [identicalLists, Bool.and_eq_true, ih, List.forall₂_cons]
      exact Iff.rfl

theorem identicalFields_iff {fields fields' : List Member} :
    identicalFields fields fields' = true ↔ List.Forall₂ SameField fields fields' := by
  induction fields generalizing fields' with
  | nil => cases fields' <;> simp [identicalFields]
  | cons field fields ih =>
    cases fields' with
    | nil => simp [identicalFields]
    | cons field' fields' =>
      obtain ⟨symbol, name, isEmbedded, type⟩ := field
      simp only [identicalFields, Bool.and_eq_true, beq_iff_eq, ih, List.forall₂_cons]
      exact and_congr_left' ⟨fun h ↦ ⟨h.1.1, h.1.2, h.2⟩, fun h ↦ ⟨⟨h.name, h.isEmbedded⟩, h.type⟩⟩

theorem methodsWithin_iff {methods others : List Member} :
    methodsWithin methods others = true ↔
      ∀ method ∈ methods, ∃ other ∈ others, SameMethod method other := by
  induction methods with
  | nil => simp [methodsWithin]
  | cons method methods ih =>
    obtain ⟨symbol, name, isEmbedded, type⟩ := method
    simp only [methodsWithin, Bool.and_eq_true, List.any_eq_true, beq_iff_eq, ih,
      List.forall_mem_cons]
    exact and_congr_left' (exists_congr fun other ↦ and_congr_right'
      ⟨fun h ↦ ⟨h.1, h.2⟩, fun h ↦ ⟨h.name, h.type⟩⟩)

theorem identicalSignatures_iff {first second : Signature} :
    identicalSignatures first second = true ↔
      List.Forall₂ Same first.params second.params ∧
        List.Forall₂ Same first.results second.results := by
  obtain ⟨params, results⟩ := first
  rw [identicalSignatures, Bool.and_eq_true, identicalLists_iff, identicalLists_iff]

/-- Types made in the same way of identical parts. -/
inductive Alike : Ty → Ty → Prop
  | invalid : Alike .invalid .invalid
  | basic (kind : BasicKind) : Alike (.basic kind) (.basic kind)
  | named {first second : TypeName} (symbol : first.symbol = second.symbol) :
    Alike (.named first) (.named second)
  | pointer {first second : Ty} (element : Same first second) :
    Alike (.pointer first) (.pointer second)
  | slice {first second : Ty} (element : Same first second) : Alike (.slice first) (.slice second)
  | array (length : Nat) {first second : Ty} (element : Same first second) :
    Alike (.array length first) (.array length second)
  | map {key key' value value' : Ty} (keys : Same key key') (values : Same value value') :
    Alike (.map key value) (.map key' value')
  | struct {fields fields' : List Member} (each : List.Forall₂ SameField fields fields') :
    Alike (.struct fields) (.struct fields')
  | interface {methods methods' : List Member} (length : methods.length = methods'.length)
    (within : ∀ method ∈ methods, ∃ method' ∈ methods', SameMethod method method') :
    Alike (.interface methods) (.interface methods')
  | func {first second : Signature} (params : List.Forall₂ Same first.params second.params)
    (results : List.Forall₂ Same first.results second.results) :
    Alike (.func first) (.func second)
  | tuple {types types' : List Ty} (each : List.Forall₂ Same types types') :
    Alike (.tuple types) (.tuple types')

theorem same_iff {first second : Ty} : Same first second ↔ Alike first second := by
  unfold Same
  constructor
  · intro h
    fun_cases identical first second
    all_goals simp only [identical, identicalSignatures_iff, Bool.and_eq_true, beq_iff_eq,
      Bool.false_eq_true] at h
    · exact .invalid
    · exact h ▸ .basic _
    · exact .named h
    · exact .pointer h
    · exact .slice h
    · exact h.1 ▸ .array _ h.2
    · exact .map h.1 h.2
    · exact .struct (identicalFields_iff.1 h)
    · exact .interface h.1 (methodsWithin_iff.1 h.2)
    · exact .func h.1 h.2
    · exact .tuple (identicalLists_iff.1 h)
  · intro h
    cases h with
    | invalid => rw [identical]
    | basic kind => simp [identical]
    | named symbol => simp [identical, symbol]
    | pointer element | slice element => rwa [identical]
    | array length element => rwa [identical, beq_self_eq_true, Bool.true_and]
    | map keys values => rw [identical, keys, values, Bool.and_self]
    | struct each => rw [identical, identicalFields_iff.2 each]
    | interface length within => simp [identical, length, methodsWithin_iff.2 within]
    | func params results => rw [identical, identicalSignatures_iff.2 ⟨params, results⟩]
    | tuple each => rw [identical, identicalLists_iff.2 each]

/-! ### Reflexivity and transitivity -/

theorem Same.refl (type : Ty) : Same type type := by
  induction type using induct with
  | invalid => exact same_iff.2 .invalid
  | basic kind => exact same_iff.2 (.basic kind)
  | named name => exact same_iff.2 (.named rfl)
  | pointer element ih => exact same_iff.2 (.pointer ih)
  | slice element ih => exact same_iff.2 (.slice ih)
  | array length element ih => exact same_iff.2 (.array length ih)
  | map key value ihKey ihValue => exact same_iff.2 (.map ihKey ihValue)
  | struct fields ih =>
    exact same_iff.2 (.struct (List.forall₂_same.2 fun field hfield ↦ ⟨rfl, rfl, ih field hfield⟩))
  | interface methods ih =>
    exact same_iff.2 (.interface rfl fun method hmethod ↦
      ⟨method, hmethod, rfl, ih method hmethod⟩)
  | func signature ihParams ihResults =>
    exact same_iff.2 (.func (List.forall₂_same.2 ihParams) (List.forall₂_same.2 ihResults))
  | tuple types ih => exact same_iff.2 (.tuple (List.forall₂_same.2 ih))

section Lists

variable {α : Type} {R : α → α → Prop} {first second third : List α}

theorem forall₂_trans (htrans : ∀ a ∈ first, ∀ b c, R a b → R b c → R a c)
    (h : List.Forall₂ R first second) (h' : List.Forall₂ R second third) :
    List.Forall₂ R first third := by
  induction h generalizing third with
  | nil => exact h'
  | @cons a b first second hab _ ih =>
    obtain _ | ⟨hbc, hrest⟩ := h'
    rw [List.forall_mem_cons] at htrans
    exact .cons (htrans.1 b _ hab hbc) (ih htrans.2 hrest)

theorem forall₂_symm (hsymm : ∀ a ∈ first, ∀ b, R a b → R b a)
    (h : List.Forall₂ R first second) : List.Forall₂ R second first := by
  induction h with
  | nil => exact .nil
  | @cons a b first second hab _ ih =>
    rw [List.forall_mem_cons] at hsymm
    exact .cons (hsymm.1 b hab) (ih hsymm.2)

/-- Among as many others, elements that share none of them leave none of them over. -/
theorem exists_of_mem_others {β : Type} {R : α → β → Prop} {elements : List α} {others : List β}
    (hlength : elements.length = others.length)
    (happart : elements.Pairwise fun a b ↦ ∀ other, R a other → ¬R b other)
    (h : ∀ a ∈ elements, ∃ other ∈ others, R a other) :
    ∀ other ∈ others, ∃ a ∈ elements, R a other := by
  induction elements generalizing others with
  | nil => exact List.eq_nil_of_length_eq_zero hlength.symm ▸ nofun
  | cons a elements ih =>
    rw [List.forall_mem_cons] at h
    rw [List.pairwise_cons] at happart
    obtain ⟨⟨taken, htaken, ha⟩, hrest⟩ := h
    -- none of the rest is related to `taken`, so they have theirs among the others without it
    obtain ⟨before, after, rfl⟩ := List.append_of_mem htaken
    have hlength' : elements.length = (before ++ after).length :=
      Nat.succ.inj (hlength.trans List.perm_middle.length_eq)
    have hleft : ∀ b ∈ elements, ∃ other ∈ before ++ after, R b other := by
      intro b hb
      obtain ⟨other, hother, hR⟩ := hrest b hb
      rcases List.mem_cons.1 (List.perm_middle.mem_iff.1 hother) with rfl | hmem
      · exact absurd hR (happart.1 b hb other ha)
      · exact ⟨other, hmem, hR⟩
    intro other hother
    rcases List.mem_cons.1 (List.perm_middle.mem_iff.1 hother) with rfl | hmem
    · exact ⟨a, List.mem_cons_self, ha⟩
    · obtain ⟨b, hb, hR⟩ := ih hlength' happart.2 hleft other hmem
      exact ⟨b, List.mem_cons_of_mem a hb, hR⟩

end Lists

theorem Same.trans {first second third : Ty} (h : Same first second) (h' : Same second third) :
    Same first third := by
  induction first using induct generalizing second third with
  | invalid | basic kind =>
    cases same_iff.1 h
    exact h'
  | named name =>
    cases same_iff.1 h with | named hsymbol =>
    cases same_iff.1 h' with | named hsymbol' =>
    exact same_iff.2 (.named (hsymbol.trans hsymbol'))
  | pointer element ih =>
    cases same_iff.1 h with | pointer helement =>
    cases same_iff.1 h' with | pointer helement' =>
    exact same_iff.2 (.pointer (ih helement helement'))
  | slice element ih =>
    cases same_iff.1 h with | slice helement =>
    cases same_iff.1 h' with | slice helement' =>
    exact same_iff.2 (.slice (ih helement helement'))
  | array length element ih =>
    cases same_iff.1 h with | array _ helement =>
    cases same_iff.1 h' with | array _ helement' =>
    exact same_iff.2 (.array length (ih helement helement'))
  | map key value ihKey ihValue =>
    cases same_iff.1 h with | map hkey hvalue =>
    cases same_iff.1 h' with | map hkey' hvalue' =>
    exact same_iff.2 (.map (ihKey hkey hkey') (ihValue hvalue hvalue'))
  | struct fields ih =>
    cases same_iff.1 h with | struct hfields =>
    cases same_iff.1 h' with | struct hfields' =>
    refine same_iff.2 (.struct (forall₂_trans (fun field hfield _ _ hsame hsame' ↦ ?_)
      hfields hfields'))
    exact ⟨hsame.name.trans hsame'.name, hsame.isEmbedded.trans hsame'.isEmbedded,
      ih field hfield hsame.type hsame'.type⟩
  | interface methods ih =>
    cases same_iff.1 h with | interface hlength hwithin =>
    cases same_iff.1 h' with | interface hlength' hwithin' =>
    refine same_iff.2 (.interface (hlength.trans hlength') fun method hmethod ↦ ?_)
    obtain ⟨middle, hmiddle, hsame⟩ := hwithin method hmethod
    obtain ⟨last, hlast, hsame'⟩ := hwithin' middle hmiddle
    exact ⟨last, hlast, hsame.name.trans hsame'.name, ih method hmethod hsame.type hsame'.type⟩
  | func signature ihParams ihResults =>
    cases same_iff.1 h with | func hparams hresults =>
    cases same_iff.1 h' with | func hparams' hresults' =>
    exact same_iff.2 (.func
      (forall₂_trans (fun type htype _ _ ↦ ihParams type htype) hparams hparams')
      (forall₂_trans (fun type htype _ _ ↦ ihResults type htype) hresults hresults'))
  | tuple types ih =>
    cases same_iff.1 h with | tuple htypes =>
    cases same_iff.1 h' with | tuple htypes' =>
    exact same_iff.2 (.tuple (forall₂_trans (fun type htype _ _ ↦ ih type htype) htypes htypes'))

/-! ### Symmetry -/

/-- A type in which no interface has two methods of one name and identical types. -/
inductive Distinct : Ty → Prop
  | invalid : Distinct .invalid
  | basic (kind : BasicKind) : Distinct (.basic kind)
  | named (name : TypeName) : Distinct (.named name)
  | pointer {element : Ty} (h : Distinct element) : Distinct (.pointer element)
  | slice {element : Ty} (h : Distinct element) : Distinct (.slice element)
  | array (length : Nat) {element : Ty} (h : Distinct element) : Distinct (.array length element)
  | map {key value : Ty} (hkey : Distinct key) (hvalue : Distinct value) :
    Distinct (.map key value)
  | struct {fields : List Member} (h : ∀ field ∈ fields, Distinct field.type) :
    Distinct (.struct fields)
  | interface {methods : List Member}
    (apart : methods.Pairwise fun first second ↦ ¬SameMethod first second)
    (h : ∀ method ∈ methods, Distinct method.type) : Distinct (.interface methods)
  | func {signature : Signature} (hparams : ∀ type ∈ signature.params, Distinct type)
    (hresults : ∀ type ∈ signature.results, Distinct type) : Distinct (.func signature)
  | tuple {types : List Ty} (h : ∀ type ∈ types, Distinct type) : Distinct (.tuple types)

/-- Methods told apart by the methods that they are identical to: two of one interface are not
identical to one method, if their types can be compared from both sides. -/
theorem pairwise_share_none {methods : List Member}
    (hsymm : ∀ method ∈ methods, ∀ other, Same method.type other → Same other method.type)
    (happart : methods.Pairwise fun first second ↦ ¬SameMethod first second) :
    methods.Pairwise fun first second ↦ ∀ other, SameMethod first other →
      ¬SameMethod second other := by
  refine happart.imp_of_mem fun {first second} _ hsecond hne other hfirstOther hsecondOther ↦ ?_
  refine hne ⟨hfirstOther.name.trans hsecondOther.name.symm, hfirstOther.type.trans ?_⟩
  exact hsymm second hsecond other.type hsecondOther.type

/-- Identity with a type that has no method twice turns round. -/
theorem Distinct.same_symm {first second : Ty} (hfirst : Distinct first)
    (h : Same first second) : Same second first := by
  induction hfirst generalizing second with
  | invalid | basic kind =>
    cases same_iff.1 h
    exact h
  | named name =>
    cases same_iff.1 h with | named hsymbol =>
    exact same_iff.2 (.named hsymbol.symm)
  | pointer _ ih =>
    cases same_iff.1 h with | pointer helement =>
    exact same_iff.2 (.pointer (ih helement))
  | slice _ ih =>
    cases same_iff.1 h with | slice helement =>
    exact same_iff.2 (.slice (ih helement))
  | array length _ ih =>
    cases same_iff.1 h with | array _ helement =>
    exact same_iff.2 (.array length (ih helement))
  | map _ _ ihKey ihValue =>
    cases same_iff.1 h with | map hkey hvalue =>
    exact same_iff.2 (.map (ihKey hkey) (ihValue hvalue))
  | struct _ ih =>
    cases same_iff.1 h with | struct hfields =>
    refine same_iff.2 (.struct (forall₂_symm (fun field hfield _ hsame ↦ ?_) hfields))
    exact ⟨hsame.name.symm, hsame.isEmbedded.symm, ih field hfield hsame.type⟩
  | interface happart _ ih =>
    cases same_iff.1 h with | interface hlength hwithin =>
    -- the methods of the first type have a method of their own each, so that none is left over
    have hshare := pairwise_share_none (fun method hmethod _ ↦ ih method hmethod) happart
    refine same_iff.2 (.interface hlength.symm fun other hother ↦ ?_)
    obtain ⟨method, hmethod, hsame⟩ := exists_of_mem_others hlength hshare hwithin other hother
    exact ⟨method, hmethod, hsame.name.symm, ih method hmethod hsame.type⟩
  | func _ _ ihParams ihResults =>
    cases same_iff.1 h with | func hparams hresults =>
    exact same_iff.2 (.func (forall₂_symm (fun type htype _ ↦ ihParams type htype) hparams)
      (forall₂_symm (fun type htype _ ↦ ihResults type htype) hresults))
  | tuple _ ih =>
    cases same_iff.1 h with | tuple htypes =>
    exact same_iff.2 (.tuple (forall₂_symm (fun type htype _ ↦ ih type htype) htypes))

/-- Identity is an equivalence among the types that have no method twice. -/
theorem equivalence_same :
    Equivalence fun first second : { type : Ty // Distinct type } ↦ Same first.1 second.1 where
  refl type := .refl type.1
  symm {first _} h := first.2.same_symm h
  trans h h' := h.trans h'

/-- An interface that has one method twice is identical to one with another method in its place,
and that one is not identical to it. -/
theorem same_twice_not_symm {first second third : Member} (hsame : SameMethod second first)
    (hname : third.name ≠ first.name) :
    Same (.interface [first, second]) (.interface [first, third]) ∧
      ¬Same (.interface [first, third]) (.interface [first, second]) := by
  constructor
  · refine same_iff.2 (.interface rfl ?_)
    have hfirst : SameMethod first first := ⟨rfl, .refl first.type⟩
    simp [hfirst, hsame]
  · intro h
    cases same_iff.1 h with | interface _ hwithin =>
    obtain ⟨other, hother, hthird⟩ := hwithin third (by simp)
    have hother' : other = first ∨ other = second := by simpa using hother
    rcases hother' with rfl | rfl
    · exact hname hthird.name
    · exact hname (hthird.name.trans hsame.name)

end PackageAtlas.Ty
