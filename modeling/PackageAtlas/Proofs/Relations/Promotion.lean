import PackageAtlas.Proofs.Naming.Declarations

/-!
Members of embedded types. A type has the members that it declares and, through its embedded fields,
those of other types. The search for a name goes through the embedded fields in order, each to the
end before the next one, and through no more of them in a row than `Store.maxEmbedding`. So it finds
a member if and only if a path no longer than that leads to a type that declares one, and what it
finds is declared at the end of such a path (`memberWithin?_eq_none_iff`,
`exists_embeds_of_memberWithin?`).

The field that comes first may lead to the name on a detour, past a shorter path from a field behind
it (`detour_misses`). Where no embedded field overtakes an earlier one in this way, what is found is
declared at the least depth (`member?_promotes`).
-/

set_option autoImplicit false
set_option relaxedAutoImplicit false

namespace PackageAtlas.Store

/-! ### What types declare -/

/-- The fields or methods that a structure lists. -/
def shapeMembers : Ty → List Member
  | .struct fields => fields
  | .interface methods => methods
  | _ => []

/-- The methods of a defined type. -/
def ownMethods (store : Store) : Ty → List SymbolId
  | .named name => (store.get name.symbol).methods
  | _ => []

/-- What a type declares under a name, itself or behind one pointer: its methods, then the fields or
methods of its structure. -/
def declarations (store : Store) (name : String) (type : Ty) : List SymbolId :=
  (store.ownMethods (memberBase type)).filter (fun method ↦ (store.get method).name == name) ++
    ((shapeMembers (store.underlying (memberBase type))).filter (·.name == name)).map (·.symbol)

/-- The embedded fields of the struct that a type is, itself or behind one pointer. -/
def embedded (store : Store) (type : Ty) : List Member :=
  match store.underlying (memberBase type) with
  | .struct fields => fields.filter (·.isEmbedded)
  | _ => []

/-- So many embedded fields lead from one type to another. -/
inductive Embeds (store : Store) : Nat → Ty → Ty → Prop
  | here (type : Ty) : Embeds store 0 type type
  | step {type last : Ty} {steps : Nat} {field : Member} (hfield : field ∈ store.embedded type)
    (hrest : Embeds store steps field.type last) : Embeds store (steps + 1) type last

/-- So many embedded fields lead from a type to one that declares a name. -/
def LeadsIn (store : Store) (name : String) (steps : Nat) (type : Ty) : Prop :=
  ∃ last, store.Embeds steps type last ∧ store.declarations name last ≠ []

/-- A field leads to a name on a shorter path than any path of another field that leads there. -/
def Overtakes (store : Store) (name : String) (later earlier : Member) : Prop :=
  (∃ steps, store.LeadsIn name steps earlier.type) ∧
    ∃ less, store.LeadsIn name less later.type ∧
      ∀ steps, store.LeadsIn name steps earlier.type → less < steps

/-- Among the embedded fields of each struct that a type leads to, none overtakes an earlier one on
the way to a name that the struct does not declare itself. -/
def Orderly (store : Store) (name : String) (type : Ty) : Prop :=
  ∀ steps last, store.Embeds steps type last → store.declarations name last = [] →
    (store.embedded last).Pairwise fun earlier later ↦ ¬store.Overtakes name later earlier

variable {store : Store} {name : String} {type : Ty} {id : SymbolId}

theorem leadsIn_zero_iff : store.LeadsIn name 0 type ↔ store.declarations name type ≠ [] :=
  ⟨fun ⟨_, .here _, hdeclares⟩ ↦ hdeclares, fun hdeclares ↦ ⟨type, .here type, hdeclares⟩⟩

theorem leadsIn_succ_iff {steps : Nat} : store.LeadsIn name (steps + 1) type ↔
    ∃ field ∈ store.embedded type, store.LeadsIn name steps field.type := by
  constructor
  · rintro ⟨last, hpath, hdeclares⟩
    cases hpath with
    | step hfield hrest => exact ⟨_, hfield, last, hrest, hdeclares⟩
  · rintro ⟨field, hfield, last, hrest, hdeclares⟩
    exact ⟨last, .step hfield hrest, hdeclares⟩

instance decidableLeadsIn (store : Store) (name : String) :
    ∀ (steps : Nat) (type : Ty), Decidable (store.LeadsIn name steps type)
  | 0, _ => decidable_of_iff _ leadsIn_zero_iff.symm
  | steps + 1, _ =>
    have := decidableLeadsIn store name steps
    decidable_of_iff _ leadsIn_succ_iff.symm

theorem Orderly.field (h : store.Orderly name type) {field : Member}
    (hfield : field ∈ store.embedded type) : store.Orderly name field.type :=
  fun steps last hpath ↦ h (steps + 1) last (.step hfield hpath)

/-! ### The search -/

theorem ownMethod?_eq_find? : store.ownMethod? name type =
    (store.ownMethods type).find? fun method ↦ (store.get method).name == name := by
  cases type <;> rfl

/-- The search takes the first declaration of the type, and goes through its embedded fields if
there is none. -/
theorem memberWithin?_eq (depth : Nat) : store.memberWithin? name depth type =
    (store.declarations name type).head?.or
      (match depth with
      | 0 => none
      | depth + 1 => (store.embedded type).findSome? fun field ↦
          store.memberWithin? name depth field.type) := by
  rw [declarations, List.head?_append, List.head?_map, List.head?_filter, List.head?_filter,
    ← ownMethod?_eq_find?, Option.or_assoc, memberWithin?.eq_def, embedded]
  dsimp only
  cases store.ownMethod? name (memberBase type) with
  | some method => rfl
  | none =>
    cases store.underlying (memberBase type) with
    | struct fields =>
      cases hfield : fields.find? (·.name == name) with
      | some field => simp [shapeMembers, hfield]
      | none => cases depth <;> simp [shapeMembers, hfield]
    | interface methods => cases depth <;> simp [shapeMembers]
    | _ => cases depth <;> rfl

theorem memberWithin?_of_declares {first : SymbolId}
    (h : (store.declarations name type).head? = some first) (depth : Nat) :
    store.memberWithin? name depth type = some first := by
  rw [memberWithin?_eq, h, Option.some_or]

theorem memberWithin?_succ (h : store.declarations name type = []) (depth : Nat) :
    store.memberWithin? name (depth + 1) type = (store.embedded type).findSome? fun field ↦
      store.memberWithin? name depth field.type := by
  rw [memberWithin?_eq, h, List.head?_nil, Option.none_or]

/-- The search finds nothing if no path that is short enough leads to the name, and only then. -/
theorem memberWithin?_eq_none_iff {depth : Nat} : store.memberWithin? name depth type = none ↔
    ∀ steps ≤ depth, ¬store.LeadsIn name steps type := by
  induction depth generalizing type with
  | zero =>
    rw [memberWithin?_eq, Option.or_none, List.head?_eq_none_iff]
    simp only [Nat.le_zero, forall_eq, leadsIn_zero_iff, not_not]
  | succ depth ih =>
    have hfields : ((store.embedded type).findSome? fun field ↦
          store.memberWithin? name depth field.type) = none ↔
        ∀ steps ≤ depth, ¬store.LeadsIn name (steps + 1) type := by
      simp only [List.findSome?_eq_none_iff, ih, leadsIn_succ_iff, not_exists, not_and]
      exact ⟨fun h steps hsteps field hfield ↦ h field hfield steps hsteps,
        fun h field hfield steps hsteps ↦ h steps hsteps field hfield⟩
    rw [memberWithin?_eq, Option.or_eq_none_iff, hfields, List.head?_eq_none_iff]
    constructor
    · rintro ⟨hnone, hlater⟩ steps hsteps
      cases steps with
      | zero => exact leadsIn_zero_iff.not_left.2 hnone
      | succ steps => exact hlater steps (Nat.le_of_succ_le_succ hsteps)
    · intro h
      exact ⟨leadsIn_zero_iff.not_left.1 (h 0 (Nat.zero_le _)),
        fun steps hsteps ↦ h (steps + 1) (Nat.succ_le_succ hsteps)⟩

/-- What the search finds is declared at the end of a path that is short enough. If no field
overtakes another one on the way, no path to the name is shorter than that. -/
theorem exists_embeds_of_memberWithin? {depth : Nat}
    (h : store.memberWithin? name depth type = some id) :
    ∃ steps ≤ depth, ∃ last, store.Embeds steps type last ∧ id ∈ store.declarations name last ∧
      (store.Orderly name type → ∀ others, store.LeadsIn name others type → steps ≤ others) := by
  induction depth generalizing type with
  | zero =>
    rw [memberWithin?_eq, Option.or_none] at h
    exact ⟨0, Nat.le_refl 0, type, .here type, List.mem_of_mem_head? h,
      fun _ others _ ↦ Nat.zero_le others⟩
  | succ depth ih =>
    cases hdeclares : store.declarations name type with
    | cons first rest =>
      rw [memberWithin?_of_declares (congrArg List.head? hdeclares)] at h
      cases h
      exact ⟨0, Nat.zero_le _, type, .here type, hdeclares ▸ List.mem_cons_self,
        fun _ others _ ↦ Nat.zero_le others⟩
    | nil =>
      rw [memberWithin?_succ hdeclares, List.findSome?_eq_some_iff] at h
      obtain ⟨earlier, field, later, hfields, hfound, hearlier⟩ := h
      obtain ⟨steps, hsteps, last, hpath, hid, hleast⟩ := ih hfound
      have hfield : field ∈ store.embedded type := by
        rw [hfields]
        exact List.mem_append_right _ List.mem_cons_self
      refine ⟨steps + 1, Nat.succ_le_succ hsteps, last, .step hfield hpath, hid,
        fun horderly others hothers ↦ ?_⟩
      have hleast := hleast (horderly.field hfield)
      cases others with
      | zero => exact absurd hdeclares (leadsIn_zero_iff.1 hothers)
      | succ others =>
        obtain ⟨other, hother, hothers⟩ := leadsIn_succ_iff.1 hothers
        refine Nat.succ_le_succ ?_
        rw [hfields, List.mem_append, List.mem_cons] at hother
        rcases hother with hother | rfl | hother
        · -- the search went through the earlier fields in vain: their paths are longer
          have hnone := memberWithin?_eq_none_iff.1 (hearlier other hother) others
          exact Nat.le_of_not_le fun hle ↦ hnone (hle.trans hsteps) hothers
        · exact hleast others hothers
        · have hpairs := horderly 0 type (.here type) hdeclares
          rw [hfields, List.pairwise_append, List.pairwise_cons] at hpairs
          by_contra hlt
          refine hpairs.2.1.1 other hother ⟨⟨steps, last, hpath, List.ne_nil_of_mem hid⟩, others,
            hothers, fun steps' hsteps' ↦ ?_⟩
          exact (Nat.lt_of_not_le hlt).trans_le (hleast steps' hsteps')

/-- A type has a member of a name if and only if a path of embedded fields, no longer than the
search goes, leads to a type that declares one; the member is declared at the end of such a path,
and at the least depth unless a field overtakes an earlier one on the way. -/
theorem member?_promotes (store : Store) (type : Ty) (name : String) :
    ((store.member? type name).isSome ↔ ∃ steps ≤ maxEmbedding, store.LeadsIn name steps type) ∧
    ∀ id ∈ store.member? type name, ∃ steps ≤ maxEmbedding, ∃ last,
      store.Embeds steps type last ∧ id ∈ store.declarations name last ∧
        (store.Orderly name type → ∀ others, store.LeadsIn name others type → steps ≤ others) := by
  constructor
  · rw [← Option.not_isNone, Bool.not_eq_true', ← Bool.not_eq_true, Option.isNone_iff_eq_none,
      member?, memberWithin?_eq_none_iff]
    push Not
    rfl
  · intro id hid
    exact exists_embeds_of_memberWithin? hid

/-! ### Detours -/

/-- A type has a member of a name if any path leads to one. -/
def FindsAll (store : Store) (name : String) (type : Ty) : Prop :=
  (store.member? type name).isSome ↔ ∃ steps, store.LeadsIn name steps type

/-- A member that is found is declared at the least depth. -/
def FindsLeast (store : Store) (name : String) (type : Ty) : Prop :=
  ∀ id ∈ store.member? type name, ∃ steps last, store.Embeds steps type last ∧
    id ∈ store.declarations name last ∧ ∀ others, store.LeadsIn name others type → steps ≤ others

/-- The member that is found is declared neither by a type nor by one that it embeds. -/
def FindsDeep (store : Store) (name : String) (type : Ty) : Bool :=
  (store.member? type name).any fun id ↦ !(store.declarations name type).contains id &&
    (store.embedded type).all fun field ↦ !(store.declarations name field.type).contains id

theorem not_findsLeast (hdeep : store.FindsDeep name type = true)
    (hnear : store.LeadsIn name 1 type) : ¬store.FindsLeast name type := by
  intro h
  obtain ⟨id, hid, hdeep⟩ := (Option.any_eq_true ..).1 hdeep
  simp only [Bool.and_eq_true, Bool.not_eq_true', List.all_eq_true, List.contains_eq_mem,
    decide_eq_false_iff_not] at hdeep
  obtain ⟨steps, last, hpath, hdeclared, hleast⟩ := h id hid
  cases hpath with
  | here => exact hdeep.1 hdeclared
  | step hfield hrest =>
    obtain rfl : _ = 0 := Nat.eq_zero_of_le_zero (Nat.le_of_succ_le_succ (hleast 1 hnear))
    cases hrest
    exact hdeep.2 _ hfield hdeclared

/-- Ten types that embed one another in a row, and a struct that embeds two types, the first of
which embeds one with a field that the second one has itself. -/
def detourText : String :=
  "package p\n\ntype A struct \x7b\n\tB\n\tC\n\x7d\n\ntype B struct \x7b\n\tD\n\x7d\n\n" ++
  "type C struct \x7b\n\tx int\n\x7d\n\ntype D struct \x7b\n\tx string\n\x7d\n\n" ++
  "type E0 struct\x7b E1 \x7d\n\ntype E1 struct\x7b E2 \x7d\n\n" ++
  "type E2 struct\x7b E3 \x7d\n\ntype E3 struct\x7b E4 \x7d\n\n" ++
  "type E4 struct\x7b E5 \x7d\n\ntype E5 struct\x7b E6 \x7d\n\n" ++
  "type E6 struct\x7b E7 \x7d\n\ntype E7 struct\x7b E8 \x7d\n\n" ++
  "type E8 struct\x7b E9 \x7d\n\ntype E9 struct\x7b x int \x7d\n"

/-- The field behind nine embedded fields is not found, and of two fields of one name the deeper one
is. -/
theorem detour_misses : ∃ (file : SourceFile) (checked : Checked) (row split : SymbolId),
    ((FileSet.empty ⟨0⟩).parseFile "a.go" detourText).2 = .ok file ∧
    checkFiles ⟨"p", ⟨0⟩, RawPackage.importNothing, true⟩ [file] Universe.store = some checked ∧
    checked.diagnostics = [] ∧ checked.scope.find? "E0" = some row ∧
    checked.scope.find? "A" = some split ∧
    ¬checked.store.FindsAll "x" (checked.store.typeOf row) ∧
    ¬checked.store.FindsLeast "x" (checked.store.typeOf split) := by
  have hrun : (((FileSet.empty ⟨0⟩).parseFile "a.go" detourText).2.toOption.bind fun file ↦
      (checkFiles ⟨"p", ⟨0⟩, RawPackage.importNothing, true⟩ [file] Universe.store).bind
        fun checked ↦ (checked.scope.find? "E0").bind fun row ↦
          (checked.scope.find? "A").map fun split ↦
            (checked.diagnostics.isEmpty,
              (checked.store.member? (checked.store.typeOf row) "x").isSome,
              decide (checked.store.LeadsIn "x" 9 (checked.store.typeOf row)),
              checked.store.FindsDeep "x" (checked.store.typeOf split),
              decide (checked.store.LeadsIn "x" 1 (checked.store.typeOf split)))) =
      some (true, false, true, true, true) := by
    decide +kernel
  obtain ⟨file, hfile, hrun⟩ := Option.bind_eq_some_iff.1 hrun
  obtain ⟨checked, hchecked, hrun⟩ := Option.bind_eq_some_iff.1 hrun
  obtain ⟨row, hrow, hrun⟩ := Option.bind_eq_some_iff.1 hrun
  obtain ⟨split, hsplit, hrun⟩ := Option.map_eq_some_iff.1 hrun
  simp only [Prod.mk.injEq, decide_eq_true_eq] at hrun
  obtain ⟨hclean, hmissed, hfar, hdeep, hnear⟩ := hrun
  refine ⟨file, checked, row, split, eq_ok_of_toOption hfile, hchecked, List.isEmpty_iff.1 hclean,
    hrow, hsplit, fun hall ↦ ?_, not_findsLeast hdeep hnear⟩
  exact Bool.false_ne_true (hmissed.symm.trans (hall.2 ⟨9, hfar⟩))

end PackageAtlas.Store
