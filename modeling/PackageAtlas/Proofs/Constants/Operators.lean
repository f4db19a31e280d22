import PackageAtlas.Check.OperatorRules
import PackageAtlas.Proofs.Relations.Identity
import PackageAtlas.Proofs.Resolution.Steps

/-!
Binary operators and the types that they give. An operator looks at its two operands and either
reports and has no result, or reports nothing and has the one that its rule gives it
(`exists_outcome_of_binary`).

An arithmetic operator that reports nothing gives a type of numbers or, if it adds, of texts. Typed
operands are assignable to it. For two untyped constants that is not asked: the wider one gives the
type, and the other one is assignable to it if and only if both are numbers or both are texts
(`binary_types`). So a text and a number are added without a report, and to the type of the number
the text is not assignable (`shared_text_number`).
-/

set_option autoImplicit false
set_option relaxedAutoImplicit false

namespace PackageAtlas

/-- The arithmetic operators, shifts apart. -/
def BinaryOp.arithmetic : List BinaryOp :=
  [.add, .sub, .mul, .div, .rem, .and, .or, .xor, .andNot]

theorem BinaryOp.mem_arithmetic_iff {op : BinaryOp} :
    op ∈ arithmetic ↔
      op.isComparison = false ∧ op ≠ .logAnd ∧ op ≠ .logOr ∧ op.isShift = false := by
  cases op <;> decide

/-! ### Assignment between basic types -/

namespace Store

variable {store : Store} {first second type : Ty}

/-- Two types of one sort: both of numbers, or both of texts. -/
def OneSort (store : Store) (first second : Ty) : Prop :=
  (store.isNumeric first ∧ store.isNumeric second) ∨ (store.isString first ∧ store.isString second)

theorem assignable_of_same (h : Ty.Same first second) : store.assignable first second := by
  unfold assignable
  rw [show first.identical second = true from h, Bool.or_true, Bool.true_or]

theorem exists_basic_of_isNumeric (h : store.isNumeric type) :
    ∃ kind, store.underlying type = .basic kind ∧ kind.isNumeric := by
  unfold isNumeric basic? at h
  split at h
  · exact ⟨_, ‹_›, by simpa using h⟩
  · cases h

theorem exists_basic_of_isString (h : store.isString type) :
    ∃ kind, store.underlying type = .basic kind ∧ kind.isString := by
  unfold isString basic? at h
  split at h
  · exact ⟨_, ‹_›, by simpa using h⟩
  · cases h

theorem not_isString_of_isNumeric (h : store.isNumeric type) : store.isString type = false := by
  obtain ⟨kind, hshape, hkind⟩ := exists_basic_of_isNumeric h
  unfold isString basic?
  rw [hshape]
  cases kind <;> first | rfl | cases hkind

/-- An untyped constant may become one of a type if it is of that type or fits its structure. -/
theorem assignable_untyped_iff {kind target : BasicKind} (hkind : kind.isUntyped)
    (hshape : store.underlying type = .basic target) :
    store.assignable (.basic kind) type ↔
      Ty.Same (.basic kind) type ∨ untypedFits kind (.basic target) := by
  have hinvalid : type.isInvalid = false := by
    cases type with
    | invalid => cases hshape
    | _ => rfl
  have hself : (Ty.basic kind).isInvalid = false := rfl
  simp only [assignable, Ty.Same, hinvalid, hself, hkind, hshape, Bool.false_or, if_true,
    Bool.or_eq_true]

theorem untypedFits_numeric {kind target : BasicKind} (hkind : kind.isUntyped)
    (htarget : target.isNumeric) : untypedFits kind (.basic target) = kind.isNumeric := by
  cases kind <;> first | cases hkind; done | cases target <;> first | rfl | cases htarget

theorem untypedFits_string {kind target : BasicKind} (hkind : kind.isUntyped)
    (htarget : target.isString) : untypedFits kind (.basic target) = kind.isString := by
  cases kind <;> first | cases hkind; done | cases target <;> first | rfl | cases htarget

/-- Where the kinds that fit a type are of its sort, an untyped constant may become one of the type
if and only if it is of that sort. -/
theorem assignable_iff_of_fits {sort : BasicKind → Bool} {kind target : BasicKind}
    (hkind : kind.isUntyped) (hshape : store.underlying type = .basic target) (hsort : sort target)
    (hfits : untypedFits kind (.basic target) = sort kind) :
    store.assignable (.basic kind) type ↔ sort kind := by
  rw [assignable_untyped_iff hkind hshape, hfits, or_iff_right_iff_imp]
  intro hsame
  cases Ty.same_iff.1 hsame
  cases hshape
  exact hsort

/-- An untyped constant may become a number if and only if it is one. -/
theorem assignable_numeric_iff (hfirst : first.isUntyped) (htype : store.isNumeric type) :
    store.assignable first type ↔ store.isNumeric first := by
  obtain ⟨target, hshape, htarget⟩ := exists_basic_of_isNumeric htype
  cases first with
  | basic kind =>
    exact assignable_iff_of_fits hfirst hshape htarget (untypedFits_numeric hfirst htarget)
  | _ => cases hfirst

/-- An untyped constant may become a text if and only if it is one. -/
theorem assignable_string_iff (hfirst : first.isUntyped) (htype : store.isString type) :
    store.assignable first type ↔ store.isString first := by
  obtain ⟨target, hshape, htarget⟩ := exists_basic_of_isString htype
  cases first with
  | basic kind =>
    exact assignable_iff_of_fits hfirst hshape htarget (untypedFits_string hfirst htarget)
  | _ => cases hfirst

/-- Of two untyped constants the wider type is that of one of them, so that both may become one of
it if and only if they are of one sort. -/
theorem assignable_wider_iff (hfirst : first.isUntyped) (hsecond : second.isUntyped)
    (hwider : type = first ∨ type = second) (hsort : store.isNumeric type ∨ store.isString type) :
    store.assignable first type ∧ store.assignable second type ↔ store.OneSort first second := by
  rcases hsort with htype | htype
  · have htext : ¬(store.isString first ∧ store.isString second) := by
      rintro ⟨htext, htext'⟩
      rcases hwider with rfl | rfl
      · rw [not_isString_of_isNumeric htype] at htext
        cases htext
      · rw [not_isString_of_isNumeric htype] at htext'
        cases htext'
    rw [assignable_numeric_iff hfirst htype, assignable_numeric_iff hsecond htype, OneSort,
      or_iff_left htext]
  · have hnumber : ¬(store.isNumeric first ∧ store.isNumeric second) := by
      rintro ⟨hnumber, hnumber'⟩
      rcases hwider with rfl | rfl
      · rw [not_isString_of_isNumeric hnumber] at htype
        cases htype
      · rw [not_isString_of_isNumeric hnumber'] at htype
        cases htype
    rw [assignable_string_iff hfirst htype, assignable_string_iff hsecond htype, OneSort,
      or_iff_right hnumber]

end Store

/-! ### The shared type -/

namespace CheckRule

open Check Store

variable {store : Store} {left right type : Ty} {op : BinaryOp}

theorem widerUntyped_eq_or (left right : Ty) :
    left.widerUntyped right = left ∨ left.widerUntyped right = right := by
  unfold Ty.widerUntyped
  split
  · split
    · exact .inl rfl
    · exact .inr rfl
  · exact .inr rfl

theorem isArithmetic_iff :
    isArithmetic store op type ↔ store.isNumeric type ∨ op = .add ∧ store.isString type := by
  simp [isArithmetic, or_comm]

/-- A type of numbers or texts that is identical to another one, that one is identical to. -/
theorem same_symm_of_sort (hsort : store.isNumeric left ∨ store.isString left)
    (h : Ty.Same left right) : Ty.Same right left := by
  cases left with
  | basic kind => exact (Ty.Distinct.basic kind).same_symm h
  | named name => exact (Ty.Distinct.named name).same_symm h
  | _ => rcases hsort with hsort | hsort <;> cases hsort

/-- Both operands are assignable to the type that they share, unless both are untyped and only one
of them is a number or only one of them a text. -/
theorem assignable_sharedType_iff (hshared : sharedType? store left right = some type)
    (hsort : store.isNumeric type ∨ store.isString type) :
    store.assignable left type ∧ store.assignable right type ↔
      (left.isUntyped → right.isUntyped → store.OneSort left right) := by
  have hself : store.assignable type type := assignable_of_same (.refl type)
  unfold sharedType? at hshared
  split at hshared
  case h_1 hleft hright =>
    cases hshared
    rw [assignable_wider_iff hleft hright (widerUntyped_eq_or left right) hsort]
    exact ⟨fun h _ _ ↦ h, fun h ↦ h hleft hright⟩
  case h_2 hleft hright =>
    obtain ⟨hfits, heq⟩ := Option.ite_none_right_eq_some.1 hshared
    cases heq
    exact iff_of_true ⟨hfits, hself⟩ fun _ huntyped ↦ by simp [hright] at huntyped
  case h_3 hleft hright =>
    obtain ⟨hfits, heq⟩ := Option.ite_none_right_eq_some.1 hshared
    cases heq
    exact iff_of_true ⟨hself, hfits⟩ fun huntyped ↦ by simp [hleft] at huntyped
  case h_4 hleft hright =>
    obtain ⟨hsame, heq⟩ := Option.ite_none_right_eq_some.1 hshared
    cases heq
    refine iff_of_true ⟨hself, assignable_of_same (same_symm_of_sort hsort hsame)⟩ ?_
    exact fun huntyped ↦ by simp [hleft] at huntyped

/-! ### How an operator ends -/

/-- An operator ends with nothing reported and one of its results, or with one report and none. -/
inductive Outcome (result : Operand → Prop) (s : CheckState) : Operand → CheckState → Prop
  | accepted {operand : Operand} (h : result operand) : Outcome result s operand s
  | refused (diagnostic : Diagnostic) :
    Outcome result s .invalid { s with reports := diagnostic :: s.reports }

/-- The value of an arithmetic operation on the values that its operands have. -/
def arithmeticValue? (op : BinaryOp) (left right : Option Int) : Option Int :=
  left.bind fun x ↦ right.bind fun y ↦ Constant.binary? op x y

/-- The results of a binary operator, by its rule. -/
inductive Combined (store : Store) (b : BinaryOperands) (left right : Option Int) : Operand → Prop
  | unknown (h : b.leftType.isInvalid ∨ b.rightType.isInvalid) :
    Combined store b left right .unknown
  | compared (hop : b.op.isComparison) :
    Combined store b left right (.ofValue (.basic .untypedBool))
  | joined (hop : b.op = .logAnd ∨ b.op = .logOr) :
    Combined store b left right
      (.ofValue (if b.leftType.isUntyped then b.rightType else b.leftType))
  | shifted (hop : b.op.isShift) :
    Combined store b left right (.constant b.leftType (shiftValue? b.op left right))
  | computed {type : Ty} (hop : b.op ∈ BinaryOp.arithmetic)
    (hshared : sharedType? store b.leftType b.rightType = some type)
    (htype : isArithmetic store b.op type) :
    Combined store b left right (.constant type (arithmeticValue? b.op left right))

/-- The results of a unary operator, by its rule. -/
inductive Applied (store : Store) (op : UnaryOp) (type : Ty) (value : Option Int) : Operand → Prop
  | unknown (h : type.isInvalid) : Applied store op type value .unknown
  | addressed (hop : op = .addr) : Applied store op type value (.ofValue (.pointer type))
  | negated (hop : op = .not) (htype : store.isBoolean type) :
    Applied store op type value (.ofValue type)
  | computed (hop : op ∈ [.neg, .plus, .bitNot]) (htype : store.isNumeric type) :
    Applied store op type value (.constant type (value.bind (Constant.unary? op)))

/-- However a step ends, it is one of the outcomes with some results. -/
def Judges (result : Operand → Prop) (input : CheckInput) (s : CheckState) (step : Check Operand) :
    Prop :=
  ∀ operand later, step input s = some (operand, later) → Outcome result s operand later

namespace Judges

variable {α : Type} {result : Operand → Prop} {input : CheckInput} {s : CheckState}
  {step step' : Check Operand}

theorem pure {operand : Operand} (h : result operand) : Judges result input s (pure operand) := by
  intro operand later hrun
  cases hrun
  exact .accepted h

theorem badExpr (pos : Nat) (problem : Problem) :
    Judges result input s (badExpr pos problem) := by
  intro operand later hrun
  cases hrun
  exact .refused ⟨pos, problem⟩

theorem look {look : Check α} {f : CheckInput → CheckState → α} {next : α → Check Operand}
    (hlook : Sees look f) (h : Judges result input s (next (f input s))) :
    Judges result input s (look >>= next) := by
  intro operand later hrun
  rw [run_bind_of_some (hlook input s)] at hrun
  exact h operand later hrun

theorem ite {p : Prop} [Decidable p] (h : p → Judges result input s step)
    (h' : ¬p → Judges result input s step') :
    Judges result input s (if p then step else step') := by
  split
  · exact h ‹p›
  · exact h' ‹¬p›

end Judges

section Outcomes

variable {input : CheckInput} {s : CheckState} {b : BinaryOperands} {x y : Option Int}

theorem judges_comparison (hop : b.op.isComparison) :
    Judges (Combined s.store b x y) input s (comparison b) := by
  refine .look (sees_assignable _ _) ?_
  cases s.store.assignable b.leftType b.rightType with
  | true => exact .pure (.compared hop)
  | false =>
    exact .look (sees_assignable _ _) (.ite (fun _ ↦ .pure (.compared hop)) fun _ ↦ .badExpr _ _)

theorem judges_logical (hop : b.op = .logAnd ∨ b.op = .logOr) :
    Judges (Combined s.store b x y) input s (logical b) :=
  .look sees_store (.ite (fun _ ↦ .badExpr _ _) fun _ ↦
    .ite (fun _ ↦ .badExpr _ _) fun _ ↦ .pure (.joined hop))

theorem judges_arithmetic (hop : b.op ∈ BinaryOp.arithmetic) :
    Judges (Combined s.store b x y) input s (arithmetic b x y) := by
  refine .look sees_store ?_
  cases hshared : sharedType? s.store b.leftType b.rightType with
  | none => exact .badExpr _ _
  | some type =>
    refine .ite (fun _ ↦ .badExpr _ _) fun htype ↦ ?_
    have hresult : Combined s.store b x y (.constant type (arithmeticValue? b.op x y)) :=
      .computed hop hshared (by simpa using htype)
    cases x with
    | none => exact .pure hresult
    | some x =>
      cases y with
      | none => exact .pure hresult
      | some y => exact .ite (fun _ ↦ .badExpr _ _) fun _ ↦ .pure hresult

end Outcomes

variable {c : Checker} {info : NodeInfo} {first second : Expr} {input : CheckInput}
  {s later : CheckState} {operand : Operand}

/-- A unary operator looks at its operand and then ends by its rule. -/
theorem exists_outcome_of_unary {unop : UnaryOp}
    (h : unary c info unop first input s = some (operand, later)) :
    ∃ x after, value c first input s = some (x, after) ∧
      Outcome (Applied after.store unop x.type x.value) after operand later := by
  obtain ⟨x, after, hx, h⟩ := exists_of_run_bind h
  refine ⟨x, after, hx, Judges.ite (fun hinvalid ↦ .pure (.unknown hinvalid)) (fun _ ↦ ?_) operand
    later h⟩
  refine .look sees_store ?_
  cases unop with
  | addr => exact .pure (.addressed rfl)
  | not => exact .ite (fun htype ↦ .pure (.negated rfl htype)) fun _ ↦ .badExpr _ _
  | neg | plus | bitNot =>
    exact .ite (fun htype ↦ .pure (.computed (by decide) htype)) fun _ ↦ .badExpr _ _

/-- A binary operator looks at its operands one after the other and then ends by its rule. -/
theorem exists_outcome_of_binary
    (h : binary c info op first second input s = some (operand, later)) :
    ∃ x middle y after, value c first input s = some (x, middle) ∧
      value c second input middle = some (y, after) ∧
      Outcome (Combined after.store ⟨info, op, first, second, x.type, y.type⟩ x.value y.value)
        after operand later := by
  obtain ⟨x, middle, hx, h⟩ := exists_of_run_bind h
  obtain ⟨y, after, hy, h⟩ := exists_of_run_bind h
  refine ⟨x, middle, y, after, hx, hy, ?_⟩
  refine Judges.ite (fun hinvalid ↦ ?_) (fun _ ↦ ?_) operand later h
  · exact .pure (.unknown (by simpa using hinvalid))
  · refine .ite (fun hop ↦ judges_comparison hop) fun hcomparison ↦
      .ite (fun hop ↦ judges_logical (by simpa using hop)) fun hlogical ↦
      .ite (fun hop ↦ .pure (.shifted hop)) fun hshift ↦ judges_arithmetic ?_
    rw [BinaryOp.mem_arithmetic_iff]
    simpa [and_assoc] using And.intro hcomparison (And.intro hlogical hshift)

/-! ### What an accepted operator gives -/

/-- What an arithmetic operator that reports nothing makes of two valid operands: a value of the
type that they share. -/
theorem computed_of_binary (hop : op ∈ BinaryOp.arithmetic) {x y : Operand}
    {middle after : CheckState} (hx : value c first input s = some (x, middle))
    (hy : value c second input middle = some (y, after)) (hvalid : x.type.isInvalid = false)
    (hvalid' : y.type.isInvalid = false)
    (h : binary c info op first second input s = some (operand, later))
    (hreports : later.reports = after.reports) :
    later = after ∧ operand.mode = .value ∧
      sharedType? after.store x.type y.type = some operand.type ∧
      isArithmetic after.store op operand.type := by
  obtain ⟨x', middle', y', after', hx', hy', houtcome⟩ := exists_outcome_of_binary h
  cases hx.symm.trans hx'
  cases hy.symm.trans hy'
  cases houtcome with
  | refused diagnostic => exact absurd hreports (by simp)
  | accepted hcombined =>
    cases hcombined with
    | unknown hinvalid => simp [hvalid, hvalid'] at hinvalid
    | compared hcompared => simp [BinaryOp.mem_arithmetic_iff.1 hop] at hcompared
    | joined hjoined => simp [BinaryOp.mem_arithmetic_iff.1 hop] at hjoined
    | shifted hshifted => simp [BinaryOp.mem_arithmetic_iff.1 hop] at hshifted
    | computed _ hshared htype => exact ⟨rfl, rfl, hshared, htype⟩

/-- Where an arithmetic operator reports nothing of two valid operands, its type is one of numbers
or, for an addition, of texts. Both operands are assignable to it, unless they are untyped constants
of different sorts. -/
theorem binary_types (hop : op ∈ BinaryOp.arithmetic) {x y : Operand}
    {middle after : CheckState} (hx : value c first input s = some (x, middle))
    (hy : value c second input middle = some (y, after)) (hvalid : x.type.isInvalid = false)
    (hvalid' : y.type.isInvalid = false)
    (h : binary c info op first second input s = some (operand, later))
    (hreports : later.reports = after.reports) :
    (later.store.isNumeric operand.type ∨ op = .add ∧ later.store.isString operand.type) ∧
      (later.store.assignable x.type operand.type ∧ later.store.assignable y.type operand.type ↔
        (x.type.isUntyped → y.type.isUntyped → later.store.OneSort x.type y.type)) := by
  obtain ⟨rfl, -, hshared, htype⟩ := computed_of_binary hop hx hy hvalid hvalid' h hreports
  rw [isArithmetic_iff] at htype
  exact ⟨htype, assignable_sharedType_iff hshared (htype.imp_right And.right)⟩

/-- An untyped text and an untyped number share the type of the number, on which every arithmetic
operator is defined, and to which the text is not assignable. -/
theorem shared_text_number (store : Store) (op : BinaryOp) :
    sharedType? store (.basic .untypedString) (.basic .untypedInt) = some (.basic .untypedInt) ∧
      isArithmetic store op (.basic .untypedInt) ∧
      ¬store.assignable (.basic .untypedString) (.basic .untypedInt) :=
  ⟨rfl, isArithmetic_iff.2 (.inl rfl), fun h ↦ nomatch (assignable_numeric_iff rfl rfl).1 h⟩

end CheckRule

end PackageAtlas
