import PackageAtlas.Check.Package
import PackageAtlas.Proofs.Constants.Arithmetic
import PackageAtlas.Proofs.Constants.Operators

/-!
The values of integer expressions. An integer expression is made of integer literals by parentheses
and by the operators on integers. Its exact value is the one in numbers without bounds
(`Expr.exactValue?`). Where a check gives the expression a value, that is the exact one and it fits,
if each shift to the left in the expression fits (`exact_of_gives`). The condition is needed: a
shift to the left keeps the low bits of its exact value, so that the value that it is given is exact
if and only if it fits (`gives_shiftLeft`).
-/

set_option autoImplicit false
set_option relaxedAutoImplicit false

namespace PackageAtlas

open Literal CheckRule

/-! ### Integer expressions -/

/-- The number that the characters of an integer literal write. -/
def Literal.numberOf? : List Char → Option Nat
  | '0' :: 'x' :: digits => natOfDigits? 16 digits
  | '0' :: 'X' :: digits => natOfDigits? 16 digits
  | digits => natOfDigits? 10 digits

/-- The number that an integer literal writes; underscores only separate its digits. -/
def Literal.number? (literal : Literal) : Option Nat :=
  numberOf? (literal.text.toList.filter (· != '_'))

namespace Expr

/-- The expressions made of integer literals, parentheses and operators on integers. -/
inductive IsInteger : Expr → Prop
  | literal {digits : Literal} (hkind : digits.kind = .int) : IsInteger (.literal digits)
  | paren (info : NodeInfo) {inner : Expr} (hinner : IsInteger inner) :
    IsInteger (.paren info inner)
  | unary (info : NodeInfo) {op : UnaryOp} {operand : Expr} (hop : op ∈ [.neg, .plus, .bitNot])
    (hoperand : IsInteger operand) : IsInteger (.unary info op operand)
  | binary (info : NodeInfo) {op : BinaryOp} {left right : Expr}
    (hop : op ∈ BinaryOp.arithmetic ∨ op.isShift) (hleft : IsInteger left)
    (hright : IsInteger right) : IsInteger (.binary info op left right)

/-- The value of an integer expression in numbers without bounds. -/
def exactValue? : Expr → Option Int
  | .literal digits => digits.number?.map Int.ofNat
  | .paren _ inner => exactValue? inner
  | .unary _ op operand => (exactValue? operand).map (Constant.exactUnary op)
  | .binary _ op left right =>
    (exactValue? left).bind fun x ↦ (exactValue? right).bind fun y ↦ Constant.exactBinary? op x y
  | _ => none

/-- The exact value of each shift to the left in an integer expression fits. -/
def ShiftsFit : Expr → Prop
  | .paren _ inner => ShiftsFit inner
  | .unary _ _ operand => ShiftsFit operand
  | .binary info op left right =>
    ShiftsFit left ∧ ShiftsFit right ∧
      (op = .shl → ∀ v, exactValue? (.binary info op left right) = some v → fitsInt v)
  | _ => True

end Expr

theorem Literal.numberOf?_of_decimal {chars : List Char}
    (hx : ∀ digits, chars = '0' :: 'x' :: digits → False)
    (hX : ∀ digits, chars = '0' :: 'X' :: digits → False) :
    numberOf? chars = natOfDigits? 10 chars := by
  unfold numberOf?
  split
  · exact (hx _ rfl).elim
  · exact (hX _ rfl).elim
  · rfl

theorem Literal.intValue?_eq {literal : Literal} (hkind : literal.kind = .int) :
    literal.intValue? = literal.number?.bind fun n ↦ Constant.fit? n := by
  unfold intValue? number?
  simp only [hkind, if_true]
  generalize literal.text.toList.filter (· != '_') = chars
  split
  · rfl
  · rfl
  · next digits hx hX =>
    rw [numberOf?_of_decimal hx hX]
    rfl

/-- The value of an integer literal is the number that it writes, and it fits. -/
theorem Literal.number?_of_intValue? {literal : Literal} {v : Int} (hkind : literal.kind = .int)
    (h : literal.intValue? = some v) : literal.number?.map Int.ofNat = some v ∧ fitsInt v := by
  rw [intValue?_eq hkind] at h
  obtain ⟨n, hn, h⟩ := Option.bind_eq_some_iff.1 h
  obtain ⟨rfl, hfits⟩ := Constant.fit?_eq_some_iff.1 h
  exact ⟨by rw [hn]; rfl, hfits⟩

/-! ### What gives a value -/

/-- A check of an expression ends and gives it a constant value. -/
def Gives (c : Checker) (e : Expr) (input : CheckInput) (s : CheckState) (v : Int) : Prop :=
  ∃ operand later, c.expr e input s = some (operand, later) ∧ operand.value = some v

variable {c : Checker} {depth : Nat} {e inner first second : Expr} {info : NodeInfo}
  {input : CheckInput} {s : CheckState} {v : Int}

/-- The operand of an expression is what its rule gives; what is recorded then does not change
it. -/
theorem exists_operandOf_of_run_expr {operand : Operand} {later : CheckState}
    (h : CheckRule.expr c e input s = some (operand, later)) :
    ∃ middle info, operandOf c e input s = some (operand, middle) ∧
      later = { middle with info } := by
  obtain ⟨found, middle, hfound, hrecord⟩ := exists_of_run_bind h
  cases hmode : found.mode with
  | value | type =>
    rw [hmode] at hrecord
    cases hrecord
    exact ⟨middle, _, hfound, rfl⟩
  | noValue | package _ | builtin _ | invalid =>
    rw [hmode] at hrecord
    cases hrecord
    exact ⟨_, later.info, hfound, rfl⟩

/-- What is given as a value is what the rule of the expression gives. -/
theorem Gives.exists_operandOf (h : Gives (Checker.within depth) e input s v) :
    ∃ less operand later, operandOf (Checker.within less) e input s = some (operand, later) ∧
      operand.value = some v := by
  obtain ⟨operand, later, hrun, hvalue⟩ := h
  cases depth with
  | zero => cases hrun
  | succ less =>
    obtain ⟨middle, -, hrule, -⟩ := exists_operandOf_of_run_expr hrun
    exact ⟨less, operand, middle, hrule, hvalue⟩

/-- An expression that is one value has the constant value that it is given. -/
theorem gives_of_value {operand : Operand} {later : CheckState}
    (h : value c e input s = some (operand, later)) (hvalue : operand.value = some v) :
    Gives c e input s v := by
  obtain ⟨found, middle, hfound, hsingle⟩ := exists_of_run_bind h
  obtain ⟨type, last, -, hpure⟩ := exists_of_run_bind hsingle
  cases hpure
  exact ⟨found, middle, hfound, hvalue⟩

theorem Gives.literal {digits : Literal} (hkind : digits.kind = .int)
    (h : Gives (Checker.within depth) (.literal digits) input s v) :
    digits.intValue? = some v := by
  obtain ⟨less, operand, later, hrun, hvalue⟩ := h.exists_operandOf
  cases hrun
  simpa [literalOperand, hkind, Operand.constant] using hvalue

theorem Gives.paren (h : Gives (Checker.within depth) (.paren info inner) input s v) :
    ∃ less, Gives (Checker.within less) inner input s v := by
  obtain ⟨less, operand, later, hrun, hvalue⟩ := h.exists_operandOf
  exact ⟨less, operand, later, hrun, hvalue⟩

theorem Gives.unary {op : UnaryOp}
    (h : Gives (Checker.within depth) (.unary info op inner) input s v) :
    ∃ less a, Gives (Checker.within less) inner input s a ∧ Constant.unary? op a = some v := by
  obtain ⟨less, operand, later, hrun, hvalue⟩ := h.exists_operandOf
  obtain ⟨x, after, hx, houtcome⟩ := exists_outcome_of_unary hrun
  cases houtcome with
  | refused => cases hvalue
  | accepted happlied =>
    cases happlied with
    | unknown | addressed | negated => cases hvalue
    | computed hop htype =>
      obtain ⟨a, ha, hop⟩ := Option.bind_eq_some_iff.1 hvalue
      exact ⟨less, a, gives_of_value hx ha, hop⟩

theorem exists_of_shiftValue? {op : BinaryOp} {left right : Option Int}
    (h : shiftValue? op left right = some v) :
    ∃ a b, left = some a ∧ right = some b ∧ Constant.shift? (op == .shl) a b = some v := by
  unfold shiftValue? at h
  split at h
  · next a b => exact ⟨a, b, rfl, rfl, h⟩
  · cases h

theorem Gives.binary {op : BinaryOp}
    (h : Gives (Checker.within depth) (.binary info op first second) input s v) :
    ∃ less middle a b, Gives (Checker.within less) first input s a ∧
      Gives (Checker.within less) second input middle b ∧
      ((op.isShift ∧ Constant.shift? (op == .shl) a b = some v) ∨
        Constant.binary? op a b = some v) := by
  obtain ⟨less, operand, later, hrun, hvalue⟩ := h.exists_operandOf
  obtain ⟨x, middle, y, after, hx, hy, houtcome⟩ := exists_outcome_of_binary hrun
  cases houtcome with
  | refused => cases hvalue
  | accepted hcombined =>
    cases hcombined with
    | unknown | compared | joined => cases hvalue
    | shifted hop =>
      obtain ⟨a, b, ha, hb, hshift⟩ := exists_of_shiftValue? hvalue
      exact ⟨less, middle, a, b, gives_of_value hx ha, gives_of_value hy hb, .inl ⟨hop, hshift⟩⟩
    | computed _ hshared htype =>
      obtain ⟨a, ha, hvalue⟩ := Option.bind_eq_some_iff.1 hvalue
      obtain ⟨b, hb, hvalue⟩ := Option.bind_eq_some_iff.1 hvalue
      exact ⟨less, middle, a, b, gives_of_value hx ha, gives_of_value hy hb, .inr hvalue⟩

/-! ### Exactness -/

/-- A value that a check gives to an integer expression in which each shift to the left fits is the
exact one, and it fits. -/
theorem exact_of_gives (he : e.IsInteger) (hshifts : e.ShiftsFit)
    (h : Gives (Checker.within depth) e input s v) : e.exactValue? = some v ∧ fitsInt v := by
  induction he generalizing depth s v with
  | literal hkind => exact Literal.number?_of_intValue? hkind (h.literal hkind)
  | paren info _ ih =>
    obtain ⟨less, hinner⟩ := h.paren
    exact ih hshifts hinner
  | unary info hop _ ih =>
    obtain ⟨less, a, hgives, hop⟩ := h.unary
    obtain ⟨hexact, hfits⟩ := ih hshifts hgives
    obtain ⟨rfl, hfitting⟩ := Constant.unary?_exact hfits hop
    exact ⟨by rw [Expr.exactValue?, hexact]; rfl, hfitting⟩
  | @binary info op left right hop _ _ ihLeft ihRight =>
    obtain ⟨hshiftsLeft, hshiftsRight, hshl⟩ := hshifts
    obtain ⟨less, middle, a, b, hleft, hright, hvalue⟩ := h.binary
    obtain ⟨hexactLeft, hfitsLeft⟩ := ihLeft hshiftsLeft hleft
    obtain ⟨hexactRight, hfitsRight⟩ := ihRight hshiftsRight hright
    have hexact : (Expr.binary info op left right).exactValue? = Constant.exactBinary? op a b := by
      rw [Expr.exactValue?, hexactLeft, hexactRight]
      rfl
    rw [hexact] at hshl ⊢
    rcases hvalue with ⟨hshift, hvalue⟩ | hvalue
    · cases op with
      | shr => exact Constant.shift?_right_exact hfitsLeft hvalue
      | shl =>
        obtain ⟨number, hnumber, -, hiff⟩ := Constant.exists_exact_of_shift?_left hvalue
        have hfits := hshl rfl number hnumber
        obtain rfl := hiff.2 hfits
        exact ⟨hnumber, hfits⟩
      | _ => cases hshift
    · exact Constant.binary?_exact hfitsLeft hfitsRight hvalue

/-- A shift to the left gives the low bits of its exact value, which are that value if and only if
it fits. -/
theorem gives_shiftLeft {left right : Expr} (hleft : left.IsInteger) (hright : right.IsInteger)
    (hshifts : left.ShiftsFit) (hshifts' : right.ShiftsFit)
    (h : Gives (Checker.within depth) (.binary info .shl left right) input s v) :
    ∃ number, (Expr.binary info .shl left right).exactValue? = some number ∧
      v = number.bmod (2 ^ 64) ∧ (v = number ↔ fitsInt number) := by
  obtain ⟨less, middle, a, b, ha, hb, hvalue⟩ := h.binary
  obtain ⟨number, hnumber, hv⟩ : ∃ number, Constant.exactBinary? .shl a b = some number ∧
      v = number.bmod (2 ^ 64) ∧ (v = number ↔ fitsInt number) := by
    rcases hvalue with ⟨-, hvalue⟩ | hvalue
    · exact Constant.exists_exact_of_shift?_left hvalue
    · cases hvalue
  refine ⟨number, ?_, hv⟩
  rw [Expr.exactValue?, (exact_of_gives hleft hshifts ha).1, (exact_of_gives hright hshifts' hb).1]
  exact hnumber

end PackageAtlas
