import Mathlib.Data.Int.Bitwise
import PackageAtlas.Check.Constant

/-!
Constants of 64 bits against numbers without bounds. An operation that has a value has the exact one
(`unary?_exact`, `binary?_exact`, `shift?_right_exact`); where the exact one does not fit, it has
none. The bits of a number are those of its 64 bits, and from there on its sign, so that operations
on bits are exact and always fit (`onBits_exact`).

A shift to the left is the exception. It has a value for each amount below 64, which is the exact
one modulo `2 ^ 64` (`shift?_left_eq_bmod`), and so the exact one if and only if that fits
(`exists_exact_of_shift?_left`).
-/

set_option autoImplicit false
set_option relaxedAutoImplicit false

namespace PackageAtlas.Constant

open Literal

/-! ### Exact values -/

/-- The number that a unary operator makes of another one. -/
def exactUnary (op : UnaryOp) (a : Int) : Int :=
  match op with
  | .neg => -a
  | .bitNot => a.lnot
  | _ => a

/-- The number that a binary operator makes of two others: division goes towards zero, and a shift
to the right towards minus infinity. -/
def exactBinary? (op : BinaryOp) (a b : Int) : Option Int :=
  match op with
  | .add => some (a + b)
  | .sub => some (a - b)
  | .mul => some (a * b)
  | .div => if b = 0 then none else some (a.tdiv b)
  | .rem => if b = 0 then none else some (a.tmod b)
  | .or => some (a.lor b)
  | .xor => some (a.xor b)
  | .and => some (a.land b)
  | .andNot => some (a.ldiff b)
  | .shl => if 0 ≤ b then some (a * 2 ^ b.toNat) else none
  | .shr => if 0 ≤ b then some (a.fdiv (2 ^ b.toNat)) else none
  | _ => none

/-! ### Fitting -/

variable {a b value : Int}

theorem fitsInt_iff : fitsInt value ↔ -2 ^ 63 ≤ value ∧ value < 2 ^ 63 := by
  simp only [fitsInt, Bool.and_eq_true, decide_eq_true_eq]
  unfold minInt maxInt
  omega

theorem fit?_eq_some_iff {v : Int} : fit? value = some v ↔ v = value ∧ fitsInt value := by
  simp only [fit?, Option.ite_none_right_eq_some, Option.some.injEq]
  tauto

/-! ### Bits -/

/-- From some place on all bits of a number are its sign. -/
theorem exists_testBit_eq_sign (value : Int) :
    ∃ place, ∀ i, place ≤ i → value.testBit i = decide (value < 0) := by
  have hlow (n i : Nat) (hi : n ≤ i) : n.testBit i = false :=
    Nat.testBit_lt_two_pow (Nat.lt_two_pow_self.trans_le (Nat.pow_le_pow_right Nat.two_pos hi))
  cases value with
  | ofNat n => exact ⟨n, fun i hi ↦ by simp [Int.testBit, hlow n i hi]⟩
  | negSucc n => exact ⟨n, fun i hi ↦ by simp [Int.testBit, hlow n i hi]⟩

/-- A number fits if and only if all bits from the last one on are its sign. -/
theorem fitsInt_iff_testBit :
    fitsInt value ↔ ∀ i, 63 ≤ i → value.testBit i = decide (value < 0) := by
  have hlow (n : Nat) : n < 2 ^ 63 ↔ ∀ i, 63 ≤ i → n.testBit i = false :=
    ⟨fun h i hi ↦ Nat.testBit_lt_two_pow (h.trans_le (Nat.pow_le_pow_right Nat.two_pos hi)),
      Nat.lt_pow_two_of_testBit n⟩
  rw [fitsInt_iff]
  cases value with
  | ofNat n =>
    have hsign : decide (Int.ofNat n < 0) = false := by simp
    have hbits : (∀ i, 63 ≤ i → (Int.ofNat n).testBit i = decide (Int.ofNat n < 0)) ↔
        ∀ i, 63 ≤ i → n.testBit i = false := by rw [hsign]; rfl
    rw [hbits, ← hlow, Int.ofNat_eq_natCast]
    omega
  | negSucc n =>
    have hbits : (∀ i, 63 ≤ i → (Int.negSucc n).testBit i = decide (Int.negSucc n < 0)) ↔
        ∀ i, 63 ≤ i → n.testBit i = false := by simp [Int.testBit]
    rw [hbits, ← hlow]
    omega

theorem getLsbD_ofInt (value : Int) (i : Nat) :
    (BitVec.ofInt 64 value).getLsbD i = (decide (i < 64) && value.testBit i) := by
  cases value with
  | ofNat n => rw [Int.ofNat_eq_natCast, BitVec.ofInt_natCast, BitVec.getLsbD_ofNat]; rfl
  | negSucc n =>
    rw [BitVec.ofInt_negSucc_eq_not_ofNat, BitVec.getLsbD_not, BitVec.getLsbD_ofNat, Int.testBit]
    by_cases hi : i < 64 <;> simp [hi]

theorem toInt_ofInt_of_fits (h : fitsInt value) : (BitVec.ofInt 64 value).toInt = value := by
  rw [fitsInt_iff] at h
  exact BitVec.toInt_ofInt_eq_self (by decide) h.1 h.2

/-- An operation on each bit of two numbers that fit is exact on their 64 bits, and it fits. -/
theorem onBits_exact {f : Bool → Bool → Bool} {op : BitVec 64 → BitVec 64 → BitVec 64}
    (hop : ∀ x y i, i < 64 → (op x y).getLsbD i = f (x.getLsbD i) (y.getLsbD i))
    (hvalue : ∀ i, value.testBit i = f (a.testBit i) (b.testBit i)) (ha : fitsInt a)
    (hb : fitsInt b) : onBits op a b = value ∧ fitsInt value := by
  have hfits : fitsInt value := by
    obtain ⟨place, hplace⟩ := exists_testBit_eq_sign value
    rw [fitsInt_iff_testBit] at ha hb ⊢
    have hsign (i : Nat) (hi : 63 ≤ i) :
        value.testBit i = f (decide (a < 0)) (decide (b < 0)) := by
      rw [hvalue, ha i hi, hb i hi]
    intro i hi
    rw [hsign i hi, ← hsign (max 63 place) (le_max_left _ _), hplace _ (le_max_right _ _)]
  have hbits : op (BitVec.ofInt 64 a) (BitVec.ofInt 64 b) = BitVec.ofInt 64 value := by
    refine BitVec.eq_of_getLsbD_eq fun i hi ↦ ?_
    rw [hop _ _ i hi, getLsbD_ofInt, getLsbD_ofInt, getLsbD_ofInt, hvalue]
    simp [hi]
  refine ⟨?_, hfits⟩
  rw [onBits, hbits, toInt_ofInt_of_fits hfits]

/-! ### Operations -/

theorem lnot_eq (a : Int) : a.lnot = -a - 1 := by
  cases a with
  | ofNat n => rw [Int.lnot, Int.ofNat_eq_natCast]; omega
  | negSucc n => rw [Int.lnot]; omega

/-- A unary operation on a number that fits gives the exact number, if it gives one, and it fits. -/
theorem unary?_exact {op : UnaryOp} {v : Int} (ha : fitsInt a) (h : unary? op a = some v) :
    v = exactUnary op a ∧ fitsInt v := by
  rw [fitsInt_iff] at ha
  cases op with
  | neg =>
    obtain ⟨rfl, hfits⟩ := fit?_eq_some_iff.1 h
    exact ⟨rfl, hfits⟩
  | bitNot =>
    cases h
    rw [exactUnary, lnot_eq, fitsInt_iff]
    exact ⟨rfl, by omega, by omega⟩
  | _ =>
    cases h
    exact ⟨rfl, fitsInt_iff.2 ha⟩

theorem fitsInt_tmod (hb : fitsInt b) (hne : b ≠ 0) : fitsInt (a.tmod b) := by
  rw [fitsInt_iff] at hb ⊢
  have hlt : (a.tmod b).natAbs < b.natAbs := by
    rw [Int.natAbs_tmod]
    exact Nat.mod_lt _ (Int.natAbs_pos.2 hne)
  omega

theorem exact_of_onBits {op : BitVec 64 → BitVec 64 → BitVec 64} {v : Int}
    (hbits : onBits op a b = value ∧ fitsInt value) (h : some (onBits op a b) = some v) :
    some value = some v ∧ fitsInt v := by
  cases h
  exact ⟨congrArg some hbits.1.symm, hbits.1 ▸ hbits.2⟩

/-- A binary operation on numbers that fit gives the exact number, if it gives one, and it fits. -/
theorem binary?_exact {op : BinaryOp} {v : Int} (ha : fitsInt a) (hb : fitsInt b)
    (h : binary? op a b = some v) : exactBinary? op a b = some v ∧ fitsInt v := by
  cases op with
  | add | sub | mul =>
    obtain ⟨rfl, hfits⟩ := fit?_eq_some_iff.1 h
    exact ⟨rfl, hfits⟩
  | div =>
    obtain ⟨hne, h⟩ := Option.ite_none_left_eq_some.1 h
    obtain ⟨rfl, hfits⟩ := fit?_eq_some_iff.1 h
    exact ⟨if_neg hne, hfits⟩
  | rem =>
    obtain ⟨hne, h⟩ := Option.ite_none_left_eq_some.1 h
    cases h
    rw [not_or] at hne
    exact ⟨if_neg hne.1, fitsInt_tmod hb hne.1⟩
  | or =>
    have hbits := onBits_exact (fun x y i _ ↦ BitVec.getLsbD_or) (Int.testBit_lor a b) ha hb
    exact exact_of_onBits hbits h
  | xor =>
    have hbits := onBits_exact (fun x y i _ ↦ BitVec.getLsbD_xor) (Int.testBit_lxor a b) ha hb
    exact exact_of_onBits hbits h
  | and =>
    have hbits := onBits_exact (fun x y i _ ↦ BitVec.getLsbD_and) (Int.testBit_land a b) ha hb
    exact exact_of_onBits hbits h
  | andNot =>
    have hop (x y : BitVec 64) (i : Nat) (hi : i < 64) :
        (x &&& ~~~y).getLsbD i = (x.getLsbD i && !y.getLsbD i) := by simp [hi]
    have hbits := onBits_exact (f := fun x y ↦ x && !y) hop (Int.testBit_ldiff a b) ha hb
    exact exact_of_onBits hbits h
  | _ => cases h

/-- A shift to the right gives the exact number, and it fits. -/
theorem shift?_right_exact {v : Int} (ha : fitsInt a) (h : shift? false a b = some v) :
    exactBinary? .shr a b = some v ∧ fitsInt v := by
  obtain ⟨⟨hb, -⟩, h⟩ := Option.ite_none_right_eq_some.1 h
  cases h
  have hquotient : a >>> b.toNat = a.fdiv (2 ^ b.toNat) := by
    rw [Int.shiftRight_eq_div_pow, Int.fdiv_eq_ediv_of_nonneg _ (Int.pow_nonneg (by decide))]
    norm_cast
  refine ⟨by rw [exactBinary?, if_pos hb, ← hquotient], ?_⟩
  rw [fitsInt_iff] at ha ⊢
  rcases Int.le_total 0 a with hsign | hsign
  · have hle := Int.shiftRight_le_of_nonneg (s := b.toNat) hsign
    have hnonneg := Int.le_shiftRight_of_nonneg (s := b.toNat) hsign
    omega
  · have hle := Int.le_shiftRight_of_nonpos (s := b.toNat) hsign
    have hnonpos := Int.shiftRight_le_of_nonpos (s := b.toNat) hsign
    omega

/-- A shift to the left gives the exact number modulo `2 ^ 64`, for an amount below 64. -/
theorem shift?_left_eq_bmod (a b : Int) :
    shift? true a b =
      if 0 ≤ b ∧ b < 64 then some ((a * 2 ^ b.toNat).bmod (2 ^ 64)) else none := by
  have hbits : BitVec.ofInt 64 a <<< b.toNat = BitVec.ofInt 64 (a * 2 ^ b.toNat) := by
    have hpow : BitVec.ofInt 64 (2 ^ b.toNat) = BitVec.twoPow 64 b.toNat := by
      have hcast : (2 : Int) ^ b.toNat = ((2 ^ b.toNat : Nat) : Int) := by norm_cast
      apply BitVec.eq_of_toNat_eq
      rw [hcast, BitVec.ofInt_natCast, BitVec.toNat_ofNat, BitVec.toNat_twoPow]
    rw [BitVec.shiftLeft_eq_mul_twoPow, BitVec.ofInt_mul, hpow]
  rw [shift?, if_pos rfl, hbits, BitVec.toInt_ofInt]

theorem bmod_eq_self_iff : value.bmod (2 ^ 64) = value ↔ fitsInt value := by
  rw [fitsInt_iff, Int.bmod_eq_iff (by decide)]
  simp

/-- A shift to the left that gives a number gives the exact one modulo `2 ^ 64`, which is the exact
one if and only if that fits. -/
theorem exists_exact_of_shift?_left {v : Int} (h : shift? true a b = some v) :
    ∃ number, exactBinary? .shl a b = some number ∧ v = number.bmod (2 ^ 64) ∧
      (v = number ↔ fitsInt number) := by
  rw [shift?_left_eq_bmod] at h
  obtain ⟨⟨hb, -⟩, h⟩ := Option.ite_none_right_eq_some.1 h
  cases h
  exact ⟨a * 2 ^ b.toNat, if_pos hb, rfl, bmod_eq_self_iff⟩

end PackageAtlas.Constant
