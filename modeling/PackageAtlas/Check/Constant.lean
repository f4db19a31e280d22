import PackageAtlas.Tree.LiteralValue

/-!
Integer constants of 64 bits. An operation whose result does not fit has no value; a shift to the
left drops the bits that it moves out.
-/

set_option autoImplicit false
set_option relaxedAutoImplicit false

namespace PackageAtlas.Constant

/-- A number if it is an integer constant. -/
def fit? (value : Int) : Option Int := if Literal.fitsInt value then some value else none

/-- An operation on the bits of two constants. -/
def onBits (op : BitVec 64 → BitVec 64 → BitVec 64) (a b : Int) : Int :=
  (op (BitVec.ofInt 64 a) (BitVec.ofInt 64 b)).toInt

/-- The value of a binary operation; the divisor is not zero. -/
def binary? (op : BinaryOp) (a b : Int) : Option Int :=
  match op with
  | .add => fit? (a + b)
  | .sub => fit? (a - b)
  | .mul => fit? (a * b)
  | .div => if b = 0 then none else fit? (a.tdiv b)
  | .rem => if b = 0 ∨ (fit? (a.tdiv b)).isNone then none else some (a.tmod b)
  | .or => some (onBits (· ||| ·) a b)
  | .xor => some (onBits (· ^^^ ·) a b)
  | .and => some (onBits (· &&& ·) a b)
  | .andNot => some (onBits (fun x y ↦ x &&& ~~~y) a b)
  | _ => none

/-- The value of a shift; an amount of 64 or more has none. -/
def shift? (isLeft : Bool) (a b : Int) : Option Int :=
  if 0 ≤ b ∧ b < 64 then
    if isLeft then some (BitVec.ofInt 64 a <<< b.toNat).toInt
    else some (a >>> b.toNat)
  else none

/-- The value of a unary operation. -/
def unary? (op : UnaryOp) (a : Int) : Option Int :=
  match op with
  | .neg => fit? (-a)
  | .bitNot => some (-a - 1)
  | _ => some a

/-- The character that an escape stands for. -/
def escaped : Char → Char
  | 'n' => '\n'
  | 't' => '\t'
  | 'r' => '\r'
  | '0' => Char.ofNat 0
  | other => other

/-- The value of a character literal, by its first character. -/
def charValue? (text : String) : Option Int :=
  match Literal.unquote? (Char.ofNat 39) text.toList with
  | some ('\\' :: c :: _) => some (escaped c).toNat
  | some ['\\'] => none
  | some (c :: _) => some c.toNat
  | _ => none

end PackageAtlas.Constant
