import PackageAtlas.Text.Alphanumeric

/-!
Build constraints: formulas over tags, as they stand in the header of a file. `Constraint.parse?`
reads alternatives of conjunctions of possibly negated tags, with parentheses.
-/

set_option autoImplicit false
set_option relaxedAutoImplicit false

namespace PackageAtlas

/-- A formula over tags. -/
inductive Constraint where
  | tag (name : String)
  | not (operand : Constraint)
  | and (left right : Constraint)
  | or (left right : Constraint)
deriving DecidableEq, Repr

namespace Constraint

/-- The truth of a formula when `satisfied` says which tags hold. -/
def holds (satisfied : String → Bool) : Constraint → Bool
  | tag name => satisfied name
  | not operand => !operand.holds satisfied
  | and left right => left.holds satisfied && right.holds satisfied
  | or left right => left.holds satisfied || right.holds satisfied

/-! ### Tokens -/

inductive Token where
  | tag (name : String)
  | not
  | and
  | or
  | lparen
  | rparen
deriving DecidableEq, Repr

/-- The characters of tags. -/
def isTagPart (c : Char) : Bool := Text.isAlphanumeric c || c == '_' || c == '.'

/-- The tokens of a formula, none when some character belongs to no token. -/
def tokens? : List Char → Option (List Token)
  | [] => some []
  | ' ' :: rest | '\t' :: rest => tokens? rest
  | '!' :: rest => (tokens? rest).map (.not :: ·)
  | '(' :: rest => (tokens? rest).map (.lparen :: ·)
  | ')' :: rest => (tokens? rest).map (.rparen :: ·)
  | '&' :: '&' :: rest => (tokens? rest).map (.and :: ·)
  | '|' :: '|' :: rest => (tokens? rest).map (.or :: ·)
  | c :: rest =>
    if isTagPart c then
      let name := String.ofList (c :: rest.takeWhile isTagPart)
      (tokens? (rest.dropWhile isTagPart)).map (.tag name :: ·)
    else none
termination_by cs => cs.length
decreasing_by
  all_goals simp only [List.length_cons]
  all_goals first
    | omega
    | exact Nat.lt_succ_of_le (List.dropWhile_suffix _).length_le

/-! ### Formulas -/

mutual

/-- Reads alternatives; the depth bounds how far rules may call each other. -/
def orExpr? : Nat → List Token → Option (Constraint × List Token)
  | 0, _ => none
  | depth + 1, ts => do
    let (left, ts) ← andExpr? depth ts
    orRest? depth left ts

/-- Goes on with alternatives after the first. -/
def orRest? : Nat → Constraint → List Token → Option (Constraint × List Token)
  | 0, _, _ => none
  | depth + 1, left, .or :: ts => do
    let (right, ts) ← andExpr? depth ts
    orRest? depth (.or left right) ts
  | _ + 1, left, ts => some (left, ts)

def andExpr? : Nat → List Token → Option (Constraint × List Token)
  | 0, _ => none
  | depth + 1, ts => do
    let (left, ts) ← notExpr? depth ts
    andRest? depth left ts

/-- Goes on with conjuncts after the first. -/
def andRest? : Nat → Constraint → List Token → Option (Constraint × List Token)
  | 0, _, _ => none
  | depth + 1, left, .and :: ts => do
    let (right, ts) ← notExpr? depth ts
    andRest? depth (.and left right) ts
  | _ + 1, left, ts => some (left, ts)

/-- Reads a negation, a formula in parentheses or a tag. -/
def notExpr? : Nat → List Token → Option (Constraint × List Token)
  | 0, _ => none
  | depth + 1, .not :: ts => do
    let (operand, ts) ← notExpr? depth ts
    return (.not operand, ts)
  | depth + 1, .lparen :: ts => do
    let (inner, ts) ← orExpr? depth ts
    match ts with
    | .rparen :: ts => return (inner, ts)
    | _ => none
  | _ + 1, .tag name :: ts => some (.tag name, ts)
  | _ + 1, _ => none

end

/-- The formula that all of the tokens spell. Between two tokens at most three rules call each
other. -/
def ofTokens? (ts : List Token) : Option Constraint := do
  match ← orExpr? (4 * (ts.length + 1)) ts with
  | (constraint, []) => some constraint
  | _ => none

/-- The formula that a text spells. -/
def parse? (text : List Char) : Option Constraint := do
  ofTokens? (← tokens? text)

end Constraint

end PackageAtlas
