/-!
Arithmetic runs of code points. A character property is a list of runs, and a character has the
property when one of its runs holds the code point. Runs with a step above one keep the
alternating capital and small letters of the Latin, Greek and Cyrillic blocks short.
-/

set_option autoImplicit false
set_option relaxedAutoImplicit false

namespace PackageAtlas.Text

/-- The code points `first`, `first + step`, … up to `last`. -/
structure CodeRange where
  first : Nat
  last : Nat
  step : Nat

/-- Whether a run holds a code point. -/
def CodeRange.holds (run : CodeRange) (code : Nat) : Bool :=
  run.first ≤ code && code ≤ run.last && (code - run.first) % run.step == 0

/-- Whether a table holds a character. -/
def inTable (table : List CodeRange) (c : Char) : Bool :=
  table.any fun run ↦ run.holds c.toNat

end PackageAtlas.Text
