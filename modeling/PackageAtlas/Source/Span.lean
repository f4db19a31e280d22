/-!
Raw positions and half-open ranges of them. A raw position is a byte of some file of a file set;
zero belongs to no file. Positions are unbounded here: a file set holds any amount of text, also
beyond the 4 GiB that positions of 32 bits can tell apart.
-/

set_option autoImplicit false
set_option relaxedAutoImplicit false

namespace PackageAtlas

/-- The half-open range of raw positions from `start` up to `stop`. -/
structure Span where
  start : Nat
  stop : Nat
deriving DecidableEq, Repr, Inhabited

namespace Span

/-- Whether the interval from `start` to `stop` lies inside the range. An interval that starts at
the end of a range is outside, unless the range is empty. -/
def containsInterval (span : Span) (start stop : Nat) : Bool :=
  span.start ≤ start && stop ≤ span.stop && start < max span.stop (span.start + 1)

/-- The least range that holds both. -/
def cover (first second : Span) : Span :=
  ⟨min first.start second.start, max first.stop second.stop⟩

theorem containsInterval_iff {span : Span} {start stop : Nat} :
    span.containsInterval start stop ↔
      span.start ≤ start ∧ stop ≤ span.stop ∧ (start < span.stop ∨ start = span.start) := by
  simp [containsInterval]
  omega

end Span

end PackageAtlas
