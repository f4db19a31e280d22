import PackageAtlas.Text.Blank

/-!
Cutting texts: at a separator, at white space, at line ends, and at a known start or end.
-/

set_option autoImplicit false
set_option relaxedAutoImplicit false

namespace PackageAtlas.Text

/-- The parts of a list between the elements that pass a test, one more than there are such
elements. -/
def splitAt {α : Type} (test : α → Bool) : List α → List (List α)
  | [] => [[]]
  | a :: rest =>
    match splitAt test rest with
    | [] => [[a]]
    | part :: parts => if test a then [] :: part :: parts else (a :: part) :: parts

/-- The parts of a text between the occurrences of a character. -/
def splitOn (separator : Char) (text : List Char) : List (List Char) :=
  splitAt (· == separator) text

/-- The words of a text: its longest parts without white space. -/
def words (text : List Char) : List (List Char) :=
  (splitAt isBlank text).filter (· ≠ [])

/-- The lines of a text. -/
def lines (text : List Char) : List (List Char) := splitOn '\n' text

/-- What follows a known start. -/
def dropStart? : List Char → List Char → Option (List Char)
  | [], text => some text
  | _ :: _, [] => none
  | c :: start, d :: text => if c = d then dropStart? start text else none

/-- What comes before a known end. -/
def dropEnd? (suffix text : List Char) : Option (List Char) :=
  (dropStart? suffix.reverse text.reverse).map List.reverse

/-- A text without a known end, if it has it. -/
def withoutEnd (suffix text : List Char) : List Char := (dropEnd? suffix text).getD text

/-- The parts before and after the first occurrence of a text. -/
def cutAt? (mark : List Char) : List Char → Option (List Char × List Char)
  | [] => if mark.isEmpty then some ([], []) else none
  | c :: rest =>
    match dropStart? mark (c :: rest) with
    | some after => some ([], after)
    | none => (cutAt? mark rest).map fun (before, after) ↦ (c :: before, after)

/-- Whether a text occurs in another. -/
def occursIn (mark text : List Char) : Bool := (cutAt? mark text).isSome

theorem dropStart?_eq_some_iff {start text rest : List Char} :
    dropStart? start text = some rest ↔ text = start ++ rest := by
  induction start generalizing text with
  | nil => simp [dropStart?, eq_comm]
  | cons c start ih =>
    cases text with
    | nil => simp [dropStart?]
    | cons d text =>
      simp only [dropStart?, List.cons_append, List.cons.injEq]
      split
      · next h => simp [h, ih]
      · next h => simp [Ne.symm h]

end PackageAtlas.Text
