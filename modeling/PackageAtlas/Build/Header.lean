import PackageAtlas.Text.Split

/-!
File headers: the comment lines before the package clause, and the constraint lines among them.
-/

set_option autoImplicit false
set_option relaxedAutoImplicit false

namespace PackageAtlas

/-- The constraint lines of a header: the first line of the present form, and all lines of the
legacy form. -/
structure Header where
  formula : Option (List Char)
  legacy : List (List Char)
deriving DecidableEq, Repr

namespace Header

open Text

/-- A comment line of the present form, without its mark. -/
def formulaLine? (comment : List Char) : Option (List Char) :=
  (dropStart? "go:build".toList comment).map trim

/-- A comment line of the legacy form, without its mark. -/
def legacyLine? (comment : List Char) : Option (List Char) :=
  match dropStart? "+build".toList (trimStart comment) with
  | some [] => some []
  | some (c :: rest) => if isBlank c then some (trim (c :: rest)) else none
  | none => none

/-- Adds a line comment in front of the lines found after it. -/
def consComment (comment : List Char) (header : Header) : Header :=
  match formulaLine? comment with
  | some formula => { header with formula := some formula }
  | none =>
    match legacyLine? comment with
    | some line => { header with legacy := line :: header.legacy }
    | none => header

/-- The header of a list of lines without white space at their ends; the flag says whether a block
comment is open before them. Whatever follows the closing of a block comment on its line does not
count, and the first line that is no comment ends the header. -/
def ofLines : Bool → List (List Char) → Header
  | _, [] => ⟨none, []⟩
  | true, line :: rest => ofLines (!occursIn "*/".toList line) rest
  | false, line :: rest =>
    match line with
    | [] => ofLines false rest
    | '/' :: '*' :: _ => ofLines (!occursIn "*/".toList line) rest
    | '/' :: '/' :: comment => consComment comment (ofLines false rest)
    | _ => ⟨none, []⟩

/-- The header of a file. -/
def ofText (text : String) : Header :=
  ofLines false ((lines text.toList).map trim)

end Header

end PackageAtlas
