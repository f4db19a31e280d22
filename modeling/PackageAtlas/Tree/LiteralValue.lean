import PackageAtlas.Tree.Basic

/-!
The values that literals denote: the text of a string literal and the number of an integer literal.
-/

set_option autoImplicit false
set_option relaxedAutoImplicit false

namespace PackageAtlas.Literal

/-- The largest integer constant. -/
def maxInt : Int := 9223372036854775807

/-- The least integer constant. -/
def minInt : Int := -9223372036854775808

/-- Whether a number is an integer constant: constants have 64 bits and a sign. -/
def fitsInt (value : Int) : Bool := minInt ≤ value && value ≤ maxInt

/-- The text between two quotes. -/
def unquote? (quote : Char) : List Char → Option (List Char)
  | [] => none
  | c :: rest => if c = quote ∧ rest.getLast? = some quote then some rest.dropLast else none

/-- The text of an escaped line: a backslash stands for nothing but makes `n`, `t` and `r` the
characters that they abbreviate. -/
def unescape : List Char → List Char
  | [] => []
  | '\\' :: [] => []
  | '\\' :: 'n' :: rest => '\n' :: unescape rest
  | '\\' :: 't' :: rest => '\t' :: unescape rest
  | '\\' :: 'r' :: rest => '\r' :: unescape rest
  | '\\' :: c :: rest => c :: unescape rest
  | c :: rest => c :: unescape rest

/-- The text that a string literal denotes. -/
def stringValue? (literal : Literal) : Option String :=
  if literal.kind = .string then
    let chars := literal.text.toList
    match unquote? (Char.ofNat 96) chars with
    | some raw => some (String.ofList raw)
    | none => (unquote? '"' chars).map fun inner ↦ String.ofList (unescape inner)
  else none

/-- The value of a digit in bases up to sixteen. -/
def digitValue? (c : Char) : Option Nat :=
  if c.isDigit then some (c.toNat - '0'.toNat)
  else if 'a' ≤ c ∧ c ≤ 'f' then some (c.toNat - 'a'.toNat + 10)
  else if 'A' ≤ c ∧ c ≤ 'F' then some (c.toNat - 'A'.toNat + 10)
  else none

/-- The number that digits write in a base, none for no digits at all. -/
def natOfDigits? (base : Nat) : List Char → Option Nat
  | [] => none
  | c :: rest =>
    (c :: rest).foldlM (fun total c ↦ do
      let digit ← digitValue? c
      if digit < base then some (total * base + digit) else none) 0

/-- The number that an integer literal denotes, none when it is no integer constant. -/
def intValue? (literal : Literal) : Option Int :=
  if literal.kind = .int then do
    let chars := literal.text.toList.filter (· != '_')
    let value ← match chars with
      | '0' :: 'x' :: digits => natOfDigits? 16 digits
      | '0' :: 'X' :: digits => natOfDigits? 16 digits
      | digits => natOfDigits? 10 digits
    if fitsInt value then some value else none
  else none

end PackageAtlas.Literal

namespace PackageAtlas

/-- The path of an import without its quotes. -/
def ImportSpec.pathValue (spec : ImportSpec) : String :=
  spec.path.stringValue?.getD ""

/-- The import path of the stand-in package for foreign code. -/
def foreignPath : String := "C"

namespace SourceFile

def importPaths (file : SourceFile) : List String :=
  file.imports.map ImportSpec.pathValue

/-- Whether the file imports the stand-in package for foreign code. -/
def importsForeign (file : SourceFile) : Bool :=
  file.importPaths.contains foreignPath

end SourceFile

end PackageAtlas
