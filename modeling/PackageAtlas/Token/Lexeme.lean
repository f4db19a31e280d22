import PackageAtlas.Text.Letter
import PackageAtlas.Text.Number
import PackageAtlas.Token.Kind

/-!
Lexemes: the input cut into the longest pieces that the lexical rules allow, white space and
comments included. `Lexeme.cut` loses nothing: the texts of the pieces make up the input.
-/

set_option autoImplicit false
set_option relaxedAutoImplicit false

namespace PackageAtlas

open Text

/-- What a piece of the input is. -/
inductive LexemeKind where
  | blank
  | newline
  | lineComment
  | blockComment
  | token (kind : TokenKind)
deriving DecidableEq, Repr

/-- A piece of the input with the offset of its first byte. -/
structure Lexeme where
  kind : LexemeKind
  chars : List Char
  offset : Nat
deriving DecidableEq, Repr

/-- The offset at which no lexeme starts. -/
structure LexError where
  offset : Nat
deriving DecidableEq, Repr

namespace Lexeme

/-! ### Length of the longest lexeme, by its first character -/

def isNameStart (c : Char) : Bool := c == '_' || isLetter c

def isNamePart (c : Char) : Bool := isNameStart c || isNumber c

def isDigitOrBar (c : Char) : Bool := c.isDigit || c == '_'

def isHexDigitOrBar (c : Char) : Bool :=
  isDigitOrBar c || ('a' ≤ c && c ≤ 'f') || ('A' ≤ c && c ≤ 'F')

/-- The number of characters up to the first that fails a test. -/
def runLength (test : Char → Bool) (cs : List Char) : Nat := (cs.takeWhile test).length

/-- The number of characters of an exponent at the head, zero when there is none. -/
def exponentLength : List Char → Nat
  | e :: rest =>
    if e = 'e' ∨ e = 'E' then
      match rest with
      | sign :: digits =>
        if sign = '+' ∨ sign = '-' then
          let count := runLength Char.isDigit digits
          if count = 0 then 0 else count + 2
        else
          let count := runLength Char.isDigit rest
          if count = 0 then 0 else count + 1
      | [] => 0
    else 0
  | [] => 0

/-- The longest number at the head of an input that starts with a digit. -/
def number (cs : List Char) : TokenKind × Nat :=
  let decimal :=
    let whole := runLength isDigitOrBar cs
    match cs.drop whole with
    | '.' :: rest =>
      let fraction := runLength isDigitOrBar rest
      (TokenKind.float, whole + 1 + fraction + exponentLength (rest.drop fraction))
    | rest =>
      match exponentLength rest with
      | 0 => (TokenKind.int, whole)
      | exponent => (TokenKind.float, whole + exponent)
  match cs with
  | '0' :: x :: rest =>
    if (x = 'x' ∨ x = 'X') ∧ runLength isHexDigitOrBar rest ≠ 0 then
      (TokenKind.int, 2 + runLength isHexDigitOrBar rest)
    else decimal
  | _ => decimal

/-- The number of characters up to and including an unescaped `quote` on the same line; a backslash
escapes the character after it. -/
def quotedLength? (quote : Char) : List Char → Option Nat
  | [] => none
  | '\\' :: [] => none
  | '\\' :: c :: rest => if c = '\n' then none else (quotedLength? quote rest).map (· + 2)
  | c :: rest =>
    if c = quote then some 1
    else if c = '\n' then none
    else (quotedLength? quote rest).map (· + 1)

/-- The number of characters up to and including the first back quote. -/
def rawLength? : List Char → Option Nat
  | [] => none
  | c :: rest => if c = Char.ofNat 96 then some 1 else (rawLength? rest).map (· + 1)

/-- The number of characters up to and including the first `*/`. -/
def commentLength? : List Char → Option Nat
  | [] => none
  | '*' :: '/' :: _ => some 2
  | _ :: rest => (commentLength? rest).map (· + 1)

/-- The first mark in the table that starts the input. -/
def mark? (cs : List Char) : Option (TokenKind × Nat) :=
  (TokenKind.marks.find? fun mark ↦ mark.1.toList.isPrefixOf cs).map
    fun mark ↦ (mark.2, mark.1.length)

/-- The kind and the length of the longest lexeme that starts with `c` and goes on in `rest`, none
when no lexeme does. -/
def longest? (c : Char) (rest : List Char) : Option (LexemeKind × Nat) :=
  if c = '\n' then some (.newline, 1)
  else if c = ' ' ∨ c = '\t' ∨ c = '\r' then some (.blank, 1)
  else if isNameStart c then
    let length := 1 + runLength isNamePart rest
    some (.token (TokenKind.ofWord (String.ofList ((c :: rest).take length))), length)
  else if c.isDigit then
    let (kind, length) := number (c :: rest)
    some (.token kind, length)
  else if c = '"' then
    (quotedLength? '"' rest).map fun length ↦ (.token .string, 1 + length)
  else if c = Char.ofNat 96 then
    (rawLength? rest).map fun length ↦ (.token .string, 1 + length)
  else if c = Char.ofNat 39 then
    match quotedLength? (Char.ofNat 39) rest with
    | some 1 => none
    | length => length.map fun length ↦ (.token .char, 1 + length)
  else
    match c, rest with
    | '/', '/' :: tail => some (.lineComment, 2 + runLength (· ≠ '\n') tail)
    | '/', '*' :: tail => (commentLength? tail).map fun length ↦ (.blockComment, 2 + length)
    | _, _ => (mark? (c :: rest)).map fun (kind, length) ↦ (.token kind, length)

/-- The bytes of a list of characters. -/
def byteLength : List Char → Nat
  | [] => 0
  | c :: rest => c.utf8Size + byteLength rest

/-- The lexemes of an input that starts at a byte offset. A lexeme has at least one character. -/
def cut (offset : Nat) : List Char → Except LexError (List Lexeme)
  | [] => .ok []
  | c :: rest =>
    match longest? c rest with
    | none => .error ⟨offset⟩
    | some (kind, length) =>
      let chars := c :: rest.take (length - 1)
      match cut (offset + byteLength chars) (rest.drop (length - 1)) with
      | .error e => .error e
      | .ok lexemes => .ok (⟨kind, chars, offset⟩ :: lexemes)
termination_by cs => cs.length
decreasing_by simp only [List.length_cons, List.length_drop]; omega

/-- The bytes of a lexeme end here. -/
def stop (lexeme : Lexeme) : Nat := lexeme.offset + byteLength lexeme.chars

def text (lexeme : Lexeme) : String := String.ofList lexeme.chars

end Lexeme

end PackageAtlas
