import PackageAtlas.Token.Stream
import PackageAtlas.Source.FileSet

/-!
Why a text is refused: the first complaint, the token that it is about, and where that token stands.
-/

set_option autoImplicit false
set_option relaxedAutoImplicit false

namespace PackageAtlas

/-- What the grammar asks for at a token. -/
inductive Wanted where
  | token (kind : TokenKind)
  | name
  | importPath
  | separator
  | type
  | expression
  | oneExpression
  | declaration
  | typeOrInitializer
  | condition
  | loopCondition
  | ifOrBlock
  | typeGuard
deriving DecidableEq, Repr

/-- How a keyword or a mark is written. -/
def TokenKind.spelling (kind : TokenKind) : String :=
  (((keywords ++ marks).find? (·.2 = kind)).map (·.1)).getD ""

def Wanted.text : Wanted → String
  | token kind => "'" ++ kind.spelling ++ "'"
  | name => "identifier"
  | importPath => "import path"
  | separator => "';' or newline"
  | type => "type"
  | expression => "expression"
  | oneExpression => "1 expression"
  | declaration => "declaration"
  | typeOrInitializer => "type or initializer"
  | condition => "condition"
  | loopCondition => "for loop condition"
  | ifOrBlock => "if statement or block"
  | typeGuard => "type guard"

/-- A rule of the grammar that a token breaks. -/
inductive Complaint where
  | expected (wanted : Wanted)
  | endOfFile
  | trailingInput
  | lateImport
  | multipleReceivers
  | mixedParameters
  | deferredNoCall
  | defineNoName
  | switchNoExpression
  | nestingTooDeep
deriving DecidableEq, Repr

def Complaint.text : Complaint → String
  | expected wanted => "expected " ++ wanted.text
  | endOfFile => "unexpected end of file"
  | trailingInput => "unexpected trailing input"
  | lateImport => "imports must appear before other declarations"
  | multipleReceivers => "method has multiple receivers"
  | mixedParameters => "mixed named and unnamed parameters"
  | deferredNoCall => "expression in go/defer must be a function call"
  | defineNoName => "non-name on left side of :="
  | switchNoExpression => "switch expression must be an expression"
  | nestingTooDeep => "nesting too deep"

inductive ParseProblem where
  | invalidCharacter
  | unexpected (complaint : Complaint) (found : Option Token)
deriving DecidableEq, Repr

/-- How a report names the token it found. -/
def foundText : Option Token → String
  | none => "EOF"
  | some token => if token.isLineEnd then "newline" else "'" ++ token.text ++ "'"

structure ParseError where
  location : Location
  problem : ParseProblem
deriving DecidableEq, Repr

namespace ParseError

def message (error : ParseError) : String :=
  match error.problem with
  | .invalidCharacter => "invalid character"
  | .unexpected complaint found => complaint.text ++ ", found " ++ foundText found

/-- The message after its location. -/
def text (error : ParseError) : String :=
  error.location.text ++ ": " ++ error.message

end ParseError

end PackageAtlas
