import PackageAtlas.Parse.Failure
import PackageAtlas.Text.Blank
import PackageAtlas.Tree.Basic

/-!
Parsers: readers of a list of tokens that end at the first complaint. Besides the tokens that are
left, a parser knows the offset where the last token ended, the composite-literal level, which is
below zero where an opening brace belongs to a statement, and the number of the next node.
-/

set_option autoImplicit false
set_option relaxedAutoImplicit false

namespace PackageAtlas

/-- The text being parsed. -/
structure ParseInput where
  space : SpaceId
  entry : FileEntry
  chars : List Char
  comments : List Comment

structure ParseState where
  tokens : List Token
  lastStop : Nat
  level : Int
  nextIndex : Nat

abbrev Parser := ReaderT ParseInput (StateT ParseState (Except ParseError))

namespace Parser

/-! ### Looking at tokens -/

def current? : Parser (Option Token) := return (← get).tokens.head?

def peek? : Parser (Option TokenKind) := return (← current?).map (·.kind)

/-- The kind of the token after the current one. -/
def peekSecond? : Parser (Option TokenKind) := return (← get).tokens[1]?.map (·.kind)

def isNext (kind : TokenKind) : Parser Bool := return (← peek?) == some kind

def isDone : Parser Bool := return (← get).tokens.isEmpty

/-- The offset of the current token, at the end the size of the text. -/
def offset : Parser Nat := do
  match ← current? with
  | some token => return token.offset
  | none => return (← read).entry.size

/-- The position of the current token. -/
def start : Parser Nat := return (← read).entry.pos (← offset)

/-- A complaint about the current token. -/
def fail {α : Type} (complaint : Complaint) : Parser α := do
  let location := (← read).entry.location (← start)
  throw ⟨location, .unexpected complaint (← current?)⟩

/-! ### Reading tokens -/

/-- Goes past the current token. -/
def advance (token : Token) : Parser Unit :=
  modify fun state ↦ { state with tokens := state.tokens.tail, lastStop := token.stop }

def bump : Parser Token := do
  match ← current? with
  | some token =>
    advance token
    return token
  | none => fail .endOfFile

/-- Goes past a token of a kind, if one is there. -/
def eat (kind : TokenKind) : Parser Bool := do
  match ← current? with
  | some token =>
    if token.kind = kind then
      advance token
      return true
    else return false
  | none => return false

def expectAs (kind : TokenKind) (wanted : Wanted) : Parser Token := do
  if ← isNext kind then bump else fail (.expected wanted)

def expect (kind : TokenKind) : Parser Token := expectAs kind (.token kind)

/-- A terminator, which may be missing before a closing bracket and at the end. -/
def separator : Parser Unit := do
  if ← eat .semicolon then return
  if (← isNext .rparen) || (← isNext .rbrace) || (← isDone) then return
  fail (.expected .separator)

/-- Runs a parser at a composite-literal level. -/
def withLevel {α : Type} (level : Int → Int) (parser : Parser α) : Parser α := do
  let saved := (← get).level
  modify fun state ↦ { state with level := level saved }
  let result ← parser
  modify fun state ↦ { state with level := saved }
  return result

/-- One level further in, where an opening brace may follow a type. -/
def nested {α : Type} (parser : Parser α) : Parser α := withLevel (· + 1) parser

/-! ### Making nodes -/

/-- The identity of the next node, which has the given span. -/
def node (span : Span) : Parser NodeInfo := do
  let input ← read
  let state ← get
  set { state with nextIndex := state.nextIndex + 1 }
  return ⟨⟨input.space, input.entry.base, state.nextIndex⟩, span⟩

/-- The next node, from a position to the end of the last token. -/
def nodeFrom (start : Nat) : Parser NodeInfo := do
  node ⟨start, (← read).entry.pos (← get).lastStop⟩

/-- The next node, over the text of a token. -/
def nodeOf (token : Token) : Parser NodeInfo := do
  let entry := (← read).entry
  node ⟨entry.pos token.offset, entry.pos token.stop⟩

def identOf (token : Token) : Parser Ident := return ⟨← nodeOf token, token.text⟩

def ident : Parser Ident := do
  identOf (← expectAs .ident .name)

def literalOf (token : Token) (kind : LiteralKind) : Parser Literal :=
  return ⟨← nodeOf token, kind, token.text⟩

/-! ### Comments -/

/-- A list of characters without its first `count` bytes. -/
def dropBytes (count : Nat) : List Char → List Char
  | [] => []
  | c :: rest => if count = 0 then c :: rest else dropBytes (count - c.utf8Size) rest

/-- The first `count` bytes of a list of characters. -/
def takeBytes (count : Nat) : List Char → List Char
  | [] => []
  | c :: rest => if count = 0 then [] else c :: takeBytes (count - c.utf8Size) rest

/-- A text without the comment openers it starts with. Read backwards, a closer is an opener. -/
def dropOpeners : List Char → List Char
  | '/' :: '*' :: rest => dropOpeners rest
  | cs => cs

/-- The text of a comment without its marks. -/
def commentBody (text : String) : String :=
  match text.toList with
  | '/' :: '/' :: ' ' :: rest => String.ofList rest
  | '/' :: '/' :: rest => String.ofList rest
  | cs => String.ofList (Text.trim (dropOpeners (dropOpeners cs).reverse).reverse)

/-- The bodies of the comments, listed backwards, that lead up to an offset with no blank line
between them. -/
def leadingComments (chars : List Char) (offset : Nat) (found : List String) :
    List Comment → List String
  | [] => found
  | comment :: earlier =>
    if offset < comment.stop then leadingComments chars offset found earlier
    else
      let gap := takeBytes (offset - comment.stop) (dropBytes comment.stop chars)
      if gap.all Text.isBlank && gap.count '\n' ≤ 1 then
        leadingComments chars comment.offset (commentBody comment.text :: found) earlier
      else found

/-- The comment block that ends right above an offset. -/
def docBefore (offset : Nat) : Parser (Option String) := do
  let input ← read
  match leadingComments input.chars offset [] input.comments.reverse with
  | [] => return none
  | lines => return some ("\n".intercalate lines)

end Parser

end PackageAtlas
