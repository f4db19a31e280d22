import PackageAtlas.Token.Lexeme

/-!
Token streams: the lexemes without white space, comments set aside, and a terminator put in where a
line break or the end of the input ends a statement.
-/

set_option autoImplicit false
set_option relaxedAutoImplicit false

namespace PackageAtlas

/-- A token. A terminator that was put in has the text of a newline, or no text at the end of the
input. -/
structure Token where
  kind : TokenKind
  text : String
  offset : Nat
deriving DecidableEq, Repr, Inhabited

/-- The offset just after the text of a token. -/
def Token.stop (token : Token) : Nat := token.offset + token.text.utf8ByteSize

/-- Whether a token stands for a line break or the end of the input rather than for input text. -/
def Token.isLineEnd (token : Token) : Bool :=
  token.kind == .semicolon && token.text != ";"

structure Comment where
  text : String
  offset : Nat
deriving DecidableEq, Repr, Inhabited

/-- The offset just after a comment. -/
def Comment.stop (comment : Comment) : Nat := comment.offset + comment.text.utf8ByteSize

structure TokenStream where
  tokens : List Token
  comments : List Comment
deriving DecidableEq, Repr, Inhabited

namespace TokenStream

/-- The terminator for a line break at an offset. -/
def lineEnd (offset : Nat) : Token := ⟨.semicolon, "\n", offset⟩

/-- A comment that holds a line break counts as one. -/
def breaksLine (lexeme : Lexeme) : Bool :=
  lexeme.kind = .newline || (lexeme.kind = .blockComment && lexeme.chars.contains '\n')

/-- The stream of a list of lexemes, in an input of `size` bytes. The flag says whether the token
before them ends a statement at the next line break. -/
def ofLexemes (size : Nat) (pending : Bool) : List Lexeme → TokenStream
  | [] => ⟨if pending then [⟨.semicolon, "", size⟩] else [], []⟩
  | lexeme :: rest =>
    match lexeme.kind with
    | .token kind =>
      let stream := ofLexemes size kind.endsStatement rest
      { stream with tokens := ⟨kind, lexeme.text, lexeme.offset⟩ :: stream.tokens }
    | .blank => ofLexemes size pending rest
    | _ =>
      let stream := ofLexemes size (pending && !breaksLine lexeme) rest
      let tokens :=
        if pending && breaksLine lexeme then lineEnd lexeme.offset :: stream.tokens
        else stream.tokens
      let comments :=
        if lexeme.kind = .newline then stream.comments
        else ⟨lexeme.text, lexeme.offset⟩ :: stream.comments
      ⟨tokens, comments⟩

/-- The tokens and the comments of a text. -/
def ofText (text : String) : Except LexError TokenStream := do
  let lexemes ← Lexeme.cut 0 text.toList
  return ofLexemes text.utf8ByteSize false lexemes

end TokenStream

end PackageAtlas
