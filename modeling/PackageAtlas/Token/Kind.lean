/-!
The kinds of tokens: keywords, names, literals and punctuation. `TokenKind.endsStatement` says
after which of them a line break ends a statement.
-/

set_option autoImplicit false
set_option relaxedAutoImplicit false

namespace PackageAtlas

inductive TokenKind where
  | kwBreak | kwCase | kwConst | kwContinue | kwDefault | kwDefer | kwElse | kwFallthrough
  | kwFor | kwFunc | kwGo | kwIf | kwImport | kwInterface | kwMap | kwPackage | kwReturn
  | kwStruct | kwSwitch | kwType | kwVar
  | ident | int | float | char | string
  | shlAssign | shrAssign | andNotAssign | addAssign | subAssign | mulAssign | divAssign
  | remAssign | andAssign | orAssign | xorAssign
  | shl | shr | andNot | ampAmp | pipePipe | plusPlus | minusMinus
  | eqEq | bangEq | ltEq | gtEq | colonEq
  | lbrace | rbrace | lbracket | rbracket | lparen | rparen
  | semicolon | colon | dot | comma | eq | lt | gt
  | star | plus | minus | slash | percent | caret | bang | amp | pipe
deriving DecidableEq, Repr, Inhabited

namespace TokenKind

/-- The words that are no names. -/
def keywords : List (String × TokenKind) :=
  [("break", kwBreak), ("case", kwCase), ("const", kwConst), ("continue", kwContinue),
   ("default", kwDefault), ("defer", kwDefer), ("else", kwElse), ("fallthrough", kwFallthrough),
   ("for", kwFor), ("func", kwFunc), ("go", kwGo), ("if", kwIf), ("import", kwImport),
   ("interface", kwInterface), ("map", kwMap), ("package", kwPackage), ("return", kwReturn),
   ("struct", kwStruct), ("switch", kwSwitch), ("type", kwType), ("var", kwVar)]

/-- Punctuation, no mark before one that extends it. -/
def marks : List (String × TokenKind) :=
  [("<<=", shlAssign), (">>=", shrAssign), ("&^=", andNotAssign),
   ("+=", addAssign), ("-=", subAssign), ("*=", mulAssign), ("/=", divAssign),
   ("%=", remAssign), ("&=", andAssign), ("|=", orAssign), ("^=", xorAssign),
   ("<<", shl), (">>", shr), ("&^", andNot), ("&&", ampAmp), ("||", pipePipe),
   ("++", plusPlus), ("--", minusMinus), ("==", eqEq), ("!=", bangEq), ("<=", ltEq),
   (">=", gtEq), (":=", colonEq),
   ("\x7b", lbrace), ("\x7d", rbrace), ("[", lbracket), ("]", rbracket), ("(", lparen),
   (")", rparen), (";", semicolon), (":", colon), (".", dot), (",", comma), ("=", eq),
   ("<", lt), (">", gt), ("*", star), ("+", plus), ("-", minus), ("/", slash),
   ("%", percent), ("^", caret), ("!", bang), ("&", amp), ("|", pipe)]

/-- The kind of a word: a keyword or a name. -/
def ofWord (word : String) : TokenKind :=
  (keywords.lookup word).getD ident

/-- The kinds after which the end of the line ends the statement. -/
def endsStatement : TokenKind → Bool
  | ident | int | float | char | string | kwBreak | kwContinue | kwFallthrough | kwReturn
  | plusPlus | minusMinus | rparen | rbracket | rbrace => true
  | _ => false

end TokenKind

end PackageAtlas
