import PackageAtlas.Parse.DeclRules

/-!
Parsing of files and of single expressions. `Goal.rule` is the grammar; a parser is its iteration,
as many times as the number of tokens allows: between two tokens no rule calls more than
`Goal.depthPerToken` others.
-/

set_option autoImplicit false
set_option relaxedAutoImplicit false

namespace PackageAtlas

namespace Goal

/-- The rule of a nonterminal, over the parsers of all of them. -/
def rule (g : Grammar) : Grammar
  | decls => Rule.decls g
  | importDecls => Rule.importDecls g
  | genDecl => Rule.genDecl g
  | specs kind => Rule.specs g kind
  | spec kind docOffset => Rule.spec g kind docOffset
  | funcDecl => Rule.funcDecl g
  | signature start => Rule.signature g start
  | parameters => Rule.parameters g
  | parameterEntries => Rule.parameterEntries g
  | idents => Rule.idents g
  | type => Rule.type g
  | structFields => Rule.structFields g
  | interfaceElements => Rule.interfaceElements g
  | block => Rule.block g
  | stmts => Rule.stmts g
  | stmt => Rule.stmt g
  | simpleStmt => Rule.simpleStmt g
  | condStmt => Rule.condStmt g
  | clauses => Rule.clauses g
  | exprs => Rule.exprs g
  | binary minimum => Rule.binary g minimum
  | binaryRest minimum left => Rule.binaryRest g minimum left
  | unary => Rule.unary g
  | primary => Rule.primary g
  | postfixRest start operand => Rule.postfixRest g start operand
  | args => Rule.args g
  | elements => Rule.elements g

/-- The grammar with calls nested at most so deep. -/
def parser : Nat → Grammar
  | 0 => fun _ ↦ Parser.fail .nestingTooDeep
  | depth + 1 => rule (parser depth)

/-- A bound on the calls between two tokens. -/
def depthPerToken : Nat := 16

/-- The grammar at a depth that is enough for a number of tokens. -/
def parserFor (tokens : Nat) : Grammar := parser (depthPerToken * (tokens + 1))

end Goal

namespace Parser

/-- Runs a parser on the tokens of a file that was just registered. -/
def runOn {α : Type} (parser : Grammar → Parser α) (space : SpaceId) (entry : FileEntry)
    (text : String) : Except ParseError α :=
  match TokenStream.ofText text with
  | .error error => .error ⟨entry.location (entry.pos error.offset), .invalidCharacter⟩
  | .ok stream => do
    let input : ParseInput := ⟨space, entry, text.toList, stream.comments⟩
    let state : ParseState := ⟨stream.tokens, 0, 0, 1⟩
    let (result, _) ← parser (Goal.parserFor stream.tokens.length) input state
    return result

/-- A whole file: the package clause, the imports, and the other declarations. -/
def sourceFile (g : Grammar) : Parser SourceFile := do
  let entry := (← read).entry
  let _ ← expect .kwPackage
  let packageName ← ident
  separator
  let imports ← g.importDecls
  let decls ← g.decls
  let info ← node ⟨entry.pos 0, entry.pos entry.size⟩
  return ⟨info, entry.name, packageName, imports ++ decls⟩

/-- A whole text that is one expression. -/
def wholeExpr (g : Grammar) : Parser Expr := do
  let expr ← g.expr
  let _ ← eat .semicolon
  if ← isDone then return expr else fail .trailingInput

end Parser

namespace FileSet

/-- Registers a text and parses it as a file. The text stays registered when it is refused. -/
def parseFile (set : FileSet) (name text : String) : FileSet × Except ParseError SourceFile :=
  (set.add name text, Parser.runOn Parser.sourceFile set.space (set.nextEntry name text) text)

/-- Registers a text and parses it as an expression. -/
def parseExpr (set : FileSet) (name text : String) : FileSet × Except ParseError Expr :=
  (set.add name text, Parser.runOn Parser.wholeExpr set.space (set.nextEntry name text) text)

end FileSet

end PackageAtlas
