import PackageAtlas.Parse.StmtRules

/-!
The rules for declarations.
-/

set_option autoImplicit false
set_option relaxedAutoImplicit false

namespace PackageAtlas.Rule

open PackageAtlas.Parser

/-- The kind of declaration that a keyword starts. -/
def declKind : TokenKind → DeclKind
  | .kwImport => .imports
  | .kwConst => .const
  | .kwVar => .var
  | _ => .type

/-- A keyword and one spec, or a list of specs in parentheses. -/
def genDecl (g : Grammar) : Parser GenDecl := do
  let keyword ← bump
  let start := (← read).entry.pos keyword.offset
  let kind := declKind keyword.kind
  let specs ←
    if ← eat .lparen then do
      let specs ← g.specs kind
      let _ ← expect .rparen
      pure specs
    else do pure [← g.spec kind keyword.offset]
  return ⟨← nodeFrom start, kind, specs⟩

/-- Specs up to the closing parenthesis. -/
def specs (g : Grammar) (kind : DeclKind) : Parser (List Spec) := do
  if (← isNext .rparen) || (← isDone) then return []
  let spec ← g.spec kind (← offset)
  separator
  return spec :: (← g.specs kind)

/-- An import: a path, after a name or a dot. -/
def importSpec (docOffset : Nat) : Parser Spec := do
  let start ← start
  let name ←
    match ← peek? with
    | some .ident => some <$> ident
    | some .dot => do pure (some (← identOf (← bump)))
    | _ => pure none
  let path ← literalOf (← expectAs .string .importPath) .string
  return .imports ⟨← nodeFrom start, name, path, ← docBefore docOffset⟩

def typeSpec (g : Grammar) : Parser Spec := do
  let start ← start
  let name ← ident
  let isAlias ← eat .eq
  let type ← g.type
  return .type ⟨← nodeFrom start, name, isAlias, type⟩

/-- Names with a type, values or both; a constant may have neither. -/
def valueSpec (g : Grammar) (kind : DeclKind) : Parser Spec := do
  let start ← start
  let names ← g.idents
  let type ←
    if (← isNext .eq) || (← isNext .semicolon) || (← isNext .rparen) then pure none
    else some <$> g.type
  let values ← if ← eat .eq then g.exprs else pure []
  if kind = .var && type.isNone && values.isEmpty then fail (.expected .typeOrInitializer)
  return .value ⟨← nodeFrom start, names, type, values⟩

def spec (g : Grammar) (kind : DeclKind) (docOffset : Nat) : Parser Spec :=
  match kind with
  | .imports => importSpec docOffset
  | .type => typeSpec g
  | .const | .var => valueSpec g kind

/-- The receiver of a method: a parameter list of one parameter. -/
def receiver (g : Grammar) : Parser Field := do
  match ← g.parameters with
  | [field] => if field.arity = 1 then return field else fail .multipleReceivers
  | _ => fail .multipleReceivers

def funcDecl (g : Grammar) : Parser FuncDecl := do
  let start ← start
  let _ ← expect .kwFunc
  let receiver ← if ← isNext .lparen then some <$> receiver g else pure none
  let name ← ident
  let type ← g.signature (← Parser.start)
  let body ← if ← isNext .lbrace then some <$> body g else pure none
  return ⟨← nodeFrom start, receiver, name, type, body⟩

/-- The imports that a file starts with. -/
def importDecls (g : Grammar) : Parser (List Decl) := do
  if ← isNext .kwImport then
    let decl ← g.genDecl
    separator
    return .gen decl :: (← g.importDecls)
  else return []

/-- The declarations after the imports, up to the end of the file. -/
def decls (g : Grammar) : Parser (List Decl) := do
  if ← isDone then return []
  let decl ←
    match ← peek? with
    | some .kwFunc => Decl.func <$> g.funcDecl
    | some .kwVar | some .kwConst | some .kwType => Decl.gen <$> g.genDecl
    | some .kwImport => fail .lateImport
    | _ => fail (.expected .declaration)
  separator
  return decl :: (← g.decls)

end PackageAtlas.Rule
