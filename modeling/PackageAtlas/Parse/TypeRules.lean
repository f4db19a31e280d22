import PackageAtlas.Parse.Goal

/-!
The rules for types, signatures and parameter lists.
-/

set_option autoImplicit false
set_option relaxedAutoImplicit false

namespace PackageAtlas.Rule

open PackageAtlas.Parser

/-- Names with commas between them. -/
def idents (g : Grammar) : Parser (List Ident) := do
  let first ← ident
  if ← eat .comma then return first :: (← g.idents) else return [first]

/-! ### Signatures -/

def startsType : TokenKind → Bool
  | .ident | .star | .lbracket | .kwMap | .kwStruct | .kwInterface | .kwFunc | .lparen => true
  | _ => false

/-- A field without names, over its type. -/
def unnamedField (type : Expr) : Parser Field := return ⟨← node type.span, [], type⟩

/-- Parameters, and then results in parentheses, one result type, or nothing. -/
def signature (g : Grammar) (start : Nat) : Parser FuncType := do
  let params ← g.parameters
  let results ←
    if ← isNext .lparen then g.parameters
    else if (← peek?).any startsType then do
      pure [← unnamedField (← g.type)]
    else pure []
  return ⟨← nodeFrom start, params, results⟩

/-- The entries of a parameter list up to its closing parenthesis: a type, or a name and a type. -/
def parameterEntries (g : Grammar) : Parser (List (Expr × Option Expr)) := do
  if ← isNext .rparen then return []
  let first ← g.type
  let type ←
    if (← isNext .comma) || (← isNext .rparen) then pure none else some <$> g.type
  if ← eat .comma then return (first, type) :: (← g.parameterEntries)
  else return [(first, type)]

/-- Groups entries into fields: names wait for the type that follows them. -/
def namedFields (pending : List Ident) : List (Expr × Option Expr) → Parser (List Field)
  | [] => if pending.isEmpty then return [] else fail .mixedParameters
  | (.ident name, none) :: rest => namedFields (pending ++ [name]) rest
  | (.ident name, some type) :: rest => do
    let names := pending ++ [name]
    let start := (names.head?.map (·.pos)).getD name.pos
    let info ← node ⟨start, type.span.stop⟩
    return ⟨info, names, type⟩ :: (← namedFields [] rest)
  | _ :: _ => fail .mixedParameters

/-- A parameter list: either no entry has a name or all have. -/
def parameters (g : Grammar) : Parser (List Field) := do
  let _ ← expect .lparen
  let entries ← g.parameterEntries
  let _ ← expect .rparen
  if entries.all (·.2.isNone) then entries.mapM fun entry ↦ unnamedField entry.1
  else namedFields [] entries

/-! ### Types -/

/-- A name, or a name qualified by an import. -/
def typeName : Parser Expr := do
  let start ← start
  let name ← ident
  if (← isNext .dot) && (← peekSecond?) == some .ident then
    let _ ← bump
    let selected ← ident
    return .selector (← nodeFrom start) (.ident name) selected
  else return .ident name

def arrayType (g : Grammar) : Parser Expr := do
  let start ← start
  let _ ← expect .lbracket
  let length ← if ← isNext .rbracket then pure none else some <$> nested g.expr
  let _ ← expect .rbracket
  let element ← g.type
  return .arrayType (← nodeFrom start) length element

def mapType (g : Grammar) : Parser Expr := do
  let start ← start
  let _ ← expect .kwMap
  let _ ← expect .lbracket
  let key ← g.type
  let _ ← expect .rbracket
  let value ← g.type
  return .mapType (← nodeFrom start) key value

/-- Whether an embedded type starts here: a pointer, or a name that no type follows. -/
def isEmbedded : Parser Bool := do
  if ← isNext .star then return true
  if ← isNext .ident then
    return (← peekSecond?).any fun kind ↦
      kind = .semicolon || kind = .rbrace || kind = .dot || kind = .string
  else return false

/-- The fields of a struct up to its closing brace. A tag after a field has no meaning here. -/
def structFields (g : Grammar) : Parser (List Field) := do
  if (← isNext .rbrace) || (← isDone) then return []
  let start ← start
  let names ← if ← isEmbedded then pure [] else g.idents
  let type ← g.type
  let _ ← eat .string
  let field := ⟨← nodeFrom start, names, type⟩
  separator
  return field :: (← g.structFields)

def structType (g : Grammar) : Parser Expr := do
  let start ← start
  let _ ← expect .kwStruct
  let _ ← expect .lbrace
  let fields ← g.structFields
  let _ ← expect .rbrace
  return .structType (← nodeFrom start) fields

/-- The elements of an interface up to its closing brace: methods and embedded types. -/
def interfaceElements (g : Grammar) : Parser (List Field) := do
  if (← isNext .rbrace) || (← isDone) then return []
  let start ← start
  let (names, type) ←
    if (← isNext .ident) && (← peekSecond?) == some .lparen then do
      let name ← ident
      let type ← g.signature (← Parser.start)
      pure ([name], Expr.funcType type)
    else do pure ([], ← typeName)
  let element := ⟨← nodeFrom start, names, type⟩
  separator
  return element :: (← g.interfaceElements)

def interfaceType (g : Grammar) : Parser Expr := do
  let start ← start
  let _ ← expect .kwInterface
  let _ ← expect .lbrace
  let elements ← g.interfaceElements
  let _ ← expect .rbrace
  return .interfaceType (← nodeFrom start) elements

def type (g : Grammar) : Parser Expr := do
  let start ← start
  match ← peek? with
  | some .ident => typeName
  | some .star =>
    let _ ← bump
    let operand ← g.type
    return .star (← nodeFrom start) operand
  | some .lparen =>
    let _ ← bump
    let inner ← g.type
    let _ ← expect .rparen
    return .paren (← nodeFrom start) inner
  | some .lbracket => arrayType g
  | some .kwMap => mapType g
  | some .kwStruct => structType g
  | some .kwInterface => interfaceType g
  | some .kwFunc =>
    let _ ← bump
    return .funcType (← g.signature start)
  | _ => fail (.expected .type)

end PackageAtlas.Rule
