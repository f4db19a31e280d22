import PackageAtlas.Check.Task

/-!
Type expressions. What is no type is reported and becomes the invalid type.
-/

set_option autoImplicit false
set_option relaxedAutoImplicit false

namespace PackageAtlas.CheckRule

open Check

/-- Reports a problem of a type expression. -/
def badType (pos : Nat) (problem : Problem) : Check Ty := do
  report pos problem
  return .invalid

/-- The type that a name stands for. An alias is resolved before it is used. -/
def namedType (c : Checker) (ident : Ident) : Check Ty := do
  match ← lookup? ident.name with
  | none => badType ident.pos (.undefined ident.name)
  | some id =>
    recordUse ident id
    let found ← symbol id
    if found.kind ≠ .typeName then
      markUsed id
      badType ident.pos (.noType ident.name)
    else
      if found.isAlias && found.type.isNone then c.resolve id
      typeOf id

/-- The exported type of a package under a name; stand-in packages have types of which nothing is
known. -/
def packageType (package selected : Ident) (scope : PackageScope) : Check Ty := do
  if scope.isFake then
    recordUse selected (← foreignMember selected.name)
    return .invalid
  match scope.find? selected.name with
  | none => badType selected.pos (.undefinedMember package.name selected.name)
  | some id =>
    let found ← symbol id
    if found.kind = .typeName && found.isExported then
      recordUse selected id
      typeOf id
    else badType selected.pos (.memberNoType package.name selected.name)

/-- The type that a name qualified by an import stands for. -/
def qualifiedType (info : NodeInfo) (operand : Expr) (selected : Ident) : Check Ty := do
  match operand with
  | .ident package =>
    match ← lookup? package.name with
    | none => badType package.pos (.undefined package.name)
    | some id =>
      recordUse package id
      markUsed id
      match (← symbol id).imported with
      | none => badType package.pos (.noPackage package.name)
      | some scope => packageType package selected scope
  | _ => badType info.span.start .badQualifiedType

/-- An array type, or a slice type without a length. -/
def arrayType (c : Checker) (length : Option Expr) (element : Expr) : Check Ty := do
  let element ← c.typeExpr element
  match length with
  | none => return .slice element
  | some length =>
    match (← c.expr length).value with
    | some (.ofNat n) => return .array n element
    | _ => badType length.pos .badArrayLength

/-- The name of an embedded field: that of its type, without a pointer or an import. -/
def embeddedName? : Expr → Option Ident
  | .ident i => some i
  | .selector _ _ selected => some selected
  | .star _ operand => embeddedName? operand
  | .paren _ inner => embeddedName? inner
  | _ => none

/-- A field of a struct as a member, with a symbol of its own. -/
def fieldMember (name : Ident) (isEmbedded : Bool) (type : Ty) : Check Member := do
  let id ← addSymbol
    { (← declared .var name) with isField := true, isEmbedded, type := some type }
  return ⟨id, name.name, isEmbedded, type⟩

/-- Adds the named fields of an entry; a name may stand for one field only. -/
def namedFields (type : Ty) (fields : List Member) (names : List Ident) :
    Check (List Member) :=
  names.foldlM (fun fields name ↦ do
    let field ← fieldMember name false type
    recordDef name field.symbol
    if !name.isBlank && fields.any (·.name == name.name) then
      report name.pos (.fieldRedeclared name.name)
    return fields ++ [field]) fields

def structType (c : Checker) (fields : List Field) : Check Ty := do
  let members ← fields.foldlM (fun members field ↦ do
    let type ← c.typeExpr field.type
    if field.names.isEmpty then
      match embeddedName? field.type with
      | none =>
        report field.info.span.start .badEmbedded
        return members
      | some name => return members ++ [← fieldMember name true type]
    else namedFields type members field.names) []
  return .struct members

/-- Methods together with those of an embedded interface that are not among them by name. -/
def withEmbedded (methods inner : List Member) : List Member :=
  inner.foldl (fun methods method ↦
    if methods.any (·.name == method.name) then methods else methods ++ [method]) methods

def interfaceType (c : Checker) (elements : List Field) : Check Ty := do
  let methods ← elements.foldlM (fun methods element ↦ do
    let type ← c.typeExpr element.type
    match element.names with
    | name :: _ =>
      let id ← addSymbol { (← declared .func name) with type := some type }
      recordDef name id
      return methods ++ [⟨id, name.name, false, type⟩]
    | [] =>
      match ← c.underlying type with
      | .interface inner => return withEmbedded methods inner
      | .invalid => return methods
      | other =>
        report element.info.span.start (.typeNoInterface other)
        return methods) []
  return .interface methods

/-- The types of parameters or results, one for each that an entry declares. -/
def fieldTypes (c : Checker) (fields : List Field) : Check (List Ty) := do
  let types ← fields.mapM fun field ↦ do
    return List.replicate field.arity (← c.typeExpr field.type)
  return types.flatten

/-- The signature of a function type, which is the type of its node. -/
def signature (c : Checker) (type : FuncType) : Check Signature := do
  let params ← fieldTypes c type.params
  let results ← fieldTypes c type.results
  let signature : Signature := ⟨params, results⟩
  recordType type.info.id (.func signature)
  return signature

/-- The type that an expression stands for. -/
def typeOfExpr (c : Checker) : Expr → Check Ty
  | .ident i => namedType c i
  | .selector info operand selected => qualifiedType info operand selected
  | .paren _ inner => c.typeExpr inner
  | .star _ operand => do return .pointer (← c.typeExpr operand)
  | .arrayType _ length element => arrayType c length element
  | .mapType _ key value => do
    let key ← c.typeExpr key
    return .map key (← c.typeExpr value)
  | .structType _ fields => structType c fields
  | .interfaceType _ elements => interfaceType c elements
  | .funcType type => do return .func (← signature c type)
  | other => badType other.pos .exprNoType

/-- Evaluates a type expression and records its type. -/
def typeExpr (c : Checker) (expr : Expr) : Check Ty := do
  let type ← typeOfExpr c expr
  recordType expr.id type
  return type

/-! ### Parameters -/

/-- Declares the names of parameters or results with their types. -/
def declareFields : List Field → List Ty → Check Unit
  | [], _ => return
  | field :: rest, types => do
    (field.names.zip types).forM fun (name, type) ↦ do
      declareLocal name (← addVariable name type false)
    declareFields rest (types.drop field.arity)

/-- Declares the parameters and results of a function in the innermost block. -/
def declareParams (type : FuncType) (signature : Signature) : Check Unit := do
  declareFields type.params signature.params
  declareFields type.results signature.results

end PackageAtlas.CheckRule
