import PackageAtlas.Load.Workspace
import PackageAtlas.Query.Error

/-!
Lookups by specifier. A specifier is an import path, a dot and a name, which may be followed by
members; stars make it a pointer. What has no dot after its last slash is a type expression. An
answer that was found once is kept.
-/

set_option autoImplicit false
set_option relaxedAutoImplicit false

namespace PackageAtlas

/-- The parts of a specifier around the first dot after the last slash. -/
def splitSpecifier? (spec : List Char) : Option (List Char × List Char) :=
  let tail := (spec.reverse.takeWhile (· != '/')).reverse
  let head := spec.take (spec.length - tail.length)
  (Text.cutAt? ['.'] tail).map fun (before, after) ↦ (head ++ before, after)

/-- A text without the stars at its start, and how many these are. -/
def dropStars (text : List Char) : String × Nat :=
  (String.ofList (text.dropWhile (· == '*')), (text.takeWhile (· == '*')).length)

/-- A type behind so many pointers. -/
def Ty.pointers (type : Ty) : Nat → Ty
  | 0 => type
  | depth + 1 => .pointer (type.pointers depth)

namespace ResolvedPackage

/-- The scope that a path stands for in a package. -/
def scopeFor (package : ResolvedPackage) (path : String) :
    Load (Except LookupError PackageScope) := do
  if path = package.path then return .ok package.scope
  let result ← Load.importPath package.place.loader path (some package.place.dir)
  return result.mapError (LookupError.notImported path)

/-! ### Types -/

/-- The type of a name in a scope. -/
def typeIn (store : Store) (scope : PackageScope) (spec name : String) : Except LookupError Ty :=
  match scope.find? name with
  | none => .error (.notFound .type spec)
  | some id =>
    if (store.get id).kind = .typeName then .ok (store.typeOf id)
    else .error (.notType (scope.path ++ "." ++ name))

/-- Evaluates a type expression. -/
def evalTypeExpr (spec : String) : Load (Except LookupError Ty) := do
  let atlas := (← get).atlas
  let evaluated ← evalType atlas.nextSpace atlas.store spec
  let atlas := { atlas.addSpace evaluated.files with store := evaluated.store }
  modify fun w ↦ { w with atlas }
  return evaluated.result.mapError fun diagnostic ↦ .noTypeExpr spec diagnostic.problem

/-- The type that a specifier stands for. -/
def resolveType (package : ResolvedPackage) (spec : String) : Load (Except LookupError Ty) := do
  match splitSpecifier? spec.toList with
  | none => evalTypeExpr spec
  | some (path, name) =>
    let (path, outer) := dropStars path
    let (name, inner) := dropStars name
    match ← package.scopeFor path with
    | .error error => return .error error
    | .ok scope =>
      return (typeIn (← Load.store) scope spec name).map (·.pointers (outer + inner))

/-- The type that a specifier stands for, as it was found first. -/
def lookupType (package : ResolvedPackage) (spec : String) : Load (Except LookupError Ty) := do
  match (← get).lookups.types.lookup (package.handle, spec) with
  | some type => return .ok type
  | none =>
    let result ← package.resolveType spec
    if let .ok type := result then
      modify fun w ↦
        { w with lookups.types := ((package.handle, spec), type) :: w.lookups.types }
    return result

/-! ### Objects -/

/-- The name of an import that is not given one. -/
def implicitImport? (package : ResolvedPackage) (store : Store) (name : String) :
    Option SymbolId :=
  package.info.implicits.values.find? fun id ↦
    (store.get id).kind = .pkgName && (store.get id).name == name

/-- The member that names lead to from a symbol. -/
def memberPath (store : Store) (id : SymbolId) : List String → Except LookupError SymbolId
  | [] => .ok id
  | name :: rest =>
    match store.member? (store.typeOf id) name with
    | none => .error (.noMember name (store.symbolText id))
    | some member => memberPath store member rest

/-- The symbol that names lead to in a scope. -/
def objectIn (package : ResolvedPackage) (store : Store) (scope : PackageScope) (spec : String)
    (names : List String) : Except LookupError SymbolId :=
  let name := names.headD ""
  match scope.find? name <|> package.implicitImport? store name with
  | none => .error (.notFound .object spec)
  | some id => memberPath store id (names.drop 1)

/-- The symbol that a specifier stands for. -/
def resolveObject (package : ResolvedPackage) (spec : String) :
    Load (Except LookupError SymbolId) := do
  match splitSpecifier? spec.toList with
  | none => return .error (.invalidSpecifier spec)
  | some (path, names) =>
    match ← package.scopeFor (String.ofList path) with
    | .error error => return .error error
    | .ok scope =>
      return package.objectIn (← Load.store) scope spec
        ((Text.splitOn '.' names).map String.ofList)

/-- The symbol that a specifier stands for, as it was found first. -/
def lookupObject (package : ResolvedPackage) (spec : String) :
    Load (Except LookupError SymbolId) := do
  match (← get).lookups.objects.lookup (package.handle, spec) with
  | some id => return .ok id
  | none =>
    let result ← package.resolveObject spec
    if let .ok id := result then
      modify fun w ↦
        { w with lookups.objects := ((package.handle, spec), id) :: w.lookups.objects }
    return result

end ResolvedPackage

end PackageAtlas
