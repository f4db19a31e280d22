import PackageAtlas.Check.Problem
import PackageAtlas.Types.Relation
import PackageAtlas.Types.Universe

/-!
The state of a check. What is learned is kept in the type information and in the symbol store; the
context says from where names are looked up, and is put aside while a package-level declaration is
resolved on demand.
-/

set_option autoImplicit false
set_option relaxedAutoImplicit false

namespace PackageAtlas

/-- An occurrence of a name and the symbol that it declares or uses. -/
structure IdentRef where
  ident : Ident
  symbol : SymbolId
deriving DecidableEq, Repr

/-- What a check learned about the nodes of a package: types of expressions, names that declare a
symbol, names that use one, and symbols without a name, by the import or arm that makes them. -/
structure TypeInfo where
  types : List (NodeId × Ty)
  defs : Dict NodeId IdentRef
  uses : Dict NodeId IdentRef
  implicits : Dict NodeId SymbolId
deriving Inhabited

namespace TypeInfo

def empty : TypeInfo := ⟨[], Dict.empty, Dict.empty, Dict.empty⟩

/-- The type of a node, the one recorded last. -/
def typeOf? (info : TypeInfo) (id : NodeId) : Option Ty := info.types.lookup id

/-- The symbol that a name declares or uses. -/
def objectOf? (info : TypeInfo) (id : NodeId) : Option SymbolId :=
  ((info.defs.find? id).orElse fun _ ↦ info.uses.find? id).map (·.symbol)

end TypeInfo

/-- What a package-level symbol is resolved from when it is first needed. -/
inductive Pending where
  | type (spec : TypeSpec) (file : Nat)
  | value (group : Nat)
  | func (decl : FuncDecl) (file : Nat)

/-- A spec of variables or constants, which are typed together. -/
structure ValueGroup where
  symbols : List SymbolId
  type : Option Expr
  values : List Expr
  iota : Int
  isConst : Bool
  file : Nat

instance : Inhabited ValueGroup := ⟨⟨[], none, [], 0, false, 0⟩⟩

/-- An import that counts as unused until it is used. -/
structure DeclaredImport where
  symbol : SymbolId
  pos : Nat
  path : String

/-- The names that the imports of a file bring in. -/
structure FileScope where
  imports : Dict String SymbolId
  dotImports : List PackageScope
  declared : List DeclaredImport

namespace FileScope

def empty : FileScope := ⟨Dict.empty, [], []⟩

end FileScope

instance : Inhabited FileScope := ⟨FileScope.empty⟩

/-- Names of a block. -/
abbrev BlockScope := Dict String SymbolId

/-- From where names are looked up: the file, the blocks around, the innermost first, the number of
the constant in its group, and the results of the functions around, the innermost first. -/
structure Context where
  file : Nat
  scopes : List BlockScope
  iota : Option Int
  results : List (List Ty)

namespace Context

/-- The context of a package-level declaration of a file. -/
def ofFile (file : Nat) : Context := ⟨file, [], none, []⟩

end Context

/-- A name bound by a type switch, with its symbol in each arm. -/
structure SwitchBinding where
  binding : Ident
  symbols : List SymbolId

/-- What the check of a package starts from. -/
structure CheckInput where
  path : String
  space : SpaceId
  importer : String → Except ImportError PackageScope
  fakeForeign : Bool

structure CheckState where
  store : Store
  /-- The reports so far, the last one first. -/
  reports : List Diagnostic
  info : TypeInfo
  context : Context
  members : Dict String SymbolId
  files : List FileScope
  /-- The package-level symbols in order, blank ones included. -/
  objects : List SymbolId
  pending : Dict SymbolId Pending
  groups : List ValueGroup
  /-- The types and the groups that are being resolved. -/
  resolving : List SymbolId
  resolvingGroups : List Nat
  funcs : List (FuncDecl × SymbolId × Nat)
  used : List SymbolId
  locals : List SymbolId
  bindings : List SwitchBinding
  /-- The members of the stand-in package that were asked for. -/
  foreign : Dict String SymbolId

namespace CheckState

/-- The state before a check. -/
def start (store : Store) : CheckState :=
  { store, reports := [], info := TypeInfo.empty, context := Context.ofFile 0,
    members := Dict.empty, files := [], objects := [], pending := Dict.empty, groups := [],
    resolving := [], resolvingGroups := [], funcs := [], used := [], locals := [],
    bindings := [], foreign := Dict.empty }

end CheckState

/-- A step of a check; without a result when resolving went on without end. -/
abbrev Check := ReaderT CheckInput (StateT CheckState Option)

namespace Check

/-! ### Reports and records -/

def report (pos : Nat) (problem : Problem) : Check Unit :=
  modify fun s ↦ { s with reports := ⟨pos, problem⟩ :: s.reports }

def recordType (id : NodeId) (type : Ty) : Check Unit :=
  modify fun s ↦ { s with info.types := (id, type) :: s.info.types }

def recordDef (ident : Ident) (symbol : SymbolId) : Check Unit :=
  modify fun s ↦ { s with info.defs := s.info.defs.insert ident.info.id ⟨ident, symbol⟩ }

def recordUse (ident : Ident) (symbol : SymbolId) : Check Unit :=
  modify fun s ↦ { s with info.uses := s.info.uses.insert ident.info.id ⟨ident, symbol⟩ }

def recordImplicit (id : NodeId) (symbol : SymbolId) : Check Unit :=
  modify fun s ↦ { s with info.implicits := s.info.implicits.insert id symbol }

/-! ### Symbols -/

def store : Check Store := return (← get).store

def symbol (id : SymbolId) : Check Symbol := return (← store).get id

def typeOf (id : SymbolId) : Check Ty := return (← store).typeOf id

def underlying (type : Ty) : Check Ty := return (← store).underlying type

def assignable (value target : Ty) : Check Bool := return (← store).assignable value target

def modifyStore (change : Store → Store) : Check Unit :=
  modify fun s ↦ { s with store := change s.store }

def setType (id : SymbolId) (type : Ty) : Check Unit := modifyStore (·.setType id type)

def addSymbol (symbol : Symbol) : Check SymbolId := do
  let id := (← store).next
  modifyStore (·.push symbol)
  return id

/-- A new symbol of the package, declared by a name. -/
def declared (kind : SymbolKind) (ident : Ident) : Check Symbol := do
  let input ← read
  return { kind, name := ident.name, package := some input.path,
           origin := some ⟨input.space, ident.pos⟩ }

/-- A variable whose type is known from the start. -/
def addVariable (ident : Ident) (type : Ty) (isLocal : Bool) : Check SymbolId := do
  addSymbol { (← declared .var ident) with type := some type, isLocal }

/-! ### Scopes -/

/-- Runs a step in a block of its own. -/
def inBlock {α : Type} (step : Check α) : Check α := do
  modify fun s ↦ { s with context.scopes := Dict.empty :: s.context.scopes }
  let result ← step
  modify fun s ↦ { s with context.scopes := s.context.scopes.tail }
  return result

/-- Runs a step in a function with the given results. -/
def inFunction {α : Type} (results : List Ty) (step : Check α) : Check α := do
  modify fun s ↦ { s with context.results := results :: s.context.results }
  let result ← step
  modify fun s ↦ { s with context.results := s.context.results.tail }
  return result

/-- Runs a step in another context and comes back. -/
def inContext {α : Type} (context : Context) (step : Check α) : Check α := do
  let saved := (← get).context
  modify fun s ↦ { s with context }
  let result ← step
  modify fun s ↦ { s with context := saved }
  return result

/-- Puts a name into the innermost block. -/
def bind (name : String) (symbol : SymbolId) : Check Unit :=
  modify fun s ↦
    match s.context.scopes with
    | [] => s
    | scope :: outer => { s with context.scopes := scope.insert name symbol :: outer }

def lookupInnermost? (name : String) : Check (Option SymbolId) := do
  return (← get).context.scopes.head?.bind (·.find? name)

/-- Declares a name in the innermost block. -/
def declareLocal (ident : Ident) (symbol : SymbolId) : Check Unit := do
  recordDef ident symbol
  if ident.isBlank then return
  if (← lookupInnermost? ident.name).isSome then report ident.pos (.redeclared ident.name)
  else bind ident.name symbol

end Check

namespace CheckState

/-- The exported member of a name among dot imports, the first package first. -/
def dotImported? (store : Store) (name : String) (scopes : List PackageScope) : Option SymbolId :=
  scopes.findSome? fun scope ↦ (scope.find? name).filter fun id ↦ (store.get id).isExported

/-- The symbol of a name: from the blocks around, the imports of the file, the package, the dot
imports of the file, and the universe, in this order. -/
def lookup? (s : CheckState) (name : String) : Option SymbolId :=
  let file := s.files[s.context.file]?.getD FileScope.empty
  (s.context.scopes.findSome? (·.find? name)) <|> file.imports.find? name <|>
    s.members.find? name <|> dotImported? s.store name file.dotImports <|> Universe.find? name

end CheckState

namespace Check

def lookup? (name : String) : Check (Option SymbolId) := return (← get).lookup? name

/-- Notes that a variable or an import is used. -/
def markUsed (id : SymbolId) : Check Unit := do
  let kind := (← symbol id).kind
  if kind = .var || kind = .pkgName then
    modify fun s ↦ if s.used.contains id then s else { s with used := id :: s.used }

/-- The symbol of a member of the stand-in package, of which nothing is known. -/
def foreignMember (name : String) : Check SymbolId := do
  match (← get).foreign.find? name with
  | some id => return id
  | none =>
    let id ← addSymbol { kind := .var, name, package := some "C", type := some .invalid }
    modify fun s ↦ { s with foreign := s.foreign.insert name id }
    return id

end Check

end PackageAtlas
