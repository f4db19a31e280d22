import PackageAtlas.Check.StmtRules
import PackageAtlas.Tree.LiteralValue

/-!
Package-level declarations. They are collected first; each symbol is resolved when it is first
needed, in the context of its own file, so that the order of declarations does not matter. What
needs itself to be resolved is reported.
-/

set_option autoImplicit false
set_option relaxedAutoImplicit false

namespace PackageAtlas

/-- The names of a file with those of one more import. A blank import brings in none. -/
def FileScope.add (file : FileScope) (name : String) (entry : DeclaredImport)
    (scope : PackageScope) : FileScope :=
  if name = "_" then file
  else if name = "." then { file with dotImports := file.dotImports ++ [scope] }
  else
    { file with
      imports := file.imports.insert name entry.symbol
      declared := if scope.isFake then file.declared else file.declared ++ [entry] }

namespace CheckRule

open Check

/-! ### Collecting -/

/-- The package that a path stands for. -/
def importedScope (path : String) : Check (Except ImportError PackageScope) := do
  let input ← read
  if path = foreignPath && input.fakeForeign then return .ok (PackageScope.fake foreignPath)
  else return input.importer path

/-- Collects an import of a file. -/
def collectImport (file : Nat) (spec : ImportSpec) : Check Unit := do
  let path := spec.pathValue
  let pos := spec.path.info.span.start
  match ← importedScope path with
  | .error reason => report pos (.notImported path reason)
  | .ok scope =>
    let input ← read
    let name := (spec.name.map (·.name)).getD scope.name
    let namePos := (spec.name.map (·.pos)).getD pos
    let id ← addSymbol
      { kind := .pkgName, name, package := some input.path, imported := some scope
        origin := some ⟨input.space, namePos⟩ }
    match spec.name with
    | some ident => recordDef ident id
    | none => recordImplicit spec.info.id id
    modify fun s ↦ { s with files := s.files.modify file (·.add name ⟨id, pos, path⟩ scope) }

/-- Adds a name to the package; the first declaration of a name stands. -/
def declareMember (ident : Ident) (id : SymbolId) : Check Unit := do
  modify fun s ↦ { s with objects := s.objects ++ [id] }
  unless ident.isBlank do
    if (← get).members.contains ident.name then report ident.pos (.redeclared ident.name)
    else modify fun s ↦ { s with members := s.members.insert ident.name id }

/-- Makes a package-level symbol that is resolved later. -/
def pendingSymbol (ident : Ident) (found : Symbol) (pending : Pending) : Check SymbolId := do
  let id ← addSymbol found
  recordDef ident id
  modify fun s ↦ { s with pending := s.pending.insert id pending }
  return id

/-- Makes the symbol of a function or method. -/
def pendingFunc (file : Nat) (decl : FuncDecl) : Check SymbolId := do
  let id ← pendingSymbol decl.name (← declared .func decl.name) (.func decl file)
  modify fun s ↦ { s with funcs := s.funcs ++ [(decl, id, file)] }
  return id

/-- Collects a function. Initializers have no name that could be used. -/
def collectFunc (file : Nat) (decl : FuncDecl) : Check Unit := do
  let id ← pendingFunc file decl
  unless decl.name.name == "init" do declareMember decl.name id

def collectType (file : Nat) (spec : TypeSpec) : Check Unit := do
  let found := { (← declared .typeName spec.name) with isAlias := spec.isAlias }
  declareMember spec.name (← pendingSymbol spec.name found (.type spec file))

/-- Collects the names of a spec of variables or constants as one group. -/
def collectValues (file iota : Nat) (isConst : Bool) (spec : ValueSpec) (init : Initializers) :
    Check Unit := do
  let group := (← get).groups.length
  let ids ← spec.names.mapM fun name ↦ do
    let found ← declared (if isConst then .const else .var) name
    let id ← pendingSymbol name found (.value group)
    declareMember name id
    return id
  modify fun s ↦ { s with groups := s.groups ++ [⟨ids, init.1, init.2, iota, isConst, file⟩] }

/-- Collects the specs of a declaration, the first of which has this number. -/
def collectSpecs (file : Nat) (isConst : Bool) :
    Nat → Option Initializers → List Spec → Check Unit
  | _, _, [] => return
  | iota, inherited, spec :: rest => do
    match spec with
    | .imports _ => collectSpecs file isConst (iota + 1) inherited rest
    | .type spec =>
      collectType file spec
      collectSpecs file isConst (iota + 1) inherited rest
    | .value spec =>
      let init := if isConst then constInitializers inherited spec else (spec.type, spec.values)
      collectValues file iota isConst spec init
      collectSpecs file isConst (iota + 1) (if isConst then some init else inherited) rest

def collectDecl (file : Nat) : Decl → Check Unit
  | .gen decl => collectSpecs file (decl.kind == .const) 0 none decl.specs
  | .func decl => if decl.receiver.isNone then collectFunc file decl else return

/-- Collects the imports and the declarations of a file. -/
def collectFile (file : Nat) (source : SourceFile) : Check Unit := do
  modify fun s ↦ { s with files := s.files ++ [FileScope.empty] }
  source.imports.forM (collectImport file)
  source.decls.forM (collectDecl file)

/-! ### Methods -/

/-- Whether a type has a method or a field of a name already. -/
def hasMember (store : Store) (owner : SymbolId) (name : String) : Bool :=
  (store.method? owner name).isSome ||
    match store.underlyingOf owner with
    | .struct fields => fields.any (·.name == name)
    | _ => false

/-- Gives a method to the type of its receiver. -/
def attachMethod (decl : FuncDecl) (base : Ident) (owner method : SymbolId) : Check Unit := do
  let store ← store
  if !(store.get owner).isDefinedType then report base.pos (.badReceiverType base.name)
  else if decl.name.isBlank then return
  else if hasMember store owner decl.name.name then
    report decl.name.pos (.memberClash (store.get owner).name decl.name.name)
  else modifyStore (·.addMethod owner method)

/-- Collects a method. -/
def collectMethod (file : Nat) (decl : FuncDecl) : Check Unit := do
  let id ← pendingFunc file decl
  match decl.receiverBase? with
  | none => report decl.name.pos .badReceiver
  | some base =>
    match (← get).members.find? base.name with
    | none => report base.pos (.undefined base.name)
    | some owner => attachMethod decl base owner id

/-- Collects the methods of a file. -/
def collectMethods (file : Nat) (source : SourceFile) : Check Unit :=
  source.decls.forM fun
    | .func decl => if decl.receiver.isSome then collectMethod file decl else return
    | .gen _ => return

/-! ### Resolving -/

/-- Settles what a type name stands for: the type of an alias, else the underlying type. -/
def settleType (id : SymbolId) (isAlias : Bool) (type : Ty) : Check Unit :=
  if isAlias then setType id type else modifyStore (·.setUnderlying id type)

/-- Resolves a type name, unless that is going on already. -/
def resolveType (c : Checker) (id : SymbolId) (spec : TypeSpec) (file : Nat) : Check Unit := do
  let found ← symbol id
  if (if spec.isAlias then found.type.isSome else found.underlying.isSome) then return
  if (← get).resolving.contains id then
    report spec.name.pos (.recursiveType spec.name.name)
    settleType id spec.isAlias .invalid
  else
    modify fun s ↦ { s with resolving := id :: s.resolving }
    let type ← inContext (Context.ofFile file) (c.typeExpr spec.type)
    if spec.isAlias then settleType id true type
    else settleType id false (← c.underlying type)
    modify fun s ↦ { s with resolving := s.resolving.erase id }

/-- Reports a value that is needed for its own initializer. -/
def cyclicValue (id : SymbolId) : Check Unit := do
  let found ← symbol id
  if found.type.isNone then
    report found.pos (.initCycle found.name)
    setType id .invalid

/-- Resolves the variables or constants of a group, unless that is going on already. -/
def resolveGroup (c : Checker) (number : Nat) : Check Unit := do
  let s ← get
  let group := s.groups[number]?.getD default
  if group.symbols.all fun id ↦ (s.store.get id).type.isSome then return
  if s.resolvingGroups.contains number then group.symbols.forM cyclicValue
  else
    modify fun s ↦ { s with resolvingGroups := number :: s.resolvingGroups }
    let iota := if group.isConst then some group.iota else none
    inContext { Context.ofFile group.file with iota } do
      initSymbols c group.symbols group.type group.values group.isConst
    modify fun s ↦ { s with resolvingGroups := s.resolvingGroups.erase number }

/-- Resolves the type of a function. -/
def resolveFunc (c : Checker) (id : SymbolId) (decl : FuncDecl) (file : Nat) : Check Unit := do
  if (← symbol id).type.isNone then
    setType id (.func (← inContext (Context.ofFile file) (signature c decl.type)))

/-- Resolves a symbol; those that are not declared in this package have their types already. -/
def resolve (c : Checker) (id : SymbolId) : Check Unit := do
  match (← get).pending.find? id with
  | none => return
  | some (.type spec file) => resolveType c id spec file
  | some (.value group) => resolveGroup c group
  | some (.func decl file) => resolveFunc c id decl file

/-! ### Bodies -/

/-- Declares the receiver of a method. -/
def declareReceiver (c : Checker) (receiver : Field) : Check Unit := do
  let type ← c.typeExpr receiver.type
  receiver.names.forM fun name ↦ do declareLocal name (← addVariable name type false)

/-- Checks the body of a function against its signature. -/
def funcBody (c : Checker) (decl : FuncDecl) (id : SymbolId) (file : Nat) : Check Unit := do
  let store ← store
  match store.signature? (store.typeOf id) with
  | none => return
  | some signature =>
    inContext (Context.ofFile file) do
      inBlock do
        decl.receiver.forM (declareReceiver c)
        declareParams decl.type signature
        decl.body.forM fun body ↦ inFunction signature.results (c.stmts body.stmts)

end CheckRule

end PackageAtlas
