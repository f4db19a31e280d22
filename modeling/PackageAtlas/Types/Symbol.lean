import PackageAtlas.Source.FileSet
import PackageAtlas.Tree.Basic
import PackageAtlas.Types.Basic
import PackageAtlas.Types.Dict

/-!
Symbols and the store that holds them. What a symbol is stays as it was made; its type, underlying
type and value are settled once, and whatever is set later is ignored.
-/

set_option autoImplicit false
set_option relaxedAutoImplicit false

namespace PackageAtlas

inductive SymbolKind where
  | var | const | typeName | func | pkgName | builtin | nil
deriving DecidableEq, Repr, Inhabited

/-- Where a symbol was declared. -/
structure Origin where
  space : SpaceId
  pos : Nat
deriving DecidableEq, Repr, Inhabited

/-- What a checked package shows to others: its import path, its name, and its members in the order
of declaration. A stand-in package has every member one asks for. -/
structure PackageScope where
  path : String
  name : String
  members : Dict String SymbolId
  isFake : Bool
deriving Inhabited

namespace PackageScope

/-- A stand-in package. -/
def fake (path : String) : PackageScope := ⟨path, path, Dict.empty, true⟩

def find? (scope : PackageScope) (name : String) : Option SymbolId := scope.members.find? name

end PackageScope

/-- What is known of a symbol. -/
structure Symbol where
  kind : SymbolKind
  name : String
  package : Option String := none
  origin : Option Origin := none
  isField : Bool := false
  isEmbedded : Bool := false
  isAlias : Bool := false
  isLocal : Bool := false
  type : Option Ty := none
  underlying : Option Ty := none
  value : Option Int := none
  hasValue : Bool := false
  methods : List SymbolId := []
  imported : Option PackageScope := none
deriving Inhabited

namespace Symbol

def pos (symbol : Symbol) : Nat := (symbol.origin.map (·.pos)).getD 0

def isExported (symbol : Symbol) : Bool := PackageAtlas.isExported symbol.name

def isFunc (symbol : Symbol) : Bool := symbol.kind == .func

/-- Whether the symbol names a defined type rather than an alias. -/
def isDefinedType (symbol : Symbol) : Bool := symbol.kind == .typeName && !symbol.isAlias

end Symbol

/-- All symbols, by identity. -/
structure Store where
  symbols : Array Symbol
deriving Inhabited

namespace Store

def get (store : Store) (id : SymbolId) : Symbol := store.symbols[id.index]?.getD default

/-- The identity of the next symbol. -/
def next (store : Store) : SymbolId := ⟨store.symbols.size⟩

def push (store : Store) (symbol : Symbol) : Store := ⟨store.symbols.push symbol⟩

def modify (store : Store) (id : SymbolId) (change : Symbol → Symbol) : Store :=
  ⟨store.symbols.modify id.index change⟩

/-! ### Settling -/

def setType (store : Store) (id : SymbolId) (type : Ty) : Store :=
  store.modify id fun symbol ↦ { symbol with type := symbol.type <|> some type }

def setUnderlying (store : Store) (id : SymbolId) (type : Ty) : Store :=
  store.modify id fun symbol ↦ { symbol with underlying := symbol.underlying <|> some type }

/-- Settles the value of a constant, which may be that it has none. -/
def setValue (store : Store) (id : SymbolId) (value : Option Int) : Store :=
  store.modify id fun symbol ↦
    if symbol.hasValue then symbol else { symbol with value, hasValue := true }

def addMethod (store : Store) (id method : SymbolId) : Store :=
  store.modify id fun symbol ↦ { symbol with methods := symbol.methods ++ [method] }

/-! ### Types of symbols -/

/-- The type of a symbol; the name of a defined type stands for that type. -/
def typeOf (store : Store) (id : SymbolId) : Ty :=
  let symbol := store.get id
  if symbol.isDefinedType then .named ⟨id, symbol.name, symbol.package⟩
  else symbol.type.getD .invalid

/-- The structure behind a type. -/
def underlying (store : Store) : Ty → Ty
  | .named name => ((store.get name.symbol).underlying).getD .invalid
  | other => other

/-- The structure behind the type that a symbol names. -/
def underlyingOf (store : Store) (id : SymbolId) : Ty := store.underlying (store.typeOf id)

/-- The method of a defined type with a name. -/
def method? (store : Store) (id : SymbolId) (name : String) : Option SymbolId :=
  (store.get id).methods.find? fun method ↦ (store.get method).name == name

/-! ### Views of types -/

def basic? (store : Store) (type : Ty) : Option BasicKind :=
  match store.underlying type with
  | .basic kind => some kind
  | _ => none

def isNumeric (store : Store) (type : Ty) : Bool := (store.basic? type).any BasicKind.isNumeric

def isBoolean (store : Store) (type : Ty) : Bool := (store.basic? type).any BasicKind.isBoolean

def isString (store : Store) (type : Ty) : Bool := (store.basic? type).any BasicKind.isString

def isInterface (store : Store) (type : Ty) : Bool :=
  match store.underlying type with
  | .interface _ => true
  | _ => false

/-- The type that a pointer points to. -/
def pointee? (store : Store) (type : Ty) : Option Ty :=
  match store.underlying type with
  | .pointer element => some element
  | _ => none

def signature? (store : Store) (type : Ty) : Option Signature :=
  match store.underlying type with
  | .func signature => some signature
  | _ => none

/-! ### Texts -/

/-- How reports write a symbol. -/
def symbolText (store : Store) (id : SymbolId) : String :=
  let symbol := store.get id
  match symbol.kind with
  | .pkgName => "package " ++ symbol.name
  | .typeName => "type " ++ (store.typeOf id).text
  | .func => "func " ++ symbol.name
  | .const => "const " ++ symbol.name ++ " " ++ (store.typeOf id).text
  | .var =>
    (if symbol.isField then "field " else "var ") ++ symbol.name ++ " " ++ (store.typeOf id).text
  | .builtin => "builtin " ++ symbol.name
  | .nil => "nil"

end Store

end PackageAtlas
