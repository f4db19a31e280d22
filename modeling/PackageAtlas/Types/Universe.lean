import PackageAtlas.Types.Symbol

/-!
The universe: the predeclared types, constants and functions, around every package.
-/

set_option autoImplicit false
set_option relaxedAutoImplicit false

namespace PackageAtlas.Universe

def basicTypes : List BasicKind :=
  [.bool, .int, .int8, .int16, .int32, .int64, .uint, .uint8, .uint16, .uint32, .uint64, .uintptr,
   .float32, .float64, .string]

def builtins : List String :=
  ["append", "cap", "copy", "delete", "len", "make", "new", "panic", "print", "println"]

/-- A predeclared name for a type. -/
def aliasOf (name : String) (type : Ty) : Symbol :=
  { kind := .typeName, name, isAlias := true, type := some type }

def constant (name : String) (kind : BasicKind) : Symbol :=
  { kind := .const, name, type := some (.basic kind) }

/-- The method that makes a type an error: it has no parameters and returns a text. -/
def errorMethod : Symbol :=
  { kind := .func, name := "Error", type := some (.func ⟨[], [.basic .string]⟩) }

/-- The symbol of `errorMethod` comes first in the store, ahead of all predeclared names. -/
def errorMethodId : SymbolId := ⟨0⟩

/-- The only predeclared type that is defined: errors have one method. -/
def error : Symbol :=
  { kind := .typeName, name := "error"
    underlying := some <| .interface
      [⟨errorMethodId, "Error", false, .func ⟨[], [.basic .string]⟩⟩] }

/-- The symbols of all predeclared names. -/
def symbols : List Symbol :=
  basicTypes.map (fun kind ↦ aliasOf kind.name (.basic kind)) ++
  [aliasOf "byte" (.basic .uint8), aliasOf "rune" (.basic .int32), aliasOf "any" (.interface []),
   error, constant "true" .untypedBool, constant "false" .untypedBool,
   constant "iota" .untypedInt,
   { kind := .nil, name := "nil", type := some (.basic .untypedNil) }] ++
  builtins.map (fun name ↦ { kind := .builtin, name })

/-- The store before any package is checked. -/
def store : Store := ⟨(errorMethod :: symbols).toArray⟩

/-- The symbol of a predeclared name. -/
def find? (name : String) : Option SymbolId :=
  ((symbols.map (·.name)).findIdx? (· == name)).map fun index ↦ ⟨index + 1⟩

def isIota (id : SymbolId) : Bool := find? "iota" == some id

end PackageAtlas.Universe
