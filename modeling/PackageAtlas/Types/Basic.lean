/-!
Types. A defined type is known by the symbol of its name; all other types are known by their
structure. Fields and methods carry their types, which are settled when the type is made.
-/

set_option autoImplicit false
set_option relaxedAutoImplicit false

namespace PackageAtlas

/-- The identity of a symbol. -/
structure SymbolId where
  index : Nat
deriving DecidableEq, Repr, Inhabited

inductive BasicKind where
  | bool | int | int8 | int16 | int32 | int64 | uint | uint8 | uint16 | uint32 | uint64 | uintptr
  | float32 | float64 | string
  | untypedBool | untypedInt | untypedRune | untypedFloat | untypedString | untypedNil
deriving DecidableEq, Repr, Inhabited

namespace BasicKind

def name : BasicKind → String
  | bool => "bool"
  | int => "int"
  | int8 => "int8"
  | int16 => "int16"
  | int32 => "int32"
  | int64 => "int64"
  | uint => "uint"
  | uint8 => "uint8"
  | uint16 => "uint16"
  | uint32 => "uint32"
  | uint64 => "uint64"
  | uintptr => "uintptr"
  | float32 => "float32"
  | float64 => "float64"
  | string => "string"
  | untypedBool => "untyped bool"
  | untypedInt => "untyped int"
  | untypedRune => "untyped rune"
  | untypedFloat => "untyped float"
  | untypedString => "untyped string"
  | untypedNil => "untyped nil"

/-- The kinds of constants that have no type yet, and of nil. -/
def isUntyped : BasicKind → Bool
  | untypedBool | untypedInt | untypedRune | untypedFloat | untypedString | untypedNil => true
  | _ => false

def isNumeric : BasicKind → Bool
  | bool | string | untypedBool | untypedString | untypedNil => false
  | _ => true

def isBoolean : BasicKind → Bool
  | bool | untypedBool => true
  | _ => false

def isString : BasicKind → Bool
  | string | untypedString => true
  | _ => false

/-- The order of the untyped numbers, from the narrowest on. -/
def untypedRank : BasicKind → Nat
  | untypedInt => 1
  | untypedRune => 2
  | untypedFloat => 3
  | _ => 0

end BasicKind

/-- A defined type: the symbol of its name, the name, and the import path of its package. -/
structure TypeName where
  symbol : SymbolId
  name : String
  package : Option String
deriving DecidableEq, Repr, Inhabited

mutual

inductive Ty where
  /-- The type of anything that failed to resolve. -/
  | invalid
  | basic (kind : BasicKind)
  | named (name : TypeName)
  | pointer (element : Ty)
  | slice (element : Ty)
  | array (length : Nat) (element : Ty)
  | map (key value : Ty)
  | struct (fields : List Member)
  /-- A set of methods, those of embedded interfaces included. -/
  | interface (methods : List Member)
  | func (signature : Signature)
  /-- The results of a call with several of them. -/
  | tuple (types : List Ty)

/-- A field of a struct or a method of an interface. -/
structure Member where
  symbol : SymbolId
  name : String
  isEmbedded : Bool
  type : Ty

/-- One type for each parameter and each result. -/
structure Signature where
  params : List Ty
  results : List Ty

end

instance : Inhabited Ty := ⟨.invalid⟩
instance : Inhabited Signature := ⟨⟨[], []⟩⟩
instance : Inhabited Member := ⟨⟨default, "", false, .invalid⟩⟩

namespace Ty

def isInvalid : Ty → Bool
  | invalid => true
  | _ => false

def isNamed : Ty → Bool
  | named _ => true
  | _ => false

def isUntyped : Ty → Bool
  | basic kind => kind.isUntyped
  | _ => false

/-- The type that a value of an untyped constant gets; nil has none. -/
def defaultType : Ty → Ty
  | basic .untypedBool => basic .bool
  | basic .untypedInt => basic .int
  | basic .untypedRune => basic .int32
  | basic .untypedFloat => basic .float64
  | basic .untypedString => basic .string
  | other => other

/-- The wider of two untyped types, the first one if neither is. -/
def widerUntyped : Ty → Ty → Ty
  | basic first, basic second =>
    if second.untypedRank ≤ first.untypedRank then basic first else basic second
  | _, second => second

/-! ### Texts -/

mutual

/-- How reports write a type. -/
def text : Ty → String
  | invalid => "invalid type"
  | basic kind => kind.name
  | named ⟨_, name, none⟩ => name
  | named ⟨_, name, some package⟩ => package ++ "." ++ name
  | pointer element => "*" ++ text element
  | slice element => "[]" ++ text element
  | array length element => "[" ++ toString length ++ "]" ++ text element
  | map key value => "map[" ++ text key ++ "]" ++ text value
  | struct fields => "struct\x7b" ++ "; ".intercalate (fieldTexts fields) ++ "\x7d"
  | interface methods => "interface\x7b" ++ "; ".intercalate (methodTexts methods) ++ "\x7d"
  | func signature => "func" ++ signatureText signature
  | tuple types => "(" ++ ", ".intercalate (texts types) ++ ")"

def texts : List Ty → List String
  | [] => []
  | type :: rest => text type :: texts rest

/-- Parameters in parentheses, and results in parentheses unless there is only one. -/
def signatureText : Signature → String
  | ⟨params, []⟩ => "(" ++ ", ".intercalate (texts params) ++ ")"
  | ⟨params, [result]⟩ => "(" ++ ", ".intercalate (texts params) ++ ") " ++ text result
  | ⟨params, results⟩ =>
    "(" ++ ", ".intercalate (texts params) ++ ") (" ++ ", ".intercalate (texts results) ++ ")"

/-- An embedded field is its type, any other its name and its type. -/
def fieldTexts : List Member → List String
  | [] => []
  | ⟨_, name, isEmbedded, type⟩ :: rest =>
    (if isEmbedded then text type else name ++ " " ++ text type) :: fieldTexts rest

/-- A method is its name and its signature. -/
def methodTexts : List Member → List String
  | [] => []
  | ⟨_, name, _, func signature⟩ :: rest => (name ++ signatureText signature) :: methodTexts rest
  | ⟨_, name, _, _⟩ :: rest => name :: methodTexts rest

end

/-! ### Identity -/

mutual

/-- Whether two types are the same: defined types by their symbols, all others by structure. Fields
agree in order, methods in any order. -/
def identical : Ty → Ty → Bool
  | invalid, invalid => true
  | basic first, basic second => first == second
  | named first, named second => first.symbol == second.symbol
  | pointer first, pointer second => identical first second
  | slice first, slice second => identical first second
  | array n first, array m second => n == m && identical first second
  | map key value, map key' value' => identical key key' && identical value value'
  | struct fields, struct fields' => identicalFields fields fields'
  | interface methods, interface methods' =>
    methods.length == methods'.length && methodsWithin methods methods'
  | func first, func second => identicalSignatures first second
  | tuple types, tuple types' => identicalLists types types'
  | _, _ => false

def identicalLists : List Ty → List Ty → Bool
  | [], [] => true
  | first :: rest, second :: rest' => identical first second && identicalLists rest rest'
  | _, _ => false

def identicalSignatures : Signature → Signature → Bool
  | ⟨params, results⟩, second =>
    identicalLists params second.params && identicalLists results second.results

def identicalFields : List Member → List Member → Bool
  | [], [] => true
  | ⟨_, name, isEmbedded, type⟩ :: rest, second :: rest' =>
    name == second.name && isEmbedded == second.isEmbedded && identical type second.type &&
      identicalFields rest rest'
  | _, _ => false

/-- Whether each method has one of the same name and type among others. -/
def methodsWithin : List Member → List Member → Bool
  | [], _ => true
  | ⟨_, name, _, type⟩ :: rest, others =>
    (others.any fun other ↦ name == other.name && identical type other.type) &&
      methodsWithin rest others

end

end Ty

end PackageAtlas
