import PackageAtlas.Types.Symbol

/-!
Members of types, and when a value of one type may stand where another is wanted.
-/

set_option autoImplicit false
set_option relaxedAutoImplicit false

namespace PackageAtlas.Store

/-- How many embedded types a search for a member goes through. -/
def maxEmbedding : Nat := 8

/-- The type whose members a type has: that behind one pointer, or itself. -/
def memberBase : Ty → Ty
  | .pointer element => element
  | other => other

/-- The method that the type itself declares under a name. -/
def ownMethod? (store : Store) (name : String) : Ty → Option SymbolId
  | .named type => store.method? type.symbol name
  | _ => none

/-- The member of a name, searched through so many embedded types: a declared method, then a field,
then the members of embedded fields, the first field first. -/
def memberWithin? (store : Store) (name : String) : Nat → Ty → Option SymbolId
  | depth, type =>
    let base := memberBase type
    match store.ownMethod? name base with
    | some method => some method
    | none =>
      match store.underlying base with
      | .struct fields =>
        match fields.find? (·.name == name) with
        | some field => some field.symbol
        | none =>
          match depth with
          | 0 => none
          | depth + 1 =>
            (fields.filter (·.isEmbedded)).findSome? fun field ↦
              memberWithin? store name depth field.type
      | .interface methods => (methods.find? (·.name == name)).map (·.symbol)
      | _ => none

/-- The field or method of a type with a name. -/
def member? (store : Store) (type : Ty) (name : String) : Option SymbolId :=
  store.memberWithin? name maxEmbedding type

/-- Whether a type has a method for each of the methods, by name. -/
def implements (store : Store) (type : Ty) (methods : List Member) : Bool :=
  methods.all fun method ↦ (store.member? type method.name).any fun id ↦ (store.get id).isFunc

/-- Whether an untyped value may become one of a type with this structure. -/
def untypedFits : BasicKind → Ty → Bool
  | .untypedNil, .pointer _ | .untypedNil, .slice _ | .untypedNil, .map _ _
  | .untypedNil, .interface _ | .untypedNil, .func _ => true
  | .untypedNil, _ => false
  | _, .interface methods => methods.isEmpty
  | .untypedBool, .basic kind => kind.isBoolean
  | .untypedString, .basic kind => kind.isString
  | _, .basic kind => kind.isNumeric
  | _, _ => false

/-- Whether a value of a typed type may become one of another: by its methods when an interface is
wanted, else by structure when one of the two is not a defined type. -/
def typedFits (store : Store) (value target : Ty) : Bool :=
  match store.underlying target with
  | .interface methods => store.implements value methods
  | shape =>
    (!value.isNamed || !target.isNamed) && (store.underlying value).identical shape

/-- Whether a value of the one type may be assigned to the other. Invalid types fit everywhere, so
that one failure is reported only once. -/
def assignable (store : Store) (value target : Ty) : Bool :=
  value.isInvalid || target.isInvalid || value.identical target ||
    match value with
    | .basic kind =>
      if kind.isUntyped then untypedFits kind (store.underlying target)
      else store.typedFits value target
    | _ => store.typedFits value target

end PackageAtlas.Store
