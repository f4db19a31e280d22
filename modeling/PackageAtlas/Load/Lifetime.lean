import PackageAtlas.Check.State

/-!
Lifetimes: from where to where a package mentions a symbol. The index of a package has a record for
each symbol that it declares or uses, in the order of their first mention.
-/

set_option autoImplicit false
set_option relaxedAutoImplicit false

namespace PackageAtlas

/-- Where a package declares and uses a symbol: the span of all mentions, the declaring name unless
the symbol comes from elsewhere, and the uses by position. -/
structure Lifetime where
  span : Span
  definition : Option Ident
  uses : List Ident
deriving Repr

namespace Lifetime

/-- The lifetime of a symbol that is declared here. -/
def ofDef (ident : Ident) : Lifetime := ⟨ident.info.span, some ident, []⟩

/-- The lifetime of a symbol that is used here. -/
def ofUse (ident : Ident) : Lifetime := ⟨ident.info.span, none, [ident]⟩

def addDef (lifetime : Lifetime) (ident : Ident) : Lifetime :=
  { lifetime with span := lifetime.span.cover ident.info.span, definition := some ident }

def addUse (lifetime : Lifetime) (ident : Ident) : Lifetime :=
  { lifetime with
    span := lifetime.span.cover ident.info.span
    uses := lifetime.uses ++ [ident] }

/-- Whether a position is inside. -/
def contains (lifetime : Lifetime) (pos : Nat) : Bool :=
  lifetime.span.start ≤ pos && pos < lifetime.span.stop

/-- The lifetime with its uses by position. -/
def sorted (lifetime : Lifetime) : Lifetime :=
  { lifetime with uses := lifetime.uses.mergeSort fun first second ↦ first.pos ≤ second.pos }

end Lifetime

/-- The lifetimes of a package by symbol. -/
structure LifetimeIndex where
  records : List (SymbolId × Lifetime)
deriving Inhabited

namespace LifetimeIndex

/-- Adds a mention to the record of its symbol. -/
def addRef (start : Ident → Lifetime) (extend : Lifetime → Ident → Lifetime)
    (records : Dict SymbolId Lifetime) (ref : IdentRef) : Dict SymbolId Lifetime :=
  records.insert ref.symbol
    (((records.find? ref.symbol).map (extend · ref.ident)).getD (start ref.ident))

/-- The index of what a check learned. -/
def ofInfo (info : TypeInfo) : LifetimeIndex :=
  let defs := info.defs.values.foldl (addRef Lifetime.ofDef Lifetime.addDef) Dict.empty
  let all := info.uses.values.foldl (addRef Lifetime.ofUse Lifetime.addUse) defs
  ⟨(all.entries.map fun (id, lifetime) ↦ (id, lifetime.sorted)).mergeSort
    fun first second ↦ first.2.span.start ≤ second.2.span.start⟩

def find? (index : LifetimeIndex) (id : SymbolId) : Option Lifetime := index.records.lookup id

def symbols (index : LifetimeIndex) : List SymbolId := index.records.map (·.1)

end LifetimeIndex

end PackageAtlas
