import PackageAtlas.Types.Universe

/-!
Atlases: the symbols of all packages that were checked together, and the coordinate spaces that
their positions belong to. Symbols and spaces are only ever added, so that what refers to them stays
good.
-/

set_option autoImplicit false
set_option relaxedAutoImplicit false

namespace PackageAtlas

/-- The symbols, and the coordinate spaces by their numbers. -/
structure Atlas where
  store : Store
  spaces : List FileSet
deriving Inhabited

namespace Atlas

/-- The predeclared symbols, and no space yet. -/
def start : Atlas := ⟨Universe.store, []⟩

/-- The identity of the next space. -/
def nextSpace (atlas : Atlas) : SpaceId := ⟨atlas.spaces.length⟩

/-- Adds the next space with its files. -/
def addSpace (atlas : Atlas) (files : FileSet) : Atlas :=
  { atlas with spaces := atlas.spaces ++ [files] }

/-- The files of a space. -/
def space? (atlas : Atlas) (id : SpaceId) : Option FileSet := atlas.spaces[id.number]?

/-- Where a symbol was declared. -/
def location? (atlas : Atlas) (id : SymbolId) : Option Location := do
  let origin ← (atlas.store.get id).origin
  (← atlas.space? origin.space).location? origin.pos

end Atlas

end PackageAtlas
