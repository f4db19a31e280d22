import PackageAtlas.Load.Loader
import PackageAtlas.Query.Navigate

/-!
From a symbol to the package that declares it, which is loaded if need be.
-/

set_option autoImplicit false
set_option relaxedAutoImplicit false

namespace PackageAtlas.Load

/-- The package that declares a symbol: the given one, or the one loaded under the path of the
symbol. -/
def ownerOf (loader : Nat) (package : ResolvedPackage) (id : SymbolId) :
    Load (Except QueryError ResolvedPackage) := do
  let store ← store
  let text := store.symbolText id
  match (store.get id).package with
  | none => return .error (.noDeclaration text)
  | some path =>
    if path = package.path then return .ok package
    match ← patterns loader [path] with
    | .error error => return .error (.ownerNotLoaded path text (some error))
    | .ok packages =>
      match packages.find? (·.identity == path) with
      | some owner => return .ok owner
      | none => return .error (.ownerNotLoaded path text none)

/-- The package that declares a symbol and the declaration there. -/
def declOf (loader : Nat) (package : ResolvedPackage) (id : SymbolId) :
    Load (Except QueryError (ResolvedPackage × ResolvedPackage.Declaration)) := do
  match ← ownerOf loader package id with
  | .error error => return .error error
  | .ok owner => return (owner.declarationOf (← get).atlas id).map (owner, ·)

end PackageAtlas.Load
