import PackageAtlas.Load.Error
import PackageAtlas.Text.Quoted

/-!
Why a query has no answer. Symbols are given by their texts.
-/

set_option autoImplicit false
set_option relaxedAutoImplicit false

namespace PackageAtlas

/-- What a specifier is looked up as. -/
inductive LookupKind where
  | type | object
deriving DecidableEq, Repr

def LookupKind.text : LookupKind → String
  | type => "type"
  | object => "object"

/-- Why a specifier stands for nothing. -/
inductive LookupError where
  | invalidSpecifier (spec : String)
  | notImported (path : String) (reason : ImportError)
  | notFound (kind : LookupKind) (spec : String)
  | notType (name : String)
  | noMember (member owner : String)
  | noTypeExpr (spec : String) (problem : Problem)

def LookupError.message : LookupError → String
  | invalidSpecifier spec => "invalid specifier " ++ spec
  | notImported path reason => "error importing " ++ path ++ ": " ++ reason.message
  | notFound kind spec => "no such " ++ kind.text ++ " " ++ spec
  | notType name => name ++ " is not a type name"
  | noMember member owner => "could not find " ++ Text.quoted member ++ " on " ++ owner
  | noTypeExpr spec problem =>
    "error evaluating type expression " ++ Text.quoted spec ++ ": " ++ problem.message

/-- Why there is no way from a symbol to a node. -/
inductive QueryError where
  | nodeNotFound (package : String)
  | notFunction (symbol : String)
  | noExactNode (symbol : String)
  | noDeclaration (symbol : String)
  /-- The package of a symbol fails to load, or is not among what was loaded. -/
  | ownerNotLoaded (path symbol : String) (reason : Option LoadError)

def QueryError.message : QueryError → String
  | nodeNotFound package => "node not found in package " ++ package
  | notFunction symbol => symbol ++ " is not a function"
  | noExactNode symbol => "couldn't find exact node for " ++ symbol
  | noDeclaration symbol => "no declaration recorded for " ++ symbol
  | ownerNotLoaded path symbol reason =>
    "package " ++ path ++ " for " ++ symbol ++ " could not be loaded: " ++
      (reason.map LoadError.message).getD "no package with that identity"

end PackageAtlas
