import PackageAtlas.Load.Resolved
import PackageAtlas.Query.Error
import PackageAtlas.Tree.Enclosing

/-!
Ways through the tree of a checked package: to the nodes around a node, to the calls of a function,
and to the node that declares a symbol.
-/

set_option autoImplicit false
set_option relaxedAutoImplicit false

namespace PackageAtlas

/-- A call of a function. The receiver is the name that the function is selected from. -/
structure Invocation where
  info : NodeInfo
  callee : Expr
  args : List Expr
  receiver : Option SymbolId
  ancestors : List Node

namespace Invocation

def call (invocation : Invocation) : Node :=
  .expr (.call invocation.info invocation.callee invocation.args)

end Invocation

namespace ResolvedPackage

/-- The nodes around a node, the root first. -/
def ancestorsOf (package : ResolvedPackage) (id : NodeId) : Except QueryError (List Node) :=
  match package.root.findAncestors? id with
  | some ancestors => .ok ancestors
  | none => .error (.nodeNotFound package.identity)

/-! ### Calls -/

/-- What a used name is called through: the selector of which it is the selected name, with the
symbol before the dot, or the name itself; and the nodes around that, the innermost first. -/
def calledThrough (package : ResolvedPackage) (used : Ident) :
    List Node → NodeId × Option SymbolId × List Node
  | .expr (.selector info operand selected) :: outward =>
    if selected.info.id = used.info.id then
      (info.id, operand.unparen.ident?.bind fun name ↦ package.info.objectOf? name.info.id,
        outward)
    else (used.info.id, none, .expr (.selector info operand selected) :: outward)
  | outward => (used.info.id, none, outward)

/-- The call whose callee is a used name, if there is one. -/
def invocation? (package : ResolvedPackage) (used : Ident) (ancestors : List Node) :
    Option Invocation :=
  let (through, receiver, outward) := package.calledThrough used ancestors.reverse
  match outward with
  | .expr (.call info callee args) :: outward =>
    if callee.id = through then some ⟨info, callee, args, receiver, outward.reverse⟩ else none
  | _ => none

/-- The calls of a function in a package, by position. Uses that are no calls are left out. -/
def invocationsOf (package : ResolvedPackage) (store : Store) (function : SymbolId) :
    Except QueryError (List Invocation) := do
  if !(store.get function).isFunc then throw (.notFunction (store.symbolText function))
  let uses := ((package.lifetime? function).map (·.uses)).getD []
  let found ← uses.mapM fun used ↦ do
    return package.invocation? used (← package.ancestorsOf used.info.id)
  return found.filterMap (·)

/-! ### Declarations -/

/-- The innermost node at a declaration, and the nodes around it. -/
structure Declaration where
  node : Node
  ancestors : List Node

/-- Where a symbol is declared in a package. The symbol may be from another check of the same
files, so its position is carried over by the name of its file. -/
def declarationOf (package : ResolvedPackage) (atlas : Atlas) (id : SymbolId) :
    Except QueryError Declaration := do
  let text := atlas.store.symbolText id
  match (atlas.store.get id).origin with
  | none => throw (.noDeclaration text)
  | some origin =>
    let translated := (atlas.space? origin.space).bind fun space ↦
      FileSet.translate origin.pos space package.space
    match translated.bind fun pos ↦ (package.tree.enclosing? pos pos).map (pos, ·) with
    | none => throw (.noExactNode text)
    | some (pos, path) =>
      if path.isExact pos pos then return ⟨path.node, path.ancestors⟩
      else throw (.noExactNode text)

end ResolvedPackage

end PackageAtlas
