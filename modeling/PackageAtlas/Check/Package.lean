import PackageAtlas.Check.DeclRules
import PackageAtlas.Check.ExprRules
import PackageAtlas.Parse.File
import PackageAtlas.Tree.Walk

/-!
The check of a whole package: its declarations are collected, its types resolved and given their
methods, all other symbols resolved, and the bodies of its functions checked. Names that stay
unused are reported last.
-/

set_option autoImplicit false
set_option relaxedAutoImplicit false

namespace PackageAtlas

namespace Checker

/-- The rule of a task. -/
def rule (c : Checker) : Checker
  | .expr e => CheckRule.expr c e
  | .typeExpr e => CheckRule.typeExpr c e
  | .stmt s => CheckRule.stmt c s
  | .resolve id => CheckRule.resolve c id

/-- All rules, with tasks nested no deeper than a number. -/
def within : Nat → Checker
  | 0 => fun _ _ _ ↦ none
  | depth + 1 => rule (within depth)

/-- How deep tasks nest at most when names are resolved without end. A chain of functions passes
each function once between two types or groups that are being resolved, so the square of the nodes
counts the declarations in a chain, and each has no more nested tasks than nodes. -/
def depthFor (nodes : Nat) : Nat := 4 * ((nodes + 1) * (nodes + 1) * (nodes + 1))

end Checker

namespace CheckRule

open Check

/-! ### Unused names -/

/-- The imports of a file that nothing uses. -/
def unusedImports (used : List SymbolId) (file : FileScope) : List Diagnostic :=
  (file.declared.filter fun entry ↦ !used.contains entry.symbol).map fun entry ↦
    ⟨entry.pos, .unusedImport entry.path⟩

/-- The local variables that nothing uses. -/
def unusedLocals (store : Store) (used locals : List SymbolId) : List Diagnostic :=
  (locals.filter (!used.contains ·)).map fun id ↦
    ⟨(store.get id).pos, .unusedLocal (store.get id).name⟩

/-- The names bound by type switches that no arm uses. -/
def unusedBindings (used : List SymbolId) (bindings : List SwitchBinding) : List Diagnostic :=
  (bindings.filter fun bound ↦ !bound.symbols.any used.contains).map fun bound ↦
    ⟨bound.binding.pos, .unusedLocal bound.binding.name⟩

/-- Everything that a package declares and does not use. -/
def unused (s : CheckState) : List Diagnostic :=
  s.files.flatMap (unusedImports s.used) ++ unusedLocals s.store s.used s.locals ++
    unusedBindings s.used s.bindings

/-! ### All files -/

/-- Checks the files of a package. -/
def package (c : Checker) (files : List SourceFile) : Check Unit := do
  let numbered := files.zipIdx
  numbered.forM fun (source, file) ↦ collectFile file source
  let objects := (← get).objects
  let store ← store
  (objects.filter fun id ↦ (store.get id).kind = .typeName).forM c.resolve
  numbered.forM fun (source, file) ↦ collectMethods file source
  objects.forM c.resolve
  let funcs := (← get).funcs
  funcs.forM fun (_, id, _) ↦ c.resolve id
  funcs.forM fun (decl, id, file) ↦ funcBody c decl id file
  modify fun s ↦ { s with reports := (unused s).reverse ++ s.reports }

end CheckRule

/-- What a check found out: the scope of the package, what is known of its nodes, the problems in
the order of their discovery, and the store with the symbols of the package. -/
structure Checked where
  scope : PackageScope
  info : TypeInfo
  diagnostics : List Diagnostic
  store : Store
deriving Inhabited

namespace Checked

/-- The problems that make a package unusable. -/
def hard (checked : Checked) : List Diagnostic := checked.diagnostics.filter (!·.isSoft)

end Checked

/-- How many nodes files have. -/
def nodeCount (files : List SourceFile) : Nat :=
  files.foldl (fun count file ↦ count + (Node.file file).count) 0

/-- The check of a package with tasks nested no deeper than a number. -/
def checkWithin (depth : Nat) (input : CheckInput) (files : List SourceFile) (store : Store) :
    Option Checked := do
  let ((), s) ← (CheckRule.package (Checker.within depth) files input).run (CheckState.start store)
  let name := (files.head?.map (·.packageName.name)).getD ""
  return ⟨⟨input.path, name, s.members, false⟩, s.info, s.reports.reverse, s.store⟩

/-- Checks the files of a package; without a result when resolving goes on without end. -/
def checkFiles (input : CheckInput) (files : List SourceFile) (store : Store) : Option Checked :=
  checkWithin (Checker.depthFor (nodeCount files)) input files store

/-! ### Types on their own -/

/-- A type expression by itself: the space that its symbols are declared in, and its type unless a
problem was found. -/
structure Evaluated where
  files : FileSet
  store : Store
  result : Except Diagnostic Ty

/-- The name under which a type expression is parsed. -/
def typeSourceName : String := "<type>"

/-- A check without files and imports. -/
def CheckInput.alone (space : SpaceId) : CheckInput :=
  ⟨"", space, fun path ↦ .error (.notFound path), false⟩

/-- Evaluates a type expression in which only predeclared names are known. -/
def evalType (space : SpaceId) (store : Store) (source : String) : Option Evaluated := do
  let (files, parsed) := (FileSet.empty space).parseExpr typeSourceName source
  match parsed with
  | .error error => return ⟨files, store, .error ⟨0, .notParsed error⟩⟩
  | .ok expr =>
    let depth := Checker.depthFor (Node.ofExpr expr).count
    let start := { CheckState.start store with files := [FileScope.empty] }
    let (type, s) ← (Checker.within depth).typeExpr expr (CheckInput.alone space) start
    return ⟨files, s.store, (s.reports.getLast?.map .error).getD (.ok type)⟩

end PackageAtlas
