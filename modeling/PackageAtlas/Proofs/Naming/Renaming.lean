import Mathlib.Tactic.Push
import PackageAtlas.Proofs.Dedupe.PackageDedupe
import PackageAtlas.Proofs.Naming.Outlines

/-!
Names told apart, and where they stand. Renaming changes what identifiers say and nothing else, so
each file of a package stands where it stood before (`RawPackage.filesStay_dedupe`).
-/

set_option autoImplicit false
set_option relaxedAutoImplicit false

namespace PackageAtlas

open Node (outline outline_eq_iff ofExpr ofStmt ofSpec ofDecl)

/-! ### Trees that stand alike -/

/-- What a step makes of each member of a list, whatever the state. -/
theorem forall₂_mapM {σ α β : Type} {R : α → β → Prop} {step : α → StateM σ β}
    (h : ∀ a s, R a (step a s).1) (list : List α) (s : σ) :
    List.Forall₂ R list (list.mapM step s).1 := by
  induction list generalizing s with
  | nil => exact .nil
  | cons a rest ih =>
    rw [List.mapM_cons]
    exact .cons (h a s) (ih (step a s).2)

/-- Nodes that stand where others stand, one after the other. -/
def Node.StandAs (nodes others : List Node) : Prop := nodes.map outline = others.map outline

namespace Node.StandAs

variable {node other : Node} {nodes others rest rest' : List Node}

theorem refl (nodes : List Node) : StandAs nodes nodes := rfl

theorem cons (h : node.outline = other.outline) (hrest : StandAs rest rest') :
    StandAs (node :: rest) (other :: rest') := by
  unfold StandAs at hrest ⊢
  rw [List.map_cons, List.map_cons, h, hrest]

theorem singleton (h : node.outline = other.outline) : StandAs [node] [other] := cons h (refl [])

theorem append (h : StandAs nodes others) (hrest : StandAs rest rest') :
    StandAs (nodes ++ rest) (others ++ rest') := by
  unfold StandAs at h hrest ⊢
  rw [List.map_append, List.map_append, h, hrest]

/-- What a step makes of the members of a list stands where they stand. -/
theorem mapM {σ α β : Type} {step : α → StateM σ β} {make : α → Node} {remake : β → Node}
    (h : ∀ a s, (remake (step a s).1).outline = (make a).outline) (list : List α) (s : σ) :
    StandAs ((list.mapM step s).1.map remake) (list.map make) := by
  have hall := forall₂_mapM (R := fun a b ↦ (make a).outline = (remake b).outline)
    (fun a s ↦ (h a s).symm) list s
  have hsame : (list.map make).map outline = ((list.mapM step s).1.map remake).map outline := by
    rw [← List.forall₂_eq_eq_eq]
    simpa only [List.forall₂_map_left_iff, List.forall₂_map_right_iff] using hall
  exact hsame.symm

end Node.StandAs

/-- A node stands where another one does when the nodes below it do. -/
theorem Node.outline_gather {node other : Node} (hinfo : node.info = other.info)
    (h : StandAs node.children other.children) : node.outline = other.outline :=
  outline_eq_iff.2 ⟨hinfo, h⟩

/-! ### New names -/

namespace Renames

open Node (StandAs outline_gather)

variable (renames : Renames)

theorem outline_onIdent (name : Ident) (count : Nat) :
    (Node.ident (renames.onIdent name count).1).outline = (Node.ident name).outline := by
  unfold onIdent
  cases renames.lookup name.name with
  | none => rfl
  | some other => exact outline_gather rfl (.refl [])

theorem standAs_onIdents (names : List Ident) (count : Nat) :
    StandAs ((renames.onIdents names count).1.map Node.ident) (names.map Node.ident) :=
  .mapM (outline_onIdent renames) names count

/-- Elements of a composite literal, when what stands in them does so alike. -/
theorem standAs_onElements_cons {values : Bool} {expr : Expr} {rest : List Expr}
    (hexpr : ∀ count, (ofExpr (onExpr renames expr count).1).outline = (ofExpr expr).outline)
    (hvalue : ∀ {info key value}, expr = .keyValue info key value →
      ∀ count, (ofExpr (onExpr renames value count).1).outline = (ofExpr value).outline)
    (hrest : ∀ count, StandAs ((onElements renames values rest count).1.map ofExpr)
      (rest.map ofExpr)) (count : Nat) :
    StandAs ((onElements renames values (expr :: rest) count).1.map ofExpr)
      ((expr :: rest).map ofExpr) := by
  by_cases h : ∀ info key value, expr ≠ .keyValue info (.ident key) value
  · rw [onElements]
    · exact .cons (hexpr count) (hrest _)
    · exact h
  · push Not at h
    obtain ⟨info, key, value, rfl⟩ := h
    cases values with
    | true =>
      exact .cons (outline_gather rfl (.cons (outline_onIdent renames key count)
        (.singleton (hvalue rfl _)))) (hrest _)
    | false => exact .cons (outline_gather rfl (.cons rfl (.singleton (hvalue rfl _)))) (hrest _)

mutual

theorem outline_onExpr : (expr : Expr) → (count : Nat) →
    (ofExpr (onExpr renames expr count).1).outline = (ofExpr expr).outline
  | .ident name, count => outline_onIdent renames name count
  | .literal _, _ => rfl
  | .selector _ operand _, count =>
    outline_gather rfl (.cons (outline_onExpr operand count) (.refl _))
  | .star _ operand, count | .unary _ _ operand, count | .paren _ operand, count =>
    outline_gather rfl (.singleton (outline_onExpr operand count))
  | .call _ callee args, count =>
    outline_gather rfl (.cons (outline_onExpr callee count) (standAs_onExprs args _))
  | .binary _ _ left right, count | .index _ left right, count | .keyValue _ left right, count
  | .mapType _ left right, count =>
    outline_gather rfl (.cons (outline_onExpr left count) (.singleton (outline_onExpr right _)))
  | .typeAssert _ operand type, count =>
    outline_gather rfl (.cons (outline_onExpr operand count) (standAs_onExpr? type _))
  | .composite _ type elements, count =>
    outline_gather rfl (.cons (outline_onExpr type count) (standAs_onElements _ elements _))
  | .funcLit _ type body, count =>
    outline_gather rfl (.cons (outline_onFuncType type count) (.singleton (outline_onBlock body _)))
  | .arrayType _ length element, count =>
    outline_gather rfl ((standAs_onExpr? length count).append
      (.singleton (outline_onExpr element _)))
  | .structType _ members, count | .interfaceType _ members, count =>
    outline_gather rfl (standAs_onMembers members count)
  | .funcType type, count => outline_onFuncType type count

theorem standAs_onExpr? : (expr : Option Expr) → (count : Nat) →
    StandAs ((onExpr? renames expr count).1.toList.map ofExpr) (expr.toList.map ofExpr)
  | none, _ => .refl []
  | some expr, count => .singleton (outline_onExpr expr count)

theorem standAs_onExprs : (exprs : List Expr) → (count : Nat) →
    StandAs ((onExprs renames exprs count).1.map ofExpr) (exprs.map ofExpr)
  | [], _ => .refl []
  | expr :: rest, count => .cons (outline_onExpr expr count) (standAs_onExprs rest _)

theorem standAs_onElements (values : Bool) : (elements : List Expr) → (count : Nat) →
    StandAs ((onElements renames values elements count).1.map ofExpr) (elements.map ofExpr)
  | [], _ => .refl []
  | expr :: rest, count =>
    standAs_onElements_cons renames (outline_onExpr expr) (outline_onValue expr)
      (standAs_onElements values rest) count

/-- The value of an element with a key, which is renamed on its own when the key is a name. -/
theorem outline_onValue : (expr : Expr) → ∀ {info key value}, expr = .keyValue info key value →
    ∀ count, (ofExpr (onExpr renames value count).1).outline = (ofExpr value).outline
  | .keyValue _ _ value => fun h count ↦
    (Expr.keyValue.inj h).2.2 ▸ outline_onExpr value count
  | .ident _ | .literal _ | .selector .. | .call .. | .star .. | .unary .. | .binary .. => nofun
  | .paren .. | .typeAssert .. | .index .. | .composite .. | .funcLit .. | .arrayType .. => nofun
  | .mapType .. | .structType .. | .interfaceType .. | .funcType _ => nofun

theorem outline_onField : (member : Field) → (count : Nat) →
    (Node.field (onField renames member count).1).outline = (Node.field member).outline
  | ⟨_, names, type⟩, count =>
    outline_gather rfl ((standAs_onIdents renames names count).append
      (.singleton (outline_onExpr type _)))

theorem standAs_onFields : (fields : List Field) → (count : Nat) →
    StandAs ((onFields renames fields count).1.map Node.field) (fields.map Node.field)
  | [], _ => .refl []
  | member :: rest, count => .cons (outline_onField member count) (standAs_onFields rest _)

theorem outline_onMember : (member : Field) → (count : Nat) →
    (Node.field (onMember renames member count).1).outline = (Node.field member).outline
  | ⟨_, names, type⟩, count =>
    outline_gather rfl ((StandAs.refl (names.map .ident)).append
      (.singleton (outline_onExpr type count)))

theorem standAs_onMembers : (members : List Field) → (count : Nat) →
    StandAs ((onMembers renames members count).1.map Node.field) (members.map Node.field)
  | [], _ => .refl []
  | member :: rest, count => .cons (outline_onMember member count) (standAs_onMembers rest _)

theorem outline_onFuncType : (type : FuncType) → (count : Nat) →
    (Node.funcType (onFuncType renames type count).1).outline = (Node.funcType type).outline
  | ⟨_, params, results⟩, count =>
    outline_gather rfl ((standAs_onFields params count).append (standAs_onFields results _))

theorem outline_onBlock : (body : Block) → (count : Nat) →
    (Node.block (onBlock renames body count).1).outline = (Node.block body).outline
  | ⟨_, stmts⟩, count => outline_gather rfl (standAs_onStmts stmts count)

theorem standAs_onStmts : (stmts : List Stmt) → (count : Nat) →
    StandAs ((onStmts renames stmts count).1.map ofStmt) (stmts.map ofStmt)
  | [], _ => .refl []
  | stmt :: rest, count => .cons (outline_onStmt stmt count) (standAs_onStmts rest _)

theorem standAs_onStmt? : (stmt : Option Stmt) → (count : Nat) →
    StandAs ((onStmt? renames stmt count).1.toList.map ofStmt) (stmt.toList.map ofStmt)
  | none, _ => .refl []
  | some stmt, count => .singleton (outline_onStmt stmt count)

theorem outline_onStmt : (stmt : Stmt) → (count : Nat) →
    (ofStmt (onStmt renames stmt count).1).outline = (ofStmt stmt).outline
  | .decl _ decl, count => outline_gather rfl (.singleton (outline_onGenDecl decl count))
  | .assign _ lhs _ rhs, count =>
    outline_gather rfl ((standAs_onExprs lhs count).append (standAs_onExprs rhs _))
  | .expr _ operand, count | .incDec _ operand _, count | .deferred _ _ operand, count =>
    outline_gather rfl (.singleton (outline_onExpr operand count))
  | .ret _ results, count => outline_gather rfl (standAs_onExprs results count)
  | .block body, count => outline_onBlock body count
  | .cond _ init test body otherwise, count =>
    outline_gather rfl (((standAs_onStmt? init count).append (.cons (outline_onExpr test _)
      (.singleton (outline_onBlock body _)))).append (standAs_onStmt? otherwise _))
  | .loop _ init test post body, count =>
    outline_gather rfl ((((standAs_onStmt? init count).append (standAs_onExpr? test _)).append
      (standAs_onStmt? post _)).append (.singleton (outline_onBlock body _)))
  | .switch _ init tag clauses, count =>
    outline_gather rfl (((standAs_onStmt? init count).append (standAs_onExpr? tag _)).append
      (standAs_onClauses clauses _))
  | .typeSwitch _ init none guard clauses, count =>
    outline_gather rfl ((((standAs_onStmt? init count).append (.refl [])).append
      (.singleton (outline_onExpr guard _))).append (standAs_onClauses clauses _))
  | .typeSwitch _ init (some binding) guard clauses, count =>
    outline_gather rfl ((((standAs_onStmt? init count).append
      (.singleton (outline_onIdent renames binding _))).append
      (.singleton (outline_onExpr guard _))).append (standAs_onClauses clauses _))
  | .branch _ _, _ => rfl

theorem outline_onClause : (arm : CaseClause) → (count : Nat) →
    (Node.clause (onClause renames arm count).1).outline = (Node.clause arm).outline
  | ⟨_, list, body⟩, count =>
    outline_gather rfl ((standAs_onExprs list count).append (standAs_onStmts body _))

theorem standAs_onClauses : (clauses : List CaseClause) → (count : Nat) →
    StandAs ((onClauses renames clauses count).1.map Node.clause) (clauses.map Node.clause)
  | [], _ => .refl []
  | arm :: rest, count => .cons (outline_onClause arm count) (standAs_onClauses rest _)

theorem outline_onSpec : (spec : Spec) → (count : Nat) →
    (ofSpec (onSpec renames spec count).1).outline = (ofSpec spec).outline
  | .imports _, _ => rfl
  | .value ⟨_, names, type, values⟩, count =>
    outline_gather rfl (((standAs_onIdents renames names count).append
      (standAs_onExpr? type _)).append (standAs_onExprs values _))
  | .type ⟨_, name, _, type⟩, count =>
    outline_gather rfl (.cons (outline_onIdent renames name count)
      (.singleton (outline_onExpr type _)))

theorem standAs_onSpecs : (specs : List Spec) → (count : Nat) →
    StandAs ((onSpecs renames specs count).1.map ofSpec) (specs.map ofSpec)
  | [], _ => .refl []
  | spec :: rest, count => .cons (outline_onSpec spec count) (standAs_onSpecs rest _)

theorem outline_onGenDecl : (decl : GenDecl) → (count : Nat) →
    (Node.genDecl (onGenDecl renames decl count).1).outline = (Node.genDecl decl).outline
  | ⟨_, _, specs⟩, count => outline_gather rfl (standAs_onSpecs specs count)

end

theorem outline_onFuncDecl (decl : FuncDecl) (count : Nat) :
    (Node.funcDecl (onFuncDecl renames decl count).1).outline = (Node.funcDecl decl).outline := by
  obtain ⟨info, receiver, name, type, body⟩ := decl
  have hbody (n : Nat) : StandAs (((body.mapM (onBlock renames)) n).1.toList.map Node.block)
      (body.toList.map Node.block) := by
    cases body with
    | none => exact .refl []
    | some body => exact .singleton (outline_onBlock renames body n)
  cases receiver with
  | none =>
    exact outline_gather rfl ((StandAs.cons (outline_onIdent renames name _)
      (.singleton (outline_onFuncType renames type _))).append (hbody _))
  | some receiver =>
    exact outline_gather rfl ((StandAs.cons (outline_onField renames receiver _)
      (.cons rfl (.singleton (outline_onFuncType renames type _)))).append (hbody _))

theorem outline_onDecl (decl : Decl) (count : Nat) :
    (ofDecl (onDecl renames decl count).1).outline = (ofDecl decl).outline := by
  cases decl with
  | gen decl => exact outline_onGenDecl renames decl count
  | func decl => exact outline_onFuncDecl renames decl count

end Renames

/-! ### Files and packages -/

open Node (outline_gather)

namespace SourceFile

theorem outline_rename (file : SourceFile) (renames : Renames) :
    (Node.file (file.rename renames).1).outline = (Node.file file).outline :=
  outline_gather rfl (.cons rfl (.mapM renames.outline_onDecl file.decls 0))

theorem outline_claimMethod (renames : Dict String String) (decl : Decl) (taken : List DeclKey) :
    (ofDecl (claimMethod renames decl taken).1.1).outline = (ofDecl decl).outline := by
  cases decl with
  | gen decl => rfl
  | func decl =>
    unfold claimMethod
    dsimp only
    cases decl.receiverBase? with
    | none => rfl
    | some base =>
      cases hclaim : (DeclKey.mk (some ((renames.find? base.name).getD base.name))
        decl.name.name).claim taken with
      | mk claimed taken' =>
        dsimp only [bind, StateT.bind]
        rw [hclaim]
        cases claimed with
        | none => rfl
        | some name =>
          have hident : (Node.ident { decl.name with name }).outline =
              (Node.ident decl.name).outline := outline_gather rfl (.refl [])
          exact outline_gather rfl (((Node.StandAs.refl _).append
            (.cons hident (.refl _))).append (.refl _))

theorem outline_dedupe (file : SourceFile) (taken : List DeclKey) :
    (Node.file (file.dedupe taken).1.1).outline = (Node.file file).outline := by
  refine (outline_rename _ _).trans (outline_gather rfl (.cons rfl ?_))
  rw [List.map_map]
  exact .mapM (outline_claimMethod _) file.decls _

end SourceFile

namespace RawPackage

/-- A file of a package before and after the names of the package are told apart. -/
structure FileStays (raw : RawPackage) (old new : SourceFile) : Prop where
  name : new.name = old.name
  outline : (Node.file new).outline = (Node.file old).outline
  buildable : raw.isBuildable old = true → new = old

/-- The files of a package whose names are told apart are called the same and stand where they
stood; those of the build are the same. -/
theorem filesStay_dedupe (raw : RawPackage) :
    List.Forall₂ raw.FileStays raw.files raw.dedupe.1.files := by
  have hfile (file : SourceFile) (taken : List DeclKey) :
      raw.FileStays file (raw.dedupeFile file taken).1.1 := by
    unfold dedupeFile
    cases hbuildable : raw.isBuildable file with
    | true => exact ⟨rfl, rfl, fun _ ↦ rfl⟩
    | false =>
      exact ⟨rfl, file.outline_dedupe taken, fun h ↦ absurd (hbuildable.symm.trans h) (by decide)⟩
  rw [dedupe_eq rfl, List.forall₂_map_right_iff]
  exact forall₂_mapM hfile raw.files _

end RawPackage

end PackageAtlas
