import PackageAtlas.Proofs.Resolution.Tasks

/-!
Signatures and the functions that they ask for. A function is not noted as being resolved, so that a
signature that leads back to itself is resolved without end (`resolve_endless`). What leads on from
a type expression are the lengths of arrays and the types that an interface embeds; a signature is
plain if its lengths are constants made of literals and of names that no function bears, and its
interfaces embed nothing (`Node.IsPlain`).
-/

set_option autoImplicit false
set_option relaxedAutoImplicit false

namespace PackageAtlas

open Check CheckRule

/-! ### Signatures that lead back to themselves -/

section Endless

variable {input : CheckInput}

/-- A function of the package that has no type yet. -/
structure CheckState.Untyped (s : CheckState) (id : SymbolId) (decl : FuncDecl) (file : Nat) :
    Prop where
  pending : s.pending.find? id = some (.func decl file)
  member : s.members.find? decl.name.name = some id
  notImported : (s.files[file]?.getD FileScope.empty).imports.find? decl.name.name = none
  kind : (s.store.get id).kind = .func
  type : (s.store.get id).type = none

variable {id : SymbolId} {decl : FuncDecl} {file : Nat} {c : Checker} {s : CheckState}

/-- The name of an untyped function is looked up, and the function is resolved. -/
theorem name_endless {ident : Ident} (hc : ∀ s : CheckState, s.Untyped id decl file →
      c.resolve id input s = none) (hname : ident.name = decl.name.name)
    (hnamed : ident.isBlank = false) (hs : s.Untyped id decl file)
    (hcontext : s.context = Context.ofFile file) :
    CheckRule.expr c (.ident ident) input s = none := by
  have hlookup : s.lookup? ident.name = some id := by
    simp only [CheckState.lookup?, hcontext, Context.ofFile, List.findSome?_nil, hname,
      hs.notImported, hs.member, Option.orElse_eq_orElse, Option.orElse_eq_or, Option.none_or,
      Option.some_or]
  have hmark (s : CheckState) (hs : s.Untyped id decl file) :
      markUsed id input s = some ((), s) := by
    unfold markUsed
    rw [run_bind_of_some (sees_symbol id input s), hs.kind]
    rfl
  have hoperand (s : CheckState) (hs : s.Untyped id decl file) :
      symbolOperand c id ident.pos input s = none := by
    unfold symbolOperand
    rw [run_bind_of_some (sees_symbol id input s), hs.kind]
    exact run_bind_of_none (hc s hs)
  refine run_bind_of_none ?_
  unfold operandOf name
  have hfound : Check.lookup? ident.name input s = some (some id, s) :=
    (sees_lookup? ident.name input s).trans (congrArg (fun found ↦ some (found, s)) hlookup)
  dsimp only
  rw [hnamed, if_neg Bool.false_ne_true, run_bind_of_some hfound]
  dsimp only
  have huse : recordUse ident id input s = some ((), { s with
      info.uses := s.info.uses.insert ident.info.id ⟨ident, id⟩ }) := rfl
  have hused : ({ s with info.uses := s.info.uses.insert ident.info.id ⟨ident, id⟩ } :
      CheckState).Untyped id decl file := { hs with }
  rw [run_bind_of_some huse, run_bind_of_some (hmark _ hused)]
  exact hoperand _ hused

/-- A function whose first parameter is an array of empty structs, as long as the function itself,
is resolved without end. -/
theorem resolve_endless {field : Field} {rest : List Field} {info nameInfo elementInfo : NodeInfo}
    (hparams : decl.type.params = field :: rest)
    (hfield : field.type = .arrayType info (some (.ident ⟨nameInfo, decl.name.name⟩))
      (.structType elementInfo []))
    (hnamed : decl.name.isBlank = false) (hs : s.Untyped id decl file) (depth : Nat) :
    (Checker.within depth).resolve id input s = none := by
  induction depth using Nat.strongRecOn generalizing s with
  | ind depth ih =>
    cases depth with
    | zero => rfl
    | succ depth =>
    -- the type of the parameter ends in the name of the function
    have htype (s : CheckState) (hs : s.Untyped id decl file)
        (hcontext : s.context = Context.ofFile file) :
        (Checker.within depth).typeExpr field.type input s = none := by
      cases depth with
      | zero => rfl
      | succ depth =>
      rw [hfield]
      refine run_bind_of_none ?_
      unfold typeOfExpr arrayType
      dsimp only
      cases depth with
      | zero => rfl
      | succ depth =>
      have helement : (Checker.within (depth + 1)).typeExpr (.structType elementInfo []) input s =
          some (.struct [],
            { s with info.types := (elementInfo.id, .struct []) :: s.info.types }) :=
        rfl
      rw [run_bind_of_some helement]
      refine run_bind_of_none ?_
      exact name_endless (fun s hs ↦ ih depth (by omega) hs) rfl hnamed { hs with } hcontext
    have hinner : ({ s with context := Context.ofFile file } : CheckState).Untyped id decl file :=
      { hs with }
    have hsignature : signature (Checker.within depth) decl.type input
        { s with context := Context.ofFile file } = none := by
      refine run_bind_of_none (run_bind_of_none ?_)
      rw [hparams, List.mapM_cons]
      exact run_bind_of_none (run_bind_of_none (htype _ hinner rfl))
    have hpending : resolve (Checker.within depth) id input s =
        resolveFunc (Checker.within depth) id decl file input s := by
      unfold resolve
      rw [run_bind_of_some (sees_get input s), hs.pending]
    change resolve (Checker.within depth) id input s = none
    rw [hpending]
    unfold resolveFunc
    rw [run_bind_of_some (sees_symbol id input s), hs.type, if_pos Option.isNone_none]
    have henter : (modify fun s ↦ { s with context := Context.ofFile file } : Check Unit) input s =
        some ((), { s with context := Context.ofFile file }) := rfl
    refine run_bind_of_none ?_
    unfold inContext
    rw [run_bind_of_some (sees_get input s), run_bind_of_some henter]
    exact run_bind_of_none hsignature

end Endless

/-! ### Plain signatures -/

namespace Node

variable {functions : List String}

/-- Whether a node may be part of a constant: a literal, an operator, or a name that no function
bears. -/
def IsConstantPart (functions : List String) : Node → Prop
  | .ident name => name.name ∉ functions
  | .expr (.literal _) | .expr (.paren ..) | .expr (.unary ..) | .expr (.binary ..) => True
  | _ => False

instance : DecidablePred (IsConstantPart functions) := fun node ↦ by
  unfold IsConstantPart
  split <;> infer_instance

/-- Constants made of literals and of names that no function bears. -/
def IsConstant (functions : List String) (node : Node) : Prop :=
  ∀ part ∈ node.nodes, part.IsConstantPart functions

instance : DecidablePred (IsConstant functions) := fun node ↦
  inferInstanceAs (Decidable (∀ part ∈ node.nodes, part.IsConstantPart functions))

/-- Whether a node leads on to constants and to the names of types only. -/
def IsPlainPart (functions : List String) : Node → Prop
  | .expr (.arrayType _ (some length) _) => (ofExpr length).IsConstant functions
  | .expr (.interfaceType _ elements) => ∀ element ∈ elements, element.names ≠ []
  | _ => True

instance : DecidablePred (IsPlainPart functions) := fun node ↦ by
  unfold IsPlainPart
  split <;> infer_instance

/-- Type expressions with constant lengths, in which interfaces embed nothing. -/
def IsPlain (functions : List String) (node : Node) : Prop :=
  ∀ part ∈ node.nodes, part.IsPlainPart functions

instance : DecidablePred (IsPlain functions) := fun node ↦
  inferInstanceAs (Decidable (∀ part ∈ node.nodes, part.IsPlainPart functions))

theorem IsConstant.below {node inner : Node} (h : node.IsConstant functions)
    (hinner : inner ∈ node.below) : inner.IsConstant functions :=
  fun part hpart ↦ h part (nodes_subset_of_mem_below hinner hpart)

theorem IsPlain.below {node inner : Node} (h : node.IsPlain functions)
    (hinner : inner ∈ node.below) : inner.IsPlain functions :=
  fun part hpart ↦ h part (nodes_subset_of_mem_below hinner hpart)

end Node

section Rules

variable {inv : CheckState → Prop} {hangs : Prop} {c : Checker} {functions : List String}

/-- A constant asks for the constants below it and for symbols that bear no name of a function. -/
theorem runs_constant [Stable inv .nothing] {e : Expr}
    (he : (Node.ofExpr e).IsConstant functions)
    (hname : ∀ name ∉ functions, ∀ id, (∃ s, inv s ∧ s.lookup? name = some id) →
      Runs inv hangs .nothing (c.resolve id))
    (h : ∀ e', Node.ofExpr e' ∈ (Node.ofExpr e).below → Runs inv hangs .nothing (c.expr e')) :
    Runs inv hangs .nothing (CheckRule.expr c e) := by
  refine runs_recordOperand e.id ?_
  have hself := he _ (Node.mem_nodes_self _)
  have hchild {e' : Expr} (he' : Node.ofExpr e' ∈ (Node.ofExpr e).children) :=
    h e' (Node.mem_below he')
  cases e with
  | ident name => exact runs_name (hname name.name hself)
  | literal literal => exact .pure _
  | paren info inner => exact hchild (by simp [Node.ofExpr, Node.children, Node.exprChildren])
  | unary info op operand =>
    exact runs_unary info op (hchild (by simp [Node.ofExpr, Node.children, Node.exprChildren]))
  | binary info op left right =>
    refine runs_binary info op (hchild ?_) (hchild ?_) <;>
      simp [Node.ofExpr, Node.children, Node.exprChildren]
  | _ => exact absurd hself (by simp [Node.ofExpr, Node.IsConstantPart])

/-- A plain type expression asks for the type expressions below it, for constants and for the types
behind names. -/
theorem runs_plainType [Stable inv .nothing] {e : Expr} (he : (Node.ofExpr e).IsPlain functions)
    (hname : ∀ id, Runs (fun s ↦ inv s ∧ (s.store.get id).kind = .typeName) hangs .nothing
      (c.resolve id))
    (htype : ∀ e', Node.ofExpr e' ∈ (Node.ofExpr e).below → Runs inv hangs .nothing (c.typeExpr e'))
    (hlength : ∀ e', Node.ofExpr e' ∈ (Node.ofExpr e).below →
      (Node.ofExpr e').IsConstant functions → Runs inv hangs .nothing (c.expr e')) :
    Runs inv hangs .nothing (CheckRule.typeExpr c e) := by
  refine .bind (runs_typeOfExpr ⟨htype, hname, ?_, ?_⟩) fun type ↦
    .bind (runs_recordType e.id type) fun _ ↦ .pure type
  · rintro info length element rfl
    refine hlength length (Node.mem_below ?_) (he _ (Node.mem_nodes_self _))
    simp [Node.ofExpr, Node.children, Node.exprChildren]
  · rintro info elements rfl element helement hnone
    exact absurd hnone (he _ (Node.mem_nodes_self _) element helement)

end Rules

end PackageAtlas
