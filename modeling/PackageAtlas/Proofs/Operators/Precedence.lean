import PackageAtlas.Proofs.Operators.Fitting

/-!
Operands fit in every tree that is parsed. What the rules for operators return is as tight as was
asked for, and no operator that was asked for is left behind it; so the operator that comes next
takes no looser operand (`fits_binaryRest`). With the formulas that are read back this makes the
trees of operators those of their precedence (`FileSet.parseExpr_precedence`).
-/

set_option autoImplicit false
set_option relaxedAutoImplicit false

namespace PackageAtlas

open Node

section Rules

variable {g : Grammar} (h : FitAll g)
include h

/-! ### Operators -/

theorem fits_exprs : Returns (Rule.exprs g) fun exprs ↦ AllFitted (exprs.map ofExpr) :=
  h.expr.commaList h.exprs

/-- What the operators start from is tighter than all of them. -/
theorem fits_binary (minimum : Nat) (hminimum : minimum ≤ 6) (kind : Option TokenKind) :
    ReturnsAt kind (Rule.binary g minimum) fun expr after ↦
      expr.FittedAt minimum ∧ Loose minimum after := by
  refine (h.unary kind).bind fun left after hleft ↦ ?_
  refine h.binaryRest minimum left after (hleft.mono hminimum) fun op _ ↦ ?_
  have hlt := op.precedence_lt
  have hle := hleft.le_tightness
  omega

/-- The operator that comes next takes what stands on its left, which is no looser, and on its right
what leaves no tighter operator; so the next one is no tighter than it. -/
theorem fits_binaryRest (minimum : Nat) (left : Expr) (kind : Option TokenKind)
    (hleft : left.FittedAt minimum) (hloose : Loose (left.tightness + 1) kind) :
    ReturnsAt kind (Rule.binaryRest g minimum left) fun expr after ↦
      expr.FittedAt minimum ∧ Loose minimum after := by
  unfold Rule.binaryRest
  refine .peek ?_
  split
  · next hnone => exact .pure ⟨hleft, fun op hop ↦ by cases hnone.symm.trans hop⟩
  · next op hop =>
    split
    · next hlt => exact .pure ⟨hleft, fun op' hop' ↦ by cases hop.symm.trans hop'; exact hlt⟩
    · next hle =>
      have hlt := op.precedence_lt
      have hfitsLeft : op.precedence ≤ left.tightness := Nat.le_of_lt_succ (hloose op hop)
      refine .skip fun _ after ↦ ?_
      refine (h.binary (op.precedence + 1) (by omega) after).bind fun right after hright ↦ ?_
      obtain ⟨hfitsRight, hnext⟩ := hright
      refine (returnsAt_node after _).bind fun info after' hsame ↦ ?_
      -- what the right operand leaves is what the next round starts from
      refine h.binaryRest minimum _ after' ⟨Nat.le_of_not_lt hle, ?_⟩ (hsame ▸ hnext)
      exact fitted_ofExpr ⟨hfitsLeft, hfitsRight.le_tightness⟩
        (by simpa [exprChildren] using ⟨hleft.fitted, hfitsRight.fitted⟩)

theorem fits_unary : Returns (Rule.unary g) fun expr ↦ expr.FittedAt 6 := by
  have hchild (operand : Expr) (hoperand : operand.FittedAt 6) : AllFitted [ofExpr operand] :=
    allFitted_cons.2 ⟨hoperand.fitted, allFitted_nil⟩
  refine .skip fun _ ↦ .skip fun kind ↦ ?_
  split
  · exact .skip fun _ ↦ h.unary.bind fun operand hoperand ↦ .skip fun _ ↦
      .pure ⟨le_rfl, fitted_ofExpr hoperand.le_tightness (hchild operand hoperand)⟩
  · split
    · exact .skip fun _ ↦ h.unary.bind fun operand hoperand ↦ .skip fun _ ↦
        .pure ⟨le_rfl, fitted_ofExpr hoperand.le_tightness (hchild operand hoperand)⟩
    · exact h.primary.weaken fun _ hprimary ↦ hprimary.mono (by decide)

/-! ### Operands -/

omit h in
theorem fits_literal (kind : LiteralKind) :
    Returns (Rule.literal kind) fun expr ↦ expr.FittedAt 7 :=
  .skip fun _ ↦ .skip fun l ↦ .pure ⟨le_rfl, fitted_literal l⟩

/-- No type with a star is an operand, because a star is taken as an operator. -/
theorem fits_operand : Returns (Rule.operand g) fun expr ↦ expr.FittedAt 7 := by
  intro kind
  refine .looking looks_start fun start ↦ .peek ?_
  split
  · exact Returns.skip (fun name ↦ .pure ⟨le_rfl, fitted_ident name⟩) _
  · exact fits_literal .int _
  · exact fits_literal .float _
  · exact fits_literal .char _
  · exact fits_literal .string _
  · refine Returns.skip (fun _ ↦ h.expr.nested.bind fun inner hinner ↦ .skip fun _ ↦ .skip fun _ ↦
      .pure ⟨le_rfl, ?_⟩) _
    exact fitted_ofExpr trivial (allFitted_cons.2 ⟨hinner, allFitted_nil⟩)
  · refine Returns.skip (fun _ ↦ (h.signature start).bind fun type htype ↦ .skip fun _ ↦ .ite ?_
      (.pure ⟨le_rfl, htype⟩)) _
    refine (h.block.withLevel _).bind fun body hbody ↦ .skip fun _ ↦ .pure ⟨le_rfl, ?_⟩
    exact fitted_ofExpr trivial (by simpa [exprChildren] using ⟨htype, hbody⟩)
  · exact h.type _
  · exact h.type _
  · exact h.type _
  · exact h.type _
  · exact .fail

theorem fits_primary : Returns (Rule.primary g) fun expr ↦ expr.FittedAt 7 :=
  .skip fun start ↦ (fits_operand h).bind fun operand hoperand ↦
    h.postfixRest start operand hoperand

/-! ### What follows an operand -/

theorem fits_args : Returns (Rule.args g) fun args ↦ AllFitted (args.map ofExpr) :=
  .skip fun _ ↦ .ite (.pure allFitted_nil) (h.expr.commaList h.args)

theorem fits_elements :
    Returns (Rule.elements g) fun elements ↦ AllFitted (elements.map ofExpr) := by
  have hrest (element : Expr) (helement : (ofExpr element).Fitted) : Returns (do
      if ← Parser.eat .comma then return element :: (← g.elements) else return [element])
      fun elements ↦ AllFitted (elements.map ofExpr) :=
    .skip fun _ ↦ .ite
      (h.elements.bind fun _ hothers ↦ .pure (allFitted_cons.2 ⟨helement, hothers⟩))
      (.pure (allFitted_cons.2 ⟨helement, allFitted_nil⟩))
  unfold Rule.elements
  simp only [pure_bind]
  refine .skip fun _ ↦ .ite (.pure allFitted_nil) ?_
  refine h.expr.bind fun key hkey ↦ .skip fun _ ↦ .ite ?_ (hrest key hkey)
  refine h.expr.bind fun value hvalue ↦ .skip fun info ↦ hrest (.keyValue info key value) ?_
  exact fitted_ofExpr trivial (by simpa [exprChildren] using ⟨hkey, hvalue⟩)

theorem fits_composite (start : Nat) {type : Expr} (htype : (ofExpr type).Fitted) :
    Returns (Rule.composite g start type) fun expr ↦ expr.FittedAt 7 := by
  refine .skip fun _ ↦ (h.elements.withLevel _).bind fun elements helements ↦ .skip fun _ ↦
    .skip fun _ ↦ .pure ⟨le_rfl, ?_⟩
  exact fitted_ofExpr trivial (allFitted_cons.2 ⟨htype, helements⟩)

theorem fits_afterDot (start : Nat) {operand : Expr} (hoperand : operand.FittedAt 7) :
    Returns (Rule.afterDot g start operand) fun expr ↦ expr.FittedAt 7 := by
  have hrest (type : Option Expr) (htype : AllFitted (type.toList.map ofExpr)) : Returns (do
      let _ ← Parser.expect .rparen
      return Expr.typeAssert (← Parser.nodeFrom start) operand type)
      fun expr ↦ expr.FittedAt 7 :=
    .skip fun _ ↦ .skip fun _ ↦
      .pure ⟨le_rfl, fitted_ofExpr trivial (allFitted_cons.2 ⟨hoperand.fitted, htype⟩)⟩
  unfold Rule.afterDot
  simp only [pure_bind, map_eq_pure_bind, bind_assoc]
  refine .skip fun _ ↦ .ite (.skip fun _ ↦ .ite (hrest none allFitted_nil) ?_) ?_
  · exact h.typeTree.bind fun type htype ↦ hrest (some type) (by simpa using htype)
  · refine .skip fun selected ↦ .skip fun _ ↦ .pure ⟨le_rfl, ?_⟩
    exact fitted_ofExpr hoperand.le_tightness (by simpa [exprChildren] using hoperand.fitted)

theorem fits_postfixRest (start : Nat) (operand : Expr) (hoperand : operand.FittedAt 7) :
    Returns (Rule.postfixRest g start operand) fun expr ↦ expr.FittedAt 7 := by
  refine .skip fun kind ↦ ?_
  split
  · exact .skip fun _ ↦ (fits_afterDot h start hoperand).bind fun expr hexpr ↦
      h.postfixRest start expr hexpr
  · refine .skip fun _ ↦ h.expr.nested.bind fun key hkey ↦ .skip fun _ ↦ .skip fun _ ↦
      h.postfixRest start _ ⟨le_rfl, ?_⟩
    exact fitted_ofExpr hoperand.le_tightness
      (by simpa [exprChildren] using ⟨hoperand.fitted, hkey⟩)
  · refine .skip fun _ ↦ h.args.nested.bind fun args hargs ↦ .skip fun _ ↦ .skip fun _ ↦
      h.postfixRest start _ ⟨le_rfl, ?_⟩
    exact fitted_ofExpr hoperand.le_tightness (allFitted_cons.2 ⟨hoperand.fitted, hargs⟩)
  · exact .skip fun _ ↦ .ite ((fits_composite h start hoperand.fitted).bind fun expr hexpr ↦
      h.postfixRest start expr hexpr) (.pure hoperand)
  · exact .pure hoperand

end Rules

/-! ### Whole expressions -/

/-- Operands fit in what the rules return, if they do in what the parsers return that they call. -/
theorem FitAll.rule {g : Grammar} (h : FitAll g) : FitAll (Goal.rule g) where
  genDecl := fits_genDecl h
  specs := fits_specs h
  spec := fits_spec h
  signature := fits_signature h
  parameters := fits_parameters h
  parameterEntries := fits_parameterEntries h
  type := fits_type h
  structFields := fits_structFields h
  interfaceElements := fits_interfaceElements h
  block := fits_block h
  stmts := fits_stmts h
  stmt := fits_stmt h
  simpleStmt := fits_simpleStmt h
  condStmt := fits_condStmt h
  clauses := fits_clauses h
  exprs := fits_exprs h
  binary := fits_binary h
  binaryRest := fits_binaryRest h
  unary := fits_unary h
  primary := fits_primary h
  postfixRest := fits_postfixRest h
  args := fits_args h
  elements := fits_elements h

/-- Operands fit in what the parsers of the grammar return, at every depth. -/
theorem fitAll_goals (depth : Nat) : FitAll (Goal.parser depth) := by
  induction depth with
  | zero =>
    constructor
    all_goals intros
    all_goals first
      | exact Returns.fail
      | exact ReturnsAt.fail
  | succ depth ih => exact ih.rule

theorem fits_wholeExpr {g : Grammar} (h : FitAll g) :
    Returns (Parser.wholeExpr g) fun expr ↦ (ofExpr expr).Fitted :=
  h.expr.bind fun _ hexpr ↦ .skip fun _ ↦ .skip fun _ ↦ .ite (.pure hexpr) .fail

/-- In an expression that is parsed, the operands of all nodes fit. -/
theorem fits_parseExpr {set : FileSet} {name text : String} {e : Expr}
    (h : (set.parseExpr name text).2 = .ok e) : (ofExpr e).Fitted := by
  unfold FileSet.parseExpr Parser.runOn at h
  cases hstream : TokenStream.ofText text with
  | error error =>
    simp only [hstream] at h
    cases h
  | ok stream =>
    simp only [hstream] at h
    generalize hinput : (⟨set.space, set.nextEntry name text, text.toList, stream.comments⟩ :
      ParseInput) = input at h
    generalize hstate : (⟨stream.tokens, 0, 0, 1⟩ : ParseState) = state at h
    cases hresult : Parser.wholeExpr (Goal.parserFor stream.tokens.length) input state with
    | error error =>
      rw [hresult] at h
      cases h
    | ok result =>
      rw [hresult] at h
      cases h
      exact fits_wholeExpr (fitAll_goals _) _ _ _ _ _ rfl hresult

namespace FileSet

/-- Parsing goes by precedence: a formula in which all operands fit is read back from its words, and
in everything that is read all operands fit. -/
theorem parseExpr_precedence (set : FileSet) (name : String) :
    (∀ e : Expr, e.IsFormula →
      ∃ e', (set.parseExpr name e.spaced).2 = .ok e' ∧ e'.shape = e.shape) ∧
    ∀ text e, (set.parseExpr name text).2 = .ok e → ∀ node ∈ (Node.ofExpr e).nodes, node.Fits :=
  ⟨fun _ h ↦ h.parseExpr_spaced set name, fun _ _ h ↦ fits_parseExpr h⟩

/-- A formula with stars and signs in front of operands and between them. -/
theorem parseExpr_precedence_mixed : ∃ e : Expr, e.IsFormula ∧
    e.spaced = "- a * b . c ( d , 1 ) - * e & ^ f [ 2 ]" ∧
    ∃ e', ((FileSet.empty ⟨0⟩).parseExpr "f" e.spaced).2 = .ok e' ∧ e'.shape = e.shape ∧
      ∀ node ∈ (Node.ofExpr e').nodes, node.Fits := by
  have hname (name : String) (h : isIdentifier name = true) :
      (Expr.ident ⟨default, name⟩).IsFormula := .ident h
  have hint (text : String) (h : isDecimal text = true) :
      (Expr.literal ⟨default, .int, text⟩).IsFormula := .int rfl h
  have hneg : (Expr.unary default .neg (.ident ⟨default, "a"⟩)).IsFormula :=
    .unary (hname "a" (by decide +kernel)) (by decide)
  have hselector : (Expr.selector default (.ident ⟨default, "b"⟩) ⟨default, "c"⟩).IsFormula :=
    .selector (hname "b" (by decide +kernel)) (by decide +kernel) (by decide)
  have hargs : ∀ arg ∈ [Expr.ident ⟨default, "d"⟩, .literal ⟨default, .int, "1"⟩], arg.IsFormula :=
    List.forall_mem_cons.2 ⟨hname "d" (by decide +kernel),
      List.forall_mem_singleton.2 (hint "1" (by decide +kernel))⟩
  have hcall := @Expr.IsFormula.call default _ _ hselector hargs (by decide)
  have hleft := @Expr.IsFormula.binary default .mul _ _ hneg hcall (by decide)
  have hstar : (Expr.star default (.ident ⟨default, "e"⟩)).IsFormula :=
    .star (hname "e" (by decide +kernel)) (by decide)
  have hindex : (Expr.index default (.ident ⟨default, "f"⟩)
      (.literal ⟨default, .int, "2"⟩)).IsFormula :=
    .index (hname "f" (by decide +kernel)) (hint "2" (by decide +kernel)) (by decide)
  have hnot := @Expr.IsFormula.unary default .bitNot _ hindex (by decide)
  have hright := @Expr.IsFormula.binary default .and _ _ hstar hnot (by decide)
  have hwhole := @Expr.IsFormula.binary default .sub _ _ hleft hright (by decide)
  obtain ⟨hread, hfits⟩ := parseExpr_precedence (FileSet.empty ⟨0⟩) "f"
  obtain ⟨e', hparse, hshape⟩ := hread _ hwhole
  exact ⟨_, hwhole, by decide +kernel, e', hparse, hshape, hfits _ e' hparse⟩

end FileSet

end PackageAtlas
