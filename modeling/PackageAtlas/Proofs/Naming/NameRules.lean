import PackageAtlas.Proofs.Naming.Steps
import PackageAtlas.Check.NameRules

/-!
Names and selectors. A name stands for a symbol of its name, and so does what is selected from a
package, a type or a value.
-/

set_option autoImplicit false
set_option relaxedAutoImplicit false

namespace PackageAtlas

open Check CheckRule

/-- The type of an operand has its members under the right names, and so has a package. -/
structure Operand.Named (operand : Operand) (store : Store) : Prop where
  type : operand.type.Named store
  scope : ∀ scope, operand.mode = .package scope → scope.Named store

/-- All tasks about parts of the files are sound: expressions and type expressions give what is
under the right names, and a statement leaves its block with its names. -/
structure TasksMark (σ : Setting) (c : Checker) : Prop where
  expr : ∀ e, σ.placed .uses (.ofExpr e) → ∀ blocks, Marks σ blocks (c.expr e) Operand.Named
  typeExpr : ∀ e, σ.placed .uses (.ofExpr e) → ∀ blocks,
    Marks σ blocks (c.typeExpr e) fun type store ↦ type.Named store
  stmt : ∀ names st, σ.placed (st.role names) (.ofStmt st) → ∀ blocks s,
    MarksAt σ (names :: blocks) ((st.nameTexts ++ names) :: blocks) s (c.stmt st) Anything
  resolve : ∀ id blocks, Marks σ blocks (c.resolve id) Anything

namespace Operand

variable {store later : Store}

theorem Named.mono {operand : Operand} (h : operand.Named store) (hgrows : store.Grows later) :
    operand.Named later :=
  ⟨h.type.mono hgrows, fun scope hscope ↦ (h.scope scope hscope).mono hgrows⟩

theorem Named.ofValue {type : Ty} (h : type.Named store) : (Operand.ofValue type).Named store :=
  ⟨h, fun _ hmode ↦ (by cases hmode)⟩

theorem Named.constant {type : Ty} (h : type.Named store) (value : Option Int) :
    (Operand.constant type value).Named store :=
  ⟨h, fun _ hmode ↦ (by cases hmode)⟩

theorem Named.ofType {type : Ty} (h : type.Named store) : (Operand.ofType type).Named store :=
  ⟨h, fun _ hmode ↦ (by cases hmode)⟩

theorem Named.ofMode {mode : Mode} (h : ∀ scope, mode ≠ .package scope) :
    (Operand.ofMode mode).Named store :=
  ⟨.invalid, fun scope hmode ↦ absurd hmode (h scope)⟩

theorem Named.invalid : Operand.invalid.Named store := .ofMode nofun

theorem Named.unknown : Operand.unknown.Named store := .ofValue .invalid

theorem Named.valueType {operand : Operand} (h : operand.Named store) :
    operand.valueType.Named store := by
  unfold Operand.valueType
  split
  · exact .invalid
  · exact h.type
  · exact .invalid

end Operand

section

variable {σ : Setting} {blocks : List (List String)} {s : CheckState} {c : Checker}

/-! ### Operands as values -/

theorem marks_singleValue {operand : Operand} (e : Expr) (h : operand.Named s.store) :
    MarksAt σ blocks blocks s (singleValue operand e) fun type store ↦ type.Named store := by
  unfold singleValue
  cases hproblem : operand.valueProblem? e with
  | none => exact .pure h.valueType
  | some problem =>
    exact (marks_report _ (Operand.isSoft_valueProblem hproblem)).bind fun _ _ hgrows _ ↦
      .pure (h.valueType.mono hgrows)

theorem marks_value {e : Expr} (h : Marks σ blocks (c.expr e) Operand.Named) :
    Marks σ blocks (value c e) Operand.Named := by
  refine fun s ↦ (h s).bind fun operand s₁ _ hoperand ↦ ?_
  refine (marks_singleValue e hoperand).bind fun type s₂ hgrows htype ↦ .pure ?_
  exact ⟨htype, (hoperand.mono hgrows).scope⟩

theorem marks_values {exprs : List Expr}
    (h : ∀ e ∈ exprs, Marks σ blocks (c.expr e) Operand.Named) :
    Marks σ blocks (values c exprs) Anything :=
  .forM fun e he s ↦ (marks_value (h e he) s).bind fun _ _ _ _ ↦ .pure trivial

theorem marks_exprs {exprs : List Expr} (h : ∀ e ∈ exprs, Marks σ blocks (c.expr e) Operand.Named) :
    Marks σ blocks (c.exprs exprs) Anything :=
  .forM fun e he s ↦ (h e he s).bind fun _ _ _ _ ↦ .pure trivial

/-- A report of what does not fit, or nothing. -/
theorem marks_unlessAssignable (value target : Ty) (pos : Nat) {problem : Problem}
    (hhard : problem.isSoft = false) :
    MarksAt σ blocks blocks s (do unless ← assignable value target do report pos problem)
      Anything :=
  .look (sees_assignable value target) fun _ ↦
    .ite (fun _ ↦ .pure trivial) fun _ ↦ marks_report _ hhard

theorem marks_assignTo (target : Ty) (usage : Usage) (operand : Operand) (e : Expr) :
    MarksAt σ blocks blocks s (assignTo target usage operand e) Anything :=
  marks_unlessAssignable _ _ _ rfl

theorem marks_valueFor {e : Expr} (target : Ty) (usage : Usage)
    (h : Marks σ blocks (c.expr e) Operand.Named) :
    Marks σ blocks (valueFor c target usage e) Anything :=
  fun s ↦ (marks_value h s).bind fun operand _ _ _ ↦ marks_assignTo target usage operand e

theorem marks_assignEach (pos : Nat) (usage : Usage) (types targets : List Ty) :
    Marks σ blocks (assignEach pos usage types targets) Anything :=
  .forM fun _ _ _ ↦ marks_unlessAssignable _ _ _ rfl

/-- The structure behind a type. -/
theorem marks_underlying {type : Ty} (hresolve : ∀ id, Marks σ blocks (c.resolve id) Anything)
    (h : type.Named s.store) :
    MarksAt σ blocks blocks s (c.underlying type) fun shape store ↦ shape.Named store := by
  cases type with
  | named name =>
    refine (hresolve name.symbol s).bind fun _ s₁ hgrows _ ↦ ?_
    exact .look sees_store fun hs ↦ .pure (hs.store.underlying (h.mono hgrows))
  | _ => exact .pure h

/-! ### Symbols -/

theorem marks_badExpr (pos : Nat) {problem : Problem} (hhard : problem.isSoft = false) :
    MarksAt σ blocks blocks s (badExpr pos problem) Operand.Named :=
  (marks_report pos hhard).bind fun _ _ _ _ ↦ .pure Operand.Named.invalid

variable (hresolve : ∀ id, Marks σ blocks (c.resolve id) Anything)
include hresolve

theorem marks_constantOperand (id : SymbolId) (pos : Nat) :
    MarksAt σ blocks blocks s (constantOperand c id pos) Operand.Named := by
  refine .ite (fun _ ↦ .look sees_get fun _ ↦ ?_) fun _ ↦ ?_
  · split
    · exact .pure (.constant (.basic _) _)
    · exact marks_badExpr _ rfl
  · refine (hresolve id s).bind fun _ s₁ _ _ ↦ .look (sees_typeOf id) fun hs ↦ ?_
    exact .look (sees_symbol id) fun _ ↦ .pure (.constant (hs.store.typeOf id) _)

theorem marks_symbolOperand (id : SymbolId) (pos : Nat) :
    MarksAt σ blocks blocks s (symbolOperand c id pos) Operand.Named := by
  have hresolved (done : Ty → Operand)
      (hdone : ∀ type (store : Store), type.Named store → (done type).Named store) :
      MarksAt σ blocks blocks s (do
        c.resolve id
        return done (← typeOf id)) Operand.Named :=
    (hresolve id s).bind fun _ s₁ _ _ ↦
      .look (sees_typeOf id) fun hs ↦ .pure (hdone _ _ (hs.store.typeOf id))
  refine .look (sees_symbol id) fun hs ↦ ?_
  split
  · exact hresolved .ofValue fun _ _ ↦ Operand.Named.ofValue
  · exact hresolved .ofValue fun _ _ ↦ Operand.Named.ofValue
  · exact marks_constantOperand hresolve id pos
  · exact hresolved .ofType fun _ _ ↦ Operand.Named.ofType
  · refine .pure ?_
    cases himported : (s.store.get id).imported with
    | none => exact Operand.Named.invalid
    | some scope =>
      refine ⟨.invalid, fun scope' hmode ↦ ?_⟩
      cases hmode
      exact (hs.store.symbols id).imported scope himported
  · exact .pure (.ofMode nofun)
  · exact .pure (.ofValue (.basic _))

/-! ### Names and selectors -/

theorem marks_name {ident : Ident} (hplaced : σ.placed .uses (.ident ident)) :
    MarksAt σ blocks blocks s (name c ident) Operand.Named := by
  refine .ite (fun _ ↦ marks_badExpr _ rfl) fun _ ↦ .look (sees_lookup? _) fun hs ↦ ?_
  cases hfound : s.lookup? ident.name with
  | none => exact marks_badExpr _ rfl
  | some id =>
    exact .reading hplaced (hs.lookup? hfound) fun _ _ ↦
      marks_symbolOperand hresolve id ident.pos

theorem marks_packageMember {scope : PackageScope} (package : String) {selected : Ident}
    (hscope : scope.Named s.store) (hplaced : σ.placed .uses (.ident selected))
    (hspared : σ.Spares selected) :
    MarksAt σ blocks blocks s (packageMember c scope package selected) Operand.Named := by
  refine .ite (fun _ ↦ ?_) fun _ ↦ ?_
  · exact (marks_foreignMember selected.name).bind fun id _ _ hid ↦
      (marks_recordUse hplaced hid (.inl hspared)).bind fun _ _ _ _ ↦ .pure .unknown
  · cases hfound : scope.find? selected.name with
    | none => exact marks_badExpr _ rfl
    | some id =>
      refine .look (sees_symbol id) fun _ ↦ .ite (fun _ ↦ ?_) fun _ ↦ marks_badExpr _ rfl
      exact (marks_recordUse hplaced (hscope _ id hfound) (.inl hspared)).bind fun _ _ _ _ ↦
        marks_symbolOperand hresolve id selected.pos

omit hresolve in
theorem Store.Named.methodExprType {store : Store} (h : store.Named) {receiver : Ty}
    (hreceiver : receiver.Named store) (method : SymbolId) :
    (methodExprType store receiver method).Named store := by
  unfold CheckRule.methodExprType
  cases hsignature : store.signature? (store.typeOf method) with
  | none => exact .invalid
  | some signature =>
    cases h.signature? (h.typeOf method) hsignature with
    | func hparams hresults => exact .func (List.forall_mem_cons.2 ⟨hreceiver, hparams⟩) hresults

theorem marks_methodOfType {type : Ty} {selected : Ident} (htype : type.Named s.store)
    (hplaced : σ.placed .uses (.ident selected)) (hspared : σ.Spares selected) :
    MarksAt σ blocks blocks s (methodOfType c type selected) Operand.Named := by
  refine .look sees_store fun hs ↦ ?_
  split
  · refine .ite (fun _ ↦ .pure .invalid) fun _ ↦ ?_
    exact (marks_report _ rfl).bind fun _ _ _ _ ↦ .pure .invalid
  · rename_i method hfound
    have hid := hs.store.member? htype (Option.filter_eq_some_iff.1 hfound).1
    refine (marks_recordUse hplaced hid (.inl hspared)).bind fun _ s₁ h₁ _ ↦ ?_
    refine (hresolve method s₁).bind fun _ s₂ h₂ _ ↦ .look sees_store fun hs₂ ↦ .pure ?_
    exact .ofValue (hs₂.store.methodExprType (htype.mono (h₁.trans h₂)) method)

theorem marks_memberOfValue (operand : Expr) {type : Ty} {selected : Ident}
    (htype : type.Named s.store) (hplaced : σ.placed .uses (.ident selected))
    (hspared : σ.Spares selected) :
    MarksAt σ blocks blocks s (memberOfValue c operand type selected) Operand.Named := by
  refine .ite (fun _ ↦ .pure .unknown) fun _ ↦ .look sees_store fun hs ↦ ?_
  split
  · exact marks_badExpr _ rfl
  · rename_i member hfound
    have htyped {s : CheckState} : MarksAt σ blocks blocks s (do
        return Operand.ofValue (← typeOf member)) Operand.Named :=
      .look (sees_typeOf member) fun hs ↦ .pure (.ofValue (hs.store.typeOf member))
    have hid := hs.store.member? htype hfound
    refine (marks_recordUse hplaced hid (.inl hspared)).bind fun _ s₁ _ _ ↦ ?_
    exact .ite (fun _ ↦ (hresolve member s₁).bind fun _ _ _ _ ↦ htyped) fun _ ↦ htyped

theorem marks_selector {operand : Expr} {selected : Ident}
    (hoperand : Marks σ blocks (c.expr operand) Operand.Named)
    (hplaced : σ.placed .uses (.ident selected)) (hspared : σ.Spares selected) :
    MarksAt σ blocks blocks s (selector c operand selected) Operand.Named := by
  refine (hoperand s).bind fun found s₁ _ hfound ↦ ?_
  split
  · rename_i scope hmode
    exact marks_packageMember hresolve _ (hfound.scope scope hmode) hplaced hspared
  · exact marks_methodOfType hresolve hfound.type hplaced hspared
  · exact (marks_singleValue operand hfound).bind fun type _ _ htype ↦
      marks_memberOfValue hresolve operand htype hplaced hspared
  · exact (marks_singleValue operand hfound).bind fun _ _ _ _ ↦ .pure .invalid

end

end PackageAtlas
