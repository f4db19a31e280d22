import PackageAtlas.Proofs.Resolution.Tasks

/-!
No value goes missing without a reason. An expression that cannot be used was reported, or it
depends on something of which nothing is known: an expression whose type was recorded as the invalid
one, or an import without a package. The reason may lie deep below; what passes it on says nothing
more, so that one failure is reported only once. The exception is a call without results that is
spread over several targets: they get unknown types, and nothing tells why.
-/

set_option autoImplicit false
set_option relaxedAutoImplicit false

namespace PackageAtlas

open Check CheckRule

/-! ### Reasons -/

/-- Why something may be unknown. -/
inductive CheckState.HasReason (s : CheckState) : Prop where
  | reported (diagnostic : Diagnostic) (hmem : diagnostic ∈ s.reports)
      (hhard : diagnostic.isSoft = false)
  | unknown (entry : NodeId × Ty) (hmem : entry ∈ s.info.types) (htype : entry.2 = .invalid)
  | missing (id : SymbolId) (hkind : (s.store.get id).kind = .pkgName)
      (himported : (s.store.get id).imported = none)

namespace CheckState.HasReason

variable {s later : CheckState}

theorem ofReport {pos : Nat} {problem : Problem} (h : ⟨pos, problem⟩ ∈ s.reports)
    (hhard : problem.isSoft = false) : s.HasReason :=
  .reported ⟨pos, problem⟩ h hhard

/-- A reason stays, since reports and records do. -/
theorem lasts (h : s.HasReason) (hlasts : s.Lasts later) : later.HasReason := by
  cases h with
  | reported diagnostic hmem hhard =>
    exact .reported diagnostic (hlasts.reports.subset hmem) hhard
  | unknown entry hmem htype => exact .unknown entry (hlasts.info.types.subset hmem) htype
  | missing id hkind himported =>
    have hplaced : id.index < s.store.symbols.size := by
      refine Nat.lt_of_not_le fun hout ↦ ?_
      unfold Store.get at hkind
      rw [Array.getElem?_eq_none hout] at hkind
      cases hkind
    have hsymbol := hlasts.store.get id hplaced
    refine .missing id (hsymbol.kind.trans hkind) ?_
    rw [hsymbol.same]
    exact himported

end CheckState.HasReason

/-- From a state that has a reason if something is given, a step has a bad result for a reason
only. -/
def Reasons {α : Type} (given : Prop) (bad : α → Prop) (step : Check α) : Prop :=
  ∀ input s a later, (given → s.HasReason) → step input s = some (a, later) → bad a →
    later.HasReason

namespace Reasons

variable {α β : Type} {given : Prop} {bad : α → Prop} {bad' : β → Prop} {step : Check α}
  {next : α → Check β}

theorem pure {a : α} (h : bad a → given) : Reasons given bad (Pure.pure a) := by
  intro input s b later hgiven hrun hbad
  cases hrun
  exact hgiven (h hbad)

/-- What is given is a reason afterwards. -/
theorem keep (h : given) (hstep : Runs (fun _ ↦ True) True .nothing step) :
    Reasons given bad step :=
  fun input s a later hgiven hrun _ ↦
    (hgiven h).lasts ((hstep input s trivial).frame a later hrun).lasts

theorem report {pos : Nat} {problem : Problem} (hhard : problem.isSoft = false) :
    Reasons given (fun _ ↦ True) (report pos problem) := by
  intro input s a later _ hrun _
  cases hrun
  exact .ofReport List.mem_cons_self hhard

/-- A bad result of the first step is given to the second. -/
theorem bind (h : Reasons given bad step) (hstep : Runs (fun _ ↦ True) True .nothing step)
    (hnext : ∀ a, Reasons (given ∨ bad a) bad' (next a)) : Reasons given bad' (step >>= next) := by
  intro input s b later hgiven hrun hbad
  obtain ⟨a, middle, hresult, hrest⟩ := exists_of_run_bind hrun
  refine hnext a input middle b later (fun h' ↦ ?_) hrest hbad
  rcases h' with h' | h'
  · exact (hgiven h').lasts ((hstep input s trivial).frame a middle hresult).lasts
  · exact h input s a middle hgiven hresult h'

/-- Only the second step has bad results. -/
theorem last (hnext : ∀ a, Reasons False bad' (next a)) : Reasons given bad' (step >>= next) := by
  intro input s b later _ hrun hbad
  obtain ⟨a, middle, -, hrest⟩ := exists_of_run_bind hrun
  exact hnext a input middle b later False.elim hrest hbad

/-- A report is a reason, whatever comes after it. -/
theorem reporting {pos : Nat} {problem : Problem} {rest : Check β}
    (hhard : problem.isSoft = false) (hrest : Runs (fun _ ↦ True) True .nothing rest) :
    Reasons given bad' (Check.report pos problem >>= fun _ ↦ rest) :=
  .bind (.report hhard) (runs_report pos problem) fun _ ↦ .keep (.inr trivial) hrest

theorem looking {f : CheckInput → CheckState → α} (hlook : Sees step f)
    (hnext : ∀ a, Reasons given bad' (next a)) : Reasons given bad' (step >>= next) := by
  intro input s b later hgiven hrun hbad
  rw [run_bind_of_some (hlook input s)] at hrun
  exact hnext _ input s b later hgiven hrun hbad

theorem ite {p : Prop} [Decidable p] {step' : Check α} (h : p → Reasons given bad step)
    (h' : ¬p → Reasons given bad step') : Reasons given bad (if p then step else step') := by
  split
  · exact h ‹p›
  · exact h' ‹¬p›

theorem mono {given' : Prop} {bad'' : α → Prop} (h : Reasons given bad step)
    (hgiven : given → given') (hbad : ∀ a, bad'' a → bad a) : Reasons given' bad'' step :=
  fun input s a later hs hrun ha ↦ h input s a later (hs ∘ hgiven) hrun (hbad a ha)

theorem mapM {γ : Type} {step : γ → Check α} {list : List γ}
    (h : ∀ a ∈ list, Reasons given bad (step a))
    (hstep : ∀ a ∈ list, Runs (fun _ ↦ True) True .nothing (step a)) :
    Reasons given (fun bs ↦ ∃ b ∈ bs, bad b) (list.mapM step) := by
  induction list with
  | nil => exact pure fun ⟨_, hmem, _⟩ ↦ (by cases hmem)
  | cons a rest ih =>
    have hrest := ih (fun b hb ↦ h b (List.mem_cons_of_mem a hb))
      fun b hb ↦ hstep b (List.mem_cons_of_mem a hb)
    have hruns : Runs (fun _ ↦ True) True .nothing (rest.mapM step) :=
      .mapM fun b hb ↦ hstep b (List.mem_cons_of_mem a hb)
    rw [List.mapM_cons]
    refine .bind (h a List.mem_cons_self) (hstep a List.mem_cons_self) fun b ↦ ?_
    refine .bind (hrest.mono .inl fun _ ↦ id) hruns fun bs ↦ .pure ?_
    rintro ⟨b', hmem, hbad⟩
    rcases List.mem_cons.mp hmem with rfl | hmem
    · exact .inl (.inr hbad)
    · exact .inr ⟨b', hmem, hbad⟩

end Reasons

/-! ### Operands -/

namespace Operand

/-- The operand cannot be used. -/
def IsInvalid (operand : Operand) : Prop := operand.mode = .invalid

/-- The operand cannot be used, or it is a value or a type that is not known. -/
def IsUnknown (operand : Operand) : Prop :=
  operand.mode = .invalid ∨
    (operand.mode = .value ∨ operand.mode = .type) ∧ operand.type = .invalid

/-- Where there is no problem, a value of an invalid type is an unknown one. -/
theorem isUnknown_of_valueType {operand : Operand} {expr : Expr}
    (h : operand.valueProblem? expr = none) (htype : operand.valueType = .invalid) :
    operand.IsUnknown := by
  unfold valueProblem? at h
  unfold valueType at htype
  split at h
  · cases h
  · rename_i hmode hnone
    rw [hmode] at htype
    refine .inr ⟨.inl hmode, ?_⟩
    split at htype
    · rename_i htuple
      exact absurd htuple (hnone _)
    · exact htype
    · rename_i hother _
      exact absurd rfl hother
  · cases h
  · cases h
  · cases h
  · cases h
  · rename_i hmode
    exact .inl hmode

theorem isInvalid_of_valueProblem {operand : Operand} {expr : Expr}
    (h : operand.valueProblem? expr = none) (hvalue : operand.mode ≠ .value) :
    operand.IsInvalid := by
  unfold valueProblem? at h
  split at h
  · cases h
  · contradiction
  · cases h
  · cases h
  · cases h
  · cases h
  · assumption

end Operand

section Operands

variable {given : Prop} {c : Checker} {e : Expr}

theorem reasons_usable {operand : Operand} (h : operand.mode ≠ .invalid) :
    Reasons given Operand.IsInvalid (pure operand) :=
  .pure fun hinvalid ↦ absurd hinvalid h

theorem reasons_badExpr {pos : Nat} {problem : Problem} (h : problem.isSoft = false) :
    Reasons given Operand.IsInvalid (badExpr pos problem) :=
  .reporting h (.pure _)

/-- One value is unknown because of a problem, or because the operand is. -/
theorem reasons_singleValue {operand : Operand} (hgiven : operand.IsUnknown → given) :
    Reasons given (fun type ↦ type = .invalid) (singleValue operand e) := by
  unfold singleValue
  cases hproblem : operand.valueProblem? e with
  | none => exact .pure fun htype ↦ hgiven (operand.isUnknown_of_valueType hproblem htype)
  | some problem =>
    exact .reporting (operand.isSoft_valueProblem hproblem) (.pure _)

/-- An expression as one value is unknown because of a problem, or because the expression is. -/
theorem reasons_value (hexpr : Reasons given Operand.IsUnknown (c.expr e))
    (hruns : Runs (fun _ ↦ True) True .nothing (c.expr e)) :
    Reasons given (fun operand ↦ operand.type = .invalid) (value c e) := by
  refine .bind hexpr hruns fun operand ↦ ?_
  refine .bind (reasons_singleValue .inr) (runs_singleValue _ _) fun type ↦ ?_
  exact .pure .inr

/-- What is no value is reported where one is wanted, unless it is invalid already. -/
theorem reasons_noValue {operand : Operand} (hvalue : operand.mode ≠ .value)
    (hgiven : operand.IsInvalid → given) :
    Reasons given (fun _ ↦ True) (singleValue operand e) := by
  unfold singleValue
  cases hproblem : operand.valueProblem? e with
  | none => exact .pure fun _ ↦ hgiven (operand.isInvalid_of_valueProblem hproblem hvalue)
  | some problem => exact .reporting (operand.isSoft_valueProblem hproblem) (.pure _)

theorem reasons_afterNoValue {operand : Operand} {rest : Check Operand}
    (hvalue : operand.mode ≠ .value) (hgiven : operand.IsInvalid → given)
    (hrest : Runs (fun _ ↦ True) True .nothing rest) :
    Reasons given Operand.IsInvalid (do
      let _ ← singleValue operand e
      rest) :=
  .bind (reasons_noValue hvalue hgiven) (runs_singleValue _ _) fun _ ↦ .keep (.inr trivial) hrest

end Operands

/-! ### Names and selectors -/

section Names

variable {given : Prop} {c : Checker}

theorem reasons_constantOperand (id : SymbolId) (pos : Nat) :
    Reasons given Operand.IsInvalid (constantOperand c id pos) := by
  refine .ite (fun _ ↦ .looking sees_get fun s ↦ ?_) fun _ ↦ ?_
  · cases s.context.iota with
    | none => exact reasons_badExpr rfl
    | some iota => exact reasons_usable nofun
  · exact .last fun _ ↦ .looking (sees_typeOf id) fun _ ↦ .looking (sees_symbol id) fun _ ↦
      reasons_usable nofun

/-- Of all symbols only an import without a package stands for nothing. -/
theorem reasons_symbolOperand (id : SymbolId) (pos : Nat) :
    Reasons given Operand.IsInvalid (symbolOperand c id pos) := by
  intro input s operand later hgiven hrun hbad
  have hresolved (done : Ty → Operand) (hdone : ∀ type, (done type).mode ≠ .invalid) :
      Reasons given Operand.IsInvalid (do
        c.resolve id
        return done (← typeOf id)) :=
    .last fun _ ↦ .looking (sees_typeOf id) fun type ↦ reasons_usable (hdone type)
  unfold symbolOperand at hrun
  rw [run_bind_of_some (sees_symbol id input s)] at hrun
  cases hkind : (s.store.get id).kind with
  | var | func =>
    rw [hkind] at hrun
    exact hresolved .ofValue (fun _ ↦ nofun) input s operand later hgiven hrun hbad
  | typeName =>
    rw [hkind] at hrun
    exact hresolved .ofType (fun _ ↦ nofun) input s operand later hgiven hrun hbad
  | const =>
    rw [hkind] at hrun
    exact reasons_constantOperand id pos input s operand later hgiven hrun hbad
  | builtin | nil =>
    rw [hkind] at hrun
    cases hrun
    cases hbad
  | pkgName =>
    rw [hkind] at hrun
    cases himported : (s.store.get id).imported with
    | none =>
      rw [himported] at hrun
      cases hrun
      exact .missing id hkind himported
    | some scope =>
      rw [himported] at hrun
      cases hrun
      cases hbad

theorem reasons_name (ident : Ident) : Reasons given Operand.IsInvalid (name c ident) := by
  refine .ite (fun _ ↦ reasons_badExpr rfl) fun _ ↦ ?_
  refine .looking (sees_lookup? ident.name) fun found ↦ ?_
  cases found with
  | none => exact reasons_badExpr rfl
  | some id => exact .last fun _ ↦ .last fun _ ↦ reasons_symbolOperand id ident.pos

theorem reasons_packageMember (scope : PackageScope) (package : String) (selected : Ident) :
    Reasons given Operand.IsInvalid (packageMember c scope package selected) := by
  refine .ite (fun _ ↦ .last fun _ ↦ .last fun _ ↦ reasons_usable nofun) fun _ ↦ ?_
  cases scope.find? selected.name with
  | none => exact reasons_badExpr rfl
  | some id =>
    refine .looking (sees_symbol id) fun found ↦ .ite (fun _ ↦ ?_) fun _ ↦ reasons_badExpr rfl
    exact .last fun _ ↦ reasons_symbolOperand id selected.pos

theorem reasons_methodOfType {type : Ty} (selected : Ident) (hgiven : type = .invalid → given) :
    Reasons given Operand.IsInvalid (methodOfType c type selected) := by
  refine .looking sees_store fun store ↦ ?_
  split
  · refine .ite (fun htype ↦ .pure fun _ ↦ hgiven ?_) fun _ ↦
      .reporting rfl (.pure _)
    cases type <;> first | rfl | cases htype
  · exact .last fun _ ↦ .last fun _ ↦ .looking sees_store fun _ ↦ reasons_usable nofun

theorem reasons_memberOfValue (operand : Expr) (type : Ty) (selected : Ident) :
    Reasons given Operand.IsInvalid (memberOfValue c operand type selected) := by
  refine .ite (fun _ ↦ reasons_usable nofun) fun _ ↦ .looking sees_store fun store ↦ ?_
  split
  · exact reasons_badExpr rfl
  · rename_i member _
    have htype : Reasons False Operand.IsInvalid (do return Operand.ofValue (← typeOf member)) :=
      .looking (sees_typeOf member) fun _ ↦ reasons_usable nofun
    exact .last fun _ ↦ .ite (fun _ ↦ .last fun _ ↦ htype) fun _ ↦ htype

theorem reasons_selector {operand : Expr} (selected : Ident)
    (hexpr : Reasons given Operand.IsUnknown (c.expr operand))
    (hruns : Runs (fun _ ↦ True) True .nothing (c.expr operand)) :
    Reasons given Operand.IsInvalid (selector c operand selected) := by
  refine .bind hexpr hruns fun found ↦ ?_
  have hnone (h : found.mode ≠ .value) : Reasons (given ∨ found.IsUnknown) Operand.IsInvalid (do
      let _ ← singleValue found operand
      return .invalid) :=
    reasons_afterNoValue h (fun h ↦ .inr (.inl h)) (.pure _)
  cases hmode : found.mode with
  | package scope => exact reasons_packageMember scope _ selected
  | type => exact reasons_methodOfType selected fun htype ↦ .inr (.inr ⟨.inr hmode, htype⟩)
  | value => exact .last fun type ↦ reasons_memberOfValue operand type selected
  | noValue | builtin _ | invalid => exact hnone (by rw [hmode]; nofun)

end Names

/-! ### Calls -/

section Calls

variable {given : Prop} {c : Checker}

theorem reasons_conversion (info : NodeInfo) (target : Ty) (args : List Expr) :
    Reasons given Operand.IsInvalid (conversion c info target args) := by
  unfold conversion
  split
  · exact .last fun _ ↦ reasons_usable nofun
  · exact .last fun _ ↦ reasons_usable nofun
  · exact .last fun _ ↦ .last fun _ ↦ reasons_usable nofun

theorem reasons_builtinCall (pos : Nat) (name : String) (arity : Option Nat)
    (result : BuiltinResult) (args : List Expr) :
    Reasons given Operand.IsInvalid (builtinCall c pos name arity result args) := by
  have hresult {given : Prop} {done : Operand} (hdone : done.mode ≠ .invalid) :
      Reasons given Operand.IsInvalid (do
        values c args
        return done) :=
    .last fun _ ↦ reasons_usable hdone
  have hchecked {done : Operand} (count : Nat) (hdone : done.mode ≠ .invalid) :
      Reasons given Operand.IsInvalid (do
        if args.length ≠ count then report pos (.builtinArity name (toString count))
        values c args
        return done) :=
    .ite (fun _ ↦ .last fun _ ↦ hresult hdone) fun _ ↦ hresult hdone
  cases arity with
  | none => cases result <;> exact hresult nofun
  | some count => cases result <;> exact hchecked count nofun

theorem reasons_appendCall (slice : Expr) (added : List Expr) :
    Reasons given Operand.IsInvalid (appendCall c slice added) := by
  refine .last fun operand ↦ .looking (sees_underlying _) fun shape ↦ ?_
  split <;> exact .last fun _ ↦ reasons_usable nofun

theorem reasons_builtin (info : NodeInfo) (name : String) (args : List Expr) :
    Reasons given Operand.IsInvalid (builtin c info name args) := by
  unfold builtin
  split
  · exact reasons_builtinCall _ _ _ _ _
  · exact reasons_builtinCall _ _ _ _ _
  · exact reasons_builtinCall _ _ _ _ _
  · exact reasons_builtinCall _ _ _ _ _
  · exact reasons_appendCall _ _
  · exact .last fun _ ↦ .last fun _ ↦ reasons_usable nofun
  · exact .last fun _ ↦ .last fun _ ↦ reasons_usable nofun
  · exact reasons_badExpr rfl
  · exact reasons_badExpr rfl
  · exact reasons_badExpr rfl
  · exact reasons_builtinCall _ _ _ _ _

theorem reasons_valueCall (info : NodeInfo) (callee : Expr) (type : Ty) (args : List Expr) :
    Reasons given Operand.IsInvalid (valueCall c info callee type args) := by
  refine .looking sees_store fun store ↦ ?_
  cases store.signature? type with
  | some signature =>
    refine .last fun _ ↦ reasons_usable ?_
    unfold resultOperand
    split <;> nofun
  | none =>
    have hargs {given : Prop} : Reasons given Operand.IsInvalid (do
        c.exprs args
        return Operand.unknown) :=
      .last fun _ ↦ reasons_usable nofun
    exact .ite (fun _ ↦ hargs) fun _ ↦ .last fun _ ↦ hargs

theorem reasons_call {callee : Expr} (info : NodeInfo) (args : List Expr)
    (hexpr : Reasons given Operand.IsUnknown (c.expr callee))
    (hruns : ∀ e, Runs (fun _ ↦ True) True .nothing (c.expr e)) :
    Reasons given Operand.IsInvalid (call c info callee args) := by
  refine .bind hexpr (hruns callee) fun found ↦ ?_
  have hnone (h : found.mode ≠ .value) : Reasons (given ∨ found.IsUnknown) Operand.IsInvalid (do
      let _ ← singleValue found callee
      c.exprs args
      return .invalid) :=
    reasons_afterNoValue h (fun h ↦ .inr (.inl h)) (.bind (runs_exprs fun e _ ↦ hruns e) fun _ ↦ .pure _)
  cases hmode : found.mode with
  | type => exact reasons_conversion info found.type args
  | builtin name => exact reasons_builtin info name args
  | value => exact reasons_valueCall info callee found.type args
  | noValue | package _ | invalid => exact hnone (by rw [hmode]; nofun)

end Calls

/-! ### Operators and literals -/

section Operators

variable {given : Prop} {c : Checker}

theorem reasons_indirection {pointer : Expr} (info : NodeInfo)
    (hexpr : Reasons given Operand.IsUnknown (c.expr pointer))
    (hruns : Runs (fun _ ↦ True) True .nothing (c.expr pointer)) :
    Reasons given Operand.IsInvalid (indirection c info pointer) := by
  refine .bind hexpr hruns fun found ↦ ?_
  have hnone (h : found.mode ≠ .value) : Reasons (given ∨ found.IsUnknown) Operand.IsInvalid (do
      let _ ← singleValue found pointer
      return .invalid) :=
    reasons_afterNoValue h (fun h ↦ .inr (.inl h)) (.pure _)
  cases hmode : found.mode with
  | type => exact reasons_usable nofun
  | value =>
    refine .looking sees_store fun store ↦ ?_
    cases store.pointee? found.type with
    | some element => exact reasons_usable nofun
    | none => exact .ite (fun _ ↦ reasons_usable nofun) fun _ ↦ reasons_badExpr rfl
  | noValue | package _ | builtin _ | invalid => exact hnone (by rw [hmode]; nofun)

theorem reasons_unary (info : NodeInfo) (op : UnaryOp) (operand : Expr) :
    Reasons given Operand.IsInvalid (unary c info op operand) := by
  refine .last fun found ↦ .ite (fun _ ↦ reasons_usable nofun) fun _ ↦ ?_
  refine .looking sees_store fun store ↦ ?_
  cases op with
  | addr => exact reasons_usable nofun
  | not | neg | plus | bitNot =>
    exact .ite (fun _ ↦ reasons_usable nofun) fun _ ↦ reasons_badExpr rfl

theorem reasons_comparison (b : BinaryOperands) :
    Reasons given Operand.IsInvalid (comparison b) := by
  refine .looking (sees_assignable _ _) fun fits ↦ ?_
  cases fits with
  | true => exact reasons_usable nofun
  | false =>
    exact .looking (sees_assignable _ _) fun _ ↦ .ite (fun _ ↦ reasons_usable nofun) fun _ ↦
      reasons_badExpr rfl

theorem reasons_logical (b : BinaryOperands) : Reasons given Operand.IsInvalid (logical b) :=
  .looking sees_store fun _ ↦ .ite (fun _ ↦ reasons_badExpr rfl) fun _ ↦
    .ite (fun _ ↦ reasons_badExpr rfl) fun _ ↦ reasons_usable nofun

theorem reasons_arithmetic (b : BinaryOperands) (left right : Option Int) :
    Reasons given Operand.IsInvalid (arithmetic b left right) := by
  refine .looking sees_store fun store ↦ ?_
  cases sharedType? store b.leftType b.rightType with
  | none => exact reasons_badExpr rfl
  | some type =>
    refine .ite (fun _ ↦ reasons_badExpr rfl) fun _ ↦ ?_
    split
    · exact .ite (fun _ ↦ reasons_badExpr rfl) fun _ ↦ reasons_usable nofun
    · exact reasons_usable nofun

theorem reasons_binary (info : NodeInfo) (op : BinaryOp) (left right : Expr) :
    Reasons given Operand.IsInvalid (binary c info op left right) := by
  refine .last fun x ↦ .last fun y ↦ .ite (fun _ ↦ reasons_usable nofun) fun _ ↦ ?_
  refine .ite (fun _ ↦ reasons_comparison _) fun _ ↦ .ite (fun _ ↦ reasons_logical _) fun _ ↦ ?_
  exact .ite (fun _ ↦ reasons_usable nofun) fun _ ↦ reasons_arithmetic _ _ _

theorem reasons_typeAssertion (info : NodeInfo) (operand : Expr) (type : Option Expr) :
    Reasons given Operand.IsInvalid (typeAssertion c info operand type) := by
  refine .last fun found ↦ ?_
  cases type with
  | none => exact reasons_badExpr rfl
  | some e =>
    refine .last fun type ↦ ?_
    cases found.type.isInvalid with
    | true => exact reasons_usable nofun
    | false =>
      exact .looking sees_store fun _ ↦ .ite (fun _ ↦ reasons_usable nofun) fun _ ↦
        .last fun _ ↦ reasons_usable nofun

theorem reasons_index (info : NodeInfo) (indexed key : Expr) :
    Reasons given Operand.IsInvalid (index c info indexed key) := by
  refine .last fun found ↦ .last fun place ↦ .ite (fun _ ↦ reasons_usable nofun) fun _ ↦ ?_
  refine .looking sees_store fun store ↦ ?_
  split
  · exact reasons_usable nofun
  · exact reasons_usable nofun
  · exact .last fun _ ↦ reasons_usable nofun
  · exact .ite (fun _ ↦ reasons_usable nofun) fun _ ↦ reasons_badExpr rfl
  · exact reasons_badExpr rfl

end Operators

/-! ### All expressions -/

section Exprs

variable {given : Prop} {c : Checker}

theorem reasons_operandOf (hexpr : ∀ e, Reasons given Operand.IsUnknown (c.expr e))
    (hruns : ∀ e, Runs (fun _ ↦ True) True .nothing (c.expr e)) (e : Expr) :
    Reasons given Operand.IsInvalid (operandOf c e) := by
  cases e with
  | ident ident => exact reasons_name ident
  | literal literal =>
    refine reasons_usable ?_
    unfold literalOperand
    split <;> nofun
  | selector info operand selected =>
    exact reasons_selector selected (hexpr operand) (hruns operand)
  | call info callee args => exact reasons_call info args (hexpr callee) hruns
  | star info pointer => exact reasons_indirection info (hexpr pointer) (hruns pointer)
  | unary info op operand => exact reasons_unary info op operand
  | binary info op left right => exact reasons_binary info op left right
  | paren info inner => exact (hexpr inner).mono id fun _ ↦ .inl
  | typeAssert info operand type => exact reasons_typeAssertion info operand type
  | index info indexed key => exact reasons_index info indexed key
  | composite info type given =>
    exact .last fun _ ↦ .last fun _ ↦ .last fun _ ↦ reasons_usable nofun
  | keyValue info key value => exact reasons_badExpr rfl
  | funcLit info type body => exact .last fun _ ↦ .last fun _ ↦ reasons_usable nofun
  | arrayType | mapType | structType | interfaceType | funcType =>
    exact .last fun _ ↦ reasons_usable nofun

/-- An invalid type that is recorded is a reason. -/
theorem reasons_recorded (id : NodeId) {operand : Operand} (hmode : operand.mode ≠ .invalid) :
    Reasons given Operand.IsUnknown (do
      recordType id operand.type
      return operand) := by
  intro input s a later _ hrun hbad
  cases hrun
  rcases hbad with hinvalid | ⟨-, htype⟩
  · exact absurd hinvalid hmode
  · exact .unknown (id, operand.type) List.mem_cons_self htype

/-- The type of a value or of a type is recorded; what is neither is invalid or no value. -/
theorem reasons_expr (hexpr : ∀ e, Reasons given Operand.IsUnknown (c.expr e))
    (hruns : ∀ task : Task, Runs (fun _ ↦ True) True task.reach (c task)) (e : Expr) :
    Reasons given Operand.IsUnknown (CheckRule.expr c e) := by
  have hbelow : TasksRun (fun _ ↦ True) True c (Node.ofExpr e) :=
    ⟨fun e _ ↦ hruns (.expr e), fun e _ ↦ hruns (.typeExpr e), fun s _ ↦ hruns (.stmt s),
      fun id ↦ hruns (.resolve id)⟩
  refine .bind (reasons_operandOf hexpr (fun e ↦ hruns (.expr e)) e)
    (runs_operandOf hbelow (hruns (.typeExpr e))) fun operand ↦ ?_
  have hother (hvalue : operand.mode ≠ .value) (htype : operand.mode ≠ .type) :
      Reasons (given ∨ operand.IsInvalid) Operand.IsUnknown (pure operand) :=
    .pure fun hbad ↦ .inr (hbad.resolve_right fun h ↦ h.1.elim hvalue htype)
  cases hmode : operand.mode with
  | value | type => exact reasons_recorded e.id (by rw [hmode]; nofun)
  | noValue | package _ | builtin _ | invalid =>
    exact hother (by rw [hmode]; nofun) (by rw [hmode]; nofun)

/-- Each target has a value of its own, or the counts differ, which is reported; but for a single
expression that is spread over several targets. -/
theorem reasons_valueTypes {exprs : List Expr} {count : Nat} (pos : Nat)
    (hcount : exprs.length = count ∨ exprs.length ≠ 1)
    (hexpr : ∀ e, Reasons given Operand.IsUnknown (c.expr e))
    (hruns : ∀ e, Runs (fun _ ↦ True) True .nothing (c.expr e)) :
    Reasons given (fun types ↦ ∃ type ∈ types, type = .invalid) (valueTypes c exprs count pos) := by
  refine .ite (fun _ ↦ .mapM (fun e _ ↦ ?_) fun e _ ↦ ?_) fun hne ↦ ?_
  · exact .bind (reasons_value (hexpr e) (hruns e)) (runs_value (hruns e)) fun operand ↦ .pure .inr
  · exact .bind (runs_value (hruns e)) fun _ ↦ .pure _
  · split
    · exact absurd rfl (hcount.resolve_left hne)
    · exact .last fun _ ↦ .reporting rfl (.pure _)

end Exprs

/-! ### Any depth -/

section Depths

variable {input : CheckInput} {s later : CheckState}

theorem Checker.within_reasons (depth : Nat) (e : Expr) :
    Reasons False Operand.IsUnknown ((Checker.within depth).expr e) := by
  induction depth generalizing e with
  | zero => exact fun _ _ _ _ _ h ↦ (by cases h)
  | succ depth ih => exact reasons_expr ih (Checker.within_runs depth) e

theorem Checker.within_reasons_value (depth : Nat) (e : Expr) :
    Reasons False (fun operand ↦ operand.type = .invalid) (value (Checker.within depth) e) :=
  reasons_value (Checker.within_reasons depth e) (Checker.within_runs depth (.expr e))

/-- An expression that is checked cannot be used for a reason only. -/
theorem hasReason_of_invalid {depth : Nat} {e : Expr} {operand : Operand}
    (h : (Checker.within depth).expr e input s = some (operand, later))
    (hmode : operand.mode = .invalid) : later.HasReason :=
  Checker.within_reasons depth e input s operand later False.elim h (.inl hmode)

/-- Where one value is wanted, its type is unknown for a reason only: a call without results, a type
or a package that stands there is reported. -/
theorem hasReason_of_value {depth : Nat} {e : Expr} {operand : Operand}
    (h : value (Checker.within depth) e input s = some (operand, later))
    (htype : operand.type = .invalid) : later.HasReason :=
  Checker.within_reasons_value depth e input s operand later False.elim h htype

/-- Several targets get an unknown type for a reason only, unless a single expression is spread over
them: there a call without results is not reported. -/
theorem hasReason_of_valueTypes {depth : Nat} {exprs : List Expr} {count pos : Nat}
    {types : List Ty} (hcount : exprs.length = count ∨ exprs.length ≠ 1)
    (h : valueTypes (Checker.within depth) exprs count pos input s = some (types, later))
    (htype : .invalid ∈ types) : later.HasReason := by
  have hreasons := reasons_valueTypes pos hcount (Checker.within_reasons depth)
    fun e ↦ Checker.within_runs depth (.expr e)
  exact hreasons input s types later False.elim h ⟨.invalid, htype, rfl⟩

end Depths

end PackageAtlas
