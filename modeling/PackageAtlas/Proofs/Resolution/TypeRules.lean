import PackageAtlas.Proofs.Resolution.Steps

/-!
The rules for operands, names, selectors, type expressions and parameters, and what they leave as it
is. Of the names in a type expression only those of types are resolved.
-/

set_option autoImplicit false
set_option relaxedAutoImplicit false

namespace PackageAtlas

open Check CheckRule

variable {inv : CheckState → Prop} {hangs : Prop} {reach : Reach} {c : Checker}

/-! ### Operands -/

section Operands

variable [Stable inv reach]

theorem runs_singleValue (operand : Operand) (expr : Expr) :
    Runs inv hangs reach (singleValue operand expr) := by
  unfold singleValue
  cases operand.valueProblem? expr with
  | none => exact .pure _
  | some problem => exact .bind (runs_report _ _) fun _ ↦ .pure _

theorem runs_value {expr : Expr} (h : Runs inv hangs reach (c.expr expr)) :
    Runs inv hangs reach (value c expr) :=
  .bind h fun operand ↦ .bind (runs_singleValue operand expr) fun _ ↦ .pure _

theorem runs_values {exprs : List Expr} (h : ∀ e ∈ exprs, Runs inv hangs reach (c.expr e)) :
    Runs inv hangs reach (values c exprs) :=
  .forM fun e he ↦ .bind (runs_value (h e he)) fun _ ↦ .pure ()

theorem runs_exprs {exprs : List Expr} (h : ∀ e ∈ exprs, Runs inv hangs reach (c.expr e)) :
    Runs inv hangs reach (c.exprs exprs) :=
  .forM fun e he ↦ .bind (h e he) fun _ ↦ .pure ()

omit [Stable inv reach] in
/-- A report that depends on what is assignable. -/
theorem runs_unlessAssignable (value target : Ty) (pos : Nat) (problem : Problem) :
    Runs inv hangs reach (do unless ← assignable value target do report pos problem) :=
  .looking (sees_assignable value target) fun _ ↦
    .ite (fun _ ↦ .pure ()) fun _ ↦ runs_report pos problem

omit [Stable inv reach] in
theorem runs_assignTo (target : Ty) (usage : Usage) (operand : Operand) (expr : Expr) :
    Runs inv hangs reach (assignTo target usage operand expr) :=
  runs_unlessAssignable _ _ _ _

theorem runs_valueFor {target : Ty} {usage : Usage} {expr : Expr}
    (h : Runs inv hangs reach (c.expr expr)) :
    Runs inv hangs reach (valueFor c target usage expr) :=
  .bind (runs_value h) fun operand ↦ runs_assignTo target usage operand expr

theorem runs_assignEach (pos : Nat) (usage : Usage) (types targets : List Ty) :
    Runs inv hangs reach (assignEach pos usage types targets) :=
  .forM fun _ _ ↦ runs_unlessAssignable _ _ _ _

theorem runs_badExpr (pos : Nat) (problem : Problem) :
    Runs inv hangs reach (badExpr pos problem) :=
  .bind (runs_report pos problem) fun _ ↦ .pure _

end Operands

/-! ### Names -/

section Names

variable [Stable inv .nothing]

theorem runs_constantOperand {id : SymbolId} {pos : Nat}
    (h : Runs inv hangs .nothing (c.resolve id)) :
    Runs inv hangs .nothing (constantOperand c id pos) := by
  refine .ite (fun _ ↦ ?_) fun _ ↦ ?_
  · refine .looking sees_get fun s ↦ ?_
    cases s.context.iota with
    | none => exact runs_badExpr pos _
    | some iota => exact .pure _
  · exact .bind h fun _ ↦ .looking (sees_typeOf id) fun _ ↦ .looking (sees_symbol id) fun _ ↦
      .pure _

theorem runs_symbolOperand {id : SymbolId} {pos : Nat}
    (h : Runs inv hangs .nothing (c.resolve id)) :
    Runs inv hangs .nothing (symbolOperand c id pos) := by
  refine .looking (sees_symbol id) fun found ↦ ?_
  cases found.kind with
  | var | func | typeName => exact .bind h fun _ ↦ .looking (sees_typeOf id) fun _ ↦ .pure _
  | const => exact runs_constantOperand h
  | pkgName | builtin | nil => exact .pure _

/-- A name resolves the symbol that it stands for. -/
theorem runs_name {ident : Ident}
    (h : ∀ id, (∃ s, inv s ∧ s.lookup? ident.name = some id) →
      Runs inv hangs .nothing (c.resolve id)) :
    Runs inv hangs .nothing (name c ident) := by
  refine .ite (fun _ ↦ runs_badExpr _ _) fun _ ↦ ?_
  refine .look (sees_lookup? ident.name) fun input s hs ↦ ?_
  split
  · exact runs_badExpr _ _ input s hs
  · rename_i id hlookup
    have hname : Runs inv hangs .nothing (do
        recordUse ident id
        markUsed id
        symbolOperand c id ident.pos) :=
      .bind (runs_recordUse ident id) fun _ ↦ .bind (runs_markUsed id) fun _ ↦
        runs_symbolOperand (h id ⟨s, hs, hlookup⟩)
    exact hname input s hs

/-! ### Selectors -/

variable (hresolve : ∀ id, Runs inv hangs .nothing (c.resolve id))

include hresolve

theorem runs_packageMember (scope : PackageScope) (package : String) (selected : Ident) :
    Runs inv hangs .nothing (packageMember c scope package selected) := by
  refine .ite (fun _ ↦ ?_) fun _ ↦ ?_
  · exact .bind (runs_foreignMember _) fun id ↦ .bind (runs_recordUse selected id) fun _ ↦ .pure _
  · cases scope.find? selected.name with
    | none => exact runs_badExpr _ _
    | some id =>
      refine .looking (sees_symbol id) fun found ↦ .ite (fun _ ↦ ?_) fun _ ↦ runs_badExpr _ _
      exact .bind (runs_recordUse selected id) fun _ ↦ runs_symbolOperand (hresolve id)

theorem runs_methodOfType (type : Ty) (selected : Ident) :
    Runs inv hangs .nothing (methodOfType c type selected) := by
  refine .looking sees_store fun store ↦ ?_
  split
  · refine .ite (fun _ ↦ .pure _) fun _ ↦ ?_
    exact .bind (runs_report _ _) fun _ ↦ .pure _
  · rename_i method _
    exact .bind (runs_recordUse selected method) fun _ ↦ .bind (hresolve method) fun _ ↦
      .looking sees_store fun _ ↦ .pure _

theorem runs_memberOfValue (operand : Expr) (type : Ty) (selected : Ident) :
    Runs inv hangs .nothing (memberOfValue c operand type selected) := by
  refine .ite (fun _ ↦ .pure _) fun _ ↦ .looking sees_store fun store ↦ ?_
  split
  · exact runs_badExpr _ _
  · rename_i member _
    refine .bind (runs_recordUse selected member) fun _ ↦ ?_
    refine .ite (fun _ ↦ ?_) fun _ ↦ .looking (sees_typeOf member) fun _ ↦ .pure _
    exact .bind (hresolve member) fun _ ↦ .looking (sees_typeOf member) fun _ ↦ .pure _

theorem runs_selector {operand : Expr} {selected : Ident}
    (h : Runs inv hangs .nothing (c.expr operand)) :
    Runs inv hangs .nothing (selector c operand selected) := by
  refine .bind h fun found ↦ ?_
  cases found.mode with
  | package scope => exact runs_packageMember hresolve scope _ selected
  | type => exact runs_methodOfType hresolve found.type selected
  | value =>
    exact .bind (runs_singleValue found operand) fun type ↦
      runs_memberOfValue hresolve operand type selected
  | noValue | builtin _ | invalid =>
    exact .bind (runs_singleValue found operand) fun _ ↦ .pure _

end Names

/-! ### Types -/

section Types

variable [Stable inv .nothing]

omit [Stable inv .nothing] in
theorem runs_badType [Stable inv reach] (pos : Nat) (problem : Problem) :
    Runs inv hangs reach (badType pos problem) :=
  .bind (runs_report pos problem) fun _ ↦ .pure _

theorem runs_namedType {ident : Ident}
    (h : ∀ id, Runs (fun s ↦ inv s ∧ (s.store.get id).kind = .typeName) hangs .nothing
      (c.resolve id)) :
    Runs inv hangs .nothing (namedType c ident) := by
  refine .looking (sees_lookup? ident.name) fun found ↦ ?_
  cases found with
  | none => exact runs_badType _ _
  | some id =>
    refine .bind (runs_recordUse ident id) fun _ ↦ .look (sees_symbol id) fun input s hs ↦ ?_
    split
    · have hbad : Runs inv hangs .nothing (do
          markUsed id
          badType ident.pos (.noType ident.name)) :=
        .bind (runs_markUsed id) fun _ ↦ runs_badType _ _
      exact hbad input s hs
    · rename_i hkind
      have hkind : (s.store.get id).kind = .typeName := Decidable.not_not.mp hkind
      split
      · exact RunsAt.bind (h id input s ⟨hs, hkind⟩) fun _ later _ ↦ .ofLook (sees_typeOf id)
      · exact .ofLook (sees_typeOf id)

theorem runs_packageType (package selected : Ident) (scope : PackageScope) :
    Runs inv hangs .nothing (packageType package selected scope) := by
  refine .ite (fun _ ↦ ?_) fun _ ↦ ?_
  · exact .bind (runs_foreignMember _) fun id ↦ .bind (runs_recordUse selected id) fun _ ↦ .pure _
  · cases scope.find? selected.name with
    | none => exact runs_badType _ _
    | some id =>
      refine .looking (sees_symbol id) fun found ↦ .ite (fun _ ↦ ?_) fun _ ↦ runs_badType _ _
      exact .bind (runs_recordUse selected id) fun _ ↦ .ofLook (sees_typeOf id)

theorem runs_qualifiedType (info : NodeInfo) (operand : Expr) (selected : Ident) :
    Runs inv hangs .nothing (qualifiedType info operand selected) := by
  unfold qualifiedType
  split
  · rename_i package
    refine .looking (sees_lookup? package.name) fun found ↦ ?_
    cases found with
    | none => exact runs_badType _ _
    | some id =>
      refine .bind (runs_recordUse package id) fun _ ↦ .bind (runs_markUsed id) fun _ ↦ ?_
      refine .looking (sees_symbol id) fun found ↦ ?_
      cases found.imported with
      | none => exact runs_badType _ _
      | some scope => exact runs_packageType package selected scope
  · exact runs_badType _ _

theorem runs_arrayType {length : Option Expr} {element : Expr}
    (hlength : ∀ e ∈ length, Runs inv hangs .nothing (c.expr e))
    (helement : Runs inv hangs .nothing (c.typeExpr element)) :
    Runs inv hangs .nothing (arrayType c length element) := by
  refine .bind helement fun type ↦ ?_
  cases length with
  | none => exact .pure _
  | some e =>
    refine .bind (hlength e rfl) fun operand ↦ ?_
    split
    · exact .pure _
    · exact runs_badType _ _

theorem runs_fieldMember (name : Ident) (isEmbedded : Bool) (type : Ty) :
    Runs inv hangs .nothing (fieldMember name isEmbedded type) :=
  .looking (sees_declared .var name) fun _ ↦ .bind (runs_addSymbol _) fun _ ↦ .pure _

theorem runs_namedFields (type : Ty) (fields : List Member) (names : List Ident) :
    Runs inv hangs .nothing (namedFields type fields names) := by
  refine .foldlM fields fun fields name _ ↦ .bind (runs_fieldMember name false type) fun field ↦ ?_
  refine .bind (runs_recordDef name field.symbol) fun _ ↦ ?_
  exact .ite (fun _ ↦ .bind (runs_report _ _) fun _ ↦ .pure _) fun _ ↦ .pure _

theorem runs_structType {fields : List Field}
    (h : ∀ field ∈ fields, Runs inv hangs .nothing (c.typeExpr field.type)) :
    Runs inv hangs .nothing (structType c fields) := by
  refine .bind (.foldlM [] fun members field hfield ↦ .bind (h field hfield) fun type ↦ ?_)
    fun _ ↦ .pure _
  refine .ite (fun _ ↦ ?_) fun _ ↦ runs_namedFields type members field.names
  cases embeddedName? field.type with
  | none => exact .bind (runs_report _ _) fun _ ↦ .pure _
  | some name => exact .bind (runs_fieldMember name true type) fun _ ↦ .pure _

theorem runs_underlying {type : Ty} (h : ∀ id, Runs inv hangs .nothing (c.resolve id)) :
    Runs inv hangs .nothing (c.underlying type) := by
  unfold Checker.underlying
  split
  · exact .bind (h _) fun _ ↦ .ofLook (sees_underlying _)
  · exact .pure _

/-- Elements without a name are embedded, and their types are resolved. -/
theorem runs_interfaceType {elements : List Field}
    (h : ∀ element ∈ elements, Runs inv hangs .nothing (c.typeExpr element.type))
    (hresolve : ∀ element ∈ elements, element.names = [] →
      ∀ id, Runs inv hangs .nothing (c.resolve id)) :
    Runs inv hangs .nothing (interfaceType c elements) := by
  refine .bind (.foldlM [] fun methods element helement ↦ .bind (h element helement) fun type ↦ ?_)
    fun _ ↦ .pure _
  cases hnames : element.names with
  | cons name _ =>
    refine .looking (sees_declared .func name) fun _ ↦ .bind (runs_addSymbol _) fun id ↦ ?_
    exact .bind (runs_recordDef name id) fun _ ↦ .pure _
  | nil =>
    refine .bind (runs_underlying (hresolve element helement hnames)) fun shape ↦ ?_
    split
    · exact .pure _
    · exact .pure _
    · exact .bind (runs_report _ _) fun _ ↦ .pure _

theorem runs_fieldTypes {fields : List Field}
    (h : ∀ field ∈ fields, Runs inv hangs .nothing (c.typeExpr field.type)) :
    Runs inv hangs .nothing (fieldTypes c fields) :=
  .bind (.mapM fun field hfield ↦ .bind (h field hfield) fun _ ↦ .pure _) fun _ ↦ .pure _

theorem runs_signature {type : FuncType}
    (h : ∀ field ∈ type.params ++ type.results, Runs inv hangs .nothing (c.typeExpr field.type)) :
    Runs inv hangs .nothing (signature c type) := by
  refine .bind (runs_fieldTypes fun field hfield ↦ h field (List.mem_append_left _ hfield))
    fun params ↦ ?_
  refine .bind (runs_fieldTypes fun field hfield ↦ h field (List.mem_append_right _ hfield))
    fun results ↦ ?_
  exact .bind (runs_recordType _ _) fun _ ↦ .pure _

end Types

/-! ### Parameters -/

variable [Lasting inv]

theorem runs_declareFields (fields : List Field) (types : List Ty) :
    Runs inv hangs .names (declareFields fields types) := by
  induction fields generalizing types with
  | nil => exact .pure ()
  | cons field rest ih =>
    refine .bind (.forM fun entry _ ↦ ?_) fun _ ↦ ih _
    exact .bind (runs_addVariable entry.1 entry.2 false) fun id ↦ runs_declareLocal entry.1 id

theorem runs_declareParams (type : FuncType) (signature : Signature) :
    Runs inv hangs .names (declareParams type signature) :=
  .bind (runs_declareFields _ _) fun _ ↦ runs_declareFields _ _

end PackageAtlas
