import PackageAtlas.Proofs.Naming.TypeRules
import PackageAtlas.Check.ExprRules
import PackageAtlas.Check.ValueRules

/-!
The other expressions: operators, calls and literals. What they result in knows its members under
the right names, as what they are made of does. So do the values that several targets get and the
types that initializers give to variables and constants: there is one type for each target, so that
each name of a declaration gets one.
-/

set_option autoImplicit false
set_option relaxedAutoImplicit false

namespace PackageAtlas

open Check CheckRule

section

variable {σ : Setting} {names : List String} {blocks : List (List String)} {s : CheckState}
  {c : Checker}

/-! ### Operators -/

theorem marks_indirection (info : NodeInfo) {pointer : Expr}
    (h : Marks σ blocks (c.expr pointer) Operand.Named) :
    MarksAt σ blocks blocks s (indirection c info pointer) Operand.Named := by
  refine (h s).bind fun found s₁ _ hfound ↦ ?_
  split
  · exact .pure (.ofType (.pointer hfound.type))
  · refine .look sees_store fun hs ↦ ?_
    split
    · rename_i element hpointee
      exact .pure (.ofValue (hs.store.pointee? hfound.type hpointee))
    · exact .ite (fun _ ↦ .pure .unknown) fun _ ↦ marks_badExpr _ rfl
  · exact (marks_singleValue pointer hfound).bind fun _ _ _ _ ↦ .pure .invalid

theorem marks_unary (info : NodeInfo) (op : UnaryOp) {e : Expr}
    (h : Marks σ blocks (c.expr e) Operand.Named) :
    MarksAt σ blocks blocks s (unary c info op e) Operand.Named := by
  refine (marks_value h s).bind fun operand s₁ _ hoperand ↦ .ite (fun _ ↦ .pure .unknown) fun _ ↦ ?_
  refine .look sees_store fun _ ↦ ?_
  split
  · exact .pure (.ofValue (.pointer hoperand.type))
  · exact .ite (fun _ ↦ .pure (.ofValue hoperand.type)) fun _ ↦ marks_badExpr _ rfl
  all_goals
    exact .ite (fun _ ↦ .pure (.constant hoperand.type _)) fun _ ↦ marks_badExpr _ rfl

theorem marks_comparison (b : BinaryOperands) :
    MarksAt σ blocks blocks s (comparison b) Operand.Named := by
  refine .look (sees_assignable _ _) fun _ ↦ .look (sees_assignable _ _) fun _ ↦ ?_
  exact .ite (fun _ ↦ .pure (.ofValue (.basic _))) fun _ ↦ marks_badExpr _ rfl

/-- The types of both operands are in order. -/
structure BinaryOperandsNamed (store : Store) (b : BinaryOperands) : Prop where
  left : b.leftType.Named store
  right : b.rightType.Named store

theorem marks_logical {b : BinaryOperands} (h : BinaryOperandsNamed s.store b) :
    MarksAt σ blocks blocks s (logical b) Operand.Named := by
  refine .look sees_store fun _ ↦ .ite (fun _ ↦ marks_badExpr _ rfl) fun _ ↦ ?_
  refine .ite (fun _ ↦ marks_badExpr _ rfl) fun _ ↦ .pure (.ofValue ?_)
  split
  · exact h.right
  · exact h.left

theorem BinaryOperandsNamed.sharedType? {store : Store} {b : BinaryOperands}
    (h : BinaryOperandsNamed store b) {type : Ty}
    (hshared : CheckRule.sharedType? store b.leftType b.rightType = some type) :
    type.Named store := by
  unfold CheckRule.sharedType? at hshared
  split at hshared
  · cases hshared
    exact h.right.widerUntyped
  all_goals
    split at hshared
    · cases hshared
      first | exact h.right | exact h.left
    · cases hshared

theorem marks_arithmetic {b : BinaryOperands} (h : BinaryOperandsNamed s.store b)
    (left right : Option Int) :
    MarksAt σ blocks blocks s (arithmetic b left right) Operand.Named := by
  refine .look sees_store fun _ ↦ ?_
  split
  · exact marks_badExpr _ rfl
  · rename_i type hshared
    refine .ite (fun _ ↦ marks_badExpr _ rfl) fun _ ↦ ?_
    split
    · exact .ite (fun _ ↦ marks_badExpr _ rfl) fun _ ↦ .pure (.constant (h.sharedType? hshared) _)
    · exact .pure (.ofValue (h.sharedType? hshared))

theorem marks_binary (info : NodeInfo) (op : BinaryOp) {left right : Expr}
    (hleft : Marks σ blocks (c.expr left) Operand.Named)
    (hright : Marks σ blocks (c.expr right) Operand.Named) :
    MarksAt σ blocks blocks s (binary c info op left right) Operand.Named := by
  refine (marks_value hleft s).bind fun x s₁ _ hx ↦ (marks_value hright s₁).bind fun y s₂ h₂ hy ↦ ?_
  have hoperands : BinaryOperandsNamed s₂.store ⟨info, op, left, right, x.type, y.type⟩ :=
    ⟨hx.type.mono h₂, hy.type⟩
  refine .ite (fun _ ↦ .pure .unknown) fun _ ↦ .ite (fun _ ↦ marks_comparison _) fun _ ↦ ?_
  refine .ite (fun _ ↦ marks_logical hoperands) fun _ ↦ .ite (fun _ ↦ ?_) fun _ ↦ ?_
  · exact .pure (.constant (hx.type.mono h₂) _)
  · exact marks_arithmetic hoperands _ _

/-! ### Calls -/

theorem marks_conversion (info : NodeInfo) {target : Ty} {args : List Expr}
    (htarget : target.Named s.store) (hargs : ∀ e ∈ args, Marks σ blocks (c.expr e) Operand.Named) :
    MarksAt σ blocks blocks s (conversion c info target args) Operand.Named := by
  unfold conversion
  split
  · exact (marks_value (hargs _ List.mem_cons_self) s).bind fun operand _ hgrows _ ↦
      .pure (.constant (htarget.mono hgrows) _)
  · exact (marks_report _ rfl).bind fun _ _ hgrows _ ↦ .pure (.ofValue (htarget.mono hgrows))
  · exact (marks_report _ rfl).bind fun _ s₁ h₁ _ ↦ (marks_exprs hargs s₁).bind fun _ _ h₂ _ ↦
      .pure (.ofValue (htarget.mono (h₁.trans h₂)))

theorem marks_builtinCall (pos : Nat) (name : String) (arity : Option Nat) (kind : BuiltinResult)
    {args : List Expr} (hargs : ∀ e ∈ args, Marks σ blocks (c.expr e) Operand.Named) :
    MarksAt σ blocks blocks s (builtinCall c pos name arity kind args) Operand.Named := by
  have hcall (s : CheckState) {done : Operand} (hdone : ∀ store, done.Named store) :
      MarksAt σ blocks blocks s (do
        values c args
        return done) Operand.Named :=
    (marks_values hargs s).bind fun _ _ _ _ ↦ .pure (hdone _)
  have hchecked {done : Operand} (count : Nat) (hdone : ∀ store, done.Named store) :
      MarksAt σ blocks blocks s (do
        if args.length ≠ count then report pos (.builtinArity name (toString count))
        values c args
        return done) Operand.Named :=
    .ite (fun _ ↦ (marks_report _ rfl).bind fun _ s₁ _ _ ↦ hcall s₁ hdone) fun _ ↦ hcall s hdone
  have hint (store : Store) : (Operand.ofValue (.basic .int)).Named store := .ofValue (.basic _)
  have hnothing (store : Store) : (Operand.ofMode .noValue).Named store := .ofMode nofun
  cases arity with
  | none =>
    cases kind with
    | int => exact hcall s hint
    | nothing => exact hcall s hnothing
  | some count =>
    cases kind with
    | int => exact hchecked count hint
    | nothing => exact hchecked count hnothing

theorem marks_appendCall {slice : Expr} {added : List Expr}
    (hslice : Marks σ blocks (c.expr slice) Operand.Named)
    (hadded : ∀ e ∈ added, Marks σ blocks (c.expr e) Operand.Named) :
    MarksAt σ blocks blocks s (appendCall c slice added) Operand.Named := by
  refine (marks_value hslice s).bind fun operand s₁ _ hoperand ↦ ?_
  refine .look (sees_underlying _) fun _ ↦ ?_
  split
  · have heach {element : Ty} : Marks σ blocks
        (added.forM (valueFor c element (.argument "append"))) Anything :=
      .forM fun e he ↦ marks_valueFor _ _ (hadded e he)
    exact (heach s₁).bind fun _ _ h₂ _ ↦ .pure (.ofValue (hoperand.type.mono h₂).defaultType)
  · exact (marks_values hadded s₁).bind fun _ _ h₂ _ ↦
      .pure (.ofValue (hoperand.type.mono h₂).defaultType)

theorem marks_builtin (info : NodeInfo) (name : String) {args : List Expr}
    (hargs : ∀ e ∈ args, Marks σ blocks (c.expr e) Operand.Named)
    (htypes : ∀ e ∈ args, Marks σ blocks (c.typeExpr e) fun type store ↦ type.Named store) :
    MarksAt σ blocks blocks s (builtin c info name args) Operand.Named := by
  have htype {type : Expr} {sizes : List Expr} (heq : args = type :: sizes) {done : Ty → Ty}
      (hdone : ∀ type (store : Store), type.Named store → (done type).Named store) :
      MarksAt σ blocks blocks s (do
        let type ← c.typeExpr type
        values c sizes
        return Operand.ofValue (done type)) Operand.Named := by
    subst heq
    refine (htypes type List.mem_cons_self s).bind fun found s₁ _ hfound ↦ ?_
    exact (marks_values (fun e he ↦ hargs e (List.mem_cons_of_mem _ he)) s₁).bind fun _ _ h₂ _ ↦
      .pure (.ofValue (hdone found _ (hfound.mono h₂)))
  unfold builtin
  split
  · exact marks_builtinCall _ _ _ _ hargs
  · exact marks_builtinCall _ _ _ _ hargs
  · exact marks_builtinCall _ _ _ _ hargs
  · exact marks_builtinCall _ _ _ _ hargs
  · exact marks_appendCall (hargs _ List.mem_cons_self)
      fun e he ↦ hargs e (List.mem_cons_of_mem _ he)
  · exact htype rfl fun _ _ h ↦ h
  · exact htype rfl fun _ _ h ↦ .pointer h
  · exact marks_badExpr _ rfl
  · exact marks_badExpr _ rfl
  · exact marks_badExpr _ rfl
  · exact marks_builtinCall _ _ _ _ hargs

theorem marks_argCount (info : NodeInfo) (callee : String) (given wanted : Nat) :
    MarksAt σ blocks blocks s (argCount info callee given wanted) Anything :=
  .ite (fun _ ↦ marks_report _ rfl) fun _ ↦
    .ite (fun _ ↦ marks_report _ rfl) fun _ ↦ .pure trivial

theorem marks_spreadArg (info : NodeInfo) (callee : String) (params : List Ty) {arg : Expr}
    (h : Marks σ blocks (c.expr arg) Operand.Named) :
    MarksAt σ blocks blocks s (spreadArg c info callee params arg) Anything := by
  refine (h s).bind fun operand s₁ _ hoperand ↦ ?_
  split
  · exact .ite (fun _ ↦ marks_argCount _ _ _ _) fun _ ↦ marks_assignEach _ _ _ _ s₁
  · exact (marks_singleValue arg hoperand).bind fun _ _ _ _ ↦
      (marks_assignTo _ _ _ _).bind fun _ _ _ _ ↦ marks_argCount _ _ _ _

theorem marks_eachArg (usage : Usage) {params : List Ty} {args : List Expr}
    (h : ∀ e ∈ args, Marks σ blocks (c.expr e) Operand.Named) :
    Marks σ blocks (eachArg c usage params args) Anything := by
  induction params generalizing args with
  | nil =>
    cases args with
    | nil => exact fun s ↦ .pure trivial
    | cons arg rest => exact marks_values h
  | cons param params ih =>
    cases args with
    | nil => exact fun s ↦ .pure trivial
    | cons arg rest =>
      refine fun s ↦ (marks_valueFor _ _ (h arg List.mem_cons_self) s).bind fun _ later _ _ ↦ ?_
      exact ih (fun e he ↦ h e (List.mem_cons_of_mem _ he)) later

theorem marks_arguments (info : NodeInfo) (callee : String) (params : List Ty) {args : List Expr}
    (h : ∀ e ∈ args, Marks σ blocks (c.expr e) Operand.Named) :
    MarksAt σ blocks blocks s (arguments c info callee params args) Anything := by
  unfold arguments
  split
  · exact marks_spreadArg _ _ _ (h _ List.mem_cons_self)
  · exact (marks_eachArg _ h s).bind fun _ _ _ _ ↦ marks_argCount _ _ _ _

theorem Operand.Named.resultOperand {store : Store} {results : List Ty}
    (h : ∀ type ∈ results, type.Named store) : (resultOperand results).Named store := by
  unfold CheckRule.resultOperand
  split
  · exact .ofMode nofun
  · exact .ofValue (h _ List.mem_cons_self)
  · exact .ofValue (.tuple h)

theorem marks_valueCall (info : NodeInfo) (callee : Expr) {type : Ty} {args : List Expr}
    (htype : type.Named s.store) (hargs : ∀ e ∈ args, Marks σ blocks (c.expr e) Operand.Named) :
    MarksAt σ blocks blocks s (valueCall c info callee type args) Operand.Named := by
  refine .look sees_store fun hs ↦ ?_
  cases hfound : s.store.signature? type with
  | some signature =>
    cases hs.store.signature? htype hfound with
    | func _ hresults =>
      exact (marks_arguments _ _ _ hargs).bind fun _ _ hgrows _ ↦
        .pure (.resultOperand fun type h ↦ (hresults type h).mono hgrows)
  | none =>
    have hrest {s : CheckState} : MarksAt σ blocks blocks s (do
        c.exprs args
        return Operand.unknown) Operand.Named :=
      (marks_exprs hargs s).bind fun _ _ _ _ ↦ .pure .unknown
    exact .ite (fun _ ↦ hrest) fun _ ↦ (marks_report _ rfl).bind fun _ _ _ _ ↦ hrest

theorem marks_call (info : NodeInfo) {callee : Expr} {args : List Expr}
    (hcallee : Marks σ blocks (c.expr callee) Operand.Named)
    (hargs : ∀ e ∈ args, Marks σ blocks (c.expr e) Operand.Named)
    (htypes : ∀ e ∈ args, Marks σ blocks (c.typeExpr e) fun type store ↦ type.Named store) :
    MarksAt σ blocks blocks s (call c info callee args) Operand.Named := by
  refine (hcallee s).bind fun found s₁ _ hfound ↦ ?_
  split
  · exact marks_conversion _ hfound.type hargs
  · exact marks_builtin _ _ hargs htypes
  · exact marks_valueCall _ _ hfound.type hargs
  · exact (marks_singleValue callee hfound).bind fun _ s₂ _ _ ↦
      (marks_exprs hargs s₂).bind fun _ _ _ _ ↦ .pure .invalid

/-! ### Literals -/

theorem Operand.Named.literalOperand {store : Store} (literal : Literal) :
    (literalOperand literal).Named store := by
  unfold CheckRule.literalOperand
  split <;> exact .constant (.basic _) _

/-- Statements one after the other leave a block with all their names. -/
theorem marks_stmts (hc : TasksMark σ c) {stmts : List Stmt}
    (hplaced : ∀ entry ∈ Node.stmtsWithRoles names stmts, σ.placed entry.1 entry.2) :
    MarksAt σ (names :: blocks) (namesAfter names stmts :: blocks) s (c.stmts stmts) Anything := by
  induction stmts generalizing names s with
  | nil => exact .pure trivial
  | cons st rest ih =>
    obtain ⟨hfirst, hrest⟩ := List.forall_mem_cons.1 hplaced
    exact (hc.stmt names st hfirst blocks s).bind fun _ later _ _ ↦ ih hrest

theorem marks_funcLiteral (hσ : σ.Fair) (hc : TasksMark σ c) {info : NodeInfo} {type : FuncType}
    {body : Block} (hplaced : σ.placed .uses (.ofExpr (.funcLit info type body))) :
    MarksAt σ blocks blocks s (funcLiteral c type body) Operand.Named := by
  have htype : σ.placed .uses (.funcType type) := hσ.closed hplaced List.mem_cons_self
  have hbody : σ.placed (.inBlock type.nameTexts) (.block body) :=
    hσ.closed hplaced (List.mem_cons_of_mem _ List.mem_cons_self)
  refine (marks_signature fun field hfield ↦
    hc.typeExpr _ (hσ.fieldType (hσ.funcFields htype hfield)) blocks).bind
      fun signature s₁ _ hsignature ↦ ?_
  have hrun : MarksAt σ blocks blocks s₁ (inBlock do
      declareParams type signature
      inFunction signature.results (c.stmts body.stmts)) Anything := by
    refine .inBlock (namesAfter type.nameTexts body.stmts)
      (.bind (marks_declareParams hσ htype hsignature.2 ?_) fun _ s₂ _ _ ↦ ?_)
    · exact hsignature.1
    · rw [List.append_nil]
      exact .inFunction _ (marks_stmts hc fun entry hentry ↦ hσ.closed hbody hentry)
  exact hrun.bind fun _ _ h₂ _ ↦ .pure (.ofValue (hsignature.1.mono h₂))

theorem marks_typeAssertion (info : NodeInfo) {operand : Expr} {type : Option Expr}
    (hoperand : Marks σ blocks (c.expr operand) Operand.Named)
    (htype : ∀ e ∈ type, Marks σ blocks (c.typeExpr e) fun type store ↦ type.Named store) :
    MarksAt σ blocks blocks s (typeAssertion c info operand type) Operand.Named := by
  refine (marks_value hoperand s).bind fun found s₁ _ _ ↦ ?_
  cases type with
  | none => exact marks_badExpr _ rfl
  | some e =>
    refine (htype e rfl s₁).bind fun type s₂ _ htype ↦ .look sees_store fun _ ↦ ?_
    refine .ite (fun _ ↦ .pure (.ofValue htype)) fun _ ↦ ?_
    exact (marks_report _ rfl).bind fun _ _ h₃ _ ↦ .pure (.ofValue (htype.mono h₃))

/-! ### Indexing -/

theorem Store.Named.indexedShape {store : Store} (h : store.Named) {type : Ty}
    (htype : type.Named store) : (indexedShape store type).Named store := by
  have hshape := h.underlying htype
  unfold CheckRule.indexedShape
  split
  · rename_i element heq
    rw [heq] at hshape
    cases hshape with
    | pointer helement =>
      have hinner := h.underlying helement
      split
      · rename_i heq'
        exact heq' ▸ hinner
      · exact .pointer helement
  · exact hshape

theorem marks_index (info : NodeInfo) {indexed key : Expr}
    (hindexed : Marks σ blocks (c.expr indexed) Operand.Named)
    (hkey : Marks σ blocks (c.expr key) Operand.Named) :
    MarksAt σ blocks blocks s (index c info indexed key) Operand.Named := by
  refine (marks_value hindexed s).bind fun found s₁ _ hfound ↦ ?_
  refine (marks_value hkey s₁).bind fun operand s₂ h₂ _ ↦ .ite (fun _ ↦ .pure .unknown) fun _ ↦ ?_
  refine .look sees_store fun hs ↦ ?_
  have hshape := hs.store.indexedShape (hfound.type.mono h₂)
  split
  · rename_i heq
    rw [heq] at hshape
    cases hshape with
    | slice helement => exact .pure (.ofValue helement)
  · rename_i heq
    rw [heq] at hshape
    cases hshape with
    | array _ helement => exact .pure (.ofValue helement)
  · rename_i heq
    rw [heq] at hshape
    cases hshape with
    | map _ hvalue =>
      exact (marks_assignTo _ _ _ _).bind fun _ _ h₃ _ ↦ .pure (.ofValue (hvalue.mono h₃))
  · exact .ite (fun _ ↦ .pure (.ofValue (.basic _))) fun _ ↦ marks_badExpr _ rfl
  · exact marks_badExpr _ rfl

/-! ### Composite literals -/

theorem marks_namedElement (type : Ty) {fields : List Member} {key given : Expr}
    (hfields : ∀ field ∈ fields, s.store.Calls field.symbol field.name)
    (hkey : ∀ name, key = .ident name → σ.placed .uses (.ident name) ∧ σ.Spares name)
    (hgiven : Marks σ blocks (c.expr given) Operand.Named) :
    MarksAt σ blocks blocks s (namedElement c type fields key given) Anything := by
  unfold namedElement
  split
  · exact (marks_report _ rfl).bind fun _ s₁ _ _ ↦
      (marks_value hgiven s₁).bind fun _ _ _ _ ↦ .pure trivial
  · rename_i name hname
    refine (marks_value hgiven s).bind fun operand s₁ h₁ _ ↦ ?_
    cases hfound : fields.find? (·.name == name.name) with
    | none => exact marks_report _ rfl
    | some field =>
      obtain rfl : key = .ident name := by
        cases key <;> cases hname
        rfl
      have hcalls := (Store.Named.calls_of_find? hfields hfound).mono h₁
      obtain ⟨hplaced, hspared⟩ := hkey name rfl
      exact (marks_recordUse hplaced hcalls (.inl hspared)).bind fun _ _ _ _ ↦
        marks_assignTo _ _ _ _

/-- What an element of a literal needs of its parts. -/
structure ElementFair (σ : Setting) (blocks : List (List String)) (c : Checker) (element : Expr) :
    Prop where
  expr : Marks σ blocks (c.expr element) Operand.Named
  pair : ∀ info key given, element = .keyValue info key given →
    (∀ name, key = .ident name → σ.placed .uses (.ident name) ∧ σ.Spares name) ∧
    Marks σ blocks (c.expr key) Operand.Named ∧ Marks σ blocks (c.expr given) Operand.Named

theorem marks_structElement (type : Ty) {fields : List Member} (place : Nat) {element : Expr}
    (hfields : ∀ field ∈ fields, s.store.Calls field.symbol field.name)
    (h : ElementFair σ blocks c element) :
    MarksAt σ blocks blocks s (structElement c type fields place element) Anything := by
  unfold structElement
  split
  · rename_i info key given
    obtain ⟨hkey, -, hgiven⟩ := h.pair info key given rfl
    exact marks_namedElement type hfields hkey hgiven
  · refine (marks_value h.expr s).bind fun operand s₁ _ _ ↦ ?_
    split
    · exact marks_assignTo _ _ _ _
    · exact marks_report _ rfl

theorem marks_listElement (type : Ty) {element : Expr} (h : ElementFair σ blocks c element) :
    Marks σ blocks (listElement c type element) Anything := by
  intro s
  unfold listElement
  split
  · rename_i info place given
    obtain ⟨-, hplace, hgiven⟩ := h.pair info place given rfl
    exact (marks_value hplace s).bind fun _ s₁ _ _ ↦ marks_valueFor _ _ hgiven s₁
  · exact marks_valueFor _ _ h.expr s

theorem marks_mapElement (keyType valueType : Ty) {element : Expr}
    (h : ElementFair σ blocks c element) :
    Marks σ blocks (mapElement c keyType valueType element) Anything := by
  intro s
  unfold mapElement
  split
  · rename_i info key given
    obtain ⟨-, hkey, hgiven⟩ := h.pair info key given rfl
    exact (marks_valueFor _ _ hkey s).bind fun _ s₁ _ _ ↦ marks_valueFor _ _ hgiven s₁
  · exact (marks_report _ rfl).bind fun _ s₁ _ _ ↦
      (marks_value h.expr s₁).bind fun _ _ _ _ ↦ .pure trivial

theorem marks_looseElement {element : Expr} (h : ElementFair σ blocks c element) :
    Marks σ blocks (looseElement c element) Anything := by
  unfold looseElement
  split
  · rename_i info key given
    exact marks_exprs (List.forall_mem_singleton.2 (h.pair info key given rfl).2.2)
  · exact marks_exprs (List.forall_mem_singleton.2 h.expr)

theorem marks_elements (typePos : Nat) (type : Ty) {shape : Ty} {given : List Expr}
    (hshape : shape.Named s.store) (h : ∀ e ∈ given, ElementFair σ blocks c e) :
    MarksAt σ blocks blocks s (elements c typePos type shape given) Anything := by
  unfold elements
  split
  · rename_i fields
    cases hshape with
    | struct hcalls _ =>
      refine Marks.forMOf (fun _ store ↦ ∀ field ∈ fields, store.Calls field.symbol field.name)
        (fun _ _ _ hgrows hfields field hfield ↦ (hfields field hfield).mono hgrows)
        (fun element helement s hfields ↦ ?_) fun _ _ ↦ hcalls
      exact marks_structElement _ _ hfields (h _ (List.fst_mem_of_mem_zipIdx helement))
  · exact Marks.forM (fun e he ↦ marks_listElement _ (h e he)) s
  · exact Marks.forM (fun e he ↦ marks_listElement _ (h e he)) s
  · exact Marks.forM (fun e he ↦ marks_mapElement _ _ (h e he)) s
  · exact Marks.forM (fun e he ↦ marks_looseElement (h e he)) s
  · exact marks_report _ rfl

theorem marks_composite {type : Expr} {given : List Expr}
    (hresolve : ∀ id, Marks σ blocks (c.resolve id) Anything)
    (htype : Marks σ blocks (c.typeExpr type) fun type store ↦ type.Named store)
    (h : ∀ e ∈ given, ElementFair σ blocks c e) :
    MarksAt σ blocks blocks s (composite c type given) Operand.Named := by
  refine (htype s).bind fun literalType s₁ _ hliteral ↦ ?_
  refine (marks_underlying hresolve hliteral).bind fun shape s₂ h₂ hshape ↦ ?_
  exact (marks_elements _ _ hshape h).bind fun _ _ h₃ _ ↦
    .pure (.ofValue (hliteral.mono (h₂.trans h₃)))

/-! ### All expressions -/

theorem marks_operandOf (hσ : σ.Fair) (hc : TasksMark σ c) {e : Expr}
    (hplaced : σ.placed .uses (.ofExpr e)) :
    MarksAt σ blocks blocks s (operandOf c e) Operand.Named := by
  have hresolve := fun id ↦ hc.resolve id blocks
  have hexpr {e : Expr} (h : σ.placed .uses (.ofExpr e)) := hc.expr e h blocks
  have htype {e : Expr} (h : σ.placed .uses (.ofExpr e)) := hc.typeExpr e h blocks
  have hchild {child : Node} (hmem : child ∈ Node.exprChildren e)
      (hfunc : e.isFuncLit = false) : σ.placed .uses child :=
    hσ.exprChild hplaced hmem hfunc
  cases e with
  | ident ident => exact marks_name hresolve hplaced
  | literal literal => exact .pure (.literalOperand literal)
  | selector info operand selected =>
    exact marks_selector hresolve (hexpr (hchild (by simp [Node.exprChildren]) rfl))
      (hchild (by simp [Node.exprChildren]) rfl) (σ.spares_selected hplaced)
  | call info callee args =>
    have hargs (e : Expr) (he : e ∈ args) : σ.placed .uses (.ofExpr e) :=
      hchild (List.mem_cons_of_mem _ (List.mem_map_of_mem he)) rfl
    exact marks_call info (hexpr (hchild List.mem_cons_self rfl)) (fun e he ↦ hexpr (hargs e he))
      fun e he ↦ htype (hargs e he)
  | star info pointer => exact marks_indirection info (hexpr (hchild List.mem_cons_self rfl))
  | unary info op operand => exact marks_unary info op (hexpr (hchild List.mem_cons_self rfl))
  | binary info op left right =>
    exact marks_binary info op (hexpr (hchild List.mem_cons_self rfl))
      (hexpr (hchild (by simp [Node.exprChildren]) rfl))
  | paren info inner => exact hexpr (hchild List.mem_cons_self rfl) s
  | typeAssert info operand type =>
    refine marks_typeAssertion info (hexpr (hchild List.mem_cons_self rfl)) fun e he ↦ htype ?_
    exact hchild (by simp [Node.exprChildren, Option.mem_def.1 he]) rfl
  | index info indexed key =>
    exact marks_index info (hexpr (hchild List.mem_cons_self rfl))
      (hexpr (hchild (by simp [Node.exprChildren]) rfl))
  | composite info type given =>
    refine marks_composite hresolve (htype (hchild List.mem_cons_self rfl)) fun e he ↦ ?_
    have helement : σ.placed .uses (.ofExpr e) :=
      hchild (List.mem_cons_of_mem _ (List.mem_map_of_mem he)) rfl
    refine ⟨hexpr helement, ?_⟩
    rintro info key given rfl
    have hkey : σ.placed .uses (.ofExpr key) := hσ.exprChild helement List.mem_cons_self rfl
    have hgiven : σ.placed .uses (.ofExpr given) :=
      hσ.exprChild helement (List.mem_cons_of_mem _ List.mem_cons_self) rfl
    refine ⟨?_, hexpr hkey, hexpr hgiven⟩
    rintro name rfl
    exact ⟨hkey, .uses, _, helement, .key⟩
  | keyValue info key value => exact marks_badExpr _ rfl
  | funcLit info type body => exact marks_funcLiteral hσ hc hplaced
  | arrayType | mapType | structType | interfaceType | funcType =>
    exact (htype hplaced s).bind fun _ _ _ h ↦ .pure (.ofType h)

theorem marks_expr (hσ : σ.Fair) (hc : TasksMark σ c) {e : Expr}
    (hplaced : σ.placed .uses (.ofExpr e)) :
    MarksAt σ blocks blocks s (CheckRule.expr c e) Operand.Named := by
  refine (marks_operandOf hσ hc hplaced).bind fun operand s₁ _ hoperand ↦ ?_
  have hrecorded : MarksAt σ blocks blocks s₁ (do
      recordType e.id operand.type
      return operand) Operand.Named :=
    (marks_recordType _ _).bind fun _ _ h₂ _ ↦ .pure (hoperand.mono h₂)
  split
  · exact hrecorded
  · exact hrecorded
  · exact .pure hoperand

end

section

variable {σ : Setting} {blocks : List (List String)} {s : CheckState} {c : Checker}

/-! ### Values for several targets -/

/-- As many types as there are targets, all in order. -/
structure TypesFor (count : Nat) (types : List Ty) (store : Store) : Prop where
  length : types.length = count
  named : ∀ type ∈ types, type.Named store

theorem TypesFor.replicate (count : Nat) {store : Store} :
    TypesFor count (List.replicate count Ty.invalid) store :=
  ⟨List.length_replicate, fun _ h ↦ List.eq_of_mem_replicate h ▸ .invalid⟩

theorem marks_spreadTypes {e : Expr} (count pos : Nat)
    (h : Marks σ blocks (c.expr e) Operand.Named) :
    MarksAt σ blocks blocks s (spreadTypes c e count pos) (TypesFor count) := by
  refine (h s).bind fun operand s₁ _ hoperand ↦ .look sees_get fun _ ↦
    .ite (fun hok ↦ ?_) fun _ ↦ ?_
  · have hcount : count = 2 := by simpa using (Bool.and_eq_true_iff.1 hok).1
    refine .pure ⟨hcount.symm, List.forall_mem_cons.2 ⟨hoperand.type, ?_⟩⟩
    exact List.forall_mem_singleton.2 (.basic _)
  · have hfailed : MarksAt σ blocks blocks s₁ (do
        report pos (.singleMismatch count (producedCount operand.type))
        return List.replicate count Ty.invalid) (TypesFor count) :=
      (marks_report _ rfl).bind fun _ _ _ _ ↦ .pure (.replicate count)
    have htype := hoperand.type
    split
    · rename_i types heq
      rw [heq] at htype
      cases htype with
      | tuple htypes => exact .ite (fun hlength ↦ .pure ⟨hlength, htypes⟩) fun _ ↦ hfailed
    · exact .pure (.replicate count)
    · exact hfailed

theorem marks_valueTypes {exprs : List Expr} (count pos : Nat)
    (h : ∀ e ∈ exprs, Marks σ blocks (c.expr e) Operand.Named) :
    MarksAt σ blocks blocks s (valueTypes c exprs count pos) (TypesFor count) := by
  refine .ite (fun hcount ↦ ?_) fun _ ↦ ?_
  · refine (Marks.mapM (fun _ type store ↦ type.Named store)
      (fun _ _ _ _ hgrows htype ↦ htype.mono hgrows) (fun e he s ↦ ?_) s).weaken
        fun types _ _ _ htypes ↦ ⟨htypes.length_eq.symm.trans hcount, fun type hmem ↦ ?_⟩
    · exact (marks_value (h e he) s).bind fun _ _ _ hoperand ↦ .pure hoperand.type
    · obtain ⟨_, -, htype⟩ := exists_of_forall₂ htypes hmem
      exact htype
  · split
    · exact marks_spreadTypes count pos (h _ List.mem_cons_self)
    · exact (marks_exprs h s).bind fun _ _ _ _ ↦ (marks_report _ rfl).bind fun _ _ _ _ ↦
        .pure (.replicate count)

/-! ### Initializers -/

theorem marks_initConstant {declared : Option Ty} {id : SymbolId} {e : Expr}
    (hdeclared : ∀ type ∈ declared, type.Named s.store) (hid : s.store.NoFunc id)
    (h : Marks σ blocks (c.expr e) Operand.Named) :
    MarksAt σ blocks blocks s (initConstant c declared id e) Anything := by
  refine (h s).bind fun operand s₁ h₁ hoperand ↦ ?_
  have htype : (declared.getD operand.type).Named s₁.store := by
    cases declared with
    | none => exact hoperand.type
    | some type => exact (hdeclared type rfl).mono h₁
  have hsettled {s₂ : CheckState} (h₂ : s₁.store.Grows s₂.store) : MarksAt σ blocks blocks s₂ (do
      modifyStore (·.setValue id operand.value)
      setType id (declared.getD operand.type)) Anything :=
    (marks_setValue _ _).bind fun _ _ h₃ _ ↦
      marks_setType (hid.mono ((h₁.trans h₂).trans h₃)) (htype.mono (h₂.trans h₃))
  refine .look (sees_assignable _ _) fun _ ↦ .ite (fun _ ↦ hsettled (.refl _)) fun _ ↦ ?_
  exact (marks_report _ rfl).bind fun _ _ h₂ _ ↦ hsettled h₂

/-- Constants without an expression. -/
theorem marks_missingInits {ids : List SymbolId} (hids : ∀ id ∈ ids, s.store.NoFunc id) :
    MarksAt σ blocks blocks s (ids.forM fun id ↦ do
      report (← symbol id).pos .missingInit
      setType id .invalid) Anything := by
  refine Marks.forMOf (fun id store ↦ store.NoFunc id) (fun _ _ _ hgrows hid ↦ hid.mono hgrows)
    (fun id _ s hid ↦ .look (sees_symbol id) fun _ ↦ ?_) hids
  exact (marks_report _ rfl).bind fun _ _ hgrows _ ↦ marks_setType (hid.mono hgrows) .invalid

theorem marks_initConstants {declared : Option Ty} {ids : List SymbolId} {exprs : List Expr}
    (hdeclared : ∀ type ∈ declared, type.Named s.store) (hids : ∀ id ∈ ids, s.store.NoFunc id)
    (h : ∀ e ∈ exprs, Marks σ blocks (c.expr e) Operand.Named) :
    MarksAt σ blocks blocks s (initConstants c declared ids exprs) Anything := by
  induction ids generalizing s exprs with
  | nil => cases exprs <;> exact marks_missingInits hids
  | cons id rest ih =>
    cases exprs with
    | nil => exact marks_missingInits hids
    | cons e exprs =>
      obtain ⟨hid, hrest⟩ := List.forall_mem_cons.1 hids
      obtain ⟨he, hexprs⟩ := List.forall_mem_cons.1 h
      refine (marks_initConstant hdeclared hid he).bind fun _ later hgrows _ ↦ ih ?_ ?_ hexprs
      · exact fun type htype ↦ (hdeclared type htype).mono hgrows
      · exact fun other hother ↦ (hrest other hother).mono hgrows

theorem marks_initVariable {declared : Option Ty} {id : SymbolId} {type : Ty}
    (hdeclared : ∀ type ∈ declared, type.Named s.store) (hid : s.store.NoFunc id)
    (htype : type.Named s.store) :
    MarksAt σ blocks blocks s (initVariable declared id type) Anything := by
  cases declared with
  | none => exact marks_setType hid htype.defaultType
  | some target =>
    have htarget := hdeclared target rfl
    refine .look (sees_assignable _ _) fun _ ↦
      .ite (fun _ ↦ marks_setType hid htarget) fun _ ↦ .look (sees_symbol id) fun _ ↦ ?_
    exact (marks_report _ rfl).bind fun _ _ hgrows _ ↦
      marks_setType (hid.mono hgrows) (htarget.mono hgrows)

theorem marks_initSymbols {ids : List SymbolId} {type : Option Expr} {exprs : List Expr}
    (isConst : Bool) (hids : ∀ id ∈ ids, s.store.NoFunc id)
    (htype : ∀ e ∈ type, Marks σ blocks (c.typeExpr e) fun type store ↦ type.Named store)
    (h : ∀ e ∈ exprs, Marks σ blocks (c.expr e) Operand.Named) :
    MarksAt σ blocks blocks s (initSymbols c ids type exprs isConst) Anything := by
  refine (Marks.mapOption _ htype s).bind fun declared s₁ h₁ hdeclared ↦ .look sees_store fun _ ↦ ?_
  have hids₁ : ∀ id ∈ ids, s₁.store.NoFunc id := fun id hid ↦ (hids id hid).mono h₁
  refine .ite (fun _ ↦ ?_) fun _ ↦ .ite (fun _ ↦ ?_) fun _ ↦ ?_
  · exact (marks_initConstants hdeclared hids₁ h).bind fun _ _ _ _ ↦
      .ite (fun _ ↦ marks_report _ rfl) fun _ ↦ .pure trivial
  · have hall : (declared.getD .invalid).Named s₁.store := by
      cases declared with
      | none => exact .invalid
      | some type => exact hdeclared type rfl
    exact Marks.forMOf (fun id store ↦ store.NoFunc id ∧ (declared.getD .invalid).Named store)
      (fun _ _ _ hgrows hkept ↦ ⟨hkept.1.mono hgrows, hkept.2.mono hgrows⟩)
      (fun _ _ _ hkept ↦ marks_setType hkept.1 hkept.2) fun id hid ↦ ⟨hids₁ id hid, hall⟩
  · refine (marks_valueTypes _ _ h).bind fun types s₂ h₂ htypes ↦ ?_
    refine Marks.forMOf (fun (entry : SymbolId × Ty) store ↦ store.NoFunc entry.1 ∧
        entry.2.Named store ∧ ∀ type ∈ declared, type.Named store)
      (fun _ _ _ hgrows hkept ↦ ⟨hkept.1.mono hgrows, hkept.2.1.mono hgrows,
        fun type htype ↦ (hkept.2.2 type htype).mono hgrows⟩)
      (fun _ _ _ hkept ↦ marks_initVariable hkept.2.2 hkept.1 hkept.2.1) fun entry hentry ↦ ?_
    have hmem := List.of_mem_zip hentry
    exact ⟨(hids₁ _ hmem.1).mono h₂, htypes.named _ hmem.2,
      fun type htype ↦ (hdeclared type htype).mono h₂⟩

end

end PackageAtlas
