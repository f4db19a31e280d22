import PackageAtlas.Proofs.Naming.ExprRules
import PackageAtlas.Check.StmtRules

/-!
Statements. Each leaves the block around with the names that it declares. A target of a short
declaration is a use if the block has its name before the statement, and declares it otherwise, as
its role says.
-/

set_option autoImplicit false
set_option relaxedAutoImplicit false

namespace PackageAtlas

open Check CheckRule

section

variable {α : Type} {σ : Setting} {names : List String} {blocks : List (List String)}
  {s : CheckState} {c : Checker} {result : α → Store → Prop}

/-! ### Blocks and conditions -/

theorem marks_block (hc : TasksMark σ c) {stmts : List Stmt}
    (hplaced : ∀ entry ∈ Node.stmtsWithRoles [] stmts, σ.placed entry.1 entry.2) :
    MarksAt σ blocks blocks s (block c stmts) Anything :=
  .inBlock _ (marks_stmts hc hplaced)

theorem marks_optionalStmt (hc : TasksMark σ c) {stmt : Option Stmt}
    (hplaced : ∀ entry ∈ Node.stmtsWithRoles names stmt.toList, σ.placed entry.1 entry.2) :
    MarksAt σ (names :: blocks) (namesAfter names stmt.toList :: blocks) s (optionalStmt c stmt)
      Anything := by
  cases stmt with
  | none => exact .pure trivial
  | some st => exact hc.stmt names st (hplaced _ List.mem_cons_self) blocks s

theorem marks_condition (keyword : String) {test : Expr}
    (h : Marks σ blocks (c.expr test) Operand.Named) :
    Marks σ blocks (condition c keyword test) Anything := by
  refine fun s ↦ (marks_value h s).bind fun operand s₁ _ _ ↦ .look sees_store fun _ ↦ ?_
  exact .ite (fun _ ↦ .pure trivial) fun _ ↦ marks_report _ rfl

/-! ### Local declarations -/

theorem marks_addLocal {ident : Ident} {id : SymbolId} (h : σ.DeclaresLocal s.store ident id) :
    MarksAt σ blocks blocks s (addLocal id) Anything := by
  refine .modify (.ofStore (.refl _) rfl) fun hs ↦ { hs with locals := fun other hother ↦ ?_ }
  rcases List.mem_append.1 hother with hold | hnew
  · exact hs.locals other hold
  · rw [List.mem_singleton.1 hnew]
    exact ⟨ident, h⟩

theorem MarksAt.withIota {step : Check α} (iota : Option Int)
    (h : MarksAt σ blocks blocks { s with context.iota := iota } step result) :
    MarksAt σ blocks blocks s (withIota iota step) result := by
  intro hs a later hrun
  have hbetween : Check.between (fun s ↦ { s with context.iota := iota })
      (fun later ↦ { later with context.iota := s.context.iota }) step σ.input s =
        some (a, later) := hrun
  obtain ⟨middle, hstep, rfl⟩ := exists_of_run_between hbetween
  have hinside : CheckState.Sound σ blocks { s with context.iota := iota } :=
    hs.ofContext hs.scopes
  obtain ⟨hmiddle, hgrows, hresult⟩ := h hinside a middle hstep
  exact ⟨hmiddle.ofContext hmiddle.scopes, ⟨hgrows.store, hgrows.pending⟩, hresult⟩

/-- Symbols of a kind that names declare. -/
def MadeFrom (space : SpaceId) (kind : SymbolKind) (idents : List Ident) (ids : List SymbolId)
    (store : Store) : Prop :=
  List.Forall₂ (store.DeclaredAs space kind) idents ids

namespace MadeFrom

variable {space : SpaceId} {kind : SymbolKind} {idents : List Ident} {ids : List SymbolId}
  {store later : Store}

theorem noFunc (h : MadeFrom space kind idents ids store) (hkind : kind ≠ .func) :
    ∀ id ∈ ids, store.NoFunc id := by
  intro id hid
  obtain ⟨_, -, hmade⟩ := exists_of_forall₂ h hid
  exact hmade.noFunc hkind

theorem mono (h : MadeFrom space kind idents ids store) (hgrows : store.Grows later) :
    MadeFrom space kind idents ids later :=
  h.imp fun _ _ hmade ↦ hmade.mono hgrows

theorem declaredAs (h : MadeFrom space kind idents ids store) {entry : Ident × SymbolId}
    (hentry : entry ∈ idents.zip ids) : store.DeclaredAs space kind entry.1 entry.2 :=
  (List.forall₂_iff_zip.1 h).2 hentry

end MadeFrom

/-- A new symbol of a kind that an identifier declares. -/
theorem marks_addAs {symbol : Symbol} {ident : Ident} {role : Role} (hnamed : symbol.Named s.store)
    (hfrom : symbol.From σ.input ident) (hplaced : σ.placed role (.ident ident)) :
    MarksAt σ blocks blocks s (addSymbol symbol) fun id store ↦
      store.DeclaredAs σ.input.space symbol.kind ident id :=
  (marks_addDeclared hnamed hfrom hplaced).weaken fun _ _ _ _ hid ↦ ⟨hid.2.1, by rw [hid.2.2]⟩

theorem marks_newLocals (kind : SymbolKind) {idents : List Ident}
    (hplaced : ∀ ident ∈ idents, σ.placed .declares (.ident ident)) :
    MarksAt σ blocks blocks s (idents.mapM fun ident ↦ do
      addSymbol { (← declared kind ident) with isLocal := true })
        (MadeFrom σ.input.space kind idents) := by
  refine Marks.mapM (fun ident id store ↦ store.DeclaredAs σ.input.space kind ident id)
    (fun _ _ _ _ hgrows h ↦ h.mono hgrows) (fun ident hident s ↦ ?_) s
  refine .look (sees_declared kind ident) fun _ ↦ ?_
  exact marks_addAs (.ofType (fun _ h ↦ by cases h) rfl rfl rfl) ⟨rfl, rfl⟩ (hplaced ident hident)

/-- Names that are declared with their symbols, one after the other. -/
theorem marks_declareMade {step : Ident × SymbolId → Check Unit} {kind : SymbolKind}
    {idents : List Ident} {ids : List SymbolId}
    (hmade : MadeFrom σ.input.space kind idents ids s.store)
    (h : ∀ entry ∈ idents.zip ids, ∀ names (s : CheckState),
      s.store.DeclaredAs σ.input.space kind entry.1 entry.2 →
        MarksAt σ (names :: blocks) ((entry.1.name :: names) :: blocks) s (step entry) Anything) :
    MarksAt σ (names :: blocks) ((idents.map (·.name) ++ names) :: blocks) s
      ((idents.zip ids).forM step) Anything := by
  rw [← Ident.map_textOf_zip (Nat.le_of_eq hmade.length_eq)]
  exact marks_declareEach Ident.textOf
    (fun entry store ↦ store.DeclaredAs σ.input.space kind entry.1 entry.2)
    (fun _ _ _ hgrows hid ↦ hid.mono hgrows) h fun entry hentry ↦ hmade.declaredAs hentry

/-- The type and the values of initializers are part of the files. -/
structure InitPlaced (σ : Setting) (init : Initializers) : Prop where
  type : ∀ e ∈ init.1, σ.placed .uses (.ofExpr e)
  values : ∀ e ∈ init.2, σ.placed .uses (.ofExpr e)

namespace Setting.Fair

theorem specNames (h : σ.Fair) {role : Role} {spec : ValueSpec}
    (hplaced : σ.placed role (.valueSpec spec)) :
    ∀ name ∈ spec.names, σ.placed .declares (.ident name) :=
  fun _ hname ↦ h.closed hplaced
    (List.mem_append_left _ (List.mem_append_left _ (List.mem_map_of_mem hname)))

theorem specInit (h : σ.Fair) {role : Role} {spec : ValueSpec}
    (hplaced : σ.placed role (.valueSpec spec)) : InitPlaced σ (spec.type, spec.values) where
  type _ he := h.closed hplaced (List.mem_append_left _ (List.mem_append_right _
    (List.mem_map_of_mem (Option.mem_toList.2 he))))
  values _ he := h.closed hplaced (List.mem_append_right _ (List.mem_map_of_mem he))

end Setting.Fair

theorem InitPlaced.constInitializers {inherited : Option Initializers} {spec : ValueSpec}
    (hinherited : ∀ init ∈ inherited, InitPlaced σ init)
    (h : InitPlaced σ (spec.type, spec.values)) :
    InitPlaced σ (constInitializers inherited spec) := by
  unfold CheckRule.constInitializers
  split
  · cases inherited with
    | none => exact ⟨fun _ h ↦ (by cases h), fun _ h ↦ (by cases h)⟩
    | some init => exact hinherited init rfl
  · exact h

theorem marks_initPlaced (hc : TasksMark σ c) {ids : List SymbolId} {init : Initializers}
    (isConst : Bool) (hids : ∀ id ∈ ids, s.store.NoFunc id) (h : InitPlaced σ init) :
    MarksAt σ blocks blocks s (initSymbols c ids init.1 init.2 isConst) Anything :=
  marks_initSymbols isConst hids (fun e he ↦ hc.typeExpr e (h.type e he) blocks)
    fun e he ↦ hc.expr e (h.values e he) blocks

theorem marks_localConstants (hσ : σ.Fair) (hc : TasksMark σ c) (iota : Nat) {role : Role}
    {spec : ValueSpec} {init : Initializers} (hplaced : σ.placed role (.valueSpec spec))
    (hinit : InitPlaced σ init) :
    MarksAt σ (names :: blocks) ((spec.names.map (·.name) ++ names) :: blocks) s
      (localConstants c iota spec init) Anything := by
  have hnames := hσ.specNames hplaced
  refine (marks_newLocals .const hnames).bind fun ids s₁ _ hids ↦ ?_
  have hnone := hids.noFunc nofun
  refine .bind (.withIota _ (marks_initPlaced hc true hnone hinit)) fun _ s₂ h₂ _ ↦ ?_
  exact marks_declareMade (hids.mono h₂) fun entry hentry _ _ hid ↦
    marks_declareLocal (hnames _ (List.of_mem_zip hentry).1) hid.toDeclaredBy

theorem marks_localVariables (hσ : σ.Fair) (hc : TasksMark σ c) {role : Role} {spec : ValueSpec}
    (hplaced : σ.placed role (.valueSpec spec)) :
    MarksAt σ (names :: blocks) ((spec.names.map (·.name) ++ names) :: blocks) s
      (localVariables c spec) Anything := by
  have hnames := hσ.specNames hplaced
  refine (marks_newLocals .var hnames).bind fun ids s₁ _ hids ↦ ?_
  have hnone := hids.noFunc nofun
  refine (marks_initPlaced hc false hnone (hσ.specInit hplaced)).bind fun _ s₂ h₂ _ ↦ ?_
  refine marks_declareMade (hids.mono h₂) fun entry hentry _ _ hid ↦ ?_
  have hname := hnames _ (List.of_mem_zip hentry).1
  exact (marks_declareLocal hname hid.toDeclaredBy).bind fun _ _ hgrows _ ↦
    .ite (fun _ ↦ .pure trivial) fun hblank ↦
      marks_addLocal ⟨hname, Bool.eq_false_of_not_eq_true hblank, hid.mono hgrows⟩

theorem marks_localType (hσ : σ.Fair) (hc : TasksMark σ c) {role : Role} {spec : TypeSpec}
    (hplaced : σ.placed role (.typeSpec spec)) :
    MarksAt σ (names :: blocks) ((spec.name.name :: names) :: blocks) s (localType c spec)
      Anything := by
  have hname : σ.placed .declares (.ident spec.name) := hσ.closed hplaced List.mem_cons_self
  have htype : σ.placed .uses (.ofExpr spec.type) :=
    hσ.closed hplaced (List.mem_cons_of_mem _ List.mem_cons_self)
  refine .look (sees_declared .typeName spec.name) fun _ ↦ ?_
  refine (marks_addAs (.ofType (fun _ h ↦ by cases h) rfl rfl rfl) ⟨rfl, rfl⟩ hname).bind
    fun id s₁ _ hid ↦ ?_
  refine (marks_declareLocal hname hid.toDeclaredBy).bind fun _ s₂ h₂ _ ↦ ?_
  refine (hc.typeExpr _ htype _ s₂).bind fun type s₃ h₃ htype ↦ .ite (fun _ ↦ ?_) fun _ ↦ ?_
  · exact marks_setType ((hid.mono (h₂.trans h₃)).noFunc nofun) htype
  · exact (marks_underlying (fun id ↦ hc.resolve id _) htype).bind fun _ _ _ hshape ↦
      marks_setUnderlying _ hshape

theorem marks_localSpecs (hσ : σ.Fair) (hc : TasksMark σ c) (isConst : Bool) (iota : Nat)
    {inherited : Option Initializers} {specs : List Spec}
    (hplaced : ∀ spec ∈ specs, σ.placed .uses (.ofSpec spec))
    (hinherited : ∀ init ∈ inherited, InitPlaced σ init) :
    MarksAt σ (names :: blocks) ((specs.flatMap Spec.nameTexts ++ names) :: blocks) s
      (localSpecs c isConst iota inherited specs) Anything := by
  induction specs generalizing names s iota inherited with
  | nil => exact .pure trivial
  | cons spec rest ih =>
    obtain ⟨hspec, hrest⟩ := List.forall_mem_cons.1 hplaced
    have hnext {init : Option Initializers} (hinit : ∀ i ∈ init, InitPlaced σ i)
        (s : CheckState) :
        MarksAt σ ((spec.nameTexts ++ names) :: blocks)
          (((spec :: rest).flatMap Spec.nameTexts ++ names) :: blocks) s
          (localSpecs c isConst (iota + 1) init rest) Anything :=
      (ih (iota + 1) hrest hinit).congr fun name _ ↦ by
        rw [List.flatMap_cons, List.mem_append, List.mem_append, List.mem_append, List.mem_append]
        tauto
    cases spec with
    | imports spec => exact hnext hinherited s
    | type spec =>
      exact (marks_localType hσ hc hspec).bind fun _ later _ _ ↦ hnext hinherited later
    | value spec =>
      refine .ite (fun _ ↦ ?_) fun _ ↦ ?_
      · have hinit := (hσ.specInit hspec).constInitializers hinherited
        exact (marks_localConstants hσ hc iota hspec hinit).bind fun _ later _ _ ↦
          hnext (fun init h ↦ by cases h; exact hinit) later
      · exact (marks_localVariables hσ hc hspec).bind fun _ later _ _ ↦ hnext hinherited later

/-! ### Assignments -/

/-- Names and variables that a short declaration makes. -/
def ShortMade (σ : Setting) (made : List (Ident × SymbolId)) (store : Store) : Prop :=
  ∀ entry ∈ made, σ.DeclaresLocal store entry.1 entry.2

theorem ShortMade.mono {made : List (Ident × SymbolId)} {store later : Store}
    (h : ShortMade σ made store) (hgrows : store.Grows later) : ShortMade σ made later :=
  fun entry hentry ↦ (h entry hentry).mono hgrows

/-- The names that a block and a short declaration have after one more target. -/
def GainsTarget (names : List String) (target : Expr) (made made' : List (Ident × SymbolId)) :
    Prop :=
  ∀ name, name ≠ "_" → (name ∈ made'.map Ident.textOf ++ names ↔
    name ∈ targetTexts [target] ++ (made.map Ident.textOf ++ names))

theorem Expr.eq_of_ident? {e : Expr} {ident : Ident} (h : e.ident? = some ident) :
    e = .ident ident := by
  cases e <;> cases h
  rfl

/-- A target that is blank or known already brings in nothing. -/
theorem GainsTarget.kept {target : Expr} {made : List (Ident × SymbolId)}
    (h : ∀ ident, target.ident? = some ident →
      ident.name = "_" ∨ ident.name ∈ made.map Ident.textOf ++ names) :
    GainsTarget names target made made := by
  refine fun name hname ↦ ⟨List.mem_append_right _, fun hmem ↦ ?_⟩
  rcases List.mem_append.1 hmem with hmem | hmem
  · obtain ⟨ident, htarget, rfl⟩ : ∃ ident, target.ident? = some ident ∧ ident.name = name := by
      simpa [targetTexts] using hmem
    exact (h ident htarget).resolve_left hname
  · exact hmem

theorem GainsTarget.added {ident : Ident} {made : List (Ident × SymbolId)} (id : SymbolId) :
    GainsTarget names (.ident ident) made (made ++ [(ident, id)]) := by
  refine fun name _ ↦ ?_
  simp only [targetTexts, Expr.ident?, Ident.textOf, List.map_append, List.map_cons, List.map_nil,
    List.flatMap_cons, List.flatMap_nil, Option.toList_some, List.mem_append, List.mem_singleton,
    List.append_nil]
  tauto

theorem marks_shortTarget {made : List (Ident × SymbolId)} {target : Expr} {type : Ty}
    (hplaced : σ.placed (targetRole names target) (.ofExpr target))
    (hspared : ∀ ident, target.unparen.ident? = some ident → σ.Spares ident)
    (htype : type.Named s.store) (hmade : ShortMade σ made s.store) :
    MarksAt σ (names :: blocks) (names :: blocks) s (shortTarget made target type)
      fun made' store ↦ ShortMade σ made' store ∧ GainsTarget names target made made' := by
  cases htarget : target.ident? with
  | none =>
    unfold shortTarget
    rw [htarget]
    exact (marks_report _ rfl).bind fun _ _ hgrows _ ↦
      .pure ⟨hmade.mono hgrows, .kept fun _ h ↦ by rw [htarget] at h; cases h⟩
  | some ident =>
    obtain rfl := Expr.eq_of_ident? htarget
    have hkept {later : Store} (hgrows : s.store.Grows later)
        (h : ident.name = "_" ∨ ident.name ∈ made.map Ident.textOf ++ names) :
        ShortMade σ made later ∧ GainsTarget names (.ident ident) made made :=
      ⟨hmade.mono hgrows, .kept fun _ heq ↦ by cases heq; exact h⟩
    refine .ite (fun hblank ↦ .pure (hkept (.refl _) (.inl (beq_iff_eq.1 hblank)))) fun hblank ↦ ?_
    have hname : ident.name ≠ "_" := fun h ↦ hblank (beq_iff_eq.2 h)
    refine .look (sees_lookupInnermost? _) fun hs ↦ ?_
    have hknown := hs.mem_of_innermost? hname
    cases hfound : s.context.scopes.head?.bind (·.find? ident.name) with
    | some existing =>
      -- a name that the block has is used
      have hmem : ident.name ∈ names := hknown.1 (by rw [hfound]; rfl)
      have huses : σ.placed .uses (.ident ident) := by
        rwa [targetRole_ident, if_pos hmem] at hplaced
      have hcalls := hs.innermost? hfound
      refine (marks_recordUse huses hcalls (.inl (hspared ident rfl))).bind fun _ s₁ h₁ _ ↦ ?_
      refine .look (sees_typeOf _) fun _ ↦ .look (sees_assignable _ _) fun _ ↦ ?_
      have hsame := List.mem_append_right (made.map Ident.textOf) hmem
      refine .ite (fun _ ↦ .pure (hkept h₁ (.inr hsame))) fun _ ↦ ?_
      exact (marks_report _ rfl).bind fun _ _ h₂ _ ↦ .pure (hkept (h₁.trans h₂) (.inr hsame))
    | none =>
      have hnew : ident.name ∉ names := fun hmem ↦ by
        rw [hfound] at hknown
        cases hknown.2 hmem
      have hdeclares : σ.placed .declares (.ident ident) := by
        rwa [targetRole_ident, if_neg hnew] at hplaced
      refine .ite (fun hrepeated ↦ ?_) fun _ ↦ ?_
      · obtain ⟨entry, hentry, hsame⟩ := List.any_eq_true.1 hrepeated
        have hmem : ident.name ∈ made.map Ident.textOf ++ names :=
          List.mem_append_left _ (List.mem_map.2 ⟨entry, hentry, beq_iff_eq.1 hsame⟩)
        exact (marks_report _ rfl).bind fun _ _ hgrows _ ↦ .pure (hkept hgrows (.inr hmem))
      · refine (marks_addVariable true hdeclares htype.defaultType).bind fun id _ hgrows hid ↦
          .pure ⟨fun entry hentry ↦ ?_, .added id⟩
        rcases List.mem_append.1 hentry with hold | hnew
        · exact hmade.mono hgrows entry hold
        · rw [List.mem_singleton.1 hnew]
          exact ⟨hdeclares, Bool.eq_false_of_not_eq_true hblank, hid⟩

/-- All targets of a short declaration. -/
theorem marks_shortTargets {pairs : List (Expr × Ty)} {made : List (Ident × SymbolId)}
    (hplaced : ∀ pair ∈ pairs, σ.placed (targetRole names pair.1) (.ofExpr pair.1))
    (hspared : ∀ pair ∈ pairs, ∀ ident, pair.1.unparen.ident? = some ident → σ.Spares ident)
    (htypes : ∀ pair ∈ pairs, pair.2.Named s.store) (hmade : ShortMade σ made s.store) :
    MarksAt σ (names :: blocks) (names :: blocks) s
      (pairs.foldlM (fun made (target, type) ↦ shortTarget made target type) made)
      fun made' store ↦ ShortMade σ made' store ∧ ∀ name, name ≠ "_" →
        (name ∈ made'.map Ident.textOf ++ names ↔
          name ∈ targetTexts (pairs.map (·.1)) ++ (made.map Ident.textOf ++ names)) := by
  induction pairs generalizing s made with
  | nil => exact .pure ⟨hmade, fun _ _ ↦ .rfl⟩
  | cons pair rest ih =>
    obtain ⟨hpair, hrest⟩ := List.forall_mem_cons.1 hplaced
    obtain ⟨hpairSpared, hspared⟩ := List.forall_mem_cons.1 hspared
    obtain ⟨htype, htypes⟩ := List.forall_mem_cons.1 htypes
    refine (marks_shortTarget hpair hpairSpared htype hmade).bind fun made₁ s₁ h₁ hmade₁ ↦ ?_
    refine (ih hrest hspared (fun other hother ↦ (htypes other hother).mono h₁) hmade₁.1).weaken
      fun made₂ s₂ _ _ hmade₂ ↦ ⟨hmade₂.1, fun name hname ↦ ?_⟩
    rw [hmade₂.2 name hname, List.mem_append, hmade₁.2 name hname, ← List.mem_append]
    simp only [targetTexts, List.map_cons, List.flatMap_cons, List.flatMap_nil, List.append_nil,
      List.mem_append]
    tauto

theorem marks_shortDecl (info : NodeInfo) {lhs rhs : List Expr}
    (hlhs : ∀ e ∈ lhs, σ.placed (targetRole names e) (.ofExpr e))
    (hspared : ∀ e ∈ lhs, ∀ ident, e.unparen.ident? = some ident → σ.Spares ident)
    (hrhs : ∀ e ∈ rhs, Marks σ (names :: blocks) (c.expr e) Operand.Named) :
    MarksAt σ (names :: blocks) ((targetTexts lhs ++ names) :: blocks) s (shortDecl c info lhs rhs)
      Anything := by
  refine (marks_valueTypes _ _ hrhs).bind fun types s₁ _ htypes ↦ ?_
  refine (marks_shortTargets (fun pair hpair ↦ hlhs _ (List.of_mem_zip hpair).1)
    (fun pair hpair ↦ hspared _ (List.of_mem_zip hpair).1)
    (fun pair hpair ↦ htypes.named _ (List.of_mem_zip hpair).2) fun _ h ↦ (by cases h)).bind
      fun made s₂ _ hmade ↦ ?_
  rw [List.map_fst_zip (Nat.le_of_eq htypes.length.symm)] at hmade
  have hdeclared {s₃ : CheckState} (h₃ : s₂.store.Grows s₃.store) :
      MarksAt σ (names :: blocks) ((targetTexts lhs ++ names) :: blocks) s₃
        (made.forM fun entry ↦ do
          declareLocal entry.1 entry.2
          addLocal entry.2) Anything := by
    refine (marks_declareEach Ident.textOf
      (fun entry store ↦ σ.DeclaresLocal store entry.1 entry.2)
      (fun _ _ _ hgrows hid ↦ hid.mono hgrows) (fun entry _ _ _ hid ↦ ?_)
      (hmade.1.mono h₃)).congr hmade.2
    exact (marks_declareLocal hid.placed hid.declared.toDeclaredBy).bind fun _ _ hgrows _ ↦
      marks_addLocal (hid.mono hgrows)
  refine .ite (fun _ ↦ ?_) fun _ ↦ hdeclared (.refl _)
  exact (marks_report _ rfl).bind fun _ _ h₃ _ ↦ hdeclared h₃

/-- A name in parentheses is a part of the expression. -/
theorem Setting.Fair.unparenIdent (h : σ.Fair) {e : Expr} (hplaced : σ.placed .uses (.ofExpr e))
    {ident : Ident} (hident : e.unparen.ident? = some ident) : σ.placed .uses (.ident ident) := by
  fun_induction Expr.unparen e with
  | case1 info inner ih => exact ih (h.exprChild hplaced List.mem_cons_self rfl) hident
  | case2 e =>
    rw [Expr.eq_of_ident? hident] at hplaced
    exact hplaced

theorem marks_badTarget (pos : Nat) {problem : Problem} (hhard : problem.isSoft = false) :
    MarksAt σ blocks blocks s (badTarget pos problem) fun type store ↦ type.Named store :=
  (marks_report pos hhard).bind fun _ _ _ _ ↦ .pure .invalid

theorem marks_targetType (hσ : σ.Fair) (hc : TasksMark σ c) {target : Expr}
    (hplaced : σ.placed .uses (.ofExpr target))
    (hspared : ∀ ident, target.unparen.ident? = some ident → σ.Spares ident) :
    MarksAt σ blocks blocks s (targetType c target) fun type store ↦ type.Named store := by
  unfold targetType
  cases hident : target.unparen.ident? with
  | none =>
    exact (marks_value (hc.expr target hplaced blocks) s).bind fun _ _ _ hoperand ↦
      .pure hoperand.type
  | some ident =>
    refine .ite (fun _ ↦ .pure .invalid) fun _ ↦ .look (sees_lookup? _) fun hs ↦ ?_
    cases hfound : s.lookup? ident.name with
    | none => exact marks_badTarget _ rfl
    | some id =>
      have huses := hσ.unparenIdent hplaced hident
      have hcalls := hs.lookup? hfound
      by_cases hkind : (s.store.get id).kind = .pkgName
      · -- to assign to a package is no use of it, but it is reported
        have hseen : (s.store.get id).kind ≠ .var := by rw [hkind]; nofun
        exact .readingSeen huses hcalls ((if_neg hseen).trans (if_pos hkind)) fun _ _ ↦
          marks_badTarget ident.pos rfl
      · refine (marks_recordUse huses hcalls (.inl (hspared ident hident))).bind
          fun _ s₁ h₁ _ ↦ .look (sees_symbol id) fun _ ↦ .ite (fun _ ↦ ?_) fun _ ↦ ?_
        · refine (hc.resolve id blocks s₁).bind fun _ _ _ _ ↦ .look (sees_typeOf id) fun hs ↦ ?_
          exact (marks_recordType _ _).bind fun _ _ hgrows _ ↦
            .pure ((hs.store.typeOf id).mono hgrows)
        · exact .ite (fun hpackage ↦ absurd ((h₁.kind id hcalls.placed).symm.trans hpackage) hkind)
            fun _ ↦ marks_badTarget _ rfl

theorem marks_assignment (hσ : σ.Fair) (hc : TasksMark σ c) (info : NodeInfo) {lhs rhs : List Expr}
    (hlhs : ∀ e ∈ lhs, σ.placed .uses (.ofExpr e))
    (hspared : ∀ e ∈ lhs, ∀ ident, e.unparen.ident? = some ident → σ.Spares ident)
    (hrhs : ∀ e ∈ rhs, Marks σ blocks (c.expr e) Operand.Named) :
    MarksAt σ blocks blocks s (assignment c info lhs rhs) Anything := by
  have htargets : Marks σ blocks (lhs.mapM (targetType c)) Anything := fun s ↦
    (Marks.mapM (fun _ _ _ ↦ True) (fun _ _ _ _ _ _ ↦ trivial)
      (fun e he _ ↦ (marks_targetType hσ hc (hlhs e he) (hspared e he)).anything) s).anything
  refine (htargets s).bind fun _ _ _ _ ↦ (marks_valueTypes _ _ hrhs).bind fun _ s₂ _ _ ↦ ?_
  exact Marks.forM (fun _ _ _ ↦ marks_unlessAssignable _ _ _ rfl) s₂

theorem marks_compoundAssignment (hσ : σ.Fair) (hc : TasksMark σ c) {lhs rhs : List Expr}
    (hlhs : ∀ e ∈ lhs, σ.placed .uses (.ofExpr e))
    (hspared : ∀ e ∈ lhs, ∀ ident, e.unparen.ident? = some ident → σ.Spares ident)
    (hrhs : ∀ e ∈ rhs, Marks σ blocks (c.expr e) Operand.Named) :
    MarksAt σ blocks blocks s (compoundAssignment c lhs rhs) Anything := by
  unfold compoundAssignment
  split
  · refine (marks_targetType hσ hc (hlhs _ List.mem_cons_self)
      (hspared _ List.mem_cons_self)).bind fun _ later _ _ ↦ ?_
    exact marks_valueFor _ _ (hrhs _ List.mem_cons_self) later
  · exact .pure trivial

theorem marks_incDec (hσ : σ.Fair) (hc : TasksMark σ c) (info : NodeInfo) {target : Expr}
    (increment : Bool) (hplaced : σ.placed .uses (.ofExpr target))
    (hspared : ∀ ident, target.unparen.ident? = some ident → σ.Spares ident) :
    MarksAt σ blocks blocks s (incDec c info target increment) Anything := by
  refine (marks_targetType hσ hc hplaced hspared).bind fun _ _ _ _ ↦ .look sees_store fun _ ↦ ?_
  exact .ite (fun _ ↦ .pure trivial) fun _ ↦ marks_report _ rfl

/-! ### Calls and results -/

theorem marks_exprStmt (info : NodeInfo) {e : Expr}
    (h : Marks σ blocks (c.expr e) Operand.Named) :
    MarksAt σ blocks blocks s (exprStmt c info e) Anything :=
  (h s).bind fun _ _ _ _ ↦ .ite (fun _ ↦ .pure trivial) fun _ ↦ marks_report _ rfl

theorem marks_deferred (isGo : Bool) {call : Expr}
    (h : Marks σ blocks (c.expr call) Operand.Named) :
    MarksAt σ blocks blocks s (deferred c isGo call) Anything := by
  have hcall : Marks σ blocks (c.exprs [call]) Anything :=
    marks_exprs (List.forall_mem_singleton.2 h)
  exact .ite (fun _ ↦ hcall s) fun _ ↦ (marks_report _ rfl).bind fun _ later _ _ ↦ hcall later

theorem marks_returnCount (info : NodeInfo) (given wanted : Nat) :
    MarksAt σ blocks blocks s (returnCount info given wanted) Anything :=
  marks_report _ (by split <;> rfl)

theorem marks_returnSpread (info : NodeInfo) (wanted : List Ty) {given : Expr}
    (h : Marks σ blocks (c.expr given) Operand.Named) :
    MarksAt σ blocks blocks s (returnSpread c info wanted given) Anything := by
  refine (h s).bind fun _ s₁ _ _ ↦ ?_
  split
  · exact .ite (fun _ ↦ marks_assignEach _ _ _ _ s₁) fun _ ↦ marks_returnCount _ _ _
  · exact marks_returnCount _ _ _

theorem marks_returned (info : NodeInfo) {given : List Expr}
    (h : ∀ e ∈ given, Marks σ blocks (c.expr e) Operand.Named) :
    MarksAt σ blocks blocks s (returned c info given) Anything := by
  refine .look sees_get fun _ ↦ ?_
  dsimp only
  split
  · exact .pure trivial
  · exact (marks_exprs h s).bind fun _ _ _ _ ↦ marks_report _ rfl
  · refine .ite (fun _ ↦ ?_) fun _ ↦ ?_
    · exact Marks.forM (fun entry hentry ↦
        marks_valueFor _ _ (h entry.1 (List.of_mem_zip hentry).1)) s
    · split
      · exact marks_returnSpread _ _ (h _ List.mem_cons_self)
      · exact (marks_exprs h s).bind fun _ _ _ _ ↦ marks_returnCount _ _ _

/-! ### Switches -/

theorem marks_caseExpr (tag : Option Ty) {e : Expr} (h : Marks σ blocks (c.expr e) Operand.Named) :
    Marks σ blocks (caseExpr c tag e) Anything := by
  refine fun s ↦ (marks_value h s).bind fun _ _ _ _ ↦ .look sees_store fun _ ↦ ?_
  exact .ite (fun _ ↦ .pure trivial) fun _ ↦ marks_report _ rfl

/-- The parts of a clause, whose block starts with some names. -/
structure ClausePlaced (σ : Setting) (names : List String) (clause : CaseClause) : Prop where
  list : ∀ e ∈ clause.list, σ.placed .uses (.ofExpr e)
  body : ∀ entry ∈ Node.stmtsWithRoles names clause.body, σ.placed entry.1 entry.2

theorem Setting.Fair.clause (h : σ.Fair) {clause : CaseClause}
    (hplaced : σ.placed (.inBlock names) (.clause clause)) : ClausePlaced σ names clause where
  list _ he := h.closed hplaced (List.mem_append_left _ (List.mem_map_of_mem he))
  body _ hentry := h.closed hplaced (List.mem_append_right _ hentry)

theorem marks_switch (hc : TasksMark σ c) {init : Option Stmt} {tag : Option Expr}
    {clauses : List CaseClause}
    (hinit : ∀ entry ∈ Node.stmtsWithRoles [] init.toList, σ.placed entry.1 entry.2)
    (htag : ∀ e ∈ tag, σ.placed .uses (.ofExpr e))
    (hclauses : ∀ clause ∈ clauses, ClausePlaced σ [] clause) :
    MarksAt σ blocks blocks s (switch c init tag clauses) Anything := by
  refine .inBlock (namesAfter [] init.toList)
    ((marks_optionalStmt hc hinit).bind fun _ s₁ _ _ ↦ ?_)
  refine (Marks.mapOption Anything (fun e he s ↦ ?_) s₁).bind fun tag s₂ _ _ ↦
    Marks.forM (fun clause hclause s ↦ ?_) s₂
  · exact (marks_value (hc.expr e (htag e he) _) s).bind fun _ _ _ _ ↦ .pure trivial
  · have hclause := hclauses clause hclause
    exact (Marks.forM (fun e he ↦ marks_caseExpr tag (hc.expr e (hclause.list e he) _)) s).bind
      fun _ _ _ _ ↦ marks_block hc hclause.body

theorem Setting.Fair.unparen (h : σ.Fair) {e : Expr} (hplaced : σ.placed .uses (.ofExpr e)) :
    σ.placed .uses (.ofExpr e.unparen) := by
  fun_induction Expr.unparen e with
  | case1 info inner ih => exact ih (h.exprChild hplaced List.mem_cons_self rfl)
  | case2 => exact hplaced

theorem marks_guardType (hσ : σ.Fair) (hc : TasksMark σ c) {guard : Expr}
    (hplaced : σ.placed .uses (.ofExpr guard)) :
    MarksAt σ blocks blocks s (guardType c guard) fun type store ↦ type.Named store := by
  have hunparen := hσ.unparen hplaced
  unfold guardType
  split
  · rename_i info operand heq
    rw [heq] at hunparen
    have hoperand := hc.expr operand (hσ.exprChild hunparen List.mem_cons_self rfl) blocks
    refine (marks_value hoperand s).bind fun found s₁ _ hfound ↦ .look sees_store fun _ ↦ ?_
    refine .ite (fun _ ↦ .pure hfound.type) fun _ ↦ ?_
    exact (marks_report _ rfl).bind fun _ _ hgrows _ ↦ .pure (hfound.type.mono hgrows)
  · exact marks_badTarget _ rfl

theorem marks_nilCase? {e : Expr} :
    MarksAt σ blocks blocks s (nilCase? e) fun found store ↦
      ∀ entry ∈ found, e = .ident entry.1 ∧ store.Calls entry.2 entry.1.name ∧
        (store.get entry.2).kind = .nil := by
  unfold nilCase?
  cases hident : e.ident? with
  | none => exact .pure fun _ h ↦ (by cases h)
  | some ident =>
    refine .ite (fun _ ↦ .pure fun _ h ↦ (by cases h)) fun hnil ↦ ?_
    have hname : ident.name = "nil" := not_not.1 hnil
    refine .look (sees_lookup? _) fun hs ↦ ?_
    cases hfound : s.lookup? "nil" with
    | none => exact .pure fun _ h ↦ (by cases h)
    | some id =>
      refine .look (sees_symbol id) fun _ ↦ .pure fun entry hentry ↦ ?_
      split at hentry
      · rename_i hkind
        cases hentry
        exact ⟨Expr.eq_of_ident? hident, hname ▸ hs.lookup? hfound, hkind⟩
      · cases hentry

theorem marks_caseType (hc : TasksMark σ c) {e : Expr} (hplaced : σ.placed .uses (.ofExpr e)) :
    Marks σ blocks (caseType c e) fun found store ↦ ∀ type ∈ found, type.Named store := by
  refine fun s ↦ marks_nilCase?.bind fun found s₁ _ hfound ↦ ?_
  cases found with
  | none =>
    exact (hc.typeExpr e hplaced blocks s₁).bind fun _ _ _ htype ↦
      .pure fun _ h ↦ by cases h; exact htype
  | some entry =>
    obtain ⟨rfl, hcalls, hkind⟩ := hfound entry rfl
    have hcredits : s₁.Credits entry.2 := .inr (by rw [hkind]; rfl)
    exact (marks_recordUse hplaced hcalls (.inr hcredits)).bind fun _ _ _ _ ↦
      .pure fun _ h ↦ (by cases h)

theorem Ty.Named.bindingType {store : Store} {guard : Ty} {types : List (Option Ty)}
    (hguard : guard.Named store) (htypes : ∀ found ∈ types, ∀ type ∈ found, type.Named store) :
    (bindingType guard types).Named store := by
  unfold CheckRule.bindingType
  split
  · exact htypes _ List.mem_cons_self _ rfl
  · exact hguard

theorem marks_bindArm {clause : CaseClause} {type : Ty} {binding : Ident} {role : Role}
    (hplaced : σ.placed role (.ident binding)) (htype : type.Named s.store) :
    MarksAt σ (names :: blocks) ((binding.name :: names) :: blocks) s (bindArm clause type binding)
      fun id store ↦ store.DeclaredAs σ.input.space .var binding id := by
  refine (marks_addVariable true hplaced htype).bind fun id s₁ _ hid ↦ ?_
  refine (marks_recordImplicit _ _).bind fun _ s₂ h₂ _ ↦ .ite (fun hblank ↦ ?_) fun _ ↦ ?_
  · refine MarksAt.congr (.pure (hid.mono h₂)) fun name hname ↦
      ⟨List.mem_cons_of_mem _, fun h ↦ ?_⟩
    refine (List.mem_cons.1 h).resolve_left ?_
    rintro rfl
    exact hname (beq_iff_eq.1 hblank)
  · exact (marks_bind (hid.calls.mono h₂)).bind fun _ _ h₃ _ ↦ .pure (hid.mono (h₂.trans h₃))

/-- What an arm returns is the variable that a bound name stands for. -/
def ArmBinds (σ : Setting) (binding : Option Ident) (found : Option SymbolId) (store : Store) :
    Prop :=
  ∀ ident ∈ binding, ∃ id, found = some id ∧ store.DeclaredAs σ.input.space .var ident id

theorem ArmBinds.mono {binding : Option Ident} {found : Option SymbolId} {store later : Store}
    (h : ArmBinds σ binding found store) (hgrows : store.Grows later) :
    ArmBinds σ binding found later :=
  fun ident hident ↦ (h ident hident).imp fun _ hid ↦ ⟨hid.1, hid.2.mono hgrows⟩

theorem marks_typeArm (hc : TasksMark σ c) {guard : Ty} {binding : Option Ident}
    {clause : CaseClause} {role : Role} (hguard : guard.Named s.store)
    (hbinding : ∀ ident ∈ binding, σ.placed role (.ident ident))
    (hclause : ClausePlaced σ (binding.toList.map (·.name)) clause) :
    MarksAt σ blocks blocks s (typeArm c guard binding clause) (ArmBinds σ binding) := by
  refine (Marks.mapM (fun _ found store ↦ ∀ type ∈ found, Ty.Named store type)
    (fun _ _ _ _ hgrows h type htype ↦ (h type htype).mono hgrows)
    (fun e he ↦ marks_caseType hc (hclause.list e he)) s).bind fun types s₁ h₁ htypes ↦ ?_
  have htype : (bindingType guard types).Named s₁.store := by
    refine (hguard.mono h₁).bindingType fun found hfound ↦ ?_
    obtain ⟨_, -, htype⟩ := exists_of_forall₂ htypes hfound
    exact htype
  refine .inBlock (namesAfter (binding.toList.map (·.name)) clause.body) ?_
  cases binding with
  | none =>
    exact (marks_stmts hc hclause.body).bind fun _ _ _ _ ↦ .pure fun _ h ↦ (by cases h)
  | some ident =>
    have hbound : MarksAt σ ([] :: blocks) ([ident.name] :: blocks)
        { s₁ with context.scopes := Dict.empty :: s₁.context.scopes }
        (Option.mapM (bindArm clause (bindingType guard types)) (some ident))
        (ArmBinds σ (some ident)) := by
      refine .bind (marks_bindArm (hbinding ident rfl) ?_) fun id _ _ hid ↦ .pure ?_
      · exact htype
      · intro other hother
        cases hother
        exact ⟨id, rfl, hid⟩
    exact hbound.bind fun _ _ _ hfound ↦ (marks_stmts hc hclause.body).bind fun _ _ hgrows _ ↦
      .pure (hfound.mono hgrows)

/-- The symbols of all arms, one for each. -/
theorem ArmBinds.filterMap {binding : Ident} {bound : List (Option SymbolId)} {store : Store}
    (h : ∀ found ∈ bound, ArmBinds σ (some binding) found store) :
    (bound.filterMap (·)).length = bound.length ∧
      ∀ id ∈ bound.filterMap (·), store.DeclaredAs σ.input.space .var binding id := by
  constructor
  · refine List.filterMap_length_eq_length.2 fun found hfound ↦ ?_
    obtain ⟨id, rfl, -⟩ := h found hfound binding rfl
    rfl
  · intro id hid
    obtain ⟨found, hfound, hsome⟩ := List.mem_filterMap.1 hid
    obtain ⟨other, hother, hdeclared⟩ := h found hfound binding rfl
    cases hother.symm.trans hsome
    exact hdeclared

theorem marks_typeSwitch (hσ : σ.Fair) (hc : TasksMark σ c) {info : NodeInfo}
    {init : Option Stmt} {binding : Option Ident} {guard : Expr} {clauses : List CaseClause}
    {role : Role} (hplaced : σ.placed role (.ofStmt (.typeSwitch info init binding guard clauses)))
    (hinit : ∀ entry ∈ Node.stmtsWithRoles [] init.toList, σ.placed entry.1 entry.2)
    (hbinding : ∀ ident ∈ binding, σ.placed .titles (.ident ident))
    (hguard : σ.placed .uses (.ofExpr guard))
    (hclauses : ∀ clause ∈ clauses, ClausePlaced σ (binding.toList.map (·.name)) clause) :
    MarksAt σ blocks blocks s (typeSwitch c init binding guard clauses) Anything := by
  refine .inBlock (namesAfter [] init.toList)
    ((marks_optionalStmt hc hinit).bind fun _ s₁ _ _ ↦ ?_)
  refine (marks_guardType hσ hc hguard).bind fun type s₂ _ htype ↦ ?_
  have harms : MarksAt σ (namesAfter [] init.toList :: blocks) (namesAfter [] init.toList :: blocks)
      s₂ (clauses.mapM (typeArm c type binding))
      fun bound store ↦ bound.length = clauses.length ∧
        ∀ found ∈ bound, ArmBinds σ binding found store :=
    Marks.mapMOf (fun store ↦ type.Named store) (ArmBinds σ binding)
      (fun hgrows h ↦ h.mono hgrows) (fun _ _ _ hgrows h ↦ h.mono hgrows)
      (fun clause hclause s h ↦ marks_typeArm hc h hbinding (hclauses clause hclause)) htype
  refine harms.bind fun bound s₃ _ hbound ↦ ?_
  cases binding with
  | none => exact .pure trivial
  | some binding =>
    refine .ite (fun _ ↦ .pure trivial) fun hblank ↦
      .modify (.ofStore (.refl _) rfl) fun hs ↦ { hs with bindings := fun entry hentry ↦ ?_ }
    rcases List.mem_append.1 hentry with hold | hnew
    · exact hs.bindings entry hold
    · rw [List.mem_singleton.1 hnew]
      obtain ⟨hlength, hsymbols⟩ := ArmBinds.filterMap hbound.2
      exact ⟨⟨role, info, init, guard, clauses, hplaced, hlength.trans hbound.1⟩,
        Bool.eq_false_of_not_eq_true hblank, hsymbols⟩

/-! ### All statements -/

theorem marks_cond (hc : TasksMark σ c) {init otherwise : Option Stmt} {test : Expr} {body : Block}
    (hinit : ∀ entry ∈ Node.stmtsWithRoles [] init.toList, σ.placed entry.1 entry.2)
    (htest : σ.placed .uses (.ofExpr test))
    (hbody : ∀ entry ∈ Node.stmtsWithRoles [] body.stmts, σ.placed entry.1 entry.2)
    (hotherwise : ∀ entry ∈ Node.stmtsWithRoles (namesAfter [] init.toList) otherwise.toList,
      σ.placed entry.1 entry.2) :
    MarksAt σ blocks blocks s (inBlock do
      optionalStmt c init
      condition c "if" test
      block c body.stmts
      optionalStmt c otherwise) Anything := by
  refine .inBlock (namesAfter (namesAfter [] init.toList) otherwise.toList)
    ((marks_optionalStmt hc hinit).bind fun _ s₁ _ _ ↦ ?_)
  refine (marks_condition "if" (hc.expr test htest _) s₁).bind fun _ _ _ _ ↦ ?_
  exact (marks_block hc hbody).bind fun _ _ _ _ ↦ marks_optionalStmt hc hotherwise

theorem marks_loop (hc : TasksMark σ c) {init post : Option Stmt} {test : Option Expr}
    {body : Block}
    (hinit : ∀ entry ∈ Node.stmtsWithRoles [] init.toList, σ.placed entry.1 entry.2)
    (htest : ∀ e ∈ test, σ.placed .uses (.ofExpr e))
    (hpost : ∀ entry ∈ Node.stmtsWithRoles (namesAfter [] init.toList) post.toList,
      σ.placed entry.1 entry.2)
    (hbody : ∀ entry ∈ Node.stmtsWithRoles [] body.stmts, σ.placed entry.1 entry.2) :
    MarksAt σ blocks blocks s (inBlock do
      optionalStmt c init
      test.forM (condition c "for")
      optionalStmt c post
      block c body.stmts) Anything := by
  refine .inBlock (namesAfter (namesAfter [] init.toList) post.toList)
    ((marks_optionalStmt hc hinit).bind fun _ s₁ _ _ ↦ ?_)
  refine (Marks.forOption (fun e he ↦ marks_condition "for" (hc.expr e (htest e he) _)) s₁).bind
    fun _ _ _ _ ↦ ?_
  exact (marks_optionalStmt hc hpost).bind fun _ _ _ _ ↦ marks_block hc hbody

/-- All parts of an assignment that is no short declaration are used. -/
theorem Setting.Fair.assignParts (hσ : σ.Fair) {info : NodeInfo} {lhs rhs : List Expr}
    {op : AssignOp} (hplaced : σ.placed (.inBlock names) (.ofStmt (.assign info lhs op rhs)))
    (hop : op ≠ .define) :
    (∀ e ∈ lhs, σ.placed .uses (.ofExpr e)) ∧ ∀ e ∈ rhs, σ.placed .uses (.ofExpr e) := by
  have hchild {child : Node} (h : child ∈ lhs.map Node.ofExpr ++ rhs.map Node.ofExpr) :
      σ.placed .uses child := by
    refine hσ.closed hplaced ?_
    cases op with
    | define => exact absurd rfl hop
    | assign | compound => exact List.mem_map_of_mem h
  exact ⟨fun e he ↦ hchild (List.mem_append_left _ (List.mem_map_of_mem he)),
    fun e he ↦ hchild (List.mem_append_right _ (List.mem_map_of_mem he))⟩

theorem marks_assign (hσ : σ.Fair) (hc : TasksMark σ c) (info : NodeInfo) (op : AssignOp)
    {lhs rhs : List Expr}
    (hplaced : σ.placed (.inBlock names) (.ofStmt (.assign info lhs op rhs))) :
    MarksAt σ (names :: blocks) (((Stmt.assign info lhs op rhs).nameTexts ++ names) :: blocks) s
      (CheckRule.stmt c (.assign info lhs op rhs)) Anything := by
  have hspared : ∀ e ∈ lhs, ∀ ident, e.unparen.ident? = some ident → σ.Spares ident :=
    fun e he ident hident ↦ ⟨_, _, hplaced, .target (List.mem_filterMap.2 ⟨e, he, hident⟩)⟩
  cases op with
  | define =>
    refine marks_shortDecl info (fun e he ↦ ?_) hspared fun e he ↦ hc.expr e ?_ _
    · exact hσ.closed hplaced (List.mem_append_left _ (List.mem_map.2 ⟨e, he, rfl⟩))
    · exact hσ.closed hplaced (List.mem_append_right _ (List.mem_map.2 ⟨e, he, rfl⟩))
  | assign =>
    obtain ⟨hlhs, hrhs⟩ := hσ.assignParts hplaced nofun
    exact marks_assignment hσ hc info hlhs hspared fun e he ↦ hc.expr e (hrhs e he) _
  | compound op =>
    obtain ⟨hlhs, hrhs⟩ := hσ.assignParts hplaced nofun
    exact marks_compoundAssignment hσ hc hlhs hspared fun e he ↦ hc.expr e (hrhs e he) _

theorem marks_stmt (hσ : σ.Fair) (hc : TasksMark σ c) {st : Stmt}
    (hplaced : σ.placed (st.role names) (.ofStmt st)) :
    MarksAt σ (names :: blocks) ((st.nameTexts ++ names) :: blocks) s (CheckRule.stmt c st)
      Anything := by
  have hchild {entry : Role × Node} (h : entry ∈ (Node.ofStmt st).roles (st.role names)) :
      σ.placed entry.1 entry.2 := hσ.closed hplaced h
  have hexpr {e : Expr} (h : (Role.uses, Node.ofExpr e) ∈ (Node.ofStmt st).roles (st.role names))
      (blocks : List (List String)) : Marks σ blocks (c.expr e) Operand.Named :=
    hc.expr e (hchild h) blocks
  cases st with
  | decl info group =>
    have hgroup : σ.placed .uses (.genDecl group) := hchild List.mem_cons_self
    refine marks_localSpecs hσ hc _ 0 (fun spec hspec ↦ ?_) nofun
    exact hσ.closed hgroup (List.mem_map_of_mem (List.mem_map_of_mem hspec))
  | assign info lhs op rhs => exact marks_assign hσ hc info op hplaced
  | expr info operand => exact marks_exprStmt info (hexpr List.mem_cons_self _)
  | incDec info operand increment =>
    refine marks_incDec hσ hc info increment (hchild List.mem_cons_self) fun ident hident ↦ ?_
    exact ⟨_, _, hplaced, .target (Option.mem_toList.2 hident)⟩
  | ret info results =>
    refine marks_returned info fun e he ↦ hexpr (List.mem_map_of_mem (List.mem_map_of_mem he)) _
  | block body => exact marks_block hc fun entry hentry ↦ hchild hentry
  | cond info init test body otherwise =>
    refine marks_cond hc (fun entry h ↦ hchild ?_) (hchild (?_ : (Role.uses, Node.ofExpr test) ∈ _))
      (fun entry h ↦ hσ.closed (hchild (?_ : (Role.inBlock [], Node.block body) ∈ _)) h)
      fun entry h ↦ hchild ?_
    · exact List.mem_append_left _ (List.mem_append_left _ h)
    · exact List.mem_append_left _ (List.mem_append_right _ List.mem_cons_self)
    · exact List.mem_append_left _
        (List.mem_append_right _ (List.mem_cons_of_mem _ List.mem_cons_self))
    · exact List.mem_append_right _ h
  | loop info init test post body =>
    refine marks_loop hc (fun entry h ↦ hchild ?_)
      (fun e he ↦ hchild (?_ : (Role.uses, Node.ofExpr e) ∈ _)) (fun entry h ↦ hchild ?_)
      fun entry h ↦ hσ.closed (hchild (?_ : (Role.inBlock [], Node.block body) ∈ _)) h
    · exact List.mem_append_left _ (List.mem_append_left _ (List.mem_append_left _ h))
    · exact List.mem_append_left _ (List.mem_append_left _
        (List.mem_append_right _ (List.mem_map.2 ⟨e, Option.mem_toList.2 he, rfl⟩)))
    · exact List.mem_append_left _ (List.mem_append_right _ h)
    · exact List.mem_append_right _ List.mem_cons_self
  | switch info init tag clauses =>
    refine marks_switch hc (fun entry h ↦ hchild ?_)
      (fun e he ↦ hchild (?_ : (Role.uses, Node.ofExpr e) ∈ _))
      fun arm harm ↦ hσ.clause (hchild (?_ : (Role.inBlock [], Node.clause arm) ∈ _))
    · exact List.mem_append_left _ (List.mem_append_left _ h)
    · exact List.mem_append_left _
        (List.mem_append_right _ (List.mem_map.2 ⟨e, Option.mem_toList.2 he, rfl⟩))
    · exact List.mem_append_right _ (List.mem_map.2 ⟨arm, harm, rfl⟩)
  | typeSwitch info init binding guard clauses =>
    refine marks_typeSwitch hσ hc hplaced (fun entry h ↦ hchild ?_)
      (fun ident h ↦ hchild (?_ : (Role.titles, Node.ident ident) ∈ _))
      (hchild (?_ : (Role.uses, Node.ofExpr guard) ∈ _))
      fun arm harm ↦ hσ.clause (hchild (?_ : (Role.inBlock _, Node.clause arm) ∈ _))
    · exact List.mem_append_left _ (List.mem_append_left _ (List.mem_append_left _ h))
    · exact List.mem_append_left _ (List.mem_append_left _
        (List.mem_append_right _ (List.mem_map.2 ⟨ident, Option.mem_toList.2 h, rfl⟩)))
    · exact List.mem_append_left _ (List.mem_append_right _ List.mem_cons_self)
    · exact List.mem_append_right _ (List.mem_map.2 ⟨arm, harm, rfl⟩)
  | deferred info isGo call => exact marks_deferred isGo (hexpr List.mem_cons_self _)
  | branch => exact .pure trivial

end

end PackageAtlas
