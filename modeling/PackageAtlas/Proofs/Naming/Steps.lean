import PackageAtlas.Proofs.Naming.Marks

/-!
The steps that all rules are made of, and what they write down: reports, records of names in their
roles, new symbols from the names that declare them, and the names that blocks gain.
-/

set_option autoImplicit false
set_option relaxedAutoImplicit false

namespace PackageAtlas

open Check

variable {α : Type} {σ : Setting} {names names' : List String}
  {blocks blocks' : List (List String)} {s : CheckState} {result : α → Store → Prop}

/-! ### Reports and records -/

theorem marks_report (pos : Nat) {problem : Problem} (hhard : problem.isSoft = false) :
    MarksAt σ blocks blocks s (report pos problem) Anything :=
  .modify (.ofStore (.refl _) rfl) fun hs ↦
    { hs with reports := List.forall_mem_cons.2 ⟨hhard, hs.reports⟩ }

theorem marks_recordType (id : NodeId) (type : Ty) :
    MarksAt σ blocks blocks s (recordType id type) Anything :=
  .modify (.ofStore (.refl _) rfl) fun hs ↦ { hs with }

theorem marks_recordImplicit (node : NodeId) (id : SymbolId) :
    MarksAt σ blocks blocks s (recordImplicit node id) Anything :=
  .modify (.ofStore (.refl _) rfl) fun hs ↦ { hs with }

/-- A declaration is recorded at a name that declares. -/
theorem marks_recordDef {ident : Ident} {id : SymbolId}
    (hplaced : σ.placed .declares (.ident ident))
    (hid : s.store.DeclaredBy σ.input.space ident id) :
    MarksAt σ blocks blocks s (recordDef ident id) Anything := by
  exact .modify (.ofStore (.refl _) rfl) fun hs ↦
    { hs with defs := Dict.forall_find?_insert hs.defs ⟨rfl, hplaced, hid⟩ }

/-- A use is recorded at a name that uses. The name does not read the symbol, unless that counts as
used already. -/
theorem marks_recordUse {ident : Ident} {id : SymbolId} (hplaced : σ.placed .uses (.ident ident))
    (hid : s.store.Calls id ident.name) (hreads : σ.Spares ident ∨ s.Credits id) :
    MarksAt σ blocks blocks s (recordUse ident id) Anything := by
  exact .modify (.ofStore (.refl _) rfl) fun hs ↦ { hs with
    uses := Dict.forall_find?_insert hs.uses ⟨rfl, hplaced, hid⟩
    keys := Dict.nodup_keys_insert hs.keys _ _
    reads := Dict.forall_find?_insert hs.reads hreads }

/-- The used symbols with one more, if it may be reported as unused. -/
def CheckState.usedWith (s : CheckState) (id : SymbolId) : List SymbolId :=
  if (s.store.get id).kind.isUsable then if s.used.contains id then s.used else id :: s.used
  else s.used

theorem run_markUsed (input : CheckInput) (s : CheckState) (id : SymbolId) :
    markUsed id input s = some ((), { s with used := s.usedWith id }) := by
  rw [markUsed, run_bind_of_some (sees_symbol id input s), CheckState.usedWith]
  split
  · rename_i hkind
    rw [if_pos (show (s.store.get id).kind.isUsable from hkind)]
    refine congrArg (fun s ↦ some ((), s)) ?_
    dsimp only
    split <;> rfl
  · rename_i hkind
    rw [if_neg (show ¬(s.store.get id).kind.isUsable from hkind)]
    rfl

theorem CheckState.mem_usedWith {id other : SymbolId} : other ∈ s.usedWith id ↔
    other ∈ s.used ∨ other = id ∧ (s.store.get id).kind.isUsable = true := by
  unfold usedWith
  split
  · split
    · rename_i hused
      have hmem : id ∈ s.used := List.contains_iff_mem.1 hused
      constructor
      · exact .inl
      · rintro (hother | ⟨rfl, -⟩)
        · exact hother
        · exact hmem
    · simp_all [or_comm]
  · simp_all

/-- A state in which a name that reads a symbol is recorded, and the symbol counts as used. -/
def CheckState.afterReading (s : CheckState) (ident : Ident) (id : SymbolId) : CheckState :=
  { s with
    info.uses := s.info.uses.insert ident.info.id ⟨ident, id⟩
    used := s.usedWith id }

theorem run_reading (input : CheckInput) (s : CheckState) (ident : Ident) (id : SymbolId)
    (next : Unit → Check α) :
    (recordUse ident id >>= fun _ ↦ markUsed id >>= next) input s =
      next () input (s.afterReading ident id) :=
  run_bind_of_some (run_markUsed input { s with
    info.uses := s.info.uses.insert ident.info.id ⟨ident, id⟩ } id)

theorem CheckState.Sound.afterReading (hs : s.Sound σ blocks) {ident : Ident} {id : SymbolId}
    (hplaced : σ.placed .uses (.ident ident)) (hid : s.store.Calls id ident.name) :
    (s.afterReading ident id).Sound σ blocks := by
  have hreads (node : NodeId) (ref : IdentRef) (hfound : s.info.uses.find? node = some ref) :
      σ.Spares ref.ident ∨ (s.afterReading ident id).Credits ref.symbol :=
    (hs.reads node ref hfound).imp_right (Or.imp_left fun hused ↦ mem_usedWith.2 (.inl hused))
  have hmarked : (s.afterReading ident id).Credits id := by
    by_cases husable : (s.store.get id).kind.isUsable = true
    · exact .inl (mem_usedWith.2 (.inr ⟨rfl, husable⟩))
    · exact .inr (Bool.eq_false_of_not_eq_true husable)
  exact { hs with
    uses := Dict.forall_find?_insert hs.uses ⟨rfl, hplaced, hid⟩
    keys := Dict.nodup_keys_insert hs.keys _ _
    reads := Dict.forall_find?_insert hreads (.inr hmarked) }

/-- A name that reads a symbol is recorded as a use, and the symbol counts as used from then on. -/
theorem MarksAt.reading {ident : Ident} {id : SymbolId} {next : Unit → Check α}
    (hplaced : σ.placed .uses (.ident ident)) (hid : s.store.Calls id ident.name)
    (hnext : ∀ later : CheckState, s.store.Grows later.store →
      MarksAt σ blocks blocks' later (next ()) result) :
    MarksAt σ blocks blocks' s (recordUse ident id >>= fun _ ↦ markUsed id >>= next) result := by
  intro hs a later hrun
  rw [run_reading] at hrun
  obtain ⟨hlater, hgrows, ha⟩ :=
    hnext (s.afterReading ident id) (.refl _) (hs.afterReading hplaced hid) a later hrun
  exact ⟨hlater, ⟨hgrows.store, hgrows.pending⟩, ha⟩

/-- The same where the symbol is looked at in between, and is marked for what it is. -/
theorem MarksAt.readingSeen {ident : Ident} {id : SymbolId} {seen : Symbol → Check α}
    {next : Unit → Check α} (hplaced : σ.placed .uses (.ident ident))
    (hid : s.store.Calls id ident.name) (hmarks : seen (s.store.get id) = markUsed id >>= next)
    (hnext : ∀ later : CheckState, s.store.Grows later.store →
      MarksAt σ blocks blocks' later (next ()) result) :
    MarksAt σ blocks blocks' s (recordUse ident id >>= fun _ ↦ symbol id >>= seen) result := by
  intro hs a later hrun
  have hread := MarksAt.reading hplaced hid hnext hs a later
  rw [← hmarks] at hread
  exact hread hrun

/-! ### Changes of the store -/

theorem Setting.Declares.congr {symbol symbol' : Symbol} (h : σ.Declares symbol)
    (hname : symbol'.name = symbol.name) (hkind : symbol'.kind = symbol.kind)
    (horigin : symbol'.origin = symbol.origin) : σ.Declares symbol' := by
  intro origin hmem
  rw [hname, hkind]
  exact h origin (horigin ▸ hmem)

/-- A symbol is settled. What is pending stays sound if the symbol is no function, or if its type
stays the same. -/
theorem marks_modify {id : SymbolId} {change : Symbol → Symbol} (hsettles : Store.Settles change)
    (hnamed : ∀ symbol : Symbol, symbol.Named s.store → (change symbol).Named s.store)
    (hpending : s.Sound σ blocks → ∀ id' pending, s.pending.find? id' = some pending →
      pending.Sound σ (s.store.modify id change) id') :
    MarksAt σ blocks blocks s (modifyStore (·.modify id change)) Anything := by
  have hgrows := Store.grows_modify s.store id hsettles
  refine .modify (.ofStore hgrows rfl) fun hs ↦
    hs.ofStore hgrows (hs.store.modify id hsettles hnamed) ?_ (hpending hs)
  intro other hother
  rw [Store.get_modify]
  split
  · exact (hs.created other hother).congr (hsettles.name _) (hsettles.kind _) (hsettles.origin _)
  · exact hs.created other hother

/-- A change after which functions have the types that they had. -/
theorem pending_modify {id : SymbolId} {change : Symbol → Symbol} (hsettles : Store.Settles change)
    (htype : (s.store.get id).kind = .func → (change (s.store.get id)).type = (s.store.get id).type)
    (hs : s.Sound σ blocks) (id' : SymbolId) (pending : Pending)
    (hfound : s.pending.find? id' = some pending) :
    pending.Sound σ (s.store.modify id change) id' := by
  have hgrows := Store.grows_modify s.store id hsettles
  refine (hs.pending id' pending hfound).mono hgrows fun hkind ↦ ?_
  rw [Store.get_modify]
  split
  · rename_i hsame
    rw [← hsame.1] at hkind ⊢
    exact htype hkind
  · rfl

theorem settles_setType (type : Ty) :
    Store.Settles fun symbol ↦ { symbol with type := symbol.type <|> some type } :=
  ⟨fun _ ↦ rfl, fun _ ↦ rfl, fun _ ↦ rfl, fun _ ↦ rfl, fun _ ↦ rfl, fun _ _ h ↦ by rw [h]; rfl⟩

theorem Symbol.Named.setType {store : Store} {symbol : Symbol} {type : Ty}
    (h : symbol.Named store) (htype : type.Named store) :
    Symbol.Named store { symbol with type := symbol.type <|> some type } where
  type other hother := by
    rcases (Option.orElse_eq_some _ _ _).1 hother with hold | ⟨-, hnew⟩
    · exact h.type other hold
    · cases hnew
      exact htype
  underlying := h.underlying
  methods := h.methods
  imported := h.imported

/-- A symbol that is no function gets a type. -/
theorem marks_setType {id : SymbolId} {type : Ty} (hid : s.store.NoFunc id)
    (htype : type.Named s.store) : MarksAt σ blocks blocks s (setType id type) Anything :=
  marks_modify (settles_setType type) (fun _ hsymbol ↦ hsymbol.setType htype)
    (pending_modify (settles_setType type) fun hkind ↦ absurd hkind hid.kind)

/-- A function that is resolved later gets a type that fits. -/
theorem marks_setFuncType {id : SymbolId} {decl : FuncDecl} {file : Nat} {signature : Signature}
    (hid : s.pending.find? id = some (.func decl file)) (hfits : signature.Fits decl.type)
    (htype : (Ty.func signature).Named s.store) :
    MarksAt σ blocks blocks s (setType id (.func signature)) Anything := by
  refine marks_modify (settles_setType _) (fun _ hsymbol ↦ hsymbol.setType htype) ?_
  intro hs id' pending hfound
  have hgrows := Store.grows_modify s.store id (settles_setType (.func signature))
  by_cases hsame : id' = id
  · subst hsame
    rw [hid] at hfound
    cases hfound
    obtain ⟨hplaced, hlt, hkind, hold⟩ := hs.pending id' _ hid
    refine ⟨hplaced, Nat.lt_of_lt_of_le hlt hgrows.size_le, (hgrows.kind id' hlt).trans hkind, ?_⟩
    rw [Store.get_modify, if_pos ⟨rfl, hlt⟩]
    intro type hmem
    rcases (Option.orElse_eq_some _ _ _).1 hmem with hmem | ⟨-, hnew⟩
    · exact hold type hmem
    · cases hnew
      exact ⟨signature, rfl, hfits⟩
  · refine (hs.pending id' pending hfound).mono hgrows fun _ ↦ ?_
    rw [Store.get_modify, if_neg fun h ↦ hsame h.1.symm]

theorem marks_setUnderlying (id : SymbolId) {type : Ty} (htype : type.Named s.store) :
    MarksAt σ blocks blocks s (modifyStore (·.setUnderlying id type)) Anything := by
  have hsettles : Store.Settles fun symbol ↦
      { symbol with underlying := symbol.underlying <|> some type } :=
    .of fun _ ↦ rfl
  refine marks_modify hsettles (fun symbol h ↦ { h with underlying := ?_ })
    (pending_modify hsettles fun _ ↦ rfl)
  intro shape hshape
  rcases (Option.orElse_eq_some _ _ _).1 hshape with hold | ⟨-, hnew⟩
  · exact h.underlying shape hold
  · cases hnew
    exact htype

theorem marks_setValue (id : SymbolId) (value : Option Int) :
    MarksAt σ blocks blocks s (modifyStore (·.setValue id value)) Anything := by
  have hsettles : Store.Settles fun symbol : Symbol ↦
      if symbol.hasValue then symbol else { symbol with value, hasValue := true } :=
    .of fun symbol ↦ by split <;> rfl
  refine marks_modify hsettles (fun symbol h ↦ ?_) (pending_modify hsettles fun _ ↦ ?_)
  · split
    · exact h
    · exact { h with }
  · split <;> rfl

theorem marks_addMethod (id : SymbolId) {method : SymbolId}
    (hmethod : method.index < s.store.symbols.size) :
    MarksAt σ blocks blocks s (modifyStore (·.addMethod id method)) Anything := by
  have hsettles : Store.Settles fun symbol ↦
      { symbol with methods := symbol.methods ++ [method] } :=
    .of fun _ ↦ rfl
  refine marks_modify hsettles (fun symbol h ↦ { h with methods := ?_ })
    (pending_modify hsettles fun _ ↦ rfl)
  intro other hother
  rcases List.mem_append.1 hother with hold | hnew
  · exact h.methods other hold
  · rw [List.mem_singleton.1 hnew]
    exact hmethod

/-! ### New symbols -/

/-- A new symbol, which was not there before. -/
theorem marks_addSymbol {symbol : Symbol} (hnamed : symbol.Named s.store)
    (hdeclares : σ.Declares symbol) :
    MarksAt σ blocks blocks s (addSymbol symbol) fun id store ↦
      id.index = s.store.symbols.size ∧ id.index < store.symbols.size ∧
        store.get id = symbol := by
  have hgrows := Store.grows_push s.store symbol
  intro hs id later hrun
  cases hrun
  refine ⟨hs.ofStore hgrows (hs.store.push hnamed) (fun other hother ↦ ?_) ?_,
    .ofStore hgrows rfl, rfl, ?_, ?_⟩
  · rw [Store.get_push]
    split
    · exact hdeclares
    · exact hs.created other hother
  · intro other pending hfound
    have hpending := hs.pending other pending hfound
    refine hpending.mono hgrows fun _ ↦ ?_
    rw [Store.get_push, if_neg (Nat.ne_of_lt hpending.placed)]
  · rw [Store.size_push]
    exact Nat.lt_succ_self _
  · rw [Store.get_push]
    exact if_pos rfl

/-- A symbol with the name and the place of an identifier. -/
structure Symbol.From (symbol : Symbol) (input : CheckInput) (ident : Ident) : Prop where
  name : symbol.name = ident.name
  origin : symbol.origin = some ⟨input.space, ident.pos⟩

theorem Symbol.From.declares {symbol : Symbol} {ident : Ident} {role : Role}
    (h : symbol.From σ.input ident) (hplaced : σ.placed role (.ident ident)) :
    σ.Declares symbol := by
  intro origin hmem
  rw [h.origin] at hmem
  cases hmem
  exact ⟨rfl, .inl ⟨role, ident, hplaced, rfl, h.name⟩⟩

/-- A new symbol that an identifier declares. -/
theorem marks_addDeclared {symbol : Symbol} {ident : Ident} {role : Role}
    (hnamed : symbol.Named s.store) (hfrom : symbol.From σ.input ident)
    (hplaced : σ.placed role (.ident ident)) :
    MarksAt σ blocks blocks s (addSymbol symbol) fun id store ↦
      id.index = s.store.symbols.size ∧ store.DeclaredBy σ.input.space ident id ∧
        store.get id = symbol := by
  refine (marks_addSymbol hnamed (hfrom.declares hplaced)).weaken fun id later _ _ hid ↦ ?_
  obtain ⟨hfresh, hlt, hget⟩ := hid
  refine ⟨hfresh, ⟨⟨hlt, ?_⟩, ?_⟩, hget⟩
  · rw [hget, hfrom.name]
  · rw [hget, hfrom.origin]

/-- A new variable. -/
theorem marks_addVariable {ident : Ident} {type : Ty} {role : Role} (isLocal : Bool)
    (hplaced : σ.placed role (.ident ident)) (htype : type.Named s.store) :
    MarksAt σ blocks blocks s (addVariable ident type isLocal) fun id store ↦
      store.DeclaredAs σ.input.space .var ident id := by
  refine .look (sees_declared .var ident) fun _ ↦ ?_
  refine (marks_addDeclared ?_ ⟨rfl, rfl⟩ hplaced).weaken fun _ _ _ _ hid ↦
    ⟨hid.2.1, by rw [hid.2.2]⟩
  exact .ofType (fun other hother ↦ by cases hother; exact htype) rfl rfl rfl

/-- A member of the stand-in package has the name that it is asked for under. -/
theorem marks_foreignMember (name : String) :
    MarksAt σ blocks blocks s (foreignMember name) fun id store ↦ store.Calls id name := by
  refine .look sees_get fun hs ↦ ?_
  cases hfound : s.foreign.find? name with
  | some id => exact .pure (hs.foreign name id hfound)
  | none =>
    refine (marks_addSymbol ?_ fun _ h ↦ (by cases h)).bind fun id later _ hid ↦ ?_
    · exact .ofType (fun type h ↦ by cases h; exact .invalid) rfl rfl rfl
    have hcalls : later.store.Calls id name := ⟨hid.2.1, by rw [hid.2.2]⟩
    refine .bind (.modify (.ofStore (.refl _) rfl) fun hlater ↦ ?_) fun _ _ hgrows _ ↦
      .pure (hcalls.mono hgrows)
    exact { hlater with foreign := hlater.foreign.insert hcalls }

/-! ### Brackets -/

/-- What happens in a block stays in the block. -/
theorem MarksAt.inBlock (names : List String) {step : Check α}
    (h : MarksAt σ ([] :: blocks) (names :: blocks)
      { s with context.scopes := Dict.empty :: s.context.scopes } step result) :
    MarksAt σ blocks blocks s (inBlock step) result := by
  intro hs a later hrun
  obtain ⟨middle, hstep, rfl⟩ := exists_of_run_between hrun
  obtain ⟨hmiddle, hgrows, hresult⟩ :=
    h (hs.ofContext (.cons BlockScope.holds_empty hs.scopes)) a middle hstep
  refine ⟨hmiddle.ofContext ?_, ⟨hgrows.store, hgrows.pending⟩, hresult⟩
  obtain ⟨scope, outer, -, houter, hscopes⟩ := List.forall₂_cons_left_iff.1 hmiddle.scopes
  rw [hscopes]
  exact houter

theorem MarksAt.inFunction {step : Check α} (results : List Ty)
    (h : MarksAt σ blocks blocks' { s with context.results := results :: s.context.results } step
      result) :
    MarksAt σ blocks blocks' s (inFunction results step) result := by
  intro hs a later hrun
  obtain ⟨middle, hstep, rfl⟩ := exists_of_run_between hrun
  have hinside : CheckState.Sound σ blocks
      { s with context.results := results :: s.context.results } := hs.ofContext hs.scopes
  obtain ⟨hmiddle, hgrows, hresult⟩ := h hinside a middle hstep
  exact ⟨hmiddle.ofContext hmiddle.scopes, ⟨hgrows.store, hgrows.pending⟩, hresult⟩

/-- A step in another context, without blocks around, comes back to the blocks before. -/
theorem MarksAt.inContext {step : Check α} {context : Context} (hcontext : context.scopes = [])
    (h : MarksAt σ [] [] { s with context } step result) :
    MarksAt σ blocks blocks s (inContext context step) result := by
  intro hs a later hrun
  have hbetween : Check.between (fun s ↦ { s with context })
      (fun later ↦ { later with context := s.context }) step σ.input s = some (a, later) := hrun
  obtain ⟨middle, hstep, rfl⟩ := exists_of_run_between hbetween
  have hnone : List.Forall₂ (BlockScope.Holds s.store) [] context.scopes := hcontext ▸ .nil
  obtain ⟨hmiddle, hgrows, hresult⟩ := h (hs.ofContext hnone) a middle hstep
  refine ⟨hmiddle.ofContext ?_, ⟨hgrows.store, hgrows.pending⟩, hresult⟩
  exact hs.scopes.imp fun _ _ hscope ↦ hscope.mono hgrows.store

/-! ### Names of blocks -/

/-- Names that are there already, and the blank one, make no difference to a block. -/
theorem CheckState.Sound.congr (h : s.Sound σ (names :: blocks))
    (hsame : ∀ name, name ≠ "_" → (name ∈ names ↔ name ∈ names')) :
    s.Sound σ (names' :: blocks) := by
  obtain ⟨scope, outer, hscope, houter, hscopes⟩ := List.forall₂_cons_left_iff.1 h.scopes
  refine { h with scopes := ?_ }
  rw [hscopes]
  exact .cons (hscope.congr hsame) houter

theorem MarksAt.congr {step : Check α}
    (h : MarksAt σ blocks' (names :: blocks) s step result)
    (hsame : ∀ name, name ≠ "_" → (name ∈ names ↔ name ∈ names')) :
    MarksAt σ blocks' (names' :: blocks) s step result := by
  intro hs a later hrun
  obtain ⟨hlater, hgrows, hresult⟩ := h hs a later hrun
  exact ⟨hlater.congr hsame, hgrows, hresult⟩

theorem MarksAt.congrBefore {step : Check α}
    (h : MarksAt σ (names' :: blocks) blocks' s step result)
    (hsame : ∀ name, name ≠ "_" → (name ∈ names ↔ name ∈ names')) :
    MarksAt σ (names :: blocks) blocks' s step result :=
  fun hs a later hrun ↦ h (hs.congr hsame) a later hrun

/-- What the innermost block has is one of its names. -/
theorem CheckState.Sound.mem_of_innermost? (h : s.Sound σ (names :: blocks)) {name : String}
    (hname : name ≠ "_") :
    (s.context.scopes.head?.bind (·.find? name)).isSome = true ↔ name ∈ names := by
  obtain ⟨scope, outer, hscope, -, hscopes⟩ := List.forall₂_cons_left_iff.1 h.scopes
  rw [hscopes]
  exact hscope.contains name hname

theorem marks_bind {name : String} {id : SymbolId} (hid : s.store.Calls id name) :
    MarksAt σ (names :: blocks) ((name :: names) :: blocks) s (Check.bind name id) Anything := by
  refine .modify ?_ fun hs ↦ ?_
  · split <;> exact .ofStore (.refl _) rfl
  · obtain ⟨scope, outer, hscope, houter, hscopes⟩ := List.forall₂_cons_left_iff.1 hs.scopes
    rw [hscopes]
    exact hs.ofContext (.cons (hscope.insert hid) houter)

/-- A block has a name after it is declared there. -/
theorem marks_declareLocal {ident : Ident} {id : SymbolId}
    (hplaced : σ.placed .declares (.ident ident))
    (hid : s.store.DeclaredBy σ.input.space ident id) :
    MarksAt σ (names :: blocks) ((ident.name :: names) :: blocks) s (declareLocal ident id)
      Anything := by
  refine (marks_recordDef hplaced hid).bind fun _ s₁ h₁ _ ↦ .ite (fun hblank ↦ ?_) fun hblank ↦ ?_
  · refine MarksAt.congr (.pure trivial) fun name hname ↦ ?_
    have hne : name ≠ ident.name := by
      rintro rfl
      exact hname (beq_iff_eq.1 hblank)
    exact ⟨List.mem_cons_of_mem _, fun h ↦ (List.mem_cons.1 h).resolve_left hne⟩
  · have hname : ident.name ≠ "_" := fun h ↦ hblank (beq_iff_eq.2 h)
    refine .look (sees_lookupInnermost? _) fun hs ↦ .ite (fun hthere ↦ ?_) fun _ ↦ ?_
    · have hmem := (hs.mem_of_innermost? hname).1 hthere
      refine (marks_report _ rfl).congr fun other _ ↦ ⟨List.mem_cons_of_mem _, fun h ↦ ?_⟩
      rcases List.mem_cons.1 h with rfl | h
      · exact hmem
      · exact h
    · exact marks_bind (hid.calls.mono h₁)

end PackageAtlas
