import PackageAtlas.Proofs.Resolution.Frame

/-!
The steps that all rules are made of: looks at the state, reports and records, new symbols, and the
brackets that open a block, a function or another context and close it again.
-/

set_option autoImplicit false
set_option relaxedAutoImplicit false

namespace PackageAtlas

open Check

variable {α β : Type} {inv inv' : CheckState → Prop} {hangs : Prop} {reach : Reach}

/-! ### Looks -/

theorem sees_get : Sees (get : Check CheckState) fun _ s ↦ s := fun _ _ ↦ rfl

theorem sees_read : Sees (read : Check CheckInput) fun input _ ↦ input := fun _ _ ↦ rfl

theorem sees_store : Sees store fun _ s ↦ s.store := fun _ _ ↦ rfl

theorem sees_symbol (id : SymbolId) : Sees (symbol id) fun _ s ↦ s.store.get id := fun _ _ ↦ rfl

theorem sees_typeOf (id : SymbolId) : Sees (typeOf id) fun _ s ↦ s.store.typeOf id :=
  fun _ _ ↦ rfl

theorem sees_underlying (type : Ty) :
    Sees (Check.underlying type) fun _ s ↦ s.store.underlying type :=
  fun _ _ ↦ rfl

theorem sees_assignable (value target : Ty) :
    Sees (assignable value target) fun _ s ↦ s.store.assignable value target :=
  fun _ _ ↦ rfl

theorem sees_lookup? (name : String) : Sees (Check.lookup? name) fun _ s ↦ s.lookup? name :=
  fun _ _ ↦ rfl

theorem sees_lookupInnermost? (name : String) :
    Sees (lookupInnermost? name) fun _ s ↦ s.context.scopes.head?.bind (·.find? name) :=
  fun _ _ ↦ rfl

theorem sees_declared (kind : SymbolKind) (ident : Ident) :
    Sees (declared kind ident) fun input _ ↦
      { kind, name := ident.name, package := some input.path
        origin := some ⟨input.space, ident.pos⟩ } :=
  fun _ _ ↦ rfl

/-! ### Reports and records -/

/-- A change that touches neither the context nor what lasts. -/
theorem runs_record {f : CheckState → CheckState} (hlasts : ∀ s : CheckState, s.Lasts (f s))
    (hcontext : ∀ s, (f s).context = s.context) :
    Runs inv hangs reach (modify f : Check Unit) := by
  refine Runs.modify fun s ↦ ⟨hlasts s, ?_⟩
  rw [hcontext]
  exact reach.allows_refl _

theorem runs_report (pos : Nat) (problem : Problem) :
    Runs inv hangs reach (report pos problem) := by
  refine runs_record (fun s ↦ ⟨Store.Lasts.refl _, rfl, rfl, rfl, ?_, TypeInfo.Grows.refl _⟩)
    fun _ ↦ rfl
  exact List.suffix_cons _ _

theorem runs_recordType (id : NodeId) (type : Ty) : Runs inv hangs reach (recordType id type) :=
  runs_record (fun s ↦ .ofInfo (.type s.info id type)) fun _ ↦ rfl

theorem runs_recordDef (ident : Ident) (id : SymbolId) :
    Runs inv hangs reach (recordDef ident id) :=
  runs_record (fun s ↦ .ofInfo (.define s.info ident id)) fun _ ↦ rfl

theorem runs_recordUse (ident : Ident) (id : SymbolId) :
    Runs inv hangs reach (recordUse ident id) :=
  runs_record (fun s ↦ .ofInfo (.use s.info ident id)) fun _ ↦ rfl

theorem runs_recordImplicit (node : NodeId) (id : SymbolId) :
    Runs inv hangs reach (recordImplicit node id) :=
  runs_record (fun _ ↦ .ofInfo ⟨List.suffix_refl _, fun _ h ↦ h, fun _ h ↦ h⟩) fun _ ↦ rfl

theorem runs_markUsed [Stable inv reach] (id : SymbolId) :
    Runs inv hangs reach (markUsed id) := by
  refine .looking (sees_symbol id) fun found ↦ ?_
  refine .ite (fun _ ↦ ?_) fun _ ↦ .pure ()
  refine runs_record (fun s ↦ ?_) fun s ↦ ?_
  · split
    · exact CheckState.Lasts.refl s
    · exact ⟨Store.Lasts.refl _, rfl, rfl, rfl, List.suffix_refl _, TypeInfo.Grows.refl _⟩
  · split <;> rfl

/-! ### Symbols -/

theorem runs_modifyStore {change : Store → Store}
    (h : ∀ store : Store, store.Lasts (change store)) :
    Runs inv hangs reach (modifyStore change) :=
  runs_record (fun s ↦ CheckState.Lasts.ofStore (h s.store)) fun _ ↦ rfl

theorem runs_setType (id : SymbolId) (type : Ty) : Runs inv hangs reach (setType id type) :=
  runs_modifyStore fun store ↦ Store.Lasts.modify store id fun symbol ↦
    ⟨rfl, fun known hknown ↦ by rw [hknown]; rfl, fun _ h ↦ h⟩

theorem runs_setUnderlying (id : SymbolId) (type : Ty) :
    Runs inv hangs reach (modifyStore (·.setUnderlying id type)) :=
  runs_modifyStore fun store ↦ Store.Lasts.modify store id fun symbol ↦
    ⟨rfl, fun _ h ↦ h, fun shape hshape ↦ by rw [hshape]; rfl⟩

theorem runs_setValue (id : SymbolId) (value : Option Int) :
    Runs inv hangs reach (modifyStore (·.setValue id value)) := by
  refine runs_modifyStore fun store ↦ Store.Lasts.modify store id fun symbol ↦ ?_
  split
  · exact Symbol.Lasts.refl symbol
  · exact ⟨rfl, fun _ h ↦ h, fun _ h ↦ h⟩

variable [Stable inv reach]

theorem runs_addSymbol (symbol : Symbol) : Runs inv hangs reach (addSymbol symbol) :=
  .looking sees_store fun _ ↦
    .bind (runs_modifyStore fun store ↦ Store.Lasts.push store symbol) fun _ ↦ .pure _

theorem runs_addVariable (ident : Ident) (type : Ty) (isLocal : Bool) :
    Runs inv hangs reach (addVariable ident type isLocal) :=
  .looking (sees_declared .var ident) fun _ ↦ runs_addSymbol _

theorem runs_foreignMember (name : String) : Runs inv hangs reach (foreignMember name) := by
  refine .looking sees_get fun s ↦ ?_
  split
  · exact .pure _
  · refine .bind (runs_addSymbol _) fun id ↦ .bind (runs_record ?_ fun _ ↦ rfl) fun _ ↦ .pure id
    exact fun _ ↦ ⟨Store.Lasts.refl _, rfl, rfl, rfl, List.suffix_refl _, TypeInfo.Grows.refl _⟩

/-! ### Brackets -/

/-- A step between two changes of the state. -/
def Check.between (enter leave : CheckState → CheckState) (step : Check α) : Check α := do
  modify enter
  let result ← step
  modify leave
  return result

/-- What a step between two changes results in, it does by itself, from the changed state. -/
theorem exists_of_run_between {enter leave : CheckState → CheckState} {step : Check α}
    {input : CheckInput} {s later : CheckState} {a : α}
    (h : Check.between enter leave step input s = some (a, later)) :
    ∃ middle, step input (enter s) = some (a, middle) ∧ later = leave middle := by
  have hrun : Check.between enter leave step input s =
      (step input (enter s)).bind fun result ↦ some (result.1, leave result.2) := rfl
  rw [hrun] at h
  obtain ⟨⟨b, middle⟩, hstep, hpair⟩ := Option.bind_eq_some_iff.mp h
  cases hpair
  exact ⟨middle, hstep, rfl⟩

omit [Stable inv reach] in
theorem RunsAt.between {reach' : Reach} {input : CheckInput} {s : CheckState} {step : Check α}
    (enter leave : CheckState → CheckState) (h : RunsAt hangs reach' input (enter s) step)
    (hleave : ∀ later, (enter s).Frame reach' later → s.Frame reach (leave later)) :
    RunsAt hangs reach input s (Check.between enter leave step) := by
  refine ⟨fun hnone ↦ h.ends ?_, fun a later hlater ↦ ?_⟩
  · cases hstep : step input (enter s) with
    | none => rfl
    | some result =>
      have hrun : Check.between enter leave step input s =
          (step input (enter s)).bind fun result ↦ some (result.1, leave result.2) := rfl
      rw [hrun, hstep] at hnone
      cases hnone
  · obtain ⟨middle, hstep, rfl⟩ := exists_of_run_between hlater
    exact hleave middle (h.frame a middle hstep)

/-- What another context leads to, back in a context that may be led to. -/
theorem CheckState.Frame.inContext {reach' : Reach} {s later : CheckState} {enter leave : Context}
    (h : CheckState.Frame reach' { s with context := enter } later)
    (hleave : reach.Allows s.context leave) : s.Frame reach { later with context := leave } :=
  ⟨((CheckState.Lasts.ofContext s enter).trans h.lasts).trans (.ofContext later leave), hleave⟩

variable [Lasting inv] {step : Check α}

omit [Stable inv reach] in
/-- What happens in a block stays in the block. -/
theorem Runs.inBlock (h : Runs inv hangs .block step) : Runs inv hangs reach (inBlock step) := by
  refine Runs.ofNothing fun input s hs ↦ ?_
  let enter : CheckState → CheckState := fun s ↦
    { s with context.scopes := Dict.empty :: s.context.scopes }
  refine RunsAt.between enter _
    (h input (enter s) (Lasting.keeps hs (.ofContext s _))) fun later hlater ↦ ?_
  refine hlater.inContext (?_ : _ = _)
  obtain ⟨hfile, hiota, hresults, houter⟩ := hlater.context
  exact congr (congr (congr (congrArg Context.mk hfile) houter) hiota) hresults

omit [Stable inv reach] in
theorem Runs.namesInBlock (h : Runs inv hangs .names step) :
    Runs inv hangs reach (Check.inBlock step) :=
  .inBlock h.toBlock

omit [Stable inv reach] in
theorem Runs.inFunction {results : List Ty} (h : Runs inv hangs .names step) :
    Runs inv hangs .names (inFunction results step) := by
  intro input s hs
  let enter : CheckState → CheckState := fun s ↦
    { s with context.results := results :: s.context.results }
  refine RunsAt.between enter _
    (h input (enter s) (Lasting.keeps hs (.ofContext s _))) fun later hlater ↦ ?_
  refine hlater.inContext ?_
  obtain ⟨⟨hfile, hiota, hresults, houter⟩, hhead, hkept⟩ := hlater.context
  exact ⟨⟨hfile, hiota, congrArg List.tail hresults, houter⟩, hhead, hkept⟩

omit [Stable inv reach] [Lasting inv] in
/-- A step in another context comes back to the context before. -/
theorem Runs.inContext {reach' : Reach} {context : Context} (h : Runs inv' hangs reach' step)
    (himp : ∀ s, inv s → inv' { s with context }) :
    Runs inv hangs reach (inContext context step) := by
  refine Runs.ofNothing (Runs.look sees_get fun input s hs ↦ ?_)
  exact RunsAt.between (fun s ↦ { s with context })
    (fun later ↦ { later with context := s.context })
    (h input _ (himp s hs)) fun later hlater ↦ hlater.inContext rfl

/-! ### Names of blocks -/

omit [Stable inv reach] [Lasting inv] in
theorem runs_bind (name : String) (id : SymbolId) :
    Runs inv hangs .block (Check.bind name id) := by
  refine Runs.modify fun s ↦ ?_
  split
  · exact CheckState.Frame.refl _ s
  · rename_i scope outer hscopes
    refine ⟨.ofContext s _, rfl, rfl, rfl, ?_⟩
    rw [hscopes]
    rfl

omit [Stable inv reach] [Lasting inv] in
/-- A name that the innermost block does not have yet is a new name of it. -/
theorem RunsAt.bindFresh {input : CheckInput} {s : CheckState} {name : String} {id : SymbolId}
    (hfresh : ∀ scope ∈ s.context.scopes.head?, scope.find? name = none) :
    RunsAt hangs .names input s (Check.bind name id) := by
  refine ⟨fun h ↦ (by cases h), fun a later hlater ↦ ?_⟩
  cases hlater
  dsimp only
  split
  · exact CheckState.Frame.refl _ s
  · rename_i scope outer hscopes
    refine ⟨.ofContext s _, ⟨rfl, rfl, rfl, by rw [hscopes]; rfl⟩, by rw [hscopes]; rfl, ?_⟩
    rw [hscopes] at hfresh ⊢
    rintro _ ⟨⟩ _ ⟨⟩ other symbol hfind
    refine (Dict.find?_insert_of_ne scope id ?_).trans hfind
    rintro rfl
    rw [hfresh scope rfl] at hfind
    cases hfind

omit [Stable inv reach] in
theorem runs_declareLocal (ident : Ident) (id : SymbolId) :
    Runs inv hangs .names (declareLocal ident id) := by
  refine .bind (runs_recordDef ident id) fun _ ↦ ?_
  refine .ite (fun _ ↦ .pure ()) fun _ ↦ ?_
  refine .look (sees_lookupInnermost? ident.name) fun input s hs ↦ ?_
  split
  · exact runs_report ident.pos _ input s hs
  · rename_i hnone
    refine RunsAt.bindFresh fun scope hscope ↦ ?_
    rwa [Option.mem_def.mp hscope, Option.bind_some, Bool.not_eq_true,
      Option.isSome_eq_false_iff, Option.isNone_iff_eq_none] at hnone

end PackageAtlas
