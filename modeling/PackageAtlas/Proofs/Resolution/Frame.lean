import PackageAtlas.Check.Package

/-!
How far the steps of a check reach. Below the level of package declarations a step only adds to the
symbols, the reports and the records: what was collected stays, and so does what is being resolved
(`CheckState.Lasts`). The context comes back as it was, but for names in the innermost block
(`Reach`). The judgement `Runs` says that a step keeps to its reach and that it ends, unless it may
go on without end; it is closed under sequences and loops, so that there is one lemma for each rule.
-/

set_option autoImplicit false
set_option relaxedAutoImplicit false

namespace PackageAtlas

/-! ### What lasts -/

/-- A symbol of which more is settled than before. -/
structure Symbol.Lasts (symbol later : Symbol) : Prop where
  same : later = { symbol with
    type := later.type, underlying := later.underlying
    value := later.value, hasValue := later.hasValue }
  type : ∀ type, symbol.type = some type → later.type = some type
  underlying : ∀ shape, symbol.underlying = some shape → later.underlying = some shape

/-- A store with more symbols than before, in which the old ones last. -/
structure Store.Lasts (store later : Store) : Prop where
  size_le : store.symbols.size ≤ later.symbols.size
  get : ∀ id, id.index < store.symbols.size → (store.get id).Lasts (later.get id)

/-- What is collected from the files of a package before anything is resolved. -/
structure Collected where
  members : Dict String SymbolId
  files : List FileScope
  objects : List SymbolId
  pending : Dict SymbolId Pending
  groups : List ValueGroup
  funcs : List (FuncDecl × SymbolId × Nat)

def CheckState.collected (s : CheckState) : Collected :=
  ⟨s.members, s.files, s.objects, s.pending, s.groups, s.funcs⟩

/-- More is known of the nodes than before. -/
structure TypeInfo.Grows (info later : TypeInfo) : Prop where
  types : info.types <:+ later.types
  defs : ∀ id, info.defs.contains id → later.defs.contains id
  uses : ∀ id, info.uses.contains id → later.uses.contains id

/-- What no step below the level of package declarations changes. -/
structure CheckState.Lasts (s later : CheckState) : Prop where
  store : s.store.Lasts later.store
  collected : later.collected = s.collected
  resolving : later.resolving = s.resolving
  resolvingGroups : later.resolvingGroups = s.resolvingGroups
  reports : s.reports <:+ later.reports
  info : s.info.Grows later.info

namespace Symbol.Lasts

theorem refl (symbol : Symbol) : symbol.Lasts symbol := ⟨rfl, fun _ ↦ id, fun _ ↦ id⟩

theorem trans {first second third : Symbol} (h : first.Lasts second) (h' : second.Lasts third) :
    first.Lasts third where
  same := by rw [h'.same, h.same]
  type type htype := h'.type type (h.type type htype)
  underlying shape hshape := h'.underlying shape (h.underlying shape hshape)

theorem kind {symbol later : Symbol} (h : symbol.Lasts later) : later.kind = symbol.kind := by
  rw [h.same]

theorem name {symbol later : Symbol} (h : symbol.Lasts later) : later.name = symbol.name := by
  rw [h.same]

end Symbol.Lasts

namespace Store.Lasts

variable {store later : Store}

theorem refl (store : Store) : store.Lasts store :=
  ⟨Nat.le_refl _, fun _ _ ↦ Symbol.Lasts.refl _⟩

theorem trans {first second third : Store} (h : first.Lasts second) (h' : second.Lasts third) :
    first.Lasts third :=
  ⟨Nat.le_trans h.size_le h'.size_le, fun id hid ↦
    (h.get id hid).trans (h'.get id (Nat.lt_of_lt_of_le hid h.size_le))⟩

theorem push (store : Store) (symbol : Symbol) : store.Lasts (store.push symbol) where
  size_le := by simp [Store.push]
  get id hid := by
    have hget : (store.push symbol).get id = store.get id := by
      simp [Store.get, Store.push, Array.getElem?_push, Nat.ne_of_lt hid]
    rw [hget]
    exact Symbol.Lasts.refl _

theorem modify (store : Store) (id : SymbolId) {change : Symbol → Symbol}
    (h : ∀ symbol : Symbol, symbol.Lasts (change symbol)) :
    store.Lasts (store.modify id change) where
  size_le := by simp [Store.modify]
  get other hother := by
    simp only [Store.get, Store.modify, Array.getElem?_modify, Array.getElem?_eq_getElem hother]
    split
    · exact h _
    · exact Symbol.Lasts.refl _

/-- A structure that is known stays known. -/
theorem underlying (h : store.Lasts later) {id : SymbolId} {shape : Ty}
    (hshape : (store.get id).underlying = some shape) :
    (later.get id).underlying = some shape := by
  refine (h.get id (Nat.lt_of_not_le fun hout ↦ ?_)).underlying shape hshape
  unfold Store.get at hshape
  rw [Array.getElem?_eq_none hout] at hshape
  cases hshape

end Store.Lasts

namespace TypeInfo.Grows

theorem refl (info : TypeInfo) : info.Grows info :=
  ⟨List.suffix_refl _, fun _ ↦ id, fun _ ↦ id⟩

theorem trans {first second third : TypeInfo} (h : first.Grows second) (h' : second.Grows third) :
    first.Grows third :=
  ⟨h.types.trans h'.types, fun id hid ↦ h'.defs id (h.defs id hid),
    fun id hid ↦ h'.uses id (h.uses id hid)⟩

theorem type (info : TypeInfo) (id : NodeId) (type : Ty) :
    info.Grows { info with types := (id, type) :: info.types } :=
  ⟨List.suffix_cons _ _, fun _ h ↦ h, fun _ h ↦ h⟩

theorem define (info : TypeInfo) (ident : Ident) (symbol : SymbolId) :
    info.Grows { info with defs := info.defs.insert ident.info.id ⟨ident, symbol⟩ } :=
  ⟨List.suffix_refl _, fun id h ↦ (Dict.contains_insert _ _ id _).mpr (.inr h), fun _ h ↦ h⟩

theorem use (info : TypeInfo) (ident : Ident) (symbol : SymbolId) :
    info.Grows { info with uses := info.uses.insert ident.info.id ⟨ident, symbol⟩ } :=
  ⟨List.suffix_refl _, fun _ h ↦ h, fun id h ↦ (Dict.contains_insert _ _ id _).mpr (.inr h)⟩

end TypeInfo.Grows

namespace CheckState.Lasts

variable {s middle later : CheckState}

theorem refl (s : CheckState) : s.Lasts s :=
  ⟨Store.Lasts.refl _, rfl, rfl, rfl, List.suffix_refl _, TypeInfo.Grows.refl _⟩

theorem trans (h : s.Lasts middle) (h' : middle.Lasts later) : s.Lasts later where
  store := h.store.trans h'.store
  collected := h'.collected.trans h.collected
  resolving := h'.resolving.trans h.resolving
  resolvingGroups := h'.resolvingGroups.trans h.resolvingGroups
  reports := h.reports.trans h'.reports
  info := h.info.trans h'.info

/-- A change of the store alone. -/
theorem ofStore {store : Store} (h : s.store.Lasts store) : s.Lasts { s with store } :=
  ⟨h, rfl, rfl, rfl, List.suffix_refl _, TypeInfo.Grows.refl _⟩

/-- A change of what is known of the nodes alone. -/
theorem ofInfo {info : TypeInfo} (h : s.info.Grows info) : s.Lasts { s with info } :=
  ⟨Store.Lasts.refl _, rfl, rfl, rfl, List.suffix_refl _, h⟩

/-- A change of the context alone. -/
theorem ofContext (s : CheckState) (context : Context) : s.Lasts { s with context } :=
  ⟨Store.Lasts.refl _, rfl, rfl, rfl, List.suffix_refl _, TypeInfo.Grows.refl _⟩

end CheckState.Lasts

/-! ### Reach -/

/-- How far a step reaches into the context: not at all, to new names of the innermost block, or to
all of the innermost block. -/
inductive Reach where
  | nothing
  | names
  | block

/-- The contexts differ in the innermost block at most. -/
structure Context.SameAround (context later : Context) : Prop where
  file : later.file = context.file
  iota : later.iota = context.iota
  results : later.results = context.results
  outer : later.scopes.tail = context.scopes.tail

/-- The contexts differ by new names of the innermost block at most. -/
structure Context.Grows (context later : Context) : Prop extends context.SameAround later where
  head : later.scopes.head?.isSome = context.scopes.head?.isSome
  kept : ∀ scope ∈ context.scopes.head?, ∀ scope' ∈ later.scopes.head?, ∀ name symbol,
    scope.find? name = some symbol → scope'.find? name = some symbol

/-- Whether a step of some reach may lead from one context to another. -/
def Reach.Allows : Reach → Context → Context → Prop
  | nothing, context, later => later = context
  | names, context, later => context.Grows later
  | block, context, later => context.SameAround later

namespace Context

variable {context middle later : Context}

theorem SameAround.refl (context : Context) : context.SameAround context := ⟨rfl, rfl, rfl, rfl⟩

theorem SameAround.trans (h : context.SameAround middle) (h' : middle.SameAround later) :
    context.SameAround later :=
  ⟨h'.file.trans h.file, h'.iota.trans h.iota, h'.results.trans h.results, h'.outer.trans h.outer⟩

theorem Grows.refl (context : Context) : context.Grows context where
  toSameAround := SameAround.refl context
  head := rfl
  kept scope hscope scope' hscope' name symbol hfind := by
    rw [Option.mem_def] at hscope hscope'
    rw [hscope] at hscope'
    cases hscope'
    exact hfind

theorem Grows.trans (h : context.Grows middle) (h' : middle.Grows later) : context.Grows later where
  toSameAround := h.toSameAround.trans h'.toSameAround
  head := h'.head.trans h.head
  kept scope hscope scope' hscope' name symbol hfind := by
    cases hmiddle : middle.scopes.head? with
    | none =>
      have := h'.head
      rw [hmiddle, Option.mem_def.mp hscope'] at this
      cases this
    | some between =>
      exact h'.kept between hmiddle scope' hscope' name symbol
        (h.kept scope hscope between hmiddle name symbol hfind)

end Context

namespace Reach

theorem allows_refl (reach : Reach) (context : Context) : reach.Allows context context := by
  cases reach with
  | nothing => exact rfl
  | names => exact Context.Grows.refl context
  | block => exact Context.SameAround.refl context

theorem Allows.trans {reach : Reach} {context middle later : Context}
    (h : reach.Allows context middle) (h' : reach.Allows middle later) :
    reach.Allows context later := by
  cases reach with
  | nothing => exact Eq.trans h' h
  | names => exact Context.Grows.trans h h'
  | block => exact Context.SameAround.trans h h'

/-- Names that were added are a change of the innermost block. -/
theorem Allows.sameAround {reach : Reach} {context later : Context}
    (h : reach.Allows context later) : context.SameAround later := by
  cases reach with
  | nothing => exact h ▸ Context.SameAround.refl context
  | names => exact h.toSameAround
  | block => exact h

end Reach

/-- What a step of some reach may lead to. -/
structure CheckState.Frame (reach : Reach) (s later : CheckState) : Prop where
  lasts : s.Lasts later
  context : reach.Allows s.context later.context

namespace CheckState.Frame

variable {reach : Reach} {s middle later : CheckState}

theorem refl (reach : Reach) (s : CheckState) : s.Frame reach s :=
  ⟨Lasts.refl s, reach.allows_refl _⟩

theorem trans (h : s.Frame reach middle) (h' : middle.Frame reach later) : s.Frame reach later :=
  ⟨h.lasts.trans h'.lasts, h.context.trans h'.context⟩

theorem ofNothing (h : s.Frame .nothing later) : s.Frame reach later := by
  refine ⟨h.lasts, ?_⟩
  rw [show later.context = s.context from h.context]
  exact reach.allows_refl _

theorem toBlock (h : s.Frame reach later) : s.Frame .block later :=
  ⟨h.lasts, h.context.sameAround⟩

end CheckState.Frame

/-! ### Judgements -/

/-- A step from a state keeps to its reach, and it has a result unless it may hang. -/
structure RunsAt {α : Type} (hangs : Prop) (reach : Reach) (input : CheckInput) (s : CheckState)
    (step : Check α) : Prop where
  ends : step input s = none → hangs
  frame : ∀ a later, step input s = some (a, later) → s.Frame reach later

/-- A step keeps to its reach and ends, unless it may hang, from every state with a property. -/
def Runs {α : Type} (inv : CheckState → Prop) (hangs : Prop) (reach : Reach) (step : Check α) :
    Prop :=
  ∀ input s, inv s → RunsAt hangs reach input s step

/-- A property of states that steps of some reach keep. -/
class Stable (inv : CheckState → Prop) (reach : Reach) : Prop where
  keeps : ∀ {s later}, inv s → s.Frame reach later → inv later

/-- A property of states that does not depend on the context. -/
class Lasting (inv : CheckState → Prop) : Prop where
  keeps : ∀ {s later}, inv s → s.Lasts later → inv later

instance {inv : CheckState → Prop} [Lasting inv] (reach : Reach) : Stable inv reach :=
  ⟨fun h hframe ↦ Lasting.keeps h hframe.lasts⟩

instance : Lasting fun _ ↦ True := ⟨fun _ _ ↦ trivial⟩

/-- A step that only looks at the state. -/
def Sees {α : Type} (step : Check α) (f : CheckInput → CheckState → α) : Prop :=
  ∀ input s, step input s = some (f input s, s)

section Judgements

variable {α β : Type} {inv inv' : CheckState → Prop} {hangs : Prop} {reach : Reach}
  {input : CheckInput} {s : CheckState} {step : Check α} {next : α → Check β}

theorem run_bind_of_none (h : step input s = none) : (step >>= next) input s = none := by
  change (step input s).bind (fun result ↦ next result.1 input result.2) = none
  rw [h]
  rfl

theorem run_bind_of_some {a : α} {later : CheckState} (h : step input s = some (a, later)) :
    (step >>= next) input s = next a input later := by
  change (step input s).bind (fun result ↦ next result.1 input result.2) = _
  rw [h]
  rfl

/-- What a sequence results in, its second step does, from where the first one ends. -/
theorem exists_of_run_bind {s later : CheckState} {b : β}
    (h : (step >>= next) input s = some (b, later)) :
    ∃ a middle, step input s = some (a, middle) ∧ next a input middle = some (b, later) := by
  cases hstep : step input s with
  | none => rw [run_bind_of_none hstep] at h; cases h
  | some result => exact ⟨result.1, result.2, rfl, (run_bind_of_some hstep).symm.trans h⟩

theorem RunsAt.bind (h : RunsAt hangs reach input s step)
    (hnext : ∀ a later, s.Frame reach later → RunsAt hangs reach input later (next a)) :
    RunsAt hangs reach input s (step >>= next) := by
  cases hstep : step input s with
  | none =>
    refine ⟨fun _ ↦ h.ends hstep, fun a later hlater ↦ ?_⟩
    rw [run_bind_of_none hstep] at hlater
    cases hlater
  | some result =>
    obtain ⟨a, middle⟩ := result
    have hmiddle := h.frame a middle hstep
    have hrest := hnext a middle hmiddle
    have hrun : (step >>= next) input s = next a input middle := run_bind_of_some hstep
    refine ⟨fun hnone ↦ hrest.ends (hrun.symm.trans hnone), fun b later hlater ↦ ?_⟩
    exact hmiddle.trans (hrest.frame b later (hrun.symm.trans hlater))

theorem RunsAt.look {f : CheckInput → CheckState → α} (hlook : Sees step f)
    (hnext : RunsAt hangs reach input s (next (f input s))) :
    RunsAt hangs reach input s (step >>= next) := by
  have hrun : (step >>= next) input s = next (f input s) input s := run_bind_of_some (hlook input s)
  exact ⟨fun hnone ↦ hnext.ends (hrun.symm.trans hnone), fun b later hlater ↦
    hnext.frame b later (hrun.symm.trans hlater)⟩

theorem RunsAt.pure (a : α) : RunsAt hangs reach input s (Pure.pure a) where
  ends h := by cases h
  frame b later h := by
    cases h
    exact CheckState.Frame.refl reach s

theorem RunsAt.ofLook {f : CheckInput → CheckState → α} (hlook : Sees step f) :
    RunsAt hangs reach input s step where
  ends h := by rw [hlook] at h; cases h
  frame b later h := by
    rw [hlook] at h
    cases h
    exact CheckState.Frame.refl reach s

theorem RunsAt.ite {p : Prop} [Decidable p] {step' : Check α}
    (h : p → RunsAt hangs reach input s step) (h' : ¬p → RunsAt hangs reach input s step') :
    RunsAt hangs reach input s (if p then step else step') := by
  split
  · exact h ‹p›
  · exact h' ‹¬p›

theorem RunsAt.ofNothing (h : RunsAt hangs .nothing input s step) :
    RunsAt hangs reach input s step :=
  ⟨h.ends, fun a later hlater ↦ (h.frame a later hlater).ofNothing⟩

namespace Runs

theorem bind [Stable inv reach] (h : Runs inv hangs reach step)
    (hnext : ∀ a, Runs inv hangs reach (next a)) : Runs inv hangs reach (step >>= next) :=
  fun input s hs ↦ (h input s hs).bind fun a later hlater ↦
    hnext a input later (Stable.keeps hs hlater)

theorem ofLook {f : CheckInput → CheckState → α} (hlook : Sees step f) :
    Runs inv hangs reach step :=
  fun _ _ _ ↦ RunsAt.ofLook hlook

/-- Going on after a look, with what was seen. -/
theorem look {f : CheckInput → CheckState → α} (hlook : Sees step f)
    (hnext : ∀ input s, inv s → RunsAt hangs reach input s (next (f input s))) :
    Runs inv hangs reach (step >>= next) :=
  fun input s hs ↦ .look hlook (hnext input s hs)

/-- Going on after a look, whatever was seen. -/
theorem looking {f : CheckInput → CheckState → α} (hlook : Sees step f)
    (hnext : ∀ a, Runs inv hangs reach (next a)) : Runs inv hangs reach (step >>= next) :=
  look hlook fun input s hs ↦ hnext _ input s hs

theorem pure (a : α) : Runs inv hangs reach (Pure.pure a) := fun _ _ _ ↦ RunsAt.pure a

theorem ofNothing (h : Runs inv hangs .nothing step) : Runs inv hangs reach step :=
  fun input s hs ↦ (h input s hs).ofNothing

theorem toBlock (h : Runs inv hangs reach step) : Runs inv hangs .block step :=
  fun input s hs ↦ ⟨(h input s hs).ends, fun a later hlater ↦
    ((h input s hs).frame a later hlater).toBlock⟩

/-- A step that runs from more states. -/
theorem mono (h : Runs inv' hangs reach step) (himp : ∀ s, inv s → inv' s) :
    Runs inv hangs reach step :=
  fun input s hs ↦ h input s (himp s hs)

theorem map [Stable inv reach] (h : Runs inv hangs reach step) (f : α → β) :
    Runs inv hangs reach (f <$> step) := by
  rw [map_eq_pure_bind]
  exact h.bind fun a ↦ pure (f a)

theorem ite {p : Prop} [Decidable p] {step' : Check α} (h : p → Runs inv hangs reach step)
    (h' : ¬p → Runs inv hangs reach step') : Runs inv hangs reach (if p then step else step') :=
  fun input s hs ↦ .ite (fun hp ↦ h hp input s hs) fun hp ↦ h' hp input s hs

theorem modify {f : CheckState → CheckState} (h : ∀ s : CheckState, s.Frame reach (f s)) :
    Runs inv hangs reach (modify f : Check Unit) := by
  refine fun input s _ ↦ ⟨fun hnone ↦ (by cases hnone), fun result later hlater ↦ ?_⟩
  cases hlater
  exact h s

/-! ### Loops -/

variable [Stable inv reach] {γ : Type}

theorem mapM {step : γ → Check α} {list : List γ} (h : ∀ a ∈ list, Runs inv hangs reach (step a)) :
    Runs inv hangs reach (list.mapM step) := by
  induction list with
  | nil => exact pure []
  | cons a rest ih =>
    rw [List.mapM_cons]
    refine (h a List.mem_cons_self).bind fun b ↦ ?_
    exact (ih fun other hother ↦ h other (List.mem_cons_of_mem a hother)).bind fun bs ↦
      pure (b :: bs)

theorem forM {step : γ → Check Unit} {list : List γ}
    (h : ∀ a ∈ list, Runs inv hangs reach (step a)) : Runs inv hangs reach (list.forM step) := by
  induction list with
  | nil => exact pure ()
  | cons a rest ih =>
    exact (h a List.mem_cons_self).bind fun _ ↦
      ih fun other hother ↦ h other (List.mem_cons_of_mem a hother)

theorem foldlM {step : β → γ → Check β} {list : List γ} (start : β)
    (h : ∀ b, ∀ a ∈ list, Runs inv hangs reach (step b a)) :
    Runs inv hangs reach (list.foldlM step start) := by
  induction list generalizing start with
  | nil => exact pure start
  | cons a rest ih =>
    exact (h start a List.mem_cons_self).bind fun b ↦
      ih b fun b' other hother ↦ h b' other (List.mem_cons_of_mem a hother)

theorem mapOption {step : γ → Check α} {option : Option γ}
    (h : ∀ a ∈ option, Runs inv hangs reach (step a)) :
    Runs inv hangs reach (option.mapM step) := by
  cases option with
  | none => exact pure none
  | some a => exact (h a rfl).bind fun b ↦ pure (some b)

omit [Stable inv reach] in
theorem forOption {step : γ → Check Unit} {option : Option γ}
    (h : ∀ a ∈ option, Runs inv hangs reach (step a)) :
    Runs inv hangs reach (option.forM step) := by
  cases option with
  | none => exact pure ()
  | some a => exact h a rfl

end Runs

end Judgements

end PackageAtlas
