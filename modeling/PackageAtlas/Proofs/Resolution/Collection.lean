import PackageAtlas.Proofs.Resolution.Signatures

/-!
What collecting the declarations of a package leads to. Collecting always ends; what is pending then
comes from the files and stands for a symbol of the package (`CheckState.Gathered`), and there is no
more of it than there are nodes.
-/

set_option autoImplicit false
set_option relaxedAutoImplicit false

namespace PackageAtlas

open Check CheckRule

namespace Dict

variable {κ α : Type} [DecidableEq κ]

theorem find?_insert (dict : Dict κ α) (key other : κ) (value : α) :
    (dict.insert key value).find? other = if other = key then some value else dict.find? other := by
  split
  · rename_i h
    rw [h, find?_insert_self]
  · rename_i h
    exact find?_insert_of_ne dict value h

theorem length_insert_le (dict : Dict κ α) (key : κ) (value : α) :
    (dict.insert key value).entries.length ≤ dict.entries.length + 1 := by
  obtain ⟨entries⟩ := dict
  simp only [insert]
  induction entries with
  | nil => simp [put]
  | cons entry rest ih =>
    simp only [put]
    split
    · simp
    · simpa using ih

end Dict

/-! ### What is collected -/

/-- What a check is held to: the place of the first symbol of its package, how many nodes its files
have, and the names that its functions bear. -/
structure Limits where
  first : Nat
  nodes : Nat
  functions : List String

namespace Limits

variable (limits : Limits)

def AdmitsInit (init : Initializers) : Prop :=
  (∀ e ∈ init.1, (Node.ofExpr e).count ≤ limits.nodes) ∧
    ∀ e ∈ init.2, (Node.ofExpr e).count ≤ limits.nodes

def AdmitsFunc (decl : FuncDecl) : Prop :=
  (Node.funcDecl decl).count ≤ limits.nodes ∧ (Node.funcType decl.type).IsPlain limits.functions

def AdmitsPending : Pending → Prop
  | .type spec _ => (Node.ofExpr spec.type).count ≤ limits.nodes
  | .value _ => True
  | .func decl _ => limits.AdmitsFunc decl

def AdmitsDecl : Decl → Prop
  | .gen decl => (Node.genDecl decl).count ≤ limits.nodes
  | .func decl => limits.AdmitsFunc decl ∧
      (decl.receiver = none → decl.name.name ∈ limits.functions)

/-- A package that was checked before has its members before those of this one. -/
def AdmitsScope (scope : PackageScope) : Prop :=
  ∀ name id, scope.find? name = some id → id.index < limits.first

def AdmitsInput (input : CheckInput) : Prop :=
  ∀ path scope, input.importer path = .ok scope → limits.AdmitsScope scope

end Limits

/-- How much there is to resolve. -/
def CheckState.jobs (s : CheckState) : Nat := s.pending.entries.length + s.groups.length

/-- What was collected keeps to the limits. -/
structure CheckState.Gathered (limits : Limits) (s : CheckState) : Prop where
  first_le : limits.first ≤ s.store.symbols.size
  pending_placed : ∀ id pending, s.pending.find? id = some pending →
    limits.first ≤ id.index ∧ id.index < s.store.symbols.size
  pending_admitted : ∀ id pending, s.pending.find? id = some pending → limits.AdmitsPending pending
  func_kind : ∀ id decl file, s.pending.find? id = some (.func decl file) →
    (s.store.get id).kind = .func
  group_admitted : ∀ group ∈ s.groups, limits.AdmitsInit (group.type, group.values)
  func_admitted : ∀ entry ∈ s.funcs, limits.AdmitsFunc entry.1
  member_placed : ∀ name id, s.members.find? name = some id → id.index < s.store.symbols.size
  member_func : ∀ name id decl file, s.members.find? name = some id →
    s.pending.find? id = some (.func decl file) → name ∈ limits.functions
  import_placed : ∀ file ∈ s.files, ∀ name id, file.imports.find? name = some id →
    id.index < s.store.symbols.size ∧ s.pending.find? id = none
  dotImport_admitted : ∀ file ∈ s.files, ∀ scope ∈ file.dotImports, limits.AdmitsScope scope

variable {limits : Limits}

namespace CheckState.Gathered

variable {s later : CheckState}

/-- What was collected stays within the limits while symbols are added and settled. -/
theorem ofKinds (h : s.Gathered limits) (hcollected : later.collected = s.collected)
    (hsize : s.store.symbols.size ≤ later.store.symbols.size)
    (hkind : ∀ id, id.index < s.store.symbols.size →
      (later.store.get id).kind = (s.store.get id).kind) : later.Gathered limits := by
  obtain ⟨hmembers, hfiles, -, hpending, hgroups, hfuncs⟩ := Collected.mk.inj hcollected
  constructor
  · exact Nat.le_trans h.first_le hsize
  · rw [hpending]
    exact fun id pending hid ↦
      ⟨(h.pending_placed id pending hid).1,
        Nat.lt_of_lt_of_le (h.pending_placed id pending hid).2 hsize⟩
  · rw [hpending]
    exact h.pending_admitted
  · rw [hpending]
    exact fun id decl file hid ↦
      (hkind id (h.pending_placed id _ hid).2).trans (h.func_kind id decl file hid)
  · rw [hgroups]
    exact h.group_admitted
  · rw [hfuncs]
    exact h.func_admitted
  · rw [hmembers]
    exact fun name id hid ↦ Nat.lt_of_lt_of_le (h.member_placed name id hid) hsize
  · rw [hmembers, hpending]
    exact h.member_func
  · rw [hfiles, hpending]
    exact fun file hfile name id hid ↦
      ⟨Nat.lt_of_lt_of_le (h.import_placed file hfile name id hid).1 hsize,
        (h.import_placed file hfile name id hid).2⟩
  · rw [hfiles]
    exact h.dotImport_admitted

theorem ofLasts (h : s.Gathered limits) (hlasts : s.Lasts later) : later.Gathered limits :=
  h.ofKinds hlasts.collected hlasts.store.size_le fun id hid ↦ (hlasts.store.get id hid).kind

/-- A new symbol is neither pending nor known by a name. -/
theorem next_free (h : s.Gathered limits) : s.pending.find? s.store.next = none := by
  cases hnext : s.pending.find? s.store.next with
  | none => rfl
  | some pending => exact absurd (h.pending_placed _ _ hnext).2 (Nat.lt_irrefl _)

/-- A new symbol becomes pending. -/
theorem pend (h : s.Gathered limits) {found : Symbol} {pending : Pending}
    (hpending : limits.AdmitsPending pending)
    (hkind : ∀ decl file, pending = .func decl file → found.kind = .func)
    (hcollected : later.collected =
      { s.collected with pending := s.pending.insert s.store.next pending })
    (hstore : later.store = s.store.push found) : later.Gathered limits := by
  have hsize : later.store.symbols.size = s.store.symbols.size + 1 := by
    rw [hstore]
    exact Array.size_push ..
  obtain ⟨hmembers, hfiles, -, hpendings, hgroups, hfuncs⟩ := Collected.mk.inj hcollected
  have hne {id : SymbolId} (hid : id.index < s.store.symbols.size) : id ≠ s.store.next := by
    rintro rfl
    exact Nat.lt_irrefl _ hid
  have hold {id : SymbolId} (hid : id.index < s.store.symbols.size) :
      later.pending.find? id = s.pending.find? id := by
    rw [hpendings]
    exact Dict.find?_insert_of_ne _ _ (hne hid)
  have hfind {id : SymbolId} {other : Pending} (hid : later.pending.find? id = some other) :
      (id = s.store.next ∧ other = pending) ∨ s.pending.find? id = some other := by
    rw [hpendings, Dict.find?_insert] at hid
    split at hid
    · exact .inl ⟨‹_›, (Option.some.inj hid).symm⟩
    · exact .inr hid
  constructor
  · rw [hsize]
    exact Nat.le_succ_of_le h.first_le
  · intro id other hid
    rw [hsize]
    obtain ⟨rfl, -⟩ | hid := hfind hid
    · exact ⟨h.first_le, Nat.lt_succ_self _⟩
    · exact ⟨(h.pending_placed id other hid).1, Nat.lt_succ_of_lt (h.pending_placed id other hid).2⟩
  · intro id other hid
    obtain ⟨-, rfl⟩ | hid := hfind hid
    · exact hpending
    · exact h.pending_admitted id other hid
  · intro id decl file hid
    obtain ⟨rfl, hother⟩ | hid := hfind hid
    · rw [hstore, ← hkind decl file hother.symm]
      simp [Store.get, Store.push, Store.next]
    · rw [hstore, ((Store.Lasts.push s.store found).get id (h.pending_placed id _ hid).2).kind]
      exact h.func_kind id decl file hid
  · rw [hgroups]
    exact h.group_admitted
  · rw [hfuncs]
    exact h.func_admitted
  · rw [hmembers, hsize]
    exact fun name id hid ↦ Nat.lt_succ_of_lt (h.member_placed name id hid)
  · rw [hmembers]
    intro name id decl file hid hfunc
    rw [hold (h.member_placed name id hid)] at hfunc
    exact h.member_func name id decl file hid hfunc
  · rw [hfiles, hsize]
    intro file hfile name id hid
    obtain ⟨hplaced, hnone⟩ := h.import_placed file hfile name id hid
    exact ⟨Nat.lt_succ_of_lt hplaced, (hold hplaced).trans hnone⟩
  · rw [hfiles]
    exact h.dotImport_admitted

/-- A symbol of the package becomes a member of it. -/
theorem member (h : s.Gathered limits) {name : String} {id : SymbolId}
    (hplaced : id.index < s.store.symbols.size)
    (hfunc : ∀ decl file, s.pending.find? id = some (.func decl file) → name ∈ limits.functions) :
    ({ s with members := s.members.insert name id } : CheckState).Gathered limits := by
  have hfind {other : String} {id' : SymbolId}
      (hother : (s.members.insert name id).find? other = some id') :
      (other = name ∧ id' = id) ∨ s.members.find? other = some id' := by
    rw [Dict.find?_insert] at hother
    split at hother
    · exact .inl ⟨‹_›, (Option.some.inj hother).symm⟩
    · exact .inr hother
  refine { h with member_placed := fun other id' hother ↦ ?_, member_func := ?_ }
  · obtain ⟨-, rfl⟩ | hother := hfind hother
    · exact hplaced
    · exact h.member_placed other id' hother
  · intro other id' decl file hother hpending
    obtain ⟨rfl, rfl⟩ | hother := hfind hother
    · exact hfunc decl file hpending
    · exact h.member_func other id' decl file hother hpending

/-- The names of a file come to stand for one more import. -/
theorem addImport (h : s.Gathered limits) {file : Nat} {name : String} {entry : DeclaredImport}
    {scope : PackageScope} (hscope : limits.AdmitsScope scope)
    (hplaced : entry.symbol.index < s.store.symbols.size)
    (hfree : s.pending.find? entry.symbol = none) :
    ({ s with files := s.files.modify file (·.add name entry scope) } : CheckState).Gathered
      limits := by
  have hfiles {made : FileScope} (hmade : made ∈ s.files.modify file (·.add name entry scope)) :
      made ∈ s.files ∨ ∃ old ∈ s.files, made = old.add name entry scope := by
    obtain ⟨index, hindex, rfl⟩ := List.mem_iff_getElem.mp hmade
    rw [List.getElem_modify]
    rw [List.length_modify] at hindex
    split
    · exact .inr ⟨_, List.getElem_mem hindex, rfl⟩
    · exact .inl (List.getElem_mem hindex)
  refine { h with import_placed := fun made hmade ↦ ?_, dotImport_admitted := fun made hmade ↦ ?_ }
  · obtain hmade | ⟨old, hold, rfl⟩ := hfiles hmade
    · exact h.import_placed made hmade
    · have hbefore := h.import_placed old hold
      unfold FileScope.add
      split
      · exact hbefore
      split
      · exact hbefore
      · intro other id hid
        rw [Dict.find?_insert] at hid
        split at hid
        · cases hid
          exact ⟨hplaced, hfree⟩
        · exact hbefore other id hid
  · obtain hmade | ⟨old, hold, rfl⟩ := hfiles hmade
    · exact h.dotImport_admitted made hmade
    · have hbefore := h.dotImport_admitted old hold
      unfold FileScope.add
      split
      · exact hbefore
      split
      · intro other hother
        rcases List.mem_append.mp hother with hother | hother
        · exact hbefore other hother
        · exact List.mem_singleton.mp hother ▸ hscope
      · exact hbefore

/-- Outside of all blocks, a name that no function bears does not stand for a pending function. -/
theorem lookup_ne_func (h : s.Gathered limits)
    (hpredeclared : Universe.symbols.length < limits.first)
    (hscopes : s.context.scopes = []) {name : String} {id : SymbolId}
    (hlookup : s.lookup? name = some id) (hname : name ∉ limits.functions) (decl : FuncDecl)
    (file : Nat) : s.pending.find? id ≠ some (.func decl file) := by
  intro hfunc
  have hplaced : limits.first ≤ id.index := (h.pending_placed id _ hfunc).1
  obtain ⟨scope, hscope, hknown⟩ : ∃ scope, s.files[s.context.file]?.getD FileScope.empty = scope ∧
      (scope ∈ s.files ∨ scope = FileScope.empty) := by
    cases hfile : s.files[s.context.file]? with
    | none => exact ⟨_, rfl, .inr rfl⟩
    | some scope => exact ⟨scope, rfl, .inl (List.mem_of_getElem? hfile)⟩
  simp only [CheckState.lookup?, hscope, hscopes, List.findSome?_nil, Option.orElse_eq_orElse,
    Option.orElse_eq_or, Option.or_eq_some_iff] at hlookup
  rcases hlookup with hnone | ⟨-, himport | ⟨-, hmember | ⟨-, hdot | ⟨-, huniverse⟩⟩⟩⟩
  · cases hnone
  · rcases hknown with hknown | rfl
    · rw [(h.import_placed scope hknown name id himport).2] at hfunc
      cases hfunc
    · cases himport
  · exact hname (h.member_func name id decl file hmember hfunc)
  · obtain ⟨package, hpackage, hfind⟩ := List.exists_of_findSome?_eq_some hdot
    rcases hknown with hknown | rfl
    · have hbefore := h.dotImport_admitted scope hknown package hpackage name id
        (Option.eq_some_of_filter_eq_some hfind)
      omega
    · cases hpackage
  · obtain ⟨index, hindex, rfl⟩ := Option.map_eq_some_iff.mp huniverse
    have hlt := (List.findIdx?_eq_some_iff_getElem.mp hindex).1
    rw [List.length_map] at hlt
    dsimp only at hplaced
    omega

end CheckState.Gathered

/-! ### Steps of collecting -/

/-- A step from a state has a result, within the limits, with so many more jobs at most. -/
def GathersAt {α : Type} (limits : Limits) (jobs : Nat) (input : CheckInput) (s : CheckState)
    (step : Check α) (post : α → CheckState → Prop) : Prop :=
  ∃ a later, step input s = some (a, later) ∧ later.Gathered limits ∧
    later.jobs ≤ s.jobs + jobs ∧ post a later

/-- A step has a result, within the limits, with so many more jobs at most. -/
def Gathers {α : Type} (limits : Limits) (jobs : Nat) (step : Check α) : Prop :=
  ∀ input s, limits.AdmitsInput input → s.Gathered limits →
    GathersAt limits jobs input s step fun _ _ ↦ True

section Judgements

variable {α β : Type} {jobs jobs' : Nat} {input : CheckInput} {s : CheckState} {step : Check α}
  {next : α → Check β}

theorem GathersAt.bind {mid : α → CheckState → Prop} {post : β → CheckState → Prop}
    (h : GathersAt limits jobs input s step mid)
    (hnext : ∀ a later, later.Gathered limits → later.jobs ≤ s.jobs + jobs → mid a later →
      GathersAt limits jobs' input later (next a) post) :
    GathersAt limits (jobs + jobs') input s (step >>= next) post := by
  obtain ⟨a, middle, hstep, hmiddle, hjobs, hmid⟩ := h
  obtain ⟨b, later, hrest, hlater, hjobs', hpost⟩ := hnext a middle hmiddle hjobs hmid
  exact ⟨b, later, (run_bind_of_some hstep).trans hrest, hlater, by omega, hpost⟩

theorem GathersAt.mono {post post' : α → CheckState → Prop}
    (h : GathersAt limits jobs input s step post) (hjobs : jobs ≤ jobs')
    (hpost : ∀ a later, post a later → post' a later) :
    GathersAt limits jobs' input s step post' := by
  obtain ⟨a, later, hstep, hlater, hle, h⟩ := h
  exact ⟨a, later, hstep, hlater, by omega, hpost a later h⟩

/-- A step without new jobs, and what follows. -/
theorem GathersAt.free {mid : α → CheckState → Prop} {post : β → CheckState → Prop}
    (h : GathersAt limits 0 input s step mid)
    (hnext : ∀ a later, later.Gathered limits → mid a later →
      GathersAt limits jobs input later (next a) post) :
    GathersAt limits jobs input s (step >>= next) post :=
  (h.bind fun a later hlater _ ↦ hnext a later hlater).mono (Nat.le_of_eq (Nat.zero_add jobs))
    fun _ _ h ↦ h

/-- A step, and what follows without new jobs. -/
theorem GathersAt.freely {mid : α → CheckState → Prop} {post : β → CheckState → Prop}
    (h : GathersAt limits jobs input s step mid)
    (hnext : ∀ a later, later.Gathered limits → mid a later →
      GathersAt limits 0 input later (next a) post) :
    GathersAt limits jobs input s (step >>= next) post :=
  h.bind fun a later hlater _ ↦ hnext a later hlater

theorem GathersAt.look {post : β → CheckState → Prop} {f : CheckInput → CheckState → α}
    (hsee : Sees step f) (hnext : GathersAt limits jobs input s (next (f input s)) post) :
    GathersAt limits jobs input s (step >>= next) post := by
  obtain ⟨b, later, hrest, hlater⟩ := hnext
  exact ⟨b, later, (run_bind_of_some (hsee input s)).trans hrest, hlater⟩

theorem GathersAt.pure (h : s.Gathered limits) {post : α → CheckState → Prop} (a : α)
    (hpost : post a s) : GathersAt limits 0 input s (Pure.pure a) post :=
  ⟨a, s, rfl, h, Nat.le_refl _, hpost⟩

theorem Gathers.mono (h : Gathers limits jobs step) (hjobs : jobs ≤ jobs') :
    Gathers limits jobs' step :=
  fun input s hinput hs ↦ (h input s hinput hs).mono hjobs fun _ _ _ ↦ trivial

theorem Gathers.pure (a : α) : Gathers limits 0 (Pure.pure a) :=
  fun _ _ _ hs ↦ GathersAt.pure hs a trivial

theorem Gathers.bind (h : Gathers limits jobs step) (hnext : ∀ a, Gathers limits jobs' (next a)) :
    Gathers limits (jobs + jobs') (step >>= next) :=
  fun input s hinput hs ↦ (h input s hinput hs).bind fun a later hlater _ _ ↦
    hnext a input later hinput hlater

theorem Gathers.forM {γ : Type} {step : γ → Check Unit} {list : List γ} {cost : γ → Nat}
    (h : ∀ a ∈ list, Gathers limits (cost a) (step a)) :
    Gathers limits (list.map cost).sum (list.forM step) := by
  induction list with
  | nil => exact .pure ()
  | cons a rest ih =>
    rw [List.map_cons, List.sum_cons]
    exact .bind (h a List.mem_cons_self) fun _ ↦
      ih fun other hother ↦ h other (List.mem_cons_of_mem a hother)

theorem Gathers.mapM {γ : Type} {step : γ → Check α} {list : List γ}
    (h : ∀ a ∈ list, Gathers limits 1 (step a)) :
    Gathers limits list.length (list.mapM step) := by
  induction list with
  | nil => exact .pure []
  | cons a rest ih =>
    rw [List.mapM_cons]
    refine Gathers.mono (.bind (h a List.mem_cons_self) fun b ↦
      .bind (ih fun other hother ↦ h other (List.mem_cons_of_mem a hother)) fun bs ↦
        .pure (b :: bs)) ?_
    rw [List.length_cons]
    omega

/-- A step that leaves alone what is collected. -/
theorem GathersAt.ofRunsAt {hangs : Prop} {reach : Reach} (hs : s.Gathered limits)
    (h : RunsAt hangs reach input s step) (hends : ¬hangs) :
    GathersAt limits 0 input s step fun _ later ↦ s.Lasts later := by
  cases hstep : step input s with
  | none => exact absurd (h.ends hstep) hends
  | some result =>
    have hlasts := (h.frame result.1 result.2 hstep).lasts
    refine ⟨result.1, result.2, hstep, hs.ofLasts hlasts, ?_, hlasts⟩
    obtain ⟨-, -, -, hpending, hgroups, -⟩ := Collected.mk.inj hlasts.collected
    unfold CheckState.jobs
    rw [hpending, hgroups]
    exact Nat.le_refl _

theorem Gathers.ofRuns {reach : Reach} (h : Runs (fun _ ↦ True) False reach step) :
    Gathers limits 0 step :=
  fun input s _ hs ↦ (GathersAt.ofRunsAt hs (h input s trivial) id).mono (Nat.le_refl _)
    fun _ _ _ ↦ trivial

end Judgements

/-! ### Declarations -/

section Declarations

variable {input : CheckInput} {s : CheckState}

theorem gathersAt_pendingSymbol (hs : s.Gathered limits) (ident : Ident) {found : Symbol}
    {pending : Pending} (hpending : limits.AdmitsPending pending)
    (hkind : ∀ decl file, pending = .func decl file → found.kind = .func) :
    GathersAt limits 1 input s (pendingSymbol ident found pending) fun id later ↦
      id.index < later.store.symbols.size ∧ later.pending.find? id = some pending := by
  refine ⟨s.store.next, _, rfl, hs.pend hpending hkind rfl rfl, ?_, ?_, ?_⟩
  · have := Dict.length_insert_le s.pending s.store.next pending
    simp only [CheckState.jobs]
    omega
  · simp [Store.push, Store.next]
  · exact Dict.find?_insert_self ..

theorem gathers_report (pos : Nat) (problem : Problem) : Gathers limits 0 (report pos problem) :=
  .ofRuns (runs_report pos problem : Runs _ False .nothing _)

theorem gathersAt_declareMember (hinput : limits.AdmitsInput input) (hs : s.Gathered limits)
    {ident : Ident} {id : SymbolId} (hplaced : id.index < s.store.symbols.size)
    (hfunc : ∀ decl file, s.pending.find? id = some (.func decl file) →
      ident.name ∈ limits.functions) :
    GathersAt limits 0 input s (declareMember ident id) fun _ _ ↦ True := by
  have hobject : GathersAt limits 0 input s
      (modify fun s ↦ { s with objects := s.objects ++ [id] } : Check Unit)
      fun _ later ↦ later = { s with objects := s.objects ++ [id] } :=
    ⟨(), _, rfl, { hs with }, Nat.le_refl _, rfl⟩
  refine hobject.free fun _ later hlater heq ↦ ?_
  subst heq
  split
  · exact .pure hlater () trivial
  · refine .look sees_get ?_
    split
    · exact gathers_report _ _ input _ hinput hlater
    · exact ⟨(), _, rfl, hlater.member hplaced hfunc, Nat.le_refl _, trivial⟩

theorem gathersAt_addSymbol (hs : s.Gathered limits) (found : Symbol) :
    GathersAt limits 0 input s (addSymbol found) fun id later ↦
      id.index < later.store.symbols.size ∧ later.pending.find? id = none := by
  refine ⟨s.store.next, _, rfl, hs.ofLasts (.ofStore (.push s.store found)), Nat.le_refl _, ?_,
    hs.next_free⟩
  simp [Store.push, Store.next]

theorem gathers_collectImport (file : Nat) (spec : ImportSpec) :
    Gathers limits 0 (collectImport file spec) := by
  intro input s hinput hs
  refine .look (sees_importedScope _) ?_
  split
  · exact gathers_report _ _ input s hinput hs
  · rename_i scope hscope
    have hadmitted : limits.AdmitsScope scope := by
      split at hscope
      · cases hscope
        exact fun name id hid ↦ (by cases hid)
      · exact hinput _ _ hscope
    refine .look sees_read (.free (gathersAt_addSymbol hs _) fun id later hlater hid ↦ ?_)
    have hnamed {step : Check Unit} (hstep : RunsAt False .nothing input later step)
        (name : String) (pos : Nat) (path : String) : GathersAt limits 0 input later (do
          step
          modify fun s ↦ { s with files := s.files.modify file (·.add name ⟨id, pos, path⟩ scope) })
        fun _ _ ↦ True := by
      refine .free (.ofRunsAt hlater hstep not_false) fun _ last hlast hlasts ↦ ?_
      obtain ⟨-, -, -, hpending, -⟩ := Collected.mk.inj hlasts.collected
      have hplaced := Nat.lt_of_lt_of_le hid.1 hlasts.store.size_le
      have hfree : last.pending.find? id = none := by rw [hpending]; exact hid.2
      exact ⟨(), _, rfl, hlast.addImport hadmitted hplaced hfree, Nat.le_refl _, trivial⟩
    cases spec.name with
    | some ident => exact hnamed (runs_recordDef ident id input later hlater) _ _ _
    | none => exact hnamed (runs_recordImplicit _ id input later hlater) _ _ _

/-- A name of the package that is pending and no function. -/
theorem gathers_pendingMember {ident : Ident} {found : Symbol} {pending : Pending}
    (hpending : limits.AdmitsPending pending) (hfunc : ∀ decl file, pending ≠ .func decl file) :
    Gathers limits 1 (do
      let id ← pendingSymbol ident found pending
      declareMember ident id
      return id) := by
  intro input s hinput hs
  have hsymbol : GathersAt limits 1 input s (pendingSymbol ident found pending) fun id later ↦
      id.index < later.store.symbols.size ∧ later.pending.find? id = some pending :=
    gathersAt_pendingSymbol hs ident hpending fun decl file heq ↦ absurd heq (hfunc decl file)
  refine hsymbol.freely fun id later hlater hid ↦ ?_
  refine .free (gathersAt_declareMember hinput hlater hid.1 fun decl file hfind ↦ ?_)
    fun _ last hlast _ ↦ .pure hlast id trivial
  exact absurd (Option.some.inj (hid.2.symm.trans hfind)) (hfunc decl file)

theorem gathers_collectType (file : Nat) {spec : TypeSpec}
    (h : (Node.ofExpr spec.type).count ≤ limits.nodes) :
    Gathers limits 1 (collectType file spec) := by
  intro input s hinput hs
  refine .look (sees_declared _ _) (.freely (gathersAt_pendingSymbol hs spec.name h ?_)
    fun id later hlater hid ↦ gathersAt_declareMember hinput hlater hid.1 ?_)
  · exact fun decl file heq ↦ (by cases heq)
  · exact fun decl file hfind ↦ (by cases hid.2.symm.trans hfind)

/-- The names of a spec of values are pending as one group. -/
theorem gathers_collectValues (file iota : Nat) (isConst : Bool) (spec : ValueSpec)
    {init : Initializers} (h : limits.AdmitsInit init) :
    Gathers limits (spec.names.length + 1) (collectValues file iota isConst spec init) := by
  intro input s hinput hs
  refine .look sees_get (.bind (Gathers.mapM (fun name _ ↦ ?_) input s hinput hs)
    fun ids later hlater _ _ ↦ ⟨(), _, rfl, { hlater with group_admitted := ?_ }, ?_, trivial⟩)
  · intro input s hinput hs
    exact .look (sees_declared _ _) (gathers_pendingMember (by trivial)
      (fun decl file heq ↦ (by cases heq)) input s hinput hs)
  · intro group hgroup
    rcases List.mem_append.mp hgroup with hgroup | hgroup
    · exact hlater.group_admitted group hgroup
    · exact List.mem_singleton.mp hgroup ▸ h
  · simp only [CheckState.jobs, List.length_append, List.length_singleton]
    omega

theorem gathersAt_pendingFunc (hs : s.Gathered limits) (file : Nat) {decl : FuncDecl}
    (h : limits.AdmitsFunc decl) :
    GathersAt limits 1 input s (pendingFunc file decl) fun id later ↦
      id.index < later.store.symbols.size ∧ later.pending.find? id = some (.func decl file) := by
  refine .look (sees_declared _ _) (.freely (gathersAt_pendingSymbol hs decl.name h
    fun _ _ _ ↦ rfl) fun id later hlater hid ↦
      ⟨id, _, rfl, { hlater with func_admitted := ?_ }, Nat.le_refl _, hid⟩)
  intro entry hentry
  rcases List.mem_append.mp hentry with hentry | hentry
  · exact hlater.func_admitted entry hentry
  · exact List.mem_singleton.mp hentry ▸ h

theorem gathers_collectFunc (file : Nat) {decl : FuncDecl} (h : limits.AdmitsFunc decl)
    (hname : decl.name.name ∈ limits.functions) :
    Gathers limits 1 (collectFunc file decl) := by
  intro input s hinput hs
  refine .freely (gathersAt_pendingFunc hs file h) fun id later hlater hid ↦ ?_
  split
  · exact .pure hlater () trivial
  · exact gathersAt_declareMember hinput hlater hid.1 fun _ _ _ ↦ hname

/-- The specs of a declaration add no more than they have nodes. -/
theorem gathers_collectSpecs (file : Nat) (isConst : Bool) {specs : List Spec} (iota : Nat)
    {inherited : Option Initializers} (hinherited : ∀ init ∈ inherited, limits.AdmitsInit init)
    (h : ∀ spec ∈ specs, (Node.ofSpec spec).count ≤ limits.nodes) :
    Gathers limits (specs.map fun spec ↦ (Node.ofSpec spec).count).sum
      (collectSpecs file isConst iota inherited specs) := by
  induction specs generalizing iota inherited with
  | nil => exact .pure ()
  | cons spec rest ih =>
    have hspec := h spec List.mem_cons_self
    have hrest : ∀ other ∈ rest, (Node.ofSpec other).count ≤ limits.nodes :=
      fun other hother ↦ h other (List.mem_cons_of_mem spec hother)
    rw [List.map_cons, List.sum_cons]
    cases spec with
    | imports spec => exact (ih (iota + 1) hinherited hrest).mono (Nat.le_add_left ..)
    | type spec =>
      have htype : (Node.ofExpr spec.type).count < (Node.typeSpec spec).count :=
        Node.count_lt_of_mem_below (Node.mem_below (by simp [Node.children]))
      exact .mono (.bind (gathers_collectType file (Nat.le_trans (Nat.le_of_lt htype) hspec))
        fun _ ↦ ih (iota + 1) hinherited hrest)
        (Nat.add_le_add_right (Nat.lt_of_le_of_lt (Nat.zero_le _) htype) _)
    | value spec =>
      have hcount {e : Expr} (he : Node.ofExpr e ∈ (Node.valueSpec spec).children) :
          (Node.ofExpr e).count ≤ limits.nodes :=
        Nat.le_trans (Nat.le_of_lt (Node.count_lt_of_mem_below (Node.mem_below he))) hspec
      have hinit : limits.AdmitsInit (spec.type, spec.values) := by
        refine ⟨fun e he ↦ hcount ?_, fun e he ↦ hcount ?_⟩
        · exact List.mem_append_left _
            (List.mem_append_right _ (List.mem_map_of_mem (Option.mem_toList.mpr he)))
        · exact List.mem_append_right _ (List.mem_map_of_mem he)
      have hconst : limits.AdmitsInit (constInitializers inherited spec) :=
        constInitializers_induction ⟨fun _ he ↦ (by cases he), fun _ he ↦ (by cases he)⟩
          hinherited hinit
      have hnames : spec.names.length + 1 ≤ (Node.valueSpec spec).count := by
        refine Nat.lt_of_le_of_lt ?_ (Node.length_children_lt _)
        simp only [Node.children, List.length_append, List.length_map]
        omega
      cases isConst with
      | true =>
        exact .mono (.bind (gathers_collectValues file iota true spec hconst) fun _ ↦
          ih (iota + 1) (fun _ hsome ↦ Option.mem_some.mp hsome ▸ hconst) hrest)
          (Nat.add_le_add_right hnames _)
      | false =>
        exact .mono (.bind (gathers_collectValues file iota false spec hinit) fun _ ↦
          ih (iota + 1) hinherited hrest) (Nat.add_le_add_right hnames _)

theorem gathers_collectDecl (file : Nat) {decl : Decl} (h : limits.AdmitsDecl decl) :
    Gathers limits (Node.ofDecl decl).count (collectDecl file decl) := by
  cases decl with
  | gen decl =>
    have hsum := Node.count_eq_sum (.genDecl decl)
    rw [Node.children, List.map_map] at hsum
    refine (gathers_collectSpecs file _ 0 (fun _ hsome ↦ (by cases hsome)) fun spec hspec ↦ ?_).mono
      (Nat.le_trans (Nat.le_succ _) (Nat.le_of_eq hsum.symm))
    have hbelow : Node.ofSpec spec ∈ (Node.genDecl decl).below :=
      Node.mem_below (List.mem_map_of_mem hspec)
    exact Nat.le_trans (Nat.le_of_lt (Node.count_lt_of_mem_below hbelow)) h
  | func decl =>
    have hcount : 1 ≤ (Node.ofDecl (.func decl)).count :=
      Nat.lt_of_le_of_lt (Nat.zero_le _) (Node.length_children_lt _)
    change Gathers limits _ (if decl.receiver.isNone then collectFunc file decl else return)
    split
    · rename_i hreceiver
      have hfunction := h.2 (Option.isNone_iff_eq_none.mp hreceiver)
      exact (gathers_collectFunc file h.1 hfunction).mono hcount
    · exact (Gathers.pure ()).mono (Nat.zero_le _)

/-- A file adds no more than it has nodes. -/
theorem gathers_collectFile (file : Nat) {source : SourceFile}
    (h : ∀ decl ∈ source.decls, limits.AdmitsDecl decl) :
    Gathers limits (Node.file source).count (collectFile file source) := by
  have hsum := Node.count_eq_sum (.file source)
  rw [Node.children, List.map_cons, List.map_map, List.sum_cons] at hsum
  have hscope : Gathers limits 0 (modify fun s ↦ { s with files := s.files ++ [FileScope.empty] } :
      Check Unit) := by
    refine fun input s _ hs ↦ ⟨(), _, rfl,
      { hs with import_placed := ?_, dotImport_admitted := ?_ }, Nat.le_refl _, trivial⟩
    · intro made hmade
      rcases List.mem_append.mp hmade with hmade | hmade
      · exact hs.import_placed made hmade
      · rw [List.mem_singleton.mp hmade]
        exact fun _ _ hid ↦ (by cases hid)
    · intro made hmade
      rcases List.mem_append.mp hmade with hmade | hmade
      · exact hs.dotImport_admitted made hmade
      · rw [List.mem_singleton.mp hmade]
        exact fun _ hscope ↦ (by cases hscope)
  have himports : Gathers limits 0 (source.imports.forM (collectImport file)) := by
    refine (Gathers.forM fun spec _ ↦ gathers_collectImport file spec).mono (Nat.le_of_eq ?_)
    rw [List.map_const', List.sum_replicate_nat, Nat.mul_zero]
  refine (hscope.bind fun _ ↦ himports.bind fun _ ↦
    Gathers.forM fun decl hdecl ↦ gathers_collectDecl file (h decl hdecl)).mono ?_
  rw [hsum]
  simp only [Function.comp_def]
  omega

/-! ### Methods -/

theorem gathersAt_attachMethod (hinput : limits.AdmitsInput input) (hs : s.Gathered limits)
    (decl : FuncDecl) (base : Ident) (owner method : SymbolId) :
    GathersAt limits 0 input s (attachMethod decl base owner method) fun _ _ ↦ True := by
  refine .look sees_store ?_
  split
  · exact gathers_report _ _ input s hinput hs
  split
  · exact .pure hs () trivial
  split
  · exact gathers_report _ _ input s hinput hs
  · refine ⟨(), _, rfl, hs.ofKinds rfl ?_ fun id hid ↦ ?_, Nat.le_refl _, trivial⟩
    · simp [Store.addMethod, Store.modify]
    · simp only [Store.get, Store.addMethod, Store.modify, Array.getElem?_modify]
      split
      · rw [Array.getElem?_eq_getElem (by assumption)]
        rfl
      · rfl

theorem gathers_collectMethod (file : Nat) {decl : FuncDecl} (h : limits.AdmitsFunc decl) :
    Gathers limits 1 (collectMethod file decl) := by
  intro input s hinput hs
  refine .freely (gathersAt_pendingFunc hs file h) fun id later hlater _ ↦ ?_
  split
  · exact gathers_report _ _ input later hinput hlater
  · refine .look sees_get ?_
    split
    · exact gathers_report _ _ input later hinput hlater
    · exact gathersAt_attachMethod hinput hlater _ _ _ _

/-- The methods of a file add no more than it has nodes. -/
theorem gathers_collectMethods (file : Nat) {source : SourceFile}
    (h : ∀ decl ∈ source.decls, limits.AdmitsDecl decl) :
    Gathers limits (Node.file source).count (collectMethods file source) := by
  have hsum := Node.count_eq_sum (.file source)
  rw [Node.children, List.map_cons, List.map_map, List.sum_cons] at hsum
  have hcost : (source.decls.map fun decl ↦ (Node.ofDecl decl).count).sum ≤
      (Node.file source).count := by
    rw [hsum]
    simp only [Function.comp_def]
    omega
  refine .mono (.forM fun decl hdecl ↦ ?_) hcost
  cases decl with
  | gen decl => exact (Gathers.pure ()).mono (Nat.zero_le _)
  | func decl =>
    dsimp only
    split
    · exact (gathers_collectMethod file (h _ hdecl).1).mono
        (Nat.lt_of_le_of_lt (Nat.zero_le _) (Node.length_children_lt _))
    · exact (Gathers.pure ()).mono (Nat.zero_le _)

end Declarations

end PackageAtlas
