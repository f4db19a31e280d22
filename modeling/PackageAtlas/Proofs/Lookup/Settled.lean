import PackageAtlas.Proofs.Resolution.Cycles

/-!
The members of a package after its check are settled: a defined type has its structure, and all
other names have a type. While declarations are collected, every symbol of the package waits for
what declares it (`CheckState.Waits`); methods and resolutions change none of that; and a symbol
that waits is settled once it is resolved (`isSettled_resolve`). So a check that ends leaves nothing
open, however the declarations depend on each other (`checkWithin_settled`).
-/

set_option autoImplicit false
set_option relaxedAutoImplicit false

namespace PackageAtlas

open Check CheckRule

/-! ### Symbols -/

/-- A symbol has its type, or its structure if it names a defined type. -/
def Symbol.IsSettled (symbol : Symbol) : Prop :=
  if symbol.isDefinedType then symbol.underlying.isSome = true else symbol.type.isSome = true

theorem Symbol.isDefinedType_of_ne {symbol : Symbol} (h : symbol.kind ≠ .typeName) :
    symbol.isDefinedType = false := by
  rw [Symbol.isDefinedType, beq_eq_false_iff_ne.mpr h, Bool.false_and]

theorem Symbol.IsSettled.lasts {symbol later : Symbol} (h : symbol.IsSettled)
    (hlasts : symbol.Lasts later) : later.IsSettled := by
  have hsome {found more : Option Ty} (hmore : ∀ type, found = some type → more = some type)
      (hfound : found.isSome = true) : more.isSome = true := by
    obtain ⟨type, htype⟩ := Option.isSome_iff_exists.mp hfound
    exact Option.isSome_iff_exists.mpr ⟨type, hmore type htype⟩
  have hdefined : later.isDefinedType = symbol.isDefinedType := by rw [hlasts.same]; rfl
  unfold Symbol.IsSettled at h ⊢
  rw [hdefined]
  split
  · exact hsome hlasts.underlying (by simpa [*] using h)
  · exact hsome hlasts.type (by simpa [*] using h)

/-- A symbol waits for what declares it: a type, a spec with it among its names, or a function. The
spec of opened symbols is about to be collected. -/
inductive CheckState.Waits (opened : List SymbolId) (s : CheckState) (id : SymbolId) : Prop
  | type (spec : TypeSpec) (file : Nat) (hpending : s.pending.find? id = some (.type spec file))
    (hkind : (s.store.get id).kind = .typeName) (halias : (s.store.get id).isAlias = spec.isAlias)
  | value (number : Nat) (group : ValueGroup)
    (hpending : s.pending.find? id = some (.value number))
    (hgroup : s.groups[number]? = some group) (hid : id ∈ group.symbols)
    (hkind : (s.store.get id).kind ≠ .typeName)
  | func (decl : FuncDecl) (file : Nat) (hpending : s.pending.find? id = some (.func decl file))
    (hkind : (s.store.get id).kind ≠ .typeName)
  | opened (hpending : s.pending.find? id = some (.value s.groups.length)) (hid : id ∈ opened)
    (hkind : (s.store.get id).kind ≠ .typeName)

/-- A symbol is settled when its resolution ends. -/
theorem isSettled_resolve {depth : Nat} {id : SymbolId} {input : CheckInput}
    {s later : CheckState} (hplaced : id.index < s.store.symbols.size) (hwaits : s.Waits [] id)
    (hrun : (Checker.within depth).resolve id input s = some ((), later)) :
    (later.store.get id).IsSettled := by
  have hlasts := (Checker.within_frame hrun).lasts
  have hdefined : (later.store.get id).isDefinedType = (s.store.get id).isDefinedType := by
    unfold Symbol.isDefinedType
    rw [hlasts.store.grows.kind id hplaced, hlasts.store.grows.isAlias id hplaced]
  cases depth with
  | zero => cases hrun
  | succ depth =>
    have hrule : resolve (Checker.within depth) id input s = some ((), later) := hrun
    unfold resolve at hrule
    rw [run_bind_of_some (sees_get input s)] at hrule
    unfold Symbol.IsSettled
    rw [hdefined]
    cases hwaits with
    | type spec file hpending hkind hsame =>
      simp only [hpending] at hrule
      rw [Symbol.isDefinedType, hkind, hsame]
      cases halias : spec.isAlias with
      | true => exact isSome_resolve hplaced hpending halias hrun
      | false => exact isSome_resolveType hplaced halias hrule
    | value number group hpending hgroup hid hkind =>
      simp only [hpending] at hrule
      rw [Symbol.isDefinedType_of_ne hkind]
      exact isSome_resolveGroup hgroup hid hplaced hrule
    | func decl file hpending hkind =>
      simp only [hpending] at hrule
      rw [Symbol.isDefinedType_of_ne hkind]
      exact isSome_resolveFunc hplaced hrule
    | opened hpending hid hkind => cases hid

/-! ### Collecting -/

/-- The members of a package are among its symbols, which wait to be resolved. -/
structure CheckState.Waiting (opened : List SymbolId) (s : CheckState) : Prop
    extends s.Outlined (fun _ ↦ True) False where
  waits : ∀ id ∈ s.objects, s.Waits opened id

section Collecting

variable {α β γ : Type} {opened : List SymbolId} {id : SymbolId} {input : CheckInput}
  {s later : CheckState}

namespace CheckState

theorem Waits.congr (h : s.Waits opened id) (hgrows : s.store.Grows later.store)
    (hplaced : id.index < s.store.symbols.size)
    (hpending : later.pending.find? id = s.pending.find? id) (hgroups : later.groups = s.groups) :
    later.Waits opened id := by
  have hkind := hgrows.kind id hplaced
  cases h with
  | type spec file hfound htype halias =>
    exact .type spec file (hpending.trans hfound) (hkind.trans htype)
      ((hgrows.isAlias id hplaced).trans halias)
  | value number group hfound hgroup hid hother =>
    exact .value number group (hpending.trans hfound) (hgroups ▸ hgroup) hid (hkind ▸ hother)
  | func decl file hfound hother => exact .func decl file (hpending.trans hfound) (hkind ▸ hother)
  | opened hfound hid hother => exact .opened (hgroups ▸ hpending.trans hfound) hid (hkind ▸ hother)

theorem Waits.mono {opened' : List SymbolId} (h : s.Waits opened id) (hopened : opened ⊆ opened') :
    s.Waits opened' id := by
  cases h with
  | type spec file hfound htype halias => exact .type spec file hfound htype halias
  | value number group hfound hgroup hid hkind => exact .value number group hfound hgroup hid hkind
  | func decl file hfound hkind => exact .func decl file hfound hkind
  | opened hfound hid hkind => exact .opened hfound (hopened hid) hkind

theorem Waits.awaits (h : s.Waits opened id) : s.Awaits id := by
  intro hkind halias
  cases h with
  | type spec file hfound _ hsame => exact ⟨spec, file, hfound, hsame.symm.trans halias⟩
  | value _ _ _ _ _ hother => exact absurd hkind hother
  | func _ _ _ hother => exact absurd hkind hother
  | opened _ _ hother => exact absurd hkind hother

theorem Waiting.ofStore (h : s.Waiting opened) (hgrows : s.store.Grows later.store)
    (hmembers : later.members = s.members) (hobjects : later.objects = s.objects)
    (hgroups : later.groups = s.groups)
    (hpending : ∀ id, id.index < s.store.symbols.size →
      later.pending.find? id = s.pending.find? id) : later.Waiting opened where
  toOutlined := h.toOutlined.ofStore hgrows hmembers hobjects hpending
  waits id hid := by
    rw [hobjects] at hid
    have hplaced := h.placed id hid
    exact (h.waits id hid).congr hgrows hplaced (hpending id hplaced) hgroups

theorem Waiting.ofLasts (h : s.Waiting opened) (hlasts : s.Lasts later) : later.Waiting opened :=
  h.ofStore hlasts.store.grows (congrArg Collected.members hlasts.collected)
    (congrArg Collected.objects hlasts.collected) (congrArg Collected.groups hlasts.collected)
    fun id _ ↦ congrArg (Dict.find? · id) (congrArg Collected.pending hlasts.collected)

theorem Waiting.pend (h : s.Waiting opened) (ident : Ident) (found : Symbol) (pending : Pending) :
    (s.pend ident found pending).Waiting opened :=
  h.ofStore (Store.grows_push s.store found) rfl rfl rfl fun id hid ↦ by
    refine Dict.find?_insert_of_ne _ _ ?_
    rintro rfl
    exact Nat.lt_irrefl _ hid

end CheckState

/-- A name that is declared becomes a symbol of the package. -/
theorem exists_of_declareMember {ident : Ident}
    (hrun : declareMember ident id input s = some ((), later)) :
    ∃ members reports, later = { s with objects := s.objects ++ [id], members, reports } := by
  obtain ⟨_, _, hmodify, hrest⟩ := exists_of_run_bind hrun
  cases hmodify
  split at hrest
  · cases hrest
    exact ⟨_, _, rfl⟩
  · rw [run_bind_of_some (sees_get input _)] at hrest
    split at hrest <;> cases hrest <;> exact ⟨_, _, rfl⟩

theorem waiting_declareMember {ident : Ident} (hs : s.Waiting opened)
    (hplaced : id.index < s.store.symbols.size) (hwaits : s.Waits opened id)
    (hrun : declareMember ident id input s = some ((), later)) : later.Waiting opened := by
  have houtlined := (outlined_declareMember hs.toOutlined trivial hplaced hwaits.awaits hrun).1
  obtain ⟨members, reports, rfl⟩ := exists_of_declareMember hrun
  refine ⟨houtlined, fun other hother ↦ ?_⟩
  have hother : s.Waits opened other ∧ other.index < s.store.symbols.size := by
    rcases List.mem_append.mp hother with hold | hnew
    · exact ⟨hs.waits other hold, hs.placed other hold⟩
    · exact List.mem_singleton.mp hnew ▸ ⟨hwaits, hplaced⟩
  exact hother.1.congr (.refl _) hother.2 rfl rfl

theorem CheckState.get_pend (s : CheckState) (ident : Ident) (found : Symbol) (pending : Pending) :
    (s.pend ident found pending).store.get s.store.next = found := by
  change (s.store.push found).get s.store.next = found
  rw [Store.get_push, if_pos (by rfl : s.store.next.index = s.store.symbols.size)]

theorem CheckState.placed_pend (s : CheckState) (ident : Ident) (found : Symbol)
    (pending : Pending) :
    s.store.next.index < (s.pend ident found pending).store.symbols.size := by
  change s.store.symbols.size < (s.store.push found).symbols.size
  rw [Store.size_push]
  exact Nat.lt_succ_self _

/-- A new symbol that waits becomes a symbol of the package. -/
theorem waiting_pendingMember {ident : Ident} {found : Symbol} {pending : Pending}
    (hs : s.Waiting opened) (hwaits : (s.pend ident found pending).Waits opened s.store.next)
    (hrun : declareMember ident s.store.next input (s.pend ident found pending) =
      some ((), later)) : later.Waiting opened :=
  waiting_declareMember (hs.pend ident found pending) (s.placed_pend ident found pending) hwaits
    hrun

/-! ### Rules of collecting -/

/-- A step that keeps a property of states. -/
def Check.Keeps (inv : CheckState → Prop) (step : Check α) : Prop :=
  ∀ input s a later, inv s → step input s = some (a, later) → inv later

namespace Check.Keeps

variable {inv : CheckState → Prop} {step : Check α} {next : α → Check β}

theorem pure (a : α) : Keeps inv (Pure.pure a) := by
  intro input s b later hs hrun
  cases hrun
  exact hs

theorem bind (h : Keeps inv step) (hnext : ∀ a, Keeps inv (next a)) :
    Keeps inv (step >>= next) := by
  intro input s b later hs hrun
  obtain ⟨a, middle, hstep, hrest⟩ := exists_of_run_bind hrun
  exact hnext a input middle b later (h input s a middle hs hstep) hrest

theorem looking {f : CheckInput → CheckState → α} (hlook : Sees step f)
    (hnext : ∀ a, Keeps inv (next a)) : Keeps inv (step >>= next) := by
  intro input s b later hs hrun
  rw [run_bind_of_some (hlook input s)] at hrun
  exact hnext _ input s b later hs hrun

theorem ite {p : Prop} [Decidable p] {step' : Check α} (h : Keeps inv step)
    (h' : Keeps inv step') : Keeps inv (if p then step else step') := by
  split
  · exact h
  · exact h'

theorem forM {step : γ → Check Unit} {list : List γ} (h : ∀ a ∈ list, Keeps inv (step a)) :
    Keeps inv (list.forM step) := by
  induction list with
  | nil => exact pure ()
  | cons a rest ih =>
    exact (h a List.mem_cons_self).bind fun _ ↦
      ih fun other hother ↦ h other (List.mem_cons_of_mem a hother)

theorem ofRuns {reach : Reach} (hinv : ∀ {s later : CheckState}, inv s → s.Lasts later → inv later)
    (h : Runs (fun _ ↦ True) True reach step) : Keeps inv step :=
  fun input s a later hs hrun ↦ hinv hs ((h input s trivial).frame a later hrun).lasts

end Check.Keeps

/-- A change of nothing that members wait for. -/
theorem waiting_modify {f : CheckState → CheckState} (hstore : ∀ s, (f s).store = s.store)
    (hcollected : ∀ s, (f s).members = s.members ∧ (f s).objects = s.objects ∧
      (f s).groups = s.groups ∧ (f s).pending = s.pending) :
    Keeps (CheckState.Waiting opened) (modify f : Check Unit) := by
  intro input s a later hs hrun
  cases hrun
  obtain ⟨hmembers, hobjects, hgroups, hpending⟩ := hcollected s
  exact hs.ofStore (hstore s ▸ .refl _) hmembers hobjects hgroups fun _ _ ↦ by rw [hpending]

theorem waiting_ofRuns {step : Check α} {reach : Reach}
    (h : Runs (fun _ ↦ True) True reach step) : Keeps (CheckState.Waiting opened) step :=
  .ofRuns CheckState.Waiting.ofLasts h

theorem waiting_pendingFunc (file : Nat) (decl : FuncDecl) :
    Keeps (CheckState.Waiting opened) (pendingFunc file decl) := by
  refine .looking (sees_declared _ _) fun found ↦ .bind (fun input s id later hs hrun ↦ ?_) fun id ↦
    .bind (waiting_modify (fun _ ↦ rfl) fun _ ↦ ⟨rfl, rfl, rfl, rfl⟩) fun _ ↦ .pure id
  cases (run_pendingSymbol _ _ _ input s).symm.trans hrun
  exact hs.pend _ _ _

/-- The kind of a new symbol. -/
theorem CheckState.kind_pend (s : CheckState) (ident : Ident) (found : Symbol) (pending : Pending) :
    ((s.pend ident found pending).store.get s.store.next).kind = found.kind :=
  congrArg Symbol.kind (s.get_pend ident found pending)

theorem waiting_collectFunc (file : Nat) (decl : FuncDecl) :
    Keeps (CheckState.Waiting opened) (collectFunc file decl) := by
  intro input s _ later hs hrun
  obtain ⟨id, middle, hpending, hrest⟩ := exists_of_run_bind hrun
  have hmiddle := waiting_pendingFunc file decl input s id middle hs hpending
  cases hpending
  split at hrest
  · cases hrest
    exact hmiddle
  · refine waiting_declareMember hmiddle (s.placed_pend decl.name _ (.func decl file))
      (.func decl file (Dict.find?_insert_self _ _ _) fun hkind ↦ ?_) hrest
    cases (s.kind_pend decl.name _ (.func decl file)).symm.trans hkind

theorem waiting_collectType (file : Nat) (spec : TypeSpec) :
    Keeps (CheckState.Waiting opened) (collectType file spec) := by
  intro input s _ later hs hrun
  rw [collectType, run_bind_of_some (sees_declared _ _ input s),
    run_bind_of_some (run_pendingSymbol _ _ _ input s)] at hrun
  refine waiting_pendingMember hs (.type spec file (Dict.find?_insert_self _ _ _) ?_ ?_) hrun
  · rw [CheckState.get_pend]
  · rw [CheckState.get_pend]

/-- The names of a spec wait for it before the spec itself is there. -/
theorem waiting_names {isConst : Bool} {names : List Ident} {ids : List SymbolId} {group : Nat}
    (hs : s.Waiting opened) (hgroup : group = s.groups.length)
    (hrun : (names.mapM fun name ↦ (do
        let found ← declared (if isConst then .const else .var) name
        let id ← pendingSymbol name found (.value group)
        declareMember name id
        return id : Check SymbolId)) input s = some (ids, later)) :
    later.Waiting (opened ++ ids) ∧ later.groups = s.groups := by
  induction names generalizing s opened ids with
  | nil =>
    cases hrun
    exact ⟨(List.append_nil opened).symm ▸ hs, rfl⟩
  | cons name names ih =>
    rw [List.mapM_cons] at hrun
    obtain ⟨id, middle, hname, hrest⟩ := exists_of_run_bind hrun
    rw [run_bind_of_some (sees_declared _ _ input s),
      run_bind_of_some (run_pendingSymbol _ _ _ input s)] at hname
    obtain ⟨⟨⟩, _, hdeclare, hpure⟩ := exists_of_run_bind hname
    cases hpure
    obtain ⟨rest, last, hrun, hpure⟩ := exists_of_run_bind hrest
    cases hpure
    have hopened : s.Waiting (opened ++ [s.store.next]) :=
      { hs with waits := fun id hid ↦ (hs.waits id hid).mono (List.subset_append_left _ _) }
    have hgroups : middle.groups = s.groups := by
      obtain ⟨members, reports, rfl⟩ := exists_of_declareMember hdeclare
      rfl
    have hmiddle : middle.Waiting (opened ++ [s.store.next]) := by
      refine waiting_pendingMember hopened (.opened ?_ ?_ fun hkind ↦ ?_) hdeclare
      · rw [hgroup]
        exact Dict.find?_insert_self _ _ _
      · exact List.mem_append_right _ List.mem_cons_self
      · have hvalue := (s.kind_pend name _ (.value group)).symm.trans hkind
        cases isConst <;> cases hvalue
    obtain ⟨hlater, hsame⟩ := ih hmiddle (hgroup.trans (congrArg _ hgroups.symm)) hrun
    rw [List.append_assoc] at hlater
    exact ⟨hlater, hsame.trans hgroups⟩

/-- The spec of the opened symbols is there. -/
theorem CheckState.Waiting.close (group : ValueGroup) (hs : s.Waiting group.symbols) :
    CheckState.Waiting [] { s with groups := s.groups ++ [group] } := by
  refine ⟨hs.toOutlined.ofStore (.refl _) rfl rfl fun _ _ ↦ rfl, fun id hid ↦ ?_⟩
  cases hs.waits id hid with
  | type spec file hpending hkind halias => exact .type spec file hpending hkind halias
  | value number found hpending hfound hid hkind =>
    refine .value number found hpending ?_ hid hkind
    exact (List.getElem?_append_left (List.getElem?_eq_some_iff.mp hfound).1).trans hfound
  | func decl file hpending hkind => exact .func decl file hpending hkind
  | opened hpending hopened hkind =>
    exact .value s.groups.length group hpending List.getElem?_concat_length hopened hkind

theorem waiting_collectValues (file iota : Nat) (isConst : Bool) (spec : ValueSpec)
    (init : Initializers) :
    Keeps (CheckState.Waiting []) (collectValues file iota isConst spec init) := by
  intro input s _ later hs hrun
  unfold collectValues at hrun
  rw [run_bind_of_some (sees_get input s)] at hrun
  obtain ⟨ids, middle, hnames, hrest⟩ := exists_of_run_bind hrun
  cases hrest
  obtain ⟨hmiddle, -⟩ := waiting_names hs rfl hnames
  exact hmiddle.close ⟨ids, init.1, init.2, iota, isConst, file⟩

theorem waiting_collectSpecs (file : Nat) (isConst : Bool) (specs : List Spec) (iota : Nat)
    (inherited : Option Initializers) :
    Keeps (CheckState.Waiting []) (collectSpecs file isConst iota inherited specs) := by
  induction specs generalizing iota inherited with
  | nil => exact .pure ()
  | cons spec rest ih =>
    cases spec with
    | imports spec => exact ih _ _
    | type spec => exact .bind (waiting_collectType file spec) fun _ ↦ ih _ _
    | value spec => exact .bind (waiting_collectValues file iota isConst spec _) fun _ ↦ ih _ _

theorem waiting_collectDecl (file : Nat) (decl : Decl) :
    Keeps (CheckState.Waiting []) (collectDecl file decl) := by
  cases decl with
  | gen decl => exact waiting_collectSpecs file _ decl.specs 0 none
  | func decl => exact .ite (waiting_collectFunc file decl) (.pure ())

theorem waiting_collectImport (file : Nat) (spec : ImportSpec) :
    Keeps (CheckState.Waiting opened) (collectImport file spec) := by
  have hadd (change : FileScope → FileScope) : Keeps (CheckState.Waiting opened)
      (modify fun s ↦ { s with files := s.files.modify file change }) :=
    waiting_modify (fun _ ↦ rfl) fun _ ↦ ⟨rfl, rfl, rfl, rfl⟩
  have hscope : Keeps (CheckState.Waiting opened) (importedScope spec.pathValue) :=
    .looking sees_read fun _ ↦ .ite (.pure _) (.pure _)
  refine .bind hscope fun found ↦ ?_
  cases found with
  | error reason => exact waiting_ofRuns (runs_report _ _ : Runs _ _ .nothing _)
  | ok scope =>
    refine .looking sees_read fun input ↦
      .bind (waiting_ofRuns (runs_addSymbol _ : Runs _ _ .nothing _)) fun id ↦ ?_
    cases spec.name with
    | some ident =>
      exact .bind (waiting_ofRuns (runs_recordDef _ _ : Runs _ _ .nothing _)) fun _ ↦ hadd _
    | none =>
      exact .bind (waiting_ofRuns (runs_recordImplicit _ _ : Runs _ _ .nothing _)) fun _ ↦ hadd _

theorem waiting_collectFile (file : Nat) (source : SourceFile) :
    Keeps (CheckState.Waiting []) (collectFile file source) :=
  .bind (waiting_modify (fun _ ↦ rfl) fun _ ↦ ⟨rfl, rfl, rfl, rfl⟩) fun _ ↦
    .bind (.forM fun spec _ ↦ waiting_collectImport file spec) fun _ ↦
    .forM fun decl _ ↦ waiting_collectDecl file decl

/-- Everything is collected, and these are the symbols of the package. -/
structure CheckState.Ready (objects : List SymbolId) (s : CheckState) : Prop
    extends s.Waiting [] where
  same : s.objects = objects

theorem CheckState.Ready.ofLasts {objects : List SymbolId} (h : s.Ready objects)
    (hlasts : s.Lasts later) : later.Ready objects :=
  ⟨h.toWaiting.ofLasts hlasts, (congrArg Collected.objects hlasts.collected).trans h.same⟩

theorem ready_ofRuns {objects : List SymbolId} {step : Check α} {reach : Reach}
    (h : Runs (fun _ ↦ True) True reach step) : Keeps (CheckState.Ready objects) step :=
  .ofRuns CheckState.Ready.ofLasts h

theorem ready_collectMethod {objects : List SymbolId} (file : Nat) (decl : FuncDecl) :
    Keeps (CheckState.Ready objects) (collectMethod file decl) := by
  have hreport (pos : Nat) (problem : Problem) :
      Keeps (CheckState.Ready objects) (report pos problem) :=
    ready_ofRuns (runs_report _ _ : Runs _ _ .nothing _)
  -- Methods are resolved like functions, but they are no symbols of the package.
  refine .bind (fun input s id later hs hrun ↦ ?_) fun id ↦ ?_
  · have hlater := waiting_pendingFunc file decl input s id later hs.toWaiting hrun
    cases hrun
    exact ⟨hlater, hs.same⟩
  · cases decl.receiverBase? with
    | none => exact hreport _ _
    | some base =>
      refine .looking sees_get fun s ↦ ?_
      cases s.members.find? base.name with
      | none => exact hreport _ _
      | some owner =>
        refine .looking sees_store fun store ↦ .ite (hreport _ _)
          (.ite (.pure ()) (.ite (hreport _ _) fun input s _ later hs hrun ↦ ?_))
        cases hrun
        exact ⟨hs.toWaiting.ofStore (Store.grows_modify s.store owner (.of fun _ ↦ rfl)) rfl rfl rfl
          fun _ _ ↦ rfl, hs.same⟩

theorem ready_collectMethods {objects : List SymbolId} (file : Nat) (source : SourceFile) :
    Keeps (CheckState.Ready objects) (collectMethods file source) := by
  refine .forM fun decl _ ↦ ?_
  cases decl with
  | gen decl => exact .pure ()
  | func decl => exact .ite (ready_collectMethod file decl) (.pure ())

end Collecting

/-! ### Packages -/

section Packages

variable {depth : Nat} {input : CheckInput} {s later : CheckState}

/-- The symbols that are resolved one after the other are settled. -/
theorem isSettled_forM {ids : List SymbolId} (hs : s.Waiting []) (hids : ∀ id ∈ ids, id ∈ s.objects)
    (hrun : ids.forM (Checker.within depth).resolve input s = some ((), later)) :
    ∀ id ∈ ids, (later.store.get id).IsSettled := by
  induction ids generalizing s with
  | nil => exact fun _ hid ↦ absurd hid List.not_mem_nil
  | cons first rest ih =>
    obtain ⟨hfirst, hrest⟩ := List.forall_mem_cons.mp hids
    obtain ⟨⟨⟩, middle, hstep, hsteps⟩ := exists_of_run_bind hrun
    have hlasts := (Checker.within_frame hstep).lasts
    have hmore := ((Runs.forM fun id _ ↦ Checker.within_runs depth (.resolve id) :
      Runs (fun _ ↦ True) True .nothing _) input middle trivial).frame () later hsteps |>.lasts
    have hplaced := hs.placed first hfirst
    refine List.forall_mem_cons.mpr ⟨?_, ih (hs.ofLasts hlasts) (fun id hid ↦ ?_) hsteps⟩
    · exact (isSettled_resolve hplaced (hs.waits first hfirst) hstep).lasts
        (hmore.store.get first (Nat.lt_of_lt_of_le hplaced hlasts.store.size_le))
    · have hobjects : middle.objects = s.objects := congrArg Collected.objects hlasts.collected
      exact hobjects ▸ hrest id hid

end Packages

/-- A check leaves no name of the package open, however its declarations depend on each other. -/
theorem checkWithin_settled {depth : Nat} {input : CheckInput} {files : List SourceFile}
    {store : Store} {checked : Checked} (h : checkWithin depth input files store = some checked)
    {name : String} {id : SymbolId} (hfound : checked.scope.find? name = some id) :
    (checked.store.get id).IsSettled := by
  obtain ⟨⟨⟨⟩, last⟩, hrun, hdone⟩ := Option.bind_eq_some_iff.mp h
  cases hdone
  have hstart : (CheckState.start store).Waiting [] :=
    ⟨⟨fun _ _ h ↦ (by cases h), fun _ h ↦ (by cases h), fun _ h ↦ (by cases h), False.elim⟩,
      fun _ h ↦ (by cases h)⟩
  obtain ⟨⟨⟩, collected, hcollect, hrun⟩ := exists_of_run_bind hrun
  have hcollected : collected.Ready collected.objects :=
    ⟨Keeps.forM (fun entry _ ↦ waiting_collectFile entry.2 entry.1) input _ () collected hstart
      hcollect, rfl⟩
  rw [run_bind_of_some (sees_get input collected),
    run_bind_of_some (sees_store input collected)] at hrun
  have hresolves (ids : List SymbolId) :
      Runs (fun _ ↦ True) True .nothing (ids.forM (Checker.within depth).resolve) :=
    .forM fun id _ ↦ Checker.within_runs depth (.resolve id)
  obtain ⟨⟨⟩, typed, htypes, hrun⟩ := exists_of_run_bind hrun
  have htyped := ready_ofRuns (hresolves _) input _ () typed hcollected htypes
  obtain ⟨⟨⟩, ready, hmethods, hrun⟩ := exists_of_run_bind hrun
  have hready := Keeps.forM (fun entry _ ↦ ready_collectMethods entry.2 entry.1) input _ () ready
    htyped hmethods
  obtain ⟨⟨⟩, settled, hresolve, hrun⟩ := exists_of_run_bind hrun
  have hsettled := isSettled_forM hready.toWaiting (fun id hid ↦ hready.same.symm ▸ hid) hresolve
  have hresolved := ready_ofRuns (hresolves _) input _ () settled hready hresolve
  rw [run_bind_of_some (sees_get input settled)] at hrun
  obtain ⟨⟨⟩, functions, hfunctions, hrun⟩ := exists_of_run_bind hrun
  obtain ⟨⟨⟩, bodies, hbodies, hrun⟩ := exists_of_run_bind hrun
  have hnamed : Runs (fun _ ↦ True) True .nothing
      (settled.funcs.forM fun entry ↦ (Checker.within depth).resolve entry.2.1) :=
    .forM fun entry _ ↦ Checker.within_runs depth (.resolve entry.2.1)
  have hbodied : Runs (fun _ ↦ True) True .nothing (settled.funcs.forM fun entry ↦
      funcBody (Checker.within depth) entry.1 entry.2.1 entry.2.2) :=
    .forM fun entry _ ↦ runs_funcBody entry.2.1
      (fun receiver _ ↦ Checker.within_runs depth (.typeExpr receiver.type))
      fun _ _ statement _ ↦ Checker.within_runs depth (.stmt statement)
  have hlasts := ((hnamed input settled trivial).frame () functions hfunctions).lasts.trans
    ((hbodied input functions trivial).frame () bodies hbodies).lasts
  cases hrun
  have hid : id ∈ settled.objects := by
    have hmember := ((hresolved.ofLasts hlasts).members name id hfound).2
    rwa [(hresolved.ofLasts hlasts).same, ← hresolved.same] at hmember
  exact (hsettled id (hresolved.same ▸ hid)).lasts
    (hlasts.store.get id (hresolved.placed id hid))

end PackageAtlas
