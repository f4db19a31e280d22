import PackageAtlas.Proofs.Dedupe.Renaming
import PackageAtlas.Proofs.Naming.Stores
import PackageAtlas.Proofs.Resolution.Tasks

/-!
The members of a package after its check. A member has a name that the files declare, and if it is
the name of a type, what it stands for is known: a defined type stands for itself, and an alias is
resolved before the check goes on to anything but types (`Checked.Outlined`). No later check changes
either of them, because whatever is settled stays settled (`Store.Lasts.grows`).
-/

set_option autoImplicit false
set_option relaxedAutoImplicit false

namespace PackageAtlas

open Check CheckRule

theorem Store.Lasts.grows {store later : Store} (h : store.Lasts later) : store.Grows later where
  size_le := h.size_le
  name id hid := by rw [(h.get id hid).same]
  kind id hid := by rw [(h.get id hid).same]
  origin id hid := by rw [(h.get id hid).same]
  package id hid := by rw [(h.get id hid).same]
  isAlias id hid := by rw [(h.get id hid).same]
  type id hid type htype := (h.get id hid).type type htype

/-! ### Collecting -/

/-- The type of an alias is known. -/
def Store.Knows (store : Store) (id : SymbolId) : Prop :=
  (store.get id).kind = .typeName → (store.get id).isAlias = true →
    (store.get id).type.isSome = true

theorem Store.Knows.mono {store later : Store} {id : SymbolId} (h : store.Knows id)
    (hid : id.index < store.symbols.size) (hgrows : store.Grows later) : later.Knows id := by
  intro hkind halias
  rw [hgrows.kind id hid] at hkind
  rw [hgrows.isAlias id hid] at halias
  obtain ⟨type, htype⟩ := Option.isSome_iff_exists.1 (h hkind halias)
  exact Option.isSome_iff_exists.2 ⟨type, hgrows.type id hid type htype⟩

/-- An alias waits for its type. -/
def CheckState.Awaits (s : CheckState) (id : SymbolId) : Prop :=
  (s.store.get id).kind = .typeName → (s.store.get id).isAlias = true →
    ∃ spec file, s.pending.find? id = some (.type spec file) ∧ spec.isAlias = true

/-- The members have names of some kind and are among the symbols of the package, where the aliases
wait for their types, which may be known already. -/
structure CheckState.Outlined (names : String → Prop) (known : Prop) (s : CheckState) : Prop where
  members : ∀ name id, s.members.find? name = some id → names name ∧ id ∈ s.objects
  placed : ∀ id ∈ s.objects, id.index < s.store.symbols.size
  aliases : ∀ id ∈ s.objects, s.Awaits id
  known : known → ∀ id ∈ s.objects, s.store.Knows id

/-- A step keeps the members and the aliases in order, and only adds to what is known of symbols. -/
def Outlines {α : Type} (names : String → Prop) (known : Prop) (step : Check α) : Prop :=
  ∀ input s a later, s.Outlined names known → step input s = some (a, later) →
    later.Outlined names known ∧ s.store.Grows later.store

section

variable {α β γ : Type} {names : String → Prop} {known : Prop} {step : Check α} {next : α → Check β}
  {s later : CheckState}

namespace CheckState.Outlined

/-- A state with the same members, in which more is known of symbols and more is pending. -/
theorem ofStore (h : s.Outlined names known) (hgrows : s.store.Grows later.store)
    (hmembers : later.members = s.members) (hobjects : later.objects = s.objects)
    (hpending : ∀ id, id.index < s.store.symbols.size →
      later.pending.find? id = s.pending.find? id) : later.Outlined names known where
  members name id hfound := by
    rw [hmembers] at hfound
    rw [hobjects]
    exact h.members name id hfound
  placed id hid := by
    rw [hobjects] at hid
    exact Nat.lt_of_lt_of_le (h.placed id hid) hgrows.size_le
  aliases id hid := by
    rw [hobjects] at hid
    have hplaced := h.placed id hid
    unfold Awaits
    rw [hgrows.kind id hplaced, hgrows.isAlias id hplaced, hpending id hplaced]
    exact h.aliases id hid
  known hknown id hid := by
    rw [hobjects] at hid
    exact (h.known hknown id hid).mono (h.placed id hid) hgrows

theorem ofLasts (h : s.Outlined names known) (hlasts : s.Lasts later) : later.Outlined names known :=
  h.ofStore hlasts.store.grows (congrArg Collected.members hlasts.collected)
    (congrArg Collected.objects hlasts.collected) fun id _ ↦
      congrArg (Dict.find? · id) (congrArg Collected.pending hlasts.collected)

end CheckState.Outlined

namespace Outlines

theorem run {input : CheckInput} {a : α} (hs : s.Outlined names known)
    (hrun : step input s = some (a, later)) (h : Outlines names known step) :
    later.Outlined names known ∧ s.store.Grows later.store :=
  h input s a later hs hrun

theorem ofRuns {reach : Reach} (h : Runs (fun _ ↦ True) True reach step) :
    Outlines names known step := by
  intro input s a later hs hrun
  have hlasts := ((h input s trivial).frame a later hrun).lasts
  exact ⟨hs.ofLasts hlasts, hlasts.store.grows⟩

theorem pure (a : α) : Outlines names known (Pure.pure a) := by
  intro input s b later hs hrun
  cases hrun
  exact ⟨hs, .refl _⟩

theorem bind (h : Outlines names known step) (hnext : ∀ a, Outlines names known (next a)) :
    Outlines names known (step >>= next) := by
  intro input s b later hs hrun
  obtain ⟨a, middle, hstep, hrest⟩ := exists_of_run_bind hrun
  obtain ⟨hmiddle, hgrows⟩ := h input s a middle hs hstep
  obtain ⟨hlater, hmore⟩ := hnext a input middle b later hmiddle hrest
  exact ⟨hlater, hgrows.trans hmore⟩

theorem looking {f : CheckInput → CheckState → α} (hlook : Sees step f)
    (hnext : ∀ a, Outlines names known (next a)) : Outlines names known (step >>= next) := by
  intro input s b later hs hrun
  rw [run_bind_of_some (hlook input s)] at hrun
  exact hnext _ input s b later hs hrun

theorem ite {p : Prop} [Decidable p] {step' : Check α} (h : Outlines names known step)
    (h' : Outlines names known step') : Outlines names known (if p then step else step') := by
  split
  · exact h
  · exact h'

theorem forM {step : γ → Check Unit} {list : List γ} (h : ∀ a ∈ list, Outlines names known (step a)) :
    Outlines names known (list.forM step) := by
  induction list with
  | nil => exact pure ()
  | cons a rest ih =>
    exact (h a List.mem_cons_self).bind fun _ ↦
      ih fun other hother ↦ h other (List.mem_cons_of_mem a hother)

theorem mapM {step : γ → Check α} {list : List γ} (h : ∀ a ∈ list, Outlines names known (step a)) :
    Outlines names known (list.mapM step) := by
  induction list with
  | nil => exact pure []
  | cons a rest ih =>
    rw [List.mapM_cons]
    refine (h a List.mem_cons_self).bind fun b ↦ ?_
    exact (ih fun other hother ↦ h other (List.mem_cons_of_mem a hother)).bind fun bs ↦
      pure (b :: bs)

/-- A change of what has nothing to do with members. -/
theorem modify {f : CheckState → CheckState} (hstore : ∀ s, (f s).store = s.store)
    (hmembers : ∀ s, (f s).members = s.members) (hobjects : ∀ s, (f s).objects = s.objects)
    (hpending : ∀ s, (f s).pending = s.pending) :
    Outlines names known (modify f : Check Unit) := by
  intro input s a later hs hrun
  cases hrun
  have hgrows : s.store.Grows (f s).store := hstore s ▸ .refl _
  exact ⟨hs.ofStore hgrows (hmembers s) (hobjects s) fun id _ ↦ by rw [hpending s], hgrows⟩

end Outlines

/-- The state in which a new symbol waits for its resolution. -/
def CheckState.pend (s : CheckState) (ident : Ident) (found : Symbol) (waiting : Pending) :
    CheckState :=
  { s with
    store := s.store.push found
    info.defs := s.info.defs.insert ident.info.id ⟨ident, s.store.next⟩
    pending := s.pending.insert s.store.next waiting }

theorem run_pendingSymbol (ident : Ident) (found : Symbol) (waiting : Pending)
    (input : CheckInput) (s : CheckState) : pendingSymbol ident found waiting input s =
      some (s.store.next, s.pend ident found waiting) := rfl

theorem CheckState.Outlined.pend (hs : s.Outlined names known) (ident : Ident) (found : Symbol)
    (waiting : Pending) : (s.pend ident found waiting).Outlined names known :=
  hs.ofStore (Store.grows_push s.store found) rfl rfl fun id hid ↦ by
    refine Dict.find?_insert_of_ne _ _ ?_
    rintro rfl
    exact Nat.lt_irrefl _ hid

/-- The new symbol is placed, and if it is an alias it waits for its type. -/
theorem CheckState.awaits_pend (s : CheckState) (ident : Ident) (found : Symbol)
    (waiting : Pending) (halias : found.kind = .typeName → found.isAlias = true →
      ∃ spec file, waiting = .type spec file ∧ spec.isAlias = true) :
    s.store.next.index < (s.pend ident found waiting).store.symbols.size ∧
      (s.pend ident found waiting).Awaits s.store.next := by
  have hget : (s.pend ident found waiting).store.get s.store.next = found := by
    change (s.store.push found).get s.store.next = found
    rw [Store.get_push, if_pos (by rfl : s.store.next.index = s.store.symbols.size)]
  constructor
  · change s.store.symbols.size < (s.store.push found).symbols.size
    rw [Store.size_push]
    exact Nat.lt_succ_self _
  · unfold Awaits
    rw [hget]
    intro hkind hisAlias
    obtain ⟨spec, file, rfl, hspec⟩ := halias hkind hisAlias
    exact ⟨spec, file, Dict.find?_insert_self _ _ _, hspec⟩

/-- A symbol that is placed and waits becomes a symbol of the package. -/
theorem outlined_declareMember {ident : Ident} {id : SymbolId} {input : CheckInput}
    (hs : s.Outlined names False) (hname : names ident.name) (hid : id.index < s.store.symbols.size)
    (hawaits : s.Awaits id) (hrun : declareMember ident id input s = some ((), later)) :
    later.Outlined names False ∧ later.store = s.store := by
  have hmore : CheckState.Outlined names False { s with objects := s.objects ++ [id] } := by
    refine ⟨fun name other hfound ↦ ?_, fun other hother ↦ ?_, fun other hother ↦ ?_, False.elim⟩
    · exact ⟨(hs.members name other hfound).1, List.mem_append_left _ (hs.members name other hfound).2⟩
    · rcases List.mem_append.1 hother with hold | hnew
      · exact hs.placed other hold
      · exact List.mem_singleton.1 hnew ▸ hid
    · rcases List.mem_append.1 hother with hold | hnew
      · exact hs.aliases other hold
      · exact List.mem_singleton.1 hnew ▸ hawaits
  obtain ⟨_, _, hmodify, hrest⟩ := exists_of_run_bind hrun
  cases hmodify
  split at hrest
  · cases hrest
    exact ⟨hmore, rfl⟩
  · rw [run_bind_of_some (sees_get input _)] at hrest
    split at hrest
    · cases hrest
      exact ⟨⟨hmore.members, hmore.placed, hmore.aliases, hmore.known⟩, rfl⟩
    · cases hrest
      refine ⟨⟨fun name other hfound ↦ ?_, hmore.placed, hmore.aliases, hmore.known⟩, rfl⟩
      by_cases heq : name = ident.name
      · subst heq
        cases (Dict.find?_insert_self _ _ _).symm.trans hfound
        exact ⟨hname, List.mem_append_right _ List.mem_cons_self⟩
      · exact hmore.members name other ((Dict.find?_insert_of_ne _ _ heq).symm.trans hfound)

/-- A name that is declared together with its symbol. -/
theorem outlined_pendingMember {ident : Ident} {found : Symbol} {waiting : Pending}
    {input : CheckInput} (hs : s.Outlined names False) (hname : names ident.name)
    (halias : found.kind = .typeName → found.isAlias = true →
      ∃ spec file, waiting = .type spec file ∧ spec.isAlias = true)
    (hrun : declareMember ident s.store.next input (s.pend ident found waiting) =
      some ((), later)) : later.Outlined names False ∧ s.store.Grows later.store := by
  obtain ⟨hplaced, hawaits⟩ := s.awaits_pend ident found waiting halias
  obtain ⟨hlater, hstore⟩ :=
    outlined_declareMember (hs.pend ident found waiting) hname hplaced hawaits hrun
  exact ⟨hlater, hstore ▸ Store.grows_push s.store found⟩

/-! ### Declarations -/

theorem outlines_pendingFunc (file : Nat) (decl : FuncDecl) :
    Outlines names known (pendingFunc file decl) := by
  refine .looking (sees_declared _ _) fun found ↦ .bind (fun input s id later hs hrun ↦ ?_) fun id ↦
    .bind (.modify (fun _ ↦ rfl) (fun _ ↦ rfl) (fun _ ↦ rfl) fun _ ↦ rfl) fun _ ↦ .pure id
  cases (run_pendingSymbol _ _ _ input s).symm.trans hrun
  exact ⟨hs.pend _ _ _, Store.grows_push s.store _⟩

theorem outlines_collectFunc (file : Nat) {decl : FuncDecl} (hname : names decl.name.name) :
    Outlines names False (collectFunc file decl) := by
  intro input s _ later hs hrun
  obtain ⟨id, middle, hpending, hrest⟩ := exists_of_run_bind hrun
  obtain ⟨hmiddle, hgrows⟩ := outlines_pendingFunc file decl input s id middle hs hpending
  cases hpending
  split at hrest
  · cases hrest
    exact ⟨hmiddle, hgrows⟩
  · obtain ⟨hlater, hstore⟩ := outlined_declareMember hmiddle hname
      (s.awaits_pend decl.name _ (.func decl file) (by nofun)).1
      (s.awaits_pend decl.name _ (.func decl file) (by nofun)).2 hrest
    exact ⟨hlater, hstore ▸ hgrows⟩

theorem outlines_collectType (file : Nat) {spec : TypeSpec} (hname : names spec.name.name) :
    Outlines names False (collectType file spec) := by
  refine .looking (sees_declared _ _) fun found ↦ fun input s _ later hs hrun ↦ ?_
  rw [run_bind_of_some (run_pendingSymbol _ _ _ input s)] at hrun
  exact outlined_pendingMember hs hname (fun _ halias ↦ ⟨spec, file, rfl, halias⟩) hrun

theorem outlines_collectValues (file iota : Nat) (isConst : Bool) {spec : ValueSpec}
    (init : Initializers) (hnames : ∀ ident ∈ spec.names, names ident.name) :
    Outlines names False (collectValues file iota isConst spec init) := by
  refine .looking sees_get fun s ↦ .bind (.mapM fun ident hident ↦ ?_) fun ids ↦
    .modify (fun _ ↦ rfl) (fun _ ↦ rfl) (fun _ ↦ rfl) fun _ ↦ rfl
  intro input s id later hs hrun
  rw [run_bind_of_some (sees_declared _ _ input s),
    run_bind_of_some (run_pendingSymbol _ _ _ input s)] at hrun
  obtain ⟨_, middle, hdeclare, hpure⟩ := exists_of_run_bind hrun
  cases hpure
  refine outlined_pendingMember hs (hnames ident hident) (fun hkind ↦ ?_) hdeclare
  cases isConst <;> cases hkind

theorem outlines_collectSpecs (file : Nat) (isConst : Bool) {specs : List Spec} (iota : Nat)
    (inherited : Option Initializers)
    (h : ∀ spec ∈ specs, ∀ key ∈ DeclKey.ofSpec spec, names key.name) :
    Outlines names False (collectSpecs file isConst iota inherited specs) := by
  induction specs generalizing iota inherited with
  | nil => exact .pure ()
  | cons spec rest ih =>
    obtain ⟨hspec, hrest⟩ := List.forall_mem_cons.1 h
    cases spec with
    | imports spec => exact ih _ _ hrest
    | type spec =>
      exact .bind (outlines_collectType file (hspec _ List.mem_cons_self)) fun _ ↦ ih _ _ hrest
    | value spec =>
      exact .bind (outlines_collectValues file iota isConst _ fun ident hident ↦
        hspec _ (List.mem_map_of_mem hident)) fun _ ↦ ih _ _ hrest

theorem outlines_collectDecl (file : Nat) {decl : Decl}
    (h : ∀ name ∈ decl.declaredNames, names name) :
    Outlines names False (collectDecl file decl) := by
  cases decl with
  | gen decl =>
    exact outlines_collectSpecs file _ 0 none fun spec hspec key hkey ↦
      h _ (List.mem_map_of_mem (List.mem_flatMap.2 ⟨spec, hspec, hkey⟩))
  | func decl => exact .ite (outlines_collectFunc file (h _ List.mem_cons_self)) (.pure ())

theorem outlines_collectImport (file : Nat) (spec : ImportSpec) :
    Outlines names known (collectImport file spec) := by
  have hadd (change : FileScope → FileScope) : Outlines names known
      (modify fun s ↦ { s with files := s.files.modify file change }) :=
    .modify (fun _ ↦ rfl) (fun _ ↦ rfl) (fun _ ↦ rfl) fun _ ↦ rfl
  have hscope : Outlines names known (importedScope spec.pathValue) :=
    .looking sees_read fun _ ↦ .ite (.pure _) (.pure _)
  refine .bind hscope fun found ↦ ?_
  cases found with
  | error reason => exact .ofRuns (runs_report _ _ : Runs _ _ .nothing _)
  | ok scope =>
    refine .looking sees_read fun input ↦
      .bind (.ofRuns (runs_addSymbol _ : Runs _ _ .nothing _)) fun id ↦ ?_
    cases spec.name with
    | some ident =>
      exact .bind (.ofRuns (runs_recordDef _ _ : Runs _ _ .nothing _)) fun _ ↦ hadd _
    | none => exact .bind (.ofRuns (runs_recordImplicit _ _ : Runs _ _ .nothing _)) fun _ ↦ hadd _

theorem outlines_collectFile (file : Nat) {source : SourceFile}
    (h : ∀ name ∈ source.declaredNames, names name) :
    Outlines names False (collectFile file source) :=
  .bind (.modify (fun _ ↦ rfl) (fun _ ↦ rfl) (fun _ ↦ rfl) fun _ ↦ rfl) fun _ ↦
    .bind (.forM fun spec _ ↦ outlines_collectImport file spec) fun _ ↦
    .forM fun decl hdecl ↦ outlines_collectDecl file fun name hname ↦
      h name (List.mem_flatMap.2 ⟨decl, hdecl, hname⟩)

/-! ### Methods -/

theorem outlines_addMethod (owner method : SymbolId) :
    Outlines names known (modifyStore (·.addMethod owner method)) := by
  intro input s _ later hs hrun
  cases hrun
  have hgrows : s.store.Grows (s.store.addMethod owner method) :=
    Store.grows_modify s.store owner (.of fun _ ↦ rfl)
  exact ⟨hs.ofStore hgrows rfl rfl fun _ _ ↦ rfl, hgrows⟩

theorem outlines_collectMethod (file : Nat) (decl : FuncDecl) :
    Outlines names known (collectMethod file decl) := by
  have hreport (pos : Nat) (problem : Problem) : Outlines names known (report pos problem) :=
    .ofRuns (runs_report _ _ : Runs _ _ .nothing _)
  refine .bind (outlines_pendingFunc file decl) fun id ↦ ?_
  cases decl.receiverBase? with
  | none => exact hreport _ _
  | some base =>
    refine .looking sees_get fun s ↦ ?_
    cases s.members.find? base.name with
    | none => exact hreport _ _
    | some owner =>
      exact .looking sees_store fun store ↦ .ite (hreport _ _)
        (.ite (.pure ()) (.ite (hreport _ _) (outlines_addMethod owner id)))

theorem outlines_collectMethods (file : Nat) (source : SourceFile) :
    Outlines names known (collectMethods file source) := by
  refine .forM fun decl _ ↦ ?_
  cases decl with
  | gen decl => exact .pure ()
  | func decl => exact .ite (outlines_collectMethod file decl) (.pure ())

/-! ### Resolving -/

variable {depth : Nat}

theorem outlines_resolve (id : SymbolId) : Outlines names known ((Checker.within depth).resolve id) :=
  .ofRuns (Checker.within_runs depth (.resolve id))

theorem outlines_funcBody (decl : FuncDecl) (id : SymbolId) (file : Nat) :
    Outlines names known (funcBody (Checker.within depth) decl id file) :=
  .ofRuns (runs_funcBody id
    (fun receiver _ ↦ Checker.within_runs depth (.typeExpr receiver.type))
    fun _ _ s _ ↦ Checker.within_runs depth (.stmt s) : Runs _ _ .nothing _)

/-- A type that is settled is known. -/
theorem isSome_setType {store : Store} {id : SymbolId} (hid : id.index < store.symbols.size)
    (type : Ty) : ((store.setType id type).get id).type.isSome = true := by
  unfold Store.setType
  rw [Store.get_modify, if_pos ⟨rfl, hid⟩]
  cases (store.get id).type <;> rfl

/-- The type of an alias is known once the alias is resolved. -/
theorem isSome_resolve {input : CheckInput} {id : SymbolId} {spec : TypeSpec} {file : Nat}
    (hid : id.index < s.store.symbols.size) (hpending : s.pending.find? id = some (.type spec file))
    (halias : spec.isAlias = true)
    (hrun : (Checker.within depth).resolve id input s = some ((), later)) :
    (later.store.get id).type.isSome = true := by
  cases depth with
  | zero => cases hrun
  | succ depth =>
    change resolve (Checker.within depth) id input s = some ((), later) at hrun
    unfold resolve at hrun
    rw [run_bind_of_some (sees_get input s)] at hrun
    simp only [hpending] at hrun
    rw [resolveType_eq, run_bind_of_some (sees_symbol id input s)] at hrun
    simp only [halias, if_true] at hrun
    split at hrun
    · rename_i hknown
      cases hrun
      exact hknown
    · rw [run_bind_of_some (sees_get input s)] at hrun
      split at hrun
      · cases hrun
        exact isSome_setType hid _
      · obtain ⟨middle, hstep, rfl⟩ := exists_of_run_between hrun
        unfold typeStep at hstep
        obtain ⟨type, known, hexpr, hsettle⟩ := exists_of_run_bind hstep
        simp only [halias, if_true] at hsettle
        cases hsettle
        have hcontext : Runs (fun _ ↦ True) True .nothing
            (inContext (Context.ofFile file) ((Checker.within depth).typeExpr spec.type)) :=
          .inContext (Checker.within_runs depth (.typeExpr spec.type)) fun _ _ ↦ trivial
        have hlasts := ((hcontext input _ trivial).frame _ _ hexpr).lasts
        exact isSome_setType (Nat.lt_of_lt_of_le hid hlasts.store.size_le) type

/-- The aliases among some symbols are known once all of them are resolved. -/
theorem knows_of_resolve {input : CheckInput} {ids : List SymbolId}
    (hs : s.Outlined names known) (hids : ∀ id ∈ ids, id ∈ s.objects)
    (hrun : ids.forM (Checker.within depth).resolve input s = some ((), later)) :
    later.objects = s.objects ∧ ∀ id ∈ ids, later.store.Knows id := by
  induction ids generalizing s with
  | nil =>
    cases hrun
    exact ⟨rfl, fun _ h ↦ (by cases h)⟩
  | cons first rest ih =>
    obtain ⟨hfirst, hrest⟩ := List.forall_mem_cons.1 hids
    obtain ⟨⟨⟩, middle, hstep, hsteps⟩ := exists_of_run_bind hrun
    obtain ⟨hmiddle, hgrows⟩ := outlines_resolve first input s () middle hs hstep
    obtain ⟨-, hmore⟩ := Outlines.forM (fun id _ ↦ outlines_resolve id) input middle () later hmiddle
      hsteps
    have hframe := ((Checker.within_runs depth (.resolve first)) input s trivial).frame _ _ hstep
    have hobjects : middle.objects = s.objects :=
      congrArg Collected.objects hframe.lasts.collected
    have hplaced := hs.placed first hfirst
    obtain ⟨hlater, hknown⟩ := ih hmiddle (hobjects ▸ hrest) hsteps
    refine ⟨hlater.trans hobjects, List.forall_mem_cons.2 ⟨Store.Knows.mono ?_
      (Nat.lt_of_lt_of_le hplaced hgrows.size_le) hmore, hknown⟩⟩
    intro hkind halias
    rw [hgrows.kind first hplaced] at hkind
    rw [hgrows.isAlias first hplaced] at halias
    obtain ⟨spec, file, hpending, hspec⟩ := hs.aliases first hfirst hkind halias
    exact isSome_resolve hplaced hpending hspec hstep

/-- The aliases of a package are known once its types are resolved. -/
theorem outlined_resolveTypes {input : CheckInput} (hs : s.Outlined names False)
    (hrun : (s.objects.filter fun id ↦ (s.store.get id).kind = .typeName).forM
      (Checker.within depth).resolve input s = some ((), later)) :
    later.Outlined names True ∧ s.store.Grows later.store := by
  obtain ⟨hobjects, hknown⟩ :=
    knows_of_resolve hs (fun id hid ↦ (List.mem_filter.1 hid).1) hrun
  obtain ⟨hlater, hgrows⟩ :=
    Outlines.forM (fun id _ ↦ outlines_resolve id) input s () later hs hrun
  refine ⟨⟨hlater.members, hlater.placed, hlater.aliases, fun _ id hid ↦ ?_⟩, hgrows⟩
  rw [hobjects] at hid
  intro hkind
  refine hknown id (List.mem_filter.2 ⟨hid, ?_⟩) hkind
  rw [← hgrows.kind id (hs.placed id hid), hkind]
  rfl

end

/-! ### Packages -/

/-- The members of a package have names of some kind, and what they stand for is known. -/
structure PackageScope.Outlined (names : String → Prop) (store : Store) (scope : PackageScope) :
    Prop where
  name : ∀ name id, scope.find? name = some id → names name
  placed : ∀ name id, scope.find? name = some id → id.index < store.symbols.size
  known : ∀ name id, scope.find? name = some id → store.Knows id

theorem PackageScope.Outlined.mono {names : String → Prop} {store later : Store}
    {scope : PackageScope} (h : scope.Outlined names store) (hgrows : store.Grows later) :
    scope.Outlined names later where
  name := h.name
  placed name id hfound := Nat.lt_of_lt_of_le (h.placed name id hfound) hgrows.size_le
  known name id hfound := (h.known name id hfound).mono (h.placed name id hfound) hgrows

/-- A member that names a type keeps its type. -/
theorem PackageScope.Outlined.typeOf {names : String → Prop} {store later : Store}
    {scope : PackageScope} (h : scope.Outlined names store) (hgrows : store.Grows later)
    {name : String} {id : SymbolId} (hfound : scope.find? name = some id)
    (hkind : (store.get id).kind = .typeName) : later.typeOf id = store.typeOf id := by
  have hid := h.placed name id hfound
  unfold Store.typeOf Symbol.isDefinedType
  dsimp only
  rw [hgrows.kind id hid, hgrows.isAlias id hid, hgrows.name id hid, hgrows.package id hid, hkind]
  cases halias : (store.get id).isAlias with
  | false => rfl
  | true =>
    obtain ⟨type, htype⟩ := Option.isSome_iff_exists.1 (h.known name id hfound hkind halias)
    rw [hgrows.type id hid type htype, htype]

/-- A check of files leads to an outlined package. -/
theorem checkWithin_outlined {names : String → Prop} {depth : Nat} {input : CheckInput}
    {files : List SourceFile} {store : Store} {checked : Checked}
    (hfiles : ∀ file ∈ files, ∀ name ∈ file.declaredNames, names name)
    (h : checkWithin depth input files store = some checked) :
    store.Grows checked.store ∧ checked.scope.Outlined names checked.store := by
  obtain ⟨⟨⟨⟩, last⟩, hrun, hdone⟩ := Option.bind_eq_some_iff.1 h
  cases hdone
  have hstart : (CheckState.start store).Outlined names False :=
    ⟨fun _ _ h ↦ (by cases h), fun _ h ↦ (by cases h), fun _ h ↦ (by cases h), False.elim⟩
  obtain ⟨⟨⟩, s₁, hcollect, hrun⟩ := exists_of_run_bind hrun
  obtain ⟨hs₁, h₁⟩ := Outlines.run hstart hcollect <| .forM fun entry hentry ↦
    outlines_collectFile entry.2 (hfiles _ (List.fst_mem_of_mem_zipIdx hentry))
  rw [run_bind_of_some (sees_get input s₁), run_bind_of_some (sees_store input s₁)] at hrun
  obtain ⟨⟨⟩, s₂, hresolve, hrun⟩ := exists_of_run_bind hrun
  obtain ⟨hs₂, h₂⟩ := outlined_resolveTypes hs₁ hresolve
  obtain ⟨hlast, h₃⟩ := Outlines.run hs₂ hrun <|
    .bind (.forM fun entry _ ↦ outlines_collectMethods entry.2 entry.1) fun _ ↦
    .bind (.forM fun id _ ↦ outlines_resolve id) fun _ ↦ .looking sees_get fun s ↦
    .bind (.forM fun entry _ ↦ outlines_resolve entry.2.1) fun _ ↦
    .bind (.forM fun entry _ ↦ outlines_funcBody entry.1 entry.2.1 entry.2.2) fun _ ↦
    .modify (fun _ ↦ rfl) (fun _ ↦ rfl) (fun _ ↦ rfl) fun _ ↦ rfl
  refine ⟨(h₁.trans h₂).trans h₃, fun name id hfound ↦ (hlast.members name id hfound).1,
    fun name id hfound ↦ hlast.placed id (hlast.members name id hfound).2,
    fun name id hfound ↦ hlast.known trivial id (hlast.members name id hfound).2⟩

end PackageAtlas
