import PackageAtlas.Proofs.Lookup.Settled
import PackageAtlas.Proofs.Naming.Declarations

/-!
Which declaration a name of a package stands for. A step of collecting takes the names of the
declarations that it collects and leaves the names that are taken already where they are (`Takes`);
what follows takes none. So a package has the names that its files declare and no others
(`isSome_find?_checkWithin`), and files that are checked after others never take a name from them
(`stands_checkWithin_append`): the files that do not take part in a build declare more names, and
each name of the build stands for the declaration that it stands for without them
(`RawPackage.stands_check`). What a name is found out to be is another matter: a file of the build
may use a predeclared name, and an excluded one declare it.
-/

set_option autoImplicit false
set_option relaxedAutoImplicit false

namespace PackageAtlas

open Check CheckRule

/-! ### Names that are taken -/

/-- Keys of declarations name some members, and each member from before stands. -/
structure Dict.Takes (keys : List DeclKey) (members later : Dict String SymbolId) : Prop where
  stands : ∀ name id, members.find? name = some id → later.find? name = some id
  taken : ∀ name, later.contains name = true ↔
    members.contains name = true ∨ name ≠ "_" ∧ ⟨none, name⟩ ∈ keys

namespace Dict.Takes

variable {keys keys' : List DeclKey} {members middle later : Dict String SymbolId}

theorem refl (members : Dict String SymbolId) : Takes [] members members :=
  ⟨fun _ _ ↦ id, fun name ↦ by simp⟩

theorem trans (h : Takes keys members middle) (h' : Takes keys' middle later) :
    Takes (keys ++ keys') members later where
  stands name id hfound := h'.stands name id (h.stands name id hfound)
  taken name := by rw [h'.taken, h.taken, List.mem_append, and_or_left, or_assoc]

theorem congr (h : Takes keys members later)
    (hsame : ∀ name, (⟨none, name⟩ : DeclKey) ∈ keys ↔ ⟨none, name⟩ ∈ keys') :
    Takes keys' members later :=
  ⟨h.stands, fun name ↦ by rw [h.taken, hsame]⟩

/-- Where nothing is taken, each name is a member that it was or none. -/
theorem find?_eq (h : Takes [] members later) (name : String) :
    later.find? name = members.find? name := by
  cases hfound : members.find? name with
  | some id => exact h.stands name id hfound
  | none =>
    have htaken := h.taken name
    simpa [Dict.contains, hfound] using htaken

/-- A name that is free. -/
theorem insert (name : String) (id : SymbolId) (hname : name ≠ "_")
    (hfree : members.contains name = false) :
    Takes [⟨none, name⟩] members (members.insert name id) where
  stands other symbol hfound := by
    have hne : other ≠ name := by
      rintro rfl
      rw [Dict.contains, hfound] at hfree
      cases hfree
    rw [Dict.find?_insert_of_ne _ _ hne, hfound]
  taken other := by
    have hmem : other ≠ "_" ∧ (⟨none, other⟩ : DeclKey) ∈ [⟨none, name⟩] ↔ other = name := by
      rw [List.mem_singleton, DeclKey.mk.injEq]
      exact ⟨fun h ↦ h.2.2, fun h ↦ ⟨h ▸ hname, rfl, h⟩⟩
    rw [Dict.contains_insert, hmem, or_comm]

/-- A name that is taken already, or the blank one. -/
theorem of_taken {name : String} (h : name = "_" ∨ members.contains name = true) :
    Takes [⟨none, name⟩] members members where
  stands _ _ := id
  taken other := by
    rw [List.mem_singleton, DeclKey.mk.injEq]
    refine ⟨Or.inl, fun hother ↦ hother.elim id ?_⟩
    rintro ⟨hblank, -, rfl⟩
    exact h.resolve_left hblank

end Dict.Takes

/-- A step takes the names of some keys. -/
def Takes {α : Type} (keys : List DeclKey) (step : Check α) : Prop :=
  ∀ input s a later, step input s = some (a, later) → s.members.Takes keys later.members

section Collecting

variable {α β γ : Type} {keys keys' : List DeclKey} {step : Check α} {next : α → Check β}

namespace Takes

/-- A step that changes no members. -/
theorem ofSame (h : ∀ input s a later, step input s = some (a, later) → later.members = s.members) :
    Takes [] step :=
  fun input s a later hrun ↦ h input s a later hrun ▸ .refl _

theorem ofRuns {reach : Reach} (h : Runs (fun _ ↦ True) True reach step) : Takes [] step :=
  .ofSame fun input s a later hrun ↦
    congrArg Collected.members ((h input s trivial).frame a later hrun).lasts.collected

theorem modify {f : CheckState → CheckState} (h : ∀ s, (f s).members = s.members) :
    Takes [] (modify f : Check Unit) := by
  refine .ofSame fun input s _ later hrun ↦ ?_
  cases hrun
  exact h s

theorem pure (a : α) : Takes [] (Pure.pure a) := by
  refine .ofSame fun input s b later hrun ↦ ?_
  cases hrun
  rfl

theorem bind (h : Takes keys step) (hnext : ∀ a, Takes keys' (next a)) :
    Takes (keys ++ keys') (step >>= next) := by
  intro input s b later hrun
  obtain ⟨a, middle, hstep, hrest⟩ := exists_of_run_bind hrun
  exact (h input s a middle hstep).trans (hnext a input middle b later hrest)

/-- What a step that takes nothing is followed by. -/
theorem after (h : Takes [] step) (hnext : ∀ a, Takes keys (next a)) :
    Takes keys (step >>= next) :=
  h.bind hnext

theorem looking {f : CheckInput → CheckState → α} (hlook : Sees step f)
    (hnext : ∀ a, Takes keys (next a)) : Takes keys (step >>= next) := by
  intro input s b later hrun
  rw [run_bind_of_some (hlook input s)] at hrun
  exact hnext _ input s b later hrun

theorem ite {p : Prop} [Decidable p] {step' : Check α} (h : Takes keys step)
    (h' : Takes keys step') : Takes keys (if p then step else step') := by
  split
  · exact h
  · exact h'

theorem congr (h : Takes keys step)
    (hsame : ∀ name, (⟨none, name⟩ : DeclKey) ∈ keys ↔ ⟨none, name⟩ ∈ keys') :
    Takes keys' step :=
  fun input s a later hrun ↦ (h input s a later hrun).congr hsame

theorem forM {step : γ → Check Unit} {list : List γ} {keys : γ → List DeclKey}
    (h : ∀ a, Takes (keys a) (step a)) : Takes (list.flatMap keys) (list.forM step) := by
  induction list with
  | nil => exact pure ()
  | cons a rest ih => exact (h a).bind fun _ ↦ ih

theorem forMNone {step : γ → Check Unit} {list : List γ} (h : ∀ a, Takes [] (step a)) :
    Takes [] (list.forM step) :=
  (Takes.forM h).congr fun name ↦ by simp

theorem mapM {step : γ → Check α} {list : List γ} {keys : γ → List DeclKey}
    (h : ∀ a, Takes (keys a) (step a)) : Takes (list.flatMap keys) (list.mapM step) := by
  induction list with
  | nil => exact pure []
  | cons a rest ih =>
    rw [List.mapM_cons, List.flatMap_cons]
    refine (h a).bind fun b ↦ ?_
    rw [← List.append_nil (rest.flatMap keys)]
    exact ih.bind fun bs ↦ pure (b :: bs)

end Takes

/-! ### Collecting -/

theorem takes_declareMember (ident : Ident) (id : SymbolId) :
    Takes [⟨none, ident.name⟩] (declareMember ident id) := by
  intro input s _ later hrun
  obtain ⟨_, _, hmodify, hrest⟩ := exists_of_run_bind hrun
  cases hmodify
  split at hrest
  · rename_i hblank
    cases hrest
    exact .of_taken (.inl (by simpa [Ident.isBlank] using hblank))
  · rename_i hnamed
    rw [run_bind_of_some (sees_get input _)] at hrest
    split at hrest
    · rename_i htaken
      cases hrest
      exact .of_taken (.inr htaken)
    · rename_i hfree
      cases hrest
      exact .insert _ _ (by simpa [Ident.isBlank] using hnamed) (Bool.eq_false_iff.mpr hfree)

theorem takes_pendingSymbol (ident : Ident) (found : Symbol) (waiting : Pending) :
    Takes [] (pendingSymbol ident found waiting) := by
  refine .ofSame fun input s id later hrun ↦ ?_
  cases (run_pendingSymbol _ _ _ input s).symm.trans hrun
  rfl

theorem takes_pendingFunc (file : Nat) (decl : FuncDecl) : Takes [] (pendingFunc file decl) :=
  .looking (sees_declared _ _) fun _ ↦ .bind (takes_pendingSymbol _ _ _) fun id ↦
    .after (.modify fun _ ↦ rfl) fun _ ↦ .pure id

theorem takes_collectFunc (file : Nat) {decl : FuncDecl} (hfunc : decl.receiver = none) :
    Takes (DeclKey.ofDecl (.func decl)) (collectFunc file decl) := by
  refine .after (takes_pendingFunc file decl) fun id ↦ ?_
  simp only [DeclKey.ofDecl, DeclKey.ofFunc?, hfunc, Option.isSome_none, Bool.false_eq_true,
    if_false]
  by_cases hinit : decl.name.name = "init"
  · simpa [hinit] using Takes.pure ()
  · simpa [hinit] using takes_declareMember decl.name id

theorem takes_collectType (file : Nat) (spec : TypeSpec) :
    Takes (DeclKey.ofSpec (.type spec)) (collectType file spec) :=
  .looking (sees_declared _ _) fun _ ↦ .after (takes_pendingSymbol _ _ _) fun id ↦
    takes_declareMember spec.name id

theorem takes_collectValues (file iota : Nat) (isConst : Bool) (spec : ValueSpec)
    (init : Initializers) :
    Takes (DeclKey.ofSpec (.value spec)) (collectValues file iota isConst spec init) := by
  have hname (name : Ident) (group : Nat) : Takes [⟨none, name.name⟩] (do
      let found ← declared (if isConst then .const else .var) name
      let id ← pendingSymbol name found (.value group)
      declareMember name id
      return id : Check SymbolId) :=
    .looking (sees_declared _ _) fun _ ↦ .after (takes_pendingSymbol _ _ _) fun id ↦
      .bind (takes_declareMember name id) fun _ ↦ .pure id
  have hnames : DeclKey.ofSpec (.value spec) =
      (spec.names.flatMap fun name ↦ [⟨none, name.name⟩]) ++ [] := by
    rw [List.append_nil, ← List.map_eq_flatMap]
    rfl
  rw [hnames]
  exact .looking sees_get fun _ ↦ .bind (.mapM fun name ↦ hname name _) fun ids ↦
    .modify fun _ ↦ rfl

theorem takes_collectSpecs (file : Nat) (isConst : Bool) (specs : List Spec) (iota : Nat)
    (inherited : Option Initializers) :
    Takes (specs.flatMap DeclKey.ofSpec) (collectSpecs file isConst iota inherited specs) := by
  induction specs generalizing iota inherited with
  | nil => exact .pure ()
  | cons spec rest ih =>
    cases spec with
    | imports spec => exact ih _ _
    | type spec => exact .bind (takes_collectType file spec) fun _ ↦ ih _ _
    | value spec => exact .bind (takes_collectValues file iota isConst spec _) fun _ ↦ ih _ _

/-- A method takes no name of the package. -/
theorem takes_collectDecl (file : Nat) (decl : Decl) :
    Takes (DeclKey.ofDecl decl) (collectDecl file decl) := by
  cases decl with
  | gen decl => exact takes_collectSpecs file _ decl.specs 0 none
  | func decl =>
    rw [collectDecl]
    cases hreceiver : decl.receiver with
    | none => exact takes_collectFunc file hreceiver
    | some receiver =>
      refine (Takes.pure ()).congr fun name ↦ ?_
      simp [DeclKey.ofDecl, DeclKey.ofFunc?, hreceiver]

theorem takes_collectImport (file : Nat) (spec : ImportSpec) :
    Takes [] (collectImport file spec) := by
  have hadd (change : FileScope → FileScope) : Takes []
      (modify fun s ↦ { s with files := s.files.modify file change } : Check Unit) :=
    .modify fun _ ↦ rfl
  have hscope : Takes [] (importedScope spec.pathValue) :=
    .looking sees_read fun _ ↦ .ite (.pure _) (.pure _)
  refine .bind hscope fun found ↦ ?_
  cases found with
  | error reason => exact .ofRuns (runs_report _ _ : Runs _ _ .nothing _)
  | ok scope =>
    refine .looking sees_read fun input ↦
      .bind (.ofRuns (runs_addSymbol _ : Runs _ _ .nothing _)) fun id ↦ ?_
    cases spec.name with
    | some ident =>
      exact .bind (.ofRuns (runs_recordDef _ _ : Runs _ _ .nothing _)) fun _ ↦ hadd _
    | none => exact .bind (.ofRuns (runs_recordImplicit _ _ : Runs _ _ .nothing _)) fun _ ↦ hadd _

/-- A file takes the names that it declares. -/
theorem takes_collectFile (file : Nat) (source : SourceFile) :
    Takes (DeclKey.ofFile source) (collectFile file source) := by
  have hdecls : Takes (source.decls.flatMap DeclKey.ofDecl) (collectFile file source) :=
    .after (.modify fun _ ↦ rfl) fun _ ↦ .after (.forMNone (takes_collectImport file)) fun _ ↦
      .forM (takes_collectDecl file)
  intro input s _ later hrun
  have htakes := hdecls input s () later hrun
  refine ⟨htakes.stands, fun name ↦ ?_⟩
  simp [htakes.taken, DeclKey.ofFile, and_comm]

/-! ### Methods -/

theorem takes_collectMethod (file : Nat) (decl : FuncDecl) :
    Takes [] (collectMethod file decl) := by
  have hreport (pos : Nat) (problem : Problem) : Takes [] (report pos problem) :=
    .ofRuns (runs_report _ _ : Runs _ _ .nothing _)
  refine .bind (takes_pendingFunc file decl) fun id ↦ ?_
  cases decl.receiverBase? with
  | none => exact hreport _ _
  | some base =>
    refine .looking sees_get fun s ↦ ?_
    cases s.members.find? base.name with
    | none => exact hreport _ _
    | some owner =>
      exact .looking sees_store fun store ↦ .ite (hreport _ _)
        (.ite (.pure ()) (.ite (hreport _ _) (.modify fun _ ↦ rfl)))

theorem takes_collectMethods (file : Nat) (source : SourceFile) :
    Takes [] (collectMethods file source) := by
  refine .forMNone fun decl ↦ ?_
  cases decl with
  | gen decl => exact .pure ()
  | func decl => exact .ite (takes_collectMethod file decl) (.pure ())

end Collecting

/-! ### Headers -/

/-- What a symbol is declared as, whatever becomes known of it. -/
structure Symbol.Header where
  kind : SymbolKind
  name : String
  package : Option String
  origin : Option Origin
  isAlias : Bool

def Symbol.header (symbol : Symbol) : Symbol.Header :=
  ⟨symbol.kind, symbol.name, symbol.package, symbol.origin, symbol.isAlias⟩

theorem Store.Grows.header {store later : Store} (h : store.Grows later) {id : SymbolId}
    (hid : id.index < store.symbols.size) : (later.get id).header = (store.get id).header := by
  unfold Symbol.header
  rw [h.kind id hid, h.name id hid, h.package id hid, h.origin id hid, h.isAlias id hid]

/-- A defined type is known by its header. -/
theorem Store.typeOf_of_header {store later : Store} {id : SymbolId}
    (h : (later.get id).header = (store.get id).header)
    (hdefined : (store.get id).isDefinedType = true) : later.typeOf id = store.typeOf id := by
  obtain ⟨hkind, hname, hpackage, -, halias⟩ := Symbol.Header.mk.injEq .. ▸ h
  have hlater : (later.get id).isDefinedType = true := by
    rwa [Symbol.isDefinedType, hkind, halias]
  unfold Store.typeOf
  simp only [hlater, hdefined, hname, hpackage, if_true]

/-! ### Checks -/

section Checks

variable {depth : Nat} {input : CheckInput} {files : List SourceFile} {store : Store}
  {checked : Checked}

/-- What a check does first: it collects the names of numbered files. -/
def collecting (numbered : List (SourceFile × Nat)) : Check Unit :=
  numbered.forM fun (source, file) ↦ collectFile file source

theorem collecting_append (first rest : List (SourceFile × Nat)) :
    collecting (first ++ rest) = collecting first >>= fun _ ↦ collecting rest :=
  List.forM_append

/-- What a check does with numbered files whose names are collected. -/
def settling (c : Checker) (numbered : List (SourceFile × Nat)) : Check Unit := do
  let objects := (← get).objects
  let store ← Check.store
  (objects.filter fun id ↦ (store.get id).kind = .typeName).forM c.resolve
  numbered.forM fun (source, file) ↦ collectMethods file source
  objects.forM c.resolve
  let funcs := (← get).funcs
  funcs.forM fun (_, id, _) ↦ c.resolve id
  funcs.forM fun (decl, id, file) ↦ funcBody c decl id file
  modify fun s ↦ { s with reports := (unused s).reverse ++ s.reports }

theorem package_eq (c : Checker) (files : List SourceFile) :
    package c files = collecting files.zipIdx >>= fun _ ↦ settling c files.zipIdx := rfl

theorem takes_collecting (numbered : List (SourceFile × Nat)) :
    Takes (numbered.flatMap fun entry ↦ DeclKey.ofFile entry.1) (collecting numbered) :=
  .forM fun entry ↦ takes_collectFile entry.2 entry.1

theorem takes_settling (depth : Nat) (numbered : List (SourceFile × Nat)) :
    Takes [] (settling (Checker.within depth) numbered) := by
  have hresolve (id : SymbolId) : Takes [] ((Checker.within depth).resolve id) :=
    .ofRuns (Checker.within_runs depth (.resolve id))
  have hbody (decl : FuncDecl) (id : SymbolId) (file : Nat) :
      Takes [] (funcBody (Checker.within depth) decl id file) :=
    .ofRuns (runs_funcBody id
      (fun receiver _ ↦ Checker.within_runs depth (.typeExpr receiver.type))
      fun _ _ s _ ↦ Checker.within_runs depth (.stmt s) : Runs _ _ .nothing _)
  exact .looking sees_get fun _ ↦ .looking sees_store fun _ ↦
    .after (.forMNone hresolve) fun _ ↦
    .after (.forMNone fun entry ↦ takes_collectMethods entry.2 entry.1) fun _ ↦
    .after (.forMNone hresolve) fun _ ↦ .looking sees_get fun _ ↦
    .after (.forMNone fun entry ↦ hresolve entry.2.1) fun _ ↦
    .after (.forMNone fun entry ↦ hbody entry.1 entry.2.1 entry.2.2) fun _ ↦ .modify fun _ ↦ rfl

theorem outlines_collecting (numbered : List (SourceFile × Nat)) :
    Outlines (fun _ ↦ True) False (collecting numbered) :=
  .forM fun entry _ ↦ outlines_collectFile entry.2 fun _ _ ↦ trivial

theorem outlines_settling (depth : Nat) (numbered : List (SourceFile × Nat)) :
    Outlines (fun _ ↦ True) False (settling (Checker.within depth) numbered) :=
  .looking sees_get fun _ ↦ .looking sees_store fun _ ↦
    .bind (.forM fun id _ ↦ outlines_resolve id) fun _ ↦
    .bind (.forM fun entry _ ↦ outlines_collectMethods entry.2 entry.1) fun _ ↦
    .bind (.forM fun id _ ↦ outlines_resolve id) fun _ ↦ .looking sees_get fun _ ↦
    .bind (.forM fun entry _ ↦ outlines_resolve entry.2.1) fun _ ↦
    .bind (.forM fun entry _ ↦ outlines_funcBody entry.1 entry.2.1 entry.2.2) fun _ ↦
    .modify (fun _ ↦ rfl) (fun _ ↦ rfl) (fun _ ↦ rfl) fun _ ↦ rfl

/-- What is collected before a check goes on: the members of the package and their symbols. -/
structure CheckState.HasCollected (input : CheckInput) (numbered : List (SourceFile × Nat))
    (store : Store) (checked : Checked) (s : CheckState) : Prop where
  run : collecting numbered input (CheckState.start store) = some ((), s)
  outlined : s.Outlined (fun _ ↦ True) False
  scope : ∀ name, checked.scope.find? name = s.members.find? name
  grows : s.store.Grows checked.store

theorem exists_hasCollected (h : checkWithin depth input files store = some checked) :
    ∃ s : CheckState, s.HasCollected input files.zipIdx store checked := by
  obtain ⟨⟨⟨⟩, last⟩, hrun, hdone⟩ := Option.bind_eq_some_iff.mp h
  cases hdone
  change package (Checker.within depth) files input (CheckState.start store) = _ at hrun
  rw [package_eq] at hrun
  obtain ⟨⟨⟩, s, hcollect, hsettle⟩ := exists_of_run_bind hrun
  have hstart : (CheckState.start store).Outlined (fun _ ↦ True) False :=
    ⟨fun _ _ h ↦ (by cases h), fun _ h ↦ (by cases h), fun _ h ↦ (by cases h), False.elim⟩
  have hs := (outlines_collecting files.zipIdx).run hstart hcollect
  exact ⟨s, hcollect, hs.1, (takes_settling depth files.zipIdx input s () last hsettle).find?_eq,
    ((outlines_settling depth files.zipIdx).run hs.1 hsettle).2⟩

/-- A package has the names that its files declare, whatever their order, and no others. -/
theorem isSome_find?_checkWithin (h : checkWithin depth input files store = some checked)
    (name : String) : (checked.scope.find? name).isSome = true ↔
      ∃ file ∈ files, (⟨none, name⟩ : DeclKey) ∈ DeclKey.ofFile file := by
  obtain ⟨s, hs⟩ := exists_hasCollected h
  have htaken := (takes_collecting files.zipIdx input _ () s hs.run).taken name
  rw [hs.scope]
  constructor
  · intro hsome
    obtain hstart | ⟨-, hkey⟩ := htaken.mp hsome
    · exact absurd hstart Bool.false_ne_true
    · obtain ⟨entry, hentry, hkey⟩ := List.mem_flatMap.mp hkey
      exact ⟨entry.1, List.fst_mem_of_mem_zipIdx hentry, hkey⟩
  · rintro ⟨file, hfile, hkey⟩
    obtain ⟨number, hnumber⟩ := List.getElem?_of_mem hfile
    have hentry : (file, number) ∈ files.zipIdx := List.mem_zipIdx_iff_getElem?.mpr hnumber
    have hname : name ≠ "_" := by simpa using (List.mem_filter.mp hkey).2
    exact htaken.mpr (.inr ⟨hname, List.mem_flatMap.mpr ⟨_, hentry, hkey⟩⟩)

/-- Files that are checked after others never take a name from them: it stands for the same symbol,
which is declared where it was. -/
theorem stands_checkWithin_append {more : Nat} {others : List SourceFile} {alone all : Checked}
    (halone : checkWithin depth input files store = some alone)
    (hall : checkWithin more input (files ++ others) store = some all) {name : String}
    {id : SymbolId} (hfound : alone.scope.find? name = some id) :
    all.scope.find? name = some id ∧ (all.store.get id).header = (alone.store.get id).header := by
  obtain ⟨s, hs⟩ := exists_hasCollected halone
  obtain ⟨later, hlater⟩ := exists_hasCollected hall
  have hrest : collecting (others.zipIdx files.length) input s = some ((), later) := by
    have hrun := hlater.run
    rw [List.zipIdx_append, Nat.zero_add, collecting_append] at hrun
    exact (run_bind_of_some hs.run).symm.trans hrun
  have hmember : s.members.find? name = some id := (hs.scope name).symm.trans hfound
  have hplaced := hs.outlined.placed id (hs.outlined.members name id hmember).2
  have hgrows := ((outlines_collecting _).run hs.outlined hrest).2
  refine ⟨(hlater.scope name).trans ((takes_collecting _ input s () later hrest).stands name id
    hmember), ?_⟩
  rw [(hgrows.trans hlater.grows).header hplaced, hs.grows.header hplaced]

end Checks

/-! ### Packages -/

namespace RawPackage

/-- The package without the files that do not take part in its build. -/
def buildOnly (raw : RawPackage) : RawPackage :=
  { raw with files := raw.buildableFiles, excluded := [] }

/-- The files of the build stay as they are when names are told apart. -/
theorem buildableFiles_dedupe (raw : RawPackage) :
    raw.dedupe.1.buildableFiles = raw.buildableFiles := by
  have hfilter {files others : List SourceFile} (h : List.Forall₂ raw.FileStays files others) :
      others.filter raw.isBuildable = files.filter raw.isBuildable := by
    induction h with
    | nil => rfl
    | @cons old new files others hfile _ ih =>
      rw [List.filter_cons, List.filter_cons, isBuildable_congr hfile.name, ih]
      cases hbuildable : raw.isBuildable old with
      | false => rfl
      | true => rw [hfile.buildable hbuildable]
  exact hfilter raw.filesStay_dedupe

theorem checkOrder_buildOnly (raw : RawPackage) :
    raw.buildOnly.dedupe.1.checkOrder = raw.buildableFiles := by
  have hall (package : RawPackage) (h : package.excluded = []) :
      package.buildableFiles = package.files ∧ package.excludedFiles = [] := by
    simp [buildableFiles, excludedFiles, isBuildable, h]
  rw [checkOrder, (hall raw.buildOnly.dedupe.1 rfl).2, buildableFiles_dedupe,
    (hall raw.buildOnly rfl).1, List.append_nil]
  rfl

/-- A package has the names that its files declare once they are told apart, and no others. -/
theorem isSome_find?_check {raw : RawPackage} {place : ImportPlace}
    {importer : String → Except ImportError PackageScope} {store later : Store}
    {package : ResolvedPackage} (h : raw.check place importer store = some (.ok package, later))
    (name : String) : (package.scope.find? name).isSome = true ↔
      ∃ file ∈ raw.dedupe.1.files, (⟨none, name⟩ : DeclKey) ∈ DeclKey.ofFile file := by
  obtain ⟨checked, hchecked, rfl, -⟩ := check_eq_some h
  refine (isSome_find?_checkWithin hchecked name).trans (exists_congr fun file ↦ ?_)
  rw [mem_checkOrder]

/-- The names of a build stand for what they stand for without the files that do not take part in
it, whatever those declare; so a type that the build defines is the same type. -/
theorem stands_check {raw : RawPackage} {place place' : ImportPlace}
    {importer : String → Except ImportError PackageScope} {store aloneStore allStore : Store}
    {alone all : ResolvedPackage}
    (halone : raw.buildOnly.check place importer store = some (.ok alone, aloneStore))
    (hall : raw.check place' importer store = some (.ok all, allStore)) {name : String}
    {id : SymbolId} (hfound : alone.scope.find? name = some id) :
    all.scope.find? name = some id ∧ (allStore.get id).header = (aloneStore.get id).header ∧
      ((aloneStore.get id).isDefinedType = true → allStore.typeOf id = aloneStore.typeOf id) := by
  obtain ⟨build, hbuild, rfl, rfl⟩ := check_eq_some halone
  obtain ⟨whole, hwhole, rfl, rfl⟩ := check_eq_some hall
  rw [checkOrder_buildOnly] at hbuild
  rw [checkOrder, buildableFiles_dedupe] at hwhole
  obtain ⟨hstands, hheader⟩ := stands_checkWithin_append hbuild hwhole hfound
  exact ⟨hstands, hheader, Store.typeOf_of_header hheader⟩

end RawPackage

end PackageAtlas
