import PackageAtlas.Proofs.Resolution.Tasks

/-!
Reports stay. No step of a check takes back what was reported before it, from the collection of the
files to the names that stay unused. So an import that fails makes the whole check fail, whatever is
checked after it (`exists_hard_of_failed_import`).
-/

set_option autoImplicit false
set_option relaxedAutoImplicit false

namespace PackageAtlas

open Check CheckRule

/-- Whatever was reported before a step is reported after it. -/
def KeepsReports {α : Type} (step : Check α) : Prop :=
  ∀ input s a later, step input s = some (a, later) → s.reports <:+ later.reports

/-- After a step for an input something is reported. -/
def Reports {α : Type} (input : CheckInput) (diagnostic : Diagnostic) (step : Check α) : Prop :=
  ∀ s a later, step input s = some (a, later) → diagnostic ∈ later.reports

section Judgements

variable {α β γ : Type} {input : CheckInput} {diagnostic : Diagnostic} {step : Check α}
  {next : α → Check β}

namespace KeepsReports

theorem ofRuns {reach : Reach} (h : Runs (fun _ ↦ True) True reach step) : KeepsReports step :=
  fun input s a later hlater ↦ ((h input s trivial).frame a later hlater).lasts.reports

theorem pure (a : α) : KeepsReports (Pure.pure a) := by
  intro input s b later h
  cases h
  exact List.suffix_refl _

theorem bind (h : KeepsReports step) (hnext : ∀ a, KeepsReports (next a)) :
    KeepsReports (step >>= next) := by
  intro input s b later hrun
  obtain ⟨a, middle, hstep, hrest⟩ := exists_of_run_bind hrun
  exact (h input s a middle hstep).trans (hnext a input middle b later hrest)

theorem looking {f : CheckInput → CheckState → α} (hsee : Sees step f)
    (hnext : ∀ a, KeepsReports (next a)) : KeepsReports (step >>= next) :=
  bind (ofRuns (.ofLook hsee : Runs _ True .nothing step)) hnext

theorem ite {p : Prop} [Decidable p] {step' : Check α} (h : KeepsReports step)
    (h' : KeepsReports step') : KeepsReports (if p then step else step') := by
  split
  · exact h
  · exact h'

theorem modify {f : CheckState → CheckState} (h : ∀ s : CheckState, s.reports <:+ (f s).reports) :
    KeepsReports (modify f : Check Unit) := by
  intro input s a later hrun
  cases hrun
  exact h s

theorem forM {step : γ → Check Unit} {list : List γ} (h : ∀ a ∈ list, KeepsReports (step a)) :
    KeepsReports (list.forM step) := by
  induction list with
  | nil => exact pure ()
  | cons a rest ih =>
    exact (h a List.mem_cons_self).bind fun _ ↦
      ih fun other hother ↦ h other (List.mem_cons_of_mem a hother)

theorem mapM {step : γ → Check α} {list : List γ} (h : ∀ a ∈ list, KeepsReports (step a)) :
    KeepsReports (list.mapM step) := by
  induction list with
  | nil => exact pure []
  | cons a rest ih =>
    rw [List.mapM_cons]
    refine (h a List.mem_cons_self).bind fun b ↦ ?_
    exact (ih fun other hother ↦ h other (List.mem_cons_of_mem a hother)).bind fun bs ↦
      pure (b :: bs)

end KeepsReports

namespace Reports

theorem keep (h : Reports input diagnostic step) (hnext : ∀ a, KeepsReports (next a)) :
    Reports input diagnostic (step >>= next) := by
  intro s b later hrun
  obtain ⟨a, middle, hstep, hrest⟩ := exists_of_run_bind hrun
  exact (hnext a input middle b later hrest).subset (h s a middle hstep)

theorem last (hnext : ∀ a, Reports input diagnostic (next a)) :
    Reports input diagnostic (step >>= next) := by
  intro s b later hrun
  obtain ⟨a, middle, -, hrest⟩ := exists_of_run_bind hrun
  exact hnext a middle b later hrest

theorem forM {step : γ → Check Unit} {list : List γ} (h : ∀ a ∈ list, KeepsReports (step a)) {a : γ}
    (ha : a ∈ list) (hreports : Reports input diagnostic (step a)) :
    Reports input diagnostic (list.forM step) := by
  induction list with
  | nil => cases ha
  | cons b rest ih =>
    have hrest : ∀ other ∈ rest, KeepsReports (step other) :=
      fun other hother ↦ h other (List.mem_cons_of_mem b hother)
    rcases List.mem_cons.mp ha with rfl | hmem
    · exact hreports.keep fun _ ↦ .forM hrest
    · exact .last fun _ ↦ ih hrest hmem

end Reports

end Judgements

/-! ### Collection -/

section Collection

theorem keepsReports_declareMember (ident : Ident) (id : SymbolId) :
    KeepsReports (declareMember ident id) := by
  refine .bind (.modify fun _ ↦ List.suffix_refl _) fun _ ↦ .ite (.pure ()) ?_
  refine .looking sees_get fun s ↦ .ite (.ofRuns (runs_report _ _ : Runs _ _ .nothing _)) ?_
  exact .modify fun _ ↦ List.suffix_refl _

theorem keepsReports_pendingSymbol (ident : Ident) (found : Symbol) (pending : Pending) :
    KeepsReports (pendingSymbol ident found pending) :=
  .bind (.ofRuns (runs_addSymbol found : Runs _ _ .nothing _)) fun id ↦
    .bind (.ofRuns (runs_recordDef ident id : Runs _ _ .nothing _)) fun _ ↦
    .bind (.modify fun _ ↦ List.suffix_refl _) fun _ ↦ .pure id

theorem keepsReports_pendingFunc (file : Nat) (decl : FuncDecl) :
    KeepsReports (pendingFunc file decl) :=
  .looking (sees_declared _ _) fun found ↦ .bind (keepsReports_pendingSymbol _ found _) fun id ↦
    .bind (.modify fun _ ↦ List.suffix_refl _) fun _ ↦ .pure id

theorem keepsReports_collectFunc (file : Nat) (decl : FuncDecl) :
    KeepsReports (collectFunc file decl) :=
  .bind (keepsReports_pendingFunc file decl) fun id ↦
    .ite (.pure ()) (keepsReports_declareMember _ id)

theorem keepsReports_collectType (file : Nat) (spec : TypeSpec) :
    KeepsReports (collectType file spec) :=
  .looking (sees_declared _ _) fun _ ↦ .bind (keepsReports_pendingSymbol _ _ _) fun id ↦
    keepsReports_declareMember _ id

theorem keepsReports_collectValues (file iota : Nat) (isConst : Bool) (spec : ValueSpec)
    (init : Initializers) : KeepsReports (collectValues file iota isConst spec init) := by
  refine .looking sees_get fun s ↦ .bind (.mapM fun name _ ↦ ?_) fun ids ↦
    .modify fun _ ↦ List.suffix_refl _
  exact .looking (sees_declared _ _) fun found ↦ .bind (keepsReports_pendingSymbol _ _ _) fun id ↦
    .bind (keepsReports_declareMember _ id) fun _ ↦ .pure id

theorem keepsReports_collectSpecs (file : Nat) (isConst : Bool) (specs : List Spec) (iota : Nat)
    (inherited : Option Initializers) :
    KeepsReports (collectSpecs file isConst iota inherited specs) := by
  induction specs generalizing iota inherited with
  | nil => exact .pure ()
  | cons spec rest ih =>
    cases spec with
    | imports spec => exact ih _ _
    | type spec => exact .bind (keepsReports_collectType file spec) fun _ ↦ ih _ _
    | value spec => exact .bind (keepsReports_collectValues _ _ _ _ _) fun _ ↦ ih _ _

theorem keepsReports_collectDecl (file : Nat) (decl : Decl) :
    KeepsReports (collectDecl file decl) := by
  cases decl with
  | gen decl => exact keepsReports_collectSpecs _ _ _ _ _
  | func decl => exact .ite (keepsReports_collectFunc file decl) (.pure ())

theorem keepsReports_collectImport (file : Nat) (spec : ImportSpec) :
    KeepsReports (collectImport file spec) := by
  have hscope : KeepsReports (importedScope spec.pathValue) :=
    .looking sees_read fun _ ↦ .ite (.pure _) (.pure _)
  refine .bind hscope fun found ↦ ?_
  cases found with
  | error reason => exact .ofRuns (runs_report _ _ : Runs _ _ .nothing _)
  | ok scope =>
    refine .looking sees_read fun input ↦
      .bind (.ofRuns (runs_addSymbol _ : Runs _ _ .nothing _)) fun id ↦ ?_
    cases spec.name with
    | some ident =>
      exact .bind (.ofRuns (runs_recordDef _ _ : Runs _ _ .nothing _)) fun _ ↦
        .modify fun _ ↦ List.suffix_refl _
    | none =>
      exact .bind (.ofRuns (runs_recordImplicit _ _ : Runs _ _ .nothing _)) fun _ ↦
        .modify fun _ ↦ List.suffix_refl _

theorem keepsReports_collectFile (file : Nat) (source : SourceFile) :
    KeepsReports (collectFile file source) :=
  .bind (.modify fun _ ↦ List.suffix_refl _) fun _ ↦
    .bind (.forM fun spec _ ↦ keepsReports_collectImport file spec) fun _ ↦
    .forM fun decl _ ↦ keepsReports_collectDecl file decl

theorem keepsReports_attachMethod (decl : FuncDecl) (base : Ident) (owner method : SymbolId) :
    KeepsReports (attachMethod decl base owner method) := by
  refine .looking sees_store fun store ↦ .ite ?_ (.ite (.pure ()) (.ite ?_ ?_))
  · exact .ofRuns (runs_report _ _ : Runs _ _ .nothing _)
  · exact .ofRuns (runs_report _ _ : Runs _ _ .nothing _)
  · exact .modify fun _ ↦ List.suffix_refl _

theorem keepsReports_collectMethod (file : Nat) (decl : FuncDecl) :
    KeepsReports (collectMethod file decl) := by
  refine .bind (keepsReports_pendingFunc file decl) fun id ↦ ?_
  cases decl.receiverBase? with
  | none => exact .ofRuns (runs_report _ _ : Runs _ _ .nothing _)
  | some base =>
    refine .looking sees_get fun s ↦ ?_
    cases s.members.find? base.name with
    | none => exact .ofRuns (runs_report _ _ : Runs _ _ .nothing _)
    | some owner => exact keepsReports_attachMethod decl base owner id

theorem keepsReports_collectMethods (file : Nat) (source : SourceFile) :
    KeepsReports (collectMethods file source) := by
  refine .forM fun decl _ ↦ ?_
  cases decl with
  | gen decl => exact .pure ()
  | func decl => exact .ite (keepsReports_collectMethod file decl) (.pure ())

end Collection

/-! ### Packages -/

section Packages

variable {depth : Nat} {input : CheckInput} {files : List SourceFile}

theorem keepsReports_resolve (id : SymbolId) : KeepsReports ((Checker.within depth).resolve id) :=
  .ofRuns (Checker.within_runs depth (.resolve id))

theorem keepsReports_funcBody (decl : FuncDecl) (id : SymbolId) (file : Nat) :
    KeepsReports (funcBody (Checker.within depth) decl id file) :=
  .ofRuns (runs_funcBody id
    (fun receiver _ ↦ Checker.within_runs depth (.typeExpr receiver.type))
    fun _ _ s _ ↦ Checker.within_runs depth (.stmt s) : Runs _ _ .nothing _)

/-- What is reported while the files are collected is reported by the whole check. -/
theorem reports_package {diagnostic : Diagnostic} {source : SourceFile} {file : Nat}
    (hmem : (source, file) ∈ files.zipIdx)
    (h : Reports input diagnostic (collectFile file source)) :
    Reports input diagnostic (CheckRule.package (Checker.within depth) files) := by
  have hcollect : Reports input diagnostic
      (files.zipIdx.forM fun entry ↦ collectFile entry.2 entry.1) :=
    .forM (fun entry _ ↦ keepsReports_collectFile entry.2 entry.1) hmem h
  refine hcollect.keep fun _ ↦ .looking sees_get fun s ↦ .looking sees_store fun store ↦
    .bind (.forM fun id _ ↦ keepsReports_resolve id) fun _ ↦
    .bind (.forM fun entry _ ↦ keepsReports_collectMethods entry.2 entry.1) fun _ ↦
    .bind (.forM fun id _ ↦ keepsReports_resolve id) fun _ ↦ .looking sees_get fun s ↦
    .bind (.forM fun entry _ ↦ keepsReports_resolve entry.2.1) fun _ ↦
    .bind (.forM fun entry _ ↦ keepsReports_funcBody entry.1 entry.2.1 entry.2.2) fun _ ↦
    .modify fun s ↦ List.suffix_append _ _

/-- An import that fails is reported where the file that asks for it is collected. -/
theorem reports_failedImport {source : SourceFile} {spec : ImportSpec} {reason : ImportError}
    (file : Nat) (hspec : spec ∈ source.imports)
    (hfail : input.importer spec.pathValue = .error reason)
    (hforeign : spec.pathValue = foreignPath → input.fakeForeign = false) :
    Reports input ⟨spec.path.info.span.start, .notImported spec.pathValue reason⟩
      (collectFile file source) := by
  have hreal : ¬ (spec.pathValue = foreignPath && input.fakeForeign) = true := by
    simpa using hforeign
  have himport : Reports input ⟨spec.path.info.span.start, .notImported spec.pathValue reason⟩
      (collectImport file spec) := by
    intro s a later hrun
    unfold collectImport at hrun
    rw [run_bind_of_some (sees_importedScope _ input s)] at hrun
    simp only [if_neg hreal, hfail] at hrun
    cases hrun
    exact List.mem_cons_self
  refine .last fun _ ↦ .keep ?_ fun _ ↦ .forM fun decl _ ↦ keepsReports_collectDecl file decl
  exact .forM (fun spec _ ↦ keepsReports_collectImport file spec) hspec himport

/-- A check of files one of whose imports fails has a problem that makes the package unusable. -/
theorem exists_hard_of_failed_import {store : Store} {checked : Checked} {source : SourceFile}
    {path : String} {reason : ImportError}
    (h : checkWithin depth input files store = some checked) (hsource : source ∈ files)
    (hpath : path ∈ source.importPaths) (hfail : input.importer path = .error reason)
    (hforeign : path = foreignPath → input.fakeForeign = false) :
    ∃ diagnostic ∈ checked.hard, diagnostic.problem = .notImported path reason := by
  obtain ⟨spec, hspec, rfl⟩ := List.mem_map.mp hpath
  obtain ⟨number, hnumber⟩ := List.mem_iff_getElem?.mp hsource
  unfold checkWithin at h
  obtain ⟨⟨_, s⟩, hrun, hchecked⟩ := Option.bind_eq_some_iff.mp h
  cases hchecked
  have hmem := reports_package (List.mem_zipIdx_iff_getElem?.mpr hnumber)
    (reports_failedImport number hspec hfail hforeign) _ _ _ hrun
  exact ⟨_, List.mem_filter.mpr ⟨List.mem_reverse.mpr hmem, rfl⟩, rfl⟩

end Packages

end PackageAtlas
