import PackageAtlas.Proofs.Naming.DeclRules
import PackageAtlas.Check.Package

/-!
The check of a whole package, and what a sequence of checks leaves behind. The recursion between
rules is tied by induction on the depth; each check hands its successors a store and a scope in
which all names are right (`MadeBy`).
-/

set_option autoImplicit false
set_option relaxedAutoImplicit false

namespace PackageAtlas

open Check CheckRule

/-! ### All tasks -/

theorem TasksMark.rule {σ : Setting} {c : Checker} (hσ : σ.Fair) (hc : TasksMark σ c) :
    TasksMark σ c.rule where
  expr _ hplaced _ _ := marks_expr hσ hc hplaced
  typeExpr _ hplaced _ _ := marks_typeExpr hσ hc hplaced
  stmt _ _ hplaced _ _ := marks_stmt hσ hc hplaced
  resolve id _ _ := marks_resolve hσ hc id

/-- All tasks of a check are sound, however deep they nest. -/
theorem Checker.tasksMark_within {σ : Setting} (hσ : σ.Fair) (depth : Nat) :
    TasksMark σ (within depth) := by
  induction depth with
  | zero =>
    exact ⟨fun _ _ _ _ _ _ _ h ↦ (by cases h), fun _ _ _ _ _ _ _ h ↦ (by cases h),
      fun _ _ _ _ _ _ _ _ h ↦ (by cases h), fun _ _ _ _ _ _ h ↦ (by cases h)⟩
  | succ depth ih => exact ih.rule hσ

section

variable {σ : Setting} {blocks : List (List String)} {s : CheckState} {c : Checker}

/-- The bodies of functions that are resolved later. -/
theorem marks_funcBodies (hσ : σ.Fair) (hc : TasksMark σ c)
    {funcs : List (FuncDecl × SymbolId × Nat)}
    (h : ∀ entry ∈ funcs, s.pending.find? entry.2.1 = some (.func entry.1 entry.2.2)) :
    MarksAt σ blocks blocks s (funcs.forM fun (decl, id, file) ↦ funcBody c decl id file)
      Anything := by
  induction funcs generalizing s with
  | nil => exact .pure trivial
  | cons entry rest ih =>
    obtain ⟨hentry, hrest⟩ := List.forall_mem_cons.1 h
    refine (marks_funcBody hσ hc hentry).bindGrown fun _ later hgrows _ ↦ ih fun other hother ↦ ?_
    exact hgrows.pending _ _ (hrest other hother)

/-- A check of files comes to a sound state, and reports what is unused there. -/
theorem exists_of_run_package (hσ : σ.Fair) (hc : TasksMark σ c) {files : List SourceFile}
    (hfiles : ∀ source ∈ files, σ.placed .uses (.file source)) (hs : s.Sound σ blocks)
    {result : Unit} {later : CheckState}
    (hrun : package c files σ.input s = some (result, later)) :
    ∃ last : CheckState, last.Sound σ blocks ∧
      later = { last with reports := (unused last).reverse ++ last.reports } := by
  have hnumbered : ∀ entry ∈ files.zipIdx, σ.placed .uses (.file entry.1) := fun entry hentry ↦
    hfiles _ (List.fst_mem_of_mem_zipIdx hentry)
  have hresolve (ids : List SymbolId) : Marks σ blocks (ids.forM c.resolve) Anything :=
    .forM fun id _ ↦ hc.resolve id blocks
  have hcollected : Marks σ blocks
      (files.zipIdx.forM fun entry ↦ collectFile entry.2 entry.1) Anything :=
    .forM fun entry hentry _ ↦ marks_collectFile hσ _ (hnumbered entry hentry)
  have hmethods : Marks σ blocks
      (files.zipIdx.forM fun entry ↦ collectMethods entry.2 entry.1) Anything :=
    .forM fun entry hentry ↦ marks_collectMethods hσ _ (hnumbered entry hentry)
  obtain ⟨_, s₁, hrun₁, hrun⟩ := exists_of_run_bind hrun
  obtain ⟨hs₁, -, -⟩ := hcollected s hs () s₁ hrun₁
  rw [run_bind_of_some (sees_get _ _), run_bind_of_some (sees_store _ _)] at hrun
  obtain ⟨_, s₂, hrun₂, hrun⟩ := exists_of_run_bind hrun
  obtain ⟨hs₂, -, -⟩ := hresolve _ s₁ hs₁ () s₂ hrun₂
  obtain ⟨_, s₃, hrun₃, hrun⟩ := exists_of_run_bind hrun
  obtain ⟨hs₃, -, -⟩ := hmethods s₂ hs₂ () s₃ hrun₃
  obtain ⟨_, s₄, hrun₄, hrun⟩ := exists_of_run_bind hrun
  obtain ⟨hs₄, -, -⟩ := hresolve _ s₃ hs₃ () s₄ hrun₄
  rw [run_bind_of_some (sees_get _ _)] at hrun
  obtain ⟨_, s₅, hrun₅, hrun⟩ := exists_of_run_bind hrun
  obtain ⟨hs₅, hgrows, -⟩ := Marks.forM (fun entry _ ↦ hc.resolve entry.2.1 blocks)
    s₄ hs₄ () s₅ hrun₅
  obtain ⟨_, last, hrun₆, hrun⟩ := exists_of_run_bind hrun
  obtain ⟨hlast, -, -⟩ := marks_funcBodies hσ hc
    (fun entry hentry ↦ hgrows.pending _ _ (hs₄.funcs entry hentry)) hs₅ () last hrun₆
  cases hrun
  exact ⟨last, hlast, rfl⟩

end

/-! ### What a check starts from -/

/-- The nodes of some files with their roles. -/
def castOf (files : List SourceFile) (role : Role) (node : Node) : Prop :=
  ∃ file ∈ files, (role, node) ∈ (Node.file file).cast .uses

/-- The check of some files. -/
def CheckInput.setting (input : CheckInput) (files : List SourceFile) (store : Store) : Setting :=
  ⟨input, store, castOf files⟩

theorem CheckInput.fair_setting {input : CheckInput} (files : List SourceFile) {store : Store}
    (h : ∀ path scope, input.importer path = .ok scope → scope.Named store) :
    (input.setting files store).Fair where
  closed hplaced hchild := by
    obtain ⟨file, hfile, hmem⟩ := hplaced
    exact ⟨file, hfile, Node.mem_cast_of_mem_roles hmem hchild⟩
  imports := h

/-- A state without records, over a store in which all names are right. -/
theorem CheckState.sound_start {σ : Setting} (h : σ.store.Named) {files : List FileScope}
    (hfiles : ∀ file ∈ files, file.Sound σ σ.store) :
    CheckState.Sound σ [] { CheckState.start σ.store with files } where
  store := h
  grown := .refl _
  created id hid := by
    change σ.Declares (σ.store.get id)
    rw [Store.get_of_size_le hid]
    exact fun _ h ↦ (by cases h)
  scopes := .nil
  members := Dict.named_empty
  files := hfiles
  foreign := Dict.named_empty
  defs _ _ h := by cases h
  uses _ _ h := by cases h
  keys := List.nodup_nil
  reads _ _ h := by cases h
  locals _ h := by cases h
  bindings _ h := by cases h
  reports _ h := by cases h
  pending _ _ h := by cases h
  groups _ h := by cases h
  funcs _ h := by cases h

/-- What a check found out is what a sound state has, in which the unused names are reported. -/
structure Checked.From (checked : Checked) (σ : Setting) (s : CheckState) : Prop where
  sound : s.Sound σ []
  diagnostics : checked.diagnostics = s.reports.reverse ++ unused s
  store : checked.store = s.store
  info : checked.info = s.info
  members : checked.scope.members = s.members

/-- A check that ends leaves behind a sound state. -/
theorem checkWithin_sound {depth : Nat} {input : CheckInput} {files : List SourceFile}
    {store : Store} {checked : Checked} (hstore : store.Named)
    (himports : ∀ path scope, input.importer path = .ok scope → scope.Named store)
    (h : checkWithin depth input files store = some checked) :
    ∃ s, checked.From (input.setting files store) s := by
  have hσ := input.fair_setting files himports
  obtain ⟨⟨⟨⟩, s⟩, hrun, hdone⟩ := Option.bind_eq_some_iff.1 h
  cases hdone
  have hstart : (CheckState.start store).Sound (input.setting files store) [] :=
    CheckState.sound_start hstore fun _ h ↦ (by cases h)
  have hplaced : ∀ source ∈ files, castOf files .uses (.file source) := fun source hsource ↦
    ⟨source, hsource, Node.mem_cast_self _ _⟩
  obtain ⟨last, hlast, rfl⟩ :=
    exists_of_run_package hσ (Checker.tasksMark_within hσ depth) hplaced hstart hrun
  refine ⟨last, hlast, ?_, rfl, rfl, rfl⟩
  rw [List.reverse_append, List.reverse_reverse]

/-! ### Sequences of checks -/

/-- The stores that checks make one after the other, from the universe on, and the scopes of the
packages that they checked, the last one first. An importer hands out scopes of earlier checks. -/
inductive MadeBy : Store → List PackageScope → Prop where
  | start : MadeBy Universe.store []
  | check {store : Store} {scopes : List PackageScope} {depth : Nat} {input : CheckInput}
    {files : List SourceFile} {checked : Checked} (h : MadeBy store scopes)
    (himports : ∀ path scope, input.importer path = .ok scope → scope ∈ scopes)
    (hcheck : checkWithin depth input files store = some checked) :
    MadeBy checked.store (checked.scope :: scopes)
  | eval {store : Store} {scopes : List PackageScope} {space : SpaceId} {source : String}
    {evaluated : Evaluated} (h : MadeBy store scopes)
    (heval : evalType space store source = some evaluated) : MadeBy evaluated.store scopes

/-- A type that is evaluated by itself leaves all names right. -/
theorem evalType_named {space : SpaceId} {store : Store} {source : String} {evaluated : Evaluated}
    (hstore : store.Named) (h : evalType space store source = some evaluated) :
    evaluated.store.Named ∧ store.Grows evaluated.store := by
  unfold evalType at h
  cases hparsed : (FileSet.empty space).parseExpr typeSourceName source with
  | mk files parsed =>
    simp only [hparsed] at h
    cases parsed with
    | error error =>
      cases h
      exact ⟨hstore, .refl store⟩
    | ok e =>
      let σ : Setting := ⟨CheckInput.alone space, store, fun role node ↦
        (role, node) ∈ (Node.ofExpr e).cast .uses⟩
      have hσ : σ.Fair := ⟨Node.mem_cast_of_mem_roles, fun _ _ h ↦ (by cases h)⟩
      obtain ⟨⟨type, s⟩, hrun, hdone⟩ := Option.bind_eq_some_iff.1 h
      cases hdone
      have hstart : CheckState.Sound σ []
          { CheckState.start store with files := [FileScope.empty] } :=
        CheckState.sound_start hstore (List.forall_mem_singleton.2 FileScope.sound_empty)
      obtain ⟨hs, hgrows, -⟩ := (Checker.tasksMark_within hσ _).typeExpr e
        (Node.mem_cast_self _ _) [] _ hstart type s hrun
      exact ⟨hs.store, hgrows.store⟩

/-- Whatever checks made has the right names. -/
theorem MadeBy.named {store : Store} {scopes : List PackageScope} (h : MadeBy store scopes) :
    store.Named ∧ ∀ scope ∈ scopes, scope.Named store := by
  induction h with
  | start => exact ⟨Universe.named_store, fun _ h ↦ (by cases h)⟩
  | @check store scopes depth input files checked h himports hcheck ih =>
    obtain ⟨s, hs⟩ := checkWithin_sound ih.1
      (fun path scope hscope ↦ ih.2 scope (himports path scope hscope)) hcheck
    rw [hs.store]
    refine ⟨hs.sound.store, List.forall_mem_cons.2 ⟨fun name id hfound ↦ ?_, fun scope hscope ↦ ?_⟩⟩
    · refine hs.sound.members name id ?_
      rw [← hs.members]
      exact hfound
    · exact (ih.2 scope hscope).mono hs.sound.grown
  | eval h heval ih =>
    obtain ⟨hstore, hgrows⟩ := evalType_named ih.1 heval
    exact ⟨hstore, fun scope hscope ↦ (ih.2 scope hscope).mono hgrows⟩

/-- A check only adds symbols and settles types. -/
theorem MadeBy.grows_checkWithin {store : Store} {scopes : List PackageScope} {depth : Nat}
    {input : CheckInput} {files : List SourceFile} {checked : Checked} (h : MadeBy store scopes)
    (himports : ∀ path scope, input.importer path = .ok scope → scope ∈ scopes)
    (hcheck : checkWithin depth input files store = some checked) :
    store.Grows checked.store := by
  obtain ⟨hstore, hscopes⟩ := h.named
  obtain ⟨s, hs⟩ := checkWithin_sound hstore
    (fun path scope hscope ↦ hscopes scope (himports path scope hscope)) hcheck
  rw [hs.store]
  exact hs.sound.grown

/-- What is predeclared stays. -/
theorem MadeBy.grows_universe {store : Store} {scopes : List PackageScope}
    (h : MadeBy store scopes) : Universe.store.Grows store := by
  induction h with
  | start => exact .refl _
  | check h himports hcheck ih => exact ih.trans (h.grows_checkWithin himports hcheck)
  | eval h heval ih => exact ih.trans (evalType_named h.named.1 heval).2

end PackageAtlas
