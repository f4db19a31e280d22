import PackageAtlas.Proofs.Resolution.Collection

/-!
A check ends if the signatures of its functions are plain. Whatever is resolved then uses up a type
or a group of values, which are noted while they are being resolved: between two of them a chain of
demands passes at most one function. So tasks nest no deeper than the number of types and groups
times the size of the files.
-/

set_option autoImplicit false
set_option relaxedAutoImplicit false

namespace PackageAtlas

open Check CheckRule

variable {limits : Limits}

/-! ### Room -/

/-- How many of the pending symbols and groups are not being resolved. -/
def CheckState.room (s : CheckState) : Nat :=
  (s.pending.keys.filter fun id ↦ !s.resolving.contains id).length +
    ((List.range s.groups.length).filter fun number ↦ !s.resolvingGroups.contains number).length

namespace CheckState

theorem room_le_jobs (s : CheckState) : s.room ≤ s.jobs := by
  have hkeys : s.pending.keys.length = s.pending.entries.length := List.length_map ..
  exact Nat.add_le_add (Nat.le_trans (List.length_filter_le _ _) (Nat.le_of_eq hkeys))
    (Nat.le_trans (List.length_filter_le _ _) (Nat.le_of_eq List.length_range))

/-- What is noted as being resolved is no longer among the rest. -/
theorem length_filter_contains_lt {α : Type} [DecidableEq α] {a : α} {list noted : List α}
    (ha : a ∈ list) (hnew : a ∉ noted) :
    (list.filter fun b ↦ !(a :: noted).contains b).length <
      (list.filter fun b ↦ !noted.contains b).length := by
  have hfilter : (list.filter fun b ↦ !(a :: noted).contains b) =
      (list.filter fun b ↦ !noted.contains b).filter fun b ↦ !(b == a) := by
    rw [List.filter_filter]
    refine List.filter_congr fun b _ ↦ ?_
    rw [List.contains_cons, Bool.not_or]
  rw [hfilter]
  refine List.length_filter_lt_length_iff_exists.mpr ⟨a, ?_, by simp⟩
  exact List.mem_filter.mpr ⟨ha, by simpa using hnew⟩

theorem room_resolving_lt {s : CheckState} {id : SymbolId} {pending : Pending}
    (hpending : s.pending.find? id = some pending) (hnew : id ∉ s.resolving) :
    ({ s with resolving := id :: s.resolving } : CheckState).room < s.room := by
  refine Nat.add_lt_add_right (length_filter_contains_lt ?_ hnew) _
  obtain ⟨before, after, hentries, -⟩ := List.lookup_eq_some_iff.mp hpending
  rw [Dict.keys, hentries]
  simp

theorem room_resolvingGroup_lt {s : CheckState} {number : Nat} (hlt : number < s.groups.length)
    (hnew : number ∉ s.resolvingGroups) :
    ({ s with resolvingGroups := number :: s.resolvingGroups } : CheckState).room < s.room :=
  Nat.add_lt_add_left (length_filter_contains_lt (List.mem_range.mpr hlt) hnew) _

/-- What was collected keeps to the limits, and there is so much room at most. -/
structure Settling (limits : Limits) (collected : Collected) (room : Nat) (s : CheckState) :
    Prop where
  gathered : s.Gathered limits
  collected_eq : s.collected = collected
  room_le : s.room ≤ room

instance (room : Nat) (collected : Collected) : Lasting (Settling limits collected room) where
  keeps h hlasts := by
    refine ⟨h.gathered.ofLasts hlasts, hlasts.collected.trans h.collected_eq, ?_⟩
    obtain ⟨-, -, -, hpending, hgroups, -⟩ := Collected.mk.inj hlasts.collected
    unfold CheckState.room
    rw [hpending, hgroups, hlasts.resolving, hlasts.resolvingGroups]
    exact h.room_le

/-- Settling outside of all blocks. -/
structure SettlingOutside (limits : Limits) (collected : Collected) (room : Nat) (s : CheckState) :
    Prop extends Settling limits collected room s where
  scopes : s.context.scopes = []

instance (room : Nat) (collected : Collected) :
    Stable (SettlingOutside limits collected room) .nothing where
  keeps h hframe := by
    refine ⟨Lasting.keeps h.toSettling hframe.lasts, ?_⟩
    rw [hframe.context]
    exact h.scopes

theorem Settling.pending_eq {collected : Collected} {room : Nat} {s : CheckState}
    (h : s.Settling limits collected room) : s.pending = collected.pending :=
  (Collected.mk.inj h.collected_eq).2.2.2.1

end CheckState

/-! ### Depths -/

namespace Limits

/-- How deep the resolution of a symbol that is no function nests. -/
def settleDepth (limits : Limits) (room : Nat) : Nat := room * (4 * limits.nodes + 4) + 1

/-- How deep the resolution of any symbol nests. -/
def resolveDepth (limits : Limits) (room : Nat) : Nat :=
  limits.settleDepth room + (2 * limits.nodes + 2)

theorem settleDepth_mono (limits : Limits) {room room' : Nat} (h : room ≤ room') :
    limits.settleDepth room ≤ limits.settleDepth room' :=
  Nat.succ_le_succ (Nat.mul_le_mul_right _ h)

theorem settleDepth_succ (limits : Limits) (room : Nat) :
    limits.settleDepth (room + 1) = limits.resolveDepth room + (2 * limits.nodes + 2) := by
  unfold resolveDepth settleDepth
  rw [Nat.succ_mul]
  omega

end Limits

/-- A symbol that is not pending as a function. -/
def Collected.IsNoFunc (collected : Collected) (id : SymbolId) : Prop :=
  ∀ decl file, collected.pending.find? id ≠ some (.func decl file)

/-- With so much room all symbols that are no functions are resolved, nested that deep. -/
def Settles (limits : Limits) (collected : Collected) (room depth : Nat) : Prop :=
  ∀ d, depth ≤ d → ∀ id, collected.IsNoFunc id →
    Runs (·.Settling limits collected room) False .nothing ((Checker.within d).resolve id)

/-- With so much room all symbols are resolved, nested that deep. -/
def Resolves (limits : Limits) (collected : Collected) (room depth : Nat) : Prop :=
  ∀ d, depth ≤ d → ∀ id,
    Runs (·.Settling limits collected room) False .nothing ((Checker.within d).resolve id)

section Depths

variable {collected : Collected} {room depth : Nat}

/-- A constant and a plain type expression nest as deep as their tree and the symbols behind. -/
theorem Settles.plain (h : Settles limits collected room depth)
    (hpredeclared : Universe.symbols.length < limits.first) (size d : Nat) (hd : depth + size ≤ d) :
    (∀ e, (Node.ofExpr e).IsConstant limits.functions → 2 * (Node.ofExpr e).count + 1 ≤ size →
      Runs (·.SettlingOutside limits collected room) False .nothing ((Checker.within d).expr e)) ∧
    ∀ e, (Node.ofExpr e).IsPlain limits.functions → 2 * (Node.ofExpr e).count ≤ size →
      Runs (·.SettlingOutside limits collected room) False .nothing
        ((Checker.within d).typeExpr e) := by
  induction size generalizing d with
  | zero =>
    refine ⟨fun e _ hsize ↦ by omega, fun e _ hsize ↦ ?_⟩
    have := Node.length_children_lt (.ofExpr e)
    omega
  | succ size ih =>
    obtain ⟨d, rfl⟩ : ∃ d', d = d' + 1 := ⟨d - 1, by omega⟩
    obtain ⟨hconstant, hplain⟩ := ih d (by omega)
    have hsettle {id : SymbolId} (hid : collected.IsNoFunc id) :=
      (h d (by omega) id hid).mono fun s (hs : s.SettlingOutside limits collected room) ↦
        hs.toSettling
    refine ⟨fun e he hsize ↦ ?_, fun e he hsize ↦ ?_⟩
    · refine runs_constant he (fun name hname id hid ↦ hsettle ?_) fun e' he' ↦ ?_
      · obtain ⟨s, hs, hlookup⟩ := hid
        intro decl file
        rw [← hs.pending_eq]
        exact hs.gathered.lookup_ne_func hpredeclared hs.scopes hlookup hname decl file
      · have := Node.count_lt_of_mem_below he'
        exact hconstant e' (he.below he') (by omega)
    · refine runs_plainType he (fun id ↦ ?_) (fun e' he' ↦ ?_) fun e' he' hconst ↦ ?_
      · by_cases hid : collected.IsNoFunc id
        · exact (hsettle hid).mono fun s hs ↦ hs.1
        · -- a function is no type name
          refine fun input s hs ↦ (hid fun decl file hfunc ↦ ?_).elim
          rw [← hs.1.pending_eq] at hfunc
          cases (hs.1.gathered.func_kind id decl file hfunc).symm.trans hs.2
      · have := Node.count_lt_of_mem_below he'
        exact hplain e' (he.below he') (by omega)
      · have := Node.count_lt_of_mem_below he'
        exact hconstant e' hconst (by omega)

/-- A function is resolved once its signature is, which is plain. -/
theorem Settles.resolves (h : Settles limits collected room (limits.settleDepth room))
    (hpredeclared : Universe.symbols.length < limits.first) :
    Resolves limits collected room (limits.resolveDepth room) := by
  intro d hd id
  unfold Limits.resolveDepth at hd
  by_cases hid : collected.IsNoFunc id
  · exact h d (by omega) id hid
  · obtain ⟨decl, file, hfunc⟩ :
        ∃ decl file, collected.pending.find? id = some (.func decl file) := by
      simpa [Collected.IsNoFunc] using hid
    obtain ⟨d, rfl⟩ : ∃ d', d = d' + 1 := ⟨d - 1, by omega⟩
    intro input s hs
    rw [← hs.pending_eq] at hfunc
    have hadmitted : limits.AdmitsFunc decl := hs.gathered.pending_admitted id _ hfunc
    refine runsAt_resolve (fun spec file' h' ↦ ?_) (fun number h' ↦ ?_) fun decl' file' h' ↦ ?_
    · cases hfunc.symm.trans h'
    · cases hfunc.symm.trans h'
    · cases hfunc.symm.trans h'
      have hresolve : Runs (·.Settling limits collected room) False .nothing
          (resolveFunc (Checker.within d) id decl file) := by
        have henter (s : CheckState) (hs : s.Settling limits collected room) :
            CheckState.SettlingOutside limits collected room
              { s with context := Context.ofFile file } :=
          ⟨Lasting.keeps hs (.ofContext s _), rfl⟩
        refine runs_resolveFunc henter fun field hfield ↦ ?_
        have htype : Node.funcType decl.type ∈ (Node.funcDecl decl).below :=
          Node.mem_below (by simp [Node.children])
        have hfieldType : Node.ofExpr field.type ∈ (Node.funcType decl.type).below := by
          refine Node.mem_below_of_child (?_ : Node.field field ∈ _)
            (Node.mem_below (by simp [Node.children]))
          simpa [Node.children] using hfield
        have hcount := Node.count_lt_of_mem_below htype
        have hcountType := Node.count_lt_of_mem_below hfieldType
        have hnodes := hadmitted.1
        exact (h.plain hpredeclared (2 * limits.nodes) d (by omega)).2 field.type
          (hadmitted.2.below hfieldType) (by omega)
      exact hresolve input s hs

/-- Any task nests as deep as its tree and the symbols behind. -/
theorem Resolves.tasks (h : Resolves limits collected room depth) (size d : Nat)
    (hd : depth + size ≤ d) :
    (∀ e, 2 * (Node.ofExpr e).count + 1 ≤ size →
      Runs (·.Settling limits collected room) False .nothing ((Checker.within d).expr e)) ∧
    (∀ e, 2 * (Node.ofExpr e).count ≤ size →
      Runs (·.Settling limits collected room) False .nothing ((Checker.within d).typeExpr e)) ∧
    ∀ s, 2 * (Node.ofStmt s).count ≤ size →
      Runs (·.Settling limits collected room) False .names ((Checker.within d).stmt s) := by
  induction size generalizing d with
  | zero =>
    refine ⟨fun e hsize ↦ by omega, fun e hsize ↦ ?_, fun s hsize ↦ ?_⟩
    · have := Node.length_children_lt (.ofExpr e)
      omega
    · have := Node.length_children_lt (.ofStmt s)
      omega
  | succ size ih =>
    obtain ⟨d, rfl⟩ : ∃ d', d = d' + 1 := ⟨d - 1, by omega⟩
    obtain ⟨hexpr, htype, hstmt⟩ := ih d (by omega)
    have hbelow {node : Node} (hsize : 2 * node.count ≤ size + 1) :
        TasksRun (·.Settling limits collected room) False (Checker.within d) node := by
      refine ⟨fun e he ↦ hexpr e ?_, fun e he ↦ htype e ?_, fun s hs ↦ hstmt s ?_, h d (by omega)⟩
      · have := Node.count_lt_of_mem_below he
        omega
      · have := Node.count_lt_of_mem_below he
        omega
      · have := Node.count_lt_of_mem_below hs
        omega
    refine ⟨fun e hsize ↦ ?_, fun e hsize ↦ ?_, fun s hsize ↦ runs_stmt (hbelow hsize)⟩
    · exact runs_recordOperand e.id (runs_operandOf (hbelow (by omega)) (htype e (by omega)))
    · exact .bind (runs_typeOfExpr (hbelow hsize).toType) fun type ↦
        .bind (runs_recordType e.id type) fun _ ↦ .pure type

/-- Each type and each group uses up room, so whatever the room, all symbols are resolved. -/
theorem settles (hpredeclared : Universe.symbols.length < limits.first) (collected : Collected)
    (room : Nat) : Settles limits collected room (limits.settleDepth room) := by
  induction room using Nat.strongRecOn with
  | ind room ih =>
    intro d hd id hid
    obtain ⟨d, rfl⟩ : ∃ d', d = d' + 1 := ⟨d - 1, by unfold Limits.settleDepth at hd; omega⟩
    intro input s hs
    -- with less room every task of a declaration runs
    have hinner {room' : Nat} (hlt : room' < s.room) :
        Resolves limits collected room' (limits.resolveDepth room') ∧
          limits.resolveDepth room' + (2 * limits.nodes + 1) ≤ d := by
      have hlt : room' < room := Nat.lt_of_lt_of_le hlt hs.room_le
      refine ⟨(ih room' hlt).resolves hpredeclared, ?_⟩
      have := limits.settleDepth_mono hlt
      rw [Nat.succ_eq_add_one, Limits.settleDepth_succ] at this
      omega
    refine runsAt_resolve (fun spec file hpending ↦ ?_) (fun number _ ↦ ?_)
      fun decl file hpending ↦ ?_
    · let inner : CheckState := { s with resolving := id :: s.resolving }
      have henter : inner.Settling limits collected inner.room :=
        ⟨{ hs.gathered with }, hs.collected_eq, Nat.le_refl _⟩
      have htype (hnew : id ∉ s.resolving) : Runs (·.Settling limits collected inner.room) False
          .nothing ((Checker.within d).typeExpr spec.type) := by
        obtain ⟨hresolves, hdepth⟩ := hinner (CheckState.room_resolving_lt hpending hnew)
        have hnodes : (Node.ofExpr spec.type).count ≤ limits.nodes :=
          hs.gathered.pending_admitted id _ hpending
        exact (hresolves.tasks _ d hdepth).2.1 spec.type (by omega)
      refine runsAt_resolveType (fun _ ↦ henter) htype fun hnew ↦ ?_
      obtain ⟨hresolves, hdepth⟩ := hinner (CheckState.room_resolving_lt hpending hnew)
      exact hresolves d (by omega)
    · let inner : CheckState := { s with resolvingGroups := number :: s.resolvingGroups }
      have henter : inner.Settling limits collected inner.room :=
        ⟨{ hs.gathered with }, hs.collected_eq, Nat.le_refl _⟩
      have hinit (group : ValueGroup) (hgroup : group ∈ s.groups[number]?)
          (hnew : number ∉ s.resolvingGroups) :
          InitRuns (·.Settling limits collected inner.room) False (Checker.within d)
            (group.type, group.values) := by
        have hlt : number < s.groups.length := (List.getElem?_eq_some_iff.mp hgroup).1
        obtain ⟨hresolves, hdepth⟩ := hinner (CheckState.room_resolvingGroup_lt hlt hnew)
        have hadmitted := hs.gathered.group_admitted group (List.mem_of_getElem? hgroup)
        obtain ⟨hexpr, htype, -⟩ := hresolves.tasks _ d hdepth
        refine ⟨fun e he ↦ htype e ?_, fun e he ↦ hexpr e ?_⟩
        · have := hadmitted.1 e he
          omega
        · have := hadmitted.2 e he
          omega
      exact runsAt_resolveGroup (fun _ _ ↦ henter) hinit
    · rw [hs.pending_eq] at hpending
      exact absurd hpending (hid decl file)

theorem resolves (hpredeclared : Universe.symbols.length < limits.first) (collected : Collected)
    (room : Nat) : Resolves limits collected room (limits.resolveDepth room) :=
  (settles hpredeclared collected room).resolves hpredeclared

end Depths

/-! ### Packages -/

section Packages

variable {input : CheckInput} {files : List SourceFile} {depth : Nat}

theorem nodeCount_eq_sum (files : List SourceFile) :
    nodeCount files = (files.map fun file ↦ (Node.file file).count).sum := by
  have hfold (start : Nat) : files.foldl (fun count file ↦ count + (Node.file file).count) start =
      start + (files.map fun file ↦ (Node.file file).count).sum := by
    induction files generalizing start with
    | nil => rfl
    | cons file rest ih => rw [List.foldl_cons, ih, List.map_cons, List.sum_cons, Nat.add_assoc]
  rw [nodeCount, hfold, Nat.zero_add]

theorem count_le_nodeCount {source : SourceFile} (h : source ∈ files) :
    (Node.file source).count ≤ nodeCount files := by
  obtain ⟨before, after, rfl⟩ := List.append_of_mem h
  rw [nodeCount_eq_sum, List.map_append, List.sum_append_nat, List.map_cons, List.sum_cons]
  omega

/-- Files are collected in their order, with no more jobs than they have nodes. -/
theorem gathers_files {collect : Nat → SourceFile → Check Unit}
    (h : ∀ file, ∀ source ∈ files, Gathers limits (Node.file source).count (collect file source)) :
    Gathers limits (nodeCount files)
      (files.zipIdx.forM fun (source, file) ↦ collect file source) := by
  refine (Gathers.forM fun entry hentry ↦
    h entry.2 entry.1 (List.fst_mem_of_mem_zipIdx hentry)).mono (Nat.le_of_eq ?_)
  have hfiles := congrArg (List.map fun file ↦ (Node.file file).count) (List.zipIdx_map_fst 0 files)
  rw [List.map_map] at hfiles
  rw [nodeCount_eq_sum, ← hfiles]
  rfl

theorem gathered_start {store : Store} (h : limits.first ≤ store.symbols.size) :
    (CheckState.start store).Gathered limits where
  first_le := h
  pending_placed _ _ hid := by cases hid
  pending_admitted _ _ hid := by cases hid
  func_kind _ _ _ hid := by cases hid
  group_admitted _ hgroup := by cases hgroup
  func_admitted _ hentry := by cases hentry
  member_placed _ _ hid := by cases hid
  member_func _ _ _ _ hid := by cases hid
  import_placed _ hfile := by cases hfile
  dotImport_admitted _ hfile := by cases hfile

/-- A body asks for the trees of its declaration. -/
theorem runs_admittedBody {collected : Collected} {room d : Nat}
    (hresolves : Resolves limits collected room depth) (hd : depth + 2 * limits.nodes ≤ d)
    {decl : FuncDecl} (hdecl : limits.AdmitsFunc decl) (id : SymbolId) (file : Nat) :
    Runs (·.Settling limits collected room) False .nothing
      (funcBody (Checker.within d) decl id file) := by
  obtain ⟨-, htype, hstmt⟩ := hresolves.tasks _ d hd
  refine runs_funcBody id (fun receiver hreceiver ↦ htype _ ?_) fun body hbody s hs ↦ hstmt s ?_
  · have hfield : Node.field receiver ∈ (Node.funcDecl decl).children := by
      simp [Node.children, Option.mem_def.mp hreceiver]
    have htype : Node.ofExpr receiver.type ∈ (Node.field receiver).below :=
      Node.mem_below (by simp [Node.children])
    have hbelow := Node.count_lt_of_mem_below (Node.mem_below_of_child hfield htype)
    have := hdecl.1
    omega
  · have hblock : Node.block body ∈ (Node.funcDecl decl).children := by
      simp [Node.children, Option.mem_def.mp hbody]
    have hbelow := Node.count_lt_of_mem_below
      (Node.mem_below_of_child hblock (Node.mem_below (List.mem_map_of_mem hs)))
    have := hdecl.1
    omega

/-- A step from a state ends, in a state with a property. -/
def EndsAt {α : Type} (input : CheckInput) (s : CheckState) (step : Check α)
    (post : CheckState → Prop) : Prop :=
  ∃ a later, step input s = some (a, later) ∧ post later

theorem GathersAt.ends {α β : Type} {jobs : Nat} {s : CheckState} {step : Check α}
    {next : α → Check β} {mid : α → CheckState → Prop} {post : CheckState → Prop}
    (h : GathersAt limits jobs input s step mid)
    (hnext : ∀ a later, later.Gathered limits → later.jobs ≤ s.jobs + jobs → mid a later →
      EndsAt input later (next a) post) : EndsAt input s (step >>= next) post := by
  obtain ⟨a, later, hstep, hlater, hjobs, hmid⟩ := h
  rw [EndsAt, run_bind_of_some hstep]
  exact hnext a later hlater hjobs hmid

theorem EndsAt.look {α β : Type} {s : CheckState} {step : Check α} {next : α → Check β}
    {f : CheckInput → CheckState → α} {post : CheckState → Prop} (hsee : Sees step f)
    (hnext : EndsAt input s (next (f input s)) post) : EndsAt input s (step >>= next) post := by
  rw [EndsAt, run_bind_of_some (hsee input s)]
  exact hnext

/-- A package is checked to its end if its files are within the limits. -/
theorem package_ends {store : Store}
    (hdepth : limits.resolveDepth (2 * limits.nodes) + 2 * limits.nodes ≤ depth)
    (hpredeclared : Universe.symbols.length < limits.first) (hinput : limits.AdmitsInput input)
    (hstore : limits.first ≤ store.symbols.size) (hnodes : nodeCount files ≤ limits.nodes)
    (hfiles : ∀ source ∈ files, ∀ decl ∈ source.decls, limits.AdmitsDecl decl) :
    EndsAt input (CheckState.start store) (CheckRule.package (Checker.within depth) files)
      (·.Gathered limits) := by
  have hresolves (collected : Collected) := resolves hpredeclared collected (2 * limits.nodes)
  -- as long as there are no more jobs, every resolution and every body ends
  have hphase {s : CheckState} (hs : s.Gathered limits) (hjobs : s.jobs ≤ 2 * limits.nodes)
      {step : Check Unit} (h : ∀ collected,
        Runs (·.Settling limits collected (2 * limits.nodes)) False .nothing step) :
      GathersAt limits 0 input s step fun _ later ↦ s.Lasts later :=
    .ofRunsAt hs (h s.collected input s ⟨hs, rfl, Nat.le_trans s.room_le_jobs hjobs⟩) not_false
  have hall {α : Type} (list : List α) (id : α → SymbolId) (collected : Collected) :
      Runs (·.Settling limits collected (2 * limits.nodes)) False .nothing
        (list.forM fun a ↦ (Checker.within depth).resolve (id a)) :=
    .forM fun a _ ↦ hresolves collected depth (by omega) (id a)
  have hcollect := gathers_files fun file source hsource ↦
    gathers_collectFile file (hfiles source hsource)
  have hmethods := gathers_files fun file source hsource ↦
    gathers_collectMethods file (hfiles source hsource)
  have hstart : (CheckState.start store).jobs = 0 := rfl
  refine (hcollect input _ hinput (gathered_start hstore)).ends fun _ s hs hjobs _ ↦ ?_
  refine .look sees_get (.look sees_store ?_)
  refine (hphase hs (by omega) (hall _ id)).ends fun _ s₁ hs₁ hjobs₁ _ ↦ ?_
  refine (hmethods input s₁ hinput hs₁).ends fun _ s₂ hs₂ hjobs₂ _ ↦ ?_
  refine (hphase hs₂ (by omega) (hall _ id)).ends fun _ s₃ hs₃ hjobs₃ _ ↦ .look sees_get ?_
  refine (hphase hs₃ (by omega) (hall s₃.funcs fun entry ↦ entry.2.1)).ends
    fun _ s₄ hs₄ hjobs₄ _ ↦ ?_
  refine (hphase hs₄ (by omega) fun collected ↦ .forM fun entry hentry ↦ ?_).ends
    fun _ s₅ hs₅ _ _ ↦ ⟨(), _, rfl, { hs₅ with }⟩
  exact runs_admittedBody (hresolves collected) hdepth (hs₃.func_admitted entry hentry) _ _

/-- The names of the functions of a package. -/
def functionNames (files : List SourceFile) : List String :=
  files.flatMap fun source ↦ source.decls.filterMap fun
    | .func decl => if decl.receiver.isNone then some decl.name.name else none
    | .gen _ => none

/-- No signature of a function or method asks for a function to be resolved: the lengths of arrays
are constants made of literals and of other names than functions bear, and what interfaces list are
methods. -/
def PlainSignatures (files : List SourceFile) : Prop :=
  ∀ source ∈ files, ∀ decl, .func decl ∈ source.decls →
    (Node.funcType decl.type).IsPlain (functionNames files)

/-- The limits that a package keeps to by itself. -/
def packageLimits (files : List SourceFile) (store : Store) : Limits :=
  ⟨store.symbols.size, nodeCount files, functionNames files⟩

theorem PlainSignatures.admitted (h : PlainSignatures files) (store : Store) :
    ∀ source ∈ files, ∀ decl ∈ source.decls, (packageLimits files store).AdmitsDecl decl := by
  intro source hsource decl hdecl
  have hcount : (Node.ofDecl decl).count ≤ nodeCount files := by
    have hbelow : Node.ofDecl decl ∈ (Node.file source).below :=
      Node.mem_below (List.mem_cons_of_mem _ (List.mem_map_of_mem hdecl))
    exact Nat.le_trans (Nat.le_of_lt (Node.count_lt_of_mem_below hbelow))
      (count_le_nodeCount hsource)
  cases decl with
  | gen decl => exact hcount
  | func decl =>
    refine ⟨⟨hcount, h source hsource decl hdecl⟩, fun hreceiver ↦ ?_⟩
    exact List.mem_flatMap.mpr ⟨source, hsource,
      List.mem_filterMap.mpr ⟨.func decl, hdecl, by simp [hreceiver]⟩⟩

/-- A chain of demands has room for two jobs a node, and each passes the size of the files. -/
theorem resolveDepth_le_depthFor (limits : Limits) :
    limits.resolveDepth (2 * limits.nodes) + 2 * limits.nodes ≤ Checker.depthFor limits.nodes := by
  unfold Limits.resolveDepth Limits.settleDepth Checker.depthFor
  cases limits.nodes with
  | zero => decide
  | succ n =>
    have hproduct : 2 * (n + 1) * (4 * (n + 1) + 4) = 8 * ((n + 1) * (n + 1)) + 8 * (n + 1) := by
      rw [Nat.mul_add, Nat.mul_mul_mul_comm]
      omega
    have hsquare : (n + 1 + 1) * (n + 1 + 1) = (n + 1) * (n + 1) + 2 * (n + 1) + 1 := by
      rw [Nat.add_mul, Nat.mul_add]
      omega
    have hcube : (n + 1 + 1) * (n + 1 + 1) * 2 ≤ (n + 1 + 1) * (n + 1 + 1) * (n + 1 + 1) :=
      Nat.mul_le_mul_left _ (by omega)
    omega

/-- The members of a package are symbols of a store. -/
def Store.Holds (store : Store) (scope : PackageScope) : Prop :=
  ∀ name id, scope.find? name = some id → id.index < store.symbols.size

theorem Store.Holds.mono {store later : Store} {scope : PackageScope} (h : store.Holds scope)
    (hsize : store.symbols.size ≤ later.symbols.size) : later.Holds scope :=
  fun name id hid ↦ Nat.lt_of_lt_of_le (h name id hid) hsize

/-- A check ends if no signature of a function or method asks for a function. -/
theorem checkFiles_ends {store : Store}
    (hpredeclared : Universe.symbols.length < store.symbols.size)
    (himports : ∀ path scope, input.importer path = .ok scope → store.Holds scope)
    (hplain : PlainSignatures files) :
    ∃ checked, checkFiles input files store = some checked ∧
      store.symbols.size ≤ checked.store.symbols.size ∧ checked.store.Holds checked.scope := by
  obtain ⟨_, last, hrun, hlast⟩ :=
    package_ends (resolveDepth_le_depthFor (packageLimits files store)) hpredeclared himports
      (Nat.le_refl _) (Nat.le_refl _) (hplain.admitted store)
  have hrun : (CheckRule.package (Checker.within (Checker.depthFor (nodeCount files))) files
      input).run (CheckState.start store) = some ((), last) := hrun
  rw [checkFiles, checkWithin, hrun]
  exact ⟨_, rfl, hlast.first_le, hlast.member_placed⟩

/-- The evaluation of a type expression by itself ends: there is nothing to resolve. -/
theorem evalType_ends (space : SpaceId) {store : Store} (source : String)
    (hpredeclared : Universe.symbols.length < store.symbols.size) :
    (evalType space store source).isSome := by
  unfold evalType
  dsimp only
  split
  · rfl
  · rename_i expr _
    let limits : Limits := ⟨store.symbols.size, (Node.ofExpr expr).count, []⟩
    let start : CheckState := { CheckState.start store with files := [FileScope.empty] }
    have hgathered : start.Gathered limits := by
      refine { gathered_start (Nat.le_refl limits.first) with
        import_placed := fun file hfile name id hid ↦ ?_
        dotImport_admitted := fun file hfile scope hscope ↦ ?_ }
      · rw [List.mem_singleton.mp hfile] at hid
        cases hid
      · rw [List.mem_singleton.mp hfile] at hscope
        cases hscope
    have hsettling : start.Settling limits start.collected 0 :=
      ⟨hgathered, rfl, start.room_le_jobs⟩
    have hdepth : limits.resolveDepth 0 + 2 * limits.nodes ≤ Checker.depthFor limits.nodes := by
      have hmono := limits.settleDepth_mono (Nat.zero_le (2 * limits.nodes))
      have hle := resolveDepth_le_depthFor limits
      unfold Limits.resolveDepth at hle ⊢
      omega
    have hruns := ((resolves hpredeclared start.collected 0).tasks _ _ hdepth).2.1 expr
      (Nat.le_refl _) (CheckInput.alone space) start hsettling
    obtain ⟨result, htype⟩ : ∃ result,
        (Checker.within (Checker.depthFor limits.nodes)).typeExpr expr (CheckInput.alone space)
          start = some result :=
      Option.ne_none_iff_exists'.mp fun hnone ↦ hruns.ends hnone
    change (Option.bind ((Checker.within (Checker.depthFor limits.nodes)).typeExpr expr
      (CheckInput.alone space) start) _).isSome
    rw [htype]
    rfl

end Packages

end PackageAtlas
