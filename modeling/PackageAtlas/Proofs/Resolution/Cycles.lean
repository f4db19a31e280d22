import PackageAtlas.Proofs.Lookup.Members

/-!
Resolving one name. A value that is needed while its spec is being resolved is not waited for: all
names of the spec that have no type yet are reported in order and get the invalid one, whichever of
them was asked for (`resolveGroup_cycle`). So no resolution that ends leaves its name open: the names
of a spec and a function have their types (`isSome_resolveGroup`, `isSome_resolveFunc`), and a defined
type its structure (`isSome_resolveType`), also if that was going on already.
-/

set_option autoImplicit false
set_option relaxedAutoImplicit false

namespace PackageAtlas

open Check CheckRule

/-! ### Cycles -/

/-- The state in which a value that is needed for its own initializer is given up. -/
def CheckState.giveUp (s : CheckState) (id : SymbolId) : CheckState :=
  if (s.store.get id).type.isNone then
    { s with
      store := s.store.setType id .invalid
      reports := ⟨(s.store.get id).pos, .initCycle (s.store.get id).name⟩ :: s.reports }
  else s

theorem run_cyclicValue (id : SymbolId) (input : CheckInput) (s : CheckState) :
    cyclicValue id input s = some ((), s.giveUp id) := by
  unfold cyclicValue CheckState.giveUp
  rw [run_bind_of_some (sees_symbol id input s)]
  split <;> rfl

theorem run_cyclicValues (ids : List SymbolId) (input : CheckInput) (s : CheckState) :
    ids.forM cyclicValue input s = some ((), ids.foldl CheckState.giveUp s) := by
  induction ids generalizing s with
  | nil => rfl
  | cons id ids ih =>
    change (cyclicValue id >>= fun _ ↦ ids.forM cyclicValue) input s = _
    rw [run_bind_of_some (run_cyclicValue id input s), ih]
    rfl

namespace CheckState

variable {s : CheckState} {id other : SymbolId}

theorem giveUp_get_of_ne (h : other ≠ id) : (s.giveUp id).store.get other = s.store.get other := by
  unfold giveUp
  split
  · change (s.store.setType id .invalid).get other = _
    unfold Store.setType
    rw [Store.get_modify, if_neg fun heq ↦ h heq.1.symm]
  · rfl

theorem giveUp_size (s : CheckState) (id : SymbolId) :
    (s.giveUp id).store.symbols.size = s.store.symbols.size := by
  unfold giveUp
  split
  · exact Store.size_modify _ _ _
  · rfl

theorem giveUp_type (hid : id.index < s.store.symbols.size) :
    ((s.giveUp id).store.get id).type = some ((s.store.get id).type.getD .invalid) := by
  unfold giveUp
  cases htype : (s.store.get id).type with
  | none =>
    change ((s.store.setType id .invalid).get id).type = _
    unfold Store.setType
    rw [Store.get_modify, if_pos ⟨rfl, hid⟩, htype]
    rfl
  | some type => exact htype

/-- The symbols without a type, as they are reported. -/
def cycleReports (s : CheckState) (ids : List SymbolId) : List Diagnostic :=
  (ids.filter fun id ↦ (s.store.get id).type.isNone).map fun id ↦
    ⟨(s.store.get id).pos, .initCycle (s.store.get id).name⟩

/-- Symbols that had no type are reported in order and have the invalid one. -/
structure GivesUp (s : CheckState) (ids : List SymbolId) (later : CheckState) : Prop where
  reports : later.reports = (s.cycleReports ids).reverse ++ s.reports
  type : ∀ id ∈ ids, (later.store.get id).type = some ((s.store.get id).type.getD .invalid)
  others : ∀ id ∉ ids, later.store.get id = s.store.get id

theorem givesUp_foldl {ids : List SymbolId} (hnodup : ids.Nodup)
    (hplaced : ∀ id ∈ ids, id.index < s.store.symbols.size) :
    s.GivesUp ids (ids.foldl giveUp s) := by
  induction ids generalizing s with
  | nil => exact ⟨rfl, fun _ hid ↦ absurd hid List.not_mem_nil, fun _ _ ↦ rfl⟩
  | cons id ids ih =>
    obtain ⟨hnew, hrest⟩ := List.nodup_cons.mp hnodup
    have hsame : ∀ other ∈ ids, (s.giveUp id).store.get other = s.store.get other :=
      fun other hother ↦ giveUp_get_of_ne fun heq ↦ hnew (heq ▸ hother)
    obtain ⟨hreports, htype, hothers⟩ := ih (s := s.giveUp id) hrest fun other hother ↦ by
      rw [giveUp_size]
      exact hplaced other (List.mem_cons_of_mem id hother)
    have hcycle : (s.giveUp id).cycleReports ids = s.cycleReports ids := by
      unfold cycleReports
      rw [List.filter_congr fun other hother ↦ by rw [hsame other hother]]
      exact List.map_congr_left fun other hother ↦ by
        rw [hsame other (List.mem_filter.mp hother).1]
    refine ⟨?_, fun other hother ↦ ?_, fun other hother ↦ ?_⟩
    · rw [List.foldl_cons, hreports, hcycle]
      unfold giveUp cycleReports
      cases htype : (s.store.get id).type.isNone <;> simp [htype]
    · rw [List.foldl_cons]
      rcases List.mem_cons.mp hother with rfl | hother
      · rw [hothers other hnew]
        exact giveUp_type (hplaced other List.mem_cons_self)
      · rw [htype other hother, hsame other hother]
    · rw [List.mem_cons, not_or] at hother
      rw [List.foldl_cons, hothers other hother.2, giveUp_get_of_ne hother.1]

theorem foldl_giveUp_of_typed {ids : List SymbolId}
    (h : ∀ id ∈ ids, (s.store.get id).type.isSome = true) : ids.foldl giveUp s = s := by
  induction ids with
  | nil => rfl
  | cons id ids ih =>
    obtain ⟨hid, hrest⟩ := List.forall_mem_cons.mp h
    have hsame : s.giveUp id = s := if_neg (by simp [Option.isSome_iff_ne_none.mp hid])
    rw [List.foldl_cons, hsame]
    exact ih hrest

end CheckState

/-- Asking for a spec that is being resolved gives up all its names that have no type yet. -/
theorem resolveGroup_cycle {c : Checker} {input : CheckInput} {s : CheckState} {number : Nat}
    {group : ValueGroup} (hgroup : s.groups[number]? = some group)
    (hbusy : number ∈ s.resolvingGroups) (hnodup : group.symbols.Nodup)
    (hplaced : ∀ id ∈ group.symbols, id.index < s.store.symbols.size) :
    ∃ later, resolveGroup c number input s = some ((), later) ∧ s.GivesUp group.symbols later := by
  refine ⟨_, ?_, CheckState.givesUp_foldl hnodup hplaced⟩
  rw [resolveGroup_eq, run_bind_of_some (sees_get input s), hgroup, Option.getD_some]
  split
  · rename_i htyped
    rw [CheckState.foldl_giveUp_of_typed (List.all_eq_true.mp htyped)]
    rfl
  · rw [if_pos (List.contains_iff_mem.mpr hbusy), run_cyclicValues]

/-! ### Steps that give a type -/

theorem Store.placed_of_isSome {store : Store} {id : SymbolId}
    (h : (store.get id).type.isSome = true) : id.index < store.symbols.size := by
  by_contra hsize
  rw [Store.get_of_size_le (Nat.le_of_not_lt hsize)] at h
  cases h

theorem Store.Lasts.isSome {store later : Store} (h : store.Lasts later) {id : SymbolId}
    (hid : (store.get id).type.isSome = true) : (later.get id).type.isSome = true := by
  obtain ⟨type, htype⟩ := Option.isSome_iff_exists.mp hid
  rw [(h.get id (Store.placed_of_isSome hid)).type type htype]
  rfl

/-- A step from which a symbol has a type. -/
def GivesType {α : Type} (id : SymbolId) (step : Check α) : Prop :=
  ∀ input s a later, id.index < s.store.symbols.size → step input s = some (a, later) →
    (later.store.get id).type.isSome = true

namespace GivesType

variable {α β γ : Type} {id : SymbolId} {step : Check α} {next : α → Check β}

theorem setType (id : SymbolId) (type : Ty) : GivesType id (setType id type) := by
  intro input s a later hid hrun
  cases hrun
  exact isSome_setType hid type

theorem bind (hstep : Runs (fun _ ↦ True) True .nothing step) (hnext : ∀ a, GivesType id (next a)) :
    GivesType id (step >>= next) := by
  intro input s b later hid hrun
  obtain ⟨a, middle, hfirst, hrest⟩ := exists_of_run_bind hrun
  have hlasts := ((hstep input s trivial).frame a middle hfirst).lasts
  exact hnext a input middle b later (Nat.lt_of_lt_of_le hid hlasts.store.size_le) hrest

theorem looking {f : CheckInput → CheckState → α} (hlook : Sees step f)
    (hnext : ∀ a, GivesType id (next a)) : GivesType id (step >>= next) := by
  intro input s b later hid hrun
  rw [run_bind_of_some (hlook input s)] at hrun
  exact hnext _ input s b later hid hrun

/-- A type that is known stays known. -/
theorem keep (h : GivesType id step) (hnext : ∀ a, Runs (fun _ ↦ True) True .nothing (next a)) :
    GivesType id (step >>= next) := by
  intro input s b later hid hrun
  obtain ⟨a, middle, hfirst, hrest⟩ := exists_of_run_bind hrun
  have hlasts := ((hnext a input middle trivial).frame b later hrest).lasts
  exact hlasts.store.isSome (h input s a middle hid hfirst)

theorem ite {p : Prop} [Decidable p] {step' : Check α} (h : p → GivesType id step)
    (h' : ¬p → GivesType id step') : GivesType id (if p then step else step') := by
  split
  · exact h ‹_›
  · exact h' ‹_›

theorem forM {step : γ → Check Unit} {list : List γ} {a : γ} (ha : a ∈ list)
    (hruns : ∀ b ∈ list, Runs (fun _ ↦ True) True .nothing (step b)) (h : GivesType id (step a)) :
    GivesType id (list.forM step) := by
  obtain ⟨before, after, rfl⟩ := List.append_of_mem ha
  -- What runs before the step may do anything to the type, what runs after it keeps it.
  induction before with
  | nil =>
    exact h.keep fun _ ↦ Runs.forM fun b hb ↦ hruns b (List.mem_cons_of_mem a hb)
  | cons first before ih =>
    exact .bind (hruns first List.mem_cons_self) fun _ ↦
      ih (List.mem_append_right _ List.mem_cons_self) fun b hb ↦ hruns b (List.mem_cons_of_mem _ hb)

/-- The symbols stay when the context comes back. -/
theorem between {enter leave : CheckState → CheckState} (h : GivesType id step)
    (henter : ∀ s, (enter s).store = s.store) (hleave : ∀ s, (leave s).store = s.store) :
    GivesType id (Check.between enter leave step) := by
  intro input s a later hid hrun
  obtain ⟨middle, hstep, rfl⟩ := exists_of_run_between hrun
  rw [hleave]
  exact h input (enter s) a middle (henter s ▸ hid) hstep

theorem inContext {context : Context} (h : GivesType id step) :
    GivesType id (inContext context step) := by
  refine .looking sees_get fun s ↦ ?_
  change GivesType id (Check.between (fun s ↦ { s with context })
    (fun later ↦ { later with context := s.context }) step)
  exact h.between (fun _ ↦ rfl) fun _ ↦ rfl

end GivesType

section Initializers

variable {c : Checker} {id : SymbolId}

theorem givesType_initConstant (declared : Option Ty) {expr : Expr}
    (h : Runs (fun _ ↦ True) True .nothing (c.expr expr)) :
    GivesType id (initConstant c declared id expr) := by
  refine .bind h fun operand ↦ .looking (sees_assignable _ _) fun fits ↦ ?_
  have hset : GivesType id (do
      modifyStore (·.setValue id operand.value)
      Check.setType id (declared.getD operand.type)) :=
    .bind (runs_setValue id _) fun _ ↦ .setType id _
  exact .ite (fun _ ↦ hset) fun _ ↦ .bind (runs_report _ _) fun _ ↦ hset

theorem givesType_initConstants (declared : Option Ty) {ids : List SymbolId} {exprs : List Expr}
    (hid : id ∈ ids) (h : ∀ e ∈ exprs, Runs (fun _ ↦ True) True .nothing (c.expr e)) :
    GivesType id (initConstants c declared ids exprs) := by
  induction ids generalizing exprs with
  | nil => cases hid
  | cons first ids ih =>
    cases exprs with
    | nil =>
      have hmissing (id : SymbolId) : Runs (fun _ ↦ True) True .nothing (do
          report (← symbol id).pos .missingInit
          Check.setType id .invalid) :=
        .looking (sees_symbol id) fun _ ↦ .bind (runs_report _ _) fun _ ↦ runs_setType id _
      refine .forM hid (fun other _ ↦ hmissing other) ?_
      exact .looking (sees_symbol id) fun _ ↦
        .bind (runs_report _ _) fun _ ↦ .setType id _
    | cons expr exprs =>
      obtain ⟨hexpr, hexprs⟩ := List.forall_mem_cons.mp h
      rcases List.mem_cons.mp hid with rfl | hid
      · exact (givesType_initConstant declared hexpr).keep fun _ ↦
          runs_initConstants declared ids hexprs
      · exact .bind (runs_initConstant declared first hexpr) fun _ ↦ ih hid hexprs

theorem givesType_initVariable (declared : Option Ty) (type : Ty) :
    GivesType id (initVariable declared id type) := by
  cases declared with
  | none => exact .setType id _
  | some target =>
    refine .looking (sees_assignable type target) fun fits ↦ ?_
    refine .ite (fun _ ↦ .setType id target) fun _ ↦ .looking (sees_symbol id) fun _ ↦ ?_
    exact .bind (runs_report _ _) fun _ ↦ .setType id target

theorem length_of_run_mapM {α β : Type} {step : α → Check β} {list : List α} {found : List β}
    {input : CheckInput} {s later : CheckState}
    (h : list.mapM step input s = some (found, later)) : found.length = list.length := by
  induction list generalizing s found with
  | nil =>
    cases h
    rfl
  | cons a rest ih =>
    rw [List.mapM_cons] at h
    obtain ⟨b, middle, -, hrest⟩ := exists_of_run_bind h
    obtain ⟨bs, last, hbs, hpure⟩ := exists_of_run_bind hrest
    cases hpure
    rw [List.length_cons, List.length_cons, ih hbs]

theorem length_spreadTypes {expr : Expr} {count pos : Nat} {types : List Ty} {input : CheckInput}
    {s later : CheckState} (h : spreadTypes c expr count pos input s = some (types, later)) :
    types.length = count := by
  obtain ⟨operand, middle, -, h⟩ := exists_of_run_bind h
  rw [run_bind_of_some (sees_get input middle)] at h
  split at h
  · rename_i htwo
    cases h
    exact (of_decide_eq_true (Bool.and_eq_true_iff.mp htwo).1).symm
  · have hfailed {problem : Problem} (h : (do
        report pos problem
        return List.replicate count Ty.invalid) input middle = some (types, later)) :
        types.length = count := by
      cases h
      exact List.length_replicate
    split at h
    · split at h
      · cases h
        assumption
      · exact hfailed h
    · cases h
      exact List.length_replicate
    · exact hfailed h

/-- There is a type for each target. -/
theorem length_valueTypes {exprs : List Expr} {count pos : Nat} {types : List Ty}
    {input : CheckInput} {s later : CheckState}
    (h : valueTypes c exprs count pos input s = some (types, later)) : types.length = count := by
  unfold valueTypes at h
  split at h
  · exact (length_of_run_mapM h).trans ‹_›
  · split at h
    · exact length_spreadTypes h
    · obtain ⟨⟨⟩, middle, -, h⟩ := exists_of_run_bind h
      cases h
      exact List.length_replicate

theorem givesType_initSymbols {ids : List SymbolId} {type : Option Expr} {exprs : List Expr}
    (isConst : Bool) (hid : id ∈ ids)
    (htype : ∀ e ∈ type, Runs (fun _ ↦ True) True .nothing (c.typeExpr e))
    (hexprs : ∀ e ∈ exprs, Runs (fun _ ↦ True) True .nothing (c.expr e)) :
    GivesType id (initSymbols c ids type exprs isConst) := by
  refine .bind (.mapOption htype) fun declared ↦ .looking sees_store fun store ↦ ?_
  refine .ite (fun _ ↦ ?_) fun _ ↦ .ite (fun _ ↦ ?_) fun _ ↦ ?_
  · exact (givesType_initConstants declared hid hexprs).keep fun _ ↦
      .ite (fun _ ↦ runs_report _ _) fun _ ↦ .pure ()
  · exact .forM hid (fun other _ ↦ runs_setType other _) (.setType id _)
  · intro input s a later hplaced hrun
    obtain ⟨types, middle, hvalues, hrun⟩ := exists_of_run_bind hrun
    have hlasts := ((runs_valueTypes _ _ hexprs input s trivial).frame types middle hvalues).lasts
    -- No name is left out of the `zip`, since the values have as many types as there are names.
    obtain ⟨index, hindex, rfl⟩ := List.getElem_of_mem hid
    have hlt : index < types.length := length_valueTypes hvalues ▸ hindex
    have hzip : index < (ids.zip types).length := by
      rw [List.length_zip]
      exact Nat.lt_min.mpr ⟨hindex, hlt⟩
    have hentry : (ids[index], types[index]) ∈ ids.zip types :=
      List.getElem_zip (h := hzip) ▸ List.getElem_mem hzip
    have hvariable : GivesType ids[index] ((ids.zip types).forM fun entry ↦
        initVariable declared entry.1 entry.2) :=
      .forM hentry (fun entry _ ↦ runs_initVariable declared entry.1 entry.2)
        (givesType_initVariable declared _)
    exact hvariable input middle a later (Nat.lt_of_lt_of_le hplaced hlasts.store.size_le) hrun

end Initializers

/-! ### Resolving -/

section Resolving

variable {depth : Nat} {id : SymbolId} {input : CheckInput} {s later : CheckState}

theorem givesType_cyclicValue : GivesType id (cyclicValue id) := by
  intro input s a later hid hrun
  cases (run_cyclicValue id input s).symm.trans hrun
  rw [CheckState.giveUp_type hid]
  rfl

/-- The names of a spec have types when its resolution ends, also one that was going on already. -/
theorem isSome_resolveGroup {number : Nat} {group : ValueGroup}
    (hgroup : s.groups[number]? = some group) (hid : id ∈ group.symbols)
    (hplaced : id.index < s.store.symbols.size)
    (hrun : resolveGroup (Checker.within depth) number input s = some ((), later)) :
    (later.store.get id).type.isSome = true := by
  rw [resolveGroup_eq, run_bind_of_some (sees_get input s), hgroup, Option.getD_some] at hrun
  split at hrun
  · rename_i htyped
    cases hrun
    exact List.all_eq_true.mp htyped id hid
  · split at hrun
    · exact GivesType.forM hid (fun other _ ↦ runs_cyclicValue other) givesType_cyclicValue input s
        () later hplaced hrun
    · have hstep : GivesType id (groupStep (Checker.within depth) group) :=
        .inContext (givesType_initSymbols _ hid
          (fun e _ ↦ Checker.within_runs depth (.typeExpr e)) fun e _ ↦
            Checker.within_runs depth (.expr e))
      have hgroup : GivesType id
          (Check.resolvingGroup number (groupStep (Checker.within depth) group)) :=
        hstep.between (fun _ ↦ rfl) fun _ ↦ rfl
      exact hgroup input s () later hplaced hrun

theorem isSome_resolveFunc {decl : FuncDecl} {file : Nat}
    (hplaced : id.index < s.store.symbols.size)
    (hrun : resolveFunc (Checker.within depth) id decl file input s = some ((), later)) :
    (later.store.get id).type.isSome = true := by
  unfold resolveFunc at hrun
  rw [run_bind_of_some (sees_symbol id input s)] at hrun
  split at hrun
  · have hsignature : Runs (fun _ ↦ True) True .nothing
        (inContext (Context.ofFile file) (signature (Checker.within depth) decl.type)) :=
      .inContext (runs_signature fun field _ ↦ Checker.within_runs depth (.typeExpr field.type))
        fun _ _ ↦ trivial
    exact GivesType.bind hsignature (fun _ ↦ .setType id _) input s () later hplaced hrun
  · rename_i htype
    cases hrun
    rwa [Bool.not_eq_true, Option.isNone_eq_false_iff] at htype

theorem isSome_setUnderlying {store : Store} (hplaced : id.index < store.symbols.size)
    (shape : Ty) : ((store.setUnderlying id shape).get id).underlying.isSome = true := by
  unfold Store.setUnderlying
  rw [Store.get_modify, if_pos ⟨rfl, hplaced⟩]
  cases (store.get id).underlying <;> rfl

/-- A defined type has its structure when its resolution ends, also if that was going on already. -/
theorem isSome_resolveType {spec : TypeSpec} {file : Nat}
    (hplaced : id.index < s.store.symbols.size) (hdefined : spec.isAlias = false)
    (hrun : resolveType (Checker.within depth) id spec file input s = some ((), later)) :
    (later.store.get id).underlying.isSome = true := by
  rw [resolveType_eq, run_bind_of_some (sees_symbol id input s)] at hrun
  simp only [hdefined, Bool.false_eq_true, if_false] at hrun
  split at hrun
  · rename_i hknown
    cases hrun
    exact hknown
  · rw [run_bind_of_some (sees_get input s)] at hrun
    split at hrun
    · cases hrun
      exact isSome_setUnderlying hplaced _
    · obtain ⟨middle, hstep, rfl⟩ := exists_of_run_between hrun
      unfold typeStep at hstep
      simp only [hdefined, Bool.false_eq_true, if_false] at hstep
      obtain ⟨type, known, hexpr, hstep⟩ := exists_of_run_bind hstep
      obtain ⟨shape, shaped, hshape, hsettle⟩ := exists_of_run_bind hstep
      have hcontext : Runs (fun _ ↦ True) True .nothing
          (inContext (Context.ofFile file) ((Checker.within depth).typeExpr spec.type)) :=
        .inContext (Checker.within_runs depth (.typeExpr spec.type)) fun _ _ ↦ trivial
      have hknown := ((hcontext input _ trivial).frame _ _ hexpr).lasts
      have hunder : Runs (fun _ ↦ True) True .nothing ((Checker.within depth).underlying type) :=
        runs_underlying fun other ↦ Checker.within_runs depth (.resolve other)
      have hshaped := ((hunder input _ trivial).frame _ _ hshape).lasts
      cases hsettle
      exact isSome_setUnderlying (Nat.lt_of_lt_of_le hplaced
        (Nat.le_trans hknown.store.size_le hshaped.store.size_le)) shape

end Resolving

end PackageAtlas
