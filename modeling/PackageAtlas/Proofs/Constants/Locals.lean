import PackageAtlas.Proofs.Constants.Initializers
import PackageAtlas.Proofs.Constants.Specs

/-!
Const groups in function bodies. A spec is settled before its names are put into the innermost
block, so nothing waits for it, and each name of a group that is checked without a report stands for
a constant that has the type and the value that its entry denotes
(`exists_settled_of_run_localSpecs`).
-/

set_option autoImplicit false
set_option relaxedAutoImplicit false

namespace PackageAtlas

open Check CheckRule

/-! ### In a function body -/

/-- Constants of a function body are in sight under their names, and none waits for its spec. -/
structure CheckState.OffersLocally (entries : List ConstantEntry) (table : ConstantTable)
    (names : List String) (s : CheckState) : Prop
    extends s.Offers entries table s.context names where
  block : s.context.scopes ≠ []
  settled : ∀ row ∈ table, s.pending.find? row.1 = none

/-- Names were put into the innermost block. -/
structure CheckState.Binds (pairs : List (String × SymbolId)) (s later : CheckState) : Prop where
  store : later.store = s.store
  collected : later.collected = s.collected
  file : later.context.file = s.context.file
  block : later.context.scopes ≠ []
  bound : (pairs.map Prod.fst).Nodup → ∀ pair ∈ pairs,
    later.collected.nearest? later.context pair.1 = some pair.2
  kept : ∀ name ∉ pairs.map Prod.fst,
    later.collected.nearest? later.context name = s.collected.nearest? s.context name

/-- New constants of a spec are settled, before their names are in sight. -/
structure CheckState.Settles (entries : List ConstantEntry) (table : ConstantTable)
    (ids : List SymbolId) (news : List ConstantEntry) (s settled : CheckState) : Prop where
  context : settled.context = s.context
  collected : settled.collected = s.collected
  size_le : s.store.symbols.size ≤ settled.store.symbols.size
  sound : ConstantTable.Sound entries (table ++ ids.zip news) settled.store settled.collected
  old : ∀ id : SymbolId, id.index < s.store.symbols.size →
    (s.store.get id).type.isSome = true → (settled.store.get id).type.isSome = true
  fresh : ∀ id ∈ ids, s.store.symbols.size ≤ id.index
  new : ∀ id ∈ ids, (settled.store.get id).type.isSome = true

section Locals

variable {entries : List ConstantEntry} {table : ConstantTable} {names : List String} {depth : Nat}
  {input : CheckInput} {s later : CheckState}

theorem exists_of_run_localSymbols {idents : List Ident} {ids : List SymbolId}
    (hrun : (idents.mapM fun ident ↦ (do
      addSymbol { (← declared .const ident) with isLocal := true } : Check SymbolId)) input s =
        some (ids, later)) :
    ∃ store, later = { s with store } ∧ s.store.Allocates store ids ∧
      ids.length = idents.length := by
  induction idents generalizing s ids with
  | nil =>
    cases hrun
    exact ⟨_, rfl, .refl _, rfl⟩
  | cons ident idents ih =>
    rw [List.mapM_cons] at hrun
    obtain ⟨id, middle, hfirst, hrun⟩ := exists_of_run_bind hrun
    obtain ⟨rest, last, hrest, hpure⟩ := exists_of_run_bind hrun
    cases hpure
    cases hfirst
    obtain ⟨store, rfl, hadds, hlength⟩ := ih hrest
    exact ⟨store, rfl, hadds.push rfl rfl rfl, congrArg Nat.succ hlength⟩

/-- A step with another number comes back to the number before. -/
theorem exists_of_run_withIota {α : Type} {iota : Option Int} {step : Check α} {a : α}
    (hrun : withIota iota step input s = some (a, later)) :
    ∃ last, step input { s with context.iota := iota } = some (a, last) ∧
      later = { last with context.iota := s.context.iota } := by
  have hrun : Check.between (fun s ↦ { s with context.iota := iota })
      (fun later ↦ { later with context.iota := s.context.iota }) step input s =
        some (a, later) := hrun
  exact exists_of_run_between hrun

theorem Collected.nearest?_insert (collected : Collected) {context : Context} {scope : BlockScope}
    {outer : List BlockScope} (hscopes : context.scopes = scope :: outer) (name other : String)
    (id : SymbolId) :
    collected.nearest? { context with scopes := scope.insert name id :: outer } other =
      if other = name then some id else collected.nearest? context other := by
  unfold Collected.nearest?
  simp only [hscopes, List.findSome?_cons]
  by_cases heq : other = name
  · rw [if_pos heq, heq, Dict.find?_insert_self]
    rfl
  · rw [if_neg heq, Dict.find?_insert_of_ne _ _ heq]

/-- A name that is declared without a report is put into the innermost block. -/
theorem binds_of_run_declareLocal {ident : Ident} {id : SymbolId} (hblank : ident.isBlank = false)
    (hblock : s.context.scopes ≠ [])
    (hrun : declareLocal ident id input s = some ((), later))
    (hsilent : later.reports = s.reports) :
    s.Binds [(ident.name, id)] later := by
  obtain ⟨⟨⟩, recorded, hrecord, hrun⟩ := exists_of_run_bind hrun
  cases hrecord
  rw [hblank, if_neg Bool.false_ne_true, run_bind_of_some (sees_lookupInnermost? _ _ _)] at hrun
  split at hrun
  · cases hrun
    simp at hsilent
  · cases hrun
    cases hscopes : s.context.scopes with
    | nil => exact absurd hscopes hblock
    | cons scope outer =>
      have hnearest := s.collected.nearest?_insert hscopes ident.name
      simp only [hscopes] at hrun ⊢
      refine ⟨rfl, rfl, rfl, List.cons_ne_nil _ _, fun _ pair hpair ↦ ?_, fun name hname ↦ ?_⟩
      · cases List.mem_singleton.1 hpair
        exact (hnearest _ _).trans (if_pos rfl)
      · exact (hnearest _ _).trans (if_neg fun heq ↦ hname (List.mem_singleton.2 heq))

theorem CheckState.Binds.trans {middle : CheckState} {pair : String × SymbolId}
    {pairs : List (String × SymbolId)} (h : s.Binds [pair] middle) (h' : middle.Binds pairs later) :
    s.Binds (pair :: pairs) later where
  store := h'.store.trans h.store
  collected := h'.collected.trans h.collected
  file := h'.file.trans h.file
  block := h'.block
  bound hnodup other hother := by
    obtain ⟨hnew, hnodup⟩ := List.nodup_cons.1 hnodup
    rcases List.mem_cons.1 hother with rfl | hother
    · rw [h'.kept _ hnew]
      exact h.bound (List.nodup_singleton _) _ List.mem_cons_self
    · exact h'.bound hnodup other hother
  kept name hname := by
    obtain ⟨hne, hname⟩ := List.ne_and_not_mem_of_not_mem_cons hname
    rw [h'.kept name hname]
    exact h.kept name fun hmem ↦ hne (List.mem_singleton.1 hmem)

theorem binds_of_run_declareLocals {pairs : List (Ident × SymbolId)}
    (hblank : ∀ pair ∈ pairs, pair.1.isBlank = false) (hblock : s.context.scopes ≠ [])
    (hrun : (pairs.forM fun pair ↦ declareLocal pair.1 pair.2) input s = some ((), later))
    (hsilent : later.reports = s.reports) :
    s.Binds (pairs.map fun pair ↦ (pair.1.name, pair.2)) later := by
  induction pairs generalizing s with
  | nil =>
    cases hrun
    exact ⟨rfl, rfl, rfl, hblock, fun _ _ hmem ↦ absurd hmem List.not_mem_nil, fun _ _ ↦ rfl⟩
  | cons pair pairs ih =>
    obtain ⟨hpair, hpairs⟩ := List.forall_mem_cons.1 hblank
    obtain ⟨⟨⟩, middle, hfirst, hrest⟩ := exists_of_run_bind hrun
    have hkeeps (pair : Ident × SymbolId) : KeepsReports (declareLocal pair.1 pair.2) :=
      .ofRuns (runs_declareLocal pair.1 pair.2)
    obtain ⟨hquiet, hquiet'⟩ := silent_of_suffix (hkeeps pair input s () middle hfirst)
      (KeepsReports.forM (fun pair _ ↦ hkeeps pair) input middle () later hrest) hsilent
    have hbinds := binds_of_run_declareLocal hpair hblock hfirst hquiet
    exact hbinds.trans (ih hpairs hbinds.block hrest hquiet')

/-- New local constants are open, since nothing waits to resolve them. -/
theorem CheckState.OffersLocally.sound_adds {news : List ConstantEntry} {store : Store}
    {ids : List SymbolId} (hs : s.OffersLocally entries table names)
    (hadds : s.store.Allocates store ids) (hnews : ∀ entry ∈ news, entry ∈ entries) :
    ConstantTable.Sound entries (table ++ ids.zip news) store s.collected := by
  refine hs.sound.extend hs.unshadowed.size_le hadds (.refl _ _) hnews ?_
  intro row hrow pending hfound
  have hnone := hs.unshadowed.pending row.1 (hadds.new _ (List.of_mem_zip hrow).1).1
  cases hfound.symm.trans hnone

/-- The new constants of a spec that is checked without a report are settled, and then its names are
declared. -/
theorem exists_settles_of_run_localConstants {iota : Nat} {spec : ValueSpec} {init : Initializers}
    (hs : s.OffersLocally entries table names) (hinit : ConstantInit names init)
    (hentries : ∀ entry ∈ specEntries iota spec init, entry ∈ entries)
    (hrun : localConstants (Checker.within depth) iota spec init input s = some ((), later))
    (hsilent : later.reports = s.reports) :
    ∃ ids settled, s.Settles entries table ids (specEntries iota spec init) settled ∧
      ids.length = spec.names.length ∧
      ((spec.names.zip ids).forM fun pair ↦ declareLocal pair.1 pair.2) input settled =
        some ((), later) ∧ later.reports = settled.reports := by
  obtain ⟨ids, made, hids, hrun⟩ := exists_of_run_bind hrun
  obtain ⟨store, rfl, hadds, hlength⟩ := exists_of_run_localSymbols hids
  obtain ⟨⟨⟩, settled, hsettle, hbind⟩ := exists_of_run_bind hrun
  obtain ⟨last, hsymbols, hsettled⟩ := exists_of_run_withIota hsettle
  have hinitRuns : Runs (fun _ ↦ True) True .nothing
      (initSymbols (Checker.within depth) ids init.1 init.2 true) :=
    runs_initSymbols ids true (fun e _ ↦ Checker.within_runs depth (.typeExpr e)) fun e _ ↦
      Checker.within_runs depth (.expr e)
  have hframe := (hinitRuns input _ trivial).frame () last hsymbols
  have hkeeps : KeepsReports ((spec.names.zip ids).forM fun pair ↦ declareLocal pair.1 pair.2) :=
    .forM fun pair _ ↦ .ofRuns (runs_declareLocal pair.1 pair.2)
  have hreports : settled.reports = last.reports := by rw [hsettled]
  obtain ⟨hquiet, hquiet'⟩ := silent_of_suffix (s := s) (hreports ▸ hframe.lasts.reports)
    (hkeeps input settled () later hbind) hsilent
  have hsound := sound_of_run_initSymbols (s := { s with store, context.iota := some iota })
    (fun less _ ↦ sound_resolve less) (hs.sound_adds hadds hentries) rfl
    (hs.toOffers.initializes hinit hadds (.refl _ _) hlength) hsymbols (hreports.symm.trans hquiet)
  have hcontext : last.context = { s.context with iota := some iota } := hframe.context
  have hcollected : last.collected = s.collected := hframe.lasts.collected
  refine ⟨ids, settled, ?_, hlength, hbind, hquiet'⟩
  subst hsettled
  refine ⟨?_, hcollected, ?_, hsound, fun id hplaced hsome ↦ ?_, fun id hid ↦ ?_,
    fun id hid ↦ ?_⟩
  · rw [hcontext]
  · exact Nat.le_trans hadds.size_le hframe.lasts.store.size_le
  · refine hframe.lasts.store.isSome ?_
    rwa [hadds.old id hplaced]
  · exact (hadds.new id hid).1
  · exact givesType_initSymbols true hid (fun e _ ↦ Checker.within_runs depth (.typeExpr e))
      (fun e _ ↦ Checker.within_runs depth (.expr e)) input _ () last (hadds.new id hid).2.1
      hsymbols

/-- The names of a spec that is checked without a report are offered as well. -/
theorem offers_of_run_localConstants {iota : Nat} {spec : ValueSpec} {init : Initializers}
    (hs : s.OffersLocally entries table names)
    (hnames : ∀ ident ∈ spec.names, ident.isBlank = false ∧ Universe.find? ident.name = none)
    (hnodup : (names ++ spec.names.map (·.name)).Nodup) (hinit : ConstantInit names init)
    (hvalues : init.2.length = spec.names.length)
    (hentries : ∀ entry ∈ specEntries iota spec init, entry ∈ entries)
    (hrun : localConstants (Checker.within depth) iota spec init input s = some ((), later))
    (hsilent : later.reports = s.reports) :
    ∃ more, later.OffersLocally entries more (names ++ spec.names.map (·.name)) := by
  obtain ⟨ids, settled, hsettles, hlength, hbind, hquiet⟩ :=
    exists_settles_of_run_localConstants hs hinit hentries hrun hsilent
  obtain ⟨hstore, hcollected, hfile, hblock, hbound, hkept⟩ := binds_of_run_declareLocals
    (fun pair hpair ↦ (hnames _ (List.of_mem_zip hpair).1).1) (hsettles.context ▸ hs.block) hbind
    hquiet
  have hfst := map_fst_namedSymbols hlength
  rw [namedSymbols] at hfst
  rw [hfst] at hbound hkept
  rw [hsettles.collected] at hcollected hkept
  rw [hsettles.context] at hkept hfile
  have hpending : later.pending = s.pending := congrArg Collected.pending hcollected
  obtain ⟨-, hnew, hapart⟩ := List.nodup_append.1 hnodup
  refine ⟨table ++ ids.zip (specEntries iota spec init),
    ⟨⟨⟨?_, ?_, ?_, ?_⟩, ?_, fun name hname ↦ ?_⟩, hblock, fun row hrow ↦ ?_⟩⟩
  · exact hstore ▸ Nat.le_trans hs.unshadowed.size_le hsettles.size_le
  · rw [hstore, hcollected, ← hsettles.collected]
    exact hsettles.sound.predeclared
  · intro id hid
    rw [hstore] at hid
    rw [hpending]
    exact hs.unshadowed.pending id (Nat.le_trans hsettles.size_le hid)
  · intro name hname
    obtain ⟨hnearest, hdot⟩ := hs.unshadowed.leaves name hname
    refine ⟨(hkept name fun hmem ↦ ?_).trans hnearest, ?_⟩
    · obtain ⟨ident, hident, rfl⟩ := List.mem_map.1 hmem
      rw [(hnames ident hident).2] at hname
      cases hname
    · rwa [hcollected, hfile]
  · rw [hstore, hcollected, ← hsettles.collected]
    exact hsettles.sound
  · rcases List.mem_append.1 hname with hname | hname
    · obtain ⟨id, entry, hrow, hentry, hnearest, hready⟩ := hs.names name hname
      refine ⟨id, entry, List.mem_append_left _ hrow, hentry, ?_, fun hnone ↦ ?_⟩
      · exact (hkept name fun hmem ↦ hapart name hname name hmem rfl).trans hnearest
      · rw [hstore]
        exact hsettles.old id (hs.sound.rows _ hrow).placed (hready (hpending ▸ hnone))
    · obtain ⟨ident, hident, rfl⟩ := List.mem_map.1 hname
      obtain ⟨id, entry, hrow, hentry, hpair⟩ := exists_entry_of_name iota hlength hvalues hident
      refine ⟨id, entry, List.mem_append_right _ hrow, hentry, hbound hnew _ hpair, fun _ ↦ ?_⟩
      rw [hstore]
      exact hsettles.new _ (List.of_mem_zip hrow).1
  · rw [hpending]
    rcases List.mem_append.1 hrow with hrow | hrow
    · exact hs.settled row hrow
    · exact hs.unshadowed.pending _ (hsettles.fresh _ (List.of_mem_zip hrow).1)

/-- The names of a group that is checked without a report are offered. -/
theorem offers_of_run_localSpecs {inherited : Option Initializers} {specs : List Spec} {iota : Nat}
    (hspecs : ConstantSpecs inherited names specs) (hs : s.OffersLocally entries table names)
    (hentries : ∀ entry ∈ groupEntries iota inherited specs, entry ∈ entries)
    (hrun : localSpecs (Checker.within depth) true iota inherited specs input s = some ((), later))
    (hsilent : later.reports = s.reports) :
    ∃ more offered, later.OffersLocally entries more offered ∧ names ⊆ offered ∧
      ∀ entry ∈ groupEntries iota inherited specs, entry.name ∈ offered := by
  induction hspecs generalizing iota table s with
  | nil =>
    cases hrun
    exact ⟨table, _, hs, fun _ h ↦ h, fun _ h ↦ (by cases h)⟩
  | @cons inherited names spec rest hnames hnodup hinit hlength _ ih =>
    obtain ⟨⟨⟩, middle, hfirst, hrest⟩ := exists_of_run_bind hrun
    have hinits (init : Initializers) : InitRuns (fun _ ↦ True) True (Checker.within depth) init :=
      ⟨fun e _ ↦ Checker.within_runs depth (.typeExpr e), fun e _ ↦
        Checker.within_runs depth (.expr e)⟩
    have hfirstRuns := runs_localConstants iota spec (hinits (constInitializers inherited spec))
    have hrestRuns : Runs (fun _ ↦ True) True .names (localSpecs (Checker.within depth) true
        (iota + 1) (some (constInitializers inherited spec)) rest) :=
      runs_localSpecs true _ (fun init _ ↦ hinits init)
        ⟨fun spec _ ↦ Checker.within_runs depth (.typeExpr spec.type), fun _ _ ↦ hinits _⟩
        fun id ↦ Checker.within_runs depth (.resolve id)
    obtain ⟨hquiet, hquiet'⟩ := silent_of_suffix
      ((hfirstRuns input s trivial).frame () middle hfirst).lasts.reports
      ((hrestRuns input middle trivial).frame () later hrest).lasts.reports hsilent
    rw [groupEntries] at hentries ⊢
    obtain ⟨hthese, hothers⟩ := List.forall_mem_append.1 hentries
    obtain ⟨grown, hoffers⟩ :=
      offers_of_run_localConstants hs hnames hnodup hinit hlength hthese hfirst hquiet
    obtain ⟨more, offered, hlater, hsub, hall⟩ := ih hoffers hothers hrest hquiet'
    refine ⟨more, offered, hlater, fun name hname ↦ hsub (List.mem_append_left _ hname),
      List.forall_mem_append.2 ⟨fun entry hentry ↦ hsub (List.mem_append_right _ ?_), hall⟩⟩
    exact (sublist_names_specEntries iota spec _).subset (List.mem_map_of_mem hentry)

/-- A const group in a function body that is checked without a report: each of its names stands for
a constant with the type and the value that its entry denotes. -/
theorem exists_settled_of_run_localSpecs {specs : List Spec} (hspecs : ConstantSpecs none [] specs)
    (hs : s.Unshadowed s.context)
    (hblock : s.context.scopes ≠ [])
    (hrun : localSpecs (Checker.within depth) true 0 none specs input s = some ((), later))
    (hsilent : later.reports = s.reports) :
    ∀ entry ∈ groupEntries 0 none specs, ∃ id, later.lookup? entry.name = some id ∧
      later.store.Settled (groupEntries 0 none specs) id entry := by
  intro entry hentry
  obtain ⟨table, offered, hlater, -, hall⟩ := offers_of_run_localSpecs hspecs
    ⟨⟨hs, .nil hs.predeclared, fun _ h ↦ (by cases h)⟩, hblock, fun _ h ↦ (by cases h)⟩
    (fun _ h ↦ h) hrun hsilent
  obtain ⟨id, found, hrow, hname, hnearest, hready⟩ := hlater.names _ (hall entry hentry)
  obtain rfl := List.inj_on_of_nodup_map (hspecs.distinct 0).nodup
    (hlater.sound.rows _ hrow).entry hentry hname
  exact ⟨id, later.lookup?_of_nearest? hnearest,
    hlater.sound.settled hrow (hready (hlater.settled _ hrow))⟩

end Locals

end PackageAtlas
