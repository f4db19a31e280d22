import PackageAtlas.Proofs.Constants.Locals

/-!
Const groups at package level. The specs are collected first, and each is resolved with the first of
its constants that is asked for, which gives the constant what its entry denotes
(`settled_of_run_resolve`). A group that is written the same way in a function body denotes the
same, so both places give its names the same types and the same values (`agree_of_run_localSpecs`).
-/

set_option autoImplicit false
set_option relaxedAutoImplicit false

namespace PackageAtlas

open Check CheckRule

/-! ### At package level -/

/-- The names of a spec were collected with their symbols, which wait for the spec. -/
structure CheckState.Collects (number : Nat) (pairs : List (String × SymbolId))
    (s later : CheckState) : Prop where
  adds : s.store.Allocates later.store (pairs.map Prod.snd)
  files : later.files = s.files
  groups : later.groups = s.groups
  pending : ∀ id ∉ pairs.map Prod.snd, later.pending.find? id = s.pending.find? id
  waits : ∀ pair ∈ pairs, later.pending.find? pair.2 = some (.value number)
  members : ∀ name id, s.members.find? name = some id → later.members.find? name = some id
  bound : ∀ pair ∈ pairs, later.members.find? pair.1 = some pair.2
  kept : ∀ name ∉ pairs.map Prod.fst, later.members.find? name = s.members.find? name

section Members

variable {entries : List ConstantEntry} {table : ConstantTable} {names : List String} {depth : Nat}
  {input : CheckInput} {s later : CheckState}

/-- A name that is declared without a report is a new member. -/
theorem eq_of_run_declareMember {ident : Ident} {id : SymbolId} (hblank : ident.isBlank = false)
    (hrun : declareMember ident id input s = some ((), later))
    (hsilent : later.reports = s.reports) : s.members.find? ident.name = none ∧ later = { s with
      objects := s.objects ++ [id], members := s.members.insert ident.name id } := by
  obtain ⟨⟨⟩, middle, hmodify, hrun⟩ := exists_of_run_bind hrun
  cases hmodify
  rw [hblank] at hrun
  simp only [Bool.false_eq_true, if_false] at hrun
  rw [run_bind_of_some (sees_get input _)] at hrun
  split at hrun
  · cases hrun
    simp at hsilent
  · next hnew =>
    cases hrun
    exact ⟨by simpa [Dict.contains] using hnew, rfl⟩

/-- One more name before the others. -/
theorem CheckState.Collects.cons {ident : Ident} {found : Symbol} {number : Nat}
    {pairs : List (String × SymbolId)} (hkind : found.kind = .const) (htype : found.type = none)
    (hvalue : found.hasValue = false) (hnone : s.members.find? ident.name = none)
    (h : CheckState.Collects number pairs { s.pend ident found (.value number) with
      objects := s.objects ++ [s.store.next]
      members := s.members.insert ident.name s.store.next } later) :
    s.Collects number ((ident.name, s.store.next) :: pairs) later := by
  have hadds : (s.store.push found).Allocates later.store (pairs.map Prod.snd) := h.adds
  have hnext : s.store.next ∉ pairs.map Prod.snd := fun hmem ↦ by
    have hle := (hadds.new _ hmem).1
    rw [Store.size_push] at hle
    exact Nat.not_succ_le_self _ hle
  refine ⟨hadds.push hkind htype hvalue, h.files, h.groups, fun id hid ↦ ?_,
    List.forall_mem_cons.2 ⟨?_, h.waits⟩, fun name id hname ↦ ?_,
    List.forall_mem_cons.2 ⟨?_, h.bound⟩, fun name hname ↦ ?_⟩
  · obtain ⟨hne, hid⟩ := List.ne_and_not_mem_of_not_mem_cons hid
    exact (h.pending id hid).trans (Dict.find?_insert_of_ne _ _ hne)
  · exact (h.pending _ hnext).trans (Dict.find?_insert_self _ _ _)
  · refine h.members name id ((Dict.find?_insert_of_ne _ _ ?_).trans hname)
    rintro rfl
    cases hnone.symm.trans hname
  · exact h.members _ _ (Dict.find?_insert_self _ _ _)
  · obtain ⟨hne, hname⟩ := List.ne_and_not_mem_of_not_mem_cons hname
    exact (h.kept name hname).trans (Dict.find?_insert_of_ne _ _ hne)

theorem collects_of_run_names {number : Nat} {idents : List Ident} {ids : List SymbolId}
    (hblank : ∀ ident ∈ idents, ident.isBlank = false)
    (hrun : (idents.mapM fun ident ↦ (do
      let found ← declared .const ident
      let id ← pendingSymbol ident found (.value number)
      declareMember ident id
      return id : Check SymbolId)) input s = some (ids, later))
    (hsilent : later.reports = s.reports) :
    s.Collects number (namedSymbols idents ids) later ∧ ids.length = idents.length := by
  induction idents generalizing s ids with
  | nil =>
    cases hrun
    exact ⟨⟨.refl _, rfl, rfl, fun _ _ ↦ rfl, fun _ h ↦ (by cases h), fun _ _ h ↦ h,
      fun _ h ↦ (by cases h), fun _ _ ↦ rfl⟩, rfl⟩
  | cons ident idents ih =>
    obtain ⟨hident, hidents⟩ := List.forall_mem_cons.1 hblank
    rw [List.mapM_cons] at hrun
    obtain ⟨id, middle, hfirst, hrun⟩ := exists_of_run_bind hrun
    obtain ⟨rest, last, hrest, hpure⟩ := exists_of_run_bind hrun
    cases hpure
    rw [run_bind_of_some (sees_declared _ _ input s),
      run_bind_of_some (run_pendingSymbol _ _ _ input s)] at hfirst
    obtain ⟨⟨⟩, between, hdeclare, hpure⟩ := exists_of_run_bind hfirst
    cases hpure
    have hkeeps : KeepsReports (idents.mapM fun ident ↦ (do
        let found ← declared .const ident
        let id ← pendingSymbol ident found (.value number)
        declareMember ident id
        return id : Check SymbolId)) :=
      .mapM fun ident _ ↦ .looking (sees_declared _ _) fun found ↦
        .bind (keepsReports_pendingSymbol _ _ _) fun id ↦
        .bind (keepsReports_declareMember _ id) fun _ ↦ .pure id
    obtain ⟨hquiet, hquiet'⟩ := silent_of_suffix
      (keepsReports_declareMember _ _ input _ () middle hdeclare)
      (hkeeps input middle rest later hrest) hsilent
    obtain ⟨hnone, rfl⟩ := eq_of_run_declareMember hident hdeclare hquiet
    obtain ⟨hcollects, hlength⟩ := ih hidents hrest hquiet'
    exact ⟨hcollects.cons rfl rfl rfl hnone, congrArg Nat.succ hlength⟩

theorem Collected.nearest?_congr {collected further : Collected} {context : Context} {name : String}
    (hfiles : further.files = collected.files)
    (hmembers : further.members.find? name = collected.members.find? name) :
    further.nearest? context name = collected.nearest? context name := by
  unfold Collected.nearest?
  rw [hfiles, hmembers]

/-- A name in sight stays so when there are more members. -/
theorem Collected.nearest?_mono {collected further : Collected} {context : Context} {name : String}
    {id : SymbolId} (hfiles : further.files = collected.files)
    (hmembers : ∀ found, collected.members.find? name = some found →
      further.members.find? name = some found)
    (h : collected.nearest? context name = some id) : further.nearest? context name = some id := by
  cases hfound : collected.members.find? name with
  | some found =>
    rw [nearest?_congr hfiles ((hmembers found hfound).trans hfound.symm)]
    exact h
  | none =>
    unfold nearest? at h ⊢
    rw [hfound] at h
    rw [hfiles]
    cases hblock : context.scopes.findSome? (·.find? name) with
    | some found => simpa [hblock] using h
    | none =>
      have himport : (collected.files[context.file]?.getD FileScope.empty).imports.find? name =
          some id := by
        simpa [hblock] using h
      simp [himport]

/-- Collected names are added to what is in sight, and hide nothing that is predeclared. -/
theorem CheckState.Collects.extends {number : Nat} {pairs : List (String × SymbolId)}
    (h : s.Collects number pairs later)
    (hnames : ∀ name ∈ pairs.map Prod.fst, Universe.find? name = none)
    (group : ValueGroup) :
    s.collected.Extends { later.collected with groups := later.groups ++ [group] } s.store := by
  refine ⟨fun id hid ↦ h.pending id fun hmem ↦ ?_, fun number group hgroup ↦ ?_,
    fun context name id hnearest ↦ ?_, fun context name hname hleaves ↦ ?_⟩
  · exact Nat.not_lt.2 (h.adds.new id hmem).1 hid
  · rw [h.groups]
    exact List.getElem?_append_left (List.getElem?_eq_some_iff.1 hgroup).1 ▸ hgroup
  · refine Collected.nearest?_mono ?_ (fun found hfound ↦ h.members name found hfound) hnearest
    exact h.files
  · have hfiles : later.collected.files = s.collected.files := h.files
    refine ⟨?_, by simpa only [hfiles] using hleaves.dotImports⟩
    refine (Collected.nearest?_congr hfiles (h.kept name fun hmem ↦ ?_)).trans hleaves.nearest
    rw [hnames name hmem] at hname
    cases hname

/-- The names of a spec that is collected without a report are offered to the file. -/
theorem offers_of_run_collectValues {file iota : Nat} {spec : ValueSpec} {init : Initializers}
    (hs : s.Offers entries table (Context.ofFile file) names)
    (hnames : ∀ ident ∈ spec.names, ident.isBlank = false ∧ Universe.find? ident.name = none)
    (himports : ∀ ident ∈ spec.names,
      (s.files[file]?.getD FileScope.empty).imports.find? ident.name = none)
    (hinit : ConstantInit names init) (hvalues : init.2.length = spec.names.length)
    (hentries : ∀ entry ∈ specEntries iota spec init, entry ∈ entries)
    (hrun : collectValues file iota true spec init input s = some ((), later))
    (hsilent : later.reports = s.reports) :
    (∃ more, later.Offers entries more (Context.ofFile file) (names ++ spec.names.map (·.name))) ∧
      later.files = s.files := by
  unfold collectValues at hrun
  rw [run_bind_of_some (sees_get input s)] at hrun
  obtain ⟨ids, middle, hids, hgroups⟩ := exists_of_run_bind hrun
  cases hgroups
  obtain ⟨hcollects, hlength⟩ := collects_of_run_names (fun ident hident ↦ (hnames ident hident).1)
    hids hsilent
  have hadds := hcollects.adds
  rw [map_snd_namedSymbols hlength] at hadds
  have hextends := hcollects.extends (fun name hname ↦ by
    rw [map_fst_namedSymbols hlength] at hname
    obtain ⟨ident, hident, rfl⟩ := List.mem_map.1 hname
    exact (hnames ident hident).2) ⟨ids, init.1, init.2, iota, true, file⟩
  have hwaits : ∀ id ∈ ids, middle.pending.find? id = some (.value s.groups.length) := by
    intro id hid
    rw [← map_snd_namedSymbols hlength] at hid
    obtain ⟨pair, hpair, rfl⟩ := List.mem_map.1 hid
    exact hcollects.waits pair hpair
  have hsound := hs.sound.extend hs.unshadowed.size_le hadds hextends hentries
    fun row hrow pending hfound ↦ by
      have hid := (List.of_mem_zip hrow).1
      cases (hwaits _ hid).symm.trans hfound
      refine ⟨_, ⟨ids, init.1, init.2, iota, true, file⟩, rfl, ?_, rfl, hid,
        hs.initializes hinit hadds hextends hlength⟩
      rw [hcollects.groups]
      exact List.getElem?_concat_length
  refine ⟨⟨_, ⟨?_, hsound.predeclared, fun id hid ↦ ?_, fun name hname ↦ ?_⟩, hsound,
    fun name hname ↦ ?_⟩, hcollects.files⟩
  · exact Nat.le_trans hs.unshadowed.size_le hadds.size_le
  · refine (hcollects.pending id fun hmem ↦ ?_).trans
      (hs.unshadowed.pending id (Nat.le_trans hadds.size_le hid))
    rw [map_snd_namedSymbols hlength] at hmem
    exact Nat.not_lt.2 hid (hadds.new id hmem).2.1
  · exact hextends.leaves _ _ hname (hs.unshadowed.leaves name hname)
  · rcases List.mem_append.1 hname with hname | hname
    · obtain ⟨id, entry, hrow, hentry, hnearest, hready⟩ := hs.names name hname
      have hplaced := (hs.sound.rows _ hrow).placed
      refine ⟨id, entry, List.mem_append_left _ hrow, hentry, hextends.nearest _ _ _ hnearest,
        fun hnone ↦ ?_⟩
      have hsame : middle.store.get id = s.store.get id := hadds.old id hplaced
      rw [hsame]
      exact hready ((hextends.pending id hplaced).symm.trans hnone)
    · obtain ⟨ident, hident, rfl⟩ := List.mem_map.1 hname
      obtain ⟨id, entry, hrow, hentry, hpair⟩ := exists_entry_of_name iota hlength hvalues hident
      refine ⟨id, entry, List.mem_append_right _ hrow, hentry, ?_, fun hnone ↦ ?_⟩
      · have hbound : middle.members.find? ident.name = some id := hcollects.bound _ hpair
        have himport := himports ident hident
        rw [← hcollects.files] at himport
        simp [Collected.nearest?, Context.ofFile, CheckState.collected, himport, hbound]
      · cases (hwaits id (List.of_mem_zip hrow).1).symm.trans hnone

/-- The names of a group that is collected without a report are offered to the file. -/
theorem offers_of_run_collectSpecs {file iota : Nat} {inherited : Option Initializers}
    {specs : List Spec} (hspecs : ConstantSpecs inherited names specs)
    (hs : s.Offers entries table (Context.ofFile file) names)
    (himports : ∀ spec, .value spec ∈ specs → ∀ ident ∈ spec.names,
      (s.files[file]?.getD FileScope.empty).imports.find? ident.name = none)
    (hentries : ∀ entry ∈ groupEntries iota inherited specs, entry ∈ entries)
    (hrun : collectSpecs file true iota inherited specs input s = some ((), later))
    (hsilent : later.reports = s.reports) :
    ∃ more offered, later.Offers entries more (Context.ofFile file) offered ∧ names ⊆ offered ∧
      ∀ entry ∈ groupEntries iota inherited specs, entry.name ∈ offered := by
  induction hspecs generalizing iota table s with
  | nil =>
    cases hrun
    exact ⟨table, _, hs, fun _ h ↦ h, fun _ h ↦ (by cases h)⟩
  | @cons inherited names spec rest hnames hnodup hinit hlength _ ih =>
    obtain ⟨⟨⟩, middle, hfirst, hrest⟩ := exists_of_run_bind hrun
    obtain ⟨hquiet, hquiet'⟩ := silent_of_suffix
      (keepsReports_collectValues _ _ _ _ _ input s () middle hfirst)
      (keepsReports_collectSpecs _ _ _ _ _ input middle () later hrest) hsilent
    rw [groupEntries] at hentries ⊢
    obtain ⟨hthese, hothers⟩ := List.forall_mem_append.1 hentries
    obtain ⟨⟨grown, hoffers⟩, hfiles⟩ := offers_of_run_collectValues hs hnames
      (himports spec List.mem_cons_self) hinit hlength hthese hfirst hquiet
    obtain ⟨more, offered, hlater, hsub, hall⟩ := ih hoffers (fun spec hspec ↦ by
      rw [hfiles]
      exact himports spec (List.mem_cons_of_mem _ hspec)) hothers hrest hquiet'
    refine ⟨more, offered, hlater, fun name hname ↦ hsub (List.mem_append_left _ hname),
      List.forall_mem_append.2 ⟨fun entry hentry ↦ hsub (List.mem_append_right _ ?_), hall⟩⟩
    exact (sublist_names_specEntries iota spec _).subset (List.mem_map_of_mem hentry)

/-- A const group at package level that is collected without a report: each of its names is in sight
of the file as a constant of its entry, which is open until it is resolved. -/
theorem exists_sound_of_run_collectSpecs {file : Nat} {specs : List Spec}
    (hspecs : ConstantSpecs none [] specs) (hs : s.Unshadowed (Context.ofFile file))
    (himports : ∀ spec, .value spec ∈ specs → ∀ ident ∈ spec.names,
      (s.files[file]?.getD FileScope.empty).imports.find? ident.name = none)
    (hrun : collectSpecs file true 0 none specs input s = some ((), later))
    (hsilent : later.reports = s.reports) :
    ∃ table, ConstantTable.Sound (groupEntries 0 none specs) table later.store later.collected ∧
      ∀ entry ∈ groupEntries 0 none specs, ∃ id, (id, entry) ∈ table ∧
        later.collected.nearest? (Context.ofFile file) entry.name = some id := by
  obtain ⟨table, offered, hlater, -, hall⟩ := offers_of_run_collectSpecs hspecs
    ⟨hs, .nil hs.predeclared, fun _ h ↦ (by cases h)⟩ himports (fun _ h ↦ h) hrun hsilent
  refine ⟨table, hlater.sound, fun entry hentry ↦ ?_⟩
  obtain ⟨id, found, hrow, hname, hnearest, -⟩ := hlater.names _ (hall entry hentry)
  obtain rfl := List.inj_on_of_nodup_map (hspecs.distinct 0).nodup
    (hlater.sound.rows _ hrow).entry hentry hname
  exact ⟨id, hrow, hnearest⟩

/-- Whichever constant of a group is asked for first, and wherever it is: if nothing is reported, it
has the type and the value that its entry denotes, and all others stay sound. -/
theorem settled_of_run_resolve {id : SymbolId} {entry : ConstantEntry}
    (hs : table.Sound entries s.store s.collected) (hrow : (id, entry) ∈ table)
    (hready : s.pending.find? id = none → (s.store.get id).type.isSome = true)
    (hrun : (Checker.within depth).resolve id input s = some ((), later))
    (hsilent : later.reports = s.reports) :
    later.store.Settled entries id entry ∧ table.Sound entries later.store later.collected := by
  have hlater := sound_resolve depth input s later _ hrow hs hrun hsilent
  exact ⟨hlater.settled hrow (hs.isSome_of_run_resolve hrow hready hrun), hlater⟩

end Members

/-! ### Agreement -/

/-- Constants of entries that are written alike, in groups that are written alike, have the same
type and the same value, wherever they are settled. -/
theorem Store.Settled.agree {entries entries' : List ConstantEntry} {store store' : Store}
    {id id' : SymbolId} {entry entry' : ConstantEntry}
    (hdistinct : ConstantEntry.Distinct entries)
    (hsame : entries.map ConstantEntry.bare = entries'.map ConstantEntry.bare)
    (hentry : entry.bare = entry'.bare) (h : store.Settled entries id entry)
    (h' : store'.Settled entries' id' entry') :
    (store.get id).type = (store'.get id').type ∧
      (store.get id).value = (store'.get id').value := by
  obtain ⟨x, hx, htype, hvalue, -⟩ := h
  obtain ⟨y, hy, htype', hvalue', -⟩ := h'
  obtain rfl : x = y := by
    have hiota : entry.bare.iota = entry'.bare.iota := congrArg _ hentry
    have hvalue : entry.bare.value = entry'.bare.value := congrArg _ hentry
    rw [show entry'.iota = entry.iota from hiota.symm] at hy
    exact Denotes.eq_of_bare hdistinct hsame hvalue hx hy
  rw [htype, htype', hvalue, hvalue', ← entry.typed_bare, hentry, entry'.typed_bare]
  exact ⟨rfl, rfl⟩

/-- A const group in a function body that is checked without a report gives its names the types and
the values that a group at package level gives them, if the constants of both are written alike,
whether their specs repeat or take over. -/
theorem agree_of_run_localSpecs {table : ConstantTable} {specs specs' : List Spec} {depth : Nat}
    {input : CheckInput} {s later settled : CheckState} {id : SymbolId} {entry : ConstantEntry}
    (hspecs : ConstantSpecs none [] specs')
    (hsame : (groupEntries 0 none specs).map ConstantEntry.bare =
      (groupEntries 0 none specs').map ConstantEntry.bare)
    (hpackage : table.Sound (groupEntries 0 none specs) settled.store settled.collected)
    (hrow : (id, entry) ∈ table) (hsome : (settled.store.get id).type.isSome = true)
    (hs : s.Unshadowed s.context) (hblock : s.context.scopes ≠ [])
    (hrun : localSpecs (Checker.within depth) true 0 none specs' input s = some ((), later))
    (hsilent : later.reports = s.reports) :
    ∃ id', later.lookup? entry.name = some id' ∧
      (later.store.get id').type = (settled.store.get id).type ∧
      (later.store.get id').value = (settled.store.get id).value := by
  have hentry : entry.bare ∈ (groupEntries 0 none specs').map ConstantEntry.bare :=
    hsame ▸ List.mem_map_of_mem (hpackage.rows _ hrow).entry
  obtain ⟨entry', hmem, hbare⟩ := List.mem_map.1 hentry
  obtain ⟨id', hlookup, hlocal⟩ :=
    exists_settled_of_run_localSpecs hspecs hs hblock hrun hsilent entry' hmem
  have hname : entry'.bare.name = entry.bare.name := congrArg _ hbare
  rw [show entry'.name = entry.name from hname] at hlookup
  exact ⟨id', hlookup,
    hlocal.agree (hspecs.distinct 0) hsame.symm hbare (hpackage.settled hrow hsome)⟩

end PackageAtlas
