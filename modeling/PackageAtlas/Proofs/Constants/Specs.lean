import PackageAtlas.Proofs.Constants.Groups

/-!
The specs of a const group. A spec without a type and expressions takes over those of the last spec
that has some; a group that repeats them instead has the same constants (`groupEntries_writtenOut`).
What is in sight after some specs are the constants of a table under their names and what is
predeclared (`CheckState.Offers`), and the next spec may mention just these.
-/

set_option autoImplicit false
set_option relaxedAutoImplicit false

namespace PackageAtlas

open Check CheckRule

/-! ### Const groups -/

/-- The constants of a spec with the initializers that it has or takes over. -/
def specEntries (iota : Nat) (spec : ValueSpec) (init : Initializers) : List ConstantEntry :=
  (spec.names.zip init.2).map fun pair ↦ ⟨iota, pair.1.name, init.1, pair.2⟩

/-- The constants of a group, the first spec of which has a number and may take over
initializers. -/
def groupEntries : Nat → Option Initializers → List Spec → List ConstantEntry
  | _, _, [] => []
  | iota, inherited, .value spec :: rest =>
    specEntries iota spec (constInitializers inherited spec) ++
      groupEntries (iota + 1) (some (constInitializers inherited spec)) rest
  | iota, inherited, _ :: rest => groupEntries (iota + 1) inherited rest

/-- The specs of a group, each with the initializers that it has or takes over. -/
def writtenOut : Option Initializers → List Spec → List Spec
  | _, [] => []
  | inherited, .value spec :: rest =>
    let init := constInitializers inherited spec
    .value { spec with type := init.1, values := init.2 } :: writtenOut (some init) rest
  | inherited, spec :: rest => spec :: writtenOut inherited rest

/-- Initializers of a basic type, if of any, that mention literals, predeclared names and some
others. -/
structure ConstantInit (names : List String) (init : Initializers) : Prop where
  type : ∀ type ∈ init.1, ∃ ident kind, type = .ident ident ∧
    Universe.basicType? ident.name = some kind
  values : ∀ value ∈ init.2, value.Mentions fun name ↦ name ∈ names ∨ name ∈ Universe.values

/-- Specs of constants with names of their own, each with its expression, which mentions literals,
predeclared names and constants of earlier specs. -/
inductive ConstantSpecs : Option Initializers → List String → List Spec → Prop
  | nil {inherited : Option Initializers} {earlier : List String} :
    ConstantSpecs inherited earlier []
  | cons {inherited : Option Initializers} {earlier : List String} {spec : ValueSpec}
    {rest : List Spec}
    (hnames : ∀ ident ∈ spec.names, ident.isBlank = false ∧ Universe.find? ident.name = none)
    (hnodup : (earlier ++ spec.names.map (·.name)).Nodup)
    (hinit : ConstantInit earlier (constInitializers inherited spec))
    (hlength : (constInitializers inherited spec).2.length = spec.names.length)
    (hrest : ConstantSpecs (some (constInitializers inherited spec))
      (earlier ++ spec.names.map (·.name)) rest) :
    ConstantSpecs inherited earlier (.value spec :: rest)

section Groups

variable {inherited : Option Initializers} {earlier : List String} {specs : List Spec}

/-- A spec that gives what it would take over takes nothing else over. -/
theorem constInitializers_writtenOut (inherited : Option Initializers) (spec : ValueSpec) :
    let init := constInitializers inherited spec
    constInitializers inherited { spec with type := init.1, values := init.2 } = init := by
  intro init
  by_cases hempty : (spec.type.isNone && spec.values.isEmpty) = true
  · have hinit : init = inherited.getD (none, []) := if_pos hempty
    unfold constInitializers
    split
    · exact hinit.symm
    · rfl
  · have hinit : init = (spec.type, spec.values) := if_neg hempty
    rw [hinit]
    exact if_neg hempty

/-- To write out what the specs of a group take over changes none of its constants. -/
theorem groupEntries_writtenOut (iota : Nat) (inherited : Option Initializers)
    (specs : List Spec) :
    groupEntries iota inherited (writtenOut inherited specs) =
      groupEntries iota inherited specs := by
  induction specs generalizing iota inherited with
  | nil => rfl
  | cons spec rest ih =>
    cases spec with
    | imports _ | type _ => exact ih _ _
    | value spec =>
      simp only [writtenOut, groupEntries, constInitializers_writtenOut]
      rw [ih]
      rfl

/-- A spec that takes the expression of the spec before over has its own number. -/
example (info : NodeInfo) (first second iota : Ident) :
    groupEntries 0 none
        [.value ⟨info, [first], none, [.ident iota]⟩, .value ⟨info, [second], none, []⟩] =
      [⟨0, first.name, none, .ident iota⟩, ⟨1, second.name, none, .ident iota⟩] :=
  rfl

theorem ConstantSpecs.writtenOut (h : ConstantSpecs inherited earlier specs) :
    ConstantSpecs inherited earlier (writtenOut inherited specs) := by
  induction h with
  | nil => exact .nil
  | @cons inherited _ spec _ hnames hnodup hinit hlength _ ih =>
    have hsame := constInitializers_writtenOut inherited spec
    refine .cons hnames hnodup ?_ ?_ ?_
    · rwa [hsame]
    · rwa [hsame]
    · rwa [hsame]

theorem sublist_names_specEntries (iota : Nat) (spec : ValueSpec) (init : Initializers) :
    ((specEntries iota spec init).map (·.name)).Sublist (spec.names.map (·.name)) := by
  have hzip (names : List Ident) (values : List Expr) :
      ((names.zip values).map (·.1.name)).Sublist (names.map (·.name)) := by
    induction names generalizing values with
    | nil => exact List.Sublist.refl _
    | cons name names ih =>
      cases values with
      | nil => exact List.nil_sublist _
      | cons value values => exact (ih values).cons_cons _
  rw [specEntries, List.map_map]
  exact hzip spec.names init.2

/-- The constants of a group have names of their own, none of which is predeclared. -/
theorem ConstantSpecs.nodup_find? (iota : Nat) (h : ConstantSpecs inherited earlier specs)
    (hearlier : earlier.Nodup) :
    (earlier ++ (groupEntries iota inherited specs).map (·.name)).Nodup ∧
      ∀ name ∈ (groupEntries iota inherited specs).map (·.name), Universe.find? name = none := by
  induction h generalizing iota with
  | nil => exact ⟨by simpa [groupEntries] using hearlier, fun _ h ↦ (by cases h)⟩
  | @cons inherited earlier spec rest hnames hnodup _ _ _ ih =>
    obtain ⟨hrest, hfind⟩ := ih (iota + 1) hnodup
    have hsub := sublist_names_specEntries iota spec (constInitializers inherited spec)
    rw [groupEntries, List.map_append]
    refine ⟨?_, fun name hname ↦ ?_⟩
    · refine List.Nodup.sublist ?_ hrest
      rw [List.append_assoc]
      exact (List.Sublist.refl _).append (hsub.append (List.Sublist.refl _))
    · rcases List.mem_append.1 hname with hname | hname
      · obtain ⟨ident, hident, rfl⟩ := List.mem_map.1 (hsub.subset hname)
        exact (hnames ident hident).2
      · exact hfind name hname

theorem ConstantSpecs.distinct (iota : Nat) (h : ConstantSpecs inherited [] specs) :
    ConstantEntry.Distinct (groupEntries iota inherited specs) := by
  obtain ⟨hnodup, hfind⟩ := h.nodup_find? iota List.nodup_nil
  exact ⟨hnodup, fun entry hentry ↦ hfind _ (List.mem_map_of_mem hentry)⟩

end Groups

/-! ### Names that are offered -/

/-- What is predeclared is as it was and nothing hides it, and only symbols that there are wait to
be resolved. -/
structure CheckState.Unshadowed (s : CheckState) (context : Context) : Prop where
  size_le : Universe.store.symbols.size ≤ s.store.symbols.size
  predeclared : ∀ id : SymbolId, id.index < Universe.store.symbols.size →
    s.store.get id = Universe.store.get id ∧ s.collected.pending.find? id = none
  pending : ∀ id : SymbolId, s.store.symbols.size ≤ id.index → s.pending.find? id = none
  leaves : ∀ name, (Universe.find? name).isSome = true → s.collected.Leaves context name

/-- A check starts with nothing in sight but what is predeclared. -/
theorem CheckState.unshadowed_start {store : Store} (file : Nat)
    (hsize : Universe.store.symbols.size ≤ store.symbols.size)
    (hstore : ∀ id : SymbolId, id.index < Universe.store.symbols.size →
      store.get id = Universe.store.get id) :
    (CheckState.start store).Unshadowed (Context.ofFile file) :=
  ⟨hsize, fun id hid ↦ ⟨hstore id hid, rfl⟩, fun _ _ ↦ rfl,
    fun _ _ ↦ ⟨rfl, fun _ hscope ↦ (by cases hscope)⟩⟩

/-- Constants of a table are in sight under their names; they are settled or wait for their
specs. -/
structure CheckState.Offers (entries : List ConstantEntry) (table : ConstantTable)
    (context : Context) (names : List String) (s : CheckState) : Prop where
  unshadowed : s.Unshadowed context
  sound : table.Sound entries s.store s.collected
  names : ∀ name ∈ names, ∃ id entry, (id, entry) ∈ table ∧ entry.name = name ∧
    s.collected.nearest? context name = some id ∧
    (s.pending.find? id = none → (s.store.get id).type.isSome = true)

/-- The names of a spec with their symbols. -/
def namedSymbols (idents : List Ident) (ids : List SymbolId) : List (String × SymbolId) :=
  (idents.zip ids).map fun pair ↦ (pair.1.name, pair.2)

theorem map_fst_namedSymbols {idents : List Ident} {ids : List SymbolId}
    (hlength : ids.length = idents.length) :
    (namedSymbols idents ids).map Prod.fst = idents.map (·.name) := by
  rw [namedSymbols, List.map_map]
  change (idents.zip ids).map ((·.name) ∘ Prod.fst) = _
  rw [← List.map_map, List.map_fst_zip hlength.ge]

theorem map_snd_namedSymbols {idents : List Ident} {ids : List SymbolId}
    (hlength : ids.length = idents.length) : (namedSymbols idents ids).map Prod.snd = ids := by
  rw [namedSymbols, List.map_map]
  exact List.map_snd_zip hlength.le

/-- A name of a spec has a symbol and an entry. -/
theorem exists_entry_of_name (iota : Nat) {spec : ValueSpec} {init : Initializers}
    {ids : List SymbolId} (hlength : ids.length = spec.names.length)
    (hvalues : init.2.length = spec.names.length) {ident : Ident} (hident : ident ∈ spec.names) :
    ∃ id entry, (id, entry) ∈ ids.zip (specEntries iota spec init) ∧ entry.name = ident.name ∧
      (ident.name, id) ∈ namedSymbols spec.names ids := by
  obtain ⟨index, hindex, rfl⟩ := List.getElem_of_mem hident
  have hid : index < ids.length := hlength ▸ hindex
  have hentry : index < (specEntries iota spec init).length := by
    simp [specEntries, hindex, hvalues]
  refine ⟨ids[index], (specEntries iota spec init)[index],
    List.mem_iff_getElem.2 ⟨index, by simp [hid, hentry], List.getElem_zip⟩, by simp [specEntries],
    List.mem_map.2 ⟨(spec.names[index], ids[index]), ?_, rfl⟩⟩
  exact List.mem_iff_getElem.2 ⟨index, by simp [hindex, hid], List.getElem_zip⟩

theorem mem_zip_specEntries {iota : Nat} {spec : ValueSpec} {init : Initializers}
    {ids : List SymbolId} (hlength : ids.length = spec.names.length) {pair : SymbolId × Expr}
    (hpair : pair ∈ ids.zip init.2) :
    ∃ name, (pair.1, ⟨iota, name, init.1, pair.2⟩) ∈ ids.zip (specEntries iota spec init) := by
  obtain ⟨index, hindex, rfl⟩ := List.getElem_of_mem hpair
  rw [List.length_zip, Nat.lt_min] at hindex
  have hname : index < spec.names.length := hlength ▸ hindex.1
  refine ⟨spec.names[index].name, List.mem_iff_getElem.2 ⟨index, ?_, ?_⟩⟩
  · simp [specEntries, hindex, hname]
  · simp [specEntries]

section Offers

variable {entries : List ConstantEntry} {table : ConstantTable} {context : Context}
  {names : List String} {s : CheckState}

/-- What is offered may be mentioned in the spec of any number. -/
theorem CheckState.Offers.shows (hs : s.Offers entries table context names) (iota : Option Int)
    {name : String} (hname : name ∈ names ∨ name ∈ Universe.values) :
    table.Shows s.store s.collected { context with iota } name := by
  rcases hname with hname | hname
  · obtain ⟨id, entry, hrow, hentry, hnearest, hready⟩ := hs.names name hname
    exact .constant hrow hentry hnearest hready
  · obtain ⟨id, hfind, -⟩ := Universe.exists_find?_of_mem_values hname
    obtain ⟨hnearest, hdot⟩ := hs.unshadowed.leaves name (by rw [hfind]; rfl)
    exact .predeclared hname ⟨hnearest, hdot⟩

/-- The initializers of a spec may mention what is offered, after its own constants were made. -/
theorem CheckState.Offers.initializes {iota : Nat} {spec : ValueSpec} {init : Initializers}
    {store : Store} {further : Collected} {ids : List SymbolId}
    (hs : s.Offers entries table context names) (hinit : ConstantInit names init)
    (hadds : s.store.Allocates store ids) (hmore : s.collected.Extends further s.store)
    (hlength : ids.length = spec.names.length) :
    ConstantTable.Initializes (table ++ ids.zip (specEntries iota spec init)) store further
      { context with iota := some iota } iota ids init := by
  refine ⟨fun pair hpair ↦ ?_, fun type htype ↦ ?_, fun value hvalue ↦ ?_⟩
  · obtain ⟨name, hrow⟩ := mem_zip_specEntries hlength hpair
    exact ⟨name, List.mem_append_right _ hrow⟩
  · obtain ⟨ident, kind, rfl, hkind⟩ := hinit.type type htype
    obtain ⟨id, hfind, -⟩ := Option.bind_eq_some_iff.1 hkind
    have hname : (Universe.find? ident.name).isSome = true := by rw [hfind]; rfl
    obtain ⟨hnearest, hdot⟩ := hmore.leaves _ _ hname (hs.unshadowed.leaves _ hname)
    exact ⟨ident, kind, rfl, hkind, hnearest, hdot⟩
  · exact (hinit.values value hvalue).mono fun name hname ↦
      (hs.shows _ hname).extend (hs.sound.extends hadds hmore _)

end Offers

end PackageAtlas
