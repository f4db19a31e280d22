import PackageAtlas.Proofs.Constants.Denotation
import PackageAtlas.Proofs.Lookup.Settled

/-!
The constants of groups while they are settled. A constant is open until its spec is resolved, and
has the type and the value that its entry denotes from then on (`ConstantTable.Sound`). Two steps
keep the constants so: one of them is given what its entry denotes (`Sound.settle`), and new ones
are added, which are open and may wait for their specs (`Sound.extend`).
-/

set_option autoImplicit false
set_option relaxedAutoImplicit false

namespace PackageAtlas

open Check CheckRule

/-! ### Names in sight -/

namespace Collected

/-- The symbol that the blocks, the imports of the file and the package give to a name. -/
def nearest? (collected : Collected) (context : Context) (name : String) : Option SymbolId :=
  context.scopes.findSome? (·.find? name) <|>
    (collected.files[context.file]?.getD FileScope.empty).imports.find? name <|>
    collected.members.find? name

/-- Nothing but the universe has a name. -/
structure Leaves (collected : Collected) (context : Context) (name : String) : Prop where
  nearest : collected.nearest? context name = none
  dotImports : ∀ scope ∈ (collected.files[context.file]?.getD FileScope.empty).dotImports,
    scope.find? name = none

/-- More is collected than before: what was in sight stays so, and the symbols of a store wait for
the same. -/
structure Extends (collected later : Collected) (store : Store) : Prop where
  pending : ∀ id : SymbolId, id.index < store.symbols.size →
    later.pending.find? id = collected.pending.find? id
  groups : ∀ (number : Nat) (group : ValueGroup), collected.groups[number]? = some group →
    later.groups[number]? = some group
  nearest : ∀ context name id, collected.nearest? context name = some id →
    later.nearest? context name = some id
  leaves : ∀ context name, (Universe.find? name).isSome = true → collected.Leaves context name →
    later.Leaves context name

theorem Extends.refl (collected : Collected) (store : Store) : collected.Extends collected store :=
  ⟨fun _ _ ↦ rfl, fun _ _ h ↦ h, fun _ _ _ h ↦ h, fun _ _ _ h ↦ h⟩

end Collected

section Lookups

variable {s : CheckState} {name : String}

theorem CheckState.lookup?_of_nearest? {id : SymbolId}
    (h : s.collected.nearest? s.context name = some id) : s.lookup? name = some id := by
  unfold Collected.nearest? at h
  unfold CheckState.lookup?
  cases hblock : s.context.scopes.findSome? (·.find? name) with
  | some found => simpa [hblock] using h
  | none =>
    cases himport : (s.files[s.context.file]?.getD FileScope.empty).imports.find? name with
    | some found => simpa [hblock, himport, CheckState.collected] using h
    | none =>
      have hmember : s.members.find? name = some id := by
        simpa [hblock, himport, CheckState.collected] using h
      simp [himport, hmember]

theorem CheckState.lookup?_of_leaves (h : s.collected.Leaves s.context name) :
    s.lookup? name = Universe.find? name := by
  obtain ⟨hnearest, hdot⟩ := h
  have hdot : dotImported? s.store name
      (s.files[s.context.file]?.getD FileScope.empty).dotImports = none :=
    List.findSome?_eq_none_iff.2 fun scope hscope ↦ by rw [hdot scope hscope]; rfl
  simp only [Collected.nearest?, CheckState.collected, Option.orElse_eq_orElse,
    Option.orElse_eq_or, Option.or_eq_none_iff] at hnearest
  simp [CheckState.lookup?, hnearest, hdot]

end Lookups

/-! ### Open and settled constants -/

/-- The symbols of the constants of groups. -/
abbrev ConstantTable := List (SymbolId × ConstantEntry)

/-- A name that an initializer may mention: a constant that is settled or waits to be resolved, or a
predeclared name that nothing hides. -/
inductive ConstantTable.Shows (table : ConstantTable) (store : Store) (collected : Collected)
    (context : Context) (name : String) : Prop
  | constant {id : SymbolId} {entry : ConstantEntry} (hrow : (id, entry) ∈ table)
    (hname : entry.name = name) (hnearest : collected.nearest? context name = some id)
    (hready : collected.pending.find? id = none → (store.get id).type.isSome = true)
  | predeclared (hvalue : name ∈ Universe.values) (hleaves : collected.Leaves context name)

/-- The constant expressions that are made of literals, names of some kind and operators. -/
inductive Expr.Mentions (names : String → Prop) : Expr → Prop
  | ident {ident : Ident} (h : names ident.name) : Mentions names (.ident ident)
  | literal (literal : Literal) : Mentions names (.literal literal)
  | paren (info : NodeInfo) {inner : Expr} (h : Mentions names inner) :
    Mentions names (.paren info inner)
  | unary (info : NodeInfo) {op : UnaryOp} {operand : Expr} (hop : op ≠ .addr)
    (h : Mentions names operand) : Mentions names (.unary info op operand)
  | binary (info : NodeInfo) {op : BinaryOp} {left right : Expr} (hleft : Mentions names left)
    (hright : Mentions names right) : Mentions names (.binary info op left right)

theorem Expr.Mentions.mono {names names' : String → Prop} {e : Expr}
    (h : e.Mentions names) (himp : ∀ name, names name → names' name) : e.Mentions names' := by
  induction h with
  | ident h => exact .ident (himp _ h)
  | literal literal => exact .literal literal
  | paren info _ ih => exact .paren info ih
  | unary info hop _ ih => exact .unary info hop ih
  | binary info _ _ ihl ihr => exact .binary info ihl ihr

/-- A spec gives constants of a table their type and their expressions. -/
structure ConstantTable.Initializes (table : ConstantTable) (store : Store) (collected : Collected)
    (context : Context) (iota : Int) (ids : List SymbolId) (init : Initializers) : Prop where
  rows : ∀ pair ∈ ids.zip init.2, ∃ name, (pair.1, ⟨iota, name, init.1, pair.2⟩) ∈ table
  type : ∀ type ∈ init.1, ∃ ident kind, type = .ident ident ∧
    Universe.basicType? ident.name = some kind ∧ collected.Leaves context ident.name
  values : ∀ value ∈ init.2, value.Mentions (table.Shows store collected context)

namespace Store

/-- Nothing is settled of a constant. -/
structure Open (store : Store) (id : SymbolId) : Prop where
  type : (store.get id).type = none
  value : (store.get id).hasValue = false

/-- A constant has the type and the value that its entry denotes. -/
def Settled (entries : List ConstantEntry) (store : Store) (id : SymbolId) (entry : ConstantEntry) :
    Prop :=
  ∃ x, Denotes entries entry.iota entry.value x ∧
    (store.get id).type = some (entry.typed x).type ∧ (store.get id).value = x.value ∧
    (store.get id).hasValue = true

end Store

/-- A symbol is a constant of an entry, which is open or settled. -/
structure ConstantRow (entries : List ConstantEntry) (store : Store)
    (row : SymbolId × ConstantEntry) : Prop where
  entry : row.2 ∈ entries
  declared : Universe.store.symbols.size ≤ row.1.index
  placed : row.1.index < store.symbols.size
  kind : (store.get row.1).kind = .const
  settled : store.Open row.1 ∨ store.Settled entries row.1 row.2

/-- A constant waits for its spec, which is resolved in the context of its file. -/
structure ConstantTable.Waits (table : ConstantTable) (store : Store) (collected : Collected)
    (id : SymbolId) (group : ValueGroup) : Prop where
  isConst : group.isConst = true
  mem : id ∈ group.symbols
  initializes : table.Initializes store collected
    { Context.ofFile group.file with iota := some group.iota } group.iota group.symbols
    (group.type, group.values)

/-- The constants of a table are open or settled, and those that are pending wait for their
specs. -/
structure ConstantTable.Sound (entries : List ConstantEntry) (table : ConstantTable) (store : Store)
    (collected : Collected) : Prop where
  rows : ∀ row ∈ table, ConstantRow entries store row
  functional : ∀ row ∈ table, ∀ other ∈ table, row.1 = other.1 → row = other
  predeclared : ∀ id : SymbolId, id.index < Universe.store.symbols.size →
    store.get id = Universe.store.get id ∧ collected.pending.find? id = none
  pending : ∀ row ∈ table, ∀ pending, collected.pending.find? row.1 = some pending →
    ∃ number group, pending = .value number ∧ collected.groups[number]? = some group ∧
      table.Waits store collected row.1 group

namespace ConstantTable

variable {entries : List ConstantEntry} {table more : ConstantTable} {store later : Store}
  {collected further : Collected} {context : Context} {iota : Int} {ids : List SymbolId}
  {init : Initializers} {name : String}

/-- There are more constants than before, and more is known of them. -/
structure Extends (table more : ConstantTable) (store later : Store)
    (collected further : Collected) : Prop where
  rows : table ⊆ more
  placed : ∀ row ∈ table, row.1.index < store.symbols.size
  typed : ∀ row ∈ table, (store.get row.1).type.isSome = true →
    (later.get row.1).type.isSome = true
  collected : collected.Extends further store

/-- What may be mentioned stays so. -/
theorem Shows.extend (h : table.Shows store collected context name)
    (hmore : table.Extends more store later collected further) :
    more.Shows later further context name := by
  cases h with
  | constant hrow hname hnearest hready =>
    have hfurther := hmore.collected.nearest _ _ _ hnearest
    refine .constant (hmore.rows hrow) hname hfurther fun hpending ↦ ?_
    rw [hmore.collected.pending _ (hmore.placed _ hrow)] at hpending
    exact hmore.typed _ hrow (hready hpending)
  | predeclared hvalue hleaves =>
    obtain ⟨id, hfind, -⟩ := Universe.exists_find?_of_mem_values hvalue
    exact .predeclared hvalue (hmore.collected.leaves _ _ (by rw [hfind]; rfl) hleaves)

theorem Initializes.extend (h : table.Initializes store collected context iota ids init)
    (hmore : table.Extends more store later collected further) :
    more.Initializes later further context iota ids init where
  rows pair hpair := by
    obtain ⟨name, hrow⟩ := h.rows pair hpair
    exact ⟨name, hmore.rows hrow⟩
  type type htype := by
    obtain ⟨ident, kind, rfl, hkind, hleaves⟩ := h.type type htype
    obtain ⟨id, hfind, -⟩ := Option.bind_eq_some_iff.1 hkind
    exact ⟨ident, kind, rfl, hkind, hmore.collected.leaves _ _ (by rw [hfind]; rfl) hleaves⟩
  values value hvalue := (h.values value hvalue).mono fun _ hshows ↦ hshows.extend hmore

end ConstantTable

/-! ### Settling a constant -/

/-- The symbol after a value and a type were set. -/
def Symbol.settle (symbol : Symbol) (type : Ty) (value : Option Int) : Symbol :=
  { symbol with
    type := symbol.type <|> some type
    value := if symbol.hasValue then symbol.value else value
    hasValue := true }

theorem Store.get_settle (store : Store) (id other : SymbolId) (type : Ty) (value : Option Int) :
    ((store.setValue id value).setType id type).get other =
      if id = other ∧ other.index < store.symbols.size then (store.get other).settle type value
      else store.get other := by
  unfold setType setValue
  rw [get_modify, size_modify, get_modify]
  split
  · unfold Symbol.settle
    cases hvalue : (store.get other).hasValue <;> simp [hvalue]
  · rfl

namespace ConstantTable

variable {entries : List ConstantEntry} {table : ConstantTable} {store : Store}
  {collected : Collected} {id : SymbolId} {entry : ConstantEntry} {x : Operand}

theorem Sound.nil (h : ∀ id : SymbolId, id.index < Universe.store.symbols.size →
    store.get id = Universe.store.get id ∧ collected.pending.find? id = none) :
    ConstantTable.Sound entries [] store collected :=
  ⟨fun _ h ↦ (by cases h), fun _ h ↦ (by cases h), h, fun _ h ↦ (by cases h)⟩

/-- A constant that has a type has the one that its entry denotes, and the value. -/
theorem Sound.settled (h : table.Sound entries store collected) (hrow : (id, entry) ∈ table)
    (hsome : (store.get id).type.isSome = true) : store.Settled entries id entry := by
  refine (h.rows _ hrow).settled.resolve_left fun hopen ↦ ?_
  rw [hopen.type] at hsome
  cases hsome

/-- A constant that is given what its entry denotes is settled; if it was before, it stays as it
is. -/
theorem Sound.settle (h : Sound entries table store collected) (hrow : (id, entry) ∈ table)
    (hx : Denotes entries entry.iota entry.value x) :
    Sound entries table ((store.setValue id x.value).setType id (entry.typed x).type)
      collected := by
  have hget := fun other ↦ store.get_settle id other (entry.typed x).type x.value
  have htyped : ∀ row ∈ table, (store.get row.1).type.isSome = true →
      (((store.setValue id x.value).setType id (entry.typed x).type).get row.1).type.isSome =
        true := by
    intro row hmem hsome
    rw [hget]
    split
    · simp [Symbol.settle]
    · exact hsome
  refine ⟨fun row hmem ↦ ?_, h.functional, fun other hother ↦ ?_,
    fun row hmem pending hpending ↦ ?_⟩
  · obtain ⟨hentry, hdeclared, hplaced, hkind, hsettled⟩ := h.rows row hmem
    by_cases heq : id = row.1
    · obtain rfl : (id, entry) = row := h.functional _ hrow _ hmem heq
      have hself := hget id
      rw [if_pos ⟨rfl, hplaced⟩] at hself
      refine ⟨hentry, hdeclared, ?_, by rw [hself]; exact hkind, .inr ?_⟩
      · simpa [Store.setType, Store.setValue, Store.size_modify] using hplaced
      · unfold Store.Settled
        rw [hself]
        rcases hsettled with ⟨htype, hvalue⟩ | ⟨y, hy, htype, hvalue, hhas⟩
        · exact ⟨x, hx, by simp [Symbol.settle, htype], by simp [Symbol.settle, hvalue], rfl⟩
        · exact ⟨y, hy, by simp [Symbol.settle, htype], by simp [Symbol.settle, hvalue, hhas], rfl⟩
    · have hsame := hget row.1
      rw [if_neg fun h ↦ heq h.1] at hsame
      refine ⟨hentry, hdeclared, ?_, by rw [hsame]; exact hkind, ?_⟩
      · simpa [Store.setType, Store.setValue, Store.size_modify] using hplaced
      · rcases hsettled with ⟨htype, hvalue⟩ | hsettled
        · exact .inl ⟨by rw [hsame]; exact htype, by rw [hsame]; exact hvalue⟩
        · unfold Store.Settled at hsettled ⊢
          rw [hsame]
          exact .inr hsettled
  · obtain ⟨hsame, hpending⟩ := h.predeclared other hother
    rw [hget, if_neg ?_]
    · exact ⟨hsame, hpending⟩
    · rintro ⟨rfl, -⟩
      exact Nat.not_lt.2 (h.rows _ hrow).declared hother
  · obtain ⟨number, group, rfl, hgroup, hconst, hid, hinit⟩ := h.pending row hmem pending hpending
    exact ⟨number, group, rfl, hgroup, hconst, hid, hinit.extend
      ⟨fun _ h ↦ h, fun row hmem ↦ (h.rows row hmem).placed, htyped, .refl _ _⟩⟩

end ConstantTable

/-! ### New constants -/

/-- A store with new symbols, among them open constants. -/
structure Store.Allocates (store later : Store) (ids : List SymbolId) : Prop where
  size_le : store.symbols.size ≤ later.symbols.size
  old : ∀ id : SymbolId, id.index < store.symbols.size → later.get id = store.get id
  new : ∀ id ∈ ids, store.symbols.size ≤ id.index ∧ id.index < later.symbols.size ∧
    (later.get id).kind = .const ∧ later.Open id
  nodup : ids.Nodup

namespace Store.Allocates

variable {store later : Store} {ids : List SymbolId}

theorem refl (store : Store) : store.Allocates store [] :=
  ⟨Nat.le_refl _, fun _ _ ↦ rfl, fun _ hid ↦ absurd hid List.not_mem_nil, List.nodup_nil⟩

theorem push {symbol : Symbol} (hkind : symbol.kind = .const) (htype : symbol.type = none)
    (hvalue : symbol.hasValue = false) (h : (store.push symbol).Allocates later ids) :
    store.Allocates later (store.next :: ids) := by
  have hsize := size_push store symbol
  have hplaced : store.next.index < (store.push symbol).symbols.size := by
    rw [hsize]
    exact Nat.lt_succ_self _
  have hnext : later.get store.next = symbol := by
    rw [h.old _ hplaced, get_push, if_pos (by rfl : store.next.index = store.symbols.size)]
  refine ⟨?_, fun id hid ↦ ?_,
    List.forall_mem_cons.2 ⟨⟨Nat.le_refl _, ?_, ?_, ?_⟩, fun id hid ↦ ?_⟩,
    List.nodup_cons.2 ⟨fun hmem ↦ ?_, h.nodup⟩⟩
  · exact Nat.le_trans (hsize ▸ Nat.le_succ _) h.size_le
  · rw [h.old id (by rw [hsize]; exact Nat.lt_succ_of_lt hid), get_push, if_neg (Nat.ne_of_lt hid)]
  · exact Nat.lt_of_lt_of_le hplaced h.size_le
  · rw [hnext, hkind]
  · exact ⟨by rw [hnext, htype], by rw [hnext, hvalue]⟩
  · obtain ⟨hnew, hrest⟩ := h.new id hid
    exact ⟨Nat.le_trans (hsize ▸ Nat.le_succ _) hnew, hrest⟩
  · exact absurd (h.new _ hmem).1 (Nat.not_le.2 hplaced)

end Store.Allocates

/-- A list without duplicates is zipped to pairs that their first parts tell apart. -/
theorem eq_of_mem_zip {α β : Type} {as : List α} {bs : List β} (hnodup : as.Nodup) {x y : α × β}
    (hx : x ∈ as.zip bs) (hy : y ∈ as.zip bs) (h : x.1 = y.1) : x = y := by
  obtain ⟨i, hi, rfl⟩ := List.getElem_of_mem hx
  obtain ⟨j, hj, rfl⟩ := List.getElem_of_mem hy
  rw [List.getElem_zip, List.getElem_zip] at h
  obtain rfl := hnodup.getElem_inj_iff.1 h
  rfl

/-- A table with new constants extends the one before. -/
theorem ConstantTable.Sound.extends {entries : List ConstantEntry} {table : ConstantTable}
    {store later : Store} {collected further : Collected} {ids : List SymbolId}
    (h : table.Sound entries store collected) (hadds : store.Allocates later ids)
    (hmore : collected.Extends further store) (more : ConstantTable) :
    table.Extends (table ++ more) store later collected further :=
  have hplaced : ∀ row ∈ table, row.1.index < store.symbols.size :=
    fun row hrow ↦ (h.rows row hrow).placed
  ⟨List.subset_append_left _ _, hplaced,
    fun row hrow hsome ↦ by rwa [hadds.old _ (hplaced row hrow)], hmore⟩

/-- Open constants that are new, and wait for their spec if they are pending, are sound. -/
theorem ConstantTable.Sound.extend {entries news : List ConstantEntry} {table : ConstantTable}
    {store later : Store} {collected further : Collected} {ids : List SymbolId}
    (h : table.Sound entries store collected)
    (hsize : Universe.store.symbols.size ≤ store.symbols.size) (hadds : store.Allocates later ids)
    (hmore : collected.Extends further store) (hnews : ∀ entry ∈ news, entry ∈ entries)
    (hpending : ∀ row ∈ ids.zip news, ∀ pending, further.pending.find? row.1 = some pending →
      ∃ number group, pending = .value number ∧ further.groups[number]? = some group ∧
        ConstantTable.Waits (table ++ ids.zip news) later further row.1 group) :
    ConstantTable.Sound entries (table ++ ids.zip news) later further := by
  have hplaced : ∀ row ∈ table, row.1.index < store.symbols.size :=
    fun row hrow ↦ (h.rows row hrow).placed
  have hextends := h.extends hadds hmore (ids.zip news)
  have hnew : ∀ row ∈ ids.zip news, row.1 ∈ ids ∧ row.2 ∈ news :=
    fun row hrow ↦ List.of_mem_zip hrow
  have hapart : ∀ row ∈ table, ∀ other ∈ ids.zip news, row.1 ≠ other.1 := by
    intro row hrow other hother heq
    have hlt := hplaced row hrow
    rw [heq] at hlt
    exact Nat.not_lt.2 (hadds.new _ (hnew other hother).1).1 hlt
  refine ⟨fun row hrow ↦ ?_, fun row hrow other hother heq ↦ ?_, fun id hid ↦ ?_,
    fun row hrow pending hfound ↦ ?_⟩
  · rcases List.mem_append.1 hrow with hrow | hrow
    · obtain ⟨hentry, hdeclared, -, hkind, hsettled⟩ := h.rows row hrow
      have hsame := hadds.old row.1 (hplaced row hrow)
      refine ⟨hentry, hdeclared, Nat.lt_of_lt_of_le (hplaced row hrow) hadds.size_le,
        hsame ▸ hkind, ?_⟩
      rcases hsettled with ⟨htype, hvalue⟩ | hsettled
      · exact .inl ⟨hsame ▸ htype, hsame ▸ hvalue⟩
      · unfold Store.Settled at hsettled ⊢
        exact .inr (hsame ▸ hsettled)
    · obtain ⟨hid, hentry⟩ := hnew row hrow
      obtain ⟨hle, hlt, hkind, hopen⟩ := hadds.new _ hid
      exact ⟨hnews _ hentry, Nat.le_trans hsize hle, hlt, hkind, .inl hopen⟩
  · rcases List.mem_append.1 hrow with hrow | hrow <;>
      rcases List.mem_append.1 hother with hother | hother
    · exact h.functional row hrow other hother heq
    · exact absurd heq (hapart row hrow other hother)
    · exact absurd heq.symm (hapart other hother row hrow)
    · exact eq_of_mem_zip hadds.nodup hrow hother heq
  · obtain ⟨hget, hnone⟩ := h.predeclared id hid
    have hid := Nat.lt_of_lt_of_le hid hsize
    exact ⟨(hadds.old id hid).trans hget, (hmore.pending id hid).trans hnone⟩
  · rcases List.mem_append.1 hrow with hold | hnew
    · rw [hmore.pending _ (hplaced row hold)] at hfound
      obtain ⟨number, group, rfl, hgroup, hconst, hid, hinit⟩ := h.pending row hold pending hfound
      exact ⟨number, group, rfl, hmore.groups _ _ hgroup, hconst, hid, hinit.extend hextends⟩
    · exact hpending row hnew pending hfound

end PackageAtlas
