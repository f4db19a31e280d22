import Mathlib.Tactic.FinCases
import PackageAtlas.Types.Relation
import PackageAtlas.Types.Universe

/-!
Stores in which names are right. A field or a method is known to a type under the name of its
symbol, and so is a member to the scope of a package, so that whatever is looked up under a name has
that name. What a symbol is never changes, and neither does its type once it is known
(`Store.Grows`).
-/

set_option autoImplicit false
set_option relaxedAutoImplicit false

namespace PackageAtlas

namespace Store

/-- A symbol is there and has a name. -/
structure Calls (store : Store) (id : SymbolId) (name : String) : Prop where
  placed : id.index < store.symbols.size
  name : (store.get id).name = name

/-- A store with more symbols than before, in which the old ones are called the same, come from the
same place, and keep the types that are known. -/
structure Grows (store later : Store) : Prop where
  size_le : store.symbols.size ≤ later.symbols.size
  name : ∀ id, id.index < store.symbols.size → (later.get id).name = (store.get id).name
  kind : ∀ id, id.index < store.symbols.size → (later.get id).kind = (store.get id).kind
  origin : ∀ id, id.index < store.symbols.size → (later.get id).origin = (store.get id).origin
  package : ∀ id, id.index < store.symbols.size → (later.get id).package = (store.get id).package
  isAlias : ∀ id, id.index < store.symbols.size → (later.get id).isAlias = (store.get id).isAlias
  type : ∀ id, id.index < store.symbols.size → ∀ type, (store.get id).type = some type →
    (later.get id).type = some type

variable {store middle later : Store}

theorem Grows.refl (store : Store) : store.Grows store :=
  ⟨Nat.le_refl _, fun _ _ ↦ rfl, fun _ _ ↦ rfl, fun _ _ ↦ rfl, fun _ _ ↦ rfl, fun _ _ ↦ rfl,
    fun _ _ _ ↦ id⟩

theorem Grows.trans (h : store.Grows middle) (h' : middle.Grows later) : store.Grows later where
  size_le := Nat.le_trans h.size_le h'.size_le
  name id hid := (h'.name id (Nat.lt_of_lt_of_le hid h.size_le)).trans (h.name id hid)
  kind id hid := (h'.kind id (Nat.lt_of_lt_of_le hid h.size_le)).trans (h.kind id hid)
  origin id hid := (h'.origin id (Nat.lt_of_lt_of_le hid h.size_le)).trans (h.origin id hid)
  package id hid := (h'.package id (Nat.lt_of_lt_of_le hid h.size_le)).trans (h.package id hid)
  isAlias id hid := (h'.isAlias id (Nat.lt_of_lt_of_le hid h.size_le)).trans (h.isAlias id hid)
  type id hid type htype :=
    h'.type id (Nat.lt_of_lt_of_le hid h.size_le) type (h.type id hid type htype)

theorem Calls.mono {id : SymbolId} {name : String} (h : store.Calls id name)
    (hgrows : store.Grows later) : later.Calls id name :=
  ⟨Nat.lt_of_lt_of_le h.placed hgrows.size_le, (hgrows.name id h.placed).trans h.name⟩

/-! ### New symbols and changes -/

theorem get_push (store : Store) (symbol : Symbol) (id : SymbolId) :
    (store.push symbol).get id =
      if id.index = store.symbols.size then symbol else store.get id := by
  unfold get push
  rw [Array.getElem?_push]
  split <;> rfl

theorem get_modify (store : Store) (id other : SymbolId) (change : Symbol → Symbol) :
    (store.modify id change).get other =
      if id = other ∧ other.index < store.symbols.size then change (store.get other)
      else store.get other := by
  obtain ⟨index⟩ := id
  obtain ⟨index'⟩ := other
  simp only [get, modify, Array.getElem?_modify, SymbolId.mk.injEq]
  by_cases heq : index = index'
  · subst heq
    by_cases hplaced : index < store.symbols.size
    · simp [hplaced]
    · simp [hplaced]
  · simp [heq]

theorem get_of_size_le {id : SymbolId} (h : store.symbols.size ≤ id.index) :
    store.get id = default := by
  unfold get
  rw [Array.getElem?_eq_none h]
  rfl

theorem size_push (store : Store) (symbol : Symbol) :
    (store.push symbol).symbols.size = store.symbols.size + 1 :=
  Array.size_push symbol

theorem size_modify (store : Store) (id : SymbolId) (change : Symbol → Symbol) :
    (store.modify id change).symbols.size = store.symbols.size :=
  Array.size_modify

theorem grows_push (store : Store) (symbol : Symbol) : store.Grows (store.push symbol) := by
  have hget : ∀ id : SymbolId, id.index < store.symbols.size →
      (store.push symbol).get id = store.get id := by
    intro id hid
    rw [get_push, if_neg (Nat.ne_of_lt hid)]
  refine ⟨?_, fun id hid ↦ ?_, fun id hid ↦ ?_, fun id hid ↦ ?_, fun id hid ↦ ?_, fun id hid ↦ ?_,
    fun id hid type htype ↦ ?_⟩
  · rw [size_push]
    exact Nat.le_succ _
  all_goals rw [hget id hid]
  exact htype

/-- A change that leaves what a symbol is as it is, and its type if it is known. -/
structure Settles (change : Symbol → Symbol) : Prop where
  name : ∀ symbol, (change symbol).name = symbol.name
  kind : ∀ symbol, (change symbol).kind = symbol.kind
  origin : ∀ symbol, (change symbol).origin = symbol.origin
  package : ∀ symbol, (change symbol).package = symbol.package
  isAlias : ∀ symbol, (change symbol).isAlias = symbol.isAlias
  type : ∀ symbol type, symbol.type = some type → (change symbol).type = some type

/-- A change of nothing but the structure, the value and the methods of a symbol. -/
theorem Settles.of {change : Symbol → Symbol}
    (h : ∀ symbol : Symbol, change symbol = { symbol with
      underlying := (change symbol).underlying, value := (change symbol).value
      hasValue := (change symbol).hasValue, methods := (change symbol).methods }) :
    Settles change where
  name symbol := by rw [h]
  kind symbol := by rw [h]
  origin symbol := by rw [h]
  package symbol := by rw [h]
  isAlias symbol := by rw [h]
  type symbol type htype := by rw [h, htype]

theorem grows_modify (store : Store) (id : SymbolId) {change : Symbol → Symbol}
    (h : Settles change) : store.Grows (store.modify id change) := by
  have hget {α : Type} (field : Symbol → α)
      (hfield : ∀ symbol, field (change symbol) = field symbol) (other : SymbolId) :
      field ((store.modify id change).get other) = field (store.get other) := by
    rw [get_modify]
    split
    · exact hfield _
    · rfl
  refine ⟨?_, fun other _ ↦ hget (·.name) h.name other, fun other _ ↦ hget (·.kind) h.kind other,
    fun other _ ↦ hget (·.origin) h.origin other, fun other _ ↦ hget (·.package) h.package other,
    fun other _ ↦ hget (·.isAlias) h.isAlias other, fun other _ type htype ↦ ?_⟩
  · rw [size_modify]
  · rw [get_modify]
    split
    · exact h.type _ type htype
    · exact htype

end Store

/-! ### Types and symbols -/

/-- The fields and methods in a type are known under the names of their symbols. -/
inductive Ty.Named (store : Store) : Ty → Prop
  | invalid : Named store .invalid
  | basic (kind : BasicKind) : Named store (.basic kind)
  | named (name : TypeName) : Named store (.named name)
  | pointer {element : Ty} (h : Named store element) : Named store (.pointer element)
  | slice {element : Ty} (h : Named store element) : Named store (.slice element)
  | array (length : Nat) {element : Ty} (h : Named store element) :
    Named store (.array length element)
  | map {key value : Ty} (hkey : Named store key) (hvalue : Named store value) :
    Named store (.map key value)
  | struct {fields : List Member} (hcalls : ∀ field ∈ fields, store.Calls field.symbol field.name)
    (htypes : ∀ field ∈ fields, Named store field.type) : Named store (.struct fields)
  | interface {methods : List Member}
    (hcalls : ∀ method ∈ methods, store.Calls method.symbol method.name)
    (htypes : ∀ method ∈ methods, Named store method.type) : Named store (.interface methods)
  | func {params results : List Ty} (hparams : ∀ type ∈ params, Named store type)
    (hresults : ∀ type ∈ results, Named store type) : Named store (.func ⟨params, results⟩)
  | tuple {types : List Ty} (htypes : ∀ type ∈ types, Named store type) : Named store (.tuple types)

/-- The members of a package are known under the names of their symbols. -/
def PackageScope.Named (store : Store) (scope : PackageScope) : Prop :=
  ∀ name id, scope.find? name = some id → store.Calls id name

/-- All that a symbol refers to is known under the right names. -/
structure Symbol.Named (store : Store) (symbol : Symbol) : Prop where
  type : ∀ type ∈ symbol.type, type.Named store
  underlying : ∀ shape ∈ symbol.underlying, shape.Named store
  methods : ∀ method ∈ symbol.methods, method.index < store.symbols.size
  imported : ∀ scope ∈ symbol.imported, scope.Named store

/-- All symbols of a store refer to what has the right names, and so do the predeclared names. -/
structure Store.Named (store : Store) : Prop where
  symbols : ∀ id, (store.get id).Named store
  predeclared : ∀ name id, Universe.find? name = some id → store.Calls id name

section

variable {store later : Store}

theorem Ty.Named.mono {type : Ty} (h : type.Named store) (hgrows : store.Grows later) :
    type.Named later := by
  induction h with
  | invalid => exact .invalid
  | basic kind => exact .basic kind
  | named name => exact .named name
  | pointer _ ih => exact .pointer ih
  | slice _ ih => exact .slice ih
  | array length _ ih => exact .array length ih
  | map _ _ ihkey ihvalue => exact .map ihkey ihvalue
  | struct hcalls _ ih => exact .struct (fun field hfield ↦ (hcalls field hfield).mono hgrows) ih
  | interface hcalls _ ih =>
    exact .interface (fun method hmethod ↦ (hcalls method hmethod).mono hgrows) ih
  | func _ _ ihparams ihresults => exact .func ihparams ihresults
  | tuple _ ih => exact .tuple ih

theorem Ty.Named.defaultType {type : Ty} (h : type.Named store) : type.defaultType.Named store := by
  unfold Ty.defaultType
  split <;> first | exact .basic _ | exact h

theorem Ty.Named.widerUntyped {first second : Ty} (hsecond : second.Named store) :
    (first.widerUntyped second).Named store := by
  unfold Ty.widerUntyped
  split
  · split <;> exact .basic _
  · exact hsecond

theorem PackageScope.Named.mono {scope : PackageScope} (h : scope.Named store)
    (hgrows : store.Grows later) : scope.Named later :=
  fun name id hfound ↦ (h name id hfound).mono hgrows

theorem PackageScope.named_fake (path : String) : (PackageScope.fake path).Named store :=
  fun _ _ h ↦ (by cases h)

theorem Symbol.Named.mono {symbol : Symbol} (h : symbol.Named store) (hgrows : store.Grows later) :
    symbol.Named later where
  type type htype := (h.type type htype).mono hgrows
  underlying shape hshape := (h.underlying shape hshape).mono hgrows
  methods method hmethod := Nat.lt_of_lt_of_le (h.methods method hmethod) hgrows.size_le
  imported scope hscope := (h.imported scope hscope).mono hgrows

theorem Symbol.named_default : (default : Symbol).Named store where
  type _ h := by cases h
  underlying _ h := by cases h
  methods _ h := by cases h
  imported _ h := by cases h

namespace Store.Named

theorem push {symbol : Symbol} (h : store.Named) (hsymbol : symbol.Named store) :
    (store.push symbol).Named where
  symbols id := by
    rw [get_push]
    split
    · exact hsymbol.mono (grows_push store symbol)
    · exact (h.symbols id).mono (grows_push store symbol)
  predeclared name id hfind := (h.predeclared name id hfind).mono (grows_push store symbol)

theorem modify {change : Symbol → Symbol} (h : store.Named) (id : SymbolId)
    (hsettles : Settles change)
    (hchange : ∀ symbol : Symbol, symbol.Named store → (change symbol).Named store) :
    (store.modify id change).Named where
  symbols other := by
    have hgrows := grows_modify store id hsettles
    rw [get_modify]
    split
    · exact (hchange _ (h.symbols other)).mono hgrows
    · exact (h.symbols other).mono hgrows
  predeclared name other hfind :=
    (h.predeclared name other hfind).mono (grows_modify store id hsettles)

/-! ### What is read off a store -/

theorem typeOf (h : store.Named) (id : SymbolId) : (store.typeOf id).Named store := by
  unfold Store.typeOf
  dsimp only
  split
  · exact .named _
  · cases htype : (store.get id).type with
    | none => exact .invalid
    | some type => exact (h.symbols id).type type htype

theorem underlying (h : store.Named) {type : Ty} (htype : type.Named store) :
    (store.underlying type).Named store := by
  cases htype with
  | named name =>
    change (((store.get name.symbol).underlying).getD .invalid).Named store
    cases hshape : (store.get name.symbol).underlying with
    | none => exact .invalid
    | some shape => exact (h.symbols _).underlying shape hshape
  | invalid => exact .invalid
  | basic kind => exact .basic kind
  | pointer h => exact .pointer h
  | slice h => exact .slice h
  | array length h => exact .array length h
  | map hkey hvalue => exact .map hkey hvalue
  | struct hcalls htypes => exact .struct hcalls htypes
  | interface hcalls htypes => exact .interface hcalls htypes
  | func hparams hresults => exact .func hparams hresults
  | tuple htypes => exact .tuple htypes

theorem pointee? (h : store.Named) {type element : Ty} (htype : type.Named store)
    (hfound : store.pointee? type = some element) : element.Named store := by
  have hshape := h.underlying htype
  unfold Store.pointee? at hfound
  split at hfound
  · rename_i heq
    cases hfound
    rw [heq] at hshape
    cases hshape
    assumption
  · cases hfound

theorem signature? (h : store.Named) {type : Ty} {signature : Signature} (htype : type.Named store)
    (hfound : store.signature? type = some signature) : (Ty.func signature).Named store := by
  have hshape := h.underlying htype
  unfold Store.signature? at hfound
  split at hfound
  · rename_i heq
    cases hfound
    rw [heq] at hshape
    exact hshape
  · cases hfound

theorem memberBase {type : Ty} (h : type.Named store) : (Store.memberBase type).Named store := by
  unfold Store.memberBase
  split
  · cases h
    assumption
  · exact h

theorem ownMethod? (h : store.Named) {name : String} {type : Ty} {id : SymbolId}
    (hfound : store.ownMethod? name type = some id) : store.Calls id name := by
  unfold Store.ownMethod? at hfound
  split at hfound
  · unfold Store.method? at hfound
    refine ⟨(h.symbols _).methods id (List.mem_of_find?_eq_some hfound), ?_⟩
    simpa using List.find?_some hfound
  · cases hfound

/-- What is found among fields or methods under a name has that name. -/
theorem calls_of_find? {members : List Member} {member : Member} {name : String}
    (h : ∀ member ∈ members, store.Calls member.symbol member.name)
    (hfound : members.find? (·.name == name) = some member) : store.Calls member.symbol name := by
  have hname : member.name = name := by simpa using List.find?_some hfound
  exact hname ▸ h member (List.mem_of_find?_eq_some hfound)

/-- A member of a type, however deep it is embedded, has the name that it is looked up under. -/
theorem memberWithin? (h : store.Named) {name : String} {depth : Nat} {type : Ty}
    (htype : type.Named store) {id : SymbolId}
    (hfound : store.memberWithin? name depth type = some id) : store.Calls id name := by
  fun_induction Store.memberWithin? store name depth type with
  | case1 depth type base method hmethod =>
    cases hfound
    exact h.ownMethod? hmethod
  | case2 depth type base hnone fields hshape field hfield =>
    have hfields := h.underlying (memberBase htype)
    rw [hshape] at hfields
    cases hfields with
    | struct hcalls _ =>
      cases hfound
      exact calls_of_find? hcalls hfield
  | case3 => cases hfound
  | case4 type base hnone fields hshape hfield depth ih =>
    have hfields := h.underlying (memberBase htype)
    rw [hshape] at hfields
    cases hfields with
    | struct _ htypes =>
      obtain ⟨field, hmem, hinner⟩ := List.exists_of_findSome?_eq_some hfound
      exact ih field (htypes field (List.mem_filter.1 hmem).1) hinner
  | case5 depth type base hnone methods hshape =>
    have hmethods := h.underlying (memberBase htype)
    rw [hshape] at hmethods
    obtain ⟨method, hmethod, rfl⟩ := Option.map_eq_some_iff.1 hfound
    cases hmethods with
    | interface hcalls _ => exact calls_of_find? hcalls hmethod
  | case6 => cases hfound

theorem member? (h : store.Named) {name : String} {type : Ty} (htype : type.Named store)
    {id : SymbolId} (hfound : store.member? type name = some id) : store.Calls id name :=
  h.memberWithin? htype hfound

end Store.Named

/-! ### The universe -/

theorem Universe.calls_find? {name : String} {id : SymbolId} (h : Universe.find? name = some id) :
    Universe.store.Calls id name := by
  obtain ⟨index, hindex, rfl⟩ := Option.map_eq_some_iff.1 h
  obtain ⟨hlt, hname, -⟩ := List.findIdx?_eq_some_iff_getElem.1 hindex
  rw [List.length_map] at hlt
  rw [List.getElem_map, beq_iff_eq] at hname
  refine ⟨Nat.succ_lt_succ hlt, ?_⟩
  rw [← hname]
  have hget : Universe.store.symbols[index + 1]? = Universe.symbols[index]? := by simp [store]
  unfold Store.get
  rw [hget, List.getElem?_eq_getElem hlt]
  rfl

/-- The method of errors has no parameters and one result. -/
theorem Universe.named_errorType : (Ty.func ⟨[], [.basic .string]⟩).Named store := by
  refine .func (fun _ h ↦ (by cases h)) fun type h ↦ ?_
  rw [List.mem_singleton.1 h]
  exact .basic _

theorem Universe.named_error : Universe.error.Named Universe.store where
  type _ h := by cases h
  underlying shape hshape := by
    cases hshape
    refine .interface (fun method hmethod ↦ ?_) fun method hmethod ↦ ?_
    · rw [List.mem_singleton.1 hmethod]
      exact ⟨by decide, rfl⟩
    · rw [List.mem_singleton.1 hmethod]
      exact named_errorType
  methods _ h := by cases h
  imported _ h := by cases h

/-- A symbol with a type and nothing else is known under the right names if its type is. -/
theorem Symbol.Named.ofType {symbol : Symbol} (htype : ∀ type ∈ symbol.type, type.Named store)
    (hunderlying : symbol.underlying = none) (hmethods : symbol.methods = [])
    (himported : symbol.imported = none) : symbol.Named store where
  type := htype
  underlying _ h := by rw [hunderlying] at h; cases h
  methods _ h := by rw [hmethods] at h; cases h
  imported _ h := by rw [himported] at h; cases h

theorem Universe.named_of_mem_symbols {symbol : Symbol} (h : symbol ∈ Universe.symbols) :
    symbol.Named Universe.store := by
  have halias (name : String) {type : Ty} (htype : type.Named Universe.store) :
      (aliasOf name type).Named Universe.store :=
    .ofType (fun other hother ↦ by cases hother; exact htype) rfl rfl rfl
  have hbasic {symbol : Symbol} {kind : BasicKind} (htype : symbol.type = some (.basic kind))
      (hunderlying : symbol.underlying = none) (hmethods : symbol.methods = [])
      (himported : symbol.imported = none) : symbol.Named Universe.store :=
    .ofType (fun type h ↦ by rw [htype] at h; cases h; exact .basic kind)
      hunderlying hmethods himported
  rcases List.mem_append.1 h with h | h
  · rcases List.mem_append.1 h with h | h
    · obtain ⟨kind, -, rfl⟩ := List.mem_map.1 h
      exact halias _ (.basic kind)
    · fin_cases h
      · exact halias _ (.basic _)
      · exact halias _ (.basic _)
      · exact halias _ (.interface (fun _ h ↦ (by cases h)) fun _ h ↦ (by cases h))
      · exact named_error
      all_goals exact hbasic rfl rfl rfl rfl
  · obtain ⟨name, -, rfl⟩ := List.mem_map.1 h
    exact .ofType (fun _ h ↦ by cases h) rfl rfl rfl

theorem Universe.named_store : Universe.store.Named where
  symbols id := by
    unfold Store.get
    cases hfound : Universe.store.symbols[id.index]? with
    | none => exact Symbol.named_default
    | some symbol =>
      have hmem : symbol ∈ errorMethod :: symbols :=
        List.mem_toArray.1 (Array.mem_of_getElem? hfound)
      rcases List.mem_cons.1 hmem with rfl | hmem
      · exact Symbol.Named.ofType (fun type htype ↦ by cases htype; exact named_errorType)
          rfl rfl rfl
      · exact named_of_mem_symbols hmem
  predeclared _ _ h := Universe.calls_find? h

end

end PackageAtlas
