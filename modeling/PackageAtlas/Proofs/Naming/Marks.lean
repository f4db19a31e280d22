import Mathlib.Algebra.GroupWithZero.Nat
import PackageAtlas.Proofs.Dedupe.MethodClaims
import PackageAtlas.Proofs.Naming.Roles
import PackageAtlas.Proofs.Naming.Stores
import PackageAtlas.Proofs.Resolution.Steps

/-!
What a check writes down about names. Whatever a name is looked up in, it has the symbols under
their names; a name is recorded as a declaration or as a use according to its role; and a new symbol
comes from the name that it has (`CheckState.Sound`). The judgement `MarksAt` says that a step keeps
this, and what it does to the names of the blocks around; it is closed under sequences and loops, so
that there is one lemma for each rule.
-/

set_option autoImplicit false
set_option relaxedAutoImplicit false

namespace PackageAtlas

/-! ### Names that are not read -/

/-- The names that a statement assigns to, in parentheses or not. -/
def Stmt.targets : Stmt → List Ident
  | .assign _ lhs _ _ => lhs.filterMap (·.unparen.ident?)
  | .incDec _ operand _ => operand.unparen.ident?.toList
  | _ => []

/-- A name that is not read where it stands: it is assigned to, selected from something, or the key
of an element. -/
inductive Node.Spares : Node → Ident → Prop
  | target {st : Stmt} {ident : Ident} (h : ident ∈ st.targets) : Spares (ofStmt st) ident
  | selected {info : NodeInfo} {operand : Expr} {ident : Ident} :
    Spares (ofExpr (.selector info operand ident)) ident
  | key {info : NodeInfo} {ident : Ident} {given : Expr} :
    Spares (ofExpr (.keyValue info (.ident ident) given)) ident

/-! ### Settings -/

/-- What a check is about: its input, the store that it starts from, and the nodes of its files with
their roles. -/
structure Setting where
  input : CheckInput
  store : Store
  placed : Role → Node → Prop

namespace Setting

/-- The children of a node have their roles, and imported packages have their members under the
right names. -/
structure Fair (σ : Setting) : Prop where
  closed : ∀ {role role' : Role} {node child : Node}, σ.placed role node →
    (role', child) ∈ node.roles role → σ.placed role' child
  imports : ∀ path scope, σ.input.importer path = .ok scope → scope.Named σ.store

/-- A symbol comes from a name that it has, from an import without a name, or from nowhere. -/
def Declares (σ : Setting) (symbol : Symbol) : Prop :=
  ∀ origin ∈ symbol.origin, origin.space = σ.input.space ∧
    ((∃ role ident, σ.placed role (.ident ident) ∧ ident.pos = origin.pos ∧
        symbol.name = ident.name) ∨
      symbol.kind = .pkgName ∧ ∃ role spec, σ.placed role (.importSpec spec) ∧
        spec.name = none ∧ spec.path.info.span.start = origin.pos)

/-- A name that is not read where it stands in the files. -/
def Spares (σ : Setting) (ident : Ident) : Prop :=
  ∃ role node, σ.placed role node ∧ node.Spares ident

theorem spares_selected {σ : Setting} {role : Role} {info : NodeInfo} {operand : Expr}
    {selected : Ident} (hplaced : σ.placed role (.ofExpr (.selector info operand selected))) :
    σ.Spares selected :=
  ⟨role, _, hplaced, .selected⟩

end Setting

/-- A signature has one type for each parameter and each result. -/
structure Signature.Fits (signature : Signature) (type : FuncType) : Prop where
  params : signature.params.length = (type.params.map Field.arity).sum
  results : signature.results.length = (type.results.map Field.arity).sum

namespace Store

/-- A symbol is there and is no function, whose type is its signature. -/
structure NoFunc (store : Store) (id : SymbolId) : Prop where
  placed : id.index < store.symbols.size
  kind : (store.get id).kind ≠ .func

/-- A symbol is declared by a name: it has the name and comes from its place. -/
structure DeclaredBy (store : Store) (space : SpaceId) (ident : Ident) (id : SymbolId) :
    Prop where
  calls : store.Calls id ident.name
  origin : (store.get id).origin = some ⟨space, ident.pos⟩

/-- The same for a symbol of a kind. -/
structure DeclaredAs (store : Store) (space : SpaceId) (kind : SymbolKind) (ident : Ident)
    (id : SymbolId) : Prop extends store.DeclaredBy space ident id where
  kind_eq : (store.get id).kind = kind

variable {store later : Store}

theorem NoFunc.mono {id : SymbolId} (h : store.NoFunc id) (hgrows : store.Grows later) :
    later.NoFunc id :=
  ⟨Nat.lt_of_lt_of_le h.placed hgrows.size_le, hgrows.kind id h.placed ▸ h.kind⟩

theorem DeclaredBy.mono {space : SpaceId} {ident : Ident} {id : SymbolId}
    (h : store.DeclaredBy space ident id) (hgrows : store.Grows later) :
    later.DeclaredBy space ident id :=
  ⟨h.calls.mono hgrows, (hgrows.origin id h.calls.placed).trans h.origin⟩

theorem DeclaredAs.mono {space : SpaceId} {kind : SymbolKind} {ident : Ident} {id : SymbolId}
    (h : store.DeclaredAs space kind ident id) (hgrows : store.Grows later) :
    later.DeclaredAs space kind ident id :=
  ⟨h.toDeclaredBy.mono hgrows, (hgrows.kind id h.calls.placed).trans h.kind_eq⟩

theorem DeclaredAs.noFunc {space : SpaceId} {kind : SymbolKind} {ident : Ident} {id : SymbolId}
    (h : store.DeclaredAs space kind ident id) (hkind : kind ≠ .func) : store.NoFunc id :=
  ⟨h.calls.placed, h.kind_eq ▸ hkind⟩

end Store

/-! ### What is reported if it stays unused -/

namespace Setting

/-- An entry notes an import of the files, and the symbol of the name that this brings in. -/
structure Imports (σ : Setting) (store : Store) (spec : ImportSpec) (entry : DeclaredImport) :
    Prop where
  placed : ∃ role, σ.placed role (.importSpec spec)
  named : ∀ ident ∈ spec.name, ident.name ≠ "_" ∧ ident.name ≠ "."
  pos : entry.pos = spec.path.info.span.start
  path : entry.path = spec.pathValue
  isThere : entry.symbol.index < store.symbols.size
  kind : (store.get entry.symbol).kind = .pkgName

/-- A symbol is the variable that a name of the files declares, and not a blank one. -/
structure DeclaresLocal (σ : Setting) (store : Store) (ident : Ident) (id : SymbolId) : Prop where
  placed : σ.placed .declares (.ident ident)
  isNamed : ident.isBlank = false
  declared : store.DeclaredAs σ.input.space .var ident id

/-- An entry notes the name that a type switch binds, and the variables that this stands for, one in
each arm. -/
structure Binds (σ : Setting) (store : Store) (bound : SwitchBinding) : Prop where
  placed : ∃ role info init guard clauses,
    σ.placed role (.ofStmt (.typeSwitch info init (some bound.binding) guard clauses)) ∧
      bound.symbols.length = clauses.length
  isNamed : bound.binding.isBlank = false
  symbols : ∀ id ∈ bound.symbols, store.DeclaredAs σ.input.space .var bound.binding id

end Setting

/-! ### Sound states -/

/-- A dictionary has symbols under their names. -/
def Dict.Named (store : Store) (dict : Dict String SymbolId) : Prop :=
  ∀ name id, dict.find? name = some id → store.Calls id name

namespace Dict

/-- A key keeps its place, and a new one comes last. -/
theorem keys_insert {κ α : Type} [DecidableEq κ] (dict : Dict κ α) (key : κ) (value : α) :
    (dict.insert key value).keys = if key ∈ dict.keys then dict.keys else dict.keys ++ [key] := by
  obtain ⟨entries⟩ := dict
  change (put key value entries).map (·.1) = if key ∈ entries.map (·.1) then _ else _
  induction entries with
  | nil => rfl
  | cons entry rest ih =>
    unfold put
    by_cases heq : entry.1 = key
    · rw [if_pos heq, List.map_cons, if_pos (heq ▸ List.mem_cons_self), ← heq]
      rfl
    · have hmem : key ∈ (entry :: rest).map (·.1) ↔ key ∈ rest.map (·.1) :=
        List.mem_cons.trans (or_iff_right (Ne.symm heq))
      rw [if_neg heq, List.map_cons, ih]
      simp only [hmem]
      split <;> rfl

theorem nodup_keys_insert {κ α : Type} [DecidableEq κ] {dict : Dict κ α} (h : dict.keys.Nodup)
    (key : κ) (value : α) : (dict.insert key value).keys.Nodup := by
  rw [keys_insert]
  split
  · exact h
  · rename_i hnew
    exact List.nodup_append_comm.1 (List.nodup_cons.2 ⟨hnew, h⟩)

/-- What holds of the entries and of a new one holds of all entries afterwards. -/
theorem forall_find?_insert {κ α : Type} [DecidableEq κ] {dict : Dict κ α} {entry : κ → α → Prop}
    (h : ∀ key value, dict.find? key = some value → entry key value) {key : κ} {value : α}
    (hnew : entry key value) : ∀ other value',
      (dict.insert key value).find? other = some value' → entry other value' := by
  intro other value' hfound
  by_cases heq : other = key
  · subst heq
    rw [find?_insert_self] at hfound
    cases hfound
    exact hnew
  · rw [find?_insert_of_ne dict value heq] at hfound
    exact h other value' hfound

variable {store later : Store} {dict : Dict String SymbolId}

theorem named_empty : (empty : Dict String SymbolId).Named store := fun _ _ h ↦ (by cases h)

theorem Named.mono (h : dict.Named store) (hgrows : store.Grows later) : dict.Named later :=
  fun name id hfound ↦ (h name id hfound).mono hgrows

theorem Named.insert (h : dict.Named store) {name : String} {id : SymbolId}
    (hid : store.Calls id name) : (dict.insert name id).Named store :=
  forall_find?_insert h hid

end Dict

/-- A block has symbols under their names, and all names that were declared but the blank one. -/
structure BlockScope.Holds (store : Store) (names : List String) (scope : BlockScope) : Prop where
  named : Dict.Named store scope
  contains : ∀ name, name ≠ "_" → (scope.contains name = true ↔ name ∈ names)

/-- The imports of a file have their names, and so do the members of its dot imports; those that may
stay unused stand in the files. -/
structure FileScope.Sound (σ : Setting) (store : Store) (file : FileScope) : Prop where
  imports : Dict.Named store file.imports
  dotImports : ∀ scope ∈ file.dotImports, scope.Named store
  declared : ∀ entry ∈ file.declared, ∃ spec, σ.Imports store spec entry

/-- What is resolved later is part of the files; a function has no type yet, or one that fits. -/
def Pending.Sound (σ : Setting) (store : Store) (id : SymbolId) : Pending → Prop
  | .type spec _ => σ.placed .uses (.typeSpec spec) ∧ store.NoFunc id
  | .value _ => store.NoFunc id
  | .func decl _ => σ.placed .uses (.funcDecl decl) ∧ id.index < store.symbols.size ∧
      (store.get id).kind = .func ∧
      ∀ type ∈ (store.get id).type, ∃ signature : Signature, type = .func signature ∧
        signature.Fits decl.type

/-- The parts of a group are part of the files, and none of its symbols is a function. -/
structure ValueGroup.Sound (σ : Setting) (store : Store) (group : ValueGroup) : Prop where
  symbols : ∀ id ∈ group.symbols, store.NoFunc id
  type : ∀ e ∈ group.type, σ.placed .uses (.ofExpr e)
  values : ∀ e ∈ group.values, σ.placed .uses (.ofExpr e)

/-- Whether a symbol is one that may be reported as unused. -/
def SymbolKind.isUsable (kind : SymbolKind) : Bool := kind = .var || kind = .pkgName

/-- A symbol counts as used, or it is none that is reported as unused. -/
def CheckState.Credits (s : CheckState) (id : SymbolId) : Prop :=
  id ∈ s.used ∨ (s.store.get id).kind.isUsable = false

/-- A state in which everything is known under the right name, and every record is of a name in its
role. A symbol counts as used when a name reads it. The blocks around have some names, the innermost
first. -/
structure CheckState.Sound (σ : Setting) (blocks : List (List String)) (s : CheckState) : Prop where
  store : s.store.Named
  grown : σ.store.Grows s.store
  created : ∀ id : SymbolId, σ.store.symbols.size ≤ id.index → σ.Declares (s.store.get id)
  scopes : List.Forall₂ (BlockScope.Holds s.store) blocks s.context.scopes
  members : s.members.Named s.store
  files : ∀ file ∈ s.files, file.Sound σ s.store
  foreign : s.foreign.Named s.store
  defs : ∀ id ref, s.info.defs.find? id = some ref → ref.ident.info.id = id ∧
    σ.placed .declares (.ident ref.ident) ∧
    s.store.DeclaredBy σ.input.space ref.ident ref.symbol
  uses : ∀ id ref, s.info.uses.find? id = some ref → ref.ident.info.id = id ∧
    σ.placed .uses (.ident ref.ident) ∧ s.store.Calls ref.symbol ref.ident.name
  keys : s.info.uses.keys.Nodup
  reads : ∀ id ref, s.info.uses.find? id = some ref → σ.Spares ref.ident ∨ s.Credits ref.symbol
  locals : ∀ id ∈ s.locals, ∃ ident, σ.DeclaresLocal s.store ident id
  bindings : ∀ bound ∈ s.bindings, σ.Binds s.store bound
  reports : ∀ diagnostic ∈ s.reports, diagnostic.isSoft = false
  pending : ∀ id pending, s.pending.find? id = some pending → pending.Sound σ s.store id
  groups : ∀ group ∈ s.groups, group.Sound σ s.store
  funcs : ∀ entry ∈ s.funcs, s.pending.find? entry.2.1 = some (.func entry.1 entry.2.2)

section

variable {σ : Setting} {store later : Store}

theorem BlockScope.Holds.mono {names : List String} {scope : BlockScope}
    (h : BlockScope.Holds store names scope) (hgrows : store.Grows later) :
    BlockScope.Holds later names scope :=
  ⟨h.named.mono hgrows, h.contains⟩

theorem BlockScope.holds_empty : BlockScope.Holds store [] Dict.empty :=
  ⟨Dict.named_empty, fun _ _ ↦ ⟨fun h ↦ (by cases h), fun h ↦ (by cases h)⟩⟩

theorem BlockScope.Holds.insert {names : List String} {scope : BlockScope}
    (h : BlockScope.Holds store names scope) {name : String} {id : SymbolId}
    (hid : store.Calls id name) :
    BlockScope.Holds store (name :: names) (scope.insert name id) where
  named := h.named.insert hid
  contains other hother := by
    rw [Dict.contains_insert, List.mem_cons, h.contains other hother]

/-- The blank name and names that a block has already make no difference. -/
theorem BlockScope.Holds.congr {names names' : List String} {scope : BlockScope}
    (h : BlockScope.Holds store names scope)
    (hsame : ∀ name, name ≠ "_" → (name ∈ names ↔ name ∈ names')) :
    BlockScope.Holds store names' scope :=
  ⟨h.named, fun name hname ↦ (h.contains name hname).trans (hsame name hname)⟩

theorem Setting.Imports.mono {spec : ImportSpec} {entry : DeclaredImport}
    (h : σ.Imports store spec entry) (hgrows : store.Grows later) : σ.Imports later spec entry :=
  { h with
    isThere := Nat.lt_of_lt_of_le h.isThere hgrows.size_le
    kind := (hgrows.kind _ h.isThere).trans h.kind }

theorem Setting.DeclaresLocal.mono {ident : Ident} {id : SymbolId}
    (h : σ.DeclaresLocal store ident id) (hgrows : store.Grows later) :
    σ.DeclaresLocal later ident id :=
  { h with declared := h.declared.mono hgrows }

theorem Setting.Binds.mono {bound : SwitchBinding} (h : σ.Binds store bound)
    (hgrows : store.Grows later) : σ.Binds later bound :=
  { h with symbols := fun id hid ↦ (h.symbols id hid).mono hgrows }

theorem FileScope.Sound.mono {file : FileScope} (h : file.Sound σ store)
    (hgrows : store.Grows later) : file.Sound σ later where
  imports := h.imports.mono hgrows
  dotImports scope hscope := (h.dotImports scope hscope).mono hgrows
  declared entry hentry := (h.declared entry hentry).imp fun _ himports ↦ himports.mono hgrows

theorem FileScope.sound_empty : FileScope.empty.Sound σ store :=
  ⟨Dict.named_empty, fun _ h ↦ (by cases h), fun _ h ↦ (by cases h)⟩

theorem Pending.Sound.placed {id : SymbolId} {pending : Pending} (h : pending.Sound σ store id) :
    id.index < store.symbols.size := by
  cases pending with
  | type spec file => exact h.2.placed
  | value group => exact Store.NoFunc.placed h
  | func decl file => exact h.2.1

/-- Pending symbols stay so when the types of functions stay. -/
theorem Pending.Sound.mono {id : SymbolId} {pending : Pending} (h : pending.Sound σ store id)
    (hgrows : store.Grows later)
    (htypes : (store.get id).kind = .func → (later.get id).type = (store.get id).type) :
    pending.Sound σ later id := by
  cases pending with
  | type spec file => exact ⟨h.1, h.2.mono hgrows⟩
  | value group => exact Store.NoFunc.mono h hgrows
  | func decl file =>
    obtain ⟨hplaced, hid, hkind, htype⟩ := h
    refine ⟨hplaced, Nat.lt_of_lt_of_le hid hgrows.size_le, (hgrows.kind id hid).trans hkind, ?_⟩
    rw [htypes hkind]
    exact htype

theorem ValueGroup.Sound.mono {group : ValueGroup} (h : group.Sound σ store)
    (hgrows : store.Grows later) : group.Sound σ later :=
  ⟨fun id hid ↦ (h.symbols id hid).mono hgrows, h.type, h.values⟩

end

namespace CheckState.Sound

variable {σ : Setting} {blocks : List (List String)} {s : CheckState}

/-- A change of the store after which what is resolved later is still sound. -/
theorem ofStore (h : s.Sound σ blocks) {store : Store} (hgrows : s.store.Grows store)
    (hnamed : store.Named)
    (hcreated : ∀ id : SymbolId, σ.store.symbols.size ≤ id.index → σ.Declares (store.get id))
    (hpending : ∀ id pending, s.pending.find? id = some pending → pending.Sound σ store id) :
    CheckState.Sound σ blocks { s with store } where
  store := hnamed
  grown := h.grown.trans hgrows
  created := hcreated
  scopes := h.scopes.imp fun _ _ ↦ fun hscope ↦ hscope.mono hgrows
  members := h.members.mono hgrows
  files file hfile := (h.files file hfile).mono hgrows
  foreign := h.foreign.mono hgrows
  defs id ref hfound := by
    obtain ⟨hid, hplaced, hdeclared⟩ := h.defs id ref hfound
    exact ⟨hid, hplaced, hdeclared.mono hgrows⟩
  uses id ref hfound := by
    obtain ⟨hid, hplaced, hcalls⟩ := h.uses id ref hfound
    exact ⟨hid, hplaced, hcalls.mono hgrows⟩
  keys := h.keys
  reads id ref hfound := (h.reads id ref hfound).imp_right fun hcredits ↦
    hcredits.imp_right ((hgrows.kind _ (h.uses id ref hfound).2.2.placed).symm ▸ ·)
  locals id hid := (h.locals id hid).imp fun _ hdeclares ↦ hdeclares.mono hgrows
  bindings bound hbound := (h.bindings bound hbound).mono hgrows
  reports := h.reports
  pending := hpending
  groups group hgroup := (h.groups group hgroup).mono hgrows
  funcs := h.funcs

/-- A change of the context to other blocks. -/
theorem ofContext (h : s.Sound σ blocks) {blocks' : List (List String)} {context : Context}
    (hscopes : List.Forall₂ (BlockScope.Holds s.store) blocks' context.scopes) :
    CheckState.Sound σ blocks' { s with context } :=
  { h with scopes := hscopes }

/-- Whatever a name stands for has the name. -/
theorem lookup? (h : s.Sound σ blocks) {name : String} {id : SymbolId}
    (hfound : s.lookup? name = some id) : s.store.Calls id name := by
  have hfile : (s.files[s.context.file]?.getD FileScope.empty).Sound σ s.store := by
    cases hfile : s.files[s.context.file]? with
    | none => exact FileScope.sound_empty
    | some file => exact h.files file (List.mem_of_getElem? hfile)
  rcases (Option.orElse_eq_some _ _ _).1 hfound with hfound | ⟨-, hfound⟩
  · obtain ⟨scope, hscope, hfound⟩ := List.exists_of_findSome?_eq_some hfound
    obtain ⟨names, -, hholds⟩ := exists_of_forall₂ h.scopes hscope
    exact hholds.named name id hfound
  rcases (Option.orElse_eq_some _ _ _).1 hfound with hfound | ⟨-, hfound⟩
  · exact hfile.imports name id hfound
  rcases (Option.orElse_eq_some _ _ _).1 hfound with hfound | ⟨-, hfound⟩
  · exact h.members name id hfound
  rcases (Option.orElse_eq_some _ _ _).1 hfound with hfound | ⟨-, hfound⟩
  · obtain ⟨scope, hscope, hmember⟩ := List.exists_of_findSome?_eq_some hfound
    exact hfile.dotImports scope hscope name id (Option.filter_eq_some_iff.1 hmember).1
  · exact h.store.predeclared name id hfound

/-- What the innermost block has under a name has the name. -/
theorem innermost? (h : s.Sound σ blocks) {name : String} {id : SymbolId}
    (hfound : s.context.scopes.head?.bind (·.find? name) = some id) : s.store.Calls id name := by
  obtain ⟨scope, hscope, hfound⟩ := Option.bind_eq_some_iff.1 hfound
  obtain ⟨names, -, hholds⟩ := exists_of_forall₂ h.scopes (List.mem_of_head? hscope)
  exact hholds.named name id hfound

end CheckState.Sound

/-! ### Judgements -/

/-- A state with more symbols, in which what is pending is still so. -/
structure CheckState.Grows (s later : CheckState) : Prop where
  store : s.store.Grows later.store
  pending : ∀ id pending, s.pending.find? id = some pending →
    later.pending.find? id = some pending

namespace CheckState.Grows

variable {first second third : CheckState}

theorem refl (s : CheckState) : s.Grows s := ⟨.refl _, fun _ _ h ↦ h⟩

theorem trans (h : first.Grows second) (h' : second.Grows third) : first.Grows third :=
  ⟨h.store.trans h'.store, fun id pending hfound ↦
    h'.pending id pending (h.pending id pending hfound)⟩

theorem ofStore (h : first.store.Grows second.store) (hpending : second.pending = first.pending) :
    first.Grows second :=
  ⟨h, fun _ _ hfound ↦ hpending ▸ hfound⟩

end CheckState.Grows

/-- A step from a sound state leads to a sound state, in which the blocks around have other names
perhaps, and to a result with a property. -/
def MarksAt {α : Type} (σ : Setting) (blocks blocks' : List (List String)) (s : CheckState)
    (step : Check α) (result : α → Store → Prop) : Prop :=
  s.Sound σ blocks → ∀ a later, step σ.input s = some (a, later) →
    later.Sound σ blocks' ∧ s.Grows later ∧ result a later.store

/-- Nothing that has to be known of a result. -/
def Anything {α : Type} : α → Store → Prop := fun _ _ ↦ True

/-- A step from every sound state does. -/
def Marks {α : Type} (σ : Setting) (blocks : List (List String)) (step : Check α)
    (result : α → Store → Prop) : Prop :=
  ∀ s, MarksAt σ blocks blocks s step result

section Judgements

variable {α β γ : Type} {σ : Setting} {blocks blocks' blocks'' : List (List String)}
  {s : CheckState} {step : Check α} {next : α → Check β} {result : α → Store → Prop}
  {result' : β → Store → Prop}

namespace MarksAt

theorem pure {a : α} (h : result a s.store) : MarksAt σ blocks blocks s (Pure.pure a) result := by
  intro hs b later hrun
  cases hrun
  exact ⟨hs, .refl _, h⟩

theorem bindGrown (h : MarksAt σ blocks blocks' s step result)
    (hnext : ∀ a later, s.Grows later → result a later.store →
      MarksAt σ blocks' blocks'' later (next a) result') :
    MarksAt σ blocks blocks'' s (step >>= next) result' := by
  intro hs b later hrun
  obtain ⟨a, middle, hstep, hrest⟩ := exists_of_run_bind hrun
  obtain ⟨hmiddle, hgrows, hresult⟩ := h hs a middle hstep
  obtain ⟨hlater, hmore, hresult'⟩ := hnext a middle hgrows hresult hmiddle b later hrest
  exact ⟨hlater, hgrows.trans hmore, hresult'⟩

theorem bind (h : MarksAt σ blocks blocks' s step result)
    (hnext : ∀ a later, s.store.Grows later.store → result a later.store →
      MarksAt σ blocks' blocks'' later (next a) result') :
    MarksAt σ blocks blocks'' s (step >>= next) result' :=
  h.bindGrown fun a later hgrows ha ↦ hnext a later hgrows.store ha

/-- Going on after a look at a sound state. -/
theorem look {f : CheckInput → CheckState → α} (hlook : Sees step f)
    (hnext : s.Sound σ blocks → MarksAt σ blocks blocks' s (next (f σ.input s)) result') :
    MarksAt σ blocks blocks' s (step >>= next) result' := by
  intro hs b later hrun
  rw [run_bind_of_some (hlook σ.input s)] at hrun
  exact hnext hs hs b later hrun

theorem weaken {result'' : α → Store → Prop} (h : MarksAt σ blocks blocks' s step result)
    (hresult : ∀ a (later : CheckState), later.Sound σ blocks' → s.store.Grows later.store →
      result a later.store → result'' a later.store) :
    MarksAt σ blocks blocks' s step result'' := by
  intro hs a later hrun
  obtain ⟨hlater, hgrows, ha⟩ := h hs a later hrun
  exact ⟨hlater, hgrows, hresult a later hlater hgrows.store ha⟩

theorem ite {p : Prop} [Decidable p] {step' : Check α}
    (h : p → MarksAt σ blocks blocks' s step result)
    (h' : ¬p → MarksAt σ blocks blocks' s step' result) :
    MarksAt σ blocks blocks' s (if p then step else step') result := by
  split
  · exact h ‹p›
  · exact h' ‹¬p›

theorem anything (h : MarksAt σ blocks blocks' s step result) :
    MarksAt σ blocks blocks' s step Anything :=
  h.weaken fun _ _ _ _ _ ↦ trivial

/-- A change of the state. -/
theorem modify {f : CheckState → CheckState} (hgrows : s.Grows (f s))
    (h : s.Sound σ blocks → (f s).Sound σ blocks') :
    MarksAt σ blocks blocks' s (modify f : Check Unit) Anything := by
  intro hs a later hrun
  cases hrun
  exact ⟨h hs, hgrows, trivial⟩

theorem map (h : MarksAt σ blocks blocks' s step result) {f : α → β}
    (hf : ∀ a store, result a store → result' (f a) store) :
    MarksAt σ blocks blocks' s (f <$> step) result' := by
  rw [map_eq_pure_bind]
  exact h.bind fun a later _ ha ↦ pure (hf a _ ha)

end MarksAt

namespace Marks

theorem forM {step : γ → Check Unit} {list : List γ}
    (h : ∀ a ∈ list, Marks σ blocks (step a) Anything) :
    Marks σ blocks (list.forM step) Anything := by
  induction list with
  | nil => exact fun s ↦ .pure trivial
  | cons a rest ih =>
    exact fun s ↦ (h a List.mem_cons_self s).bind fun _ later _ _ ↦
      ih (fun other hother ↦ h other (List.mem_cons_of_mem a hother)) later

/-- A loop over entries with a property that stores keep as they grow. -/
theorem forMOf (kept : γ → Store → Prop) {step : γ → Check Unit} {list : List γ}
    (hmono : ∀ a {store later : Store}, store.Grows later → kept a store → kept a later)
    (h : ∀ a ∈ list, ∀ s : CheckState, kept a s.store →
      MarksAt σ blocks blocks s (step a) Anything)
    (hstart : ∀ a ∈ list, kept a s.store) :
    MarksAt σ blocks blocks s (list.forM step) Anything := by
  induction list generalizing s with
  | nil => exact .pure trivial
  | cons a rest ih =>
    refine (h a List.mem_cons_self s (hstart a List.mem_cons_self)).bind fun _ later hgrows _ ↦ ?_
    exact ih (fun other hother ↦ h other (List.mem_cons_of_mem a hother)) fun other hother ↦
      hmono other hgrows (hstart other (List.mem_cons_of_mem a hother))

/-- The results of a list of steps with a property of the store that they start from: there is one
for each step, which still has its own property at the end. -/
theorem mapMOf (kept : Store → Prop) (result : α → Store → Prop) {step : γ → Check α}
    {list : List γ}
    (hmono : ∀ {store later : Store}, store.Grows later → kept store → kept later)
    (hresult : ∀ b {store later : Store}, store.Grows later → result b store → result b later)
    (h : ∀ a ∈ list, ∀ s : CheckState, kept s.store →
      MarksAt σ blocks blocks s (step a) result) (hstart : kept s.store) :
    MarksAt σ blocks blocks s (list.mapM step) fun results store ↦
      results.length = list.length ∧ ∀ b ∈ results, result b store := by
  induction list generalizing s with
  | nil => exact .pure ⟨rfl, fun _ h ↦ (by cases h)⟩
  | cons a rest ih =>
    rw [List.mapM_cons]
    refine (h a List.mem_cons_self s hstart).bind fun b middle hgrows hb ↦ ?_
    refine (ih (fun other hother ↦ h other (List.mem_cons_of_mem a hother))
      (hmono hgrows hstart)).bind fun bs later hmore hbs ↦ ?_
    exact .pure ⟨congrArg (· + 1) hbs.1, List.forall_mem_cons.2 ⟨hresult b hmore hb, hbs.2⟩⟩

/-- The results of a list of steps, each of which still has its property at the end. -/
theorem mapM (result : γ → α → Store → Prop) {step : γ → Check α} {list : List γ}
    (hmono : ∀ a b {store later : Store}, store.Grows later → result a b store → result a b later)
    (h : ∀ a ∈ list, Marks σ blocks (step a) (result a)) :
    Marks σ blocks (list.mapM step) fun results store ↦
      List.Forall₂ (fun a b ↦ result a b store) list results := by
  induction list with
  | nil => exact fun s ↦ .pure .nil
  | cons a rest ih =>
    rw [List.mapM_cons]
    have hrest := ih fun other hother ↦ h other (List.mem_cons_of_mem a hother)
    refine fun s ↦ (h a List.mem_cons_self s).bind fun b middle _ hb ↦ ?_
    exact (hrest middle).bind fun bs later hgrows hbs ↦ .pure (.cons (hmono a b hgrows hb) hbs)

/-- A loop with a value that keeps a property. -/
theorem foldlM (result : α → Store → Prop) {step : α → γ → Check α} {list : List γ}
    (h : ∀ a, ∀ b ∈ list, ∀ s : CheckState, result a s.store →
      MarksAt σ blocks blocks s (step a b) result)
    {start : α} (hstart : result start s.store) :
    MarksAt σ blocks blocks s (list.foldlM step start) result := by
  induction list generalizing s start with
  | nil => exact .pure hstart
  | cons b rest ih =>
    refine (h start b List.mem_cons_self s hstart).bind fun a later _ ha ↦ ?_
    exact ih (fun a' other hother ↦ h a' other (List.mem_cons_of_mem b hother)) ha

theorem mapOption (result : α → Store → Prop) {step : γ → Check α} {option : Option γ}
    (h : ∀ a ∈ option, Marks σ blocks (step a) result) :
    Marks σ blocks (option.mapM step) fun found store ↦ ∀ a ∈ found, result a store := by
  cases option with
  | none => exact fun s ↦ .pure fun _ h ↦ (by cases h)
  | some a =>
    exact fun s ↦ (h a rfl s).bind fun b later _ hb ↦ .pure fun c hc ↦ by cases hc; exact hb

theorem forOption {step : γ → Check Unit} {option : Option γ}
    (h : ∀ a ∈ option, Marks σ blocks (step a) Anything) :
    Marks σ blocks (option.forM step) Anything := by
  cases option with
  | none => exact fun s ↦ .pure trivial
  | some a => exact h a rfl

end Marks

end Judgements

end PackageAtlas
