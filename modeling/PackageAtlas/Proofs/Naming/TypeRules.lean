import PackageAtlas.Proofs.Naming.NameRules
import PackageAtlas.Check.TypeRules

/-!
Type expressions. The type that an expression stands for knows its fields and methods under the
names of their symbols, and a signature has a type for each parameter and each result.
-/

set_option autoImplicit false
set_option relaxedAutoImplicit false

namespace PackageAtlas

open Check CheckRule

/-- A field or a method is known under the name of its symbol, and its type is in order. -/
structure Member.Named (store : Store) (member : Member) : Prop where
  calls : store.Calls member.symbol member.name
  type : member.type.Named store

theorem Member.Named.mono {store later : Store} {member : Member} (h : member.Named store)
    (hgrows : store.Grows later) : member.Named later :=
  ⟨h.calls.mono hgrows, h.type.mono hgrows⟩

theorem Ty.Named.ofFields {store : Store} {fields : List Member}
    (h : ∀ field ∈ fields, field.Named store) : (Ty.struct fields).Named store :=
  .struct (fun field hfield ↦ (h field hfield).calls) fun field hfield ↦ (h field hfield).type

theorem Ty.Named.ofMethods {store : Store} {methods : List Member}
    (h : ∀ method ∈ methods, method.Named store) : (Ty.interface methods).Named store :=
  .interface (fun method hmethod ↦ (h method hmethod).calls)
    fun method hmethod ↦ (h method hmethod).type

/-! ### Parts of type expressions -/

/-- Whether an expression has a block of statements, whose names are its own. -/
def Expr.isFuncLit : Expr → Bool
  | .funcLit .. => true
  | _ => false

namespace Setting.Fair

variable {σ : Setting}

/-- The parts of an expression that is no function are used. -/
theorem exprChild (h : σ.Fair) {e : Expr} (hplaced : σ.placed .uses (.ofExpr e)) {child : Node}
    (hchild : child ∈ Node.exprChildren e) (hfunc : e.isFuncLit = false) :
    σ.placed .uses child := by
  refine h.closed hplaced ?_
  cases e with
  | ident i => cases hchild
  | funcLit info type body => cases hfunc
  | funcType type => exact List.mem_map_of_mem hchild
  | _ => exact List.mem_map_of_mem hchild

theorem fieldNames (h : σ.Fair) {role : Role} {field : Field}
    (hplaced : σ.placed role (.field field)) {name : Ident} (hname : name ∈ field.names) :
    σ.placed .declares (.ident name) :=
  h.closed hplaced (List.mem_append_left _ (List.mem_map_of_mem hname))

theorem fieldType (h : σ.Fair) {role : Role} {field : Field}
    (hplaced : σ.placed role (.field field)) : σ.placed .uses (.ofExpr field.type) :=
  h.closed hplaced (List.mem_append_right _ List.mem_cons_self)

/-- The parameters and results of a function type are parts of it. -/
theorem funcFields (h : σ.Fair) {role : Role} {type : FuncType}
    (hplaced : σ.placed role (.funcType type)) {field : Field}
    (hfield : field ∈ type.params ∨ field ∈ type.results) : σ.placed .uses (.field field) := by
  refine h.closed hplaced (List.mem_map_of_mem ?_)
  exact List.mem_append.2 (hfield.imp (List.mem_map_of_mem ·) (List.mem_map_of_mem ·))

/-- The name of an embedded field is a part of its type. -/
theorem embeddedName? (h : σ.Fair) {e : Expr} (hplaced : σ.placed .uses (.ofExpr e)) {name : Ident}
    (hname : CheckRule.embeddedName? e = some name) : σ.placed .uses (.ident name) := by
  fun_induction CheckRule.embeddedName? e with
  | case1 i =>
    cases hname
    exact hplaced
  | case2 info operand selected =>
    cases hname
    exact h.exprChild hplaced (by simp [Node.exprChildren]) rfl
  | case3 info operand ih =>
    exact ih (h.exprChild hplaced (by simp [Node.exprChildren]) rfl) hname
  | case4 info inner ih =>
    exact ih (h.exprChild hplaced (by simp [Node.exprChildren]) rfl) hname
  | case5 => cases hname

end Setting.Fair

section

variable {σ : Setting} {names : List String} {blocks : List (List String)} {s : CheckState}
  {c : Checker}

/-! ### Names of types -/

theorem marks_badType (pos : Nat) {problem : Problem} (hhard : problem.isSoft = false) :
    MarksAt σ blocks blocks s (badType pos problem) fun type store ↦ type.Named store :=
  (marks_report pos hhard).bind fun _ _ _ _ ↦ .pure .invalid

theorem marks_namedType (hresolve : ∀ id, Marks σ blocks (c.resolve id) Anything) {ident : Ident}
    (hplaced : σ.placed .uses (.ident ident)) :
    MarksAt σ blocks blocks s (namedType c ident) fun type store ↦ type.Named store := by
  refine .look (sees_lookup? _) fun hs ↦ ?_
  cases hfound : s.lookup? ident.name with
  | none => exact marks_badType _ rfl
  | some id =>
    have hid := hs.lookup? hfound
    by_cases hkind : (s.store.get id).kind = .typeName
    · have hcredits : s.Credits id := .inr (by rw [hkind]; rfl)
      refine (marks_recordUse hplaced hid (.inr hcredits)).bind fun _ s₁ h₁ _ ↦ ?_
      refine .look (sees_symbol id) fun _ ↦ .ite (fun hother ↦ ?_) fun _ ↦ ?_
      · exact absurd ((h₁.kind id hid.placed).trans hkind) hother
      · have htyped {s : CheckState} :
            MarksAt σ blocks blocks s (typeOf id) fun type store ↦ type.Named store :=
          .look sees_store fun hs ↦ .pure (hs.store.typeOf id)
        exact .ite (fun _ ↦ (hresolve id s₁).bind fun _ _ _ _ ↦ htyped) fun _ ↦ htyped
    · exact .readingSeen hplaced hid (if_pos hkind) fun _ _ ↦ marks_badType _ rfl

theorem marks_packageType (package : Ident) {selected : Ident} {scope : PackageScope}
    (hscope : scope.Named s.store) (hplaced : σ.placed .uses (.ident selected))
    (hspared : σ.Spares selected) :
    MarksAt σ blocks blocks s (packageType package selected scope)
      fun type store ↦ type.Named store := by
  refine .ite (fun _ ↦ ?_) fun _ ↦ ?_
  · exact (marks_foreignMember selected.name).bind fun id _ _ hid ↦
      (marks_recordUse hplaced hid (.inl hspared)).bind fun _ _ _ _ ↦ .pure .invalid
  · cases hfound : scope.find? selected.name with
    | none => exact marks_badType _ rfl
    | some id =>
      refine .look (sees_symbol id) fun _ ↦ .ite (fun _ ↦ ?_) fun _ ↦ marks_badType _ rfl
      exact (marks_recordUse hplaced (hscope _ id hfound) (.inl hspared)).bind fun _ _ _ _ ↦
        .look sees_store fun hs ↦ .pure (hs.store.typeOf id)

theorem marks_qualifiedType (info : NodeInfo) {operand : Expr} {selected : Ident}
    (hoperand : σ.placed .uses (.ofExpr operand)) (hplaced : σ.placed .uses (.ident selected))
    (hspared : σ.Spares selected) :
    MarksAt σ blocks blocks s (qualifiedType info operand selected)
      fun type store ↦ type.Named store := by
  unfold qualifiedType
  split
  · rename_i package
    refine .look (sees_lookup? _) fun hs ↦ ?_
    cases hfound : s.lookup? package.name with
    | none => exact marks_badType _ rfl
    | some id =>
      refine .reading hoperand (hs.lookup? hfound) fun s₂ _ ↦ .look (sees_symbol id) fun hs₂ ↦ ?_
      cases himported : (s₂.store.get id).imported with
      | none => exact marks_badType _ rfl
      | some scope =>
        exact marks_packageType package ((hs₂.store.symbols id).imported scope himported) hplaced
          hspared
  · exact marks_badType _ rfl

theorem marks_arrayType {length : Option Expr} {element : Expr}
    (helement : Marks σ blocks (c.typeExpr element) fun type store ↦ type.Named store)
    (hlength : ∀ e ∈ length, Marks σ blocks (c.expr e) Operand.Named) :
    MarksAt σ blocks blocks s (arrayType c length element) fun type store ↦ type.Named store := by
  refine (helement s).bind fun type s₁ _ htype ↦ ?_
  cases length with
  | none => exact .pure (.slice htype)
  | some e =>
    refine (hlength e rfl s₁).bind fun operand s₂ hgrows _ ↦ ?_
    split
    · exact .pure (.array _ (htype.mono hgrows))
    · exact marks_badType _ rfl

/-! ### Structs and interfaces -/

theorem marks_fieldMember {name : Ident} {role : Role} (isEmbedded : Bool) {type : Ty}
    (hplaced : σ.placed role (.ident name)) (htype : type.Named s.store) :
    MarksAt σ blocks blocks s (fieldMember name isEmbedded type) fun member store ↦
      member.Named store ∧ store.DeclaredBy σ.input.space name member.symbol := by
  refine .look (sees_declared .var name) fun _ ↦ ?_
  refine (marks_addDeclared ?_ ⟨rfl, rfl⟩ hplaced).bind fun id later hgrows hid ↦ ?_
  · exact .ofType (fun other hother ↦ by cases hother; exact htype) rfl rfl rfl
  · exact .pure ⟨⟨hid.2.1.calls, htype.mono hgrows⟩, hid.2.1⟩

/-- Fields with one more. -/
theorem forall_named_concat {store later : Store} {members : List Member} {member : Member}
    (h : ∀ other ∈ members, other.Named store) (hgrows : store.Grows later)
    (hmember : member.Named later) : ∀ other ∈ members ++ [member], other.Named later := by
  intro other hother
  rcases List.mem_append.1 hother with hold | hnew
  · exact (h other hold).mono hgrows
  · exact List.mem_singleton.1 hnew ▸ hmember

theorem marks_namedFields {type : Ty} {fields : List Member} {entries : List Ident}
    (hplaced : ∀ name ∈ entries, σ.placed .declares (.ident name)) (htype : type.Named s.store)
    (hfields : ∀ field ∈ fields, field.Named s.store) :
    MarksAt σ blocks blocks s (namedFields type fields entries) fun fields store ↦
      ∀ field ∈ fields, field.Named store := by
  -- the type of the entry has to stay in order while its names are added
  refine (Marks.foldlM (fun fields store ↦ type.Named store ∧ ∀ field ∈ fields, field.Named store)
    (fun fields name hname s hkept ↦ ?_) ⟨htype, hfields⟩).weaken fun _ _ _ _ h ↦ h.2
  have hentry := hplaced name hname
  refine (marks_fieldMember false hentry hkept.1).bind fun field s₁ h₁ hfield ↦ ?_
  refine (marks_recordDef hentry hfield.2).bind fun _ s₂ h₂ _ ↦ ?_
  have hlater {s₃ : CheckState} (h₃ : s₂.store.Grows s₃.store) :
      type.Named s₃.store ∧ ∀ other ∈ fields ++ [field], other.Named s₃.store := by
    have hgrows := (h₁.trans h₂).trans h₃
    exact ⟨hkept.1.mono hgrows, forall_named_concat hkept.2 hgrows (hfield.1.mono (h₂.trans h₃))⟩
  refine .ite (fun _ ↦ ?_) fun _ ↦ .pure (hlater (.refl _))
  exact (marks_report _ rfl).bind fun _ _ h₃ _ ↦ .pure (hlater h₃)

theorem marks_structType (hσ : σ.Fair) {fields : List Field}
    (hplaced : ∀ field ∈ fields, σ.placed .uses (.field field))
    (htype : ∀ field ∈ fields, Marks σ blocks (c.typeExpr field.type)
      fun type store ↦ type.Named store) :
    MarksAt σ blocks blocks s (structType c fields) fun type store ↦ type.Named store := by
  refine (Marks.foldlM (fun fields store ↦ ∀ field ∈ fields, Member.Named store field)
    (fun members field hfield s hmembers ↦ ?_) fun _ h ↦ (by cases h)).bind
      fun members _ _ hmembers ↦ .pure (.ofFields hmembers)
  refine (htype field hfield s).bind fun type s₁ h₁ htype ↦ .ite (fun _ ↦ ?_) fun _ ↦ ?_
  · cases hname : embeddedName? field.type with
    | none =>
      exact (marks_report _ rfl).bind fun _ _ h₂ _ ↦
        .pure fun other hother ↦ (hmembers other hother).mono (h₁.trans h₂)
    | some name =>
      have hentry := hσ.embeddedName? (hσ.fieldType (hplaced field hfield)) hname
      exact (marks_fieldMember true hentry htype).bind fun member _ h₂ hmember ↦
        .pure (forall_named_concat hmembers (h₁.trans h₂) hmember.1)
  · exact marks_namedFields (fun name hname ↦ hσ.fieldNames (hplaced field hfield) hname) htype
      fun other hother ↦ (hmembers other hother).mono h₁

theorem forall_named_withEmbedded {store : Store} {methods inner : List Member}
    (h : ∀ method ∈ methods, method.Named store) (hinner : ∀ method ∈ inner, method.Named store) :
    ∀ method ∈ withEmbedded methods inner, method.Named store := by
  unfold withEmbedded
  induction inner generalizing methods with
  | nil => exact h
  | cons method rest ih =>
    obtain ⟨hmethod, hrest⟩ := List.forall_mem_cons.1 hinner
    refine ih ?_ hrest
    dsimp only
    split
    · exact h
    · exact forall_named_concat h (.refl store) hmethod

theorem marks_interfaceType (hσ : σ.Fair) {elements : List Field}
    (hresolve : ∀ id, Marks σ blocks (c.resolve id) Anything)
    (hplaced : ∀ element ∈ elements, σ.placed .uses (.field element))
    (htype : ∀ element ∈ elements, Marks σ blocks (c.typeExpr element.type)
      fun type store ↦ type.Named store) :
    MarksAt σ blocks blocks s (interfaceType c elements) fun type store ↦ type.Named store := by
  refine (Marks.foldlM (fun methods store ↦ ∀ method ∈ methods, Member.Named store method)
    (fun methods element helement s hmethods ↦ ?_) fun _ h ↦ (by cases h)).bind
      fun methods _ _ hmethods ↦ .pure (.ofMethods hmethods)
  refine (htype element helement s).bind fun type s₁ h₁ htype ↦ ?_
  have hkept {s₂ : CheckState} (h₂ : s₁.store.Grows s₂.store) :
      ∀ method ∈ methods, method.Named s₂.store :=
    fun method hmethod ↦ (hmethods method hmethod).mono (h₁.trans h₂)
  split
  · rename_i name others hnames
    have hentry := hσ.fieldNames (hplaced element helement) (hnames ▸ List.mem_cons_self)
    refine .look (sees_declared .func name) fun _ ↦ ?_
    refine (marks_addDeclared ?_ ⟨rfl, rfl⟩ hentry).bind fun id s₂ h₂ hid ↦ ?_
    · exact .ofType (fun other hother ↦ by cases hother; exact htype) rfl rfl rfl
    refine (marks_recordDef hentry hid.2.1).bind fun _ s₃ h₃ _ ↦ .pure ?_
    exact forall_named_concat (hkept h₂) h₃
      ⟨hid.2.1.calls.mono h₃, htype.mono (h₂.trans h₃)⟩
  · refine (marks_underlying hresolve htype).bind fun shape s₂ h₂ hshape ↦ ?_
    split
    · cases hshape with
      | interface hcalls htypes =>
        exact .pure (forall_named_withEmbedded (hkept h₂)
          fun method hmethod ↦ ⟨hcalls method hmethod, htypes method hmethod⟩)
    · exact .pure (hkept h₂)
    · exact (marks_report _ rfl).bind fun _ _ h₃ _ ↦ .pure (hkept (h₂.trans h₃))

/-! ### Signatures -/

/-- An entry has its type as often as it declares something. -/
theorem marks_fieldEntry {field : Field}
    (htype : Marks σ blocks (c.typeExpr field.type) fun type store ↦ type.Named store) :
    Marks σ blocks (do return List.replicate field.arity (← c.typeExpr field.type))
      fun list store ↦ list.length = field.arity ∧ ∀ type ∈ list, type.Named store := by
  refine fun s ↦ (htype s).bind fun type _ _ htype ↦ .pure ⟨List.length_replicate, ?_⟩
  exact fun other hother ↦ List.eq_of_mem_replicate hother ▸ htype

theorem marks_fieldTypes {fields : List Field}
    (htype : ∀ field ∈ fields, Marks σ blocks (c.typeExpr field.type)
      fun type store ↦ type.Named store) :
    MarksAt σ blocks blocks s (fieldTypes c fields) fun types store ↦
      types.length = (fields.map Field.arity).sum ∧ ∀ type ∈ types, type.Named store := by
  suffices h : MarksAt σ blocks blocks s
      (fields.mapM fun field ↦ do return List.replicate field.arity (← c.typeExpr field.type))
      fun lists store ↦ lists.flatten.length = (fields.map Field.arity).sum ∧
        ∀ type ∈ lists.flatten, type.Named store from
    h.bind fun _ _ _ hlists ↦ .pure hlists
  induction fields generalizing s with
  | nil => exact .pure ⟨rfl, fun _ h ↦ (by cases h)⟩
  | cons field rest ih =>
    rw [List.mapM_cons]
    refine (marks_fieldEntry (htype field List.mem_cons_self) s).bind fun list s₁ _ hlist ↦ ?_
    refine (ih fun other hother ↦ htype other (List.mem_cons_of_mem _ hother)).bind
      fun lists s₂ h₂ hrest ↦ .pure ⟨?_, fun type hmem ↦ ?_⟩
    · rw [List.flatten_cons, List.length_append, hlist.1, hrest.1, List.map_cons, List.sum_cons]
    · rcases List.mem_append.1 hmem with hmem | hmem
      · exact (hlist.2 type hmem).mono h₂
      · exact hrest.2 type hmem

theorem marks_signature {type : FuncType}
    (htype : ∀ field, field ∈ type.params ∨ field ∈ type.results →
      Marks σ blocks (c.typeExpr field.type) fun type store ↦ type.Named store) :
    MarksAt σ blocks blocks s (signature c type) fun signature store ↦
      (Ty.func signature).Named store ∧ signature.Fits type := by
  refine (marks_fieldTypes fun field h ↦ htype field (.inl h)).bind fun params s₁ _ hparams ↦ ?_
  refine (marks_fieldTypes fun field h ↦ htype field (.inr h)).bind fun results s₂ h₂ hresults ↦ ?_
  refine (marks_recordType _ _).bind fun _ s₃ h₃ _ ↦ .pure ⟨.func ?_ ?_, hparams.1, hresults.1⟩
  · exact fun type h ↦ (hparams.2 type h).mono (h₂.trans h₃)
  · exact fun type h ↦ (hresults.2 type h).mono h₃

/-! ### All type expressions -/

theorem marks_typeOfExpr (hσ : σ.Fair) (hc : TasksMark σ c) {e : Expr}
    (hplaced : σ.placed .uses (.ofExpr e)) :
    MarksAt σ blocks blocks s (typeOfExpr c e) fun type store ↦ type.Named store := by
  have hfunc {type : FuncType} (htype : σ.placed .uses (.funcType type)) (field : Field)
      (hfield : field ∈ type.params ∨ field ∈ type.results) :
      Marks σ blocks (c.typeExpr field.type) fun type store ↦ type.Named store :=
    hc.typeExpr _ (hσ.fieldType (hσ.funcFields htype hfield)) blocks
  have hresolve := fun id ↦ hc.resolve id blocks
  cases e with
  | ident i => exact marks_namedType hresolve hplaced
  | selector info operand selected =>
    refine marks_qualifiedType info (hσ.exprChild hplaced ?_ rfl)
      (hσ.exprChild hplaced ?_ rfl) (σ.spares_selected hplaced) <;> simp [Node.exprChildren]
  | paren info inner =>
    exact hc.typeExpr inner (hσ.exprChild hplaced (by simp [Node.exprChildren]) rfl) blocks s
  | star info operand =>
    have hoperand : σ.placed .uses (.ofExpr operand) :=
      hσ.exprChild hplaced (by simp [Node.exprChildren]) rfl
    exact (hc.typeExpr operand hoperand blocks s).bind fun _ _ _ h ↦ .pure (.pointer h)
  | arrayType info length element =>
    refine marks_arrayType (hc.typeExpr element (hσ.exprChild hplaced ?_ rfl) blocks)
      fun e he ↦ hc.expr e (hσ.exprChild hplaced ?_ rfl) blocks
    · simp [Node.exprChildren]
    · simp [Node.exprChildren, Option.mem_def.1 he]
  | mapType info key value =>
    refine (hc.typeExpr key (hσ.exprChild hplaced ?_ rfl) blocks s).bind fun _ s₁ _ hkey ↦
      (hc.typeExpr value (hσ.exprChild hplaced ?_ rfl) blocks s₁).bind fun _ _ h₂ hvalue ↦
        .pure (.map (hkey.mono h₂) hvalue) <;> simp [Node.exprChildren]
  | structType info fields =>
    have hfields : ∀ field ∈ fields, σ.placed .uses (.field field) := fun field hfield ↦
      hσ.exprChild hplaced (List.mem_map_of_mem hfield) rfl
    exact marks_structType hσ hfields fun field hfield ↦
      hc.typeExpr _ (hσ.fieldType (hfields field hfield)) blocks
  | interfaceType info elements =>
    have helements : ∀ element ∈ elements, σ.placed .uses (.field element) := fun element he ↦
      hσ.exprChild hplaced (List.mem_map_of_mem he) rfl
    exact marks_interfaceType hσ hresolve helements fun element he ↦
      hc.typeExpr _ (hσ.fieldType (helements element he)) blocks
  | funcType type =>
    exact (marks_signature (hfunc hplaced)).bind fun _ _ _ h ↦ .pure h.1
  | literal | call | unary | binary | typeAssert | index | composite | keyValue | funcLit =>
    exact marks_badType _ rfl

theorem marks_typeExpr (hσ : σ.Fair) (hc : TasksMark σ c) {e : Expr}
    (hplaced : σ.placed .uses (.ofExpr e)) :
    MarksAt σ blocks blocks s (typeExpr c e) fun type store ↦ type.Named store :=
  (marks_typeOfExpr hσ hc hplaced).bind fun _ _ _ htype ↦
    (marks_recordType _ _).bind fun _ _ hgrows _ ↦ .pure (htype.mono hgrows)

/-! ### Parameters -/

/-- The name of an identifier that is paired with what it is declared as. -/
def Ident.textOf {β : Type} (entry : Ident × β) : String := entry.1.name

theorem Ident.map_textOf_zip {β : Type} {idents : List Ident} {others : List β}
    (h : idents.length ≤ others.length) :
    (idents.zip others).map textOf = idents.map (·.name) := by
  conv_rhs => rw [← List.map_fst_zip h, List.map_map]
  rfl

/-- Entries that are declared one after the other give their names to the block. -/
theorem marks_declareEach {γ : Type} {step : γ → Check Unit} {list : List γ} (text : γ → String)
    (kept : γ → Store → Prop)
    (hmono : ∀ a {store later : Store}, store.Grows later → kept a store → kept a later)
    (h : ∀ a ∈ list, ∀ names (s : CheckState), kept a s.store →
      MarksAt σ (names :: blocks) ((text a :: names) :: blocks) s (step a) Anything)
    (hstart : ∀ a ∈ list, kept a s.store) :
    MarksAt σ (names :: blocks) ((list.map text ++ names) :: blocks) s (list.forM step)
      Anything := by
  induction list generalizing names s with
  | nil => exact .pure trivial
  | cons a rest ih =>
    obtain ⟨hfirst, hrest⟩ := List.forall_mem_cons.1 hstart
    have hall : MarksAt σ (names :: blocks) ((rest.map text ++ text a :: names) :: blocks) s
        ((a :: rest).forM step) Anything :=
      (h a List.mem_cons_self names s hfirst).bind fun _ later hgrows _ ↦
        ih (fun other hother ↦ h other (List.mem_cons_of_mem a hother))
          fun other hother ↦ hmono other hgrows (hrest other hother)
    exact hall.congr fun name _ ↦ by simp [or_left_comm]

theorem marks_declareFields (hσ : σ.Fair) {fields : List Field} {types : List Ty}
    (hplaced : ∀ field ∈ fields, σ.placed .uses (.field field))
    (hlength : types.length = (fields.map Field.arity).sum)
    (htypes : ∀ type ∈ types, type.Named s.store) :
    MarksAt σ (names :: blocks) ((fields.flatMap Field.nameTexts ++ names) :: blocks) s
      (declareFields fields types) Anything := by
  induction fields generalizing names s types with
  | nil => exact .pure trivial
  | cons field rest ih =>
    have harity : field.names.length ≤ types.length := by
      have hmax : field.names.length ≤ field.arity := Nat.le_max_left _ _
      rw [hlength, List.map_cons, List.sum_cons]
      omega
    have hfirst : MarksAt σ (names :: blocks) ((field.nameTexts ++ names) :: blocks) s
        ((field.names.zip types).forM fun entry ↦ do
          declareLocal entry.1 (← addVariable entry.1 entry.2 false)) Anything := by
      rw [Field.nameTexts, ← Ident.map_textOf_zip harity]
      refine marks_declareEach Ident.textOf (fun entry store ↦ entry.2.Named store)
        (fun _ _ _ hgrows h ↦ h.mono hgrows) (fun entry hentry names s htype ↦ ?_)
        fun entry hentry ↦ htypes _ (List.of_mem_zip hentry).2
      have hentry := hσ.fieldNames (hplaced field List.mem_cons_self) (List.of_mem_zip hentry).1
      exact (marks_addVariable false hentry htype).bind fun id _ _ hid ↦
        marks_declareLocal hentry hid.toDeclaredBy
    refine (hfirst.bind fun _ later hgrows _ ↦ ih
      (fun other hother ↦ hplaced other (List.mem_cons_of_mem _ hother)) ?_
      fun type htype ↦ (htypes type (List.mem_of_mem_drop htype)).mono hgrows).congr
        fun name _ ↦ by simp [or_left_comm]
    rw [List.length_drop, hlength, List.map_cons, List.sum_cons, Nat.add_sub_cancel_left]

theorem marks_declareParams (hσ : σ.Fair) {role : Role} {type : FuncType} {signature : Signature}
    (hplaced : σ.placed role (.funcType type)) (hfits : signature.Fits type)
    (htypes : (Ty.func signature).Named s.store) :
    MarksAt σ (names :: blocks) ((type.nameTexts ++ names) :: blocks) s
      (declareParams type signature) Anything := by
  cases htypes with
  | func hparams hresults =>
    refine ((marks_declareFields hσ (fun field h ↦ hσ.funcFields hplaced (.inl h)) hfits.params
      hparams).bind fun _ later hgrows _ ↦ marks_declareFields hσ
        (fun field h ↦ hσ.funcFields hplaced (.inr h)) hfits.results
        fun type htype ↦ (hresults type htype).mono hgrows).congr fun name _ ↦ ?_
    simp [FuncType.nameTexts, or_left_comm]

end

end PackageAtlas
