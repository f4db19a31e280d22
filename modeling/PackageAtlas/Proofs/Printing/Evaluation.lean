import PackageAtlas.Proofs.Naming.Package
import PackageAtlas.Proofs.Printing.Reading
import PackageAtlas.Proofs.Resolution.Ends

/-!
Types evaluated from their texts. Where only predeclared names are known, an expression of the form
of a type stands for that type, up to new symbols for fields and methods (`Ty.evaluates_type`). So
the text of a type that can be written down is evaluated to an identical type (`Ty.evalType_text`).
-/

set_option autoImplicit false
set_option relaxedAutoImplicit false

namespace PackageAtlas

/-! ### Checks of types on their own -/

/-- A state in which nothing but what is predeclared is known, and nothing reported. -/
structure CheckState.Bare (s : CheckState) : Prop where
  reports : s.reports = []
  predeclared : Universe.store.Grows s.store
  scopes : s.context.scopes = []
  file : s.context.file = 0
  files : s.files = [FileScope.empty]
  members : s.members = Dict.empty

theorem CheckState.Bare.lookup? {s : CheckState} (h : s.Bare) (name : String) :
    s.lookup? name = Universe.find? name := by
  unfold CheckState.lookup?
  rw [h.scopes, h.file, h.files, h.members]
  rfl

section Judgement

variable {α β γ : Type}

/-- From a state without declarations the step results in something with a property, if it ends, and
declares nothing that can be looked up. -/
def Evaluates (step : Check α) (result : α → Prop) : Prop :=
  ∀ input s a later, s.Bare → step input s = some (a, later) → later.Bare ∧ result a

variable {step : Check α} {next : α → Check β} {result : α → Prop} {result' : β → Prop}

namespace Evaluates

theorem pure {a : α} (h : result a) : Evaluates (Pure.pure a) result := by
  intro input s b later hs hrun
  cases hrun
  exact ⟨hs, h⟩

theorem bind (h : Evaluates step result) (hnext : ∀ a, result a → Evaluates (next a) result') :
    Evaluates (step >>= next) result' := by
  intro input s b later hs hrun
  obtain ⟨a, middle, hstep, hrest⟩ := exists_of_run_bind hrun
  obtain ⟨hmiddle, ha⟩ := h input s a middle hs hstep
  exact hnext a ha input middle b later hmiddle hrest

/-- A look at the state. -/
theorem look {f : CheckInput → CheckState → α} (h : Sees step f)
    (hresult : ∀ input s, s.Bare → result (f input s)) : Evaluates step result := by
  intro input s a later hs hrun
  rw [h input s] at hrun
  cases hrun
  exact ⟨hs, hresult input s hs⟩

theorem looking {f : CheckInput → CheckState → α} (h : Sees step f) :
    Evaluates step fun _ ↦ True :=
  .look h fun _ _ _ ↦ trivial

theorem modify {f : CheckState → CheckState} (h : ∀ s : CheckState, s.Bare → (f s).Bare) :
    Evaluates (modify f : Check Unit) fun _ ↦ True := by
  intro input s a later hs hrun
  cases hrun
  exact ⟨h s hs, trivial⟩

theorem weaken {result'' : α → Prop} (h : Evaluates step result)
    (hresult : ∀ a, result a → result'' a) : Evaluates step result'' := by
  intro input s a later hs hrun
  obtain ⟨hlater, ha⟩ := h input s a later hs hrun
  exact ⟨hlater, hresult a ha⟩

end Evaluates

end Judgement

open Check

theorem evaluates_recordType (id : NodeId) (type : Ty) :
    Evaluates (recordType id type) fun _ ↦ True :=
  .modify fun _ hs ↦ { hs with }

theorem evaluates_recordUse (ident : Ident) (id : SymbolId) :
    Evaluates (recordUse ident id) fun _ ↦ True :=
  .modify fun _ hs ↦ { hs with }

theorem evaluates_recordDef (ident : Ident) (id : SymbolId) :
    Evaluates (recordDef ident id) fun _ ↦ True :=
  .modify fun _ hs ↦ { hs with }

theorem evaluates_addSymbol (symbol : Symbol) : Evaluates (addSymbol symbol) fun _ ↦ True := by
  refine (Evaluates.looking sees_store).bind fun _ _ ↦ Evaluates.bind (.modify fun s hs ↦ ?_) ?_
  · exact { hs with predeclared := hs.predeclared.trans (Store.grows_push _ _) }
  · exact fun _ _ ↦ .pure trivial

/-! ### Predeclared types -/

/-- A predeclared name stands for a type. -/
def Universe.Names (name : String) (type : Ty) : Prop :=
  ∃ id, Universe.find? name = some id ∧ ∀ store : Store, Universe.store.Grows store →
    (store.get id).kind = .typeName ∧
      ((store.get id).isAlias && (store.get id).type.isNone) = false ∧ store.typeOf id = type

theorem Universe.names_basic {kind : BasicKind} (h : kind.isUntyped = false) :
    Universe.Names kind.name (.basic kind) := by
  obtain ⟨id, hfind, hplaced, hget⟩ : ∃ id, Universe.find? kind.name = some id ∧
      id.index < Universe.store.symbols.size ∧
      Universe.store.get id = Universe.aliasOf kind.name (.basic kind) := by
    cases kind <;> cases h <;> exact ⟨_, rfl, by decide, rfl⟩
  refine ⟨id, hfind, fun store hgrows ↦ ?_⟩
  have hkind := hgrows.kind id hplaced
  have halias := hgrows.isAlias id hplaced
  have htype := hgrows.type id hplaced (.basic kind) (by rw [hget]; rfl)
  rw [hget] at hkind halias
  refine ⟨hkind, by rw [htype]; simp, ?_⟩
  simp [Store.typeOf, Symbol.isDefinedType, hkind, halias, htype, aliasOf]

theorem Universe.names_error : Universe.Names "error" (.named Universe.errorName) := by
  have hplaced : errorName.symbol.index < Universe.store.symbols.size := by decide
  refine ⟨errorName.symbol, by decide, fun store hgrows ↦ ?_⟩
  have hkind : (store.get errorName.symbol).kind = .typeName := hgrows.kind _ hplaced
  have halias : (store.get errorName.symbol).isAlias = false := hgrows.isAlias _ hplaced
  have hname : (store.get errorName.symbol).name = "error" := hgrows.name _ hplaced
  have hpackage : (store.get errorName.symbol).package = none := hgrows.package _ hplaced
  refine ⟨hkind, by rw [halias]; rfl, ?_⟩
  simp only [Store.typeOf, Symbol.isDefinedType, hkind, halias, hname, hpackage]
  rfl

/-! ### Lengths -/

namespace Literal

theorem foldlM_digits {cs : List Char} (h : ∀ c ∈ cs, c.isDigit = true) (total : Nat) :
    cs.foldlM (fun total c ↦ do
      let digit ← digitValue? c
      if digit < 10 then some (total * 10 + digit) else none) total =
      some (Nat.ofDigitChars 10 cs total) := by
  induction cs generalizing total with
  | nil => rfl
  | cons c rest ih =>
    rw [List.forall_mem_cons] at h
    have hvalue : digitValue? c = some (c.toNat - '0'.toNat) := if_pos h.1
    have hlt : c.toNat - '0'.toNat < 10 := by
      have hdigit := h.1
      simp only [Char.isDigit, Bool.and_eq_true, decide_eq_true_eq,
        UInt32.le_iff_toNat_le] at hdigit
      have hle : c.toNat ≤ 57 := hdigit.2
      have hzero : '0'.toNat = 48 := rfl
      omega
    simp only [List.foldlM_cons, hvalue, Option.bind_eq_bind, Option.bind_some, if_pos hlt] at ih ⊢
    rw [ih h.2, Nat.ofDigitChars_cons, Nat.mul_comm]

/-- The digits of a number denote the number, unless it is too large for a constant. -/
theorem intValue?_toString {literal : Literal} {n : Nat} (hkind : literal.kind = .int)
    (htext : literal.text = toString n) (hn : n ≤ Ty.maxLength) :
    literal.intValue? = some (n : Int) := by
  have hdigits : ∀ c ∈ Nat.toDigits 10 n, c.isDigit = true :=
    fun c hc ↦ Nat.isDigit_of_mem_toDigits (by decide) (by decide) hc
  have hfilter : literal.text.toList.filter (· != '_') = Nat.toDigits 10 n := by
    rw [htext, Nat.toString_eq_repr, Nat.toList_repr, List.filter_eq_self]
    intro c hc
    rw [bne_iff_ne]
    rintro rfl
    cases hdigits _ hc
  have hvalue : natOfDigits? 10 (Nat.toDigits 10 n) = some n := by
    have hfold := foldlM_digits hdigits 0
    rw [Nat.ofDigitChars_toDigits (by decide) (by decide)] at hfold
    cases hlist : Nat.toDigits 10 n with
    | nil => exact absurd hlist Nat.toDigits_ne_nil
    | cons c rest =>
      rw [hlist] at hfold
      exact hfold
  have hfits : fitsInt n = true := by
    unfold Ty.maxLength at hn
    have hlower : minInt ≤ (n : Int) := by unfold minInt; omega
    have hupper : (n : Int) ≤ maxInt := by unfold maxInt; omega
    exact Bool.and_eq_true_iff.2 ⟨decide_eq_true hlower, decide_eq_true hupper⟩
  unfold intValue?
  simp only [hkind, if_true, hfilter]
  split
  · next rest hlist => cases hdigits 'x' (by rw [hlist]; simp)
  · next rest hlist => cases hdigits 'X' (by rw [hlist]; simp)
  · simp [hvalue, hfits]

end Literal

/-! ### Type expressions -/

open CheckRule

theorem evaluates_namedType {c : Checker} {ident : Ident} {type : Ty}
    (h : Universe.Names ident.name type) : Evaluates (namedType c ident) (· = type) := by
  obtain ⟨id, hfind, hid⟩ := h
  have hlookup : Evaluates (Check.lookup? ident.name) (· = some id) :=
    .look (sees_lookup? ident.name) fun _ s hs ↦ (hs.lookup? _).trans hfind
  refine hlookup.bind ?_
  rintro _ rfl
  refine (evaluates_recordUse ident id).bind fun _ _ ↦ ?_
  have hsymbol : Evaluates (symbol id) fun found ↦ found.kind = .typeName ∧
      (found.isAlias && found.type.isNone) = false :=
    .look (sees_symbol id) fun _ s hs ↦ ⟨(hid _ hs.predeclared).1, (hid _ hs.predeclared).2.1⟩
  refine hsymbol.bind fun found hfound ↦ ?_
  have htype : Evaluates (typeOf id) (· = type) :=
    .look (sees_typeOf id) fun _ s hs ↦ (hid _ hs.predeclared).2.2
  simp only [hfound.1, hfound.2, ne_eq, not_true_eq_false, if_false, Bool.false_eq_true]
  exact htype

/-- What a type expression stands for, it is evaluated to at any depth at which that ends. -/
theorem evaluates_typeExpr {e : Expr} {result : Ty → Prop}
    (h : ∀ depth, Evaluates (typeOfExpr (Checker.within depth) e) result) (depth : Nat) :
    Evaluates ((Checker.within depth).typeExpr e) result := by
  cases depth with
  | zero => exact fun input s a later hs hrun ↦ by cases hrun
  | succ depth =>
    change Evaluates (CheckRule.typeExpr (Checker.within depth) e) result
    exact (h depth).bind fun type htype ↦ (evaluates_recordType _ _).bind fun _ _ ↦ .pure htype

/-- An array with a length that is an integer constant. -/
theorem evaluates_arrayType {literal : Literal} {e : Expr} {n : Nat} {result : Ty → Prop}
    (hvalue : literal.intValue? = some (n : Int)) (hkind : literal.kind = .int) (depth : Nat)
    (h : Evaluates ((Checker.within depth).typeExpr e) fun type ↦ result (.array n type)) :
    Evaluates (arrayType (Checker.within depth) (some (.literal literal)) e) result := by
  refine h.bind fun type htype ↦ ?_
  have hlength : Evaluates ((Checker.within depth).expr (.literal literal))
      fun operand ↦ operand.value = some (n : Int) := by
    cases depth with
    | zero => exact fun input s a later hs hrun ↦ by cases hrun
    | succ depth =>
      change Evaluates (CheckRule.expr (Checker.within depth) (.literal literal)) _
      have hoperand : literalOperand literal = .constant (.basic .untypedInt) (some (n : Int)) := by
        simp only [literalOperand, hkind, hvalue]
      have hliteral : Evaluates (operandOf (Checker.within depth) (.literal literal))
          (· = literalOperand literal) := .pure rfl
      refine hliteral.bind ?_
      rintro _ rfl
      rw [hoperand]
      exact (evaluates_recordType _ _).bind fun _ _ ↦ .pure rfl
  refine hlength.bind fun operand hoperand ↦ ?_
  simp only [hoperand]
  exact .pure htype

/-! #### Parameters -/

/-- A type and a parameter or result without a name that has it. -/
structure TypeOf (type : Ty) (field : Field) : Prop where
  names : field.names = []
  type : ∀ depth, Evaluates ((Checker.within depth).typeExpr field.type)
    fun result ↦ result.identical type = true

theorem evaluates_fieldTypes {types : List Ty} {fields : List Field}
    (h : List.Forall₂ TypeOf types fields) (depth : Nat) :
    Evaluates (fieldTypes (Checker.within depth) fields)
      fun results ↦ Ty.identicalLists results types = true := by
  unfold fieldTypes
  refine Evaluates.bind ?_ fun lists hlists ↦ .pure (a := lists.flatten) hlists
  induction h with
  | nil => exact .pure (by simp [Ty.identicalLists])
  | @cons type field types fields hfield _ ih =>
    rw [List.mapM_cons]
    have hreplicated : Evaluates (do
        return List.replicate field.arity (← (Checker.within depth).typeExpr field.type))
        fun list ↦ ∃ result, list = [result] ∧ result.identical type = true := by
      refine (hfield.type depth).bind fun result hresult ↦ .pure ⟨result, ?_, hresult⟩
      simp [Field.arity, hfield.names]
    refine hreplicated.bind ?_
    rintro _ ⟨result, rfl, hresult⟩
    refine ih.bind fun lists hlists ↦ .pure ?_
    simp [Ty.identicalLists, hresult, hlists]

/-! #### Members -/

/-- A new member for an old one, not embedded. -/
structure SameMember (new old : Member) : Prop where
  name : new.name = old.name
  isEmbedded : new.isEmbedded = false
  type : new.type.identical old.type = true

/-- A member and the entry that declares it. -/
structure DeclaredBy (member : Member) (entry : Field) : Prop where
  names : ∃ ident, entry.names = [ident] ∧ ident.name = member.name
  type : ∀ depth, Evaluates ((Checker.within depth).typeExpr entry.type)
    fun type ↦ type.identical member.type = true

/-- A loop that adds a member for each entry, as long as the names so far allow it. -/
theorem evaluates_foldlM (allowed : List String → Prop)
    {step : List Member → Field → Check (List Member)}
    (hallowed : ∀ names more, allowed (names ++ more) → allowed names)
    (hstep : ∀ before member entry, DeclaredBy member entry →
      allowed (before.map (·.name) ++ [member.name]) →
      Evaluates (step before entry) fun after ↦ ∃ new, after = before ++ [new] ∧
        SameMember new member)
    {members : List Member} {entries : List Field} (h : List.Forall₂ DeclaredBy members entries)
    (before : List Member) (hnames : allowed (before.map (·.name) ++ members.map (·.name))) :
    Evaluates (entries.foldlM step before) fun after ↦ ∃ new, after = before ++ new ∧
      List.Forall₂ SameMember new members := by
  induction h generalizing before with
  | nil => exact .pure ⟨[], by simp, .nil⟩
  | @cons member entry members entries hentry _ ih =>
    rw [List.map_cons, List.append_cons] at hnames
    refine Evaluates.bind (hstep before member entry hentry (hallowed _ _ hnames)) ?_
    rintro _ ⟨new, rfl, hnew⟩
    have hnames' : allowed ((before ++ [new]).map (·.name) ++ members.map (·.name)) := by
      rw [List.map_append, List.map_singleton, hnew.name]
      exact hnames
    refine (ih (before ++ [new]) hnames').weaken ?_
    rintro _ ⟨others, rfl, hothers⟩
    exact ⟨new :: others, by simp, .cons hnew hothers⟩

theorem evaluates_fieldMember (name : Ident) {type : Ty} :
    Evaluates (fieldMember name false type) fun member ↦ member.name = name.name ∧
      member.isEmbedded = false ∧ member.type = type := by
  refine (Evaluates.looking (sees_declared .var name)).bind fun _ _ ↦ ?_
  exact (evaluates_addSymbol _).bind fun _ _ ↦ .pure ⟨rfl, rfl, rfl⟩

theorem NamesApart.of_append {names more : List String} (h : NamesApart (names ++ more)) :
    NamesApart names := by
  unfold NamesApart at h ⊢
  rw [List.filter_append] at h
  exact (List.nodup_append.1 h).1

/-- A field with a name of its own. -/
theorem evaluates_namedFields {type : Ty} {before : List Member} {name : Ident}
    (h : NamesApart (before.map (·.name) ++ [name.name])) :
    Evaluates (namedFields type before [name]) fun after ↦ ∃ new, after = before ++ [new] ∧
      new.name = name.name ∧ new.isEmbedded = false ∧ new.type = type := by
  have hfresh : (!name.isBlank && before.any (·.name == name.name)) = false := by
    by_cases hblank : name.name = "_"
    · simp [Ident.isBlank, hblank]
    · have hnames : before.any (·.name == name.name) = false := by
        rw [List.any_eq_false]
        intro member hmember hname
        rw [beq_iff_eq] at hname
        rw [NamesApart, List.filter_append, List.nodup_append] at h
        refine h.2.2 name.name (List.mem_filter.2 ⟨?_, by simpa using hblank⟩) name.name
          (by simp [hblank]) rfl
        exact hname ▸ List.mem_map_of_mem hmember
      rw [hnames, Bool.and_false]
  simp only [namedFields, List.foldlM_cons, List.foldlM_nil, bind_pure, hfresh,
    Bool.false_eq_true, if_false]
  refine (evaluates_fieldMember name).bind fun member hmember ↦ ?_
  exact (evaluates_recordDef _ _).bind fun _ _ ↦ .pure ⟨member, rfl, hmember⟩

theorem evaluates_structType {members : List Member} {entries : List Field}
    (h : List.Forall₂ DeclaredBy members entries) (hnames : NamesApart (members.map (·.name)))
    (depth : Nat) : Evaluates (structType (Checker.within depth) entries) fun type ↦
      ∃ fields, type = .struct fields ∧ List.Forall₂ SameMember fields members := by
  unfold structType
  refine Evaluates.bind (evaluates_foldlM NamesApart (fun _ _ ↦ .of_append) ?_ h [] hnames)
    fun _ ⟨new, hafter, hnew⟩ ↦ .pure ⟨new, congrArg Ty.struct hafter, hnew⟩
  intro before member entry hentry hallowed
  obtain ⟨ident, hnames, hname⟩ := hentry.names
  refine (hentry.type depth).bind fun type htype ↦ ?_
  simp only [hnames, List.isEmpty_cons, Bool.false_eq_true, if_false]
  rw [← hname] at hallowed
  refine (evaluates_namedFields hallowed).weaken ?_
  rintro _ ⟨new, rfl, hnew, hembedded, rfl⟩
  exact ⟨new, rfl, hnew.trans hname, hembedded, htype⟩

theorem evaluates_interfaceType {members : List Member} {entries : List Field}
    (h : List.Forall₂ DeclaredBy members entries) (depth : Nat) :
    Evaluates (interfaceType (Checker.within depth) entries) fun type ↦
      ∃ methods, type = .interface methods ∧ List.Forall₂ SameMember methods members := by
  unfold interfaceType
  refine Evaluates.bind (evaluates_foldlM (fun _ ↦ True) (fun _ _ _ ↦ trivial) ?_ h [] trivial)
    fun _ ⟨new, hafter, hnew⟩ ↦ .pure ⟨new, congrArg Ty.interface hafter, hnew⟩
  intro before member entry hentry _
  obtain ⟨ident, hnames, hname⟩ := hentry.names
  refine (hentry.type depth).bind fun type htype ↦ ?_
  simp only [hnames]
  refine (Evaluates.looking (sees_declared .func ident)).bind fun _ _ ↦ ?_
  refine (evaluates_addSymbol _).bind fun id _ ↦ (evaluates_recordDef _ _).bind fun _ _ ↦ ?_
  exact .pure ⟨_, rfl, hname, rfl, htype⟩

/-! #### Parts -/

namespace Ty

theorem identicalFields_of {fields members : List Member}
    (h : List.Forall₂ SameMember fields members)
    (hembedded : ∀ member ∈ members, member.isEmbedded = false) :
    identicalFields fields members = true := by
  induction h with
  | nil => rw [identicalFields]
  | @cons new old fields members hsame _ ih =>
    obtain ⟨symbol, name, isEmbedded, type⟩ := new
    rw [List.forall_mem_cons] at hembedded
    simp only [identicalFields, Bool.and_eq_true, beq_iff_eq]
    exact ⟨⟨⟨hsame.name, hsame.isEmbedded.trans hembedded.1.symm⟩, hsame.type⟩, ih hembedded.2⟩

theorem methodsWithin_of {methods members others : List Member}
    (h : List.Forall₂ SameMember methods members) (hmembers : members ⊆ others) :
    methodsWithin methods others = true := by
  induction h with
  | nil => rw [methodsWithin]
  | @cons new old methods members hsame _ ih =>
    obtain ⟨symbol, name, isEmbedded, type⟩ := new
    simp only [methodsWithin, Bool.and_eq_true, List.any_eq_true, beq_iff_eq]
    refine ⟨⟨old, hmembers List.mem_cons_self, hsame.name, hsame.type⟩, ih fun member hmember ↦ ?_⟩
    exact hmembers (List.mem_cons_of_mem _ hmember)

theorem isDenotable_of_mem_fields {fields : List Member} (h : fieldsDenotable fields = true) :
    ∀ field ∈ fields, field.type.isDenotable = true ∧ field.isEmbedded = false := by
  induction fields with
  | nil => exact fun _ h ↦ by cases h
  | cons field rest ih =>
    obtain ⟨symbol, name, isEmbedded, type⟩ := field
    simp only [fieldsDenotable, Bool.and_eq_true, Bool.not_eq_true'] at h
    exact List.forall_mem_cons.2 ⟨⟨h.1.2, h.1.1.2⟩, ih h.2⟩

theorem isDenotable_of_mem_methods {methods : List Member} (h : methodsDenotable methods = true) :
    ∀ method ∈ methods, method.type.isDenotable = true := by
  induction methods with
  | nil => exact fun _ h ↦ by cases h
  | cons method rest ih =>
    obtain ⟨symbol, name, isEmbedded, type⟩ := method
    cases type with
    | func signature =>
      simp only [methodsDenotable, Bool.and_eq_true] at h
      exact List.forall_mem_cons.2 ⟨h.1.2, ih h.2⟩
    | _ => cases h

/-! ### Evaluation -/

mutual

/-- An expression of the form of a type is evaluated to that type. -/
theorem evaluates_type {type : Ty} (h : type.isDenotable = true) {e : Expr} (he : type.ReadAs e)
    (depth : Nat) :
    Evaluates (typeOfExpr (Checker.within depth) e) fun result ↦ result.identical type = true := by
  cases type with
  | basic kind =>
    simp only [isDenotable, Bool.not_eq_true'] at h
    cases e with
    | ident ident =>
      have hnames : Universe.Names ident.name (.basic kind) := he ▸ Universe.names_basic h
      exact (evaluates_namedType hnames).weaken fun _ hresult ↦ by simp [hresult, identical]
    | _ => exact he.elim
  | named name =>
    simp only [isDenotable, beq_iff_eq] at h
    subst h
    cases e with
    | ident ident =>
      have hnames : Universe.Names ident.name (.named Universe.errorName) :=
        he ▸ Universe.names_error
      exact (evaluates_namedType hnames).weaken fun _ hresult ↦ by simp [hresult, identical]
    | _ => exact he.elim
  | pointer element =>
    rw [isDenotable] at h
    cases e with
    | star info operand =>
      refine (evaluates_typeExpr (evaluates_type h he) depth).bind fun result hresult ↦ .pure ?_
      rwa [identical]
    | _ => exact he.elim
  | slice element =>
    rw [isDenotable] at h
    match e, he with
    | .arrayType info none operand, he =>
      refine (evaluates_typeExpr (evaluates_type h he) depth).bind fun result hresult ↦ .pure ?_
      rwa [identical]
  | array length element =>
    simp only [isDenotable, Bool.and_eq_true, decide_eq_true_eq] at h
    match e, he with
    | .arrayType info (some (.literal literal)) operand, he =>
      have hvalue := Literal.intValue?_toString he.1 he.2.1 h.1
      refine evaluates_arrayType hvalue he.1 depth ?_
      refine (evaluates_typeExpr (evaluates_type h.2 he.2.2) depth).weaken fun result hresult ↦ ?_
      simp [identical, hresult]
  | map key value =>
    simp only [isDenotable, Bool.and_eq_true] at h
    cases e with
    | mapType info left right =>
      refine (evaluates_typeExpr (evaluates_type h.1 he.1) depth).bind fun first hfirst ↦ ?_
      refine (evaluates_typeExpr (evaluates_type h.2 he.2) depth).bind fun second hsecond ↦ .pure ?_
      simp [identical, hfirst, hsecond]
    | _ => exact he.elim
  | struct fields =>
    simp only [isDenotable, Bool.and_eq_true] at h
    have hfields := isDenotable_of_mem_fields h.2
    cases e with
    | structType info entries =>
      have hdeclared := evaluates_members (fun field hfield ↦ (hfields field hfield).1) he
      have hnames : NamesApart (fields.map (·.name)) := of_decide_eq_true h.1
      refine (evaluates_structType hdeclared hnames depth).weaken ?_
      rintro _ ⟨new, rfl, hnew⟩
      rw [identical]
      exact identicalFields_of hnew fun field hfield ↦ (hfields field hfield).2
    | _ => exact he.elim
  | interface methods =>
    rw [isDenotable] at h
    cases e with
    | interfaceType info entries =>
      have hdeclared := evaluates_members (isDenotable_of_mem_methods h) he
      refine (evaluates_interfaceType hdeclared depth).weaken ?_
      rintro _ ⟨new, rfl, hnew⟩
      rw [identical, Bool.and_eq_true, beq_iff_eq]
      exact ⟨hnew.length_eq, methodsWithin_of hnew (List.Subset.refl _)⟩
    | _ => exact he.elim
  | func signature =>
    rw [isDenotable] at h
    cases e with
    | funcType type =>
      refine (evaluates_signature h he depth).bind fun result hresult ↦ .pure ?_
      rwa [identical]
    | _ => exact he.elim
  | invalid => cases h
  | tuple types => cases h

theorem evaluates_signature {signature : Signature} (h : signatureDenotable signature = true)
    {type : FuncType} (htype : signatureReadAs signature type) (depth : Nat) :
    Evaluates (CheckRule.signature (Checker.within depth) type)
      fun result ↦ identicalSignatures result signature = true := by
  obtain ⟨params, results⟩ := signature
  simp only [signatureDenotable, Bool.and_eq_true] at h
  have hparams := evaluates_fieldTypes (evaluates_list h.1 htype.1) depth
  have hresults := evaluates_fieldTypes (evaluates_list h.2 htype.2) depth
  refine hparams.bind fun params' hparams ↦ hresults.bind fun results' hresults ↦ ?_
  refine (evaluates_recordType _ _).bind fun _ _ ↦ .pure ?_
  simp [identicalSignatures, hparams, hresults]

theorem evaluates_list {types : List Ty} (h : allDenotable types = true) {fields : List Field}
    (hfields : listReadAs types fields) : List.Forall₂ TypeOf types fields := by
  match types, fields, hfields with
  | [], [], _ => exact .nil
  | type :: types, field :: fields, hfields =>
    rw [allDenotable, Bool.and_eq_true] at h
    refine .cons ⟨hfields.1, fun depth ↦ ?_⟩ (evaluates_list h.2 hfields.2.2)
    exact evaluates_typeExpr (evaluates_type h.1 hfields.2.1) depth

theorem evaluates_members {members : List Member}
    (h : ∀ member ∈ members, member.type.isDenotable = true) {entries : List Field}
    (hentries : membersReadAs members entries) : List.Forall₂ DeclaredBy members entries := by
  match members, entries, hentries with
  | [], [], _ => exact .nil
  | ⟨symbol, name, isEmbedded, type⟩ :: members, entry :: entries, hentries =>
    rw [List.forall_mem_cons] at h
    refine .cons ⟨hentries.1, fun depth ↦ ?_⟩ (evaluates_members h.2 hentries.2.2)
    exact evaluates_typeExpr (evaluates_type h.1 hentries.2.1) depth

end

/-- After whatever checks, the text of a type that can be written down is evaluated to an identical
type, in any file set. -/
theorem evalType_text {type : Ty} (h : type.isDenotable = true) {store : Store}
    {scopes : List PackageScope} (hmade : MadeBy store scopes) (space : SpaceId) :
    ∃ evaluated result, evalType space store type.text = some evaluated ∧
      evaluated.result = .ok result ∧ result.identical type = true := by
  have hpredeclared := hmade.grows_universe
  have hsize : Universe.symbols.length < store.symbols.size :=
    hpredeclared.size_le.trans_lt' (by decide)
  obtain ⟨evaluated, heval⟩ := Option.isSome_iff_exists.1 (evalType_ends space type.text hsize)
  obtain ⟨e, hparse, he⟩ := parseExpr_text h (FileSet.empty space) typeSourceName
  refine ⟨evaluated, ?_⟩
  unfold evalType at heval ⊢
  cases hparsed : (FileSet.empty space).parseExpr typeSourceName type.text with
  | mk files parsed =>
    rw [hparsed] at hparse
    subst hparse
    simp only [hparsed] at heval ⊢
    obtain ⟨⟨result, s⟩, hrun, hdone⟩ := Option.bind_eq_some_iff.1 heval
    have hstart : CheckState.Bare { CheckState.start store with files := [FileScope.empty] } :=
      ⟨rfl, hpredeclared, rfl, rfl, rfl, rfl⟩
    obtain ⟨hs, hresult⟩ := evaluates_typeExpr (evaluates_type h he) _ _ _ result s hstart hrun
    cases hdone
    refine ⟨result, heval, ?_, hresult⟩
    rw [hs.reports]
    rfl

/-- Blank fields, the largest length, a pointer to the error type, and results in parentheses. -/
theorem evalType_text_struct : ∃ evaluated result,
    evalType ⟨0⟩ Universe.store ("struct\x7b_ int; _ [9223372036854775807]bool; " ++
      "f func(*error, map[string][]int8) (uint, interface\x7bm() string\x7d)\x7d") =
        some evaluated ∧ evaluated.result = .ok result ∧
    result.identical (.struct [⟨default, "_", false, .basic .int⟩,
      ⟨default, "_", false, .array 9223372036854775807 (.basic .bool)⟩,
      ⟨default, "f", false, .func
        ⟨[.pointer (.named Universe.errorName), .map (.basic .string) (.slice (.basic .int8))],
          [.basic .uint, .interface [⟨default, "m", false, .func ⟨[], [.basic .string]⟩⟩]]⟩⟩])
        = true := by
  let results : List Ty :=
    [.basic .uint, .interface [⟨default, "m", false, .func ⟨[], [.basic .string]⟩⟩]]
  let params : List Ty :=
    [.pointer (.named Universe.errorName), .map (.basic .string) (.slice (.basic .int8))]
  let type : Ty := .struct [⟨default, "_", false, .basic .int⟩,
    ⟨default, "_", false, .array 9223372036854775807 (.basic .bool)⟩,
    ⟨default, "f", false, .func ⟨params, results⟩⟩]
  have hdenotable : type.isDenotable = true := by decide
  have htext : type.text = "struct\x7b_ int; _ [9223372036854775807]bool; " ++
      "f func(*error, map[string][]int8) (uint, interface\x7bm() string\x7d)\x7d" := by
    decide
  rw [← htext]
  exact evalType_text hdenotable MadeBy.start ⟨0⟩

end Ty

end PackageAtlas
