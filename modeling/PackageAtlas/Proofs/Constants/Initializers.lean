import PackageAtlas.Proofs.Constants.Groups
import PackageAtlas.Proofs.Resolution.Reports

/-!
What the initializers of constants are checked for. The constants that an expression mentions are
resolved when they are met, each in the context of its own file and with the number of its own spec;
so an expression whose check reports nothing is what it denotes (`denotes_of_run_expr`), and a
resolution that reports nothing keeps the constants sound, whichever of them is asked for first
(`sound_resolve`).
-/

set_option autoImplicit false
set_option relaxedAutoImplicit false

namespace PackageAtlas

open Check CheckRule

/-! ### Names -/

/-- A state in which names may be mentioned in the spec of a number. -/
structure CheckState.Reads (entries : List ConstantEntry) (table : ConstantTable)
    (names : String → Prop) (iota : Int) (s : CheckState) : Prop where
  sound : table.Sound entries s.store s.collected
  shows : ∀ name, names name → table.Shows s.store s.collected s.context name
  iota : s.context.iota = some iota

/-- To resolve a constant without a report keeps the constants sound. -/
def ConstantTable.Resolves (entries : List ConstantEntry) (table : ConstantTable) (depth : Nat) :
    Prop :=
  ∀ input s later, ∀ row ∈ table, table.Sound entries s.store s.collected →
    (Checker.within depth).resolve row.1 input s = some ((), later) → later.reports = s.reports →
    table.Sound entries later.store later.collected

section Runs

variable {entries : List ConstantEntry} {table : ConstantTable} {names : String → Prop} {iota : Int}
  {depth : Nat} {input : CheckInput} {s later : CheckState} {id : SymbolId} {operand : Operand}

/-- What keeps the constants sound and comes back to the context lets the same names be
mentioned. -/
theorem CheckState.Reads.of_frame (h : s.Reads entries table names iota)
    (hframe : s.Frame .nothing later) (hsound : table.Sound entries later.store later.collected) :
    later.Reads entries table names iota := by
  have hcontext : later.context = s.context := hframe.context
  refine ⟨hsound, fun name hname ↦ ?_, hcontext ▸ h.iota⟩
  rw [hframe.lasts.collected, hcontext]
  exact (h.shows name hname).extend ⟨fun _ h ↦ h, fun row hmem ↦ (h.sound.rows row hmem).placed,
    fun row _ hsome ↦ hframe.lasts.store.isSome hsome, .refl _ _⟩

/-- What is not pending is resolved already. -/
theorem eq_of_run_resolve (hpending : s.pending.find? id = none)
    (hrun : (Checker.within depth).resolve id input s = some ((), later)) : later = s := by
  cases depth with
  | zero => cases hrun
  | succ depth =>
    have hrule : resolve (Checker.within depth) id input s = some ((), later) := hrun
    unfold resolve at hrule
    rw [run_bind_of_some (sees_get input s)] at hrule
    simp only [hpending] at hrule
    cases hrule
    rfl

/-- A constant that waits for its spec is resolved with it. -/
theorem run_resolve_of_value {number : Nat} (hpending : s.pending.find? id = some (.value number))
    (hrun : (Checker.within (depth + 1)).resolve id input s = some ((), later)) :
    resolveGroup (Checker.within depth) number input s = some ((), later) := by
  have hrule : resolve (Checker.within depth) id input s = some ((), later) := hrun
  unfold resolve at hrule
  rw [run_bind_of_some (sees_get input s)] at hrule
  simpa only [hpending] using hrule

/-- A constant that may be mentioned has a type once it is resolved. -/
theorem ConstantTable.Sound.isSome_of_run_resolve (h : table.Sound entries s.store s.collected)
    {entry : ConstantEntry} (hrow : (id, entry) ∈ table)
    (hready : s.pending.find? id = none → (s.store.get id).type.isSome = true)
    (hrun : (Checker.within depth).resolve id input s = some ((), later)) :
    (later.store.get id).type.isSome = true := by
  cases hpending : s.pending.find? id with
  | none =>
    rw [eq_of_run_resolve hpending hrun]
    exact hready hpending
  | some pending =>
    obtain ⟨number, group, rfl, hgroup, hwaits⟩ := h.pending _ hrow pending hpending
    cases depth with
    | zero => cases hrun
    | succ depth =>
      exact isSome_resolveGroup hgroup hwaits.mem (h.rows _ hrow).placed
        (run_resolve_of_value hpending hrun)

/-- A name stands for its symbol, of whatever kind. -/
theorem exists_of_run_name {c : Checker} {ident : Ident} (hlookup : s.lookup? ident.name = some id)
    (hkind : (s.store.get id).kind ≠ .var ∧ (s.store.get id).kind ≠ .pkgName)
    (hrun : name c ident input s = some (operand, later)) (hsilent : later.reports = s.reports) :
    ∃ info, symbolOperand c id ident.pos input { s with info } = some (operand, later) := by
  unfold name at hrun
  split at hrun
  · cases hrun
    simp at hsilent
  · rw [run_bind_of_some (sees_lookup? _ _ _)] at hrun
    simp only [hlookup] at hrun
    obtain ⟨⟨⟩, middle, huse, hrun⟩ := exists_of_run_bind hrun
    cases huse
    obtain ⟨⟨⟩, middle, hmark, hrun⟩ := exists_of_run_bind hrun
    unfold markUsed at hmark
    rw [run_bind_of_some (sees_symbol _ _ _), if_neg (by simpa using hkind)] at hmark
    cases hmark
    exact ⟨_, hrun⟩

theorem Universe.isIota_eq_false (hid : Universe.store.symbols.size ≤ id.index) :
    Universe.isIota id = false := by
  have hiota : Universe.find? "iota" = some ⟨22⟩ := by decide
  rw [isIota, hiota, beq_eq_false_iff_ne]
  rintro ⟨⟩
  exact absurd hid (by decide)

theorem run_symbolOperand_const {c : Checker} {pos : Nat}
    (hkind : (s.store.get id).kind = .const) :
    symbolOperand c id pos input s = constantOperand c id pos input s := by
  unfold symbolOperand
  rw [run_bind_of_some (sees_symbol _ _ _)]
  simp only [hkind]

/-- A constant other than `iota` is resolved, and has the type and the value that it has then. -/
theorem run_resolve_of_symbolOperand {c : Checker} {pos : Nat}
    (hkind : (s.store.get id).kind = .const) (hiota : Universe.isIota id = false)
    (hrun : symbolOperand c id pos input s = some (operand, later)) :
    c.resolve id input s = some ((), later) ∧
      operand = .constant (later.store.typeOf id) (later.store.get id).value := by
  rw [run_symbolOperand_const hkind] at hrun
  simp only [constantOperand, hiota, Bool.false_eq_true, if_false] at hrun
  obtain ⟨⟨⟩, middle, hresolve, hrun⟩ := exists_of_run_bind hrun
  cases hrun
  exact ⟨hresolve, rfl⟩

/-- A predeclared name for a value stands for it. -/
theorem value?_of_run_symbolOperand {ident : Ident}
    (hvalue : ident.name ∈ Universe.values) (hfind : Universe.find? ident.name = some id)
    (hiota : s.context.iota = some iota) (hget : s.store.get id = Universe.store.get id)
    (hpending : s.pending.find? id = none)
    (hrun : symbolOperand (Checker.within depth) id ident.pos input s = some (operand, later)) :
    Universe.value? iota ident.name = some operand ∧ later = s := by
  have hbool (hconst : (Universe.store.get id).kind = .const ∧ Universe.isIota id = false ∧
      Operand.constant (Universe.store.typeOf id) (Universe.store.get id).value =
        .ofValue (.basic .untypedBool)) :
      operand = .ofValue (.basic .untypedBool) ∧ later = s := by
    obtain ⟨hkind, hother, hoperand⟩ := hconst
    obtain ⟨hresolve, rfl⟩ := run_resolve_of_symbolOperand (hget ▸ hkind) hother hrun
    obtain rfl := eq_of_run_resolve hpending hresolve
    rw [← hoperand, Store.typeOf, Store.typeOf, hget]
    exact ⟨rfl, rfl⟩
  simp only [Universe.values, List.mem_cons, List.not_mem_nil, or_false] at hvalue
  rcases hvalue with hname | hname | hname | hname <;> rw [hname] at hfind ⊢
  · cases (show Universe.find? "iota" = some ⟨22⟩ by decide).symm.trans hfind
    rw [run_symbolOperand_const (hget ▸ rfl)] at hrun
    unfold constantOperand at hrun
    rw [if_pos (by decide), run_bind_of_some (sees_get input s)] at hrun
    simp only [hiota] at hrun
    cases hrun
    exact ⟨rfl, rfl⟩
  · cases (show Universe.find? "true" = some ⟨20⟩ by decide).symm.trans hfind
    obtain ⟨rfl, rfl⟩ := hbool ⟨rfl, by decide, rfl⟩
    exact ⟨rfl, rfl⟩
  · cases (show Universe.find? "false" = some ⟨21⟩ by decide).symm.trans hfind
    obtain ⟨rfl, rfl⟩ := hbool ⟨rfl, by decide, rfl⟩
    exact ⟨rfl, rfl⟩
  · cases (show Universe.find? "nil" = some ⟨23⟩ by decide).symm.trans hfind
    have hkind : (s.store.get ⟨23⟩).kind = .nil := hget ▸ rfl
    unfold symbolOperand at hrun
    rw [run_bind_of_some (sees_symbol _ _ _)] at hrun
    simp only [hkind] at hrun
    cases hrun
    exact ⟨rfl, rfl⟩

/-- A name that may be mentioned, and that is checked without a report, is what it denotes. -/
theorem denotes_of_run_name {ident : Ident} (hresolves : table.Resolves entries depth)
    (hs : s.Reads entries table names iota) (hname : names ident.name)
    (hrun : name (Checker.within depth) ident input s = some (operand, later))
    (hsilent : later.reports = s.reports) :
    Denotes entries iota (.ident ident) operand ∧
      table.Sound entries later.store later.collected := by
  cases hs.shows _ hname with
  | @constant id entry hrow hentry hnearest hready =>
    obtain ⟨hmem, hdeclared, -, hkind, -⟩ := hs.sound.rows _ hrow
    obtain ⟨info, hoperand⟩ := exists_of_run_name (s.lookup?_of_nearest? hnearest)
      (by rw [hkind]; decide) hrun hsilent
    obtain ⟨hresolve, rfl⟩ :=
      run_resolve_of_symbolOperand (s := { s with info }) hkind
        (Universe.isIota_eq_false hdeclared) hoperand
    have hlater := hresolves input { s with info } later _ hrow hs.sound hresolve hsilent
    have hsome := ConstantTable.Sound.isSome_of_run_resolve (s := { s with info }) hs.sound hrow
      hready hresolve
    refine ⟨?_, hlater⟩
    obtain ⟨x, hx, htype, hvalue, -⟩ := hlater.settled hrow hsome
    have htypeOf : later.store.typeOf id = (entry.typed x).type := by
      have hconst := (hlater.rows _ hrow).kind
      rw [Store.typeOf, Symbol.isDefinedType_of_ne (by rw [hconst]; decide), htype]
      rfl
    rw [htypeOf, hvalue]
    exact .constant hmem hentry hx
  | predeclared hvalue hleaves =>
    obtain ⟨id, hfind, hplaced, hkind⟩ := Universe.exists_find?_of_mem_values hvalue
    obtain ⟨hget, hpending⟩ := hs.sound.predeclared id hplaced
    obtain ⟨info, hoperand⟩ := exists_of_run_name ((s.lookup?_of_leaves hleaves).trans hfind)
      (hget ▸ hkind) hrun hsilent
    obtain ⟨hx, rfl⟩ := value?_of_run_symbolOperand (s := { s with info }) hvalue hfind hs.iota hget
      hpending hoperand
    exact ⟨.predeclared hx, hs.sound⟩

/-! ### Expressions -/

/-- What is reported stays, so that of two steps that together report nothing neither does. -/
theorem silent_of_suffix {middle : CheckState} (hfirst : s.reports <:+ middle.reports)
    (hrest : middle.reports <:+ later.reports) (hsilent : later.reports = s.reports) :
    middle.reports = s.reports ∧ later.reports = middle.reports := by
  have hmiddle : middle.reports = s.reports :=
    (hfirst.eq_of_length_le (hsilent ▸ hrest.length_le)).symm
  exact ⟨hmiddle, hsilent.trans hmiddle.symm⟩

/-- After a report something is reported. -/
theorem not_silent_of_report {reports : List Diagnostic} (diagnostic : Diagnostic)
    (h : s.reports <:+ reports) : diagnostic :: reports ≠ s.reports := by
  intro hsame
  have hlength := h.length_le
  rw [← hsame, List.length_cons] at hlength
  exact Nat.not_succ_le_self _ hlength

theorem frame_of_run_value {e : Expr}
    (hrun : value (Checker.within depth) e input s = some (operand, later)) :
    s.Frame .nothing later :=
  (runs_value (Checker.within_runs depth (.expr e)) input s trivial).frame operand later hrun

/-- A value that is checked without a report denotes an operand, if its expression does. -/
theorem denotes_of_run_value {e : Expr}
    (hexpr : ∀ {operand later}, (Checker.within depth).expr e input s = some (operand, later) →
      later.reports = s.reports → Denotes entries iota e operand ∧
        table.Sound entries later.store later.collected)
    (hrun : value (Checker.within depth) e input s = some (operand, later))
    (hsilent : later.reports = s.reports) :
    Denotes entries iota e operand ∧ table.Sound entries later.store later.collected := by
  obtain ⟨found, middle, hfound, hrest⟩ := exists_of_run_bind hrun
  obtain ⟨type, last, hsingle, hpure⟩ := exists_of_run_bind hrest
  cases hpure
  have hkeeps : KeepsReports (singleValue found e) :=
    .ofRuns (runs_singleValue _ _ : Runs _ _ .nothing _)
  obtain ⟨hdenotes, hsound⟩ := hexpr hfound (silent_of_suffix
    (Checker.within_frame hfound).lasts.reports (hkeeps input middle type later hsingle) hsilent).1
  -- One value of a basic type is taken as it is.
  obtain ⟨hproblem, htype⟩ := hdenotes.isBasic.value e
  unfold singleValue at hsingle
  simp only [hproblem, htype] at hsingle
  cases hsingle
  exact ⟨hdenotes, hsound⟩

theorem exists_operandOf_of_run_within {e : Expr}
    (hrun : (Checker.within depth).expr e input s = some (operand, later)) :
    ∃ less < depth, ∃ middle info,
      operandOf (Checker.within less) e input s = some (operand, middle) ∧
        later = { middle with info } := by
  cases depth with
  | zero => cases hrun
  | succ less => exact ⟨less, Nat.lt_succ_self less, exists_operandOf_of_run_expr hrun⟩

/-- What an expression of literals and names in sight is checked for, if nothing is reported, is
what it denotes. -/
theorem denotes_of_run_expr {e : Expr} (hresolves : ∀ less < depth, table.Resolves entries less)
    (he : e.Mentions names) (hs : s.Reads entries table names iota)
    (hrun : (Checker.within depth).expr e input s = some (operand, later))
    (hsilent : later.reports = s.reports) :
    Denotes entries iota e operand ∧ table.Sound entries later.store later.collected := by
  induction he generalizing depth s operand later with
  | ident hname =>
    obtain ⟨less, hless, middle, info, hrule, rfl⟩ := exists_operandOf_of_run_within hrun
    obtain ⟨hdenotes, hsound⟩ := denotes_of_run_name (hresolves less hless) hs hname hrule hsilent
    exact ⟨hdenotes, hsound⟩
  | literal literal =>
    obtain ⟨less, hless, middle, info, hrule, rfl⟩ := exists_operandOf_of_run_within hrun
    cases hrule
    exact ⟨.literal literal, hs.sound⟩
  | paren _ _ ih =>
    obtain ⟨less, hless, middle, info, hrule, rfl⟩ := exists_operandOf_of_run_within hrun
    obtain ⟨hdenotes, hsound⟩ :=
      ih (fun deeper hdeeper ↦ hresolves deeper (hdeeper.trans hless)) hs hrule hsilent
    exact ⟨.paren _ hdenotes, hsound⟩
  | unary _ hop _ ih =>
    obtain ⟨less, hless, middle, info, hrule, rfl⟩ := exists_operandOf_of_run_within hrun
    obtain ⟨x, after, hx, houtcome⟩ := exists_outcome_of_unary hrule
    have hframe := frame_of_run_value hx
    cases houtcome with
    | refused diagnostic => exact absurd hsilent (not_silent_of_report _ hframe.lasts.reports)
    | accepted happlied =>
      obtain ⟨hdenotes, hsound⟩ := denotes_of_run_value
        (ih (fun deeper hdeeper ↦ hresolves deeper (hdeeper.trans hless)) hs) hx hsilent
      rw [UnaryOp.eq_result_of_applied hdenotes.isBasic happlied]
      exact ⟨.unary _ hop hdenotes, hsound⟩
  | binary _ _ _ ihLeft ihRight =>
    obtain ⟨less, hless, last, info, hrule, rfl⟩ := exists_operandOf_of_run_within hrun
    obtain ⟨x, middle, y, after, hx, hy, houtcome⟩ := exists_outcome_of_binary hrule
    have hdeep : ∀ deeper < less, table.Resolves entries deeper :=
      fun deeper hdeeper ↦ hresolves deeper (hdeeper.trans hless)
    have hframe := frame_of_run_value hx
    have hframe' := frame_of_run_value hy
    cases houtcome with
    | refused diagnostic =>
      exact absurd hsilent
        (not_silent_of_report _ (hframe.lasts.reports.trans hframe'.lasts.reports))
    | accepted hcombined =>
      obtain ⟨hfirst, hsecond⟩ :=
        silent_of_suffix hframe.lasts.reports hframe'.lasts.reports hsilent
      obtain ⟨hleft, hmiddle⟩ := denotes_of_run_value (ihLeft hdeep hs) hx hfirst
      obtain ⟨hright, hafter⟩ :=
        denotes_of_run_value (ihRight hdeep (hs.of_frame hframe hmiddle)) hy hsecond
      have hresult := BinaryOp.result?_of_combined hleft.isBasic hright.isBasic rfl rfl hcombined
      exact ⟨.binary _ hleft hright hresult, hafter⟩

/-! ### Initializers -/

/-- A predeclared name for a basic type is that type. -/
theorem eq_basic_of_run_typeExpr {ident : Ident} {kind : BasicKind} {type : Ty}
    (hs : table.Sound entries s.store s.collected)
    (hkind : Universe.basicType? ident.name = some kind)
    (hleaves : s.collected.Leaves s.context ident.name)
    (hrun : (Checker.within depth).typeExpr (.ident ident) input s = some (type, later)) :
    type = .basic kind ∧ ∃ info, later = { s with info } := by
  obtain ⟨id, hfind, hid⟩ := Option.bind_eq_some_iff.1 hkind
  have hbasic : (Universe.store.get id).type = some (.basic kind) ∧
      (Universe.store.get id).kind = .typeName ∧ (Universe.store.get id).isAlias = true := by
    split at hid
    · next htype =>
      obtain ⟨h, heq⟩ := Option.ite_none_right_eq_some.1 hid
      cases heq
      exact ⟨htype, h⟩
    · cases hid
  have hplaced : id.index < Universe.store.symbols.size :=
    Store.placed_of_isSome (by rw [hbasic.1]; rfl)
  rw [← (hs.predeclared id hplaced).1] at hbasic
  obtain ⟨htype, hname, halias⟩ := hbasic
  cases depth with
  | zero => cases hrun
  | succ depth =>
    obtain ⟨found, middle, hfound, hrecord⟩ := exists_of_run_bind
      (show CheckRule.typeExpr (Checker.within depth) (.ident ident) input s = _ from hrun)
    cases hrecord
    have hfound : namedType (Checker.within depth) ident input s = some (type, middle) := hfound
    unfold namedType at hfound
    rw [run_bind_of_some (sees_lookup? _ _ _)] at hfound
    simp only [s.lookup?_of_leaves hleaves, hfind] at hfound
    obtain ⟨⟨⟩, used, huse, hfound⟩ := exists_of_run_bind hfound
    cases huse
    rw [run_bind_of_some (sees_symbol _ _ _), if_neg (by simpa using hname),
      if_neg (by simp [htype])] at hfound
    cases hfound
    refine ⟨?_, _, rfl⟩
    simp [Store.typeOf, Symbol.isDefinedType, hname, halias, htype]

/-- A constant that is initialized without a report gets what its expression is checked for. -/
theorem exists_of_run_initConstant {c : Checker} {declared : Option Ty} {e : Expr}
    (hrun : initConstant c declared id e input s = some ((), later))
    (hc : Runs (fun _ ↦ True) True .nothing (c.expr e)) (hsilent : later.reports = s.reports) :
    ∃ operand middle, c.expr e input s = some (operand, middle) ∧ middle.reports = s.reports ∧
      later = { middle with
        store := (middle.store.setValue id operand.value).setType id
          (declared.getD operand.type) } := by
  obtain ⟨operand, middle, hexpr, hrest⟩ := exists_of_run_bind hrun
  have hframe := (hc input s trivial).frame operand middle hexpr
  rw [run_bind_of_some (sees_assignable _ _ _ _)] at hrest
  split at hrest
  · cases hrest
    exact ⟨operand, middle, hexpr, hsilent, rfl⟩
  · cases hrest
    exact absurd hsilent (not_silent_of_report _ hframe.lasts.reports)

/-- A constant without an expression is reported. -/
theorem not_silent_of_missing {c : Checker} {declared : Option Ty} {rest : List SymbolId}
    (hrun : initConstants c declared (id :: rest) [] input s = some ((), later)) :
    later.reports ≠ s.reports := by
  let missing : SymbolId → Check Unit := fun id ↦ do
    report (← symbol id).pos .missingInit
    setType id .invalid
  have hrun : (missing id >>= fun _ ↦ rest.forM missing) input s = some ((), later) := hrun
  obtain ⟨⟨⟩, middle, hfirst, hrest⟩ := exists_of_run_bind hrun
  cases hfirst
  have hkeeps : KeepsReports (rest.forM missing) :=
    .forM fun other _ ↦ .looking (sees_symbol other) fun _ ↦
      .ofRuns (.bind (runs_report _ _) fun _ ↦ runs_setType other _ : Runs _ _ .nothing _)
  have hsuffix := (hkeeps input _ () later hrest).length_le
  intro hsilent
  rw [hsilent] at hsuffix
  exact Nat.not_succ_le_self _ hsuffix

/-- The first of several constants, and then the others. -/
theorem exists_of_run_initConstants_cons {declared : Option Ty} {ids : List SymbolId} {value : Expr}
    {values : List Expr}
    (hrun : initConstants (Checker.within depth) declared (id :: ids) (value :: values) input s =
      some ((), later))
    (hsilent : later.reports = s.reports) :
    ∃ after, initConstants (Checker.within depth) declared ids values input after =
        some ((), later) ∧
      later.reports = after.reports ∧ s.Frame .nothing after ∧
      ∃ operand middle, (Checker.within depth).expr value input s = some (operand, middle) ∧
        middle.reports = s.reports ∧
        after = { middle with
          store := (middle.store.setValue id operand.value).setType id
            (declared.getD operand.type) } := by
  have hvalue := Checker.within_runs depth (.expr value)
  obtain ⟨⟨⟩, after, hfirst, hrest⟩ := exists_of_run_bind hrun
  have hframe := (runs_initConstant declared id hvalue input s trivial).frame () after hfirst
  have hframe' := (runs_initConstants declared ids (fun e _ ↦ Checker.within_runs depth (.expr e))
    input after trivial).frame () later hrest
  obtain ⟨hquiet, hquiet'⟩ := silent_of_suffix hframe.lasts.reports hframe'.lasts.reports hsilent
  exact ⟨after, hrest, hquiet', hframe, exists_of_run_initConstant hfirst hvalue hquiet⟩

theorem sound_of_run_initConstants {declared : Option Ty} {type : Option Expr}
    {ids : List SymbolId} {values : List Expr}
    (hresolves : ∀ less < depth, table.Resolves entries less)
    (hdeclared : ∀ entry : ConstantEntry, entry.type = type → entry.declared? = declared)
    (hrows : ∀ pair ∈ ids.zip values, ∃ name, (pair.1, ⟨iota, name, type, pair.2⟩) ∈ table)
    (hvalues : ∀ value ∈ values, value.Mentions names) (hs : s.Reads entries table names iota)
    (hrun : initConstants (Checker.within depth) declared ids values input s = some ((), later))
    (hsilent : later.reports = s.reports) : table.Sound entries later.store later.collected := by
  induction ids generalizing values s with
  | nil =>
    cases hrun
    exact hs.sound
  | cons id ids ih =>
    cases values with
    | nil => exact absurd hsilent (not_silent_of_missing hrun)
    | cons value values =>
      obtain ⟨hvalue, hvalues⟩ := List.forall_mem_cons.1 hvalues
      obtain ⟨⟨name, hrow⟩, hrows⟩ := List.forall_mem_cons.1 hrows
      obtain ⟨after, hrest, hquiet, hframe, operand, middle, hexpr, hmiddle, rfl⟩ :=
        exists_of_run_initConstants_cons hrun hsilent
      obtain ⟨hdenotes, hsound⟩ := denotes_of_run_expr hresolves hvalue hs hexpr hmiddle
      have hsettled := hsound.settle hrow hdenotes
      rw [ConstantEntry.typed, hdeclared _ rfl] at hsettled
      exact ih hrows hvalues (hs.of_frame hframe hsettled) hrest hquiet

/-- Constants that are initialized without a report: first the type that is declared, if one is, and
then the expressions. -/
theorem exists_of_run_initSymbols {ids : List SymbolId} {init : Initializers}
    (hrun : initSymbols (Checker.within depth) ids init.1 init.2 true input s = some ((), later))
    (hsilent : later.reports = s.reports) :
    ∃ declared middle, init.1.mapM (Checker.within depth).typeExpr input s =
        some (declared, middle) ∧
      initConstants (Checker.within depth) declared ids init.2 input middle = some ((), later) ∧
      later.reports = middle.reports := by
  obtain ⟨declared, middle, htype, hrest⟩ := exists_of_run_bind hrun
  rw [run_bind_of_some (sees_store _ _)] at hrest
  simp only [if_true] at hrest
  obtain ⟨⟨⟩, last, hconstants, hextra⟩ := exists_of_run_bind hrest
  have hframe := ((Runs.mapOption fun e _ ↦ Checker.within_runs depth (.typeExpr e) :
    Runs _ _ .nothing _) input s trivial).frame declared middle htype
  have hframe' := (runs_initConstants declared ids (fun e _ ↦
    Checker.within_runs depth (.expr e)) input middle trivial).frame () last hconstants
  split at hextra
  · cases hextra
    exact absurd hsilent
      (not_silent_of_report _ (hframe.lasts.reports.trans hframe'.lasts.reports))
  · cases hextra
    exact ⟨declared, middle, htype, hconstants,
      (silent_of_suffix hframe.lasts.reports hframe'.lasts.reports hsilent).2⟩

/-- Constants whose spec is resolved without a report stay sound. -/
theorem sound_of_run_initSymbols {ids : List SymbolId} {init : Initializers}
    (hresolves : ∀ less < depth, table.Resolves entries less)
    (hs : table.Sound entries s.store s.collected) (hiota : s.context.iota = some iota)
    (hinit : table.Initializes s.store s.collected s.context iota ids init)
    (hrun : initSymbols (Checker.within depth) ids init.1 init.2 true input s = some ((), later))
    (hsilent : later.reports = s.reports) : table.Sound entries later.store later.collected := by
  obtain ⟨type, values⟩ := init
  obtain ⟨declared, middle, htype, hconstants, hquiet⟩ := exists_of_run_initSymbols hrun hsilent
  obtain ⟨hdeclared, info, rfl⟩ : (∀ entry : ConstantEntry, entry.type = type →
      entry.declared? = declared) ∧ ∃ info, middle = { s with info } := by
    cases type with
    | none =>
      cases htype
      exact ⟨fun entry h ↦ by rw [ConstantEntry.declared?, h]; rfl, s.info, rfl⟩
    | some type =>
      obtain ⟨ident, kind, rfl, hkind, hleaves⟩ := hinit.type type rfl
      have htype : ((Checker.within depth).typeExpr (.ident ident) >>= fun found ↦
          pure (some found)) input s = some (declared, middle) := htype
      obtain ⟨found, after, hfound, hpure⟩ := exists_of_run_bind htype
      cases hpure
      obtain ⟨rfl, hinfo⟩ := eq_basic_of_run_typeExpr hs hkind hleaves hfound
      refine ⟨fun entry h ↦ ?_, hinfo⟩
      simp [ConstantEntry.declared?, h, Expr.ident?, hkind]
  have hreads : CheckState.Reads entries table (table.Shows s.store s.collected s.context) iota
      { s with info } :=
    ⟨hs, fun _ hshows ↦ hshows, hiota⟩
  exact sound_of_run_initConstants hresolves hdeclared hinit.rows hinit.values hreads hconstants
    hquiet

/-! ### Resolving -/

theorem suffix_foldl_giveUp (ids : List SymbolId) (s : CheckState) :
    s.reports <:+ (ids.foldl CheckState.giveUp s).reports := by
  induction ids generalizing s with
  | nil => exact List.suffix_refl _
  | cons id ids ih =>
    refine List.IsSuffix.trans ?_ (ih (s.giveUp id))
    unfold CheckState.giveUp
    split
    · exact List.suffix_cons _ _
    · exact List.suffix_refl _

/-- Names that were given up without a report had their types. -/
theorem eq_of_foldl_giveUp {ids : List SymbolId}
    (hsilent : (ids.foldl CheckState.giveUp s).reports = s.reports) :
    ids.foldl CheckState.giveUp s = s := by
  induction ids with
  | nil => rfl
  | cons id ids ih =>
    have hrest := suffix_foldl_giveUp ids (s.giveUp id)
    rw [List.foldl_cons] at hsilent ⊢
    cases htype : (s.store.get id).type.isNone with
    | true =>
      rw [hsilent, CheckState.giveUp, if_pos htype] at hrest
      exact absurd hrest.length_le (Nat.not_succ_le_self _)
    | false =>
      have hsame : s.giveUp id = s := if_neg (by simp [htype])
      rw [hsame] at hsilent ⊢
      exact ih hsilent

/-- A step in another context comes back to the context before. -/
theorem exists_of_run_inContext {α : Type} {context : Context} {step : Check α} {a : α}
    (hrun : inContext context step input s = some (a, later)) :
    ∃ last, step input { s with context } = some (a, last) ∧
      later = { last with context := s.context } := by
  have hrun : Check.between (fun s ↦ { s with context })
      (fun later ↦ { later with context := s.context }) step input s = some (a, later) := hrun
  exact exists_of_run_between hrun

/-- To resolve a constant without a report keeps the constants sound, however deep their specs ask
for each other. -/
theorem sound_resolve (depth : Nat) : table.Resolves entries depth := by
  induction depth using Nat.strong_induction_on with
  | _ depth ih =>
    intro input s later row hrow hs hrun hsilent
    cases hpending : s.pending.find? row.1 with
    | none => exact eq_of_run_resolve hpending hrun ▸ hs
    | some pending =>
      obtain ⟨number, group, rfl, hgroup, hwaits⟩ := hs.pending row hrow pending hpending
      cases depth with
      | zero => cases hrun
      | succ depth =>
        have hresolves : ∀ less < depth, table.Resolves entries less :=
          fun less hless ↦ ih less (Nat.lt_succ_of_lt hless)
        have hrun := run_resolve_of_value hpending hrun
        rw [resolveGroup_eq, run_bind_of_some (sees_get input s),
          show s.groups[number]? = some group from hgroup, Option.getD_some] at hrun
        split at hrun
        · cases hrun
          exact hs
        · split at hrun
          · cases (run_cyclicValues group.symbols input s).symm.trans hrun
            rw [eq_of_foldl_giveUp hsilent]
            exact hs
          · obtain ⟨middle, hstep, rfl⟩ := exists_of_run_between hrun
            obtain ⟨last, hinit, rfl⟩ := exists_of_run_inContext hstep
            rw [hwaits.isConst] at hinit
            have hsound := sound_of_run_initSymbols
              (s := { s with
                resolvingGroups := number :: s.resolvingGroups
                context := { Context.ofFile group.file with iota := some group.iota } })
              hresolves hs rfl hwaits.initializes hinit hsilent
            exact hsound

end Runs

end PackageAtlas
