import Mathlib.Data.List.Nodup
import PackageAtlas.Proofs.Constants.Exactness

/-!
What the constants of a group stand for. A constant expression denotes an operand by the entries of
its group alone (`Denotes`): a predeclared name denotes itself, another name what its entry is
given, and `iota` the number of the spec. Neither the order in which the entries are asked for nor a
store or a scope comes into it. If the names of the group are distinct and not predeclared, an expression
denotes one operand at most (`Denotes.unique`), and it does not matter where in a file the
expressions stand (`Denotes.eq_of_bare`).
-/

set_option autoImplicit false
set_option relaxedAutoImplicit false

namespace PackageAtlas

open CheckRule

/-! ### Operands of basic types -/

/-- A value of a basic type. -/
structure Operand.IsBasic (x : Operand) : Prop where
  mode : x.mode = .value
  type : ∃ kind, x.type = .basic kind

/-- What a unary operator makes of a value that it accepts. -/
def UnaryOp.result (op : UnaryOp) (x : Operand) : Operand :=
  match op with
  | .addr => .ofValue (.pointer x.type)
  | .not => .ofValue x.type
  | .neg | .plus | .bitNot => .constant x.type (x.value.bind (Constant.unary? op))

/-- What a binary operator makes of two values of basic types that it accepts. What the store holds
does not matter to basic types. -/
def BinaryOp.result? (op : BinaryOp) (x y : Operand) : Option Operand :=
  if op.isComparison then some (.ofValue (.basic .untypedBool))
  else if op = .logAnd ∨ op = .logOr then
    some (.ofValue (if x.type.isUntyped then y.type else x.type))
  else if op.isShift then some (.constant x.type (shiftValue? op x.value y.value))
  else
    (sharedType? Universe.store x.type y.type).map fun type ↦
      .constant type (arithmeticValue? op x.value y.value)

section Operators

variable {store : Store} {x y z : Operand}

theorem Operand.isBasic_constant (kind : BasicKind) (value : Option Int) :
    (Operand.constant (.basic kind) value).IsBasic :=
  ⟨rfl, kind, rfl⟩

theorem isBasic_literalOperand (literal : Literal) : (literalOperand literal).IsBasic := by
  unfold literalOperand
  cases literal.kind with
  | int | float | char | string => exact Operand.isBasic_constant _ _

theorem Operand.IsBasic.not_isInvalid (hx : x.IsBasic) : x.type.isInvalid = false := by
  obtain ⟨-, kind, htype⟩ := hx
  rw [htype]
  rfl

/-- One basic value as such: it is no problem, and it keeps its type. -/
theorem Operand.IsBasic.value (hx : x.IsBasic) (e : Expr) :
    x.valueProblem? e = none ∧ x.valueType = x.type := by
  obtain ⟨mode, type, value⟩ := x
  obtain ⟨rfl, kind, rfl⟩ := hx
  exact ⟨rfl, rfl⟩

theorem UnaryOp.isBasic_result {op : UnaryOp} (hop : op ≠ .addr) (hx : x.IsBasic) :
    (op.result x).IsBasic := by
  obtain ⟨-, kind, htype⟩ := hx
  cases op with
  | addr => exact absurd rfl hop
  | not | neg | plus | bitNot =>
    unfold result
    rw [htype]
    exact Operand.isBasic_constant _ _

theorem UnaryOp.eq_result_of_applied {op : UnaryOp} (hx : x.IsBasic)
    (h : Applied store op x.type x.value y) : y = op.result x := by
  cases h with
  | unknown hinvalid => simp [hx.not_isInvalid] at hinvalid
  | addressed hop => rw [hop]; rfl
  | negated hop => rw [hop]; rfl
  | computed hop =>
    simp only [List.mem_cons, List.not_mem_nil, or_false] at hop
    rcases hop with rfl | rfl | rfl <;> rfl

theorem sharedType?_basic (store : Store) (kind kind' : BasicKind) :
    sharedType? store (.basic kind) (.basic kind') =
      sharedType? Universe.store (.basic kind) (.basic kind') :=
  rfl

/-- Two basic types share one of them. -/
theorem eq_or_of_sharedType? {left right type : Ty} (h : sharedType? store left right = some type) :
    type = left ∨ type = right := by
  unfold sharedType? at h
  split at h
  · cases h
    exact widerUntyped_eq_or left right
  · exact .inr (Option.some.inj (Option.ite_none_right_eq_some.1 h).2).symm
  · exact .inl (Option.some.inj (Option.ite_none_right_eq_some.1 h).2).symm
  · exact .inl (Option.some.inj (Option.ite_none_right_eq_some.1 h).2).symm

theorem BinaryOp.result?_of_combined {b : BinaryOperands} (hx : x.IsBasic) (hy : y.IsBasic)
    (hleft : b.leftType = x.type) (hright : b.rightType = y.type)
    (h : Combined store b x.value y.value z) : b.op.result? x y = some z := by
  unfold result?
  rw [← hleft, ← hright]
  cases h with
  | unknown hinvalid => simp [hleft, hright, hx.not_isInvalid, hy.not_isInvalid] at hinvalid
  | compared hop => rw [if_pos hop]
  | joined hop =>
    have hcomparison : b.op.isComparison = false := by
      rcases hop with hop | hop <;> rw [hop] <;> rfl
    rw [if_neg (by simp [hcomparison]), if_pos hop]
  | shifted hop =>
    have hother : b.op.isComparison = false ∧ ¬(b.op = .logAnd ∨ b.op = .logOr) := by
      cases hb : b.op <;> rw [hb] at hop <;> cases hop <;> decide
    rw [if_neg (by simp [hother.1]), if_neg hother.2, if_pos hop]
  | computed hop hshared =>
    obtain ⟨hcomparison, hand, hor, hshift⟩ := BinaryOp.mem_arithmetic_iff.1 hop
    obtain ⟨-, kind, htype⟩ := hx
    obtain ⟨-, kind', htype'⟩ := hy
    rw [if_neg (by simp [hcomparison]), if_neg (by simp [hand, hor]), if_neg (by simp [hshift])]
    rw [hleft, hright, htype, htype', sharedType?_basic] at hshared
    rw [hleft, hright, htype, htype', hshared]
    rfl

theorem BinaryOp.isBasic_of_result? {op : BinaryOp} (hx : x.IsBasic) (hy : y.IsBasic)
    (h : op.result? x y = some z) : z.IsBasic := by
  obtain ⟨-, kind, htype⟩ := hx
  obtain ⟨-, kind', htype'⟩ := hy
  unfold result? at h
  rw [htype, htype'] at h
  split at h
  · cases h
    exact Operand.isBasic_constant _ _
  · split at h
    · cases h
      split
      · exact Operand.isBasic_constant _ _
      · exact Operand.isBasic_constant _ _
    · split at h
      · cases h
        exact Operand.isBasic_constant _ _
      · obtain ⟨type, hshared, rfl⟩ := Option.map_eq_some_iff.1 h
        rcases eq_or_of_sharedType? hshared with rfl | rfl
        · exact Operand.isBasic_constant _ _
        · exact Operand.isBasic_constant _ _

end Operators

/-! ### Entries -/

namespace Universe

/-- The predeclared names for values. -/
def values : List String := ["iota", "true", "false", "nil"]

/-- What a predeclared name for a value stands for, in the spec of a number. -/
def value? (iota : Int) (name : String) : Option Operand :=
  if name = "iota" then some (.constant (.basic .untypedInt) (some iota))
  else if name = "true" ∨ name = "false" then some (.ofValue (.basic .untypedBool))
  else if name = "nil" then some (.ofValue (.basic .untypedNil))
  else none

/-- The basic type that a predeclared name stands for. -/
def basicType? (name : String) : Option BasicKind :=
  (find? name).bind fun id ↦
    match (store.get id).type with
    | some (.basic kind) =>
      if (store.get id).kind = .typeName ∧ (store.get id).isAlias then some kind else none
    | _ => none

theorem isBasic_of_value? {iota : Int} {name : String} {x : Operand}
    (h : value? iota name = some x) : x.IsBasic := by
  unfold value? at h
  split at h
  · cases h
    exact Operand.isBasic_constant _ _
  · split at h
    · cases h
      exact Operand.isBasic_constant _ _
    · obtain ⟨-, h⟩ := Option.ite_none_right_eq_some.1 h
      cases h
      exact Operand.isBasic_constant _ _

theorem exists_find?_of_mem_values {name : String} (h : name ∈ values) :
    ∃ id, find? name = some id ∧ id.index < store.symbols.size ∧
      (store.get id).kind ≠ .var ∧ (store.get id).kind ≠ .pkgName := by
  simp only [values, List.mem_cons, List.not_mem_nil, or_false] at h
  rcases h with rfl | rfl | rfl | rfl
  · exact ⟨⟨22⟩, by decide, by decide, by decide⟩
  · exact ⟨⟨20⟩, by decide, by decide, by decide⟩
  · exact ⟨⟨21⟩, by decide, by decide, by decide⟩
  · exact ⟨⟨23⟩, by decide, by decide, by decide⟩

theorem mem_values_of_value? {iota : Int} {name : String} {x : Operand}
    (h : value? iota name = some x) : name ∈ values := by
  unfold value? at h
  by_contra hother
  simp only [values, List.mem_cons, List.not_mem_nil, or_false, not_or] at hother
  simp [hother] at h

end Universe

/-- A constant of a group: the number of its spec, its name, and the type and the expression that
its spec gives it or takes over. -/
structure ConstantEntry where
  iota : Int
  name : String
  type : Option Expr
  value : Expr

namespace ConstantEntry

/-- The basic type that the entry is declared with. -/
def declared? (entry : ConstantEntry) : Option Ty :=
  entry.type.bind fun type ↦
    type.ident?.bind fun ident ↦ (Universe.basicType? ident.name).map .basic

/-- The constant of an entry whose expression has a value. -/
def typed (entry : ConstantEntry) (x : Operand) : Operand :=
  .constant (entry.declared?.getD x.type) x.value

theorem isBasic_typed (entry : ConstantEntry) {x : Operand} (hx : x.IsBasic) :
    (entry.typed x).IsBasic := by
  unfold typed
  cases hdeclared : entry.declared? with
  | none => exact ⟨rfl, hx.type⟩
  | some type =>
    obtain ⟨expr, -, hident⟩ := Option.bind_eq_some_iff.1 hdeclared
    obtain ⟨ident, -, hkind⟩ := Option.bind_eq_some_iff.1 hident
    obtain ⟨kind, -, rfl⟩ := Option.map_eq_some_iff.1 hkind
    exact Operand.isBasic_constant _ _

/-- The entries have names of their own, none of which is predeclared. -/
structure Distinct (entries : List ConstantEntry) : Prop where
  nodup : (entries.map (·.name)).Nodup
  find? : ∀ entry ∈ entries, Universe.find? entry.name = none

end ConstantEntry

/-! ### Denotations -/

/-- What an expression stands for in the spec of a number, by the entries of its group. -/
inductive Denotes (entries : List ConstantEntry) : Int → Expr → Operand → Prop
  | predeclared {iota : Int} {ident : Ident} {x : Operand}
    (h : Universe.value? iota ident.name = some x) : Denotes entries iota (.ident ident) x
  | constant {iota : Int} {ident : Ident} {entry : ConstantEntry} {x : Operand}
    (hentry : entry ∈ entries) (hname : entry.name = ident.name)
    (hx : Denotes entries entry.iota entry.value x) :
    Denotes entries iota (.ident ident) (entry.typed x)
  | literal {iota : Int} (literal : Literal) :
    Denotes entries iota (.literal literal) (literalOperand literal)
  | paren {iota : Int} {inner : Expr} {x : Operand} (info : NodeInfo)
    (hx : Denotes entries iota inner x) : Denotes entries iota (.paren info inner) x
  | unary {iota : Int} {op : UnaryOp} {operand : Expr} {x : Operand} (info : NodeInfo)
    (hop : op ≠ .addr) (hx : Denotes entries iota operand x) :
    Denotes entries iota (.unary info op operand) (op.result x)
  | binary {iota : Int} {op : BinaryOp} {left right : Expr} {x y z : Operand} (info : NodeInfo)
    (hx : Denotes entries iota left x) (hy : Denotes entries iota right y)
    (hz : op.result? x y = some z) : Denotes entries iota (.binary info op left right) z

namespace Denotes

variable {entries entries' : List ConstantEntry} {iota : Int} {e e' : Expr} {x y : Operand}

theorem isBasic (h : Denotes entries iota e x) : x.IsBasic := by
  induction h with
  | predeclared h => exact Universe.isBasic_of_value? h
  | constant _ _ _ ih => exact ConstantEntry.isBasic_typed _ ih
  | literal literal => exact isBasic_literalOperand literal
  | paren _ _ ih => exact ih
  | unary _ hop _ ih => exact UnaryOp.isBasic_result hop ih
  | binary _ _ _ hz ihx ihy => exact BinaryOp.isBasic_of_result? ihx ihy hz

/-- An expression denotes one operand at most. -/
theorem unique (hentries : ConstantEntry.Distinct entries) (h : Denotes entries iota e x)
    (h' : Denotes entries iota e y) : x = y := by
  have hnew {entry : ConstantEntry} (hentry : entry ∈ entries) {name : String} {iota : Int}
      {z : Operand} (hname : entry.name = name) (hz : Universe.value? iota name = some z) :
      False := by
    obtain ⟨id, hfound, -⟩ :=
      Universe.exists_find?_of_mem_values (Universe.mem_values_of_value? hz)
    rw [← hname, hentries.find? entry hentry] at hfound
    cases hfound
  induction h generalizing y with
  | predeclared h =>
    cases h' with
    | predeclared h' => exact Option.some.inj (h.symm.trans h')
    | constant hentry hname => exact (hnew hentry hname h).elim
  | constant hentry hname _ ih =>
    cases h' with
    | predeclared h' => exact (hnew hentry hname h').elim
    | constant hentry' hname' hy =>
      obtain rfl := List.inj_on_of_nodup_map hentries.nodup hentry hentry' (hname.trans hname'.symm)
      rw [ih hy]
  | literal literal => cases h'; rfl
  | paren _ _ ih =>
    cases h' with
    | paren _ hy => exact ih hy
  | unary _ _ _ ih =>
    cases h' with
    | unary _ _ hy => rw [ih hy]
  | binary _ _ _ hz ihx ihy =>
    cases h' with
    | binary _ hx' hy' hz' =>
      rw [ihx hx', ihy hy'] at hz
      exact Option.some.inj (hz.symm.trans hz')

end Denotes

/-! ### Places in the file -/

/-- The expression as it is written, wherever that is. -/
def Expr.bare : Expr → Expr
  | .ident i => .ident ⟨default, i.name⟩
  | .literal l => .literal ⟨default, l.kind, l.text⟩
  | .paren _ inner => .paren default inner.bare
  | .unary _ op operand => .unary default op operand.bare
  | .binary _ op left right => .binary default op left.bare right.bare
  | other => other

/-- The entry as it is written. -/
def ConstantEntry.bare (entry : ConstantEntry) : ConstantEntry :=
  { entry with type := entry.type.map Expr.bare, value := entry.value.bare }

theorem ConstantEntry.typed_bare (entry : ConstantEntry) (x : Operand) :
    entry.bare.typed x = entry.typed x := by
  unfold typed declared? bare
  cases entry.type with
  | none => rfl
  | some type => cases type <;> rfl

namespace Denotes

variable {entries entries' : List ConstantEntry} {iota : Int} {e e' : Expr} {x y : Operand}

theorem bare (h : Denotes entries iota e x) :
    Denotes (entries.map ConstantEntry.bare) iota e.bare x := by
  induction h with
  | predeclared h => exact .predeclared h
  | @constant _ ident entry x hentry hname _ ih =>
    rw [← entry.typed_bare]
    exact .constant (List.mem_map_of_mem hentry) hname ih
  | literal literal => exact .literal _
  | paren _ _ ih => exact .paren _ ih
  | unary _ hop _ ih => exact .unary _ hop ih
  | binary _ _ _ hz ihx ihy => exact .binary _ ihx ihy hz

/-- Expressions that are written alike denote the same in groups that are written alike. -/
theorem eq_of_bare (hentries : ConstantEntry.Distinct entries)
    (hsame : entries.map ConstantEntry.bare = entries'.map ConstantEntry.bare)
    (hexpr : e.bare = e'.bare) (h : Denotes entries iota e x) (h' : Denotes entries' iota e' y) :
    x = y := by
  have hbare : ConstantEntry.Distinct (entries.map ConstantEntry.bare) := by
    refine ⟨?_, fun entry hentry ↦ ?_⟩
    · rw [List.map_map]
      exact hentries.nodup
    · obtain ⟨entry, hmem, rfl⟩ := List.mem_map.1 hentry
      exact hentries.find? entry hmem
  exact unique hbare h.bare (hexpr ▸ hsame ▸ h'.bare)

end Denotes

end PackageAtlas
