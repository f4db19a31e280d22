import PackageAtlas.Proofs.Relocation.Parser

/-!
The rules for types and expressions carry relocations over, if the parsers of all nonterminals do.
-/

set_option autoImplicit false
set_option relaxedAutoImplicit false

namespace PackageAtlas

namespace Relocation

/-- The parsers of all nonterminals carry a relocation over. -/
structure CarriesAll (move : Relocation) (g : Grammar) : Prop where
  decls : move.Carries (List.map move.decl) g.decls g.decls
  importDecls : move.Carries (List.map move.decl) g.importDecls g.importDecls
  genDecl : move.Carries move.genDecl g.genDecl g.genDecl
  specs : ∀ kind, move.Carries move.specs (g.specs kind) (g.specs kind)
  spec : ∀ kind docOffset, move.Carries move.spec (g.spec kind docOffset) (g.spec kind docOffset)
  funcDecl : move.Carries move.funcDecl g.funcDecl g.funcDecl
  signature : ∀ start, move.Carries move.funcType (g.signature start) (g.signature (move.pos start))
  parameters : move.Carries move.fields' g.parameters g.parameters
  parameterEntries : move.Carries (List.map move.entry) g.parameterEntries g.parameterEntries
  idents : move.Carries (List.map move.ident) g.idents g.idents
  type : move.Carries move.expr g.type g.type
  structFields : move.Carries move.fields' g.structFields g.structFields
  interfaceElements : move.Carries move.fields' g.interfaceElements g.interfaceElements
  block : move.Carries move.block g.block g.block
  stmts : move.Carries move.stmts' g.stmts g.stmts
  stmt : move.Carries move.stmt g.stmt g.stmt
  simpleStmt : move.Carries move.stmt g.simpleStmt g.simpleStmt
  condStmt : move.Carries move.stmt g.condStmt g.condStmt
  clauses : move.Carries move.clauses' g.clauses g.clauses
  exprs : move.Carries move.exprs g.exprs g.exprs
  binary : ∀ minimum, move.Carries move.expr (g.binary minimum) (g.binary minimum)
  binaryRest : ∀ minimum left,
    move.Carries move.expr (g.binaryRest minimum left) (g.binaryRest minimum (move.expr left))
  unary : move.Carries move.expr g.unary g.unary
  primary : move.Carries move.expr g.primary g.primary
  postfixRest : ∀ start operand, move.Carries move.expr (g.postfixRest start operand)
    (g.postfixRest (move.pos start) (move.expr operand))
  args : move.Carries move.exprs g.args g.args
  elements : move.Carries move.exprs g.elements g.elements

theorem CarriesAll.expr {move : Relocation} {g : Grammar} (h : move.CarriesAll g) :
    move.Carries move.expr g.expr g.expr := h.binary 1

section Types

variable {move : Relocation} {g : Grammar} (h : move.CarriesAll g)
include h

theorem carries_idents : move.Carries (List.map move.ident) (Rule.idents g) (Rule.idents g) := by
  unfold Rule.idents
  refine carries_ident.bind fun first ↦ (carries_eat _).bind fun _ ↦ Carries.ite ?_ ?_
  · exact h.idents.bind fun rest ↦ Carries.pure rfl
  · exact Carries.pure rfl

omit h in
theorem carries_unnamedField (type : Expr) :
    move.Carries move.field (Rule.unnamedField type) (Rule.unnamedField (move.expr type)) := by
  unfold Rule.unnamedField
  rw [span_expr]
  exact (carries_node _).bind fun info ↦ Carries.pure rfl

theorem carries_signature (start : Nat) :
    move.Carries move.funcType (Rule.signature g start) (Rule.signature g (move.pos start)) := by
  have hrest : ∀ params results, move.Carries move.funcType
      (do return ⟨← Parser.nodeFrom start, params, results⟩)
      (do return ⟨← Parser.nodeFrom (move.pos start), move.fields' params, move.fields' results⟩) :=
    fun params results ↦ (carries_nodeFrom start).bind fun info ↦ Carries.pure rfl
  unfold Rule.signature
  simp only [pure_bind]
  refine h.parameters.bind fun params ↦ (carries_isNext _).bind fun _ ↦
    carries_peek?.bind fun kind ↦ Carries.ite ?_ (Carries.ite ?_ ?_)
  · exact h.parameters.bind fun results ↦ hrest params results
  · refine h.type.bind fun type ↦ (carries_unnamedField type).bind fun field ↦ ?_
    exact hrest params [field]
  · exact hrest params []

theorem carries_parameterEntries :
    move.Carries (List.map move.entry) (Rule.parameterEntries g) (Rule.parameterEntries g) := by
  have hrest : ∀ first type, move.Carries (List.map move.entry)
      (do
        if ← Parser.eat .comma then return (first, type) :: (← g.parameterEntries)
        else return [(first, type)])
      (do
        if ← Parser.eat .comma then
          return (move.expr first, move.expr? type) :: (← g.parameterEntries)
        else return [(move.expr first, move.expr? type)]) := by
    intro first type
    refine (carries_eat _).bind fun _ ↦ Carries.ite ?_ (Carries.pure rfl)
    exact h.parameterEntries.bind fun rest ↦ Carries.pure rfl
  unfold Rule.parameterEntries
  simp only [pure_bind, map_eq_pure_bind, bind_assoc]
  refine (carries_isNext _).bind fun _ ↦ Carries.ite (Carries.pure rfl) ?_
  refine h.type.bind fun first ↦ (carries_isNext _).bind fun _ ↦ (carries_isNext _).bind fun _ ↦
    Carries.ite ?_ ?_
  · exact hrest first none
  · exact h.type.bind fun type ↦ hrest first (some type)

omit h in
theorem carries_namedFields (pending : List Ident) (entries : List (Expr × Option Expr)) :
    move.Carries move.fields' (Rule.namedFields pending entries)
      (Rule.namedFields (pending.map move.ident) (entries.map move.entry)) := by
  induction entries generalizing pending with
  | nil =>
    unfold Rule.namedFields
    rw [List.isEmpty_map]
    exact Carries.ite (Carries.pure rfl) (carries_fail _ _)
  | cons first rest ih =>
    obtain ⟨name, type⟩ := first
    cases name with
    | ident name =>
      cases type with
      | none =>
        have hpending := ih (pending ++ [name])
        rw [List.map_append] at hpending
        exact hpending
      | some type =>
        have hstart : ((((pending ++ [name]).map move.ident).head?.map (·.pos)).getD
            (move.ident name).pos) =
              move.pos (((pending ++ [name]).head?.map (·.pos)).getD name.pos) := by
          cases pending <;> rfl
        have hnames : pending.map move.ident ++ [move.ident name] =
            (pending ++ [name]).map move.ident := by
          rw [List.map_append, List.map_singleton]
        rw [List.map_cons]
        change move.Carries move.fields'
          (Rule.namedFields pending ((.ident name, some type) :: rest))
          (Rule.namedFields (pending.map move.ident)
            ((.ident (move.ident name), some (move.expr type)) :: rest.map move.entry))
        unfold Rule.namedFields
        dsimp only
        rw [hnames, hstart, span_expr]
        generalize ((pending ++ [name]).head?.map (·.pos)).getD name.pos = start
        exact (carries_node ⟨start, type.span.stop⟩).bind fun info ↦ (ih []).bind fun fields ↦
          Carries.pure rfl
    | _ => exact carries_fail _ _

theorem carries_parameters :
    move.Carries move.fields' (Rule.parameters g) (Rule.parameters g) := by
  unfold Rule.parameters
  refine (carries_expect _).bind fun _ ↦ h.parameterEntries.bind fun entries ↦
    (carries_expect _).bind fun _ ↦ ?_
  have hall : (entries.map move.entry).all (·.2.isNone) = entries.all (·.2.isNone) := by
    rw [List.all_map]
    congr 1
    funext entry
    obtain ⟨name, _ | type⟩ := entry <;> rfl
  have hnamed := @carries_namedFields move [] entries
  rw [List.map_nil] at hnamed
  rw [hall]
  refine Carries.ite ?_ hnamed
  have hfields : move.fields' = List.map move.field := funext move.fields'_eq_map
  rw [hfields]
  have hunnamed : ∀ entry : Expr × Option Expr, move.Carries move.field
      (Rule.unnamedField entry.1) (Rule.unnamedField (move.entry entry).1) :=
    fun entry ↦ carries_unnamedField entry.1
  exact Carries.mapM (i := move.entry) (p := fun entry ↦ Rule.unnamedField entry.1)
    (q := fun entry ↦ Rule.unnamedField entry.1) hunnamed entries

/-! ### Types -/

omit h in
theorem carries_typeName : move.Carries move.expr Rule.typeName Rule.typeName := by
  unfold Rule.typeName
  refine carries_start.bind fun start ↦ carries_ident.bind fun name ↦
    (carries_isNext _).bind fun _ ↦ carries_peekSecond?.bind fun _ ↦ Carries.ite ?_ ?_
  · exact carries_bump.bind fun _ ↦ carries_ident.bind fun selected ↦
      (carries_nodeFrom start).bind fun info ↦ Carries.pure rfl
  · exact Carries.pure rfl

theorem carries_arrayType : move.Carries move.expr (Rule.arrayType g) (Rule.arrayType g) := by
  have hrest : ∀ start length, move.Carries move.expr
      (do
        let _ ← Parser.expect .rbracket
        let element ← g.type
        return .arrayType (← Parser.nodeFrom start) length element)
      (do
        let _ ← Parser.expect .rbracket
        let element ← g.type
        return .arrayType (← Parser.nodeFrom (move.pos start)) (move.expr? length) element) :=
    fun start length ↦ (carries_expect _).bind fun _ ↦ h.type.bind fun element ↦
      (carries_nodeFrom start).bind fun info ↦ Carries.pure rfl
  unfold Rule.arrayType
  simp only [pure_bind, map_eq_pure_bind, bind_assoc]
  refine carries_start.bind fun start ↦ (carries_expect _).bind fun _ ↦
    (carries_isNext _).bind fun _ ↦ Carries.ite ?_ ?_
  · exact hrest start none
  · exact h.expr.nested.bind fun length ↦ hrest start (some length)

theorem carries_mapType : move.Carries move.expr (Rule.mapType g) (Rule.mapType g) := by
  unfold Rule.mapType
  exact carries_start.bind fun start ↦
    (carries_expect _).bind fun _ ↦ (carries_expect _).bind fun _ ↦
    h.type.bind fun key ↦ (carries_expect _).bind fun _ ↦ h.type.bind fun value ↦
    (carries_nodeFrom start).bind fun info ↦ Carries.pure rfl

omit h in
theorem carries_isEmbedded : move.Carries id Rule.isEmbedded Rule.isEmbedded := by
  unfold Rule.isEmbedded
  refine (carries_isNext _).bind fun _ ↦ Carries.ite (Carries.pure rfl) ?_
  refine (carries_isNext _).bind fun _ ↦ Carries.ite ?_ (Carries.pure rfl)
  exact carries_peekSecond?.bind fun _ ↦ Carries.pure rfl

theorem carries_structFields :
    move.Carries move.fields' (Rule.structFields g) (Rule.structFields g) := by
  have hrest : ∀ start names, move.Carries move.fields'
      (do
        let type ← g.type
        let _ ← Parser.eat .string
        let field := ⟨← Parser.nodeFrom start, names, type⟩
        Parser.separator
        return field :: (← g.structFields))
      (do
        let type ← g.type
        let _ ← Parser.eat .string
        let field := ⟨← Parser.nodeFrom (move.pos start), names.map move.ident, type⟩
        Parser.separator
        return field :: (← g.structFields)) :=
    fun start names ↦ h.type.bind fun type ↦ (carries_eat _).bind fun _ ↦
      (carries_nodeFrom start).bind fun info ↦ carries_separator.bind fun _ ↦
      h.structFields.bind fun rest ↦ Carries.pure rfl
  unfold Rule.structFields
  simp only [pure_bind]
  refine (carries_isNext _).bind fun _ ↦ carries_isDone.bind fun _ ↦
    Carries.ite (Carries.pure rfl) ?_
  refine carries_start.bind fun start ↦ carries_isEmbedded.bind fun _ ↦ Carries.ite ?_ ?_
  · exact hrest start []
  · exact h.idents.bind fun names ↦ hrest start names

theorem carries_structType : move.Carries move.expr (Rule.structType g) (Rule.structType g) := by
  unfold Rule.structType
  exact carries_start.bind fun start ↦
    (carries_expect _).bind fun _ ↦ (carries_expect _).bind fun _ ↦
    h.structFields.bind fun fields ↦ (carries_expect _).bind fun _ ↦
    (carries_nodeFrom start).bind fun info ↦ Carries.pure rfl

theorem carries_interfaceElements :
    move.Carries move.fields' (Rule.interfaceElements g) (Rule.interfaceElements g) := by
  have hrest : ∀ start names type, move.Carries move.fields'
      (do
        let element := ⟨← Parser.nodeFrom start, names, type⟩
        Parser.separator
        return element :: (← g.interfaceElements))
      (do
        let element := ⟨← Parser.nodeFrom (move.pos start), names.map move.ident, move.expr type⟩
        Parser.separator
        return element :: (← g.interfaceElements)) :=
    fun start names type ↦ (carries_nodeFrom start).bind fun info ↦ carries_separator.bind fun _ ↦
      h.interfaceElements.bind fun rest ↦ Carries.pure rfl
  unfold Rule.interfaceElements
  simp only [pure_bind]
  refine (carries_isNext _).bind fun _ ↦ carries_isDone.bind fun _ ↦
    Carries.ite (Carries.pure rfl) ?_
  refine carries_start.bind fun start ↦ (carries_isNext _).bind fun _ ↦
    carries_peekSecond?.bind fun _ ↦ Carries.ite ?_ ?_
  · exact carries_ident.bind fun name ↦ carries_start.bind fun typeStart ↦
      (h.signature typeStart).bind fun type ↦ hrest start [name] (.funcType type)
  · exact carries_typeName.bind fun type ↦ hrest start [] type

theorem carries_interfaceType :
    move.Carries move.expr (Rule.interfaceType g) (Rule.interfaceType g) := by
  unfold Rule.interfaceType
  exact carries_start.bind fun start ↦
    (carries_expect _).bind fun _ ↦ (carries_expect _).bind fun _ ↦
    h.interfaceElements.bind fun elements ↦ (carries_expect _).bind fun _ ↦
    (carries_nodeFrom start).bind fun info ↦ Carries.pure rfl

theorem carries_type : move.Carries move.expr (Rule.type g) (Rule.type g) := by
  unfold Rule.type
  refine carries_start.bind fun start ↦ carries_peek?.bind fun kind ↦ ?_
  dsimp only [id]
  split
  · exact carries_typeName
  · exact carries_bump.bind fun _ ↦ h.type.bind fun operand ↦
      (carries_nodeFrom start).bind fun info ↦ Carries.pure rfl
  · exact carries_bump.bind fun _ ↦ h.type.bind fun inner ↦ (carries_expect _).bind fun _ ↦
      (carries_nodeFrom start).bind fun info ↦ Carries.pure rfl
  · exact carries_arrayType h
  · exact carries_mapType h
  · exact carries_structType h
  · exact carries_interfaceType h
  · exact carries_bump.bind fun _ ↦ (h.signature start).bind fun type ↦ Carries.pure rfl
  · exact carries_fail _ _

end Types

/-! ### Expressions -/

section Exprs

variable {move : Relocation} {g : Grammar}

theorem carries_exprs (h : move.CarriesAll g) :
    move.Carries move.exprs (Rule.exprs g) (Rule.exprs g) := by
  unfold Rule.exprs
  refine h.expr.bind fun first ↦ (carries_eat _).bind fun _ ↦ Carries.ite ?_ (Carries.pure rfl)
  exact h.exprs.bind fun rest ↦ Carries.pure rfl

theorem carries_binary (h : move.CarriesAll g) (minimum : Nat) :
    move.Carries move.expr (Rule.binary g minimum) (Rule.binary g minimum) := by
  unfold Rule.binary
  exact h.unary.bind fun left ↦ h.binaryRest minimum left

theorem carries_binaryRest (h : move.CarriesAll g) (minimum : Nat) (left : Expr) :
    move.Carries move.expr (Rule.binaryRest g minimum left)
      (Rule.binaryRest g minimum (move.expr left)) := by
  unfold Rule.binaryRest
  refine carries_peek?.bind fun kind ↦ ?_
  dsimp only [id]
  split
  · exact Carries.pure rfl
  · refine Carries.ite (Carries.pure rfl) ?_
    refine carries_bump.bind fun _ ↦ (h.binary _).bind fun right ↦ ?_
    rw [span_expr, span_expr, cover_span]
    exact (carries_node _).bind fun info ↦ h.binaryRest minimum (.binary info _ left right)

theorem carries_unary (h : move.CarriesAll g) :
    move.Carries move.expr (Rule.unary g) (Rule.unary g) := by
  unfold Rule.unary
  refine carries_start.bind fun start ↦ carries_peek?.bind fun kind ↦ ?_
  dsimp only [id]
  split
  · exact carries_bump.bind fun _ ↦ h.unary.bind fun operand ↦
      (carries_nodeFrom start).bind fun info ↦ Carries.pure rfl
  · split
    · exact carries_bump.bind fun _ ↦ h.unary.bind fun operand ↦
        (carries_nodeFrom start).bind fun info ↦ Carries.pure rfl
    · exact h.primary

/-! ### Operands -/

theorem carries_literal (kind : LiteralKind) :
    move.Carries move.expr (Rule.literal kind) (Rule.literal kind) := by
  unfold Rule.literal
  exact carries_bump.bind fun token ↦ (carries_literalOf token kind).bind fun literal ↦
    Carries.pure rfl

theorem carries_body (h : move.CarriesAll g) :
    move.Carries move.block (Rule.body g) (Rule.body g) := h.block.withLevel _

theorem carries_operand (h : move.CarriesAll g) :
    move.Carries move.expr (Rule.operand g) (Rule.operand g) := by
  unfold Rule.operand
  refine carries_start.bind fun start ↦ carries_peek?.bind fun kind ↦ ?_
  dsimp only [id]
  split
  · exact carries_ident.bind fun name ↦ Carries.pure rfl
  · exact carries_literal _
  · exact carries_literal _
  · exact carries_literal _
  · exact carries_literal _
  · exact carries_bump.bind fun _ ↦ h.expr.nested.bind fun inner ↦ (carries_expect _).bind fun _ ↦
      (carries_nodeFrom start).bind fun info ↦ Carries.pure rfl
  · refine carries_bump.bind fun _ ↦ (h.signature start).bind fun type ↦
      (carries_isNext _).bind fun _ ↦ Carries.ite ?_ (Carries.pure rfl)
    exact (carries_body h).bind fun body ↦ (carries_nodeFrom start).bind fun info ↦ Carries.pure rfl
  · exact h.type
  · exact h.type
  · exact h.type
  · exact h.type
  · exact carries_fail _ _

theorem carries_primary (h : move.CarriesAll g) :
    move.Carries move.expr (Rule.primary g) (Rule.primary g) := by
  unfold Rule.primary
  exact carries_start.bind fun start ↦ (carries_operand h).bind fun operand ↦
    h.postfixRest start operand

/-! ### What follows an operand -/

theorem carries_args (h : move.CarriesAll g) :
    move.Carries move.exprs (Rule.args g) (Rule.args g) := by
  unfold Rule.args
  refine (carries_isNext _).bind fun _ ↦ Carries.ite (Carries.pure rfl) ?_
  refine h.expr.bind fun first ↦ (carries_eat _).bind fun _ ↦ Carries.ite ?_ (Carries.pure rfl)
  exact h.args.bind fun rest ↦ Carries.pure rfl

theorem carries_elements (h : move.CarriesAll g) :
    move.Carries move.exprs (Rule.elements g) (Rule.elements g) := by
  have hrest : ∀ element, move.Carries move.exprs
      (do
        if ← Parser.eat .comma then return element :: (← g.elements)
        else return [element])
      (do
        if ← Parser.eat .comma then return move.expr element :: (← g.elements)
        else return [move.expr element]) := by
    intro element
    refine (carries_eat _).bind fun _ ↦ Carries.ite ?_ (Carries.pure rfl)
    exact h.elements.bind fun rest ↦ Carries.pure rfl
  unfold Rule.elements
  simp only [pure_bind]
  refine (carries_isNext _).bind fun _ ↦ Carries.ite (Carries.pure rfl) ?_
  refine h.expr.bind fun key ↦ (carries_eat _).bind fun _ ↦ Carries.ite ?_ (hrest key)
  refine h.expr.bind fun value ↦ ?_
  rw [span_expr, span_expr, cover_span]
  exact (carries_node _).bind fun info ↦ hrest (.keyValue info key value)

theorem carries_composite (h : move.CarriesAll g) (start : Nat) (type : Expr) :
    move.Carries move.expr (Rule.composite g start type)
      (Rule.composite g (move.pos start) (move.expr type)) := by
  unfold Rule.composite
  exact (carries_expect _).bind fun _ ↦ (h.elements.withLevel _).bind fun elements ↦
    (carries_expect _).bind fun _ ↦ (carries_nodeFrom start).bind fun info ↦ Carries.pure rfl

theorem carries_afterDot (h : move.CarriesAll g) (start : Nat) (operand : Expr) :
    move.Carries move.expr (Rule.afterDot g start operand)
      (Rule.afterDot g (move.pos start) (move.expr operand)) := by
  have hrest : ∀ type, move.Carries move.expr
      (do
        let _ ← Parser.expect .rparen
        return .typeAssert (← Parser.nodeFrom start) operand type)
      (do
        let _ ← Parser.expect .rparen
        return .typeAssert (← Parser.nodeFrom (move.pos start)) (move.expr operand)
          (move.expr? type)) :=
    fun type ↦ (carries_expect _).bind fun _ ↦ (carries_nodeFrom start).bind fun info ↦
      Carries.pure rfl
  unfold Rule.afterDot
  simp only [pure_bind, map_eq_pure_bind, bind_assoc]
  refine (carries_eat _).bind fun _ ↦ Carries.ite ?_ ?_
  · refine (carries_eat _).bind fun _ ↦ Carries.ite (hrest none) ?_
    exact h.type.bind fun type ↦ hrest (some type)
  · exact carries_ident.bind fun selected ↦ (carries_nodeFrom start).bind fun info ↦
      Carries.pure rfl

theorem carries_postfixRest (h : move.CarriesAll g) (start : Nat) (operand : Expr) :
    move.Carries move.expr (Rule.postfixRest g start operand)
      (Rule.postfixRest g (move.pos start) (move.expr operand)) := by
  unfold Rule.postfixRest
  refine carries_peek?.bind fun kind ↦ ?_
  dsimp only [id]
  split
  · exact carries_bump.bind fun _ ↦ (carries_afterDot h start operand).bind fun operand ↦
      h.postfixRest start operand
  · exact carries_bump.bind fun _ ↦ h.expr.nested.bind fun key ↦ (carries_expect _).bind fun _ ↦
      (carries_nodeFrom start).bind fun info ↦ h.postfixRest start (.index info operand key)
  · exact carries_bump.bind fun _ ↦ h.args.nested.bind fun args ↦ (carries_expect _).bind fun _ ↦
      (carries_nodeFrom start).bind fun info ↦ h.postfixRest start (.call info operand args)
  · rw [isLiteralType_expr]
    refine carries_get.bind fun state ↦ Carries.ite ?_ (Carries.pure rfl)
    exact (carries_composite h start operand).bind fun operand ↦ h.postfixRest start operand
  · exact Carries.pure rfl

end Exprs

end Relocation

end PackageAtlas
