import PackageAtlas.Proofs.Termination.Progress

/-!
The order in which rules call each other before they read. Every goal has a rank, and a rule calls
goals of lower rank only until it has read a token. So where a bounded number of tokens is left, a
rule does the same over two grammars that agree on goals of lower rank there, and on all goals where
fewer are left (`Goal.Below`).
-/

set_option autoImplicit false
set_option relaxedAutoImplicit false

namespace PackageAtlas

namespace Goal

/-- Whether a goal reads at least one token. The rest of a list may be empty. -/
def reads : Goal → Bool
  | genDecl | spec _ _ | funcDecl | signature _ | parameters | idents | type => true
  | block | stmt | simpleStmt | condStmt | exprs | binary _ | unary | primary => true
  | decls | importDecls | specs _ | parameterEntries | structFields | interfaceElements => false
  | stmts | clauses | binaryRest _ _ | postfixRest _ _ | args | elements => false

/-- How deep calls may nest below a goal before a token is read. -/
def rank : Goal → Nat
  | genDecl | funcDecl | parameters | idents | type | interfaceElements => 0
  | block | condStmt | clauses | binaryRest _ _ | postfixRest _ _ => 0
  | decls | importDecls | spec _ _ | signature _ | parameterEntries | structFields | primary => 1
  | specs _ | unary => 2
  | binary _ => 3
  | exprs | args | elements => 4
  | simpleStmt => 5
  | stmt => 6
  | stmts => 7

theorem rank_le (goal : Goal) : goal.rank ≤ 7 := by
  unfold rank
  split <;> decide

end Goal

/-- The grammars agree on all goals where fewer than so many tokens are left. -/
def Grammar.Agree (input : ParseInput) (bound : Nat) (g g' : Grammar) : Prop :=
  ∀ goal, Parser.Agrees input bound goal.reads (g goal) (g' goal)

/-- The grammars agree on all calls below those of a goal where so many tokens are left: on all
goals where fewer are, and on goals of lower rank. -/
structure Goal.Below (input : ParseInput) (bound : Nat) (goal : Goal) (g g' : Grammar) : Prop where
  fewer : g.Agree input bound g'
  lower : ∀ other : Goal, other.rank < goal.rank →
    Parser.Agrees input (bound + 1) other.reads (g other) (g' other)

variable {input : ParseInput} {bound : Nat} {g g' : Grammar}

/-- Where something was read before, it does not matter whether more is. -/
theorem Grammar.Agree.call (h : g.Agree input bound g') (goal : Goal) :
    Parser.Agrees input bound false (g goal) (g' goal) := (h goal).weaken

namespace Rule

open PackageAtlas.Parser

theorem agrees_idents (h : g.Agree input bound g') :
    Agrees input (bound + 1) true (idents g) (idents g') :=
  agrees_ident.past fun _ ↦ (agrees_eat _).bind fun _ ↦
    .ite ((h.call .idents).bind fun _ ↦ .pure _) (.pure _)

/-! ### Signatures -/

theorem keeps_unnamedField (type : Expr) : KeepsTokens input (unnamedField type) :=
  (keeps_node _).bind fun _ ↦ .pure _

theorem agrees_signature (start : Nat) (h : Goal.Below input bound (.signature start) g g') :
    Agrees input (bound + 1) true (signature g start) (signature g' start) := by
  unfold signature
  simp only [pure_bind]
  refine (h.lower .parameters Nat.one_pos).past fun _ ↦ .keeping (keeps_isNext _) fun _ ↦
    .keeping keeps_peek? fun _ ↦ ?_
  refine .ite ((h.fewer.call .parameters).bind fun _ ↦ ?_) (.ite
    ((h.fewer.call .type).bind fun type ↦ .keeping (keeps_unnamedField type) fun _ ↦ ?_) ?_)
  all_goals exact .keeping (keeps_nodeFrom _) fun _ ↦ .pure _

theorem agrees_parameterEntries (h : Goal.Below input bound .parameterEntries g g') :
    Agrees input (bound + 1) false (parameterEntries g) (parameterEntries g') := by
  unfold parameterEntries
  simp only [pure_bind, map_eq_pure_bind, bind_assoc]
  refine .keeping (keeps_isNext _) fun _ ↦ .ite (.pure _) ?_
  refine (h.lower .type Nat.one_pos).past fun _ ↦ .keeping (keeps_isNext _) fun _ ↦
    .keeping (keeps_isNext _) fun _ ↦ .ite ?_ ((h.fewer.call .type).bind fun _ ↦ ?_)
  all_goals
    exact (agrees_eat _).bind fun _ ↦
      .ite ((h.fewer.call .parameterEntries).bind fun _ ↦ .pure _) (.pure _)

theorem agrees_namedFields (pending : List Ident) (entries : List (Expr × Option Expr)) :
    Agrees input bound false (namedFields pending entries) (namedFields pending entries) := by
  induction entries generalizing pending with
  | nil => exact .ite (.pure _) (agrees_fail nofun)
  | cons entry rest ih =>
    obtain ⟨first, type⟩ := entry
    cases first with
    | ident name =>
      cases type with
      | none => exact ih (pending ++ [name])
      | some type => exact .keeping (keeps_node _) fun _ ↦ (ih []).bind fun _ ↦ .pure _
    | _ => exact agrees_fail nofun

theorem agrees_parameters (h : g.Agree input bound g') :
    Agrees input (bound + 1) true (parameters g) (parameters g') := by
  refine (agrees_expect _).past fun _ ↦ (h.call .parameterEntries).bind fun entries ↦
    (agrees_expect _).weaken.bind fun _ ↦ .ite ?_ (agrees_namedFields [] entries)
  exact (KeepsTokens.mapM (fun _ ↦ keeps_unnamedField _) entries).agrees

/-! ### Types -/

theorem agrees_typeName : Agrees input bound true typeName typeName := by
  refine .keeping keeps_start fun _ ↦ agrees_ident.bind fun _ ↦ .keeping (keeps_isNext _) fun _ ↦
    .keeping keeps_peekSecond? fun _ ↦ .ite ?_ (.pure _)
  exact agrees_bump.weaken.bind fun _ ↦ agrees_ident.weaken.bind fun _ ↦
    .keeping (keeps_nodeFrom _) fun _ ↦ .pure _

theorem agrees_arrayType (h : g.Agree input bound g') :
    Agrees input (bound + 1) true (arrayType g) (arrayType g') := by
  unfold arrayType
  simp only [pure_bind, map_eq_pure_bind, bind_assoc]
  refine .keeping keeps_start fun _ ↦ (agrees_expect _).past fun _ ↦
    .keeping (keeps_isNext _) fun _ ↦ .ite ?_ ((h.call (.binary 1)).nested.bind fun _ ↦ ?_)
  all_goals exact (agrees_expect _).weaken.bind fun _ ↦ (h.call .type).bind fun _ ↦
    .keeping (keeps_nodeFrom _) fun _ ↦ .pure _

theorem agrees_mapType (h : g.Agree input bound g') :
    Agrees input (bound + 1) true (mapType g) (mapType g') :=
  .keeping keeps_start fun _ ↦ (agrees_expect _).past fun _ ↦ (agrees_expect _).weaken.bind fun _ ↦
    (h.call .type).bind fun _ ↦ (agrees_expect _).weaken.bind fun _ ↦ (h.call .type).bind fun _ ↦
      .keeping (keeps_nodeFrom _) fun _ ↦ .pure _

theorem keeps_isEmbedded : KeepsTokens input isEmbedded := by
  refine (keeps_isNext _).bind fun star ↦ ?_
  split
  · exact .pure _
  · refine (keeps_isNext _).bind fun name ↦ ?_
    split
    · exact keeps_peekSecond?.bind fun _ ↦ .pure _
    · exact .pure _

theorem agrees_structFields (h : Goal.Below input bound .structFields g g') :
    Agrees input (bound + 1) false (structFields g) (structFields g') := by
  unfold structFields
  simp only [pure_bind]
  refine .keeping (keeps_isNext _) fun _ ↦ .keeping keeps_isDone fun _ ↦ .ite (.pure _) ?_
  refine .keeping keeps_start fun _ ↦ .keeping keeps_isEmbedded fun _ ↦
    .ite ((h.lower .type Nat.one_pos).past fun _ ↦ ?_)
      ((h.lower .idents Nat.one_pos).past fun _ ↦ (h.fewer.call .type).bind fun _ ↦ ?_)
  all_goals exact (agrees_eat _).bind fun _ ↦ .keeping (keeps_nodeFrom _) fun _ ↦
    agrees_separator.bind fun _ ↦ (h.fewer.call .structFields).bind fun _ ↦ .pure _

theorem agrees_structType (h : g.Agree input bound g') :
    Agrees input (bound + 1) true (structType g) (structType g') :=
  .keeping keeps_start fun _ ↦ (agrees_expect _).past fun _ ↦ (agrees_expect _).weaken.bind fun _ ↦
    (h.call .structFields).bind fun _ ↦ (agrees_expect _).weaken.bind fun _ ↦
      .keeping (keeps_nodeFrom _) fun _ ↦ .pure _

theorem agrees_interfaceElements (h : g.Agree input bound g') :
    Agrees input (bound + 1) false (interfaceElements g) (interfaceElements g') := by
  unfold interfaceElements
  simp only [pure_bind]
  refine .keeping (keeps_isNext _) fun _ ↦ .keeping keeps_isDone fun _ ↦ .ite (.pure _) ?_
  refine .keeping keeps_start fun _ ↦ .keeping (keeps_isNext _) fun _ ↦
    .keeping keeps_peekSecond? fun _ ↦ .ite (agrees_ident.past fun _ ↦ .keeping keeps_start fun _ ↦
      (h.call (.signature _)).bind fun _ ↦ ?_) (agrees_typeName.past fun _ ↦ ?_)
  all_goals exact .keeping (keeps_nodeFrom _) fun _ ↦ agrees_separator.bind fun _ ↦
    (h.call .interfaceElements).bind fun _ ↦ .pure _

theorem agrees_interfaceType (h : g.Agree input bound g') :
    Agrees input (bound + 1) true (interfaceType g) (interfaceType g') :=
  .keeping keeps_start fun _ ↦ (agrees_expect _).past fun _ ↦ (agrees_expect _).weaken.bind fun _ ↦
    (h.call .interfaceElements).bind fun _ ↦ (agrees_expect _).weaken.bind fun _ ↦
      .keeping (keeps_nodeFrom _) fun _ ↦ .pure _

theorem agrees_type (h : g.Agree input bound g') :
    Agrees input (bound + 1) true (type g) (type g') := by
  refine .keeping keeps_start fun _ ↦ .keeping keeps_peek? fun kind ↦ ?_
  split
  · exact agrees_typeName
  · exact agrees_bump.past fun _ ↦ (h.call .type).bind fun _ ↦
      .keeping (keeps_nodeFrom _) fun _ ↦ .pure _
  · exact agrees_bump.past fun _ ↦ (h.call .type).bind fun _ ↦
      (agrees_expect _).weaken.bind fun _ ↦ .keeping (keeps_nodeFrom _) fun _ ↦ .pure _
  · exact agrees_arrayType h
  · exact agrees_mapType h
  · exact agrees_structType h
  · exact agrees_interfaceType h
  · exact agrees_bump.past fun _ ↦ (h.call (.signature _)).bind fun _ ↦ .pure _
  · exact agrees_fail nofun

/-! ### Expressions -/

theorem agrees_exprs (h : Goal.Below input bound .exprs g g') :
    Agrees input (bound + 1) true (exprs g) (exprs g') :=
  (h.lower (.binary 1) (by decide)).past fun _ ↦ (agrees_eat _).bind fun _ ↦
    .ite ((h.fewer.call .exprs).bind fun _ ↦ .pure _) (.pure _)

theorem agrees_binary (minimum : Nat) (h : Goal.Below input bound (.binary minimum) g g') :
    Agrees input (bound + 1) true (binary g minimum) (binary g' minimum) :=
  (h.lower .unary (Nat.lt_succ_self 2)).past fun _ ↦ h.fewer.call (.binaryRest minimum _)

theorem agrees_binaryRest (minimum : Nat) (left : Expr) (h : g.Agree input bound g') :
    Agrees input (bound + 1) false (binaryRest g minimum left) (binaryRest g' minimum left) := by
  refine .keeping keeps_peek? fun kind ↦ ?_
  split
  · exact .pure _
  · exact .ite (.pure _) <| agrees_bump.past fun _ ↦ (h.call (.binary _)).bind fun _ ↦
      .keeping (keeps_node _) fun _ ↦ h.call (.binaryRest minimum _)

theorem agrees_unary (h : Goal.Below input bound .unary g g') :
    Agrees input (bound + 1) true (unary g) (unary g') := by
  refine .keeping keeps_start fun _ ↦ .keeping keeps_peek? fun kind ↦ ?_
  split
  · exact agrees_bump.past fun _ ↦ (h.fewer.call .unary).bind fun _ ↦
      .keeping (keeps_nodeFrom _) fun _ ↦ .pure _
  · split
    · exact agrees_bump.past fun _ ↦ (h.fewer.call .unary).bind fun _ ↦
        .keeping (keeps_nodeFrom _) fun _ ↦ .pure _
    · exact h.lower .primary (by decide)

theorem agrees_literal (kind : LiteralKind) :
    Agrees input bound true (literal kind) (literal kind) :=
  agrees_bump.bind fun _ ↦ .keeping (keeps_literalOf _ _) fun _ ↦ .pure _

theorem agrees_body {reads : Bool} (h : Agrees input bound reads g.block g'.block) :
    Agrees input bound reads (body g) (body g') := h.withLevel _

theorem agrees_operand (h : g.Agree input bound g')
    (htype : Agrees input (bound + 1) true g.type g'.type) :
    Agrees input (bound + 1) true (operand g) (operand g') := by
  refine .keeping keeps_start fun _ ↦ .keeping keeps_peek? fun kind ↦ ?_
  split
  · exact agrees_ident.bind fun _ ↦ .pure _
  · exact agrees_literal .int
  · exact agrees_literal .float
  · exact agrees_literal .char
  · exact agrees_literal .string
  · exact agrees_bump.past fun _ ↦ (h.call (.binary 1)).nested.bind fun _ ↦
      (agrees_expect _).weaken.bind fun _ ↦ .keeping (keeps_nodeFrom _) fun _ ↦ .pure _
  · refine agrees_bump.past fun _ ↦ (h.call (.signature _)).bind fun _ ↦
      .keeping (keeps_isNext _) fun _ ↦ .ite ?_ (.pure _)
    exact (agrees_body (h.call .block)).bind fun _ ↦ .keeping (keeps_nodeFrom _) fun _ ↦ .pure _
  · exact htype
  · exact htype
  · exact htype
  · exact htype
  · exact agrees_fail nofun

theorem agrees_primary (h : Goal.Below input bound .primary g g') :
    Agrees input (bound + 1) true (primary g) (primary g') :=
  .keeping keeps_start fun start ↦ (agrees_operand h.fewer (h.lower .type Nat.one_pos)).past
    fun operand ↦ h.fewer.call (.postfixRest start operand)

/-! ### What may follow an operand -/

theorem agrees_args (h : Goal.Below input bound .args g g') :
    Agrees input (bound + 1) false (args g) (args g') :=
  .keeping (keeps_isNext _) fun _ ↦ .ite (.pure _) <|
    (h.lower (.binary 1) (by decide)).past fun _ ↦ (agrees_eat _).bind fun _ ↦
      .ite ((h.fewer.call .args).bind fun _ ↦ .pure _) (.pure _)

theorem agrees_elements (h : Goal.Below input bound .elements g g') :
    Agrees input (bound + 1) false (elements g) (elements g') := by
  unfold elements
  simp only [pure_bind]
  refine .keeping (keeps_isNext _) fun _ ↦ .ite (.pure _) <|
    (h.lower (.binary 1) (by decide)).past fun _ ↦ (agrees_eat _).bind fun _ ↦
      .ite ((h.fewer.call (.binary 1)).bind fun _ ↦ .keeping (keeps_node _) fun _ ↦ ?_) ?_
  all_goals
    exact (agrees_eat _).bind fun _ ↦
      .ite ((h.fewer.call .elements).bind fun _ ↦ .pure _) (.pure _)

theorem agrees_composite (start : Nat) (type : Expr) (h : g.Agree input bound g') :
    Agrees input (bound + 1) true (composite g start type) (composite g' start type) :=
  (agrees_expect _).past fun _ ↦ ((h.call .elements).withLevel _).bind fun _ ↦
    (agrees_expect _).weaken.bind fun _ ↦ .keeping (keeps_nodeFrom _) fun _ ↦ .pure _

theorem agrees_afterDot (start : Nat) (operand : Expr) (h : g.Agree input bound g') :
    Agrees input (bound + 1) true (afterDot g start operand) (afterDot g' start operand) := by
  unfold afterDot
  simp only [pure_bind, map_eq_pure_bind, bind_assoc]
  refine .eat ((agrees_eat _).bind fun _ ↦ .ite ?_ ((h.call .type).bind fun _ ↦ ?_))
    (agrees_ident.bind fun _ ↦ ?_)
  · exact (agrees_expect _).weaken.bind fun _ ↦ .keeping (keeps_nodeFrom _) fun _ ↦ .pure _
  · exact (agrees_expect _).weaken.bind fun _ ↦ .keeping (keeps_nodeFrom _) fun _ ↦ .pure _
  · exact .keeping (keeps_nodeFrom _) fun _ ↦ .pure _

theorem agrees_postfixRest (start : Nat) (operand : Expr) (h : g.Agree input bound g') :
    Agrees input (bound + 1) false (postfixRest g start operand)
      (postfixRest g' start operand) := by
  refine .keeping keeps_peek? fun kind ↦ ?_
  split
  · have hafterDot := (agrees_afterDot start operand h).of_le (Nat.le_succ bound)
    exact agrees_bump.past fun _ ↦ hafterDot.weaken.bind fun _ ↦ h.call (.postfixRest start _)
  · exact agrees_bump.past fun _ ↦ (h.call (.binary 1)).nested.bind fun _ ↦
      (agrees_expect _).weaken.bind fun _ ↦ .keeping (keeps_nodeFrom _) fun _ ↦
        h.call (.postfixRest start _)
  · exact agrees_bump.past fun _ ↦ (h.call .args).nested.bind fun _ ↦
      (agrees_expect _).weaken.bind fun _ ↦ .keeping (keeps_nodeFrom _) fun _ ↦
        h.call (.postfixRest start _)
  · exact .keeping keeps_get fun _ ↦ .ite ((agrees_composite start operand h).past fun _ ↦
      h.call (.postfixRest start _)) (.pure _)
  · exact .pure _

/-! ### Statements -/

theorem agrees_block (h : g.Agree input bound g') :
    Agrees input (bound + 1) true (block g) (block g') :=
  .keeping keeps_start fun _ ↦ (agrees_expect _).past fun _ ↦ (h.call .stmts).bind fun _ ↦
    (agrees_expect _).weaken.bind fun _ ↦ .keeping (keeps_nodeFrom _) fun _ ↦ .pure _

theorem agrees_stmts (h : Goal.Below input bound .stmts g g') :
    Agrees input (bound + 1) false (stmts g) (stmts g') := by
  refine .keeping keeps_peek? fun kind ↦ ?_
  split
  on_goal 5 =>
    exact .eat (h.fewer.call .stmts) <| (h.lower .stmt (by decide)).past fun _ ↦
      agrees_separator.bind fun _ ↦ (h.fewer.call .stmts).bind fun _ ↦ .pure _
  all_goals exact .pure _

theorem agrees_simpleStmt (h : Goal.Below input bound .simpleStmt g g') :
    Agrees input (bound + 1) true (simpleStmt g) (simpleStmt g') := by
  refine .keeping keeps_start fun _ ↦ (h.lower .exprs (by decide)).past fun lhs ↦
    .keeping keeps_peek? fun kind ↦ ?_
  split
  · exact agrees_bump.weaken.bind fun _ ↦ (h.fewer.call .exprs).bind fun _ ↦
      .ite (.failing nofun) (.keeping (keeps_nodeFrom _) fun _ ↦ .pure _)
  · split
    · refine .keeping keeps_peek? fun kind ↦ ?_
      split
      · exact agrees_bump.weaken.bind fun _ ↦ .keeping (keeps_nodeFrom _) fun _ ↦ .pure _
      · exact agrees_bump.weaken.bind fun _ ↦ .keeping (keeps_nodeFrom _) fun _ ↦ .pure _
      · exact .keeping (keeps_nodeFrom _) fun _ ↦ .pure _
    · exact agrees_fail nofun

/-! ### Headers -/

theorem agrees_condHeader {reads : Bool}
    (hfirst : Agrees input bound reads g.simpleStmt g'.simpleStmt)
    (hexpr : Agrees input bound false g.expr g'.expr) :
    Agrees input bound reads (condHeader g) (condHeader g') := by
  refine hfirst.bind fun first ↦ (agrees_eat _).bind fun _ ↦ .ite (hexpr.bind fun _ ↦ .pure _) ?_
  split
  · exact .pure _
  · exact agrees_fail nofun

theorem agrees_condStmt (h : g.Agree input bound g') :
    Agrees input (bound + 1) true (condStmt g) (condStmt g') := by
  unfold condStmt
  simp only [pure_bind, map_eq_pure_bind, bind_assoc]
  have hheader := agrees_condHeader (h.call .simpleStmt) (h.call (.binary 1))
  refine .keeping keeps_start fun _ ↦ (agrees_expect _).past fun _ ↦
    (hheader.withLevel _).bind fun header ↦ (h.call .block).bind fun _ ↦
      (agrees_eat _).bind fun _ ↦ .ite (.keeping keeps_peek? fun kind ↦ ?_) ?_
  · split
    · exact (h.call .condStmt).bind fun _ ↦ .keeping (keeps_nodeFrom _) fun _ ↦ .pure _
    · exact (h.call .block).bind fun _ ↦ .keeping (keeps_nodeFrom _) fun _ ↦ .pure _
    · exact .failing nofun
  · exact .keeping (keeps_nodeFrom _) fun _ ↦ .pure _

theorem agrees_loopHeader (h : g.Agree input bound g') :
    Agrees input bound false (loopHeader g) (loopHeader g') := by
  -- from the first terminator on, with any initial statement
  have hrest (init : Option Stmt) : Agrees input bound false
      (do
        let _ ← expect .semicolon
        let test ← if ← isNext .semicolon then pure none else some <$> g.expr
        let _ ← expect .semicolon
        let post ← if ← isNext .lbrace then pure none else some <$> g.simpleStmt
        return (init, test, post))
      (do
        let _ ← expect .semicolon
        let test ← if ← isNext .semicolon then pure none else some <$> g'.expr
        let _ ← expect .semicolon
        let post ← if ← isNext .lbrace then pure none else some <$> g'.simpleStmt
        return (init, test, post)) := by
    simp only [pure_bind, map_eq_pure_bind, bind_assoc]
    refine (agrees_expect _).weaken.bind fun _ ↦ .keeping (keeps_isNext _) fun _ ↦
      .ite ?_ ((h.call (.binary 1)).bind fun _ ↦ ?_)
    all_goals
      exact (agrees_expect _).weaken.bind fun _ ↦ .keeping (keeps_isNext _) fun _ ↦
        .ite (.pure _) ((h.call .simpleStmt).bind fun _ ↦ .pure _)
  unfold loopHeader
  simp only [pure_bind, map_eq_pure_bind, bind_assoc] at hrest ⊢
  refine .keeping (keeps_isNext _) fun _ ↦ .ite (.pure _) <| .keeping (keeps_isNext _) fun _ ↦
    .ite (.keeping (keeps_isNext _) fun _ ↦ .ite (.failing nofun) (hrest none)) ?_
  refine (h.call .simpleStmt).bind fun init ↦ .keeping (keeps_isNext _) fun _ ↦
    .ite ?_ (hrest (some init))
  cases init with
  | expr info test => exact .pure _
  | _ => exact .failing nofun

theorem agrees_loopStmt (h : g.Agree input bound g') :
    Agrees input (bound + 1) true (loopStmt g) (loopStmt g') :=
  .keeping keeps_start fun _ ↦ (agrees_expect _).past fun _ ↦
    ((agrees_loopHeader h).withLevel _).bind fun _ ↦ (h.call .block).bind fun _ ↦
      .keeping (keeps_nodeFrom _) fun _ ↦ .pure _

theorem agrees_switchHeader (h : g.Agree input bound g') :
    Agrees input bound false (switchHeader g) (switchHeader g') := by
  unfold switchHeader
  simp only [pure_bind, map_eq_pure_bind, bind_assoc]
  refine .keeping (keeps_isNext _) fun _ ↦ .ite (.pure _) <| .keeping (keeps_isNext _) fun _ ↦
    .ite ?_ ((h.call .simpleStmt).bind fun _ ↦ ?_)
  all_goals
    exact (agrees_eat _).bind fun _ ↦ .ite (.keeping (keeps_isNext _) fun _ ↦
      .ite (.pure _) ((h.call .simpleStmt).bind fun _ ↦ .pure _)) (.pure _)

theorem agrees_switchOf (span : Span) (init tag : Option Stmt) (clauses : List CaseClause) :
    Agrees input bound false (switchOf span init tag clauses)
      (switchOf span init tag clauses) := by
  have hnode (result : NodeInfo → Stmt) : Agrees input bound false
      (do return result (← node span)) (do return result (← node span)) :=
    .keeping (keeps_node span) fun _ ↦ .pure _
  unfold switchOf
  split
  · exact hnode (.switch · init none clauses)
  · exact .ite (hnode (.typeSwitch · init none _ clauses)) (hnode (.switch · init (some _) clauses))
  · exact .ite (hnode (.typeSwitch · init (some _) _ clauses)) (agrees_fail nofun)
  · exact agrees_fail nofun

theorem agrees_switchStmt (h : g.Agree input bound g') :
    Agrees input (bound + 1) true (switchStmt g) (switchStmt g') :=
  .keeping keeps_start fun _ ↦ (agrees_expect _).past fun _ ↦
    ((agrees_switchHeader h).withLevel _).bind fun _ ↦ (agrees_expect _).weaken.bind fun _ ↦
      (h.call .clauses).bind fun _ ↦ (agrees_expect _).weaken.bind fun _ ↦
        .keeping keeps_read fun _ ↦ .keeping keeps_get fun _ ↦ agrees_switchOf _ _ _ _

/-! ### Arms and other statements -/

theorem agrees_clause (h : g.Agree input bound g') :
    Agrees input (bound + 1) true (clause g) (clause g') := by
  unfold clause
  simp only [pure_bind]
  refine .keeping keeps_start fun _ ↦ .eat ?_ <| (agrees_expect _).past fun _ ↦
    (h.call .exprs).bind fun _ ↦ ?_
  all_goals exact (agrees_expect _).weaken.bind fun _ ↦ (h.call .stmts).bind fun _ ↦
    .keeping (keeps_nodeFrom _) fun _ ↦ .pure _

theorem agrees_clauses (h : g.Agree input bound g') :
    Agrees input (bound + 1) false (clauses g) (clauses g') := by
  refine .keeping keeps_peek? fun kind ↦ ?_
  split
  on_goal 3 => exact .pure _
  all_goals exact (agrees_clause h).past fun _ ↦ (h.call .clauses).bind fun _ ↦ .pure _

theorem agrees_returnStmt (h : g.Agree input bound g') :
    Agrees input (bound + 1) true (returnStmt g) (returnStmt g') := by
  unfold returnStmt
  simp only [pure_bind]
  refine .keeping keeps_start fun _ ↦ agrees_bump.past fun _ ↦ .keeping (keeps_isNext _) fun _ ↦
    .keeping (keeps_isNext _) fun _ ↦ .ite ?_ ((h.call .exprs).bind fun _ ↦ ?_)
  all_goals exact .keeping (keeps_nodeFrom _) fun _ ↦ .pure _

theorem agrees_branchStmt (isBreak : Bool) :
    Agrees input bound true (branchStmt isBreak) (branchStmt isBreak) :=
  .keeping keeps_start fun _ ↦ agrees_bump.bind fun _ ↦
    .keeping (keeps_nodeFrom _) fun _ ↦ .pure _

theorem agrees_deferredStmt (isGo : Bool) (h : g.Agree input bound g') :
    Agrees input (bound + 1) true (deferredStmt g isGo) (deferredStmt g' isGo) := by
  refine .keeping keeps_start fun _ ↦ agrees_bump.past fun _ ↦
    (h.call (.binary 1)).bind fun call ↦ ?_
  split
  · exact .keeping (keeps_nodeFrom _) fun _ ↦ .pure _
  · exact agrees_fail nofun

theorem agrees_declStmt (h : Agrees input bound true g.genDecl g'.genDecl) :
    Agrees input bound true (declStmt g) (declStmt g') :=
  h.bind fun _ ↦ .keeping (keeps_node _) fun _ ↦ .pure _

theorem agrees_stmt (h : Goal.Below input bound .stmt g g') :
    Agrees input (bound + 1) true (stmt g) (stmt g') := by
  have hdecl := agrees_declStmt (h.lower .genDecl (by decide))
  refine .keeping keeps_peek? fun kind ↦ ?_
  split
  · exact hdecl
  · exact hdecl
  · exact hdecl
  · exact agrees_returnStmt h.fewer
  · exact agrees_branchStmt true
  · exact agrees_branchStmt false
  · exact agrees_branchStmt false
  · exact .map (h.lower .block (by decide))
  · exact h.lower .condStmt (by decide)
  · exact agrees_loopStmt h.fewer
  · exact agrees_switchStmt h.fewer
  · exact agrees_deferredStmt true h.fewer
  · exact agrees_deferredStmt false h.fewer
  · exact h.lower .simpleStmt (by decide)

/-! ### Declarations -/

theorem agrees_importSpec (docOffset : Nat) :
    Agrees input bound true (importSpec docOffset) (importSpec docOffset) := by
  have hpath (start : Nat) (name : Option Ident) : Agrees input bound true
      (do
        let path ← literalOf (← expectAs .string .importPath) .string
        return Spec.imports ⟨← nodeFrom start, name, path, ← docBefore docOffset⟩)
      (do
        let path ← literalOf (← expectAs .string .importPath) .string
        return Spec.imports ⟨← nodeFrom start, name, path, ← docBefore docOffset⟩) :=
    (agrees_expectAs _ _).bind fun _ ↦ .keeping (keeps_literalOf _ _) fun _ ↦
      .keeping (keeps_nodeFrom _) fun _ ↦ .keeping (keeps_docBefore _) fun _ ↦ .pure _
  unfold importSpec
  simp only [pure_bind, map_eq_pure_bind, bind_assoc]
  refine .keeping keeps_start fun start ↦ .keeping keeps_peek? fun kind ↦ ?_
  split
  · exact agrees_ident.bind fun name ↦ (hpath start (some name)).weaken
  · exact agrees_bump.bind fun _ ↦ .keeping (keeps_identOf _) fun name ↦
      (hpath start (some name)).weaken
  · exact hpath start none

theorem agrees_typeSpec (h : g.Agree input bound g') :
    Agrees input (bound + 1) true (typeSpec g) (typeSpec g') :=
  .keeping keeps_start fun _ ↦ agrees_ident.past fun _ ↦ (agrees_eat _).bind fun _ ↦
    (h.call .type).bind fun _ ↦ .keeping (keeps_nodeFrom _) fun _ ↦ .pure _

theorem agrees_valueSpec (kind : DeclKind) (h : g.Agree input bound g')
    (hidents : Agrees input (bound + 1) true g.idents g'.idents) :
    Agrees input (bound + 1) true (valueSpec g kind) (valueSpec g' kind) := by
  unfold valueSpec
  simp only [pure_bind, map_eq_pure_bind, bind_assoc]
  refine .keeping keeps_start fun _ ↦ hidents.past fun _ ↦ .keeping (keeps_isNext _) fun _ ↦
    .keeping (keeps_isNext _) fun _ ↦ .keeping (keeps_isNext _) fun _ ↦
      .ite ?_ ((h.call .type).bind fun _ ↦ ?_)
  all_goals
    refine (agrees_eat _).bind fun _ ↦ .ite ((h.call .exprs).bind fun _ ↦ ?_) ?_
    all_goals exact .ite (.failing nofun) (.keeping (keeps_nodeFrom _) fun _ ↦ .pure _)

theorem agrees_spec (kind : DeclKind) (docOffset : Nat)
    (h : Goal.Below input bound (.spec kind docOffset) g g') :
    Agrees input (bound + 1) true (spec g kind docOffset) (spec g' kind docOffset) := by
  have hidents := h.lower .idents Nat.one_pos
  cases kind with
  | imports => exact agrees_importSpec docOffset
  | type => exact agrees_typeSpec h.fewer
  | const => exact agrees_valueSpec .const h.fewer hidents
  | var => exact agrees_valueSpec .var h.fewer hidents

theorem agrees_specs (kind : DeclKind) (h : Goal.Below input bound (.specs kind) g g') :
    Agrees input (bound + 1) false (specs g kind) (specs g' kind) :=
  .keeping (keeps_isNext _) fun _ ↦ .keeping keeps_isDone fun _ ↦ .ite (.pure _) <|
    .keeping keeps_offset fun offset ↦ (h.lower (.spec kind offset) (Nat.lt_succ_self 1)).past
      fun _ ↦ agrees_separator.bind fun _ ↦ (h.fewer.call (.specs kind)).bind fun _ ↦ .pure _

theorem agrees_genDecl (h : g.Agree input bound g') :
    Agrees input (bound + 1) true (genDecl g) (genDecl g') := by
  unfold genDecl
  simp only [pure_bind]
  refine agrees_bump.past fun _ ↦ .keeping keeps_read fun _ ↦ (agrees_eat _).bind fun _ ↦
    .ite ((h.call (.specs _)).bind fun _ ↦ (agrees_expect _).weaken.bind fun _ ↦ ?_)
      ((h.call (.spec _ _)).bind fun _ ↦ ?_)
  all_goals exact .keeping (keeps_nodeFrom _) fun _ ↦ .pure _

theorem agrees_receiver {reads : Bool}
    (h : Agrees input bound reads g.parameters g'.parameters) :
    Agrees input bound reads (receiver g) (receiver g') := by
  refine h.bind fun fields ↦ ?_
  split
  · exact .ite (.pure _) (agrees_fail nofun)
  · exact agrees_fail nofun

theorem agrees_funcDecl (h : g.Agree input bound g') :
    Agrees input (bound + 1) true (funcDecl g) (funcDecl g') := by
  unfold funcDecl
  simp only [pure_bind, map_eq_pure_bind, bind_assoc]
  refine .keeping keeps_start fun _ ↦ (agrees_expect _).past fun _ ↦
    .keeping (keeps_isNext _) fun _ ↦
      .ite ((agrees_receiver (h.call .parameters)).bind fun _ ↦ ?_) ?_
  all_goals
    refine agrees_ident.weaken.bind fun _ ↦ .keeping keeps_start fun _ ↦
      (h.call (.signature _)).bind fun _ ↦ .keeping (keeps_isNext _) fun _ ↦
        .ite ((agrees_body (h.call .block)).bind fun _ ↦ ?_) ?_
    all_goals exact .keeping (keeps_nodeFrom _) fun _ ↦ .pure _

theorem agrees_importDecls (h : Goal.Below input bound .importDecls g g') :
    Agrees input (bound + 1) false (importDecls g) (importDecls g') :=
  .keeping (keeps_isNext _) fun _ ↦ .ite ((h.lower .genDecl Nat.one_pos).past fun _ ↦
    agrees_separator.bind fun _ ↦ (h.fewer.call .importDecls).bind fun _ ↦ .pure _) (.pure _)

theorem agrees_decls (h : Goal.Below input bound .decls g g') :
    Agrees input (bound + 1) false (decls g) (decls g') := by
  unfold decls
  simp only [pure_bind, map_eq_pure_bind, bind_assoc]
  refine .keeping keeps_isDone fun _ ↦ .ite (.pure _) <| .keeping keeps_peek? fun kind ↦ ?_
  split
  on_goal 1 => refine (h.lower .funcDecl Nat.one_pos).past fun _ ↦ ?_
  on_goal 2 => refine (h.lower .genDecl Nat.one_pos).past fun _ ↦ ?_
  on_goal 3 => refine (h.lower .genDecl Nat.one_pos).past fun _ ↦ ?_
  on_goal 4 => refine (h.lower .genDecl Nat.one_pos).past fun _ ↦ ?_
  on_goal 5 => exact .failing nofun
  on_goal 5 => exact .failing nofun
  all_goals exact agrees_separator.bind fun _ ↦ (h.fewer.call .decls).bind fun _ ↦ .pure _

end Rule

end PackageAtlas
