import PackageAtlas.Proofs.Termination.Rules

/-!
Parsing ends. By induction on the depth, a parser is the same at all depths that are enough for the
tokens that are left (`Goal.agrees_atDepths`), so the grammar at the depth that the tokens ask for
is the one solution of its rules, and calls follow a well-founded order (`Goal.rule_eq_grammar`).
-/

set_option autoImplicit false
set_option relaxedAutoImplicit false

namespace PackageAtlas

open PackageAtlas.Parser

namespace Goal

variable {input : ParseInput} {bound : Nat} {g g' : Grammar}

/-- A rule agrees over two grammars that agree on the calls below its own. -/
theorem agrees_rule (goal : Goal) (h : goal.Below input bound g g') :
    Agrees input (bound + 1) goal.reads (rule g goal) (rule g' goal) := by
  cases goal with
  | decls => exact Rule.agrees_decls h
  | importDecls => exact Rule.agrees_importDecls h
  | genDecl => exact Rule.agrees_genDecl h.fewer
  | specs kind => exact Rule.agrees_specs kind h
  | spec kind docOffset => exact Rule.agrees_spec kind docOffset h
  | funcDecl => exact Rule.agrees_funcDecl h.fewer
  | signature start => exact Rule.agrees_signature start h
  | parameters => exact Rule.agrees_parameters h.fewer
  | parameterEntries => exact Rule.agrees_parameterEntries h
  | idents => exact Rule.agrees_idents h.fewer
  | type => exact Rule.agrees_type h.fewer
  | structFields => exact Rule.agrees_structFields h
  | interfaceElements => exact Rule.agrees_interfaceElements h.fewer
  | block => exact Rule.agrees_block h.fewer
  | stmts => exact Rule.agrees_stmts h
  | stmt => exact Rule.agrees_stmt h
  | simpleStmt => exact Rule.agrees_simpleStmt h
  | condStmt => exact Rule.agrees_condStmt h.fewer
  | clauses => exact Rule.agrees_clauses h.fewer
  | exprs => exact Rule.agrees_exprs h
  | binary minimum => exact Rule.agrees_binary minimum h
  | binaryRest minimum left => exact Rule.agrees_binaryRest minimum left h.fewer
  | unary => exact Rule.agrees_unary h
  | primary => exact Rule.agrees_primary h
  | postfixRest start operand => exact Rule.agrees_postfixRest start operand h.fewer
  | args => exact Rule.agrees_args h
  | elements => exact Rule.agrees_elements h

/-- A depth that is enough for a goal where fewer than so many tokens are left. -/
def Enough (bound : Nat) (goal : Goal) (depth : Nat) : Prop :=
  depthPerToken * bound + goal.rank < depth + depthPerToken

namespace Enough

variable {goal other : Goal} {depth : Nat}

/-- What is provided for so many tokens is enough for a goal of any rank. -/
theorem forTokens (goal : Goal) {tokens : Nat} (h : bound ≤ tokens + 1) :
    Enough bound goal (depthPerToken * (tokens + 1)) := by
  have := goal.rank_le
  unfold Enough depthPerToken
  omega

theorem of_le {bound' : Nat} (h : Enough bound goal depth) (hle : bound' ≤ bound) :
    Enough bound' goal depth := by
  unfold Enough depthPerToken at h ⊢
  omega

theorem pos (h : Enough (bound + 1) goal depth) : 0 < depth := by
  unfold Enough depthPerToken at h
  omega

/-- One token less leaves room for a goal of any rank. -/
theorem fewer (h : Enough (bound + 1) goal (depth + 1)) (other : Goal) :
    Enough bound other depth := by
  have := other.rank_le
  unfold Enough depthPerToken at h ⊢
  omega

theorem lower (h : Enough bound goal (depth + 1)) (hlt : other.rank < goal.rank) :
    Enough bound other depth := by
  unfold Enough depthPerToken at h ⊢
  omega

end Enough

/-- At depths that are enough, depth makes no difference. -/
theorem agrees_atDepths (input : ParseInput) (depth : Nat) :
    ∀ (depth' bound : Nat) (goal : Goal), Enough bound goal depth → Enough bound goal depth' →
      Agrees input bound goal.reads (parser depth goal) (parser depth' goal) := by
  induction depth with
  | zero =>
    intro depth' bound goal hdepth _
    cases bound with
    | zero => exact fun state hlt ↦ absurd hlt (Nat.not_lt_zero _)
    | succ bound => exact absurd hdepth.pos (Nat.lt_irrefl 0)
  | succ depth ih =>
    intro depth' bound goal hdepth hdepth'
    cases bound with
    | zero => exact fun state hlt ↦ absurd hlt (Nat.not_lt_zero _)
    | succ bound =>
      obtain ⟨depth', rfl⟩ := Nat.exists_eq_succ_of_ne_zero hdepth'.pos.ne'
      refine agrees_rule goal ⟨fun other ↦ ?_, fun other hlt ↦ ?_⟩
      · exact ih depth' bound other (hdepth.fewer other) (hdepth'.fewer other)
      · exact ih depth' (bound + 1) other (hdepth.lower hlt) (hdepth'.lower hlt)

/-- The grammar, with calls as deep as the tokens that are left ask for. -/
def grammar : Grammar := fun goal input state ↦ parserFor state.tokens.length goal input state

theorem agrees_grammar {goal : Goal} {depth : Nat} (h : Enough bound goal depth) :
    Agrees input bound goal.reads (parser depth goal) (grammar goal) := by
  intro state hlt
  exact agrees_atDepths input depth _ (state.tokens.length + 1) goal (h.of_le hlt)
    (.forTokens goal le_rfl) state (Nat.lt_succ_self _)

theorem proper_grammar (goal : Goal) (input : ParseInput) (state : ParseState) :
    Proper goal.reads state (grammar goal input state) := by
  have henough : Enough (state.tokens.length + 1) goal
      (depthPerToken * (state.tokens.length + 1)) := .forTokens goal le_rfl
  exact ((agrees_grammar henough) state (Nat.lt_succ_self _)).2

/-- The grammar is a solution of its rules. -/
theorem rule_grammar : rule grammar = grammar := by
  funext goal input state
  have henough : Enough (state.tokens.length + 1) goal
      (depthPerToken * state.tokens.length + 15 + 1) := .forTokens goal le_rfl
  have hbelow : goal.Below input state.tokens.length
      (parser (depthPerToken * state.tokens.length + 15)) grammar := by
    refine ⟨fun other ↦ agrees_grammar (henough.fewer other), fun other hlt ↦ ?_⟩
    exact agrees_grammar (henough.lower hlt)
  exact ((agrees_rule goal hbelow) state (Nat.lt_succ_self _)).1.symm

/-! ### The order of calls -/

/-- Whether a call is below another one: fewer tokens are left at it, or as many and its goal has a
lower rank. -/
def CallBelow : Goal × ParseState → Goal × ParseState → Prop :=
  InvImage (Prod.Lex (· < ·) (· < ·)) fun call ↦ (call.2.tokens.length, call.1.rank)

theorem wellFounded_callBelow : WellFounded CallBelow :=
  InvImage.wf _ (WellFounded.prod_lex wellFounded_lt wellFounded_lt)

/-- What a rule does depends on calls below its own only. -/
theorem rule_eq_grammar {goal : Goal} {state : ParseState}
    (h : ∀ other state', CallBelow (other, state') (goal, state) →
      g other input state' = grammar other input state') :
    rule g goal input state = grammar goal input state := by
  have hbelow : goal.Below input state.tokens.length grammar g := by
    refine ⟨fun other state' hlt ↦ ?_, fun other hrank state' hlt ↦ ?_⟩
    · exact ⟨(h other state' (Prod.Lex.left _ _ hlt)).symm, proper_grammar other input state'⟩
    · refine ⟨(h other state' ?_).symm, proper_grammar other input state'⟩
      rcases (Nat.le_of_lt_succ hlt).lt_or_eq with hlt | heq
      · exact Prod.Lex.left _ _ hlt
      · exact Prod.lex_iff.2 (.inr ⟨heq, hrank⟩)
  have hsame := ((agrees_rule goal hbelow) state (Nat.lt_succ_self _)).1
  rw [← hsame, rule_grammar]

/-- The rules have one solution. -/
theorem rule_eq_self_iff : rule g = g ↔ g = grammar := by
  refine ⟨fun hrule ↦ ?_, fun heq ↦ heq ▸ rule_grammar⟩
  funext goal input state
  refine wellFounded_callBelow.induction
    (C := fun call ↦ g call.1 input call.2 = grammar call.1 input call.2) (goal, state) ?_
  rintro ⟨goal, state⟩ ih
  rw [← hrule]
  exact rule_eq_grammar fun other state' hbelow ↦ ih (other, state') hbelow

/-! ### Loops -/

/-- The loops of the grammar: the lists of its goals, and what follows an operand. -/
inductive Loop where
  | decls
  | importDecls
  | specs
  | parameters
  | names
  | structFields
  | interfaceElements
  | stmts
  | clauses
  | exprs
  | binaryOperators
  | postfixOperators
  | args
  | elements
deriving DecidableEq, Repr

/-- The loop that a goal is one round of, and the rounds after it. -/
def loop? : Goal → Option Loop
  | decls => some .decls
  | importDecls => some .importDecls
  | specs _ => some .specs
  | parameterEntries => some .parameters
  | idents => some .names
  | structFields => some .structFields
  | interfaceElements => some .interfaceElements
  | stmts => some .stmts
  | clauses => some .clauses
  | exprs => some .exprs
  | binaryRest _ _ => some .binaryOperators
  | postfixRest _ _ => some .postfixOperators
  | args => some .args
  | elements => some .elements
  | genDecl | spec _ _ | funcDecl | signature _ | parameters | type | block => none
  | stmt | simpleStmt | condStmt | binary _ | unary | primary => none

/-- The rounds of a loop have one rank. -/
theorem rank_eq_of_loop? {goal other : Goal} {loop : Loop} (h : goal.loop? = some loop)
    (h' : other.loop? = some loop) : other.rank = goal.rank := by
  cases goal <;> cases h <;> cases other <;> cases h' <;> rfl

/-- A round of a loop ends it, or another round starts where fewer tokens are left: what the parser
of the loop does elsewhere makes no difference. -/
theorem rule_eq_grammar_of_loop? {goal : Goal} {state : ParseState} {loop : Loop}
    (hloop : goal.loop? = some loop)
    (h : ∀ other state', (other.loop? = some loop →
      state'.tokens.length < state.tokens.length) →
        g other input state' = grammar other input state') :
    rule g goal input state = grammar goal input state := by
  refine rule_eq_grammar fun other state' hbelow ↦ h other state' fun hother ↦ ?_
  rcases Prod.lex_iff.1 hbelow with hlt | ⟨_, hrank⟩
  · exact hlt
  · exact absurd (rank_eq_of_loop? hloop hother) hrank.ne

end Goal

/-! ### Progress -/

/-- The parsers that rules are made of, besides those of goals, are ahead of where they started when
they succeed. The headers of loops and switches may be empty. -/
structure Grammar.PartsGoAhead (g : Grammar) : Prop where
  typeName : GoesAhead true Rule.typeName
  arrayType : GoesAhead true (Rule.arrayType g)
  mapType : GoesAhead true (Rule.mapType g)
  structType : GoesAhead true (Rule.structType g)
  interfaceType : GoesAhead true (Rule.interfaceType g)
  literal : ∀ kind, GoesAhead true (Rule.literal kind)
  operand : GoesAhead true (Rule.operand g)
  composite : ∀ start type, GoesAhead true (Rule.composite g start type)
  afterDot : ∀ start operand, GoesAhead true (Rule.afterDot g start operand)
  body : GoesAhead true (Rule.body g)
  condHeader : GoesAhead true (Rule.condHeader g)
  loopHeader : GoesAhead false (Rule.loopHeader g)
  switchHeader : GoesAhead false (Rule.switchHeader g)
  loopStmt : GoesAhead true (Rule.loopStmt g)
  switchStmt : GoesAhead true (Rule.switchStmt g)
  clause : GoesAhead true (Rule.clause g)
  returnStmt : GoesAhead true (Rule.returnStmt g)
  branchStmt : ∀ isBreak, GoesAhead true (Rule.branchStmt isBreak)
  deferredStmt : ∀ isGo, GoesAhead true (Rule.deferredStmt g isGo)
  declStmt : GoesAhead true (Rule.declStmt g)
  importSpec : ∀ docOffset, GoesAhead true (Rule.importSpec docOffset)
  typeSpec : GoesAhead true (Rule.typeSpec g)
  valueSpec : ∀ kind, GoesAhead true (Rule.valueSpec g kind)
  receiver : GoesAhead true (Rule.receiver g)

namespace Goal

theorem agree_grammar (input : ParseInput) (bound : Nat) : grammar.Agree input bound grammar :=
  fun goal state _ ↦ ⟨rfl, proper_grammar goal input state⟩

theorem partsGoAhead_grammar : grammar.PartsGoAhead where
  typeName := .of_agrees fun _ _ ↦ Rule.agrees_typeName
  arrayType := .of_agrees fun _ _ ↦ Rule.agrees_arrayType (agree_grammar _ _)
  mapType := .of_agrees fun _ _ ↦ Rule.agrees_mapType (agree_grammar _ _)
  structType := .of_agrees fun _ _ ↦ Rule.agrees_structType (agree_grammar _ _)
  interfaceType := .of_agrees fun _ _ ↦ Rule.agrees_interfaceType (agree_grammar _ _)
  literal kind := .of_agrees fun _ _ ↦ Rule.agrees_literal kind
  operand := .of_agrees fun _ _ ↦ Rule.agrees_operand (agree_grammar _ _) (agree_grammar _ _ .type)
  composite start type := .of_agrees fun _ _ ↦
    Rule.agrees_composite start type (agree_grammar _ _)
  afterDot start operand := .of_agrees fun _ _ ↦
    Rule.agrees_afterDot start operand (agree_grammar _ _)
  body := .of_agrees fun _ _ ↦ Rule.agrees_body (agree_grammar _ _ .block)
  condHeader := .of_agrees fun _ _ ↦ Rule.agrees_condHeader (agree_grammar _ _ .simpleStmt)
    ((agree_grammar _ _).call (.binary 1))
  loopHeader := .of_agrees fun _ _ ↦ Rule.agrees_loopHeader (agree_grammar _ _)
  switchHeader := .of_agrees fun _ _ ↦ Rule.agrees_switchHeader (agree_grammar _ _)
  loopStmt := .of_agrees fun _ _ ↦ Rule.agrees_loopStmt (agree_grammar _ _)
  switchStmt := .of_agrees fun _ _ ↦ Rule.agrees_switchStmt (agree_grammar _ _)
  clause := .of_agrees fun _ _ ↦ Rule.agrees_clause (agree_grammar _ _)
  returnStmt := .of_agrees fun _ _ ↦ Rule.agrees_returnStmt (agree_grammar _ _)
  branchStmt isBreak := .of_agrees fun _ _ ↦ Rule.agrees_branchStmt isBreak
  deferredStmt isGo := .of_agrees fun _ _ ↦ Rule.agrees_deferredStmt isGo (agree_grammar _ _)
  declStmt := .of_agrees fun _ _ ↦ Rule.agrees_declStmt (agree_grammar _ _ .genDecl)
  importSpec docOffset := .of_agrees fun _ _ ↦ Rule.agrees_importSpec docOffset
  typeSpec := .of_agrees fun _ _ ↦ Rule.agrees_typeSpec (agree_grammar _ _)
  valueSpec kind := .of_agrees fun _ _ ↦
    Rule.agrees_valueSpec kind (agree_grammar _ _) (agree_grammar _ _ .idents)
  receiver := .of_agrees fun _ _ ↦ Rule.agrees_receiver (agree_grammar _ _ .parameters)

end Goal

/-! ### Files and expressions -/

namespace Parser

variable {input : ParseInput} {bound : Nat} {g g' : Grammar}

theorem agrees_sourceFile (h : g.Agree input bound g') :
    Agrees input (bound + 1) true (sourceFile g) (sourceFile g') :=
  .keeping keeps_read fun _ ↦ (agrees_expect _).past fun _ ↦ agrees_ident.weaken.bind fun _ ↦
    agrees_separator.bind fun _ ↦ (h.call .importDecls).bind fun _ ↦ (h.call .decls).bind fun _ ↦
      .keeping (keeps_node _) fun _ ↦ .pure _

theorem agrees_wholeExpr (h : Agrees input bound true g.expr g'.expr) :
    Agrees input bound true (wholeExpr g) (wholeExpr g') :=
  h.bind fun _ ↦ (agrees_eat _).bind fun _ ↦ .keeping keeps_isDone fun _ ↦
    .ite (.pure _) (agrees_fail nofun)

/-- A file is parsed as by the grammar, whatever tokens it has. -/
theorem sourceFile_grammar (input : ParseInput) (state : ParseState) :
    sourceFile (Goal.parserFor state.tokens.length) input state =
        sourceFile Goal.grammar input state ∧
      Proper true state (sourceFile Goal.grammar input state) := by
  have hagree : (Goal.parserFor state.tokens.length).Agree input state.tokens.length
      Goal.grammar := fun goal ↦ Goal.agrees_grammar (.forTokens goal (Nat.le_succ _))
  obtain ⟨hsame, hproper⟩ := agrees_sourceFile hagree state (Nat.lt_succ_self _)
  exact ⟨hsame, hsame ▸ hproper⟩

/-- An expression is parsed as by the grammar, whatever tokens it has. -/
theorem wholeExpr_grammar (input : ParseInput) (state : ParseState) :
    wholeExpr (Goal.parserFor state.tokens.length) input state =
        wholeExpr Goal.grammar input state ∧
      Proper true state (wholeExpr Goal.grammar input state) := by
  have hexpr : Agrees input (state.tokens.length + 1) true
      (Goal.parserFor state.tokens.length).expr (Grammar.expr Goal.grammar) :=
    Goal.agrees_grammar (.forTokens (.binary 1) le_rfl)
  obtain ⟨hsame, hproper⟩ := agrees_wholeExpr hexpr state (Nat.lt_succ_self _)
  exact ⟨hsame, hsame ▸ hproper⟩

/-- No text is refused because calls would nest too deep. -/
theorem runOn_problem_ne {α : Type} {parser : Grammar → Parser α} {space : SpaceId}
    {entry : FileEntry} {text : String} {error : ParseError}
    (hgrammar : ∀ input (state : ParseState),
      parser (Goal.parserFor state.tokens.length) input state =
          parser Goal.grammar input state ∧
        Proper true state (parser Goal.grammar input state))
    (h : runOn parser space entry text = .error error) (found : Option Token) :
    error.problem ≠ .unexpected .nestingTooDeep found := by
  unfold runOn at h
  cases hstream : TokenStream.ofText text with
  | error invalid =>
    simp only [hstream] at h
    cases h
    exact nofun
  | ok stream =>
    simp only [hstream] at h
    obtain ⟨hsame, hproper⟩ :=
      hgrammar ⟨space, entry, text.toList, stream.comments⟩ ⟨stream.tokens, 0, 0, 1⟩
    rw [← hsame] at hproper
    cases hresult : parser (Goal.parserFor stream.tokens.length)
        ⟨space, entry, text.toList, stream.comments⟩ ⟨stream.tokens, 0, 0, 1⟩ with
    | error complaint =>
      rw [hresult] at h hproper
      cases h
      exact hproper found
    | ok result =>
      rw [hresult] at h
      cases h

/-- Parsing ends. The rules of the grammar have one solution, and files and expressions are parsed by
it whatever their tokens are, never with the complaint that calls are nested too deep: a rule calls
others along a well-founded order only, and a round of a loop ends the loop unless the next round
starts where fewer tokens are left. No parser moves backwards or leaves another composite-literal
level, and those of declarations, specs, types, statements and expressions read at least one token
when they succeed. -/
theorem parsing_ends :
    (∀ g, Goal.rule g = g ↔ g = Goal.grammar) ∧
    (∀ input state,
      sourceFile (Goal.parserFor state.tokens.length) input state =
          sourceFile Goal.grammar input state ∧
        wholeExpr (Goal.parserFor state.tokens.length) input state =
          wholeExpr Goal.grammar input state) ∧
    WellFounded Goal.CallBelow ∧
    (∀ (g : Grammar) goal input state,
      (∀ other state', Goal.CallBelow (other, state') (goal, state) →
        g other input state' = Goal.grammar other input state') →
      Goal.rule g goal input state = Goal.grammar goal input state) ∧
    (∀ (g : Grammar) (goal : Goal) (loop : Goal.Loop) input (state : ParseState),
      goal.loop? = some loop →
      (∀ (other : Goal) (state' : ParseState),
        (other.loop? = some loop → state'.tokens.length < state.tokens.length) →
          g other input state' = Goal.grammar other input state') →
      Goal.rule g goal input state = Goal.grammar goal input state) ∧
    (∀ goal : Goal, GoesAhead goal.reads (Goal.grammar goal)) ∧
    Goal.grammar.PartsGoAhead ∧
    GoesAhead true (sourceFile Goal.grammar) ∧
    GoesAhead true (wholeExpr Goal.grammar) :=
  ⟨fun _ ↦ Goal.rule_eq_self_iff,
    fun input state ↦ ⟨(sourceFile_grammar input state).1, (wholeExpr_grammar input state).1⟩,
    Goal.wellFounded_callBelow,
    fun _ _ _ _ h ↦ Goal.rule_eq_grammar h,
    fun _ _ _ _ _ hloop h ↦ Goal.rule_eq_grammar_of_loop? hloop h,
    Goal.proper_grammar,
    Goal.partsGoAhead_grammar,
    fun input state ↦ (sourceFile_grammar input state).2,
    fun input state ↦ (wholeExpr_grammar input state).2⟩

/-- Arguments that break off behind a comma: the round after it complains of an expression that is
missing, and whatever the parser of the loop did at the first one, the first one would lead
there. -/
theorem parsing_ends_openArgs :
    let input : ParseInput := ⟨⟨0⟩, .ofText "f" 1 "x,", "x,".toList, []⟩
    let state : ParseState := ⟨[⟨.ident, "x", 0⟩, ⟨.comma, ",", 1⟩], 0, 0, 1⟩
    let other : Grammar := fun goal input state ↦
      if goal.loop? = some .args ∧ 2 ≤ state.tokens.length then fail .trailingInput input state
      else Goal.grammar goal input state
    Goal.rule other .args input state = Goal.grammar .args input state ∧
      ∃ location, Goal.grammar .args input state =
        .error ⟨location, .unexpected (.expected .expression) none⟩ := by
  intro input state other
  refine ⟨?_, _, rfl⟩
  obtain ⟨_, _, _, _, hloop, _⟩ := parsing_ends
  refine hloop other .args .args input state rfl fun goal state' hfewer ↦ if_neg ?_
  rintro ⟨hargs, hle⟩
  exact absurd (hfewer hargs) (Nat.not_lt_of_le hle)

end Parser

namespace FileSet

theorem parseFile_problem_ne {set : FileSet} {name text : String} {error : ParseError}
    (h : (set.parseFile name text).2 = .error error) (found : Option Token) :
    error.problem ≠ .unexpected .nestingTooDeep found :=
  Parser.runOn_problem_ne sourceFile_grammar h found

theorem parseExpr_problem_ne {set : FileSet} {name text : String} {error : ParseError}
    (h : (set.parseExpr name text).2 = .error error) (found : Option Token) :
    error.problem ≠ .unexpected .nestingTooDeep found :=
  Parser.runOn_problem_ne wholeExpr_grammar h found

end FileSet

end PackageAtlas
