import PackageAtlas.Proofs.Spans.ExprRules

/-!
The rules for statements build their trees, if the parsers of all nonterminals do. An expression
statement in a header is only read for its expression, and a tag for its binding and its guard: they
give way to their children in the tree of the statement.
-/

set_option autoImplicit false
set_option relaxedAutoImplicit false

namespace PackageAtlas

open Node

section Stmts

variable {g : Grammar} (h : BuildsAll g)
include h

theorem builds_block : Builds (Rule.block g) true fun block ↦ [.block block] := by
  unfold Rule.block
  exact .fromStart fun start ↦ (skips_expect (by decide)).bind fun _ ↦ h.stmts.bind fun stmts ↦
    (skips_expect (by decide)).bind fun _ ↦ .close fun _ ↦ ⟨rfl, rfl, rfl⟩

theorem builds_stmts : Builds (Rule.stmts g) false (List.map ofStmt) := by
  unfold Rule.stmts
  refine .of fun lo trees hasRead ↦ .looking looks_peek? fun kind ↦ ?_
  split
  on_goal 5 => exact (skips_eat _).bind fun _ ↦ .ite (h.stmts.reads lo trees hasRead) <| .relax <|
    (h.stmt.cons h.stmts _ skips_separator).reads lo trees hasRead
  all_goals exact .pure (List.append_nil _) id

theorem builds_simpleStmt : Builds (Rule.simpleStmt g) true fun stmt ↦ [ofStmt stmt] := by
  unfold Rule.simpleStmt
  refine .fromStart fun start ↦ h.exprs.bind fun lhs ↦ .looking looks_peek? fun kind ↦ ?_
  split
  · refine skips_bump.bind fun _ ↦ h.exprs.bind fun rhs ↦ .ite .failing ?_
    exact .close fun _ ↦ ⟨rfl, rfl, rfl⟩
  · split
    · refine .looking looks_peek? fun kind ↦ ?_
      split
      · exact skips_bump.bind fun _ ↦ .close fun _ ↦ ⟨rfl, rfl, rfl⟩
      · exact skips_bump.bind fun _ ↦ .close fun _ ↦ ⟨rfl, rfl, rfl⟩
      · exact .close fun _ ↦ ⟨rfl, rfl, rfl⟩
    · exact .fail

/-! ### Conditions -/

theorem builds_condHeader : Builds (Rule.condHeader g) true
    fun result ↦ result.1.toList.map ofStmt ++ [ofExpr result.2] := by
  unfold Rule.condHeader
  refine .of fun lo trees hasRead ↦ h.simpleStmt.bind fun first ↦ (skips_eat _).bind fun _ ↦
    .ite ?_ ?_
  · exact h.expr.bind fun test ↦ .pure (by simp) id
  · split
    · exact .splice (.pure (by simp [ofStmt, children, stmtChildren]) id)
    · exact .fail

theorem builds_condStmt : Builds (Rule.condStmt g) true fun stmt ↦ [ofStmt stmt] := by
  have hrest : ∀ start (init : Option Stmt) test body (otherwise : Option Stmt), Reads start
      (init.toList.map ofStmt ++ [ofExpr test] ++ [.block body] ++ otherwise.toList.map ofStmt) true
      (do return .cond (← Parser.nodeFrom start) init test body otherwise) (fun _ ↦ true)
      fun stmt ↦ [ofStmt stmt] :=
    fun start init test body otherwise ↦
      .close fun _ ↦ ⟨rfl, by simp [children, stmtChildren, ofStmt], rfl⟩
  unfold Rule.condStmt
  simp only [pure_bind, map_eq_pure_bind, bind_assoc]
  refine .fromStart fun start ↦ (skips_expect (by decide)).bind fun _ ↦
    ((builds_condHeader h).withLevel _).bind fun header ↦ ?_
  obtain ⟨init, test⟩ := header
  refine h.block.bind fun body ↦ (skips_eat _).bind fun _ ↦ .ite
    (.looking looks_peek? fun kind ↦ ?_) ?_
  · split
    · exact h.condStmt.bind fun other ↦ hrest start init test body (some other)
    · exact h.block.bind fun block ↦ hrest start init test body (some (.block block))
    · exact .failing
  · have hnone := hrest start init test body none
    rw [Option.toList_none, List.map_nil, List.append_nil] at hnone
    exact hnone

/-! ### Loops -/

/-- The nodes of the clauses of a loop before its body. -/
def loopNodes (clauses : Option Stmt × Option Expr × Option Stmt) : List Node :=
  clauses.1.toList.map ofStmt ++ clauses.2.1.toList.map ofExpr ++ clauses.2.2.toList.map ofStmt

theorem reads_loopPost (init : Option Stmt) (test : Option Expr) (lo : Nat) (trees : List Node)
    (hasRead : Bool) :
    Reads lo (trees ++ loopNodes (init, test, none)) hasRead
      (do
        let _ ← Parser.expect .semicolon
        if ← Parser.isNext .lbrace then return (init, test, none)
        else return (init, test, some (← g.simpleStmt))) (fun _ ↦ hasRead)
      fun clauses ↦ trees ++ loopNodes clauses := by
  refine skips_expect_semicolon.bind fun _ ↦ .looking (looks_isNext _) fun _ ↦
    .ite (.pure rfl id) (.relax ?_)
  exact h.simpleStmt.bind fun post ↦ .pure (by simp [loopNodes]) id

theorem reads_loopTest (init : Option Stmt) (lo : Nat) (trees : List Node) (hasRead : Bool) :
    Reads lo (trees ++ loopNodes (init, none, none)) hasRead
      (do
        let _ ← Parser.expect .semicolon
        let test ← if ← Parser.isNext .semicolon then pure none else some <$> g.expr
        let _ ← Parser.expect .semicolon
        let post ← if ← Parser.isNext .lbrace then pure none else some <$> g.simpleStmt
        return (init, test, post)) (fun _ ↦ hasRead) fun clauses ↦ trees ++ loopNodes clauses := by
  simp only [pure_bind, map_eq_pure_bind, bind_assoc]
  refine skips_expect_semicolon.bind fun _ ↦ .looking (looks_isNext _) fun _ ↦
    .ite (reads_loopPost h init none lo trees hasRead) (.relax <| h.expr.bind fun test ↦ ?_)
  have htest : trees ++ loopNodes (init, none, none) ++ [ofExpr test] =
      trees ++ loopNodes (init, some test, none) := by simp [loopNodes]
  rw [htest]
  exact reads_loopPost h init (some test) lo trees true

theorem builds_loopHeader : Builds (Rule.loopHeader g) false loopNodes := by
  have htest := reads_loopTest h
  unfold Rule.loopHeader
  simp only [pure_bind, map_eq_pure_bind, bind_assoc] at htest ⊢
  refine .of fun lo trees hasRead ↦ .looking (looks_isNext _) fun _ ↦ .ite
    (.pure (List.append_nil _) id) (.looking (looks_isNext _) fun _ ↦ .ite ?_ ?_)
  · have hnone := htest none lo trees hasRead
    rw [show loopNodes (none, none, none) = [] from rfl, List.append_nil] at hnone
    exact .looking (looks_isNext _) fun _ ↦ .ite .failing hnone
  · refine .relax <| h.simpleStmt.bind fun init ↦ .looking (looks_isNext _) fun _ ↦ .ite ?_
      (htest (some init) lo trees true)
    cases init with
    | expr info test =>
      exact .splice (.pure (by simp [loopNodes, ofStmt, children, stmtChildren]) id)
    | _ => exact .failing

theorem builds_loopStmt : Builds (Rule.loopStmt g) true fun stmt ↦ [ofStmt stmt] := by
  unfold Rule.loopStmt
  refine .fromStart fun start ↦ (skips_expect (by decide)).bind fun _ ↦
    ((builds_loopHeader h).withLevel _).bind fun header ↦ ?_
  obtain ⟨init, test, post⟩ := header
  exact h.block.bind fun body ↦ .close fun _ ↦ ⟨rfl, rfl, rfl⟩

/-! ### Switches -/

theorem builds_switchHeader : Builds (Rule.switchHeader g) false fun result ↦
    result.1.toList.map ofStmt ++ result.2.toList.map ofStmt := by
  have hrest : ∀ (first : Option Stmt) lo trees hasRead,
      Reads lo (trees ++ first.toList.map ofStmt) hasRead
      (do
        if ← Parser.eat .semicolon then
          let tag ← if ← Parser.isNext .lbrace then pure none else some <$> g.simpleStmt
          return (first, tag)
        else return (none, first)) (fun _ ↦ hasRead)
      fun result ↦ trees ++ (result.1.toList.map ofStmt ++ result.2.toList.map ofStmt) := by
    simp only [pure_bind, map_eq_pure_bind, bind_assoc]
    refine fun first lo trees hasRead ↦ (skips_eat _).bind fun _ ↦ .ite
      (.looking (looks_isNext _) fun _ ↦ .ite (.pure (by simp) id) (.relax ?_)) (.pure (by simp) id)
    exact h.simpleStmt.bind fun tag ↦ .pure (by simp) id
  unfold Rule.switchHeader
  refine .of fun lo trees hasRead ↦ .looking (looks_isNext _) fun _ ↦ .ite
    (.pure (List.append_nil _) id) (.looking (looks_isNext _) fun _ ↦ .ite ?_ ?_)
  · have hnone := hrest none lo trees hasRead
    rw [Option.toList_none, List.map_nil, List.append_nil] at hnone
    exact hnone
  · rw [map_eq_pure_bind, bind_assoc]
    exact .relax <| h.simpleStmt.bind fun first ↦ hrest (some first) lo trees true

omit h in
/-- Where a switch is one node over a span, it is closed over all that was read. -/
theorem reads_switchMade {start : Nat} {trees : List Node} {init tag : Option Stmt}
    {clauses : List CaseClause} {make : NodeInfo → Stmt}
    (hmade : ∀ span, Rule.switchOf span init tag clauses = (do return make (← Parser.node span)))
    (hview : ∀ info, (ofStmt (make info)).Around info trees) :
    Reads start trees true
      (do
        let span : Span := ⟨start, (← read).entry.pos (← get).lastStop⟩
        Rule.switchOf span init tag clauses) (fun _ ↦ true) fun stmt ↦ [ofStmt stmt] := by
  have hfrom : (do
      let span : Span := ⟨start, (← read).entry.pos (← get).lastStop⟩
      Rule.switchOf span init tag clauses) = (do return make (← Parser.nodeFrom start)) := by
    unfold Parser.nodeFrom
    simp only [hmade, bind_assoc]
  rw [hfrom]
  exact .close hview

omit h in
/-- The node of a switch takes in the header, without the statement around a tag, and the arms. -/
theorem reads_switchOf (start : Nat) (init tag : Option Stmt) (clauses : List CaseClause) :
    Reads start (init.toList.map ofStmt ++ tag.toList.map ofStmt ++ clauses.map .clause) true
      (do
        let span : Span := ⟨start, (← read).entry.pos (← get).lastStop⟩
        Rule.switchOf span init tag clauses) (fun _ ↦ true) fun stmt ↦ [ofStmt stmt] := by
  have hfail : ∀ {tag trees}, (∀ span, Rule.switchOf span init tag clauses =
      Parser.fail .switchNoExpression) → Reads start trees true
      (do
        let span : Span := ⟨start, (← read).entry.pos (← get).lastStop⟩
        Rule.switchOf span init tag clauses) (fun _ ↦ true) fun stmt ↦ [ofStmt stmt] := by
    intro tag trees hfail
    simp only [hfail]
    exact .looking looks_read fun _ ↦ .looking looks_get fun _ ↦ .fail
  fun_cases Rule.switchOf ⟨start, start⟩ init tag clauses
  case case1 =>
    refine reads_switchMade (fun _ ↦ rfl) fun _ ↦ ⟨rfl, ?_, rfl⟩
    simp [ofStmt, children, stmtChildren]
  case case2 info tag hguard =>
    rw [List.append_assoc]
    refine .splice (reads_switchMade (fun span ↦ if_pos hguard) fun _ ↦ ⟨rfl, ?_, rfl⟩)
    simp [ofStmt, children, stmtChildren]
  case case3 info tag hguard =>
    rw [List.append_assoc]
    refine .splice (reads_switchMade (fun span ↦ if_neg hguard) fun _ ↦ ⟨rfl, ?_, rfl⟩)
    simp [ofStmt, children, stmtChildren]
  case case4 info binding guard hguard =>
    rw [List.append_assoc]
    refine .splice (reads_switchMade (fun span ↦ if_pos hguard) fun _ ↦ ⟨rfl, ?_, rfl⟩)
    simp [ofStmt, ofExpr, children, stmtChildren]
  case case5 info binding guard hguard => exact hfail fun span ↦ if_neg hguard
  case case6 tag hexpr hassign =>
    refine hfail fun span ↦ ?_
    unfold Rule.switchOf
    split
    · rename_i h
      cases h
    · rename_i h
      exact absurd (Option.some.inj h) (hexpr _ _)
    · rename_i h
      exact absurd (Option.some.inj h) (hassign _ _ _)
    · rfl

theorem builds_switchStmt : Builds (Rule.switchStmt g) true fun stmt ↦ [ofStmt stmt] := by
  unfold Rule.switchStmt
  refine .fromStart fun start ↦ (skips_expect (by decide)).bind fun _ ↦
    ((builds_switchHeader h).withLevel _).bind fun header ↦ ?_
  obtain ⟨init, tag⟩ := header
  exact (skips_expect (by decide)).bind fun _ ↦ h.clauses.bind fun clauses ↦
    (skips_expect (by decide)).bind fun _ ↦ reads_switchOf start init tag clauses

theorem builds_clause : Builds (Rule.clause g) true fun clause ↦ [.clause clause] := by
  have hrest : ∀ start list, Reads start (list.map ofExpr) true
      (do
        let _ ← Parser.expect .colon
        let body ← g.stmts
        return (⟨← Parser.nodeFrom start, list, body⟩ : CaseClause)) (fun _ ↦ true)
      fun clause ↦ [.clause clause] :=
    fun start list ↦ (skips_expect (by decide)).bind fun _ ↦ h.stmts.bind fun body ↦
      .close fun _ ↦ ⟨rfl, rfl, rfl⟩
  unfold Rule.clause
  simp only [pure_bind]
  exact .fromStart fun start ↦ .eat (by decide) (hrest start []) <|
    (skips_expect (by decide)).bind fun _ ↦ h.exprs.bind fun list ↦ hrest start list

theorem builds_clauses : Builds (Rule.clauses g) false (List.map .clause) := by
  unfold Rule.clauses
  refine .of fun lo trees hasRead ↦ .looking looks_peek? fun kind ↦ ?_
  split
  on_goal 3 => exact .pure (List.append_nil _) id
  all_goals exact .relax <|
    ((builds_clause h).cons h.clauses _ (Skips.pure ())).reads lo trees hasRead

/-! ### Other statements -/

theorem buildsAt_returnStmt :
    BuildsAt (some .kwReturn) (Rule.returnStmt g) true fun stmt ↦ [ofStmt stmt] := by
  have hrest : ∀ start results, Reads start (results.map ofExpr) true
      (do return .ret (← Parser.nodeFrom start) results) (fun _ ↦ true) fun stmt ↦ [ofStmt stmt] :=
    fun start results ↦ .close fun _ ↦ ⟨rfl, rfl, rfl⟩
  unfold Rule.returnStmt
  simp only [pure_bind]
  exact .fromStart fun start ↦ .bumping (by decide) fun _ ↦ .looking (looks_isNext _) fun _ ↦
    .looking (looks_isNext _) fun _ ↦ .ite (hrest start []) (h.exprs.bind fun results ↦
    hrest start results)

omit h in
theorem buildsAt_branchStmt {wanted : TokenKind} (hwanted : wanted ≠ .semicolon) (isBreak : Bool) :
    BuildsAt (some wanted) (Rule.branchStmt isBreak) true fun stmt ↦ [ofStmt stmt] := by
  unfold Rule.branchStmt
  exact .fromStart fun start ↦ .bumping hwanted fun _ ↦ .close fun _ ↦ ⟨rfl, rfl, rfl⟩

theorem builds_deferredStmt (isGo : Bool) :
    Builds (Rule.deferredStmt g isGo) true fun stmt ↦ [ofStmt stmt] := by
  unfold Rule.deferredStmt
  refine .fromStart fun start ↦ skips_bump.bind fun _ ↦ h.expr.bind fun call ↦ ?_
  split
  · exact .close fun _ ↦ ⟨rfl, rfl, rfl⟩
  · exact .fail

theorem builds_declStmt : Builds (Rule.declStmt g) true fun stmt ↦ [ofStmt stmt] := by
  unfold Rule.declStmt
  exact .of fun lo trees hasRead ↦ h.genDecl.bind fun decl ↦
    .nodeLast (fun info ↦ ofStmt (.decl info decl)) (fun _ ↦ ⟨rfl, rfl, rfl⟩)
      (fun _ ↦ hull_self (.genDecl decl)) fun _ ↦ .pure rfl id

theorem builds_stmt : Builds (Rule.stmt g) true fun stmt ↦ [ofStmt stmt] := by
  unfold Rule.stmt
  refine .peek fun kind ↦ ?_
  split
  · exact builds_declStmt h _
  · exact builds_declStmt h _
  · exact builds_declStmt h _
  · exact buildsAt_returnStmt h
  · exact buildsAt_branchStmt (by decide) true
  · exact buildsAt_branchStmt (by decide) false
  · exact buildsAt_branchStmt (by decide) false
  · exact h.block.map (fun _ ↦ rfl) _
  · exact h.condStmt _
  · exact builds_loopStmt h _
  · exact builds_switchStmt h _
  · exact builds_deferredStmt h true _
  · exact builds_deferredStmt h false _
  · exact h.simpleStmt _

end Stmts

end PackageAtlas
