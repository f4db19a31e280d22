import PackageAtlas.Proofs.Relocation.ExprRules

/-!
The rules for statements carry relocations over.
-/

set_option autoImplicit false
set_option relaxedAutoImplicit false

namespace PackageAtlas

namespace Relocation

variable {move : Relocation} {g : Grammar}

theorem carries_block (h : move.CarriesAll g) :
    move.Carries move.block (Rule.block g) (Rule.block g) := by
  unfold Rule.block
  exact carries_start.bind fun start ↦ (carries_expect _).bind fun _ ↦ h.stmts.bind fun stmts ↦
    (carries_expect _).bind fun _ ↦ (carries_nodeFrom start).bind fun info ↦ Carries.pure rfl

theorem carries_stmts (h : move.CarriesAll g) :
    move.Carries move.stmts' (Rule.stmts g) (Rule.stmts g) := by
  unfold Rule.stmts
  refine carries_peek?.bind fun kind ↦ ?_
  dsimp only [id]
  split
  · exact Carries.pure rfl
  · exact Carries.pure rfl
  · exact Carries.pure rfl
  · exact Carries.pure rfl
  · refine (carries_eat _).bind fun _ ↦ Carries.ite h.stmts ?_
    exact h.stmt.bind fun stmt ↦ carries_separator.bind fun _ ↦ h.stmts.bind fun rest ↦
      Carries.pure rfl

/-! ### Simple statements -/

theorem carries_simpleStmt (h : move.CarriesAll g) :
    move.Carries move.stmt (Rule.simpleStmt g) (Rule.simpleStmt g) := by
  unfold Rule.simpleStmt
  refine carries_start.bind fun start ↦ h.exprs.bind fun lhs ↦ carries_peek?.bind fun kind ↦ ?_
  dsimp only [id]
  split
  · refine carries_bump.bind fun _ ↦ h.exprs.bind fun rhs ↦ ?_
    have hnames : (move.exprs lhs).any (·.ident?.isNone) = lhs.any (·.ident?.isNone) := by
      rw [exprs_eq_map, List.any_map]
      congr 1
      funext e
      rw [Function.comp, ident?_expr, Option.isNone_map]
    rw [hnames]
    have hrest : ∀ op, move.Carries move.stmt
        (do return .assign (← Parser.nodeFrom start) lhs op rhs)
        (do return .assign (← Parser.nodeFrom (move.pos start)) (move.exprs lhs) op
              (move.exprs rhs)) :=
      fun op ↦ (carries_nodeFrom start).bind fun info ↦ Carries.pure rfl
    exact Carries.ite ((carries_fail id _).bind fun _ ↦ hrest _) (hrest _)
  · cases lhs with
    | nil => exact carries_fail _ _
    | cons operand rest =>
      cases rest with
      | nil =>
        refine carries_peek?.bind fun kind ↦ ?_
        dsimp only [id]
        split
        · exact carries_bump.bind fun _ ↦ (carries_nodeFrom start).bind fun info ↦ Carries.pure rfl
        · exact carries_bump.bind fun _ ↦ (carries_nodeFrom start).bind fun info ↦ Carries.pure rfl
        · exact (carries_nodeFrom start).bind fun info ↦ Carries.pure rfl
      | cons second rest => exact carries_fail _ _

/-! ### Headers -/

/-- What a condition is made of, for another file. -/
def condition (move : Relocation) (header : Option Stmt × Expr) : Option Stmt × Expr :=
  (move.stmt? header.1, move.expr header.2)

theorem carries_condHeader (h : move.CarriesAll g) :
    move.Carries move.condition (Rule.condHeader g) (Rule.condHeader g) := by
  unfold Rule.condHeader
  refine h.simpleStmt.bind fun first ↦ (carries_eat _).bind fun _ ↦ Carries.ite ?_ ?_
  · exact h.expr.bind fun test ↦ Carries.pure rfl
  · cases first with
    | expr info test => exact Carries.pure rfl
    | _ => exact carries_fail _ _

theorem carries_condStmt (h : move.CarriesAll g) :
    move.Carries move.stmt (Rule.condStmt g) (Rule.condStmt g) := by
  have hrest : ∀ start (header : Option Stmt × Expr) body otherwise, move.Carries move.stmt
      (do return .cond (← Parser.nodeFrom start) header.1 header.2 body otherwise)
      (do
        return .cond (← Parser.nodeFrom (move.pos start)) (move.stmt? header.1)
          (move.expr header.2) (move.block body) (move.stmt? otherwise)) :=
    fun start header body otherwise ↦ (carries_nodeFrom start).bind fun info ↦ Carries.pure rfl
  unfold Rule.condStmt
  simp only [pure_bind, map_eq_pure_bind, bind_assoc]
  refine carries_start.bind fun start ↦ (carries_expect _).bind fun _ ↦
    ((carries_condHeader h).withLevel _).bind fun header ↦ h.block.bind fun body ↦
    (carries_eat _).bind fun _ ↦ Carries.ite ?_ (hrest start header body none)
  refine carries_peek?.bind fun kind ↦ ?_
  dsimp only [id]
  split
  · exact h.condStmt.bind fun otherwise ↦ hrest start header body (some otherwise)
  · exact h.block.bind fun otherwise ↦ hrest start header body (some (.block otherwise))
  · exact (carries_fail move.stmt? _).bind fun otherwise ↦ hrest start header body otherwise

/-! ### Loops -/

/-- What the header of a loop is made of, for another file. -/
def loopParts (move : Relocation) (header : Option Stmt × Option Expr × Option Stmt) :
    Option Stmt × Option Expr × Option Stmt :=
  (move.stmt? header.1, move.expr? header.2.1, move.stmt? header.2.2)

theorem carries_loopHeader (h : move.CarriesAll g) :
    move.Carries move.loopParts (Rule.loopHeader g) (Rule.loopHeader g) := by
  have hpost : ∀ init test, move.Carries move.loopParts
      (do
        let _ ← Parser.expect .semicolon
        if ← Parser.isNext .lbrace then return (init, test, none)
        else
          let post ← g.simpleStmt
          return (init, test, some post))
      (do
        let _ ← Parser.expect .semicolon
        if ← Parser.isNext .lbrace then return (move.stmt? init, move.expr? test, none)
        else
          let post ← g.simpleStmt
          return (move.stmt? init, move.expr? test, some post)) := by
    intro init test
    refine (carries_expect _).bind fun _ ↦ (carries_isNext _).bind fun _ ↦
      Carries.ite (Carries.pure rfl) ?_
    exact h.simpleStmt.bind fun post ↦ Carries.pure rfl
  have htest : ∀ init, move.Carries move.loopParts
      (do
        let _ ← Parser.expect .semicolon
        if ← Parser.isNext .semicolon then
          let _ ← Parser.expect .semicolon
          if ← Parser.isNext .lbrace then return (init, none, none)
          else
            let post ← g.simpleStmt
            return (init, none, some post)
        else
          let test ← g.expr
          let _ ← Parser.expect .semicolon
          if ← Parser.isNext .lbrace then return (init, some test, none)
          else
            let post ← g.simpleStmt
            return (init, some test, some post))
      (do
        let _ ← Parser.expect .semicolon
        if ← Parser.isNext .semicolon then
          let _ ← Parser.expect .semicolon
          if ← Parser.isNext .lbrace then return (move.stmt? init, none, none)
          else
            let post ← g.simpleStmt
            return (move.stmt? init, none, some post)
        else
          let test ← g.expr
          let _ ← Parser.expect .semicolon
          if ← Parser.isNext .lbrace then return (move.stmt? init, some test, none)
          else
            let post ← g.simpleStmt
            return (move.stmt? init, some test, some post)) := by
    intro init
    refine (carries_expect _).bind fun _ ↦ (carries_isNext _).bind fun _ ↦ Carries.ite ?_ ?_
    · exact hpost init none
    · exact h.expr.bind fun test ↦ hpost init (some test)
  unfold Rule.loopHeader
  simp only [pure_bind, map_eq_pure_bind, bind_assoc]
  refine (carries_isNext _).bind fun _ ↦ Carries.ite (Carries.pure rfl) ?_
  refine (carries_isNext _).bind fun _ ↦ Carries.ite ?_ ?_
  · refine (carries_isNext _).bind fun _ ↦ Carries.ite ?_ (htest none)
    exact (carries_fail id _).bind fun _ ↦ htest none
  · refine h.simpleStmt.bind fun init ↦ (carries_isNext _).bind fun _ ↦
      Carries.ite ?_ (htest (some init))
    cases init with
    | expr info test => exact Carries.pure rfl
    | _ => exact (carries_fail id _).bind fun _ ↦ htest _

theorem carries_loopStmt (h : move.CarriesAll g) :
    move.Carries move.stmt (Rule.loopStmt g) (Rule.loopStmt g) := by
  unfold Rule.loopStmt
  exact carries_start.bind fun start ↦ (carries_expect _).bind fun _ ↦
    ((carries_loopHeader h).withLevel _).bind fun header ↦ h.block.bind fun body ↦
    (carries_nodeFrom start).bind fun info ↦ Carries.pure rfl

/-! ### Switches -/

/-- What the header of a switch is made of, for another file. -/
def switchParts (move : Relocation) (header : Option Stmt × Option Stmt) :
    Option Stmt × Option Stmt :=
  (move.stmt? header.1, move.stmt? header.2)

theorem carries_switchHeader (h : move.CarriesAll g) :
    move.Carries move.switchParts (Rule.switchHeader g) (Rule.switchHeader g) := by
  have hrest : ∀ first, move.Carries move.switchParts
      (do
        if ← Parser.eat .semicolon then
          if ← Parser.isNext .lbrace then return (first, none)
          else
            let tag ← g.simpleStmt
            return (first, some tag)
        else return (none, first))
      (do
        if ← Parser.eat .semicolon then
          if ← Parser.isNext .lbrace then return (move.stmt? first, none)
          else
            let tag ← g.simpleStmt
            return (move.stmt? first, some tag)
        else return (none, move.stmt? first)) := by
    intro first
    refine (carries_eat _).bind fun _ ↦ Carries.ite ?_ (Carries.pure rfl)
    refine (carries_isNext _).bind fun _ ↦ Carries.ite (Carries.pure rfl) ?_
    exact h.simpleStmt.bind fun tag ↦ Carries.pure rfl
  unfold Rule.switchHeader
  simp only [pure_bind, map_eq_pure_bind, bind_assoc]
  refine (carries_isNext _).bind fun _ ↦ Carries.ite (Carries.pure rfl) ?_
  refine (carries_isNext _).bind fun _ ↦ Carries.ite (hrest none) ?_
  exact h.simpleStmt.bind fun first ↦ hrest (some first)

theorem carries_switchOf (span : Span) (init tag : Option Stmt) (clauses : List CaseClause) :
    move.Carries move.stmt (Rule.switchOf span init tag clauses)
      (Rule.switchOf (move.span span) (move.stmt? init) (move.stmt? tag)
        (move.clauses' clauses)) := by
  have hnode : ∀ (make : NodeInfo → Stmt) (make' : NodeInfo → Stmt),
      (∀ info, make' (move.info info) = move.stmt (make info)) →
        move.Carries move.stmt (do return make (← Parser.node span))
          (do return make' (← Parser.node (move.span span))) :=
    fun make make' hmake ↦ (carries_node span).bind fun info ↦ Carries.pure (hmake info)
  cases tag with
  | none => exact hnode (.switch · init none clauses) _ fun info ↦ rfl
  | some tag =>
    cases tag with
    | expr info tag =>
      change move.Carries move.stmt (if Rule.isTypeGuard tag then _ else _)
        (if Rule.isTypeGuard (move.expr tag) then _ else _)
      rw [isTypeGuard_expr]
      refine Carries.ite ?_ ?_
      · exact hnode (.typeSwitch · init none tag clauses) _ fun info ↦ rfl
      · exact hnode (.switch · init (some tag) clauses) _ fun info ↦ rfl
    | assign info lhs op rhs =>
      rcases lhs with _ | ⟨first, _ | ⟨second, lhs⟩⟩
      · exact carries_fail _ _
      · cases first with
        | ident binding =>
          cases op with
          | define =>
            rcases rhs with _ | ⟨guard, _ | ⟨second, rhs⟩⟩
            · exact carries_fail _ _
            · change move.Carries move.stmt (if Rule.isTypeGuard guard then _ else _)
                (if Rule.isTypeGuard (move.expr guard) then _ else _)
              rw [isTypeGuard_expr]
              refine Carries.ite ?_ (carries_fail _ _)
              exact hnode (.typeSwitch · init (some binding) guard clauses) _ fun info ↦ rfl
            · exact carries_fail _ _
          | _ => exact carries_fail _ _
        | _ => exact carries_fail _ _
      · cases first <;> exact carries_fail _ _
    | _ => exact carries_fail _ _

theorem carries_switchStmt (h : move.CarriesAll g) :
    move.Carries move.stmt (Rule.switchStmt g) (Rule.switchStmt g) := by
  unfold Rule.switchStmt
  refine carries_start.bind fun start ↦ (carries_expect _).bind fun _ ↦
    ((carries_switchHeader h).withLevel _).bind fun header ↦ (carries_expect _).bind fun _ ↦
    h.clauses.bind fun clauses ↦ (carries_expect _).bind fun _ ↦ carries_read.bind fun input ↦
    carries_get.bind fun state ↦ ?_
  have hstop : (move.input input).entry.pos (id state).lastStop =
      move.pos (input.entry.pos state.lastStop) := pos_fileEntry _ _
  rw [hstop]
  exact carries_switchOf ⟨start, _⟩ header.1 header.2 clauses

theorem carries_clause (h : move.CarriesAll g) :
    move.Carries move.clause (Rule.clause g) (Rule.clause g) := by
  have hrest : ∀ start list, move.Carries move.clause
      (do
        let _ ← Parser.expect .colon
        let body ← g.stmts
        return ⟨← Parser.nodeFrom start, list, body⟩)
      (do
        let _ ← Parser.expect .colon
        let body ← g.stmts
        return ⟨← Parser.nodeFrom (move.pos start), move.exprs list, body⟩) :=
    fun start list ↦ (carries_expect _).bind fun _ ↦ h.stmts.bind fun body ↦
      (carries_nodeFrom start).bind fun info ↦ Carries.pure rfl
  unfold Rule.clause
  simp only [pure_bind]
  refine carries_start.bind fun start ↦ (carries_eat _).bind fun _ ↦ Carries.ite ?_ ?_
  · exact hrest start []
  · exact (carries_expect _).bind fun _ ↦ h.exprs.bind fun list ↦ hrest start list

theorem carries_clauses (h : move.CarriesAll g) :
    move.Carries move.clauses' (Rule.clauses g) (Rule.clauses g) := by
  have hmore : move.Carries move.clauses'
      (do
        let first ← Rule.clause g
        return first :: (← g.clauses))
      (do
        let first ← Rule.clause g
        return first :: (← g.clauses)) :=
    (carries_clause h).bind fun first ↦ h.clauses.bind fun rest ↦ Carries.pure rfl
  unfold Rule.clauses
  refine carries_peek?.bind fun kind ↦ ?_
  dsimp only [id]
  split
  · exact hmore
  · exact hmore
  · exact Carries.pure rfl

/-! ### Other statements -/

theorem carries_returnStmt (h : move.CarriesAll g) :
    move.Carries move.stmt (Rule.returnStmt g) (Rule.returnStmt g) := by
  have hrest : ∀ start results, move.Carries move.stmt
      (do return .ret (← Parser.nodeFrom start) results)
      (do return .ret (← Parser.nodeFrom (move.pos start)) (move.exprs results)) :=
    fun start results ↦ (carries_nodeFrom start).bind fun info ↦ Carries.pure rfl
  unfold Rule.returnStmt
  simp only [pure_bind]
  refine carries_start.bind fun start ↦ carries_bump.bind fun _ ↦ (carries_isNext _).bind fun _ ↦
    (carries_isNext _).bind fun _ ↦ Carries.ite ?_ ?_
  · exact hrest start []
  · exact h.exprs.bind fun results ↦ hrest start results

theorem carries_branchStmt (isBreak : Bool) :
    move.Carries move.stmt (Rule.branchStmt isBreak) (Rule.branchStmt isBreak) := by
  unfold Rule.branchStmt
  exact carries_start.bind fun start ↦ carries_bump.bind fun _ ↦
    (carries_nodeFrom start).bind fun info ↦ Carries.pure rfl

theorem carries_deferredStmt (h : move.CarriesAll g) (isGo : Bool) :
    move.Carries move.stmt (Rule.deferredStmt g isGo) (Rule.deferredStmt g isGo) := by
  unfold Rule.deferredStmt
  refine carries_start.bind fun start ↦ carries_bump.bind fun _ ↦ h.expr.bind fun call ↦ ?_
  rw [unparen_expr]
  cases call.unparen with
  | call info callee args =>
    exact (carries_nodeFrom start).bind fun info ↦ Carries.pure rfl
  | _ => exact carries_fail _ _

theorem carries_declStmt (h : move.CarriesAll g) :
    move.Carries move.stmt (Rule.declStmt g) (Rule.declStmt g) := by
  unfold Rule.declStmt
  refine h.genDecl.bind fun decl ↦ ?_
  rw [info_genDecl, span_info]
  exact (carries_node _).bind fun info ↦ Carries.pure rfl

theorem carries_stmt (h : move.CarriesAll g) :
    move.Carries move.stmt (Rule.stmt g) (Rule.stmt g) := by
  unfold Rule.stmt
  refine carries_peek?.bind fun kind ↦ ?_
  dsimp only [id]
  split
  · exact carries_declStmt h
  · exact carries_declStmt h
  · exact carries_declStmt h
  · exact carries_returnStmt h
  · exact carries_branchStmt true
  · exact carries_branchStmt false
  · exact carries_branchStmt false
  · exact h.block.map fun block ↦ rfl
  · exact h.condStmt
  · exact carries_loopStmt h
  · exact carries_switchStmt h
  · exact carries_deferredStmt h true
  · exact carries_deferredStmt h false
  · exact h.simpleStmt

end Relocation

end PackageAtlas
