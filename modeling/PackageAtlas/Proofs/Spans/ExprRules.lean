import PackageAtlas.Proofs.Spans.Steps

/-!
The rules for types, signatures and expressions build their trees, if the parsers of all
nonterminals do. A parameter list is built in two rounds: entries first, and then the fields that
group them. What goes on after an operand takes the operand's tree into its own.
-/

set_option autoImplicit false
set_option relaxedAutoImplicit false

namespace PackageAtlas

open Node

/-- The nodes of the entries of a parameter list before they are grouped into fields. -/
def entryNodes (entries : List (Expr × Option Expr)) : List Node :=
  entries.flatMap fun entry ↦ ofExpr entry.1 :: entry.2.toList.map ofExpr

theorem entryNodes_cons (entry : Expr × Option Expr) (rest : List (Expr × Option Expr)) :
    entryNodes (entry :: rest) =
      ofExpr entry.1 :: entry.2.toList.map ofExpr ++ entryNodes rest := rfl

@[simp] theorem Node.span_ofExpr (e : Expr) : (ofExpr e).span = e.span := by
  rw [Node.span, info_ofExpr, Expr.span]

/-- The parsers of all nonterminals build their trees, and all but those of lists that may be empty
read something. A parser that goes on after an operand starts from its tree. -/
structure BuildsAll (g : Grammar) : Prop where
  decls : Builds g.decls false (List.map ofDecl)
  importDecls : Builds g.importDecls false (List.map ofDecl)
  genDecl : Builds g.genDecl true fun decl ↦ [.genDecl decl]
  specs : ∀ kind, Builds (g.specs kind) false (List.map ofSpec)
  spec : ∀ kind docOffset, Builds (g.spec kind docOffset) true fun spec ↦ [ofSpec spec]
  funcDecl : Builds g.funcDecl true fun decl ↦ [.funcDecl decl]
  signature : ∀ start hasRead, Reads start [] hasRead (g.signature start) (fun _ ↦ true)
    fun type ↦ [.funcType type]
  parameters : Builds g.parameters true (List.map .field)
  parameterEntries : Builds g.parameterEntries false entryNodes
  idents : Builds g.idents true (List.map .ident)
  type : Builds g.type true fun type ↦ [ofExpr type]
  structFields : Builds g.structFields false (List.map .field)
  interfaceElements : Builds g.interfaceElements false (List.map .field)
  block : Builds g.block true fun block ↦ [.block block]
  stmts : Builds g.stmts false (List.map ofStmt)
  stmt : Builds g.stmt true fun stmt ↦ [ofStmt stmt]
  simpleStmt : Builds g.simpleStmt true fun stmt ↦ [ofStmt stmt]
  condStmt : Builds g.condStmt true fun stmt ↦ [ofStmt stmt]
  clauses : Builds g.clauses false (List.map .clause)
  exprs : Builds g.exprs true (List.map ofExpr)
  binary : ∀ minimum, Builds (g.binary minimum) true fun expr ↦ [ofExpr expr]
  binaryRest : ∀ minimum left lo trees hasRead, Reads lo (trees ++ [ofExpr left]) hasRead
    (g.binaryRest minimum left) (fun _ ↦ hasRead) fun expr ↦ trees ++ [ofExpr expr]
  unary : Builds g.unary true fun expr ↦ [ofExpr expr]
  primary : Builds g.primary true fun expr ↦ [ofExpr expr]
  postfixRest : ∀ start operand, Reads start [ofExpr operand] true (g.postfixRest start operand)
    (fun _ ↦ true) fun expr ↦ [ofExpr expr]
  args : Builds g.args false (List.map ofExpr)
  elements : Builds g.elements false (List.map ofExpr)

theorem BuildsAll.expr {g : Grammar} (h : BuildsAll g) :
    Builds g.expr true fun expr ↦ [ofExpr expr] := h.binary 1

/-- Going on after a choice is going on in both cases. -/
theorem Parser.ite_bind {α β : Type} {c : Prop} [Decidable c] (parser parser' : Parser α)
    (next : α → Parser β) :
    (if c then parser else parser') >>= next = if c then parser >>= next else parser' >>= next :=
  apply_ite (· >>= next) c parser parser'

/-- A signature from where it starts. -/
theorem BuildsAll.signatureThere {g : Grammar} (h : BuildsAll g) :
    Builds (Parser.start >>= g.signature) true fun type ↦ [.funcType type] :=
  .fromStart fun start ↦ h.signature start false

section Lists

variable {α β γ : Type} {parser : Parser α} {rest : Parser (List α)} {node : α → Node}
  {progress : Bool}

/-- One element and the others. -/
theorem Builds.cons (hfirst : Builds parser progress fun a ↦ [node a])
    (hrest : Builds rest false (List.map node)) (separate : Parser Unit)
    (hseparate : Skips separate false) :
    Builds (do let first ← parser; separate; return first :: (← rest)) progress (List.map node) :=
  .of fun _ _ _ ↦ hfirst.bind fun first ↦ hseparate.bind fun _ ↦ hrest.bind fun others ↦
    .pure (by simp) id

/-- Elements with commas between them, at least one. -/
theorem Builds.commaList (hfirst : Builds parser true fun a ↦ [node a])
    (hrest : Builds rest progress (List.map node)) :
    Builds (do
      let first ← parser
      if ← Parser.eat .comma then return first :: (← rest) else return [first]) true
      (List.map node) :=
  .of fun _ _ _ ↦ hfirst.bind fun first ↦ (skips_eat _).bind fun _ ↦ .ite
    (hrest.bind fun others ↦ .pure (by simp) fun _ ↦ Bool.or_true progress)
    (.pure rfl id)

end Lists

section Types

variable {g : Grammar} (h : BuildsAll g)
include h

theorem builds_idents : Builds (Rule.idents g) true (List.map .ident) := by
  unfold Rule.idents
  exact builds_ident.commaList h.idents

/-! ### Signatures -/

omit h in
theorem reads_unnamedField (lo : Nat) (left right : List Node) (hasRead : Bool) (type : Expr) :
    Reads lo (left ++ ofExpr type :: right) hasRead (Rule.unnamedField type) (fun _ ↦ hasRead)
      fun field ↦ left ++ .field field :: right := by
  unfold Rule.unnamedField
  rw [List.append_cons]
  refine Reads.node (fun info ↦ .field ⟨info, [], type⟩) (fun _ ↦ ⟨rfl, rfl, rfl⟩) (fun _ ↦ ?_)
    fun _ ↦ .pure rfl id
  rw [← span_ofExpr]
  exact hull_self _

theorem reads_signature (start : Nat) (hasRead : Bool) :
    Reads start [] hasRead (Rule.signature g start) (fun _ ↦ true) fun type ↦ [.funcType type] := by
  have hrest : ∀ params results, Reads start (params.map .field ++ results.map .field) true
      (do return (⟨← Parser.nodeFrom start, params, results⟩ : FuncType)) (fun _ ↦ true)
      fun type ↦ [.funcType type] :=
    fun params results ↦ Reads.close fun _ ↦ ⟨rfl, rfl, rfl⟩
  unfold Rule.signature
  simp only [pure_bind]
  refine h.parameters.bind fun params ↦ .looking (looks_isNext _) fun _ ↦
    .looking looks_peek? fun kind ↦ .ite ?_ (.ite ?_ ?_)
  · exact h.parameters.bind fun results ↦ hrest params results
  · exact h.type.bind fun type ↦ (reads_unnamedField start (params.map .field) [] true type).bind
      fun field ↦ hrest params [field]
  · have hnone := hrest params []
    rw [List.map_nil, List.append_nil] at hnone
    exact hnone

theorem builds_parameterEntries : Builds (Rule.parameterEntries g) false entryNodes := by
  have hrest : ∀ first type lo trees, Reads lo (trees ++ entryNodes [(first, type)]) true
      (do
        if ← Parser.eat .comma then return (first, type) :: (← g.parameterEntries)
        else return [(first, type)]) (fun _ ↦ true) fun entries ↦ trees ++ entryNodes entries := by
    refine fun first type lo trees ↦ (skips_eat _).bind fun _ ↦ .ite ?_ (.pure rfl id)
    exact h.parameterEntries.bind fun rest ↦ .pure (by simp [entryNodes]) id
  unfold Rule.parameterEntries
  simp only [pure_bind, map_eq_pure_bind, bind_assoc]
  refine .of fun lo trees hasRead ↦ .looking (looks_isNext _) fun _ ↦ .ite
    (.pure (List.append_nil _) id) (.relax ?_)
  refine h.type.bind fun first ↦ .looking (looks_isNext _) fun _ ↦ .looking (looks_isNext _) fun _ ↦
    .ite (hrest first none lo trees) ?_
  refine h.type.bind fun type ↦ ?_
  rw [List.append_assoc]
  exact hrest first (some type) lo trees

omit h in
theorem reads_unnamedFields (entries : List (Expr × Option Expr))
    (hnone : entries.all (·.2.isNone) = true) (lo : Nat) (left : List Node) (hasRead : Bool) :
    Reads lo (left ++ entryNodes entries) hasRead
      (entries.mapM fun entry ↦ Rule.unnamedField entry.1) (fun _ ↦ hasRead)
      fun fields ↦ left ++ fields.map .field := by
  induction entries generalizing left with
  | nil => exact .pure rfl id
  | cons first rest ih =>
    obtain ⟨type, other⟩ := first
    obtain ⟨hother, hrest⟩ := Bool.and_eq_true_iff.1 hnone
    obtain rfl : other = none := Option.isNone_iff_eq_none.1 hother
    rw [List.mapM_cons, entryNodes_cons]
    refine (reads_unnamedField lo left (entryNodes rest) hasRead type).bind fun field ↦ ?_
    rw [List.append_cons]
    exact (ih hrest _).bind fun fields ↦ .pure (by simp) id

omit h in
/-- Names that wait for a type and entries become fields: a field takes in its names and its
type. -/
theorem reads_namedFields (entries : List (Expr × Option Expr)) (pending : List Ident) (lo : Nat)
    (left : List Node) (hasRead : Bool) :
    Reads lo (left ++ pending.map .ident ++ entryNodes entries) hasRead
      (Rule.namedFields pending entries) (fun _ ↦ hasRead)
      fun fields ↦ left ++ fields.map .field := by
  induction entries generalizing pending left with
  | nil =>
    unfold Rule.namedFields
    split
    · rename_i hpending
      rw [List.isEmpty_iff.1 hpending]
      exact .pure (by simp [entryNodes]) id
    · exact .fail
  | cons first rest ih =>
    obtain ⟨name, type⟩ := first
    cases name with
    | ident name =>
      cases type with
      | none =>
        have hpending := ih (pending ++ [name]) left
        simp only [List.map_append, List.append_assoc] at hpending ⊢
        exact hpending
      | some type =>
        have htrees : left ++ pending.map .ident ++ entryNodes ((.ident name, some type) :: rest) =
            left ++ ((pending ++ [name]).map .ident ++ [ofExpr type]) ++ entryNodes rest := by
          simp [entryNodes_cons, ofExpr]
        have hhead : ((pending ++ [name]).map Node.ident ++ [ofExpr type]).head? =
            some (.ident (pending.head?.getD name)) := by
          cases pending <;> rfl
        have hstart : ((pending ++ [name]).head?.map (·.pos)).getD name.pos =
            (Node.ident (pending.head?.getD name)).span.start := by
          cases pending <;> rfl
        unfold Rule.namedFields
        dsimp only
        rw [htrees, hstart, ← span_ofExpr]
        refine Reads.node (fun info ↦ .field ⟨info, pending ++ [name], type⟩)
          (fun _ ↦ ⟨rfl, rfl, rfl⟩) (fun hrun ↦ hrun.hull hhead List.getLast?_concat) fun info ↦ ?_
        rw [List.append_cons]
        have hfields := ih [] (left ++ [.field ⟨info, pending ++ [name], type⟩])
        rw [List.map_nil, List.append_nil] at hfields
        exact hfields.bind fun fields ↦ .pure (by simp) id
    | _ => exact .fail

theorem builds_parameters : Builds (Rule.parameters g) true (List.map .field) := by
  unfold Rule.parameters
  refine .of fun lo trees hasRead ↦ (skips_expect (by decide)).bind fun _ ↦
    h.parameterEntries.bind fun entries ↦ (skips_expect (by decide)).bind fun _ ↦ ?_
  split
  · rename_i hnone
    exact reads_unnamedFields entries hnone lo trees true
  · have hnamed := reads_namedFields entries [] lo trees true
    rw [List.map_nil, List.append_nil] at hnamed
    exact hnamed

/-! ### Types -/

omit h in
theorem builds_typeName : Builds Rule.typeName true fun type ↦ [ofExpr type] := by
  unfold Rule.typeName
  refine .fromStart fun start ↦ builds_ident.bind fun name ↦ .looking (looks_isNext _) fun _ ↦
    .looking looks_peekSecond? fun _ ↦ .ite ?_ (.pure rfl id)
  exact skips_bump.bind fun _ ↦ builds_ident.bind fun selected ↦ .close fun _ ↦ ⟨rfl, rfl, rfl⟩

theorem builds_arrayType : Builds (Rule.arrayType g) true fun type ↦ [ofExpr type] := by
  have hrest : ∀ start length, Reads start (length.toList.map ofExpr) true
      (do
        let _ ← Parser.expect .rbracket
        let element ← g.type
        return .arrayType (← Parser.nodeFrom start) length element) (fun _ ↦ true)
      fun type ↦ [ofExpr type] :=
    fun start length ↦ (skips_expect (by decide)).bind fun _ ↦ h.type.bind fun element ↦
      .close fun _ ↦ ⟨rfl, rfl, rfl⟩
  unfold Rule.arrayType
  simp only [pure_bind, map_eq_pure_bind, bind_assoc]
  refine .fromStart fun start ↦ (skips_expect (by decide)).bind fun _ ↦
    .looking (looks_isNext _) fun _ ↦ .ite (hrest start none) ?_
  exact h.expr.nested.bind fun length ↦ hrest start (some length)

theorem builds_mapType : Builds (Rule.mapType g) true fun type ↦ [ofExpr type] := by
  unfold Rule.mapType
  exact .fromStart fun start ↦ (skips_expect (by decide)).bind fun _ ↦
    (skips_expect (by decide)).bind fun _ ↦ h.type.bind fun key ↦
    (skips_expect (by decide)).bind fun _ ↦ h.type.bind fun value ↦ .close fun _ ↦ ⟨rfl, rfl, rfl⟩

omit h in
theorem looks_isEmbedded : Looks Rule.isEmbedded := by
  unfold Rule.isEmbedded
  refine (looks_isNext _).bind fun _ ↦ .ite (.pure _) ?_
  exact (looks_isNext _).bind fun _ ↦ .ite (looks_peekSecond?.bind fun _ ↦ .pure _) (.pure _)

/-- A field of a struct up to its terminator. -/
def Rule.structField (g : Grammar) : Parser Field := do
  let start ← Parser.start
  let names ← if ← Rule.isEmbedded then pure [] else g.idents
  let type ← g.type
  let _ ← Parser.eat .string
  return ⟨← Parser.nodeFrom start, names, type⟩

omit h in
theorem Rule.structFields_eq : Rule.structFields g = (do
    if (← Parser.isNext .rbrace) || (← Parser.isDone) then return []
    let field ← Rule.structField g
    Parser.separator
    return field :: (← g.structFields)) := by
  unfold Rule.structFields Rule.structField
  simp only [bind_assoc, pure_bind, Parser.ite_bind]

theorem builds_structField : Builds (Rule.structField g) true fun field ↦ [.field field] := by
  have hrest : ∀ start names hasRead, Reads start (names.map .ident) hasRead
      (do
        let type ← g.type
        let _ ← Parser.eat .string
        return (⟨← Parser.nodeFrom start, names, type⟩ : Field)) (fun _ ↦ true)
      fun field ↦ [.field field] :=
    fun start names hasRead ↦ h.type.bind fun type ↦ (skips_eat _).bind fun _ ↦
      .close fun _ ↦ ⟨rfl, rfl, rfl⟩
  unfold Rule.structField
  simp only [pure_bind]
  refine .fromStart fun start ↦ .looking looks_isEmbedded fun _ ↦ .ite (hrest start [] false) ?_
  exact h.idents.bind fun names ↦ hrest start names true

theorem builds_structFields : Builds (Rule.structFields g) false (List.map .field) := by
  rw [Rule.structFields_eq]
  exact .of fun lo trees hasRead ↦ .looking (looks_isNext _) fun _ ↦ .looking looks_isDone fun _ ↦
    .ite (.pure (List.append_nil _) id) (.relax <|
      ((builds_structField h).cons h.structFields _ skips_separator).reads lo trees hasRead)

theorem builds_structType : Builds (Rule.structType g) true fun type ↦ [ofExpr type] := by
  unfold Rule.structType
  exact .fromStart fun start ↦ (skips_expect (by decide)).bind fun _ ↦
    (skips_expect (by decide)).bind fun _ ↦ h.structFields.bind fun fields ↦
    (skips_expect (by decide)).bind fun _ ↦ .close fun _ ↦ ⟨rfl, rfl, rfl⟩

/-- An element of an interface up to its terminator. -/
def Rule.interfaceElement (g : Grammar) : Parser Field := do
  let start ← Parser.start
  let (names, type) ←
    if (← Parser.isNext .ident) && (← Parser.peekSecond?) == some .lparen then do
      let name ← Parser.ident
      let type ← g.signature (← Parser.start)
      pure ([name], Expr.funcType type)
    else do pure ([], ← Rule.typeName)
  return ⟨← Parser.nodeFrom start, names, type⟩

omit h in
theorem Rule.interfaceElements_eq : Rule.interfaceElements g = (do
    if (← Parser.isNext .rbrace) || (← Parser.isDone) then return []
    let element ← Rule.interfaceElement g
    Parser.separator
    return element :: (← g.interfaceElements)) := by
  unfold Rule.interfaceElements Rule.interfaceElement
  simp only [bind_assoc, pure_bind, Parser.ite_bind]

theorem builds_interfaceElement :
    Builds (Rule.interfaceElement g) true fun element ↦ [.field element] := by
  have hrest : ∀ start names type, Reads start (names.map .ident ++ [ofExpr type]) true
      (do return (⟨← Parser.nodeFrom start, names, type⟩ : Field)) (fun _ ↦ true)
      fun field ↦ [.field field] :=
    fun start names type ↦ .close fun _ ↦ ⟨rfl, rfl, rfl⟩
  unfold Rule.interfaceElement
  simp only [pure_bind]
  refine .fromStart fun start ↦ .looking (looks_isNext _) fun _ ↦ .looking looks_peekSecond? fun _ ↦
    .ite (builds_ident.bind fun name ↦ ?_) (builds_typeName.bind fun type ↦ hrest start [] type)
  rw [← bind_assoc]
  exact h.signatureThere.bind fun type ↦ hrest start [name] (.funcType type)

theorem builds_interfaceElements :
    Builds (Rule.interfaceElements g) false (List.map .field) := by
  rw [Rule.interfaceElements_eq]
  exact .of fun lo trees hasRead ↦ .looking (looks_isNext _) fun _ ↦ .looking looks_isDone fun _ ↦
    .ite (.pure (List.append_nil _) id) (.relax <| ((builds_interfaceElement h).cons
      h.interfaceElements _ skips_separator).reads lo trees hasRead)

theorem builds_interfaceType : Builds (Rule.interfaceType g) true fun type ↦ [ofExpr type] := by
  unfold Rule.interfaceType
  exact .fromStart fun start ↦ (skips_expect (by decide)).bind fun _ ↦
    (skips_expect (by decide)).bind fun _ ↦ h.interfaceElements.bind fun elements ↦
    (skips_expect (by decide)).bind fun _ ↦ .close fun _ ↦ ⟨rfl, rfl, rfl⟩

theorem builds_type : Builds (Rule.type g) true fun type ↦ [ofExpr type] := by
  unfold Rule.type
  refine .fromStart fun start ↦ .looking looks_peek? fun kind ↦ ?_
  split
  · exact builds_typeName.reads start [] false
  · exact skips_bump.bind fun _ ↦ h.type.bind fun operand ↦ .close fun _ ↦ ⟨rfl, rfl, rfl⟩
  · exact skips_bump.bind fun _ ↦ h.type.bind fun inner ↦ (skips_expect (by decide)).bind fun _ ↦
      .close fun _ ↦ ⟨rfl, rfl, rfl⟩
  · exact (builds_arrayType h).reads start [] false
  · exact (builds_mapType h).reads start [] false
  · exact (builds_structType h).reads start [] false
  · exact (builds_interfaceType h).reads start [] false
  · exact skips_bump.bind fun _ ↦ (h.signature start false).bind fun type ↦ .pure rfl id
  · exact .fail

end Types

/-! ### Expressions -/

section Exprs

variable {g : Grammar} (h : BuildsAll g)
include h

theorem builds_exprs : Builds (Rule.exprs g) true (List.map ofExpr) := by
  unfold Rule.exprs
  exact h.expr.commaList h.exprs

/-! ### Operators -/

theorem builds_binary (minimum : Nat) :
    Builds (Rule.binary g minimum) true fun expr ↦ [ofExpr expr] := by
  unfold Rule.binary
  exact .of fun lo trees hasRead ↦ h.unary.bind fun left ↦ h.binaryRest minimum left lo trees _

theorem reads_binaryRest (minimum : Nat) (left : Expr) (lo : Nat) (trees : List Node)
    (hasRead : Bool) :
    Reads lo (trees ++ [ofExpr left]) hasRead (Rule.binaryRest g minimum left) (fun _ ↦ hasRead)
      fun expr ↦ trees ++ [ofExpr expr] := by
  unfold Rule.binaryRest
  refine .looking looks_peek? fun kind ↦ ?_
  split
  · exact .pure rfl id
  · rename_i op _
    refine .ite (.pure rfl id) (skips_bump.bind fun _ ↦ (h.binary _).bind fun right ↦ ?_)
    rw [List.append_assoc]
    refine Reads.nodeLast (fun info ↦ ofExpr (.binary info op left right))
      (fun _ ↦ ⟨rfl, rfl, rfl⟩) (fun _ ↦ ?_) fun info ↦
      (h.binaryRest minimum (.binary info op left right) lo trees true).relax
    rw [← span_ofExpr, ← span_ofExpr]
    exact hull_cover _ _

theorem builds_unary : Builds (Rule.unary g) true fun expr ↦ [ofExpr expr] := by
  unfold Rule.unary
  refine .fromStart fun start ↦ .looking looks_peek? fun kind ↦ ?_
  split
  · exact skips_bump.bind fun _ ↦ h.unary.bind fun operand ↦ .close fun _ ↦ ⟨rfl, rfl, rfl⟩
  · split
    · exact skips_bump.bind fun _ ↦ h.unary.bind fun operand ↦ .close fun _ ↦ ⟨rfl, rfl, rfl⟩
    · exact h.primary.reads start [] false

/-! ### Operands -/

omit h in
theorem reads_literal {wanted : TokenKind} (hwanted : wanted ≠ .semicolon) (kind : LiteralKind)
    (start : Nat) :
    ReadsAt (some wanted) start [] false (Rule.literal kind) (fun _ ↦ true)
      fun expr ↦ [ofExpr expr] := by
  unfold Rule.literal
  rw [← bind_assoc]
  exact (buildsAt_bumpLiteral kind hwanted).bind fun literal ↦ .pure rfl id

theorem builds_body : Builds (Rule.body g) true fun block ↦ [.block block] := h.block.withLevel _

theorem builds_operand : Builds (Rule.operand g) true fun expr ↦ [ofExpr expr] := by
  unfold Rule.operand
  refine .fromStart fun start ↦ .peek fun kind ↦ ?_
  split
  · exact (builds_ident _).bind fun name ↦ .pure rfl id
  · exact reads_literal (by decide) .int start
  · exact reads_literal (by decide) .float start
  · exact reads_literal (by decide) .char start
  · exact reads_literal (by decide) .string start
  · exact .bumping (by decide) fun _ ↦ h.expr.nested.bind fun inner ↦
      (skips_expect (by decide)).bind fun _ ↦ .close fun _ ↦ ⟨rfl, rfl, rfl⟩
  · exact .bumping (by decide) fun _ ↦ (h.signature start true).bind fun type ↦
      .looking (looks_isNext _) fun _ ↦ .ite ((builds_body h).bind fun body ↦
        .close fun _ ↦ ⟨rfl, rfl, rfl⟩) (.pure rfl id)
  · exact h.type.reads start [] false _
  · exact h.type.reads start [] false _
  · exact h.type.reads start [] false _
  · exact h.type.reads start [] false _
  · exact Reads.fail _

theorem builds_primary : Builds (Rule.primary g) true fun expr ↦ [ofExpr expr] := by
  unfold Rule.primary
  exact .fromStart fun start ↦ (builds_operand h).bind fun operand ↦ h.postfixRest start operand

/-! ### What follows an operand -/

theorem builds_args : Builds (Rule.args g) false (List.map ofExpr) := by
  unfold Rule.args
  exact .of fun lo trees hasRead ↦ .looking (looks_isNext _) fun _ ↦
    .ite (.pure (List.append_nil _) id) (.relax <|
      (h.expr.commaList h.args).reads lo trees hasRead)

theorem builds_elements : Builds (Rule.elements g) false (List.map ofExpr) := by
  have hrest : ∀ element lo trees, Reads lo (trees ++ [ofExpr element]) true
      (do
        if ← Parser.eat .comma then return element :: (← g.elements) else return [element])
      (fun _ ↦ true) fun elements ↦ trees ++ elements.map ofExpr := by
    refine fun element lo trees ↦ (skips_eat _).bind fun _ ↦ .ite ?_ (.pure rfl id)
    exact h.elements.bind fun rest ↦ .pure (by simp) id
  unfold Rule.elements
  simp only [pure_bind]
  refine .of fun lo trees hasRead ↦ .looking (looks_isNext _) fun _ ↦ .ite
    (.pure (List.append_nil _) id) (.relax ?_)
  refine h.expr.bind fun key ↦ (skips_eat _).bind fun _ ↦ .ite ?_ (hrest key lo trees)
  refine h.expr.bind fun value ↦ ?_
  rw [List.append_assoc]
  refine Reads.nodeLast (fun info ↦ ofExpr (.keyValue info key value)) (fun _ ↦ ⟨rfl, rfl, rfl⟩)
    (fun _ ↦ ?_) fun info ↦ hrest (.keyValue info key value) lo trees
  rw [← span_ofExpr, ← span_ofExpr]
  exact hull_cover _ _

theorem reads_composite (start : Nat) (type : Expr) :
    Reads start [ofExpr type] true (Rule.composite g start type) (fun _ ↦ true)
      fun expr ↦ [ofExpr expr] := by
  unfold Rule.composite
  exact (skips_expect (by decide)).bind fun _ ↦ (h.elements.withLevel _).bind fun elements ↦
    (skips_expect (by decide)).bind fun _ ↦ .close fun _ ↦ ⟨rfl, rfl, rfl⟩

theorem reads_afterDot (start : Nat) (operand : Expr) :
    Reads start [ofExpr operand] true (Rule.afterDot g start operand) (fun _ ↦ true)
      fun expr ↦ [ofExpr expr] := by
  have hrest : ∀ type : Option Expr, Reads start ([ofExpr operand] ++ type.toList.map ofExpr) true
      (do
        let _ ← Parser.expect .rparen
        return .typeAssert (← Parser.nodeFrom start) operand type) (fun _ ↦ true)
      fun expr ↦ [ofExpr expr] :=
    fun type ↦ (skips_expect (by decide)).bind fun _ ↦ .close fun _ ↦ ⟨rfl, rfl, rfl⟩
  unfold Rule.afterDot
  simp only [pure_bind, map_eq_pure_bind, bind_assoc]
  refine (skips_eat _).bind fun _ ↦ .ite ((skips_eat _).bind fun _ ↦ .ite (hrest none) ?_) ?_
  · exact h.type.bind fun type ↦ hrest (some type)
  · exact builds_ident.bind fun selected ↦ .close fun _ ↦ ⟨rfl, rfl, rfl⟩

theorem reads_postfixRest (start : Nat) (operand : Expr) :
    Reads start [ofExpr operand] true (Rule.postfixRest g start operand) (fun _ ↦ true)
      fun expr ↦ [ofExpr expr] := by
  unfold Rule.postfixRest
  refine .looking looks_peek? fun kind ↦ ?_
  split
  · exact skips_bump.bind fun _ ↦ (reads_afterDot h start operand).bind fun expr ↦
      h.postfixRest start expr
  · exact skips_bump.bind fun _ ↦ h.expr.nested.bind fun key ↦
      (skips_expect (by decide)).bind fun _ ↦
      .nodeFrom (fun info ↦ ofExpr (.index info operand key)) (fun _ ↦ ⟨rfl, rfl, rfl⟩)
        fun _ ↦ h.postfixRest start _
  · exact skips_bump.bind fun _ ↦ h.args.nested.bind fun args ↦
      (skips_expect (by decide)).bind fun _ ↦
      .nodeFrom (fun info ↦ ofExpr (.call info operand args)) (fun _ ↦ ⟨rfl, rfl, rfl⟩)
        fun _ ↦ h.postfixRest start _
  · exact .looking looks_get fun _ ↦ .ite ((reads_composite h start operand).bind fun expr ↦
      h.postfixRest start expr) (.pure rfl id)
  · exact .pure rfl id

end Exprs

end PackageAtlas
