import PackageAtlas.Proofs.Operators.Formulas
import PackageAtlas.Proofs.Spans.StmtRules

/-!
What is parsed in an expression besides operators and operands: types, signatures, declarations and
statements. Operands fit in all of it, if they do in what the parsers of all nonterminals return
(`FitAll`). Parsers are judged by what they return, and those for operators by the token that they
leave as well.
-/

set_option autoImplicit false
set_option relaxedAutoImplicit false

namespace PackageAtlas

open Node

/-! ### Trees whose operands fit -/

/-- The operands of a node fit, if it is an expression. -/
def Node.Fits : Node → Prop
  | .expr e => e.Fits
  | _ => True

/-- The operands of all nodes of a tree fit. -/
def Node.Fitted (tree : Node) : Prop := ∀ node ∈ tree.nodes, node.Fits

def AllFitted (trees : List Node) : Prop := ∀ tree ∈ trees, tree.Fitted

@[simp] theorem allFitted_nil : AllFitted [] := fun _ h ↦ by cases h

@[simp] theorem allFitted_cons {tree : Node} {trees : List Node} :
    AllFitted (tree :: trees) ↔ tree.Fitted ∧ AllFitted trees :=
  List.forall_mem_cons

@[simp] theorem allFitted_append {trees trees' : List Node} :
    AllFitted (trees ++ trees') ↔ AllFitted trees ∧ AllFitted trees' :=
  List.forall_mem_append

theorem fitted_node {node : Node} (hfits : node.Fits) (hchildren : AllFitted node.children) :
    node.Fitted := by
  intro other hother
  rw [nodes_eq] at hother
  rcases List.mem_cons.1 hother with rfl | hbelow
  · exact hfits
  · obtain ⟨child, hchild, hin⟩ := List.mem_flatMap.1 hbelow
    exact hchildren child hchild other hin

@[simp] theorem fitted_ident (i : Ident) : (Node.ident i).Fitted :=
  fitted_node trivial allFitted_nil

@[simp] theorem allFitted_idents (names : List Ident) : AllFitted (names.map .ident) :=
  List.forall_mem_map.2 fun i _ ↦ fitted_ident i

theorem fitted_ofExpr {e : Expr} (hfits : e.Fits) (hchildren : AllFitted (exprChildren e)) :
    (ofExpr e).Fitted := by
  cases e with
  | ident i => exact fitted_ident i
  | funcType type => exact fitted_node trivial hchildren
  | _ => exact fitted_node hfits hchildren

theorem fitted_ofStmt {s : Stmt} (hchildren : AllFitted (stmtChildren s)) : (ofStmt s).Fitted := by
  cases s with
  | block b => exact fitted_node trivial hchildren
  | _ => exact fitted_node trivial hchildren

/-- An expression that holds together at least so tightly, and in which all operands fit. -/
structure Expr.FittedAt (limit : Nat) (e : Expr) : Prop where
  le_tightness : limit ≤ e.tightness
  fitted : (ofExpr e).Fitted

theorem Expr.FittedAt.mono {limit limit' : Nat} {e : Expr} (h : e.FittedAt limit)
    (hle : limit' ≤ limit) : e.FittedAt limit' :=
  ⟨hle.trans h.le_tightness, h.fitted⟩

/-- Whether only operators looser than a limit may come next. -/
def Loose (limit : Nat) (kind : Option TokenKind) : Prop :=
  ∀ op, kind.bind Rule.binaryOp? = some op → op.precedence < limit

/-! ### What parsers return -/

section Judgement

variable {α β : Type}

/-- What holds of the result of a parser and of the kind of the token behind it, where the next
token is of a given kind. -/
def ReturnsAt (kind : Option TokenKind) (parser : Parser α) (post : α → Option TokenKind → Prop) :
    Prop :=
  ∀ input state a state', state.tokens.head?.map (·.kind) = kind →
    parser input state = .ok (a, state') → post a (state'.tokens.head?.map (·.kind))

/-- What holds of the result of a parser. -/
def Returns (parser : Parser α) (post : α → Prop) : Prop :=
  ∀ kind, ReturnsAt kind parser fun a _ ↦ post a

namespace ReturnsAt

variable {kind : Option TokenKind} {parser parser' : Parser α} {next : α → Parser β}
  {mid : α → Option TokenKind → Prop} {post : β → Option TokenKind → Prop}

theorem pure {a : α} (h : mid a kind) : ReturnsAt kind (Pure.pure a) mid := by
  intro input state a' state' hkind hrun
  cases hrun
  exact hkind ▸ h

theorem fail {complaint : Complaint} : ReturnsAt kind (Parser.fail complaint) mid :=
  fun _ _ _ _ _ hrun ↦ absurd hrun Parser.fail_ne_ok

theorem bind (h : ReturnsAt kind parser mid)
    (hnext : ∀ a kind, mid a kind → ReturnsAt kind (next a) post) :
    ReturnsAt kind (parser >>= next) post := by
  intro input state b state' hkind hrun
  obtain ⟨a, middle, hrun, hrest⟩ := Parser.bind_eq_ok hrun
  exact hnext a _ (h _ _ _ _ hkind hrun) _ _ _ _ rfl hrest

/-- Going on after a parser of which nothing is known. -/
theorem skip (hnext : ∀ a kind, ReturnsAt kind (next a) post) :
    ReturnsAt kind (parser >>= next) post := by
  intro input state b state' _ hrun
  obtain ⟨a, middle, _, hrest⟩ := Parser.bind_eq_ok hrun
  exact hnext a _ _ _ _ _ rfl hrest

theorem ite {c : Prop} [Decidable c] (h : ReturnsAt kind parser mid)
    (h' : ReturnsAt kind parser' mid) : ReturnsAt kind (if c then parser else parser') mid := by
  split
  · exact h
  · exact h'

theorem looking (hlooks : Looks parser) (hnext : ∀ a, ReturnsAt kind (next a) post) :
    ReturnsAt kind (parser >>= next) post := by
  intro input state b state' hkind hrun
  obtain ⟨a, middle, hrun, hrest⟩ := Parser.bind_eq_ok hrun
  obtain rfl := hlooks _ _ _ _ hrun
  exact hnext a _ _ _ _ hkind hrest

theorem peek {next : Option TokenKind → Parser β} (hnext : ReturnsAt kind (next kind) post) :
    ReturnsAt kind (Parser.peek? >>= next) post := by
  intro input state b state' hkind hrun
  obtain ⟨found, middle, hpeek, hrest⟩ := Parser.bind_eq_ok hrun
  cases hpeek
  rw [hkind] at hrest
  exact hnext _ _ _ _ hkind hrest

end ReturnsAt

/-- A new node leaves the tokens as they are. -/
theorem returnsAt_node (kind : Option TokenKind) (span : Span) :
    ReturnsAt kind (Parser.node span) fun _ after ↦ after = kind := by
  intro input state info state' hkind hrun
  cases hrun
  exact hkind

namespace Returns

variable {parser parser' : Parser α} {next : α → Parser β} {mid : α → Prop} {post : β → Prop}

theorem pure {a : α} (h : mid a) : Returns (Pure.pure a) mid := fun _ ↦ .pure h

theorem fail {complaint : Complaint} : Returns (Parser.fail complaint) mid := fun _ ↦ .fail

theorem bind (h : Returns parser mid) (hnext : ∀ a, mid a → Returns (next a) post) :
    Returns (parser >>= next) post :=
  fun kind ↦ (h kind).bind fun a kind ha ↦ hnext a ha kind

theorem skip (hnext : ∀ a, Returns (next a) post) : Returns (parser >>= next) post :=
  fun _ ↦ .skip fun a kind ↦ hnext a kind

theorem failing {complaint : Complaint} : Returns (Parser.fail complaint >>= next) post := by
  intro kind input state b state' _ hrun
  obtain ⟨_, _, hrun, _⟩ := Parser.bind_eq_ok hrun
  exact absurd hrun Parser.fail_ne_ok

theorem ite {c : Prop} [Decidable c] (h : Returns parser mid) (h' : Returns parser' mid) :
    Returns (if c then parser else parser') mid :=
  fun kind ↦ (h kind).ite (h' kind)

theorem weaken {mid' : α → Prop} (h : Returns parser mid) (hweaken : ∀ a, mid a → mid' a) :
    Returns parser mid' :=
  fun kind input state a state' hkind hrun ↦ hweaken a (h kind input state a state' hkind hrun)

theorem withLevel (h : Returns parser mid) (level : Int → Int) :
    Returns (Parser.withLevel level parser) mid :=
  skip fun _ ↦ skip fun _ ↦ h.bind fun _ ha ↦ skip fun _ ↦ pure ha

theorem nested (h : Returns parser mid) : Returns (Parser.nested parser) mid := h.withLevel _

/-- Elements with commas between them, at least one. -/
theorem commaList {rest : Parser (List α)} {node : α → Node}
    (h : Returns parser fun a ↦ (node a).Fitted)
    (hrest : Returns rest fun others ↦ AllFitted (others.map node)) :
    Returns (do
      let first ← parser
      if ← Parser.eat .comma then return first :: (← rest) else return [first])
      fun all ↦ AllFitted (all.map node) :=
  h.bind fun _ hfirst ↦ skip fun _ ↦
    ite (hrest.bind fun _ hothers ↦ pure (allFitted_cons.2 ⟨hfirst, hothers⟩))
      (pure (allFitted_cons.2 ⟨hfirst, allFitted_nil⟩))

/-- One element and the others. -/
theorem cons {rest : Parser (List α)} {node : α → Node}
    (h : Returns parser fun a ↦ (node a).Fitted)
    (hrest : Returns rest fun others ↦ AllFitted (others.map node)) (separate : Parser Unit) :
    Returns (do let first ← parser; separate; return first :: (← rest))
      fun all ↦ AllFitted (all.map node) :=
  h.bind fun _ hfirst ↦ skip fun _ ↦ hrest.bind fun _ hothers ↦
    pure (allFitted_cons.2 ⟨hfirst, hothers⟩)

end Returns

end Judgement

/-! ### The grammar -/

/-- The parsers that an expression may call return trees in which all operands fit. Those for
operators return what is as tight as was asked for and leave no operator that was asked for; those
that go on after an operand do so from one that fits. -/
structure FitAll (g : Grammar) : Prop where
  genDecl : Returns g.genDecl fun decl ↦ (Node.genDecl decl).Fitted
  specs : ∀ kind, Returns (g.specs kind) fun specs ↦ AllFitted (specs.map ofSpec)
  spec : ∀ kind docOffset, Returns (g.spec kind docOffset) fun spec ↦ (ofSpec spec).Fitted
  signature : ∀ start, Returns (g.signature start) fun type ↦ (Node.funcType type).Fitted
  parameters : Returns g.parameters fun fields ↦ AllFitted (fields.map .field)
  parameterEntries : Returns g.parameterEntries fun entries ↦ AllFitted (entryNodes entries)
  type : ∀ kind, ReturnsAt kind g.type fun type _ ↦
    type.FittedAt (if kind = some .star then 6 else 7)
  structFields : Returns g.structFields fun fields ↦ AllFitted (fields.map .field)
  interfaceElements : Returns g.interfaceElements fun fields ↦ AllFitted (fields.map .field)
  block : Returns g.block fun block ↦ (Node.block block).Fitted
  stmts : Returns g.stmts fun stmts ↦ AllFitted (stmts.map ofStmt)
  stmt : Returns g.stmt fun stmt ↦ (ofStmt stmt).Fitted
  simpleStmt : Returns g.simpleStmt fun stmt ↦ (ofStmt stmt).Fitted
  condStmt : Returns g.condStmt fun stmt ↦ (ofStmt stmt).Fitted
  clauses : Returns g.clauses fun clauses ↦ AllFitted (clauses.map .clause)
  exprs : Returns g.exprs fun exprs ↦ AllFitted (exprs.map ofExpr)
  binary : ∀ minimum ≤ 6, ∀ kind, ReturnsAt kind (g.binary minimum) fun expr after ↦
    expr.FittedAt minimum ∧ Loose minimum after
  binaryRest : ∀ minimum left kind, left.FittedAt minimum → Loose (left.tightness + 1) kind →
    ReturnsAt kind (g.binaryRest minimum left) fun expr after ↦
      expr.FittedAt minimum ∧ Loose minimum after
  unary : Returns g.unary fun expr ↦ expr.FittedAt 6
  primary : Returns g.primary fun expr ↦ expr.FittedAt 7
  postfixRest : ∀ start operand, operand.FittedAt 7 →
    Returns (g.postfixRest start operand) fun expr ↦ expr.FittedAt 7
  args : Returns g.args fun args ↦ AllFitted (args.map ofExpr)
  elements : Returns g.elements fun elements ↦ AllFitted (elements.map ofExpr)

section Rules

variable {g : Grammar} (h : FitAll g)
include h

theorem FitAll.expr : Returns g.expr fun expr ↦ (ofExpr expr).Fitted :=
  fun kind input state expr state' hkind hrun ↦
    (h.binary 1 (by decide) kind input state expr state' hkind hrun).1.fitted

theorem FitAll.anyType : Returns g.type fun type ↦ type.FittedAt 6 :=
  fun kind input state type state' hkind hrun ↦
    (h.type kind input state type state' hkind hrun).mono (by split <;> decide)

theorem FitAll.typeTree : Returns g.type fun type ↦ (ofExpr type).Fitted :=
  h.anyType.weaken fun _ htype ↦ htype.fitted

/-! ### Signatures -/

omit h in
theorem fitted_field {info : NodeInfo} {names : List Ident} {type : Expr}
    (htype : (ofExpr type).Fitted) : (Node.field ⟨info, names, type⟩).Fitted :=
  fitted_node trivial (by simpa [children] using htype)

omit h in
theorem fits_unnamedField {type : Expr} (htype : (ofExpr type).Fitted) :
    Returns (Rule.unnamedField type) fun field ↦ (Node.field field).Fitted :=
  .skip fun _ ↦ .pure (fitted_field htype)

theorem fits_signature (start : Nat) :
    Returns (Rule.signature g start) fun type ↦ (Node.funcType type).Fitted := by
  have hclose (params results : List Field) (hparams : AllFitted (params.map .field))
      (hresults : AllFitted (results.map .field)) :
      Returns (do return (⟨← Parser.nodeFrom start, params, results⟩ : FuncType))
        fun type ↦ (Node.funcType type).Fitted :=
    .skip fun _ ↦ .pure (fitted_node trivial (allFitted_append.2 ⟨hparams, hresults⟩))
  unfold Rule.signature
  simp only [pure_bind]
  refine h.parameters.bind fun params hparams ↦ .skip fun _ ↦ .skip fun _ ↦ .ite ?_ (.ite ?_ ?_)
  · exact h.parameters.bind fun results hresults ↦ hclose params results hparams hresults
  · exact h.typeTree.bind fun type htype ↦ (fits_unnamedField htype).bind fun field hfield ↦
      hclose params [field] hparams (by simpa using hfield)
  · exact hclose params [] hparams allFitted_nil

theorem fits_parameterEntries :
    Returns (Rule.parameterEntries g) fun entries ↦ AllFitted (entryNodes entries) := by
  have hrest (entry : Expr × Option Expr) (hentry : AllFitted (entryNodes [entry])) : Returns (do
      if ← Parser.eat .comma then return entry :: (← g.parameterEntries) else return [entry])
      fun entries ↦ AllFitted (entryNodes entries) := by
    refine .skip fun _ ↦ .ite (h.parameterEntries.bind fun others hothers ↦ .pure ?_)
      (.pure hentry)
    rw [entryNodes_cons, allFitted_append]
    exact ⟨by simpa [entryNodes] using hentry, hothers⟩
  unfold Rule.parameterEntries
  simp only [pure_bind, map_eq_pure_bind, bind_assoc]
  refine .skip fun _ ↦ .ite (.pure allFitted_nil) ?_
  refine h.typeTree.bind fun first hfirst ↦ .skip fun _ ↦ .skip fun _ ↦ .ite ?_ ?_
  · exact hrest (first, none) (by simpa [entryNodes] using hfirst)
  · exact h.typeTree.bind fun type htype ↦ hrest (first, some type)
      (by simpa [entryNodes] using ⟨hfirst, htype⟩)

omit h in
theorem fits_unnamedFields {entries : List (Expr × Option Expr)}
    (hentries : AllFitted (entryNodes entries)) :
    Returns (entries.mapM fun entry ↦ Rule.unnamedField entry.1)
      fun fields ↦ AllFitted (fields.map .field) := by
  induction entries with
  | nil => exact .pure allFitted_nil
  | cons entry rest ih =>
    rw [entryNodes_cons, allFitted_append, allFitted_cons] at hentries
    rw [List.mapM_cons]
    exact (fits_unnamedField hentries.1.1).bind fun field hfield ↦
      (ih hentries.2).bind fun fields hfields ↦ .pure (allFitted_cons.2 ⟨hfield, hfields⟩)

omit h in
theorem fits_namedFields {entries : List (Expr × Option Expr)} (pending : List Ident)
    (hentries : AllFitted (entryNodes entries)) :
    Returns (Rule.namedFields pending entries) fun fields ↦ AllFitted (fields.map .field) := by
  fun_induction Rule.namedFields pending entries with
  | case1 => exact .pure allFitted_nil
  | case2 => exact .fail
  | case3 pending name rest ih => exact ih (allFitted_cons.1 hentries).2
  | case4 pending name type rest names start ih =>
    obtain ⟨hentry, hrest⟩ := allFitted_append.1 hentries
    have htype : (ofExpr type).Fitted := (allFitted_cons.1 (allFitted_cons.1 hentry).2).1
    exact .skip fun info ↦ (ih hrest).bind fun fields hfields ↦
      .pure (allFitted_cons.2 ⟨fitted_field htype, hfields⟩)
  | case5 => exact .fail

theorem fits_parameters :
    Returns (Rule.parameters g) fun fields ↦ AllFitted (fields.map .field) :=
  .skip fun _ ↦ h.parameterEntries.bind fun _ hentries ↦ .skip fun _ ↦
    .ite (fits_unnamedFields hentries) (fits_namedFields [] hentries)

/-! ### Types -/

omit h in
theorem fits_typeName : Returns Rule.typeName fun type ↦ type.FittedAt 7 := by
  unfold Rule.typeName
  refine .skip fun _ ↦ .skip fun name ↦ .skip fun _ ↦ .skip fun _ ↦ .ite ?_
    (.pure ⟨le_rfl, fitted_ident name⟩)
  refine .skip fun _ ↦ .skip fun selected ↦ .skip fun info ↦ .pure ⟨le_rfl, ?_⟩
  exact fitted_ofExpr (Nat.le_refl 7) (by simp [exprChildren, ofExpr])

theorem fits_arrayType : Returns (Rule.arrayType g) fun type ↦ type.FittedAt 7 := by
  have hrest (start : Nat) (length : Option Expr) (hlength : AllFitted (length.toList.map ofExpr)) :
      Returns (do
        let _ ← Parser.expect .rbracket
        let element ← g.type
        return Expr.arrayType (← Parser.nodeFrom start) length element)
        fun type ↦ type.FittedAt 7 := by
    refine .skip fun _ ↦ h.typeTree.bind fun element helement ↦ .skip fun _ ↦ .pure ⟨le_rfl, ?_⟩
    exact fitted_ofExpr trivial (by simpa [exprChildren] using ⟨hlength, helement⟩)
  unfold Rule.arrayType
  simp only [pure_bind, map_eq_pure_bind, bind_assoc]
  refine .skip fun start ↦ .skip fun _ ↦ .skip fun _ ↦ .ite (hrest start none allFitted_nil) ?_
  exact h.expr.nested.bind fun length hlength ↦ hrest start (some length) (by simpa using hlength)

theorem fits_mapType : Returns (Rule.mapType g) fun type ↦ type.FittedAt 7 := by
  refine .skip fun _ ↦ .skip fun _ ↦ .skip fun _ ↦ h.typeTree.bind fun key hkey ↦ .skip fun _ ↦
    h.typeTree.bind fun value hvalue ↦ .skip fun _ ↦ .pure ⟨le_rfl, ?_⟩
  exact fitted_ofExpr trivial (by simpa [exprChildren] using ⟨hkey, hvalue⟩)

theorem fits_structFields :
    Returns (Rule.structFields g) fun fields ↦ AllFitted (fields.map .field) := by
  have hrest (start : Nat) (names : List Ident) : Returns (do
      let type ← g.type
      let _ ← Parser.eat .string
      return (⟨← Parser.nodeFrom start, names, type⟩ : Field))
      fun field ↦ (Node.field field).Fitted :=
    h.typeTree.bind fun type htype ↦ .skip fun _ ↦ .skip fun _ ↦ .pure (fitted_field htype)
  have hfield : Returns (Rule.structField g) fun field ↦ (Node.field field).Fitted := by
    unfold Rule.structField
    simp only [pure_bind]
    exact .skip fun start ↦ .skip fun _ ↦ .ite (hrest start [])
      (.skip fun names ↦ hrest start names)
  rw [Rule.structFields_eq]
  exact .skip fun _ ↦ .skip fun _ ↦ .ite (.pure allFitted_nil) (hfield.cons h.structFields _)

theorem fits_structType : Returns (Rule.structType g) fun type ↦ type.FittedAt 7 := by
  refine .skip fun _ ↦ .skip fun _ ↦ .skip fun _ ↦ h.structFields.bind fun fields hfields ↦
    .skip fun _ ↦ .skip fun _ ↦ .pure ⟨le_rfl, ?_⟩
  exact fitted_ofExpr trivial hfields

theorem fits_interfaceElements :
    Returns (Rule.interfaceElements g) fun fields ↦ AllFitted (fields.map .field) := by
  have hclose (start : Nat) (names : List Ident) (type : Expr) (htype : (ofExpr type).Fitted) :
      Returns (do return (⟨← Parser.nodeFrom start, names, type⟩ : Field))
        fun field ↦ (Node.field field).Fitted :=
    .skip fun _ ↦ .pure (fitted_field htype)
  have helement : Returns (Rule.interfaceElement g) fun field ↦ (Node.field field).Fitted := by
    unfold Rule.interfaceElement
    simp only [pure_bind]
    refine .skip fun start ↦ .skip fun _ ↦ .skip fun _ ↦ .ite (.skip fun name ↦ .skip fun _ ↦ ?_) ?_
    · exact (h.signature _).bind fun type htype ↦ hclose start [name] (.funcType type) htype
    · exact fits_typeName.bind fun type htype ↦ hclose start [] type htype.fitted
  rw [Rule.interfaceElements_eq]
  exact .skip fun _ ↦ .skip fun _ ↦ .ite (.pure allFitted_nil) (helement.cons h.interfaceElements _)

theorem fits_interfaceType : Returns (Rule.interfaceType g) fun type ↦ type.FittedAt 7 := by
  refine .skip fun _ ↦ .skip fun _ ↦ .skip fun _ ↦ h.interfaceElements.bind fun fields hfields ↦
    .skip fun _ ↦ .skip fun _ ↦ .pure ⟨le_rfl, ?_⟩
  exact fitted_ofExpr trivial hfields

/-- A type is as tight as an operand with a star, and tighter where no star is in front. -/
theorem fits_type (kind : Option TokenKind) : ReturnsAt kind (Rule.type g) fun type _ ↦
    type.FittedAt (if kind = some .star then 6 else 7) := by
  unfold Rule.type
  refine .looking looks_start fun start ↦ .peek ?_
  split
  · exact fits_typeName _
  · refine Returns.skip (fun _ ↦ h.anyType.bind fun operand hoperand ↦ .skip fun _ ↦
      .pure ⟨le_rfl, ?_⟩) _
    exact fitted_ofExpr hoperand.le_tightness (by simpa [exprChildren] using hoperand.fitted)
  · refine Returns.skip (fun _ ↦ h.typeTree.bind fun inner hinner ↦ .skip fun _ ↦ .skip fun _ ↦
      .pure ⟨le_rfl, ?_⟩) _
    exact fitted_ofExpr trivial (by simpa [exprChildren] using hinner)
  · exact fits_arrayType h _
  · exact fits_mapType h _
  · exact fits_structType h _
  · exact fits_interfaceType h _
  · exact Returns.skip (fun _ ↦ (h.signature start).bind fun type htype ↦
      .pure ⟨le_rfl, htype⟩) _
  · exact .fail

/-! ### Declarations and statements -/

omit h in
theorem fitted_literal (l : Literal) : (ofExpr (.literal l)).Fitted :=
  fitted_ofExpr trivial allFitted_nil

omit h in
theorem fits_importSpec (docOffset : Nat) :
    Returns (Rule.importSpec docOffset) fun spec ↦ (ofSpec spec).Fitted := by
  have hrest (start : Nat) (name : Option Ident) : Returns (do
      let path ← Parser.literalOf (← Parser.expectAs .string .importPath) .string
      return Spec.imports ⟨← Parser.nodeFrom start, name, path, ← Parser.docBefore docOffset⟩)
      fun spec ↦ (ofSpec spec).Fitted := by
    refine .skip fun _ ↦ .skip fun path ↦ .skip fun _ ↦ .skip fun _ ↦ .pure ?_
    refine fitted_node trivial (allFitted_append.2 ⟨?_, allFitted_cons.2 ⟨?_, allFitted_nil⟩⟩)
    · exact allFitted_idents name.toList
    · exact fitted_literal path
  unfold Rule.importSpec
  simp only [pure_bind, map_eq_pure_bind, bind_assoc]
  refine .skip fun start ↦ .skip fun kind ↦ ?_
  split
  · exact .skip fun name ↦ hrest start (some name)
  · exact .skip fun _ ↦ .skip fun name ↦ hrest start (some name)
  · exact hrest start none

theorem fits_typeSpec : Returns (Rule.typeSpec g) fun spec ↦ (ofSpec spec).Fitted :=
  .skip fun _ ↦ .skip fun _ ↦ .skip fun _ ↦ h.typeTree.bind fun _ htype ↦ .skip fun _ ↦
    .pure (fitted_node trivial
      (allFitted_cons.2 ⟨fitted_ident _, allFitted_cons.2 ⟨htype, allFitted_nil⟩⟩))

theorem fits_valueSpec (kind : DeclKind) :
    Returns (Rule.valueSpec g kind) fun spec ↦ (ofSpec spec).Fitted := by
  have hclose (start : Nat) (names : List Ident) (type : Option Expr) (values : List Expr)
      (htype : AllFitted (type.toList.map ofExpr)) (hvalues : AllFitted (values.map ofExpr)) :
      Returns (do
        if kind = .var && type.isNone && values.isEmpty then
          Parser.fail (.expected .typeOrInitializer)
        return Spec.value ⟨← Parser.nodeFrom start, names, type, values⟩)
        fun spec ↦ (ofSpec spec).Fitted :=
    .ite .failing <| .skip fun _ ↦ .pure <| fitted_node trivial <|
      allFitted_append.2 ⟨allFitted_append.2 ⟨allFitted_idents names, htype⟩, hvalues⟩
  have hrest (start : Nat) (names : List Ident) (type : Option Expr)
      (htype : AllFitted (type.toList.map ofExpr)) :
      Returns (do
        let values ← if ← Parser.eat .eq then g.exprs else pure []
        if kind = .var && type.isNone && values.isEmpty then
          Parser.fail (.expected .typeOrInitializer)
        return Spec.value ⟨← Parser.nodeFrom start, names, type, values⟩)
        fun spec ↦ (ofSpec spec).Fitted :=
    .skip fun _ ↦ .ite
      (h.exprs.bind fun values hvalues ↦ hclose start names type values htype hvalues)
      (hclose start names type [] htype allFitted_nil)
  unfold Rule.valueSpec
  simp only [map_eq_pure_bind, bind_assoc]
  refine .skip fun start ↦ .skip fun names ↦ .skip fun _ ↦ .skip fun _ ↦ .skip fun _ ↦ .ite ?_ ?_
  · exact hrest start names none allFitted_nil
  · exact h.typeTree.bind fun type htype ↦ hrest start names (some type) (by simpa using htype)

theorem fits_spec (kind : DeclKind) (docOffset : Nat) :
    Returns (Rule.spec g kind docOffset) fun spec ↦ (ofSpec spec).Fitted := by
  cases kind with
  | imports => exact fits_importSpec docOffset
  | type => exact fits_typeSpec h
  | const => exact fits_valueSpec h .const
  | var => exact fits_valueSpec h .var

theorem fits_specs (kind : DeclKind) :
    Returns (Rule.specs g kind) fun specs ↦ AllFitted (specs.map ofSpec) :=
  .skip fun _ ↦ .skip fun _ ↦ .ite (.pure allFitted_nil) <| .skip fun offset ↦
    (h.spec kind offset).cons (h.specs kind) _

theorem fits_genDecl : Returns (Rule.genDecl g) fun decl ↦ (Node.genDecl decl).Fitted := by
  have hclose (start : Nat) (kind : DeclKind) (specs : List Spec)
      (hspecs : AllFitted (specs.map ofSpec)) :
      Returns (do return (⟨← Parser.nodeFrom start, kind, specs⟩ : GenDecl))
        fun decl ↦ (Node.genDecl decl).Fitted :=
    .skip fun _ ↦ .pure (fitted_node trivial hspecs)
  unfold Rule.genDecl
  simp only [pure_bind]
  refine .skip fun keyword ↦ .skip fun _ ↦ .skip fun _ ↦ .ite ?_ ?_
  · exact (h.specs _).bind fun specs hspecs ↦ .skip fun _ ↦ hclose _ _ specs hspecs
  · exact (h.spec _ _).bind fun spec hspec ↦ hclose _ _ [spec] (by simpa using hspec)

theorem fits_block : Returns (Rule.block g) fun block ↦ (Node.block block).Fitted :=
  .skip fun _ ↦ .skip fun _ ↦ h.stmts.bind fun _ hstmts ↦ .skip fun _ ↦ .skip fun _ ↦
    .pure (fitted_node trivial hstmts)

theorem fits_stmts : Returns (Rule.stmts g) fun stmts ↦ AllFitted (stmts.map ofStmt) := by
  refine .skip fun kind ↦ ?_
  split
  on_goal 5 => exact .skip fun _ ↦ .ite h.stmts (h.stmt.cons h.stmts _)
  all_goals exact .pure allFitted_nil

theorem fits_simpleStmt : Returns (Rule.simpleStmt g) fun stmt ↦ (ofStmt stmt).Fitted := by
  unfold Rule.simpleStmt
  refine .skip fun start ↦ h.exprs.bind fun lhs hlhs ↦ .skip fun kind ↦ ?_
  split
  · exact .skip fun _ ↦ h.exprs.bind fun rhs hrhs ↦ .ite .failing <| .skip fun _ ↦
      .pure (fitted_ofStmt (allFitted_append.2 ⟨hlhs, hrhs⟩))
  · split
    · refine .skip fun kind ↦ ?_
      split
      · exact .skip fun _ ↦ .skip fun _ ↦ .pure (fitted_ofStmt hlhs)
      · exact .skip fun _ ↦ .skip fun _ ↦ .pure (fitted_ofStmt hlhs)
      · exact .skip fun _ ↦ .pure (fitted_ofStmt hlhs)
    · exact .fail

/-! ### Headers of statements -/

omit h in
/-- The expression of a statement that is one. -/
theorem fitted_of_stmt {info : NodeInfo} {e : Expr} (h : (ofStmt (.expr info e)).Fitted) :
    (ofExpr e).Fitted :=
  fun _ hnode ↦ h _ (nodes_subset_of_mem_children List.mem_cons_self hnode)

theorem fits_condHeader : Returns (Rule.condHeader g) fun result ↦
    AllFitted (result.1.toList.map ofStmt) ∧ (ofExpr result.2).Fitted := by
  unfold Rule.condHeader
  refine h.simpleStmt.bind fun first hfirst ↦ .skip fun _ ↦ .ite ?_ ?_
  · exact h.expr.bind fun test htest ↦ .pure ⟨by simpa using hfirst, htest⟩
  · split
    · exact .pure ⟨allFitted_nil, fitted_of_stmt hfirst⟩
    · exact .fail

theorem fits_condStmt : Returns (Rule.condStmt g) fun stmt ↦ (ofStmt stmt).Fitted := by
  have hclose (start : Nat) (init : Option Stmt) (test : Expr) (body : Block)
      (otherwise : Option Stmt)
      (hheader : AllFitted (init.toList.map ofStmt) ∧ (ofExpr test).Fitted)
      (hbody : (Node.block body).Fitted) (hotherwise : AllFitted (otherwise.toList.map ofStmt)) :
      Returns (do return Stmt.cond (← Parser.nodeFrom start) init test body otherwise)
        fun stmt ↦ (ofStmt stmt).Fitted :=
    .skip fun _ ↦ .pure (fitted_ofStmt (by
      simpa [stmtChildren] using ⟨hheader.1, hheader.2, hbody, hotherwise⟩))
  unfold Rule.condStmt
  simp only [pure_bind, map_eq_pure_bind, bind_assoc]
  refine .skip fun start ↦ .skip fun _ ↦
    ((fits_condHeader h).withLevel _).bind fun header hheader ↦ ?_
  obtain ⟨init, test⟩ := header
  refine h.block.bind fun body hbody ↦ .skip fun _ ↦ .ite (.skip fun kind ↦ ?_) ?_
  · split
    · exact h.condStmt.bind fun other hother ↦
        hclose start init test body (some other) hheader hbody (by simpa using hother)
    · exact h.block.bind fun block hblock ↦
        hclose start init test body (some (.block block)) hheader hbody
          (by simpa [ofStmt] using hblock)
    · exact .failing
  · exact hclose start init test body none hheader hbody allFitted_nil

theorem fits_loopHeader :
    Returns (Rule.loopHeader g) fun clauses ↦ AllFitted (loopNodes clauses) := by
  have hpost (init : Option Stmt) (test : Option Expr) (hinit : AllFitted (init.toList.map ofStmt))
      (htest : AllFitted (test.toList.map ofExpr)) : Returns (do
        let _ ← Parser.expect .semicolon
        if ← Parser.isNext .lbrace then return (init, test, none)
        else return (init, test, some (← g.simpleStmt)))
        fun clauses ↦ AllFitted (loopNodes clauses) := by
    refine .skip fun _ ↦ .skip fun _ ↦ .ite (.pure ?_) (h.simpleStmt.bind fun post hpost ↦ .pure ?_)
    · simpa [loopNodes] using ⟨hinit, htest⟩
    · simpa [loopNodes] using ⟨hinit, htest, hpost⟩
  have hrest (init : Option Stmt) (hinit : AllFitted (init.toList.map ofStmt)) : Returns (do
        let _ ← Parser.expect .semicolon
        let test ← if ← Parser.isNext .semicolon then pure none else some <$> g.expr
        let _ ← Parser.expect .semicolon
        let post ← if ← Parser.isNext .lbrace then pure none else some <$> g.simpleStmt
        return (init, test, post)) fun clauses ↦ AllFitted (loopNodes clauses) := by
    simp only [pure_bind, map_eq_pure_bind, bind_assoc]
    refine .skip fun _ ↦ .skip fun _ ↦ .ite (hpost init none hinit allFitted_nil) ?_
    exact h.expr.bind fun test htest ↦ hpost init (some test) hinit (by simpa using htest)
  unfold Rule.loopHeader
  simp only [pure_bind, map_eq_pure_bind, bind_assoc] at hrest ⊢
  refine .skip fun _ ↦ .ite (.pure allFitted_nil) (.skip fun _ ↦ .ite ?_ ?_)
  · exact .skip fun _ ↦ .ite .failing (hrest none allFitted_nil)
  · refine h.simpleStmt.bind fun init hinit ↦ .skip fun _ ↦ .ite ?_
      (hrest (some init) (by simpa using hinit))
    cases init with
    | expr info test => exact .pure (by simpa [loopNodes] using fitted_of_stmt hinit)
    | _ => exact .failing

theorem fits_loopStmt : Returns (Rule.loopStmt g) fun stmt ↦ (ofStmt stmt).Fitted := by
  unfold Rule.loopStmt
  refine .skip fun start ↦ .skip fun _ ↦
    ((fits_loopHeader h).withLevel _).bind fun header hheader ↦ ?_
  obtain ⟨init, test, post⟩ := header
  exact h.block.bind fun body hbody ↦ .skip fun _ ↦ .pure <| fitted_ofStmt <|
    allFitted_append.2 ⟨hheader, by simpa using hbody⟩

theorem fits_switchHeader : Returns (Rule.switchHeader g) fun result ↦
    AllFitted (result.1.toList.map ofStmt ++ result.2.toList.map ofStmt) := by
  have hrest (first : Option Stmt) (hfirst : AllFitted (first.toList.map ofStmt)) : Returns (do
      if ← Parser.eat .semicolon then
        let tag ← if ← Parser.isNext .lbrace then pure none else some <$> g.simpleStmt
        return (first, tag)
      else return (none, first)) fun result ↦
        AllFitted (result.1.toList.map ofStmt ++ result.2.toList.map ofStmt) := by
    simp only [pure_bind, map_eq_pure_bind, bind_assoc]
    refine .skip fun _ ↦ .ite (.skip fun _ ↦ .ite (.pure ?_) ?_) (.pure ?_)
    · simpa using hfirst
    · exact h.simpleStmt.bind fun tag htag ↦ .pure (by simpa using ⟨hfirst, htag⟩)
    · simpa using hfirst
  unfold Rule.switchHeader
  refine .skip fun _ ↦ .ite (.pure allFitted_nil) (.skip fun _ ↦ .ite (hrest none allFitted_nil) ?_)
  rw [map_eq_pure_bind, bind_assoc]
  exact h.simpleStmt.bind fun first hfirst ↦ hrest (some first) (by simpa using hfirst)

omit h in
/-- A type guard may stand behind a name that is bound to it. -/
theorem fits_switchOf {span : Span} {init tag : Option Stmt} {clauses : List CaseClause}
    (hinit : AllFitted (init.toList.map ofStmt)) (htag : AllFitted (tag.toList.map ofStmt))
    (hclauses : AllFitted (clauses.map .clause)) :
    Returns (Rule.switchOf span init tag clauses) fun stmt ↦ (ofStmt stmt).Fitted := by
  fun_cases Rule.switchOf span init tag clauses
  case case1 =>
    exact .skip fun _ ↦ .pure (fitted_ofStmt (by simpa [stmtChildren] using ⟨hinit, hclauses⟩))
  case case2 info tag hguard =>
    have htag := fitted_of_stmt (allFitted_cons.1 htag).1
    exact .skip fun _ ↦ .pure (fitted_ofStmt (by
      simpa [stmtChildren] using ⟨hinit, htag, hclauses⟩))
  case case3 info tag hguard =>
    have htag := fitted_of_stmt (allFitted_cons.1 htag).1
    exact .skip fun _ ↦ .pure (fitted_ofStmt (by
      simpa [stmtChildren] using ⟨hinit, htag, hclauses⟩))
  case case4 info binding guard hguard =>
    have hbound : (ofExpr guard).Fitted := fun _ hnode ↦ (allFitted_cons.1 htag).1 _
      (nodes_subset_of_mem_children (List.mem_cons_of_mem _ List.mem_cons_self) hnode)
    exact .skip fun _ ↦ .pure (fitted_ofStmt (by
      simpa [stmtChildren] using ⟨hinit, hbound, hclauses⟩))
  case case5 => exact .fail
  case case6 => exact .fail

theorem fits_switchStmt : Returns (Rule.switchStmt g) fun stmt ↦ (ofStmt stmt).Fitted := by
  refine .skip fun _ ↦ .skip fun _ ↦
    ((fits_switchHeader h).withLevel _).bind fun header hheader ↦ ?_
  obtain ⟨init, tag⟩ := header
  obtain ⟨hinit, htag⟩ := allFitted_append.1 hheader
  exact .skip fun _ ↦ h.clauses.bind fun clauses hclauses ↦ .skip fun _ ↦ .skip fun _ ↦
    .skip fun _ ↦ fits_switchOf hinit htag hclauses

theorem fits_clause : Returns (Rule.clause g) fun clause ↦ (Node.clause clause).Fitted := by
  have hrest (start : Nat) (list : List Expr) (hlist : AllFitted (list.map ofExpr)) : Returns (do
      let _ ← Parser.expect .colon
      let body ← g.stmts
      return (⟨← Parser.nodeFrom start, list, body⟩ : CaseClause))
      fun clause ↦ (Node.clause clause).Fitted :=
    .skip fun _ ↦ h.stmts.bind fun _ hbody ↦ .skip fun _ ↦
      .pure (fitted_node trivial (allFitted_append.2 ⟨hlist, hbody⟩))
  unfold Rule.clause
  simp only [pure_bind]
  exact .skip fun start ↦ .skip fun _ ↦ .ite (hrest start [] allFitted_nil) <|
    .skip fun _ ↦ h.exprs.bind fun list hlist ↦ hrest start list hlist

theorem fits_clauses : Returns (Rule.clauses g) fun clauses ↦ AllFitted (clauses.map .clause) := by
  refine .skip fun kind ↦ ?_
  split
  on_goal 3 => exact .pure allFitted_nil
  all_goals exact (fits_clause h).cons h.clauses (Pure.pure ())

theorem fits_returnStmt : Returns (Rule.returnStmt g) fun stmt ↦ (ofStmt stmt).Fitted := by
  have hclose (start : Nat) (results : List Expr) (hresults : AllFitted (results.map ofExpr)) :
      Returns (do return Stmt.ret (← Parser.nodeFrom start) results)
        fun stmt ↦ (ofStmt stmt).Fitted :=
    .skip fun _ ↦ .pure (fitted_ofStmt hresults)
  unfold Rule.returnStmt
  simp only [pure_bind]
  exact .skip fun start ↦ .skip fun _ ↦ .skip fun _ ↦ .skip fun _ ↦
    .ite (hclose start [] allFitted_nil) (h.exprs.bind fun results hresults ↦
      hclose start results hresults)

omit h in
theorem fits_branchStmt (isBreak : Bool) :
    Returns (Rule.branchStmt isBreak) fun stmt ↦ (ofStmt stmt).Fitted :=
  .skip fun _ ↦ .skip fun _ ↦ .skip fun _ ↦ .pure (fitted_ofStmt allFitted_nil)

theorem fits_deferredStmt (isGo : Bool) :
    Returns (Rule.deferredStmt g isGo) fun stmt ↦ (ofStmt stmt).Fitted := by
  refine .skip fun _ ↦ .skip fun _ ↦ h.expr.bind fun call hcall ↦ ?_
  split
  · exact .skip fun _ ↦ .pure (fitted_ofStmt (allFitted_cons.2 ⟨hcall, allFitted_nil⟩))
  · exact .fail

theorem fits_declStmt : Returns (Rule.declStmt g) fun stmt ↦ (ofStmt stmt).Fitted :=
  h.genDecl.bind fun _ hdecl ↦ .skip fun _ ↦
    .pure (fitted_ofStmt (allFitted_cons.2 ⟨hdecl, allFitted_nil⟩))

theorem fits_stmt : Returns (Rule.stmt g) fun stmt ↦ (ofStmt stmt).Fitted := by
  refine .skip fun kind ↦ ?_
  split
  · exact fits_declStmt h
  · exact fits_declStmt h
  · exact fits_declStmt h
  · exact fits_returnStmt h
  · exact fits_branchStmt true
  · exact fits_branchStmt false
  · exact fits_branchStmt false
  · rw [map_eq_pure_bind]
    exact h.block.bind fun _ hblock ↦ .pure hblock
  · exact h.condStmt
  · exact fits_loopStmt h
  · exact fits_switchStmt h
  · exact fits_deferredStmt h true
  · exact fits_deferredStmt h false
  · exact h.simpleStmt

end Rules

end PackageAtlas
