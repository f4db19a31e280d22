import PackageAtlas.Proofs.Spans.StmtRules

/-!
Parsed files. The rules for declarations build their trees, as all others do, if the parsers of all
nonterminals do; so all parsers of the grammar do, at every depth, and the tree of a file is a run of
one tree over the whole text (`run_parseFile`). From that the shape of all spans in a file is read
off (`parseFile_spansNest`).
-/

set_option autoImplicit false
set_option relaxedAutoImplicit false

namespace PackageAtlas

open Lexeme Node

/-! ### Declarations -/

section Decls

variable {g : Grammar} (h : BuildsAll g)
include h

theorem builds_genDecl : Builds (Rule.genDecl g) true fun decl ↦ [.genDecl decl] := by
  have hrest : ∀ start kind specs, Reads start (specs.map ofSpec) true
      (do return (⟨← Parser.nodeFrom start, kind, specs⟩ : GenDecl)) (fun _ ↦ true)
      fun decl ↦ [.genDecl decl] :=
    fun start kind specs ↦ .close fun _ ↦ ⟨rfl, rfl, rfl⟩
  unfold Rule.genDecl
  simp only [pure_bind]
  refine .fromFirst fun keyword input ↦ .eat (by decide) ?_ ?_
  · exact (h.specs _).bind fun specs ↦ (skips_expect (by decide)).bind fun _ ↦ hrest _ _ specs
  · exact (h.spec _ _).bind fun spec ↦ hrest _ _ [spec]

theorem builds_specs (kind : DeclKind) : Builds (Rule.specs g kind) false (List.map ofSpec) := by
  unfold Rule.specs
  refine .of fun lo trees hasRead ↦ .looking (looks_isNext _) fun _ ↦ .looking looks_isDone fun _ ↦
    .ite (.pure (List.append_nil _) id) (.looking looks_offset fun offset ↦ .relax ?_)
  exact ((h.spec kind offset).cons (h.specs kind) _ skips_separator).reads lo trees hasRead

/-! ### Specs -/

omit h in
theorem Parser.read_bind {α : Type} (next : ParseInput → Parser α) (input : ParseInput)
    (state : ParseState) : (read >>= next : Parser α) input state = next input input state := rfl

omit h in
/-- Comments are looked up in the text, so they may be looked up before the node is made. -/
theorem nodeFrom_docBefore {α : Type} (start offset : Nat)
    (next : NodeInfo → Option String → Parser α) :
    (do let info ← Parser.nodeFrom start; next info (← Parser.docBefore offset)) =
      (do let doc ← Parser.docBefore offset; next (← Parser.nodeFrom start) doc) := by
  funext input state
  have hdoc : ∃ doc, ∀ state, Parser.docBefore offset input state = .ok (doc, state) := by
    unfold Parser.docBefore
    cases hlines : Parser.leadingComments input.chars offset [] input.comments.reverse with
    | nil =>
      refine ⟨none, fun state ↦ ?_⟩
      rw [Parser.read_bind, hlines]
      rfl
    | cons line lines =>
      refine ⟨some ("\n".intercalate (line :: lines)), fun state ↦ ?_⟩
      rw [Parser.read_bind, hlines]
      rfl
  obtain ⟨doc, hdoc⟩ := hdoc
  change (Parser.docBefore offset input state.counted >>= fun result ↦
    next ⟨state.nextId input, ⟨start, input.entry.pos state.lastStop⟩⟩ result.1 input result.2) =
    (Parser.docBefore offset input state >>= fun result ↦
      (Parser.nodeFrom start >>= fun info ↦ next info result.1) input result.2)
  rw [hdoc, hdoc]
  rfl

omit h in
theorem builds_importSpec (docOffset : Nat) :
    Builds (Rule.importSpec docOffset) true fun spec ↦ [ofSpec spec] := by
  have hrest : ∀ start (name : Option Ident) hasRead, Reads start (name.toList.map .ident) hasRead
      (do
        let path ← Parser.literalOf (← Parser.expectAs .string .importPath) .string
        return .imports ⟨← Parser.nodeFrom start, name, path, ← Parser.docBefore docOffset⟩)
      (fun _ ↦ true) fun spec ↦ [ofSpec spec] := by
    intro start name hasRead
    simp only [nodeFrom_docBefore]
    rw [← bind_assoc]
    exact (builds_expectLiteral .string .importPath (by decide)).bind fun path ↦
      .looking (looks_docBefore _) fun doc ↦ .close fun _ ↦ ⟨rfl, rfl, rfl⟩
  unfold Rule.importSpec
  simp only [pure_bind, map_eq_pure_bind, bind_assoc]
  refine .fromStart fun start ↦ .peek fun kind ↦ ?_
  split
  · exact (builds_ident.bind fun name ↦ hrest start (some name) true) _
  · rw [← bind_assoc]
    exact (buildsAt_bumpIdent (by decide)).bind fun name ↦ hrest start (some name) true
  · exact hrest start none false _

theorem builds_typeSpec : Builds (Rule.typeSpec g) true fun spec ↦ [ofSpec spec] := by
  unfold Rule.typeSpec
  exact .fromStart fun start ↦ builds_ident.bind fun name ↦ (skips_eat _).bind fun isAlias ↦
    h.type.bind fun type ↦ .close fun _ ↦ ⟨rfl, rfl, rfl⟩

theorem builds_valueSpec (kind : DeclKind) :
    Builds (Rule.valueSpec g kind) true fun spec ↦ [ofSpec spec] := by
  have hclose : ∀ start names (type : Option Expr) values, Reads start
      (names.map .ident ++ type.toList.map ofExpr ++ values.map ofExpr) true
      (do
        if kind = .var && type.isNone && values.isEmpty then
          Parser.fail (.expected .typeOrInitializer)
        return .value ⟨← Parser.nodeFrom start, names, type, values⟩) (fun _ ↦ true)
      fun spec ↦ [ofSpec spec] :=
    fun start names type values ↦ .ite .failing (.close fun _ ↦ ⟨rfl, rfl, rfl⟩)
  have hrest : ∀ start names (type : Option Expr), Reads start
      (names.map .ident ++ type.toList.map ofExpr) true
      (do
        let values ← if ← Parser.eat .eq then g.exprs else pure []
        if kind = .var && type.isNone && values.isEmpty then
          Parser.fail (.expected .typeOrInitializer)
        return .value ⟨← Parser.nodeFrom start, names, type, values⟩) (fun _ ↦ true)
      fun spec ↦ [ofSpec spec] := by
    intro start names type
    have hnone := hclose start names type []
    rw [List.map_nil, List.append_nil] at hnone
    exact (skips_eat _).bind fun _ ↦ .ite (h.exprs.bind fun values ↦ hclose start names type values)
      hnone
  unfold Rule.valueSpec
  simp only [map_eq_pure_bind, bind_assoc]
  refine .fromStart fun start ↦ h.idents.bind fun names ↦ .looking (looks_isNext _) fun _ ↦
    .looking (looks_isNext _) fun _ ↦ .looking (looks_isNext _) fun _ ↦ .ite ?_ ?_
  · have hnone := hrest start names none
    rw [Option.toList_none, List.map_nil, List.append_nil] at hnone
    exact hnone
  · exact h.type.bind fun type ↦ hrest start names (some type)

theorem builds_spec (kind : DeclKind) (docOffset : Nat) :
    Builds (Rule.spec g kind docOffset) true fun spec ↦ [ofSpec spec] := by
  cases kind with
  | imports => exact builds_importSpec docOffset
  | type => exact builds_typeSpec h
  | const => exact builds_valueSpec h .const
  | var => exact builds_valueSpec h .var

/-! ### Functions -/

theorem builds_receiver : Builds (Rule.receiver g) true fun field ↦ [.field field] := by
  unfold Rule.receiver
  refine .of fun lo trees hasRead ↦ h.parameters.bind fun params ↦ ?_
  split
  · exact .ite (.pure rfl id) .fail
  · exact .fail

theorem builds_funcDecl : Builds (Rule.funcDecl g) true fun decl ↦ [.funcDecl decl] := by
  have hclose : ∀ start (receiver : Option Field) name type (body : Option Block), Reads start
      (receiver.toList.map .field ++ [.ident name] ++ [.funcType type] ++
        body.toList.map .block) true
      (do return (⟨← Parser.nodeFrom start, receiver, name, type, body⟩ : FuncDecl)) (fun _ ↦ true)
      fun decl ↦ [.funcDecl decl] :=
    fun start receiver name type body ↦ .close fun _ ↦ ⟨rfl, by simp [children], rfl⟩
  have hrest : ∀ start (receiver : Option Field), Reads start (receiver.toList.map .field) true
      (do
        let name ← Parser.ident
        let type ← g.signature (← Parser.start)
        let body ← if ← Parser.isNext .lbrace then some <$> Rule.body g else pure none
        return (⟨← Parser.nodeFrom start, receiver, name, type, body⟩ : FuncDecl)) (fun _ ↦ true)
      fun decl ↦ [.funcDecl decl] := by
    intro start receiver
    simp only [pure_bind, map_eq_pure_bind, bind_assoc]
    refine builds_ident.bind fun name ↦ ?_
    rw [← bind_assoc]
    refine h.signatureThere.bind fun type ↦ .looking (looks_isNext _) fun _ ↦ .ite ?_ ?_
    · exact (builds_body h).bind fun body ↦ hclose start receiver name type (some body)
    · have hnone := hclose start receiver name type none
      rw [Option.toList_none, List.map_nil, List.append_nil] at hnone
      exact hnone
  unfold Rule.funcDecl
  simp only [pure_bind, map_eq_pure_bind, bind_assoc] at hrest ⊢
  exact .fromStart fun start ↦ (skips_expect (by decide)).bind fun _ ↦
    .looking (looks_isNext _) fun _ ↦ .ite
    ((builds_receiver h).bind fun receiver ↦ hrest start (some receiver)) (hrest start none)

/-! ### Lists of declarations -/

theorem builds_importDecls : Builds (Rule.importDecls g) false (List.map ofDecl) := by
  unfold Rule.importDecls
  refine .of fun lo trees hasRead ↦ .looking (looks_isNext _) fun _ ↦ .ite (.relax ?_)
    (.pure (List.append_nil _) id)
  exact h.genDecl.bind fun decl ↦ skips_separator.bind fun _ ↦ h.importDecls.bind fun others ↦
    .pure (by simp [ofDecl]) id

theorem builds_decls : Builds (Rule.decls g) false (List.map ofDecl) := by
  have hrest : ∀ decl lo trees, Reads lo (trees ++ [ofDecl decl]) true
      (do
        Parser.separator
        return decl :: (← g.decls)) (fun _ ↦ true) fun decls ↦ trees ++ decls.map ofDecl :=
    fun decl lo trees ↦ skips_separator.bind fun _ ↦ h.decls.bind fun others ↦ .pure (by simp) id
  unfold Rule.decls
  simp only [map_eq_pure_bind, bind_assoc]
  refine .of fun lo trees hasRead ↦ .looking looks_isDone fun _ ↦ .ite
    (.pure (List.append_nil _) id) (.relax <| .looking looks_peek? fun kind ↦ ?_)
  split
  · exact h.funcDecl.bind fun decl ↦ hrest (.func decl) lo trees
  · exact h.genDecl.bind fun decl ↦ hrest (.gen decl) lo trees
  · exact h.genDecl.bind fun decl ↦ hrest (.gen decl) lo trees
  · exact h.genDecl.bind fun decl ↦ hrest (.gen decl) lo trees
  · exact .failing
  · exact .failing

end Decls

/-! ### The grammar -/

/-- The rules build their trees, if the parsers that they call do. -/
theorem BuildsAll.rule {g : Grammar} (h : BuildsAll g) : BuildsAll (Goal.rule g) where
  decls := builds_decls h
  importDecls := builds_importDecls h
  genDecl := builds_genDecl h
  specs := builds_specs h
  spec := builds_spec h
  funcDecl := builds_funcDecl h
  signature := reads_signature h
  parameters := builds_parameters h
  parameterEntries := builds_parameterEntries h
  idents := builds_idents h
  type := builds_type h
  structFields := builds_structFields h
  interfaceElements := builds_interfaceElements h
  block := builds_block h
  stmts := builds_stmts h
  stmt := builds_stmt h
  simpleStmt := builds_simpleStmt h
  condStmt := builds_condStmt h
  clauses := builds_clauses h
  exprs := builds_exprs h
  binary := builds_binary h
  binaryRest := reads_binaryRest h
  unary := builds_unary h
  primary := builds_primary h
  postfixRest := reads_postfixRest h
  args := builds_args h
  elements := builds_elements h

/-- The parsers of the grammar build their trees, at every depth. -/
theorem buildsAll_goals (depth : Nat) : BuildsAll (Goal.parser depth) := by
  induction depth with
  | zero =>
    constructor
    all_goals intros
    all_goals first
      | exact Builds.fail
      | exact Reads.fail
  | succ depth ih => exact ih.rule

/-! ### Files -/

/-- A whole file is laid out over its whole text. -/
theorem run_sourceFile {g : Grammar} (h : BuildsAll g) {input : ParseInput}
    {state state' : ParseState} {file : SourceFile} (hsound : state.Sound input)
    (hrun : Parser.sourceFile g input state = .ok (file, state')) :
    Run input state.nextIndex state'.nextIndex input.entry.base
      (input.entry.base + input.entry.size) [.file file] := by
  have hlo : input.entry.base ≤ state.front input :=
    (Nat.le_add_right _ _).trans hsound.reach_le_front
  have hlayout : Layout input state input.entry.base false [] state :=
    ⟨hsound, le_rfl, le_rfl, .nil, hlo, fun hread ↦ absurd hread Bool.false_ne_true⟩
  obtain ⟨_, _, hread, hrun⟩ := Parser.bind_eq_ok hrun
  cases hread
  obtain ⟨_, s₁, hkeyword, hrun⟩ := Parser.bind_eq_ok hrun
  have h₁ := (skips_expect (by decide) _ _ _ _).layout hlayout rfl hkeyword
  obtain ⟨name, s₂, hname, hrun⟩ := Parser.bind_eq_ok hrun
  have h₂ := (builds_ident _ _ _ _).layout h₁ rfl hname
  obtain ⟨_, s₃, hseparator, hrun⟩ := Parser.bind_eq_ok hrun
  have h₃ := (skips_separator _ _ _ _).layout h₂ rfl hseparator
  obtain ⟨imports, s₄, himports, hrun⟩ := Parser.bind_eq_ok hrun
  have h₄ := (h.importDecls _ _ _ _).layout h₃ rfl himports
  obtain ⟨decls, s₅, hdecls, hrun⟩ := Parser.bind_eq_ok hrun
  have h₅ := (h.decls _ _ _ _).layout h₄ rfl hdecls
  obtain ⟨info, s₆, hnode, hrun⟩ := Parser.bind_eq_ok hrun
  obtain ⟨rfl, rfl⟩ : info = ⟨s₅.nextId input,
      ⟨input.entry.pos 0, input.entry.pos input.entry.size⟩⟩ ∧ s₆ = s₅.counted := by
    cases hnode
    exact ⟨rfl, rfl⟩
  cases hrun
  have hspan : Span.mk (input.entry.pos 0) (input.entry.pos input.entry.size) =
      ⟨input.entry.base, input.entry.base + input.entry.size⟩ := by
    simp [FileEntry.pos]
  rw [hspan]
  have hreach : s₅.reach input ≤ input.entry.base + input.entry.size :=
    Nat.add_le_add_left h₅.sound.lastStop_le _
  have hchildren := h₅.run.mono le_rfl le_rfl le_rfl hreach
  have hnested : Run input state.nextIndex s₅.nextIndex input.entry.base
      (input.entry.base + input.entry.size)
      ([] ++ (.ident name :: (imports ++ decls).map ofDecl) ++ []) := by simpa using hchildren
  exact hnested.gather h₅.nextIndex_le rfl rfl rfl ((h₅.lo_lt rfl).trans_le hreach) le_rfl le_rfl
    hnested.part.within (by simp) (by simp)

/-- A file is what the parser reads from the tokens of its text, from a sound state on. -/
theorem exists_of_parseFile {set : FileSet} {name text : String} {file : SourceFile}
    (h : (set.parseFile name text).2 = .ok file) : ∃ comments depth state state',
      ParseState.Sound ⟨set.space, set.nextEntry name text, text.toList, comments⟩ state ∧
        state.nextIndex = 1 ∧ Parser.sourceFile (Goal.parser depth)
          ⟨set.space, set.nextEntry name text, text.toList, comments⟩ state = .ok (file, state') := by
  unfold FileSet.parseFile Parser.runOn at h
  cases hstream : TokenStream.ofText text with
  | error error =>
    simp only [hstream] at h
    cases h
  | ok stream =>
    simp only [hstream] at h
    generalize hinput : (⟨set.space, set.nextEntry name text, text.toList, stream.comments⟩ :
      ParseInput) = input at h
    generalize hstate : (⟨stream.tokens, 0, 0, 1⟩ : ParseState) = state at h
    cases hresult : Parser.sourceFile (Goal.parserFor stream.tokens.length) input state with
    | error error =>
      rw [hresult] at h
      cases h
    | ok result =>
      rw [hresult] at h
      cases h
      subst hinput hstate
      exact ⟨stream.comments, _, _, _, ⟨(byteLength_toList text).symm, placed_ofText hstream,
        Nat.zero_le _, isName_of_mem_ofText hstream⟩, rfl, hresult⟩

/-- The tree of a parsed file is a run over the positions that its text was given. -/
theorem run_parseFile {set : FileSet} {name text : String} {file : SourceFile}
    (h : (set.parseFile name text).2 = .ok file) :
    ∃ comments last, Run ⟨set.space, set.nextEntry name text, text.toList, comments⟩ 1 last
      set.nextBase (set.nextBase + text.utf8ByteSize) [.file file] := by
  obtain ⟨comments, depth, state, state', hsound, hindex, hresult⟩ := exists_of_parseFile h
  have hrun := run_sourceFile (buildsAll_goals depth) hsound hresult
  rw [hindex] at hrun
  exact ⟨comments, _, hrun⟩

/-- In the tree of a file that is parsed, every node has a span that is not empty and holds those of
its children, which follow one another in their order, and a name stands on its own letters. -/
theorem parseFile_spansNest {set : FileSet} {name text : String} {file : SourceFile}
    (h : (set.parseFile name text).2 = .ok file) :
    ∀ node ∈ (Node.file file).nodes, node.SpansNest text.toList set.nextBase := by
  obtain ⟨comments, last, hrun⟩ := run_parseFile h
  intro node hnode
  exact hrun.nest node (List.mem_append_left _ hnode)

/-- A declaration of two names, with a call and a comment behind it. -/
theorem parseFile_spansNest_pair : ∃ file,
    ((FileSet.empty ⟨0⟩).parseFile "a.go" "package p\n\nvar x, y = f(1), 2 // two\n").2 = .ok file ∧
      ∀ node ∈ (Node.file file).nodes,
        node.SpansNest "package p\n\nvar x, y = f(1), 2 // two\n".toList 1 := by
  cases h : ((FileSet.empty ⟨0⟩).parseFile "a.go" "package p\n\nvar x, y = f(1), 2 // two\n").2 with
  | error error =>
    have hok : ((FileSet.empty ⟨0⟩).parseFile "a.go"
      "package p\n\nvar x, y = f(1), 2 // two\n").2.isOk = true := by decide +kernel
    rw [h] at hok
    cases hok
  | ok file => exact ⟨file, rfl, parseFile_spansNest h⟩

end PackageAtlas
