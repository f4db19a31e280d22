import PackageAtlas.Parse.File
import PackageAtlas.Proofs.Relocation.StmtRules
import PackageAtlas.Tree.LiteralValue

/-!
Files under another name, in another space, and at other positions. The rules for declarations carry
relocations over, and by induction on the depth so does the whole grammar: a text that is registered
at another place parses to the same tree with other identities, further on, or is refused with the
same complaint about the file of the other name.
-/

set_option autoImplicit false
set_option relaxedAutoImplicit false

namespace PackageAtlas

namespace Relocation

section Declarations

variable {move : Relocation} {g : Grammar}

theorem carries_genDecl (h : move.CarriesAll g) :
    move.Carries move.genDecl (Rule.genDecl g) (Rule.genDecl g) := by
  have hrest : ∀ start kind specs, move.Carries move.genDecl
      (do return ⟨← Parser.nodeFrom start, kind, specs⟩)
      (do return ⟨← Parser.nodeFrom (move.pos start), kind, move.specs specs⟩) :=
    fun start kind specs ↦ (carries_nodeFrom start).bind fun info ↦ Carries.pure rfl
  unfold Rule.genDecl
  simp only [pure_bind]
  refine carries_bump.bind fun keyword ↦ carries_read.bind fun input ↦ ?_
  have hstart : (move.input input).entry.pos (id keyword).offset =
      move.pos (input.entry.pos keyword.offset) := pos_fileEntry _ _
  rw [hstart]
  refine (carries_eat _).bind fun _ ↦ Carries.ite ?_ ?_
  · exact (h.specs _).bind fun specs ↦ (carries_expect _).bind fun _ ↦ hrest _ _ specs
  · exact (h.spec _ _).bind fun spec ↦ hrest _ _ [spec]

theorem carries_specs (h : move.CarriesAll g) (kind : DeclKind) :
    move.Carries move.specs (Rule.specs g kind) (Rule.specs g kind) := by
  unfold Rule.specs
  refine (carries_isNext _).bind fun _ ↦ carries_isDone.bind fun _ ↦
    Carries.ite (Carries.pure rfl) ?_
  exact carries_offset.bind fun offset ↦ (h.spec kind offset).bind fun spec ↦
    carries_separator.bind fun _ ↦ (h.specs kind).bind fun rest ↦ Carries.pure rfl

theorem carries_importSpec (docOffset : Nat) :
    move.Carries move.spec (Rule.importSpec docOffset) (Rule.importSpec docOffset) := by
  have hrest : ∀ start name, move.Carries move.spec
      (do
        let path ← Parser.literalOf (← Parser.expectAs .string .importPath) .string
        return .imports ⟨← Parser.nodeFrom start, name, path, ← Parser.docBefore docOffset⟩)
      (do
        let path ← Parser.literalOf (← Parser.expectAs .string .importPath) .string
        return .imports ⟨← Parser.nodeFrom (move.pos start), name.map move.ident, path,
          ← Parser.docBefore docOffset⟩) :=
    fun start name ↦ (carries_expectAs _ _).bind fun token ↦
      (carries_literalOf token _).bind fun path ↦ (carries_nodeFrom start).bind fun info ↦
      (carries_docBefore docOffset).bind fun doc ↦ Carries.pure rfl
  unfold Rule.importSpec
  simp only [pure_bind, map_eq_pure_bind, bind_assoc]
  refine carries_start.bind fun start ↦ carries_peek?.bind fun kind ↦ ?_
  dsimp only [id]
  split
  · exact carries_ident.bind fun name ↦ hrest start (some name)
  · exact carries_bump.bind fun token ↦ (carries_identOf token).bind fun name ↦
      hrest start (some name)
  · exact hrest start none

theorem carries_typeSpec (h : move.CarriesAll g) :
    move.Carries move.spec (Rule.typeSpec g) (Rule.typeSpec g) := by
  unfold Rule.typeSpec
  exact carries_start.bind fun start ↦ carries_ident.bind fun name ↦ (carries_eat _).bind fun _ ↦
    h.type.bind fun type ↦ (carries_nodeFrom start).bind fun info ↦ Carries.pure rfl

theorem carries_valueSpec (h : move.CarriesAll g) (kind : DeclKind) :
    move.Carries move.spec (Rule.valueSpec g kind) (Rule.valueSpec g kind) := by
  have hnode : ∀ start names type values, move.Carries move.spec
      (do return .value ⟨← Parser.nodeFrom start, names, type, values⟩)
      (do
        return .value ⟨← Parser.nodeFrom (move.pos start), names.map move.ident, move.expr? type,
          move.exprs values⟩) :=
    fun start names type values ↦ (carries_nodeFrom start).bind fun info ↦ Carries.pure rfl
  have hend : ∀ start names type values, move.Carries move.spec
      (do
        if kind = .var && type.isNone && values.isEmpty then
          Parser.fail (.expected .typeOrInitializer)
        return .value ⟨← Parser.nodeFrom start, names, type, values⟩)
      (do
        if kind = .var && (move.expr? type).isNone && (move.exprs values).isEmpty then
          Parser.fail (.expected .typeOrInitializer)
        return .value ⟨← Parser.nodeFrom (move.pos start), names.map move.ident, move.expr? type,
          move.exprs values⟩) := by
    intro start names type values
    rw [isEmpty_exprs, expr?_eq_map, Option.isNone_map, ← expr?_eq_map]
    exact Carries.ite ((carries_fail id _).bind fun _ ↦ hnode start names type values)
      (hnode start names type values)
  unfold Rule.valueSpec
  simp only [pure_bind, map_eq_pure_bind, bind_assoc]
  refine carries_start.bind fun start ↦ h.idents.bind fun names ↦ (carries_isNext _).bind fun _ ↦
    (carries_isNext _).bind fun _ ↦ (carries_isNext _).bind fun _ ↦ Carries.ite ?_ ?_
  · refine (carries_eat _).bind fun _ ↦ Carries.ite ?_ (hend start names none [])
    exact h.exprs.bind fun values ↦ hend start names none values
  · refine h.type.bind fun type ↦ (carries_eat _).bind fun _ ↦
      Carries.ite ?_ (hend start names (some type) [])
    exact h.exprs.bind fun values ↦ hend start names (some type) values

theorem carries_spec (h : move.CarriesAll g) (kind : DeclKind) (docOffset : Nat) :
    move.Carries move.spec (Rule.spec g kind docOffset) (Rule.spec g kind docOffset) := by
  cases kind with
  | imports => exact carries_importSpec docOffset
  | type => exact carries_typeSpec h
  | const => exact carries_valueSpec h .const
  | var => exact carries_valueSpec h .var

/-! ### Functions and lists of declarations -/

theorem carries_receiver (h : move.CarriesAll g) :
    move.Carries move.field (Rule.receiver g) (Rule.receiver g) := by
  unfold Rule.receiver
  refine h.parameters.bind fun fields ↦ ?_
  rcases fields with _ | ⟨field, _ | ⟨second, fields⟩⟩
  · exact carries_fail _ _
  · change move.Carries move.field (if field.arity = 1 then _ else _)
      (if (move.field field).arity = 1 then _ else _)
    rw [arity_field]
    exact Carries.ite (Carries.pure rfl) (carries_fail _ _)
  · exact carries_fail _ _

theorem carries_funcDecl (h : move.CarriesAll g) :
    move.Carries move.funcDecl (Rule.funcDecl g) (Rule.funcDecl g) := by
  have hnode : ∀ start receiver name type body, move.Carries move.funcDecl
      (do return ⟨← Parser.nodeFrom start, receiver, name, type, body⟩)
      (do
        return ⟨← Parser.nodeFrom (move.pos start), receiver.map move.field, move.ident name,
          move.funcType type, body.map move.block⟩) :=
    fun start receiver name type body ↦ (carries_nodeFrom start).bind fun info ↦ Carries.pure rfl
  have hrest : ∀ start receiver, move.Carries move.funcDecl
      (do
        let name ← Parser.ident
        let type ← g.signature (← Parser.start)
        if ← Parser.isNext .lbrace then
          let body ← Rule.body g
          return ⟨← Parser.nodeFrom start, receiver, name, type, some body⟩
        else return ⟨← Parser.nodeFrom start, receiver, name, type, none⟩)
      (do
        let name ← Parser.ident
        let type ← g.signature (← Parser.start)
        if ← Parser.isNext .lbrace then
          let body ← Rule.body g
          return ⟨← Parser.nodeFrom (move.pos start), receiver.map move.field, name, type,
            some body⟩
        else
          return ⟨← Parser.nodeFrom (move.pos start), receiver.map move.field, name, type,
            none⟩) := by
    intro start receiver
    refine carries_ident.bind fun name ↦ carries_start.bind fun typeStart ↦
      (h.signature typeStart).bind fun type ↦ (carries_isNext _).bind fun _ ↦ Carries.ite ?_ ?_
    · exact (carries_body h).bind fun body ↦ hnode start receiver name type (some body)
    · exact hnode start receiver name type none
  unfold Rule.funcDecl
  simp only [pure_bind, map_eq_pure_bind, bind_assoc]
  refine carries_start.bind fun start ↦ (carries_expect _).bind fun _ ↦
    (carries_isNext _).bind fun _ ↦ Carries.ite ?_ (hrest start none)
  exact (carries_receiver h).bind fun receiver ↦ hrest start (some receiver)

theorem carries_importDecls (h : move.CarriesAll g) :
    move.Carries (List.map move.decl) (Rule.importDecls g) (Rule.importDecls g) := by
  unfold Rule.importDecls
  refine (carries_isNext _).bind fun _ ↦ Carries.ite ?_ (Carries.pure rfl)
  exact h.genDecl.bind fun decl ↦ carries_separator.bind fun _ ↦ h.importDecls.bind fun rest ↦
    Carries.pure rfl

theorem carries_decls (h : move.CarriesAll g) :
    move.Carries (List.map move.decl) (Rule.decls g) (Rule.decls g) := by
  have hrest : ∀ decl, move.Carries (List.map move.decl)
      (do
        Parser.separator
        return decl :: (← g.decls))
      (do
        Parser.separator
        return move.decl decl :: (← g.decls)) :=
    fun decl ↦ carries_separator.bind fun _ ↦ h.decls.bind fun rest ↦ Carries.pure rfl
  have hgen : move.Carries (List.map move.decl)
      (do
        let decl ← g.genDecl
        Parser.separator
        return .gen decl :: (← g.decls))
      (do
        let decl ← g.genDecl
        Parser.separator
        return .gen decl :: (← g.decls)) :=
    h.genDecl.bind fun decl ↦ hrest (.gen decl)
  unfold Rule.decls
  simp only [map_eq_pure_bind, bind_assoc, pure_bind]
  refine carries_isDone.bind fun _ ↦ Carries.ite (Carries.pure rfl) ?_
  refine carries_peek?.bind fun kind ↦ ?_
  dsimp only [id]
  split
  · exact h.funcDecl.bind fun decl ↦ hrest (.func decl)
  · exact hgen
  · exact hgen
  · exact hgen
  · exact (carries_fail move.decl _).bind fun decl ↦ hrest decl
  · exact (carries_fail move.decl _).bind fun decl ↦ hrest decl

end Declarations

/-! ### Grammar -/

/-- A rule of every nonterminal carries a relocation over when all nonterminals do. -/
theorem CarriesAll.rule {move : Relocation} {g : Grammar} (h : move.CarriesAll g) :
    move.CarriesAll (Goal.rule g) where
  decls := carries_decls h
  importDecls := carries_importDecls h
  genDecl := carries_genDecl h
  specs := carries_specs h
  spec := carries_spec h
  funcDecl := carries_funcDecl h
  signature := carries_signature h
  parameters := carries_parameters h
  parameterEntries := carries_parameterEntries h
  idents := carries_idents h
  type := carries_type h
  structFields := carries_structFields h
  interfaceElements := carries_interfaceElements h
  block := carries_block h
  stmts := carries_stmts h
  stmt := carries_stmt h
  simpleStmt := carries_simpleStmt h
  condStmt := carries_condStmt h
  clauses := carries_clauses h
  exprs := carries_exprs h
  binary := carries_binary h
  binaryRest := carries_binaryRest h
  unary := carries_unary h
  primary := carries_primary h
  postfixRest := carries_postfixRest h
  args := carries_args h
  elements := carries_elements h

theorem carriesAll_goals (move : Relocation) (depth : Nat) :
    move.CarriesAll (Goal.parser depth) := by
  induction depth with
  | zero =>
    constructor <;> intros <;> exact carries_fail _ _
  | succ depth ih => exact ih.rule

theorem carries_sourceFile {move : Relocation} {g : Grammar} (h : move.CarriesAll g) :
    move.Carries move.file (Parser.sourceFile g) (Parser.sourceFile g) := by
  unfold Parser.sourceFile
  refine carries_read.bind fun input ↦ (carries_expect _).bind fun _ ↦ carries_ident.bind fun name ↦
    carries_separator.bind fun _ ↦ h.importDecls.bind fun imports ↦ h.decls.bind fun decls ↦ ?_
  have hpos (offset : Nat) : (move.input input).entry.pos offset =
      move.pos (input.entry.pos offset) := pos_fileEntry _ _
  have hsize : (move.input input).entry.size = input.entry.size := rfl
  rw [hpos, hpos, hsize]
  refine (carries_node ⟨_, _⟩).bind fun info ↦ Carries.pure ?_
  rw [Relocation.file, List.map_append]
  rfl

/-! ### Registered files -/

/-- What becomes of a parsed file. -/
def result (move : Relocation) : Except ParseError SourceFile → Except ParseError SourceFile
  | .ok file => .ok (move.file file)
  | .error error => .error (move.error error)

theorem Carries.result {move : Relocation} {p : Parser SourceFile} (h : move.Carries move.file p p)
    (input : ParseInput) (state : ParseState) :
    (do
      let (file, _) ← p (move.input input) state
      return file) =
    move.result (do
      let (file, _) ← p input state
      return file) := by
  rw [h input state]
  cases p input state with
  | error error => rfl
  | ok result => rfl

theorem runOn_sourceFile (move : Relocation) (space : SpaceId) (entry : FileEntry) (text : String) :
    Parser.runOn Parser.sourceFile move.space (move.fileEntry entry) text =
      move.result (Parser.runOn Parser.sourceFile space entry text) := by
  unfold Parser.runOn
  cases TokenStream.ofText text with
  | error error =>
    dsimp only
    rw [pos_fileEntry, location_fileEntry]
    rfl
  | ok stream =>
    exact (carries_sourceFile (carriesAll_goals move _)).result
      ⟨space, entry, text.toList, stream.comments⟩ _

@[simp] theorem importPaths_file (move : Relocation) (file : SourceFile) :
    (move.file file).importPaths = file.importPaths := by
  have hspecs : ∀ import? : Spec → Option ImportSpec,
      (∀ spec, (import? (move.spec spec)).map ImportSpec.pathValue =
        (import? spec).map ImportSpec.pathValue) →
      ∀ specs : List Spec, ((move.specs specs).filterMap import?).map ImportSpec.pathValue =
        (specs.filterMap import?).map ImportSpec.pathValue := by
    intro import? hspec specs
    induction specs with
    | nil => rfl
    | cons spec rest ih =>
      change ((move.spec spec :: move.specs rest).filterMap import?).map _ = _
      simp only [List.map_filterMap] at ih ⊢
      rw [List.filterMap_cons, List.filterMap_cons, hspec, ih]
  unfold SourceFile.importPaths SourceFile.imports
  rw [Relocation.file, List.flatMap_map, List.map_flatMap, List.map_flatMap]
  refine congrArg (fun f ↦ file.decls.flatMap f) (funext fun decl ↦ ?_)
  cases decl with
  | func decl => rfl
  | gen decl =>
    obtain ⟨info, kind, specs⟩ := decl
    change List.map _ (if kind = .imports then _ else _) =
      List.map _ (if kind = .imports then _ else _)
    by_cases hkind : kind = .imports
    · rw [if_pos hkind, if_pos hkind]
      refine hspecs _ (fun spec ↦ ?_) specs
      cases spec with
      | imports spec => rfl
      | value spec =>
        obtain ⟨info, names, type, values⟩ := spec
        rfl
      | type spec =>
        obtain ⟨info, name, isAlias, type⟩ := spec
        rfl
    · rw [if_neg hkind, if_neg hkind]

@[simp] theorem importsForeign_file (move : Relocation) (file : SourceFile) :
    (move.file file).importsForeign = file.importsForeign := by
  unfold SourceFile.importsForeign
  rw [importPaths_file]

end Relocation

namespace FileSet

/-- A text parses alike wherever it is registered. -/
theorem parseFile_snd {set other : FileSet} (distance : Nat)
    (hbase : other.nextBase = set.nextBase + distance) (name other_name text : String) :
    (other.parseFile other_name text).2 =
      Relocation.result ⟨other.space, other_name, distance⟩ (set.parseFile name text).2 := by
  refine Eq.trans ?_ (Relocation.runOn_sourceFile ⟨other.space, other_name, distance⟩ set.space
    (set.nextEntry name text) text)
  unfold parseFile nextEntry
  rw [hbase]
  rfl

theorem nextBase_add {set other : FileSet} (hbase : other.nextBase = set.nextBase)
    (name other_name text : String) :
    (other.add other_name text).nextBase = (set.add name text).nextBase := by
  simp [nextBase, add, nextEntry, FileEntry.ofText] at hbase ⊢
  simp [hbase]

end FileSet

end PackageAtlas
