import PackageAtlas.Load.Resolved
import PackageAtlas.Proofs.Dedupe.PackageDedupe
import PackageAtlas.Proofs.Spans.Package

/-!
Declared names are names. Whatever a file declares is called by a token that is a name, and a new
name for what is declared twice goes on with letters and numbers. So there is no dot, slash or star
in the name of a member (`RawPackage.named_of_mem_checkOrder`).
-/

set_option autoImplicit false
set_option relaxedAutoImplicit false

namespace PackageAtlas

/-! ### Parsers -/

/-- What holds of the result of a parser that does not complain. -/
def Yields {α : Type} (parser : Parser α) (post : α → Prop) : Prop :=
  ∀ input state a state', state.Sound input → parser input state = .ok (a, state') →
    state'.Sound input ∧ post a

namespace Yields

variable {α β : Type} {parser : Parser α} {next : α → Parser β} {mid : α → Prop} {post : β → Prop}

theorem pure {b : β} (h : post b) : Yields (Pure.pure b) post := by
  intro input state b' state' hsound hrun
  cases hrun
  exact ⟨hsound, h⟩

theorem fail {complaint : Complaint} : Yields (Parser.fail complaint) post :=
  fun _ _ _ _ _ hrun ↦ absurd hrun Parser.fail_ne_ok

theorem failing {complaint : Complaint} : Yields (Parser.fail complaint >>= next) post := by
  intro input state b state' _ hrun
  obtain ⟨_, _, hrun, _⟩ := Parser.bind_eq_ok hrun
  exact absurd hrun Parser.fail_ne_ok

theorem bind (h : Yields parser mid) (hnext : ∀ a, mid a → Yields (next a) post) :
    Yields (parser >>= next) post := by
  intro input state b state' hsound hrun
  obtain ⟨a, middle, hrun, hrest⟩ := Parser.bind_eq_ok hrun
  obtain ⟨hmiddle, ha⟩ := h _ _ _ _ hsound hrun
  exact hnext a ha _ _ _ _ hmiddle hrest

theorem ite {c : Prop} [Decidable c] {parser' : Parser α} (h : Yields parser mid)
    (h' : Yields parser' mid) : Yields (if c then parser else parser') mid := by
  split
  · exact h
  · exact h'

end Yields

section Steps

variable {α : Type} {parser : Parser α}

theorem Looks.yields (h : Looks parser) : Yields parser fun _ ↦ True := by
  intro input state a state' hsound hrun
  obtain rfl := h _ _ _ _ hrun
  exact ⟨hsound, trivial⟩

/-- Where nothing was read since a state. -/
theorem ParseState.Sound.layout {input : ParseInput} {state : ParseState} (h : state.Sound input) :
    Layout input state (state.front input) false [] state :=
  ⟨h, le_rfl, le_rfl, .nil, le_rfl, fun hread ↦ absurd hread Bool.false_ne_true⟩

theorem Builds.yields {progress : Bool} {built : α → List Node} (h : Builds parser progress built) :
    Yields parser fun _ ↦ True :=
  fun _ _ _ _ hsound hrun ↦ ⟨((h _ _ _ _).layout hsound.layout rfl hrun).sound, trivial⟩

theorem Skips.yields {progress : Bool} (h : Skips parser progress) : Yields parser fun _ ↦ True :=
  fun _ _ _ _ hsound hrun ↦ ⟨((h _ _ _ _).layout hsound.layout rfl hrun).sound, trivial⟩

theorem ParseState.Sound.counted {input : ParseInput} {state : ParseState}
    (h : state.Sound input) : state.counted.Sound input :=
  ⟨h.size, h.placed, h.lastStop_le, h.names⟩

theorem yields_nodeFrom (start : Nat) : Yields (Parser.nodeFrom start) fun _ ↦ True := by
  intro input state info state' hsound hrun
  cases hrun
  exact ⟨hsound.counted, trivial⟩

theorem yields_identOf (token : Token) : Yields (Parser.identOf token) fun _ ↦ True := by
  intro input state ident state' hsound hrun
  cases hrun
  exact ⟨hsound.counted, trivial⟩

/-- A name is read off a token that is one. -/
theorem yields_ident : Yields Parser.ident fun ident ↦ IsName ident.name := by
  intro input state ident state' hsound hrun
  refine ⟨(builds_ident.yields input state ident state' hsound hrun).1, ?_⟩
  obtain ⟨token, middle, hexpect, hrun⟩ := Parser.bind_eq_ok hrun
  obtain ⟨hkind, rest, htokens, rfl⟩ := Parser.expectAs_eq_ok hexpect
  cases hrun
  exact hsound.names token (by rw [htokens]; exact List.mem_cons_self) hkind

end Steps

/-! ### Declarations -/

/-- The names that a spec declares are names. -/
def Spec.Named (spec : Spec) : Prop := ∀ key ∈ DeclKey.ofSpec spec, IsName key.name

/-- The names that a declaration declares are names. -/
def Decl.Named (decl : Decl) : Prop := ∀ name ∈ decl.declaredNames, IsName name

/-- The parsers of what declares something give names to it. -/
structure YieldsNames (g : Grammar) : Prop where
  decls : Yields g.decls fun decls ↦ ∀ decl ∈ decls, decl.Named
  importDecls : Yields g.importDecls fun decls ↦ ∀ decl ∈ decls, decl.Named
  genDecl : Yields g.genDecl fun decl ↦ (Decl.gen decl).Named
  specs : ∀ kind, Yields (g.specs kind) fun specs ↦ ∀ spec ∈ specs, spec.Named
  spec : ∀ kind docOffset, Yields (g.spec kind docOffset) Spec.Named
  funcDecl : Yields g.funcDecl fun decl ↦ (Decl.func decl).Named
  idents : Yields g.idents fun idents ↦ ∀ ident ∈ idents, IsName ident.name

section Rules

variable {g : Grammar}

theorem yields_idents (h : YieldsNames g) :
    Yields (Rule.idents g) fun idents ↦ ∀ ident ∈ idents, IsName ident.name :=
  yields_ident.bind fun _ hfirst ↦ (skips_eat _).yields.bind fun _ _ ↦ .ite
    (h.idents.bind fun _ hothers ↦ .pure (List.forall_mem_cons.2 ⟨hfirst, hothers⟩))
    (.pure (List.forall_mem_singleton.2 hfirst))

theorem yields_typeSpec (hbuilds : BuildsAll g) : Yields (Rule.typeSpec g) Spec.Named :=
  looks_start.yields.bind fun start _ ↦ yields_ident.bind fun _ hname ↦
    (skips_eat _).yields.bind fun _ _ ↦ hbuilds.type.yields.bind fun _ _ ↦
    (yields_nodeFrom start).bind fun _ _ ↦ .pure (List.forall_mem_singleton.2 hname)

theorem yields_importSpec (docOffset : Nat) : Yields (Rule.importSpec docOffset) Spec.Named := by
  have hrest (start : Nat) (name : Option Ident) : Yields (do
      let path ← Parser.literalOf (← Parser.expectAs .string .importPath) .string
      return .imports ⟨← Parser.nodeFrom start, name, path, ← Parser.docBefore docOffset⟩)
      Spec.Named := by
    rw [← bind_assoc]
    exact (builds_expectLiteral .string .importPath (by decide)).yields.bind fun _ _ ↦
      (yields_nodeFrom start).bind fun _ _ ↦ (looks_docBefore _).yields.bind fun _ _ ↦
      .pure fun _ h ↦ (by cases h)
  unfold Rule.importSpec
  simp only [pure_bind, map_eq_pure_bind, bind_assoc]
  refine looks_start.yields.bind fun start _ ↦ looks_peek?.yields.bind fun kind _ ↦ ?_
  split
  · exact builds_ident.yields.bind fun name _ ↦ hrest start (some name)
  · exact skips_bump.yields.bind fun token _ ↦ (yields_identOf token).bind fun name _ ↦
      hrest start (some name)
  · exact hrest start none

theorem yields_valueSpec (hbuilds : BuildsAll g) (h : YieldsNames g) (kind : DeclKind) :
    Yields (Rule.valueSpec g kind) Spec.Named := by
  have hrest (names : List Ident) (hnames : ∀ ident ∈ names, IsName ident.name) (start : Nat)
      (type : Option Expr) : Yields (do
        let values ← if ← Parser.eat .eq then g.exprs else pure []
        if kind = .var && type.isNone && values.isEmpty then
          Parser.fail (.expected .typeOrInitializer)
        return .value ⟨← Parser.nodeFrom start, names, type, values⟩) Spec.Named := by
    have hspec (values : List Expr) : Yields (do
        if kind = .var && type.isNone && values.isEmpty then
          Parser.fail (.expected .typeOrInitializer)
        return .value ⟨← Parser.nodeFrom start, names, type, values⟩) Spec.Named := by
      refine .ite .failing ?_
      exact (yields_nodeFrom start).bind fun _ _ ↦ .pure (List.forall_mem_map.2 hnames)
    exact (skips_eat _).yields.bind fun _ _ ↦
      .ite (hbuilds.exprs.yields.bind fun values _ ↦ hspec values) (hspec [])
  unfold Rule.valueSpec
  simp only [map_eq_pure_bind, bind_assoc]
  exact looks_start.yields.bind fun start _ ↦ h.idents.bind fun names hnames ↦
    (looks_isNext _).yields.bind fun _ _ ↦ (looks_isNext _).yields.bind fun _ _ ↦
    (looks_isNext _).yields.bind fun _ _ ↦ .ite (hrest names hnames start none)
    (hbuilds.type.yields.bind fun type _ ↦ hrest names hnames start (some type))

theorem yields_spec (hbuilds : BuildsAll g) (h : YieldsNames g) (kind : DeclKind)
    (docOffset : Nat) : Yields (Rule.spec g kind docOffset) Spec.Named := by
  cases kind with
  | imports => exact yields_importSpec docOffset
  | type => exact yields_typeSpec hbuilds
  | const => exact yields_valueSpec hbuilds h .const
  | var => exact yields_valueSpec hbuilds h .var

theorem yields_specs (h : YieldsNames g) (kind : DeclKind) :
    Yields (Rule.specs g kind) fun specs ↦ ∀ spec ∈ specs, spec.Named :=
  (looks_isNext _).yields.bind fun _ _ ↦ looks_isDone.yields.bind fun _ _ ↦
    .ite (.pure fun _ h ↦ (by cases h)) <|
    looks_offset.yields.bind fun offset _ ↦ (h.spec kind offset).bind fun _ hspec ↦
    skips_separator.yields.bind fun _ _ ↦ (h.specs kind).bind fun _ hothers ↦
    .pure (List.forall_mem_cons.2 ⟨hspec, hothers⟩)

theorem Decl.named_gen {info : NodeInfo} {kind : DeclKind} {specs : List Spec}
    (h : ∀ spec ∈ specs, spec.Named) : (Decl.gen ⟨info, kind, specs⟩).Named := by
  intro name hname
  obtain ⟨key, hkey, rfl⟩ := List.mem_map.1 hname
  obtain ⟨spec, hspec, hin⟩ := List.mem_flatMap.1 hkey
  exact h spec hspec key hin

theorem yields_genDecl (h : YieldsNames g) :
    Yields (Rule.genDecl g) fun decl ↦ (Decl.gen decl).Named := by
  have hclose (start : Nat) (kind : DeclKind) (specs : List Spec)
      (hspecs : ∀ spec ∈ specs, spec.Named) :
      Yields (do return (⟨← Parser.nodeFrom start, kind, specs⟩ : GenDecl))
        fun decl ↦ (Decl.gen decl).Named :=
    (yields_nodeFrom start).bind fun _ _ ↦ .pure (Decl.named_gen hspecs)
  unfold Rule.genDecl
  simp only [pure_bind]
  exact skips_bump.yields.bind fun _ _ ↦ looks_read.yields.bind fun _ _ ↦
    (skips_eat _).yields.bind fun _ _ ↦ .ite
    ((h.specs _).bind fun specs hspecs ↦ (skips_expect (by decide)).yields.bind fun _ _ ↦
      hclose _ _ specs hspecs)
    ((h.spec _ _).bind fun spec hspec ↦ hclose _ _ [spec] (List.forall_mem_singleton.2 hspec))

theorem yields_funcDecl (hbuilds : BuildsAll g) :
    Yields (Rule.funcDecl g) fun decl ↦ (Decl.func decl).Named := by
  have hclose (start : Nat) (receiver : Option Field) (name : Ident) (hname : IsName name.name)
      (type : FuncType) (body : Option Block) :
      Yields (do return (⟨← Parser.nodeFrom start, receiver, name, type, body⟩ : FuncDecl))
        fun decl ↦ (Decl.func decl).Named :=
    (yields_nodeFrom start).bind fun _ _ ↦ .pure (List.forall_mem_singleton.2 hname)
  have hrest (start : Nat) (receiver : Option Field) : Yields (do
        let name ← Parser.ident
        let type ← g.signature (← Parser.start)
        let body ← if ← Parser.isNext .lbrace then some <$> Rule.body g else pure none
        return (⟨← Parser.nodeFrom start, receiver, name, type, body⟩ : FuncDecl))
      fun decl ↦ (Decl.func decl).Named := by
    simp only [pure_bind, map_eq_pure_bind, bind_assoc]
    refine yields_ident.bind fun name hname ↦ ?_
    rw [← bind_assoc]
    exact hbuilds.signatureThere.yields.bind fun type _ ↦ (looks_isNext _).yields.bind fun _ _ ↦
      .ite ((builds_body hbuilds).yields.bind fun body _ ↦
        hclose start receiver name hname type (some body)) (hclose start receiver name hname type none)
  unfold Rule.funcDecl
  simp only [pure_bind, map_eq_pure_bind, bind_assoc] at hrest ⊢
  exact looks_start.yields.bind fun start _ ↦ (skips_expect (by decide)).yields.bind fun _ _ ↦
    (looks_isNext _).yields.bind fun _ _ ↦ .ite
    ((builds_receiver hbuilds).yields.bind fun receiver _ ↦ hrest start (some receiver))
    (hrest start none)

theorem yields_importDecls (h : YieldsNames g) :
    Yields (Rule.importDecls g) fun decls ↦ ∀ decl ∈ decls, decl.Named :=
  (looks_isNext _).yields.bind fun _ _ ↦ .ite
    (h.genDecl.bind fun _ hdecl ↦ skips_separator.yields.bind fun _ _ ↦
      h.importDecls.bind fun _ hothers ↦ .pure (List.forall_mem_cons.2 ⟨hdecl, hothers⟩))
    (.pure fun _ h ↦ (by cases h))

theorem yields_decls (h : YieldsNames g) :
    Yields (Rule.decls g) fun decls ↦ ∀ decl ∈ decls, decl.Named := by
  have hrest (decl : Decl) (hdecl : decl.Named) : Yields (do
      Parser.separator
      return decl :: (← g.decls)) fun decls ↦ ∀ decl ∈ decls, decl.Named :=
    skips_separator.yields.bind fun _ _ ↦ h.decls.bind fun _ hothers ↦
      .pure (List.forall_mem_cons.2 ⟨hdecl, hothers⟩)
  unfold Rule.decls
  simp only [map_eq_pure_bind, bind_assoc]
  refine looks_isDone.yields.bind fun _ _ ↦ .ite (.pure fun _ h ↦ (by cases h)) <|
    looks_peek?.yields.bind fun kind _ ↦ ?_
  split
  · exact h.funcDecl.bind fun decl hdecl ↦ hrest (.func decl) hdecl
  · exact h.genDecl.bind fun decl hdecl ↦ hrest (.gen decl) hdecl
  · exact h.genDecl.bind fun decl hdecl ↦ hrest (.gen decl) hdecl
  · exact h.genDecl.bind fun decl hdecl ↦ hrest (.gen decl) hdecl
  · exact Yields.failing
  · exact Yields.failing

/-- The parsers of the grammar give names to what is declared, at every depth. -/
theorem yieldsNames_goals (depth : Nat) : YieldsNames (Goal.parser depth) := by
  induction depth with
  | zero =>
    constructor
    all_goals intros
    all_goals exact Yields.fail
  | succ depth ih =>
    have hbuilds := buildsAll_goals depth
    exact ⟨yields_decls ih, yields_importDecls ih, yields_genDecl ih, yields_specs ih,
      yields_spec hbuilds ih, yields_funcDecl hbuilds, yields_idents ih⟩

end Rules

/-- The names that a file declares are names. -/
def SourceFile.Named (file : SourceFile) : Prop := ∀ name ∈ file.declaredNames, IsName name

theorem SourceFile.named_of_decls {info : NodeInfo} {name : String} {packageName : Ident}
    {decls : List Decl} (h : ∀ decl ∈ decls, decl.Named) :
    SourceFile.Named ⟨info, name, packageName, decls⟩ := by
  intro declared hdeclared
  obtain ⟨decl, hdecl, hin⟩ := List.mem_flatMap.1 hdeclared
  exact h decl hdecl declared hin

theorem yields_sourceFile {g : Grammar} (h : YieldsNames g) :
    Yields (Parser.sourceFile g) SourceFile.Named := by
  unfold Parser.sourceFile
  refine looks_read.yields.bind fun _ _ ↦ (skips_expect (by decide)).yields.bind fun _ _ ↦
    builds_ident.yields.bind fun _ _ ↦ skips_separator.yields.bind fun _ _ ↦
    h.importDecls.bind fun imports himports ↦ h.decls.bind fun decls hdecls ↦ ?_
  intro input state file state' hsound hrun
  cases hrun
  exact ⟨hsound.counted, SourceFile.named_of_decls (List.forall_mem_append.2 ⟨himports, hdecls⟩)⟩

/-- A file that is parsed declares names. -/
theorem named_of_parseFile {set : FileSet} {name text : String} {file : SourceFile}
    (h : (set.parseFile name text).2 = .ok file) : file.Named := by
  obtain ⟨comments, depth, state, state', hsound, -, hresult⟩ := exists_of_parseFile h
  exact (yields_sourceFile (yieldsNames_goals depth) _ _ _ _ hsound hresult).2

theorem FileSet.Parsed.named {set : FileSet} {files : List SourceFile} (h : set.Parsed files) :
    ∀ file ∈ files, file.Named := by
  induction h with
  | empty space => exact fun _ h ↦ (by cases h)
  | register name text h ih => exact ih
  | parse h hparse ih => exact List.forall_mem_cons.2 ⟨named_of_parseFile hparse, ih⟩

/-! ### New names -/

/-- A new name is a name, because it goes on with letters, bars and digits. -/
theorem IsName.numbered {old new : String} (h : IsName old) (hnew : IsNumbered old new) :
    IsName new := by
  obtain ⟨k, -, rfl⟩ := hnew
  intro c hc
  rw [DeclKey.toList_numbered, List.mem_append, List.mem_append] at hc
  rcases hc with hc | hc | hc
  · exact h c hc
  · exact List.all_eq_true.1 (by decide : "_nobuild".toList.all Lexeme.isNamePart = true) c hc
  · rw [Nat.toString_eq_repr, Nat.toList_repr] at hc
    have hdigit : c.isDigit = true := Nat.isDigit_of_mem_toDigits (by decide) (by decide) hc
    have hsmall : c.toNat < 128 := by
      simp only [Char.isDigit, Bool.and_eq_true, decide_eq_true_eq] at hdigit
      exact Nat.lt_of_le_of_lt (UInt32.le_iff_toNat_le.1 hdigit.2) (by decide)
    rw [Lexeme.isNamePart, Text.isNumber, if_pos hsmall, hdigit, Bool.or_true]

/-- What steps compute for the elements of a list, one after the other. -/
theorem forall_mem_mapM_run {σ α β : Type} {step : α → StateM σ β} {post : β → Prop}
    {list : List α} (h : ∀ a ∈ list, ∀ s, post ((step a).run s).1) (s : σ) :
    ∀ b ∈ ((list.mapM step).run s).1, post b := by
  induction list generalizing s with
  | nil => exact fun _ h ↦ (by cases h)
  | cons a rest ih =>
    rw [List.mapM_cons]
    exact List.forall_mem_cons.2 ⟨h a List.mem_cons_self s,
      ih (fun b hb ↦ h b (List.mem_cons_of_mem a hb)) _⟩

/-- A table that gives new names only. -/
def Renames.AreNew (renames : Renames) : Prop :=
  ∀ old new, renames.lookup old = some new → IsNumbered old new

theorem areNew_claimInto {renames : Dict String String} (h : Renames.AreNew renames.entries)
    (key : DeclKey) (taken : List DeclKey) :
    Renames.AreNew ((DeclKey.claimInto renames key).run taken).1.entries := by
  obtain ⟨result, hrun, -, hnumbered⟩ := DeclKey.claim_spec key taken
  rw [DeclKey.claimInto, DeclKey.run_bind_of_run hrun]
  cases result with
  | none => exact h
  | some name =>
    intro old new hfound
    by_cases heq : old = key.name
    · subst heq
      cases (Dict.find?_insert_self renames _ name).symm.trans hfound
      exact hnumbered name rfl
    · exact h old new ((Dict.find?_insert_of_ne renames name heq).symm.trans hfound)

theorem areNew_claimNames (file : SourceFile) (taken : List DeclKey) :
    Renames.AreNew (file.claimNames.run taken).1.entries := by
  have hfold (keys : List DeclKey) : ∀ (renames : Dict String String) (taken : List DeclKey),
      Renames.AreNew renames.entries →
      Renames.AreNew ((keys.foldlM DeclKey.claimInto renames).run taken).1.entries := by
    induction keys with
    | nil => exact fun _ _ h ↦ h
    | cons key rest ih =>
      intro renames taken h
      rw [List.foldlM_cons]
      exact ih _ _ (areNew_claimInto h key taken)
  exact hfold _ Dict.empty taken fun _ _ h ↦ (by cases h)

theorem named_claimMethod {decl : Decl} (h : decl.Named) (renames : Dict String String)
    (taken : List DeclKey) : ((SourceFile.claimMethod renames decl).run taken).1.1.Named := by
  cases decl with
  | gen decl => exact h
  | func decl =>
    unfold SourceFile.claimMethod
    cases hbase : decl.receiverBase? with
    | none =>
      simp only [hbase]
      exact h
    | some base =>
      simp only [hbase]
      obtain ⟨result, hrun, -, hnumbered⟩ := DeclKey.claim_spec
        ⟨some ((renames.find? base.name).getD base.name), decl.name.name⟩ taken
      rw [DeclKey.run_bind_of_run hrun]
      cases result with
      | none => exact h
      | some name =>
        refine List.forall_mem_singleton.2 ?_
        exact IsName.numbered (h _ List.mem_cons_self) (hnumbered name rfl)

theorem Renames.AreNew.named_onDecl {renames : Renames} (hrenames : renames.AreNew) {decl : Decl}
    (h : decl.Named) (count : Nat) : ((renames.onDecl decl).run count).1.Named := by
  intro name hname
  rw [Decl.declaredNames_onDecl] at hname
  split at hname
  · exact h name hname
  · obtain ⟨old, hold, rfl⟩ := List.mem_map.1 hname
    unfold apply
    cases hfound : renames.lookup old with
    | none => exact h old hold
    | some new => exact (h old hold).numbered (hrenames old new hfound)

theorem SourceFile.Named.decl {file : SourceFile} (h : file.Named) {decl : Decl}
    (hdecl : decl ∈ file.decls) : decl.Named :=
  fun name hname ↦ h name (List.mem_flatMap.2 ⟨decl, hdecl, hname⟩)

theorem SourceFile.Named.dedupe {file : SourceFile} (h : file.Named) (taken : List DeclKey) :
    (file.dedupe.run taken).1.1.Named := by
  have hmethods : ∀ claimed ∈ ((file.decls.mapM (SourceFile.claimMethod
      (file.claimNames.run taken).1)).run (file.claimNames.run taken).2).1, claimed.1.Named :=
    forall_mem_mapM_run (fun decl hdecl ↦ named_claimMethod (h.decl hdecl) _) _
  refine SourceFile.named_of_decls (forall_mem_mapM_run (fun decl hdecl count ↦ ?_) 0)
  obtain ⟨claimed, hclaimed, rfl⟩ := List.mem_map.1 hdecl
  exact (areNew_claimNames file taken).named_onDecl (hmethods claimed hclaimed) count

/-- The files of a package that are checked declare names if those that were parsed do. -/
theorem RawPackage.named_of_mem_checkOrder {raw : RawPackage} (h : ∀ file ∈ raw.files, file.Named) :
    ∀ file ∈ raw.dedupe.1.checkOrder, file.Named := by
  have hfiles : ∀ file ∈ raw.dedupe.1.files, file.Named := by
    have hrenamed : ∀ new ∈ (((raw.files.mapM raw.dedupeFile).run
        (raw.buildableFiles.flatMap DeclKey.ofFile)).1), new.1.Named := by
      refine forall_mem_mapM_run (fun file hfile taken ↦ ?_) _
      unfold dedupeFile
      split
      · exact h file hfile
      · exact (h file hfile).dedupe taken
    exact List.forall_mem_map.2 hrenamed
  intro file hfile
  rcases List.mem_append.1 hfile with hin | hin
  · exact hfiles file (List.mem_of_mem_filter hin)
  · exact hfiles file (List.mem_of_mem_filter hin)

end PackageAtlas
