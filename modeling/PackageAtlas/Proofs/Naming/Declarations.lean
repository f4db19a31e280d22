import PackageAtlas.Proofs.Naming.Directories
import PackageAtlas.Proofs.Naming.Records
import PackageAtlas.Proofs.Naming.Translations
import PackageAtlas.Proofs.Naming.Trees
import PackageAtlas.Query.Navigate

/-!
From a symbol to its declaration. A check gives a symbol the place of the name that it has, or of
the import that is not given a name; the position leads to that leaf and the way to it, also from
another check of a file with the same text (`RawPackage.check_declares`).
-/

set_option autoImplicit false
set_option relaxedAutoImplicit false

namespace PackageAtlas

/-! ### Where symbols come from -/

/-- A symbol comes from a position of a file: from a name that it has, or from the path of an import
that is not given a name. -/
def SourceFile.Introduces (file : SourceFile) (symbol : Symbol) (pos : Nat) : Prop :=
  (∃ ident, .ident ident ∈ (Node.file file).nodes ∧ ident.pos = pos ∧ ident.name = symbol.name) ∨
    symbol.kind = .pkgName ∧ ∃ spec, .importSpec spec ∈ (Node.file file).nodes ∧
      spec.name = none ∧ spec.path.info.span.start = pos

/-- A position is one of a file; the end of the file is. -/
structure SourceFile.Covers (file : SourceFile) (pos : Nat) : Prop where
  start : file.info.span.start ≤ pos
  stop : pos ≤ file.info.span.stop

/-- A check added a symbol that comes from a place. -/
structure Store.Adds (store later : Store) (id : SymbolId) (origin : Origin) : Prop where
  new : store.symbols.size ≤ id.index
  origin : (later.get id).origin = some origin

theorem Store.Adds.placed {store later : Store} {id : SymbolId} {origin : Origin}
    (h : store.Adds later id origin) : id.index < later.symbols.size := by
  by_contra hlt
  have horigin := h.origin
  rw [Store.get_of_size_le (Nat.le_of_not_lt hlt)] at horigin
  cases horigin

theorem SourceFile.Introduces.congr {file : SourceFile} {symbol symbol' : Symbol} {pos : Nat}
    (h : file.Introduces symbol pos) (hname : symbol'.name = symbol.name)
    (hkind : symbol'.kind = symbol.kind) : file.Introduces symbol' pos := by
  unfold Introduces at h ⊢
  rw [hname, hkind]
  exact h

/-- The literal of an import is a node of its file. -/
theorem SourceFile.literal_mem_nodes {file : SourceFile} {spec : ImportSpec}
    (h : .importSpec spec ∈ (Node.file file).nodes) :
    .expr (.literal spec.path) ∈ (Node.file file).nodes := by
  have hchild : Node.expr (.literal spec.path) ∈ (Node.importSpec spec).children :=
    List.mem_append_right _ (List.mem_singleton_self _)
  exact Node.nodes_subset_of_mem_nodes h
    (Node.nodes_subset_of_mem_children hchild (Node.mem_nodes_self _))

/-- A symbol comes from inside the file. -/
theorem SourceFile.Introduces.covers {file : SourceFile} {symbol : Symbol} {pos : Nat}
    (h : file.Introduces symbol pos) (hstands : file.Stands) : file.Covers pos := by
  have hleaf {leaf : Node} (hleaf : leaf ∈ (Node.file file).nodes) :
      file.Covers leaf.span.start := by
    obtain ⟨hstart, hstop⟩ := hstands.within leaf hleaf
    have hlt := hstands.nonempty leaf hleaf
    exact ⟨hstart, by omega⟩
  rcases h with ⟨ident, hident, rfl, -⟩ | ⟨-, spec, hspec, -, rfl⟩
  · exact hleaf hident
  · exact hleaf (literal_mem_nodes hspec)

/-- What a file introduces, a file that says the same introduces at the same distance from its
start. -/
theorem SourceFile.Introduces.moved {file other : SourceFile} {symbol : Symbol} {pos : Nat}
    (h : file.Introduces symbol pos) (hsame : file.SameText other)
    (hstart : file.info.span.start ≤ pos) :
    other.Introduces symbol (other.info.span.start + (pos - file.info.span.start)) := by
  rcases h with ⟨ident, hident, rfl, hname⟩ | ⟨hkind, spec, hspec, hnone, rfl⟩
  · obtain ⟨ident', hident', hname', hpos⟩ := hsame.ident ident hident
    exact .inl ⟨ident', hident', by omega, hname'.trans hname⟩
  · obtain ⟨spec', hspec', hnone', hpos⟩ := hsame.importSpec spec hspec hnone
    exact .inr ⟨hkind, spec', hspec', hnone', by omega⟩

/-- A check of files of a set that ends, over what checks made before. -/
structure FileSet.Checks (set : FileSet) (files : List SourceFile) (store : Store)
    (checked : Checked) : Prop where
  holds : set.Holds files
  ends : ∃ scopes depth input, MadeBy store scopes ∧
    (∀ path scope, input.importer path = .ok scope → scope ∈ scopes) ∧
    input.space = set.space ∧ checkWithin depth input files store = some checked

/-- An atlas has the symbols of a store, which may have got more since, and the space of a set. -/
structure Atlas.Keeps (atlas : Atlas) (store : Store) (set : FileSet) : Prop where
  store : store.Grows atlas.store
  space : atlas.space? set.space = some set

/-- The symbols of a check come from its files. -/
theorem checkWithin_introduces {files : List SourceFile} {store : Store}
    {scopes : List PackageScope} {depth : Nat} {input : CheckInput} {checked : Checked}
    {id : SymbolId} {origin : Origin} (hmade : MadeBy store scopes)
    (himports : ∀ path scope, input.importer path = .ok scope → scope ∈ scopes)
    (hcheck : checkWithin depth input files store = some checked)
    (hadds : store.Adds checked.store id origin) :
    origin.space = input.space ∧
      ∃ file ∈ files, file.Introduces (checked.store.get id) origin.pos := by
  obtain ⟨hstore, hscopes⟩ := hmade.named
  obtain ⟨s, hs⟩ := checkWithin_sound hstore
    (fun path scope hscope ↦ hscopes scope (himports path scope hscope)) hcheck
  have hcreated := hs.sound.created id hadds.new
  rw [← hs.store] at hcreated
  obtain ⟨hspace, hplaced⟩ := hcreated origin hadds.origin
  refine ⟨hspace, ?_⟩
  rcases hplaced with ⟨role, ident, hplaced, hpos, hname⟩ |
    ⟨hkind, role, spec, hplaced, hnone, hpos⟩
  · obtain ⟨file, hfile, hmem⟩ := castOf.mem_nodes hplaced
    exact ⟨file, hfile, .inl ⟨ident, hmem, hpos, hname.symm⟩⟩
  · obtain ⟨file, hfile, hmem⟩ := castOf.mem_nodes hplaced
    exact ⟨file, hfile, .inr ⟨hkind, spec, hmem, hnone, hpos⟩⟩

/-- A check only adds symbols. -/
theorem FileSet.Checks.grows {set : FileSet} {files : List SourceFile} {store : Store}
    {checked : Checked} (h : set.Checks files store checked) : store.Grows checked.store := by
  obtain ⟨scopes, depth, input, hmade, himports, -, hcheck⟩ := h.ends
  exact hmade.grows_checkWithin himports hcheck

/-! ### Declarations -/

namespace ResolvedPackage

/-- A declaration of a symbol: the leaf that starts at a position and has the name of the symbol, or
that is the path of an import without a name; and the way to it from the package, which the search
for the leaf finds too. -/
structure Declares (package : ResolvedPackage) (symbol : Symbol) (pos : Nat)
    (found : Declaration) : Prop where
  start : found.node.span.start = pos
  leaf : (∃ ident, found.node = .ident ident ∧ ident.name = symbol.name) ∨
    symbol.kind = .pkgName ∧ ∃ spec, .importSpec spec ∈ package.root.nodes ∧ spec.name = none ∧
      found.node = .expr (.literal spec.path)
  path : (found.node, found.ancestors) ∈ package.root.withAncestors
  ancestors : package.root.findAncestors? found.node.id = some found.ancestors

/-- A symbol that one of the files of the package introduces at the position that its place is
translated to has its declaration there. -/
theorem declarationOf_of_introduces {package : ResolvedPackage} (hstands : package.tree.Stands)
    {file : SourceFile} (hfile : file ∈ package.tree.files) {symbol : Symbol} {pos : Nat}
    (hintroduces : file.Introduces symbol pos) {atlas : Atlas} {id : SymbolId} {origin : Origin}
    {space : FileSet} (horigin : (atlas.store.get id).origin = some origin)
    (hspace : atlas.space? origin.space = some space)
    (htranslate : FileSet.translate origin.pos space package.space = some pos) :
    ∃ found, package.declarationOf atlas id = .ok found ∧ package.Declares symbol pos found := by
  have hanswer {leaf : Node} {ancestors : List Node}
      (hfound : package.tree.enclosing? pos pos = some ⟨leaf, ancestors⟩)
      (hexact : EnclosingPath.isExact ⟨leaf, ancestors⟩ pos pos = true) :
      package.declarationOf atlas id = .ok ⟨leaf, ancestors⟩ := by
    unfold declarationOf
    simp only [horigin, hspace, htranslate, Option.bind_some, hfound, Option.map_some, hexact,
      if_true]
    rfl
  rcases hintroduces with ⟨ident, hident, rfl, hname⟩ | ⟨hkind, spec, hspec, hnone, rfl⟩
  · obtain ⟨ancestors, hfound, hpath, hancestors⟩ := hstands.enclosing?_leaf hfile hident rfl
    exact ⟨_, hanswer hfound rfl, rfl, .inl ⟨ident, rfl, hname⟩, hpath, hancestors⟩
  · obtain ⟨ancestors, hfound, hpath, hancestors⟩ :=
      hstands.enclosing?_leaf hfile (SourceFile.literal_mem_nodes hspec) rfl
    have hspec' : .importSpec spec ∈ package.root.nodes :=
      Node.nodes_subset_of_mem_children (List.mem_map_of_mem hfile) hspec
    exact ⟨_, hanswer hfound rfl, rfl, .inr ⟨hkind, spec, hspec', hnone, rfl⟩, hpath, hancestors⟩

end ResolvedPackage

/-! ### Checked packages -/

namespace RawPackage

/-- What the check of a package gives: the package with its names told apart, and the symbols. -/
theorem check_eq_some {raw : RawPackage} {place : ImportPlace}
    {importer : String → Except ImportError PackageScope} {store later : Store}
    {package : ResolvedPackage} (h : raw.check place importer store = some (.ok package, later)) :
    ∃ checked, checkFiles (raw.input importer) raw.dedupe.1.checkOrder store = some checked ∧
      package = raw.dedupe.1.resolved place checked ∧ later = checked.store := by
  unfold check at h
  obtain ⟨checked, hchecked, hrest⟩ := Option.bind_eq_some_iff.1 h
  cases hfailure : raw.dedupe.1.failure? checked.diagnostics with
  | some error =>
    rw [hfailure] at hrest
    cases hrest
  | none =>
    rw [hfailure] at hrest
    cases hrest
    exact ⟨checked, hchecked, rfl, rfl⟩

/-- The check of a package makes the next store. -/
theorem madeBy_check {raw : RawPackage} {place : ImportPlace}
    {importer : String → Except ImportError PackageScope} {store later : Store}
    {package : ResolvedPackage} {scopes : List PackageScope} (hmade : MadeBy store scopes)
    (himports : ∀ path scope, importer path = .ok scope → scope ∈ scopes)
    (h : raw.check place importer store = some (.ok package, later)) :
    ∃ scope, MadeBy later (scope :: scopes) := by
  obtain ⟨checked, hchecked, -, rfl⟩ := check_eq_some h
  exact ⟨checked.scope, hmade.check himports hchecked⟩

/-- No import is found. -/
def importNothing (path : String) : Except ImportError PackageScope := .error (.notFound path)

theorem importNothing_mem {scopes : List PackageScope} (path : String) (scope : PackageScope)
    (h : importNothing path = .ok scope) : scope ∈ scopes := by
  cases h

/-- A check of a single file of a set. -/
theorem checks_single {set : FileSet} {files : List SourceFile} {file : SourceFile} {store : Store}
    {scopes : List PackageScope} {checked : Checked} {depth : Nat} {input : CheckInput}
    (h : set.Parsed files) (hfile : file ∈ files) (hmade : MadeBy store scopes)
    (himports : ∀ path scope, input.importer path = .ok scope → scope ∈ scopes)
    (hinput : input.space = set.space)
    (hcheck : checkWithin depth input [file] store = some checked) :
    set.Checks [file] store checked := by
  refine ⟨⟨⟨files, h, List.forall_mem_singleton.2 ⟨file, hfile, rfl⟩⟩, ?_⟩,
    scopes, depth, input, hmade, himports, hinput, hcheck⟩
  intro first hfirst second hsecond _
  rw [List.mem_singleton.1 hfirst, List.mem_singleton.1 hsecond]

/-- A text that was parsed, after which other texts were registered. -/
theorem reads_of_parseFile {before set : FileSet} {name text : String} {file : SourceFile}
    (h : (before.parseFile name text).2 = .ok file) (hspace : before.space = set.space)
    (hfiles : (before.add name text).files <+: set.files) : set.Reads file text := by
  obtain ⟨rfl, -⟩ := FileSet.entry_parseFile h
  exact ⟨before, hspace, h, hfiles⟩

/-- A file of another file set has the name and the text of a file of the build, which its set
registered last under that name. -/
structure Matches (raw : RawPackage) (own : SourceFile) (other : FileSet) (file : SourceFile) :
    Prop where
  space : other.space ≠ raw.space.space
  buildable : own ∈ raw.buildableFiles
  name : own.name = file.name
  text : ∃ text, raw.space.Reads own text ∧ other.Reads file text
  last : raw.space.fileNamed? own.name = raw.space.file? own.info.span.start

section

variable {raw : RawPackage} {files : List SourceFile} {place : ImportPlace}
  {importer : String → Except ImportError PackageScope} {store later : Store}
  {package : ResolvedPackage} {own : SourceFile}

/-- A file of the build is in the tree of the checked package. -/
theorem mem_tree_of_buildable {checked : Checked} (h : own ∈ raw.buildableFiles) :
    own ∈ (raw.dedupe.1.resolved place checked).tree.files :=
  (List.mergeSort_perm _ _).mem_iff.2 (mem_dedupe_of_buildable h)

theorem stands_resolved (h : raw.space.Parsed files) (hfiles : raw.files.Perm files)
    (checked : Checked) : (raw.dedupe.1.resolved place checked).tree.Stands :=
  PackageTree.stands_ofFiles h hfiles raw.name raw.map_place_dedupe

/-- A symbol of the check of a package has its declaration where it comes from. -/
theorem declares_own (h : raw.space.Parsed files) (hfiles : raw.files.Perm files)
    {scopes : List PackageScope} (hmade : MadeBy store scopes)
    (himports : ∀ path scope, importer path = .ok scope → scope ∈ scopes)
    (hcheck : raw.check place importer store = some (.ok package, later)) {atlas : Atlas}
    {id : SymbolId} {origin : Origin} (hatlas : atlas.Keeps later raw.space)
    (hadds : store.Adds later id origin) :
    ∃ found, package.declarationOf atlas id = .ok found ∧
      package.Declares (later.get id) origin.pos found := by
  obtain ⟨checked, hchecked, rfl, rfl⟩ := check_eq_some hcheck
  obtain ⟨horigin, file, hfile, hintroduces⟩ :=
    checkWithin_introduces hmade himports hchecked hadds
  have hholds := holds_checkOrder h hfiles
  have hmem : file ∈ raw.dedupe.1.files := (mem_checkOrder _ file).1 hfile
  obtain ⟨hstart, hstop⟩ := hintroduces.covers (hholds.stands hfile)
  -- the file stands where a parsed file does, whose entry has the position
  obtain ⟨original, horiginal, hstays⟩ := exists_of_forall₂ raw.filesStay_dedupe hmem
  obtain ⟨text, hreads⟩ := h.reads original (hfiles.mem_iff.1 horiginal)
  rw [SourceFile.info_of_outline hstays.outline] at hstart hstop
  have htranslate := FileSet.translate_self (h.file?_eq hreads hstart hstop)
  refine ResolvedPackage.declarationOf_of_introduces (stands_resolved h hfiles checked)
    ((List.mergeSort_perm _ _).mem_iff.2 hmem) hintroduces ?_ ?_ htranslate
  · rw [hatlas.store.origin id hadds.placed, hadds.origin]
  · rw [horigin]
    exact hatlas.space

/-- A symbol of another check has its declaration in the file that matches its file, at the same
distance from the start. -/
theorem declares_other (h : raw.space.Parsed files) (hfiles : raw.files.Perm files)
    (hcheck : raw.check place importer store = some (.ok package, later)) {other : FileSet}
    {others : List SourceFile} {before : Store} {checked : Checked}
    (hother : other.Checks others before checked) {atlas : Atlas} {id : SymbolId} {origin : Origin}
    (hatlas : atlas.Keeps checked.store other) (hadds : before.Adds checked.store id origin)
    {file : SourceFile} (hfile : file ∈ others) (hcovers : file.Covers origin.pos)
    (hmatches : raw.Matches own other file) :
    ∃ found, package.declarationOf atlas id = .ok found ∧
      package.Declares (checked.store.get id)
        (own.info.span.start + (origin.pos - file.info.span.start)) found := by
  obtain ⟨checked', -, rfl, -⟩ := check_eq_some hcheck
  obtain ⟨scopes, depth, input, hmade, himports, hinput, hrun⟩ := hother.ends
  obtain ⟨horigin, source, hsource, hintroduces⟩ :=
    checkWithin_introduces hmade himports hrun hadds
  obtain ⟨hstart, hstop⟩ := hcovers
  -- the position is inside one file only
  obtain rfl : source = file := by
    refine (hother.holds.apart hsource hfile).resolve_right fun happart ↦ ?_
    have hwithin := hintroduces.covers (hother.holds.stands hsource)
    have hspan := happart.span
    have hstart' := hwithin.start
    have hstop' := hwithin.stop
    omega
  obtain ⟨text, hown, htext⟩ := hmatches.text
  obtain ⟨originals, hparsed, -⟩ := hother.holds.parsed
  have hlast : raw.space.fileNamed? own.name = some (own.entry text) := by
    rw [hmatches.last, h.file?_eq hown le_rfl]
    rw [hown.span_stop]
    exact Nat.le_add_right _ _
  have htranslate := FileSet.translate_of_reads hmatches.space hparsed htext hmatches.name hlast
    hstart hstop
  have hmoved := hintroduces.moved (htext.sameText hown hmatches.name) hstart
  refine ResolvedPackage.declarationOf_of_introduces (stands_resolved h hfiles checked')
    (mem_tree_of_buildable hmatches.buildable) hmoved ?_ ?_ htranslate
  · rw [hatlas.store.origin id hadds.placed, hadds.origin]
  · rw [horigin, hinput]
    exact hatlas.space

/-- A package that passes its check: every symbol with a place that the check made has its
declaration in the package, the leaf at that place and the way to it. So has every symbol of another
check that comes from a file with the name and the text of a file of the build, as long as no other
file was registered later under that name. -/
theorem check_declares (h : raw.space.HasParsed raw.files) {scopes : List PackageScope}
    (hmade : MadeBy store scopes)
    (himports : ∀ path scope, importer path = .ok scope → scope ∈ scopes)
    (hcheck : raw.check place importer store = some (.ok package, later)) :
    (∀ {atlas : Atlas} {id : SymbolId} {origin : Origin}, atlas.Keeps later raw.space →
      store.Adds later id origin → ∃ found, package.declarationOf atlas id = .ok found ∧
        package.Declares (later.get id) origin.pos found) ∧
    ∀ {other : FileSet} {others : List SourceFile} {before : Store} {checked : Checked}
      {atlas : Atlas} {id : SymbolId} {origin : Origin} {own file : SourceFile},
      other.Checks others before checked → atlas.Keeps checked.store other →
      before.Adds checked.store id origin → file ∈ others → file.Covers origin.pos →
      raw.Matches own other file → ∃ found, package.declarationOf atlas id = .ok found ∧
        package.Declares (checked.store.get id)
          (own.info.span.start + (origin.pos - file.info.span.start)) found := by
  obtain ⟨files, hparsed, hfiles⟩ := h
  exact ⟨fun hatlas hadds ↦ declares_own hparsed hfiles hmade himports hcheck hatlas hadds,
    fun hother hatlas hadds hfile hcovers hmatches ↦
      declares_other hparsed hfiles hcheck hother hatlas hadds hfile hcovers hmatches⟩

end

/-- A file that a tool made for a package, and one that it made for the tests later under the same
name. What another check of the first one declares is looked for in the second, which the package
does not have. -/
theorem check_declares_shadowed : ∃ (raw : RawPackage) (package : ResolvedPackage) (later : Store)
    (other : FileSet) (own file : SourceFile) (checked : Checked) (id : SymbolId) (origin : Origin),
    raw.space.HasParsed raw.files ∧
      raw.check ⟨0, "p"⟩ importNothing Universe.store = some (.ok package, later) ∧
      other.Checks [file] later checked ∧ later.Adds checked.store id origin ∧
      other.space ≠ raw.space.space ∧ own ∈ raw.buildableFiles ∧ own.name = file.name ∧
      (∃ text, raw.space.Reads own text ∧ other.Reads file text) ∧
      package.declarationOf ⟨checked.store, [raw.space, other]⟩ id =
        .error (.noExactNode "var A int") := by
  let made := "package p\n\nvar A int\n"
  let first := (FileSet.empty ⟨0⟩).parseFile "a.go" made
  let space := first.1.add "a.go" made
  let again := (FileSet.empty ⟨1⟩).parseFile "a.go" made
  let make (own : SourceFile) : RawPackage := ⟨"p", "p", "p", space, [own], []⟩
  have hrun : (first.2.toOption.bind fun own ↦ again.2.toOption.bind fun file ↦
      ((make own).check ⟨0, "p"⟩ importNothing Universe.store).bind fun result ↦
        result.1.toOption.bind fun package ↦
          (checkWithin 20 ⟨"p", ⟨1⟩, importNothing, true⟩ [file] result.2).map fun checked ↦
            ((make own).isBuildable own, result.2.symbols.size, (checked.store.get ⟨35⟩).origin,
              match package.declarationOf ⟨checked.store, [space, again.1]⟩ ⟨35⟩ with
              | .error (.noExactNode text) => some text
              | _ => none)) =
      some (true, 35, some ⟨⟨1⟩, 16⟩, some "var A int") := by
    decide +kernel
  obtain ⟨own, hown, hrun⟩ := Option.bind_eq_some_iff.1 hrun
  obtain ⟨file, hfile, hrun⟩ := Option.bind_eq_some_iff.1 hrun
  obtain ⟨⟨result, later⟩, hcheck, hrun⟩ := Option.bind_eq_some_iff.1 hrun
  obtain ⟨package, hresult, hrun⟩ := Option.bind_eq_some_iff.1 hrun
  obtain ⟨checked, hchecked, hrun⟩ := Option.map_eq_some_iff.1 hrun
  obtain rfl := eq_ok_of_toOption hresult
  simp only [Prod.mk.injEq] at hrun
  obtain ⟨hbuildable, hsize, horigin, hanswer⟩ := hrun
  have hown' := eq_ok_of_toOption hown
  have hfile' := eq_ok_of_toOption hfile
  obtain ⟨scope, hmade⟩ := madeBy_check .start importNothing_mem hcheck
  refine ⟨make own, package, later, again.1, own, file, checked, ⟨35⟩, ⟨⟨1⟩, 16⟩,
    ⟨[own], ((FileSet.Parsed.empty ⟨0⟩).parse hown').register "a.go" made, .refl _⟩, hcheck,
    checks_single ((FileSet.Parsed.empty ⟨1⟩).parse hfile') List.mem_cons_self hmade
      importNothing_mem rfl hchecked,
    ⟨hsize.le, horigin⟩, (by decide : (⟨1⟩ : SpaceId) ≠ ⟨0⟩),
    List.mem_filter.2 ⟨List.mem_cons_self, hbuildable⟩,
    (FileSet.entry_parseFile hown').1.trans (FileSet.entry_parseFile hfile').1.symm,
    ⟨made, reads_of_parseFile hown' rfl (List.prefix_append _ _),
      reads_of_parseFile hfile' rfl List.prefix_rfl⟩, ?_⟩
  split at hanswer
  · next text hfailed =>
    cases hanswer
    exact hfailed
  · cases hanswer

/-- A package in which a type is declared again by a file that does not take part in the build, and
then a check of its other file alone, behind another text. The import has no name. -/
theorem check_declares_alone : ∃ (package : ResolvedPackage) (atlas : Atlas),
    (∃ found, package.declarationOf atlas ⟨34⟩ = .ok found ∧ found.node.span.start = 19) ∧
      (∃ found, package.declarationOf atlas ⟨36⟩ = .ok found ∧ found.node.span.start = 113) ∧
      ∃ found, package.declarationOf atlas ⟨50⟩ = .ok found ∧ found.node.span.start = 77 := by
  let text := "package p\n\nimport \"C\"\n\ntype T struct \x7b\n\tf C.X\n\x7d\n\n" ++
    "func (t T) m(x int) int \x7b\n\ty := x\n\treturn y\n\x7d\n"
  let first := (FileSet.empty ⟨0⟩).parseFile "a.go" text
  let second := first.1.parseFile "b.go" "package p\n\ntype T int\n"
  let behind := (FileSet.empty ⟨1⟩).add "z.go" "package z\n"
  let again := behind.parseFile "a.go" text
  let make (own excluded : SourceFile) : RawPackage :=
    ⟨"p", "p", "p", second.1, [own, excluded], ["b.go"]⟩
  have hrun : (first.2.toOption.bind fun own ↦ second.2.toOption.bind fun excluded ↦
      again.2.toOption.bind fun file ↦
        ((make own excluded).check ⟨0, "p"⟩ importNothing Universe.store).bind fun result ↦
          result.1.toOption.bind fun _ ↦
            (checkWithin 40 ⟨"p", ⟨1⟩, importNothing, true⟩ [file] result.2).map fun checked ↦
              ((result.2.get ⟨34⟩).origin, (result.2.get ⟨36⟩).origin, result.2.symbols.size,
                (checked.store.get ⟨50⟩).origin)) =
      some (some ⟨⟨0⟩, 19⟩, some ⟨⟨0⟩, 113⟩, 43, some ⟨⟨1⟩, 88⟩) := by
    decide +kernel
  obtain ⟨own, hown, hrun⟩ := Option.bind_eq_some_iff.1 hrun
  obtain ⟨excluded, hexcluded, hrun⟩ := Option.bind_eq_some_iff.1 hrun
  obtain ⟨file, hfile, hrun⟩ := Option.bind_eq_some_iff.1 hrun
  obtain ⟨⟨result, later⟩, hcheck, hrun⟩ := Option.bind_eq_some_iff.1 hrun
  obtain ⟨package, hresult, hrun⟩ := Option.bind_eq_some_iff.1 hrun
  obtain ⟨checked, hchecked, hrun⟩ := Option.map_eq_some_iff.1 hrun
  obtain rfl := eq_ok_of_toOption hresult
  simp only [Prod.mk.injEq] at hrun
  obtain ⟨hliteral, hrenamed, hsize, hlocal⟩ := hrun
  have hown' := eq_ok_of_toOption hown
  have hfile' := eq_ok_of_toOption hfile
  have hparsed := ((FileSet.Parsed.empty ⟨0⟩).parse hown').parse (eq_ok_of_toOption hexcluded)
  have hagain := ((FileSet.Parsed.empty ⟨1⟩).register "z.go" "package z\n").parse hfile'
  obtain ⟨scope, hmade⟩ := madeBy_check .start importNothing_mem hcheck
  have hother : again.1.Checks [file] later checked :=
    checks_single hagain List.mem_cons_self hmade importNothing_mem rfl hchecked
  let atlas : Atlas := ⟨checked.store, [second.1, again.1]⟩
  have hkeeps : atlas.Keeps later second.1 := ⟨hother.grows, rfl⟩
  have hkeeps' : atlas.Keeps checked.store again.1 := ⟨.refl _, rfl⟩
  obtain ⟨hname, hspan⟩ := FileSet.entry_parseFile hown'
  obtain ⟨hname', hspan'⟩ := FileSet.entry_parseFile hfile'
  have hcovers : file.Covers 88 := by
    constructor <;> rw [hspan'] <;> decide +kernel
  have hmatches : (make own excluded).Matches own again.1 file := by
    refine ⟨(by decide : (⟨1⟩ : SpaceId) ≠ ⟨0⟩), List.mem_filter.2 ⟨List.mem_cons_self, ?_⟩,
      hname.trans hname'.symm, ⟨text, reads_of_parseFile hown' rfl (List.prefix_append _ _),
        reads_of_parseFile hfile' rfl List.prefix_rfl⟩, ?_⟩
    · rw [isBuildable, hname]
      rfl
    · rw [hname, hspan]
      exact (by decide +kernel : second.1.fileNamed? "a.go" = second.1.file? 1)
  have hhas : (make own excluded).space.HasParsed (make own excluded).files :=
    ⟨[excluded, own], hparsed, .swap _ _ _⟩
  have hanswers := check_declares hhas .start importNothing_mem hcheck
  obtain ⟨found, hfound, hdeclares⟩ := hanswers.1 hkeeps ⟨(by decide : 34 ≤ 34), hliteral⟩
  obtain ⟨found', hfound', hdeclares'⟩ := hanswers.1 hkeeps ⟨(by decide : 34 ≤ 36), hrenamed⟩
  obtain ⟨found'', hfound'', hdeclares''⟩ := hanswers.2 hother hkeeps'
    ⟨hsize.trans_le (by decide : 43 ≤ 50), hlocal⟩ List.mem_cons_self hcovers hmatches
  refine ⟨package, atlas, ⟨found, hfound, hdeclares.start⟩, ⟨found', hfound', hdeclares'.start⟩,
    found'', hfound'', ?_⟩
  rw [hdeclares''.start, hspan, hspan']
  decide +kernel

end RawPackage

end PackageAtlas
