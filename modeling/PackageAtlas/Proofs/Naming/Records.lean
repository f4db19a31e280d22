import PackageAtlas.Proofs.Naming.Outlines
import PackageAtlas.Proofs.Naming.Package

/-!
What a check records about the names of its files: each key is the identity of a name, no name both
declares and uses, and the symbol of a name has that name. What it reports as unused has no recorded
use that reads it.
-/

set_option autoImplicit false
set_option relaxedAutoImplicit false

namespace PackageAtlas

open Node CheckRule

/-- A name in some files that has an identity. -/
structure NameIn (files : List SourceFile) (id : NodeId) (ident : Ident) : Prop where
  id_eq : ident.info.id = id
  mem : ∃ file ∈ files, .ident ident ∈ (Node.file file).nodes

/-- The records of a check are of names of its files: a name declares a symbol that it names and
that comes from its place, another one for each name, or it uses a symbol of its name, but not
both. -/
structure Checked.Records (checked : Checked) (space : SpaceId) (files : List SourceFile) :
    Prop where
  defs : ∀ id ref, checked.info.defs.find? id = some ref → NameIn files id ref.ident ∧
    (checked.store.get ref.symbol).name = ref.ident.name ∧
    (checked.store.get ref.symbol).origin = some ⟨space, ref.ident.pos⟩
  uses : ∀ id ref, checked.info.uses.find? id = some ref → NameIn files id ref.ident ∧
    (checked.store.get ref.symbol).name = ref.ident.name
  apart : ∀ id ref ref', checked.info.defs.find? id = some ref →
    checked.info.uses.find? id ≠ some ref'
  injective : ∀ id id' ref ref', checked.info.defs.find? id = some ref →
    checked.info.defs.find? id' = some ref' → ref.symbol = ref'.symbol → id = id'

theorem castOf.mem_nodes {files : List SourceFile} {role : Role} {node : Node}
    (h : castOf files role node) : ∃ file ∈ files, node ∈ (Node.file file).nodes := by
  obtain ⟨file, hfile, hmem⟩ := h
  exact ⟨file, hfile, map_snd_cast .uses (.file file) ▸ List.mem_map_of_mem hmem⟩

/-- A node has one role in the files of a set. -/
theorem FileSet.Holds.role_unique {set : FileSet} {files : List SourceFile} (h : set.Holds files)
    {role role' : Role} {node node' : Node} (hnode : castOf files role node)
    (hnode' : castOf files role' node') (hid : node.id = node'.id) : role = role' := by
  obtain ⟨file, hfile, hmem⟩ := hnode
  obtain ⟨other, hother, hmem'⟩ := hnode'
  have hin : node ∈ (Node.file file).nodes :=
    map_snd_cast .uses (.file file) ▸ List.mem_map_of_mem hmem
  have hin' : node' ∈ (Node.file other).nodes :=
    map_snd_cast .uses (.file other) ▸ List.mem_map_of_mem hmem'
  obtain rfl := h.file_eq_of_id hfile hother hin hin' hid
  exact Node.role_unique (h.stands hfile).distinct hmem hmem' hid

/-- The check of files of a set, with or without problems, whose imports stand for packages that
were checked before: all its records are of names in the files, under their right names. -/
theorem checkWithin_records {set : FileSet} {files : List SourceFile} {store : Store}
    {scopes : List PackageScope} {depth : Nat} {input : CheckInput} {checked : Checked}
    (hfiles : set.Holds files) (hmade : MadeBy store scopes)
    (himports : ∀ path scope, input.importer path = .ok scope → scope ∈ scopes)
    (hcheck : checkWithin depth input files store = some checked) :
    checked.Records input.space files := by
  obtain ⟨hstore, hscopes⟩ := hmade.named
  obtain ⟨s, hs⟩ := checkWithin_sound hstore
    (fun path scope hscope ↦ hscopes scope (himports path scope hscope)) hcheck
  have hdefs := hs.sound.defs
  have huses := hs.sound.uses
  rw [← hs.info, ← hs.store] at hdefs huses
  constructor
  · intro id ref hfound
    obtain ⟨hid, hplaced, hdeclared⟩ := hdefs id ref hfound
    exact ⟨⟨hid, castOf.mem_nodes hplaced⟩, hdeclared.calls.name, hdeclared.origin⟩
  · intro id ref hfound
    obtain ⟨hid, hplaced, hcalls⟩ := huses id ref hfound
    exact ⟨⟨hid, castOf.mem_nodes hplaced⟩, hcalls.name⟩
  · intro id ref ref' hfound hfound'
    obtain ⟨hid, hplaced, -⟩ := hdefs id ref hfound
    obtain ⟨hid', hplaced', -⟩ := huses id ref' hfound'
    have hroles := hfiles.role_unique hplaced hplaced' (hid.trans hid'.symm)
    cases hroles
  · intro id id' ref ref' hfound hfound' hsymbol
    obtain ⟨hid, hplaced, hdeclared⟩ := hdefs id ref hfound
    obtain ⟨hid', hplaced', hdeclared'⟩ := hdefs id' ref' hfound'
    obtain ⟨file, hfile, hmem⟩ := castOf.mem_nodes hplaced
    obtain ⟨file', hfile', hmem'⟩ := castOf.mem_nodes hplaced'
    -- one symbol comes from one place, where one name stands
    have horigin : ref.ident.pos = ref'.ident.pos := by
      have hsame := hdeclared.origin
      rw [hsymbol, hdeclared'.origin, Option.some.injEq, Origin.mk.injEq] at hsame
      exact hsame.2.symm
    have hsame := hfiles.leaf_unique hfile hfile' hmem hmem' rfl rfl horigin
    rw [← hid, ← hid', Node.ident.inj hsame]

/-- A package that imports another one, which was checked before. The second of the short
declarations uses one name and declares the other. -/
theorem checkWithin_records_import : ∃ (set : FileSet) (file : SourceFile) (checked : Checked),
    set.Holds [file] ∧ checked.info.defs.entries.length = 4 ∧
      checked.info.uses.entries.length = 8 ∧ checked.Records ⟨0⟩ [file] := by
  let parsed := (FileSet.empty ⟨0⟩).parseFile "q.go" "package q\n\nvar V int\n"
  let parsed' := parsed.1.parseFile "p.go" ("package p\n\nimport \"q\"\n\n" ++
    "func f(a int) int \x7b\n\tb := q.V\n\tb, c := a, b\n\treturn c\n\x7d\n")
  let alone := CheckInput.alone ⟨0⟩
  let importing (q : Checked) : CheckInput := { alone with
    importer := fun path ↦ if path = "q" then .ok q.scope else .error (.notFound path) }
  have hrun : (parsed.2.toOption.bind fun qfile ↦
      (checkWithin 30 alone [qfile] Universe.store).bind fun q ↦ parsed'.2.toOption.bind fun file ↦
        (checkWithin 30 (importing q) [file] q.store).map fun checked ↦
          (checked.info.defs.entries.length, checked.info.uses.entries.length)) = some (4, 8) := by
    decide +kernel
  obtain ⟨qfile, hqfile, hrun⟩ := Option.bind_eq_some_iff.1 hrun
  obtain ⟨q, hq, hrun⟩ := Option.bind_eq_some_iff.1 hrun
  obtain ⟨file, hfile, hrun⟩ := Option.bind_eq_some_iff.1 hrun
  obtain ⟨checked, hchecked, hcounts⟩ := Option.map_eq_some_iff.1 hrun
  have hparsed : parsed'.1.Parsed [file, qfile] :=
    ((FileSet.Parsed.empty ⟨0⟩).parse (eq_ok_of_toOption hqfile)).parse (eq_ok_of_toOption hfile)
  have hholds : parsed'.1.Holds [file] :=
    ⟨⟨_, hparsed, List.forall_mem_singleton.2 ⟨file, List.mem_cons_self, rfl⟩⟩,
      fun first hfirst second hsecond _ ↦
        (List.mem_singleton.1 hfirst).trans (List.mem_singleton.1 hsecond).symm⟩
  have hmade : MadeBy q.store [q.scope] := MadeBy.start.check (fun _ _ h ↦ (by cases h)) hq
  have himports : ∀ path scope, (importing q).importer path = .ok scope → scope ∈ [q.scope] := by
    intro path scope h
    dsimp only [importing] at h
    split at h
    · cases h
      exact List.mem_cons_self
    · cases h
  exact ⟨parsed'.1, file, checked, hholds, congrArg Prod.fst hcounts, congrArg Prod.snd hcounts,
    checkWithin_records hholds hmade himports hchecked⟩

/-! ### Names that stay unread -/

namespace Checked

/-- Each name that is recorded as a use of a symbol is not read where it stands in the files. -/
def LeavesUnread (checked : Checked) (files : List SourceFile) (id : SymbolId) : Prop :=
  ∀ key ref, checked.info.uses.find? key = some ref → ref.symbol = id →
    ∃ file ∈ files, ∃ node ∈ (Node.file file).nodes, node.Spares ref.ident

/-- What is rightly reported as unused, where it stands: an import under a name, a local variable
or the name that a type switch binds, whose symbols nothing reads. -/
inductive Unread (checked : Checked) (space : SpaceId) (files : List SourceFile) :
    Diagnostic → Prop where
  | imported {spec : ImportSpec} {id : SymbolId}
    (hmem : ∃ file ∈ files, .importSpec spec ∈ (Node.file file).nodes)
    (hnamed : ∀ ident ∈ spec.name, ident.name ≠ "_" ∧ ident.name ≠ ".")
    (hkind : (checked.store.get id).kind = .pkgName) (hunread : checked.LeavesUnread files id) :
    Unread checked space files ⟨spec.path.info.span.start, .unusedImport spec.pathValue⟩
  | declared {ident : Ident} {id : SymbolId} (hmem : castOf files .declares (.ident ident))
    (hnamed : ident.isBlank = false) (hid : checked.store.DeclaredAs space .var ident id)
    (hunread : checked.LeavesUnread files id) :
    Unread checked space files ⟨ident.pos, .unusedLocal ident.name⟩
  | bound {info : NodeInfo} {init : Option Stmt} {binding : Ident} {guard : Expr}
    {clauses : List CaseClause} {ids : List SymbolId}
    (hmem : ∃ file ∈ files, .ofStmt (.typeSwitch info init (some binding) guard clauses) ∈
      (Node.file file).nodes)
    (hnamed : binding.isBlank = false) (harms : ids.length = clauses.length)
    (hids : ∀ id ∈ ids, checked.store.DeclaredAs space .var binding id)
    (hunread : ∀ id ∈ ids, checked.LeavesUnread files id) :
    Unread checked space files ⟨binding.pos, .unusedLocal binding.name⟩

end Checked

/-- A symbol that does not count as used is not read, if it is one that is reported. -/
theorem CheckState.Sound.spares_of_unused {σ : Setting} {blocks : List (List String)}
    {s : CheckState} (h : s.Sound σ blocks) {id : SymbolId} (hid : id ∉ s.used)
    (husable : (s.store.get id).kind.isUsable = true) {key : NodeId} {ref : IdentRef}
    (hfound : s.info.uses.find? key = some ref) (hsymbol : ref.symbol = id) :
    σ.Spares ref.ident := by
  subst hsymbol
  rcases h.reads key ref hfound with hspares | hused | hcredited
  · exact hspares
  · exact absurd hused hid
  · rw [husable] at hcredited
    cases hcredited

namespace Checked.From

variable {checked : Checked} {input : CheckInput} {store : Store} {files : List SourceFile}
  {s : CheckState} {diagnostic : Diagnostic}

theorem leavesUnread (h : checked.From (input.setting files store) s) {id : SymbolId}
    (hid : id ∉ s.used) (husable : (s.store.get id).kind.isUsable = true) :
    checked.LeavesUnread files id := by
  intro key ref hfound hsymbol
  rw [h.info] at hfound
  obtain ⟨role, node, hplaced, hspares⟩ := h.sound.spares_of_unused hid husable hfound hsymbol
  obtain ⟨file, hfile, hmem⟩ := castOf.mem_nodes hplaced
  exact ⟨file, hfile, node, hmem, hspares⟩

theorem unread_import (h : checked.From (input.setting files store) s) {scope : FileScope}
    (hscope : scope ∈ s.files) (hreported : diagnostic ∈ unusedImports s.used scope) :
    checked.Unread input.space files diagnostic := by
  obtain ⟨entry, hentry, rfl⟩ := List.mem_map.1 hreported
  obtain ⟨hdeclared, hid⟩ := List.mem_filter.1 hentry
  obtain ⟨spec, hspec⟩ := (h.sound.files scope hscope).declared entry hdeclared
  obtain ⟨role, hplaced⟩ := hspec.placed
  have hkind := hspec.kind
  rw [hspec.pos, hspec.path]
  refine .imported (castOf.mem_nodes hplaced) hspec.named (h.store ▸ hkind) ?_
  exact h.leavesUnread (by simpa using hid) (by rw [hkind]; rfl)

theorem unread_local (h : checked.From (input.setting files store) s)
    (hreported : diagnostic ∈ unusedLocals s.store s.used s.locals) :
    checked.Unread input.space files diagnostic := by
  obtain ⟨id, hmem, rfl⟩ := List.mem_map.1 hreported
  obtain ⟨hlocal, hid⟩ := List.mem_filter.1 hmem
  obtain ⟨ident, hident⟩ := h.sound.locals id hlocal
  have hdeclared := hident.declared
  have hpos : (s.store.get id).pos = ident.pos := by
    rw [Symbol.pos, hdeclared.origin]
    rfl
  rw [hpos, hdeclared.calls.name]
  refine .declared hident.placed hident.isNamed (h.store ▸ hdeclared) ?_
  exact h.leavesUnread (by simpa using hid) (by rw [hdeclared.kind_eq]; rfl)

theorem unread_binding (h : checked.From (input.setting files store) s)
    (hreported : diagnostic ∈ unusedBindings s.used s.bindings) :
    checked.Unread input.space files diagnostic := by
  obtain ⟨bound, hmem, rfl⟩ := List.mem_map.1 hreported
  obtain ⟨hbinding, hids⟩ := List.mem_filter.1 hmem
  have hbound := h.sound.bindings bound hbinding
  obtain ⟨role, info, init, guard, clauses, hplaced, hlength⟩ := hbound.placed
  refine .bound (castOf.mem_nodes hplaced) hbound.isNamed hlength
    (fun id hid ↦ h.store ▸ hbound.symbols id hid) fun id hid ↦ ?_
  have hunused : id ∉ s.used := by
    intro hused
    rw [List.any_eq_true.2 ⟨id, hid, List.contains_iff_mem.2 hused⟩] at hids
    cases hids
  exact h.leavesUnread hunused (by rw [(hbound.symbols id hid).kind_eq]; rfl)

end Checked.From

/-- Whatever a check reports as unused is never read: a soft problem stands at an import, a local
variable or a bound name, each recorded use of which assigns to it, selects it or names an element.
Neither a blank name nor a dot import is reported. -/
theorem checkWithin_unread {files : List SourceFile} {store : Store} {scopes : List PackageScope}
    {depth : Nat} {input : CheckInput} {checked : Checked} (hmade : MadeBy store scopes)
    (himports : ∀ path scope, input.importer path = .ok scope → scope ∈ scopes)
    (hcheck : checkWithin depth input files store = some checked) {diagnostic : Diagnostic}
    (hreported : diagnostic ∈ checked.diagnostics) (hsoft : diagnostic.isSoft = true) :
    checked.Unread input.space files diagnostic := by
  obtain ⟨hstore, hscopes⟩ := hmade.named
  obtain ⟨s, hs⟩ := checkWithin_sound hstore
    (fun path scope hscope ↦ hscopes scope (himports path scope hscope)) hcheck
  rw [hs.diagnostics] at hreported
  rcases List.mem_append.1 hreported with hfound | hunused
  · -- what the rules report is never soft
    have hhard := hs.sound.reports diagnostic (List.mem_reverse.1 hfound)
    rw [hsoft] at hhard
    cases hhard
  rcases List.mem_append.1 hunused with hunused | hbinding
  · rcases List.mem_append.1 hunused with himport | hlocal
    · obtain ⟨scope, hscope, himport⟩ := List.mem_flatMap.1 himport
      exact hs.unread_import hscope himport
    · exact hs.unread_local hlocal
  · exact hs.unread_binding hbinding

/-- To be assigned to is no use of a variable. -/
example : (((FileSet.empty ⟨0⟩).parseFile "p.go"
    "package p\n\nfunc f(a int) \x7b\n\tb := a\n\tb = 1\n\x7d\n").2.toOption.bind fun file ↦
      (checkWithin 30 (CheckInput.alone ⟨0⟩) [file] Universe.store).map fun checked ↦
        checked.diagnostics.map fun diagnostic ↦ (diagnostic.pos, diagnostic.isSoft)) =
    some [(29, true)] := by
  decide +kernel

end PackageAtlas
