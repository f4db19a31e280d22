import PackageAtlas.Proofs.Naming.StmtRules
import PackageAtlas.Proofs.Resolution.DeclRules
import PackageAtlas.Check.DeclRules

/-!
Package-level declarations. Collecting makes a symbol from each name that declares one; resolving
gives it a type, in the context of its file, whatever is being checked by then.
-/

set_option autoImplicit false
set_option relaxedAutoImplicit false

namespace PackageAtlas

open Check CheckRule

section

variable {σ : Setting} {names : List String} {blocks : List (List String)} {s : CheckState}
  {c : Checker}

/-! ### Imports -/

theorem FileScope.Sound.add {store : Store} {file : FileScope} (h : file.Sound σ store)
    {name : String} {entry : DeclaredImport} {scope : PackageScope}
    (hentry : store.Calls entry.symbol name) (hscope : scope.Named store)
    (himports : name ≠ "_" → name ≠ "." → ∃ spec, σ.Imports store spec entry) :
    (file.add name entry scope).Sound σ store := by
  unfold FileScope.add
  split
  · exact h
  · rename_i hblank
    split
    · refine { h with dotImports := fun other hother ↦ ?_ }
      rcases List.mem_append.1 hother with hold | hnew
      · exact h.dotImports other hold
      · exact List.mem_singleton.1 hnew ▸ hscope
    · rename_i hdot
      refine ⟨h.imports.insert hentry, h.dotImports, fun other hother ↦ ?_⟩
      dsimp only at hother
      split at hother
      · exact h.declared other hother
      · rcases List.mem_append.1 hother with hold | hnew
        · exact h.declared other hold
        · exact List.mem_singleton.1 hnew ▸ himports hblank hdot

theorem Setting.Fair.importedScope (hσ : σ.Fair) {path : String} {scope : PackageScope}
    (h : (if path = foreignPath && σ.input.fakeForeign then .ok (PackageScope.fake foreignPath)
      else σ.input.importer path) = Except.ok scope) : scope.Named σ.store := by
  split at h
  · cases h
    exact PackageScope.named_fake _
  · exact hσ.imports path scope h

/-- The symbol of an import comes from its name, or else from the import. -/
theorem Setting.Fair.declares_import {spec : ImportSpec} {role : Role} {symbol : Symbol}
    (hσ : σ.Fair) (hplaced : σ.placed role (.importSpec spec)) {name : String}
    (hname : symbol.name = (spec.name.map (·.name)).getD name) (hkind : symbol.kind = .pkgName)
    (horigin : symbol.origin = some ⟨σ.input.space,
      (spec.name.map (·.pos)).getD spec.path.info.span.start⟩) : σ.Declares symbol := by
  intro origin hmem
  rw [horigin] at hmem
  cases hmem
  refine ⟨rfl, ?_⟩
  rw [hname]
  cases hspec : spec.name with
  | none => exact .inr ⟨hkind, role, spec, hplaced, hspec, rfl⟩
  | some ident =>
    refine .inl ⟨.declares, ident, hσ.closed hplaced (List.mem_append_left _ ?_), rfl, rfl⟩
    rw [hspec]
    exact List.mem_cons_self

theorem FileScope.sound_modify {store : Store} {files : List FileScope} (file : Nat)
    {change : FileScope → FileScope} (h : ∀ scope ∈ files, scope.Sound σ store)
    (hchange : ∀ scope : FileScope, scope.Sound σ store → (change scope).Sound σ store) :
    ∀ scope ∈ files.modify file change, scope.Sound σ store := by
  intro scope hscope
  obtain ⟨place, hplace⟩ := List.getElem?_of_mem hscope
  rw [List.getElem?_modify] at hplace
  obtain ⟨old, hold, rfl⟩ := Option.map_eq_some_iff.1 hplace
  have hsound := h old (List.mem_of_getElem? hold)
  split
  · exact hchange old hsound
  · exact hsound

theorem marks_collectImport (hσ : σ.Fair) (file : Nat) {spec : ImportSpec} {role : Role}
    (hplaced : σ.placed role (.importSpec spec)) :
    Marks σ blocks (collectImport file spec) Anything := by
  refine fun s ↦ .look (sees_importedScope _) fun hs ↦ ?_
  split
  · exact marks_report _ rfl
  · rename_i scope hscope
    have hnamed : scope.Named s.store := (hσ.importedScope hscope).mono hs.grown
    refine .look sees_read fun _ ↦ ?_
    refine (marks_addSymbol ⟨fun _ h ↦ (by cases h), fun _ h ↦ (by cases h),
      fun _ h ↦ (by cases h), fun _ h ↦ (by cases h; exact hnamed)⟩
      (hσ.declares_import hplaced rfl rfl rfl)).bind fun id s₁ h₁ hid ↦ ?_
    have hadded {s₂ : CheckState} (h₂ : s₁.store.Grows s₂.store) : MarksAt σ blocks blocks s₂
        (modify fun s ↦ { s with
          files := s.files.modify file fun scopes ↦
            scopes.add ((spec.name.map (·.name)).getD scope.name)
              ⟨id, spec.path.info.span.start, spec.pathValue⟩ scope }) Anything := by
      refine .modify (.ofStore (.refl _) rfl) fun hs₂ ↦ { hs₂ with files := ?_ }
      have hcalls : s₁.store.Calls id ((spec.name.map (·.name)).getD scope.name) :=
        ⟨hid.2.1, by rw [hid.2.2]⟩
      refine FileScope.sound_modify file hs₂.files fun _ hfile ↦
        hfile.add (hcalls.mono h₂) (hnamed.mono (h₁.trans h₂)) fun hblank hdot ↦ ?_
      have himports : σ.Imports s₁.store spec
          ⟨id, spec.path.info.span.start, spec.pathValue⟩ := by
        refine ⟨⟨role, hplaced⟩, fun ident hident ↦ ?_, rfl, rfl, hid.2.1, by rw [hid.2.2]⟩
        rw [Option.mem_def.1 hident] at hblank hdot
        exact ⟨hblank, hdot⟩
      exact ⟨spec, himports.mono h₂⟩
    cases hname : spec.name with
    | none =>
      rw [hname] at hadded
      exact (marks_recordImplicit _ _).bind fun _ _ h₂ _ ↦ hadded h₂
    | some ident =>
      rw [hname] at hadded
      have hident : σ.placed .declares (.ident ident) :=
        hσ.closed hplaced (List.mem_append_left _ (by rw [hname]; exact List.mem_cons_self))
      have hdeclared : s₁.store.DeclaredBy σ.input.space ident id :=
        ⟨⟨hid.2.1, by rw [hid.2.2, hname]; rfl⟩, by rw [hid.2.2, hname]; rfl⟩
      exact (marks_recordDef hident hdeclared).bind fun _ _ h₂ _ ↦ hadded h₂

/-! ### Members -/

theorem marks_declareMember {ident : Ident} {id : SymbolId} (hid : s.store.Calls id ident.name) :
    MarksAt σ blocks blocks s (declareMember ident id) Anything := by
  refine .bind (.modify (.ofStore (.refl _) rfl) fun hs ↦ { hs with }) fun _ s₁ h₁ _ ↦ ?_
  refine .ite (fun _ ↦ .pure trivial) fun _ ↦ .look sees_get fun _ ↦
    .ite (fun _ ↦ marks_report _ rfl) fun _ ↦ ?_
  exact .modify (.ofStore (.refl _) rfl) fun hs₁ ↦
    { hs₁ with members := hs₁.members.insert (hid.mono h₁) }

/-- A symbol that is resolved later. -/
theorem marks_pendingSymbol {ident : Ident} (found : Symbol) (pending : Pending)
    (hnamed : found.Named s.store) (hfrom : found.From σ.input ident)
    (hplaced : σ.placed .declares (.ident ident))
    (hpending : ∀ id (store : Store), id.index < store.symbols.size → store.get id = found →
      pending.Sound σ store id) :
    MarksAt σ blocks blocks s (pendingSymbol ident found pending) fun id store ↦
      store.DeclaredBy σ.input.space ident id ∧ store.get id = found := by
  intro hs id later hrun
  cases hrun
  obtain ⟨hs₁, hgrows, -, hlt, hget⟩ := marks_addSymbol hnamed (hfrom.declares hplaced) hs
    s.store.next { s with store := s.store.push found } rfl
  have hdeclared : (s.store.push found).DeclaredBy σ.input.space ident s.store.next :=
    ⟨⟨hlt, by rw [hget, hfrom.name]⟩, by rw [hget, hfrom.origin]⟩
  obtain ⟨hs₂, -, -⟩ := marks_recordDef hplaced hdeclared hs₁ () _ rfl
  -- what was pending before has an earlier number than the new symbol
  have hold {other : SymbolId} {waiting : Pending}
      (h : s.pending.find? other = some waiting) : other ≠ s.store.next := by
    rintro rfl
    exact Nat.lt_irrefl _ (hs.pending _ _ h).placed
  refine ⟨{ hs₂ with pending := fun other waiting h ↦ ?_, funcs := fun entry hentry ↦ ?_ },
    ⟨hgrows.store, fun other waiting h ↦ ?_⟩, hdeclared, hget⟩
  · exact Dict.forall_find?_insert hs₂.pending (hpending _ _ hlt hget) other waiting h
  · have hfound := hs.funcs entry hentry
    rw [Dict.find?_insert_of_ne _ _ (hold hfound)]
    exact hfound
  · rw [Dict.find?_insert_of_ne _ _ (hold h)]
    exact h

/-- Nothing is known of a new symbol but its kind, its name and its place. -/
theorem Symbol.Named.declared {store : Store} {symbol : Symbol} (htype : symbol.type = none)
    (hunderlying : symbol.underlying = none) (hmethods : symbol.methods = [])
    (himported : symbol.imported = none) : symbol.Named store :=
  .ofType (fun _ h ↦ by rw [htype] at h; cases h) hunderlying hmethods himported

theorem marks_pendingFunc (hσ : σ.Fair) (file : Nat) {decl : FuncDecl}
    (hplaced : σ.placed .uses (.funcDecl decl)) :
    MarksAt σ blocks blocks s (pendingFunc file decl) fun id store ↦
      store.DeclaredBy σ.input.space decl.name id := by
  have hname : σ.placed .declares (.ident decl.name) :=
    hσ.closed hplaced (List.mem_append_left _ (List.mem_append_right _ List.mem_cons_self))
  refine .look (sees_declared .func decl.name) fun _ ↦ fun hs id later hrun ↦ ?_
  obtain ⟨id', middle, hstep, hrest⟩ := exists_of_run_bind hrun
  cases hrest
  obtain ⟨hmiddle, hgrows, hid⟩ := marks_pendingSymbol
    { kind := .func, name := decl.name.name, package := some σ.input.path
      origin := some ⟨σ.input.space, decl.name.pos⟩ } (.func decl file)
    (.declared rfl rfl rfl rfl) ⟨rfl, rfl⟩ hname
    (fun _ _ hlt hget ↦ ⟨hplaced, hlt, by rw [hget], fun _ h ↦ by rw [hget] at h; cases h⟩)
    hs _ middle hstep
  refine ⟨{ hmiddle with funcs := fun entry hentry ↦ ?_ }, ⟨hgrows.store, hgrows.pending⟩, hid.1⟩
  rcases List.mem_append.1 hentry with hold | hnew
  · exact hmiddle.funcs entry hold
  · rw [List.mem_singleton.1 hnew]
    cases hstep
    exact Dict.find?_insert_self _ _ _

theorem marks_collectFunc (hσ : σ.Fair) (file : Nat) {decl : FuncDecl}
    (hplaced : σ.placed .uses (.funcDecl decl)) :
    MarksAt σ blocks blocks s (collectFunc file decl) Anything :=
  (marks_pendingFunc hσ file hplaced).bind fun _ _ _ hid ↦
    .ite (fun _ ↦ .pure trivial) fun _ ↦ marks_declareMember hid.calls

theorem marks_collectType (hσ : σ.Fair) (file : Nat) {spec : TypeSpec}
    (hplaced : σ.placed .uses (.typeSpec spec)) :
    MarksAt σ blocks blocks s (collectType file spec) Anything := by
  have hname : σ.placed .declares (.ident spec.name) := hσ.closed hplaced List.mem_cons_self
  refine .look (sees_declared .typeName spec.name) fun _ ↦ ?_
  refine (marks_pendingSymbol _ _ (.declared rfl rfl rfl rfl) ⟨rfl, rfl⟩ hname
    fun id store hlt hget ↦ ?_).bind fun _ _ _ hid ↦ marks_declareMember hid.1.calls
  exact ⟨hplaced, hlt, by rw [hget]; exact fun h ↦ by cases h⟩

theorem marks_collectValues (hσ : σ.Fair) (file iota : Nat) (isConst : Bool) {spec : ValueSpec}
    {init : Initializers} {role : Role} (hplaced : σ.placed role (.valueSpec spec))
    (hinit : InitPlaced σ init) :
    MarksAt σ blocks blocks s (collectValues file iota isConst spec init) Anything := by
  have hnames := hσ.specNames hplaced
  have hkind : (if isConst then SymbolKind.const else .var) ≠ .func := by cases isConst <;> nofun
  refine .look sees_get fun _ ↦ ?_
  refine (Marks.mapM
    (fun ident id store ↦
      store.DeclaredAs σ.input.space (if isConst then .const else .var) ident id)
    (fun _ _ _ _ hgrows h ↦ h.mono hgrows) (fun ident hident s ↦ ?_) s).bind
      fun ids s₁ _ hids ↦ ?_
  · refine .look (sees_declared _ ident) fun _ ↦ ?_
    refine (marks_pendingSymbol _ _ (.declared rfl rfl rfl rfl) ⟨rfl, rfl⟩ (hnames ident hident)
      fun id store hlt hget ↦ ?_).bind fun id s₁ _ hid ↦ ?_
    · exact ⟨hlt, by rw [hget]; exact hkind⟩
    · have hdeclared : s₁.store.DeclaredAs σ.input.space (if isConst then .const else .var)
          ident id := ⟨hid.1, by rw [hid.2]⟩
      exact (marks_declareMember hid.1.calls).bind fun _ _ h₂ _ ↦ .pure (hdeclared.mono h₂)
  · refine .modify (.ofStore (.refl _) rfl) fun hs₁ ↦ { hs₁ with groups := fun group hgroup ↦ ?_ }
    rcases List.mem_append.1 hgroup with hold | hnew
    · exact hs₁.groups group hold
    · rw [List.mem_singleton.1 hnew]
      exact ⟨MadeFrom.noFunc hids hkind, hinit.type, hinit.values⟩

theorem marks_collectSpecs (hσ : σ.Fair) (file : Nat) (isConst : Bool) (iota : Nat)
    {inherited : Option Initializers} {specs : List Spec}
    (hplaced : ∀ spec ∈ specs, σ.placed .uses (.ofSpec spec))
    (hinherited : ∀ init ∈ inherited, InitPlaced σ init) :
    MarksAt σ blocks blocks s (collectSpecs file isConst iota inherited specs) Anything := by
  induction specs generalizing s iota inherited with
  | nil => exact .pure trivial
  | cons spec rest ih =>
    obtain ⟨hspec, hrest⟩ := List.forall_mem_cons.1 hplaced
    cases spec with
    | imports spec => exact ih _ hrest hinherited
    | type spec => exact (marks_collectType hσ file hspec).bind fun _ _ _ _ ↦ ih _ hrest hinherited
    | value spec =>
      have hown := hσ.specInit hspec
      cases isConst with
      | false =>
        exact (marks_collectValues hσ file iota false hspec hown).bind fun _ _ _ _ ↦
          ih _ hrest hinherited
      | true =>
        have hinit := hown.constInitializers hinherited
        exact (marks_collectValues hσ file iota true hspec hinit).bind fun _ _ _ _ ↦
          ih _ hrest fun init h ↦ by cases h; exact hinit

theorem marks_collectDecl (hσ : σ.Fair) (file : Nat) {decl : Decl}
    (hplaced : σ.placed .uses (.ofDecl decl)) :
    Marks σ blocks (collectDecl file decl) Anything := by
  intro s
  cases decl with
  | gen decl =>
    refine marks_collectSpecs hσ file _ 0 (fun spec hspec ↦ ?_) nofun
    exact hσ.closed hplaced (List.mem_map_of_mem (List.mem_map_of_mem hspec))
  | func decl =>
    exact .ite (fun _ ↦ marks_collectFunc hσ file hplaced) fun _ ↦ .pure trivial

/-- An import of a file stands in a declaration of the file. -/
theorem SourceFile.exists_of_mem_imports {source : SourceFile} {spec : ImportSpec}
    (h : spec ∈ source.imports) : ∃ decl : GenDecl, .gen decl ∈ source.decls ∧
      .imports spec ∈ decl.specs := by
  obtain ⟨decl, hdecl, hspec⟩ := List.mem_flatMap.1 h
  cases decl with
  | func => cases hspec
  | gen decl =>
    dsimp only at hspec
    split at hspec
    · obtain ⟨other, hother, hsome⟩ := List.mem_filterMap.1 hspec
      cases other with
      | imports _ =>
        cases hsome
        exact ⟨decl, hdecl, hother⟩
      | value | type => cases hsome
    · cases hspec

theorem Setting.Fair.decl (h : σ.Fair) {role : Role} {source : SourceFile}
    (hplaced : σ.placed role (.file source)) {decl : Decl} (hdecl : decl ∈ source.decls) :
    σ.placed .uses (.ofDecl decl) :=
  h.closed hplaced (List.mem_cons_of_mem _ (List.mem_map_of_mem hdecl))

theorem marks_collectFile (hσ : σ.Fair) (file : Nat) {role : Role} {source : SourceFile}
    (hplaced : σ.placed role (.file source)) :
    MarksAt σ blocks blocks s (collectFile file source) Anything := by
  refine .bind (.modify (.ofStore (.refl _) rfl) fun hs ↦ { hs with files := ?_ })
    fun _ s₁ _ _ ↦ ?_
  · intro scope hscope
    rcases List.mem_append.1 hscope with hold | hnew
    · exact hs.files scope hold
    · rw [List.mem_singleton.1 hnew]
      exact FileScope.sound_empty
  refine (Marks.forM (fun spec hspec ↦ ?_) s₁).bind fun _ s₂ _ _ ↦
    Marks.forM (fun decl hdecl ↦ marks_collectDecl hσ file (hσ.decl hplaced hdecl)) s₂
  obtain ⟨decl, hdecl, hmem⟩ := SourceFile.exists_of_mem_imports hspec
  have himport : σ.placed .uses (.importSpec spec) :=
    hσ.closed (hσ.decl hplaced hdecl) (List.mem_map_of_mem (List.mem_map_of_mem hmem))
  exact marks_collectImport hσ file himport

/-! ### Methods -/

theorem marks_attachMethod (decl : FuncDecl) (base : Ident) (owner : SymbolId) {method : SymbolId}
    (hmethod : method.index < s.store.symbols.size) :
    MarksAt σ blocks blocks s (attachMethod decl base owner method) Anything :=
  .look sees_store fun _ ↦ .ite (fun _ ↦ marks_report _ rfl) fun _ ↦ .ite (fun _ ↦ .pure trivial)
    fun _ ↦ .ite (fun _ ↦ marks_report _ rfl) fun _ ↦ marks_addMethod owner hmethod

theorem marks_collectMethod (hσ : σ.Fair) (file : Nat) {decl : FuncDecl}
    (hplaced : σ.placed .uses (.funcDecl decl)) :
    MarksAt σ blocks blocks s (collectMethod file decl) Anything := by
  refine (marks_pendingFunc hσ file hplaced).bind fun id s₁ _ hid ↦ ?_
  split
  · exact marks_report _ rfl
  · refine .look sees_get fun _ ↦ ?_
    split
    · exact marks_report _ rfl
    · exact marks_attachMethod _ _ _ hid.calls.placed

theorem marks_collectMethods (hσ : σ.Fair) (file : Nat) {role : Role} {source : SourceFile}
    (hplaced : σ.placed role (.file source)) :
    Marks σ blocks (collectMethods file source) Anything := by
  refine .forM fun decl hdecl s ↦ ?_
  have hdecl := hσ.decl hplaced hdecl
  cases decl with
  | gen decl => exact .pure trivial
  | func decl => exact .ite (fun _ ↦ marks_collectMethod hσ file hdecl) fun _ ↦ .pure trivial

/-! ### Resolving -/

theorem marks_settleType {id : SymbolId} (isAlias : Bool) {type : Ty} (hid : s.store.NoFunc id)
    (htype : type.Named s.store) :
    MarksAt σ blocks blocks s (settleType id isAlias type) Anything :=
  .ite (fun _ ↦ marks_setType hid htype) fun _ ↦ marks_setUnderlying id htype

theorem marks_resolveType (hσ : σ.Fair) (hc : TasksMark σ c) {id : SymbolId} {spec : TypeSpec}
    (file : Nat) (hplaced : σ.placed .uses (.typeSpec spec)) (hid : s.store.NoFunc id) :
    MarksAt σ blocks blocks s (resolveType c id spec file) Anything := by
  have hexpr : σ.placed .uses (.ofExpr spec.type) :=
    hσ.closed hplaced (List.mem_cons_of_mem _ List.mem_cons_self)
  refine .look (sees_symbol id) fun _ ↦ .ite (fun _ ↦ .pure trivial) fun _ ↦
    .look sees_get fun _ ↦ .ite (fun _ ↦ ?_) fun _ ↦ ?_
  · exact (marks_report _ rfl).bind fun _ _ h₁ _ ↦ marks_settleType _ (hid.mono h₁) .invalid
  · refine .bind (.modify (.ofStore (.refl _) rfl) fun hs ↦ { hs with }) fun _ s₁ h₁ _ ↦ ?_
    refine .bind (.inContext rfl (hc.typeExpr _ hexpr [] _)) fun type s₂ h₂ htype ↦ ?_
    have hleave {s : CheckState} : MarksAt σ blocks blocks s
        (modify fun s ↦ { s with resolving := s.resolving.erase id }) Anything :=
      .modify (.ofStore (.refl _) rfl) fun hs ↦ { hs with }
    have hid₂ := hid.mono (h₁.trans h₂)
    refine .ite (fun _ ↦ (marks_settleType _ hid₂ htype).bind fun _ _ _ _ ↦ hleave) fun _ ↦ ?_
    refine (marks_underlying (fun id ↦ hc.resolve id _) htype).bind fun _ _ h₃ hshape ↦ ?_
    exact (marks_settleType _ (hid₂.mono h₃) hshape).bind fun _ _ _ _ ↦ hleave

theorem marks_cyclicValue {id : SymbolId} (hid : s.store.NoFunc id) :
    MarksAt σ blocks blocks s (cyclicValue id) Anything :=
  .look (sees_symbol id) fun _ ↦ .ite
    (fun _ ↦ (marks_report _ rfl).bind fun _ _ h₁ _ ↦ marks_setType (hid.mono h₁) .invalid)
    fun _ ↦ .pure trivial

theorem marks_resolveGroup (hc : TasksMark σ c) (number : Nat) :
    MarksAt σ blocks blocks s (resolveGroup c number) Anything := by
  refine .look sees_get fun hs ↦ ?_
  have hgroup : (s.groups[number]?.getD default).Sound σ s.store := by
    cases hfound : s.groups[number]? with
    | none => exact ⟨fun _ h ↦ (by cases h), fun _ h ↦ (by cases h), fun _ h ↦ (by cases h)⟩
    | some group => exact hs.groups group (List.mem_of_getElem? hfound)
  refine .ite (fun _ ↦ .pure trivial) fun _ ↦ .ite (fun _ ↦ ?_) fun _ ↦ ?_
  · exact Marks.forMOf (fun id store ↦ store.NoFunc id) (fun _ _ _ hgrows h ↦ h.mono hgrows)
      (fun _ _ _ h ↦ marks_cyclicValue h) hgroup.symbols
  · refine .bind (.modify (.ofStore (.refl _) rfl) fun hs ↦ { hs with }) fun _ s₁ h₁ _ ↦ ?_
    refine .bind (.inContext rfl (marks_initSymbols _ (fun id hid ↦ ?_)
      (fun e he ↦ hc.typeExpr e (hgroup.type e he) []) fun e he ↦
        hc.expr e (hgroup.values e he) [])) fun _ _ _ _ ↦ ?_
    · exact (hgroup.symbols id hid).mono h₁
    · exact .modify (.ofStore (.refl _) rfl) fun hs ↦ { hs with }

theorem marks_resolveFunc (hσ : σ.Fair) (hc : TasksMark σ c) {id : SymbolId} {decl : FuncDecl}
    {file : Nat} (hplaced : σ.placed .uses (.funcDecl decl))
    (hid : s.pending.find? id = some (.func decl file)) :
    MarksAt σ blocks blocks s (resolveFunc c id decl file) Anything := by
  have htype : σ.placed .uses (.funcType decl.type) := hσ.closed hplaced (List.mem_append_left _
    (List.mem_append_right _ (List.mem_cons_of_mem _ List.mem_cons_self)))
  refine .look (sees_symbol id) fun _ ↦ .ite (fun _ ↦ ?_) fun _ ↦ .pure trivial
  refine .bindGrown (.inContext rfl (marks_signature fun field hfield ↦
    hc.typeExpr _ (hσ.fieldType (hσ.funcFields htype hfield)) [])) fun signature s₁ h₁ hfits ↦ ?_
  exact marks_setFuncType (h₁.pending _ _ hid) hfits.2 hfits.1

theorem marks_resolve (hσ : σ.Fair) (hc : TasksMark σ c) (id : SymbolId) :
    MarksAt σ blocks blocks s (resolve c id) Anything := by
  refine .look sees_get fun hs ↦ ?_
  cases hfound : s.pending.find? id with
  | none => exact .pure trivial
  | some pending =>
    have hpending := hs.pending id pending hfound
    cases pending with
    | type spec file => exact marks_resolveType hσ hc file hpending.1 hpending.2
    | value group => exact marks_resolveGroup hc group
    | func decl file => exact marks_resolveFunc hσ hc hpending.1 hfound

/-! ### Bodies -/

theorem marks_declareReceiver (hσ : σ.Fair) (hc : TasksMark σ c) {receiver : Field}
    (hplaced : σ.placed .uses (.field receiver)) :
    MarksAt σ (names :: blocks) ((receiver.nameTexts ++ names) :: blocks) s
      (declareReceiver c receiver) Anything := by
  refine (hc.typeExpr _ (hσ.fieldType hplaced) _ s).bind fun type s₁ _ htype ↦ ?_
  refine marks_declareEach Ident.name (fun _ store ↦ type.Named store)
    (fun _ _ _ hgrows h ↦ h.mono hgrows) (fun name hname names s htype ↦ ?_) fun _ _ ↦ htype
  have hident := hσ.fieldNames hplaced hname
  exact (marks_addVariable false hident htype).bind fun _ _ _ hid ↦
    marks_declareLocal hident hid.toDeclaredBy

/-- The signature of a function that is resolved later fits, once it has one. -/
theorem Pending.Sound.fits {store : Store} {id : SymbolId} {decl : FuncDecl} {file : Nat}
    (h : (Pending.func decl file).Sound σ store id) {signature : Signature}
    (hfound : store.signature? (store.typeOf id) = some signature) : signature.Fits decl.type := by
  obtain ⟨-, -, hkind, htype⟩ := h
  have htypeOf : store.typeOf id = (store.get id).type.getD .invalid := by
    simp [Store.typeOf, Symbol.isDefinedType, hkind]
  rw [htypeOf] at hfound
  cases hold : (store.get id).type with
  | none =>
    rw [hold] at hfound
    cases hfound
  | some type =>
    obtain ⟨_, rfl, hfits⟩ := htype type hold
    rw [hold] at hfound
    cases hfound
    exact hfits

theorem marks_funcBody (hσ : σ.Fair) (hc : TasksMark σ c) {decl : FuncDecl} {id : SymbolId}
    {file : Nat} (hid : s.pending.find? id = some (.func decl file)) :
    MarksAt σ blocks blocks s (funcBody c decl id file) Anything := by
  refine .look sees_store fun hs ↦ ?_
  have hpending := hs.pending id _ hid
  have hplaced : σ.placed .uses (.funcDecl decl) := hpending.1
  have htype : σ.placed .uses (.funcType decl.type) := hσ.closed hplaced (List.mem_append_left _
    (List.mem_append_right _ (List.mem_cons_of_mem _ List.mem_cons_self)))
  split
  · exact .pure trivial
  · rename_i signature hfound
    have hnamed := hs.store.signature? (hs.store.typeOf id) hfound
    have hreceiver {s : CheckState} : MarksAt σ [[]]
        [decl.receiver.toList.flatMap Field.nameTexts ++ []] s
        (decl.receiver.forM (declareReceiver c)) Anything := by
      cases hfield : decl.receiver with
      | none => exact .pure trivial
      | some receiver =>
        have hreceiver : σ.placed .uses (.field receiver) := by
          refine hσ.closed hplaced (List.mem_append_left _ (List.mem_append_left _ ?_))
          rw [hfield]
          exact List.mem_cons_self
        rw [Option.toList_some, List.flatMap_singleton]
        exact marks_declareReceiver hσ hc hreceiver
    refine .inContext rfl (.inBlock
      (namesAfter decl.nameTexts (decl.body.toList.flatMap Block.stmts)) ?_)
    refine hreceiver.bind fun _ s₁ h₁ _ ↦ ?_
    refine (marks_declareParams hσ htype (hpending.fits hfound) (hnamed.mono h₁)).bind
      fun _ s₂ _ _ ↦ ?_
    refine .congrBefore (?_ : MarksAt σ [decl.nameTexts] _ _ _ _) fun name _ ↦ ?_
    · cases hbody : decl.body with
      | none => exact .pure trivial
      | some body =>
        have hblock : σ.placed (.inBlock decl.nameTexts) (.block body) := by
          refine hσ.closed hplaced (List.mem_append_right _ ?_)
          rw [hbody]
          exact List.mem_cons_self
        rw [Option.toList_some, List.flatMap_singleton]
        exact .inFunction _ (marks_stmts hc fun entry hentry ↦ hσ.closed hblock hentry)
    · rw [FuncDecl.nameTexts, List.append_nil, List.mem_append, List.mem_append, or_comm]

end

end PackageAtlas
