import PackageAtlas.Proofs.Imports.Dotless
import PackageAtlas.Proofs.Imports.Memo
import PackageAtlas.Proofs.Resolution.Ends

/-!
Imports that end. Each nested import is in progress at a place of its own, and a tree has only so
many places that paths without two dots lead to; so imports do not nest without end as long as the
checks of single packages end (`imports_end`).
-/

set_option autoImplicit false
set_option relaxedAutoImplicit false

namespace PackageAtlas

open Importing PackageAtlas.Path

/-- A site without two dots, whose packages have imports without two dots and signatures that ask
for no function. -/
structure Site.IsDownward (site : Site) : Prop extends site.IsDotless where
  imports : ∀ dir, ∀ path ∈ site.importPaths dir, Dotless path
  signatures : ∀ space dir set files, packageFiles site space dir = .ok (set, files) →
    PlainSignatures files

/-- A state from which imports may still nest so deep: what is in progress has places of its own,
and everything that was found out is about symbols of the store. -/
structure ImportState.Ready (site : Site) (room : Nat) (s : ImportState) : Prop where
  sound : s.memo.Sound site
  predeclared : Universe.symbols.length < s.atlas.store.symbols.size
  done : ∀ key scope, (key, .ok scope) ∈ s.memo.done → s.atlas.store.Holds scope
  inside : ∀ key ∈ s.memo.inProgress, key ∈ site.tree.places
  room : site.tree.places.length < room + s.memo.inProgress.length

/-- What an import leads to when it ends: symbols are only added, and all scopes are about them. -/
structure ImportState.Settles (s later : ImportState) (result : Except ImportError PackageScope) :
    Prop where
  size_le : s.atlas.store.symbols.size ≤ later.atlas.store.symbols.size
  done : ∀ key scope, (key, .ok scope) ∈ later.memo.done → later.atlas.store.Holds scope
  result : ∀ scope, result = .ok scope → later.atlas.store.Holds scope

/-- An importer that has a result for every path without two dots. -/
def Importer.Ends (importer : Importer) (site : Site) (room : Nat) : Prop :=
  ∀ path importing s, s.Ready site room → Dotless path → (∀ dir ∈ importing, Dotless dir) →
    ∃ result later, importer path importing s = some (result, later) ∧ s.Settles later result

variable {site : Site} {room : Nat} {s later : ImportState}

namespace ImportState.Ready

theorem advance (h : s.Ready site room) (hadvances : site.Advances 0 s later)
    {result : Except ImportError PackageScope} (hsettles : s.Settles later result) :
    later.Ready site room where
  sound := hadvances.sound
  predeclared := Nat.lt_of_lt_of_le h.predeclared hsettles.size_le
  done := hsettles.done
  inside := by
    rw [hadvances.inProgress]
    exact h.inside
  room := by
    rw [hadvances.inProgress]
    exact h.room

/-- As long as there is more in progress than places are left out of the room, there is room. -/
theorem room_pos (h : s.Ready site room) : 0 < room := by
  have hle : s.memo.inProgress.length ≤ site.tree.places.length :=
    List.Nodup.length_le_of_subset h.sound.nodup h.inside
  have := h.room
  omega

/-- An import that nests takes one place of the room. -/
theorem enter (h : s.Ready site (room + 1)) {key : List String} (hkey : key ∈ site.tree.places)
    (hdone : s.memo.done.lookup key = none) (hnew : key ∉ s.memo.inProgress) :
    ImportState.Ready site room { s with memo.inProgress := key :: s.memo.inProgress } where
  sound := h.sound.enter hdone hnew
  predeclared := h.predeclared
  done := h.done
  inside := List.forall_mem_cons.mpr ⟨hkey, h.inside⟩
  room := by
    have := h.room
    rw [List.length_cons]
    omega

theorem addSpace (h : s.Ready site room) (files : FileSet) :
    ImportState.Ready site room { s with atlas := s.atlas.addSpace files } :=
  ⟨h.sound, h.predeclared, h.done, h.inside, h.room⟩

end ImportState.Ready

namespace Importing

variable {importer : Importer} {dir path : String}

theorem run_bind_of_run {α β : Type} {step : Importing α} {next : α → Importing β} {a : α}
    {middle : ImportState} (h : step s = some (a, middle)) : (step >>= next) s = next a middle := by
  change (step s).bind (fun result ↦ next result.1 result.2) = _
  rw [h]
  rfl

theorem importAll_cons_of_run {paths : List String} {middle : ImportState}
    {result : Except ImportError PackageScope}
    {others : List (String × Except ImportError PackageScope)}
    (h : importer path (some dir) s = some (result, middle))
    (hrest : importAll importer dir paths middle = some (others, later)) :
    importAll importer dir (path :: paths) s = some ((path, result) :: others, later) := by
  have hentry : (do return (path, ← importer path (some dir)) : Importing _) s =
      some ((path, result), middle) := by
    rw [run_bind_of_run h]
    rfl
  rw [importAll, List.mapM_cons, run_bind_of_run hentry]
  exact run_bind_of_run hrest

/-- Imports one after the other have results, and all scopes among them are about symbols. -/
theorem importAll_ends (hremembers : importer.Remembers site) (hends : importer.Ends site room)
    (hs : s.Ready site room) (hdir : Dotless dir) {paths : List String}
    (hpaths : ∀ path ∈ paths, Dotless path) :
    ∃ results later, importAll importer dir paths s = some (results, later) ∧
      later.Ready site room ∧ s.atlas.store.symbols.size ≤ later.atlas.store.symbols.size ∧
      ∀ path scope, (path, .ok scope) ∈ results → later.atlas.store.Holds scope := by
  induction paths generalizing s with
  | nil => exact ⟨[], s, rfl, hs, Nat.le_refl _, fun _ _ hmem ↦ (by cases hmem)⟩
  | cons path paths ih =>
    obtain ⟨result, middle, hfirst, hsettles⟩ := hends path (some dir) s hs
      (hpaths path List.mem_cons_self) fun _ heq ↦ Option.some.inj heq ▸ hdir
    have hmiddle := hs.advance (hremembers.advances hs.sound hfirst) hsettles
    obtain ⟨others, later, hrest, hlater, hsize, hscopes⟩ :=
      ih hmiddle fun other hother ↦ hpaths other (List.mem_cons_of_mem _ hother)
    refine ⟨_, later, importAll_cons_of_run hfirst hrest, hlater,
      Nat.le_trans hsettles.size_le hsize, fun other scope hmem ↦ ?_⟩
    rcases List.mem_cons.mp hmem with heq | hmem
    · cases heq
      exact (hsettles.result scope rfl).mono hsize
    · exact hscopes other scope hmem

theorem checkImported_ends (hremembers : importer.Remembers site) (hends : importer.Ends site room)
    (hs : s.Ready site room) (hdir : Dotless dir) {space : FileSet} {files : List SourceFile}
    (hpaths : ∀ path ∈ (files.flatMap SourceFile.importPaths).filter (· ≠ foreignPath),
      Dotless path)
    (hplain : PlainSignatures files) :
    ∃ result later, checkImported importer dir path space files s = some (result, later) ∧
      s.Settles later result := by
  obtain ⟨results, middle, himports, hmiddle, hsize, hscopes⟩ :=
    importAll_ends hremembers hends hs hdir fun path hpath ↦
      hpaths path (List.mem_eraseDups.mp hpath)
  let input : CheckInput := ⟨path, space.space, resultOf results, true⟩
  obtain ⟨checked, hcheck, hgrows, hholds⟩ : ∃ checked,
      checkFiles input files middle.atlas.store = some checked ∧
        middle.atlas.store.symbols.size ≤ checked.store.symbols.size ∧
        checked.store.Holds checked.scope :=
    checkFiles_ends hmiddle.predeclared
      (fun imported scope hscope ↦ hscopes imported scope (resultOf_eq_ok hscope)) hplain
  let last : ImportState := { middle with atlas := { middle.atlas with store := checked.store } }
  have hsettles (result : Except ImportError PackageScope)
      (hresult : ∀ scope, result = .ok scope → scope = checked.scope) : s.Settles last result :=
    ⟨Nat.le_trans hsize hgrows, fun key scope hmem ↦ (hmiddle.done key scope hmem).mono hgrows,
      fun scope heq ↦ hresult scope heq ▸ hholds⟩
  have hlift : (liftM (checkFiles input files middle.atlas.store) : Importing Checked) middle =
      some (checked, middle) := by
    rw [hcheck]
    rfl
  have hset : (set last : Importing Unit) middle = some ((), last) := rfl
  have hrun (result : Except ImportError PackageScope)
      (hfail : (failureText? space dir checked).elim (.ok checked.scope)
        (fun text ↦ .error (.broken path text)) = result) :
      checkImported importer dir path space files s = some (result, last) := by
    unfold checkImported
    dsimp only
    rw [run_bind_of_run himports, run_get_bind, run_bind_of_run hlift, run_bind_of_run hset]
    subst hfail
    cases failureText? space dir checked <;> rfl
  refine ⟨_, last, hrun _ rfl, hsettles _ fun scope heq ↦ ?_⟩
  cases hfail : failureText? space dir checked with
  | none =>
    rw [hfail] at heq
    exact (Except.ok.inj heq).symm
  | some text =>
    rw [hfail] at heq
    cases heq

/-- A directory without two dots is checked to its end. -/
theorem checkDir_ends (hsite : site.IsDownward) (hremembers : importer.Remembers site)
    (hends : importer.Ends site room) (hs : s.Ready site room) (hdir : Dotless dir)
    (hne : dir ≠ "") :
    ∃ result later, checkDir site importer dir path s = some (result, later) ∧
      s.Settles later result := by
  cases hfiles : packageFiles site s.atlas.nextSpace dir with
  | error text =>
    refine ⟨.error (.broken path text), s, ?_, Nat.le_refl _, hs.done, fun _ heq ↦ (by cases heq)⟩
    unfold checkDir
    rw [run_get_bind, hfiles]
    rfl
  | ok parsed =>
    obtain ⟨space, files⟩ := parsed
    have hpaths := hsite.imports dir
    rw [Site.importPaths_eq rfl hne hne hfiles] at hpaths
    obtain ⟨result, later, hrun, hsettles⟩ := checkImported_ends hremembers hends
      (hs.addSpace space) hdir hpaths (hsite.signatures _ _ _ _ hfiles)
    refine ⟨result, later, ?_, hsettles.size_le, hsettles.done, hsettles.result⟩
    unfold checkDir
    rw [run_get_bind, hfiles]
    exact hrun

theorem once_of_progress {check : Importing (Except ImportError PackageScope)}
    (hdone : s.memo.done.lookup (Path.parts dir) = none)
    (hprogress : Path.parts dir ∈ s.memo.inProgress) :
    once dir path check s = some (.error (.cycle path), s) := by
  unfold once
  dsimp only
  rw [run_get_bind]
  simp only [hdone, List.contains_iff_mem.mpr hprogress]
  rfl

theorem once_of_new {check : Importing (Except ImportError PackageScope)} {middle : ImportState}
    {result : Except ImportError PackageScope}
    (hdone : s.memo.done.lookup (Path.parts dir) = none)
    (hnew : Path.parts dir ∉ s.memo.inProgress)
    (hrun : check { s with memo.inProgress := Path.parts dir :: s.memo.inProgress } =
      some (result, middle)) :
    once dir path check s = some (result, { middle with memo :=
      ⟨(Path.parts dir, result) :: middle.memo.done,
        middle.memo.inProgress.erase (Path.parts dir)⟩ }) := by
  have hcontains : ¬ s.memo.inProgress.contains (Path.parts dir) = true :=
    fun h ↦ hnew (List.contains_iff_mem.mp h)
  unfold once
  dsimp only
  rw [run_get_bind]
  simp only [hdone]
  rw [if_neg hcontains]
  have henter : (modify fun s : ImportState ↦
      { s with memo.inProgress := Path.parts dir :: s.memo.inProgress } : Importing Unit) s =
      some ((), { s with memo.inProgress := Path.parts dir :: s.memo.inProgress }) := rfl
  rw [run_bind_of_run henter, run_bind_of_run hrun]
  rfl

/-- Imports end when they may nest as deep as there are places that are not in progress. -/
theorem within_ends (hsite : site.IsDownward) (room : Nat) : (within site room).Ends site room := by
  induction room with
  | zero => exact fun _ _ _ hs ↦ absurd hs.room_pos (Nat.lt_irrefl 0)
  | succ room ih =>
    intro path importing s hs hpath hdir
    unfold within
    cases hlocate : site.locate? path importing with
    | none =>
      exact ⟨_, s, rfl, Nat.le_refl _, hs.done, fun _ heq ↦ (by cases heq)⟩
    | some place =>
      obtain ⟨target, found⟩ := place
      have htarget := site.dotless_of_locate? hsite.toIsDotless hpath hdir hlocate
      have hisDir := Site.isDir_of_locate? hlocate
      have hplace := FileTree.parts_mem_places htarget hisDir
      dsimp only
      cases hdone : s.memo.done.lookup (Path.parts target) with
      | some result =>
        exact ⟨result, s, once_of_lookup hdone, Nat.le_refl _, hs.done, fun scope heq ↦
          hs.done _ scope (heq ▸ mem_of_lookup hdone)⟩
      | none =>
        by_cases hprogress : Path.parts target ∈ s.memo.inProgress
        · exact ⟨_, s, once_of_progress hdone hprogress, Nat.le_refl _, hs.done,
            fun _ heq ↦ (by cases heq)⟩
        · have hentered := hs.enter hplace hdone hprogress
          obtain ⟨result, middle, hrun, hsettles⟩ := checkDir_ends hsite
            (within_remembers site room) ih hentered htarget (Site.ne_empty_of_isDir hisDir)
          refine ⟨result, _, once_of_new hdone hprogress hrun, hsettles.size_le,
            fun key scope hmem ↦ ?_, hsettles.result⟩
          rcases List.mem_cons.mp hmem with heq | hmem
          · cases heq
            exact hsettles.result scope rfl
          · exact hsettles.done key scope hmem

/-- The depth of imports from source is enough for all places. -/
theorem length_places_lt_depthFor (site : Site) : site.tree.places.length < depthFor site := by
  unfold FileTree.places depthFor
  simp only [List.length_append, List.length_map]
  generalize (site.tree.walk "." fun _ ↦ true).length = walked
  have hsquare : (walked + 2) * (walked + 2) = walked * walked + 4 * walked + 4 := by
    rw [Nat.add_mul, Nat.mul_add]
    omega
  omega

/-- The state before anything is imported. -/
def start : ImportState := ⟨Atlas.start, .empty⟩

theorem ready_start (site : Site) : start.Ready site (depthFor site) where
  sound := .empty site
  predeclared := by decide
  done _ _ hmem := by cases hmem
  inside _ hkey := by cases hkey
  room := Nat.lt_of_lt_of_le (length_places_lt_depthFor site) (Nat.le_add_right _ _)

/-- Imports one after the other all end, each with a result, when neither they nor the imports of
packages go by two dots and no signature of a package asks for a function. -/
theorem imports_end (hsite : site.IsDownward) {calls : List (String × Option String)}
    (hcalls : ∀ call ∈ calls, Dotless call.1 ∧ ∀ dir ∈ call.2, Dotless dir) :
    (imports site calls start).isSome := by
  have hends (s : ImportState) (hs : s.Ready site (depthFor site)) :
      ∃ results later, imports site calls s = some (results, later) := by
    induction calls generalizing s with
    | nil => exact ⟨[], s, rfl⟩
    | cons call calls ih =>
      obtain ⟨hpath, hdir⟩ := hcalls call List.mem_cons_self
      obtain ⟨result, middle, hfirst, hsettles⟩ := within_ends hsite _ call.1 call.2 s hs hpath hdir
      have hmiddle := hs.advance ((within_remembers site _).advances hs.sound hfirst) hsettles
      obtain ⟨others, later, hrest⟩ :=
        ih (fun other hother ↦ hcalls other (List.mem_cons_of_mem _ hother)) middle hmiddle
      refine ⟨result :: others, later, ?_⟩
      rw [imports, List.mapM_cons]
      exact (run_bind_of_run hfirst).trans (run_bind_of_run hrest)
  obtain ⟨results, later, hrun⟩ := hends start (ready_start site)
  rw [hrun]
  rfl

end Importing

end PackageAtlas
