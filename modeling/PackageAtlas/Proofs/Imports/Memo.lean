import PackageAtlas.Proofs.Imports.Leads
import PackageAtlas.Proofs.Resolution.Reports

/-!
The memo of imports from source. A directory has at most one result, which stays, and what is in
progress before an import is in progress after it (`Site.Advances`). A scope is only made when all
imports of the package led to scopes before (`Site.Ordered`), so that no package whose imports lead
back to it ever gets one.
-/

set_option autoImplicit false
set_option relaxedAutoImplicit false

namespace PackageAtlas

open Importing Relation

variable {site : Site}

/-! ### Results in order -/

/-- Results in the order in which they were found out, the last one first. Each directory has one,
and a scope stands before the scopes of everything that its imports lead to. -/
inductive Site.Ordered (site : Site) :
    List (List String × Except ImportError PackageScope) → Prop where
  | nil : site.Ordered []
  | cons {key : List String} {result : Except ImportError PackageScope}
      {done : List (List String × Except ImportError PackageScope)} (hdone : site.Ordered done)
      (hnew : key ∉ done.map Prod.fst)
      (hscopes : ∀ scope, result = .ok scope → ∀ next, site.LeadsTo key next →
        ∃ other, done.lookup next = some (.ok other)) :
      site.Ordered ((key, result) :: done)

theorem mem_of_lookup {α β : Type} [BEq α] [LawfulBEq α] {list : List (α × β)} {a : α} {b : β}
    (h : list.lookup a = some b) : (a, b) ∈ list := by
  obtain ⟨before, after, rfl, -⟩ := List.lookup_eq_some_iff.mp h
  exact List.mem_append_right _ List.mem_cons_self

namespace Site.Ordered

variable {done later : List (List String × Except ImportError PackageScope)} {key : List String}
  {result : Except ImportError PackageScope}

theorem nodup (h : site.Ordered done) : (done.map Prod.fst).Nodup := by
  induction h with
  | nil => exact .nil
  | cons _ hnew _ ih => exact List.nodup_cons.mpr ⟨hnew, ih⟩

theorem lookup_cons_of_lookup (hnew : key ∉ done.map Prod.fst) {other : List String}
    {found : Except ImportError PackageScope} (h : done.lookup other = some found) :
    ((key, result) :: done).lookup other = some found ∧ other ≠ key := by
  have hne : other ≠ key := fun heq ↦ hnew (heq ▸ List.mem_map_of_mem (mem_of_lookup h))
  rw [List.lookup_cons, beq_eq_false_iff_ne.mpr hne]
  exact ⟨h, hne⟩

/-- A result stays. -/
theorem lookup_of_suffix (h : site.Ordered later) (hsuffix : done <:+ later)
    (hfound : done.lookup key = some result) : later.lookup key = some result := by
  induction h with
  | nil => rwa [List.suffix_nil.mp hsuffix] at hfound
  | cons _ hnew _ ih =>
    rcases List.suffix_cons_iff.mp hsuffix with rfl | hsuffix
    · exact hfound
    · exact (lookup_cons_of_lookup hnew (ih hsuffix)).1

/-- Imports lead from a package that has a scope to other packages that have scopes. -/
theorem scope_of_transGen (h : site.Ordered done) {scope : PackageScope}
    (hfound : done.lookup key = some (.ok scope)) {next : List String}
    (hleads : TransGen site.LeadsTo key next) :
    (∃ other, done.lookup next = some (.ok other)) ∧ next ≠ key := by
  induction h generalizing key scope next with
  | nil => cases hfound
  | @cons last result done hdone hnew hscopes ih =>
    by_cases heq : key = last
    · subst heq
      have hresult : result = .ok scope := by simpa using hfound
      have hnext : ∃ other, done.lookup next = some (.ok other) := by
        induction hleads with
        | single hstep => exact hscopes scope hresult _ hstep
        | tail _ hstep ih' =>
          obtain ⟨middle, hmiddle⟩ := ih'
          exact (ih hmiddle (.single hstep)).1
      obtain ⟨other, hother⟩ := hnext
      obtain ⟨hcons, hne⟩ := lookup_cons_of_lookup hnew hother
      exact ⟨⟨other, hcons⟩, hne⟩
    · rw [List.lookup_cons, beq_eq_false_iff_ne.mpr heq] at hfound
      obtain ⟨⟨other, hother⟩, hne⟩ := ih hfound hleads
      exact ⟨⟨other, (lookup_cons_of_lookup hnew hother).1⟩, hne⟩

/-- A package whose imports lead back to it has no scope. -/
theorem not_scope_of_cycle (h : site.Ordered done) (hcycle : TransGen site.LeadsTo key key)
    (scope : PackageScope) : done.lookup key ≠ some (.ok scope) :=
  fun hfound ↦ (h.scope_of_transGen hfound hcycle).2 rfl

end Site.Ordered

/-! ### Steps -/

/-- A memo whose results are in order, and in which what is in progress has no result yet. -/
structure ImportMemo.Sound (site : Site) (memo : ImportMemo) : Prop where
  ordered : site.Ordered memo.done
  nodup : memo.inProgress.Nodup
  apart : ∀ key ∈ memo.inProgress, key ∉ memo.done.map Prod.fst

namespace ImportMemo.Sound

theorem empty (site : Site) : ImportMemo.empty.Sound site :=
  ⟨.nil, .nil, fun _ hkey ↦ (by cases hkey)⟩

/-- A directory that has no result and is not in progress may be. -/
theorem enter {memo : ImportMemo} (h : memo.Sound site) {key : List String}
    (hdone : memo.done.lookup key = none) (hprogress : key ∉ memo.inProgress) :
    ImportMemo.Sound site ⟨memo.done, key :: memo.inProgress⟩ where
  ordered := h.ordered
  nodup := List.nodup_cons.mpr ⟨hprogress, h.nodup⟩
  apart other hother := by
    rcases List.mem_cons.mp hother with rfl | hother
    · intro hmem
      obtain ⟨entry, hentry, heq⟩ := List.mem_map.mp hmem
      have hne := List.lookup_eq_none_iff.mp hdone entry hentry
      rw [heq, bne_self_eq_false] at hne
      cases hne
    · exact h.apart other hother

/-- What was in progress has a result. -/
theorem leave {done : List (List String × Except ImportError PackageScope)} {key : List String}
    {inProgress : List (List String)} (h : ImportMemo.Sound site ⟨done, key :: inProgress⟩)
    {result : Except ImportError PackageScope}
    (hscopes : ∀ scope, result = .ok scope → ∀ next, site.LeadsTo key next →
      ∃ other, done.lookup next = some (.ok other)) :
    ImportMemo.Sound site ⟨(key, result) :: done, inProgress⟩ where
  ordered := .cons h.ordered (h.apart key List.mem_cons_self) hscopes
  nodup := (List.nodup_cons.mp h.nodup).2
  apart other hother hmem := by
    rcases List.mem_cons.mp hmem with heq | hmem
    · have heq : other = key := heq
      exact (List.nodup_cons.mp h.nodup).1 (heq ▸ hother)
    · exact h.apart other (List.mem_cons_of_mem _ hother) hmem

end ImportMemo.Sound

/-- What imports lead to from a state with a sound memo: no result is lost, what is in progress is
so still, and but for a number of checks each space belongs to a result of its own. -/
structure Site.Advances (site : Site) (checks : Nat) (s later : ImportState) : Prop where
  sound : later.memo.Sound site
  inProgress : later.memo.inProgress = s.memo.inProgress
  done : s.memo.done <:+ later.memo.done
  spaces : later.atlas.spaces.length + s.memo.done.length ≤
    s.atlas.spaces.length + later.memo.done.length + checks

namespace Site.Advances

variable {checks more : Nat} {s middle later : ImportState}

theorem refl (h : s.memo.Sound site) : site.Advances 0 s s :=
  ⟨h, rfl, List.suffix_refl _, by omega⟩

theorem trans (h : site.Advances checks s middle) (h' : site.Advances more middle later) :
    site.Advances (checks + more) s later where
  sound := h'.sound
  inProgress := h'.inProgress.trans h.inProgress
  done := h.done.trans h'.done
  spaces := by
    have := h.spaces
    have := h'.spaces
    omega

/-- The store is no part of what is counted. -/
theorem withStore (h : site.Advances checks s later) (store : Store) :
    site.Advances checks s { later with atlas := { later.atlas with store } } :=
  ⟨h.sound, h.inProgress, h.done, h.spaces⟩

theorem addSpace (h : s.memo.Sound site) (files : FileSet) :
    site.Advances 1 s { s with atlas := s.atlas.addSpace files } := by
  refine ⟨h, rfl, List.suffix_refl _, ?_⟩
  simp only [Atlas.addSpace, List.length_append, List.length_singleton]
  omega

end Site.Advances

/-- An importer after which the result of an import can be looked up, unless the import led to what
was in progress. -/
structure Importer.Remembers (importer : Importer) (site : Site) : Prop where
  advances : ∀ {path importing s result later}, s.memo.Sound site →
    importer path importing s = some (result, later) → site.Advances 0 s later
  answer : ∀ {path importing s result later target found}, s.memo.Sound site →
    importer path importing s = some (result, later) →
    site.locate? path importing = some (target, found) →
    later.memo.done.lookup (Path.parts target) = some result ∨
      Path.parts target ∈ s.memo.inProgress ∧ result = .error (.cycle found)

namespace Importing

variable {importer : Importer} {dir path : String} {s later : ImportState}

theorem exists_of_run_bind {α β : Type} {step : Importing α} {next : α → Importing β} {b : β}
    (h : (step >>= next) s = some (b, later)) :
    ∃ a middle, step s = some (a, middle) ∧ next a middle = some (b, later) := by
  obtain ⟨result, hstep, hnext⟩ := Option.bind_eq_some_iff.mp h
  exact ⟨result.1, result.2, hstep, hnext⟩

theorem importAll_cons {paths : List String}
    {results : List (String × Except ImportError PackageScope)}
    (h : importAll importer dir (path :: paths) s = some (results, later)) :
    ∃ result middle others, importer path (some dir) s = some (result, middle) ∧
      importAll importer dir paths middle = some (others, later) ∧
      results = (path, result) :: others := by
  rw [importAll, List.mapM_cons] at h
  obtain ⟨entry, middle, hentry, hrest⟩ := exists_of_run_bind h
  obtain ⟨result, _, himport, hpure⟩ := exists_of_run_bind hentry
  obtain ⟨others, _, hothers, hlast⟩ := exists_of_run_bind hrest
  cases hpure
  cases hlast
  exact ⟨result, middle, others, himport, hothers, rfl⟩

/-- Imports one after the other; every scope among the results is that of a directory. -/
theorem importAll_advances (himporter : importer.Remembers site) (hs : s.memo.Sound site)
    {paths : List String} {results : List (String × Except ImportError PackageScope)}
    (h : importAll importer dir paths s = some (results, later)) :
    site.Advances 0 s later ∧ ∀ path scope target found, (path, .ok scope) ∈ results →
      site.locate? path (some dir) = some (target, found) →
      later.memo.done.lookup (Path.parts target) = some (.ok scope) := by
  induction paths generalizing s results with
  | nil =>
    cases h
    exact ⟨.refl hs, fun _ _ _ _ hmem ↦ (by cases hmem)⟩
  | cons path paths ih =>
    obtain ⟨result, middle, others, himport, hothers, rfl⟩ := importAll_cons h
    have hfirst := himporter.advances hs himport
    obtain ⟨hrest, hscopes⟩ := ih hfirst.sound hothers
    refine ⟨hfirst.trans hrest, fun other scope target found hmem hlocate ↦ ?_⟩
    rcases List.mem_cons.mp hmem with heq | hmem
    · cases heq
      rcases himporter.answer hs himport hlocate with hfound | ⟨-, herror⟩
      · exact hrest.sound.ordered.lookup_of_suffix hrest.done hfound
      · cases herror
    · exact hscopes other scope target found hmem hlocate

theorem resultOf_eq_ok {results : List (String × Except ImportError PackageScope)}
    {scope : PackageScope} (h : resultOf results path = .ok scope) :
    (path, .ok scope) ∈ results := by
  unfold resultOf at h
  cases hlookup : results.lookup path with
  | none => rw [hlookup] at h; cases h
  | some result =>
    rw [hlookup, Option.getD_some] at h
    exact h ▸ mem_of_lookup hlookup

/-- A package is checked after its imports, and has a scope only if nothing makes it unusable. -/
theorem exists_of_checkImported {space : FileSet} {files : List SourceFile}
    {result : Except ImportError PackageScope}
    (h : checkImported importer dir path space files s = some (result, later)) :
    ∃ results middle checked,
      importAll importer dir
        ((files.flatMap SourceFile.importPaths).filter (· ≠ foreignPath)).eraseDups s =
          some (results, middle) ∧
      checkFiles ⟨path, space.space, resultOf results, true⟩ files middle.atlas.store =
        some checked ∧
      later = { middle with atlas := { middle.atlas with store := checked.store } } ∧
      ∀ scope, result = .ok scope → checked.hard = [] ∧ scope = checked.scope := by
  obtain ⟨results, middle, himports, hrest⟩ := exists_of_run_bind h
  obtain ⟨_, _, hget, hrest⟩ := exists_of_run_bind hrest
  cases hget
  obtain ⟨checked, _, hchecked, hrest⟩ := exists_of_run_bind hrest
  obtain ⟨checked', hcheck, hlift⟩ := Option.bind_eq_some_iff.mp hchecked
  cases hlift
  obtain ⟨_, _, hset, hrest⟩ := exists_of_run_bind hrest
  cases hset
  refine ⟨results, middle, checked, himports, hcheck, ?_⟩
  cases hhard : checked.hard with
  | nil =>
    have hnone : failureText? space dir checked = none := by
      rw [failureText?, hhard]
      rfl
    rw [hnone] at hrest
    cases hrest
    exact ⟨rfl, fun scope heq ↦ ⟨rfl, (Except.ok.inj heq).symm⟩⟩
  | cons diagnostic rest =>
    have hsome : ∃ text, failureText? space dir checked = some text := by
      rw [failureText?, hhard]
      exact ⟨_, rfl⟩
    obtain ⟨text, htext⟩ := hsome
    rw [htext] at hrest
    cases hrest
    exact ⟨rfl, fun scope heq ↦ (by cases heq)⟩

/-- A package gets a scope only if every import of its files has one. -/
theorem checkImported_advances (himporter : importer.Remembers site) (hs : s.memo.Sound site)
    {space : FileSet} {files : List SourceFile} {result : Except ImportError PackageScope}
    (h : checkImported importer dir path space files s = some (result, later)) :
    site.Advances 0 s later ∧ ∀ scope, result = .ok scope →
      ∀ imported ∈ (files.flatMap SourceFile.importPaths).filter (· ≠ foreignPath),
        ∀ target found, site.locate? imported (some dir) = some (target, found) →
          ∃ other, later.memo.done.lookup (Path.parts target) = some (.ok other) := by
  obtain ⟨results, middle, checked, himports, hcheck, rfl, hok⟩ := exists_of_checkImported h
  obtain ⟨hadvances, hscopes⟩ := importAll_advances himporter hs himports
  refine ⟨hadvances.withStore _, fun scope hscope imported himported target found hlocate ↦ ?_⟩
  cases hresult : resultOf results imported with
  | ok other => exact ⟨other, hscopes imported other target found (resultOf_eq_ok hresult) hlocate⟩
  | error reason =>
    obtain ⟨hmem, hforeign⟩ := List.mem_filter.mp himported
    obtain ⟨source, hsource, hpath⟩ := List.mem_flatMap.mp hmem
    obtain ⟨diagnostic, hhard, -⟩ := exists_hard_of_failed_import hcheck hsource hpath hresult
      fun heq ↦ absurd heq (of_decide_eq_true hforeign)
    rw [(hok scope hscope).1] at hhard
    cases hhard

/-- A directory takes one space, and its package has a scope only if everything that its imports
lead to has one. -/
theorem checkDir_advances (himporter : importer.Remembers site) (hs : s.memo.Sound site)
    (hdir : dir ≠ "") {result : Except ImportError PackageScope}
    (h : checkDir site importer dir path s = some (result, later)) :
    site.Advances 1 s later ∧ ∀ scope, result = .ok scope → ∀ next,
      site.LeadsTo (Path.parts dir) next →
        ∃ other, later.memo.done.lookup next = some (.ok other) := by
  obtain ⟨_, _, hget, hrest⟩ := exists_of_run_bind h
  cases hget
  cases hfiles : packageFiles site s.atlas.nextSpace dir with
  | error text =>
    rw [hfiles] at hrest
    cases hrest
    exact ⟨⟨hs, rfl, List.suffix_refl _, by omega⟩, fun scope heq ↦ (by cases heq)⟩
  | ok parsed =>
    obtain ⟨space, files⟩ := parsed
    rw [hfiles] at hrest
    obtain ⟨_, _, hmodify, hrest⟩ := exists_of_run_bind hrest
    cases hmodify
    have hspace := Site.Advances.addSpace hs space
    obtain ⟨hadvances, hscopes⟩ := checkImported_advances himporter hspace.sound hrest
    refine ⟨hspace.trans hadvances, fun scope hscope next hnext ↦ ?_⟩
    obtain ⟨imported, himported, target, found, hlocate, rfl⟩ :=
      Site.exists_of_leadsTo hdir hfiles hnext
    exact hscopes scope hscope imported himported target found hlocate

theorem run_get_bind {α : Type} (next : ImportState → Importing α) (s : ImportState) :
    (get >>= next) s = next s s := rfl

/-- A directory that has a result is not checked again. -/
theorem once_of_lookup {check : Importing (Except ImportError PackageScope)}
    {result : Except ImportError PackageScope}
    (h : s.memo.done.lookup (Path.parts dir) = some result) :
    once dir path check s = some (result, s) := by
  unfold once
  dsimp only
  rw [run_get_bind]
  simp only [h]
  rfl

/-- What a directory comes to: its result is found, or made, or it is in progress. -/
theorem once_advances {check : Importing (Except ImportError PackageScope)}
    {result : Except ImportError PackageScope} (hs : s.memo.Sound site)
    (hcheck : ∀ {s result later}, s.memo.Sound site → check s = some (result, later) →
      site.Advances 1 s later ∧ ∀ scope, result = .ok scope → ∀ next,
        site.LeadsTo (Path.parts dir) next →
          ∃ other, later.memo.done.lookup next = some (.ok other))
    (h : once dir path check s = some (result, later)) :
    site.Advances 0 s later ∧ (later.memo.done.lookup (Path.parts dir) = some result ∨
      Path.parts dir ∈ s.memo.inProgress ∧ result = .error (.cycle path)) := by
  obtain ⟨_, _, hget, hrest⟩ := exists_of_run_bind h
  cases hget
  cases hfound : s.memo.done.lookup (Path.parts dir) with
  | some found =>
    simp only [hfound] at hrest
    cases hrest
    exact ⟨.refl hs, .inl hfound⟩
  | none =>
    simp only [hfound] at hrest
    cases hprogress : s.memo.inProgress.contains (Path.parts dir) with
    | true =>
      rw [hprogress] at hrest
      cases hrest
      exact ⟨.refl hs, .inr ⟨List.contains_iff_mem.mp hprogress, rfl⟩⟩
    | false =>
      rw [hprogress] at hrest
      obtain ⟨_, _, hmodify, hrest⟩ := exists_of_run_bind hrest
      cases hmodify
      obtain ⟨found, middle, hrun, hrest⟩ := exists_of_run_bind hrest
      obtain ⟨_, _, hmodify, hrest⟩ := exists_of_run_bind hrest
      cases hmodify
      cases hrest
      have hnew : Path.parts dir ∉ s.memo.inProgress := fun hmem ↦ by
        rw [List.contains_iff_mem.mpr hmem] at hprogress
        cases hprogress
      obtain ⟨hadvances, hscopes⟩ := hcheck (hs.enter hfound hnew) hrun
      obtain ⟨atlas, done, inProgress⟩ := middle
      obtain ⟨hsound, rfl, hdone, hspaces⟩ := hadvances
      have hleave := hsound.leave hscopes
      refine ⟨⟨?_, ?_, hdone.trans (List.suffix_cons _ _), ?_⟩, .inl ?_⟩
      · simpa using hleave
      · simp
      · simp only [List.length_cons] at hspaces ⊢
        omega
      · simp

/-- Imports remember what they found out, at any depth. -/
theorem within_remembers (site : Site) (depth : Nat) : (within site depth).Remembers site := by
  induction depth with
  | zero => exact ⟨fun _ h ↦ (by cases h), fun _ h ↦ (by cases h)⟩
  | succ depth ih =>
    have hrun {path : String} {importing : Option String} {s : ImportState}
        {result : Except ImportError PackageScope} {later : ImportState} (hs : s.memo.Sound site)
        (h : within site (depth + 1) path importing s = some (result, later)) :
        site.Advances 0 s later ∧ ∀ target found,
          site.locate? path importing = some (target, found) →
          later.memo.done.lookup (Path.parts target) = some result ∨
            Path.parts target ∈ s.memo.inProgress ∧ result = .error (.cycle found) := by
      unfold within at h
      cases hlocate : site.locate? path importing with
      | none =>
        rw [hlocate] at h
        cases h
        exact ⟨.refl hs, fun _ _ h ↦ (by cases h)⟩
      | some place =>
        obtain ⟨dir, found⟩ := place
        rw [hlocate] at h
        have hdir := Site.ne_empty_of_isDir (Site.isDir_of_locate? hlocate)
        obtain ⟨hadvances, hanswer⟩ := once_advances hs (fun hs ↦ checkDir_advances ih hs hdir) h
        refine ⟨hadvances, fun target found' heq ↦ ?_⟩
        cases heq
        exact hanswer
    exact ⟨fun hs h ↦ (hrun hs h).1, fun hs h hlocate ↦ (hrun hs h).2 _ _ hlocate⟩

/-! ### Imports in a row -/

/-- Imports paths one after the other, each from a directory of its own. -/
def imports (site : Site) (calls : List (String × Option String)) :
    Importing (List (Except ImportError PackageScope)) :=
  calls.mapM fun call ↦ fromSource site call.1 call.2

theorem imports_advances {calls : List (String × Option String)}
    {results : List (Except ImportError PackageScope)} (hs : s.memo.Sound site)
    (h : imports site calls s = some (results, later)) : site.Advances 0 s later := by
  induction calls generalizing s results with
  | nil =>
    cases h
    exact .refl hs
  | cons call calls ih =>
    rw [imports, List.mapM_cons] at h
    obtain ⟨result, middle, hfirst, hrest⟩ := exists_of_run_bind h
    obtain ⟨others, _, hothers, hlast⟩ := exists_of_run_bind hrest
    cases hlast
    have hadvances := (within_remembers site _).advances hs hfirst
    exact hadvances.trans (ih hadvances.sound hothers)

/-- However many imports there are, no directory is checked twice under one path: it has one result,
and no space is made but for the result of a directory. -/
theorem imports_check_once {calls : List (String × Option String)}
    {results : List (Except ImportError PackageScope)} (hs : s.memo = .empty)
    (h : imports site calls s = some (results, later)) :
    later.memo.inProgress = [] ∧ (later.memo.done.map Prod.fst).Nodup ∧
      later.atlas.spaces.length ≤ s.atlas.spaces.length + later.memo.done.length := by
  have hadvances := imports_advances (hs ▸ ImportMemo.Sound.empty site) h
  have hspaces := hadvances.spaces
  rw [hs] at hspaces
  exact ⟨hadvances.inProgress.trans (by rw [hs]; rfl), hadvances.sound.ordered.nodup, hspaces⟩

/-- An import that is asked for again has the same result, whatever was imported in between, and
changes nothing. -/
theorem import_again {depth : Nat} {path : String} {importing : Option String}
    {result : Except ImportError PackageScope} {calls : List (String × Option String)}
    {results : List (Except ImportError PackageScope)} {last : ImportState}
    (hs : s.memo.Sound site) (hidle : s.memo.inProgress = [])
    (h : within site (depth + 1) path importing s = some (result, later))
    (hcalls : imports site calls later = some (results, last)) :
    within site (depth + 1) path importing last = some (result, last) := by
  have hadvances := (within_remembers site _).advances hs h
  have hlater := imports_advances hadvances.sound hcalls
  unfold within
  cases hlocate : site.locate? path importing with
  | none =>
    unfold within at h
    rw [hlocate] at h
    cases h
    rfl
  | some place =>
    obtain ⟨dir, found⟩ := place
    rcases (within_remembers site _).answer hs h hlocate with hfound | ⟨hmem, -⟩
    · have hlast := hlater.sound.ordered.lookup_of_suffix hlater.done hfound
      exact once_of_lookup hlast
    · rw [hidle] at hmem
      cases hmem

/-- An import fails if the imports of the package lead back to it, or to another package whose
imports lead back to that one. -/
theorem import_fails_of_cycle {depth : Nat} {path target found : String}
    {importing : Option String} {result : Except ImportError PackageScope} {key : List String}
    (hs : s.memo.Sound site) (h : within site depth path importing s = some (result, later))
    (hlocate : site.locate? path importing = some (target, found))
    (hleads : Path.parts target = key ∨ TransGen site.LeadsTo (Path.parts target) key)
    (hcycle : TransGen site.LeadsTo key key) : ∃ reason, result = .error reason := by
  cases result with
  | error reason => exact ⟨reason, rfl⟩
  | ok scope =>
    have hordered := ((within_remembers site _).advances hs h).sound.ordered
    rcases (within_remembers site _).answer hs h hlocate with hfound | ⟨-, herror⟩
    · rcases hleads with rfl | hleads
      · exact absurd hfound (hordered.not_scope_of_cycle hcycle scope)
      · obtain ⟨⟨other, hother⟩, -⟩ := hordered.scope_of_transGen hfound hleads
        exact absurd hother (hordered.not_scope_of_cycle hcycle other)
    · cases herror

end Importing

end PackageAtlas
