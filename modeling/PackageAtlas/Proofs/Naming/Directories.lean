import Mathlib.Data.List.Flatten
import Mathlib.Data.List.Perm.Subperm
import PackageAtlas.Load.Directory
import PackageAtlas.Proofs.Spans.Package

/-!
The packages of a directory. However its files are divided and whatever a tool puts in their place,
the files of all packages were parsed into the file set that the packages share, each once
(`Site.packages_of_parseDir`).
-/

set_option autoImplicit false
set_option relaxedAutoImplicit false

namespace PackageAtlas

/-! ### Names in order -/

namespace RawPackage

theorem mem_of_mem_distinct {name : String} {list : List String} (h : name ∈ distinct list) :
    name ∈ list := by
  fun_induction distinct list with
  | case1 first rest ih => exact List.mem_cons_of_mem _ (ih h)
  | case2 first second rest hne ih =>
    rcases List.mem_cons.mp h with rfl | hlater
    · exact List.mem_cons_self
    · exact List.mem_cons_of_mem first (ih hlater)
  | case3 short => exact h

theorem mem_distinct {name : String} {list : List String} :
    name ∈ distinct list ↔ name ∈ list := by
  refine ⟨mem_of_mem_distinct, fun h ↦ ?_⟩
  fun_induction distinct list with
  | case1 first rest ih =>
    exact ih ((List.mem_cons.mp h).elim (fun heq ↦ heq ▸ List.mem_cons_self) id)
  | case2 first second rest hne ih =>
    rcases List.mem_cons.mp h with rfl | hrest
    · exact List.mem_cons_self
    · exact List.mem_cons_of_mem first (ih hrest)
  | case3 short => exact h

/-- In a sorted list equal names are neighbours, so that it is enough to compare those. -/
theorem pairwise_distinct {list : List String} (h : list.Pairwise (· ≤ ·)) :
    (distinct list).Pairwise (· < ·) := by
  fun_induction distinct list with
  | case1 first rest ih => exact ih (List.pairwise_cons.mp h).2
  | case2 first second rest hne ih =>
    obtain ⟨hfirst, hrest⟩ := List.pairwise_cons.mp h
    refine List.pairwise_cons.mpr ⟨fun name hname ↦ String.not_le.mp fun hle ↦ hne ?_, ih hrest⟩
    have hsecond : second ≤ name := by
      rcases List.mem_cons.mp (mem_of_mem_distinct hname) with rfl | hlater
      · exact String.le_refl _
      · exact (List.pairwise_cons.mp hrest).1 name hlater
    exact String.le_antisymm (hfirst second List.mem_cons_self) (String.le_trans hsecond hle)
  | case3 short hshort =>
    match short, hshort with
    | [], _ => exact .nil
    | [name], _ => exact List.pairwise_singleton _ name
    | first :: second :: rest, hshort => exact absurd rfl (hshort first second rest)

theorem pairwise_mergeSort_text {α : Type} (text : α → String) (list : List α) :
    (list.mergeSort fun first second ↦ text first ≤ text second).Pairwise
      fun first second ↦ text first ≤ text second := by
  refine List.Pairwise.imp (fun h ↦ of_decide_eq_true h) (List.pairwise_mergeSort ?_ ?_ _)
  · exact fun _ _ _ h h' ↦ decide_eq_true
      (String.le_trans (of_decide_eq_true h) (of_decide_eq_true h'))
  · intro first second
    rw [Bool.or_eq_true, decide_eq_true_iff, decide_eq_true_iff]
    exact String.le_total _ _

theorem pairwise_distinct_mergeSort (list : List String) :
    (distinct (list.mergeSort fun first second ↦ first ≤ second)).Pairwise (· < ·) :=
  pairwise_distinct (pairwise_mergeSort_text _ list)

end RawPackage

namespace FileSet

/-- Files that were parsed into a set, each once, in some order. -/
def HasParsed (set : FileSet) (files : List SourceFile) : Prop :=
  ∃ parsed, set.Parsed parsed ∧ files.Perm parsed

variable {set later : FileSet} {files chosen : List SourceFile}

/-- Some of the files were parsed, and other texts were registered. -/
theorem Parsed.sublist (h : set.Parsed files) (hchosen : chosen.Sublist files) :
    set.Parsed chosen := by
  induction h generalizing chosen with
  | empty space =>
    rw [List.sublist_nil.1 hchosen]
    exact .empty space
  | register name text h ih => exact (ih hchosen).register name text
  | @parse set files name text file h hparse ih =>
    cases hchosen with
    | cons _ hrest => exact (ih hrest).register name text
    | cons_cons _ hrest => exact (ih hrest).parse hparse

theorem HasParsed.subperm (h : set.HasParsed files) (hchosen : chosen.Subperm files) :
    set.HasParsed chosen := by
  obtain ⟨parsed, hparsed, hperm⟩ := h
  obtain ⟨rest, hrest, hsub⟩ := hchosen.trans hperm.subperm
  exact ⟨rest, hparsed.sublist hsub, hrest.symm⟩

theorem HasParsed.perm (h : set.HasParsed files) (hchosen : chosen.Perm files) :
    set.HasParsed chosen :=
  h.subperm hchosen.subperm

end FileSet

namespace Site

/-! ### Steps -/

section Steps

variable {α β : Type}

/-- What holds of the result of a step that does not fail, whatever the tool was asked before. -/
def Gives (step : Prepare α) (post : α → Prop) : Prop :=
  ∀ requests a, (step.run.run requests).1 = .ok a → post a

theorem Gives.pure {post : α → Prop} {a : α} (h : post a) : Gives (Pure.pure a) post := by
  intro requests b hrun
  cases hrun
  exact h

theorem Gives.lift {post : α → Prop} {result : Except LoadError α}
    (h : ∀ a, result = .ok a → post a) : Gives (liftM result) post := by
  intro requests a hrun
  cases result with
  | error error => cases hrun
  | ok b =>
    cases hrun
    exact h _ rfl

theorem Gives.throw {post : α → Prop} (error : LoadError) :
    Gives (MonadExcept.throw error) post := by
  intro requests a hrun
  cases hrun

theorem Gives.bind {mid : α → Prop} {post : β → Prop} {step : Prepare α} {next : α → Prepare β}
    (h : Gives step mid) (hnext : ∀ a, mid a → Gives (next a) post) :
    Gives (step >>= next) post := by
  intro requests b hrun
  rw [ExceptT.run_bind, StateT.run_bind] at hrun
  have hstep := h requests
  revert hrun hstep
  rcases step.run.run requests with ⟨error | a, middle⟩
  · exact fun hrun ↦ (by cases hrun)
  · exact fun hrun hstep ↦ hnext a (hstep a rfl) middle b hrun

theorem Gives.weaken {mid post : α → Prop} {step : Prepare α} (h : Gives step mid)
    (hpost : ∀ a, mid a → post a) : Gives step post :=
  fun requests a hrun ↦ hpost a (h requests a hrun)

theorem gives_modify (change : List PreprocessRequest → List PreprocessRequest) :
    Gives (modify change : Prepare PUnit) fun _ ↦ True :=
  fun _ _ _ ↦ trivial

end Steps

/-! ### Files -/

variable {site : Site} {set later : FileSet} {files others : List SourceFile}
  {made : List ParsedFile}

/-- A text that is parsed comes to the files of its set. -/
theorem parseText_hasParsed {name text : String} {file : SourceFile} (h : set.HasParsed files)
    (hparse : parseText set name text = .ok (later, file)) :
    later.space = set.space ∧ later.HasParsed (file :: files) := by
  have hset : set.parseFile name text = (set.add name text, (set.parseFile name text).2) := rfl
  unfold parseText at hparse
  rw [hset] at hparse
  cases hfile : (set.parseFile name text).2 with
  | error error =>
    rw [hfile] at hparse
    cases hparse
  | ok parsed =>
    rw [hfile] at hparse
    cases hparse
    obtain ⟨rest, hrest, hperm⟩ := h
    exact ⟨rfl, file :: rest, hrest.parse hfile, hperm.cons file⟩

theorem bind_eq_ok {α β : Type} {result : Except LoadError α} {next : α → Except LoadError β}
    {b : β} (h : result >>= next = .ok b) : ∃ a, result = .ok a ∧ next a = .ok b := by
  cases result with
  | error error => cases h
  | ok a => exact ⟨a, rfl, h⟩

theorem parseFiles_hasParsed {paths : List String} (h : set.HasParsed files)
    (hparse : parseFiles site set paths = .ok (later, made)) :
    later.space = set.space ∧ later.HasParsed (made.map (·.file) ++ files) := by
  induction paths generalizing set files made with
  | nil =>
    cases hparse
    exact ⟨rfl, h⟩
  | cons path paths ih =>
    obtain ⟨text, -, hparse⟩ := bind_eq_ok hparse
    obtain ⟨⟨space, file⟩, hfile, hparse⟩ := bind_eq_ok hparse
    obtain ⟨⟨last, rest⟩, hrest, hparse⟩ := bind_eq_ok hparse
    cases hparse
    obtain ⟨hspace, hparsed⟩ := parseText_hasParsed h hfile
    obtain ⟨hlast, hall⟩ := ih hparsed hrest
    exact ⟨hlast.trans hspace, hall.perm (List.perm_middle.symm)⟩

/-! ### Foreign code -/

theorem subperm_substitute (name : String) (new : ParsedFile) (old : List ParsedFile) :
    ((substitute name new old).map (·.file)).Subperm (new.file :: old.map (·.file)) := by
  induction old with
  | nil => exact (List.Perm.refl _).subperm
  | cons file rest ih =>
    unfold substitute
    split
    · exact (List.subperm_cons new.file).2 (List.sublist_cons_self _ _).subperm
    · exact ((List.subperm_cons file.file).2 ih).trans (List.Perm.swap _ _ _).subperm

theorem substitute_ne_nil (name : String) (new : ParsedFile) (old : List ParsedFile) :
    substitute name new old ≠ [] := by
  cases old with
  | nil => exact List.cons_ne_nil _ _
  | cons file rest =>
    unfold substitute
    split <;> exact List.cons_ne_nil _ _

/-- Substitutes take the place of files, next to which others were parsed. -/
theorem substituteAll_hasParsed {dir : String} {outputs : List PreprocessedFile}
    {old : List ParsedFile} (h : set.HasParsed (old.map (·.file) ++ others)) (hne : old ≠ [])
    (hparse : substituteAll dir set old outputs = .ok (later, made)) :
    later.space = set.space ∧ made ≠ [] ∧ later.HasParsed (made.map (·.file) ++ others) := by
  induction outputs generalizing set old with
  | nil =>
    cases hparse
    exact ⟨rfl, hne, h⟩
  | cons output outputs ih =>
    obtain ⟨⟨space, file⟩, hfile, hparse⟩ := bind_eq_ok hparse
    obtain ⟨hspace, hparsed⟩ := parseText_hasParsed h hfile
    have hsub := (List.subperm_append_right others).2
      (subperm_substitute output.displayName ⟨file, true⟩ old)
    obtain ⟨hlater, hmade⟩ := ih (hparsed.subperm hsub) (substitute_ne_nil _ _ _) hparse
    exact ⟨hlater.trans hspace, hmade⟩

theorem gives_preprocess {dir identity : String} {old : List ParsedFile}
    (h : set.HasParsed (old.map (·.file) ++ others)) (hne : old ≠ []) :
    Gives (preprocess site dir identity set old) fun result ↦ result.1.space = set.space ∧
      result.2 ≠ [] ∧ result.1.HasParsed (result.2.map (·.file) ++ others) := by
  unfold preprocess
  split
  · exact .pure ⟨rfl, hne, h⟩
  · split
    · exact .throw _
    · refine (gives_modify _).bind fun _ _ ↦ ?_
      split
      · exact .throw _
      · exact .lift fun result hresult ↦ substituteAll_hasParsed h hne hresult

/-! ### Packages -/

theorem files_ofFiles_perm (identity dir name : String) (set : FileSet) (made : List ParsedFile) :
    (RawPackage.ofFiles identity dir name set made).files.Perm (made.map (·.file)) :=
  (List.mergeSort_perm made _).map _

/-- The packages of groups have the files of the groups, or substitutes for them. -/
theorem gives_packages {dir base : String} {groups : List (PackageGroup × Variant)}
    (h : set.HasParsed (groups.flatMap (·.1.files.map (·.file)) ++ others))
    (hne : ∀ group ∈ groups, group.1.files ≠ []) :
    Gives (packages site dir base set groups) fun result ↦ result.1.space = set.space ∧
      (∀ raw ∈ result.2, raw.space = result.1 ∧ raw.files ≠ []) ∧
        result.1.HasParsed (result.2.flatMap (·.files) ++ others) := by
  induction groups generalizing set others with
  | nil => exact .pure ⟨rfl, fun _ h ↦ (by cases h), h⟩
  | cons group groups ih =>
    obtain ⟨hgroup, hgroups⟩ := List.forall_mem_cons.1 hne
    rw [List.flatMap_cons, List.append_assoc] at h
    refine (gives_preprocess h hgroup).bind fun ⟨space, new⟩ ⟨hspace, hnew, hparsed⟩ ↦ ?_
    have hlater := hparsed.perm (List.perm_append_comm_assoc _ _ _)
    refine (ih hlater hgroups).bind fun ⟨last, raws⟩ ⟨hlast, hraws, hall⟩ ↦
      .pure ⟨hlast.trans hspace, List.forall_mem_cons.2 ⟨⟨rfl, ?_⟩, hraws⟩, hall.perm ?_⟩
    · intro hnil
      have hperm := files_ofFiles_perm (group.2.identity base) dir group.1.name last new
      rw [hnil] at hperm
      exact hnew (List.map_eq_nil_iff.1 hperm.nil_eq.symm)
    · rw [List.flatMap_cons]
      have hfiles := files_ofFiles_perm (group.2.identity base) dir group.1.name last new
      refine (((hfiles.append_right _).append_right _).trans ?_)
      rw [List.append_assoc]
      exact List.perm_append_comm_assoc _ _ _

/-! ### Groups -/

/-- What is divided by a key is still there once each. -/
theorem flatMap_filter_perm {α κ : Type} [DecidableEq κ] (key : α → κ) {keys : List κ}
    (hkeys : keys.Nodup) {list : List α} (hall : ∀ a ∈ list, key a ∈ keys) :
    (keys.flatMap fun k ↦ list.filter (key · == k)).Perm list := by
  induction keys generalizing list with
  | nil =>
    rw [List.eq_nil_iff_forall_not_mem.2 fun a ha ↦ List.not_mem_nil (hall a ha)]
    exact .nil
  | cons k keys ih =>
    obtain ⟨hk, hrest⟩ := List.nodup_cons.1 hkeys
    have hsame : (keys.flatMap fun k' ↦ list.filter (key · == k')) =
        keys.flatMap fun k' ↦ (list.filter fun a ↦ !(key a == k)).filter (key · == k') := by
      refine List.flatMap_congr fun k' hk' ↦ ?_
      rw [List.filter_filter]
      refine List.filter_congr fun a _ ↦ ?_
      have hne : k' ≠ k := fun heq ↦ hk (heq ▸ hk')
      by_cases ha : key a = k'
      · simp [ha, hne]
      · simp [ha]
    have hlater : ∀ a ∈ list.filter fun a ↦ !(key a == k), key a ∈ keys := by
      intro a ha
      obtain ⟨hmem, hne⟩ := List.mem_filter.1 ha
      exact (List.mem_cons.1 (hall a hmem)).resolve_left (by simpa using hne)
    rw [List.flatMap_cons, hsame]
    exact ((ih hrest hlater).append_left _).trans (List.filter_append_perm _ list)

theorem mem_names_iff {files : List ParsedFile} {name : String} :
    name ∈ RawPackage.distinct ((files.map (·.file.packageName.name)).mergeSort
      fun first second ↦ first ≤ second) ↔ ∃ file ∈ files, file.file.packageName.name = name := by
  rw [RawPackage.mem_distinct, (List.mergeSort_perm _ _).mem_iff, List.mem_map]

/-- No file is left out of the groups. -/
theorem flatMap_files_ofFiles_perm (files : List ParsedFile) :
    ((PackageGroup.ofFiles files).flatMap (·.files)).Perm files := by
  unfold PackageGroup.ofFiles
  rw [List.flatMap_map]
  refine flatMap_filter_perm (fun file : ParsedFile ↦ file.file.packageName.name)
    ((RawPackage.pairwise_distinct_mergeSort _).imp fun h ↦ String.ne_of_lt h) fun file hfile ↦ ?_
  exact mem_names_iff.2 ⟨file, hfile, rfl⟩

theorem files_ne_nil_of_mem_ofFiles {files : List ParsedFile} :
    ∀ group ∈ PackageGroup.ofFiles files, group.files ≠ [] := by
  unfold PackageGroup.ofFiles
  refine List.forall_mem_map.2 fun name hname ↦ ?_
  obtain ⟨file, hfile, rfl⟩ := mem_names_iff.1 hname
  exact List.ne_nil_of_mem (List.mem_filter.2 ⟨hfile, beq_self_eq_true _⟩)

end Site

namespace PackageGroup

variable {dir : String} {groups : List PackageGroup}

/-- The tests of a directory. -/
def tests (groups : List PackageGroup) : List PackageGroup := groups.filter isTest

/-- The groups besides tests that have a file in the build. -/
def candidates (groups : List PackageGroup) : List PackageGroup :=
  (groups.filter (!isTest ·)).filter isBuildable

/-- The groups besides tests that have none. -/
def excluded (groups : List PackageGroup) : List PackageGroup :=
  (groups.filter (!isTest ·)).filter (!isBuildable ·)

/-- What becomes of the groups of a directory. Two tests are an error, and so are two candidates.
Otherwise a candidate is the main package, or the only excluded one when there is no candidate. -/
inductive SortsTo (dir : String) (groups : List PackageGroup) :
    Except LoadError (List (PackageGroup × Variant)) → Prop where
  | manyTests (htests : 1 < (tests groups).length) :
    SortsTo dir groups (.error (.multipleTestPackages dir))
  | ambiguous {first second : PackageGroup} {rest : List PackageGroup}
    (htests : (tests groups).length ≤ 1)
    (hcandidates : candidates groups = first :: second :: rest) :
    SortsTo dir groups (.error (.ambiguousPackage dir first.name second.name))
  | main {primary : PackageGroup} (htests : (tests groups).length ≤ 1)
    (hcandidates : candidates groups = [primary]) :
    SortsTo dir groups (.ok ((primary, .primary) :: (tests groups).map (·, .externalTest) ++
      (excluded groups).map fun group ↦ (group, .noBuild group.name)))
  | promoted {single : PackageGroup} (htests : (tests groups).length ≤ 1)
    (hcandidates : candidates groups = []) (hexcluded : excluded groups = [single]) :
    SortsTo dir groups (.ok ((single, .primary) :: (tests groups).map (·, .externalTest)))
  | unbuilt (htests : (tests groups).length ≤ 1) (hcandidates : candidates groups = [])
    (hexcluded : (excluded groups).length ≠ 1) :
    SortsTo dir groups (.ok ((tests groups).map (·, .externalTest) ++
      (excluded groups).map fun group ↦ (group, .noBuild group.name)))

theorem length_le_one_of_forall {α : Type} {list : List α}
    (h : ∀ first second rest, list = first :: second :: rest → False) : list.length ≤ 1 := by
  match list, h with
  | [], _ | [_], _ => simp
  | first :: second :: rest, h => exact (h first second rest rfl).elim

theorem sortsTo_withVariants (dir : String) (groups : List PackageGroup) :
    SortsTo dir groups (withVariants dir groups) := by
  unfold withVariants
  dsimp only
  split
  · rename_i htests
    exact .manyTests (by simp [tests, htests])
  · rename_i hcandidates htests
    exact .ambiguous (length_le_one_of_forall htests) hcandidates
  · rename_i hcandidates htests
    exact .main (length_le_one_of_forall htests) hcandidates
  · rename_i hcandidates hexcluded htests
    exact .promoted (length_le_one_of_forall htests) hcandidates hexcluded
  · rename_i hcandidates htests hexcluded
    refine .unbuilt (length_le_one_of_forall htests) hcandidates fun hlength ↦ ?_
    obtain ⟨single, hsingle⟩ := List.length_eq_one_iff.1 hlength
    exact hexcluded single hsingle

theorem sortsTo_of_eq_ok {sorted : List (PackageGroup × Variant)}
    (h : withVariants dir groups = .ok sorted) : SortsTo dir groups (.ok sorted) :=
  h ▸ sortsTo_withVariants dir groups

/-- Every group of the directory becomes a package. -/
theorem map_fst_withVariants_perm {sorted : List (PackageGroup × Variant)}
    (h : withVariants dir groups = .ok sorted) : (sorted.map (·.1)).Perm groups := by
  have hall : (tests groups ++ (candidates groups ++ excluded groups)).Perm groups :=
    ((List.filter_append_perm _ _).append_left _).trans (List.filter_append_perm _ _)
  have hfst (list : List PackageGroup) (variant : PackageGroup → Variant) :
      (list.map fun group ↦ (group, variant group)).map (·.1) = list := by
    rw [List.map_map]
    exact List.map_id _
  cases sortsTo_of_eq_ok h with
  | main htests hcandidates =>
    rw [hcandidates] at hall
    rw [List.cons_append, List.map_cons, List.map_append, hfst, hfst]
    exact List.perm_middle.symm.trans hall
  | promoted htests hcandidates hexcluded =>
    rw [hcandidates, hexcluded] at hall
    rw [List.map_cons, hfst]
    exact (List.perm_append_singleton _ _).symm.trans hall
  | unbuilt htests hcandidates hexcluded =>
    rw [hcandidates] at hall
    rw [List.map_append, hfst, hfst]
    exact hall

/-- The files of a directory are those of its packages. -/
theorem flatMap_files_withVariants_perm {files : List ParsedFile}
    {sorted : List (PackageGroup × Variant)} (h : withVariants dir (ofFiles files) = .ok sorted) :
    (sorted.flatMap (·.1.files)).Perm files := by
  rw [← List.flatMap_map Prod.fst PackageGroup.files]
  exact ((map_fst_withVariants_perm h).flatMap_right _).trans
    (Site.flatMap_files_ofFiles_perm files)

end PackageGroup

namespace Site

variable {site : Site}

/-- The packages of a directory have the file set of the directory, into which their files were
parsed, each once. -/
theorem packages_of_parseDir {space : SpaceId} {dir base : String} :
    Gives (parseDir site space dir base) fun result ↦ result.1.space = space ∧
      (∀ raw ∈ result.2, raw.space = result.1 ∧ raw.files ≠ []) ∧
        result.1.HasParsed (result.2.flatMap (·.files)) := by
  unfold parseDir
  refine (Gives.lift fun items _ ↦ trivial).bind fun items _ ↦ ?_
  have hstart : (FileSet.empty space).HasParsed [] := ⟨[], .empty space, .nil⟩
  refine (Gives.lift fun result hresult ↦ parseFiles_hasParsed hstart hresult).bind
    fun ⟨set, parsed⟩ ⟨hspace, hparsed⟩ ↦ ?_
  refine (Gives.lift fun sorted hsorted ↦ hsorted).bind fun sorted hsorted ↦ ?_
  have hne : ∀ entry ∈ sorted, entry.1.files ≠ [] := fun entry hentry ↦
    files_ne_nil_of_mem_ofFiles _ ((PackageGroup.map_fst_withVariants_perm hsorted).subset
      (List.mem_map_of_mem hentry))
  have hfiles : set.HasParsed (sorted.flatMap (·.1.files.map (·.file)) ++ []) := by
    rw [List.append_nil] at hparsed ⊢
    rw [← List.map_flatMap]
    exact hparsed.perm ((PackageGroup.flatMap_files_withVariants_perm hsorted).map _)
  refine (gives_packages hfiles hne).weaken fun result ⟨hset, hraws, hall⟩ ↦
    ⟨hset.trans hspace, hraws, ?_⟩
  rwa [List.append_nil] at hall

end Site

end PackageAtlas
