import PackageAtlas.Proofs.History.Directory
import PackageAtlas.Proofs.Naming.Directories

/-!
The division of a directory. Its files are divided by the names of their packages. Two tests are an
error, and so are two other packages that take part in the build; otherwise every file is in one
package, and what is no test and not the main package is kept out of the build
(`Division.parseDir_divides`).
-/

set_option autoImplicit false
set_option relaxedAutoImplicit false

namespace PackageAtlas

/-! ### Names and identities -/

/-- The variants of a path have identities of their own. -/
theorem Variant.identity_injective (path : String) :
    Function.Injective (Variant.identity path) := by
  intro first second h
  have htoList := congrArg String.toList h
  cases first <;> cases second <;>
    simp [Variant.identity, String.toList_append] at htoList ⊢
  exact String.toList_inj.1 htoList

/-- What is joined to a path can be told from the result. -/
theorem Path.join_injective {base first second : String} (hfirst : IsRelative first)
    (hsecond : IsRelative second) (h : join base first = join base second) : first = second := by
  have hstart : first.startsWith "/" = false := (isRelative_iff first).1 hfirst
  have hstart' : second.startsWith "/" = false := (isRelative_iff second).1 hsecond
  unfold join at h
  rw [hstart, hstart', Bool.false_or] at h
  split at h
  · exact h
  · apply String.toList_inj.1
    have htoList := congrArg String.toList h
    split at htoList <;> simpa [String.toList_append] using htoList

/-- The part of a joined path after the last slash is that of what was joined. -/
theorem baseName_join_eq (base path : String) : baseName (Path.join base path) = baseName path := by
  by_cases hbase : base = ""
  · rw [hbase, Path.join_empty]
  · exact baseName_join hbase path

namespace Division

section Distinct

variable {α : Type} {list : List α} (hdistinct : list.Nodup)
include hdistinct

theorem one_lt_length_iff :
    1 < list.length ↔ ∃ first second, first ≠ second ∧ first ∈ list ∧ second ∈ list := by
  match list, hdistinct with
  | [], _ => simp
  | [a], _ => simp
  | a :: b :: rest, hdistinct =>
    have hne : a ≠ b := fun heq ↦ (List.nodup_cons.1 hdistinct).1 (heq ▸ List.mem_cons_self)
    refine iff_of_true (by simp) ⟨a, b, hne, List.mem_cons_self, ?_⟩
    exact List.mem_cons_of_mem a List.mem_cons_self

theorem length_eq_one_iff : list.length = 1 ↔ ∃! a, a ∈ list := by
  constructor
  · intro hlength
    obtain ⟨a, rfl⟩ := List.length_eq_one_iff.1 hlength
    exact ⟨a, List.mem_singleton_self a, fun b hb ↦ List.mem_singleton.1 hb⟩
  · rintro ⟨a, ha, honly⟩
    have hpos := List.length_pos_of_mem ha
    have hone : ¬ 1 < list.length := by
      rw [one_lt_length_iff hdistinct]
      rintro ⟨b, c, hne, hb, hc⟩
      exact hne ((honly b hb).trans (honly c hc).symm)
    omega

end Distinct

/-! ### Groups by name -/

/-- The name of a package of tests from outside. -/
def IsTest (name : String) : Prop := name.endsWith "_test" = true

/-- Some of the files belong to a package of this name. -/
def Declares (files : List ParsedFile) (name : String) : Prop :=
  ∃ file ∈ files, file.file.packageName.name = name

/-- Some of the files of a package of this name take part in the build. -/
def Builds (files : List ParsedFile) (name : String) : Prop :=
  ∃ file ∈ files, file.file.packageName.name = name ∧ file.isBuildable = true

open PackageGroup (tests candidates excluded withVariants)

variable {files : List ParsedFile}

theorem Builds.declares {name : String} (h : Builds files name) : Declares files name := by
  obtain ⟨file, hfile, hname, -⟩ := h
  exact ⟨file, hfile, hname⟩

theorem nodup_names_ofFiles (files : List ParsedFile) :
    ((PackageGroup.ofFiles files).map (·.name)).Nodup := by
  unfold PackageGroup.ofFiles
  rw [List.map_map]
  refine List.Nodup.map (fun _ _ h ↦ h) ?_
  exact (RawPackage.pairwise_distinct_mergeSort _).imp fun h ↦ String.ne_of_lt h

theorem mem_ofFiles_iff {group : PackageGroup} :
    group ∈ PackageGroup.ofFiles files ↔ Declares files group.name ∧
      group.files = files.filter (·.file.packageName.name == group.name) := by
  unfold PackageGroup.ofFiles
  rw [List.mem_map]
  constructor
  · rintro ⟨name, hname, rfl⟩
    exact ⟨Site.mem_names_iff.1 hname, rfl⟩
  · rintro ⟨hname, hfiles⟩
    refine ⟨group.name, Site.mem_names_iff.2 hname, ?_⟩
    rw [← hfiles]

theorem isBuildable_iff {group : PackageGroup} (h : group ∈ PackageGroup.ofFiles files) :
    group.isBuildable = true ↔ Builds files group.name := by
  rw [PackageGroup.isBuildable, (mem_ofFiles_iff.1 h).2, List.any_filter, List.any_eq_true]
  simp [Builds]

theorem mem_names_filter_iff {test : PackageGroup → Bool} (property : String → Prop)
    (h : ∀ group ∈ PackageGroup.ofFiles files, test group = true ↔ property group.name)
    {name : String} : name ∈ ((PackageGroup.ofFiles files).filter test).map (·.name) ↔
      Declares files name ∧ property name := by
  rw [List.mem_map]
  constructor
  · rintro ⟨group, hgroup, rfl⟩
    obtain ⟨hmem, htest⟩ := List.mem_filter.1 hgroup
    exact ⟨(mem_ofFiles_iff.1 hmem).1, (h group hmem).1 htest⟩
  · rintro ⟨hname, hproperty⟩
    have hmem : ⟨name, files.filter (·.file.packageName.name == name)⟩ ∈
        PackageGroup.ofFiles files := mem_ofFiles_iff.2 ⟨hname, rfl⟩
    exact ⟨_, List.mem_filter.2 ⟨hmem, (h _ hmem).2 hproperty⟩, rfl⟩

theorem mem_tests_iff {name : String} :
    name ∈ (tests (PackageGroup.ofFiles files)).map (·.name) ↔ Declares files name ∧ IsTest name :=
  mem_names_filter_iff IsTest fun _ _ ↦ Iff.rfl

theorem mem_candidates_iff {name : String} :
    name ∈ (candidates (PackageGroup.ofFiles files)).map (·.name) ↔
      ¬IsTest name ∧ Builds files name := by
  rw [candidates, List.filter_filter]
  have hdeclares : Declares files name ∧ ¬IsTest name ∧ Builds files name ↔
      ¬IsTest name ∧ Builds files name := and_iff_right_of_imp fun h ↦ h.2.declares
  rw [← hdeclares]
  refine mem_names_filter_iff (fun name ↦ ¬IsTest name ∧ Builds files name) fun group hgroup ↦ ?_
  rw [Bool.and_eq_true, Bool.not_eq_true', isBuildable_iff hgroup, and_comm, ← Bool.not_eq_true]
  rfl

theorem mem_excluded_iff {name : String} :
    name ∈ (excluded (PackageGroup.ofFiles files)).map (·.name) ↔
      Declares files name ∧ ¬IsTest name ∧ ¬Builds files name := by
  rw [excluded, List.filter_filter]
  refine mem_names_filter_iff (fun name ↦ ¬IsTest name ∧ ¬Builds files name) fun group hgroup ↦ ?_
  rw [Bool.and_eq_true, Bool.not_eq_true', Bool.not_eq_true', and_comm, ← Bool.not_eq_true,
    ← Bool.not_eq_true, isBuildable_iff hgroup]
  rfl

theorem nodup_tests (files : List ParsedFile) :
    ((tests (PackageGroup.ofFiles files)).map (·.name)).Nodup :=
  (nodup_names_ofFiles files).sublist (List.filter_sublist.map _)

theorem nodup_candidates (files : List ParsedFile) :
    ((candidates (PackageGroup.ofFiles files)).map (·.name)).Nodup :=
  (nodup_names_ofFiles files).sublist
    ((List.filter_sublist.trans List.filter_sublist).map _)

theorem nodup_excluded (files : List ParsedFile) :
    ((excluded (PackageGroup.ofFiles files)).map (·.name)).Nodup :=
  (nodup_names_ofFiles files).sublist
    ((List.filter_sublist.trans List.filter_sublist).map _)

/-! ### Errors -/

/-- Two packages of tests from outside. -/
def ManyTests (files : List ParsedFile) : Prop :=
  ∃ first second, first ≠ second ∧ (Declares files first ∧ IsTest first) ∧
    Declares files second ∧ IsTest second

/-- Two other packages that take part in the build. -/
def Ambiguous (files : List ParsedFile) : Prop :=
  ∃ first second, first ≠ second ∧ (¬IsTest first ∧ Builds files first) ∧
    ¬IsTest second ∧ Builds files second

theorem manyTests_iff : ManyTests files ↔ 1 < (tests (PackageGroup.ofFiles files)).length := by
  have hlength := one_lt_length_iff (nodup_tests files)
  rw [List.length_map] at hlength
  simp only [hlength, mem_tests_iff]
  rfl

theorem ambiguous_iff :
    Ambiguous files ↔ 1 < (candidates (PackageGroup.ofFiles files)).length := by
  have hlength := one_lt_length_iff (nodup_candidates files)
  rw [List.length_map] at hlength
  simp only [hlength, mem_candidates_iff]
  rfl

theorem withVariants_eq_manyTests_iff (dir : String) :
    withVariants dir (PackageGroup.ofFiles files) = .error (.multipleTestPackages dir) ↔
      ManyTests files := by
  rw [manyTests_iff]
  have hsorts := PackageGroup.sortsTo_withVariants dir (PackageGroup.ofFiles files)
  generalize withVariants dir (PackageGroup.ofFiles files) = result at hsorts
  cases hsorts with
  | manyTests htests => exact iff_of_true rfl htests
  | ambiguous htests => exact iff_of_false (by simp) htests.not_gt
  | main htests | promoted htests | unbuilt htests => exact iff_of_false nofun htests.not_gt

theorem withVariants_eq_ambiguous_iff (dir : String) :
    (∃ first second, withVariants dir (PackageGroup.ofFiles files) =
      .error (.ambiguousPackage dir first second)) ↔ ¬ManyTests files ∧ Ambiguous files := by
  rw [manyTests_iff, ambiguous_iff, Nat.not_lt]
  have hsorts := PackageGroup.sortsTo_withVariants dir (PackageGroup.ofFiles files)
  generalize withVariants dir (PackageGroup.ofFiles files) = result at hsorts
  cases hsorts with
  | manyTests htests => exact iff_of_false (by simp) fun h ↦ htests.not_ge h.1
  | ambiguous htests hcandidates =>
    exact iff_of_true ⟨_, _, rfl⟩ ⟨htests, by simp [hcandidates]⟩
  | main htests hcandidates => exact iff_of_false nofun fun h ↦ by simp [hcandidates] at h
  | promoted htests hcandidates | unbuilt htests hcandidates =>
    exact iff_of_false nofun fun h ↦ by simp [hcandidates] at h

theorem exists_withVariants (dir : String) (hmany : ¬ManyTests files)
    (hambiguous : ¬Ambiguous files) :
    ∃ sorted, withVariants dir (PackageGroup.ofFiles files) = .ok sorted := by
  rw [manyTests_iff] at hmany
  rw [ambiguous_iff] at hambiguous
  have hsorts := PackageGroup.sortsTo_withVariants dir (PackageGroup.ofFiles files)
  generalize withVariants dir (PackageGroup.ofFiles files) = result at hsorts
  cases hsorts with
  | manyTests htests => exact absurd htests hmany
  | ambiguous htests hcandidates => exact absurd (by simp [hcandidates]) hambiguous
  | main | promoted | unbuilt => exact ⟨_, rfl⟩

/-! ### Packages -/

/-- The package of a group. -/
def pack (dir base : String) (set : FileSet) (entry : PackageGroup × Variant) : RawPackage :=
  .ofFiles (entry.2.identity base) dir entry.1.name set entry.1.files

/-- How files are divided into packages: each is in one of them, which has all files of its name in
their order. Tests are marked, and so is every other package but the main one. There is a main
package when a single one takes part in the build, or when none does and there is a single one. -/
structure Divides (base : String) (files : List ParsedFile) (raws : List RawPackage) : Prop where
  once : (raws.flatMap (·.files)).Perm (files.map (·.file))
  whole : ∀ raw ∈ raws, raw.files ≠ [] ∧
    raw.files.Perm ((files.map (·.file)).filter (·.packageName.name == raw.name))
  ordered : ∀ raw ∈ raws, raw.files.Pairwise (·.name < ·.name)
  distinct : (raws.map (·.identity)).Nodup
  tests : ∀ raw ∈ raws, IsTest raw.name → raw.identity = Variant.externalTest.identity base
  others : ∀ raw ∈ raws, ¬IsTest raw.name →
    raw.identity = base ∨ raw.identity = (Variant.noBuild raw.name).identity base
  primary_iff : (∃ raw ∈ raws, raw.identity = base) ↔
    (∃! name, ¬IsTest name ∧ Builds files name) ∨
      (∀ name, ¬IsTest name → ¬Builds files name) ∧ ∃! name, ¬IsTest name ∧ Declares files name
  primary_builds : ∀ raw ∈ raws, raw.identity = base →
    ∀ name, ¬IsTest name → Builds files name → name = raw.name
  marked : ∀ raw ∈ raws, ∀ file ∈ files, file.file ∈ raw.files →
    raw.isBuildable file.file = file.isBuildable

section Packages

variable {dir base : String} {set : FileSet} {sorted : List (PackageGroup × Variant)}

theorem files_pack_perm (dir base : String) (set : FileSet) (entry : PackageGroup × Variant) :
    (pack dir base set entry).files.Perm (entry.1.files.map (·.file)) :=
  Site.files_ofFiles_perm _ _ _ _ _

/-- The files of a package are in the order of their names. -/
theorem ordered_pack {entry : PackageGroup × Variant}
    (hnames : (entry.1.files.map (·.file.name)).Nodup) :
    (pack dir base set entry).files.Pairwise (·.name < ·.name) := by
  have hsorted := RawPackage.pairwise_mergeSort_text (fun file : ParsedFile ↦ file.file.name)
    entry.1.files
  have hdistinct : (entry.1.files.mergeSort fun first second ↦
      first.file.name ≤ second.file.name).Pairwise fun first second ↦
        first.file.name ≠ second.file.name :=
    List.pairwise_map.1 (((List.mergeSort_perm _ _).map _).nodup_iff.2 hnames)
  refine List.pairwise_map.2 ((hsorted.and hdistinct).imp fun ⟨hle, hne⟩ ↦ ?_)
  exact String.not_le.1 fun hge ↦ hne (String.le_antisymm hle hge)

/-- Where files have names of their own, the marks of a package are those of its files. -/
theorem isBuildable_pack {entry : PackageGroup × Variant} {file : ParsedFile}
    (hnames : (entry.1.files.map (·.file.name)).Nodup) (hfile : file ∈ entry.1.files) :
    (pack dir base set entry).isBuildable file.file = file.isBuildable := by
  have hmem : ((pack dir base set entry).excluded.contains file.file.name) = true ↔
      file.isBuildable = false := by
    have hexcluded : (pack dir base set entry).excluded =
        ((entry.1.files.mergeSort fun first second ↦ first.file.name ≤ second.file.name).filter
          (!·.isBuildable)).map (·.file.name) := rfl
    rw [List.contains_iff_mem, hexcluded, List.mem_map]
    constructor
    · rintro ⟨other, hother, hname⟩
      obtain ⟨hother, hmark⟩ := List.mem_filter.1 hother
      have hsame := List.inj_on_of_nodup_map hnames ((List.mergeSort_perm _ _).mem_iff.1 hother)
        hfile hname
      rwa [← hsame, ← Bool.not_eq_true']
    · intro hmark
      have hsorted := (List.mergeSort_perm entry.1.files fun first second ↦
        first.file.name ≤ second.file.name).mem_iff.2 hfile
      exact ⟨file, List.mem_filter.2 ⟨hsorted, by simp [hmark]⟩, rfl⟩
  rw [RawPackage.isBuildable]
  cases hmark : file.isBuildable with
  | false => rw [hmem.2 hmark]; rfl
  | true =>
    rw [Bool.not_eq_true', ← Bool.not_eq_true, hmem, hmark]
    exact Bool.noConfusion

/-- Besides the main package there are at most one test and excluded packages of different names. -/
theorem nodup_unbuilt (htests : (tests (PackageGroup.ofFiles files)).length ≤ 1) :
    (((tests (PackageGroup.ofFiles files)).map (·, Variant.externalTest) ++
      (excluded (PackageGroup.ofFiles files)).map fun group ↦
        (group, Variant.noBuild group.name)).map (·.2)).Nodup ∧
    Variant.primary ∉ ((tests (PackageGroup.ofFiles files)).map (·, Variant.externalTest) ++
      (excluded (PackageGroup.ofFiles files)).map fun group ↦
        (group, Variant.noBuild group.name)).map (·.2) := by
  have htest : ((tests (PackageGroup.ofFiles files)).map fun _ ↦ Variant.externalTest).Nodup := by
    rw [List.map_const']
    exact List.nodup_replicate.2 htests
  have hnoBuild : ((excluded (PackageGroup.ofFiles files)).map fun group ↦
      Variant.noBuild group.name).Nodup := by
    have hnames := (nodup_excluded files).map fun _ _ h ↦ Variant.noBuild.inj h
    rwa [List.map_map] at hnames
  rw [List.map_append, List.map_map, List.map_map]
  refine ⟨List.nodup_append.2 ⟨htest, hnoBuild, ?_⟩, by simp⟩
  simp

theorem nodup_variants (h : withVariants dir (PackageGroup.ofFiles files) = .ok sorted) :
    (sorted.map (·.2)).Nodup := by
  cases PackageGroup.sortsTo_of_eq_ok h with
  | main htests =>
    obtain ⟨hnodup, hprimary⟩ := nodup_unbuilt htests
    exact List.nodup_cons.2 ⟨hprimary, hnodup⟩
  | promoted htests =>
    obtain ⟨hnodup, hprimary⟩ := nodup_unbuilt htests
    rw [List.map_append] at hnodup hprimary
    exact List.nodup_cons.2 ⟨fun hmem ↦ hprimary (List.mem_append_left _ hmem),
      (List.nodup_append.1 hnodup).1⟩
  | unbuilt htests => exact (nodup_unbuilt htests).1

/-- What a group of a directory becomes. -/
inductive Becomes (files : List ParsedFile) : PackageGroup × Variant → Prop where
  | test {group : PackageGroup} (htest : IsTest group.name) : Becomes files (group, .externalTest)
  | noBuild {group : PackageGroup} (htest : ¬IsTest group.name) :
    Becomes files (group, .noBuild group.name)
  | primary {group : PackageGroup} (htest : ¬IsTest group.name)
    (honly : ∀ name, ¬IsTest name → Builds files name → name = group.name) :
    Becomes files (group, .primary)

theorem becomes_of_mem (h : withVariants dir (PackageGroup.ofFiles files) = .ok sorted) :
    ∀ entry ∈ sorted, Becomes files entry := by
  have htest : ∀ entry ∈ (tests (PackageGroup.ofFiles files)).map (·, Variant.externalTest),
      Becomes files entry := by
    refine List.forall_mem_map.2 fun group hgroup ↦ .test ?_
    exact (mem_tests_iff.1 (List.mem_map_of_mem hgroup)).2
  have hnoBuild : ∀ entry ∈ (excluded (PackageGroup.ofFiles files)).map fun group ↦
      (group, Variant.noBuild group.name), Becomes files entry := by
    refine List.forall_mem_map.2 fun group hgroup ↦ .noBuild ?_
    exact (mem_excluded_iff.1 (List.mem_map_of_mem hgroup)).2.1
  cases PackageGroup.sortsTo_of_eq_ok h with
  | @main group _ hcandidates =>
    have hmem : ∀ name, name = group.name ↔ ¬IsTest name ∧ Builds files name := by
      intro name
      rw [← mem_candidates_iff, hcandidates]
      simp
    refine List.forall_mem_cons.2 ⟨.primary ((hmem _).1 rfl).1 fun name hname hbuilds ↦ ?_,
      List.forall_mem_append.2 ⟨htest, hnoBuild⟩⟩
    exact (hmem name).2 ⟨hname, hbuilds⟩
  | @promoted group _ hcandidates hexcluded =>
    have hgroup : group ∈ excluded (PackageGroup.ofFiles files) := by simp [hexcluded]
    refine List.forall_mem_cons.2 ⟨.primary (mem_excluded_iff.1 (List.mem_map_of_mem hgroup)).2.1
      fun name hname hbuilds ↦ ?_, htest⟩
    have hmem := mem_candidates_iff.2 ⟨hname, hbuilds⟩
    simp [hcandidates] at hmem
  | unbuilt => exact List.forall_mem_append.2 ⟨htest, hnoBuild⟩

theorem length_candidates_eq_one_iff :
    (candidates (PackageGroup.ofFiles files)).length = 1 ↔
      ∃! name, ¬IsTest name ∧ Builds files name := by
  have hlength := length_eq_one_iff (nodup_candidates files)
  rw [List.length_map] at hlength
  simpa only [mem_candidates_iff] using hlength

theorem candidates_eq_nil_iff :
    candidates (PackageGroup.ofFiles files) = [] ↔ ∀ name, ¬IsTest name → ¬Builds files name := by
  have hempty := List.eq_nil_iff_forall_not_mem
    (l := (candidates (PackageGroup.ofFiles files)).map (·.name))
  rw [List.map_eq_nil_iff] at hempty
  simpa only [mem_candidates_iff, not_and] using hempty

/-- Where no package takes part in the build, all besides tests are excluded. -/
theorem length_excluded_eq_one_iff (h : candidates (PackageGroup.ofFiles files) = []) :
    (excluded (PackageGroup.ofFiles files)).length = 1 ↔
      ∃! name, ¬IsTest name ∧ Declares files name := by
  have hlength := length_eq_one_iff (nodup_excluded files)
  rw [List.length_map] at hlength
  have hmem : ∀ name, name ∈ (excluded (PackageGroup.ofFiles files)).map (·.name) ↔
      ¬IsTest name ∧ Declares files name := by
    intro name
    rw [mem_excluded_iff]
    constructor
    · exact fun h ↦ ⟨h.2.1, h.1⟩
    · exact fun hname ↦ ⟨hname.2, hname.1, candidates_eq_nil_iff.1 h name hname.1⟩
  simpa only [hmem] using hlength

theorem exists_primary_iff (h : withVariants dir (PackageGroup.ofFiles files) = .ok sorted) :
    (∃ entry ∈ sorted, entry.2 = .primary) ↔
      (∃! name, ¬IsTest name ∧ Builds files name) ∨
        (∀ name, ¬IsTest name → ¬Builds files name) ∧
          ∃! name, ¬IsTest name ∧ Declares files name := by
  rw [← length_candidates_eq_one_iff, ← candidates_eq_nil_iff]
  cases PackageGroup.sortsTo_of_eq_ok h with
  | main _ hcandidates =>
    exact iff_of_true ⟨_, List.mem_cons_self, rfl⟩ (Or.inl (by rw [hcandidates]; rfl))
  | promoted _ hcandidates hexcluded =>
    refine iff_of_true ⟨_, List.mem_cons_self, rfl⟩ (Or.inr ⟨hcandidates, ?_⟩)
    rw [← length_excluded_eq_one_iff hcandidates, hexcluded]
    rfl
  | unbuilt htests hcandidates hexcluded =>
    refine iff_of_false (fun ⟨entry, hentry, hprimary⟩ ↦ ?_) ?_
    · exact (nodup_unbuilt htests).2 (hprimary ▸ List.mem_map_of_mem hentry)
    · rw [← length_excluded_eq_one_iff hcandidates]
      simp [hcandidates, hexcluded]

section Entries

variable (h : withVariants dir (PackageGroup.ofFiles files) = .ok sorted)
  {entry : PackageGroup × Variant} (hentry : entry ∈ sorted)
include h hentry

theorem mem_ofFiles_of_mem : entry.1 ∈ PackageGroup.ofFiles files :=
  (PackageGroup.map_fst_withVariants_perm h).mem_iff.1 (List.mem_map_of_mem hentry)

theorem files_of_mem : entry.1.files = files.filter (·.file.packageName.name == entry.1.name) :=
  (mem_ofFiles_iff.1 (mem_ofFiles_of_mem h hentry)).2

theorem nodup_of_mem (hnames : (files.map (·.file.name)).Nodup) :
    (entry.1.files.map (·.file.name)).Nodup := by
  rw [files_of_mem h hentry]
  exact hnames.sublist (List.filter_sublist.map _)

theorem whole_pack (base : String) (set : FileSet) : (pack dir base set entry).files ≠ [] ∧
    (pack dir base set entry).files.Perm ((files.map (·.file)).filter
      (·.packageName.name == entry.1.name)) := by
  have hperm := files_pack_perm dir base set entry
  constructor
  · intro hnil
    rw [hnil] at hperm
    exact Site.files_ne_nil_of_mem_ofFiles _ (mem_ofFiles_of_mem h hentry)
      (List.map_eq_nil_iff.1 hperm.nil_eq.symm)
  · rw [files_of_mem h hentry] at hperm
    rw [List.filter_map]
    exact hperm

theorem marked_pack (hnames : (files.map (·.file.name)).Nodup) {file : ParsedFile}
    (hfile : file ∈ files) (hin : file.file ∈ (pack dir base set entry).files) :
    (pack dir base set entry).isBuildable file.file = file.isBuildable := by
  obtain ⟨other, hother, hsame⟩ :=
    List.mem_map.1 ((files_pack_perm dir base set entry).mem_iff.1 hin)
  have hfiles : other ∈ files := by
    rw [files_of_mem h hentry] at hother
    exact List.mem_of_mem_filter hother
  obtain rfl := List.inj_on_of_nodup_map hnames hfiles hfile (congrArg SourceFile.name hsame)
  exact isBuildable_pack (nodup_of_mem h hentry hnames) hother

end Entries

theorem divides_of_withVariants (hnames : (files.map (·.file.name)).Nodup)
    (h : withVariants dir (PackageGroup.ofFiles files) = .ok sorted) (base : String)
    (set : FileSet) : Divides base files (sorted.map (pack dir base set)) where
  once := by
    rw [List.flatMap_map]
    refine (List.Perm.flatMap_left _ fun entry _ ↦ files_pack_perm dir base set entry).trans ?_
    rw [← List.map_flatMap]
    exact (PackageGroup.flatMap_files_withVariants_perm h).map _
  whole := List.forall_mem_map.2 fun _ hentry ↦ whole_pack h hentry base set
  ordered := List.forall_mem_map.2 fun _ hentry ↦ ordered_pack (nodup_of_mem h hentry hnames)
  distinct := by
    have hvariants := (nodup_variants h).map (Variant.identity_injective base)
    rw [List.map_map] at hvariants ⊢
    exact hvariants
  tests := by
    refine List.forall_mem_map.2 fun entry hentry htest ↦ ?_
    cases becomes_of_mem h entry hentry with
    | test => rfl
    | noBuild hother | primary hother => exact absurd htest hother
  others := by
    refine List.forall_mem_map.2 fun entry hentry hother ↦ ?_
    cases becomes_of_mem h entry hentry with
    | test htest => exact absurd htest hother
    | noBuild => exact Or.inr rfl
    | primary => exact Or.inl rfl
  primary_iff := by
    rw [← exists_primary_iff h]
    simp only [List.mem_map, exists_exists_and_eq_and]
    refine exists_congr fun entry ↦ and_congr_right fun _ ↦ ?_
    exact ⟨fun hbase ↦ Variant.identity_injective base hbase, congrArg (Variant.identity base)⟩
  primary_builds := by
    refine List.forall_mem_map.2 fun entry hentry hbase ↦ ?_
    have hprimary : entry.2 = .primary := Variant.identity_injective base hbase
    cases becomes_of_mem h entry hentry with
    | test | noBuild => cases hprimary
    | primary _ honly => exact honly
  marked := List.forall_mem_map.2 fun _ hentry _ hfile hin ↦ marked_pack h hentry hnames hfile hin

end Packages

/-! ### Files -/

section Sources

variable {site : Site} {dir : String}

/-- A source file that by itself can be read and parsed. It takes no part in the build if it has
foreign code. -/
def IsNative (site : Site) (dir : String) (item : FileItem) : Prop :=
  ∃ text file, site.tree.read (Path.join dir item.name) = .ok text ∧
    ((FileSet.empty ⟨0⟩).parseFile item.name text).2 = .ok file ∧
      (site.config.build.matchesFile (baseName item.name) text file.importsForeign = true →
        file.importsForeign = false)

/-- A file that was parsed from the text of a source file, with the mark of the build. -/
structure ReadFrom (site : Site) (dir : String) (item : FileItem) (file : ParsedFile) : Prop where
  name : file.file.name = Path.join dir item.name
  parsed : ∃ text, site.tree.read (Path.join dir item.name) = .ok text ∧
    (∃ set : FileSet, (set.parseFile (Path.join dir item.name) text).2 = .ok file.file) ∧
      file.isBuildable =
        site.config.build.matchesFile (baseName item.name) text file.file.importsForeign
  native : file.isBuildable = true → file.file.importsForeign = false

theorem one_le_nextBase (set : FileSet) : 1 ≤ set.nextBase := by
  unfold FileSet.nextBase
  split <;> omega

/-- What is parsed anywhere was moved from where it is parsed by itself. -/
theorem exists_relocation (set : FileSet) (path name text : String) : ∃ move : Relocation,
    move.name = path ∧ (set.parseFile path text).2 =
      move.result ((FileSet.empty ⟨0⟩).parseFile name text).2 := by
  obtain ⟨distance, hdistance⟩ := Nat.exists_eq_add_of_le (one_le_nextBase set)
  have hbase : set.nextBase = (FileSet.empty ⟨0⟩).nextBase + distance := hdistance
  exact ⟨⟨set.space, path, distance⟩, rfl, FileSet.parseFile_snd distance hbase name path text⟩

/-- What is read from a source file is what it is by itself. -/
theorem ReadFrom.alone {item : FileItem} {file : ParsedFile} {text : String} {alone : SourceFile}
    (h : ReadFrom site dir item file) (hread : site.tree.read (Path.join dir item.name) = .ok text)
    (halone : ((FileSet.empty ⟨0⟩).parseFile item.name text).2 = .ok alone) :
    file.file.packageName.name = alone.packageName.name ∧ file.isBuildable =
      site.config.build.matchesFile (baseName item.name) text alone.importsForeign := by
  obtain ⟨text', hread', ⟨set, hparse⟩, hmark⟩ := h.parsed
  obtain rfl : text' = text := Except.ok.inj (hread'.symm.trans hread)
  obtain ⟨move, -, hmoved⟩ := exists_relocation set (Path.join dir item.name) item.name text'
  rw [hparse, halone] at hmoved
  have hfile : file.file = move.file alone := Except.ok.inj hmoved
  rw [hmark, hfile, Relocation.importsForeign_file]
  exact ⟨rfl, rfl⟩

/-- A native file is parsed wherever it is registered. -/
theorem exists_parseText {item : FileItem} (h : IsNative site dir item) (set : FileSet) :
    ∃ text later file, site.tree.read (Path.join dir item.name) = .ok text ∧
      Site.parseText set (Path.join dir item.name) text = .ok (later, file) ∧
        ReadFrom site dir item ⟨file, site.builds file text⟩ := by
  obtain ⟨text, file, hread, hparse, hnative⟩ := h
  generalize hpath : Path.join dir item.name = path at hread
  obtain ⟨move, hname, hmoved⟩ := exists_relocation set path item.name text
  rw [hparse] at hmoved
  have hset : set.parseFile path text = (set.add path text, (set.parseFile path text).2) := rfl
  have hbuilds : site.builds (move.file file) text =
      site.config.build.matchesFile (baseName item.name) text file.importsForeign := by
    rw [Site.builds, Relocation.importsForeign_file, ← baseName_join_eq dir, hpath, ← hname]
    rfl
  refine ⟨text, set.add path text, move.file file, hread, ?_, ?_⟩
  · unfold Site.parseText
    rw [hset, hmoved]
    rfl
  · constructor
    · exact hname.trans hpath.symm
    · rw [hpath, Relocation.importsForeign_file]
      exact ⟨text, hread, ⟨set, hmoved⟩, hbuilds⟩
    · rw [hbuilds, Relocation.importsForeign_file]
      exact hnative

/-- The files of a directory, all native. -/
theorem exists_parseFiles {items : List FileItem} (h : ∀ item ∈ items, IsNative site dir item)
    (set : FileSet) : ∃ later files,
      site.parseFiles set (items.map fun item ↦ Path.join dir item.name) = .ok (later, files) ∧
        List.Forall₂ (ReadFrom site dir) items files := by
  induction items generalizing set with
  | nil => exact ⟨set, [], rfl, .nil⟩
  | cons item items ih =>
    obtain ⟨hitem, hitems⟩ := List.forall_mem_cons.1 h
    obtain ⟨text, next, file, hread, hparse, hfrom⟩ := exists_parseText hitem set
    obtain ⟨later, files, hfiles, hall⟩ := ih hitems next
    refine ⟨later, ⟨file, site.builds file text⟩ :: files, ?_, .cons hfrom hall⟩
    rw [List.map_cons, Site.parseFiles, hread]
    change Site.parseText set (Path.join dir item.name) text >>= _ = _
    rw [hparse]
    change site.parseFiles next _ >>= _ = _
    rw [hfiles]
    rfl

theorem packages_eq {base : String} {set : FileSet} {sorted : List (PackageGroup × Variant)}
    (h : ∀ entry ∈ sorted, ∀ file ∈ entry.1.files,
      file.isBuildable = true → file.file.importsForeign = false) :
    site.packages dir base set sorted = pure (set, sorted.map (pack dir base set)) := by
  induction sorted with
  | nil => rfl
  | cons entry sorted ih =>
    obtain ⟨hentry, hsorted⟩ := List.forall_mem_cons.1 h
    have hforeign : Site.foreignFiles entry.1.files = [] := by
      rw [Site.foreignFiles, List.map_eq_nil_iff, List.filter_eq_nil_iff]
      intro file hfile hboth
      rw [Bool.and_eq_true] at hboth
      rw [hentry file hfile hboth.1] at hboth
      exact Bool.noConfusion hboth.2
    rw [Site.packages, Site.preprocess, hforeign]
    change site.packages dir base set sorted >>= _ = _
    rw [ih hsorted]
    rfl

theorem map_name_of_forall₂ {items : List FileItem} {files : List ParsedFile}
    (h : List.Forall₂ (ReadFrom site dir) items files) :
    files.map (·.file.name) = (items.map (·.name)).map (Path.join dir) := by
  induction h with
  | nil => rfl
  | cons hfrom _ ih => rw [List.map_cons, List.map_cons, List.map_cons, hfrom.name, ih]

/-- The files of a directory are registered under names of their own. -/
theorem nodup_names_of_forall₂ {items : List FileItem} {files : List ParsedFile}
    (hdistinct : (items.map (·.name)).Nodup) (hnamed : ∀ item ∈ items, Path.IsName item.name)
    (h : List.Forall₂ (ReadFrom site dir) items files) : (files.map (·.file.name)).Nodup := by
  rw [map_name_of_forall₂ h]
  refine hdistinct.map_on fun first hfirst second hsecond hjoin ↦ ?_
  obtain ⟨item, hitem, rfl⟩ := List.mem_map.1 hfirst
  obtain ⟨other, hother, rfl⟩ := List.mem_map.1 hsecond
  exact Path.join_injective (hnamed item hitem).isRelative (hnamed other hother).isRelative hjoin

theorem native_of_forall₂ {items : List FileItem} {files : List ParsedFile}
    (h : List.Forall₂ (ReadFrom site dir) items files) :
    ∀ file ∈ files, file.isBuildable = true → file.file.importsForeign = false := by
  induction h with
  | nil => simp
  | cons hfrom _ ih => exact List.forall_mem_cons.2 ⟨hfrom.native, ih⟩

theorem map_eq_error_iff {α β : Type} {change : α → β} {result : Except LoadError α}
    {error : LoadError} : result.map change = .error error ↔ result = .error error := by
  cases result <;> simp [Except.map]

/-- What is made of the parsed files of a directory. -/
def divide (site : Site) (dir base : String) (parsed : FileSet × List ParsedFile) :
    Prepare (FileSet × List RawPackage) :=
  liftM (withVariants dir (PackageGroup.ofFiles parsed.2)) >>= fun sorted ↦
    site.packages dir base parsed.1 sorted

/-- Native files are divided without the tool. -/
theorem run_divide (hnative : ∀ file ∈ files, file.isBuildable = true →
      file.file.importsForeign = false) (base : String) (set : FileSet)
    (requests : List PreprocessRequest) :
    (divide site dir base (set, files)).run.run requests =
      ((withVariants dir (PackageGroup.ofFiles files)).map fun sorted ↦
        (set, sorted.map (pack dir base set)), requests) := by
  rw [divide]
  cases hsorted : withVariants dir (PackageGroup.ofFiles files) with
  | error error => rfl
  | ok sorted =>
    change (site.packages dir base set sorted).run.run requests = _
    rw [packages_eq fun entry hentry file hfile ↦ ?_]
    · rfl
    · rw [files_of_mem hsorted hentry] at hfile
      exact hnative file (List.mem_of_mem_filter hfile)

theorem run_parseDir {space : SpaceId} {items : List FileItem} {set : FileSet}
    (hlist : site.tree.list dir = .ok items)
    (hfiles : site.parseFiles (FileSet.empty space) ((items.filter Site.isSource).map fun item ↦
      Path.join dir item.name) = .ok (set, files)) (base : String)
    (requests : List PreprocessRequest) :
    (site.parseDir space dir base).run.run requests =
      (divide site dir base (set, files)).run.run requests := by
  rw [Site.parseDir, hlist]
  change (liftM (site.parseFiles (FileSet.empty space) _) >>= divide site dir base).run.run _ = _
  rw [hfiles]
  rfl

/-- A directory whose source files can all be read and parsed, and of which none that takes part in
the build has foreign code. The tool is asked for nothing. It is an error when two packages are
tests, and otherwise when two others take part in the build; otherwise the directory is divided. -/
theorem parseDir_divides (space : SpaceId) (base : String) {items : List FileItem}
    (hlist : site.tree.list dir = .ok items)
    (hdistinct : (items.map (·.name)).Nodup) (hnamed : ∀ item ∈ items, Path.IsName item.name)
    (hnative : ∀ item ∈ items, Site.isSource item = true → IsNative site dir item)
    (requests : List PreprocessRequest) :
    ∃ set files outcome, List.Forall₂ (ReadFrom site dir) (items.filter Site.isSource) files ∧
      (site.parseDir space dir base).run.run requests = (outcome, requests) ∧
      (outcome = .error (.multipleTestPackages dir) ↔ ManyTests files) ∧
      ((∃ first second, outcome = .error (.ambiguousPackage dir first second)) ↔
        ¬ManyTests files ∧ Ambiguous files) ∧
      (¬ManyTests files → ¬Ambiguous files →
        ∃ raws, outcome = .ok (set, raws) ∧ Divides base files raws) := by
  have hsources : ∀ item ∈ items.filter Site.isSource, IsNative site dir item := fun item hitem ↦
    hnative item (List.mem_of_mem_filter hitem) (List.of_mem_filter hitem)
  obtain ⟨set, files, hfiles, hall⟩ := exists_parseFiles hsources (FileSet.empty space)
  have hnames := nodup_names_of_forall₂ (hdistinct.sublist (List.filter_sublist.map _))
    (fun item hitem ↦ hnamed item (List.mem_of_mem_filter hitem)) hall
  have hrun := (run_parseDir hlist hfiles base requests).trans
    (run_divide (native_of_forall₂ hall) base set requests)
  refine ⟨set, files, _, hall, hrun, ?_, ?_, fun hmany hambiguous ↦ ?_⟩
  · rw [map_eq_error_iff, withVariants_eq_manyTests_iff]
  · simp only [map_eq_error_iff]
    exact withVariants_eq_ambiguous_iff dir
  · obtain ⟨sorted, hsorted⟩ := exists_withVariants dir hmany hambiguous
    rw [hsorted]
    exact ⟨_, rfl, divides_of_withVariants hnames hsorted base set⟩

end Sources

/-- A directory of the top with some items, for a build on one system. -/
def singleSite (items : List FileItem) : Site :=
  ⟨⟨.dir [⟨"m", .dir items⟩]⟩, ⟨["."], ".", ⟨"linux", "amd64", [], false⟩, []⟩, none⟩

/-- A package in the build, its tests from outside, and a package for another system. -/
def threeNames : List FileItem :=
  [⟨"a.go", .text "package a\n"⟩, ⟨"a_test.go", .text "package a_test\n"⟩,
    ⟨"b_windows.go", .text "package b\n"⟩]

theorem parseDir_divides_threeNames : ∃ set files raws,
    files.map (fun file ↦ (file.file.packageName.name, file.isBuildable)) =
        [("a", true), ("a_test", true), ("b", false)] ∧
      (((singleSite threeNames).parseDir ⟨0⟩ "m" "x/m").run.run []) = (.ok (set, raws), []) ∧
      Divides "x/m" files raws := by
  have hfile : ∀ (name text package : String) (mark : Bool) (node : FileNode),
      ((singleSite threeNames).tree.read (Path.join "m" name)).toOption = some text →
      ((FileSet.empty ⟨0⟩).parseFile name text).2.toOption.map (fun alone ↦
        (alone.packageName.name, alone.importsForeign)) = some (package, false) →
      (singleSite threeNames).config.build.matchesFile (baseName name) text false = mark →
        IsNative (singleSite threeNames) "m" ⟨name, node⟩ ∧
          ∀ file, ReadFrom (singleSite threeNames) "m" ⟨name, node⟩ file →
            (file.file.packageName.name, file.isBuildable) = (package, mark) := by
    intro name text package mark node hread hparse hmark
    obtain ⟨alone, halone, hpair⟩ := Option.map_eq_some_iff.1 hparse
    obtain ⟨hname, hforeign⟩ := Prod.mk.inj hpair
    have hread := eq_ok_of_toOption hread
    have halone := eq_ok_of_toOption halone
    refine ⟨⟨text, alone, hread, halone, fun _ ↦ hforeign⟩, fun file hfrom ↦ ?_⟩
    obtain ⟨hfrom, hbuilds⟩ := hfrom.alone hread halone
    rw [hfrom, hname, hbuilds, hforeign, hmark]
  obtain ⟨hmain, hmainFile⟩ := hfile "a.go" "package a\n" "a" true (.text "package a\n")
    (by decide +kernel) (by decide +kernel) (by decide +kernel)
  obtain ⟨htest, htestFile⟩ := hfile "a_test.go" "package a_test\n" "a_test" true
    (.text "package a_test\n") (by decide +kernel) (by decide +kernel) (by decide +kernel)
  obtain ⟨hother, hotherFile⟩ := hfile "b_windows.go" "package b\n" "b" false
    (.text "package b\n") (by decide +kernel) (by decide +kernel) (by decide +kernel)
  have hnative : ∀ item ∈ threeNames, Site.isSource item = true →
      IsNative (singleSite threeNames) "m" item :=
    List.forall_mem_cons.2 ⟨fun _ ↦ hmain, List.forall_mem_cons.2 ⟨fun _ ↦ htest,
      List.forall_mem_cons.2 ⟨fun _ ↦ hother, by simp⟩⟩⟩
  have hlist : (singleSite threeNames).tree.list "m" = .ok threeNames := rfl
  obtain ⟨set, files, outcome, hall, hrun, hmany, hambiguous, hdivides⟩ :=
    parseDir_divides ⟨0⟩ "x/m" hlist (by decide) (by decide) hnative []
  have hsources : threeNames.filter Site.isSource = threeNames :=
    List.filter_eq_self.2 (List.all_eq_true.1 (by decide +kernel))
  have hfiles : files.map (fun file ↦ (file.file.packageName.name, file.isBuildable)) =
      [("a", true), ("a_test", true), ("b", false)] := by
    rw [hsources] at hall
    rcases hall with _ | ⟨hfirst, _ | ⟨hsecond, _ | ⟨hthird, _ | _⟩⟩⟩
    simp only [List.map_cons, hmainFile _ hfirst, htestFile _ hsecond, hotherFile _ hthird]
    rfl
  have hmarks : ∀ file ∈ files, (file.file.packageName.name, file.isBuildable) ∈
      [("a", true), ("a_test", true), ("b", false)] := fun file hfile ↦
    hfiles ▸ List.mem_map_of_mem hfile
  have htests : ∀ name, Declares files name → IsTest name → name = "a_test" := by
    rintro name ⟨file, hfile, rfl⟩ htest
    have hpairs : ∀ pair ∈ [("a", true), ("a_test", true), ("b", false)],
        pair.1.endsWith "_test" = true → pair.1 = "a_test" := by decide +kernel
    exact hpairs _ (hmarks file hfile) htest
  have hbuilds : ∀ name, ¬IsTest name → Builds files name → name = "a" := by
    rintro name htest ⟨file, hfile, rfl, hmark⟩
    have hpairs : ∀ pair ∈ [("a", true), ("a_test", true), ("b", false)],
        ¬pair.1.endsWith "_test" = true → pair.2 = true → pair.1 = "a" := by decide +kernel
    exact hpairs _ (hmarks file hfile) htest hmark
  have hnotMany : ¬ManyTests files := by
    rintro ⟨first, second, hne, hfirst, hsecond⟩
    exact hne ((htests first hfirst.1 hfirst.2).trans (htests second hsecond.1 hsecond.2).symm)
  have hnotAmbiguous : ¬Ambiguous files := by
    rintro ⟨first, second, hne, hfirst, hsecond⟩
    exact hne ((hbuilds first hfirst.1 hfirst.2).trans (hbuilds second hsecond.1 hsecond.2).symm)
  obtain ⟨raws, rfl, hdiv⟩ := hdivides hnotMany hnotAmbiguous
  exact ⟨set, files, raws, hfiles, hrun, hdiv⟩

end Division

end PackageAtlas
