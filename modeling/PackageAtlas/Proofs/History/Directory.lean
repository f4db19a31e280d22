import Mathlib.Data.List.Forall2
import PackageAtlas.Load.Directory
import PackageAtlas.Proofs.History.Walks
import PackageAtlas.Proofs.Relocation.File

/-!
The packages of a directory are the same whenever it is parsed. Its files are registered in a space
of their own, under names that start with the path of the directory as it is written; neither the
space, nor the way the path is written, nor the requests that a tool got before decide which
packages there are.
-/

set_option autoImplicit false
set_option relaxedAutoImplicit false

namespace PackageAtlas

/-! ### Steps that end alike -/

section Alike

variable {α β γ δ : Type} {same : Prop} {R : α → β → Prop} {S : γ → δ → Prop}

/-- Two results are related, or two errors that are the same one under a condition. -/
inductive Alike (same : Prop) (R : α → β → Prop) :
    Except LoadError α → Except LoadError β → Prop where
  | ok {a : α} {b : β} (h : R a b) : Alike same R (.ok a) (.ok b)
  | error {first second : LoadError} (h : same → second = first) :
      Alike same R (.error first) (.error second)

theorem Alike.bind {x : Except LoadError α} {y : Except LoadError β}
    {f : α → Except LoadError γ} {g : β → Except LoadError δ} (h : Alike same R x y)
    (hk : ∀ a b, R a b → Alike same S (f a) (g b)) : Alike same S (x >>= f) (y >>= g) := by
  cases h with
  | ok h => exact hk _ _ h
  | error h => exact .error h

theorem Alike.weaken {other : Prop} {x : Except LoadError α} {y : Except LoadError β}
    (h : Alike same R x y) (hsame : other → same) : Alike other R x y := by
  cases h with
  | ok h => exact .ok h
  | error h => exact .error fun hother ↦ h (hsame hother)

/-- The same for steps that may ask a tool, whatever it was asked before. -/
def AlikeSteps (same : Prop) (R : α → β → Prop) (p : Prepare α) (q : Prepare β) : Prop :=
  ∀ requests others, Alike same R (p.run.run requests).1 (q.run.run others).1

theorem AlikeSteps.pure {a : α} {b : β} (h : R a b) :
    AlikeSteps same R (Pure.pure a) (Pure.pure b) := fun _ _ ↦ .ok h

theorem AlikeSteps.throw {first second : LoadError} (h : same → second = first) :
    AlikeSteps same R (throw first) (throw second) := fun _ _ ↦ .error h

theorem AlikeSteps.lift {x : Except LoadError α} {y : Except LoadError β} (h : Alike same R x y) :
    AlikeSteps same R (liftM x) (liftM y) := by
  intro requests others
  cases h with
  | ok h => exact .ok h
  | error h => exact .error h

theorem AlikeSteps.bind {p : Prepare α} {q : Prepare β} {f : α → Prepare γ} {g : β → Prepare δ}
    (h : AlikeSteps same R p q) (hk : ∀ a b, R a b → AlikeSteps same S (f a) (g b)) :
    AlikeSteps same S (p >>= f) (q >>= g) := by
  intro requests others
  have hfirst := h requests others
  have hp : ((p >>= f).run.run requests).1 = match p.run.run requests with
      | (.ok a, later) => ((f a).run.run later).1
      | (.error error, _) => .error error := by
    rw [ExceptT.run_bind, StateT.run_bind]
    rcases p.run.run requests with ⟨⟨⟩, later⟩ <;> rfl
  have hq : ((q >>= g).run.run others).1 = match q.run.run others with
      | (.ok b, later) => ((g b).run.run later).1
      | (.error error, _) => .error error := by
    rw [ExceptT.run_bind, StateT.run_bind]
    rcases q.run.run others with ⟨⟨⟩, later⟩ <;> rfl
  rw [hp, hq]
  revert hfirst
  rcases p.run.run requests with ⟨x, later⟩
  rcases q.run.run others with ⟨y, more⟩
  intro hfirst
  cases hfirst with
  | ok h => exact hk _ _ h later more
  | error h => exact .error h

end Alike

/-! ### Files -/

/-- The part of a joined path after the last slash does not depend on the directory. -/
theorem baseName_join {base : String} (hne : base ≠ "") (path : String) :
    baseName (Path.join base path) = baseName path := by
  by_cases hpath : Path.IsRelative path
  · obtain ⟨start, hjoin, -⟩ := Path.toList_join hpath hne
    unfold baseName
    rw [hjoin, List.reverse_append, List.reverse_cons, List.append_assoc, List.takeWhile_append]
    split
    · next hall =>
      rw [List.singleton_append, List.takeWhile_cons_of_neg (by decide), List.append_nil,
        (List.takeWhile_prefix _).eq_of_length hall]
    · rfl
  · rw [Path.join_of_not_isRelative hpath]

namespace ParsedFile

/-- Two parsed files by which a directory is divided alike. -/
structure Twin (file other : ParsedFile) : Prop where
  isBuildable : other.isBuildable = file.isBuildable
  packageName : other.file.packageName.name = file.file.packageName.name
  importsForeign : other.file.importsForeign = file.file.importsForeign
  baseName : other.file.baseName = file.file.baseName

end ParsedFile

/-- A file keeps the name that it was registered under, and so does an error. -/
theorem FileSet.result_parseFile (set : FileSet) (name text : String) :
    Relocation.result ⟨set.space, name, 0⟩ (set.parseFile name text).2 =
      (set.parseFile name text).2 :=
  (FileSet.parseFile_snd 0 rfl name name text).symm

namespace Site

/-- A file that was parsed in two spaces that go on at the same position. -/
structure TwinFile (first second : FileSet × SourceFile) : Prop where
  nextBase : second.1.nextBase = first.1.nextBase
  packageName : second.2.packageName.name = first.2.packageName.name
  importsForeign : second.2.importsForeign = first.2.importsForeign
  baseName : second.2.baseName = first.2.baseName

/-- Files that were parsed in two such spaces. -/
structure TwinFiles (first second : FileSet × List ParsedFile) : Prop where
  nextBase : second.1.nextBase = first.1.nextBase
  files : List.Forall₂ ParsedFile.Twin first.2 second.2

theorem alike_parseText {set other : FileSet} (hbase : other.nextBase = set.nextBase)
    {name rename : String} (hname : baseName rename = baseName name) (text : String) :
    Alike (name = rename) TwinFile (parseText set name text) (parseText other rename text) := by
  have hself := set.result_parseFile name text
  have hother := FileSet.parseFile_snd 0 hbase name rename text
  have hnext := FileSet.nextBase_add hbase name rename text
  have hfirst : set.parseFile name text = (set.add name text, (set.parseFile name text).2) := rfl
  have hsecond : other.parseFile rename text =
      (other.add rename text, (other.parseFile rename text).2) := rfl
  unfold parseText
  rw [hfirst, hsecond, hother]
  cases hparse : (set.parseFile name text).2 with
  | error error =>
    rw [hparse] at hself
    injection hself with hself
    refine .error fun hsame ↦ ?_
    rw [← hself, hsame]
    rfl
  | ok file =>
    rw [hparse] at hself
    injection hself with hself
    refine .ok ⟨hnext, rfl, Relocation.importsForeign_file _ file, ?_⟩
    change baseName rename = baseName file.name
    rw [hname, ← hself]
    rfl

theorem alike_parseFiles (site : Site) {dir other : String}
    (hsame : Path.parts dir = Path.parts other) (hdir : dir ≠ "") (hother : other ≠ "")
    (names : List String) {set copy : FileSet} (hbase : copy.nextBase = set.nextBase) :
    Alike (dir = other) TwinFiles (site.parseFiles set (names.map (Path.join dir)))
      (site.parseFiles copy (names.map (Path.join other))) := by
  induction names generalizing set copy with
  | nil => exact .ok ⟨hbase, .nil⟩
  | cons name rest ih =>
    have hparts := Path.parts_join_congr hsame hdir hother name
    have hread : site.tree.read (Path.join other name) = site.tree.read (Path.join dir name) := by
      unfold FileTree.read
      rw [site.tree.node?_congr hparts (Path.join_ne_empty (Or.inl hdir))
        (Path.join_ne_empty (Or.inl hother))]
    rw [List.map_cons, List.map_cons, parseFiles, parseFiles, hread]
    cases site.tree.read (Path.join dir name) with
    | error reason => exact .error fun heq ↦ by rw [heq]
    | ok text =>
      have hname : baseName (Path.join other name) = baseName (Path.join dir name) := by
        rw [baseName_join hother, baseName_join hdir]
      refine ((alike_parseText hbase hname text).weaken fun heq ↦ by rw [heq]).bind ?_
      rintro ⟨set, file⟩ ⟨copy, moved⟩ htwin
      refine (ih htwin.nextBase).bind ?_
      rintro ⟨set, files⟩ ⟨copy, others⟩ hfiles
      have hbuilds : site.builds moved text = site.builds file text := by
        unfold builds
        rw [htwin.baseName, htwin.importsForeign]
      exact .ok ⟨hfiles.nextBase, .cons
        ⟨hbuilds, htwin.packageName, htwin.importsForeign, htwin.baseName⟩ hfiles.files⟩

/-! ### Groups -/

/-- Two groups of one name with files that are twins. -/
structure TwinGroup (group other : PackageGroup) : Prop where
  name : other.name = group.name
  files : List.Forall₂ ParsedFile.Twin group.files other.files

variable {group copy : PackageGroup} {groups copies : List PackageGroup}
  {files others : List ParsedFile}

theorem forall₂_filter {α β : Type} {R : α → β → Prop} {p : α → Bool} {q : β → Bool}
    {list : List α} {other : List β} (hpq : ∀ a b, R a b → q b = p a) (h : List.Forall₂ R list other) :
    List.Forall₂ R (list.filter p) (other.filter q) := by
  refine List.rel_filter (fun a b hab ↦ ?_) h
  change p a = true ↔ q b = true
  rw [hpq a b hab]

theorem twinGroups_ofFiles (h : List.Forall₂ ParsedFile.Twin files others) :
    List.Forall₂ TwinGroup (PackageGroup.ofFiles files) (PackageGroup.ofFiles others) := by
  have hnames : others.map (·.file.packageName.name) = files.map (·.file.packageName.name) := by
    induction h with
    | nil => rfl
    | cons htwin _ ih => rw [List.map_cons, List.map_cons, ih, htwin.packageName]
  unfold PackageGroup.ofFiles
  rw [hnames]
  refine List.forall₂_map_left_iff.mpr (List.forall₂_map_right_iff.mpr ?_)
  refine List.forall₂_same.mpr fun name _ ↦ ⟨rfl, ?_⟩
  exact forall₂_filter (fun file other htwin ↦ by rw [htwin.packageName]) h

theorem TwinGroup.isTest (h : TwinGroup group copy) : copy.isTest = group.isTest := by
  unfold PackageGroup.isTest
  rw [h.name]

theorem TwinGroup.isBuildable (h : TwinGroup group copy) :
    copy.isBuildable = group.isBuildable := by
  have hany : ∀ files others : List ParsedFile, List.Forall₂ ParsedFile.Twin files others →
      others.any (·.isBuildable) = files.any (·.isBuildable) := by
    intro files others hfiles
    induction hfiles with
    | nil => rfl
    | cons htwin _ ih => rw [List.any_cons, List.any_cons, ih, htwin.isBuildable]
  exact hany _ _ h.files

/-- Two groups that are twins, in the same part. -/
def TwinVariant (first second : PackageGroup × Variant) : Prop :=
  TwinGroup first.1 second.1 ∧ second.2 = first.2

theorem twinVariants_map (mark : PackageGroup → Variant)
    (hmark : ∀ {group copy}, TwinGroup group copy → mark copy = mark group)
    (h : List.Forall₂ TwinGroup groups copies) :
    List.Forall₂ TwinVariant (groups.map fun group ↦ (group, mark group))
      (copies.map fun group ↦ (group, mark group)) :=
  List.forall₂_map_left_iff.mpr (List.forall₂_map_right_iff.mpr (h.imp fun _ _ hgroup ↦
    ⟨hgroup, hmark hgroup⟩))

theorem alike_withVariants {dir other : String} (h : List.Forall₂ TwinGroup groups copies) :
    Alike (dir = other) (List.Forall₂ TwinVariant) (PackageGroup.withVariants dir groups)
      (PackageGroup.withVariants other copies) := by
  have htests := forall₂_filter (p := PackageGroup.isTest) (q := PackageGroup.isTest)
    (fun _ _ hgroup ↦ hgroup.isTest) h
  have hothers := forall₂_filter (p := (!PackageGroup.isTest ·)) (q := (!PackageGroup.isTest ·))
    (fun _ _ hgroup ↦ by rw [hgroup.isTest]) h
  have hcandidates := forall₂_filter (p := PackageGroup.isBuildable)
    (q := PackageGroup.isBuildable) (fun _ _ hgroup ↦ hgroup.isBuildable) hothers
  have hexcluded := forall₂_filter (p := (!PackageGroup.isBuildable ·))
    (q := (!PackageGroup.isBuildable ·)) (fun _ _ hgroup ↦ by rw [hgroup.isBuildable]) hothers
  have htest := twinVariants_map (fun _ ↦ .externalTest) (fun _ ↦ rfl) htests
  have hnoBuild := twinVariants_map (fun group ↦ .noBuild group.name)
    (fun hgroup ↦ by rw [hgroup.name]) hexcluded
  unfold PackageGroup.withVariants
  dsimp only
  generalize groups.filter PackageGroup.isTest = tests at htests htest ⊢
  generalize copies.filter PackageGroup.isTest = tests' at htests htest ⊢
  generalize (groups.filter (!PackageGroup.isTest ·)).filter PackageGroup.isBuildable = candidates
    at hcandidates ⊢
  generalize (copies.filter (!PackageGroup.isTest ·)).filter PackageGroup.isBuildable = candidates'
    at hcandidates ⊢
  generalize (groups.filter (!PackageGroup.isTest ·)).filter (!PackageGroup.isBuildable ·) =
    excluded at hexcluded hnoBuild ⊢
  generalize (copies.filter (!PackageGroup.isTest ·)).filter (!PackageGroup.isBuildable ·) =
    excluded' at hexcluded hnoBuild ⊢
  rcases htests with _ | ⟨hone, _ | ⟨htwo, -⟩⟩
  case cons.cons => exact .error fun hsame ↦ by rw [hsame]
  all_goals
    rcases hcandidates with _ | ⟨hfirst, _ | ⟨hsecond, -⟩⟩
    · rcases hexcluded with _ | ⟨hsingle, _ | ⟨hmore, -⟩⟩
      · exact .ok (List.rel_append htest hnoBuild)
      · exact .ok (.cons ⟨hsingle, rfl⟩ htest)
      · exact .ok (List.rel_append htest hnoBuild)
    · exact .ok (.cons ⟨hfirst, rfl⟩ (List.rel_append htest hnoBuild))
    · exact .error fun hsame ↦ by rw [hsame, hfirst.name, hsecond.name]

/-! ### Foreign code -/

theorem twins_substitute (name : String) {made copyMade : ParsedFile}
    (hmade : made.Twin copyMade) (h : List.Forall₂ ParsedFile.Twin files others) :
    List.Forall₂ ParsedFile.Twin (substitute name made files) (substitute name copyMade others) := by
  induction h with
  | nil => exact .cons hmade .nil
  | cons htwin hrest ih =>
    rw [substitute, substitute, htwin.baseName]
    split
    · exact .cons hmade hrest
    · exact .cons htwin ih

theorem foreignFiles_of_twins (h : List.Forall₂ ParsedFile.Twin files others) :
    foreignFiles others = foreignFiles files := by
  have hforeign := forall₂_filter (p := fun file ↦ file.isBuildable && file.file.importsForeign)
    (q := fun file ↦ file.isBuildable && file.file.importsForeign)
    (fun _ _ htwin ↦ by rw [htwin.isBuildable, htwin.importsForeign]) h
  unfold foreignFiles
  generalize files.filter _ = foreign at hforeign
  generalize others.filter _ = copies at hforeign
  induction hforeign with
  | nil => rfl
  | cons htwin _ ih => rw [List.map_cons, List.map_cons, htwin.baseName, ih]

theorem alike_substituteAll {dir other : String} (hdir : dir ≠ "") (hother : other ≠ "")
    (outputs : List PreprocessedFile) {set copy : FileSet} (hbase : copy.nextBase = set.nextBase)
    (h : List.Forall₂ ParsedFile.Twin files others) :
    Alike (dir = other) TwinFiles (substituteAll dir set files outputs)
      (substituteAll other copy others outputs) := by
  induction outputs generalizing set copy files others with
  | nil => exact .ok ⟨hbase, h⟩
  | cons output outputs ih =>
    have hname : baseName (Path.join other output.displayName) =
        baseName (Path.join dir output.displayName) := by
      rw [baseName_join hother, baseName_join hdir]
    refine ((alike_parseText hbase hname output.contents).weaken fun heq ↦ by rw [heq]).bind ?_
    rintro ⟨set, file⟩ ⟨copy, moved⟩ htwin
    exact ih htwin.nextBase (twins_substitute _
      ⟨rfl, htwin.packageName, htwin.importsForeign, htwin.baseName⟩ h)

section Packages

variable {site : Site} {dir other : String} (hsame : Path.parts dir = Path.parts other)
  (hdir : dir ≠ "") (hother : other ≠ "")
  (hrun : ∀ run, site.preprocessor = some run → ∀ identity names,
    run ⟨other, identity, names⟩ = run ⟨dir, identity, names⟩)
include hdir hother hrun

theorem alike_preprocess (identity : String) {set copy : FileSet}
    (hbase : copy.nextBase = set.nextBase) (h : List.Forall₂ ParsedFile.Twin files others) :
    AlikeSteps (dir = other) TwinFiles (site.preprocess dir identity set files)
      (site.preprocess other identity copy others) := by
  unfold preprocess
  rw [foreignFiles_of_twins h]
  split
  · exact .pure ⟨hbase, h⟩
  · cases hsite : site.preprocessor with
    | none => exact .throw fun _ ↦ rfl
    | some run =>
      refine AlikeSteps.bind (R := fun _ _ ↦ True) (fun _ _ ↦ .ok trivial) fun _ _ _ ↦ ?_
      rw [hrun run hsite]
      split
      · exact .throw fun _ ↦ rfl
      · exact .lift (alike_substituteAll hdir hother _ hbase h)

theorem alike_packages (base : String) {list copies : List (PackageGroup × Variant)}
    (h : List.Forall₂ TwinVariant list copies) {set copy : FileSet}
    (hbase : copy.nextBase = set.nextBase) :
    AlikeSteps (dir = other) (fun first second ↦
        second.2.map (·.identity) = first.2.map (·.identity) ∧
          ∀ identity ∈ first.2.map (·.identity), ∃ variant, identity = Variant.identity base variant)
      (site.packages dir base set list) (site.packages other base copy copies) := by
  induction h generalizing set copy with
  | nil => exact .pure ⟨rfl, fun identity hin ↦ (by cases hin)⟩
  | cons hvariant hrest ih =>
    obtain ⟨hgroup, heq⟩ := hvariant
    unfold packages
    dsimp only
    rw [heq]
    refine (alike_preprocess hdir hother hrun _ hbase hgroup.files).bind ?_
    rintro ⟨set, files⟩ ⟨copy, others⟩ hfiles
    refine (ih hfiles.nextBase).bind ?_
    rintro ⟨set, raws⟩ ⟨copy, more⟩ ⟨hraws, hidentity⟩
    refine .pure ⟨congrArg (_ :: ·) hraws, fun identity hin ↦ ?_⟩
    rcases List.mem_cons.mp hin with rfl | hlater
    · exact ⟨_, rfl⟩
    · exact hidentity identity hlater

include hsame

theorem alike_parseDir (base : String) (space copySpace : SpaceId) :
    AlikeSteps (dir = other) (fun first second ↦
        second.2.map (·.identity) = first.2.map (·.identity) ∧
          ∀ identity ∈ first.2.map (·.identity), ∃ variant, identity = Variant.identity base variant)
      (site.parseDir space dir base) (site.parseDir copySpace other base) := by
  have hlist : site.tree.list other = site.tree.list dir := by
    unfold FileTree.list
    rw [site.tree.node?_congr hsame hdir hother]
  unfold parseDir
  rw [hlist]
  refine AlikeSteps.bind (R := Eq) (.lift ?_) ?_
  · cases site.tree.list dir with
    | error reason => exact .error fun heq ↦ by rw [heq]
    | ok items => exact .ok rfl
  · rintro items _ rfl
    dsimp only
    have hpaths : ∀ start, ((items.filter isSource).map fun item ↦ Path.join start item.name) =
        ((items.filter isSource).map (·.name)).map (Path.join start) := by
      intro start
      rw [List.map_map]
      rfl
    rw [hpaths, hpaths]
    have hbase : (FileSet.empty copySpace).nextBase = (FileSet.empty space).nextBase := rfl
    refine (AlikeSteps.lift (site.alike_parseFiles hsame hdir hother _ hbase)).bind ?_
    rintro ⟨set, files⟩ ⟨copy, others⟩ hfiles
    refine (AlikeSteps.lift (alike_withVariants (twinGroups_ofFiles hfiles.files))).bind ?_
    intro list copies hlist
    exact alike_packages hdir hother hrun base hlist hfiles.nextBase

end Packages

/-! ### Outcomes -/

/-- The identities of the packages of a directory. -/
def outcome (site : Site) (dir base : String) : Except LoadError (List String) :=
  ((site.parseDir ⟨0⟩ dir base).run.run []).1.map fun (_, raws) ↦ raws.map (·.identity)

/-- A directory has the same packages wherever its files are registered. -/
theorem map_parseDir (site : Site) {dir : String} (hdir : dir ≠ "") (base : String)
    (space : SpaceId) (requests : List PreprocessRequest) :
    ((site.parseDir space dir base).run.run requests).1.map
        (fun (_, raws) ↦ raws.map (·.identity)) = site.outcome dir base := by
  have hrun : ∀ run, site.preprocessor = some run → ∀ identity names,
      run ⟨dir, identity, names⟩ = run ⟨dir, identity, names⟩ := fun _ _ _ _ ↦ rfl
  have h := alike_parseDir rfl hdir hdir hrun base ⟨0⟩ space [] requests
  unfold outcome
  revert h
  generalize ((site.parseDir space dir base).run.run requests).1 = result
  generalize ((site.parseDir ⟨0⟩ dir base).run.run []).1 = expected
  intro h
  cases h with
  | ok h => exact congrArg Except.ok h.1
  | error h => exact congrArg Except.error (h rfl)

/-- The tool for foreign code gives the same answer about a directory however its path is written. -/
def PreprocessesPaths (site : Site) : Prop :=
  ∀ run, site.preprocessor = some run → ∀ dir other, Path.parts dir = Path.parts other →
    ∀ identity names, run ⟨other, identity, names⟩ = run ⟨dir, identity, names⟩

/-- A directory has the same packages however its path is written. -/
theorem outcome_congr {site : Site} (hrun : site.PreprocessesPaths) {dir other base : String}
    (hsame : Path.parts dir = Path.parts other) (hdir : dir ≠ "") (hother : other ≠ "")
    {ids : List String} (h : site.outcome dir base = .ok ids) :
    site.outcome other base = .ok ids := by
  have halike := alike_parseDir hsame hdir hother
    (fun run hsite identity names ↦ hrun run hsite dir other hsame identity names) base ⟨0⟩ ⟨0⟩
    [] []
  unfold outcome at h ⊢
  revert halike h
  generalize ((site.parseDir ⟨0⟩ dir base).run.run []).1 = first
  generalize ((site.parseDir ⟨0⟩ other base).run.run []).1 = second
  intro h halike
  cases halike with
  | ok hids =>
    cases h
    exact congrArg Except.ok hids.1
  | error => cases h

/-- The packages of a directory are named by its path. -/
theorem exists_variant_of_outcome {site : Site} {dir base : String} (hdir : dir ≠ "")
    {ids : List String} (h : site.outcome dir base = .ok ids) :
    ∀ identity ∈ ids, ∃ variant, identity = Variant.identity base variant := by
  have hrun : ∀ run, site.preprocessor = some run → ∀ identity names,
      run ⟨dir, identity, names⟩ = run ⟨dir, identity, names⟩ := fun _ _ _ _ ↦ rfl
  have halike := alike_parseDir rfl hdir hdir hrun base ⟨0⟩ ⟨0⟩ [] []
  unfold outcome at h
  revert halike h
  generalize ((site.parseDir ⟨0⟩ dir base).run.run []).1 = result
  intro h halike
  cases halike with
  | ok hids =>
    cases h
    exact hids.2
  | error => cases h

end Site

end PackageAtlas
