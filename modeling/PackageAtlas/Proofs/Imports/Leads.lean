import PackageAtlas.Load.Importer
import PackageAtlas.Proofs.History.Directory

/-!
Where imports lead. What the package of a directory imports depends neither on the space that its
files are registered in nor on the way the path of the directory is written, and no more do the
directories that its imports are found in. So imports lead from the parts of one path to the parts
of another (`Site.LeadsTo`).
-/

set_option autoImplicit false
set_option relaxedAutoImplicit false

namespace PackageAtlas

/-! ### Files in another space -/

/-- What a file says before its declarations: the package that it belongs to, and its imports. -/
def SourceFile.heading (file : SourceFile) : String × List String :=
  (file.packageName.name, file.importPaths)

theorem Relocation.heading_file (move : Relocation) (file : SourceFile) :
    (move.file file).heading = file.heading := by
  unfold SourceFile.heading
  rw [importPaths_file]
  rfl

theorem FileSet.parseFile_moved {set other : FileSet} (hbase : other.nextBase = set.nextBase)
    {name rename text : String} {file : SourceFile} (h : (set.parseFile name text).2 = .ok file) :
    file.name = name ∧
      (other.parseFile rename text).2 = .ok (Relocation.file ⟨other.space, rename, 0⟩ file) := by
  have hself := set.result_parseFile name text
  have hother := FileSet.parseFile_snd 0 hbase name rename text
  rw [h] at hself hother
  refine ⟨?_, hother⟩
  rw [← Except.ok.inj hself]
  rfl

namespace Importing

variable {site : Site} {dir other : String}

theorem bind_eq_ok_iff {α β : Type} {x : Except String α} {f : α → Except String β} {b : β} :
    x >>= f = .ok b ↔ ∃ a, x = .ok a ∧ f a = .ok b := by
  cases x with
  | error error =>
    refine ⟨fun h ↦ (by cases h), ?_⟩
    rintro ⟨a, h, -⟩
    cases h
  | ok a =>
    refine ⟨fun h ↦ ⟨a, rfl, h⟩, ?_⟩
    rintro ⟨other, h, hb⟩
    cases h
    exact hb

theorem mapError_eq_ok_iff {α : Type} {x : Except ReadError α} {a : α} :
    x.mapError ReadError.message = .ok a ↔ x = .ok a := by
  cases x with
  | error reason => exact ⟨fun h ↦ (by cases h), fun h ↦ (by cases h)⟩
  | ok b => exact ⟨fun h ↦ (by cases h; rfl), fun h ↦ (by cases h; rfl)⟩

/-- What it takes to parse files: each is read and parsed, and those of the build are kept. -/
theorem parseFiles_cons_iff {set last : FileSet} {path : String} {paths : List String}
    {files : List SourceFile} :
    parseFiles site set (path :: paths) = .ok (last, files) ↔
      ∃ text file rest, site.tree.read path = .ok text ∧ (set.parseFile path text).2 = .ok file ∧
        parseFiles site (set.add path text) paths = .ok (last, rest) ∧
        files = if site.builds file text then file :: rest else rest := by
  simp only [parseFiles, bind_eq_ok_iff, mapError_eq_ok_iff]
  refine exists_congr fun text ↦ ?_
  have hpair : set.parseFile path text = (set.add path text, (set.parseFile path text).2) := rfl
  rw [hpair]
  cases (set.parseFile path text).2 with
  | error error =>
    refine ⟨fun ⟨_, h⟩ ↦ (by cases h), ?_⟩
    rintro ⟨_, _, _, hfile, -⟩
    cases hfile
  | ok file =>
    simp only [bind_eq_ok_iff]
    constructor
    · rintro ⟨htext, ⟨_, rest⟩, hrest, hfiles⟩
      cases hfiles
      exact ⟨file, rest, htext, rfl, hrest, rfl⟩
    · rintro ⟨_, rest, htext, hfile, hrest, rfl⟩
      cases hfile
      exact ⟨htext, (last, rest), hrest, rfl⟩

/-- Files that parse in one space parse in any other that goes on at the same position. -/
theorem parseFiles_moved (hsame : Path.parts dir = Path.parts other) (hdir : dir ≠ "")
    (hother : other ≠ "") (names : List String) {set copy last : FileSet} {files : List SourceFile}
    (hbase : copy.nextBase = set.nextBase)
    (h : parseFiles site set (names.map (Path.join dir)) = .ok (last, files)) :
    ∃ last' files', parseFiles site copy (names.map (Path.join other)) = .ok (last', files') ∧
      files'.map SourceFile.heading = files.map SourceFile.heading := by
  induction names generalizing set copy last files with
  | nil =>
    cases h
    exact ⟨copy, [], rfl, rfl⟩
  | cons name names ih =>
    obtain ⟨text, file, rest, hread, hparse, hrest, rfl⟩ := parseFiles_cons_iff.mp h
    have hparts := Path.parts_join_congr hsame hdir hother name
    have hread' : site.tree.read (Path.join other name) = .ok text := by
      rw [← hread]
      unfold FileTree.read
      rw [site.tree.node?_congr hparts (Path.join_ne_empty (Or.inl hdir))
        (Path.join_ne_empty (Or.inl hother))]
    obtain ⟨hname, hmoved⟩ := FileSet.parseFile_moved hbase hparse
    obtain ⟨last', rest', hrest', hheadings⟩ := ih (FileSet.nextBase_add hbase _ _ text) hrest
    refine ⟨last', _, parseFiles_cons_iff.mpr ⟨text, _, rest', hread', hmoved, hrest', rfl⟩, ?_⟩
    have hbuilds :
        site.builds (Relocation.file ⟨copy.space, Path.join other name, 0⟩ file) text =
          site.builds file text := by
      have hbase : baseName (Path.join other name) = baseName file.name := by
        rw [hname, baseName_join hother, baseName_join hdir]
      unfold Site.builds
      rw [Relocation.importsForeign_file]
      exact congrArg (site.config.build.matchesFile · text _) hbase
    rw [hbuilds]
    split
    · rw [List.map_cons, List.map_cons, Relocation.heading_file, hheadings]
    · exact hheadings

/-- Files that make a package: there are some, and all of them name the same package. -/
def ArePackage (headings : List (String × List String)) : Prop :=
  headings ≠ [] ∧ ∀ first ∈ headings, ∀ second ∈ headings, first.1 = second.1

theorem arePackage_cons_iff {first : SourceFile} {rest : List SourceFile} :
    ArePackage ((first :: rest).map SourceFile.heading) ↔
      (first :: rest).find? (·.packageName.name != first.packageName.name) = none := by
  simp only [List.find?_eq_none, bne_iff_ne, ne_eq, Decidable.not_not]
  constructor
  · exact fun h file hfile ↦ h.2 _ (List.mem_map_of_mem hfile) _ List.mem_cons_self
  · refine fun h ↦ ⟨List.cons_ne_nil _ _, fun a ha b hb ↦ ?_⟩
    obtain ⟨file, hfile, rfl⟩ := List.mem_map.mp ha
    obtain ⟨other, hother, rfl⟩ := List.mem_map.mp hb
    exact (h file hfile).trans (h other hother).symm

/-- What it takes for a directory to have a package. -/
theorem packageFiles_eq_ok_iff {space : SpaceId} {set : FileSet} {files : List SourceFile} :
    packageFiles site space dir = .ok (set, files) ↔
      ∃ items, site.tree.list dir = .ok items ∧
        parseFiles site (FileSet.empty space)
          (((items.filter isImportable).map FileItem.name).map (Path.join dir)) = .ok (set, files) ∧
        ArePackage (files.map SourceFile.heading) := by
  simp only [packageFiles, bind_eq_ok_iff, mapError_eq_ok_iff]
  refine exists_congr fun items ↦ and_congr_right fun _ ↦ ?_
  rw [List.map_map]
  constructor
  · rintro ⟨⟨last, found⟩, hparse, hfound⟩
    cases found with
    | nil => cases hfound
    | cons first rest =>
      dsimp only at hfound
      split at hfound
      · cases hfound
      · rename_i hnone
        cases hfound
        exact ⟨hparse, arePackage_cons_iff.mpr hnone⟩
  · rintro ⟨hparse, hpackage⟩
    refine ⟨(set, files), hparse, ?_⟩
    cases files with
    | nil => exact absurd rfl hpackage.1
    | cons first rest =>
      dsimp only
      rw [arePackage_cons_iff.mp hpackage]
      rfl

theorem packageFiles_moved {space copy : SpaceId} {set : FileSet} {files : List SourceFile}
    (hsame : Path.parts dir = Path.parts other) (hdir : dir ≠ "") (hother : other ≠ "")
    (h : packageFiles site space dir = .ok (set, files)) :
    ∃ set' files', packageFiles site copy other = .ok (set', files') ∧
      files'.map SourceFile.heading = files.map SourceFile.heading := by
  obtain ⟨items, hlist, hparse, hpackage⟩ := packageFiles_eq_ok_iff.mp h
  have hbase : (FileSet.empty copy).nextBase = (FileSet.empty space).nextBase := rfl
  obtain ⟨set', files', hparse', hheadings⟩ := parseFiles_moved hsame hdir hother _ hbase hparse
  refine ⟨set', files', packageFiles_eq_ok_iff.mpr ⟨items, ?_, hparse', ?_⟩, hheadings⟩
  · rw [← hlist]
    unfold FileTree.list
    rw [site.tree.node?_congr hsame hdir hother]
  · rw [hheadings]
    exact hpackage

end Importing

namespace Site

variable {site : Site} {dir other : String}

/-- The paths that the package of a directory imports, but for the stand-in for foreign code. -/
def importPaths (site : Site) (dir : String) : List String :=
  match Importing.packageFiles site ⟨0⟩ dir with
  | .error _ => []
  | .ok (_, files) => (files.flatMap SourceFile.importPaths).filter (· ≠ foreignPath)

theorem importPaths_eq {space : SpaceId} {set : FileSet} {files : List SourceFile}
    (hsame : Path.parts dir = Path.parts other) (hdir : dir ≠ "") (hother : other ≠ "")
    (h : Importing.packageFiles site space dir = .ok (set, files)) :
    site.importPaths other =
      (files.flatMap SourceFile.importPaths).filter (· ≠ foreignPath) := by
  obtain ⟨set', files', hfiles', hheadings⟩ :
      ∃ set' files', Importing.packageFiles site ⟨0⟩ other = .ok (set', files') ∧
        files'.map SourceFile.heading = files.map SourceFile.heading :=
    Importing.packageFiles_moved hsame hdir hother h
  have hpaths (list : List SourceFile) : list.flatMap SourceFile.importPaths =
      (list.map SourceFile.heading).flatMap Prod.snd := by
    rw [List.flatMap_map]
    rfl
  rw [importPaths, hfiles']
  dsimp only
  rw [hpaths, hpaths, hheadings]

/-- Imports lead to the same directories however the path of the importing directory is written. -/
theorem locate?_moved {path target found : String} (hsame : Path.parts dir = Path.parts other)
    (hdir : dir ≠ "") (hother : other ≠ "")
    (h : site.locate? path (some dir) = some (target, found)) :
    ∃ target', site.locate? path (some other) = some (target', found) ∧
      Path.parts target' = Path.parts target := by
  unfold locate? at h ⊢
  split at h
  · rename_i hlocal
    rw [if_pos hlocal]
    have hjoin := Path.parts_join_congr hsame hdir hother path
    unfold findLocal? at h ⊢
    have htree : site.tree.isDir (Path.join other path) = site.tree.isDir (Path.join dir path) := by
      unfold FileTree.isDir
      rw [site.tree.node?_congr hjoin (Path.join_ne_empty (Or.inl hdir))
        (Path.join_ne_empty (Or.inl hother))]
    simp only [Option.getD_some] at h ⊢
    cases hfound : site.tree.isDir (Path.join dir path) with
    | false =>
      rw [hfound] at h
      cases h
    | true =>
      rw [hfound] at h htree
      cases h
      exact ⟨_, by rw [htree]; rfl, hjoin.symm⟩
  · rename_i hlocal
    rw [if_neg hlocal]
    have hcandidates : site.config.importCandidates path (some other) =
        site.config.importCandidates path (some dir) := by
      unfold LoadConfig.importCandidates LoadConfig.rootRelative? Path.below?
      simp only [Option.bind_some, hsame]
    rw [hcandidates]
    exact ⟨target, h, rfl⟩

theorem ne_empty_of_isDir {path : String} (h : site.tree.isDir path = true) : path ≠ "" := by
  rintro rfl
  cases h

theorem isDir_of_locate? {path target found : String} {importing : Option String}
    (h : site.locate? path importing = some (target, found)) : site.tree.isDir target = true := by
  unfold locate? at h
  split at h
  · unfold findLocal? at h
    split at h
    · cases h
      assumption
    · cases h
  · obtain ⟨candidate, -, hcandidate⟩ := List.exists_of_findSome?_eq_some h
    obtain ⟨dir, hdir, heq⟩ := Option.map_eq_some_iff.mp hcandidate
    cases heq
    exact List.find?_some hdir

/-- Some import of the package of a directory leads to another directory. Directories are told apart
by the parts of the paths that lead to them. -/
def LeadsTo (site : Site) (key next : List String) : Prop :=
  ∃ dir path target found, dir ≠ "" ∧ Path.parts dir = key ∧ path ∈ site.importPaths dir ∧
    site.locate? path (some dir) = some (target, found) ∧ Path.parts target = next

/-- Where a directory leads to is found by the imports of its files, wherever they were parsed. -/
theorem exists_of_leadsTo {space : SpaceId} {set : FileSet} {files : List SourceFile}
    (hdir : dir ≠ "") (hfiles : Importing.packageFiles site space dir = .ok (set, files))
    {next : List String} (h : site.LeadsTo (Path.parts dir) next) :
    ∃ path ∈ (files.flatMap SourceFile.importPaths).filter (· ≠ foreignPath), ∃ target found,
      site.locate? path (some dir) = some (target, found) ∧ Path.parts target = next := by
  obtain ⟨other, path, target, found, hother, hsame, hpath, hlocate, hnext⟩ := h
  obtain ⟨target', hlocate', htarget⟩ := locate?_moved hsame hother hdir hlocate
  rw [importPaths_eq hsame.symm hdir hother hfiles] at hpath
  exact ⟨path, hpath, target', found, hlocate', htarget.trans hnext⟩

end Site

end PackageAtlas
