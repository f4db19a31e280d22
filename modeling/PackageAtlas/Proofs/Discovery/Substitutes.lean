import PackageAtlas.Proofs.Discovery.Division

/-!
Substitutes for files with foreign code. A tool is asked about the files of a package that have such
code, and each file that it makes takes the place of the file of its name or comes to the package.
As long as names tell the files of the package apart they still do so afterwards, and the package is
made of the last file of each name that the tool made and of those that it did not name
(`Substitution.packages_takeSubstitutes`). A name ends at its last slash or backslash, so two files
of a directory may share one; then a substitute stands beside the file that it was made for
(`Substitution.backslash_shares_name`).
-/

set_option autoImplicit false
set_option relaxedAutoImplicit false

namespace PackageAtlas

/-! ### Names -/

/-- A name that stands for itself at the end of a path. -/
def IsBaseName (name : String) : Prop := '/' ∉ name.toList ∧ '\\' ∉ name.toList

theorem IsBaseName.baseName_eq {name : String} (h : IsBaseName name) : baseName name = name := by
  have hall : ∀ c ∈ name.toList.reverse, (c != '/' && c != '\\') = true := by
    intro c hc
    have hname := List.mem_reverse.1 hc
    rw [Bool.and_eq_true, bne_iff_ne, bne_iff_ne]
    exact ⟨fun heq ↦ h.1 (heq ▸ hname), fun heq ↦ h.2 (heq ▸ hname)⟩
  rw [baseName, List.takeWhile_eq_self_iff.2 hall, List.reverse_reverse, String.ofList_toList]

theorem IsBaseName.baseName_join {name : String} (h : IsBaseName name) (dir : String) :
    baseName (Path.join dir name) = name := by
  rw [baseName_join_eq, h.baseName_eq]

namespace Substitution

open Division (pack exists_relocation ordered_pack isBuildable_pack)
open Site (substitute substituteAll foreignFiles parseText)

/-! ### One file -/

section Substitute

variable {name : String} {made : ParsedFile} (hmade : made.file.baseName = name)
  {files : List ParsedFile}
include hmade

theorem map_baseName_substitute : (substitute name made files).map (·.file.baseName) =
    if name ∈ files.map (·.file.baseName) then files.map (·.file.baseName)
    else files.map (·.file.baseName) ++ [name] := by
  induction files with
  | nil => simp [substitute, hmade]
  | cons file rest ih =>
    rw [substitute]
    by_cases hfile : file.file.baseName = name
    · simp [hfile, hmade]
    · rw [if_neg hfile, List.map_cons, ih]
      by_cases hrest : name ∈ rest.map (·.file.baseName)
      · simp only [List.map_cons, List.mem_cons, hrest, or_true, if_true]
      · simp only [List.map_cons, List.mem_cons, hrest, Ne.symm hfile, or_self, if_false,
          List.cons_append]

theorem nodup_substitute (h : (files.map (·.file.baseName)).Nodup) :
    ((substitute name made files).map (·.file.baseName)).Nodup := by
  rw [map_baseName_substitute hmade]
  split
  · exact h
  · next hname => exact List.nodup_append.2 ⟨h, List.nodup_singleton name,
      fun other hother _ hsame heq ↦ hname (List.mem_singleton.1 hsame ▸ heq ▸ hother)⟩

theorem mem_map_substitute_iff {other : String} :
    other ∈ (substitute name made files).map (·.file.baseName) ↔
      other ∈ files.map (·.file.baseName) ∨ other = name := by
  rw [map_baseName_substitute hmade]
  split
  · next hname => exact (or_iff_left_of_imp fun heq ↦ heq ▸ hname).symm
  · rw [List.mem_append, List.mem_singleton]

omit hmade in
theorem mem_substitute_self : made ∈ substitute name made files := by
  induction files with
  | nil => exact List.mem_cons_self
  | cons file rest ih =>
    rw [substitute]
    split
    · exact List.mem_cons_self
    · exact List.mem_cons_of_mem file ih

omit hmade in
/-- A file of another name stays. -/
theorem mem_substitute_of_ne {file : ParsedFile} (hfile : file ∈ files)
    (hne : file.file.baseName ≠ name) : file ∈ substitute name made files := by
  induction files with
  | nil => cases hfile
  | cons first rest ih =>
    rw [substitute]
    rcases List.mem_cons.1 hfile with rfl | hrest
    · rw [if_neg hne]
      exact List.mem_cons_self
    · split
      · exact List.mem_cons_of_mem made hrest
      · exact List.mem_cons_of_mem first (ih hrest)

end Substitute

/-! ### All files of a tool -/

/-- The text of a file that a tool made is one of a source file. -/
def Parses (output : PreprocessedFile) : Prop :=
  ∃ file, ((FileSet.empty ⟨0⟩).parseFile output.displayName output.contents).2 = .ok file

/-- A file that was parsed from what a tool made, under its name in a directory. -/
structure ReadFrom (dir : String) (output : PreprocessedFile) (file : SourceFile) : Prop where
  name : file.name = Path.join dir output.displayName
  parsed : ∃ set : FileSet,
    (set.parseFile (Path.join dir output.displayName) output.contents).2 = .ok file

theorem ReadFrom.baseName_eq {dir : String} {output : PreprocessedFile} {file : SourceFile}
    (h : ReadFrom dir output file) (hname : IsBaseName output.displayName) :
    file.baseName = output.displayName := by
  rw [SourceFile.baseName, h.name, hname.baseName_join]

/-- The last file of a name that a tool made. -/
def lastOf (outputs : List PreprocessedFile) (name : String) : Option PreprocessedFile :=
  (outputs.filter (·.displayName == name)).getLast?

theorem lastOf_cons (output : PreprocessedFile) (outputs : List PreprocessedFile) (name : String) :
    lastOf (output :: outputs) name =
      (lastOf outputs name).or (if output.displayName = name then some output else none) := by
  unfold lastOf
  by_cases hname : output.displayName = name
  · rw [List.filter_cons_of_pos (by simpa using hname), List.getLast?_cons, if_pos hname]
    cases (outputs.filter (·.displayName == name)).getLast? <;> rfl
  · rw [List.filter_cons_of_neg (by simpa using hname), if_neg hname, Option.or_none]

theorem lastOf_eq_none_iff {outputs : List PreprocessedFile} {name : String} :
    lastOf outputs name = none ↔ name ∉ outputs.map (·.displayName) := by
  simp [lastOf]

/-- Files some of which were replaced by what a tool made: the names are those of the files and of
what the tool made, each once; the last of each name is there and takes part in the build, and every
file that the tool did not name is as it was. -/
structure Takes (dir : String) (files : List ParsedFile) (outputs : List PreprocessedFile)
    (made : List ParsedFile) : Prop where
  distinct : (made.map (·.file.baseName)).Nodup
  names : ∀ name, name ∈ made.map (·.file.baseName) ↔
    name ∈ files.map (·.file.baseName) ∨ name ∈ outputs.map (·.displayName)
  last : ∀ name output, lastOf outputs name = some output →
    ∃ file ∈ made, ReadFrom dir output file.file ∧ file.isBuildable = true
  kept : ∀ file ∈ files, file.file.baseName ∉ outputs.map (·.displayName) → file ∈ made

theorem parseText_of_ok {set : FileSet} {name text : String} {file : SourceFile}
    (h : (set.parseFile name text).2 = .ok file) :
    parseText set name text = .ok (set.add name text, file) := by
  have hset : set.parseFile name text = (set.add name text, (set.parseFile name text).2) := rfl
  rw [parseText, hset, h]

theorem parseText_of_error {set : FileSet} {name text : String} {error : ParseError}
    (h : (set.parseFile name text).2 = .error error) :
    parseText set name text = .error (.parse error) := by
  have hset : set.parseFile name text = (set.add name text, (set.parseFile name text).2) := rfl
  rw [parseText, hset, h]

theorem parseText_of_parses (dir : String) {output : PreprocessedFile} (h : Parses output)
    (set : FileSet) :
    ∃ later file, parseText set (Path.join dir output.displayName) output.contents =
      .ok (later, file) ∧ ReadFrom dir output file := by
  obtain ⟨file, hparse⟩ := h
  obtain ⟨move, hname, hmoved⟩ := exists_relocation set (Path.join dir output.displayName)
    output.displayName output.contents
  rw [hparse] at hmoved
  exact ⟨_, move.file file, parseText_of_ok hmoved, hname, set, hmoved⟩

theorem parseText_of_not_parses (dir : String) {output : PreprocessedFile} (h : ¬Parses output)
    (set : FileSet) :
    ∃ error, parseText set (Path.join dir output.displayName) output.contents =
      .error (.parse error) := by
  obtain ⟨move, -, hmoved⟩ := exists_relocation set (Path.join dir output.displayName)
    output.displayName output.contents
  cases hparse : ((FileSet.empty ⟨0⟩).parseFile output.displayName output.contents).2 with
  | ok file => exact absurd ⟨file, hparse⟩ h
  | error error =>
    rw [hparse] at hmoved
    exact ⟨_, parseText_of_error hmoved⟩

/-- One more file of the tool, in front of the others. -/
theorem Takes.cons {dir : String} {files made : List ParsedFile} {output : PreprocessedFile}
    {outputs : List PreprocessedFile} {file : SourceFile} (hread : ReadFrom dir output file)
    (hname : IsBaseName output.displayName)
    (h : Takes dir (substitute output.displayName ⟨file, true⟩ files) outputs made) :
    Takes dir files (output :: outputs) made := by
  have hfile : (⟨file, true⟩ : ParsedFile).file.baseName = output.displayName :=
    hread.baseName_eq hname
  refine ⟨h.distinct, fun name ↦ ?_, fun name last hlast ↦ ?_, fun other hother hnamed ↦ ?_⟩
  · rw [h.names, mem_map_substitute_iff hfile, List.map_cons, List.mem_cons, or_assoc]
  · rw [lastOf_cons] at hlast
    rcases Option.or_eq_some_iff.1 hlast with hlater | ⟨hnone, hself⟩
    · exact h.last name last hlater
    · split at hself
      · next hsame =>
        obtain rfl := Option.some.inj hself
        refine ⟨⟨file, true⟩, h.kept _ mem_substitute_self ?_, hread, rfl⟩
        rw [hfile, hsame]
        exact lastOf_eq_none_iff.1 hnone
      · cases hself
  · rw [List.map_cons, List.mem_cons, not_or] at hnamed
    exact h.kept other (mem_substitute_of_ne hother hnamed.1) hnamed.2

/-- What becomes of the files of a package when all that the tool made can be parsed. -/
theorem exists_substituteAll (dir : String) {outputs : List PreprocessedFile}
    (houtputs : ∀ output ∈ outputs, IsBaseName output.displayName ∧ Parses output)
    {files : List ParsedFile} (hfiles : (files.map (·.file.baseName)).Nodup) (set : FileSet) :
    ∃ later made, substituteAll dir set files outputs = .ok (later, made) ∧
      Takes dir files outputs made := by
  induction outputs generalizing files set with
  | nil =>
    refine ⟨set, files, rfl, hfiles, fun name ↦ ?_, fun name output hlast ↦ ?_,
      fun file hfile _ ↦ hfile⟩
    · simp
    · cases hlast
  | cons output outputs ih =>
    obtain ⟨⟨hname, hparses⟩, hrest⟩ := List.forall_mem_cons.1 houtputs
    obtain ⟨next, file, hparse, hread⟩ := parseText_of_parses dir hparses set
    have hfile : (⟨file, true⟩ : ParsedFile).file.baseName = output.displayName :=
      hread.baseName_eq hname
    obtain ⟨later, made, hall, htakes⟩ := ih hrest (nodup_substitute hfile hfiles) next
    refine ⟨later, made, ?_, htakes.cons hread hname⟩
    rw [substituteAll, hparse]
    exact hall

/-- If a text that the tool made cannot be parsed, that is an error, whatever else it made. -/
theorem substituteAll_fails (dir : String) {outputs : List PreprocessedFile}
    (h : ∃ output ∈ outputs, ¬Parses output) (set : FileSet) (files : List ParsedFile) :
    ∃ error, substituteAll dir set files outputs = .error (.parse error) := by
  induction outputs generalizing files set with
  | nil => simp at h
  | cons output outputs ih =>
    rw [substituteAll]
    by_cases hparses : Parses output
    · obtain ⟨next, file, hparse, -⟩ := parseText_of_parses dir hparses set
      obtain ⟨other, hother, hbad⟩ := h
      have hrest := (List.mem_cons.1 hother).resolve_left fun heq ↦ hbad (heq ▸ hparses)
      rw [hparse]
      exact ih ⟨other, hrest, hbad⟩ next _
    · obtain ⟨error, hparse⟩ := parseText_of_not_parses dir hparses set
      rw [hparse]
      exact ⟨error, rfl⟩

/-! ### Packages -/

/-- A package some of whose files a tool made: its files are in the order of their names, which are
those of its files before and of what the tool made, each once. The last file of each name that the
tool made is there and takes part in the build; a file that it did not name is as it was. -/
structure Substitutes (dir : String) (files : List ParsedFile) (outputs : List PreprocessedFile)
    (raw : RawPackage) : Prop where
  ordered : raw.files.Pairwise (·.name < ·.name)
  distinct : (raw.files.map (·.baseName)).Nodup
  names : ∀ name, name ∈ raw.files.map (·.baseName) ↔
    name ∈ files.map (·.file.baseName) ∨ name ∈ outputs.map (·.displayName)
  last : ∀ name output, lastOf outputs name = some output →
    ∃ file ∈ raw.files, ReadFrom dir output file ∧ raw.isBuildable file = true
  kept : ∀ file ∈ files, file.file.baseName ∉ outputs.map (·.displayName) →
    file.file ∈ raw.files ∧ raw.isBuildable file.file = file.isBuildable

/-- Files whose names end apart have names of their own. -/
theorem nodup_names_of_baseNames {files : List ParsedFile}
    (h : (files.map (·.file.baseName)).Nodup) : (files.map (·.file.name)).Nodup := by
  refine List.Nodup.of_map baseName ?_
  rwa [List.map_map]

theorem Takes.substitutes {dir : String} {files made : List ParsedFile}
    {outputs : List PreprocessedFile} (h : Takes dir files outputs made) (base name : String)
    (set : FileSet) (variant : Variant) :
    Substitutes dir files outputs (pack dir base set (⟨name, made⟩, variant)) := by
  have hnames := nodup_names_of_baseNames h.distinct
  have hperm := Division.files_pack_perm dir base set (⟨name, made⟩, variant)
  have hbaseNames : ((pack dir base set (⟨name, made⟩, variant)).files.map (·.baseName)).Perm
      (made.map (·.file.baseName)) := by
    have hmap := hperm.map (·.baseName)
    rwa [List.map_map] at hmap
  refine ⟨ordered_pack hnames, hbaseNames.nodup_iff.2 h.distinct, fun other ↦ ?_,
    fun other output hlast ↦ ?_, fun file hfile hnamed ↦ ?_⟩
  · rw [hbaseNames.mem_iff, h.names]
  · obtain ⟨file, hfile, hread, hmark⟩ := h.last other output hlast
    refine ⟨file.file, hperm.mem_iff.2 (List.mem_map_of_mem hfile), hread, ?_⟩
    rw [isBuildable_pack hnames hfile, hmark]
  · have hmade := h.kept file hfile hnamed
    exact ⟨hperm.mem_iff.2 (List.mem_map_of_mem hmade), isBuildable_pack hnames hmade⟩

section Packages

variable {site : Site} {files : List ParsedFile}

/-- A package that needs the tool asks it once, and fails with it. -/
theorem run_preprocess (hforeign : foreignFiles files ≠ []) (dir identity : String)
    (set : FileSet) (requests : List PreprocessRequest) :
    (site.preprocess dir identity set files).run.run requests =
      match site.preprocessor with
      | none => (.error (.missingPreprocessor identity), requests)
      | some run =>
        (match run ⟨dir, identity, foreignFiles files⟩ with
          | .error failure => .error (.preprocessor identity failure)
          | .ok outputs => substituteAll dir set files outputs,
        requests ++ [⟨dir, identity, foreignFiles files⟩]) := by
  obtain ⟨first, rest, hfirst⟩ := List.exists_cons_of_ne_nil hforeign
  rw [Site.preprocess, hfirst]
  cases site.preprocessor with
  | none => rfl
  | some run =>
    dsimp only
    cases run ⟨dir, identity, first :: rest⟩ with
    | error failure => rfl
    | ok outputs =>
      dsimp only
      cases substituteAll dir set files outputs <;> rfl

theorem run_packages_single (dir base : String) (set : FileSet) (name : String)
    (variant : Variant) (requests : List PreprocessRequest) :
    (site.packages dir base set [(⟨name, files⟩, variant)]).run.run requests =
      (((site.preprocess dir (variant.identity base) set files).run.run requests).1.map
          fun made ↦ (made.1, [pack dir base made.1 (⟨name, made.2⟩, variant)]),
        ((site.preprocess dir (variant.identity base) set files).run.run requests).2) := by
  rw [Site.packages]
  change (site.preprocess dir (variant.identity base) set files >>= _).run.run requests = _
  rw [ExceptT.run_bind, StateT.run_bind]
  rcases (site.preprocess dir (variant.identity base) set files).run.run requests with
    ⟨error | made, later⟩ <;> rfl

/-- What is made of one group of the files of a directory. -/
def packageOf (site : Site) (dir base : String) (set : FileSet) (group : PackageGroup)
    (variant : Variant) (requests : List PreprocessRequest) :
    Except LoadError (FileSet × List RawPackage) :=
  ((site.packages dir base set [(group, variant)]).run.run requests).1

/-- A package with foreign code whose files go by names of their own. Without a tool there is no
package, nor when the tool fails or makes a text that cannot be parsed. Otherwise the files that it
makes are substitutes for those of their names, and come to the package under the other names. -/
theorem packages_takeSubstitutes (site : Site) (dir base : String) (set : FileSet)
    {group : PackageGroup} (hforeign : foreignFiles group.files ≠ [])
    (hdistinct : (group.files.map (·.file.baseName)).Nodup) (variant : Variant)
    (requests : List PreprocessRequest) :
    (site.preprocessor = none → packageOf site dir base set group variant requests =
      .error (.missingPreprocessor (variant.identity base))) ∧
    ∀ run, site.preprocessor = some run →
      (∀ failure, run ⟨dir, variant.identity base, foreignFiles group.files⟩ = .error failure →
        packageOf site dir base set group variant requests =
          .error (.preprocessor (variant.identity base) failure)) ∧
      ∀ outputs, run ⟨dir, variant.identity base, foreignFiles group.files⟩ = .ok outputs →
        ((∃ output ∈ outputs, ¬Parses output) → ∃ error,
          packageOf site dir base set group variant requests = .error (.parse error)) ∧
        ((∀ output ∈ outputs, IsBaseName output.displayName ∧ Parses output) → ∃ later raw,
          packageOf site dir base set group variant requests = .ok (later, [raw]) ∧
            Substitutes dir group.files outputs raw) := by
  have hpackage : packageOf site dir base set group variant requests =
      ((site.preprocess dir (variant.identity base) set group.files).run.run requests).1.map
        fun made ↦ (made.1, [pack dir base made.1 (⟨group.name, made.2⟩, variant)]) :=
    congrArg Prod.fst (run_packages_single dir base set group.name variant requests)
  rw [hpackage, run_preprocess hforeign]
  refine ⟨fun hnone ↦ by rw [hnone]; rfl, fun run hrun ↦ ?_⟩
  rw [hrun]
  refine ⟨fun failure hfails ↦ ?_, fun outputs hmade ↦ ⟨fun hbad ↦ ?_, fun hgood ↦ ?_⟩⟩
  · dsimp only
    rw [hfails]
    rfl
  · obtain ⟨error, herror⟩ := substituteAll_fails dir hbad set group.files
    dsimp only
    rw [hmade]
    dsimp only
    rw [herror]
    exact ⟨error, rfl⟩
  · obtain ⟨later, made, hall, htakes⟩ := exists_substituteAll dir hgood hdistinct set
    dsimp only
    rw [hmade]
    dsimp only
    rw [hall]
    exact ⟨later, _, rfl, htakes.substitutes base group.name later variant⟩

end Packages

/-- A directory of the top with some items, for a build with a tool that always makes the same. -/
def toolSite (items : List FileItem) (outputs : List PreprocessedFile) : Site :=
  ⟨⟨.dir [⟨"m", .dir items⟩]⟩, ⟨["."], ".", ⟨"linux", "amd64", [], true⟩, []⟩,
    some fun _ ↦ .ok outputs⟩

/-- Foreign code, a file for another system, and a file without either. -/
def nativeItems : List FileItem :=
  [⟨"a.go", .text "package a\n\nimport \"C\"\n"⟩, ⟨"b_windows.go", .text "package a\n"⟩,
    ⟨"c.go", .text "package a\n"⟩]

/-- A new file, substitutes for two files, and a second substitute for one of them. -/
def nativeOutputs : List PreprocessedFile :=
  [⟨"C", "package a\n"⟩, ⟨"a.go", "package a\n"⟩, ⟨"b_windows.go", "package a\n"⟩,
    ⟨"a.go", "package a\n\nvar A int\n"⟩]

theorem packages_takeSubstitutes_twice : ∃ set files later raw,
    (toolSite nativeItems nativeOutputs).parseFiles (FileSet.empty ⟨0⟩)
        ["m/a.go", "m/b_windows.go", "m/c.go"] = .ok (set, files) ∧
      foreignFiles files = ["a.go"] ∧
      packageOf (toolSite nativeItems nativeOutputs) "m" "x/m" set ⟨"a", files⟩ .primary [] =
        .ok (later, [raw]) ∧ Substitutes "m" files nativeOutputs raw := by
  have hparsed : ((toolSite nativeItems nativeOutputs).parseFiles (FileSet.empty ⟨0⟩)
      ["m/a.go", "m/b_windows.go", "m/c.go"]).toOption.map (fun made ↦
        (foreignFiles made.2, made.2.map (·.file.baseName))) =
      some (["a.go"], ["a.go", "b_windows.go", "c.go"]) := by decide +kernel
  obtain ⟨⟨set, files⟩, hfiles, hpair⟩ := Option.map_eq_some_iff.1 hparsed
  obtain ⟨hforeign, hnames⟩ := Prod.mk.inj hpair
  have houtputs : ∀ output ∈ nativeOutputs, IsBaseName output.displayName ∧ Parses output := by
    have hparse : ∀ output ∈ nativeOutputs, ('/' ∉ output.displayName.toList ∧
        '\\' ∉ output.displayName.toList) ∧ (((FileSet.empty ⟨0⟩).parseFile output.displayName
          output.contents).2.toOption).isSome = true := by decide +kernel
    intro output houtput
    obtain ⟨hname, hsome⟩ := hparse output houtput
    obtain ⟨file, hfile⟩ := Option.isSome_iff_exists.1 hsome
    exact ⟨hname, file, eq_ok_of_toOption hfile⟩
  have hneeds : foreignFiles (⟨"a", files⟩ : PackageGroup).files ≠ [] := by
    rw [hforeign]
    decide
  have hdistinct : ((⟨"a", files⟩ : PackageGroup).files.map (·.file.baseName)).Nodup := by
    rw [hnames]
    decide
  obtain ⟨later, raw, hmade, hsubstitutes⟩ := (((packages_takeSubstitutes
    (toolSite nativeItems nativeOutputs) "m" "x/m" set hneeds hdistinct .primary []).2 _
      rfl).2 _ rfl).2 houtputs
  exact ⟨set, files, later, raw, eq_ok_of_toOption hfiles, hforeign, hmade, hsubstitutes⟩

/-- Files of one package that takes part in the build are the main package. -/
theorem withVariants_eq_primary (dir : String) {files : List ParsedFile} {name : String}
    (h : ∀ file ∈ files, file.file.packageName.name = name) (htest : name.endsWith "_test" = false)
    (hbuilds : ∃ file ∈ files, file.isBuildable = true) :
    PackageGroup.withVariants dir (PackageGroup.ofFiles files) =
      .ok [(⟨name, files⟩, .primary)] := by
  obtain ⟨built, hbuilt, hmark⟩ := hbuilds
  have hnames : RawPackage.distinct ((files.map (·.file.packageName.name)).mergeSort
      fun first second ↦ first ≤ second) = [name] := by
    refine List.Perm.eq_singleton ((List.perm_ext_iff_of_nodup ?_ (List.nodup_singleton name)).2
      fun other ↦ ?_)
    · exact (RawPackage.pairwise_distinct_mergeSort _).imp fun hlt ↦ String.ne_of_lt hlt
    · rw [Site.mem_names_iff, List.mem_singleton]
      constructor
      · rintro ⟨file, hfile, rfl⟩
        exact h file hfile
      · rintro rfl
        exact ⟨built, hbuilt, h built hbuilt⟩
  have hall : files.filter (·.file.packageName.name == name) = files :=
    List.filter_eq_self.2 fun file hfile ↦ beq_iff_eq.2 (h file hfile)
  have hbuildable : PackageGroup.isBuildable ⟨name, files⟩ = true :=
    List.any_eq_true.2 ⟨built, hbuilt, hmark⟩
  rw [PackageGroup.ofFiles, hnames, List.map_singleton, hall]
  simp [PackageGroup.withVariants, PackageGroup.isTest, htest, hbuildable, pure, Except.pure]

/-- Two files whose names end alike after a backslash; the second has foreign code. -/
def alikeItems : List FileItem :=
  [⟨"a\\d.go", .text "package a\n"⟩, ⟨"d.go", .text "package a\n\nimport \"C\"\n"⟩]

/-- The substitute for the second of two files that share the end of their names takes the place of
the first, so that the package has two files of one name. -/
theorem backslash_shares_name : ∃ later raw,
    ((toolSite alikeItems [⟨"d.go", "package a\n"⟩]).parseDir ⟨0⟩ "m" "x/m").run.run [] =
        (.ok (later, [raw]), [⟨"m", "x/m", ["d.go"]⟩]) ∧
      IsBaseName "d.go" ∧ Parses ⟨"d.go", "package a\n"⟩ ∧
      ¬(raw.files.map (·.name)).Nodup := by
  have hparsed : ((toolSite alikeItems [⟨"d.go", "package a\n"⟩]).parseFiles (FileSet.empty ⟨0⟩)
      ((alikeItems.filter Site.isSource).map fun item ↦ Path.join "m" item.name)).toOption.map
        (fun made ↦ (foreignFiles made.2, made.2.map fun file ↦
          (file.file.packageName.name, file.file.name, file.isBuildable))) =
      some (["d.go"], [("a", "m/a\\d.go", true), ("a", "m/d.go", true)]) := by decide +kernel
  obtain ⟨⟨set, files⟩, hfiles, hpair⟩ := Option.map_eq_some_iff.1 hparsed
  obtain ⟨hforeign, hmarks⟩ := Prod.mk.inj hpair
  obtain ⟨first, second, rfl⟩ := List.length_eq_two.1
    ((List.length_map _).symm.trans (congrArg List.length hmarks))
  simp only [List.map_cons, List.map_nil, List.cons.injEq, Prod.mk.injEq, and_true] at hmarks
  obtain ⟨⟨hfirst, hfirstName, hfirstMark⟩, hsecond, hsecondName, -⟩ := hmarks
  have hgroups := withVariants_eq_primary "m" (List.forall_mem_cons.2 ⟨hfirst,
    List.forall_mem_singleton.2 hsecond⟩) (by decide +kernel)
      ⟨first, List.mem_cons_self, hfirstMark⟩
  have hparses : Parses ⟨"d.go", "package a\n"⟩ := by
    have hsome : (((FileSet.empty ⟨0⟩).parseFile "d.go" "package a\n").2.toOption).isSome =
      true := by decide +kernel
    obtain ⟨file, hfile⟩ := Option.isSome_iff_exists.1 hsome
    exact ⟨file, eq_ok_of_toOption hfile⟩
  obtain ⟨later, file, hparse, hread⟩ := parseText_of_parses "m" hparses set
  have hall : substituteAll "m" set [first, second] [⟨"d.go", "package a\n"⟩] =
      .ok (later, [⟨file, true⟩, second]) := by
    have hbase : first.file.baseName = "d.go" := by
      rw [SourceFile.baseName, hfirstName]
      decide +kernel
    rw [substituteAll, hparse]
    change Except.ok (later, substitute "d.go" ⟨file, true⟩ [first, second]) = _
    rw [substitute, if_pos hbase]
  have hrun : ((toolSite alikeItems [⟨"d.go", "package a\n"⟩]).parseDir ⟨0⟩ "m" "x/m").run.run [] =
      (.ok (later, [pack "m" "x/m" later (⟨"a", [⟨file, true⟩, second]⟩, .primary)]),
        [⟨"m", "x/m", ["d.go"]⟩]) := by
    rw [Division.run_parseDir rfl (eq_ok_of_toOption hfiles), Division.divide, hgroups]
    change ((toolSite alikeItems [⟨"d.go", "package a\n"⟩]).packages "m" "x/m" set
      [(⟨"a", [first, second]⟩, .primary)]).run.run [] = _
    rw [run_packages_single, run_preprocess (by rw [hforeign]; decide), hforeign]
    simp only [toolSite, hall]
    rfl
  refine ⟨later, _, hrun, ⟨by decide, by decide⟩, hparses, fun hnodup ↦ ?_⟩
  have hnames := ((Division.files_pack_perm "m" "x/m" later
    (⟨"a", [⟨file, true⟩, second]⟩, .primary)).map (·.name)).nodup_iff.1 hnodup
  have hsame : Path.join "m" "d.go" = "m/d.go" := by decide +kernel
  simp [hread.name, hsecondName, hsame] at hnames

end Substitution

end PackageAtlas
