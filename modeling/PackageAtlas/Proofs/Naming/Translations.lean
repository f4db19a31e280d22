import PackageAtlas.Proofs.Naming.Outlines
import PackageAtlas.Proofs.Relocation.Nodes

/-!
Positions and the files that they belong to. The entries of a file set follow one another, so that a
position inside a parsed file belongs to the entry of that file (`FileSet.Parsed.file?_eq`), and is
moved to another set by its distance from the start of the file.
-/

set_option autoImplicit false
set_option relaxedAutoImplicit false

namespace PackageAtlas

/-! ### Parsed files and their entries -/

/-- A file has the name and the positions of its entry. -/
theorem Parser.entry_sourceFile {g : Grammar} {input : ParseInput} {state state' : ParseState}
    {file : SourceFile} (h : Parser.sourceFile g input state = .ok (file, state')) :
    file.name = input.entry.name ∧
      file.info.span = ⟨input.entry.base, input.entry.base + input.entry.size⟩ := by
  obtain ⟨_, _, hread, h⟩ := Parser.bind_eq_ok h
  cases hread
  obtain ⟨_, _, -, h⟩ := Parser.bind_eq_ok h
  obtain ⟨_, _, -, h⟩ := Parser.bind_eq_ok h
  obtain ⟨_, _, -, h⟩ := Parser.bind_eq_ok h
  obtain ⟨_, _, -, h⟩ := Parser.bind_eq_ok h
  obtain ⟨_, _, -, h⟩ := Parser.bind_eq_ok h
  obtain ⟨_, _, hnode, h⟩ := Parser.bind_eq_ok h
  cases hnode
  cases h
  simp [FileEntry.pos]

namespace FileSet

/-- A parsed file has its name, and covers what was registered. -/
theorem entry_parseFile {set : FileSet} {name text : String} {file : SourceFile}
    (h : (set.parseFile name text).2 = .ok file) :
    file.name = name ∧ file.info.span = ⟨set.nextBase, set.nextBase + text.utf8ByteSize⟩ := by
  unfold parseFile Parser.runOn at h
  cases hstream : TokenStream.ofText text with
  | error error =>
    simp only [hstream] at h
    cases h
  | ok stream =>
    simp only [hstream] at h
    cases hrun : Parser.sourceFile (Goal.parserFor stream.tokens.length)
        ⟨set.space, set.nextEntry name text, text.toList, stream.comments⟩
        ⟨stream.tokens, 0, 0, 1⟩ with
    | error error =>
      rw [hrun] at h
      cases h
    | ok result =>
      rw [hrun] at h
      cases h
      exact Parser.entry_sourceFile hrun

/-- A file was parsed from a text when the text was registered in the set under its name. -/
def Reads (set : FileSet) (file : SourceFile) (text : String) : Prop :=
  ∃ before : FileSet, before.space = set.space ∧
    (before.parseFile file.name text).2 = .ok file ∧ (before.add file.name text).files <+: set.files

theorem Reads.mono {set later : FileSet} {file : SourceFile} {text : String}
    (h : set.Reads file text) (hspace : set.space = later.space)
    (hfiles : set.files <+: later.files) : later.Reads file text := by
  obtain ⟨before, hbefore, hparse, hprefix⟩ := h
  exact ⟨before, hbefore.trans hspace, hparse, hprefix.trans hfiles⟩

/-- Each parsed file was parsed from some text. -/
theorem Parsed.reads {set : FileSet} {files : List SourceFile} (h : set.Parsed files) :
    ∀ file ∈ files, ∃ text, set.Reads file text := by
  have hadd (set : FileSet) (name text : String) : set.files <+: (set.add name text).files :=
    List.prefix_append _ _
  induction h with
  | empty space => exact fun _ h ↦ (by cases h)
  | @register set files name text h ih =>
    intro file hfile
    obtain ⟨text', hreads⟩ := ih file hfile
    exact ⟨text', hreads.mono rfl (hadd set name text)⟩
  | @parse set files name text file h hparse ih =>
    refine List.forall_mem_cons.2 ⟨⟨text, set, rfl, ?_, ?_⟩, fun file hfile ↦ ?_⟩
    · rw [(entry_parseFile hparse).1]
      exact hparse
    · rw [(entry_parseFile hparse).1]
      exact List.prefix_rfl
    · obtain ⟨text', hreads⟩ := ih file hfile
      exact ⟨text', hreads.mono rfl (hadd set name text)⟩

end FileSet

/-- The entry that a file has in its set when it was parsed from a text. -/
def SourceFile.entry (file : SourceFile) (text : String) : FileEntry :=
  FileEntry.ofText file.name file.info.span.start text

namespace FileSet

theorem Reads.span_stop {set : FileSet} {file : SourceFile} {text : String}
    (h : set.Reads file text) :
    file.info.span.stop = file.info.span.start + text.utf8ByteSize := by
  obtain ⟨before, -, hparse, -⟩ := h
  rw [(entry_parseFile hparse).2]

theorem Reads.entry_mem {set : FileSet} {file : SourceFile} {text : String}
    (h : set.Reads file text) : file.entry text ∈ set.files := by
  obtain ⟨before, -, hparse, hprefix⟩ := h
  refine hprefix.subset (List.mem_append_right _ (List.mem_singleton.2 ?_))
  rw [SourceFile.entry, (entry_parseFile hparse).2]
  rfl

/-- Files that were parsed from one text under one name say the same. -/
theorem Reads.sameText {set other : FileSet} {file file' : SourceFile} {text : String}
    (h : set.Reads file text) (h' : other.Reads file' text) (hname : file'.name = file.name) :
    file.SameText file' := by
  obtain ⟨before, -, hparse, -⟩ := h
  obtain ⟨before', -, hparse', -⟩ := h'
  exact sameText_of_parseFile hparse (hname ▸ hparse')

/-! ### The entry of a position -/

/-- The entries of a set follow one another, from position 1 on. -/
structure Ordered (set : FileSet) : Prop where
  entries : set.files.Pairwise fun first second ↦ first.base + first.size < second.base
  bounds : ∀ entry ∈ set.files, 0 < entry.base ∧ entry.base + entry.size < set.nextBase
  nextBase : 0 < set.nextBase

theorem Ordered.add {set : FileSet} (h : set.Ordered) (name text : String) :
    (set.add name text).Ordered := by
  have hnext := nextBase_add_eq set name text
  refine ⟨List.pairwise_append.2 ⟨h.entries, List.pairwise_singleton _ _, ?_⟩, ?_, by omega⟩
  · intro first hfirst second hsecond
    rw [List.mem_singleton.1 hsecond]
    exact (h.bounds first hfirst).2
  · intro entry hentry
    rcases List.mem_append.1 hentry with hold | hnew
    · obtain ⟨hbase, hstop⟩ := h.bounds entry hold
      exact ⟨hbase, by omega⟩
    · rw [List.mem_singleton.1 hnew]
      change 0 < set.nextBase ∧ set.nextBase + text.utf8ByteSize < _
      have := h.nextBase
      omega

theorem Parsed.ordered {set : FileSet} {files : List SourceFile} (h : set.Parsed files) :
    set.Ordered := by
  induction h with
  | empty space => exact ⟨.nil, fun _ h ↦ (by cases h), Nat.one_pos⟩
  | register name text h ih => exact ih.add name text
  | parse h hparse ih => exact ih.add _ _

/-- A position of an entry belongs to no other one. -/
theorem Ordered.file?_eq {set : FileSet} (h : set.Ordered) {entry : FileEntry} {pos : Nat}
    (hentry : entry ∈ set.files) (hpos : entry.contains pos = true) :
    set.file? pos = some entry := by
  have hbase := (h.bounds entry hentry).1
  simp only [FileEntry.contains, Bool.and_eq_true, decide_eq_true_eq] at hpos
  rw [file?, if_neg (by omega)]
  obtain ⟨before, after, hsplit⟩ := List.append_of_mem hentry
  have hbefore : ∀ other ∈ before, (other.contains pos) = false := by
    intro other hother
    have horder := h.entries
    rw [hsplit] at horder
    have hlt := (List.pairwise_append.1 horder).2.2 other hother entry List.mem_cons_self
    simp only [FileEntry.contains, Bool.and_eq_false_iff, decide_eq_false_iff_not]
    omega
  rw [hsplit, List.find?_append, List.find?_eq_none.2 (by simpa using hbefore), List.find?_cons]
  simp [FileEntry.contains, hpos]

/-- A position inside a parsed file belongs to the entry of the file. -/
theorem Parsed.file?_eq {set : FileSet} {files : List SourceFile} {file : SourceFile}
    {text : String} {pos : Nat} (h : set.Parsed files) (hreads : set.Reads file text)
    (hstart : file.info.span.start ≤ pos) (hstop : pos ≤ file.info.span.stop) :
    set.file? pos = some (file.entry text) := by
  refine h.ordered.file?_eq hreads.entry_mem ?_
  rw [hreads.span_stop] at hstop
  simp [FileEntry.contains, SourceFile.entry, FileEntry.ofText, hstart, hstop]

/-! ### Translation -/

theorem translate_self {set : FileSet} {pos : Nat} {entry : FileEntry}
    (h : set.file? pos = some entry) : translate pos set set = some pos := by
  rw [translate, if_pos rfl, h]
  rfl

/-- A position goes to the same distance from the start of the file that its set registered last
under the name. -/
theorem translate_of_reads {set other : FileSet} {files : List SourceFile} {file own : SourceFile}
    {text : String} {pos : Nat} (hspace : other.space ≠ set.space) (h : other.Parsed files)
    (hreads : other.Reads file text) (hname : own.name = file.name)
    (hlast : set.fileNamed? own.name = some (own.entry text))
    (hstart : file.info.span.start ≤ pos) (hstop : pos ≤ file.info.span.stop) :
    translate pos other set = some (own.info.span.start + (pos - file.info.span.start)) := by
  have hfile := h.file?_eq hreads hstart hstop
  rw [hreads.span_stop] at hstop
  have hle : pos - file.info.span.start ≤ text.utf8ByteSize := by omega
  rw [translate, if_neg hspace, hfile]
  change (set.fileNamed? file.name).bind _ = _
  rw [← hname, hlast]
  simp [SourceFile.entry, FileEntry.ofText, FileEntry.offset, FileEntry.pos,
    Nat.sub_le_iff_le_add.1 hle, hle]

end FileSet

end PackageAtlas
