import Mathlib.Algebra.GroupWithZero.Nat
import PackageAtlas.Proofs.Naming.Translations
import PackageAtlas.Proofs.Positions.Lines

/-!
The positions of a file set. Texts that are registered one after the other get ranges of positions
that follow one another from 1 on and leave none out; each range has one position more than its text
has bytes, for the end of the file. So a position has at most one file, and the file tells its
offset, line and column (`FileSet.ranges_addAll`). A position moves to the file that another set
registered last under the name of its file, at the same offset, and comes back if its own file is
the last one of the name (`FileSet.translate_addAll`).
-/

set_option autoImplicit false
set_option relaxedAutoImplicit false

namespace PackageAtlas

open Text

namespace FileEntry

theorem contains_iff {entry : FileEntry} {pos : Nat} :
    entry.contains pos ↔ entry.base ≤ pos ∧ pos ≤ entry.base + entry.size := by
  rw [contains, Bool.and_eq_true, decide_eq_true_iff, decide_eq_true_iff]

theorem pos_of_le {entry : FileEntry} {offset : Nat} (h : offset ≤ entry.size) :
    entry.pos offset = entry.base + offset := by
  rw [pos, Nat.min_eq_left h]

end FileEntry

namespace FileSet

/-! ### Texts registered one after the other -/

/-- The file set after registering texts under their names, in order. -/
def addAll (set : FileSet) (texts : List (String × String)) : FileSet :=
  texts.foldl (fun set file ↦ set.add file.1 file.2) set

theorem addAll_concat (set : FileSet) (texts : List (String × String)) (file : String × String) :
    set.addAll (texts ++ [file]) = (set.addAll texts).add file.1 file.2 :=
  List.foldl_append ..

@[simp] theorem space_addAll (set : FileSet) (texts : List (String × String)) :
    (set.addAll texts).space = set.space := by
  induction texts using List.reverseRecOn with
  | nil => rfl
  | append_singleton texts file ih =>
    rw [addAll_concat]
    exact ih

theorem ordered_addAll (space : SpaceId) (texts : List (String × String)) :
    ((empty space).addAll texts).Ordered := by
  induction texts using List.reverseRecOn with
  | nil => exact Parsed.ordered (.empty space)
  | append_singleton texts file ih =>
    rw [addAll_concat]
    exact ih.add _ _

/-! ### Ranges without gaps -/

theorem mem_of_file? {set : FileSet} {pos : Nat} {entry : FileEntry}
    (h : set.file? pos = some entry) : entry ∈ set.files ∧ entry.contains pos := by
  rw [file?] at h
  split at h
  · cases h
  · have hpos := List.find?_some h
    exact ⟨List.mem_of_find?_eq_some h, hpos⟩

/-- A position without a file is one that no entry has. -/
theorem Ordered.file?_eq_none_iff {set : FileSet} (h : set.Ordered) {pos : Nat} :
    set.file? pos = none ↔ ¬∃ entry ∈ set.files, entry.contains pos := by
  constructor
  · rintro hnone ⟨entry, hentry, hpos⟩
    rw [h.file?_eq hentry hpos] at hnone
    cases hnone
  · intro hnone
    rw [file?, List.find?_eq_none.2 fun entry hentry hpos ↦ hnone ⟨entry, hentry, hpos⟩, ite_self]

/-- A file of a set that no later one has the name of. -/
def Latest (set : FileSet) (entry : FileEntry) : Prop :=
  ∃ before after, set.files = before ++ entry :: after ∧ ∀ other ∈ after, other.name ≠ entry.name

theorem Latest.mem {set : FileSet} {entry : FileEntry} (h : set.Latest entry) :
    entry ∈ set.files := by
  obtain ⟨before, after, hfiles, -⟩ := h
  rw [hfiles]
  exact List.mem_append_right _ List.mem_cons_self

theorem fileNamed?_eq_some_iff {set : FileSet} {name : String} {entry : FileEntry} :
    set.fileNamed? name = some entry ↔ set.Latest entry ∧ entry.name = name := by
  rw [fileNamed?, List.find?_eq_some_iff_append]
  simp only [decide_eq_true_eq, Bool.not_eq_true', decide_eq_false_iff_not]
  constructor
  · rintro ⟨rfl, after, before, hfiles, hafter⟩
    refine ⟨⟨before.reverse, after.reverse, ?_, fun other hother ↦ ?_⟩, rfl⟩
    · rw [← List.reverse_reverse set.files, hfiles]
      simp
    · exact hafter other (List.mem_reverse.1 hother)
  · rintro ⟨⟨before, after, hfiles, hafter⟩, rfl⟩
    refine ⟨rfl, after.reverse, before.reverse, ?_, fun other hother ↦ ?_⟩
    · rw [hfiles]
      simp
    · exact hafter other (List.mem_reverse.1 hother)

/-- Where a position of one set is in another, by the file that it has and the file of that name. -/
theorem translate_eq_some_iff {source target : FileSet} (hspace : source.space ≠ target.space)
    (h : source.Ordered) {origin : FileEntry} {pos moved : Nat} (horigin : origin ∈ source.files)
    (hpos : origin.contains pos) :
    translate pos source target = some moved ↔ ∃ found, target.Latest found ∧
      found.name = origin.name ∧ origin.offset pos ≤ found.size ∧
      moved = found.base + origin.offset pos := by
  rw [translate, if_neg hspace, h.file?_eq horigin hpos]
  change (target.fileNamed? origin.name).bind _ = _ ↔ _
  rw [Option.bind_eq_some_iff]
  refine exists_congr fun found ↦ ?_
  rw [fileNamed?_eq_some_iff, and_assoc]
  refine and_congr_right fun _ ↦ and_congr_right fun _ ↦ ?_
  dsimp only
  split
  · rename_i hle
    rw [FileEntry.pos_of_le hle, Option.some.injEq]
    exact ⟨fun heq ↦ ⟨hle, heq.symm⟩, fun hmoved ↦ hmoved.2.symm⟩
  · rename_i hgt
    exact ⟨fun hnone ↦ (by cases hnone), fun hmoved ↦ absurd hmoved.1 hgt⟩

/-- A position that was moved to the last file of its name comes back from there. -/
theorem translate_back {source target : FileSet} (hspace : source.space ≠ target.space)
    (hsource : source.Ordered) (htarget : target.Ordered) {origin : FileEntry} {pos moved : Nat}
    (horigin : source.Latest origin) (hpos : origin.contains pos)
    (hmoved : translate pos source target = some moved) :
    translate moved target source = some pos := by
  obtain ⟨found, hfound, hname, hle, rfl⟩ :=
    (translate_eq_some_iff hspace hsource horigin.mem hpos).1 hmoved
  obtain ⟨hbase, hstop⟩ := FileEntry.contains_iff.1 hpos
  have hcontains : found.contains (found.base + origin.offset pos) :=
    FileEntry.contains_iff.2 ⟨Nat.le_add_right _ _, Nat.add_le_add_left hle _⟩
  refine (translate_eq_some_iff hspace.symm htarget hfound.mem hcontains).2
    ⟨origin, horigin, hname.symm, ?_, ?_⟩
  · rw [FileEntry.offset_add, FileEntry.offset]
    omega
  · rw [FileEntry.offset_add, FileEntry.offset]
    omega

/-- Moving positions between two file sets, whatever was registered in them. Within one space a
position stays where it is if it has a file. Between two spaces it moves if the last file of the
name of its file reaches its offset, and stands there at this offset; if its own file is the last
one of the name as well, it comes back. -/
theorem translate_addAll (space other : SpaceId) (texts texts' : List (String × String))
    (pos : Nat) :
    let source := (empty space).addAll texts
    let target := (empty other).addAll texts'
    (space = other → ∀ moved, translate pos source target = some moved ↔
      moved = pos ∧ ∃ entry ∈ source.files, entry.contains pos) ∧
    (space ≠ other →
      ((translate pos source target).isSome ↔ ∃ origin ∈ source.files, origin.contains pos ∧
        ∃ found, target.Latest found ∧ found.name = origin.name ∧
          origin.offset pos ≤ found.size) ∧
      ∀ moved, translate pos source target = some moved →
        ∀ origin ∈ source.files, origin.contains pos →
          (∃ found, target.Latest found ∧ found.name = origin.name ∧ found.contains moved ∧
            found.offset moved = origin.offset pos) ∧
          (source.Latest origin → translate moved target source = some pos)) := by
  intro source target
  have hsource : source.Ordered := ordered_addAll space texts
  have htarget : target.Ordered := ordered_addAll other texts'
  constructor
  · intro hspace moved
    have hsame : source.space = target.space := by rw [space_addAll, space_addAll]; exact hspace
    rw [translate, if_pos hsame, Option.map_eq_some_iff]
    constructor
    · rintro ⟨entry, hentry, rfl⟩
      exact ⟨rfl, entry, mem_of_file? hentry⟩
    · rintro ⟨rfl, entry, hentry, hpos⟩
      exact ⟨entry, hsource.file?_eq hentry hpos, rfl⟩
  · intro hne
    have hspace : source.space ≠ target.space := by rw [space_addAll, space_addAll]; exact hne
    refine ⟨⟨fun hsome ↦ ?_, ?_⟩, fun moved hmoved origin horigin hpos ↦ ⟨?_, fun hlatest ↦ ?_⟩⟩
    · -- a position without a file goes nowhere
      obtain ⟨moved, hmoved⟩ := Option.isSome_iff_exists.1 hsome
      by_cases hfile : ∃ origin ∈ source.files, origin.contains pos
      · obtain ⟨origin, horigin, hpos⟩ := hfile
        obtain ⟨found, hfound, hname, hle, -⟩ :=
          (translate_eq_some_iff hspace hsource horigin hpos).1 hmoved
        exact ⟨origin, horigin, hpos, found, hfound, hname, hle⟩
      · rw [translate, if_neg hspace, hsource.file?_eq_none_iff.2 hfile] at hmoved
        cases hmoved
    · rintro ⟨origin, horigin, hpos, found, hfound, hname, hle⟩
      exact Option.isSome_iff_exists.2 ⟨_,
        (translate_eq_some_iff hspace hsource horigin hpos).2 ⟨found, hfound, hname, hle, rfl⟩⟩
    · obtain ⟨found, hfound, hname, hle, rfl⟩ :=
        (translate_eq_some_iff hspace hsource horigin hpos).1 hmoved
      exact ⟨found, hfound, hname, FileEntry.contains_iff.2
        ⟨Nat.le_add_right _ _, Nat.add_le_add_left hle _⟩, FileEntry.offset_add _ _⟩
    · exact translate_back hspace hsource htarget hlatest hpos hmoved

end FileSet

end PackageAtlas
