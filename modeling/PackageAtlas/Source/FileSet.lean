import PackageAtlas.Source.Span

/-!
File sets: the coordinate spaces of raw positions. Each registered file owns a contiguous range of
positions, one for each of its bytes and one more for its end, and the ranges follow one another
from position 1. A position is moved between two file sets through the name of its file.
-/

set_option autoImplicit false
set_option relaxedAutoImplicit false

namespace PackageAtlas

/-- The identity of a coordinate space. -/
structure SpaceId where
  number : Nat
deriving DecidableEq, Repr, Inhabited

/-- A location for a reader: line and column count from 1, columns in bytes. -/
structure Location where
  file : String
  offset : Nat
  line : Nat
  column : Nat
deriving DecidableEq, Repr, Inhabited

namespace Location

/-- A location known only by the name of the file. -/
def inFile (file : String) : Location := ⟨file, 0, 0, 0⟩

/-- The text `file:line:column`. -/
def text (location : Location) : String :=
  location.file ++ ":" ++ toString location.line ++ ":" ++ toString location.column

end Location

/-- The offsets just after the newlines of a text that starts at byte `offset`. -/
def lineStartsFrom (offset : Nat) : List Char → List Nat
  | [] => []
  | c :: rest =>
    if c = '\n' then (offset + 1) :: lineStartsFrom (offset + 1) rest
    else lineStartsFrom (offset + c.utf8Size) rest

/-- A registered file: its name, first position, size in bytes, and the offsets at which its lines
after the first one start. -/
structure FileEntry where
  name : String
  base : Nat
  size : Nat
  lineBreaks : List Nat
deriving DecidableEq, Repr, Inhabited

namespace FileEntry

/-- The entry of a text that is registered at a base. -/
def ofText (name : String) (base : Nat) (text : String) : FileEntry :=
  ⟨name, base, text.utf8ByteSize, lineStartsFrom 0 text.toList⟩

/-- Whether a position belongs to the file; the end of the file does. -/
def contains (entry : FileEntry) (pos : Nat) : Bool :=
  entry.base ≤ pos && pos ≤ entry.base + entry.size

/-- The position of an offset; an offset beyond the end stands for the end. -/
def pos (entry : FileEntry) (offset : Nat) : Nat :=
  entry.base + min offset entry.size

/-- The offset of a position, zero for one before the file. -/
def offset (entry : FileEntry) (pos : Nat) : Nat :=
  pos - entry.base

/-- The line breaks at or before an offset. -/
def breaksUpTo (entry : FileEntry) (offset : Nat) : List Nat :=
  entry.lineBreaks.takeWhile (· ≤ offset)

/-- Line and column of a position. -/
def location (entry : FileEntry) (pos : Nat) : Location :=
  let offset := entry.offset pos
  let breaks := entry.breaksUpTo offset
  ⟨entry.name, offset, breaks.length + 1, offset - breaks.getLastD 0 + 1⟩

end FileEntry

/-- A coordinate space with its files in the order of registration. -/
structure FileSet where
  space : SpaceId
  files : List FileEntry
deriving Repr, Inhabited

namespace FileSet

/-- A space without files. -/
def empty (space : SpaceId) : FileSet := ⟨space, []⟩

/-- The first position that no file owns. -/
def nextBase (set : FileSet) : Nat :=
  match set.files.getLast? with
  | none => 1
  | some entry => entry.base + entry.size + 1

/-- The entry that registering a text now would make. -/
def nextEntry (set : FileSet) (name text : String) : FileEntry :=
  FileEntry.ofText name set.nextBase text

/-- The file set after registering a text. -/
def add (set : FileSet) (name text : String) : FileSet :=
  { set with files := set.files ++ [set.nextEntry name text] }

/-- The file that a position belongs to. -/
def file? (set : FileSet) (pos : Nat) : Option FileEntry :=
  if pos = 0 then none else set.files.find? (·.contains pos)

/-- The file registered last under a name, so that a later substitute hides the file it replaces. -/
def fileNamed? (set : FileSet) (name : String) : Option FileEntry :=
  set.files.reverse.find? (·.name = name)

/-- Line and column of a position. -/
def location? (set : FileSet) (pos : Nat) : Option Location :=
  (set.file? pos).map (·.location pos)

/-- The position of one space that corresponds to a position of another: the same offset in the
file of the same name. -/
def translate (pos : Nat) (source target : FileSet) : Option Nat :=
  if source.space = target.space then (source.file? pos).map fun _ ↦ pos
  else do
    let origin ← source.file? pos
    let destination ← target.fileNamed? origin.name
    let offset := origin.offset pos
    if offset ≤ destination.size then some (destination.pos offset) else none

end FileSet

end PackageAtlas
