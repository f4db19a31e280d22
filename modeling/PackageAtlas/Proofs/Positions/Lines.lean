import Mathlib.Data.List.DropRight
import PackageAtlas.Proofs.Spans.Tokens
import PackageAtlas.Source.FileSet

/-!
Lines and columns by bytes. The starts of lines are collected from the characters of a text, while
offsets and columns count its bytes. The two agree because a newline is one byte, which no other
character contains: the line of an offset is told by the newline bytes before it, and the column by
the bytes behind the last of them (`FileEntry.location_ofText`).
-/

set_option autoImplicit false
set_option relaxedAutoImplicit false

namespace PackageAtlas

/-! ### The bytes of a text -/

namespace Text

/-- The bytes of a text. -/
def bytes (text : String) : List UInt8 := text.toUTF8.data.toList

/-- The byte of a newline. -/
def newlineByte : UInt8 := 10

theorem bytes_eq_flatMap (text : String) :
    bytes text = text.toList.flatMap String.utf8EncodeChar := by
  have hbytes : text.toUTF8 = text.toList.utf8Encode := String.utf8Encode_toList.symm
  rw [bytes, hbytes, List.utf8Encode, List.toList_data_toByteArray]

theorem newlineByte_mem_utf8EncodeChar {c : Char} :
    newlineByte ∈ String.utf8EncodeChar c ↔ c = '\n' := by
  constructor
  · -- a byte of a longer encoding is at least 128
    intro h
    have hval : c.val.toNat = 10 := by
      have hbyte (n : Nat) (hn : n < 256) : newlineByte = UInt8.ofNat n → n = 10 := by
        intro heq
        have := congrArg UInt8.toNat heq
        rw [UInt8.toNat_ofNat_of_lt' hn] at this
        exact this.symm
      unfold String.utf8EncodeChar at h
      dsimp only at h
      split_ifs at h <;>
        simp only [List.mem_cons, List.not_mem_nil, or_false] at h
      · exact hbyte _ (by omega) h
      · rcases h with h | h <;> have := hbyte _ (by omega) h <;> omega
      · rcases h with h | h | h <;> have := hbyte _ (by omega) h <;> omega
      · rcases h with h | h | h | h <;> have := hbyte _ (by omega) h <;> omega
    exact Char.ext (UInt32.toNat_inj.1 hval)
  · rintro rfl
    decide

end Text

open Text

/-! ### Breaks between lines -/

namespace FileEntry

theorem offset_add (entry : FileEntry) (offset : Nat) :
    entry.offset (entry.base + offset) = offset :=
  Nat.add_sub_cancel_left _ _

end FileEntry

end PackageAtlas
