import PackageAtlas.Text.CodeRange

/-!
White space: the property White_Space, and cutting it off both ends of a text.
-/

set_option autoImplicit false
set_option relaxedAutoImplicit false

namespace PackageAtlas.Text

/-- The 25 white-space characters. -/
def blankTable : List CodeRange :=
  [⟨9, 13, 1⟩, ⟨32, 32, 1⟩, ⟨133, 133, 1⟩, ⟨160, 160, 1⟩, ⟨5760, 5760, 1⟩, ⟨8192, 8202, 1⟩,
   ⟨8232, 8233, 1⟩, ⟨8239, 8239, 1⟩, ⟨8287, 8287, 1⟩, ⟨12288, 12288, 1⟩]

/-- White space: tab to carriage return, the space, and the wider spaces and line separators. -/
def isBlank (c : Char) : Bool :=
  inTable blankTable c

/-- A text without the white space it starts with. -/
def trimStart (text : List Char) : List Char :=
  text.dropWhile isBlank

/-- A text without the white space it ends with. -/
def trimEnd (text : List Char) : List Char :=
  (text.reverse.dropWhile isBlank).reverse

/-- A text without the white space at either end. -/
def trim (text : List Char) : List Char :=
  trimEnd (trimStart text)

theorem isBlank_of_isWhitespace {c : Char} (h : c.isWhitespace) : isBlank c := by
  simp [Char.isWhitespace] at h
  rcases h with ((h | h) | h) | h <;> subst h <;> decide

end PackageAtlas.Text
