/-!
Wildcards: patterns in which three dots stand for any text without a line break. The pieces of a
pattern are taken from the last to the first, and for each it is marked which suffixes of a text the
pieces from there on spell; so a comparison takes a step for each pair of a piece and a suffix. Main
statement: what is marked is what `Spells` says.
-/

set_option autoImplicit false
set_option relaxedAutoImplicit false

namespace PackageAtlas

/-- A piece of a wildcard. The wildcard `below` is written at the end of a pattern after a slash and
stands for nothing, or for a slash and any text. -/
inductive WildcardPiece where
  | char (c : Char)
  | any
  | below
deriving DecidableEq, Repr

namespace WildcardPiece

/-- The pieces of a pattern. Each three dots from the left are a wildcard. -/
def ofChars : List Char → List WildcardPiece
  | [] => []
  | ['/', '.', '.', '.'] => [below]
  | '.' :: '.' :: '.' :: rest => any :: ofChars rest
  | c :: rest => char c :: ofChars rest

/-- Pieces spell a text: characters stand for themselves, and wildcards for texts in one line. -/
inductive Spells : List WildcardPiece → List Char → Prop where
  | nil : Spells [] []
  | char {c : Char} {pieces : List WildcardPiece} {text : List Char} (h : Spells pieces text) :
      Spells (char c :: pieces) (c :: text)
  | any {line text : List Char} {pieces : List WildcardPiece} (hline : '\n' ∉ line)
      (h : Spells pieces text) : Spells (any :: pieces) (line ++ text)
  | here {pieces : List WildcardPiece} {text : List Char} (h : Spells pieces text) :
      Spells (below :: pieces) text
  | under {line text : List Char} {pieces : List WildcardPiece} (hline : '\n' ∉ line)
      (h : Spells pieces text) : Spells (below :: pieces) ('/' :: (line ++ text))

/-! ### Marks on the suffixes of a text, the longest first -/

/-- Marks the suffixes that are a character in front of a marked one. -/
def afterChar (c : Char) : List Char → List Bool → List Bool
  | d :: text, _ :: marks => (c == d && marks.headD false) :: afterChar c text marks
  | _, _ => [false]

/-- Marks the suffixes that are a text in one line in front of a marked one. -/
def afterLine : List Char → List Bool → List Bool
  | c :: text, mark :: marks =>
    let later := afterLine text marks
    (mark || (c != '\n' && later.headD false)) :: later
  | _, marks => marks

/-- Marks the suffixes of a text that pieces spell. -/
def marks (text : List Char) : List WildcardPiece → List Bool
  | [] => text.map (fun _ ↦ false) ++ [true]
  | char c :: pieces => afterChar c text (marks text pieces)
  | any :: pieces => afterLine text (marks text pieces)
  | below :: pieces =>
    let here := marks text pieces
    here.zipWith or (afterChar '/' text (afterLine text here))

/-- Whether pieces spell a text. -/
def spell (pieces : List WildcardPiece) (text : List Char) : Bool :=
  (marks text pieces).headD false

/-- The marks are on those suffixes of a text that have a property. -/
inductive Marked (p : List Char → Prop) : List Char → List Bool → Prop where
  | nil {mark : Bool} (h : mark = true ↔ p []) : Marked p [] [mark]
  | cons {c : Char} {text : List Char} {mark : Bool} {marks : List Bool}
      (h : mark = true ↔ p (c :: text)) (later : Marked p text marks) :
      Marked p (c :: text) (mark :: marks)

theorem Marked.headD_iff {p : List Char → Prop} {text : List Char} {marks : List Bool}
    (h : Marked p text marks) : marks.headD false = true ↔ p text := by
  cases h <;> simpa

theorem Marked.congr {p q : List Char → Prop} {text : List Char} {marks : List Bool}
    (h : Marked p text marks) (hpq : ∀ s, p s ↔ q s) : Marked q text marks := by
  induction h with
  | nil h => exact .nil (h.trans (hpq _))
  | cons h _ ih => exact .cons (h.trans (hpq _)) ih

theorem Marked.zipWith_or {p q : List Char → Prop} {text : List Char} {marks others : List Bool}
    (h : Marked p text marks) (hq : Marked q text others) :
    Marked (fun s ↦ p s ∨ q s) text (marks.zipWith or others) := by
  induction h generalizing others with
  | nil h => cases hq with
    | nil hq => exact .nil (by simp [h, hq])
  | cons h _ ih => cases hq with
    | cons hq later => exact .cons (by simp [h, hq]) (ih later)

theorem marked_afterChar {p : List Char → Prop} (c : Char) {text : List Char} {marks : List Bool}
    (h : Marked p text marks) :
    Marked (fun s ↦ ∃ rest, s = c :: rest ∧ p rest) text (afterChar c text marks) := by
  induction h with
  | nil => exact .nil (by simp)
  | @cons d text mark marks _ later ih =>
    refine .cons ?_ ih
    rw [Bool.and_eq_true, beq_iff_eq, later.headD_iff]
    constructor
    · rintro ⟨rfl, hp⟩
      exact ⟨text, rfl, hp⟩
    · rintro ⟨rest, heq, hp⟩
      cases heq
      exact ⟨rfl, hp⟩

theorem marked_afterLine {p : List Char → Prop} {text : List Char} {marks : List Bool}
    (h : Marked p text marks) :
    Marked (fun s ↦ ∃ line rest, s = line ++ rest ∧ '\n' ∉ line ∧ p rest) text
      (afterLine text marks) := by
  induction h with
  | nil h =>
    refine .nil (h.trans ⟨fun hp ↦ ⟨[], [], rfl, by simp, hp⟩, ?_⟩)
    rintro ⟨line, rest, heq, -, hp⟩
    rwa [(List.append_eq_nil_iff.1 heq.symm).2] at hp
  | @cons c text mark marks h later ih =>
    refine .cons ?_ ih
    rw [Bool.or_eq_true, Bool.and_eq_true, bne_iff_ne, ih.headD_iff, h]
    constructor
    · rintro (hp | ⟨hc, line, rest, rfl, hline, hp⟩)
      · exact ⟨[], _, rfl, by simp, hp⟩
      · exact ⟨c :: line, rest, rfl, by simp [hline, Ne.symm hc], hp⟩
    · rintro ⟨line, rest, heq, hline, hp⟩
      cases line with
      | nil => exact .inl (by simpa using heq ▸ hp)
      | cons d line =>
        cases heq
        simp only [List.mem_cons, not_or] at hline
        exact .inr ⟨Ne.symm hline.1, line, rest, rfl, hline.2, hp⟩

theorem marked_marks (text : List Char) (pieces : List WildcardPiece) :
    Marked (Spells pieces) text (marks text pieces) := by
  induction pieces with
  | nil =>
    induction text with
    | nil => exact .nil (by simp [Spells.nil])
    | cons c text ih => exact .cons ⟨by simp, by rintro ⟨⟩⟩ ih
  | cons piece pieces ih =>
    cases piece with
    | char c =>
      refine (marked_afterChar c ih).congr fun s ↦ ⟨?_, ?_⟩
      · rintro ⟨rest, rfl, h⟩
        exact .char h
      · rintro ⟨⟩
        exact ⟨_, rfl, ‹_›⟩
    | any =>
      refine (marked_afterLine ih).congr fun s ↦ ⟨?_, ?_⟩
      · rintro ⟨line, rest, rfl, hline, h⟩
        exact .any hline h
      · rintro ⟨⟩
        exact ⟨_, _, rfl, ‹_›, ‹_›⟩
    | below =>
      refine (ih.zipWith_or (marked_afterChar '/' (marked_afterLine ih))).congr fun s ↦ ⟨?_, ?_⟩
      · rintro (h | ⟨_, rfl, line, rest, rfl, hline, h⟩)
        · exact .here h
        · exact .under hline h
      · intro h
        cases h with
        | here h => exact .inl h
        | under hline h => exact .inr ⟨_, rfl, _, _, rfl, hline, h⟩

theorem spell_iff {pieces : List WildcardPiece} {text : List Char} :
    spell pieces text = true ↔ Spells pieces text :=
  (marked_marks text pieces).headD_iff

end WildcardPiece

end PackageAtlas
