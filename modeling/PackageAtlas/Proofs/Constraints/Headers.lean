import Mathlib.Data.List.TakeWhile
import PackageAtlas.Build.Context
import PackageAtlas.Proofs.Constraints.Grammar
import PackageAtlas.Proofs.History.Paths

/-!
Files that start with a constraint line. Such a file takes part in a build exactly when the words of
the line, without the white space around them, derive a formula that holds
(`matchesHeader_iff_derives`). A formula that is written with parentheses around each operand derives
itself, so that it decides by its truth.
-/

set_option autoImplicit false
set_option relaxedAutoImplicit false

namespace PackageAtlas

namespace Text

/-! ### Trimming -/

theorem trimEnd_append_of_blank {text blanks : List Char} (h : ∀ c ∈ blanks, isBlank c = true) :
    trimEnd (text ++ blanks) = trimEnd text := by
  unfold trimEnd
  rw [List.reverse_append, List.dropWhile_append_of_pos fun c hc ↦ h c (List.mem_reverse.1 hc)]

/-- Nothing is cut off before a character that is not white space. -/
theorem trimEnd_append_cons (before rest : List Char) {c : Char} (hc : isBlank c = false) :
    trimEnd (before ++ c :: rest) = before ++ c :: trimEnd rest := by
  unfold trimEnd
  have hstop : ∀ l : List Char, (c :: l).dropWhile isBlank = c :: l := fun l ↦
    List.dropWhile_cons_of_neg (by rw [hc]; decide)
  rw [List.reverse_append, List.reverse_cons, List.append_assoc, List.singleton_append,
    List.dropWhile_append]
  split
  · next hempty =>
    rw [hstop, List.isEmpty_iff.1 hempty]
    simp
  · simp

theorem exists_trimEnd (text : List Char) :
    ∃ blanks, text = trimEnd text ++ blanks ∧ ∀ c ∈ blanks, isBlank c = true := by
  refine ⟨(text.reverse.takeWhile isBlank).reverse, ?_, fun c hc ↦ ?_⟩
  · rw [trimEnd, ← List.reverse_append, List.takeWhile_append_dropWhile, List.reverse_reverse]
  · exact List.all_eq_true.1 List.all_takeWhile c (List.mem_reverse.1 hc)

theorem trim_trimEnd (text : List Char) : trim (trimEnd text) = trim text := by
  obtain ⟨blanks, htext, hblanks⟩ := exists_trimEnd text
  conv => rhs; rw [htext]
  unfold trim trimStart
  rw [List.dropWhile_append]
  split
  · next hempty =>
    have hnone : blanks.dropWhile isBlank = [] := List.dropWhile_eq_nil_iff.2 hblanks
    rw [List.isEmpty_iff.1 hempty, hnone]
  · rw [trimEnd_append_of_blank hblanks]

theorem trim_cons_of_blank {c : Char} (hc : isBlank c = true) (text : List Char) :
    trim (c :: text) = trim text := by
  rw [trim, trimStart, List.dropWhile_cons_of_pos hc]
  rfl

/-- A text with no white space at its ends is trimmed. -/
theorem trim_eq_self {text : List Char} (hfirst : ∀ c ∈ text.head?, isBlank c = false)
    (hlast : ∀ c ∈ text.getLast?, isBlank c = false) : trim text = text := by
  have hstart : trimStart text = text := by
    cases text with
    | nil => rfl
    | cons c rest => exact List.dropWhile_cons_of_neg (by rw [hfirst c rfl]; decide)
  rw [trim, hstart]
  rcases List.eq_nil_or_concat text with rfl | ⟨before, c, rfl⟩
  · rfl
  · rw [List.concat_eq_append] at hlast ⊢
    exact trimEnd_append_cons before [] (hlast c List.getLast?_concat)

end Text

open Text

/-! ### The first line of a header -/

/-- A text starts with a constraint line that has some words behind its mark. -/
structure Header.Opens (text : String) (words : List Char) : Prop where
  line : '\n' ∉ words
  text_eq : ∃ rest, text.toList = "//go:build ".toList ++ words ++ rest ∧
    ∀ c ∈ rest.head?, c = '\n'

/-- The first line of a text is its first part. -/
theorem exists_lines {line rest : List Char} (hline : '\n' ∉ line)
    (hrest : ∀ c ∈ rest.head?, c = '\n') : ∃ others, lines (line ++ rest) = line :: others := by
  cases rest with
  | nil => exact ⟨[], by rw [List.append_nil, lines, splitOn_of_not_mem hline]⟩
  | cons c rest =>
    rw [hrest c rfl]
    exact ⟨lines rest, by rw [lines, splitOn_append_cons, splitOn_of_not_mem hline]; rfl⟩

/-- The words of the first line are the formula of the header. -/
theorem Header.Opens.formula {text : String} {words : List Char} (h : Header.Opens text words) :
    (Header.ofText text).formula = some (trim words) := by
  obtain ⟨rest, htext, hrest⟩ := h.text_eq
  have hline : '\n' ∉ "//go:build ".toList ++ words := by
    rw [List.mem_append]
    exact not_or.2 ⟨by decide, h.line⟩
  obtain ⟨others, hothers⟩ := exists_lines hline hrest
  have htrim : trim ("//go:build ".toList ++ words) =
      '/' :: '/' :: ("go:build".toList ++ trimEnd (' ' :: words)) :=
    trimEnd_append_cons "//go:buil".toList (' ' :: words) (c := 'd') (by decide)
  have hformula : formulaLine? ("go:build".toList ++ trimEnd (' ' :: words)) =
      some (trim words) := by
    rw [formulaLine?, dropStart?_eq_some_iff.2 rfl, Option.map_some, trim_trimEnd,
      trim_cons_of_blank (by decide)]
  rw [ofText, htext, hothers, List.map_cons, htrim, ofLines, consComment, hformula]

/-! ### Written formulas -/

/-- The codes of the characters in a table. -/
theorem toNat_mem_of_inTable {table : List CodeRange} {c : Char} (h : inTable table c = true) :
    c.toNat ∈ table.flatMap fun run ↦ List.range' run.first (run.last + 1 - run.first) := by
  obtain ⟨run, hrun, hholds⟩ := List.any_eq_true.1 h
  simp only [CodeRange.holds, Bool.and_eq_true, decide_eq_true_eq] at hholds
  refine List.mem_flatMap.2 ⟨run, hrun, List.mem_range'_1.2 ⟨hholds.1.1, ?_⟩⟩
  omega

namespace Constraint

/-- White space is no part of a tag. -/
theorem isBlank_of_isTagPart {c : Char} (h : isTagPart c = true) : isBlank c = false := by
  have hcodes : ∀ code ∈ blankTable.flatMap fun run ↦
      List.range' run.first (run.last + 1 - run.first), isTagPart (Char.ofNat code) = false := by
    decide +kernel
  refine Bool.eq_false_iff.2 fun hblank ↦ ?_
  have hnot := hcodes c.toNat (toNat_mem_of_inTable hblank)
  rw [Char.ofNat_toNat] at hnot
  exact Bool.false_ne_true (hnot.symm.trans h)

/-- A formula with parentheses around each operand. -/
def text : Constraint → List Char
  | tag name => name.toList
  | not operand => '!' :: '(' :: (operand.text ++ [')'])
  | and left right =>
    '(' :: (left.text ++ ")".toList ++ " && ".toList ++ '(' :: (right.text ++ [')']))
  | or left right =>
    '(' :: (left.text ++ ")".toList ++ " || ".toList ++ '(' :: (right.text ++ [')']))

/-- The tokens of a formula that is written so. -/
def tokens : Constraint → List Token
  | tag name => [.tag name]
  | not operand => .not :: .lparen :: (operand.tokens ++ [.rparen])
  | and left right =>
    .lparen :: (left.tokens ++ [.rparen]) ++ .and :: .lparen :: (right.tokens ++ [.rparen])
  | or left right =>
    .lparen :: (left.tokens ++ [.rparen]) ++ .or :: .lparen :: (right.tokens ++ [.rparen])

/-- The tags of a formula. -/
def tags : Constraint → List String
  | tag name => [name]
  | not operand => operand.tags
  | and left right | or left right => left.tags ++ right.tags

/-- A tag that can be written. -/
def IsTag (name : String) : Prop := name ≠ "" ∧ ∀ c ∈ name.toList, isTagPart c = true

instance (name : String) : Decidable (IsTag name) :=
  decidable_of_iff (name ≠ "" ∧ name.toList.all isTagPart = true)
    (and_congr_right fun _ ↦ List.all_eq_true)

/-- What is written spells the tokens, whatever follows a formula that does not go on with a tag. -/
theorem spells_text {f : Constraint} (hf : ∀ name ∈ f.tags, IsTag name) {rest : List Char}
    {ts : List Token} (hrest : ∀ c ∈ rest.head?, isTagPart c = false) (h : Spells rest ts) :
    Spells (f.text ++ rest) (f.tokens ++ ts) := by
  -- a closing parenthesis ends a tag
  have hclose : ∀ {rest : List Char}, ∀ c ∈ (')' :: rest).head?, isTagPart c = false := by
    rintro rest c ⟨⟩
    decide
  induction f generalizing rest ts with
  | tag name =>
    obtain ⟨hne, hname⟩ := hf name List.mem_cons_self
    exact .tag hne hname hrest h
  | not operand ih =>
    have hoperand := ih hf hclose (.mark .rparen h)
    simpa [text, tokens] using Spells.mark .not (.mark .lparen hoperand)
  | and left right ihleft ihright =>
    obtain ⟨hleft, hright⟩ := List.forall_mem_append.1 hf
    have hsecond := Spells.mark .lparen (ihright hright hclose (.mark .rparen h))
    have hsign := Spells.blank (.inl rfl) (.mark .and (.blank (.inl rfl) hsecond))
    have hfirst := Spells.mark .lparen (ihleft hleft hclose (.mark .rparen hsign))
    simpa [text, tokens] using hfirst
  | or left right ihleft ihright =>
    obtain ⟨hleft, hright⟩ := List.forall_mem_append.1 hf
    have hsecond := Spells.mark .lparen (ihright hright hclose (.mark .rparen h))
    have hsign := Spells.blank (.inl rfl) (.mark .or (.blank (.inl rfl) hsecond))
    have hfirst := Spells.mark .lparen (ihleft hleft hclose (.mark .rparen hsign))
    simpa [text, tokens] using hfirst

theorem derives_tokens (f : Constraint) : Derives .alternatives f.tokens f := by
  induction f with
  | tag name => exact .alternative (.conjunct (.tag name))
  | not operand ih => exact .alternative (.conjunct (.not (.paren ih)))
  | and left right ihleft ihright =>
    exact .alternative (.and (.conjunct (.paren ihleft)) (.paren ihright))
  | or left right ihleft ihright =>
    exact .or (.alternative (.conjunct (.paren ihleft))) (.conjunct (.paren ihright))

/-- No white space stands around a written formula. -/
theorem trim_text {f : Constraint} (hf : ∀ name ∈ f.tags, IsTag name) : trim f.text = f.text := by
  have hparen : isBlank '(' = false ∧ isBlank ')' = false ∧ isBlank '!' = false := by decide
  refine trim_eq_self (fun c hc ↦ ?_) (fun c hc ↦ ?_)
  · cases f with
    | tag name =>
      exact isBlank_of_isTagPart ((hf name List.mem_cons_self).2 c (List.mem_of_mem_head? hc))
    | not => cases hc; exact hparen.2.2
    | and | or => cases hc; exact hparen.1
  · cases f with
    | tag name =>
      exact isBlank_of_isTagPart ((hf name List.mem_cons_self).2 c (List.mem_of_getLast? hc))
    | not | and | or =>
      simp only [text, List.getLast?_cons, List.getLast?_append, List.getLast?_nil,
        Option.getD_some, Option.mem_def, Option.some.injEq] at hc
      rw [← hc]
      exact hparen.2.1

end Constraint

/-! ### Files that take part -/

namespace BuildContext

open Constraint

/-- A file that starts with a constraint line takes part exactly when the words of the line derive a
formula that holds, and they derive one at most. A formula with parentheses around each operand
decides by its truth. -/
theorem matchesHeader_iff_derives (context : BuildContext) {text : String} {words : List Char}
    (h : Header.Opens text words) :
    (context.matchesHeader text = true ↔ ∃ ts f, Spells (trim words) ts ∧
      Derives .alternatives ts f ∧ f.holds context.matchesTag = true) ∧
    (∀ ts f ts' f', Spells (trim words) ts → Derives .alternatives ts f →
      Spells (trim words) ts' → Derives .alternatives ts' f' → ts = ts' ∧ f = f') ∧
    ∀ f : Constraint, (∀ name ∈ f.tags, IsTag name) → words = f.text →
      context.matchesHeader text = f.holds context.matchesTag := by
  have hmatches : context.matchesHeader text =
      (parse? (trim words)).any (·.holds context.matchesTag) := by
    rw [matchesHeader, h.formula]
  refine ⟨?_, fun ts f ts' f' hts hf hts' hf' ↦ ⟨?_, ?_⟩, fun f hf hwords ↦ ?_⟩
  · rw [hmatches, Option.any_eq_true]
    constructor
    · rintro ⟨f, hparse, hholds⟩
      obtain ⟨ts, hts, hf⟩ := parse?_eq_some_iff.1 hparse
      exact ⟨ts, f, hts, hf, hholds⟩
    · rintro ⟨ts, f, hts, hf, hholds⟩
      exact ⟨f, parse?_eq_some_iff.2 ⟨ts, hts, hf⟩, hholds⟩
  · exact Option.some.inj ((tokens?_of_spells hts).symm.trans (tokens?_of_spells hts'))
  · exact Option.some.inj ((parse?_eq_some_iff.2 ⟨ts, hts, hf⟩).symm.trans
      (parse?_eq_some_iff.2 ⟨ts', hts', hf'⟩))
  · have hspells : Spells (f.text ++ []) (f.tokens ++ []) :=
      spells_text hf (fun c hc ↦ by cases hc) .nil
    rw [List.append_nil, List.append_nil] at hspells
    have hparse : parse? f.text = some f := parse?_eq_some_iff.2 ⟨_, hspells, derives_tokens f⟩
    rw [hmatches, hwords, trim_text hf, hparse]
    rfl

/-- Alternatives below a conjunction, a negated tag, and a second constraint line that does not
count. -/
theorem matchesHeader_iff_derives_nested :
    let context : BuildContext := ⟨"linux", "amd64", ["b_1"], false⟩
    let f : Constraint := .and (.not (.tag "cgo")) (.or (.tag "ios") (.not (.not (.tag "b_1"))))
    let text := "//go:build (!(cgo)) && ((ios) || (!(!(b_1))))\n//go:build ios\npackage x\n"
    Header.Opens text f.text ∧ (∀ name ∈ f.tags, IsTag name) ∧
      context.matchesHeader text = true := by
  intro context f text
  have hrest : ∀ c ∈ "\n//go:build ios\npackage x\n".toList.head?, c = '\n' := by
    rintro c ⟨⟩
    rfl
  have hopens : Header.Opens text f.text := ⟨by decide, _, by decide, hrest⟩
  have htags : ∀ name ∈ f.tags, IsTag name := by decide
  exact ⟨hopens, htags,
    ((matchesHeader_iff_derives context hopens).2.2 f htags rfl).trans (by decide)⟩

end BuildContext

end PackageAtlas
