import PackageAtlas.Proofs.Constraints.Headers
import PackageAtlas.Proofs.History.Patterns
import PackageAtlas.Proofs.Lexing.Comments

/-!
Where a header ends. The lines of a header are read without the lexical rules, so that the block
comments of the two readings may differ. But a block comment that is open in the header is open by
the lexical rules as well. So a package clause that no comment stands before on its line ends the
header, and nothing behind it counts (`matchesHeader_of_clause`).
-/

set_option autoImplicit false
set_option relaxedAutoImplicit false

namespace PackageAtlas

open Lexeme

namespace Text

/-! ### Parts of texts -/

/-- A mark that starts with no white space stands behind the white space of a text. -/
theorem infix_dropWhile_isBlank {c : Char} {mark text : List Char} (hc : isBlank c = false)
    (h : c :: mark <:+: text) : c :: mark <:+: text.dropWhile isBlank := by
  induction text with
  | nil => exact h
  | cons d rest ih =>
    by_cases hd : isBlank d = true
    · rw [List.dropWhile_cons_of_pos hd]
      rcases List.infix_cons_iff.1 h with hprefix | hinfix
      · obtain ⟨rfl, -⟩ := List.cons_prefix_cons.1 hprefix
        rw [hc] at hd
        cases hd
      · exact ih hinfix
    · rwa [List.dropWhile_cons_of_neg hd]

theorem infix_trim_closer {text : List Char} (h : ['*', '/'] <:+: text) :
    ['*', '/'] <:+: trim text := by
  have hstart : ['*', '/'] <:+: trimStart text := infix_dropWhile_isBlank (by decide) h
  have hreverse : ['/', '*'] <:+: (trimStart text).reverse := List.reverse_infix.2 hstart
  exact List.reverse_infix.1 (by
    rw [trim, trimEnd, List.reverse_reverse]
    exact infix_dropWhile_isBlank (by decide) hreverse)

theorem exists_trim (text : List Char) : ∃ before after, text = before ++ trim text ++ after ∧
    ∀ c ∈ before, isBlank c = true := by
  obtain ⟨after, hafter, -⟩ := exists_trimEnd (trimStart text)
  refine ⟨text.takeWhile isBlank, after, ?_, fun c hc ↦ List.mem_takeWhile_imp hc⟩
  rw [trim, List.append_assoc, ← hafter]
  exact List.takeWhile_append_dropWhile.symm

end Text

open Text

/-! ### Whole lines -/

/-- Lines with their breaks. -/
def wholeLines (above : List (List Char)) : List Char := above.flatMap (· ++ ['\n'])

theorem wholeLines_cons_append (line : List Char) (above : List (List Char)) (rest : List Char) :
    wholeLines (line :: above) ++ rest = line ++ '\n' :: (wholeLines above ++ rest) := by
  rw [wholeLines, List.flatMap_cons, List.append_assoc, List.append_assoc]
  rfl

theorem lines_wholeLines {above : List (List Char)} (h : ∀ line ∈ above, '\n' ∉ line)
    (rest : List Char) : lines (wholeLines above ++ rest) = above ++ lines rest := by
  induction above with
  | nil => rfl
  | cons line above ih =>
    obtain ⟨hline, habove⟩ := List.forall_mem_cons.1 h
    rw [wholeLines_cons_append, lines, splitOn_append_cons, splitOn_of_not_mem hline, ← lines, ih habove]
    rfl

theorem getLast?_wholeLines (above : List (List Char)) :
    wholeLines above = [] ∨ (wholeLines above).getLast? = some '\n' := by
  rcases List.eq_nil_or_concat above with rfl | ⟨above, line, rfl⟩
  · exact .inl rfl
  · refine .inr ?_
    rw [wholeLines, List.concat_eq_append, List.flatMap_append, List.flatMap_singleton,
      ← List.append_assoc, List.getLast?_concat]

/-- A mark without a line break that occurs in lines is in one of them. -/
theorem infix_wholeLines {mark rest : List Char} (hmark : '\n' ∉ mark) {above : List (List Char)}
    (h : mark <:+: wholeLines above ++ rest) :
    (∃ line ∈ above, mark <:+: line) ∨ mark <:+: rest := by
  induction above with
  | nil => exact .inr h
  | cons line above ih =>
    rw [wholeLines_cons_append] at h
    rcases infix_append_cons hmark h with hline | hbelow
    · exact .inl ⟨line, List.mem_cons_self, hline⟩
    · exact (ih hbelow).imp_left fun ⟨other, hother, hin⟩ ↦
        ⟨other, List.mem_cons_of_mem _ hother, hin⟩

/-! ### Open comments of a header -/

namespace Header

/-- Whether the lines of a header are read to their end and leave a block comment open. -/
def leavesOpen : Bool → List (List Char) → Bool
  | isOpen, [] => isOpen
  | true, line :: rest => leavesOpen (!occursIn "*/".toList line) rest
  | false, line :: rest =>
    match line with
    | [] => leavesOpen false rest
    | '/' :: '*' :: _ => leavesOpen (!occursIn "*/".toList line) rest
    | '/' :: '/' :: _ => leavesOpen false rest
    | _ => false

/-- Lines that leave no comment open make a header of what they are and of what the lines behind
them are on their own. -/
theorem ofLines_append {isOpen : Bool} {above below below' : List (List Char)}
    (h : leavesOpen isOpen above = false) (hbelow : ofLines false below = ofLines false below') :
    ofLines isOpen (above ++ below) = ofLines isOpen (above ++ below') := by
  fun_induction leavesOpen isOpen above with
  | case1 isOpen =>
    subst h
    exact hbelow
  | case2 line rest ih => exact ih h
  | case3 rest ih => exact ih h
  | case4 rest tail ih => exact ih h
  | case5 rest comment ih => exact congrArg (consComment comment) (ih h)
  | case6 line rest hnil hblock hcomment =>
    have hstop (others : List (List Char)) : ofLines false (line :: others) = ⟨none, []⟩ := by
      rw [ofLines]
      · exact hnil
      · exact hblock
      · exact hcomment
    exact (hstop (rest ++ below)).trans (hstop (rest ++ below')).symm

/-- A comment that lines leave open was open before them, or a line opens it; it is not closed
anywhere behind. -/
theorem exists_of_leavesOpen {isOpen : Bool} {texts : List (List Char)}
    (h : leavesOpen isOpen texts = true) :
    (isOpen = true ∧ ∀ line ∈ texts, ¬ ['*', '/'] <:+: line) ∨
      ∃ above line below, texts = above ++ line :: below ∧ ['/', '*'] <+: line ∧
        ∀ other ∈ line :: below, ¬ ['*', '/'] <:+: other := by
  have hcloses (line : List Char) (hopen : (!occursIn "*/".toList line) = true) :
      ¬ ['*', '/'] <:+: line := by
    intro hinfix
    have hoccurs : occursIn "*/".toList line = true := occursIn_iff.2 hinfix
    rw [hoccurs] at hopen
    cases hopen
  fun_induction leavesOpen isOpen texts with
  | case1 => exact .inl ⟨h, fun _ hline ↦ by cases hline⟩
  | case2 line rest ih =>
    rcases ih h with ⟨hopen, hrest⟩ | ⟨above, other, below, rfl, hother⟩
    · exact .inl ⟨rfl, List.forall_mem_cons.2 ⟨hcloses line hopen, hrest⟩⟩
    · exact .inr ⟨line :: above, other, below, rfl, hother⟩
  | case3 rest ih =>
    rcases ih h with ⟨hopen, -⟩ | ⟨above, other, below, rfl, hother⟩
    · cases hopen
    · exact .inr ⟨[] :: above, other, below, rfl, hother⟩
  | case4 rest tail ih =>
    rcases ih h with ⟨hopen, hrest⟩ | ⟨above, other, below, rfl, hother⟩
    · exact .inr ⟨[], _, rest, rfl, ⟨tail, rfl⟩,
        List.forall_mem_cons.2 ⟨hcloses _ hopen, hrest⟩⟩
    · exact .inr ⟨_ :: above, other, below, rfl, hother⟩
  | case5 rest comment ih =>
    rcases ih h with ⟨hopen, -⟩ | ⟨above, other, below, rfl, hother⟩
    · cases hopen
    · exact .inr ⟨_ :: above, other, below, rfl, hother⟩
  | case6 => cases h

end Header

/-! ### Comments by the lexical rules -/

namespace Lexeme

/-- The texts of what is no token: white space, and comments. -/
inductive IsFiller : List Char → Prop
  | blank {c : Char} (hc : isBlank c = true) : IsFiller [c]
  | line {tail : List Char} (h : '\n' ∉ tail) : IsFiller ('/' :: '/' :: tail)
  | block (inner : List Char) : IsFiller ('/' :: '*' :: (inner ++ ['*', '/']))

theorem take_of_commentLength? {cs : List Char} {count : Nat} (h : commentLength? cs = some count) :
    ∃ inner, cs.take count = inner ++ ['*', '/'] := by
  fun_induction commentLength? cs generalizing count with
  | case1 => cases h
  | case2 rest =>
    cases h
    exact ⟨[], rfl⟩
  | case3 c rest hend ih =>
    obtain ⟨length, hlength, rfl⟩ := Option.map_eq_some_iff.1 h
    obtain ⟨inner, hinner⟩ := ih hlength
    exact ⟨c :: inner, by rw [List.take_succ_cons, hinner]; rfl⟩

theorem isFiller_of_longest? {c : Char} {rest : List Char} {lexeme : Lexeme} {length : Nat}
    (h : longest? c rest = some (lexeme.kind, length))
    (hchars : lexeme.chars = c :: rest.take (length - 1)) (htoken : lexeme.token? = none) :
    IsFiller lexeme.chars := by
  generalize hkind : lexeme.kind = kind at h
  rw [hchars]
  cases form_of_longest? h with
  | newline hc =>
    subst hc
    exact .blank (by decide)
  | blank hc => exact .blank (by rcases hc with rfl | rfl | rfl <;> decide)
  | @lineComment tail hc hrest =>
    rw [hc, hrest, show ∀ n, 2 + n - 1 = n + 1 from by omega, List.take_succ_cons, runLength,
      ← List.prefix_iff_eq_take.1 (List.takeWhile_prefix _)]
    refine .line fun hmem ↦ ?_
    have hne := List.mem_takeWhile_imp hmem
    simp at hne
  | @blockComment tail count hc hrest hcount =>
    obtain ⟨inner, hinner⟩ := take_of_commentLength? hcount
    rw [hc, hrest, show ∀ n, 2 + n - 1 = n + 1 from by omega, List.take_succ_cons, hinner]
    exact .block inner
  | _ =>
    rw [token?, hkind] at htoken
    cases htoken

/-- The first letter of the keyword of a package clause. -/
theorem head_of_package {c : Char} {rest : List Char} {length : Nat}
    (h : longest? c rest = some (.token .kwPackage, length)) : c = 'p' := by
  generalize hkind : LexemeKind.token .kwPackage = kind at h
  cases form_of_longest? h with
  | word =>
    have hword := (LexemeKind.token.inj hkind).symm
    rw [TokenKind.ofWord] at hword
    cases hfound : TokenKind.keywords.lookup
        (String.ofList ((c :: rest).take (1 + runLength isNamePart rest))) with
    | none =>
      rw [hfound] at hword
      cases hword
    | some found =>
      obtain ⟨before, after, hkeywords, -⟩ := List.lookup_eq_some_iff.1 hfound
      have hall : ∀ keyword ∈ TokenKind.keywords, keyword.2 = .kwPackage →
          keyword.1.toList.head? = some 'p' := by decide
      rw [hfound] at hword
      have hspelled := hall (_, found)
        (hkeywords ▸ List.mem_append_right _ List.mem_cons_self) hword
      rw [String.toList_ofList, Nat.add_comm, List.take_succ_cons] at hspelled
      exact Option.some.inj hspelled
  | number =>
    have hpackage := LexemeKind.token.inj hkind
    rcases number_kind (c :: rest) with hint | hfloat
    · cases hpackage.trans hint
    · cases hpackage.trans hfloat
  | mark hfound =>
    obtain ⟨mark, hmark, hmarkKind, -⟩ := mem_marks_of_mark? hfound
    have hall : ∀ mark ∈ TokenKind.marks, mark.2 ≠ .kwPackage := by decide
    exact absurd (hmarkKind.trans (LexemeKind.token.inj hkind).symm) (hall mark hmark)
  | _ => cases hkind

theorem offset_of_adjacent {offset : Nat} {earlier later : List Lexeme} {lexeme : Lexeme}
    (h : Adjacent offset (earlier ++ lexeme :: later)) :
    lexeme.offset = offset + byteLength (earlier.flatMap (·.chars)) := by
  induction earlier generalizing offset with
  | nil =>
    cases h
    rfl
  | cons first earlier ih =>
    cases h with
    | cons hchars hrest =>
      rw [ih hrest, Lexeme.stop, List.flatMap_cons, byteLength_append, Nat.add_assoc]

/-- A character of pieces in a row is in one of them. -/
theorem exists_piece {α β : Type} {f : β → List α} {pieces : List β} {before after : List α} {c : α}
    (h : pieces.flatMap f = before ++ c :: after) :
    ∃ earlier piece later start rest, pieces = earlier ++ piece :: later ∧
      f piece = start ++ c :: rest ∧ before = earlier.flatMap f ++ start ∧
      after = rest ++ later.flatMap f := by
  induction pieces generalizing before with
  | nil => cases before <;> cases h
  | cons piece pieces ih =>
    rw [List.flatMap_cons] at h
    rcases List.append_eq_append_iff.1 h with ⟨middle, rfl, hbehind⟩ | ⟨middle, hpiece, hbehind⟩
    · obtain ⟨earlier, other, later, start, rest, rfl, hother, rfl, rfl⟩ := ih hbehind
      exact ⟨piece :: earlier, other, later, start, rest, rfl, hother,
        (List.append_assoc ..).symm, rfl⟩
    · cases middle with
      | nil =>
        obtain ⟨earlier, other, later, start, rest, rfl, hother, hbefore, rfl⟩ :=
          @ih [] hbehind.symm
        refine ⟨piece :: earlier, other, later, start, rest, rfl, hother, ?_, rfl⟩
        rw [List.flatMap_cons, List.append_assoc, ← hbefore, hpiece, List.append_nil,
          List.append_nil]
      | cons d middle =>
        obtain ⟨rfl, rfl⟩ := List.cons.inj hbehind
        exact ⟨[], piece, pieces, before, middle, rfl, hpiece, rfl, rfl⟩

/-- Behind whole lines and white space, the last character that is no white space stands on a line
above. -/
theorem newline_mem_of_append {above blanks before rest : List Char} {c : Char}
    (habove : above = [] ∨ above.getLast? = some '\n') (hblanks : ∀ c ∈ blanks, isBlank c = true)
    (h : above ++ blanks = before ++ c :: rest) (hc : isBlank c = false) : '\n' ∈ rest := by
  have hnot : c ∉ blanks := fun hmem ↦ Bool.false_ne_true (hc.symm.trans (hblanks c hmem))
  rcases List.append_eq_append_iff.1 h with ⟨middle, -, hmiddle⟩ | ⟨middle, hmiddle, hrest⟩
  · exact absurd (hmiddle ▸ List.mem_append_right _ List.mem_cons_self) hnot
  · cases middle with
    | nil =>
      rw [List.nil_append] at hrest
      exact absurd (hrest ▸ List.mem_cons_self) hnot
    | cons d middle =>
      obtain ⟨rfl, rfl⟩ := List.cons.inj hrest
      rw [hmiddle] at habove
      have hlast := habove.resolve_left
        (List.append_ne_nil_of_right_ne_nil _ (List.cons_ne_nil _ _))
      rw [List.getLast?_append_of_ne_nil _ (List.cons_ne_nil _ _)] at hlast
      rcases List.mem_cons.1 (List.mem_of_getLast? hlast) with rfl | hmem
      · exact absurd hc (by decide)
      · exact List.mem_append_left _ hmem

/-- Where no token is, an opener of a block comment with only white space before it on its line is
in a comment that is closed behind it. -/
theorem closer_of_opener {fillers : List Lexeme}
    (hfillers : ∀ lexeme ∈ fillers, IsFiller lexeme.chars) {above blanks rest : List Char}
    (habove : above = [] ∨ above.getLast? = some '\n') (hblanks : ∀ c ∈ blanks, isBlank c = true)
    (h : fillers.flatMap (·.chars) = above ++ blanks ++ '/' :: '*' :: rest) :
    ['*', '/'] <:+: '*' :: rest := by
  obtain ⟨earlier, piece, later, start, behind, rfl, hpiece, hbefore, hrest⟩ := exists_piece h
  have hform := hfillers piece (List.mem_append_right _ List.mem_cons_self)
  rw [hpiece] at hform
  generalize hchars : start ++ '/' :: behind = chars at hform
  cases hform with
  | @blank c hc =>
    rcases List.append_eq_singleton_iff.1 hchars with ⟨-, hsingle⟩ | ⟨-, hempty⟩
    · cases hsingle
      exact absurd hc (by decide)
    · cases hempty
  | @line tail htail =>
    cases start with
    | nil =>
      obtain ⟨-, rfl⟩ := List.cons.inj hchars
      cases hrest
    | cons d start =>
      -- a line comment that starts before the opener would start on its line
      obtain ⟨rfl, hinner⟩ := List.cons.inj hchars
      have hnewline := newline_mem_of_append habove hblanks hbefore (by decide)
      have hmem : '\n' ∈ '/' :: tail := hinner ▸ List.mem_append_left _ hnewline
      exact absurd ((List.mem_cons.1 hmem).resolve_left (by decide)) htail
  | block inner =>
    have hsplit : start ++ '/' :: behind = ('/' :: '*' :: inner) ++ ['*', '/'] := hchars
    rcases List.append_eq_append_iff.1 hsplit with
      ⟨middle, -, hclose⟩ | ⟨middle, rfl, hclose⟩
    · cases middle with
      | nil => cases hclose
      | cons d middle =>
        obtain ⟨-, rfl⟩ := List.cons.inj hclose
        rw [hrest]
        exact ⟨middle, later.flatMap (·.chars), rfl⟩
    · -- the opener does not end a comment that is closed by its first character
      rcases middle with _ | ⟨d, _ | ⟨e, middle⟩⟩
      · cases hclose
      · obtain ⟨rfl, -⟩ := List.cons.inj hclose
        rw [← List.append_assoc] at hbefore
        cases newline_mem_of_append habove hblanks hbefore (by decide)
      · have hlength := congrArg List.length hclose
        simp at hlength

end Lexeme

/-! ### The package clause -/

namespace TokenStream

/-- Before its first token a text has white space and comments. -/
theorem exists_fillers {size : Nat} {lexemes : List Lexeme} {token : Token}
    (h : (ofLexemes size false lexemes).tokens.head? = some token) :
    ∃ fillers lexeme later, lexemes = fillers ++ lexeme :: later ∧
      (∀ filler ∈ fillers, filler.token? = none) ∧ lexeme.token? = some token := by
  induction lexemes with
  | nil => cases h
  | cons lexeme rest ih =>
    cases htoken : lexeme.token? with
    | none =>
      rw [ofLexemes_cons_other _ _ _ htoken, Bool.false_and, if_neg Bool.false_ne_true] at h
      obtain ⟨fillers, first, later, rfl, hfillers, hfirst⟩ := ih h
      exact ⟨lexeme :: fillers, first, later, rfl, List.forall_mem_cons.2 ⟨htoken, hfillers⟩,
        hfirst⟩
    | some found =>
      obtain ⟨hkind, -⟩ := token?_eq_some htoken
      rw [ofLexemes_cons_token _ _ _ hkind] at h
      have hsame : lexeme.token? = some ⟨found.kind, lexeme.text, lexeme.offset⟩ := by
        rw [token?, hkind]
      exact ⟨[], lexeme, rest, rfl, List.forall_mem_nil _, hsame.trans h⟩

end TokenStream

namespace Header

/-- A text whose first token is the keyword of a package clause, behind whole lines and white space
on its own line. -/
structure ClauseBehind (text : String) (above : List (List Char)) (blanks : List Char) : Prop where
  first : ∃ stream token, TokenStream.ofText text = .ok stream ∧
    stream.tokens.head? = some token ∧ token.kind = .kwPackage ∧
    token.offset = byteLength (wholeLines above ++ blanks)
  starts : wholeLines above ++ blanks <+: text.toList
  lines : ∀ line ∈ above, '\n' ∉ line
  blank : ∀ c ∈ blanks, isBlank c = true ∧ c ≠ '\n'

/-- Where no token is, no block comment is left open at a line that is white space to the end. -/
theorem leavesOpen_of_fillers {fillers : List Lexeme}
    (hfillers : ∀ lexeme ∈ fillers, IsFiller lexeme.chars) {above : List (List Char)}
    {blanks : List Char} (hblanks : ∀ c ∈ blanks, isBlank c = true)
    (h : fillers.flatMap (·.chars) = wholeLines above ++ blanks) :
    leavesOpen false (above.map trim) = false := by
  refine Bool.eq_false_iff.2 fun hopen ↦ ?_
  rcases exists_of_leavesOpen hopen with
    ⟨hnot, -⟩ | ⟨trimmed, opener, below, habove, hopener, hnone⟩
  · cases hnot
  obtain ⟨earlier, others, rfl, -, hothers⟩ := List.map_eq_append_iff.1 habove
  obtain ⟨line, later, rfl, rfl, rfl⟩ := List.map_eq_cons_iff.1 hothers
  obtain ⟨hclosed, hlater⟩ := List.forall_mem_cons.1 hnone
  obtain ⟨rest, hrest⟩ := hopener
  obtain ⟨before, after, hline, hbefore⟩ := exists_trim line
  rw [← hrest] at hline
  have htext : fillers.flatMap (·.chars) = wholeLines earlier ++ before ++ '/' :: '*' ::
      (rest ++ after ++ '\n' :: (wholeLines later ++ blanks)) := by
    rw [h, wholeLines, List.flatMap_append, List.flatMap_cons, hline]
    simp [wholeLines]
  have hcloser := closer_of_opener hfillers (getLast?_wholeLines earlier) hbefore htext
  have hsplit : '*' :: (rest ++ after ++ '\n' :: (wholeLines later ++ blanks)) =
      ('*' :: (rest ++ after)) ++ '\n' :: (wholeLines later ++ blanks) := rfl
  rw [hsplit] at hcloser
  rcases infix_append_cons (by decide) hcloser with hsame | hbelow
  · refine hclosed (infix_trim_closer (hsame.trans ⟨before ++ ['/'], [], ?_⟩))
    rw [hline]
    simp
  · rcases infix_wholeLines (by decide) hbelow with ⟨other, hother, hin⟩ | hblank
    · exact hlater (trim other) (List.mem_map_of_mem hother) (infix_trim_closer hin)
    · exact absurd (hblanks '*' (hblank.subset List.mem_cons_self)) (by decide)

/-- A line whose first character is neither white space nor a slash ends a header. -/
theorem ofLines_of_clause {blanks : List Char} (hblanks : ∀ c ∈ blanks, isBlank c = true ∧ c ≠ '\n')
    {c : Char} (hc : isBlank c = false) (hslash : c ≠ '/') (rest : List Char) :
    ofLines false ((Text.lines (blanks ++ c :: rest)).map trim) = ⟨none, []⟩ := by
  have hbreak : c ≠ '\n' := by
    rintro rfl
    exact absurd hc (by decide)
  have hfirst : ∀ before : List Char, (∀ d ∈ before, d ≠ '\n') → ∃ tail others,
      Text.lines (before ++ c :: rest) = (before ++ c :: tail) :: others := by
    intro before hbefore
    induction before with
    | nil =>
      obtain ⟨part, parts, hparts⟩ := List.exists_cons_of_ne_nil (splitOn_ne_nil '\n' rest)
      refine ⟨part, parts, (splitAt_cons hparts).trans (if_neg ?_)⟩
      exact fun heq ↦ hbreak (beq_iff_eq.1 heq)
    | cons d before ih =>
      obtain ⟨hd, hbefore⟩ := List.forall_mem_cons.1 hbefore
      obtain ⟨tail, others, hlines⟩ := ih hbefore
      refine ⟨tail, others, (splitAt_cons hlines).trans (if_neg ?_)⟩
      exact fun heq ↦ hd (beq_iff_eq.1 heq)
  obtain ⟨tail, others, hlines⟩ := hfirst blanks fun d hd ↦ (hblanks d hd).2
  have htrim : trim (blanks ++ c :: tail) = c :: trimEnd tail := by
    rw [trim, trimStart, List.dropWhile_append_of_pos fun d hd ↦ (hblanks d hd).1,
      List.dropWhile_cons_of_neg (by rw [hc]; decide)]
    exact trimEnd_append_cons [] tail hc
  rw [hlines, List.map_cons, htrim, ofLines]
  · exact List.cons_ne_nil _ _
  · exact fun _ heq ↦ hslash (List.cons.inj heq).1
  · exact fun _ heq ↦ hslash (List.cons.inj heq).1

section Clause

variable {text : String} {above : List (List Char)} {blanks : List Char}
  (h : ClauseBehind text above blanks)
include h

/-- What stands before the clause is what the lexemes before its keyword are made of. -/
theorem ClauseBehind.exists_fillers : ∃ (fillers : List Lexeme) (rest : List Char),
    (∀ filler ∈ fillers, IsFiller filler.chars) ∧
      fillers.flatMap (·.chars) = wholeLines above ++ blanks ∧
      text.toList = wholeLines above ++ blanks ++ 'p' :: rest := by
  obtain ⟨stream, token, hstream, hfirst, hkind, hoffset⟩ := h.first
  obtain ⟨lexemes, hcut, rfl⟩ := TokenStream.exists_cut_of_ofText hstream
  obtain ⟨fillers, lexeme, later, rfl, hfillers, hlexeme⟩ := TokenStream.exists_fillers hfirst
  obtain ⟨hadjacent, htexts⟩ := adjacent_cut hcut
  obtain ⟨hlexemeKind, htokenOffset, -⟩ := token?_eq_some hlexeme
  obtain ⟨behind, hbehind⟩ := h.starts
  have hlongest := exists_longest?_of_mem_cut hcut
  rw [List.flatMap_append, List.flatMap_cons] at htexts
  -- both are the bytes of the text up to the keyword
  have hbefore : fillers.flatMap (·.chars) = wholeLines above ++ blanks := by
    have htake (before cs : List Char) :
        Parser.takeBytes (byteLength before) (before ++ cs) = before := by
      rw [← Nat.add_zero (byteLength before), takeBytes_append, takeBytes_zero, List.append_nil]
    have hbytes : byteLength (fillers.flatMap (·.chars)) =
        byteLength (wholeLines above ++ blanks) := by
      rw [← hoffset, htokenOffset, offset_of_adjacent hadjacent, Nat.zero_add]
    have hfirst := htake (fillers.flatMap (·.chars)) (lexeme.chars ++ later.flatMap (·.chars))
    rw [htexts, hbytes, ← hbehind, htake] at hfirst
    exact hfirst.symm
  obtain ⟨c, rest, length, hpackage, hchars⟩ :=
    hlongest lexeme (List.mem_append_right _ List.mem_cons_self)
  rw [hlexemeKind, hkind] at hpackage
  refine ⟨fillers, rest.take (length - 1) ++ later.flatMap (·.chars), fun filler hfiller ↦ ?_,
    hbefore, ?_⟩
  · obtain ⟨c, rest, length, hfound, hchars⟩ := hlongest filler (List.mem_append_left _ hfiller)
    exact isFiller_of_longest? hfound hchars (hfillers filler hfiller)
  · rw [← htexts, hbefore, hchars, head_of_package hpackage]
    rfl

/-- The header of a text with a package clause that no comment stands before on its line is that of
the lines above the clause. -/
theorem ClauseBehind.ofText_eq :
    ofText text = ofText (String.ofList (wholeLines above ++ blanks ++ "package x".toList)) := by
  obtain ⟨fillers, rest, hfillers, hbefore, htext⟩ := h.exists_fillers
  have hopen : leavesOpen false (above.map trim) = false :=
    leavesOpen_of_fillers hfillers (fun c hc ↦ (h.blank c hc).1) hbefore
  have hheader (rest : List Char) :
      ofLines false ((Text.lines (wholeLines above ++ blanks ++ 'p' :: rest)).map trim) =
        ofLines false (above.map trim ++ []) := by
    rw [List.append_assoc, lines_wholeLines h.lines, List.map_append]
    refine ofLines_append hopen ?_
    rw [ofLines_of_clause h.blank (by decide) (by decide)]
    rfl
  have hclause : (String.ofList (wholeLines above ++ blanks ++ "package x".toList)).toList =
      wholeLines above ++ blanks ++ 'p' :: "ackage x".toList := String.toList_ofList
  rw [ofText, ofText, htext, hclause]
  exact (hheader _).trans (hheader _).symm

end Clause

/-- A comment before the clause on its line hides the clause, and what follows counts. -/
example : ofText "/* c */ package p\n//go:build windows\n" ≠ ofText "/* c */ package x" := by
  decide +kernel

end Header

namespace BuildContext

/-- Only the header counts, if no comment stands before the package clause on its line: whatever
follows the clause, the file takes part in the same builds. -/
theorem matchesHeader_of_clause (context : BuildContext) {text : String}
    {above : List (List Char)} {blanks : List Char} (h : Header.ClauseBehind text above blanks) :
    context.matchesHeader text = context.matchesHeader
      (String.ofList (wholeLines above ++ blanks ++ "package x".toList)) := by
  unfold matchesHeader
  rw [h.ofText_eq]

end BuildContext

end PackageAtlas
