import Mathlib.Data.List.Find
import PackageAtlas.Proofs.Spans.Tokens

/-!
Where tokens end. What a token looks at behind its own characters ends at the latest with the next
space, newline or comment. So a token stays the longest lexeme when the text behind it is replaced by
one that agrees up to there and goes on with a space or a newline, or is at its end
(`Agree.longest?`).
-/

set_option autoImplicit false
set_option relaxedAutoImplicit false

namespace PackageAtlas

open Lexeme

/-! ### Texts that agree up to a break -/

/-- The end of a text, a space or a newline. -/
def Breaks (cs : List Char) : Prop := ∀ c ∈ cs.head?, c = ' ' ∨ c = '\n'

def OpensComment (cs : List Char) : Prop := ['/', '/'] <+: cs ∨ ['/', '*'] <+: cs

/-- Two texts that share their characters up to a break, where the first may have a comment. -/
inductive Agree : List Char → List Char → Prop
  | ends {cs cs' : List Char} (h : Breaks cs ∨ OpensComment cs) (h' : Breaks cs') : Agree cs cs'
  | cons {cs cs' : List Char} (c : Char) (h : Agree cs cs') : Agree (c :: cs) (c :: cs')

/-- A text that no run of characters of a token goes into. -/
def Stopped (cs : List Char) : Prop := ∀ c ∈ cs.head?, c = ' ' ∨ c = '\n' ∨ c = '/'

theorem Breaks.stopped {cs : List Char} (h : Breaks cs) : Stopped cs := fun c hc ↦
  (h c hc).imp_right .inl

theorem OpensComment.stopped {cs : List Char} (h : OpensComment cs) : Stopped cs := by
  rcases h with ⟨tail, rfl⟩ | ⟨tail, rfl⟩ <;> exact fun c hc ↦ by cases hc; exact .inr (.inr rfl)

/-- A test that rejects all characters a stopped text can start with. -/
structure Rejects (test : Char → Bool) : Prop where
  space : test ' ' = false
  newline : test '\n' = false
  slash : test '/' = false

theorem rejects_isDigit : Rejects Char.isDigit := ⟨rfl, rfl, rfl⟩

theorem rejects_isDigitOrBar : Rejects isDigitOrBar := ⟨rfl, rfl, rfl⟩

theorem rejects_isHexDigitOrBar : Rejects isHexDigitOrBar := ⟨rfl, rfl, rfl⟩

theorem rejects_isNamePart : Rejects isNamePart := ⟨rfl, rfl, rfl⟩

theorem Stopped.runLength {cs : List Char} (h : Stopped cs) {test : Char → Bool}
    (htest : Rejects test) : runLength test cs = 0 := by
  cases cs with
  | nil => rfl
  | cons c cs =>
    rw [Lexeme.runLength, List.takeWhile_cons_of_neg]
    · rfl
    · rcases h c rfl with rfl | rfl | rfl
      · rw [htest.space]; exact Bool.false_ne_true
      · rw [htest.newline]; exact Bool.false_ne_true
      · rw [htest.slash]; exact Bool.false_ne_true

namespace Agree

variable {cs cs' : List Char}

theorem append (before : List Char) (h : Agree cs cs') : Agree (before ++ cs) (before ++ cs') := by
  induction before with
  | nil => exact h
  | cons c before ih => exact ih.cons c

/-- What the second text starts with, if not with a break, the first one starts with as well. -/
theorem eq_cons (h : Agree cs cs') {c : Char} {tail' : List Char} (hspace : c ≠ ' ')
    (hnewline : c ≠ '\n') (hc : cs' = c :: tail') : ∃ tail, cs = c :: tail := by
  cases h with
  | ends h h' =>
    subst hc
    exact ((h' c rfl).elim hspace hnewline).elim
  | cons d h =>
    obtain ⟨rfl, -⟩ := List.cons.inj hc
    exact ⟨_, rfl⟩

/-- A run of characters has the same length in both texts, and they agree behind it. -/
theorem run (h : Agree cs cs') {test : Char → Bool} (htest : Rejects test) :
    runLength test cs' = runLength test cs ∧
      Agree (cs.drop (runLength test cs)) (cs'.drop (runLength test cs)) := by
  induction h with
  | ends h h' =>
    have hstopped := h.elim Breaks.stopped OpensComment.stopped
    rw [hstopped.runLength htest, h'.stopped.runLength htest]
    exact ⟨rfl, .ends h h'⟩
  | @cons cs cs' c h ih =>
    unfold runLength at ih ⊢
    cases hc : test c with
    | true =>
      rw [List.takeWhile_cons_of_pos hc, List.takeWhile_cons_of_pos hc]
      exact ⟨congrArg (· + 1) ih.1, ih.2⟩
    | false =>
      rw [List.takeWhile_cons_of_neg (by simp [hc]), List.takeWhile_cons_of_neg (by simp [hc])]
      exact ⟨rfl, h.cons c⟩

/-! ### Numbers -/

theorem exponentLength_of_stopped (h : Stopped cs) : exponentLength cs = 0 := by
  cases cs with
  | nil => rfl
  | cons c cs =>
    rcases h c rfl with rfl | rfl | rfl <;> rfl

/-- An exponent needs digits. -/
theorem exponentLength_cons_of_stopped (c : Char) (h : Stopped cs) :
    exponentLength (c :: cs) = 0 := by
  cases cs with
  | nil => simp [exponentLength]
  | cons d cs =>
    have hsign : ¬(d = '+' ∨ d = '-') := by
      rcases h d rfl with rfl | rfl | rfl <;> decide
    simp [exponentLength, hsign, h.runLength rejects_isDigit]

theorem exponentLength (h : Agree cs cs') :
    Lexeme.exponentLength cs' = Lexeme.exponentLength cs := by
  cases h with
  | ends h h' =>
    rw [exponentLength_of_stopped (h.elim Breaks.stopped OpensComment.stopped),
      exponentLength_of_stopped h'.stopped]
  | cons c h =>
    cases h with
    | ends h h' =>
      rw [exponentLength_cons_of_stopped c (h.elim Breaks.stopped OpensComment.stopped),
        exponentLength_cons_of_stopped c h'.stopped]
    | cons sign h =>
      simp only [Lexeme.exponentLength, (h.run rejects_isDigit).1,
        ((h.cons sign).run rejects_isDigit).1]

end Agree

namespace Lexeme

/-- A decimal number by the number of its first digits and the text behind them. -/
def decimalFrom (whole : Nat) : List Char → TokenKind × Nat
  | '.' :: rest =>
    let fraction := runLength isDigitOrBar rest
    (.float, whole + 1 + fraction + exponentLength (rest.drop fraction))
  | rest =>
    match exponentLength rest with
    | 0 => (.int, whole)
    | exponent => (.float, whole + exponent)

def decimal (cs : List Char) : TokenKind × Nat :=
  decimalFrom (runLength isDigitOrBar cs) (cs.drop (runLength isDigitOrBar cs))

/-- Hexadecimal digits behind a zero and a mark. -/
def hexadecimal? : List Char → Option Nat
  | '0' :: x :: rest =>
    if (x = 'x' ∨ x = 'X') ∧ runLength isHexDigitOrBar rest ≠ 0 then
      some (2 + runLength isHexDigitOrBar rest)
    else none
  | _ => none

theorem number_eq (cs : List Char) :
    number cs = ((hexadecimal? cs).map (TokenKind.int, ·)).getD (decimal cs) := by
  unfold hexadecimal?
  split
  · unfold number
    split_ifs with h
    · exact if_pos h
    · exact if_neg h
  · next hne =>
    unfold number
    split
    · exact absurd rfl (hne _ _)
    · rfl

theorem decimalFrom_of_head? {whole : Nat} {rest : List Char} (h : rest.head? ≠ some '.') :
    decimalFrom whole rest =
      if exponentLength rest = 0 then (.int, whole) else (.float, whole + exponentLength rest) := by
  unfold decimalFrom
  split
  · exact absurd rfl h
  · split
    · next hzero => rw [if_pos hzero]
    · next hne => rw [if_neg hne]

end Lexeme

namespace Agree

variable {cs cs' : List Char}

theorem decimal (h : Agree cs cs') : Lexeme.decimal cs' = Lexeme.decimal cs := by
  obtain ⟨hrun, hbehind⟩ := h.run rejects_isDigitOrBar
  rw [Lexeme.decimal, Lexeme.decimal, hrun]
  generalize runLength isDigitOrBar cs = whole at hbehind ⊢
  generalize cs.drop whole = rest at hbehind ⊢
  generalize cs'.drop whole = rest' at hbehind ⊢
  have hexponent := hbehind.exponentLength
  cases hbehind with
  | ends h h' =>
    have hdot {text : List Char} (hstopped : Stopped text) : text.head? ≠ some '.' := fun hdot ↦ by
      rcases hstopped '.' hdot with hdot | hdot | hdot <;> cases hdot
    rw [decimalFrom_of_head? (hdot h'.stopped),
      decimalFrom_of_head? (hdot (h.elim Breaks.stopped OpensComment.stopped)), hexponent]
  | cons c h =>
    by_cases hc : c = '.'
    · subst hc
      obtain ⟨hfraction, hend⟩ := h.run rejects_isDigitOrBar
      simp only [decimalFrom, hfraction, hend.exponentLength]
    · have hdot (tail : List Char) : (c :: tail).head? ≠ some '.' := fun hdot ↦
        hc (Option.some.inj hdot)
      rw [decimalFrom_of_head? (hdot _), decimalFrom_of_head? (hdot _), hexponent]

theorem hexadecimal? (h : Agree cs cs') : Lexeme.hexadecimal? cs' = Lexeme.hexadecimal? cs := by
  -- a stopped text ends a number before its mark
  have hnone {text : List Char} (hstopped : Stopped text) (zero : Char) :
      Lexeme.hexadecimal? text = none ∧ Lexeme.hexadecimal? (zero :: text) = none := by
    cases text with
    | nil => exact ⟨rfl, by simp [Lexeme.hexadecimal?]⟩
    | cons c text =>
      by_cases hzero : zero = '0' <;> rcases hstopped c rfl with rfl | rfl | rfl <;>
        simp [Lexeme.hexadecimal?, hzero]
  cases h with
  | ends h h' =>
    rw [(hnone h'.stopped '0').1, (hnone (h.elim Breaks.stopped OpensComment.stopped) '0').1]
  | cons zero h =>
    cases h with
    | ends h h' =>
      rw [(hnone h'.stopped zero).2,
        (hnone (h.elim Breaks.stopped OpensComment.stopped) zero).2]
    | cons x h =>
      unfold Lexeme.hexadecimal?
      by_cases hzero : zero = '0'
      · subst hzero
        simp only [(h.run rejects_isHexDigitOrBar).1]
      · simp [hzero]

theorem number (h : Agree cs cs') : Lexeme.number cs' = Lexeme.number cs := by
  rw [number_eq, number_eq, h.hexadecimal?, h.decimal]

/-! ### Marks -/

/-- A word that a stopped text cannot start with is the start of both texts or of neither. -/
theorem isPrefixOf (h : Agree cs cs') {word : List Char}
    (hword : ∀ c ∈ word, c ≠ ' ' ∧ c ≠ '\n' ∧ c ≠ '/') :
    word.isPrefixOf cs' = word.isPrefixOf cs := by
  induction word generalizing cs cs' with
  | nil => rfl
  | cons d word ih =>
    obtain ⟨hd, hrest⟩ := List.forall_mem_cons.1 hword
    cases h with
    | ends h h' =>
      have hfalse {text : List Char} (hstopped : Stopped text) :
          (d :: word).isPrefixOf text = false := by
        cases text with
        | nil => rfl
        | cons c text =>
          have hne : (d == c) = false := by
            rcases hstopped c rfl with rfl | rfl | rfl
            · exact beq_false_of_ne hd.1
            · exact beq_false_of_ne hd.2.1
            · exact beq_false_of_ne hd.2.2
          rw [List.isPrefixOf, hne, Bool.false_and]
      rw [hfalse h'.stopped, hfalse (h.elim Breaks.stopped OpensComment.stopped)]
    | cons c h => rw [List.isPrefixOf, List.isPrefixOf, ih h hrest]

theorem mark? (h : Agree cs cs') (c : Char) : Lexeme.mark? (c :: cs') = Lexeme.mark? (c :: cs) := by
  have hall : TokenKind.marks.all (·.1.toList.tail.all fun d ↦ d ≠ ' ' ∧ d ≠ '\n' ∧ d ≠ '/') =
      true := by decide
  have htails : ∀ mark ∈ TokenKind.marks, ∀ d ∈ mark.1.toList.tail,
      d ≠ ' ' ∧ d ≠ '\n' ∧ d ≠ '/' := fun mark hmark d hd ↦
    of_decide_eq_true (List.all_eq_true.1 (List.all_eq_true.1 hall mark hmark) d hd)
  have hprefix : ∀ mark ∈ TokenKind.marks,
      mark.1.toList.isPrefixOf (c :: cs') = mark.1.toList.isPrefixOf (c :: cs) := by
    intro mark hmark
    have htail := htails mark hmark
    cases hword : mark.1.toList with
    | nil => rfl
    | cons d word =>
      rw [hword, List.tail_cons] at htail
      rw [List.isPrefixOf, List.isPrefixOf, h.isPrefixOf htail]
  unfold Lexeme.mark?
  rw [List.find?_congr hprefix]

end Agree

/-! ### Quoted texts -/

theorem quotedLength?_cons {quote c : Char} (h : c ≠ '\\') (rest : List Char) :
    quotedLength? quote (c :: rest) =
      if c = quote then some 1
      else if c = '\n' then none
      else (quotedLength? quote rest).map (· + 1) := by
  rw [quotedLength?]
  · exact fun hc _ ↦ h hc
  · exact fun _ _ hc _ ↦ h hc

/-- A quoted text ends with its quote, whatever follows. -/
theorem quotedLength?_append {quote : Char} (hquote : quote ≠ '\\') {cs : List Char} {count : Nat}
    (h : quotedLength? quote cs = some count) :
    count ≤ cs.length ∧ ∀ rest, quotedLength? quote (cs.take count ++ rest) = some count := by
  fun_induction quotedLength? quote cs generalizing count with
  | case1 | case2 | case3 | case6 => cases h
  | case4 c rest hc ih =>
    obtain ⟨length, hlength, rfl⟩ := Option.map_eq_some_iff.1 h
    obtain ⟨hle, hrest⟩ := ih hlength
    refine ⟨by simpa using hle, fun tail ↦ ?_⟩
    simp [quotedLength?, hc, hrest]
  | case5 rest =>
    cases h
    refine ⟨Nat.le_add_left _ _, fun tail ↦ ?_⟩
    rw [List.take_succ_cons, List.cons_append, quotedLength?_cons hquote, if_pos rfl]
  | case7 c rest hend hescape hne hline ih =>
    obtain ⟨length, hlength, rfl⟩ := Option.map_eq_some_iff.1 h
    obtain ⟨hle, hrest⟩ := ih hlength
    have hc : c ≠ '\\' := by
      rintro rfl
      cases rest with
      | nil => exact hend rfl rfl
      | cons d rest => exact hescape d rest rfl rfl
    refine ⟨Nat.succ_le_succ hle, fun tail ↦ ?_⟩
    rw [List.take_succ_cons, List.cons_append, quotedLength?_cons hc, if_neg hne, if_neg hline,
      hrest]
    rfl

theorem rawLength?_append {cs : List Char} {count : Nat} (h : rawLength? cs = some count) :
    count ≤ cs.length ∧ ∀ rest, rawLength? (cs.take count ++ rest) = some count := by
  fun_induction rawLength? cs generalizing count with
  | case1 => cases h
  | case2 rest =>
    cases h
    exact ⟨Nat.le_add_left _ _, fun tail ↦ by simp [rawLength?]⟩
  | case3 c rest hc ih =>
    obtain ⟨length, hlength, rfl⟩ := Option.map_eq_some_iff.1 h
    obtain ⟨hle, hrest⟩ := ih hlength
    exact ⟨Nat.succ_le_succ hle, fun tail ↦ by simp [rawLength?, hc, hrest]⟩

/-! ### The length of a lexeme -/

theorem runLength_le (test : Char → Bool) (cs : List Char) : runLength test cs ≤ cs.length :=
  (List.takeWhile_prefix test).length_le

theorem exponentLength_le (cs : List Char) : exponentLength cs ≤ cs.length := by
  unfold exponentLength
  split
  · split_ifs
    · split
      · next sign digits =>
        have := runLength_le Char.isDigit digits
        have := runLength_le Char.isDigit (sign :: digits)
        simp only [List.length_cons] at *
        split_ifs <;> omega
      · exact Nat.zero_le _
    · exact Nat.zero_le _
  · exact Nat.zero_le _

theorem decimalFrom_le (whole : Nat) (rest : List Char) :
    whole ≤ (decimalFrom whole rest).2 ∧ (decimalFrom whole rest).2 ≤ whole + rest.length := by
  unfold decimalFrom
  split
  · next rest =>
    have := runLength_le isDigitOrBar rest
    have := exponentLength_le (rest.drop (runLength isDigitOrBar rest))
    simp only [List.length_cons, List.length_drop] at *
    omega
  · have := exponentLength_le rest
    split <;> dsimp only <;> omega

theorem number_le {c : Char} (hc : c.isDigit = true) (rest : List Char) :
    1 ≤ (number (c :: rest)).2 ∧ (number (c :: rest)).2 ≤ 1 + rest.length := by
  rw [number_eq]
  cases hhex : hexadecimal? (c :: rest) with
  | some length =>
    unfold hexadecimal? at hhex
    split at hhex
    · next x tail heq =>
      cases heq
      have := runLength_le isHexDigitOrBar tail
      split_ifs at hhex
      cases hhex
      simp only [Option.map_some, Option.getD_some, List.length_cons]
      omega
    · cases hhex
  | none =>
    have hwhole : 1 ≤ runLength isDigitOrBar (c :: rest) := by
      rw [runLength, List.takeWhile_cons_of_pos (by rw [isDigitOrBar, hc]; rfl)]
      exact Nat.le_add_left _ _
    have hle := runLength_le isDigitOrBar (c :: rest)
    have hdecimal := decimalFrom_le (runLength isDigitOrBar (c :: rest))
      ((c :: rest).drop (runLength isDigitOrBar (c :: rest)))
    simp only [Option.map_none, Option.getD_none, decimal, List.length_drop, List.length_cons] at *
    omega

theorem commentLength?_le {cs : List Char} {count : Nat} (h : commentLength? cs = some count) :
    count ≤ cs.length := by
  fun_induction commentLength? cs generalizing count with
  | case1 => cases h
  | case2 rest =>
    cases h
    simp
  | case3 c rest hend ih =>
    obtain ⟨length, hlength, rfl⟩ := Option.map_eq_some_iff.1 h
    exact Nat.succ_le_succ (ih hlength)

/-- A lexeme has a character and does not go past the end of the text. -/
theorem length_le_of_longest? {c : Char} {rest : List Char} {kind : LexemeKind} {length : Nat}
    (h : longest? c rest = some (kind, length)) : 1 ≤ length ∧ length ≤ 1 + rest.length := by
  cases form_of_longest? h with
  | newline | blank => omega
  | word =>
    have := runLength_le isNamePart rest
    omega
  | number hc => exact number_le hc rest
  | quoted hc hcount | char hc hcount =>
    have := (quotedLength?_append (by decide) hcount).1
    omega
  | raw hc hcount =>
    have := (rawLength?_append hcount).1
    omega
  | @lineComment tail hc hrest =>
    have := runLength_le (· ≠ '\n') tail
    rw [hrest, List.length_cons]
    omega
  | @blockComment tail count hc hrest hcount =>
    have := commentLength?_le hcount
    rw [hrest, List.length_cons]
    omega
  | mark hfound =>
    obtain ⟨mark, hmark, -, rfl, hprefix⟩ := mem_marks_of_mark? hfound
    have hall : ∀ mark ∈ TokenKind.marks, 1 ≤ mark.1.length := by decide
    have hle := hprefix.length_le
    rw [String.length_toList, List.length_cons] at hle
    exact ⟨hall mark hmark, by omega⟩

/-! ### Tokens with other text behind them -/

/-- A token stays the longest lexeme when the text behind it is replaced by one that agrees with it up
to a break. -/
theorem Agree.longest? {rest rest' : List Char} (h : Agree rest rest') {c : Char} {cs : List Char}
    {kind : TokenKind}
    (hlongest : Lexeme.longest? c (cs ++ rest) = some (.token kind, 1 + cs.length)) :
    Lexeme.longest? c (cs ++ rest') = some (.token kind, 1 + cs.length) := by
  have hagree := h.append cs
  have hquoted {quote : Char} (hquote : quote ≠ '\\')
      (hlength : quotedLength? quote (cs ++ rest) = some cs.length) :
      quotedLength? quote (cs ++ rest') = some cs.length := by
    have happend := (quotedLength?_append hquote hlength).2 rest'
    rwa [List.take_left] at happend
  unfold Lexeme.longest? at hlongest ⊢
  split_ifs at hlongest ⊢ with hnewline hblank hstart hdigit hstring hraw hchar
  · cases hlongest
  · cases hlongest
  · have hrun := (hagree.run rejects_isNamePart).1
    have hlength : 1 + runLength isNamePart (cs ++ rest) = 1 + cs.length :=
      (Prod.mk.inj (Option.some.inj hlongest)).2
    have htake (tail : List Char) : (c :: (cs ++ tail)).take (1 + cs.length) = c :: cs := by
      rw [Nat.add_comm, List.take_succ_cons, List.take_left]
    simp only [hrun, hlength, htake] at hlongest ⊢
    exact hlongest
  · rw [(hagree.cons c).number]
    exact hlongest
  · obtain ⟨count, hcount, heq⟩ := Option.map_eq_some_iff.1 hlongest
    obtain rfl : count = cs.length := by have := (Prod.mk.inj heq).2; omega
    rw [hquoted (by decide) hcount]
    exact congrArg some heq
  · obtain ⟨count, hcount, heq⟩ := Option.map_eq_some_iff.1 hlongest
    obtain rfl : count = cs.length := by have := (Prod.mk.inj heq).2; omega
    have happend := (rawLength?_append hcount).2 rest'
    rw [List.take_left] at happend
    rw [happend]
    exact congrArg some heq
  · split at hlongest
    · cases hlongest
    · next hne =>
      obtain ⟨count, hcount, heq⟩ := Option.map_eq_some_iff.1 hlongest
      obtain rfl : count = cs.length := by have := (Prod.mk.inj heq).2; omega
      rw [hquoted (by decide) hcount]
      split
      · next hone => exact absurd (hcount.trans hone) hne
      · exact congrArg some heq
  · have hmark := hagree.mark? c
    split at hlongest
    · cases hlongest
    · obtain ⟨count, -, heq⟩ := Option.map_eq_some_iff.1 hlongest
      cases (Prod.mk.inj heq).1
    · next hline hblock =>
      -- behind a slash neither text has a mark of a comment
      split
      · next heq =>
        obtain ⟨tail, htail⟩ := hagree.eq_cons (by decide) (by decide) heq
        exact (hline tail rfl htail).elim
      · next heq =>
        obtain ⟨tail, htail⟩ := hagree.eq_cons (by decide) (by decide) heq
        exact (hblock tail rfl htail).elim
      · rw [hmark]
        exact hlongest

/-! ### Cutting, lexeme by lexeme -/

/-- A text and the lexemes it is cut into from an offset on. -/
inductive Cuts : Nat → List Char → List Lexeme → Prop
  | nil (offset : Nat) : Cuts offset [] []
  | cons {offset : Nat} {c : Char} {cs rest : List Char} {kind : LexemeKind} {lexemes : List Lexeme}
    (hlongest : longest? c (cs ++ rest) = some (kind, 1 + cs.length))
    (h : Cuts (offset + byteLength (c :: cs)) rest lexemes) :
    Cuts offset (c :: (cs ++ rest)) (⟨kind, c :: cs, offset⟩ :: lexemes)

theorem cuts_of_cut {offset : Nat} {cs : List Char} {lexemes : List Lexeme}
    (h : cut offset cs = .ok lexemes) : Cuts offset cs lexemes := by
  fun_induction cut offset cs generalizing lexemes with
  | case1 offset =>
    cases h
    exact .nil offset
  | case2 | case3 => cases h
  | case4 offset c rest kind length hlongest chars lexemes' hrest =>
    rename_i ih
    cases h
    obtain ⟨hpos, hle⟩ := length_le_of_longest? hlongest
    have hcuts := ih hrest
    have htake : (rest.take (length - 1)).length = length - 1 := by
      rw [List.length_take]
      omega
    have hlength : length = 1 + (rest.take (length - 1)).length := by omega
    conv => arg 2; rw [← List.take_append_drop (length - 1) rest]
    refine .cons ?_ hcuts
    rw [List.take_append_drop, ← hlength]
    exact hlongest

theorem Cuts.cut {offset : Nat} {cs : List Char} {lexemes : List Lexeme}
    (h : Cuts offset cs lexemes) : Lexeme.cut offset cs = .ok lexemes := by
  induction h with
  | nil => rw [Lexeme.cut]
  | cons hlongest h ih =>
    rw [Lexeme.cut]
    simp only [hlongest, Nat.add_sub_cancel_left, List.take_left, List.drop_left, ih]

end PackageAtlas
