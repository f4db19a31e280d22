import PackageAtlas.Parse.Parser
import PackageAtlas.Proofs.Lexing.Boundaries
import PackageAtlas.Proofs.Lexing.Terminators
import PackageAtlas.Proofs.Printing.Words

/-!
Comments do not change what is read. A line comment ends where the text has a newline or its end, and
a block comment passes for a space, or for a newline if it has one. So with these in place of its
comments a text has the same tokens, terminators included (`TokenStream.ofText_withoutComments`).
-/

set_option autoImplicit false
set_option relaxedAutoImplicit false

namespace PackageAtlas

open Lexeme

/-! ### Texts without their comments -/

instance (comment : Comment) : Decidable comment.IsBlock :=
  inferInstanceAs (Decidable (['/', '*'] <+: comment.text.toList))

/-- What stands for a comment: a newline for a block comment that has one, a space for any other block
comment, and nothing for a line comment. -/
def Comment.standIn (comment : Comment) : List Char :=
  if comment.IsBlock then if '\n' ∈ comment.text.toList then ['\n'] else [' '] else []

/-- The part of a text from a byte offset on with what stands for its comments. -/
def standIns (offset : Nat) (cs : List Char) : List Comment → List Char
  | [] => cs
  | comment :: rest =>
    Parser.takeBytes (comment.offset - offset) cs ++ (comment.standIn ++
      standIns comment.stop (Parser.dropBytes (comment.stop - offset) cs) rest)

/-- A text with what stands for each of its comments. -/
def withoutComments (text : String) (comments : List Comment) : String :=
  String.ofList (standIns 0 text.toList comments)

/-! ### The same by lexemes -/

/-- What stands for a lexeme. -/
def Lexeme.standIn (lexeme : Lexeme) : List Char :=
  (lexeme.comment?.map Comment.standIn).getD lexeme.chars

theorem takeBytes_append (count : Nat) (before cs : List Char) :
    Parser.takeBytes (byteLength before + count) (before ++ cs) =
      before ++ Parser.takeBytes count cs := by
  induction before with
  | nil => rw [byteLength_nil, Nat.zero_add, List.nil_append, List.nil_append]
  | cons c before ih =>
    have hpos := c.utf8Size_pos
    rw [List.cons_append, Parser.takeBytes, if_neg (by rw [byteLength_cons]; omega), byteLength_cons,
      Nat.add_assoc, Nat.add_sub_cancel_left, ih, List.cons_append]

theorem dropBytes_append (count : Nat) (before cs : List Char) :
    Parser.dropBytes (byteLength before + count) (before ++ cs) = Parser.dropBytes count cs := by
  induction before with
  | nil => rw [byteLength_nil, Nat.zero_add, List.nil_append]
  | cons c before ih =>
    have hpos := c.utf8Size_pos
    rw [List.cons_append, Parser.dropBytes, if_neg (by rw [byteLength_cons]; omega), byteLength_cons,
      Nat.add_assoc, Nat.add_sub_cancel_left, ih]

theorem takeBytes_zero (cs : List Char) : Parser.takeBytes 0 cs = [] := by
  cases cs <;> rfl

theorem dropBytes_zero (cs : List Char) : Parser.dropBytes 0 cs = cs := by
  cases cs <;> rfl

/-- What comes before all comments stays. -/
theorem standIns_append {offset : Nat} (before cs : List Char) {comments : List Comment}
    (h : ∀ comment ∈ comments, offset + byteLength before ≤ comment.offset) :
    standIns offset (before ++ cs) comments =
      before ++ standIns (offset + byteLength before) cs comments := by
  cases comments with
  | nil => rfl
  | cons comment rest =>
    have hle := h comment List.mem_cons_self
    have hstop : comment.offset ≤ comment.stop := Nat.le_add_right _ _
    have hoffset : comment.offset - offset =
        byteLength before + (comment.offset - (offset + byteLength before)) := by omega
    have hend : comment.stop - offset =
        byteLength before + (comment.stop - (offset + byteLength before)) := by omega
    rw [standIns, standIns, hoffset, hend, takeBytes_append, dropBytes_append, List.append_assoc]

/-- Each comment of a text is the text of its lexeme. -/
theorem standIns_eq {offset : Nat} {lexemes : List Lexeme} (h : Adjacent offset lexemes) :
    standIns offset (lexemes.flatMap (·.chars)) (lexemes.filterMap comment?) =
      lexemes.flatMap Lexeme.standIn := by
  induction h with
  | nil => rfl
  | @cons lexeme rest hchars hrest ih =>
    rw [List.flatMap_cons, List.flatMap_cons, Lexeme.standIn]
    cases hcomment : lexeme.comment? with
    | none =>
      rw [List.filterMap_cons_none hcomment, standIns_append lexeme.chars _ fun comment hin ↦ ?_]
      · exact congrArg (lexeme.chars ++ ·) ih
      · obtain ⟨other, hother, hleaves⟩ := List.mem_filterMap.1 hin
        obtain ⟨-, -, hoffset, -⟩ := comment?_eq_some hleaves
        rw [hoffset]
        exact le_offset_of_adjacent hrest other hother
    | some comment =>
      obtain ⟨-, -, hoffset, hstop⟩ := comment?_eq_some hcomment
      have hlength : comment.stop - lexeme.offset = byteLength lexeme.chars + 0 := by
        rw [hstop, Lexeme.stop]
        omega
      rw [List.filterMap_cons_some hcomment, standIns, hoffset, Nat.sub_self, takeBytes_zero,
        hlength, dropBytes_append, dropBytes_zero, hstop, ih]
      rfl

/-! ### What comes of a lexeme -/

theorem standIn_of_comment?_eq_none {lexeme : Lexeme} (h : lexeme.comment? = none) :
    lexeme.standIn = lexeme.chars := by
  rw [Lexeme.standIn, h]
  rfl

/-- Blanks and newlines are what they are whatever follows. -/
theorem longest?_of_blank {c : Char} {rest : List Char} {kind : LexemeKind} {length : Nat}
    (h : longest? c rest = some (kind, length)) (hkind : kind = .blank ∨ kind = .newline) :
    length = 1 ∧ ∀ rest', longest? c rest' = some (kind, 1) := by
  cases form_of_longest? h with
  | newline hc =>
    subst hc
    exact ⟨rfl, fun _ ↦ rfl⟩
  | blank hc => rcases hc with rfl | rfl | rfl <;> exact ⟨rfl, fun _ ↦ rfl⟩
  | _ => rcases hkind with hkind | hkind <;> cases hkind

section Comments

variable {c : Char} {cs rest : List Char}

/-- A line comment gives way to the line break or the end behind it. -/
theorem standIn_lineComment
    (h : longest? c (cs ++ rest) = some (.lineComment, 1 + cs.length)) (offset : Nat) :
    Lexeme.standIn ⟨.lineComment, c :: cs, offset⟩ = [] ∧ OpensComment (c :: (cs ++ rest)) ∧
      (rest = [] ∨ ∃ tail, rest = '\n' :: tail) := by
  have hmark := @comment_mark_of_longest? c (cs ++ rest) ⟨.lineComment, c :: cs, offset⟩ _ h
    (by rw [Nat.add_sub_cancel_left, List.take_left]) (.inl rfl)
  refine ⟨?_, ?_⟩
  · rw [Lexeme.standIn]
    exact if_neg fun hblock ↦ by
      rw [Comment.IsBlock, Lexeme.text, String.toList_ofList] at hblock
      cases hmark.2 hblock
  · generalize hlength : 1 + cs.length = length at h
    generalize hkind : LexemeKind.lineComment = kind at h
    cases form_of_longest? h with
    | @lineComment tail hc hrest =>
      rw [hc, hrest]
      refine ⟨.inl ⟨tail, rfl⟩, ?_⟩
      cases cs with
      | nil => simp only [List.length_nil] at hlength; omega
      | cons d cs =>
        obtain ⟨-, rfl⟩ := List.cons.inj hrest
        have hrun : cs.length = ((cs ++ rest).takeWhile (· ≠ '\n')).length := by
          change 1 + (cs.length + 1) = 2 + runLength (· ≠ '\n') (cs ++ rest) at hlength
          rw [runLength] at hlength
          omega
        obtain ⟨-, hbehind⟩ :=
          List.append_inj (List.takeWhile_append_dropWhile.symm : cs ++ rest = _) hrun
        cases rest with
        | nil => exact .inl rfl
        | cons d rest =>
          have hstop := List.head?_dropWhile_not (· ≠ '\n') (cs ++ d :: rest)
          rw [← hbehind] at hstop
          exact .inr ⟨rest, by simpa using hstop⟩
    | _ => cases hkind

/-- A block comment gives way to a newline if it has one, and to a space else. -/
theorem standIn_blockComment
    (h : longest? c (cs ++ rest) = some (.blockComment, 1 + cs.length)) (offset : Nat) :
    Lexeme.standIn ⟨.blockComment, c :: cs, offset⟩ =
        (if TokenStream.breaksLine ⟨.blockComment, c :: cs, offset⟩ then ['\n'] else [' ']) ∧
      OpensComment (c :: (cs ++ rest)) := by
  have hmark := (@comment_mark_of_longest? c (cs ++ rest) ⟨.blockComment, c :: cs, offset⟩ _ h
    (by rw [Nat.add_sub_cancel_left, List.take_left]) (.inr rfl)).1 rfl
  refine ⟨?_, .inr (hmark.trans ⟨rest, rfl⟩)⟩
  rw [Lexeme.standIn]
  refine (if_pos ?_).trans ?_
  · rw [Comment.IsBlock, Lexeme.text, String.toList_ofList]
    exact hmark
  · simp [Lexeme.text, TokenStream.breaksLine]

end Comments

/-- Lexemes with the same tokens but for their places. -/
def SameWords (lexemes lexemes' : List Lexeme) : Prop :=
  ∀ size size' pending, (TokenStream.ofLexemes size' pending lexemes').tokens.map Token.word =
    (TokenStream.ofLexemes size pending lexemes).tokens.map Token.word

theorem SameWords.nil : SameWords [] [] := by
  intro size size' pending
  cases pending <;> rfl

/-- Lexemes that are no tokens matter only for their line breaks. -/
theorem SameWords.other {lexemes lexemes' : List Lexeme} (h : SameWords lexemes lexemes')
    {lexeme lexeme' : Lexeme} (htoken : lexeme.token? = none) (htoken' : lexeme'.token? = none)
    (hbreaks : TokenStream.breaksLine lexeme' = TokenStream.breaksLine lexeme) :
    SameWords (lexeme :: lexemes) (lexeme' :: lexemes') := by
  intro size size' pending
  rw [TokenStream.ofLexemes_cons_other size pending lexemes htoken,
    TokenStream.ofLexemes_cons_other size' pending lexemes' htoken', hbreaks]
  split
  · exact congrArg (Token.word (TokenStream.lineEnd 0) :: ·) (h size size' false)
  · exact h size size' pending

namespace Cuts

variable {offset : Nat} {cs : List Char} {lexemes : List Lexeme}

theorem single {c : Char} {kind : LexemeKind} (hkind : ∀ rest, longest? c rest = some (kind, 1))
    (h : Cuts (offset + byteLength [c]) cs lexemes) :
    Cuts offset (c :: cs) (⟨kind, [c], offset⟩ :: lexemes) :=
  @Cuts.cons offset c [] cs kind lexemes (hkind cs) h

/-- Where a text breaks it breaks without its comments. -/
theorem breaks (h : Cuts offset cs lexemes) (hbreaks : cs = [] ∨ ∃ tail, cs = '\n' :: tail) :
    Breaks (lexemes.flatMap Lexeme.standIn) := by
  cases h with
  | nil => exact fun _ hc ↦ by cases hc
  | @cons _ c cs rest kind lexemes hlongest h =>
    obtain ⟨tail, htail⟩ := hbreaks.resolve_left (List.cons_ne_nil _ _)
    obtain ⟨rfl, -⟩ := List.cons.inj htail
    have hnewline : Lexeme.longest? '\n' (cs ++ rest) = some (.newline, 1) := rfl
    obtain ⟨rfl, -⟩ := Prod.mk.inj (Option.some.inj (hlongest.symm.trans hnewline))
    rw [List.flatMap_cons, standIn_of_comment?_eq_none rfl]
    exact fun d hd ↦ by cases hd; exact .inr rfl

/-- A text agrees with itself without comments up to the first one. -/
theorem agree (h : Cuts offset cs lexemes) : Agree cs (lexemes.flatMap Lexeme.standIn) := by
  induction h with
  | nil => exact .ends (.inl fun _ hc ↦ by cases hc) fun _ hc ↦ by cases hc
  | @cons offset c cs rest kind lexemes hlongest h ih =>
    rw [List.flatMap_cons]
    cases kind with
    | lineComment =>
      obtain ⟨hnothing, hopens, hrest⟩ := standIn_lineComment hlongest offset
      rw [hnothing]
      exact .ends (.inr hopens) (h.breaks hrest)
    | blockComment =>
      obtain ⟨hbreak, hopens⟩ := standIn_blockComment hlongest offset
      rw [hbreak]
      refine .ends (.inr hopens) fun d hd ↦ ?_
      split at hd
      · cases hd; exact .inr rfl
      · cases hd; exact .inl rfl
    | blank | newline | token =>
      rw [standIn_of_comment?_eq_none rfl]
      exact ih.append (c :: cs)

/-- A text without its comments has the same tokens, and no comments. -/
theorem withoutComments (h : Cuts offset cs lexemes) (offset' : Nat) :
    ∃ lexemes', Cuts offset' (lexemes.flatMap Lexeme.standIn) lexemes' ∧
      lexemes'.filterMap comment? = [] ∧ SameWords lexemes lexemes' := by
  induction h generalizing offset' with
  | nil => exact ⟨[], .nil offset', rfl, .nil⟩
  | @cons offset c cs rest kind lexemes hlongest h ih =>
    rw [List.flatMap_cons]
    cases kind with
    | lineComment =>
      obtain ⟨lexemes', hcuts, hcomments, hwords⟩ := ih offset'
      rw [(standIn_lineComment hlongest offset).1]
      refine ⟨lexemes', hcuts, hcomments, fun size size' pending ↦ ?_⟩
      rw [TokenStream.ofLexemes_cons_other size pending lexemes rfl]
      simpa [TokenStream.breaksLine] using hwords size size' pending
    | blockComment =>
      rw [(standIn_blockComment hlongest offset).1]
      cases hbreaks : TokenStream.breaksLine ⟨.blockComment, c :: cs, offset⟩ with
      | true =>
        obtain ⟨lexemes', hcuts, hcomments, hwords⟩ := ih (offset' + byteLength ['\n'])
        exact ⟨⟨.newline, ['\n'], offset'⟩ :: lexemes', hcuts.single fun _ ↦ rfl, hcomments,
          hwords.other rfl rfl hbreaks.symm⟩
      | false =>
        obtain ⟨lexemes', hcuts, hcomments, hwords⟩ := ih (offset' + byteLength [' '])
        exact ⟨⟨.blank, [' '], offset'⟩ :: lexemes', hcuts.single fun _ ↦ rfl, hcomments,
          hwords.other rfl rfl hbreaks.symm⟩
    | blank | newline =>
      obtain ⟨hlength, hkind⟩ := longest?_of_blank hlongest (by simp)
      obtain rfl : cs = [] := List.eq_nil_of_length_eq_zero (by omega)
      rw [standIn_of_comment?_eq_none rfl]
      obtain ⟨lexemes', hcuts, hcomments, hwords⟩ := ih (offset' + byteLength [c])
      exact ⟨⟨_, [c], offset'⟩ :: lexemes', hcuts.single hkind, hcomments,
        hwords.other rfl rfl rfl⟩
    | token kind =>
      rw [standIn_of_comment?_eq_none rfl]
      obtain ⟨lexemes', hcuts, hcomments, hwords⟩ := ih (offset' + byteLength (c :: cs))
      refine ⟨⟨.token kind, c :: cs, offset'⟩ :: lexemes', .cons (h.agree.longest? hlongest) hcuts,
        hcomments, fun size size' pending ↦ ?_⟩
      rw [TokenStream.ofLexemes_cons_token size pending lexemes rfl,
        TokenStream.ofLexemes_cons_token size' pending lexemes' rfl, List.map_cons, List.map_cons,
        hwords size size']
      rfl

end Cuts

namespace TokenStream

/-- A text without its comments has the same tokens, and no comments. -/
theorem ofText_withoutComments {text : String} {stream : TokenStream}
    (h : ofText text = .ok stream) :
    ∃ stream', ofText (withoutComments text stream.comments) = .ok stream' ∧
      stream'.tokens.map Token.word = stream.tokens.map Token.word ∧ stream'.comments = [] := by
  obtain ⟨lexemes, hcut, rfl⟩ := exists_cut_of_ofText h
  obtain ⟨hadjacent, hchars⟩ := adjacent_cut hcut
  obtain ⟨lexemes', hcuts, hcomments, htokens⟩ := (cuts_of_cut hcut).withoutComments 0
  have htext : (withoutComments text
      (ofLexemes text.utf8ByteSize false lexemes).comments).toList =
        lexemes.flatMap Lexeme.standIn := by
    rw [withoutComments, String.toList_ofList, comments_ofLexemes, ← standIns_eq hadjacent, hchars]
  refine ⟨_, ?_, htokens text.utf8ByteSize
    (withoutComments text (ofLexemes text.utf8ByteSize false lexemes).comments).utf8ByteSize false,
    ?_⟩
  · rw [ofText, htext, hcuts.cut]
    rfl
  · rw [comments_ofLexemes, hcomments]

/-- A block comment with a newline ends the statement, one without keeps two names apart, and what
looks like a comment inside a string stays. -/
theorem ofText_withoutComments_mixed :
    let text := "a/* é\n*/b/**/c \"//\" // d"
    let stream : TokenStream :=
      ⟨[⟨.ident, "a", 0⟩, ⟨.semicolon, "\n", 1⟩, ⟨.ident, "b", 9⟩, ⟨.ident, "c", 14⟩,
        ⟨.string, "\"//\"", 16⟩, ⟨.semicolon, "", 25⟩],
        [⟨"/* é\n*/", 1⟩, ⟨"/**/", 10⟩, ⟨"// d", 21⟩]⟩
    ofText text = .ok stream ∧ withoutComments text stream.comments = "a\nb c \"//\" " ∧
      ∃ stream', ofText "a\nb c \"//\" " = .ok stream' ∧
        stream'.tokens.map Token.word = stream.tokens.map Token.word := by
  intro text stream
  have htext : ofText text = .ok stream := by decide +kernel
  have hwithout : withoutComments text stream.comments = "a\nb c \"//\" " := by decide +kernel
  obtain ⟨stream', hstream', hwords, -⟩ := ofText_withoutComments htext
  exact ⟨htext, hwithout, stream', hwithout ▸ hstream', hwords⟩

end TokenStream

end PackageAtlas
