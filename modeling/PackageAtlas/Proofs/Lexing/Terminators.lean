import PackageAtlas.Proofs.Spans.Pieces

/-!
Where terminators are put in. Read from any lexeme on, a stream starts with a terminator that is no
text of the input exactly when a statement is pending and a line break, or the end, comes before the
next token (`isLineEnd_head_ofLexemes`). So one stands behind a token that ends a statement if a line
break follows it or nothing does, and nowhere else (`TokenStream.terminators_exact`).
-/

set_option autoImplicit false
set_option relaxedAutoImplicit false

namespace PackageAtlas

open Lexeme Text

/-! ### What lexemes leave behind -/

namespace Lexeme

def token? (lexeme : Lexeme) : Option Token :=
  match lexeme.kind with
  | .token kind => some ⟨kind, lexeme.text, lexeme.offset⟩
  | _ => none

def comment? (lexeme : Lexeme) : Option Comment :=
  match lexeme.kind with
  | .lineComment | .blockComment => some ⟨lexeme.text, lexeme.offset⟩
  | _ => none

theorem token?_eq_some {lexeme : Lexeme} {token : Token} (h : lexeme.token? = some token) :
    lexeme.kind = .token token.kind ∧ token.offset = lexeme.offset ∧
      token.stop = lexeme.stop := by
  rw [token?] at h
  split at h
  · cases h
    refine ⟨‹_›, rfl, ?_⟩
    rw [Token.stop, Lexeme.stop, Lexeme.text, ← byteLength_toList, String.toList_ofList]
  · cases h

theorem comment?_eq_some {lexeme : Lexeme} {comment : Comment}
    (h : lexeme.comment? = some comment) :
    (lexeme.kind = .lineComment ∨ lexeme.kind = .blockComment) ∧
      comment.text.toList = lexeme.chars ∧ comment.offset = lexeme.offset ∧
      comment.stop = lexeme.stop := by
  have hcomment : comment = ⟨lexeme.text, lexeme.offset⟩ := by
    rw [comment?] at h
    split at h
    · exact (Option.some.inj h).symm
    · exact (Option.some.inj h).symm
    · cases h
  refine ⟨?_, ?_, ?_, ?_⟩
  · rw [comment?] at h
    split at h
    · exact .inl ‹_›
    · exact .inr ‹_›
    · cases h
  · rw [hcomment, Lexeme.text, String.toList_ofList]
  · rw [hcomment]
  · rw [hcomment, Comment.stop, Lexeme.stop, Lexeme.text, ← byteLength_toList,
      String.toList_ofList]

/-- What is no token and no comment is one character, a newline in a line break only. -/
theorem exists_char_of_longest? {c : Char} {rest : List Char} {lexeme : Lexeme} {length : Nat}
    (h : longest? c rest = some (lexeme.kind, length))
    (hchars : lexeme.chars = c :: rest.take (length - 1)) (htoken : lexeme.token? = none)
    (hcomment : lexeme.comment? = none) :
    lexeme.chars = [c] ∧ (lexeme.kind = .newline ↔ c = '\n') := by
  generalize hkind : lexeme.kind = kind at h
  cases form_of_longest? h with
  | newline hc => exact ⟨hchars, by simp [hc]⟩
  | blank hc => exact ⟨hchars, by rcases hc with rfl | rfl | rfl <;> simp⟩
  | lineComment | blockComment => rw [comment?, hkind] at hcomment; cases hcomment
  | _ => rw [token?, hkind] at htoken; cases htoken

/-- A block comment starts with its mark, and a line comment does not. -/
theorem comment_mark_of_longest? {c : Char} {rest : List Char} {lexeme : Lexeme} {length : Nat}
    (h : longest? c rest = some (lexeme.kind, length))
    (hchars : lexeme.chars = c :: rest.take (length - 1))
    (hkind : lexeme.kind = .lineComment ∨ lexeme.kind = .blockComment) :
    lexeme.kind = .blockComment ↔ ['/', '*'] <+: lexeme.chars := by
  generalize hform : lexeme.kind = kind at h hkind
  cases form_of_longest? h with
  | @lineComment tail hc hrest =>
    rw [hchars, hc, hrest, show ∀ n, 2 + n - 1 = n + 1 from by omega, List.take_succ_cons]
    simp
  | @blockComment tail count hc hrest _ =>
    rw [hchars, hc, hrest, show ∀ n, 2 + n - 1 = n + 1 from by omega, List.take_succ_cons]
    simp
  | _ => rcases hkind with hkind | hkind <;> cases hkind

end Lexeme

/-- A block comment, as its mark tells. -/
def Comment.IsBlock (comment : Comment) : Prop := ['/', '*'] <+: comment.text.toList

namespace TokenStream

variable {lexemes : List Lexeme}

/-- The stream of a text is that of its lexemes. -/
theorem exists_cut_of_ofText {text : String} {stream : TokenStream}
    (h : ofText text = .ok stream) :
    ∃ lexemes, cut 0 text.toList = .ok lexemes ∧
      stream = ofLexemes text.utf8ByteSize false lexemes := by
  cases hcut : cut 0 text.toList with
  | error error =>
    rw [ofText, hcut] at h
    cases h
  | ok lexemes =>
    rw [ofText, hcut] at h
    exact ⟨lexemes, rfl, (Except.ok.inj h).symm⟩

/-! #### The stream of one lexeme more -/

section Cons

variable (size : Nat) (pending : Bool) {lexeme : Lexeme} (rest : List Lexeme)

theorem ofLexemes_cons_token {kind : TokenKind} (h : lexeme.kind = .token kind) :
    (ofLexemes size pending (lexeme :: rest)).tokens =
      ⟨kind, lexeme.text, lexeme.offset⟩ :: (ofLexemes size kind.endsStatement rest).tokens := by
  rw [ofLexemes, h]

/-- A lexeme that is no token leaves a terminator if it breaks the line of a pending statement. -/
theorem ofLexemes_cons_other (h : lexeme.token? = none) :
    (ofLexemes size pending (lexeme :: rest)).tokens =
      if pending && breaksLine lexeme then
        lineEnd lexeme.offset :: (ofLexemes size false rest).tokens
      else (ofLexemes size pending rest).tokens := by
  rw [ofLexemes]
  split
  · rw [token?, ‹lexeme.kind = _›] at h
    cases h
  · simp [breaksLine, ‹lexeme.kind = _›]
  · cases pending <;> cases breaksLine lexeme <;> rfl

theorem comments_ofLexemes_cons : (ofLexemes size pending (lexeme :: rest)).comments =
    lexeme.comment?.toList ++ (ofLexemes size (match lexeme.kind with
      | .token kind => kind.endsStatement
      | .blank => pending
      | _ => pending && !breaksLine lexeme) rest).comments := by
  rw [ofLexemes, comment?]
  cases lexeme.kind <;> rfl

end Cons

theorem comments_ofLexemes (size : Nat) (pending : Bool) (lexemes : List Lexeme) :
    (ofLexemes size pending lexemes).comments = lexemes.filterMap comment? := by
  induction lexemes generalizing pending with
  | nil => rfl
  | cons lexeme rest ih =>
    rw [comments_ofLexemes_cons, ih, List.filterMap_cons]
    cases lexeme.comment? <;> rfl

/-! ### Terminators by lexemes -/

/-- The semicolons among the lexemes say so. -/
def SemicolonsSpelled (lexemes : List Lexeme) : Prop :=
  ∀ lexeme ∈ lexemes, lexeme.kind = .token .semicolon → lexeme.chars = [';']

theorem semicolonsSpelled_cut {offset : Nat} {cs : List Char} (h : cut offset cs = .ok lexemes) :
    SemicolonsSpelled lexemes := by
  intro lexeme hlexeme hkind
  obtain ⟨c, rest, length, hlongest, heq⟩ := exists_longest?_of_mem_cut h lexeme hlexeme
  rw [hkind] at hlongest
  rw [heq]
  exact semicolon_of_longest? hlongest

theorem isLineEnd_token? {lexeme : Lexeme} {token : Token}
    (h : lexeme.kind = .token .semicolon → lexeme.chars = [';'])
    (htoken : lexeme.token? = some token) : token.isLineEnd = false := by
  rw [token?] at htoken
  split at htoken
  · next kind hkind =>
    cases htoken
    exact isLineEnd_token fun hsemicolon ↦ h (hkind.trans (congrArg _ hsemicolon))
  · cases htoken

/-- The first token that is text of the input is that of the first lexeme with a token. -/
theorem find?_ofLexemes (h : SemicolonsSpelled lexemes) (size : Nat) (pending : Bool) :
    (ofLexemes size pending lexemes).tokens.find? (!·.isLineEnd) =
      lexemes.findSome? token? := by
  induction lexemes generalizing pending with
  | nil => cases pending <;> rfl
  | cons lexeme rest ih =>
    obtain ⟨hlexeme, hrest⟩ := List.forall_mem_cons.1 h
    rw [List.findSome?_cons]
    cases htoken : lexeme.token? with
    | some token =>
      have hreal := isLineEnd_token? hlexeme htoken
      obtain ⟨hkind, -, -⟩ := token?_eq_some htoken
      rw [token?, hkind] at htoken
      rw [ofLexemes_cons_token size pending rest hkind, Option.some.inj htoken]
      exact List.find?_cons_of_pos (by rw [hreal]; rfl)
    | none =>
      rw [ofLexemes_cons_other size pending rest htoken]
      split
      · rw [List.find?_cons_of_neg (by simp [lineEnd, Token.isLineEnd])]
        exact ih hrest false
      · exact ih hrest pending

/-- A pending statement gets its terminator before the next token if a lexeme before that one breaks
the line, or if there is no further token. -/
theorem isLineEnd_head_ofLexemes (h : SemicolonsSpelled lexemes) (size : Nat) (pending : Bool) :
    (∃ terminator ∈ (ofLexemes size pending lexemes).tokens.head?, terminator.isLineEnd = true) ↔
      pending = true ∧ (lexemes.findSome? token? = none ∨
        ∃ lexeme ∈ lexemes.takeWhile (·.token?.isNone), breaksLine lexeme = true) := by
  induction lexemes generalizing pending with
  | nil => cases pending <;> simp [ofLexemes, Token.isLineEnd]
  | cons lexeme rest ih =>
    obtain ⟨hlexeme, hrest⟩ := List.forall_mem_cons.1 h
    cases htoken : lexeme.token? with
    | some token =>
      have hreal := isLineEnd_token? hlexeme htoken
      obtain ⟨hkind, -, -⟩ := token?_eq_some htoken
      have hhead := htoken
      rw [token?, hkind] at hhead
      rw [ofLexemes_cons_token size pending rest hkind, Option.some.inj hhead]
      simp [htoken, hreal]
    | none =>
      rw [ofLexemes_cons_other size pending rest htoken, List.findSome?_cons, htoken,
        List.takeWhile_cons_of_pos (by rw [htoken]; rfl)]
      by_cases hbreak : breaksLine lexeme = true
      · cases pending with
        | true =>
          rw [hbreak]
          exact iff_of_true ⟨lineEnd lexeme.offset, rfl, rfl⟩
            ⟨rfl, .inr ⟨lexeme, List.mem_cons_self, hbreak⟩⟩
        | false => exact iff_of_false (fun h ↦ by cases ((ih hrest false).1 h).1) (by simp)
      · rw [if_neg fun h ↦ hbreak (Bool.and_eq_true_iff.1 h).2, ih hrest pending]
        simp only [List.mem_cons, exists_eq_or_imp, hbreak, Bool.false_eq_true, false_or]

/-- Each token that is text of the input is that of a lexeme, and the tokens behind it are the stream
of the lexemes behind that one. -/
theorem exists_lexeme_of_tokens (size : Nat) (pending : Bool) {before after : List Token}
    {token : Token} (htokens : (ofLexemes size pending lexemes).tokens = before ++ token :: after)
    (hreal : token.isLineEnd = false) :
    ∃ earlier lexeme later, lexemes = earlier ++ lexeme :: later ∧ lexeme.token? = some token ∧
      after = (ofLexemes size token.kind.endsStatement later).tokens := by
  induction lexemes generalizing pending before with
  | nil =>
    -- the only token here is a terminator
    cases pending with
    | false => simp [ofLexemes] at htokens
    | true =>
      cases before with
      | nil =>
        rw [← (List.cons.inj htokens).1] at hreal
        cases hreal
      | cons other others => simp [ofLexemes] at htokens
  | cons lexeme rest ih =>
    -- a token further on
    have hlater {pending : Bool} {others : List Token}
        (h : (ofLexemes size pending rest).tokens = others ++ token :: after) :
        ∃ earlier lexeme' later, lexeme :: rest = earlier ++ lexeme' :: later ∧
          lexeme'.token? = some token ∧
          after = (ofLexemes size token.kind.endsStatement later).tokens := by
      obtain ⟨earlier, lexeme', later, rfl, hrest⟩ := ih pending h
      exact ⟨lexeme :: earlier, lexeme', later, rfl, hrest⟩
    cases htoken : lexeme.token? with
    | some first =>
      obtain ⟨hkind, -, -⟩ := token?_eq_some htoken
      have hfirst := htoken
      rw [token?, hkind] at hfirst
      rw [ofLexemes_cons_token size pending rest hkind, Option.some.inj hfirst] at htokens
      cases before with
      | nil =>
        obtain ⟨rfl, rfl⟩ := List.cons.inj htokens
        exact ⟨[], lexeme, rest, rfl, htoken, rfl⟩
      | cons other others => exact hlater (List.cons.inj htokens).2
    | none =>
      rw [ofLexemes_cons_other size pending rest htoken] at htokens
      split at htokens
      · cases before with
        | nil =>
          rw [← (List.cons.inj htokens).1] at hreal
          cases hreal
        | cons other others => exact hlater (List.cons.inj htokens).2
      · exact hlater htokens

/-- A terminator that was put in stands first, for a pending statement, or behind a token that is text
of the input. -/
theorem real_before_lineEnd (h : SemicolonsSpelled lexemes) (size : Nat) (pending : Bool)
    {before after : List Token} {terminator : Token}
    (htokens : (ofLexemes size pending lexemes).tokens = before ++ terminator :: after)
    (hend : terminator.isLineEnd = true) :
    (before = [] ∧ pending = true) ∨ ∃ token ∈ before.getLast?, token.isLineEnd = false := by
  induction lexemes generalizing pending before with
  | nil =>
    cases pending with
    | false => simp [ofLexemes] at htokens
    | true =>
      cases before with
      | nil => exact .inl ⟨rfl, rfl⟩
      | cons other others => simp [ofLexemes] at htokens
  | cons lexeme rest ih =>
    obtain ⟨hlexeme, hrest⟩ := List.forall_mem_cons.1 h
    cases htoken : lexeme.token? with
    | some first =>
      have hreal := isLineEnd_token? hlexeme htoken
      obtain ⟨hkind, -, -⟩ := token?_eq_some htoken
      rw [token?, hkind] at htoken
      rw [ofLexemes_cons_token size pending rest hkind, Option.some.inj htoken] at htokens
      cases before with
      | nil =>
        rw [← (List.cons.inj htokens).1, hreal] at hend
        cases hend
      | cons other others =>
        obtain ⟨rfl, hothers⟩ := List.cons.inj htokens
        rcases ih hrest _ hothers with ⟨rfl, -⟩ | ⟨token, hlast, hfound⟩
        · exact .inr ⟨first, rfl, hreal⟩
        · exact .inr ⟨token, List.mem_getLast?_cons hlast, hfound⟩
    | none =>
      rw [ofLexemes_cons_other size pending rest htoken] at htokens
      split at htokens
      · next hbreak =>
        cases before with
        | nil => exact .inl ⟨rfl, (Bool.and_eq_true_iff.1 hbreak).1⟩
        | cons other others =>
          rcases ih hrest _ (List.cons.inj htokens).2 with ⟨-, hfalse⟩ | ⟨token, hlast, hfound⟩
          · cases hfalse
          · exact .inr ⟨token, List.mem_getLast?_cons hlast, hfound⟩
      · exact ih hrest pending htokens

/-! ### Line breaks between tokens -/

/-- Between two offsets there is a newline outside comments or a block comment with a newline. -/
def BreaksBetween (text : String) (stream : TokenStream) (first last : Nat) : Prop :=
  (∃ i, first ≤ i ∧ i < last ∧ (bytes text)[i]? = some newlineByte ∧
    ∀ comment ∈ stream.comments, ¬(comment.offset ≤ i ∧ i < comment.stop)) ∨
  ∃ comment ∈ stream.comments, first ≤ comment.offset ∧ comment.stop ≤ last ∧ comment.IsBlock ∧
    '\n' ∈ comment.text.toList

theorem apart_of_adjacent {offset : Nat} (h : Adjacent offset lexemes) {first second : Lexeme}
    (hfirst : first ∈ lexemes) (hsecond : second ∈ lexemes) (hne : first ≠ second) :
    first.stop ≤ second.offset ∨ second.stop ≤ first.offset := by
  have : Std.Symm fun first second : Lexeme ↦
      first.stop ≤ second.offset ∨ second.stop ≤ first.offset := ⟨fun _ _ ↦ Or.symm⟩
  have hapart : lexemes.Pairwise fun first second ↦
      first.stop ≤ second.offset ∨ second.stop ≤ first.offset :=
    (pairwise_of_adjacent h).imp fun hlt ↦ .inl hlt.2
  exact hapart.forall hfirst hsecond hne

/-- The lexemes between two others are those that stand between them. -/
theorem mem_between_of_adjacent {offset : Nat} {earlier between later : List Lexeme}
    {first last lexeme : Lexeme}
    (h : Adjacent offset (earlier ++ first :: (between ++ last :: later)))
    (hlexeme : lexeme ∈ earlier ++ first :: (between ++ last :: later))
    (hfirst : first.stop < lexeme.stop) (hlast : lexeme.offset < last.offset) :
    lexeme ∈ between := by
  have hordered := pairwise_of_adjacent h
  obtain ⟨-, hbehind, hbefore⟩ := List.pairwise_append.1 hordered
  obtain ⟨-, hbetween⟩ := List.pairwise_cons.1 hbehind
  obtain ⟨-, hlater, -⟩ := List.pairwise_append.1 hbetween
  obtain ⟨hafter, -⟩ := List.pairwise_cons.1 hlater
  simp only [List.mem_append, List.mem_cons] at hlexeme
  rcases hlexeme with hin | rfl | hin | rfl | hin
  · have hlt := hbefore lexeme hin first List.mem_cons_self
    have hle : first.offset ≤ first.stop := Nat.le_add_right _ _
    omega
  · omega
  · exact hin
  · omega
  · have := (hafter lexeme hin).1
    omega

/-- A lexeme between two others stands between them. -/
theorem between_of_mem {offset : Nat} {earlier between later : List Lexeme}
    {first last lexeme : Lexeme}
    (h : Adjacent offset (earlier ++ first :: (between ++ last :: later)))
    (hlexeme : lexeme ∈ between) : first.stop ≤ lexeme.offset ∧ lexeme.stop ≤ last.offset := by
  obtain ⟨-, hbehind, -⟩ := List.pairwise_append.1 (pairwise_of_adjacent h)
  obtain ⟨hfirst, hbetween⟩ := List.pairwise_cons.1 hbehind
  obtain ⟨-, -, hlast⟩ := List.pairwise_append.1 hbetween
  exact ⟨(hfirst lexeme (List.mem_append_left _ hlexeme)).2,
    (hlast lexeme hlexeme last List.mem_cons_self).2⟩

/-- A line breaks between two tokens exactly when a lexeme between them breaks it. -/
theorem breaksBetween_iff {text : String} {earlier between later : List Lexeme}
    {first last : Lexeme}
    (hcut : cut 0 text.toList = .ok (earlier ++ first :: (between ++ last :: later)))
    (hnone : ∀ lexeme ∈ between, lexeme.token? = none) {stream : TokenStream}
    (hcomments : stream.comments =
      (earlier ++ first :: (between ++ last :: later)).filterMap comment?) :
    BreaksBetween text stream first.stop last.offset ↔
      ∃ lexeme ∈ between, breaksLine lexeme = true := by
  obtain ⟨hadjacent, hchars⟩ := adjacent_cut hcut
  have hforms := exists_longest?_of_mem_cut hcut
  have hstart : Adjacent (byteLength []) _ := hadjacent
  have hholds := holdsAt_of_adjacent hstart hchars.symm
  have hsub : ∀ {lexeme}, lexeme ∈ between →
      lexeme ∈ earlier ++ first :: (between ++ last :: later) := fun h ↦
    List.mem_append_right _ (List.mem_cons_of_mem _ (List.mem_append_left _ h))
  constructor
  · rintro (⟨i, hfrom, hto, hbyte, hout⟩ | ⟨comment, hcomment, hfrom, hto, hblock, hnewline⟩)
    · -- the lexeme around the newline is no comment
      obtain ⟨hi, -⟩ := List.getElem?_eq_some_iff.1 hbyte
      obtain ⟨lexeme, hlexeme, hle, hlt⟩ := exists_covering hadjacent (Nat.zero_le i)
        (by rw [hchars, Nat.zero_add, byteLength_toList]; exact hi)
      have hin := mem_between_of_adjacent hadjacent hlexeme (by omega) (by omega)
      have hnoComment : lexeme.comment? = none := by
        cases hleaves : lexeme.comment? with
        | none => rfl
        | some comment =>
          obtain ⟨-, -, hoffset, hstop⟩ := comment?_eq_some hleaves
          refine absurd ⟨?_, ?_⟩ (hout comment (hcomments ▸ List.mem_filterMap.2
            ⟨lexeme, hlexeme, hleaves⟩))
          · rw [hoffset]; exact hle
          · rw [hstop]; exact hlt
      obtain ⟨c, rest, length, hlongest, heq⟩ := hforms lexeme hlexeme
      obtain ⟨hsingle, hkind⟩ := exists_char_of_longest? hlongest heq (hnone lexeme hin) hnoComment
      have hbytes := (hholds lexeme hlexeme).bytes_eq
      have hmem : newlineByte ∈ lexeme.chars.flatMap String.utf8EncodeChar := by
        rw [← hbytes]
        refine List.mem_of_getElem? (i := i - lexeme.offset) ?_
        rw [List.getElem?_drop, List.getElem?_take, Nat.add_sub_cancel' hle]
        exact (if_pos hlt).trans hbyte
      rw [hsingle, List.flatMap_singleton, newlineByte_mem_utf8EncodeChar] at hmem
      exact ⟨lexeme, hin, by rw [breaksLine, hkind.2 hmem]; rfl⟩
    · rw [hcomments] at hcomment
      obtain ⟨lexeme, hlexeme, hleaves⟩ := List.mem_filterMap.1 hcomment
      obtain ⟨hkind, htext, hoffset, hstop⟩ := comment?_eq_some hleaves
      obtain ⟨c, rest, length, hlongest, heq⟩ := hforms lexeme hlexeme
      have hpos : lexeme.offset < lexeme.stop :=
        Nat.lt_add_of_pos_right (byteLength_pos (heq ▸ List.cons_ne_nil _ _))
      have hin := mem_between_of_adjacent hadjacent hlexeme (by omega) (by omega)
      have hblockKind : lexeme.kind = .blockComment :=
        (comment_mark_of_longest? hlongest heq hkind).2 (htext ▸ hblock)
      refine ⟨lexeme, hin, ?_⟩
      rw [breaksLine, hblockKind, List.contains_iff_mem.2 (htext ▸ hnewline)]
      rfl
  · rintro ⟨lexeme, hin, hbreak⟩
    have hlexeme := hsub hin
    obtain ⟨hfrom, hto⟩ := between_of_mem hadjacent hin
    obtain ⟨c, rest, length, hlongest, heq⟩ := hforms lexeme hlexeme
    rw [breaksLine, Bool.or_eq_true, Bool.and_eq_true, decide_eq_true_eq, decide_eq_true_eq,
      List.contains_iff_mem] at hbreak
    rcases hbreak with hkind | ⟨hkind, hnewline⟩
    · -- a newline is outside all other lexemes
      have hleaves : lexeme.comment? = none := by rw [comment?, hkind]
      obtain ⟨hsingle, hc⟩ :=
        exists_char_of_longest? hlongest heq (hnone lexeme hin) hleaves
      obtain rfl := hc.1 hkind
      have hlength : byteLength lexeme.chars = 1 := by rw [hsingle]; rfl
      have hencoded : ['\n'].flatMap String.utf8EncodeChar = [newlineByte] := rfl
      rw [Lexeme.stop, hlength] at hto
      refine .inl ⟨lexeme.offset, hfrom, hto, ?_, fun comment hcomment ↦ ?_⟩
      · have hbytes := congrArg (·[0]?) (hholds lexeme hlexeme).bytes_eq
        rw [hlength, hsingle, hencoded] at hbytes
        simpa [List.getElem?_take] using hbytes
      · rw [hcomments] at hcomment
        obtain ⟨other, hother, hcovers⟩ := List.mem_filterMap.1 hcomment
        obtain ⟨-, -, hoffset, hstop⟩ := comment?_eq_some hcovers
        have hne : lexeme ≠ other := by rintro rfl; cases hleaves.symm.trans hcovers
        rw [hoffset, hstop]
        rcases apart_of_adjacent hadjacent hlexeme hother hne with hapart | hapart
        · rw [Lexeme.stop, hlength] at hapart
          omega
        · omega
    · have hleaves : lexeme.comment? = some ⟨lexeme.text, lexeme.offset⟩ := by rw [comment?, hkind]
      obtain ⟨-, htext, hoffset, hstop⟩ := comment?_eq_some hleaves
      refine .inr ⟨_, hcomments ▸ List.mem_filterMap.2 ⟨lexeme, hlexeme, hleaves⟩, hfrom,
        hstop.trans_le hto, ?_, ?_⟩
      · rw [Comment.IsBlock, htext]
        exact (comment_mark_of_longest? hlongest heq (.inr hkind)).1 hkind
      · rw [htext]
        exact hnewline

/-! ### Where terminators stand -/

theorem endsStatement_iff (kind : TokenKind) : kind.endsStatement = true ↔
    kind ∈ [TokenKind.ident, .int, .float, .char, .string, .kwBreak, .kwContinue, .kwFallthrough,
      .kwReturn, .plusPlus, .minusMinus, .rparen, .rbracket, .rbrace] := by
  cases kind <;> decide

/-- A terminator is put in behind a token of the text exactly when the token is a name, a literal, one
of four keywords, `++`, `--` or a closing bracket, and either a line breaks before the next token of
the text or there is none. No other terminator is put in. -/
theorem terminators_exact {text : String} {stream : TokenStream}
    (h : ofText text = .ok stream) :
    (∀ before token after, stream.tokens = before ++ token :: after → token.isLineEnd = false →
      ((∃ terminator ∈ after.head?, terminator.isLineEnd = true) ↔
        token.kind ∈ [TokenKind.ident, .int, .float, .char, .string, .kwBreak, .kwContinue,
          .kwFallthrough, .kwReturn, .plusPlus, .minusMinus, .rparen, .rbracket, .rbrace] ∧
        (after.find? (!·.isLineEnd) = none ∨ ∃ next ∈ after.find? (!·.isLineEnd),
          BreaksBetween text stream token.stop next.offset))) ∧
    ∀ before terminator after, stream.tokens = before ++ terminator :: after →
      terminator.isLineEnd = true → ∃ token ∈ before.getLast?, token.isLineEnd = false := by
  obtain ⟨lexemes, hcut, rfl⟩ := exists_cut_of_ofText h
  have hspelled := semicolonsSpelled_cut hcut
  refine ⟨fun before token after htokens hreal ↦ ?_, fun before terminator after htokens hend ↦ ?_⟩
  · obtain ⟨earlier, lexeme, later, rfl, htoken, rfl⟩ :=
      exists_lexeme_of_tokens _ false htokens hreal
    have hlater : SemicolonsSpelled later := fun other hother ↦
      hspelled other (List.mem_append_right _ (List.mem_cons_of_mem _ hother))
    rw [isLineEnd_head_ofLexemes hlater, find?_ofLexemes hlater, endsStatement_iff]
    refine and_congr_right fun _ ↦ ?_
    cases hnext : later.findSome? token? with
    | none => simp
    | some next =>
      obtain ⟨between, last, rest, rfl, hlast, hnone⟩ := List.findSome?_eq_some_iff.1 hnext
      have htake : (between ++ last :: rest).takeWhile (·.token?.isNone) = between := by
        rw [List.takeWhile_append_of_pos fun other hother ↦ by rw [hnone other hother]; rfl,
          List.takeWhile_cons_of_neg (by simp [hlast]), List.append_nil]
      obtain ⟨-, -, hstop⟩ := token?_eq_some htoken
      obtain ⟨-, hoffset, -⟩ := token?_eq_some hlast
      have hbreaks := breaksBetween_iff hcut hnone (comments_ofLexemes text.utf8ByteSize false _)
      simp only [reduceCtorEq, false_or, htake, Option.mem_def, Option.some.injEq,
        exists_eq_left', hstop, hoffset, hbreaks]
  · rcases real_before_lineEnd hspelled _ false htokens hend with ⟨-, hfalse⟩ | hfound
    · cases hfalse
    · exact hfound

/-- A line comment and a block comment with a newline leave one terminator between them, none stands
behind an opening parenthesis, and a semicolon of the text keeps the end of the input from leaving
one. -/
theorem terminators_exact_comments :
    let text := "a // b\n/* c\n*/ (/* d\n*/) /* e\n*/ f;"
    let stream : TokenStream :=
      ⟨[⟨.ident, "a", 0⟩, ⟨.semicolon, "\n", 6⟩, ⟨.lparen, "(", 15⟩, ⟨.rparen, ")", 23⟩,
        ⟨.semicolon, "\n", 25⟩, ⟨.ident, "f", 33⟩, ⟨.semicolon, ";", 34⟩],
        [⟨"// b", 2⟩, ⟨"/* c\n*/", 7⟩, ⟨"/* d\n*/", 16⟩, ⟨"/* e\n*/", 25⟩]⟩
    ofText text = .ok stream ∧ BreaksBetween text stream 24 33 ∧
      ∃ token ∈ (stream.tokens.take 4).getLast?, token.isLineEnd = false := by
  intro text stream
  have htext : ofText text = .ok stream := by decide +kernel
  obtain ⟨hbehind, hbefore⟩ := terminators_exact htext
  have hclosed := (hbehind (stream.tokens.take 3) ⟨.rparen, ")", 23⟩ (stream.tokens.drop 4) rfl
    rfl).1 ⟨⟨.semicolon, "\n", 25⟩, rfl, rfl⟩
  obtain ⟨next, hnext, hbreaks⟩ := hclosed.2.resolve_left (by decide)
  cases hnext
  exact ⟨htext, hbreaks,
    hbefore (stream.tokens.take 4) ⟨.semicolon, "\n", 25⟩ (stream.tokens.drop 5) rfl rfl⟩

end TokenStream

end PackageAtlas
