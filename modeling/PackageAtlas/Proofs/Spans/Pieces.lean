import Mathlib.Data.List.Pairwise
import PackageAtlas.Proofs.Positions.Lines

/-!
What a text is made of. Every lexeme but a blank or a line break leaves one piece behind, a token or
a comment, and a terminator that is put in is no piece. So tokens and comments, merged by offset,
spell the text one behind the other, and only blanks and line breaks stand between them
(`TokenStream.merged_spells`).
-/

set_option autoImplicit false
set_option relaxedAutoImplicit false

namespace PackageAtlas

open Lexeme Text

/-! ### Pieces -/

/-- A piece of a text at a byte offset. -/
structure Piece where
  text : String
  offset : Nat

/-- The offset just after a piece. -/
def Piece.stop (piece : Piece) : Nat := piece.offset + piece.text.utf8ByteSize

def Token.piece (token : Token) : Piece := ⟨token.text, token.offset⟩

def Comment.piece (comment : Comment) : Piece := ⟨comment.text, comment.offset⟩

namespace TokenStream

/-- The tokens that stand for text of the input, and the comments. -/
def pieces (stream : TokenStream) : List Piece :=
  (stream.tokens.filter (!·.isLineEnd)).map Token.piece ++ stream.comments.map Comment.piece

/-- The tokens that stand for text of the input and the comments, merged by their offsets. -/
def merged (stream : TokenStream) : List Piece :=
  stream.pieces.mergeSort (fun first second ↦ first.offset ≤ second.offset)

end TokenStream

/-! ### Lexemes by their kind -/

namespace Lexeme

/-- What a lexeme leaves behind in a token stream. -/
def piece? (lexeme : Lexeme) : Option Piece :=
  match lexeme.kind with
  | .blank | .newline => none
  | _ => some ⟨lexeme.text, lexeme.offset⟩

theorem stop_of_piece? {lexeme : Lexeme} {piece : Piece} (h : lexeme.piece? = some piece) :
    piece.text = lexeme.text ∧ piece.offset = lexeme.offset ∧ piece.stop = lexeme.stop := by
  have hpiece : piece = ⟨lexeme.text, lexeme.offset⟩ := by
    unfold piece? at h
    split at h
    · cases h
    · cases h
    · exact (Option.some.inj h).symm
  subst hpiece
  refine ⟨rfl, rfl, ?_⟩
  rw [Piece.stop, Lexeme.stop, Lexeme.text, ← byteLength_toList, String.toList_ofList]

/-- Blanks and line breaks are single characters. -/
theorem blank_of_longest? {c : Char} {rest : List Char} {kind : LexemeKind} {length : Nat}
    (h : longest? c rest = some (kind, length)) (hkind : kind = .blank ∨ kind = .newline) :
    length = 1 ∧ c ∈ [' ', '\t', '\r', '\n'] := by
  cases form_of_longest? h with
  | newline hc => exact ⟨rfl, by simp [hc]⟩
  | blank hc => exact ⟨rfl, by rcases hc with rfl | rfl | rfl <;> simp⟩
  | _ => rcases hkind with hkind | hkind <;> cases hkind

theorem ofWord_ne_semicolon (word : String) : TokenKind.ofWord word ≠ .semicolon := by
  intro h
  rw [TokenKind.ofWord] at h
  cases hfound : TokenKind.keywords.lookup word with
  | none =>
    rw [hfound] at h
    cases h
  | some kind =>
    obtain ⟨before, after, hkeywords, -⟩ := List.lookup_eq_some_iff.1 hfound
    have hall : ∀ keyword ∈ TokenKind.keywords, keyword.2 ≠ .semicolon := by decide
    rw [hfound] at h
    refine hall (word, kind) ?_ h
    rw [hkeywords]
    exact List.mem_append_right _ List.mem_cons_self

/-- A semicolon of the text is a token that says so. -/
theorem semicolon_of_longest? {c : Char} {rest : List Char} {length : Nat}
    (h : longest? c rest = some (.token .semicolon, length)) :
    c :: rest.take (length - 1) = [';'] := by
  generalize hkind : LexemeKind.token .semicolon = kind at h
  cases form_of_longest? h with
  | word => exact absurd (LexemeKind.token.inj hkind).symm (ofWord_ne_semicolon _)
  | number =>
    have hsemicolon := LexemeKind.token.inj hkind
    rcases number_kind (c :: rest) with hint | hfloat
    · cases hsemicolon.trans hint
    · cases hsemicolon.trans hfloat
  | mark hfound =>
    obtain ⟨mark, hmark, hmarkKind, rfl, hprefix⟩ := mem_marks_of_mark? hfound
    have hall : ∀ mark ∈ TokenKind.marks, mark.2 = .semicolon → mark.1 = ";" := by decide
    rw [hall mark hmark (hmarkKind.trans (LexemeKind.token.inj hkind).symm)] at hprefix ⊢
    obtain ⟨rfl, -⟩ := List.cons_prefix_cons.1 hprefix
    rfl
  | _ => cases hkind

/-! ### Texts covered by lexemes -/

variable {offset : Nat} {lexemes : List Lexeme}

theorem le_offset_of_adjacent (h : Adjacent offset lexemes) :
    ∀ lexeme ∈ lexemes, offset ≤ lexeme.offset := by
  induction h with
  | nil => exact fun _ h ↦ (by cases h)
  | @cons lexeme rest hchars hrest ih =>
    exact List.forall_mem_cons.2 ⟨le_rfl, fun other hother ↦
      (Nat.le_add_right _ _).trans (ih other hother)⟩

theorem pairwise_of_adjacent (h : Adjacent offset lexemes) :
    lexemes.Pairwise fun first second ↦
      first.offset < second.offset ∧ first.stop ≤ second.offset := by
  induction h with
  | nil => exact .nil
  | @cons lexeme rest hchars hrest ih =>
    refine List.pairwise_cons.2 ⟨fun other hother ↦ ?_, ih⟩
    have hle := le_offset_of_adjacent hrest other hother
    have hpos := byteLength_pos hchars
    rw [Lexeme.stop] at hle ⊢
    omega

/-- Each byte of a text belongs to a lexeme. -/
theorem exists_covering (h : Adjacent offset lexemes) {i : Nat} (hstart : offset ≤ i)
    (hstop : i < offset + byteLength (lexemes.flatMap (·.chars))) :
    ∃ lexeme ∈ lexemes, lexeme.offset ≤ i ∧ i < lexeme.stop := by
  induction h with
  | nil =>
    simp at hstop
    omega
  | @cons lexeme rest hchars hrest ih =>
    rw [List.flatMap_cons, byteLength_append] at hstop
    by_cases hi : i < lexeme.stop
    · exact ⟨lexeme, List.mem_cons_self, hstart, hi⟩
    · obtain ⟨other, hother, hbetween⟩ := ih (Nat.le_of_not_lt hi) (by rw [Lexeme.stop]; omega)
      exact ⟨other, List.mem_cons_of_mem _ hother, hbetween⟩

/-- Each lexeme stands on the characters that it has. -/
theorem holdsAt_of_adjacent {text before : List Char} (h : Adjacent (byteLength before) lexemes)
    (htext : text = before ++ lexemes.flatMap (·.chars)) :
    ∀ lexeme ∈ lexemes, HoldsAt text lexeme.chars lexeme.offset := by
  induction lexemes generalizing before with
  | nil => exact fun _ h ↦ (by cases h)
  | cons lexeme rest ih =>
    generalize hoffset : byteLength before = start at h
    cases h with
    | cons hchars hrest =>
      refine List.forall_mem_cons.2 ⟨⟨before, rest.flatMap (·.chars), ?_, hoffset.symm⟩, ?_⟩
      · rw [htext, List.flatMap_cons, List.append_assoc]
      · refine @ih (before ++ lexeme.chars) ?_ ?_
        · rw [byteLength_append, hoffset]
          exact hrest
        · rw [htext, List.flatMap_cons, List.append_assoc]

end Lexeme

/-! ### Bytes of parts -/

theorem length_flatMap_utf8EncodeChar (cs : List Char) :
    (cs.flatMap String.utf8EncodeChar).length = byteLength cs := by
  induction cs with
  | nil => rfl
  | cons c rest ih =>
    rw [List.flatMap_cons, List.length_append, String.length_utf8EncodeChar, ih, byteLength_cons]

/-- The bytes of a part of a text are those of the text where the part is. -/
theorem HoldsAt.bytes_eq {text : String} {part : List Char} {offset : Nat}
    (h : HoldsAt text.toList part offset) :
    ((bytes text).take (offset + byteLength part)).drop offset =
      part.flatMap String.utf8EncodeChar := by
  obtain ⟨before, after, htext, rfl⟩ := h
  rw [bytes_eq_flatMap, htext, List.flatMap_append, List.flatMap_append]
  have hlength : byteLength before + byteLength part =
      ((before ++ part).flatMap String.utf8EncodeChar).length := by
    rw [length_flatMap_utf8EncodeChar, byteLength_append]
  rw [← List.flatMap_append, hlength, List.take_left, List.flatMap_append,
    ← length_flatMap_utf8EncodeChar, List.drop_left]

/-! ### The pieces of a token stream -/

namespace TokenStream

variable {lexemes : List Lexeme}

/-- A token of the text does not pass for a terminator that was put in. -/
theorem isLineEnd_token {lexeme : Lexeme} {kind : TokenKind}
    (h : kind = .semicolon → lexeme.chars = [';']) :
    Token.isLineEnd ⟨kind, lexeme.text, lexeme.offset⟩ = false := by
  by_cases hkind : kind = .semicolon
  · have htext : lexeme.text = ";" := by rw [Lexeme.text, h hkind]
    simp [Token.isLineEnd, htext]
  · simp [Token.isLineEnd, hkind]

/-- The tokens and comments of a stream are what its lexemes leave behind. -/
theorem pieces_ofLexemes
    (h : ∀ lexeme ∈ lexemes, lexeme.kind = .token .semicolon → lexeme.chars = [';'])
    (size : Nat) (pending : Bool) :
    (ofLexemes size pending lexemes).pieces.Perm (lexemes.filterMap Lexeme.piece?) := by
  induction lexemes generalizing pending with
  | nil => cases pending <;> exact .nil
  | cons lexeme rest ih =>
    obtain ⟨hlexeme, hrest⟩ := List.forall_mem_cons.1 h
    rw [ofLexemes]
    split
    · rename_i kind hkind
      have hreal : Token.isLineEnd ⟨kind, lexeme.text, lexeme.offset⟩ = false :=
        isLineEnd_token fun hsemicolon ↦ hlexeme (hkind.trans (congrArg _ hsemicolon))
      have hpiece : lexeme.piece? = some ⟨lexeme.text, lexeme.offset⟩ := by
        rw [Lexeme.piece?, hkind]
      rw [List.filterMap_cons_some hpiece, pieces, List.filter_cons_of_pos (by simp [hreal])]
      exact (ih hrest _).cons _
    · rename_i hkind
      have hpiece : lexeme.piece? = none := by rw [Lexeme.piece?, hkind]
      rw [List.filterMap_cons_none hpiece]
      exact ih hrest pending
    · rename_i hnoToken hnoBlank
      have hrestPieces := ih hrest (pending && !breaksLine lexeme)
      -- a terminator for the line break is no piece
      have htokens (tokens : List Token) (breaks : Bool) :
          (if breaks then lineEnd lexeme.offset :: tokens else tokens).filter (!·.isLineEnd) =
            tokens.filter (!·.isLineEnd) := by
        cases breaks <;> rfl
      dsimp only [pieces]
      rw [htokens]
      by_cases hnewline : lexeme.kind = .newline
      · have hpiece : lexeme.piece? = none := by rw [Lexeme.piece?, hnewline]
        rw [if_pos hnewline, List.filterMap_cons_none hpiece]
        exact hrestPieces
      · have hpiece : lexeme.piece? = some ⟨lexeme.text, lexeme.offset⟩ := by
          rw [Lexeme.piece?]
          split
          · exact absurd ‹_› hnoBlank
          · exact absurd ‹_› hnewline
          · rfl
        rw [if_neg hnewline, List.filterMap_cons_some hpiece, List.map_cons]
        exact List.perm_middle.trans (hrestPieces.cons _)

/-- The pieces of adjacent lexemes follow one another. -/
theorem pairwise_pieces {offset : Nat} (h : Adjacent offset lexemes) :
    (lexemes.filterMap Lexeme.piece?).Pairwise fun first second ↦
      first.offset < second.offset ∧ first.stop ≤ second.offset := by
  refine List.pairwise_filterMap.2 ((pairwise_of_adjacent h).imp ?_)
  intro first second hlt piece hpiece piece' hpiece'
  obtain ⟨-, hoffset, hstop⟩ := stop_of_piece? hpiece
  obtain ⟨-, hoffset', -⟩ := stop_of_piece? hpiece'
  rw [hoffset, hstop, hoffset']
  exact hlt

/-- Merging by offset puts the pieces in the order of the lexemes. -/
theorem merged_eq {stream : TokenStream} {offset : Nat}
    (hpieces : stream.pieces.Perm (lexemes.filterMap Lexeme.piece?))
    (h : Adjacent offset lexemes) : stream.merged = lexemes.filterMap Lexeme.piece? := by
  have hordered := (pairwise_pieces h).imp fun hlt ↦ hlt.1
  have hle : (lexemes.filterMap Lexeme.piece?).Pairwise fun first second ↦
      decide (first.offset ≤ second.offset) = true :=
    hordered.imp fun hlt ↦ decide_eq_true hlt.le
  have hmerged : stream.merged.Perm (lexemes.filterMap Lexeme.piece?) :=
    (List.mergeSort_perm _ _).trans hpieces
  refine List.Perm.eq_of_pairwise (fun first second hfirst hsecond hfs hsf ↦ ?_)
    (List.pairwise_mergeSort ?_ ?_ _) hle hmerged
  · -- pieces at the same offset are the same
    have hdistinct : (lexemes.filterMap Lexeme.piece?).Pairwise fun first second ↦
        first.offset ≠ second.offset := hordered.imp fun hlt ↦ hlt.ne
    have : Std.Symm fun first second : Piece ↦ first.offset ≠ second.offset :=
      ⟨fun _ _ hne ↦ hne.symm⟩
    by_contra hne
    exact hdistinct.forall (hmerged.subset hfirst) hsecond hne
      (le_antisymm (of_decide_eq_true hfs) (of_decide_eq_true hsf))
  · intro first second third hfs hst
    simp only [decide_eq_true_eq] at *
    omega
  · intro first second
    simp only [Bool.or_eq_true, decide_eq_true_eq]
    omega

/-- A byte of a blank lexeme is that of its character. -/
theorem blank_of_piece? {text : String} {lexeme : Lexeme} {c : Char} {rest : List Char}
    {length : Nat} (hlongest : longest? c rest = some (lexeme.kind, length))
    (hchars : lexeme.chars = c :: rest.take (length - 1)) (hpiece : lexeme.piece? = none)
    (hholds : HoldsAt text.toList lexeme.chars lexeme.offset) :
    lexeme.stop = lexeme.offset + 1 ∧
      ∀ byte, (bytes text)[lexeme.offset]? = some byte → byte ∈ [32, 9, 13, 10] := by
  have hkind : lexeme.kind = .blank ∨ lexeme.kind = .newline := by
    rw [Lexeme.piece?] at hpiece
    split at hpiece
    · exact .inl ‹_›
    · exact .inr ‹_›
    · cases hpiece
  obtain ⟨rfl, hc⟩ := blank_of_longest? hlongest hkind
  rw [Nat.sub_self, List.take_zero] at hchars
  obtain ⟨hlength, blank, hblank, hencoded⟩ : byteLength lexeme.chars = 1 ∧
      ∃ blank ∈ [32, 9, 13, 10], lexeme.chars.flatMap String.utf8EncodeChar = [blank] := by
    rw [hchars]
    simp only [List.mem_cons, List.not_mem_nil, or_false] at hc
    rcases hc with rfl | rfl | rfl | rfl <;> exact ⟨rfl, _, by decide, rfl⟩
  refine ⟨by rw [Lexeme.stop, hlength], fun byte hbyte ↦ ?_⟩
  have hbytes := hholds.bytes_eq
  rw [hlength, hencoded] at hbytes
  have hfirst := congrArg (·[0]?) hbytes
  simp only [List.getElem?_drop, List.getElem?_take, Nat.add_zero, Nat.lt_succ_self, if_true,
    List.getElem?_cons_zero, hbyte, Option.some.injEq] at hfirst
  rw [hfirst]
  exact hblank

/-- Tokens and comments carry the bytes of the text from their offset to their end, those merged by
offset follow one another without sharing a byte, and every byte outside them is a space, a tab, a
carriage return or a newline. -/
theorem merged_spells {text : String} {stream : TokenStream} (h : ofText text = .ok stream) :
    (∀ token ∈ stream.tokens, token.isLineEnd = false →
      ((bytes text).take token.stop).drop token.offset = bytes token.text) ∧
    (∀ comment ∈ stream.comments,
      ((bytes text).take comment.stop).drop comment.offset = bytes comment.text) ∧
    stream.merged.Pairwise (fun first second ↦
      first.offset < second.offset ∧ first.stop ≤ second.offset) ∧
    ∀ i byte, (bytes text)[i]? = some byte →
      (∀ piece ∈ stream.merged, ¬(piece.offset ≤ i ∧ i < piece.stop)) →
        byte ∈ [32, 9, 13, 10] := by
  cases hcut : cut 0 text.toList with
  | error error =>
    rw [ofText, hcut] at h
    cases h
  | ok lexemes =>
    rw [ofText, hcut] at h
    cases h
    obtain ⟨hadjacent, hchars⟩ := adjacent_cut hcut
    have hforms := exists_longest?_of_mem_cut hcut
    have hstart : Adjacent (byteLength []) lexemes := hadjacent
    have hholds := holdsAt_of_adjacent hstart hchars.symm
    have hsemicolon : ∀ lexeme ∈ lexemes, lexeme.kind = .token .semicolon →
        lexeme.chars = [';'] := by
      intro lexeme hlexeme hkind
      obtain ⟨c, rest, length, hlongest, heq⟩ := hforms lexeme hlexeme
      rw [hkind] at hlongest
      rw [heq]
      exact semicolon_of_longest? hlongest
    have hpieces := pieces_ofLexemes hsemicolon text.utf8ByteSize false
    have hmerged := merged_eq hpieces hadjacent
    have hspelled : ∀ piece ∈ (ofLexemes text.utf8ByteSize false lexemes).pieces,
        ((bytes text).take piece.stop).drop piece.offset = bytes piece.text := by
      intro piece hpiece
      obtain ⟨lexeme, hlexeme, hleaves⟩ := List.mem_filterMap.1 (hpieces.subset hpiece)
      obtain ⟨htext, hoffset, hstop⟩ := stop_of_piece? hleaves
      rw [htext, hoffset, hstop, Lexeme.stop, (hholds lexeme hlexeme).bytes_eq, bytes_eq_flatMap,
        Lexeme.text, String.toList_ofList]
    refine ⟨fun token htoken hreal ↦ ?_, fun comment hcomment ↦ ?_, ?_, fun i byte hbyte hout ↦ ?_⟩
    · exact hspelled token.piece (List.mem_append_left _ (List.mem_map_of_mem
        (List.mem_filter.2 ⟨htoken, by rw [hreal]; rfl⟩)))
    · exact hspelled comment.piece (List.mem_append_right _ (List.mem_map_of_mem hcomment))
    · rw [hmerged]
      exact pairwise_pieces hadjacent
    · -- the lexeme around the byte is no piece
      rw [hmerged] at hout
      obtain ⟨hi, -⟩ := List.getElem?_eq_some_iff.1 hbyte
      obtain ⟨lexeme, hlexeme, hfrom, hto⟩ := exists_covering hadjacent (Nat.zero_le i)
        (by rw [hchars, Nat.zero_add, byteLength_toList]; exact hi)
      obtain ⟨c, rest, length, hlongest, heq⟩ := hforms lexeme hlexeme
      have hpiece : lexeme.piece? = none := by
        cases hleaves : lexeme.piece? with
        | none => rfl
        | some piece =>
          obtain ⟨-, hoffset, hstop⟩ := stop_of_piece? hleaves
          refine absurd ⟨?_, ?_⟩ (hout piece (List.mem_filterMap.2 ⟨lexeme, hlexeme, hleaves⟩))
          · rw [hoffset]; exact hfrom
          · rw [hstop]; exact hto
      obtain ⟨hstop, hblank⟩ := blank_of_piece? hlongest heq hpiece (hholds lexeme hlexeme)
      obtain rfl : i = lexeme.offset := by omega
      exact hblank byte hbyte

/-- A comment with a line break behind a name, a semicolon of the text, and what looks like a
comment inside a string. -/
theorem merged_spells_comments :
    let text := "a /* é\n*/ ; \"//\" // b\n"
    let stream : TokenStream :=
      ⟨[⟨.ident, "a", 0⟩, ⟨.semicolon, "\n", 2⟩, ⟨.semicolon, ";", 11⟩, ⟨.string, "\"//\"", 13⟩,
        ⟨.semicolon, "\n", 22⟩], [⟨"/* é\n*/", 2⟩, ⟨"// b", 18⟩]⟩
    ofText text = .ok stream ∧
      ((bytes text).take 10).drop 2 = bytes "/* é\n*/" ∧
      stream.merged.Pairwise fun first second ↦
        first.offset < second.offset ∧ first.stop ≤ second.offset := by
  intro text stream
  have htext : ofText text = .ok stream := by decide +kernel
  obtain ⟨-, hcomments, hordered, -⟩ := merged_spells htext
  exact ⟨htext, hcomments ⟨"/* é\n*/", 2⟩ List.mem_cons_self, hordered⟩

end TokenStream

end PackageAtlas
