import Mathlib.Data.List.TakeWhile
import Mathlib.Data.String.Basic
import PackageAtlas.Token.Stream

/-!
Where tokens stand. The lexemes of a text make it up without gaps, so that its tokens follow one
another and every one but a terminator spells the bytes of the text that it stands on
(`placed_ofText`). A terminator that was put in for a line break takes no more than the first byte
of that break, so that it ends before the next token starts.
-/

set_option autoImplicit false
set_option relaxedAutoImplicit false

namespace PackageAtlas

namespace Lexeme

@[simp] theorem byteLength_nil : byteLength [] = 0 := rfl

@[simp] theorem byteLength_cons (c : Char) (rest : List Char) :
    byteLength (c :: rest) = c.utf8Size + byteLength rest := rfl

@[simp] theorem byteLength_append (first second : List Char) :
    byteLength (first ++ second) = byteLength first + byteLength second := by
  induction first with
  | nil => simp
  | cons c rest ih => simp [ih, Nat.add_assoc]

theorem byteLength_pos {cs : List Char} (h : cs ≠ []) : 0 < byteLength cs := by
  cases cs with
  | nil => exact absurd rfl h
  | cons c rest =>
    have := c.utf8Size_pos
    simp only [byteLength_cons]
    omega

theorem byteLength_eq_utf8Len (cs : List Char) : byteLength cs = String.utf8Len cs := by
  induction cs with
  | nil => simp
  | cons c rest ih => simp [ih, Nat.add_comm]

theorem byteLength_toList (text : String) : byteLength text.toList = text.utf8ByteSize := by
  rw [byteLength_eq_utf8Len, String.utf8Len_toList]

end Lexeme

open Lexeme

/-- The bytes of a text from an offset on are those of a part. -/
def HoldsAt (text part : List Char) (offset : Nat) : Prop :=
  ∃ before after, text = before ++ part ++ after ∧ offset = byteLength before

/-! ### Lexemes -/

/-- Lexemes without gaps between them, the first one at an offset. -/
inductive Adjacent : Nat → List Lexeme → Prop
  | nil (offset : Nat) : Adjacent offset []
  | cons {lexeme : Lexeme} {rest : List Lexeme} (hchars : lexeme.chars ≠ [])
      (hrest : Adjacent lexeme.stop rest) : Adjacent lexeme.offset (lexeme :: rest)

/-- Cutting a text leaves no gaps and loses nothing. -/
theorem adjacent_cut {cs : List Char} {offset : Nat} {lexemes : List Lexeme}
    (h : Lexeme.cut offset cs = .ok lexemes) :
    Adjacent offset lexemes ∧ lexemes.flatMap (·.chars) = cs := by
  fun_induction Lexeme.cut offset cs generalizing lexemes with
  | case1 offset =>
    cases h
    exact ⟨.nil offset, rfl⟩
  | case2 => cases h
  | case3 => cases h
  | case4 offset c rest kind length hlongest chars lexemes' hrest =>
    rename_i ih
    cases h
    obtain ⟨hadjacent, htexts⟩ := ih hrest
    have hall : Adjacent (Lexeme.mk kind chars offset).offset (⟨kind, chars, offset⟩ :: lexemes') :=
      .cons (List.cons_ne_nil _ _) hadjacent
    refine ⟨hall, ?_⟩
    rw [List.flatMap_cons, htexts]
    exact congrArg (c :: ·) (List.take_append_drop (length - 1) rest)

/-! ### Tokens -/

/-- Tokens of a text that follow one another from an offset on. All but terminators have a text of
their own, which is that of the bytes they stand on. -/
structure Placed (text : List Char) (offset : Nat) (tokens : List Token) : Prop where
  ordered : tokens.Pairwise fun first second ↦ first.stop ≤ second.offset
  ahead : ∀ token ∈ tokens, offset ≤ token.offset
  within : ∀ token ∈ tokens, token.stop ≤ byteLength text
  nonempty : ∀ token ∈ tokens, token.kind ≠ .semicolon → token.offset < token.stop
  spelled : ∀ token ∈ tokens, token.kind ≠ .semicolon →
    HoldsAt text token.text.toList token.offset

namespace Placed

variable {text : List Char} {offset : Nat} {token : Token} {tokens : List Token}

theorem nil (text : List Char) (offset : Nat) : Placed text offset [] :=
  ⟨.nil, by simp, by simp, by simp, by simp⟩

theorem mono (h : Placed text offset tokens) {earlier : Nat} (hle : earlier ≤ offset) :
    Placed text earlier tokens :=
  { h with ahead := fun token htoken ↦ hle.trans (h.ahead token htoken) }

/-- One more token, which ends where the others may start. -/
theorem cons {middle : Nat} (h : Placed text middle tokens) (hahead : offset ≤ token.offset)
    (hstop : token.stop ≤ middle) (hwithin : token.stop ≤ byteLength text)
    (hkind : token.kind ≠ .semicolon →
      token.offset < token.stop ∧ HoldsAt text token.text.toList token.offset)
    (hoffset : offset ≤ middle) : Placed text offset (token :: tokens) where
  ordered := List.pairwise_cons.2 ⟨fun other hother ↦ hstop.trans (h.ahead other hother), h.ordered⟩
  ahead := List.forall_mem_cons.2 ⟨hahead, (h.mono hoffset).ahead⟩
  within := List.forall_mem_cons.2 ⟨hwithin, h.within⟩
  nonempty := List.forall_mem_cons.2 ⟨fun hne ↦ (hkind hne).1, h.nonempty⟩
  spelled := List.forall_mem_cons.2 ⟨fun hne ↦ (hkind hne).2, h.spelled⟩

/-- What is left behind the first token. -/
theorem tail (h : Placed text offset (token :: tokens)) : Placed text token.stop tokens where
  ordered := (List.pairwise_cons.1 h.ordered).2
  ahead := (List.pairwise_cons.1 h.ordered).1
  within := (List.forall_mem_cons.1 h.within).2
  nonempty := (List.forall_mem_cons.1 h.nonempty).2
  spelled := (List.forall_mem_cons.1 h.spelled).2

end Placed

/-- The tokens of lexemes that make up the rest of a text. -/
theorem placed_ofLexemes {text before : List Char} {lexemes : List Lexeme} (pending : Bool)
    (h : Adjacent (byteLength before) lexemes)
    (htext : text = before ++ lexemes.flatMap (·.chars)) :
    Placed text (byteLength before)
      (TokenStream.ofLexemes (byteLength text) pending lexemes).tokens := by
  induction lexemes generalizing before pending with
  | nil =>
    have hsize : byteLength before = byteLength text := by rw [htext]; simp
    cases pending with
    | false => exact Placed.nil _ _
    | true =>
      have hend : Token.stop ⟨.semicolon, "", byteLength text⟩ = byteLength text := rfl
      exact (Placed.nil text (byteLength text)).cons hsize.le hend.le hend.le
        (fun hne ↦ absurd rfl hne) hsize.le
  | cons lexeme rest ih =>
    obtain ⟨hoffset, hchars, hrest⟩ : lexeme.offset = byteLength before ∧ lexeme.chars ≠ [] ∧
        Adjacent lexeme.stop rest := by
      generalize byteLength before = offset at h
      cases h with
      | cons hchars hrest => exact ⟨rfl, hchars, hrest⟩
    have hstop : lexeme.stop = byteLength (before ++ lexeme.chars) := by
      rw [Lexeme.stop, hoffset, byteLength_append]
    have htext' : text = (before ++ lexeme.chars) ++ rest.flatMap (·.chars) := by
      rw [htext, List.flatMap_cons, List.append_assoc]
    have hle : byteLength (before ++ lexeme.chars) ≤ byteLength text := by rw [htext']; simp
    have hahead : byteLength before ≤ byteLength (before ++ lexeme.chars) := by simp
    have hpos := byteLength_pos hchars
    rw [hstop] at hrest
    rw [TokenStream.ofLexemes]
    split
    · rename_i kind _
      have hlength : Token.stop ⟨kind, lexeme.text, lexeme.offset⟩ =
          byteLength (before ++ lexeme.chars) := by
        rw [Token.stop, ← byteLength_toList, Lexeme.text, String.toList_ofList, hoffset,
          byteLength_append]
      refine (ih _ hrest htext').cons hoffset.ge hlength.le (hlength.trans_le hle)
        (fun _ ↦ ⟨?_, before, rest.flatMap (·.chars), ?_, hoffset⟩) hahead
      · rw [hlength, byteLength_append]
        change lexeme.offset < _
        omega
      · rw [Lexeme.text, String.toList_ofList]
        exact htext'
    · exact (ih _ hrest htext').mono hahead
    · have hplaced := ih (pending && !TokenStream.breaksLine lexeme) hrest htext'
      by_cases hbreak : pending && TokenStream.breaksLine lexeme
      · -- the terminator takes the first byte of the break
        have hend : Token.stop (TokenStream.lineEnd lexeme.offset) = lexeme.offset + 1 := rfl
        simp only [hbreak, if_true]
        rw [byteLength_append] at hle
        refine hplaced.cons hoffset.ge ?_ ?_ (fun hne ↦ absurd rfl hne) hahead
        · rw [hend, byteLength_append]
          omega
        · omega
      · simp only [hbreak]
        exact hplaced.mono hahead

/-- The tokens of a text follow one another and stand on the bytes that they spell. -/
theorem placed_ofText {text : String} {stream : TokenStream}
    (h : TokenStream.ofText text = .ok stream) : Placed text.toList 0 stream.tokens := by
  unfold TokenStream.ofText at h
  cases hcut : Lexeme.cut 0 text.toList with
  | error error =>
    rw [hcut] at h
    cases h
  | ok lexemes =>
    rw [hcut] at h
    cases h
    obtain ⟨hadjacent, htexts⟩ := adjacent_cut hcut
    have hstart : Adjacent (byteLength []) lexemes := hadjacent
    have htext : text.toList = [] ++ lexemes.flatMap (·.chars) := htexts.symm
    rw [← byteLength_toList]
    exact placed_ofLexemes false hstart htext

/-! ### Names -/

/-- A text of nothing but letters, numbers and bars, as a name is. -/
def IsName (name : String) : Prop := ∀ c ∈ name.toList, isNamePart c = true

theorem number_kind (cs : List Char) : (number cs).1 = .int ∨ (number cs).1 = .float := by
  unfold number
  dsimp only
  split
  · split
    · exact .inl rfl
    · split
      · exact .inr rfl
      · split
        · exact .inl rfl
        · exact .inr rfl
  · split
    · exact .inr rfl
    · split
      · exact .inl rfl
      · exact .inr rfl

/-- A mark that starts a text is in the table and is spelled by the text. -/
theorem mem_marks_of_mark? {cs : List Char} {kind : TokenKind} {length : Nat}
    (h : mark? cs = some (kind, length)) :
    ∃ mark ∈ TokenKind.marks, mark.2 = kind ∧ mark.1.length = length ∧ mark.1.toList <+: cs := by
  obtain ⟨mark, hfind, hmark⟩ := Option.map_eq_some_iff.1 h
  obtain ⟨hkind, hlength⟩ := Prod.mk.inj hmark
  have hprefix := List.find?_some hfind
  exact ⟨mark, List.mem_of_find?_eq_some hfind, hkind, hlength,
    List.isPrefixOf_iff_prefix.1 hprefix⟩

/-- The forms of a lexeme that starts with a character and goes on in the rest of the text: its kind,
its number of characters, and what tells that the form is there. -/
inductive Lexeme.Form (c : Char) (rest : List Char) : LexemeKind → Nat → Prop
  | newline (h : c = '\n') : Form c rest .newline 1
  | blank (h : c = ' ' ∨ c = '\t' ∨ c = '\r') : Form c rest .blank 1
  | word (h : isNameStart c = true) :
    Form c rest
      (.token (.ofWord (String.ofList ((c :: rest).take (1 + runLength isNamePart rest)))))
      (1 + runLength isNamePart rest)
  | number (h : c.isDigit = true) :
    Form c rest (.token (Lexeme.number (c :: rest)).1) (Lexeme.number (c :: rest)).2
  | quoted {count : Nat} (hc : c = '"') (h : quotedLength? '"' rest = some count) :
    Form c rest (.token .string) (1 + count)
  | raw {count : Nat} (hc : c = Char.ofNat 96) (h : rawLength? rest = some count) :
    Form c rest (.token .string) (1 + count)
  | char {count : Nat} (hc : c = Char.ofNat 39) (h : quotedLength? (Char.ofNat 39) rest = some count)
    (hne : count ≠ 1) : Form c rest (.token .char) (1 + count)
  | lineComment {tail : List Char} (hc : c = '/') (hrest : rest = '/' :: tail) :
    Form c rest .lineComment (2 + runLength (· ≠ '\n') tail)
  | blockComment {tail : List Char} {count : Nat} (hc : c = '/') (hrest : rest = '*' :: tail)
    (h : commentLength? tail = some count) : Form c rest .blockComment (2 + count)
  | mark {kind : TokenKind} {length : Nat} (h : mark? (c :: rest) = some (kind, length)) :
    Form c rest (.token kind) length

theorem form_of_longest? {c : Char} {rest : List Char} {kind : LexemeKind} {length : Nat}
    (h : longest? c rest = some (kind, length)) : Lexeme.Form c rest kind length := by
  unfold longest? at h
  split_ifs at h with hnewline hblank hstart hdigit hstring hraw hchar
  · cases h
    exact .newline hnewline
  · cases h
    exact .blank hblank
  · cases h
    exact .word hstart
  · cases h
    exact .number hdigit
  · obtain ⟨count, hcount, heq⟩ := Option.map_eq_some_iff.1 h
    cases heq
    exact .quoted hstring hcount
  · obtain ⟨count, hcount, heq⟩ := Option.map_eq_some_iff.1 h
    cases heq
    exact .raw hraw hcount
  · split at h
    · cases h
    · rename_i found hne
      obtain ⟨count, hcount, heq⟩ := Option.map_eq_some_iff.1 h
      cases heq
      exact .char hchar hcount fun hone ↦ hne (hone ▸ hcount)
  · split at h
    · cases h
      exact .lineComment rfl rfl
    · obtain ⟨count, hcount, heq⟩ := Option.map_eq_some_iff.1 h
      cases heq
      exact .blockComment rfl rfl hcount
    · obtain ⟨⟨kind, length⟩, hmark, heq⟩ := Option.map_eq_some_iff.1 h
      cases heq
      exact .mark hmark

/-- A lexeme that is a name is made of parts of names. -/
theorem isNamePart_of_longest? {c : Char} {rest : List Char} {length : Nat}
    (h : longest? c rest = some (.token .ident, length)) :
    ∀ d ∈ c :: rest.take (length - 1), isNamePart d = true := by
  generalize hkind : LexemeKind.token .ident = kind at h
  cases form_of_longest? h with
  | word hstart =>
    rw [Nat.add_sub_cancel_left, runLength,
      ← List.prefix_iff_eq_take.1 (List.takeWhile_prefix isNamePart)]
    refine List.forall_mem_cons.2 ⟨?_, fun d hd ↦ List.mem_takeWhile_imp hd⟩
    rw [isNamePart, hstart, Bool.true_or]
  | number =>
    have hident := LexemeKind.token.inj hkind
    rcases number_kind (c :: rest) with hint | hfloat
    · cases hident.trans hint
    · cases hident.trans hfloat
  | mark hfound =>
    obtain ⟨mark, hmark, hmarkKind, -⟩ := mem_marks_of_mark? hfound
    have hall : ∀ mark ∈ TokenKind.marks, mark.2 ≠ .ident := by decide
    exact absurd (hmarkKind.trans (LexemeKind.token.inj hkind).symm) (hall mark hmark)
  | _ => cases hkind

/-- Each lexeme is the longest one where it starts. -/
theorem exists_longest?_of_mem_cut {cs : List Char} {offset : Nat} {lexemes : List Lexeme}
    (h : Lexeme.cut offset cs = .ok lexemes) : ∀ lexeme ∈ lexemes, ∃ c rest length,
      longest? c rest = some (lexeme.kind, length) ∧
        lexeme.chars = c :: rest.take (length - 1) := by
  fun_induction Lexeme.cut offset cs generalizing lexemes with
  | case1 => cases h; exact fun _ h ↦ (by cases h)
  | case2 => cases h
  | case3 => cases h
  | case4 offset c rest kind length hlongest chars lexemes' hrest =>
    rename_i ih
    cases h
    exact List.forall_mem_cons.2 ⟨⟨c, rest, length, hlongest, rfl⟩, ih hrest⟩

theorem isNamePart_of_mem_cut {cs : List Char} {offset : Nat} {lexemes : List Lexeme}
    (h : Lexeme.cut offset cs = .ok lexemes) : ∀ lexeme ∈ lexemes, lexeme.kind = .token .ident →
      ∀ c ∈ lexeme.chars, isNamePart c = true := by
  intro lexeme hlexeme hkind
  obtain ⟨c, rest, length, hlongest, hchars⟩ := exists_longest?_of_mem_cut h lexeme hlexeme
  rw [hkind] at hlongest
  rw [hchars]
  exact isNamePart_of_longest? hlongest

/-- The names among the tokens of lexemes are lexemes. -/
theorem isName_of_mem_ofLexemes {lexemes : List Lexeme}
    (h : ∀ lexeme ∈ lexemes, lexeme.kind = .token .ident → ∀ c ∈ lexeme.chars, isNamePart c = true)
    (size : Nat) (pending : Bool) : ∀ token ∈ (TokenStream.ofLexemes size pending lexemes).tokens,
      token.kind = .ident → IsName token.text := by
  induction lexemes generalizing pending with
  | nil =>
    cases pending with
    | false => exact fun _ h ↦ (by cases h)
    | true => exact List.forall_mem_singleton.2 nofun
  | cons lexeme rest ih =>
    obtain ⟨hlexeme, hrest⟩ := List.forall_mem_cons.1 h
    rw [TokenStream.ofLexemes]
    split
    · rename_i kind hkind
      refine List.forall_mem_cons.2 ⟨fun hident c hc ↦ ?_, ih hrest _⟩
      obtain rfl : kind = .ident := hident
      rw [Lexeme.text, String.toList_ofList] at hc
      exact hlexeme hkind c hc
    · exact ih hrest pending
    · dsimp only
      split
      · exact List.forall_mem_cons.2 ⟨nofun, ih hrest _⟩
      · exact ih hrest _

/-- The names among the tokens of a text are made of parts of names. -/
theorem isName_of_mem_ofText {text : String} {stream : TokenStream}
    (h : TokenStream.ofText text = .ok stream) :
    ∀ token ∈ stream.tokens, token.kind = .ident → IsName token.text := by
  unfold TokenStream.ofText at h
  cases hcut : Lexeme.cut 0 text.toList with
  | error error =>
    rw [hcut] at h
    cases h
  | ok lexemes =>
    rw [hcut] at h
    cases h
    exact isName_of_mem_ofLexemes (isNamePart_of_mem_cut hcut) _ _

end PackageAtlas
