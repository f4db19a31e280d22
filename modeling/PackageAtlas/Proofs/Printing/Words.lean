import Mathlib.Data.List.TakeWhile
import PackageAtlas.Token.Stream
import PackageAtlas.Types.Universe

/-!
The words of a type. The text of a type that a program can write without naming a package
(`Ty.isDenotable`) is cut into the words that one expects (`Ty.lexes_text`): each of its lexemes
ends where the next one starts, as no name is followed by a part of a name and no mark by one that
extends it.
-/

set_option autoImplicit false
set_option relaxedAutoImplicit false

namespace PackageAtlas

open Lexeme

/-! ### Types that can be written down -/

/-- A name or a keyword. -/
def isWord (name : String) : Bool :=
  match name.toList with
  | [] => false
  | c :: rest => isNameStart c && rest.all isNamePart

/-- A name that is no keyword. -/
def isIdentifier (name : String) : Bool := isWord name && TokenKind.ofWord name == .ident

/-- The name of the predeclared error type. -/
def Universe.errorName : TypeName := ⟨⟨19⟩, "error", none⟩

/-- The largest length of an array that is an integer constant. -/
def Ty.maxLength : Nat := 9223372036854775807

/-- Names of which none but blank ones is given twice. -/
def NamesApart (names : List String) : Prop := (names.filter (· != "_")).Nodup

instance (names : List String) : Decidable (NamesApart names) :=
  inferInstanceAs (Decidable (names.filter (· != "_")).Nodup)

mutual

/-- Whether a type is made of predeclared types alone, without embedded fields, and has names that
can be written. -/
def Ty.isDenotable : Ty → Bool
  | .basic kind => !kind.isUntyped
  | .named name => name == Universe.errorName
  | .pointer element | .slice element => isDenotable element
  | .array length element => decide (length ≤ maxLength) && isDenotable element
  | .map key value => isDenotable key && isDenotable value
  | .struct fields => decide (NamesApart (fields.map (·.name))) && fieldsDenotable fields
  | .interface methods => methodsDenotable methods
  | .func signature => signatureDenotable signature
  | .invalid | .tuple _ => false

def Ty.signatureDenotable : Signature → Bool
  | ⟨params, results⟩ => allDenotable params && allDenotable results

def Ty.allDenotable : List Ty → Bool
  | [] => true
  | type :: rest => isDenotable type && allDenotable rest

def Ty.fieldsDenotable : List Member → Bool
  | [] => true
  | ⟨_, name, isEmbedded, type⟩ :: rest =>
    isIdentifier name && !isEmbedded && isDenotable type && fieldsDenotable rest

def Ty.methodsDenotable : List Member → Bool
  | [] => true
  | ⟨_, name, _, .func signature⟩ :: rest =>
    isIdentifier name && signatureDenotable signature && methodsDenotable rest
  | _ :: _ => false

end

/-- A word is a token without its place. -/
abbrev Word := TokenKind × String

mutual

/-- The words of the text of a type. -/
def Ty.words : Ty → List Word
  | .invalid | .tuple _ => []
  | .basic kind => [(.ident, kind.name)]
  | .named name => [(.ident, name.name)]
  | .pointer element => (.star, "*") :: words element
  | .slice element => (.lbracket, "[") :: (.rbracket, "]") :: words element
  | .array length element =>
    (.lbracket, "[") :: (.int, toString length) :: (.rbracket, "]") :: words element
  | .map key value =>
    (.kwMap, "map") :: (.lbracket, "[") :: (words key ++ (.rbracket, "]") :: words value)
  | .struct fields =>
    (.kwStruct, "struct") :: (.lbrace, "\x7b") :: (fieldWords fields ++ [(.rbrace, "\x7d")])
  | .interface methods =>
    (.kwInterface, "interface") :: (.lbrace, "\x7b") ::
      (methodWords methods ++ [(.rbrace, "\x7d")])
  | .func signature => (.kwFunc, "func") :: signatureWords signature

/-- Types with commas between them. -/
def Ty.listWords : List Ty → List Word
  | [] => []
  | [type] => words type
  | type :: next :: rest => words type ++ (.comma, ",") :: listWords (next :: rest)

def Ty.signatureWords : Signature → List Word
  | ⟨params, []⟩ => (.lparen, "(") :: (listWords params ++ [(.rparen, ")")])
  | ⟨params, [result]⟩ =>
    (.lparen, "(") :: (listWords params ++ (.rparen, ")") :: words result)
  | ⟨params, results⟩ =>
    (.lparen, "(") :: (listWords params ++ (.rparen, ")") :: (.lparen, "(") ::
      (listWords results ++ [(.rparen, ")")]))

/-- Fields with semicolons between them. -/
def Ty.fieldWords : List Member → List Word
  | [] => []
  | [⟨_, name, _, type⟩] => (.ident, name) :: words type
  | ⟨_, name, _, type⟩ :: next :: rest =>
    (.ident, name) :: (words type ++ (.semicolon, ";") :: fieldWords (next :: rest))

/-- Methods with semicolons between them. -/
def Ty.methodWords : List Member → List Word
  | [] => []
  | [⟨_, name, _, .func signature⟩] => (.ident, name) :: signatureWords signature
  | ⟨_, name, _, .func signature⟩ :: next :: rest =>
    (.ident, name) :: (signatureWords signature ++ (.semicolon, ";") :: methodWords (next :: rest))
  | _ :: _ => []

end

/-! ### Cutting -/

/-- Characters that are cut into words, with nothing between them but blanks. -/
inductive Lexes : List Char → List Word → Prop
  | nil : Lexes [] []
  | blank {rest : List Char} {words : List Word} (h : Lexes rest words) :
    Lexes (' ' :: rest) words
  | cons {kind : TokenKind} {c : Char} {cs rest : List Char} {words : List Word}
    (hlongest : longest? c (cs ++ rest) = some (.token kind, 1 + cs.length))
    (h : Lexes rest words) : Lexes (c :: (cs ++ rest)) ((kind, String.ofList (c :: cs)) :: words)

/-- What follows is no part of a name. -/
def Stops (rest : List Char) : Prop := ∀ c ∈ rest.head?, isNamePart c = false

theorem stops_cons {c : Char} {rest : List Char} (h : isNamePart c = false) :
    Stops (c :: rest) := by
  intro d hd
  cases hd
  exact h

theorem runLength_append {test : Char → Bool} {cs rest : List Char} (hcs : ∀ c ∈ cs, test c = true)
    (hrest : ∀ c ∈ rest.head?, test c = false) : runLength test (cs ++ rest) = cs.length := by
  unfold runLength
  rw [List.takeWhile_append_of_pos hcs]
  cases rest with
  | nil => simp
  | cons c rest => simp [hrest c rfl]

/-! #### The longest lexeme -/

theorem longest?_star {rest : List Char} (h : rest.head? ≠ some '=') :
    longest? '*' rest = some (.token .star, 1) := by
  cases rest with
  | nil => rfl
  | cons c rest =>
    have hne : ('=' == c) = false := by simpa using Ne.symm h
    simp [longest?, isNameStart, Text.isLetter, mark?, TokenKind.marks, List.find?,
      List.isPrefixOf, hne]
    rfl

theorem longest?_word {c : Char} {cs rest : List Char} (hc : isNameStart c = true)
    (hcs : ∀ d ∈ cs, isNamePart d = true) (hstops : Stops rest) :
    longest? c (cs ++ rest) =
      some (.token (TokenKind.ofWord (String.ofList (c :: cs))), 1 + cs.length) := by
  have hnewline : c ≠ '\n' := by rintro rfl; cases hc
  have hblank : ¬(c = ' ' ∨ c = '\t' ∨ c = '\r') := by rintro (rfl | rfl | rfl) <;> cases hc
  have hlength := runLength_append hcs hstops
  have htake : (c :: (cs ++ rest)).take (1 + cs.length) = c :: cs := by
    rw [Nat.add_comm, List.take_succ_cons, List.take_left]
  simp only [longest?, if_neg hnewline, if_neg hblank, hc, if_true, hlength, htake]

/-- Digits up to a closing bracket are a number. -/
theorem number_digits {cs rest : List Char} (hcs : ∀ d ∈ cs, d.isDigit = true) :
    number (cs ++ ']' :: rest) = (.int, cs.length) := by
  have hlength : runLength isDigitOrBar (cs ++ ']' :: rest) = cs.length :=
    runLength_append (fun d hd ↦ by simp [isDigitOrBar, hcs d hd]) fun c hc ↦ by cases hc; rfl
  have hbehind : (cs ++ ']' :: rest).drop cs.length = ']' :: rest := List.drop_left
  unfold number
  simp only [hlength, hbehind]
  split
  · next x tail hhead =>
    -- the second character is a digit or the bracket
    have hx : ¬((x = 'x' ∨ x = 'X') ∧ runLength isHexDigitOrBar tail ≠ 0) := by
      rintro ⟨hx, -⟩
      match cs, hhead with
      | [], hhead => cases hhead
      | [_], hhead =>
        cases hhead
        rcases hx with hx | hx <;> cases hx
      | _ :: d :: _, hhead =>
        cases hhead
        have hd := hcs x (List.mem_cons_of_mem _ List.mem_cons_self)
        rcases hx with rfl | rfl <;> cases hd
    rw [if_neg hx]
    rfl
  · rfl

/-- Digits come before letters and before the bar. -/
theorem isNameStart_of_isDigit {c : Char} (h : c.isDigit = true) : isNameStart c = false := by
  have hle : c.toNat ≤ 57 :=
    UInt32.le_iff_toNat_le.1 (of_decide_eq_true (Bool.and_eq_true_iff.1 h).2)
  have hupper : ¬c.isUpper = true := fun hupper ↦ by
    have hge : 65 ≤ c.toNat :=
      UInt32.le_iff_toNat_le.1 (of_decide_eq_true hupper).1
    omega
  have hlower : ¬c.isLower = true := fun hlower ↦ by
    have hge : 97 ≤ c.toNat :=
      UInt32.le_iff_toNat_le.1 (of_decide_eq_true (Bool.and_eq_true_iff.1 hlower).1)
    omega
  have halpha : c.isAlpha = false :=
    Bool.or_eq_false_iff.2 ⟨Bool.eq_false_iff.2 hupper, Bool.eq_false_iff.2 hlower⟩
  have hbar : c ≠ '_' := by rintro rfl; cases h
  have hlt : c.toNat < 128 := hle.trans_lt (by decide)
  simp [isNameStart, Text.isLetter, hlt, halpha, hbar]

theorem longest?_digits {c : Char} {cs rest : List Char} (hc : c.isDigit = true)
    (hcs : ∀ d ∈ cs, d.isDigit = true) :
    longest? c (cs ++ ']' :: rest) = some (.token .int, 1 + cs.length) := by
  have hnewline : c ≠ '\n' := by rintro rfl; cases hc
  have hblank : ¬(c = ' ' ∨ c = '\t' ∨ c = '\r') := by rintro (rfl | rfl | rfl) <;> cases hc
  have hnumber : number (c :: (cs ++ ']' :: rest)) = (.int, 1 + cs.length) := by
    rw [Nat.add_comm]
    exact number_digits (List.forall_mem_cons.2 ⟨hc, hcs⟩)
  simp only [longest?, if_neg hnewline, if_neg hblank, isNameStart_of_isDigit hc, hc, if_true,
    hnumber]
  simp

namespace Lexes

variable {rest : List Char} {words : List Word}

theorem mark {kind : TokenKind} (c : Char) (h : Lexes rest words)
    (hlongest : longest? c rest = some (.token kind, 1)) :
    Lexes (c :: rest) ((kind, String.ofList [c]) :: words) :=
  @Lexes.cons kind c [] rest words hlongest h

theorem word (word : String) (kind : TokenKind) (h : Lexes rest words) (hstops : Stops rest)
    (hword : isWord word = true) (hkind : TokenKind.ofWord word = kind) :
    Lexes (word.toList ++ rest) ((kind, word) :: words) := by
  unfold isWord at hword
  cases hlist : word.toList with
  | nil =>
    rw [hlist] at hword
    cases hword
  | cons c cs =>
    simp only [hlist, Bool.and_eq_true, List.all_eq_true] at hword
    obtain rfl : word = String.ofList (c :: cs) := by rw [← hlist, String.ofList_toList]
    rw [← hkind]
    exact .cons (longest?_word hword.1 hword.2 hstops) h

theorem name {name : String} (h : Lexes rest words) (hstops : Stops rest)
    (hname : isIdentifier name = true) : Lexes (name.toList ++ rest) ((.ident, name) :: words) := by
  simp only [isIdentifier, Bool.and_eq_true, beq_iff_eq] at hname
  exact h.word name .ident hstops hname.1 hname.2

/-- A number between brackets. -/
theorem number (n : Nat) (h : Lexes (']' :: rest) words) :
    Lexes ((toString n).toList ++ ']' :: rest) ((.int, toString n) :: words) := by
  have hdigits : ∀ c ∈ (toString n).toList, c.isDigit = true := by
    rw [Nat.toString_eq_repr, Nat.toList_repr]
    exact fun c hc ↦ Nat.isDigit_of_mem_toDigits (by decide) (by decide) hc
  cases hlist : (toString n).toList with
  | nil =>
    rw [Nat.toString_eq_repr, Nat.toList_repr] at hlist
    exact absurd hlist Nat.toDigits_ne_nil
  | cons c cs =>
    rw [hlist, List.forall_mem_cons] at hdigits
    obtain heq : toString n = String.ofList (c :: cs) := by rw [← hlist, String.ofList_toList]
    rw [heq]
    exact .cons (longest?_digits hdigits.1 hdigits.2) h

end Lexes

/-! ### Tokens -/

/-- Lexemes that are words, with blanks between them. -/
inductive Spell : List Lexeme → List Word → Prop
  | nil : Spell [] []
  | blank {lexeme : Lexeme} {rest : List Lexeme} {words : List Word} (hkind : lexeme.kind = .blank)
    (h : Spell rest words) : Spell (lexeme :: rest) words
  | cons {kind : TokenKind} {lexeme : Lexeme} {rest : List Lexeme} {words : List Word}
    (hkind : lexeme.kind = .token kind) (h : Spell rest words) :
    Spell (lexeme :: rest) ((kind, lexeme.text) :: words)

def Token.word (token : Token) : Word := (token.kind, token.text)

/-- Only the end of the input may add a token to the words. -/
def IsEnd (words : List Word) : Prop := words = [] ∨ words = [(.semicolon, "")]

theorem Lexes.cut {cs : List Char} {words : List Word} (h : Lexes cs words) :
    ∀ offset, ∃ lexemes, Lexeme.cut offset cs = .ok lexemes ∧ Spell lexemes words := by
  induction h with
  | nil => exact fun offset ↦ ⟨[], by rw [Lexeme.cut], .nil⟩
  | @blank rest words h ih =>
    intro offset
    obtain ⟨lexemes, hcut, hspell⟩ := ih (offset + byteLength [' '])
    refine ⟨⟨.blank, [' '], offset⟩ :: lexemes, ?_, .blank rfl hspell⟩
    have hblank : longest? ' ' rest = some (.blank, 1) := rfl
    rw [Lexeme.cut]
    simp only [hblank, Nat.sub_self, List.take_zero, List.drop_zero, hcut]
  | @cons kind c cs rest words hlongest h ih =>
    intro offset
    obtain ⟨lexemes, hcut, hspell⟩ := ih (offset + byteLength (c :: cs))
    refine ⟨⟨.token kind, c :: cs, offset⟩ :: lexemes, ?_, .cons rfl hspell⟩
    rw [Lexeme.cut]
    simp only [hlongest, Nat.add_sub_cancel_left, List.take_left, List.drop_left, hcut]

theorem Spell.ofLexemes {lexemes : List Lexeme} {words : List Word} (h : Spell lexemes words)
    (size : Nat) : ∀ pending, ∃ final, IsEnd final ∧
      (TokenStream.ofLexemes size pending lexemes).tokens.map Token.word = words ++ final := by
  induction h with
  | nil =>
    intro pending
    cases pending with
    | false => exact ⟨[], .inl rfl, rfl⟩
    | true => exact ⟨[(.semicolon, "")], .inr rfl, rfl⟩
  | blank hkind h ih =>
    intro pending
    obtain ⟨final, hfinal, htokens⟩ := ih pending
    refine ⟨final, hfinal, ?_⟩
    rw [TokenStream.ofLexemes, hkind]
    exact htokens
  | @cons kind lexeme rest words hkind h ih =>
    intro pending
    obtain ⟨final, hfinal, htokens⟩ := ih kind.endsStatement
    refine ⟨final, hfinal, ?_⟩
    rw [TokenStream.ofLexemes, hkind]
    exact congrArg ((kind, lexeme.text) :: ·) htokens

/-- A text that is cut into words has them as its tokens. -/
theorem Lexes.ofText {text : String} {words : List Word} (h : Lexes text.toList words) :
    ∃ stream final, TokenStream.ofText text = .ok stream ∧ IsEnd final ∧
      stream.tokens.map Token.word = words ++ final := by
  obtain ⟨lexemes, hcut, hspell⟩ := h.cut 0
  obtain ⟨final, hfinal, htokens⟩ := hspell.ofLexemes text.utf8ByteSize false
  refine ⟨_, final, ?_, hfinal, htokens⟩
  rw [TokenStream.ofText, hcut]
  rfl

/-! ### Texts of types -/

namespace Ty

open Lexes

theorem isIdentifier_basic (kind : BasicKind) (h : kind.isUntyped = false) :
    isIdentifier kind.name = true := by
  cases kind <;> cases h <;> decide

/-- No type starts with a sign that turns a star into another mark. -/
theorem head?_text {type : Ty} (h : type.isDenotable = true) (rest : List Char) :
    (type.text.toList ++ rest).head? ≠ some '=' := by
  cases type with
  | basic kind => cases kind <;> simp [text, BasicKind.name]
  | named name =>
    simp only [isDenotable, beq_iff_eq] at h
    subst h
    simp [text, Universe.errorName]
  | invalid => cases h
  | tuple types => cases h
  | _ => simp [text]

/-- A signature starts with a parenthesis. -/
theorem stops_signatureText (signature : Signature) (rest : List Char) :
    Stops ((signatureText signature).toList ++ rest) := by
  obtain ⟨params, results⟩ := signature
  match results with
  | [] | [result] | first :: second :: results =>
    simp only [signatureText, String.toList_append, List.append_assoc]
    exact stops_cons rfl

theorem fieldTexts_ne_nil (field : Member) (fields : List Member) :
    fieldTexts (field :: fields) ≠ [] := by
  obtain ⟨symbol, name, isEmbedded, type⟩ := field
  simp [fieldTexts]

theorem methodTexts_ne_nil (method : Member) (methods : List Member) :
    methodTexts (method :: methods) ≠ [] := by
  obtain ⟨symbol, name, isEmbedded, type⟩ := method
  cases type <;> simp [methodTexts]

mutual

theorem lexes_text {type : Ty} (htype : type.isDenotable = true) {rest : List Char}
    {words : List Word} (hstops : Stops rest) (h : Lexes rest words) :
    Lexes (type.text.toList ++ rest) (type.words ++ words) := by
  cases type with
  | basic kind =>
    simp only [isDenotable, Bool.not_eq_true'] at htype
    exact h.name hstops (isIdentifier_basic kind htype)
  | named name =>
    simp only [isDenotable, beq_iff_eq] at htype
    subst htype
    exact h.name hstops (by decide)
  | pointer element =>
    rw [isDenotable] at htype
    have helement := lexes_text htype hstops h
    simpa [text, Ty.words] using helement.mark '*' (longest?_star (head?_text htype rest))
  | slice element =>
    rw [isDenotable] at htype
    have helement := lexes_text htype hstops h
    simpa [text, Ty.words] using (helement.mark ']' rfl).mark '[' rfl
  | array length element =>
    simp only [isDenotable, Bool.and_eq_true] at htype
    have helement := lexes_text htype.2 hstops h
    simpa [text, Ty.words] using ((helement.mark ']' rfl).number length).mark '[' rfl
  | map key value =>
    simp only [isDenotable, Bool.and_eq_true] at htype
    have hvalue := (lexes_text htype.2 hstops h).mark ']' rfl
    have hkey := (lexes_text htype.1 (stops_cons rfl) hvalue).mark '[' rfl
    simpa [text, Ty.words] using hkey.word "map" .kwMap (stops_cons rfl) (by decide) (by decide)
  | struct fields =>
    simp only [isDenotable, Bool.and_eq_true] at htype
    have hfields := (lexes_fields htype.2 (h.mark '\x7d' rfl)).mark '\x7b' rfl
    simpa [text, Ty.words] using
      hfields.word "struct" .kwStruct (stops_cons rfl) (by decide) (by decide)
  | interface methods =>
    have hmethods := (lexes_methods htype (h.mark '\x7d' rfl)).mark '\x7b' rfl
    simpa [text, Ty.words] using
      hmethods.word "interface" .kwInterface (stops_cons rfl) (by decide) (by decide)
  | func signature =>
    rw [isDenotable] at htype
    have hsignature := lexes_signature htype hstops h
    simpa [text, Ty.words] using
      hsignature.word "func" .kwFunc (stops_signatureText signature rest) (by decide) (by decide)
  | invalid => cases htype
  | tuple types => cases htype

theorem lexes_signature {signature : Signature} (hsignature : signatureDenotable signature = true)
    {rest : List Char} {words : List Word} (hstops : Stops rest) (h : Lexes rest words) :
    Lexes ((signatureText signature).toList ++ rest) (signatureWords signature ++ words) := by
  obtain ⟨params, results⟩ := signature
  simp only [signatureDenotable, Bool.and_eq_true] at hsignature
  match results with
  | [] =>
    have hparams := (lexes_texts hsignature.1 (h.mark ')' rfl)).mark '(' rfl
    simpa [signatureText, signatureWords] using hparams
  | [result] =>
    simp only [allDenotable, Bool.and_true] at hsignature
    have hresult := (lexes_text hsignature.2 hstops h).blank.mark ')' rfl
    have hparams := (lexes_texts hsignature.1 hresult).mark '(' rfl
    simpa [signatureText, signatureWords] using hparams
  | first :: second :: results =>
    have hresults := ((lexes_texts hsignature.2 (h.mark ')' rfl)).mark '(' rfl).blank.mark ')' rfl
    have hparams := (lexes_texts hsignature.1 hresults).mark '(' rfl
    simpa [signatureText, signatureWords] using hparams

theorem lexes_texts {types : List Ty} (htypes : allDenotable types = true) {rest : List Char}
    {words : List Word} (h : Lexes (')' :: rest) words) :
    Lexes ((", ".intercalate (texts types)).toList ++ ')' :: rest) (listWords types ++ words) := by
  match types with
  | [] => simpa [texts, listWords] using h
  | [type] =>
    simp only [allDenotable, Bool.and_true] at htypes
    simpa [texts, listWords] using lexes_text htypes (stops_cons rfl) h
  | type :: next :: others =>
    rw [allDenotable, Bool.and_eq_true] at htypes
    have hothers := (lexes_texts htypes.2 h).blank.mark ',' rfl
    have htype := lexes_text htypes.1 (stops_cons rfl) hothers
    simpa [texts, listWords, String.intercalate_cons_cons] using htype

theorem lexes_fields {fields : List Member} (hfields : fieldsDenotable fields = true)
    {rest : List Char} {words : List Word} (h : Lexes ('\x7d' :: rest) words) :
    Lexes (("; ".intercalate (fieldTexts fields)).toList ++ '\x7d' :: rest)
      (fieldWords fields ++ words) := by
  match fields with
  | [] => simpa [fieldTexts, fieldWords] using h
  | [⟨symbol, name, isEmbedded, type⟩] =>
    simp only [fieldsDenotable, Bool.and_true, Bool.and_eq_true, Bool.not_eq_true'] at hfields
    obtain ⟨⟨hname, rfl⟩, htype⟩ := hfields
    have hfield := (lexes_text htype (stops_cons rfl) h).blank.name (stops_cons rfl) hname
    simpa [fieldTexts, fieldWords] using hfield
  | ⟨symbol, name, isEmbedded, type⟩ :: next :: others =>
    rw [fieldsDenotable] at hfields
    simp only [Bool.and_eq_true, Bool.not_eq_true'] at hfields
    obtain ⟨⟨⟨hname, rfl⟩, htype⟩, hothers⟩ := hfields
    have hothers := (lexes_fields hothers h).blank.mark ';' rfl
    have hfield := (lexes_text htype (stops_cons rfl) hothers).blank.name (stops_cons rfl) hname
    rw [fieldTexts, String.intercalate_cons_of_ne_nil (fieldTexts_ne_nil next others)]
    simpa [fieldWords] using hfield

theorem lexes_methods {methods : List Member} (hmethods : methodsDenotable methods = true)
    {rest : List Char} {words : List Word} (h : Lexes ('\x7d' :: rest) words) :
    Lexes (("; ".intercalate (methodTexts methods)).toList ++ '\x7d' :: rest)
      (methodWords methods ++ words) := by
  match methods with
  | [] => simpa [methodTexts, methodWords] using h
  | [⟨symbol, name, isEmbedded, .func signature⟩] =>
    simp only [methodsDenotable, Bool.and_true, Bool.and_eq_true] at hmethods
    have hsignature := lexes_signature hmethods.2 (stops_cons rfl) h
    simpa [methodTexts, methodWords] using
      hsignature.name (stops_signatureText signature _) hmethods.1
  | ⟨symbol, name, isEmbedded, .func signature⟩ :: next :: others =>
    rw [methodsDenotable] at hmethods
    simp only [Bool.and_eq_true] at hmethods
    have hothers := (lexes_methods hmethods.2 h).blank.mark ';' rfl
    have hsignature := lexes_signature hmethods.1.2 (stops_cons rfl) hothers
    rw [methodTexts, String.intercalate_cons_of_ne_nil (methodTexts_ne_nil next others)]
    simpa [methodWords] using hsignature.name (stops_signatureText signature _) hmethods.1.1

end

end Ty

end PackageAtlas
