import PackageAtlas.Proofs.Lexing.Boundaries
import PackageAtlas.Proofs.Printing.Reading
import PackageAtlas.Tree.ExprText

/-!
Formulas of operators and operands. An operand of an operator stands without parentheses only if it
holds together tightly enough (`Expr.Fits`). A formula of which this is true throughout is read back
from its words: what an operand goes on with is told by the word behind it, and an operator is left
to whoever wanted an expression that is no tighter (`Expr.IsFormula.parseExpr_spaced`).
-/

set_option autoImplicit false
set_option relaxedAutoImplicit false

namespace PackageAtlas

/-! ### Formulas -/

/-- How tightly an expression holds together: a binary one as its operator does, one with a unary
operator or a star more than these, and any other one more than that. -/
def Expr.tightness : Expr → Nat
  | .binary _ op _ _ => op.precedence
  | .unary .. | .star .. => 6
  | _ => 7

/-- The operands of an expression hold together at least as tightly as their places ask for: as the
operator on its left, more than the operator on its right, more than all binary operators behind a
unary operator or a star, and more than those in front of a selector, an index or arguments. -/
def Expr.Fits : Expr → Prop
  | .binary _ op left right => op.precedence ≤ left.tightness ∧ op.precedence < right.tightness
  | .unary _ _ operand | .star _ operand => 6 ≤ operand.tightness
  | .selector _ operand _ | .index _ operand _ => 7 ≤ operand.tightness
  | .call _ callee _ => 7 ≤ callee.tightness
  | _ => True

instance : DecidablePred Expr.Fits
  | .binary _ op left right =>
    inferInstanceAs (Decidable (op.precedence ≤ left.tightness ∧ op.precedence < right.tightness))
  | .unary _ _ operand | .star _ operand => inferInstanceAs (Decidable (6 ≤ operand.tightness))
  | .selector _ operand _ | .index _ operand _ | .call _ operand _ =>
    inferInstanceAs (Decidable (7 ≤ operand.tightness))
  | .ident _ | .literal _ | .paren .. | .typeAssert .. | .composite .. | .keyValue .. | .funcLit .. |
    .arrayType .. | .mapType .. | .structType .. | .interfaceType .. | .funcType _ => isTrue trivial

/-- Decimal digits, with bars between and behind them. -/
def isDecimal (text : String) : Bool :=
  match text.toList with
  | [] => false
  | c :: rest => c.isDigit && rest.all Lexeme.isDigitOrBar

/-- Names, decimal numbers, and what operators, parentheses, selectors, indexes and calls make of
them, where every operand fits. -/
inductive Expr.IsFormula : Expr → Prop
  | ident {ident : Ident} (hname : isIdentifier ident.name = true) : IsFormula (.ident ident)
  | int {literal : Literal} (hkind : literal.kind = .int)
    (htext : isDecimal literal.text = true) : IsFormula (.literal literal)
  | paren {info : NodeInfo} {inner : Expr} (hinner : IsFormula inner) :
    IsFormula (.paren info inner)
  | unary {info : NodeInfo} {op : UnaryOp} {operand : Expr} (hoperand : IsFormula operand)
    (hfits : (Expr.unary info op operand).Fits) : IsFormula (.unary info op operand)
  | star {info : NodeInfo} {operand : Expr} (hoperand : IsFormula operand)
    (hfits : (Expr.star info operand).Fits) : IsFormula (.star info operand)
  | binary {info : NodeInfo} {op : BinaryOp} {left right : Expr} (hleft : IsFormula left)
    (hright : IsFormula right) (hfits : (Expr.binary info op left right).Fits) :
    IsFormula (.binary info op left right)
  | selector {info : NodeInfo} {operand : Expr} {selected : Ident} (hoperand : IsFormula operand)
    (hname : isIdentifier selected.name = true)
    (hfits : (Expr.selector info operand selected).Fits) :
    IsFormula (.selector info operand selected)
  | index {info : NodeInfo} {operand key : Expr} (hoperand : IsFormula operand)
    (hkey : IsFormula key) (hfits : (Expr.index info operand key).Fits) :
    IsFormula (.index info operand key)
  | call {info : NodeInfo} {callee : Expr} {args : List Expr} (hcallee : IsFormula callee)
    (hargs : ∀ arg ∈ args, IsFormula arg) (hfits : (Expr.call info callee args).Fits) :
    IsFormula (.call info callee args)

/-! ### Words -/

def UnaryOp.kind : UnaryOp → TokenKind
  | neg => .minus
  | plus => .plus
  | not => .bang
  | bitNot => .caret
  | addr => .amp

def UnaryOp.word (op : UnaryOp) : Word := (op.kind, op.text)

def BinaryOp.kind : BinaryOp → TokenKind
  | logOr => .pipePipe
  | logAnd => .ampAmp
  | eq => .eqEq
  | ne => .bangEq
  | lt => .lt
  | le => .ltEq
  | gt => .gt
  | ge => .gtEq
  | add => .plus
  | sub => .minus
  | or => .pipe
  | xor => .caret
  | mul => .star
  | div => .slash
  | rem => .percent
  | shl => .shl
  | shr => .shr
  | and => .amp
  | andNot => .andNot

def BinaryOp.word (op : BinaryOp) : Word := (op.kind, op.text)

namespace Expr

mutual

/-- The words of a formula. -/
@[simp] def words : Expr → List Word
  | .ident i => [(.ident, i.name)]
  | .literal l => [(.int, l.text)]
  | .paren _ inner => (.lparen, "(") :: (words inner ++ [(.rparen, ")")])
  | .unary _ op operand => op.word :: words operand
  | .star _ operand => (.star, "*") :: words operand
  | .binary _ op left right => words left ++ op.word :: words right
  | .selector _ operand selected => words operand ++ [(.dot, "."), (.ident, selected.name)]
  | .index _ operand key =>
    words operand ++ (.lbracket, "[") :: (words key ++ [(.rbracket, "]")])
  | .call _ callee args =>
    words callee ++ (.lparen, "(") :: (listWords args ++ [(.rparen, ")")])
  | _ => []

/-- Formulas with commas between them. -/
@[simp] def listWords : List Expr → List Word
  | [] => []
  | [e] => words e
  | e :: next :: rest => words e ++ (.comma, ",") :: listWords (next :: rest)

end

/-- The words of a formula with single spaces between them. -/
def spaced (e : Expr) : String := " ".intercalate (e.words.map (·.2))

mutual

/-- A formula without the identities and the places of its nodes. -/
@[simp] def shape : Expr → Expr
  | .ident i => .ident ⟨default, i.name⟩
  | .literal l => .literal { l with info := default }
  | .paren _ inner => .paren default (shape inner)
  | .unary _ op operand => .unary default op (shape operand)
  | .star _ operand => .star default (shape operand)
  | .binary _ op left right => .binary default op (shape left) (shape right)
  | .selector _ operand selected => .selector default (shape operand) ⟨default, selected.name⟩
  | .index _ operand key => .index default (shape operand) (shape key)
  | .call _ callee args => .call default (shape callee) (shapes args)
  | other => other

@[simp] def shapes : List Expr → List Expr
  | [] => []
  | e :: rest => shape e :: shapes rest

end

end Expr

/-! ### Cutting into words -/

open Lexeme

/-- Whether a word is one token when nothing follows it. -/
def Word.isAlone (word : Word) : Bool :=
  match word.2.toList with
  | [] => false
  | c :: cs => longest? c cs == some (.token word.1, 1 + cs.length)

theorem isAlone_iff {kind : TokenKind} {text : String} : Word.isAlone (kind, text) = true ↔
    ∃ c cs, text.toList = c :: cs ∧ longest? c cs = some (.token kind, 1 + cs.length) := by
  unfold Word.isAlone
  dsimp only
  cases text.toList with
  | nil => simp
  | cons c cs => simp

/-- Words with spaces between them are cut where the spaces are. -/
theorem Lexes.spaced {words : List Word} (h : ∀ word ∈ words, word.isAlone = true) :
    Lexes (" ".intercalate (words.map (·.2))).toList words := by
  induction words with
  | nil => exact .nil
  | cons word rest ih =>
    obtain ⟨kind, text⟩ := word
    obtain ⟨hword, hrest⟩ := List.forall_mem_cons.1 h
    obtain ⟨c, cs, htext, hlongest⟩ := isAlone_iff.1 hword
    obtain rfl : text = String.ofList (c :: cs) := by rw [← htext, String.ofList_toList]
    have hend : longest? c (cs ++ []) = some (.token kind, 1 + cs.length) := by
      rw [List.append_nil]
      exact hlongest
    cases rest with
    | nil => simpa using Lexes.cons hend .nil
    | cons next others =>
      have hagree : Agree [] (' ' :: (" ".intercalate ((next :: others).map (·.2))).toList) :=
        .ends (.inl fun _ hc ↦ by cases hc) fun _ hc ↦ by cases hc; exact .inl rfl
      have hcons := Lexes.cons (hagree.longest? hend) (ih hrest).blank
      simpa [String.intercalate_cons_cons] using hcons

theorem isAlone_name {name : String} (h : isIdentifier name = true) :
    Word.isAlone (.ident, name) = true := by
  simp only [isIdentifier, isWord, Bool.and_eq_true, beq_iff_eq] at h
  obtain ⟨hword, hkind⟩ := h
  split at hword
  · cases hword
  · next c cs htext =>
    simp only [Bool.and_eq_true, List.all_eq_true] at hword
    have hstops : Stops [] := fun _ hc ↦ by cases hc
    have hlongest := longest?_word hword.1 hword.2 hstops
    rw [List.append_nil, ← htext, String.ofList_toList, hkind] at hlongest
    exact isAlone_iff.2 ⟨c, cs, htext, hlongest⟩

/-- Digits and bars to the end are a number. -/
theorem number_of_isDigitOrBar {cs : List Char} (h : ∀ c ∈ cs, isDigitOrBar c = true) :
    number cs = (.int, cs.length) := by
  have hhex : hexadecimal? cs = none := by
    unfold hexadecimal?
    split
    · next x rest =>
      have hx := h x (List.mem_cons_of_mem _ List.mem_cons_self)
      refine if_neg fun hmark ↦ ?_
      rcases hmark.1 with rfl | rfl <;> cases hx
    · rfl
  have hrun : runLength isDigitOrBar cs = cs.length := by
    rw [runLength, List.takeWhile_eq_self_iff.2 h]
  rw [number_eq, hhex, decimal, hrun, List.drop_length]
  rfl

theorem isAlone_decimal {text : String} (h : isDecimal text = true) :
    Word.isAlone (.int, text) = true := by
  unfold isDecimal at h
  split at h
  · cases h
  · next c cs htext =>
    simp only [Bool.and_eq_true, List.all_eq_true] at h
    obtain ⟨hc, hcs⟩ := h
    have hnumber : number (c :: cs) = (.int, 1 + cs.length) := by
      rw [number_of_isDigitOrBar (List.forall_mem_cons.2 ⟨by rw [isDigitOrBar, hc]; rfl, hcs⟩),
        List.length_cons, Nat.add_comm]
    have hnewline : c ≠ '\n' := by rintro rfl; cases hc
    have hblank : ¬(c = ' ' ∨ c = '\t' ∨ c = '\r') := by rintro (rfl | rfl | rfl) <;> cases hc
    refine isAlone_iff.2 ⟨c, cs, htext, ?_⟩
    simp [longest?, hnewline, hblank, isNameStart_of_isDigit hc, hc, hnumber]

theorem isAlone_unary (op : UnaryOp) : op.word.isAlone = true := by cases op <;> decide

theorem isAlone_binary (op : BinaryOp) : op.word.isAlone = true := by cases op <;> decide

namespace Expr

/-- The words of a list are commas and those of its formulas. -/
theorem mem_listWords {word : Word} {args : List Expr} (h : word ∈ listWords args) :
    word = (.comma, ",") ∨ ∃ arg ∈ args, word ∈ arg.words := by
  match args with
  | [] => cases h
  | [arg] => exact .inr ⟨arg, List.mem_singleton_self _, h⟩
  | arg :: next :: rest =>
    rw [listWords, List.mem_append, List.mem_cons] at h
    rcases h with hword | rfl | hrest
    · exact .inr ⟨arg, List.mem_cons_self, hword⟩
    · exact .inl rfl
    · refine (mem_listWords hrest).imp_right fun ⟨other, hother, hword⟩ ↦ ?_
      exact ⟨other, List.mem_cons_of_mem _ hother, hword⟩

theorem IsFormula.isAlone {e : Expr} (h : e.IsFormula) :
    ∀ word ∈ e.words, word.isAlone = true := by
  induction h with
  | ident hname => exact List.forall_mem_singleton.2 (isAlone_name hname)
  | int _ htext => exact List.forall_mem_singleton.2 (isAlone_decimal htext)
  | paren _ ih =>
    rw [words, List.forall_mem_cons, List.forall_mem_append]
    exact ⟨by decide, ih, by decide⟩
  | unary _ _ ih => exact List.forall_mem_cons.2 ⟨isAlone_unary _, ih⟩
  | star _ _ ih => exact List.forall_mem_cons.2 ⟨by decide, ih⟩
  | binary _ _ _ ihleft ihright =>
    exact List.forall_mem_append.2 ⟨ihleft, List.forall_mem_cons.2 ⟨isAlone_binary _, ihright⟩⟩
  | selector _ hname _ ih =>
    refine List.forall_mem_append.2 ⟨ih, List.forall_mem_cons.2 ⟨by decide, ?_⟩⟩
    exact List.forall_mem_singleton.2 (isAlone_name hname)
  | index _ _ _ ihoperand ihkey =>
    rw [words, List.forall_mem_append, List.forall_mem_cons, List.forall_mem_append]
    exact ⟨ihoperand, by decide, ihkey, by decide⟩
  | call _ _ _ ihcallee ihargs =>
    rw [words, List.forall_mem_append, List.forall_mem_cons, List.forall_mem_append]
    refine ⟨ihcallee, by decide, fun word hword ↦ ?_, by decide⟩
    rcases mem_listWords hword with rfl | ⟨arg, harg, hin⟩
    · decide
    · exact ihargs arg harg word hin

end Expr

/-! ### What follows -/

open PackageAtlas.Parser Rule

theorem binaryOp?_kind (op : BinaryOp) : binaryOp? op.kind = some op := by cases op <;> rfl

theorem unaryOp?_kind (op : UnaryOp) : unaryOp? op.kind = some op := by cases op <;> rfl

theorem BinaryOp.precedence_pos (op : BinaryOp) : 1 ≤ op.precedence := by cases op <;> decide

theorem BinaryOp.precedence_lt (op : BinaryOp) : op.precedence < 6 := by cases op <;> decide

theorem Expr.tightness_pos (e : Expr) : 1 ≤ e.tightness := by
  cases e with
  | binary _ op _ _ => exact op.precedence_pos
  | _ => simp [tightness]

/-- No word follows that an operand goes on with. -/
def EndsOperand (rest : List Word) : Prop :=
  ∀ word ∈ rest.head?, word.1 ∉ [TokenKind.dot, .lbracket, .lparen, .lbrace]

/-- No operator follows that binds more tightly than a limit. -/
def EndsOperators (limit : Nat) (rest : List Word) : Prop :=
  ∀ word ∈ rest.head?, ∀ op ∈ binaryOp? word.1, op.precedence ≤ limit

theorem EndsOperators.mono {limit limit' : Nat} {rest : List Word} (h : EndsOperators limit rest)
    (hle : limit ≤ limit') : EndsOperators limit' rest :=
  fun word hword op hop ↦ (h word hword op hop).trans hle

theorem EndsOperand.ne {rest : List Word} (h : EndsOperand rest) {kind : TokenKind}
    (hkind : kind ∈ [TokenKind.dot, .lbracket, .lparen, .lbrace]) :
    rest.head?.map (·.1) ≠ some kind := by
  intro heq
  obtain ⟨word, hword, rfl⟩ := Option.map_eq_some_iff.1 heq
  exact h word hword hkind

theorem Closes.endsOperand {rest : List Word} (h : Closes rest) : EndsOperand rest := by
  intro word hword
  have hclosers : ∀ kind ∈ [TokenKind.semicolon, .comma, .rparen, .rbracket, .rbrace],
      kind ∉ [TokenKind.dot, .lbracket, .lparen, .lbrace] := by decide
  exact hclosers _ (h word hword)

theorem Closes.endsOperators {rest : List Word} (h : Closes rest) (limit : Nat) :
    EndsOperators limit rest := by
  intro word hword op hop
  have hnone := h.bind_binaryOp?
  rw [hword] at hnone
  cases hnone.symm.trans hop

theorem endsOperand_word (op : BinaryOp) (rest : List Word) : EndsOperand (op.word :: rest) := by
  intro word hword
  cases hword
  cases op <;> decide

theorem endsOperators_word {op : BinaryOp} {limit : Nat} (h : op.precedence ≤ limit)
    (rest : List Word) : EndsOperators limit (op.word :: rest) := by
  intro word hword op' hop
  cases hword
  cases (binaryOp?_kind op).symm.trans hop
  exact h

/-! ### Rules on words -/

section Rules

variable {words rest rest' : List Word} {result result' : Expr → Prop} {depth : Nat}

theorem accepts_postfixRest_end (h : EndsOperand rest) (start : Nat) (operand : Expr) :
    Accepts ((Goal.parser (depth + 1)).postfixRest start operand) rest rest (· = operand) := by
  change Accepts (Rule.postfixRest (Goal.parser depth) start operand) _ _ _
  refine accepts_peek?.known ?_
  split
  · next heq => exact absurd heq (h.ne (by decide))
  · next heq => exact absurd heq (h.ne (by decide))
  · next heq => exact absurd heq (h.ne (by decide))
  · next heq => exact absurd heq (h.ne (by decide))
  · exact .pure rfl

theorem accepts_postfixRest_dot {start : Nat} {operand : Expr} {name : String}
    (hnext : ∀ info selected, selected.name = name →
      Accepts ((Goal.parser depth).postfixRest start (.selector info operand selected)) rest rest'
        result) :
    Accepts ((Goal.parser (depth + 1)).postfixRest start operand)
      ((.dot, ".") :: (.ident, name) :: rest) rest' result := by
  change Accepts (Rule.postfixRest (Goal.parser depth) start operand) _ _ _
  refine accepts_peek?.known (accepts_bump.bind fun _ _ ↦ ?_)
  have hselector : Accepts (afterDot (Goal.parser depth) start operand) ((.ident, name) :: rest) rest
      fun e ↦ ∃ info selected, e = .selector info operand selected ∧ selected.name = name :=
    (accepts_eat_of_ne (by simp)).known <| accepts_ident.bind fun selected hselected ↦
      (accepts_nodeFrom start).bind fun info _ ↦ .pure ⟨info, selected, rfl, hselected⟩
  refine hselector.bind ?_
  rintro _ ⟨info, selected, rfl, hselected⟩
  exact hnext info selected hselected

theorem accepts_postfixRest_lbracket {start : Nat} {operand : Expr}
    (hkey : Accepts (Goal.parser depth).expr words ((.rbracket, "]") :: rest) result')
    (hnext : ∀ info key, result' key →
      Accepts ((Goal.parser depth).postfixRest start (.index info operand key)) rest rest' result) :
    Accepts ((Goal.parser (depth + 1)).postfixRest start operand) ((.lbracket, "[") :: words) rest'
      result := by
  change Accepts (Rule.postfixRest (Goal.parser depth) start operand) _ _ _
  refine accepts_peek?.known (accepts_bump.bind fun _ _ ↦ ?_)
  refine (accepts_nested hkey).bind fun key hkey ↦ accepts_expect.bind fun _ _ ↦ ?_
  exact (accepts_nodeFrom start).bind fun info _ ↦ hnext info key hkey

theorem accepts_postfixRest_lparen {start : Nat} {callee : Expr} {results : List Expr → Prop}
    (hargs : Accepts (Goal.parser depth).args words ((.rparen, ")") :: rest) results)
    (hnext : ∀ info args, results args →
      Accepts ((Goal.parser depth).postfixRest start (.call info callee args)) rest rest' result) :
    Accepts ((Goal.parser (depth + 1)).postfixRest start callee) ((.lparen, "(") :: words) rest'
      result := by
  change Accepts (Rule.postfixRest (Goal.parser depth) start callee) _ _ _
  refine accepts_peek?.known (accepts_bump.bind fun _ _ ↦ ?_)
  refine (accepts_nested hargs).bind fun args hargs ↦ accepts_expect.bind fun _ _ ↦ ?_
  exact (accepts_nodeFrom start).bind fun info _ ↦ hnext info args hargs

theorem accepts_primary_operand (hoperand : Accepts (operand (Goal.parser depth)) words rest result)
    (hnext : ∀ start base, result base →
      Accepts ((Goal.parser depth).postfixRest start base) rest rest' result') :
    Accepts (Goal.parser (depth + 1)).primary words rest' result' :=
  accepts_start.bind fun start _ ↦ hoperand.bind fun base hbase ↦ hnext start base hbase

theorem accepts_unary_word {op : UnaryOp}
    (h : Accepts (Goal.parser depth).unary words rest fun operand ↦
      ∀ info, result (.unary info op operand)) :
    Accepts (Goal.parser (depth + 1)).unary (op.word :: words) rest result := by
  change Accepts (Rule.unary (Goal.parser depth)) _ _ _
  refine accepts_start.bind fun start _ ↦ accepts_peek?.known ?_
  have hstar : op.kind ≠ .star := by cases op <;> decide
  split
  · next heq => exact absurd (Option.some.inj heq) hstar
  · simp only [List.head?_cons, Option.map_some, Option.bind_some, UnaryOp.word, unaryOp?_kind]
    exact accepts_bump.bind fun _ _ ↦ h.bind fun operand hoperand ↦
      (accepts_nodeFrom start).bind fun info _ ↦ .pure (hoperand info)

theorem accepts_unary_star
    (h : Accepts (Goal.parser depth).unary words rest fun operand ↦
      ∀ info, result (.star info operand)) :
    Accepts (Goal.parser (depth + 1)).unary ((.star, "*") :: words) rest result :=
  accepts_start.bind fun start _ ↦ accepts_peek?.known <| accepts_bump.bind fun _ _ ↦
    h.bind fun _ hoperand ↦ (accepts_nodeFrom start).bind fun info _ ↦ .pure (hoperand info)

theorem accepts_binaryRest_end {minimum limit : Nat} (h : EndsOperators limit rest)
    (hlimit : limit < minimum) (left : Expr) :
    Accepts ((Goal.parser (depth + 1)).binaryRest minimum left) rest rest (· = left) := by
  change Accepts (Rule.binaryRest (Goal.parser depth) minimum left) _ _ _
  refine accepts_peek?.known ?_
  split
  · exact .pure rfl
  · next op heq =>
    obtain ⟨kind, hkind, hop⟩ := Option.bind_eq_some_iff.1 heq
    obtain ⟨word, hword, rfl⟩ := Option.map_eq_some_iff.1 hkind
    have hle := h word hword op hop
    rw [if_pos (by omega)]
    exact .pure rfl

/-- An operator that binds tightly enough takes an operand on its right. -/
theorem accepts_binaryRest_word {minimum : Nat} {op : BinaryOp} (hop : minimum ≤ op.precedence)
    {left : Expr}
    (hright : Accepts ((Goal.parser depth).binary (op.precedence + 1)) words rest result)
    (hnext : ∀ info right, result right →
      Accepts ((Goal.parser depth).binaryRest minimum (.binary info op left right)) rest rest'
        result') :
    Accepts ((Goal.parser (depth + 1)).binaryRest minimum left) (op.word :: words) rest'
      result' := by
  change Accepts (Rule.binaryRest (Goal.parser depth) minimum left) _ _ _
  refine accepts_peek?.known ?_
  simp only [List.head?_cons, Option.map_some, Option.bind_some, BinaryOp.word, binaryOp?_kind,
    if_neg (Nat.not_lt.2 hop)]
  exact accepts_bump.bind fun _ _ ↦ hright.bind fun right hright ↦
    (accepts_node _).bind fun info _ ↦ hnext info right hright

end Rules

/-! ### Formulas read back -/

namespace Expr

/-- No formula starts with a closing parenthesis, and a primary one with no operator. -/
theorem IsFormula.words_eq_cons {e : Expr} (h : e.IsFormula) : ∃ kind text tail,
    e.words = (kind, text) :: tail ∧ kind ≠ .rparen ∧
      (7 ≤ e.tightness → kind ∈ [TokenKind.ident, .int, .lparen]) := by
  induction h with
  | ident => exact ⟨_, _, _, rfl, by decide, fun _ ↦ by decide⟩
  | int => exact ⟨_, _, _, rfl, by decide, fun _ ↦ by decide⟩
  | paren => exact ⟨_, _, _, rfl, by decide, fun _ ↦ by decide⟩
  | @unary _ op =>
    have hkind : op.kind ≠ .rparen := by cases op <;> decide
    exact ⟨_, _, _, rfl, hkind, fun htight ↦ absurd htight (by simp [tightness])⟩
  | star => exact ⟨_, _, _, rfl, by decide, fun htight ↦ absurd htight (by simp [tightness])⟩
  | @binary _ op _ _ _ _ _ ihleft =>
    obtain ⟨kind, text, tail, hwords, hkind, -⟩ := ihleft
    refine ⟨kind, text, _, by rw [words, hwords, List.cons_append], hkind, fun htight ↦ ?_⟩
    have hlt := op.precedence_lt
    rw [tightness] at htight
    omega
  | selector _ _ hfits ih | index _ _ hfits ih | call _ _ hfits ih =>
    obtain ⟨kind, text, tail, hwords, hne, hkind⟩ := ih
    exact ⟨kind, text, _, by rw [words, hwords, List.cons_append], hne, fun _ ↦ hkind hfits⟩

/-- A primary expression reads the words of the formula and goes on behind them. -/
def ReadsPrimary (e : Expr) : Prop :=
  ∀ {count : Nat} {rest rest' : List Word} {result : Expr → Prop},
    (∀ depth, count ≤ depth → ∀ start base, base.shape = e.shape →
      Accepts ((Goal.parser depth).postfixRest start base) rest rest' result) →
    ∀ depth, count + 16 * e.words.length ≤ depth + 4 →
      Accepts (Goal.parser depth).primary (e.words ++ rest) rest' result

/-- An operand of an operator reads the words of the formula up to where an operand ends. -/
def ReadsUnary (e : Expr) : Prop :=
  ∀ {rest : List Word}, EndsOperand rest → ∀ depth, 16 * e.words.length ≤ depth + 2 →
    Accepts (Goal.parser depth).unary (e.words ++ rest) rest (·.shape = e.shape)

/-- An expression of operators reads the words of the formula, if these bind tightly enough and none
that follows binds more tightly, and goes on behind them. -/
def ReadsBinary (e : Expr) : Prop :=
  ∀ {minimum count : Nat} {rest rest' : List Word} {result : Expr → Prop},
    minimum ≤ e.tightness → EndsOperand rest → EndsOperators e.tightness rest →
    (∀ depth, count ≤ depth → ∀ left, left.shape = e.shape →
      Accepts ((Goal.parser depth).binaryRest minimum left) rest rest' result) →
    ∀ depth, count + 16 * e.words.length ≤ depth →
      Accepts ((Goal.parser depth).binary minimum) (e.words ++ rest) rest' result

/-- The rules read a formula where its tightness lets it stand. -/
structure IsRead (e : Expr) : Prop where
  primary : 7 ≤ e.tightness → e.ReadsPrimary
  unary : 6 ≤ e.tightness → e.ReadsUnary
  binary : e.ReadsBinary

theorem ReadsPrimary.unary {e : Expr} (h : e.ReadsPrimary) (he : e.IsFormula)
    (htight : 7 ≤ e.tightness) : e.ReadsUnary := by
  intro rest hrest depth hdepth
  obtain ⟨kind, text, tail, hwords, -, hkind⟩ := he.words_eq_cons
  rw [hwords, List.length_cons] at hdepth
  obtain ⟨depth, rfl⟩ : ∃ d, depth = d + 1 := ⟨depth - 1, by omega⟩
  have hprimary : Accepts (Goal.parser depth).primary (e.words ++ rest) rest
      (·.shape = e.shape) := by
    refine @h 1 rest rest _ (fun depth hpos start base hbase ↦ ?_) depth
      (by rw [hwords, List.length_cons]; omega)
    obtain ⟨depth, rfl⟩ : ∃ d, depth = d + 1 := ⟨depth - 1, by omega⟩
    exact (accepts_postfixRest_end hrest start base).weaken fun _ he ↦ he ▸ hbase
  have hnone : ∀ kind ∈ [TokenKind.ident, .int, .lparen], kind ≠ .star ∧ unaryOp? kind = none := by
    decide
  obtain ⟨hstar, hop⟩ := hnone kind (hkind htight)
  rw [hwords, List.cons_append] at hprimary ⊢
  exact accepts_unary_primary hstar hop hprimary

theorem ReadsUnary.binary {e : Expr} (h : e.ReadsUnary) (he : e.IsFormula) : e.ReadsBinary := by
  intro minimum count rest rest' result _ hrest _ hnext depth hdepth
  obtain ⟨kind, text, tail, hwords, -⟩ := he.words_eq_cons
  have hlength : 1 ≤ e.words.length := by rw [hwords, List.length_cons]; omega
  obtain ⟨depth, rfl⟩ : ∃ d, depth = d + 1 := ⟨depth - 1, by omega⟩
  exact (h hrest depth (by omega)).bind fun left hleft ↦ hnext depth (by omega) left hleft

theorem IsRead.of_primary {e : Expr} (h : e.ReadsPrimary) (he : e.IsFormula)
    (htight : 7 ≤ e.tightness) : e.IsRead := by
  have hunary : e.ReadsUnary := h.unary he htight
  exact ⟨fun _ ↦ h, fun _ ↦ hunary, hunary.binary he⟩

theorem IsRead.of_unary {e : Expr} (h : e.ReadsUnary) (he : e.IsFormula)
    (htight : ¬7 ≤ e.tightness) : e.IsRead :=
  ⟨fun h ↦ absurd h htight, fun _ ↦ h, h.binary he⟩

/-- A formula on its own, up to a word that closes it. -/
theorem IsRead.expr {e : Expr} (h : e.IsRead) {rest : List Word} (hrest : Closes rest) {depth : Nat}
    (hdepth : 1 + 16 * e.words.length ≤ depth) :
    Accepts (Goal.parser depth).expr (e.words ++ rest) rest (·.shape = e.shape) := by
  refine h.binary e.tightness_pos hrest.endsOperand (hrest.endsOperators _)
    (fun depth hpos left hleft ↦ ?_) depth hdepth
  obtain ⟨depth, rfl⟩ : ∃ d, depth = d + 1 := ⟨depth - 1, by omega⟩
  exact (accepts_binaryRest_end (hrest.endsOperators 0) Nat.zero_lt_one left).weaken
    fun _ he ↦ he ▸ hleft

/-- The arguments of a call, up to the closing parenthesis. -/
theorem accepts_args {args : List Expr} (h : ∀ arg ∈ args, arg.IsFormula)
    (hread : ∀ arg ∈ args, arg.IsRead) {rest : List Word} {depth : Nat}
    (hdepth : 3 + 16 * (listWords args).length ≤ depth) :
    Accepts (Goal.parser depth).args (listWords args ++ (.rparen, ")") :: rest)
      ((.rparen, ")") :: rest) (shapes · = shapes args) := by
  obtain ⟨depth, rfl⟩ : ∃ d, depth = d + 1 := ⟨depth - 1, by omega⟩
  change Accepts (Rule.args (Goal.parser depth)) _ _ _
  match args with
  | [] => exact accepts_isNext_cons.known (.pure rfl)
  | arg :: others =>
    obtain ⟨harg, hothers⟩ := List.forall_mem_cons.1 h
    obtain ⟨hreadArg, hreadOthers⟩ := List.forall_mem_cons.1 hread
    obtain ⟨kind, text, tail, hwords, hkind, -⟩ := harg.words_eq_cons
    have hhead (words : List Word) : (arg.words ++ words).head?.map (·.1) ≠ some .rparen := by
      rw [hwords]
      exact fun heq ↦ hkind (Option.some.inj heq)
    match others with
    | [] =>
      rw [listWords] at hdepth ⊢
      refine (accepts_isNext_of_ne (hhead _)).known ?_
      refine (hreadArg.expr (closes_cons rfl) (by omega)).bind fun first hfirst ↦ ?_
      refine (accepts_eat_of_ne (by simp)).known (.pure ?_)
      simp only [shapes, hfirst]
    | next :: others =>
      rw [listWords] at hdepth ⊢
      rw [List.append_assoc]
      simp only [List.length_append, List.length_cons] at hdepth
      refine (accepts_isNext_of_ne (hhead _)).known ?_
      refine (hreadArg.expr (closes_cons rfl) (by omega)).bind fun first hfirst ↦ ?_
      refine accepts_eat.known ?_
      refine (accepts_args hothers hreadOthers (by omega)).bind fun rest hrest ↦ .pure ?_
      rw [shapes, shapes, hfirst, hrest]

/-! #### Each kind of formula -/

theorem readsPrimary_ident (i : Ident) : (Expr.ident i).ReadsPrimary := by
  intro count rest rest' result hnext depth hdepth
  simp only [words, List.length_singleton] at hdepth
  obtain ⟨depth, rfl⟩ : ∃ d, depth = d + 1 := ⟨depth - 1, by omega⟩
  have hoperand : Accepts (operand (Goal.parser depth)) ((.ident, i.name) :: rest) rest
      (·.shape = (Expr.ident i).shape) :=
    accepts_start.bind fun _ _ ↦ accepts_peek?.known <| accepts_ident.bind fun ident hident ↦
      .pure (by rw [shape, shape, hident])
  exact accepts_primary_operand hoperand (hnext depth (by omega))

theorem readsPrimary_int {l : Literal} (hkind : l.kind = .int) :
    (Expr.literal l).ReadsPrimary := by
  intro count rest rest' result hnext depth hdepth
  simp only [words, List.length_singleton] at hdepth
  obtain ⟨depth, rfl⟩ : ∃ d, depth = d + 1 := ⟨depth - 1, by omega⟩
  have hoperand : Accepts (operand (Goal.parser depth)) ((.int, l.text) :: rest) rest
      (·.shape = (Expr.literal l).shape) := by
    refine accepts_start.bind fun _ _ ↦ accepts_peek?.known <| accepts_bump.bind fun token htoken ↦
      Accepts.bind (accepts_literalOf token .int) ?_
    rintro literal ⟨hliteral, hsame⟩
    have hspelled : token.text = l.text := congrArg Prod.snd htoken
    exact .pure (by rw [shape, shape, hliteral, hkind, hsame, hspelled])
  exact accepts_primary_operand hoperand (hnext depth (by omega))

theorem readsPrimary_paren (info : NodeInfo) {inner : Expr} (h : inner.IsRead) :
    (Expr.paren info inner).ReadsPrimary := by
  intro count rest rest' result hnext depth hdepth
  simp only [words, List.length_cons, List.length_append, List.length_nil] at hdepth
  obtain ⟨depth, rfl⟩ : ∃ d, depth = d + 1 := ⟨depth - 1, by omega⟩
  have hoperand : Accepts (operand (Goal.parser depth)) ((Expr.paren info inner).words ++ rest) rest
      (·.shape = (Expr.paren info inner).shape) := by
    rw [words, List.cons_append, List.append_assoc]
    refine accepts_start.bind fun start _ ↦ accepts_peek?.known <| accepts_bump.bind fun _ _ ↦ ?_
    refine (accepts_nested (h.expr (closes_cons rfl) (by omega))).bind fun inner' hinner' ↦ ?_
    exact accepts_expect.bind fun _ _ ↦ (accepts_nodeFrom start).bind fun _ _ ↦
      .pure (by rw [shape, shape, hinner'])
  exact accepts_primary_operand hoperand (hnext depth (by omega))

theorem readsPrimary_selector (info : NodeInfo) {operand : Expr} (selected : Ident)
    (h : operand.ReadsPrimary) : (Expr.selector info operand selected).ReadsPrimary := by
  intro count rest rest' result hnext depth hdepth
  simp only [words, List.length_cons, List.length_append, List.length_nil] at hdepth
  rw [words, List.append_assoc]
  refine @h (count + 1) _ rest' result (fun depth hcount start base hbase ↦ ?_) depth (by omega)
  obtain ⟨depth, rfl⟩ : ∃ d, depth = d + 1 := ⟨depth - 1, by omega⟩
  refine accepts_postfixRest_dot fun info' selected' hselected ↦ ?_
  exact hnext depth (by omega) start _ (by rw [shape, shape, hbase, hselected])

theorem readsPrimary_index (info : NodeInfo) {operand key : Expr} (h : operand.ReadsPrimary)
    (hkey : key.IsRead) : (Expr.index info operand key).ReadsPrimary := by
  intro count rest rest' result hnext depth hdepth
  simp only [words, List.length_cons, List.length_append, List.length_nil] at hdepth
  rw [words, List.append_assoc, List.cons_append, List.append_assoc]
  refine @h (count + 2 + 16 * key.words.length) _ rest' result (fun depth hcount start base hbase ↦
    ?_) depth (by omega)
  obtain ⟨depth, rfl⟩ : ∃ d, depth = d + 1 := ⟨depth - 1, by omega⟩
  refine accepts_postfixRest_lbracket (hkey.expr (closes_cons rfl) (by omega))
    fun info' key' hkey' ↦ ?_
  exact hnext depth (by omega) start _ (by rw [shape, shape, hbase, hkey'])

theorem readsPrimary_call (info : NodeInfo) {callee : Expr} {args : List Expr}
    (h : callee.ReadsPrimary) (hargs : ∀ arg ∈ args, arg.IsFormula)
    (hread : ∀ arg ∈ args, arg.IsRead) : (Expr.call info callee args).ReadsPrimary := by
  intro count rest rest' result hnext depth hdepth
  simp only [words, List.length_cons, List.length_append, List.length_nil] at hdepth
  rw [words, List.append_assoc, List.cons_append, List.append_assoc]
  refine @h (count + 4 + 16 * (listWords args).length) _ rest' result (fun depth hcount start base
    hbase ↦ ?_) depth (by omega)
  obtain ⟨depth, rfl⟩ : ∃ d, depth = d + 1 := ⟨depth - 1, by omega⟩
  refine accepts_postfixRest_lparen (accepts_args hargs hread (by omega)) fun info' args' hargs' ↦ ?_
  exact hnext depth (by omega) start _ (by rw [shape, shape, hbase, hargs'])

theorem readsUnary_unary (info : NodeInfo) (op : UnaryOp) {operand : Expr}
    (h : operand.ReadsUnary) : (Expr.unary info op operand).ReadsUnary := by
  intro rest hrest depth hdepth
  simp only [words, List.length_cons] at hdepth
  obtain ⟨depth, rfl⟩ : ∃ d, depth = d + 1 := ⟨depth - 1, by omega⟩
  refine accepts_unary_word ((h hrest depth (by omega)).weaken fun e he _ ↦ ?_)
  rw [shape, shape, he]

theorem readsUnary_star (info : NodeInfo) {operand : Expr} (h : operand.ReadsUnary) :
    (Expr.star info operand).ReadsUnary := by
  intro rest hrest depth hdepth
  simp only [words, List.length_cons] at hdepth
  obtain ⟨depth, rfl⟩ : ∃ d, depth = d + 1 := ⟨depth - 1, by omega⟩
  refine accepts_unary_star ((h hrest depth (by omega)).weaken fun e he _ ↦ ?_)
  rw [shape, shape, he]

/-- Behind the left operand the operator takes the right one, which no operator that follows is taken
into. -/
theorem readsBinary_binary (info : NodeInfo) {op : BinaryOp} {left right : Expr}
    (hleft : left.ReadsBinary) (hright : right.ReadsBinary)
    (hfits : (Expr.binary info op left right).Fits) :
    (Expr.binary info op left right).ReadsBinary := by
  obtain ⟨hfitsLeft, hfitsRight⟩ := hfits
  intro minimum count rest rest' result hminimum hrest hops hnext depth hdepth
  rw [tightness] at hminimum hops
  simp only [words, List.length_append, List.length_cons] at hdepth
  rw [words, List.append_assoc]
  refine @hleft minimum (count + 2 + 16 * right.words.length) _ rest' result
    (hminimum.trans hfitsLeft) (endsOperand_word op _) (endsOperators_word hfitsLeft _)
    (fun depth hcount left' hleft' ↦ ?_) depth (by omega)
  obtain ⟨depth, rfl⟩ : ∃ d, depth = d + 1 := ⟨depth - 1, by omega⟩
  have hoperand : Accepts ((Goal.parser depth).binary (op.precedence + 1)) (right.words ++ rest) rest
      (·.shape = right.shape) := by
    refine @hright (op.precedence + 1) 1 rest rest _ hfitsRight hrest
      (hops.mono hfitsRight.le) (fun depth hpos right' hright' ↦ ?_) depth (by omega)
    obtain ⟨depth, rfl⟩ : ∃ d, depth = d + 1 := ⟨depth - 1, by omega⟩
    exact (accepts_binaryRest_end hops (Nat.lt_succ_self _) right').weaken fun _ he ↦ he ▸ hright'
  refine accepts_binaryRest_word hminimum hoperand fun info' right' hright' ↦ ?_
  exact hnext depth (by omega) _ (by rw [shape, shape, hleft', hright'])

theorem IsFormula.isRead {e : Expr} (h : e.IsFormula) : e.IsRead := by
  induction h with
  | ident hname => exact .of_primary (readsPrimary_ident _) (.ident hname) (by simp [tightness])
  | int hkind htext =>
    exact .of_primary (readsPrimary_int hkind) (.int hkind htext) (by simp [tightness])
  | paren hinner ih =>
    exact .of_primary (readsPrimary_paren _ ih) (.paren hinner) (by simp [tightness])
  | unary hoperand hfits ih =>
    exact .of_unary (readsUnary_unary _ _ (ih.unary hfits)) (.unary hoperand hfits)
      (by simp [tightness])
  | star hoperand hfits ih =>
    exact .of_unary (readsUnary_star _ (ih.unary hfits)) (.star hoperand hfits) (by simp [tightness])
  | @binary info op left right hleft hright hfits ihleft ihright =>
    have hlt := op.precedence_lt
    refine ⟨fun htight ↦ ?_, fun htight ↦ ?_,
      readsBinary_binary info ihleft.binary ihright.binary hfits⟩
    · rw [tightness] at htight
      omega
    · rw [tightness] at htight
      omega
  | selector hoperand hname hfits ih =>
    exact .of_primary (readsPrimary_selector _ _ (ih.primary hfits)) (.selector hoperand hname hfits)
      (by simp [tightness])
  | index hoperand hkey hfits ih ihkey =>
    exact .of_primary (readsPrimary_index _ (ih.primary hfits) ihkey) (.index hoperand hkey hfits)
      (by simp [tightness])
  | call hcallee hargs hfits ih ihargs =>
    exact .of_primary (readsPrimary_call _ (ih.primary hfits) hargs ihargs)
      (.call hcallee hargs hfits) (by simp [tightness])

/-- A formula is read back from its words. -/
theorem IsFormula.parseExpr_spaced {e : Expr} (h : e.IsFormula) (set : FileSet) (name : String) :
    ∃ e', (set.parseExpr name e.spaced).2 = .ok e' ∧ e'.shape = e.shape := by
  refine parseExpr_of_lexes (.spaced h.isAlone) (fun {tokens final} htokens hfinal ↦ ?_) set name
  refine h.isRead.expr hfinal ?_
  rw [Goal.depthPerToken]
  omega

end Expr

end PackageAtlas
