import Mathlib.Data.List.Forall2
import PackageAtlas.Parse.File
import PackageAtlas.Proofs.Printing.Words

/-!
Types read back. What a parser does with tokens that say given words is described by the words that
it leaves and by what it returns (`Accepts`). An expression that is parsed from the words of a type
has the form of the type (`Ty.ReadAs`): `Ty.accepts_type` for the rules of types and
`Ty.parseExpr_text` for a whole text, where the rules of expressions come first and leave a type to
the rules of types unless it starts with a star.
-/

set_option autoImplicit false
set_option relaxedAutoImplicit false

namespace PackageAtlas

/-! ### Parsers and words -/

section Judgement

variable {α β : Type}

/-- On tokens that say some words the parser succeeds, leaves the tokens of other words, and returns
something with a property. -/
def Accepts (p : Parser α) (words rest : List Word) (result : α → Prop) : Prop :=
  ∀ input state, state.tokens.map Token.word = words →
    ∃ a later, p input state = .ok (a, later) ∧ later.tokens.map Token.word = rest ∧ result a

variable {p : Parser α} {next : α → Parser β} {words middle rest : List Word} {result : α → Prop}
  {result' : β → Prop} {a : α}

namespace Accepts

theorem pure (h : result a) : Accepts (Pure.pure a) words words result :=
  fun _ state hwords ↦ ⟨a, state, rfl, hwords, h⟩

theorem bind (h : Accepts p words middle result)
    (hnext : ∀ a, result a → Accepts (next a) middle rest result') :
    Accepts (p >>= next) words rest result' := by
  intro input state hwords
  obtain ⟨a, later, hrun, hmiddle, ha⟩ := h input state hwords
  obtain ⟨b, last, hrun', hrest, hb⟩ := hnext a ha input later hmiddle
  refine ⟨b, last, ?_, hrest, hb⟩
  change (p input state >>= fun result ↦ next result.1 input result.2) = _
  rw [hrun]
  exact hrun'

/-- Going on with a result that is known. -/
theorem known (h : Accepts p words middle (· = a)) (hnext : Accepts (next a) middle rest result') :
    Accepts (p >>= next) words rest result' :=
  h.bind fun _ ha ↦ ha ▸ hnext

theorem map {f : α → β} (h : Accepts p words rest fun a ↦ result' (f a)) :
    Accepts (f <$> p) words rest result' := by
  rw [map_eq_pure_bind]
  exact h.bind fun a ha ↦ pure ha

theorem weaken {result'' : α → Prop} (h : Accepts p words rest result)
    (hresult : ∀ a, result a → result'' a) : Accepts p words rest result'' := by
  intro input state hwords
  obtain ⟨a, later, hrun, hrest, ha⟩ := h input state hwords
  exact ⟨a, later, hrun, hrest, hresult a ha⟩

end Accepts

end Judgement

open PackageAtlas.Parser

section Steps

variable {kind : TokenKind} {text : String} {words rest : List Word}

/-! ### Looks -/

theorem accepts_get : Accepts (get : Parser ParseState) words words
    fun state ↦ state.tokens.map Token.word = words :=
  fun _ state hwords ↦ ⟨state, state, rfl, hwords, hwords⟩

theorem accepts_read : Accepts (read : Parser ParseInput) words words fun _ ↦ True :=
  fun input state hwords ↦ ⟨input, state, rfl, hwords, trivial⟩

theorem accepts_current? : Accepts current? words words (·.map Token.word = words.head?) :=
  accepts_get.bind fun state hwords ↦ .pure (by rw [← hwords, List.head?_map])

theorem accepts_peek? : Accepts peek? words words (· = words.head?.map (·.1)) :=
  .map (accepts_current?.weaken fun token htoken ↦ by rw [← htoken, Option.map_map]; rfl)

theorem accepts_peekSecond? : Accepts peekSecond? words words (· = words[1]?.map (·.1)) :=
  accepts_get.bind fun state hwords ↦ .pure (by
    rw [← hwords, List.getElem?_map, Option.map_map]
    rfl)

theorem accepts_isNext (kind : TokenKind) :
    Accepts (isNext kind) words words (· = (words.head?.map (·.1) == some kind)) :=
  accepts_peek?.known (.pure rfl)

theorem accepts_isNext_cons :
    Accepts (isNext kind) ((kind, text) :: rest) ((kind, text) :: rest) (· = true) :=
  (accepts_isNext kind).weaken fun _ hb ↦ hb.trans (beq_self_eq_true _)

theorem accepts_isNext_of_ne (h : words.head?.map (·.1) ≠ some kind) :
    Accepts (isNext kind) words words (· = false) :=
  (accepts_isNext kind).weaken fun _ hb ↦ hb.trans (beq_eq_false_iff_ne.2 h)

theorem accepts_isDone : Accepts isDone words words (· = words.isEmpty) :=
  accepts_get.bind fun state hwords ↦ .pure (by rw [← hwords, List.isEmpty_map])

theorem accepts_offset : Accepts offset words words fun _ ↦ True := by
  refine accepts_current?.bind fun token _ ↦ ?_
  cases token with
  | none => exact accepts_read.bind fun _ _ ↦ .pure trivial
  | some token => exact .pure trivial

theorem accepts_start : Accepts start words words fun _ ↦ True :=
  accepts_read.bind fun _ _ ↦ accepts_offset.bind fun _ _ ↦ .pure trivial

/-! ### Tokens -/

theorem accepts_advance (token : Token) (word : Word) :
    Accepts (advance token) (word :: rest) rest fun _ ↦ True :=
  fun _ state hwords ↦ ⟨(), _, rfl, by rw [List.map_tail, hwords]; rfl, trivial⟩

theorem accepts_bump {word : Word} : Accepts bump (word :: rest) rest (·.word = word) := by
  refine accepts_current?.bind fun token htoken ↦ ?_
  cases token with
  | none => cases htoken
  | some token => exact (accepts_advance token word).bind fun _ _ ↦ .pure (Option.some.inj htoken)

theorem accepts_eat : Accepts (eat kind) ((kind, text) :: rest) rest (· = true) := by
  refine accepts_current?.bind fun token htoken ↦ ?_
  cases token with
  | none => cases htoken
  | some token =>
    have hkind : token.kind = kind := congrArg Prod.fst (Option.some.inj htoken)
    simp only [hkind, if_true]
    exact (accepts_advance token _).bind fun _ _ ↦ .pure rfl

theorem accepts_eat_of_ne (h : words.head?.map (·.1) ≠ some kind) :
    Accepts (eat kind) words words (· = false) := by
  refine accepts_current?.bind fun token htoken ↦ ?_
  rw [← htoken] at h
  cases token with
  | none => exact .pure rfl
  | some token =>
    have hkind : token.kind ≠ kind := fun hkind ↦ h (congrArg some hkind)
    simp only [hkind, if_false]
    exact .pure rfl

theorem accepts_expectAs (wanted : Wanted) :
    Accepts (expectAs kind wanted) ((kind, text) :: rest) rest (·.word = (kind, text)) := by
  refine (accepts_isNext kind).known ?_
  simp only [List.head?_cons, Option.map_some, beq_self_eq_true, if_true]
  exact accepts_bump

theorem accepts_expect :
    Accepts (expect kind) ((kind, text) :: rest) rest (·.word = (kind, text)) :=
  accepts_expectAs _

/-! ### Nodes -/

theorem accepts_node (span : Span) : Accepts (node span) words words fun _ ↦ True :=
  fun _ _ hwords ↦ ⟨_, _, rfl, hwords, trivial⟩

theorem accepts_nodeFrom (start : Nat) : Accepts (nodeFrom start) words words fun _ ↦ True :=
  accepts_read.bind fun _ _ ↦ accepts_get.bind fun _ _ ↦ accepts_node _

theorem accepts_nodeOf (token : Token) : Accepts (nodeOf token) words words fun _ ↦ True :=
  accepts_read.bind fun _ _ ↦ accepts_node _

theorem accepts_ident : Accepts ident ((.ident, text) :: rest) rest (·.name = text) :=
  (accepts_expectAs _).bind fun token htoken ↦
    (accepts_nodeOf token).bind fun _ _ ↦ .pure (congrArg Prod.snd htoken)

theorem accepts_literalOf (token : Token) (kind : LiteralKind) :
    Accepts (literalOf token kind) words words
      fun literal ↦ literal.kind = kind ∧ literal.text = token.text :=
  (accepts_nodeOf token).bind fun _ _ ↦ .pure ⟨rfl, rfl⟩

theorem accepts_modify {change : ParseState → ParseState}
    (h : ∀ state, (change state).tokens = state.tokens) :
    Accepts (modify change : Parser Unit) words words fun _ ↦ True :=
  fun _ state hwords ↦ ⟨(), change state, rfl, (h state).symm ▸ hwords, trivial⟩

theorem accepts_nested {α : Type} {p : Parser α} {result : α → Prop}
    (h : Accepts p words rest result) : Accepts (nested p) words rest result := by
  refine accepts_get.bind fun state _ ↦ ?_
  refine Accepts.bind (accepts_modify fun _ ↦ rfl) fun _ _ ↦ h.bind fun a ha ↦ ?_
  exact Accepts.bind (accepts_modify fun _ ↦ rfl) fun _ _ ↦ .pure ha

/-- A terminator, or none before a closing brace. -/
theorem accepts_separator : Accepts separator ((.semicolon, text) :: rest) rest fun _ ↦ True :=
  accepts_eat.known (.pure trivial)

theorem accepts_separator_rbrace :
    Accepts separator ((.rbrace, text) :: rest) ((.rbrace, text) :: rest) fun _ ↦ True := by
  refine (accepts_eat_of_ne (by simp)).known ((accepts_isNext .rparen).known ?_)
  exact (accepts_isNext .rbrace).known (.pure trivial)

end Steps

/-! ### Forms of types -/

mutual

/-- An expression has the form of a type: the same names, lengths, and parts in the same order. -/
def Ty.ReadAs : Ty → Expr → Prop
  | .basic kind, .ident ident => ident.name = kind.name
  | .named name, .ident ident => ident.name = name.name
  | .pointer element, .star _ operand => ReadAs element operand
  | .slice element, .arrayType _ none operand => ReadAs element operand
  | .array length element, .arrayType _ (some (.literal literal)) operand =>
    literal.kind = .int ∧ literal.text = toString length ∧ ReadAs element operand
  | .map key value, .mapType _ left right => ReadAs key left ∧ ReadAs value right
  | .struct fields, .structType _ entries => membersReadAs fields entries
  | .interface methods, .interfaceType _ entries => membersReadAs methods entries
  | .func signature, .funcType type => signatureReadAs signature type
  | _, _ => False

def Ty.signatureReadAs : Signature → FuncType → Prop
  | ⟨params, results⟩, type => listReadAs params type.params ∧ listReadAs results type.results

/-- Parameters or results without names. -/
def Ty.listReadAs : List Ty → List Field → Prop
  | [], [] => True
  | type :: rest, field :: fields =>
    field.names = [] ∧ ReadAs type field.type ∧ listReadAs rest fields
  | _, _ => False

/-- Fields or methods with a name each. -/
def Ty.membersReadAs : List Member → List Field → Prop
  | [], [] => True
  | ⟨_, name, _, type⟩ :: rest, field :: fields =>
    (∃ ident, field.names = [ident] ∧ ident.name = name) ∧ ReadAs type field.type ∧
      membersReadAs rest fields
  | _, _ => False

end

/-- What may follow a type: the end, or a sign that goes on with no expression and no type. -/
def Closes (rest : List Word) : Prop :=
  ∀ word ∈ rest.head?, word.1 ∈ [TokenKind.semicolon, .comma, .rparen, .rbracket, .rbrace]

theorem closes_nil : Closes [] := fun _ h ↦ (by cases h)

theorem closes_cons {kind : TokenKind} {text : String} {rest : List Word}
    (h : [TokenKind.semicolon, .comma, .rparen, .rbracket, .rbrace].contains kind = true) :
    Closes ((kind, text) :: rest) := by
  intro word hword
  cases hword
  exact List.contains_iff_mem.1 h

theorem Closes.ne {rest : List Word} (h : Closes rest) {kind : TokenKind}
    (hkind : kind ∉ [TokenKind.semicolon, .comma, .rparen, .rbracket, .rbrace]) :
    rest.head?.map (·.1) ≠ some kind := by
  intro heq
  obtain ⟨word, hword, rfl⟩ := Option.map_eq_some_iff.1 heq
  exact hkind (h word hword)

theorem Closes.any_startsType {rest : List Word} (h : Closes rest) :
    (rest.head?.map (·.1)).any Rule.startsType = false := by
  cases hhead : rest.head? with
  | none => rfl
  | some word =>
    have hclosers : ∀ kind ∈ [TokenKind.semicolon, .comma, .rparen, .rbracket, .rbrace],
        Rule.startsType kind = false := by decide
    exact hclosers _ (h word hhead)

theorem Closes.bind_binaryOp? {rest : List Word} (h : Closes rest) :
    (rest.head?.map (·.1)).bind Rule.binaryOp? = none := by
  cases hhead : rest.head? with
  | none => rfl
  | some word =>
    have hclosers : ∀ kind ∈ [TokenKind.semicolon, .comma, .rparen, .rbracket, .rbrace],
        Rule.binaryOp? kind = none := by decide
    exact hclosers _ (h word hhead)

/-! ### Rules of types -/

section Rules

open Rule

variable {g : Grammar} {words rest : List Word} {text name : String}

theorem accepts_typeName (hrest : Closes rest) :
    Accepts typeName ((.ident, name) :: rest) rest fun e ↦ ∃ ident, e = .ident ident ∧
      ident.name = name := by
  refine accepts_start.bind fun _ _ ↦ accepts_ident.bind fun ident hname ↦ ?_
  refine (accepts_isNext .dot).bind fun dot hdot ↦ accepts_peekSecond?.bind fun second _ ↦ ?_
  have hdot : dot = false := by rw [hdot, beq_eq_false_iff_ne]; exact hrest.ne (by decide)
  simp only [hdot, Bool.false_and, Bool.false_eq_true, if_false]
  exact .pure ⟨ident, rfl, hname⟩

/-- The entries of a list of parameters are types without names. -/
def EntriesReadAs (types : List Ty) (entries : List (Expr × Option Expr)) : Prop :=
  List.Forall₂ (fun type entry ↦ entry.2 = none ∧ type.ReadAs entry.1) types entries

theorem accepts_unnamedField (type : Expr) : Accepts (unnamedField type) words words
    fun field ↦ field.names = [] ∧ field.type = type :=
  (accepts_node _).bind fun _ _ ↦ .pure ⟨rfl, rfl⟩

theorem accepts_unnamedFields {types : List Ty} {entries : List (Expr × Option Expr)}
    (h : EntriesReadAs types entries) :
    Accepts (entries.mapM fun entry ↦ unnamedField entry.1) words words
      (Ty.listReadAs types) := by
  induction h with
  | nil => exact .pure (by simp [Ty.listReadAs])
  | cons hentry _ ih =>
    rw [List.mapM_cons]
    refine (accepts_unnamedField _).bind fun field hfield ↦ ih.bind fun fields hfields ↦ .pure ?_
    rw [Ty.listReadAs, hfield.2]
    exact ⟨hfield.1, hentry.2, hfields⟩

theorem EntriesReadAs.all_isNone {types : List Ty} {entries : List (Expr × Option Expr)}
    (h : EntriesReadAs types entries) : entries.all (·.2.isNone) = true := by
  induction h with
  | nil => rfl
  | cons hentry _ ih => simp [hentry.1, ih]

/-- Parameters between parentheses. -/
theorem accepts_parameters {types : List Ty}
    (h : ∀ rest, Accepts g.parameterEntries (Ty.listWords types ++ (.rparen, ")") :: rest)
      ((.rparen, ")") :: rest) (EntriesReadAs types)) :
    Accepts (parameters g) ((.lparen, "(") :: (Ty.listWords types ++ (.rparen, ")") :: rest)) rest
      (Ty.listReadAs types) := by
  refine accepts_expect.bind fun _ _ ↦ (h rest).bind fun entries hentries ↦ ?_
  refine accepts_expect.bind fun _ _ ↦ ?_
  simp only [hentries.all_isNone, if_true]
  exact accepts_unnamedFields hentries

/-! ### Rules of expressions -/

/-- An expression that no operator follows. -/
theorem accepts_expr {result : Expr → Prop} {depth : Nat} (hrest : Closes rest)
    (h : Accepts (Goal.parser (depth + 1)).unary words rest result) :
    Accepts (Goal.parser (depth + 2)).expr words rest result := by
  change Accepts (Rule.binary (Goal.parser (depth + 1)) 1) _ _ _
  refine h.bind fun left hleft ↦ ?_
  change Accepts (Rule.binaryRest (Goal.parser depth) 1 left) _ _ _
  refine accepts_peek?.known ?_
  rw [hrest.bind_binaryOp?]
  exact .pure hleft

/-- An operand behind which an expression does not go on. -/
theorem accepts_primary {result : Expr → Prop} {depth : Nat} (hrest : Closes rest)
    (h : Accepts (operand (Goal.parser (depth + 1))) words rest result) :
    Accepts (Goal.parser (depth + 2)).primary words rest result := by
  change Accepts (Rule.primary (Goal.parser (depth + 1))) _ _ _
  refine accepts_start.bind fun start _ ↦ h.bind fun e he ↦ ?_
  change Accepts (Rule.postfixRest (Goal.parser depth) start e) _ _ _
  refine accepts_peek?.known ?_
  cases hhead : rest.head? with
  | none => exact .pure he
  | some word =>
    obtain ⟨kind, text⟩ := word
    have hkind := hrest _ hhead
    simp only [List.mem_cons, List.not_mem_nil, or_false] at hkind
    rcases hkind with rfl | rfl | rfl | rfl | rfl <;> exact .pure he

/-- No operator before an operand. -/
theorem accepts_unary_primary {result : Expr → Prop} {depth : Nat} {kind : TokenKind}
    (hstar : kind ≠ .star) (hop : unaryOp? kind = none)
    (h : Accepts (Goal.parser depth).primary ((kind, text) :: words) rest result) :
    Accepts (Goal.parser (depth + 1)).unary ((kind, text) :: words) rest result := by
  change Accepts (Rule.unary (Goal.parser depth)) _ _ _
  refine accepts_start.bind fun start _ ↦ accepts_peek?.known ?_
  split
  · next heq => exact absurd (Option.some.inj heq) hstar
  · simp only [List.head?_cons, Option.map_some, Option.bind_some, hop]
    exact h

/-- The length of an array. -/
theorem accepts_length (depth : Nat) (hrest : Closes rest) :
    Accepts (Goal.parser (depth + 4)).expr ((.int, text) :: rest) rest fun e ↦
      ∃ literal, e = .literal literal ∧ literal.kind = .int ∧ literal.text = text := by
  refine accepts_expr hrest (accepts_unary_primary (by decide) rfl (accepts_primary hrest ?_))
  refine accepts_start.bind fun start _ ↦ accepts_peek?.known ?_
  refine accepts_bump.bind fun token htoken ↦ Accepts.bind (accepts_literalOf token .int) ?_
  rintro _ ⟨hkind, htext⟩
  exact .pure ⟨_, rfl, hkind, htext.trans (congrArg Prod.snd htoken)⟩

theorem accepts_someLength (depth : Nat) (hrest : Closes rest) :
    Accepts (some <$> nested (Goal.parser (depth + 4)).expr) ((.int, text) :: rest) rest fun e ↦
      ∃ literal, e = some (.literal literal) ∧ literal.kind = .int ∧ literal.text = text :=
  .map ((accepts_nested (accepts_length depth hrest)).weaken
    fun _ ⟨literal, he, h⟩ ↦ ⟨literal, congrArg some he, h⟩)

/-! ### Whole expressions -/

theorem accepts_wholeExpr {result : Expr → Prop} {final : List Word}
    (h : Closes final → Accepts g.expr (words ++ final) final result) (hfinal : IsEnd final) :
    Accepts (wholeExpr g) (words ++ final) [] result := by
  rcases hfinal with rfl | rfl
  · refine (h closes_nil).bind fun e he ↦ ?_
    exact (accepts_eat_of_ne (by simp)).known (accepts_isDone.known (.pure he))
  · refine (h (closes_cons rfl)).bind fun e he ↦ ?_
    exact accepts_eat.known (accepts_isDone.known (.pure he))

/-- A text parses as what the rules for expressions make of its words. -/
theorem parseExpr_of_lexes {result : Expr → Prop} (hlexes : Lexes text.toList words)
    (h : ∀ {tokens : Nat} {final : List Word}, words.length ≤ tokens → Closes final →
      Accepts (Goal.parserFor tokens).expr (words ++ final) final result)
    (set : FileSet) (name : String) :
    ∃ e, (set.parseExpr name text).2 = .ok e ∧ result e := by
  obtain ⟨stream, final, hstream, hfinal, htokens⟩ := hlexes.ofText
  have hlength : words.length ≤ stream.tokens.length := by
    have hlength := congrArg List.length htokens
    rw [List.length_map, List.length_append] at hlength
    omega
  obtain ⟨e, later, hrun, -, he⟩ := accepts_wholeExpr (h hlength) hfinal
    ⟨set.space, set.nextEntry name text, text.toList, stream.comments⟩
    ⟨stream.tokens, 0, 0, 1⟩ htokens
  refine ⟨e, ?_, he⟩
  unfold FileSet.parseExpr runOn
  simp only [hstream, hrun]
  rfl

end Rules

namespace Ty

theorem length_signatureWords (params results : List Ty) :
    (listWords params).length + 2 ≤ (signatureWords ⟨params, results⟩).length := by
  match results with
  | [] | [result] | first :: second :: results => simp [signatureWords]

/-- The kinds of words that types start with. -/
def starters : List TokenKind :=
  [.ident, .star, .lbracket, .kwMap, .kwStruct, .kwInterface, .kwFunc]

theorem head?_words {type : Ty} (h : type.isDenotable = true) (rest : List Word) :
    ∃ kind ∈ starters, (type.words ++ rest).head?.map (·.1) = some kind := by
  cases type with
  | invalid => cases h
  | tuple types => cases h
  | _ => exact ⟨_, by simp [starters], rfl⟩

theorem any_startsType_words {type : Ty} (h : type.isDenotable = true) (rest : List Word) :
    ((type.words ++ rest).head?.map (·.1)).any Rule.startsType = true := by
  obtain ⟨kind, hmem, hhead⟩ := head?_words h rest
  have hstarters : ∀ kind ∈ starters, Rule.startsType kind = true := by decide
  rw [hhead]
  exact hstarters kind hmem

theorem head?_words_ne {type : Ty} (h : type.isDenotable = true) (rest : List Word)
    {kind : TokenKind} (hkind : kind ∉ starters) :
    (type.words ++ rest).head?.map (·.1) ≠ some kind := by
  obtain ⟨starter, hmem, hhead⟩ := head?_words h rest
  rw [hhead]
  rintro ⟨rfl⟩
  exact hkind hmem

open Rule

variable {g : Grammar} {name : String} {type : Ty} {symbol : SymbolId} {isEmbedded : Bool}
  {members : List Member} {words middle rest : List Word}

/-- A single name, which no comma follows. -/
theorem accepts_idents (depth : Nat) (h : words.head?.map (·.1) ≠ some .comma) :
    Accepts (Goal.parser (depth + 1)).idents ((.ident, name) :: words) words
      fun idents ↦ ∃ ident, idents = [ident] ∧ ident.name = name := by
  change Accepts (Rule.idents (Goal.parser depth)) _ _ _
  refine accepts_ident.bind fun ident hident ↦ (accepts_eat_of_ne h).known ?_
  exact .pure ⟨ident, rfl, hident⟩

/-- A name with a type behind it is not embedded. -/
theorem accepts_isEmbedded (h : type.isDenotable = true) :
    Accepts Rule.isEmbedded ((.ident, name) :: (type.words ++ rest))
      ((.ident, name) :: (type.words ++ rest)) (· = false) := by
  refine (accepts_isNext_of_ne (by simp)).known (accepts_isNext_cons.known ?_)
  refine accepts_peekSecond?.known (.pure ?_)
  obtain ⟨kind, hmem, hhead⟩ := head?_words h rest
  have hstarters : ∀ kind ∈ starters, (decide (kind = .semicolon) || decide (kind = .rbrace) ||
      decide (kind = .dot) || decide (kind = .string)) = false := by decide
  rw [List.getElem?_cons_succ, ← List.head?_eq_getElem?, hhead]
  exact hstarters kind hmem

/-- A field and what follows it. -/
theorem accepts_field (h : type.isDenotable = true)
    (hidents : Accepts g.idents ((.ident, name) :: (type.words ++ middle)) (type.words ++ middle)
      fun idents ↦ ∃ ident, idents = [ident] ∧ ident.name = name)
    (htype : Accepts g.type (type.words ++ middle) middle type.ReadAs)
    (hmiddle : middle.head?.map (·.1) ≠ some .string)
    (hseparator : Accepts separator middle words fun _ ↦ True)
    (hmembers : Accepts g.structFields words rest (membersReadAs members)) :
    Accepts (structFields g) ((.ident, name) :: (type.words ++ middle)) rest
      (membersReadAs (⟨symbol, name, isEmbedded, type⟩ :: members)) := by
  refine (accepts_isNext_of_ne (by simp)).known (accepts_isDone.known ?_)
  refine accepts_start.bind fun start _ ↦ (accepts_isEmbedded h).known ?_
  refine hidents.bind fun names hnames ↦ htype.bind fun e he ↦ ?_
  refine (accepts_eat_of_ne hmiddle).known ((accepts_nodeFrom start).bind fun _ _ ↦ ?_)
  refine hseparator.bind fun _ _ ↦ hmembers.bind fun fields hfields ↦ .pure ?_
  exact ⟨hnames, he, hfields⟩

theorem head_signatureWords (signature : Signature) :
    ∃ tail, signatureWords signature = (.lparen, "(") :: tail := by
  obtain ⟨params, results⟩ := signature
  match results with
  | [] | [result] | first :: second :: results => exact ⟨_, rfl⟩

/-- A method and what follows it. -/
theorem accepts_method {signature : Signature}
    (hsignature : ∀ start, Accepts (g.signature start) (signatureWords signature ++ middle) middle
      (signatureReadAs signature))
    (hseparator : Accepts separator middle words fun _ ↦ True)
    (hmembers : Accepts g.interfaceElements words rest (membersReadAs members)) :
    Accepts (interfaceElements g) ((.ident, name) :: (signatureWords signature ++ middle)) rest
      (membersReadAs (⟨symbol, name, isEmbedded, .func signature⟩ :: members)) := by
  obtain ⟨tail, htail⟩ := head_signatureWords signature
  rw [htail, List.cons_append] at hsignature ⊢
  refine (accepts_isNext_of_ne (by simp)).known (accepts_isDone.known ?_)
  refine accepts_start.bind fun start _ ↦ accepts_isNext_cons.known (accepts_peekSecond?.known ?_)
  simp only [List.getElem?_cons_succ, List.getElem?_cons_zero, Option.map_some, beq_self_eq_true,
    Bool.and_true, if_true]
  refine accepts_ident.bind fun ident hident ↦ accepts_start.bind fun start' _ ↦ ?_
  refine (hsignature start').bind fun type htype ↦ Accepts.known (.pure rfl) ?_
  refine (accepts_nodeFrom start).bind fun _ _ ↦ hseparator.bind fun _ _ ↦ ?_
  exact hmembers.bind fun fields hfields ↦ .pure ⟨⟨ident, rfl, hident⟩, htype, hfields⟩

mutual

theorem accepts_type {type : Ty} (htype : type.isDenotable = true) {depth : Nat}
    (hdepth : 16 * type.words.length < depth) {rest : List Word} (hrest : Closes rest) :
    Accepts (Goal.parser depth).type (type.words ++ rest) rest type.ReadAs := by
  obtain ⟨depth, rfl⟩ : ∃ d, depth = d + 1 := ⟨depth - 1, by omega⟩
  change Accepts (Rule.type (Goal.parser depth)) _ _ _
  refine accepts_start.bind fun start _ ↦ accepts_peek?.known ?_
  cases type with
  | basic kind =>
    exact (accepts_typeName hrest).weaken fun e ⟨ident, he, hname⟩ ↦ he ▸ hname
  | named name =>
    exact (accepts_typeName hrest).weaken fun e ⟨ident, he, hname⟩ ↦ he ▸ hname
  | pointer element =>
    rw [isDenotable] at htype
    simp only [words, List.length_cons] at hdepth
    refine accepts_bump.bind fun _ _ ↦ ?_
    refine (accepts_type htype (by omega) hrest).bind fun operand hoperand ↦ ?_
    exact (accepts_nodeFrom start).bind fun _ _ ↦ .pure hoperand
  | slice element =>
    rw [isDenotable] at htype
    simp only [words, List.length_cons] at hdepth
    refine accepts_start.bind fun start _ ↦ accepts_expect.bind fun _ _ ↦ ?_
    refine (accepts_isNext .rbracket).known (Accepts.known (.pure rfl) ?_)
    refine accepts_expect.bind fun _ _ ↦ ?_
    refine (accepts_type htype (by omega) hrest).bind fun operand hoperand ↦ ?_
    exact (accepts_nodeFrom start).bind fun _ _ ↦ .pure hoperand
  | array length element =>
    simp only [isDenotable, Bool.and_eq_true] at htype
    simp only [words, List.length_cons] at hdepth
    obtain ⟨depth, rfl⟩ : ∃ d, depth = d + 4 := ⟨depth - 4, by omega⟩
    refine accepts_start.bind fun start _ ↦ accepts_expect.bind fun _ _ ↦ ?_
    refine (accepts_isNext_of_ne (by simp)).known ?_
    simp only [Bool.false_eq_true, if_false]
    refine (accepts_someLength depth (closes_cons rfl)).bind ?_
    rintro _ ⟨literal, rfl, hkind, htext⟩
    refine accepts_expect.bind fun _ _ ↦ ?_
    refine (accepts_type htype.2 (by omega) hrest).bind fun operand hoperand ↦ ?_
    exact (accepts_nodeFrom start).bind fun _ _ ↦ .pure ⟨hkind, htext, hoperand⟩
  | map key value =>
    simp only [isDenotable, Bool.and_eq_true] at htype
    simp only [words, List.length_cons, List.length_append] at hdepth
    simp only [words, List.cons_append, List.append_assoc]
    refine accepts_start.bind fun start _ ↦ accepts_expect.bind fun _ _ ↦ ?_
    refine accepts_expect.bind fun _ _ ↦ ?_
    refine (accepts_type htype.1 (by omega) (closes_cons rfl)).bind fun left hleft ↦ ?_
    refine accepts_expect.bind fun _ _ ↦ ?_
    refine (accepts_type htype.2 (by omega) hrest).bind fun right hright ↦ ?_
    exact (accepts_nodeFrom start).bind fun _ _ ↦ .pure ⟨hleft, hright⟩
  | struct fields =>
    simp only [isDenotable, Bool.and_eq_true] at htype
    simp only [words, List.length_cons, List.length_append] at hdepth
    simp only [words, List.cons_append, List.append_assoc]
    refine accepts_start.bind fun start _ ↦ accepts_expect.bind fun _ _ ↦ ?_
    refine accepts_expect.bind fun _ _ ↦ ?_
    refine (accepts_structFields htype.2 (by omega) _).bind fun entries hentries ↦ ?_
    refine accepts_expect.bind fun _ _ ↦ ?_
    exact (accepts_nodeFrom start).bind fun _ _ ↦ .pure hentries
  | interface methods =>
    rw [isDenotable] at htype
    simp only [words, List.length_cons, List.length_append] at hdepth
    simp only [words, List.cons_append, List.append_assoc]
    refine accepts_start.bind fun start _ ↦ accepts_expect.bind fun _ _ ↦ ?_
    refine accepts_expect.bind fun _ _ ↦ ?_
    refine (accepts_interfaceElements htype (by omega) _).bind fun entries hentries ↦ ?_
    refine accepts_expect.bind fun _ _ ↦ ?_
    exact (accepts_nodeFrom start).bind fun _ _ ↦ .pure hentries
  | func signature =>
    rw [isDenotable] at htype
    simp only [words, List.length_cons] at hdepth
    refine accepts_bump.bind fun _ _ ↦ ?_
    refine (accepts_signature htype (by omega) start hrest).bind fun type hsignature ↦ ?_
    exact .pure hsignature
  | invalid => cases htype
  | tuple types => cases htype

theorem accepts_signature {signature : Signature} (h : signatureDenotable signature = true)
    {depth : Nat} (hdepth : 16 * (signatureWords signature).length < depth) (start : Nat)
    {rest : List Word} (hrest : Closes rest) :
    Accepts ((Goal.parser depth).signature start) (signatureWords signature ++ rest) rest
      (signatureReadAs signature) := by
  obtain ⟨params, results⟩ := signature
  simp only [signatureDenotable, Bool.and_eq_true] at h
  have hlength := length_signatureWords params results
  obtain ⟨depth, rfl⟩ : ∃ d, depth = d + 2 := ⟨depth - 2, by omega⟩
  change Accepts (Rule.signature (Goal.parser (depth + 1)) start) _ _ _
  have hparams (rest : List Word) :
      Accepts (Goal.parser (depth + 1)).parameters
        ((.lparen, "(") :: (listWords params ++ (.rparen, ")") :: rest)) rest
        (listReadAs params) :=
    accepts_parameters fun rest ↦ accepts_parameterEntries h.1 (by omega) rest
  match results with
  | [] =>
    simp only [signatureWords, List.cons_append, List.append_assoc]
    refine (hparams rest).bind fun params hparams ↦ ?_
    refine (accepts_isNext_of_ne (hrest.ne (by decide))).known (accepts_peek?.known ?_)
    simp only [hrest.any_startsType, Bool.false_eq_true, if_false]
    refine Accepts.known (.pure rfl) ?_
    refine (accepts_nodeFrom start).bind fun _ _ ↦ .pure ⟨hparams, ?_⟩
    rw [listReadAs]
    trivial
  | [result] =>
    simp only [signatureWords, List.cons_append, List.append_assoc, List.length_cons,
      List.length_append] at hdepth ⊢
    simp only [allDenotable, Bool.and_true] at h
    refine (hparams _).bind fun params hparams ↦ ?_
    refine (accepts_isNext_of_ne (head?_words_ne h.2 _ (by decide))).known (accepts_peek?.known ?_)
    simp only [any_startsType_words h.2, Bool.false_eq_true, if_false, if_true]
    refine (accepts_type h.2 (by omega) hrest).bind fun type htype ↦ ?_
    refine (accepts_unnamedField type).bind fun field hfield ↦ Accepts.known (.pure rfl) ?_
    refine (accepts_nodeFrom start).bind fun _ _ ↦ .pure ⟨hparams, hfield.1, ?_, ?_⟩
    · exact hfield.2 ▸ htype
    · rw [listReadAs]
      trivial
  | first :: second :: results =>
    simp only [signatureWords, List.cons_append, List.append_assoc, List.length_cons,
      List.length_append] at hdepth ⊢
    have hresults : Accepts (Goal.parser (depth + 1)).parameters
        ((.lparen, "(") :: (listWords (first :: second :: results) ++ (.rparen, ")") :: rest)) rest
        (listReadAs (first :: second :: results)) :=
      accepts_parameters fun rest ↦ accepts_parameterEntries h.2 (by omega) rest
    refine (hparams _).bind fun params hparams ↦
      accepts_isNext_cons.known (accepts_peek?.known ?_)
    simp only [if_true]
    refine hresults.bind fun fields hfields ↦ ?_
    exact (accepts_nodeFrom start).bind fun _ _ ↦ .pure ⟨hparams, hfields⟩

theorem accepts_parameterEntries {types : List Ty} (h : allDenotable types = true) {depth : Nat}
    (hdepth : 16 * (listWords types).length + 1 < depth) (rest : List Word) :
    Accepts (Goal.parser depth).parameterEntries (listWords types ++ (.rparen, ")") :: rest)
      ((.rparen, ")") :: rest) (EntriesReadAs types) := by
  obtain ⟨depth, rfl⟩ : ∃ d, depth = d + 1 := ⟨depth - 1, by omega⟩
  change Accepts (Rule.parameterEntries (Goal.parser depth)) _ _ _
  match types with
  | [] => exact (accepts_isNext .rparen).known (.pure .nil)
  | [type] =>
    simp only [allDenotable, Bool.and_true] at h
    simp only [listWords] at hdepth ⊢
    refine (accepts_isNext_of_ne (head?_words_ne h _ (by decide))).known ?_
    refine (accepts_type h (by omega) (closes_cons rfl)).bind fun first hfirst ↦ ?_
    refine (accepts_isNext .comma).known ((accepts_isNext .rparen).known ?_)
    refine Accepts.known (.pure rfl) ((accepts_eat_of_ne (by simp)).known ?_)
    exact .pure (.cons ⟨rfl, hfirst⟩ .nil)
  | type :: next :: others =>
    rw [allDenotable, Bool.and_eq_true] at h
    simp only [listWords, List.length_append, List.length_cons] at hdepth
    rw [listWords, List.append_assoc]
    refine (accepts_isNext_of_ne (head?_words_ne h.1 _ (by decide))).known ?_
    refine (accepts_type h.1 (by omega) (closes_cons rfl)).bind fun first hfirst ↦ ?_
    refine (accepts_isNext .comma).known ((accepts_isNext .rparen).known ?_)
    refine Accepts.known (.pure rfl) (accepts_eat.known ?_)
    refine (accepts_parameterEntries h.2 (by omega) rest).bind fun entries hentries ↦ ?_
    exact .pure (.cons ⟨rfl, hfirst⟩ hentries)

theorem accepts_structFields {fields : List Member} (h : fieldsDenotable fields = true)
    {depth : Nat} (hdepth : 16 * (fieldWords fields).length + 1 < depth) (rest : List Word) :
    Accepts (Goal.parser depth).structFields (fieldWords fields ++ (.rbrace, "\x7d") :: rest)
      ((.rbrace, "\x7d") :: rest) (membersReadAs fields) := by
  obtain ⟨depth, rfl⟩ : ∃ d, depth = d + 1 := ⟨depth - 1, by omega⟩
  change Accepts (Rule.structFields (Goal.parser depth)) _ _ _
  match fields with
  | [] =>
    refine accepts_isNext_cons.known (accepts_isDone.known (.pure ?_))
    rw [membersReadAs]
    trivial
  | [⟨symbol, name, isEmbedded, type⟩] =>
    simp only [fieldsDenotable, Bool.and_true, Bool.and_eq_true, Bool.not_eq_true'] at h
    simp only [fieldWords, List.length_cons] at hdepth
    obtain ⟨depth, rfl⟩ : ∃ d, depth = d + 1 := ⟨depth - 1, by omega⟩
    have hnil : Accepts (Goal.parser (depth + 1)).structFields
        (fieldWords [] ++ (.rbrace, "\x7d") :: rest) ((.rbrace, "\x7d") :: rest)
        (membersReadAs []) :=
      accepts_structFields rfl (by rw [fieldWords, List.length_nil]; omega) rest
    refine accepts_field h.2 ?_ ?_ (by simp) accepts_separator_rbrace hnil
    · exact accepts_idents depth (head?_words_ne h.2 _ (by decide))
    · exact accepts_type h.2 (by omega) (closes_cons rfl)
  | ⟨symbol, name, isEmbedded, type⟩ :: next :: others =>
    rw [fieldsDenotable] at h
    simp only [Bool.and_eq_true, Bool.not_eq_true'] at h
    simp only [fieldWords, List.length_cons, List.length_append] at hdepth
    obtain ⟨depth, rfl⟩ : ∃ d, depth = d + 1 := ⟨depth - 1, by omega⟩
    have hothers : Accepts (Goal.parser (depth + 1)).structFields
        (fieldWords (next :: others) ++ (.rbrace, "\x7d") :: rest) ((.rbrace, "\x7d") :: rest)
        (membersReadAs (next :: others)) := accepts_structFields h.2 (by omega) rest
    rw [fieldWords, List.cons_append, List.append_assoc]
    refine accepts_field h.1.2 ?_ ?_ (by simp) accepts_separator hothers
    · exact accepts_idents depth (head?_words_ne h.1.2 _ (by decide))
    · exact accepts_type h.1.2 (by omega) (closes_cons rfl)

theorem accepts_interfaceElements {methods : List Member} (h : methodsDenotable methods = true)
    {depth : Nat} (hdepth : 16 * (methodWords methods).length + 1 < depth) (rest : List Word) :
    Accepts (Goal.parser depth).interfaceElements
      (methodWords methods ++ (.rbrace, "\x7d") :: rest) ((.rbrace, "\x7d") :: rest)
      (membersReadAs methods) := by
  obtain ⟨depth, rfl⟩ : ∃ d, depth = d + 1 := ⟨depth - 1, by omega⟩
  change Accepts (Rule.interfaceElements (Goal.parser depth)) _ _ _
  match methods with
  | [] =>
    refine accepts_isNext_cons.known (accepts_isDone.known (.pure ?_))
    rw [membersReadAs]
    trivial
  | [⟨symbol, name, isEmbedded, .func signature⟩] =>
    simp only [methodsDenotable, Bool.and_true, Bool.and_eq_true] at h
    simp only [methodWords, List.length_cons] at hdepth
    have hnil : Accepts (Goal.parser depth).interfaceElements
        (methodWords [] ++ (.rbrace, "\x7d") :: rest) ((.rbrace, "\x7d") :: rest)
        (membersReadAs []) :=
      accepts_interfaceElements rfl (by rw [methodWords, List.length_nil]; omega) rest
    refine accepts_method (fun start ↦ ?_) accepts_separator_rbrace hnil
    exact accepts_signature h.2 (by omega) start (closes_cons rfl)
  | ⟨symbol, name, isEmbedded, .func signature⟩ :: next :: others =>
    rw [methodsDenotable] at h
    simp only [Bool.and_eq_true] at h
    simp only [methodWords, List.length_cons, List.length_append] at hdepth
    have hothers : Accepts (Goal.parser depth).interfaceElements
        (methodWords (next :: others) ++ (.rbrace, "\x7d") :: rest) ((.rbrace, "\x7d") :: rest)
        (membersReadAs (next :: others)) := accepts_interfaceElements h.2 (by omega) rest
    rw [methodWords, List.cons_append, List.append_assoc]
    refine accepts_method (fun start ↦ ?_) accepts_separator hothers
    exact accepts_signature h.1.2 (by omega) start (closes_cons rfl)

end

/-! ### Whole texts -/

/-- A type where an operand is wanted; one that starts with a star is no operand. -/
theorem accepts_operand (h : type.isDenotable = true)
    (hpointer : ∀ element, type ≠ .pointer element) {depth : Nat}
    (hdepth : 16 * type.words.length < depth) (hrest : Closes rest) :
    Accepts (operand (Goal.parser depth)) (type.words ++ rest) rest type.ReadAs := by
  have hrule := accepts_type h hdepth hrest
  refine accepts_start.bind fun start _ ↦ accepts_peek?.known ?_
  cases type with
  | basic kind => exact accepts_ident.bind fun ident hident ↦ .pure hident
  | named name => exact accepts_ident.bind fun ident hident ↦ .pure hident
  | slice element => exact hrule
  | array length element => exact hrule
  | map key value => exact hrule
  | struct fields => exact hrule
  | interface methods => exact hrule
  | func signature =>
    rw [isDenotable] at h
    simp only [Ty.words, List.length_cons] at hdepth
    refine accepts_bump.bind fun _ _ ↦ ?_
    refine (accepts_signature h (by omega) start hrest).bind fun type htype ↦ ?_
    exact (accepts_isNext_of_ne (hrest.ne (by decide))).known (.pure htype)
  | pointer element => exact absurd rfl (hpointer element)
  | invalid => cases h
  | tuple types => cases h

theorem accepts_unary {type : Ty} (h : type.isDenotable = true) {depth : Nat}
    (hdepth : 16 * type.words.length + 3 < depth) (hrest : Closes rest) :
    Accepts (Goal.parser depth).unary (type.words ++ rest) rest type.ReadAs := by
  obtain ⟨depth, rfl⟩ : ∃ d, depth = d + 3 := ⟨depth - 3, by omega⟩
  have hprimary (hpointer : ∀ element, type ≠ .pointer element) :
      Accepts (Goal.parser (depth + 2)).primary (type.words ++ rest) rest type.ReadAs :=
    accepts_primary hrest (accepts_operand h hpointer (by omega) hrest)
  match type with
  | .pointer element =>
    rw [isDenotable] at h
    simp only [Ty.words, List.length_cons] at hdepth
    change Accepts (Rule.unary (Goal.parser (depth + 2))) _ _ _
    refine accepts_start.bind fun start _ ↦ accepts_peek?.known (accepts_bump.bind fun _ _ ↦ ?_)
    refine (accepts_unary h (by omega) hrest).bind fun operand hoperand ↦ ?_
    exact (accepts_nodeFrom start).bind fun _ _ ↦ .pure hoperand
  | .basic kind | .named name | .slice element | .array length element | .map key value
  | .struct fields | .interface methods | .func signature =>
    exact accepts_unary_primary (by decide) rfl (hprimary (by simp))

/-- The text of a type parses as an expression of its form. -/
theorem parseExpr_text {type : Ty} (h : type.isDenotable = true) (set : FileSet) (name : String) :
    ∃ e, (set.parseExpr name type.text).2 = .ok e ∧ type.ReadAs e := by
  have hlexes : Lexes (type.text.toList ++ []) (type.words ++ []) :=
    lexes_text h (fun _ h ↦ by cases h) .nil
  rw [List.append_nil, List.append_nil] at hlexes
  refine parseExpr_of_lexes hlexes (fun {tokens final} htokens hfinal ↦ ?_) set name
  have hdepth : Goal.parserFor tokens = Goal.parser (16 * tokens + 14 + 2) := by
    rw [Goal.parserFor, Goal.depthPerToken, Nat.mul_add]
  rw [hdepth]
  exact accepts_expr hfinal (accepts_unary h (by omega) hfinal)

end Ty

end PackageAtlas
