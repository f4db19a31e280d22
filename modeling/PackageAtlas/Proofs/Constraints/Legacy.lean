import PackageAtlas.Proofs.Constraints.Headers

/-!
Legacy constraint lines. A line lists options with spaces between them, an option lists terms with
commas between them, and a term is a tag or a tag that must not hold. A file with such lines takes
part in a build exactly when the file takes part that has one line of the present form in their
place: the conjunction of the lines, each the disjunction of its options, each the conjunction of
its terms (`matchesHeader_legacy`). The legacy evaluator cuts texts at white space and commas; the
other one reads a formula. Both say the truth of that formula.
-/

set_option autoImplicit false
set_option relaxedAutoImplicit false

namespace PackageAtlas

/-! ### Words of a text -/

namespace Text

theorem words_append_cons {c : Char} (hc : isBlank c = true) (before after : List Char) :
    words (before ++ c :: after) = words before ++ words after := by
  rw [words, splitAt_append_cons hc, List.filter_append]
  rfl

theorem words_of_forall_blank {blanks : List Char} (h : ∀ c ∈ blanks, isBlank c = true) :
    words blanks = [] := by
  induction blanks with
  | nil => rfl
  | cons c rest ih =>
    obtain ⟨hc, hrest⟩ := List.forall_mem_cons.1 h
    rw [← List.nil_append (c :: rest), words_append_cons hc, ih hrest]
    rfl

theorem words_trimStart (text : List Char) : words (trimStart text) = words text := by
  induction text with
  | nil => rfl
  | cons c rest ih =>
    by_cases hc : isBlank c = true
    · rw [trimStart, List.dropWhile_cons_of_pos hc]
      exact ih.trans (words_append_cons hc [] rest).symm
    · rw [trimStart, List.dropWhile_cons_of_neg hc]

theorem words_trimEnd (text : List Char) : words (trimEnd text) = words text := by
  obtain ⟨blanks, htext, hblanks⟩ := exists_trimEnd text
  conv => rhs; rw [htext]
  cases blanks with
  | nil => rw [List.append_nil]
  | cons c rest =>
    obtain ⟨hc, hrest⟩ := List.forall_mem_cons.1 hblanks
    rw [words_append_cons hc, words_of_forall_blank hrest, List.append_nil]

/-- White space at the ends of a text is in no word. -/
theorem words_trim (text : List Char) : words (trim text) = words text :=
  (words_trimEnd _).trans (words_trimStart text)

end Text

open Text Constraint

/-! ### Rows -/

/-- A list with at least one item. -/
structure Row (α : Type) where
  first : α
  others : List α

namespace Row

variable {α : Type}

def toList (row : Row α) : List α := row.first :: row.others

/-- The texts of the items, with a separator between them. -/
def text (separator : List Char) (item : α → List Char) (row : Row α) : List Char :=
  item row.first ++ row.others.flatMap fun a ↦ separator ++ item a

/-- The tokens of the items, with a sign between them. -/
def tokens (sign : Constraint.Token) (item : α → List Constraint.Token) (row : Row α) :
    List Constraint.Token :=
  item row.first ++ row.others.flatMap fun a ↦ sign :: item a

/-- The formulas of the items, joined from the left. -/
def formula (join : Constraint → Constraint → Constraint) (item : α → Constraint)
    (row : Row α) : Constraint :=
  row.others.foldl (fun f a ↦ join f (item a)) (item row.first)

theorem mem_text {separator : List Char} {item : α → List Char} {row : Row α} {c : Char}
    (h : c ∈ row.text separator item) : c ∈ separator ∨ ∃ a ∈ row.toList, c ∈ item a := by
  rcases List.mem_append.1 h with hfirst | hothers
  · exact .inr ⟨row.first, List.mem_cons_self, hfirst⟩
  · obtain ⟨a, ha, hc⟩ := List.mem_flatMap.1 hothers
    exact (List.mem_append.1 hc).imp_right fun hc ↦ ⟨a, List.mem_cons_of_mem _ ha, hc⟩

/-- What is written with a separator between the items is cut into them. -/
theorem splitAt_text {test : Char → Bool} {separator : Char} (hseparator : test separator = true)
    {item : α → List Char} {row : Row α}
    (h : ∀ a ∈ row.toList, ∀ c ∈ item a, test c = false) :
    splitAt test (row.text [separator] item) = row.toList.map item := by
  obtain ⟨first, others⟩ := row
  induction others generalizing first with
  | nil =>
    rw [text, List.flatMap_nil, List.append_nil]
    exact splitAt_of_forall (h first List.mem_cons_self)
  | cons next others ih =>
    obtain ⟨hfirst, hothers⟩ := List.forall_mem_cons.1 h
    have htext : (⟨first, next :: others⟩ : Row α).text [separator] item =
        item first ++ separator :: (⟨next, others⟩ : Row α).text [separator] item := by
      rw [text, List.flatMap_cons, List.append_assoc]
      rfl
    rw [htext, splitAt_append_cons hseparator, splitAt_of_forall hfirst, ih next hothers]
    rfl

theorem getLast?_text {separator : List Char} {item : α → List Char} {c : Char}
    (h : ∀ a, (item a).getLast? = some c) (row : Row α) :
    (row.text separator item).getLast? = some c := by
  rcases List.eq_nil_or_concat row.others with hothers | ⟨others, last, hothers⟩
  · rw [text, hothers, List.flatMap_nil, List.append_nil, h]
  · rw [text, hothers, List.concat_eq_append, List.flatMap_append, List.flatMap_singleton]
    simp only [List.getLast?_append, h, Option.some_or]

theorem holds_and (satisfied : String → Bool) (item : α → Constraint) (row : Row α) :
    (row.formula .and item).holds satisfied =
      row.toList.all fun a ↦ (item a).holds satisfied := by
  have hfold (others : List α) (f : Constraint) :
      (others.foldl (fun f a ↦ .and f (item a)) f).holds satisfied =
        (f.holds satisfied && others.all fun a ↦ (item a).holds satisfied) := by
    induction others generalizing f with
    | nil => exact (Bool.and_true _).symm
    | cons a others ih => rw [List.foldl_cons, ih, List.all_cons, ← Bool.and_assoc]; rfl
  exact hfold row.others (item row.first)

theorem holds_or (satisfied : String → Bool) (item : α → Constraint) (row : Row α) :
    (row.formula .or item).holds satisfied =
      row.toList.any fun a ↦ (item a).holds satisfied := by
  have hfold (others : List α) (f : Constraint) :
      (others.foldl (fun f a ↦ .or f (item a)) f).holds satisfied =
        (f.holds satisfied || others.any fun a ↦ (item a).holds satisfied) := by
    induction others generalizing f with
    | nil => exact (Bool.or_false _).symm
    | cons a others ih => rw [List.foldl_cons, ih, List.any_cons, ← Bool.or_assoc]; rfl
  exact hfold row.others (item row.first)

/-- A rule that takes one formula of another rule, and more of them behind a sign, derives rows. -/
theorem derives {single rule : Nonterminal} {sign : Constraint.Token}
    {join : Constraint → Constraint → Constraint}
    (hone : ∀ {ts f}, Derives single ts f → Derives rule ts f)
    (hmore : ∀ {ts us f g}, Derives rule ts f → Derives single us g →
      Derives rule (ts ++ sign :: us) (join f g))
    {tokensOf : α → List Constraint.Token} {item : α → Constraint}
    (h : ∀ a, Derives single (tokensOf a) (item a)) (row : Row α) :
    Derives rule (row.tokens sign tokensOf) (row.formula join item) := by
  have hfold (others : List α) {ts : List Constraint.Token} {f : Constraint}
      (hf : Derives rule ts f) :
      Derives rule (ts ++ others.flatMap fun a ↦ sign :: tokensOf a)
        (others.foldl (fun f a ↦ join f (item a)) f) := by
    induction others generalizing ts f with
    | nil => rwa [List.flatMap_nil, List.append_nil]
    | cons a others ih =>
      rw [List.flatMap_cons, ← List.append_assoc]
      exact ih (hmore hf (h a))
  exact hfold row.others (hone (h row.first))

end Row

/-- What spells tokens is on one line. -/
theorem Constraint.Spells.no_newline {text : List Char} {tokens : List Constraint.Token}
    (h : Spells text tokens) : '\n' ∉ text := by
  induction h with
  | nil => exact List.not_mem_nil
  | blank hc _ ih =>
    refine fun hmem ↦ (List.mem_cons.1 hmem).elim ?_ ih
    rcases hc with rfl | rfl <;> decide
  | mark hmark _ ih =>
    refine fun hmem ↦ (List.mem_append.1 hmem).elim ?_ ih
    cases hmark <;> decide
  | tag _ hname _ _ ih =>
    refine fun hmem ↦ (List.mem_append.1 hmem).elim (fun hin ↦ ?_) ih
    exact absurd (hname _ hin) (by decide)

/-- Characters spell tokens whatever follows them, unless it goes on with a tag. -/
def SpellsBefore (text : List Char) (tokens : List Constraint.Token) : Prop :=
  ∀ ⦃rest ts⦄, (∀ c ∈ rest.head?, isTagPart c = false) → Spells rest ts →
    Spells (text ++ rest) (tokens ++ ts)

namespace SpellsBefore

theorem spells {text : List Char} {tokens : List Constraint.Token} (h : SpellsBefore text tokens) :
    Spells text tokens := by
  have hspells := @h [] [] (fun c hc ↦ by cases hc) .nil
  rwa [List.append_nil, List.append_nil] at hspells

/-- A row that is written with spaces around the signs between its items. -/
theorem row {α : Type} {mark : List Char} {sign : Constraint.Token} (hmark : IsMark mark sign)
    {item : α → List Char} {tokensOf : α → List Constraint.Token}
    (h : ∀ a, SpellsBefore (item a) (tokensOf a)) (row : Row α) :
    SpellsBefore (row.text (' ' :: (mark ++ [' '])) item) (row.tokens sign tokensOf) := by
  intro rest ts hrest hts
  have hothers (others : List α) :
      (∀ c ∈ ((others.flatMap fun a ↦ ' ' :: (mark ++ [' ']) ++ item a) ++ rest).head?,
        isTagPart c = false) ∧
      Spells ((others.flatMap fun a ↦ ' ' :: (mark ++ [' ']) ++ item a) ++ rest)
        ((others.flatMap fun a ↦ sign :: tokensOf a) ++ ts) := by
    induction others with
    | nil => exact ⟨hrest, hts⟩
    | cons a others ih =>
      refine ⟨?_, ?_⟩
      · rintro c ⟨⟩
        decide
      · have hitem := Spells.blank (.inl rfl) (.mark hmark (.blank (.inl rfl) (h a ih.1 ih.2)))
        simpa using hitem
  obtain ⟨hhead, hspells⟩ := hothers row.others
  have hrow := h row.first hhead hspells
  rwa [← List.append_assoc, ← List.append_assoc] at hrow

theorem paren {text : List Char} {tokens : List Constraint.Token} (h : SpellsBefore text tokens) :
    SpellsBefore ('(' :: (text ++ [')'])) (.lparen :: (tokens ++ [.rparen])) := by
  intro rest ts _ hts
  have hclose : ∀ c ∈ (')' :: rest).head?, isTagPart c = false := by
    rintro c ⟨⟩
    decide
  have hparen := Spells.mark .lparen (h hclose (.mark .rparen hts))
  simpa using hparen

end SpellsBefore

/-! ### Terms, options and lines -/

/-- A term of a legacy line: a tag, or a tag that must not hold. -/
structure LegacyTerm where
  isNegated : Bool
  tag : String
  isTag : IsTag tag

namespace LegacyTerm

def text (term : LegacyTerm) : List Char :=
  if term.isNegated then '!' :: term.tag.toList else term.tag.toList

def tokens (term : LegacyTerm) : List Constraint.Token :=
  if term.isNegated then [.not, .tag term.tag] else [.tag term.tag]

def formula (term : LegacyTerm) : Constraint :=
  if term.isNegated then .not (.tag term.tag) else .tag term.tag

variable (term : LegacyTerm)

theorem tag_ne_nil : term.tag.toList ≠ [] :=
  fun h ↦ term.isTag.1 (String.toList_eq_nil_iff.1 h)

theorem text_ne_nil : term.text ≠ [] := by
  unfold text
  split
  · exact List.cons_ne_nil _ _
  · exact term.tag_ne_nil

theorem mem_text {c : Char} (h : c ∈ term.text) : c = '!' ∨ isTagPart c = true := by
  unfold text at h
  split at h
  · exact (List.mem_cons.1 h).imp_right (term.isTag.2 c)
  · exact .inr (term.isTag.2 c h)

theorem spells : SpellsBefore term.text term.tokens := by
  intro rest ts hrest hts
  have htag := Spells.tag term.isTag.1 term.isTag.2 hrest hts
  have hnot := Spells.mark .not htag
  unfold text tokens
  split
  · exact hnot
  · exact htag

theorem derives : Derives .operand term.tokens term.formula := by
  unfold tokens formula
  split
  · exact .not (.tag _)
  · exact .tag _

theorem holds_formula (satisfied : String → Bool) :
    term.formula.holds satisfied = (term.isNegated ^^ satisfied term.tag) := by
  cases hsign : term.isNegated with
  | false => rw [formula, hsign, Bool.false_xor]; rfl
  | true => rw [formula, hsign, Bool.true_xor]; rfl

theorem matchesTerm_text (context : BuildContext) :
    context.matchesTerm term.text = term.formula.holds context.matchesTag := by
  unfold text formula
  split
  · have hne : term.tag.toList.isEmpty = false := List.isEmpty_eq_false_iff.2 term.tag_ne_nil
    rw [BuildContext.matchesTerm, hne, String.ofList_toList]
    rfl
  · -- a tag does not start with the sign of a negation
    rw [BuildContext.matchesTerm, String.ofList_toList]
    · rfl
    · intro tag htag
      have hsign := term.isTag.2 '!' (htag ▸ List.mem_cons_self)
      exact absurd hsign (by decide)

end LegacyTerm

/-- Terms that must all hold. -/
abbrev LegacyOption := Row LegacyTerm

namespace LegacyOption

/-- An option as it stands in a legacy line. -/
def text (option : LegacyOption) : List Char := Row.text [','] LegacyTerm.text option

/-- The conjunction of the terms, as it is written in a formula. -/
def conjunction (option : LegacyOption) : List Char := Row.text " && ".toList LegacyTerm.text option

def tokens (option : LegacyOption) : List Constraint.Token :=
  Row.tokens .and LegacyTerm.tokens option

def formula (option : LegacyOption) : Constraint := Row.formula .and LegacyTerm.formula option

variable (option : LegacyOption)

theorem text_ne_nil : option.text ≠ [] :=
  List.append_ne_nil_of_left_ne_nil option.first.text_ne_nil _

theorem mem_text {c : Char} (h : c ∈ option.text) : c ∈ [',', '!'] ∨ isTagPart c = true := by
  rcases Row.mem_text h with hcomma | ⟨term, -, hterm⟩
  · exact .inl (List.mem_append_left ['!'] hcomma)
  · refine (term.mem_text hterm).imp_left ?_
    rintro rfl
    decide

theorem isBlank_of_mem_text {c : Char} (h : c ∈ option.text) : isBlank c = false := by
  rcases option.mem_text h with hsign | htag
  · simp only [List.mem_cons, List.not_mem_nil, or_false] at hsign
    rcases hsign with rfl | rfl <;> decide
  · exact isBlank_of_isTagPart htag

theorem spells : SpellsBefore option.conjunction option.tokens :=
  SpellsBefore.row .and LegacyTerm.spells option

theorem derives : Derives .conjuncts option.tokens option.formula :=
  Row.derives .conjunct .and LegacyTerm.derives option

theorem holds_text (context : BuildContext) :
    (splitOn ',' option.text).all context.matchesTerm =
      option.formula.holds context.matchesTag := by
  have hsplit : splitOn ',' option.text = option.toList.map LegacyTerm.text := by
    refine Row.splitAt_text ?_ fun term _ c hc ↦ ?_
    · decide
    refine beq_eq_false_iff_ne.2 fun heq ↦ ?_
    subst heq
    exact (term.mem_text hc).elim (by decide) (by decide)
  rw [hsplit, List.all_map, formula, Row.holds_and]
  exact List.all_congr rfl fun term ↦ term.matchesTerm_text context

end LegacyOption

/-- Options one of which must hold. -/
abbrev LegacyLine := Row LegacyOption

namespace LegacyLine

/-- A line as it stands behind its mark. -/
def text (line : LegacyLine) : List Char := Row.text [' '] LegacyOption.text line

/-- The disjunction of the options, as it is written in a formula. -/
def disjunction (line : LegacyLine) : List Char :=
  Row.text " || ".toList LegacyOption.conjunction line

def tokens (line : LegacyLine) : List Constraint.Token := Row.tokens .or LegacyOption.tokens line

def formula (line : LegacyLine) : Constraint := Row.formula .or LegacyOption.formula line

variable (line : LegacyLine)

theorem no_newline : '\n' ∉ line.text := by
  intro h
  rcases Row.mem_text h with hspace | ⟨option, -, hoption⟩
  · exact absurd hspace (by decide)
  · exact absurd (option.isBlank_of_mem_text hoption) (by decide)

theorem spells : SpellsBefore line.disjunction line.tokens :=
  SpellsBefore.row .or LegacyOption.spells line

theorem derives : Derives .alternatives line.tokens line.formula :=
  Row.derives .alternative .or LegacyOption.derives line

/-- A line holds when its formula does, with or without white space around it. -/
theorem matchesLegacy_trim (context : BuildContext) :
    context.matchesLegacy (trim line.text) = line.formula.holds context.matchesTag := by
  have hwords : words (trim line.text) = line.toList.map LegacyOption.text := by
    have hsplit : splitAt isBlank line.text = line.toList.map LegacyOption.text :=
      Row.splitAt_text (by decide) fun option _ _ hc ↦ option.isBlank_of_mem_text hc
    rw [words_trim, words, hsplit, List.filter_eq_self]
    intro word hword
    obtain ⟨option, -, rfl⟩ := List.mem_map.1 hword
    exact decide_eq_true option.text_ne_nil
  rw [BuildContext.matchesLegacy, hwords, List.any_map, formula, Row.holds_or]
  exact List.any_congr rfl fun option ↦ option.holds_text context

end LegacyLine

/-! ### Blocks of lines -/

/-- Lines that must all hold. -/
abbrev LegacyBlock := Row LegacyLine

namespace LegacyBlock

/-- The lines with their marks, each to its end. -/
def text (block : LegacyBlock) : List Char :=
  block.toList.flatMap fun line ↦ "// +build ".toList ++ line.text ++ ['\n']

/-- The conjunction of the lines, each in parentheses. -/
def conjunction (block : LegacyBlock) : List Char :=
  Row.text " && ".toList (fun line ↦ '(' :: (line.disjunction ++ [')'])) block

def tokens (block : LegacyBlock) : List Constraint.Token :=
  Row.tokens .and (fun line ↦ .lparen :: (line.tokens ++ [.rparen])) block

def formula (block : LegacyBlock) : Constraint := Row.formula .and LegacyLine.formula block

variable (block : LegacyBlock)

theorem spells : Spells block.conjunction block.tokens :=
  (SpellsBefore.row .and (fun line : LegacyLine ↦ line.spells.paren) block).spells

theorem derives : Derives .alternatives block.tokens block.formula :=
  .alternative (Row.derives .conjunct .and (fun line : LegacyLine ↦ .paren line.derives) block)

/-- The parentheses around the first line and the last one are the ends of the conjunction. -/
theorem trim_conjunction : trim block.conjunction = block.conjunction := by
  have hparen : isBlank '(' = false ∧ isBlank ')' = false := by decide
  have hclose (line : LegacyLine) : ('(' :: (line.disjunction ++ [')'])).getLast? = some ')' :=
    List.getLast?_concat (l := '(' :: line.disjunction)
  have hlast : block.conjunction.getLast? = some ')' := Row.getLast?_text hclose block
  refine trim_eq_self (fun c hc ↦ ?_) fun c hc ↦ ?_
  · cases hc
    exact hparen.1
  · rw [hlast] at hc
    cases hc
    exact hparen.2

end LegacyBlock

/-! ### Headers -/

/-- A line of the legacy form in front of the other lines of a header. -/
theorem Header.ofLines_legacy (words : List Char) (others : List (List Char)) :
    ofLines false (trim ("// +build ".toList ++ words) :: others) =
      { ofLines false others with legacy := trim words :: (ofLines false others).legacy } := by
  have htrim : trim ("// +build ".toList ++ words) =
      '/' :: '/' :: ' ' :: ("+build".toList ++ trimEnd (' ' :: words)) :=
    trimEnd_append_cons "// +buil".toList (' ' :: words) (c := 'd') (by decide)
  have hformula : formulaLine? (' ' :: ("+build".toList ++ trimEnd (' ' :: words))) = none := rfl
  have hwords : trim (trimEnd (' ' :: words)) = trim words := by
    rw [trim_trimEnd, trim_cons_of_blank (by decide)]
  have hlegacy : legacyLine? (' ' :: ("+build".toList ++ trimEnd (' ' :: words))) =
      some (trim words) := by
    have hstart : trimStart (' ' :: ("+build".toList ++ trimEnd (' ' :: words))) =
        "+build".toList ++ trimEnd (' ' :: words) := rfl
    rw [legacyLine?, hstart, dropStart?_eq_some_iff.2 rfl, ← hwords]
    cases hend : trimEnd (' ' :: words) with
    | nil => rfl
    | cons c rest =>
      -- what is left of a text that starts with a space starts with it
      obtain ⟨blanks, htext, -⟩ := exists_trimEnd (' ' :: words)
      rw [hend] at htext
      cases htext
      rfl
  rw [htrim, ofLines, consComment, hformula, hlegacy]

/-- The header of a file that starts with a block has its lines, if the rest of the file has
none. -/
theorem LegacyBlock.header (block : LegacyBlock) {rest : String}
    (hrest : Header.ofText rest = ⟨none, []⟩) :
    Header.ofText (String.ofList (block.text ++ rest.toList)) =
      ⟨none, block.toList.map fun line ↦ trim line.text⟩ := by
  unfold LegacyBlock.text
  induction block.toList with
  | nil => rwa [List.flatMap_nil, List.nil_append, String.ofList_toList]
  | cons line others ih =>
    have hline : '\n' ∉ "// +build ".toList ++ line.text := by
      rw [List.mem_append]
      exact not_or.2 ⟨by decide, line.no_newline⟩
    rw [Header.ofText, String.toList_ofList] at ih ⊢
    rw [List.flatMap_cons, List.append_assoc, List.append_assoc, List.singleton_append, lines,
      splitOn_append_cons, splitOn_of_not_mem hline, List.singleton_append, List.map_cons,
      Header.ofLines_legacy]
    rw [lines] at ih
    rw [ih]
    rfl

/-! ### Files that take part -/

namespace BuildContext

/-- A file that starts with legacy lines, and has no constraint lines after them, takes part exactly
when the file does that has the conjunction of the lines in their place; and both do exactly when
the formula holds. It may be written in any other way from which the formula is derived. -/
theorem matchesHeader_legacy (context : BuildContext) (block : LegacyBlock) {rest : String}
    (hrest : Header.ofText rest = ⟨none, []⟩) :
    let formulaFile (words : List Char) : String :=
      String.ofList ("//go:build ".toList ++ words ++ '\n' :: rest.toList)
    let legacyFile : String := String.ofList (block.text ++ rest.toList)
    context.matchesHeader legacyFile = context.matchesHeader (formulaFile block.conjunction) ∧
    context.matchesHeader legacyFile = (block.toList.all fun line ↦ line.toList.any fun option ↦
      option.toList.all fun term ↦ term.isNegated ^^ context.matchesTag term.tag) ∧
    ∀ words ts, '\n' ∉ words → Spells (trim words) ts → Derives .alternatives ts block.formula →
      context.matchesHeader legacyFile = context.matchesHeader (formulaFile words) := by
  intro formulaFile legacyFile
  have hlegacy : context.matchesHeader legacyFile = block.formula.holds context.matchesTag := by
    rw [matchesHeader, block.header hrest]
    dsimp only
    rw [List.all_map, LegacyBlock.formula, Row.holds_and]
    exact List.all_congr rfl fun line ↦ line.matchesLegacy_trim context
  have hformula {words : List Char} {ts : List Constraint.Token} (hwords : '\n' ∉ words)
      (hts : Spells (trim words) ts) (hf : Derives .alternatives ts block.formula) :
      context.matchesHeader (formulaFile words) = block.formula.holds context.matchesTag := by
    have hopens : Header.Opens (formulaFile words) words :=
      ⟨hwords, '\n' :: rest.toList, String.toList_ofList, by rintro c ⟨⟩; rfl⟩
    rw [matchesHeader, hopens.formula]
    dsimp only
    rw [parse?_eq_some_iff.2 ⟨ts, hts, hf⟩]
    rfl
  refine ⟨?_, ?_, fun words ts hwords hts hf ↦ hlegacy.trans (hformula hwords hts hf).symm⟩
  · have hspells : Spells (trim block.conjunction) block.tokens :=
      block.trim_conjunction.symm ▸ block.spells
    exact hlegacy.trans (hformula block.spells.no_newline hspells block.derives).symm
  · rw [hlegacy, LegacyBlock.formula, Row.holds_and]
    refine List.all_congr rfl fun line ↦ ?_
    rw [LegacyLine.formula, Row.holds_or]
    refine List.any_congr rfl fun option ↦ ?_
    rw [LegacyOption.formula, Row.holds_and]
    exact List.all_congr rfl fun term ↦ term.holds_formula _

/-- Two lines, the first of two options and the second of two terms, one of them negated. -/
theorem matchesHeader_legacy_twoLines :
    let context : BuildContext := ⟨"linux", "amd64", ["b_1"], false⟩
    let ios : LegacyTerm := ⟨false, "ios", by decide⟩
    let tag : LegacyTerm := ⟨false, "b_1", by decide⟩
    let noForeign : LegacyTerm := ⟨true, "cgo", by decide⟩
    let block : LegacyBlock := ⟨⟨⟨ios, []⟩, [⟨tag, []⟩]⟩, [⟨⟨noForeign, [tag]⟩, []⟩]⟩
    let rest := "\npackage x\n"
    block.text = "// +build ios b_1\n// +build !cgo,b_1\n".toList ∧
    block.conjunction = "(ios || b_1) && (!cgo && b_1)".toList ∧
    Header.ofText rest = ⟨none, []⟩ ∧
    context.matchesHeader (String.ofList (block.text ++ rest.toList)) = context.matchesHeader
      (String.ofList ("//go:build ".toList ++ block.conjunction ++ '\n' :: rest.toList)) := by
  intro context ios tag noForeign block rest
  have hrest : Header.ofText rest = ⟨none, []⟩ := by decide
  exact ⟨by decide, by decide, hrest, (matchesHeader_legacy context block hrest).1⟩

end BuildContext

end PackageAtlas
