import PackageAtlas.Build.Constraint

/-!
The grammar of build constraints. What characters spell which tokens (`Spells`) and which tokens
derive which formula (`Derives`) is said without the reader: alternatives of conjuncts, both grouped
to the left, and negations, parentheses and tags below them. The reader accepts exactly what the
grammar derives (`parse?_eq_some_iff`), so that a text has one formula at most.
-/

set_option autoImplicit false
set_option relaxedAutoImplicit false

namespace PackageAtlas.Constraint

/-! ### Tokens -/

/-- The marks among the tokens, as they are written. -/
inductive IsMark : List Char → Token → Prop
  | not : IsMark ['!'] .not
  | and : IsMark ['&', '&'] .and
  | or : IsMark ['|', '|'] .or
  | lparen : IsMark ['('] .lparen
  | rparen : IsMark [')'] .rparen

/-- Characters that spell tokens, with spaces and tabs between them. A tag goes on as far as it
can. -/
inductive Spells : List Char → List Token → Prop
  | nil : Spells [] []
  | blank {c : Char} {rest : List Char} {ts : List Token} (hc : c = ' ' ∨ c = '\t')
    (h : Spells rest ts) : Spells (c :: rest) ts
  | mark {mark rest : List Char} {t : Token} {ts : List Token} (hmark : IsMark mark t)
    (h : Spells rest ts) : Spells (mark ++ rest) (t :: ts)
  | tag {name : String} {rest : List Char} {ts : List Token} (hne : name ≠ "")
    (hname : ∀ c ∈ name.toList, isTagPart c = true) (hrest : ∀ c ∈ rest.head?, isTagPart c = false)
    (h : Spells rest ts) : Spells (name.toList ++ rest) (.tag name :: ts)

/-- A tag and what follows it are read off by their characters. -/
theorem tokens?_tag {c : Char} {cs rest : List Char} (hc : isTagPart c = true)
    (hcs : ∀ d ∈ cs, isTagPart d = true) (hrest : ∀ d ∈ rest.head?, isTagPart d = false) :
    tokens? (c :: (cs ++ rest)) = (tokens? rest).map (.tag (String.ofList (c :: cs)) :: ·) := by
  have htake : (cs ++ rest).takeWhile isTagPart = cs := by
    rw [List.takeWhile_append_of_pos hcs]
    cases rest with
    | nil => simp
    | cons d rest => simp [hrest d rfl]
  have hdrop : (cs ++ rest).dropWhile isTagPart = rest := by
    rw [List.dropWhile_append_of_pos hcs]
    cases rest with
    | nil => rfl
    | cons d rest => simp [hrest d rfl]
  have hmark : ∀ d ∈ [' ', '\t', '!', '(', ')', '&', '|'], c ≠ d := by
    rintro d hd rfl
    simp only [List.mem_cons, List.not_mem_nil, or_false] at hd
    rcases hd with rfl | rfl | rfl | rfl | rfl | rfl | rfl <;> exact absurd hc (by decide)
  simp only [List.forall_mem_cons] at hmark
  rw [tokens?]
  · rw [if_pos hc, htake, hdrop]
  all_goals grind

/-- The characters of tokens are cut into them. -/
theorem tokens?_of_spells {cs : List Char} {ts : List Token} (h : Spells cs ts) :
    tokens? cs = some ts := by
  induction h with
  | nil => rw [tokens?]
  | blank hc h ih => rcases hc with rfl | rfl <;> rw [tokens?, ih]
  | mark hmark h ih => cases hmark <;> simp only [List.cons_append, List.nil_append] <;>
      rw [tokens?, ih] <;> rfl
  | @tag name rest ts hne hname hrest h ih =>
    cases hlist : name.toList with
    | nil => exact absurd (String.toList_eq_nil_iff.1 hlist) hne
    | cons c cs =>
      rw [hlist] at hname
      obtain ⟨hc, hcs⟩ := List.forall_mem_cons.1 hname
      rw [List.cons_append, tokens?_tag hc hcs hrest, ih, ← hlist, String.ofList_toList]
      rfl

theorem spells_of_tokens? {cs : List Char} {ts : List Token} (h : tokens? cs = some ts) :
    Spells cs ts := by
  fun_induction tokens? cs generalizing ts with
  | case1 => cases h; exact .nil
  | case2 rest ih => exact .blank (.inl rfl) (ih h)
  | case3 rest ih => exact .blank (.inr rfl) (ih h)
  | case4 rest ih =>
    obtain ⟨us, hus, rfl⟩ := Option.map_eq_some_iff.1 h
    exact .mark .not (ih hus)
  | case5 rest ih =>
    obtain ⟨us, hus, rfl⟩ := Option.map_eq_some_iff.1 h
    exact .mark .lparen (ih hus)
  | case6 rest ih =>
    obtain ⟨us, hus, rfl⟩ := Option.map_eq_some_iff.1 h
    exact .mark .rparen (ih hus)
  | case7 rest ih =>
    obtain ⟨us, hus, rfl⟩ := Option.map_eq_some_iff.1 h
    exact .mark .and (ih hus)
  | case8 rest ih =>
    obtain ⟨us, hus, rfl⟩ := Option.map_eq_some_iff.1 h
    exact .mark .or (ih hus)
  | case9 c rest _ _ _ _ _ _ _ hc name =>
    rename_i ih
    obtain ⟨us, hus, rfl⟩ := Option.map_eq_some_iff.1 h
    have hname : name.toList = c :: rest.takeWhile isTagPart := String.toList_ofList
    have hchars : c :: rest = name.toList ++ rest.dropWhile isTagPart := by
      rw [hname, List.cons_append, List.takeWhile_append_dropWhile]
    rw [hchars]
    refine .tag ?_ ?_ ?_ (ih hus)
    · exact fun hempty ↦ List.cons_ne_nil _ _ (String.ofList_eq_empty_iff.1 hempty)
    · rw [hname]
      exact List.forall_mem_cons.2 ⟨hc, List.all_eq_true.1 List.all_takeWhile⟩
    · intro d hd
      have hnot := List.head?_dropWhile_not isTagPart rest
      rwa [Option.mem_def.1 hd] at hnot
  | case10 => cases h

/-- Cutting a text into tokens finds exactly the tokens that it spells. -/
theorem tokens?_eq_some_iff {cs : List Char} {ts : List Token} :
    tokens? cs = some ts ↔ Spells cs ts :=
  ⟨spells_of_tokens?, tokens?_of_spells⟩

/-! ### Formulas -/

/-- The rules of the grammar. -/
inductive Nonterminal where
  | alternatives
  | conjuncts
  | operand
deriving DecidableEq

/-- The formulas that tokens derive by a rule. -/
inductive Derives : Nonterminal → List Token → Constraint → Prop
  | alternative {ts : List Token} {f : Constraint} (h : Derives .conjuncts ts f) :
    Derives .alternatives ts f
  | or {ts us : List Token} {f g : Constraint} (hleft : Derives .alternatives ts f)
    (hright : Derives .conjuncts us g) : Derives .alternatives (ts ++ .or :: us) (.or f g)
  | conjunct {ts : List Token} {f : Constraint} (h : Derives .operand ts f) :
    Derives .conjuncts ts f
  | and {ts us : List Token} {f g : Constraint} (hleft : Derives .conjuncts ts f)
    (hright : Derives .operand us g) : Derives .conjuncts (ts ++ .and :: us) (.and f g)
  | not {ts : List Token} {f : Constraint} (h : Derives .operand ts f) :
    Derives .operand (.not :: ts) (.not f)
  | paren {ts : List Token} {f : Constraint} (h : Derives .alternatives ts f) :
    Derives .operand (.lparen :: (ts ++ [.rparen])) f
  | tag (name : String) : Derives .operand [.tag name] (.tag name)

/-! #### What is read is derived -/

/-- Nothing goes on with a formula that no sign of its rule follows. -/
theorem orRest?_stop {f : Constraint} {rest : List Token} (h : rest.head? ≠ some .or) {depth : Nat}
    (hdepth : 1 ≤ depth) : orRest? depth f rest = some (f, rest) := by
  obtain ⟨depth, rfl⟩ := Nat.exists_eq_add_of_le' hdepth
  match rest, h with
  | [], _ => rw [orRest?]; simp
  | t :: rest, h =>
    rw [orRest?]
    rintro us ⟨rfl, -⟩
    exact h rfl

theorem andRest?_stop {f : Constraint} {rest : List Token} (h : rest.head? ≠ some .and) {depth : Nat}
    (hdepth : 1 ≤ depth) : andRest? depth f rest = some (f, rest) := by
  obtain ⟨depth, rfl⟩ := Nat.exists_eq_add_of_le' hdepth
  match rest, h with
  | [], _ => rw [andRest?]; simp
  | t :: rest, h =>
    rw [andRest?]
    rintro us ⟨rfl, -⟩
    exact h rfl

/-- A reader of formulas finds what a rule derives from the tokens that it takes. -/
def ReadsBy (rule : Nonterminal) (read : List Token → Option (Constraint × List Token)) : Prop :=
  ∀ ⦃ts f rest⦄, read ts = some (f, rest) → ∃ us, ts = us ++ rest ∧ Derives rule us f

/-- A reader that goes on with a formula finds what a rule derives from the tokens of the formula and
those that it takes. -/
def GoesOnBy (rule : Nonterminal)
    (read : Constraint → List Token → Option (Constraint × List Token)) : Prop :=
  ∀ ⦃left ts f rest⦄, read left ts = some (f, rest) →
    ∃ us, ts = us ++ rest ∧ ∀ vs, Derives rule vs left → Derives rule (vs ++ us) f

/-- All readers at a depth find what their rules derive. -/
structure SoundAt (depth : Nat) : Prop where
  orExpr : ReadsBy .alternatives (orExpr? depth)
  orRest : GoesOnBy .alternatives (orRest? depth)
  andExpr : ReadsBy .conjuncts (andExpr? depth)
  andRest : GoesOnBy .conjuncts (andRest? depth)
  notExpr : ReadsBy .operand (notExpr? depth)

section Sound

variable {depth : Nat} (h : SoundAt depth)
include h

theorem readsBy_orExpr? : ReadsBy .alternatives (orExpr? (depth + 1)) := by
  intro ts f rest hread
  rw [orExpr?] at hread
  obtain ⟨⟨left, middle⟩, hleft, hright⟩ := Option.bind_eq_some_iff.1 hread
  obtain ⟨us, rfl, hus⟩ := h.andExpr hleft
  obtain ⟨vs, rfl, hvs⟩ := h.orRest hright
  exact ⟨us ++ vs, (List.append_assoc ..).symm, hvs us (.alternative hus)⟩

theorem readsBy_andExpr? : ReadsBy .conjuncts (andExpr? (depth + 1)) := by
  intro ts f rest hread
  rw [andExpr?] at hread
  obtain ⟨⟨left, middle⟩, hleft, hright⟩ := Option.bind_eq_some_iff.1 hread
  obtain ⟨us, rfl, hus⟩ := h.notExpr hleft
  obtain ⟨vs, rfl, hvs⟩ := h.andRest hright
  exact ⟨us ++ vs, (List.append_assoc ..).symm, hvs us (.conjunct hus)⟩

theorem goesOnBy_orRest? : GoesOnBy .alternatives (orRest? (depth + 1)) := by
  intro left ts f rest hread
  by_cases hsign : ts.head? = some .or
  · obtain ⟨ts, rfl⟩ := List.head?_eq_some_iff.1 hsign
    rw [orRest?] at hread
    obtain ⟨⟨right, middle⟩, hright, hmore⟩ := Option.bind_eq_some_iff.1 hread
    obtain ⟨us, rfl, hus⟩ := h.andExpr hright
    obtain ⟨vs, rfl, hvs⟩ := h.orRest hmore
    refine ⟨.or :: (us ++ vs), by simp, fun ws hws ↦ ?_⟩
    have hall := hvs _ (.or hws hus)
    rwa [List.append_assoc] at hall
  · rw [orRest?_stop hsign (Nat.succ_pos _)] at hread
    cases hread
    exact ⟨[], rfl, fun vs hvs ↦ by rwa [List.append_nil]⟩

theorem goesOnBy_andRest? : GoesOnBy .conjuncts (andRest? (depth + 1)) := by
  intro left ts f rest hread
  by_cases hsign : ts.head? = some .and
  · obtain ⟨ts, rfl⟩ := List.head?_eq_some_iff.1 hsign
    rw [andRest?] at hread
    obtain ⟨⟨right, middle⟩, hright, hmore⟩ := Option.bind_eq_some_iff.1 hread
    obtain ⟨us, rfl, hus⟩ := h.notExpr hright
    obtain ⟨vs, rfl, hvs⟩ := h.andRest hmore
    refine ⟨.and :: (us ++ vs), by simp, fun ws hws ↦ ?_⟩
    have hall := hvs _ (.and hws hus)
    rwa [List.append_assoc] at hall
  · rw [andRest?_stop hsign (Nat.succ_pos _)] at hread
    cases hread
    exact ⟨[], rfl, fun vs hvs ↦ by rwa [List.append_nil]⟩

theorem readsBy_notExpr? : ReadsBy .operand (notExpr? (depth + 1)) := by
  intro ts f rest hread
  match ts, hread with
  | .not :: ts, hread =>
    rw [notExpr?] at hread
    obtain ⟨⟨operand, middle⟩, hoperand, heq⟩ := Option.bind_eq_some_iff.1 hread
    obtain ⟨us, rfl, hus⟩ := h.notExpr hoperand
    cases heq
    exact ⟨.not :: us, rfl, .not hus⟩
  | .lparen :: ts, hread =>
    rw [notExpr?] at hread
    obtain ⟨⟨inner, middle⟩, hinner, hclose⟩ := Option.bind_eq_some_iff.1 hread
    obtain ⟨us, rfl, hus⟩ := h.orExpr hinner
    dsimp only at hclose
    split at hclose
    · cases hclose
      exact ⟨.lparen :: (us ++ [.rparen]), by simp, .paren hus⟩
    · cases hclose
  | .tag name :: ts, hread =>
    rw [notExpr?] at hread
    cases hread
    exact ⟨[.tag name], rfl, .tag name⟩
  | [], hread | .and :: _, hread | .or :: _, hread | .rparen :: _, hread =>
    simp only [notExpr?, reduceCtorEq] at hread

end Sound

theorem soundAt : ∀ depth, SoundAt depth
  | 0 => by
    constructor <;> intro
    · intro _ _ h; rw [orExpr?] at h; cases h
    · intro _ _ _ h; rw [orRest?] at h; cases h
    · intro _ _ h; rw [andExpr?] at h; cases h
    · intro _ _ _ h; rw [andRest?] at h; cases h
    · intro _ _ h; rw [notExpr?] at h; cases h
  | depth + 1 =>
    have h := soundAt depth
    ⟨readsBy_orExpr? h, goesOnBy_orRest? h, readsBy_andExpr? h, goesOnBy_andRest? h,
      readsBy_notExpr? h⟩

/-! #### What is derived is read -/

theorem Derives.length_pos {rule : Nonterminal} {ts : List Token} {f : Constraint}
    (h : Derives rule ts f) : 0 < ts.length := by
  induction h with
  | alternative _ ih | conjunct _ ih => exact ih
  | or | and => rw [List.length_append, List.length_cons]; omega
  | not | paren | tag => exact Nat.succ_pos _

/-- A rule is read at a depth from a bound on, and so are the tokens behind it. The readers of lists
go on after what they have read, so that for them the bound is one on reading what follows. -/
def ReadAs : Nonterminal → List Token → Constraint → Prop
  | .alternatives, ts, f => ∀ rest result bound, rest.head? ≠ some .and →
    (∀ depth, bound ≤ depth → orRest? depth f rest = some result) →
      ∀ depth, bound + 4 * ts.length ≤ depth → orExpr? depth (ts ++ rest) = some result
  | .conjuncts, ts, f => ∀ rest result bound,
    (∀ depth, bound ≤ depth → andRest? depth f rest = some result) →
      ∀ depth, bound + 4 * ts.length ≤ depth + 2 → andExpr? depth (ts ++ rest) = some result
  | .operand, ts, f => ∀ rest depth, 4 * ts.length ≤ depth + 3 →
    notExpr? depth (ts ++ rest) = some (f, rest)

theorem readAs_of_derives {rule : Nonterminal} {ts : List Token} {f : Constraint}
    (h : Derives rule ts f) : ReadAs rule ts f := by
  induction h with
  | @alternative ts f h ih =>
    intro rest result bound hrest hon depth hdepth
    have hpos := h.length_pos
    obtain ⟨depth, rfl⟩ : ∃ d, depth = d + 1 := ⟨depth - 1, by omega⟩
    have hread : andExpr? depth (ts ++ rest) = some (f, rest) :=
      ih rest (f, rest) 1 (fun _ ↦ andRest?_stop hrest) depth (by omega)
    rw [orExpr?, hread]
    exact hon depth (by omega)
  | @or ts us f g hleft hright ihleft ihright =>
    intro rest result bound hrest hon depth hdepth
    have hpos := hright.length_pos
    rw [List.length_append, List.length_cons] at hdepth
    rw [List.append_assoc, List.cons_append]
    refine ihleft (.or :: (us ++ rest)) result (bound + 4 * us.length) (by simp) ?_ depth (by omega)
    intro depth hdepth
    obtain ⟨depth, rfl⟩ : ∃ d, depth = d + 1 := ⟨depth - 1, by omega⟩
    have hread : andExpr? depth (us ++ rest) = some (g, rest) :=
      ihright rest (g, rest) 1 (fun _ ↦ andRest?_stop hrest) depth (by omega)
    rw [orRest?, hread]
    exact hon depth (by omega)
  | @conjunct ts f h ih =>
    intro rest result bound hon depth hdepth
    have hpos := h.length_pos
    obtain ⟨depth, rfl⟩ : ∃ d, depth = d + 1 := ⟨depth - 1, by omega⟩
    rw [andExpr?, ih rest depth (by omega)]
    exact hon depth (by omega)
  | @and ts us f g hleft hright ihleft ihright =>
    intro rest result bound hon depth hdepth
    have hpos := hright.length_pos
    rw [List.length_append, List.length_cons] at hdepth
    rw [List.append_assoc, List.cons_append]
    refine ihleft (.and :: (us ++ rest)) result (bound + 4 * us.length) ?_ depth (by omega)
    intro depth hdepth
    obtain ⟨depth, rfl⟩ : ∃ d, depth = d + 1 := ⟨depth - 1, by omega⟩
    rw [andRest?, ihright rest depth (by omega)]
    exact hon depth (by omega)
  | @not ts f h ih =>
    intro rest depth hdepth
    rw [List.length_cons] at hdepth
    obtain ⟨depth, rfl⟩ : ∃ d, depth = d + 1 := ⟨depth - 1, by omega⟩
    rw [List.cons_append, notExpr?, ih rest depth (by omega)]
    rfl
  | @paren ts f h ih =>
    intro rest depth hdepth
    simp only [List.length_cons, List.length_append, List.length_nil] at hdepth
    obtain ⟨depth, rfl⟩ : ∃ d, depth = d + 1 := ⟨depth - 1, by omega⟩
    have hread : orExpr? depth (ts ++ .rparen :: rest) = some (f, .rparen :: rest) :=
      ih (.rparen :: rest) (f, .rparen :: rest) 1 (by simp) (fun _ ↦ orRest?_stop (by simp)) depth
        (by omega)
    rw [List.cons_append, List.append_assoc, List.singleton_append, notExpr?, hread]
    rfl
  | tag name =>
    intro rest depth hdepth
    obtain ⟨depth, rfl⟩ : ∃ d, depth = d + 1 := ⟨depth - 1, by simp at hdepth; omega⟩
    rw [List.singleton_append, notExpr?]

/-! #### Whole texts -/

theorem ofTokens?_eq_some_iff {ts : List Token} {f : Constraint} :
    ofTokens? ts = some f ↔ Derives .alternatives ts f := by
  constructor
  · intro h
    obtain ⟨⟨g, rest⟩, hread, hdone⟩ := Option.bind_eq_some_iff.1 h
    split at hdone
    · next heq =>
      cases heq
      cases hdone
      obtain ⟨us, rfl, hus⟩ := (soundAt _).orExpr hread
      rwa [List.append_nil]
    · cases hdone
  · intro h
    have hread := readAs_of_derives h [] (f, []) 1 (by simp) (fun _ ↦ orRest?_stop (by simp))
      (4 * (ts.length + 1)) (by omega)
    rw [List.append_nil] at hread
    rw [ofTokens?, hread]
    rfl

/-- A text is read as a formula exactly when its tokens derive it. -/
theorem parse?_eq_some_iff {text : List Char} {f : Constraint} :
    parse? text = some f ↔ ∃ ts, Spells text ts ∧ Derives .alternatives ts f :=
  Option.bind_eq_some_iff.trans (by simp only [tokens?_eq_some_iff, ofTokens?_eq_some_iff])

end PackageAtlas.Constraint
