import PackageAtlas.Project.Pattern
import PackageAtlas.Proofs.History.Paths

/-!
What patterns say about the directories that they accept. A pattern accepts only names that go on
after the text before its dots, so that a walk may leave out directories that do not lead there
(`canAcceptBelow_of_goesOn`), and the pattern that names a package exactly is its identity.
-/

set_option autoImplicit false
set_option relaxedAutoImplicit false

namespace PackageAtlas

namespace Text

theorem dropEnd?_eq_some_iff {suffix text start : List Char} :
    dropEnd? suffix text = some start ↔ text = start ++ suffix := by
  unfold dropEnd?
  rw [Option.map_eq_some_iff]
  constructor
  · rintro ⟨rest, hrest, rfl⟩
    rw [← List.reverse_reverse text, dropStart?_eq_some_iff.mp hrest, List.reverse_append,
      List.reverse_reverse]
  · rintro rfl
    exact ⟨start.reverse, dropStart?_eq_some_iff.mpr (List.reverse_append ..),
      List.reverse_reverse start⟩

theorem cutAt?_eq_some {mark text before after : List Char}
    (h : cutAt? mark text = some (before, after)) : text = before ++ mark ++ after := by
  induction text generalizing before after with
  | nil =>
    rw [cutAt?] at h
    by_cases hmark : mark.isEmpty = true
    · rw [if_pos hmark] at h
      cases h
      rw [List.isEmpty_iff.mp hmark]
      rfl
    · rw [if_neg hmark] at h
      cases h
  | cons c rest ih =>
    rw [cutAt?] at h
    cases hdrop : dropStart? mark (c :: rest) with
    | some later =>
      rw [hdrop] at h
      cases h
      exact dropStart?_eq_some_iff.mp hdrop
    | none =>
      rw [hdrop] at h
      obtain ⟨⟨start, later⟩, hlater, heq⟩ := Option.map_eq_some_iff.mp h
      cases heq
      rw [ih hlater]
      rfl

/-- A text is cut at a mark whose first character does not occur before it. -/
theorem cutAt?_append {c : Char} {mark start : List Char} (h : c ∉ start) (rest : List Char) :
    cutAt? (c :: mark) (start ++ (c :: mark ++ rest)) = some (start, rest) := by
  induction start with
  | nil =>
    rw [List.nil_append, List.cons_append, cutAt?, ← List.cons_append,
      dropStart?_eq_some_iff.mpr rfl]
  | cons d start ih =>
    have hd : c ≠ d := fun heq ↦ h (heq ▸ List.mem_cons_self)
    rw [List.cons_append, cutAt?, dropStart?, if_neg hd,
      ih fun hmem ↦ h (List.mem_cons_of_mem d hmem)]
    rfl

/-- A text that occurs in another is found by the search for its first occurrence. -/
theorem occursIn_iff {mark text : List Char} : occursIn mark text = true ↔ mark <:+: text := by
  rw [occursIn, Option.isSome_iff_exists]
  constructor
  · rintro ⟨⟨before, after⟩, hcut⟩
    exact ⟨before, after, (cutAt?_eq_some hcut).symm⟩
  · intro h
    induction text with
    | nil =>
      rw [List.infix_nil.1 h]
      exact ⟨_, rfl⟩
    | cons c rest ih =>
      rw [cutAt?]
      cases hdrop : dropStart? mark (c :: rest) with
      | some after => exact ⟨_, rfl⟩
      | none =>
        rcases List.infix_cons_iff.1 h with ⟨after, hstart⟩ | hrest
        · rw [dropStart?_eq_some_iff.2 hstart.symm] at hdrop
          cases hdrop
        · obtain ⟨⟨before, after⟩, hcut⟩ := ih hrest
          rw [hcut]
          exact ⟨_, rfl⟩

/-- What occurs around a character that is not in it occurs before or after that character. -/
theorem infix_append_cons {c : Char} {mark start rest : List Char} (hc : c ∉ mark)
    (h : mark <:+: start ++ c :: rest) : mark <:+: start ∨ mark <:+: rest := by
  have hbefore : ∀ front, mark <+: front ++ c :: rest → mark <+: front := by
    intro front hfront
    rcases List.prefix_or_prefix_of_prefix hfront (List.prefix_append _ _) with hin | ⟨more, rfl⟩
    · exact hin
    · rw [List.prefix_append_right_inj] at hfront
      cases more with
      | nil => exact (List.append_nil front).symm ▸ List.prefix_rfl
      | cons d more =>
        obtain ⟨rfl, -⟩ := List.cons_prefix_cons.1 hfront
        exact absurd (List.mem_append_right _ List.mem_cons_self) hc
  induction start with
  | nil =>
    rcases List.infix_cons_iff.1 h with hfront | hrest
    · exact Or.inl (hbefore [] hfront).isInfix
    · exact Or.inr hrest
  | cons d start ih =>
    rcases List.infix_cons_iff.1 h with hfront | hrest
    · exact Or.inl (hbefore (d :: start) hfront).isInfix
    · exact (ih hrest).imp_left fun hin ↦ hin.trans (List.suffix_cons d start).isInfix

end Text

/-- A local path starts with one dot or two, alone or in front of a slash. -/
theorem isLocalPath_iff (path : String) :
    isLocalPath path = true ↔ ∃ start, (start = ['.'] ∨ start = ['.', '.']) ∧
      (path.toList = start ∨ ∃ rest, path.toList = start ++ '/' :: rest) := by
  have hstart : ∀ first rest : List Char, first ++ ['/'] <+: rest ↔
      ∃ more, rest = first ++ '/' :: more := by
    intro first rest
    constructor
    · rintro ⟨more, rfl⟩
      exact ⟨more, by rw [List.append_assoc]; rfl⟩
    · rintro ⟨more, rfl⟩
      exact ⟨more, by rw [List.append_assoc]; rfl⟩
  have hone : path.startsWith "./" = true ↔ ∃ rest, path.toList = ['.'] ++ '/' :: rest := by
    rw [String.startsWith_string_iff]
    exact hstart ['.'] path.toList
  have htwo : path.startsWith "../" = true ↔ ∃ rest, path.toList = ['.', '.'] ++ '/' :: rest := by
    rw [String.startsWith_string_iff]
    exact hstart ['.', '.'] path.toList
  have hself : ∀ other : String, (path == other) = true ↔ path.toList = other.toList := by
    intro other
    rw [beq_iff_eq, String.toList_inj]
  rw [isLocalPath, Bool.or_eq_true, Bool.or_eq_true, Bool.or_eq_true, hone, htwo, hself, hself]
  constructor
  · rintro (((h | h) | h) | h)
    · exact ⟨['.'], Or.inl rfl, Or.inl h⟩
    · exact ⟨['.', '.'], Or.inr rfl, Or.inl h⟩
    · exact ⟨['.'], Or.inl rfl, Or.inr h⟩
    · exact ⟨['.', '.'], Or.inr rfl, Or.inr h⟩
  · rintro ⟨start, rfl | rfl, h | h⟩
    · exact Or.inl (Or.inl (Or.inl h))
    · exact Or.inl (Or.inr h)
    · exact Or.inl (Or.inl (Or.inr h))
    · exact Or.inr h

namespace PatternMatcher

/-! ### The text before the dots -/

/-- What a wildcard accepts starts with the text before the dots, or is that text without a slash at
its end. -/
theorem stem_of_spells {chars before after text : List Char}
    (hcut : Text.cutAt? dots chars = some (before, after))
    (h : WildcardPiece.Spells (WildcardPiece.ofChars chars) text) :
    before <+: text ∨ before = text ++ ['/'] := by
  induction chars using WildcardPiece.ofChars.induct generalizing before text with
  | case1 => cases hcut
  | case2 =>
    cases hcut
    cases h with
    | here h =>
      cases h
      exact Or.inr rfl
    | under hline h => exact Or.inl (List.cons_prefix_cons.mpr ⟨rfl, List.nil_prefix⟩)
  | case3 rest ih =>
    cases hcut
    exact Or.inl List.nil_prefix
  | case4 c rest hbelow hany ih =>
    rw [WildcardPiece.ofChars.eq_4 _ _ hbelow hany] at h
    cases h with
    | char h =>
      have hstart : Text.dropStart? dots (c :: rest) = none := by
        cases hdrop : Text.dropStart? dots (c :: rest) with
        | none => rfl
        | some more =>
          have hchars := Text.dropStart?_eq_some_iff.mp hdrop
          injection hchars with hc hrest
          exact (hany _ hc hrest).elim
      rw [Text.cutAt?, hstart] at hcut
      obtain ⟨⟨start, later⟩, hlater, heq⟩ := Option.map_eq_some_iff.mp hcut
      cases heq
      rcases ih hlater h with hprefix | rfl
      · exact Or.inl (List.cons_prefix_cons.mpr ⟨rfl, hprefix⟩)
      · exact Or.inr rfl

variable {matcher : PatternMatcher}

/-- A text without dots spells only itself. -/
theorem eq_of_spells {chars text : List Char} (hcut : Text.cutAt? dots chars = none)
    (h : WildcardPiece.Spells (WildcardPiece.ofChars chars) text) : text = chars := by
  induction chars using WildcardPiece.ofChars.induct generalizing text with
  | case1 =>
    cases h
    rfl
  | case2 => cases hcut
  | case3 rest ih => cases hcut
  | case4 c rest hbelow hany ih =>
    rw [WildcardPiece.ofChars.eq_4 _ _ hbelow hany] at h
    cases h with
    | char h =>
      rw [Text.cutAt?] at hcut
      cases hdrop : Text.dropStart? dots (c :: rest) with
      | some more =>
        rw [hdrop] at hcut
        cases hcut
      | none =>
        rw [hdrop] at hcut
        rw [ih (Option.map_eq_none_iff.mp hcut) h]

/-- What a pattern accepts starts with the text before the dots, or is that text without a slash at
its end. -/
theorem stem_of_accepts {name : String} (h : matcher.accepts name = true) :
    matcher.stem <+: name.toList ∨ matcher.stem = name.toList ++ ['/'] := by
  have hspells := WildcardPiece.spell_iff.mp h
  rw [stem]
  cases hcut : Text.cutAt? dots matcher.pattern.toList with
  | none => exact Or.inl (eq_of_spells hcut hspells ▸ List.prefix_rfl)
  | some cut => exact stem_of_spells hcut hspells

/-- A name that a pattern without dots accepts is the text before the dots. -/
theorem stem_of_not_isWildcard (hwild : matcher.isWildcard = false) {name : String}
    (h : matcher.accepts name = true) : matcher.stem = name.toList := by
  have hcut : Text.cutAt? dots matcher.pattern.toList = none :=
    Option.isNone_iff_eq_none.mp (Option.isSome_eq_false_iff.mp hwild)
  rw [stem, hcut, eq_of_spells hcut (WildcardPiece.spell_iff.mp h)]

theorem hasPathPrefix_append_slash (start rest : List Char) :
    hasPathPrefix (start ++ '/' :: rest) start = true := by
  rw [hasPathPrefix, Text.dropStart?_eq_some_iff.mpr rfl]
  exact Bool.or_true _

theorem hasPathPrefix_self (text : List Char) : hasPathPrefix text text = true := by
  rw [hasPathPrefix, Text.dropStart?_eq_some_iff.mpr (List.append_nil text).symm]

/-- A pattern lets a walk into a directory of a name that it accepts, and into those above. -/
theorem canAcceptBelow_of_goesOn {above name : String} {rest : List Char}
    (h : matcher.accepts name = true) (hname : name.toList = above.toList ++ rest)
    (hslash : rest = [] ∨ ∃ more, rest = '/' :: more) : matcher.canAcceptBelow above = true := by
  have hgoesOn : ∀ more, matcher.stem = above.toList ++ '/' :: more →
      matcher.canAcceptBelow above = true := by
    intro more hstem
    rw [canAcceptBelow, hstem, hasPathPrefix_append_slash, Bool.true_or]
  have hsame : matcher.stem = above.toList → matcher.canAcceptBelow above = true := by
    intro hstem
    rw [canAcceptBelow, hstem, hasPathPrefix_self, Bool.true_or]
  cases hwild : matcher.isWildcard with
  | false =>
    have hstem := stem_of_not_isWildcard hwild h
    rw [hname] at hstem
    rcases hslash with rfl | ⟨more, rfl⟩
    · exact hsame (hstem.trans (List.append_nil _))
    · exact hgoesOn more hstem
  | true =>
    have hreached : matcher.stem <+: above.toList → matcher.canAcceptBelow above = true := by
      intro hstem
      rw [canAcceptBelow, hwild, ← List.prefix_iff_eq_take.mp hstem, beq_self_eq_true]
      exact Bool.or_true _
    rcases stem_of_accepts h with hstem | hstem
    · rw [hname] at hstem
      rcases List.prefix_or_prefix_of_prefix hstem (List.prefix_append _ rest) with
        hin | ⟨more, hmore⟩
      · exact hreached hin
      · rw [← hmore, List.prefix_append_right_inj] at hstem
        cases more with
        | nil => exact hsame (hmore.symm.trans (List.append_nil _))
        | cons c more =>
          rcases hslash with rfl | ⟨later, rfl⟩
          · cases List.prefix_nil.mp hstem
          · obtain ⟨rfl, -⟩ := List.cons_prefix_cons.mp hstem
            exact hgoesOn more hmore.symm
    · rw [hname, List.append_assoc] at hstem
      rcases hslash with rfl | ⟨more, rfl⟩
      · exact hgoesOn [] hstem
      · exact hgoesOn (more ++ ['/']) hstem

/-- A pattern lets a walk into the directories above one that it accepts. -/
theorem canAcceptBelow_of_accepts {above names : List String}
    (h : matcher.accepts (Path.slashed names) = true) (habove : above <+: names)
    (hne : above ≠ []) : matcher.canAcceptBelow (Path.slashed above) = true := by
  obtain ⟨rest, hrest, hslash⟩ := Path.toList_slashed_of_prefix habove hne
  exact canAcceptBelow_of_goesOn h hrest hslash

/-- A text up to its last slash. -/
theorem upToSlash (start rest : List Char) :
    ∃ more, ((start ++ '/' :: rest).reverse.dropWhile (· != '/')).reverse = start ++ '/' :: more ∧
      ('/' :: more).getLast? = some '/' := by
  rw [List.reverse_append, List.reverse_cons, List.append_assoc, List.dropWhile_append]
  split
  · refine ⟨[], ?_, rfl⟩
    rw [List.singleton_append, List.dropWhile_cons_of_neg (by decide), List.reverse_cons,
      List.reverse_reverse]
  · next hsome =>
    refine ⟨(rest.reverse.dropWhile (· != '/')).reverse, ?_, ?_⟩
    · rw [List.reverse_append, List.singleton_append, List.reverse_cons, List.reverse_reverse,
        List.append_assoc]
      rfl
    · cases hdrop : rest.reverse.dropWhile (· != '/') with
      | nil =>
        rw [hdrop] at hsome
        exact absurd rfl hsome
      | cons c later =>
        have hc := List.head?_dropWhile_not (· != '/') rest.reverse
        rw [hdrop] at hc
        have hslash : c = '/' := by simpa using hc
        rw [hslash, List.reverse_cons, ← List.cons_append, List.getLast?_concat]

/-- A local pattern with dots is walked from a place that starts with one dot or two. -/
theorem walkBase_of_isLocalPath (hwild : matcher.isWildcard = true)
    (hlocal : isLocalPath matcher.pattern = true) :
    ∃ start, (start = ['.'] ∨ start = ['.', '.']) ∧
      ∃ rest, matcher.walkBase.toList = start ++ '/' :: rest ∧
        ('/' :: rest).getLast? = some '/' := by
  obtain ⟨start, hstart, hpattern⟩ := (isLocalPath_iff _).mp hlocal
  obtain ⟨⟨before, after⟩, hcut⟩ := Option.isSome_iff_exists.mp hwild
  refine ⟨start, hstart, ?_⟩
  have hstem : ∃ rest, matcher.stem = start ++ '/' :: rest := by
    rcases hpattern with halone | ⟨rest, hrest⟩
    · rw [halone] at hcut
      rcases hstart with rfl | rfl <;> cases hcut
    · rw [stem, hcut]
      rw [hrest] at hcut
      rcases hstart with rfl | rfl
      · obtain ⟨⟨first, later⟩, hlater, heq⟩ := Option.map_eq_some_iff.mp hcut
        obtain ⟨⟨second, last⟩, -, heq'⟩ := Option.map_eq_some_iff.mp hlater
        cases heq
        cases heq'
        exact ⟨second, rfl⟩
      · obtain ⟨⟨first, later⟩, hlater, heq⟩ := Option.map_eq_some_iff.mp hcut
        obtain ⟨⟨second, last⟩, hlast, heq'⟩ := Option.map_eq_some_iff.mp hlater
        obtain ⟨⟨third, end_⟩, -, heq''⟩ := Option.map_eq_some_iff.mp hlast
        cases heq
        cases heq'
        cases heq''
        exact ⟨third, rfl⟩
  obtain ⟨rest, hrest⟩ := hstem
  obtain ⟨more, hmore, hlast⟩ := upToSlash start rest
  refine ⟨more, ?_, hlast⟩
  rw [walkBase, hrest, String.toList_ofList]
  exact hmore

end PatternMatcher

/-! ### Requests -/

namespace Pattern

/-- A pattern that is a wildcard is walked for, from the working directory if it is local. -/
theorem parse_of_isWildcard {raw : String} (h : PatternMatcher.isWildcard ⟨raw⟩ = true) :
    parse raw = if isLocalPath raw then .locals ⟨raw⟩ else .tree ⟨raw⟩ := by
  rw [parse, if_pos h]

theorem noBuild?_eq_some {raw : List Char} {pattern : Pattern} (h : noBuild? raw = some pattern) :
    ∃ path name, pattern = .exact (String.ofList path) (.noBuild (String.ofList name)) ∧
      raw = path ++ ":nobuild(".toList ++ name ++ [')'] := by
  obtain ⟨inner, hinner, hrest⟩ := Option.bind_eq_some_iff.mp h
  obtain ⟨⟨path, name⟩, hcut, heq⟩ := Option.bind_eq_some_iff.mp hrest
  refine ⟨path, name, (Option.some.inj heq).symm, ?_⟩
  rw [Text.dropEnd?_eq_some_iff.mp hinner, Text.cutAt?_eq_some hcut]

/-- A text without wildcards names a package by its suffixes. -/
theorem parse_eq_exact {raw : String} (h : PatternMatcher.isWildcard ⟨raw⟩ = false) :
    parse raw = ((Text.dropEnd? ":xtest".toList raw.toList).map fun path ↦
      exact (String.ofList path) .externalTest).getD
        ((noBuild? raw.toList).getD (exact raw .primary)) := by
  rw [parse, h]
  cases Text.dropEnd? ":xtest".toList raw.toList <;> rfl

/-- A pattern that is no wildcard is the identity of a package. -/
theorem parse_of_not_isWildcard {raw : String} (h : PatternMatcher.isWildcard ⟨raw⟩ = false) :
    ∃ path variant, parse raw = .exact path variant ∧ variant.identity path = raw := by
  have hparse := parse_eq_exact h
  cases htest : Text.dropEnd? ":xtest".toList raw.toList with
  | some path =>
    rw [htest] at hparse
    refine ⟨_, _, hparse, ?_⟩
    rw [← String.toList_inj, Text.dropEnd?_eq_some_iff.mp htest, Variant.identity,
      String.toList_append, String.toList_ofList]
  | none =>
    rw [htest] at hparse
    cases hbuild : noBuild? raw.toList with
    | none =>
      rw [hbuild] at hparse
      exact ⟨raw, .primary, hparse, rfl⟩
    | some pattern =>
      obtain ⟨path, name, rfl, hraw⟩ := noBuild?_eq_some hbuild
      rw [hbuild] at hparse
      refine ⟨_, _, hparse, ?_⟩
      rw [← String.toList_inj, hraw]
      simp [Variant.identity]

theorem parse_eq_locals {raw : String} {matcher : PatternMatcher} (h : parse raw = .locals matcher) :
    matcher.isWildcard = true ∧ isLocalPath matcher.pattern = true := by
  cases hwild : PatternMatcher.isWildcard ⟨raw⟩ with
  | false =>
    obtain ⟨path, variant, hexact, -⟩ := parse_of_not_isWildcard hwild
    rw [hexact] at h
    cases h
  | true =>
    rw [parse_of_isWildcard hwild] at h
    by_cases hlocal : isLocalPath raw = true
    · rw [if_pos hlocal] at h
      cases h
      exact ⟨hwild, hlocal⟩
    · rw [if_neg hlocal] at h
      cases h

/-- The identity of a package names it, if the path of its directory has no colon. -/
theorem parse_identity {path : String} (hcolon : ':' ∉ path.toList) (variant : Variant)
    (h : PatternMatcher.isWildcard ⟨variant.identity path⟩ = false) :
    parse (variant.identity path) = .exact path variant := by
  have hparse := parse_eq_exact h
  cases variant with
  | primary =>
    have htest : Text.dropEnd? ":xtest".toList path.toList = none := by
      cases hdrop : Text.dropEnd? ":xtest".toList path.toList with
      | none => rfl
      | some start =>
        refine absurd ?_ hcolon
        rw [Text.dropEnd?_eq_some_iff.mp hdrop]
        simp
    have hbuild : noBuild? path.toList = none := by
      cases hsome : noBuild? path.toList with
      | none => rfl
      | some pattern =>
        obtain ⟨start, name, -, hpath⟩ := noBuild?_eq_some hsome
        refine absurd ?_ hcolon
        rw [hpath]
        simp
    rw [Variant.identity, htest, hbuild] at hparse
    exact hparse
  | externalTest =>
    have htest : Text.dropEnd? ":xtest".toList (path ++ ":xtest").toList = some path.toList := by
      rw [Text.dropEnd?_eq_some_iff, String.toList_append]
    rw [Variant.identity, htest] at hparse
    rw [Variant.identity, hparse]
    simp
  | noBuild name =>
    have hlist : (path ++ ":nobuild(" ++ name ++ ")").toList =
        path.toList ++ (':' :: "nobuild(".toList ++ name.toList) ++ [')'] := by
      simp
    have htest : Text.dropEnd? ":xtest".toList (path ++ ":nobuild(" ++ name ++ ")").toList =
        none := by
      cases hdrop : Text.dropEnd? ":xtest".toList (path ++ ":nobuild(" ++ name ++ ")").toList with
      | none => rfl
      | some start =>
        have hlast := congrArg List.getLast? (Text.dropEnd?_eq_some_iff.mp hdrop)
        have hmark : ":xtest".toList = ":xtes".toList ++ ['t'] := by decide
        rw [hlist, hmark, ← List.append_assoc start, List.getLast?_concat, List.getLast?_concat] at hlast
        exact absurd hlast (by decide)
    have hbuild : noBuild? (path ++ ":nobuild(" ++ name ++ ")").toList =
        some (.exact path (.noBuild name)) := by
      have hend : Text.dropEnd? [')'] (path ++ ":nobuild(" ++ name ++ ")").toList =
          some (path.toList ++ (':' :: "nobuild(".toList ++ name.toList)) :=
        Text.dropEnd?_eq_some_iff.mpr hlist
      have hcut : Text.cutAt? ":nobuild(".toList
          (path.toList ++ (':' :: "nobuild(".toList ++ name.toList)) =
            some (path.toList, name.toList) :=
        Text.cutAt?_append hcolon name.toList
      unfold noBuild?
      rw [hend]
      change (Text.cutAt? ":nobuild(".toList _).bind _ = _
      rw [hcut]
      simp
    rw [Variant.identity, htest, hbuild] at hparse
    exact hparse

end Pattern

end PackageAtlas
