import PackageAtlas.Proofs.History.Patterns
import PackageAtlas.Proofs.Lookup.Specifiers

/-!
Identities of packages. A text without three dots asks for one package, and is its identity; and a
path without three dots and colons comes back from the identity of each of its variants, together
with the variant (`Pattern.parse_inverts_identity`). So an identity that is given back as a pattern
leads to the package that it was made for.
-/

set_option autoImplicit false
set_option relaxedAutoImplicit false

namespace PackageAtlas

/-! ### Identities -/

/-- A pattern is a wildcard when three dots occur in it. -/
theorem PatternMatcher.isWildcard_iff (matcher : PatternMatcher) :
    matcher.isWildcard = true ↔ dots <:+: matcher.pattern.toList :=
  Text.occursIn_iff

/-- A path and a variant that can be told from their identity: there are neither three dots nor a
colon in the path, and a package that is kept out of the build has the name of an identifier. -/
structure Variant.Named (path : String) (variant : Variant) : Prop where
  noDots : ¬PatternMatcher.dots <:+: path.toList
  noColon : ':' ∉ path.toList
  isName : ∀ name, variant = .noBuild name → IsName name

namespace Variant

/-- What marks a variant brings no three dots into its identity. -/
theorem Named.isWildcard_identity {path : String} {variant : Variant}
    (h : variant.Named path) : PatternMatcher.isWildcard ⟨variant.identity path⟩ = false := by
  have hmarked : ∀ mark : List Char, '.' ∉ mark →
      ¬PatternMatcher.dots <:+: path.toList ++ ':' :: mark := by
    intro mark hmark hdots
    rcases Text.infix_append_cons (by decide) hdots with hpath | hin
    · exact h.noDots hpath
    · exact hmark (hin.subset List.mem_cons_self)
  rw [← Bool.not_eq_true, PatternMatcher.isWildcard_iff]
  cases variant with
  | primary => exact h.noDots
  | externalTest =>
    rw [identity, String.toList_append]
    exact hmarked "xtest".toList (by decide)
  | noBuild name =>
    have hname : '.' ∉ name.toList := (h.isName name rfl).not_mem (by decide)
    have hlist : (identity path (.noBuild name)).toList =
        path.toList ++ ':' :: ("nobuild(".toList ++ name.toList ++ [')']) := by
      simp [identity]
    rw [hlist]
    exact hmarked _ (by simp [hname])

end Variant

namespace Pattern

theorem parse_identity_of_named {path : String} {variant : Variant} (h : variant.Named path) :
    parse (variant.identity path) = .exact path variant :=
  parse_identity h.noColon variant h.isWildcard_identity

/-- A text without three dots is an exact pattern, and the identity of what it asks for. The
identity of a path and a variant asks for just these two, so that no other path and variant have
it. -/
theorem parse_inverts_identity :
    (∀ raw : String, ¬PatternMatcher.dots <:+: raw.toList →
      ∃ path variant, parse raw = .exact path variant ∧ variant.identity path = raw) ∧
    (∀ (path : String) (variant : Variant), variant.Named path →
      parse (variant.identity path) = .exact path variant) ∧
    ∀ (path other : String) (variant another : Variant), variant.Named path →
      another.Named other → variant.identity path = another.identity other →
        path = other ∧ variant = another := by
  refine ⟨fun raw hdots ↦ ?_, fun path variant ↦ parse_identity_of_named, ?_⟩
  · refine parse_of_not_isWildcard ?_
    rwa [← Bool.not_eq_true, PatternMatcher.isWildcard_iff]
  · intro path other variant another hpath hother hsame
    have hparse := parse_identity_of_named hpath
    rw [hsame, parse_identity_of_named hother] at hparse
    injection hparse with hpaths hvariants
    exact ⟨hpaths.symm, hvariants.symm⟩

/-- The mark of a variant twice: the first one is the path, with the second in it. -/
theorem parse_inverts_identity_twice :
    (∃ path variant, parse "a:nobuild(b):nobuild(c)" = .exact path variant ∧
      variant.identity path = "a:nobuild(b):nobuild(c)") ∧
    parse "./a..:nobuild(other)" = .exact "./a.." (.noBuild "other") ∧
    ("./a.." = "./a.." ∧ Variant.noBuild "other" = .noBuild "other") := by
  have hnamed : (Variant.noBuild "other").Named "./a.." := by
    refine ⟨by decide +kernel, by decide +kernel, ?_⟩
    rintro name ⟨⟩
    have hall : "other".toList.all Lexeme.isNamePart = true := by decide +kernel
    exact List.all_eq_true.1 hall
  exact ⟨parse_inverts_identity.1 _ (by decide +kernel), parse_inverts_identity.2.1 _ _ hnamed,
    parse_inverts_identity.2.2 _ _ _ _ hnamed hnamed rfl⟩

end Pattern

end PackageAtlas
