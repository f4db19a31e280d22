import PackageAtlas.Project.Wildcard
import PackageAtlas.Text.Split

/-!
Package patterns. A request names one package of a directory exactly, or all packages below a place
with three dots, which stand for any text. A pattern that starts with a dot is local to the working
directory; all others are looked up under the source roots.
-/

set_option autoImplicit false
set_option relaxedAutoImplicit false

namespace PackageAtlas

/-- Which package of a directory is meant: the main one, that of its external tests, or an excluded
one by its name. -/
inductive Variant where
  | primary
  | externalTest
  | noBuild (name : String)
deriving DecidableEq, Repr

/-- The identity of a package: the path of its directory, marked by its variant. -/
def Variant.identity (path : String) : Variant → String
  | primary => path
  | externalTest => path ++ ":xtest"
  | noBuild name => path ++ ":nobuild(" ++ name ++ ")"

/-- A pattern for many names. -/
structure PatternMatcher where
  pattern : String
deriving DecidableEq, Repr

namespace PatternMatcher

/-- The three dots of a pattern. -/
def dots : List Char := ['.', '.', '.']

def isWildcard (matcher : PatternMatcher) : Bool :=
  Text.occursIn dots matcher.pattern.toList

/-- The text before the first wildcard. -/
def stem (matcher : PatternMatcher) : List Char :=
  match Text.cutAt? dots matcher.pattern.toList with
  | some (before, _) => before
  | none => matcher.pattern.toList

/-- Whether a name matches. -/
def accepts (matcher : PatternMatcher) (name : String) : Bool :=
  WildcardPiece.spell (WildcardPiece.ofChars matcher.pattern.toList) name.toList

/-- Whether a text is a prefix, or goes on after it with a slash. -/
def hasPathPrefix (text start : List Char) : Bool :=
  match Text.dropStart? start text with
  | some [] => true
  | some (c :: _) => start.getLast? == some '/' || c == '/'
  | none => false

/-- Whether a directory of this name, or one below it, might match. -/
def canAcceptBelow (matcher : PatternMatcher) (name : String) : Bool :=
  hasPathPrefix matcher.stem name.toList ||
    (matcher.isWildcard && name.toList.take matcher.stem.length == matcher.stem)

/-- The part of the pattern up to the last slash before the first wildcard, where a walk starts. -/
def walkBase (matcher : PatternMatcher) : String :=
  String.ofList (matcher.stem.reverse.dropWhile (· != '/')).reverse

end PatternMatcher

/-! ### Requests -/

/-- What a load asks for. -/
inductive Pattern where
  | exact (path : String) (variant : Variant)
  | tree (matcher : PatternMatcher)
  | locals (matcher : PatternMatcher)
deriving DecidableEq, Repr

/-- Whether a path is relative to the directory it is used in. -/
def isLocalPath (path : String) : Bool :=
  path == "." || path == ".." || path.startsWith "./" || path.startsWith "../"

namespace Pattern

/-- The excluded package that a request names in parentheses. -/
def noBuild? (raw : List Char) : Option Pattern := do
  let inner ← Text.dropEnd? [')'] raw
  let (path, name) ← Text.cutAt? ":nobuild(".toList inner
  return exact (String.ofList path) (.noBuild (String.ofList name))

/-- The request that a text makes. -/
def parse (raw : String) : Pattern :=
  let matcher : PatternMatcher := ⟨raw⟩
  if matcher.isWildcard then
    if isLocalPath raw then locals matcher else tree matcher
  else
    match Text.dropEnd? ":xtest".toList raw.toList with
    | some path => exact (String.ofList path) .externalTest
    | none => (noBuild? raw.toList).getD (exact raw .primary)

end Pattern

end PackageAtlas
