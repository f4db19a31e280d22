import PackageAtlas.Build.Constraint
import PackageAtlas.Build.Header
import PackageAtlas.Tree.Basic

/-!
Build contexts: the platform and the tags that decide which files take part in a build. A file
takes part when its name, the constraint lines of its header and its foreign imports all allow it.
-/

set_option autoImplicit false
set_option relaxedAutoImplicit false

namespace PackageAtlas

/-- The platform and the extra tags of a build, and whether foreign code takes part. -/
structure BuildContext where
  os : String
  arch : String
  tags : List String
  foreignInterop : Bool
deriving DecidableEq, Repr, Inhabited

namespace BuildContext

/-- The operating systems that a file name can ask for. -/
def knownSystems : List String :=
  ["aix", "android", "darwin", "dragonfly", "freebsd", "hurd", "illumos", "ios", "js", "linux",
   "nacl", "netbsd", "openbsd", "plan9", "solaris", "wasip1", "windows", "zos"]

/-- The operating systems that satisfy the tag `unix`. -/
def unixSystems : List String :=
  ["aix", "android", "darwin", "dragonfly", "freebsd", "hurd", "illumos", "ios", "linux",
   "netbsd", "openbsd", "solaris"]

/-- The processor architectures that a file name can ask for. -/
def knownArchs : List String :=
  ["386", "amd64", "amd64p32", "arm", "armbe", "arm64", "arm64be", "loong64", "mips", "mipsle",
   "mips64", "mips64le", "ppc", "ppc64", "ppc64le", "riscv", "riscv64", "s390", "s390x", "sparc",
   "sparc64", "wasm"]

/-- A release tag: `go1.` and the number of a minor release. All of them hold. -/
def isReleaseTag (tag : String) : Bool :=
  match Text.dropStart? "go1.".toList tag.toList with
  | some (c :: rest) => (c :: rest).all Char.isDigit
  | _ => false

/-- Whether a tag holds. -/
def matchesTag (context : BuildContext) (tag : String) : Bool :=
  tag == context.os || tag == context.arch || context.tags.contains tag ||
    if tag = "cgo" then context.foreignInterop
    else if tag = "unix" then unixSystems.contains context.os
    else isReleaseTag tag

/-- Whether files for an operating system are built; two systems build also those of another. -/
def buildsSystem (context : BuildContext) (os : String) : Bool :=
  context.os == os || (os == "linux" && context.os == "android") ||
    (os == "darwin" && context.os == "ios")

/-- The parts after the first underscore of a file name, without its ending and a test mark. -/
def nameParts (name : String) : List String :=
  let base := (baseName name).toList
  let stem := Text.withoutEnd "_test".toList (Text.withoutEnd ".go".toList base)
  ((Text.splitOn '_' stem).drop 1).map String.ofList

/-- Whether the platform that a file name ends with is the context's: a system, an architecture, or
a system and an architecture after it. -/
def matchesFileName (context : BuildContext) (name : String) : Bool :=
  match (nameParts name).reverse with
  | [] => true
  | last :: earlier =>
    match earlier.head?.filter knownSystems.contains, knownArchs.contains last with
    | some os, true => context.buildsSystem os && context.arch == last
    | _, isArch =>
      if knownSystems.contains last then context.buildsSystem last
      else if isArch then context.arch == last
      else true

/-- Whether a term of a legacy line holds: a tag, or an exclamation mark and a tag. -/
def matchesTerm (context : BuildContext) (term : List Char) : Bool :=
  match term with
  | '!' :: tag => !tag.isEmpty && !context.matchesTag (String.ofList tag)
  | tag => context.matchesTag (String.ofList tag)

/-- Whether one of the options of a legacy line holds; the terms of an option are separated by
commas and must all hold. -/
def matchesLegacy (context : BuildContext) (line : List Char) : Bool :=
  (Text.words line).any fun option ↦ (Text.splitOn ',' option).all context.matchesTerm

/-- Whether the constraint lines of a header hold. A formula overrides the legacy lines, and one
that is no formula excludes the file. -/
def matchesHeader (context : BuildContext) (text : String) : Bool :=
  let header := Header.ofText text
  match header.formula with
  | some formula => (Constraint.parse? formula).any (·.holds context.matchesTag)
  | none => header.legacy.all context.matchesLegacy

/-- Whether a file takes part in the build. -/
def matchesFile (context : BuildContext) (name text : String) (importsForeign : Bool) : Bool :=
  (!importsForeign || context.foreignInterop) && context.matchesFileName name &&
    context.matchesHeader text

end BuildContext

end PackageAtlas
