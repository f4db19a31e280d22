import PackageAtlas.Text.Split

/-!
Preprocessing of foreign code: a tool is asked to replace the files of a package that import the
stand-in package by files without foreign code.
-/

set_option autoImplicit false
set_option relaxedAutoImplicit false

namespace PackageAtlas

/-- What a tool is asked for: the files of a package in a directory. -/
structure PreprocessRequest where
  dir : String
  identity : String
  files : List String
deriving DecidableEq, Repr

/-- A file that a tool made; one shown under the name of an input replaces it. -/
structure PreprocessedFile where
  displayName : String
  contents : String
deriving DecidableEq, Repr

/-- A tool that ran and failed. -/
structure PreprocessFailure where
  command : String
  stderr : String
deriving DecidableEq, Repr

def PreprocessFailure.message (failure : PreprocessFailure) : String :=
  failure.command ++ " failed: " ++ failure.stderr

abbrev Preprocessor := PreprocessRequest → Except PreprocessFailure (List PreprocessedFile)

/-- Whether a character of a file name has a meaning in paths. -/
def separatesPaths (c : Char) : Bool := c == '/' || c == '\\' || c == ':'

/-- The name of the file that a tool writes for an input. -/
def rewrittenName (file : String) : String :=
  let stem := (Text.withoutEnd ['g', 'o'] file.toList).map fun c ↦
    if separatesPaths c then '_' else c
  String.ofList stem ++ "cgo1.go"

end PackageAtlas
