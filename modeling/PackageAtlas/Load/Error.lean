import PackageAtlas.Check.Problem
import PackageAtlas.Project.FileTree
import PackageAtlas.Project.Preprocessor

/-!
Why a load fails.
-/

set_option autoImplicit false
set_option relaxedAutoImplicit false

namespace PackageAtlas

inductive LoadError where
  /-- Two packages in a directory take part in the build. -/
  | ambiguousPackage (dir first second : String)
  | multipleTestPackages (dir : String)
  | noMatch (pattern : String)
  | packageNotFound (identity : String)
  /-- A package needs a tool for foreign code, and there is none. -/
  | missingPreprocessor (identity : String)
  | preprocessor (identity : String) (failure : PreprocessFailure)
  | unreadable (path : String) (reason : ReadError)
  | parse (error : ParseError)
  /-- A package breaks a rule in a file that takes part in the build. -/
  | analysis (identity : String) (location : Location) (problem : Problem)

def LoadError.message : LoadError → String
  | ambiguousPackage dir first second =>
    "more than one package declared in " ++ dir ++ " (" ++ first ++ " and " ++ second ++ ")"
  | multipleTestPackages dir => "more than one _test package in " ++ dir
  | noMatch pattern => "no packages found for " ++ pattern
  | packageNotFound identity => "could not find package " ++ identity
  | missingPreprocessor identity =>
    "package " ++ identity ++ " needs a preprocessor but none is configured"
  | preprocessor identity failure =>
    "preprocessing " ++ identity ++ " failed: " ++ failure.message
  | unreadable path reason => "error reading " ++ path ++ ": " ++ reason.message
  | parse error => "error parsing " ++ error.text
  | analysis identity location problem =>
    "type checker error in " ++ identity ++ ": " ++ location.text ++ ": " ++ problem.message

end PackageAtlas
