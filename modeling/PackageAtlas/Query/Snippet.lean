import PackageAtlas.Load.Workspace

/-!
Snippets of code that are checked as packages of one file. Their imports are resolved as if they
stood in the working directory, and they are not cached.
-/

set_option autoImplicit false
set_option relaxedAutoImplicit false

namespace PackageAtlas

/-- What a static check reports. -/
structure Finding where
  location : Option Location
  message : String
deriving DecidableEq, Repr

namespace Finding

def text (finding : Finding) : String :=
  ((finding.location.map (·.text ++ ": ")).getD "") ++ finding.message

end Finding

/-- A static check of one package. -/
abbrev StaticCheck := Atlas → ResolvedPackage → List Finding

namespace Load

/-- The name under which snippets are checked. -/
def snippetName : String := "fake_package.go"

/-- The path under which a snippet of a package is checked. -/
def snippetPath (name : String) : String := "fake/" ++ name

/-- Checks a file by itself as a package in a directory. -/
def checkSnippet (loader : Nat) (dir fileName code : String) (isBuildable : SourceFile → Bool) :
    Load (Except LoadError ResolvedPackage) := do
  let w ← get
  match Site.parseText (FileSet.empty w.atlas.nextSpace) fileName code with
  | .error error => return .error error
  | .ok (space, file) =>
    set { w with atlas := w.atlas.addSpace space }
    let raw := RawPackage.assemble (snippetPath file.packageName.name) dir space
      [⟨file, isBuildable file⟩]
    check ⟨loader, (w.loader loader).config.workingDir⟩ raw

/-- Checks a snippet in a scratch directory. Foreign code takes part in its build. -/
def evalPackage (loader : Nat) (scratch code : String) :
    Load (Except LoadError ResolvedPackage) := do
  let build := { ((← get).loader loader).config.build with foreignInterop := true }
  checkSnippet loader scratch (Path.join scratch snippetName) code fun file ↦
    build.matchesFile file.baseName code file.importsForeign

/-- Checks a snippet in the working directory and runs a static check on it. -/
def evalTest (loader : Nat) (test : StaticCheck) (code : String) :
    Load (Except LoadError (List Finding)) := do
  let dir := ((← get).loader loader).config.workingDir
  match ← checkSnippet loader dir snippetName code fun _ ↦ true with
  | .error error => return .error error
  | .ok package => return .ok (test (← get).atlas package)

end Load

end PackageAtlas
