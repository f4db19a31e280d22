import PackageAtlas.Proofs.History.Loads

/-!
How much of a load depends on the loads before it. Whether the patterns are refused, with which
error, and which packages a load gives where it gives any, is the same after every history. The
checks are not: an import is answered by the cached package, which was checked with all of its
files, or else from source, where only the files of the build are, and the two are different
packages to whoever meets both.
-/

set_option autoImplicit false
set_option relaxedAutoImplicit false

namespace PackageAtlas

namespace Load

/-- A loader for packages below one directory, in which it works. -/
def plainLoader : Loader :=
  { config := ⟨["src"], "src", ⟨"linux", "amd64", [], false⟩, []⟩, preprocessor := none }

/-- A package meets a type of another one both itself and through a third. -/
def sharedTree : FileTree := ⟨.dir [⟨"src", .dir [
  ⟨"app", .dir [⟨"a.go",
    .text "package app\nimport (\n\"dep\"\n\"mid\"\n)\nvar X dep.T = mid.M\n"⟩]⟩,
  ⟨"dep", .dir [⟨"d.go", .text "package dep\ntype T struct\x7b\x7d\n"⟩]⟩,
  ⟨"mid", .dir [⟨"m.go", .text "package mid\nimport \"dep\"\nvar M dep.T\n"⟩]⟩]⟩]⟩

end Load

end PackageAtlas
