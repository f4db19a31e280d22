import PackageAtlas.Text.Split

/-!
Path texts. A path keeps the text that joining gave it, and is compared part by part: empty parts
and dots inside a path do not count.
-/

set_option autoImplicit false
set_option relaxedAutoImplicit false

namespace PackageAtlas.Path

/-- A path below a base. An absolute path stands for itself. -/
def join (base path : String) : String :=
  if path.startsWith "/" || base.isEmpty then path
  else if base.endsWith "/" then base ++ path
  else base ++ "/" ++ path

/-- The parts of a path: the root of an absolute path, a dot at the start of a relative one, and the
names, two dots among them. -/
def parts (path : String) : List String :=
  let texts := (Text.splitOn '/' path.toList).map String.ofList
  let names := (texts.drop 1).filter fun text ↦ text != "" && text != "."
  match texts.head? with
  | none => []
  | some "" => if path.isEmpty then [] else "/" :: names
  | some first => first :: names

/-- Whether two path texts are the same path. -/
def same (first second : String) : Bool := parts first == parts second

/-- The rest of a list after a known start. -/
def dropParts? : List String → List String → Option (List String)
  | [], path => some path
  | _ :: _, [] => none
  | part :: root, name :: path => if part = name then dropParts? root path else none

/-- The parts of a path that follow those of a root. -/
def below? (root path : String) : Option (List String) :=
  dropParts? (parts root) (parts path)

/-- Parts with slashes between them. -/
def slashed (parts : List String) : String := "/".intercalate parts

/-- The name of a file without what follows its last dot, and that; a dot at the start of a name
does not count. -/
def extension? (name : String) : Option String :=
  let reversed := name.toList.reverse
  let ending := reversed.takeWhile (· != '.')
  if ending.length + 1 < reversed.length && name != ".." then some (String.ofList ending.reverse)
  else none

end PackageAtlas.Path
