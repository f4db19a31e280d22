import PackageAtlas.Project.Path

/-!
Trees of directories and files, from which packages are read. The items of a directory are sorted by
name, so that every listing and every walk is. `FileNode.dirs` walks the directories that a test
lets in, parents before children.
-/

set_option autoImplicit false
set_option relaxedAutoImplicit false

namespace PackageAtlas

mutual

/-- A file or a directory. -/
inductive FileNode where
  | text (contents : String)
  /-- A file whose bytes are no text. -/
  | binary
  | dir (items : List FileItem)

/-- A file or a directory under its name. -/
structure FileItem where
  name : String
  node : FileNode

end

instance : Inhabited FileNode := ⟨.dir []⟩

/-- Why a file or a directory cannot be read. -/
inductive ReadError where
  | missing
  | noDirectory
  | noFile
  | noText
deriving DecidableEq, Repr

def ReadError.message : ReadError → String
  | missing => "No such file or directory (os error 2)"
  | noDirectory => "Not a directory (os error 20)"
  | noFile => "Is a directory (os error 21)"
  | noText => "stream did not contain valid UTF-8"

namespace FileNode

/-- The file that bytes make. -/
def ofBytes (bytes : ByteArray) : FileNode := ((String.fromUTF8? bytes).map text).getD binary

def items : FileNode → List FileItem
  | dir items => items
  | _ => []

def isDir : FileNode → Bool
  | dir _ => true
  | _ => false

def isFile (node : FileNode) : Bool := !node.isDir

def child? (node : FileNode) (name : String) : Option FileNode :=
  (node.items.find? (·.name == name)).map (·.node)

/-- The node that a path leads to from a directory below others, the innermost first. Two dots lead
back to the directory above, and from the top one to itself. -/
def follow? : List FileNode → FileNode → List String → Option FileNode
  | _, node, [] => some node
  | above, node, name :: path =>
    if !node.isDir then none
    else if name = "." then follow? above node path
    else if name = ".." then
      match above with
      | [] => follow? [] node path
      | parent :: outer => follow? outer parent path
    else (node.child? name).bind fun child ↦ follow? (node :: above) child path

/-! ### Walks -/

mutual

/-- The directories below a directory, itself first, by the names that lead to them. Only those are
entered that a test lets in. -/
def dirs (enter : List String → Bool) (path : List String) : FileNode → List (List String)
  | dir items => path :: dirsIn enter path items
  | _ => []

def dirsIn (enter : List String → Bool) (path : List String) :
    List FileItem → List (List String)
  | [] => []
  | ⟨name, node⟩ :: rest =>
    (if enter (path ++ [name]) then dirs enter (path ++ [name]) node else []) ++
      dirsIn enter path rest

end

/-! ### Changes -/

/-- The items of a directory after a change to the node of a name. -/
def alterItem (name : String) (change : Option FileNode → Option FileNode) :
    List FileItem → List FileItem
  | [] => (change none).toList.map (⟨name, ·⟩)
  | item :: rest =>
    if item.name = name then (change (some item.node)).toList.map (⟨name, ·⟩) ++ rest
    else if name < item.name then (change none).toList.map (⟨name, ·⟩) ++ item :: rest
    else item :: alterItem name change rest

/-- A tree after a change to the node of a path. Missing directories on the path are made. -/
def alter (change : Option FileNode → Option FileNode) :
    List String → Option FileNode → Option FileNode
  | [], node => change node
  | name :: path, node =>
    some (dir (alterItem name (alter change path) ((node.map items).getD [])))

end FileNode

/-- The directory that all paths start from. -/
structure FileTree where
  top : FileNode
deriving Inhabited

namespace FileTree

def empty : FileTree := ⟨.dir []⟩

/-- What a path stands for. -/
def node? (tree : FileTree) (path : String) : Option FileNode :=
  if path.isEmpty then none else FileNode.follow? [] tree.top (Path.parts path)

def isDir (tree : FileTree) (path : String) : Bool := (tree.node? path).any FileNode.isDir

/-- The items of a directory. -/
def list (tree : FileTree) (path : String) : Except ReadError (List FileItem) :=
  match tree.node? path with
  | none => .error .missing
  | some (.dir items) => .ok items
  | some _ => .error .noDirectory

/-- The text of a file. -/
def read (tree : FileTree) (path : String) : Except ReadError String :=
  match tree.node? path with
  | none => .error .missing
  | some (.text contents) => .ok contents
  | some .binary => .error .noText
  | some (.dir _) => .error .noFile

/-- The directories below a path that a test lets in, by the names that lead to them from there. -/
def walk (tree : FileTree) (path : String) (enter : List String → Bool) : List (List String) :=
  ((tree.node? path).map (FileNode.dirs enter [])).getD []

/-- The tree after a change to what a path stands for. -/
def alter (tree : FileTree) (path : String) (change : Option FileNode → Option FileNode) :
    FileTree :=
  ⟨(FileNode.alter change (Path.parts path) (some tree.top)).getD (.dir [])⟩

/-- Puts a file, in place of what was there. -/
def put (tree : FileTree) (path : String) (file : FileNode) : FileTree :=
  tree.alter path fun _ ↦ some file

/-- Makes a directory, unless it is there. -/
def makeDir (tree : FileTree) (path : String) : FileTree :=
  tree.alter path fun node ↦ some (node.getD (.dir []))

/-- Removes a file or a whole directory. -/
def remove (tree : FileTree) (path : String) : FileTree :=
  if (tree.node? path).isSome then tree.alter path fun _ ↦ none else tree

end FileTree

end PackageAtlas
