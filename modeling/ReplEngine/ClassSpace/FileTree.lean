import ReplEngine.Text.Bytes
import ReplEngine.Text.Path
import ReplEngine.Binary.Layout
set_option autoImplicit false

/-!
# A tree of files

The files that the class space reads, as a value.  Paths are seen from the root of the tree.
What lies outside it is known to be directories, and nothing is found there.  A path is refused as
a whole before anything is looked up; a name in it is refused where it would be looked up.
-/

namespace ReplEngine

open Binary

/-- What a path can name. -/
inductive FileNode where
  | directory
  | file (bytes : Bytes)
  deriving DecidableEq, Repr, Inhabited

/-- Why a file could not be used. -/
inductive FileError where
  | notFound
  | notDirectory
  | isDirectory
  /-- A name or a whole path that takes too many bytes. -/
  | nameTooLong
  /-- A path that holds the null character. -/
  | nulInPath
  deriving DecidableEq, Repr, Inhabited

/-- The wording of the operating system. -/
def FileError.message : FileError → String
  | notFound => "No such file or directory (os error 2)"
  | notDirectory => "Not a directory (os error 20)"
  | isDirectory => "Is a directory (os error 21)"
  | nameTooLong => "File name too long (os error 36)"
  | nulInPath => "file name contained an unexpected NUL byte"

/-- Files and directories under a root, each by the names that lead to it. -/
structure FileTree where
  nodes : List (List (List Char) × FileNode) := []
  deriving DecidableEq, Repr, Inhabited

namespace FileTree

/-- A place that a path leads to. -/
inductive Place where
  /-- Inside the tree, by the names that lead there. -/
  | inside (names : List (List Char))
  /-- A directory outside the tree. -/
  | outside
  deriving DecidableEq, Repr, Inhabited

/-- What stands at a place inside the tree. -/
def node? (tree : FileTree) (names : List (List Char)) : Option FileNode :=
  if names.isEmpty then some .directory else tree.nodes.lookup names

/-- The bytes that a name may take. -/
def longestName : Nat := 255

/-- The bytes that a path may take. -/
def longestPath : Nat := 4095

/-- Goes one component on from a directory. -/
def enter (place : Place) (component : List Char) : Except FileError Place :=
  if Path.isHere component then .ok place
  else if component = ['.', '.'] then
    match place with
    | .outside => .ok .outside
    | .inside names => .ok (if names.isEmpty then .outside else .inside names.dropLast)
  else if longestName < Text.byteLength component then .error .nameTooLong
  else
    match place with
    | .outside => .error .notFound
    | .inside names => .ok (.inside (names ++ [component]))

/-- What stands at a place. -/
def look (tree : FileTree) : Place → Except FileError FileNode
  | .outside => .ok .directory
  | .inside names =>
    match tree.node? names with
    | some node => .ok node
    | none => .error .notFound

/-- Follows components from a place; each one has to start from a directory. -/
def follow (tree : FileTree) (place : Place) : List (List Char) → Except FileError Place
  | [] => .ok place
  | component :: rest => do
    match ← tree.look place with
    | .file _ => .error .notDirectory
    | .directory => tree.follow (← enter place component) rest

/-- Where a path starts, if it can be a path at all. -/
def start (path : List Char) : Except FileError Place :=
  if path.contains '\x00' then .error .nulInPath
  else if path.isEmpty then .error .notFound
  else if longestPath < Text.byteLength path then .error .nameTooLong
  else .ok (if Path.isAbsolute path then .outside else .inside [])

/-- What a path names, and where that is. -/
def resolve (tree : FileTree) (path : List Char) : Except FileError (Place × FileNode) := do
  let place ← tree.follow (← start path) (Path.components path)
  let node ← tree.look place
  pure (place, node)

/-- The path names a directory. -/
def isDirectory (tree : FileTree) (path : List Char) : Bool :=
  match tree.resolve path with
  | .ok (_, .directory) => true
  | _ => false

/-- The path names a plain file. -/
def isFile (tree : FileTree) (path : List Char) : Bool :=
  match tree.resolve path with
  | .ok (_, .file _) => true
  | _ => false

/-- The bytes of a file. -/
def read (tree : FileTree) (path : List Char) : Except FileError Bytes := do
  match ← tree.resolve path with
  | (_, .file bytes) => .ok bytes
  | (_, .directory) => .error .isDirectory

/-- The names in a directory, in ascending order. -/
def list (tree : FileTree) (path : List Char) : Except FileError (List (List Char)) := do
  match ← tree.resolve path with
  | (_, .file _) => .error .notDirectory
  | (.outside, .directory) => .ok []
  | (.inside names, .directory) =>
    let found := tree.nodes.filterMap fun (place, _) =>
      if place.dropLast = names then place.getLast? else none
    .ok (found.mergeSort fun a b => !(decide (b < a)))

/-! ## Changing a tree -/

/-- Puts a node at a place, in place of what stood there. -/
def put (tree : FileTree) (names : List (List Char)) (node : FileNode) : FileTree :=
  ⟨(names, node) :: tree.nodes.filter (·.1 ≠ names)⟩

/-- Writes a file in a directory that is there.  A path that ends in a slash, in `.` or in `..`
can name a directory only. -/
def save (tree : FileTree) (path : List Char) (bytes : Bytes) : Except FileError FileTree := do
  let place ← start path
  match (Path.components path).reverse.dropWhile List.isEmpty with
  | [] => .error .isDirectory
  | last :: above =>
    let place ← tree.follow place above.reverse
    match ← tree.look place with
    | .file _ => .error .notDirectory
    | .directory =>
      if path.getLast? == some '/' || last == ['.'] || last == ['.', '.'] then
        .error .isDirectory
      else
        match ← enter place last with
        | .outside => .error .isDirectory
        | .inside names =>
          match tree.node? names with
          | some .directory => .error .isDirectory
          | _ => .ok (tree.put names (.file bytes))

/-- Follows components from a place and makes the directories that are missing, as far as this
can be done. -/
def makeWay (tree : FileTree) (place : Place) : List (List Char) → FileTree
  | [] => tree
  | component :: rest =>
    match enter place component with
    | .error _ => tree
    | .ok .outside => tree.makeWay .outside rest
    | .ok (.inside names) =>
      match tree.node? names with
      | some (.file _) => tree
      | some .directory => tree.makeWay (.inside names) rest
      | none => (tree.put names .directory).makeWay (.inside names) rest

/-- Makes a directory and those that are missing on the way to it, as far as this can be done.
A path that ends in `.` names a directory that has to be there. -/
def makeDirectory (tree : FileTree) (path : List Char) : FileTree :=
  match start path with
  | .error _ => tree
  | .ok place =>
    if (Path.components path).reverse.find? (!·.isEmpty) == some ['.'] then
      tree.makeWay place (Path.components (Path.parent path))
    else tree.makeWay place (Path.components path)

/-- Writes a file if that can be done, and makes the directories that are missing on the way. -/
def write (tree : FileTree) (path : List Char) (bytes : Bytes) : FileTree :=
  let tree := tree.makeDirectory (Path.parent path)
  (tree.save path bytes).toOption.getD tree

end FileTree

end ReplEngine
