import ReplEngine.ClassSpace.Class
import ReplEngine.ClassSpace.FileTree
set_option autoImplicit false

/-!
# Class archives and loose classes

An archive is one file that holds compiled classes in order.  Loose classes stand in a
directory, one file for each, at the path that the dotted name spells out.
-/

namespace ReplEngine

open Binary

/-! ## Refusals -/

/-- Why a class could not be resolved, defined or read. -/
inductive LoaderError where
  | classNotFound (name : String)
  | define (name : String) (error : DefineError)
  | link (name : String) (error : LinkError)
  | archive (path : String) (error : DecodeError)
  | io (path : String) (error : FileError)
  | emptySearchPath
  deriving DecidableEq, Repr, Inhabited

/-- The wording of a refusal. -/
def LoaderError.message : LoaderError → String
  | classNotFound name => s!"{name} not found"
  | define name error => s!"cannot define class {name}: {error.message}"
  | link name error => s!"cannot link class {name}: {error.message}"
  | archive path error => s!"unreadable class archive {path}: {error.message}"
  | io path error => s!"I/O error on {path}: {error.message}"
  | emptySearchPath => "search path entry is empty"

/-! ## Archives -/

/-- Compiled classes, bundled. -/
structure Archive where
  classes : List ClassBytes
  deriving DecidableEq, Repr, Inhabited

/-- A compiled class. -/
def putClassBytes (c : ClassBytes) : Bytes :=
  putText c.name ++ (putLength c.bytes.length ++ c.bytes)

/-- A compiled class. -/
def getClassBytes : Get ClassBytes := do
  let name ← getText
  let bytes ← getList getByte
  pure ⟨name, bytes⟩

namespace Archive

/-- The extension of archives. -/
def extension : String := "kar"

/-- The first class of a name. -/
def find? (a : Archive) (name : String) : Option ClassBytes :=
  a.classes.find? fun c => c.name == name

/-- The bytes of an archive. -/
def encode (a : Archive) : Bytes := putList putClassBytes a.classes

/-- Reads an archive; bytes behind it are ignored. -/
def decode (bytes : Bytes) : Except DecodeError Archive :=
  Binary.decode (Archive.mk <$> getList getClassBytes) bytes

/-- Reads an archive from a file. -/
def read (files : FileTree) (path : String) : Except LoaderError Archive := do
  let bytes ← (files.read path.toList).mapError (.io path)
  (decode bytes).mapError (.archive path)

/-- Writes an archive to a file. -/
def write (a : Archive) (files : FileTree) (path : String) : Except LoaderError FileTree :=
  (files.save path.toList a.encode).mapError (.io path)

end Archive

/-! ## Loose classes -/

/-- The extension of loose classes. -/
def looseExtension : String := "kclass"

/-- The path of a loose class: the parts of its name below the directory, and the extension in
place of any that the last part has. -/
def loosePath (directory name : String) : List Char :=
  let parts := Path.splitAt '.' name.toList
  Path.withExtension (parts.foldl Path.join directory.toList) looseExtension.toList

/-! ## Finding archives -/

/-- Two texts agree but for the case of ASCII letters. -/
def sameIgnoringCase (a b : List Char) : Bool := a.map Char.toLower == b.map Char.toLower

/-- The plain files of a directory with the given extension, whatever its case, by name. -/
def findArchives (files : FileTree) (directory extension : String) :
    Except LoaderError (List String) := do
  let names ← (files.list directory.toList).mapError (.io directory)
  let matching := names.filter fun name =>
    match Path.extension? name with
    | some found => sameIgnoringCase found extension.toList
    | none => false
  let paths := matching.map (Path.join directory.toList)
  pure ((paths.filter files.isFile).map String.ofList)

end ReplEngine
