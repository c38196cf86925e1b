import ReplEngine.ClassSpace.Archive
import ReplEngine.Text.Blank
set_option autoImplicit false

/-!
# The search path

Directories and archives, searched in the order in which they were added.  What an entry is, is
decided when it is added.  An archive is read when it is first searched, and once only if that
succeeds.  An entry that cannot be read is passed over.
-/

namespace ReplEngine

/-- An entry of the search path. -/
inductive SearchEntry where
  | directory (path : String)
  | archive (path : String) (contents : Option Archive)
  deriving DecidableEq, Repr, Inhabited

namespace SearchEntry

/-- A directory, or else an archive not read yet. -/
def ofPath (files : FileTree) (path : String) : SearchEntry :=
  if files.isDirectory path.toList then .directory path else .archive path none

/-- The path that was added. -/
def path : SearchEntry → String
  | directory path => path
  | archive path _ => path

/-- Looks a class up, and keeps the contents of an archive read for it. -/
def lookup (files : FileTree) (name : String) : SearchEntry → Option ClassBytes × SearchEntry
  | directory path =>
    match files.read (loosePath path name) with
    | .ok bytes => (some ⟨name, bytes⟩, directory path)
    | .error _ => (none, directory path)
  | archive path (some contents) => (contents.find? name, archive path (some contents))
  | archive path none =>
    match Archive.read files path with
    | .ok contents => (contents.find? name, archive path (some contents))
    | .error _ => (none, archive path none)

end SearchEntry

namespace SearchPath

/-- Looks a class up in every entry until one has it; tells which one, and what became of the
entries. -/
def find (files : FileTree) (name : String) :
    List SearchEntry → Option (ClassBytes × String) × List SearchEntry
  | [] => (none, [])
  | entry :: entries =>
    match entry.lookup files name with
    | (some found, entry) => (some (found, entry.path), entry :: entries)
    | (none, entry) =>
      let (found, entries) := find files name entries
      (found, entry :: entries)

/-- The paths in a list separated by colons, empty ones left out.  A blank list is refused. -/
def split (paths : String) : Except LoaderError (List String) :=
  if Text.isBlankText paths then .error .emptySearchPath
  else .ok (((Path.splitAt ':' paths.toList).filter (!·.isEmpty)).map String.ofList)

end SearchPath

end ReplEngine
