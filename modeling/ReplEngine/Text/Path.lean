set_option autoImplicit false

/-!
# Paths

A path is a text whose components are separated by slashes.  Empty components and `.` stand for
the place they are in, `..` for the place above it.
-/

namespace ReplEngine.Path

/-- The parts of a text between occurrences of a character; one more than there are
occurrences. -/
def splitAt (mark : Char) : List Char → List (List Char)
  | [] => [[]]
  | c :: cs =>
    if c = mark then [] :: splitAt mark cs
    else
      match splitAt mark cs with
      | part :: parts => (c :: part) :: parts
      | [] => [[c]]

/-- The components of a path, empty ones included. -/
def components (path : List Char) : List (List Char) := splitAt '/' path

/-- The path starts at the root of all files. -/
def isAbsolute (path : List Char) : Bool := path.head? == some '/'

/-- A path seen from another one.  An absolute path stands on its own. -/
def join (base path : List Char) : List Char :=
  if isAbsolute path then path
  else if base.isEmpty || base.getLast? == some '/' then base ++ path
  else base ++ '/' :: path

/-- A component that stands for the place it is in. -/
def isHere (component : List Char) : Bool := component.isEmpty || component == ['.']

/-- The place that the last component of a path is in.  What stands for the same place in front
of that component or behind it is dropped. -/
def parent (path : List Char) : List Char :=
  match ((components path).reverse.dropWhile isHere).tail.dropWhile isHere with
  | [] => if isAbsolute path then ['/'] else []
  | above => ['/'].intercalate above.reverse

/-! ## Extensions -/

/-- Splits a file name at its last dot.  A dot in front of the whole name starts no extension. -/
def splitExtension (name : List Char) : List Char × Option (List Char) :=
  match (name.reverse.span (· != '.')) with
  | (_, []) => (name, none)
  | (_, [_]) => (name, none)
  | (extension, _ :: stem) => (stem.reverse, some extension.reverse)

/-- The extension of a file name. -/
def extension? (name : List Char) : Option (List Char) := (splitExtension name).2

/-- Replaces the extension of the last component, whatever stands for the same place behind it
dropped.  A path that ends in no name is left as it is. -/
def withExtension (path extension : List Char) : List Char :=
  match (components path).reverse.dropWhile isHere with
  | [] => path
  | last :: before =>
    if last = ['.', '.'] then path
    else
      let name := (splitExtension last).1 ++ '.' :: extension
      ['/'].intercalate (before.reverse ++ [name])

end ReplEngine.Path
