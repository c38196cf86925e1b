import ReplEngine.ClassSpace.Class
import ReplEngine.Text.Lines
set_option autoImplicit false

/-!
# Classes written as plain text

The least definer: the bytes of a class are its members, one a line.  A text that starts with
`!` refuses to be defined, one that starts with `?` refuses to list its members; the rest of the
text says why.
-/

namespace ReplEngine

/-- Defines a class from a text that lists its members. -/
def defineListing : Definer := fun _ bytes =>
  match Text.Utf8.decode bytes with
  | .error _ => .error .notUtf8
  | .ok ('!' :: reason) => .error (.refused (String.ofList reason))
  | .ok ('?' :: reason) => .ok (.listing (.error (.refused (String.ofList reason))))
  | .ok text => .ok (.listing (.ok ((Text.textLines text).map String.ofList)))

end ReplEngine
