import ReplEngine.Language.Ty
import ReplEngine.Text.Quoted
set_option autoImplicit false

/-!
# Values

What expressions evaluate to, and the two texts of a value: as `println` prints it, and as an
answer shows it, where strings are quoted.
-/

namespace ReplEngine.Language

/-- A value. -/
inductive Value where
  | int (n : Int32)
  | bool (b : Bool)
  | string (s : String)
  | null
  /-- What a call of a `void` method gives. -/
  | void
  /-- An object; no two objects of a session have the same identity. -/
  | object (cls : ClassObject) (identity : UInt32)
  | exception (descriptor : Descriptor)

namespace Value

/-- A number in base sixteen. -/
def hex (n : Nat) : String := String.ofList (Nat.toDigits 16 n)

/-- The text that `println` prints and `+` joins. -/
def display : Value → String
  | int n => toString n.toInt
  | bool b => if b then "true" else "false"
  | string s => s
  | null => "null"
  | void => ""
  | object cls identity => cls.name ++ "@" ++ hex identity.toNat
  | exception d => d.header

/-- The text that an answer shows. -/
def render : Value → String
  | string s => String.ofList (Text.Quoted.quote s.toList)
  | v => v.display

/-- The value of a variable that nothing has been stored in. -/
def default : Ty → Value
  | .int => int 0
  | .boolean => bool false
  | _ => null

/-- The message that a constructor takes from a value. -/
def toMessage : Value → Option String
  | null => none
  | v => some v.display

end Value

/-- The number of UTF-16 units of a text: two for every character past the basic plane. -/
def units16 : List Char → Nat
  | [] => 0
  | c :: cs => (if c.toNat < 0x10000 then 1 else 2) + units16 cs

end ReplEngine.Language
