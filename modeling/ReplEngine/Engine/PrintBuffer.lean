set_option autoImplicit false

/-!
# Printed output

What code prints is kept until someone takes it.
-/

namespace ReplEngine

/-- Printed lines that have not been taken. -/
structure PrintBuffer where
  text : String := ""
  deriving DecidableEq, Repr, Inhabited

namespace PrintBuffer

/-- Prints a line. -/
def println (b : PrintBuffer) (line : String) : PrintBuffer := ⟨b.text ++ line ++ "\n"⟩

/-- Everything printed since the last time, and the buffer without it. -/
def take (b : PrintBuffer) : String × PrintBuffer := (b.text, {})

end PrintBuffer

end ReplEngine
