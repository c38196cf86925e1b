set_option autoImplicit false

/-!
# The first unit of a text

What a compiler says about text that was typed: that it starts with a complete unit, that more
has to be typed first, or that there is nothing in it to run.
-/

namespace ReplEngine

/-- How the front of a text forms a unit. -/
inductive NextUnit where
  /-- A complete unit, and the text behind it. -/
  | complete (unit rest : String)
  /-- More input is needed before anything can run. -/
  | incomplete
  /-- Nothing but blanks and comments. -/
  | empty
  deriving DecidableEq, Repr, Inhabited

end ReplEngine
