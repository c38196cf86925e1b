set_option autoImplicit false

/-!
# Prompts and banners

The texts around what a session answers, with colour for users who can see it.
-/

namespace ReplEngine

/-- When colour is used. -/
inductive ColorMode where
  /-- At a terminal. -/
  | auto
  | always
  | never
  deriving DecidableEq, Repr, Inhabited

/-- Colour is used, given whether the user sits at a terminal. -/
def ColorMode.usesColor (mode : ColorMode) (terminal : Bool) : Bool :=
  match mode with
  | auto => terminal
  | always => true
  | never => false

/-- How the replies to one user are decorated. -/
structure PromptStyle where
  color : Bool := false
  /-- A blank line stands before every reply. -/
  console : Bool := false
  deriving DecidableEq, Repr, Inhabited

namespace PromptStyle

/-- Stands in front of input that starts a unit. -/
def prompt : String := "kiln> "

/-- Stands in front of input that continues a unit. -/
def continuationPrompt : String := "...> "

/-- Ends a session instead of being evaluated. -/
def exitCommand : String := "\x23exit"

/-- Shown when a session starts. -/
def greetingText : String :=
  "| You will not see chat messages while using the REPL.\n"
    ++ "|  Type \x23exit to quit the REPL at any time."

/-- Shown when a session ends. -/
def goodbyeText : String := "|  Goodbye!"

/-- The escape sequence of prompts. -/
def promptColor : String := "\x1b[36m"

/-- The escape sequence of everything else that is painted. -/
def mutedColor : String := "\x1b[90m"

/-- The escape sequence that ends a colour. -/
def resetColor : String := "\x1b[0m"

/-- The style for a mode and a terminal, without blank lines. -/
def ofMode (mode : ColorMode) (terminal : Bool) : PromptStyle := ⟨mode.usesColor terminal, false⟩

/-- The style with or without blank lines. -/
def withConsole (s : PromptStyle) (console : Bool) : PromptStyle := { s with console := console }

/-- A text in a colour, if the style has colour. -/
def paint (s : PromptStyle) (color text : String) : String :=
  if s.color then color ++ text ++ resetColor else text

/-- What stands before a reply. -/
def lead (s : PromptStyle) : String := if s.console then "\n" else ""

/-- The greeting. -/
def greeting (s : PromptStyle) : String := s.lead ++ s.paint mutedColor greetingText

/-- The farewell. -/
def goodbye (s : PromptStyle) : String := s.paint mutedColor goodbyeText

/-- The input behind its prompt, and what there is to show on lines of its own. -/
def reply (s : PromptStyle) (holding : Bool) (input : String) (shown : Option String) : String :=
  let prompt := if holding then continuationPrompt else prompt
  let echo := s.lead ++ s.paint promptColor prompt ++ input
  match shown with
  | some text => echo ++ "\n" ++ s.paint mutedColor text
  | none => echo

end PromptStyle

end ReplEngine
