import ReplEngine.Engine.Evaluator
import ReplEngine.Language.SnippetCompiler
import ReplEngine.Session.Prompt
set_option autoImplicit false

/-!
# Sessions

A session is an evaluator over the snippet compiler together with the style of its replies.  It
answers every input with a reply until it ends.
-/

namespace ReplEngine

/-- Why a session did not answer. -/
inductive SessionError where
  | alreadyActive
  | notActive
  | closed
  | engine (error : EngineError)
  deriving DecidableEq, Repr, Inhabited

/-- The wording of a refusal. -/
def SessionError.message : SessionError → String
  | alreadyActive => "a REPL session is already active for this user"
  | notActive => "no REPL session is active for this user"
  | closed => "the REPL session has ended"
  | engine error => s!"cannot start the REPL engine: {error.message}"

/-- What the user sees after one input. -/
inductive Reply where
  /-- The session goes on. -/
  | prompt (text : String)
  /-- The session is over. -/
  | farewell (text : String)
  deriving DecidableEq, Repr, Inhabited

/-- A session of one user. -/
structure Session where
  evaluator : Evaluator Language.SessionState
  style : PromptStyle
  ended : Bool := false

namespace Session

open ReplEngine.Language

/-- A session over the standard host classes. -/
def start (files : FileTree) (config : EvaluatorConfig) (style : PromptStyle) :
    Except SessionError Session := do
  let host := HostRegistry.standard
  let evaluator ←
    (Evaluator.create snippetCompiler { host := host } host files config).mapError .engine
  pure ⟨evaluator, style, false⟩

/-- The greeting of a session. -/
def greeting (s : Session) : String := s.style.greeting

/-- A unit has been started and not finished. -/
def isHolding (s : Session) : Bool := s.evaluator.isHolding

/-- Ends a session, and says whether it had not ended before. -/
def finish (s : Session) : Bool × Session :=
  if s.ended then (false, s)
  else (true, { s with evaluator := s.evaluator.close snippetCompiler, ended := true })

/-- Stands in front of the text of an engine error. -/
def errorPrefix : String := "|  Internal error: "

/-- What was printed, without breaks at its end, before what was answered. -/
def joinShown (printed : String) (result : Option String) : Option String :=
  let printed := String.ofList (Text.dropEndWhile (· == '\n') printed.toList)
  if printed.isEmpty then result
  else
    match result with
    | some text => some (printed ++ "\n" ++ text)
    | none => some printed

/-- Takes what has been printed. -/
def takePrinted (s : Session) : String × Session :=
  let w := s.evaluator.workspace
  let (printed, state) := w.state.takePrinted
  (printed, { s with evaluator := { s.evaluator with workspace := { w with state := state } } })

/-- Evaluates one input and makes up the reply. -/
def respond (s : Session) (files : FileTree) (input : String) :
    Except SessionError Reply × Session :=
  let (result, evaluator) := (Evaluator.evaluate snippetCompiler files input).run s.evaluator
  let s := { s with evaluator := evaluator }
  let reply (result : Option String) : Except SessionError Reply × Session :=
    let (printed, s) := s.takePrinted
    (.ok (.prompt (s.style.reply s.isHolding input (joinShown printed result))), s)
  match result with
  | .ok text => reply text
  | .error .closed => (.error .closed, s)
  | .error e => reply (some (errorPrefix ++ e.message))

/-- Answers one input.  The exit command ends the session. -/
def acceptInput (s : Session) (files : FileTree) (input : String) :
    Except SessionError Reply × Session :=
  if s.ended then (.error .closed, s)
  else if input = PromptStyle.exitCommand then (.ok (.farewell s.style.goodbye), s.finish.2)
  else s.respond files input

end Session

end ReplEngine
