import ReplEngine.Engine.Outcome
set_option autoImplicit false

/-!
# The evaluation loop

An evaluator takes text as it is typed.  It runs every complete unit in the text held plus the
new input, in order, and holds a unit that is not complete for the next call.  The first failure
ends the call and drops the text behind it.
-/

namespace ReplEngine

/-! ## Held input -/

/-- Text that does not form a complete unit yet. -/
structure PendingInput where
  text : String := ""
  deriving DecidableEq, Repr, Inhabited

namespace PendingInput

/-- The text held with input behind it; nothing stays held. -/
def merge (p : PendingInput) (input : String) : String × PendingInput := (p.text ++ input, {})

/-- Holds a text in place of any other. -/
def hold (_ : PendingInput) (text : String) : PendingInput := ⟨text⟩

/-- Holds nothing. -/
def clear (_ : PendingInput) : PendingInput := {}

/-- Some text is held. -/
def isHolding (p : PendingInput) : Bool := !p.text.isEmpty

end PendingInput

/-! ## The evaluator -/

/-- What an evaluator is built with. -/
structure EvaluatorConfig where
  /-- Directories whose archives are put on the search path. -/
  roots : List String := []
  archiveExtension : String := Archive.extension
  deriving DecidableEq, Repr, Inhabited

/-- Held input, and the workspace that units run in. -/
structure Evaluator (σ : Type) where
  workspace : Workspace σ
  pending : PendingInput := {}

/-- Works on an evaluator; a refusal keeps what was done before it. -/
abbrev EvaluatorM (σ α : Type) : Type := ExceptT EngineError (StateM (Evaluator σ)) α

namespace Evaluator

variable {σ υ : Type}

/-- Puts the archives of directories on the search path, directory by directory. -/
def addRoots (files : FileTree) (archiveExtension : String) (w : Workspace σ) :
    List String → Except EngineError (Workspace σ)
  | [] => .ok w
  | root :: roots => do
    let archives ← (findArchives files root archiveExtension).mapError .classpath
    addRoots files archiveExtension (archives.foldl (fun w path => w.addEntry files path) w) roots

/-- An evaluator over a compiler, with the archives of the configured directories on its search
path. -/
def create (c : Compiler σ υ) (state : σ) (host : HostRegistry) (files : FileTree)
    (config : EvaluatorConfig) : Except EngineError (Evaluator σ) := do
  let w ← addRoots files config.archiveExtension (Workspace.ofCompiler c state host) config.roots
  pure ⟨w, {}⟩

/-- Does something with the workspace. -/
def onWorkspace {α : Type} (act : WorkspaceM σ α) : EvaluatorM σ α := do
  let e ← get
  let (result, w) := act.run e.workspace
  set { e with workspace := w }
  match result with
  | .ok a => pure a
  | .error err => throw err

/-- Holds a text. -/
def hold (text : String) : EvaluatorM σ Unit :=
  modify fun e => { e with pending := e.pending.hold text }

/-- Runs the units at the front of a text, in at most `rounds` rounds. -/
def runUnits (c : Compiler σ υ) (files : FileTree) : Nat → String → EvaluatorM σ (List Outcome)
  | 0, _ => throw .unfinished
  | rounds + 1, candidate => do
    match ← onWorkspace (Workspace.classify c candidate) with
    | .empty => pure []
    | .incomplete =>
      hold candidate
      pure []
    | .complete unit rest =>
      let events ← onWorkspace (Workspace.evaluate c files unit)
      let outcomes ← onWorkspace (Outcome.ofEvents c events)
      if outcomes.any Outcome.isFailure || rest.isEmpty then pure outcomes
      else return outcomes ++ (← runUnits c files rounds rest)

/-- Runs every complete unit in the held text plus the input, in at most `rounds` rounds. -/
def evaluateWithin (c : Compiler σ υ) (files : FileTree) (rounds : Nat) (input : String) :
    EvaluatorM σ (List Outcome) := do
  let e ← get
  let (candidate, pending) := e.pending.merge input
  set { e with pending := pending }
  runUnits c files rounds candidate

/-- Runs every complete unit in the held text plus the input.  A compiler whose units take text
away needs no more rounds than there are characters, and one. -/
def evaluateOutcomes (c : Compiler σ υ) (files : FileTree) (input : String) :
    EvaluatorM σ (List Outcome) := do
  let candidate := (← get).pending.text ++ input
  evaluateWithin c files (candidate.length + 1) input

/-- Runs every complete unit in at most `rounds` rounds, and gives the text to show, if there is
any. -/
def answerWithin (c : Compiler σ υ) (files : FileTree) (rounds : Nat) (input : String) :
    EvaluatorM σ (Option String) := do
  let outcomes ← evaluateWithin c files rounds input
  let host := (← get).workspace.loader.host
  pure ((Outcome.renderAll host outcomes).filter (!·.isEmpty))

/-- Runs every complete unit, and gives the text to show, if there is any. -/
def evaluate (c : Compiler σ υ) (files : FileTree) (input : String) :
    EvaluatorM σ (Option String) := do
  let candidate := (← get).pending.text ++ input
  answerWithin c files (candidate.length + 1) input

/-- Adds every entry of a list separated by colons to the search path. -/
def extend (files : FileTree) (paths : String) : EvaluatorM σ Unit :=
  onWorkspace (Workspace.extend files paths)

/-- Holds nothing any more, and closes the workspace. -/
def close (c : Compiler σ υ) (e : Evaluator σ) : Evaluator σ :=
  ⟨e.workspace.close c, e.pending.clear⟩

/-- The workspace is closed. -/
def isClosed (e : Evaluator σ) : Bool := e.workspace.closed

/-- A unit has been started and not finished. -/
def isHolding (e : Evaluator σ) : Bool := e.pending.isHolding

end Evaluator

end ReplEngine
