import ReplEngine.Engine.Compiler
set_option autoImplicit false

/-!
# A compiler and the classes its code runs in

A workspace sequences what belongs together: compile, install the classes that come out, run.
Once closed it refuses to split, to run and to extend its search path.
-/

namespace ReplEngine

/-- Why an evaluation gave no outcomes. -/
inductive EngineError where
  | compiler (failure : CompilerFailure)
  | classInstall (error : Loader.InstallError)
  | missingDiagnostics (snippet : UInt32)
  | classpath (error : LoaderError)
  | closed
  /-- The rounds allowed were used up: the compiler went on handing out units. -/
  | unfinished
  deriving DecidableEq, Repr, Inhabited

/-- The wording of a refusal. -/
def EngineError.message : EngineError → String
  | compiler failure => s!"compiler failure: {failure.message}"
  | classInstall error => error.message
  | missingDiagnostics snippet => s!"rejected snippet {snippetLabel snippet} has no diagnostics"
  | classpath error => s!"classpath: {error.message}"
  | closed => "evaluator is closed"
  | unfinished => "evaluation did not finish"

/-- A compiler in some state, and the classes of the session. -/
structure Workspace (σ : Type) where
  state : σ
  loader : Loader
  closed : Bool := false

/-- Works on a workspace; a refusal keeps what was done before it. -/
abbrev WorkspaceM (σ α : Type) : Type := ExceptT EngineError (StateM (Workspace σ)) α

namespace Workspace

variable {σ υ : Type}

/-- A workspace around a compiler, with an empty class space over the host classes. -/
def ofCompiler (c : Compiler σ υ) (state : σ) (host : HostRegistry) : Workspace σ :=
  { state := state, loader := { definer := c.definer, host := host } }

/-- Refuses when the workspace is closed. -/
def requireOpen : WorkspaceM σ Unit := do
  if (← get).closed then throw .closed

/-- The first unit of a text. -/
def classify (c : Compiler σ υ) (source : String) : WorkspaceM σ NextUnit := do
  requireOpen
  pure (c.nextUnit (← get).state source)

/-- Installs classes. -/
def install (classes : List ClassBytes) : WorkspaceM σ Unit := do
  let w ← get
  let (result, loader) := (Loader.install classes).run w.loader
  set { w with loader := loader }
  match result with
  | .ok _ => pure ()
  | .error e => throw (.classInstall e)

/-- Compiles a unit. -/
def compile (c : Compiler σ υ) (unit : String) : WorkspaceM σ (Compiled υ) := do
  let w ← get
  let (result, state) := c.compile unit w.state
  set { w with state := state }
  match result with
  | .ok compiled => pure compiled
  | .error failure => throw (.compiler failure)

/-- Runs a compiled unit. -/
def execute (c : Compiler σ υ) (files : FileTree) (unit : υ) : WorkspaceM σ (List Event) := do
  let w ← get
  let (result, state, loader) := c.execute files unit w.state w.loader
  set { w with state := state, loader := loader }
  match result with
  | .ok events => pure events
  | .error failure => throw (.compiler failure)

/-- Compiles a unit, installs the classes it declares, then runs it. -/
def evaluate (c : Compiler σ υ) (files : FileTree) (unit : String) :
    WorkspaceM σ (List Event) := do
  requireOpen
  let compiled ← compile c unit
  if !compiled.classes.isEmpty then install compiled.classes
  execute c files compiled.unit

/-- What is wrong with a rejected snippet; a rejection says at least one thing. -/
def diagnosticsFor (c : Compiler σ υ) (snippet : Snippet) : WorkspaceM σ (List Diag) := do
  match c.diagnostics (← get).state snippet with
  | [] => throw (.missingDiagnostics snippet.id)
  | diags => pure diags

/-- Adds every entry of a list separated by colons to the search path. -/
def extend (files : FileTree) (paths : String) : WorkspaceM σ Unit := do
  requireOpen
  let w ← get
  match w.loader.extend files paths with
  | .ok loader => set { w with loader := loader }
  | .error e => throw (.classpath e)

/-- Adds one entry to the search path. -/
def addEntry (w : Workspace σ) (files : FileTree) (path : String) : Workspace σ :=
  { w with loader := w.loader.addEntry files path }

/-- Closes the compiler, once. -/
def close (c : Compiler σ υ) (w : Workspace σ) : Workspace σ :=
  if w.closed then w else { w with closed := true, state := c.close w.state }

end Workspace

end ReplEngine
