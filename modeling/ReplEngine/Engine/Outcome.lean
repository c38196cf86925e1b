import ReplEngine.Engine.Workspace
import ReplEngine.Throwable.Rebuild
set_option autoImplicit false

/-!
# Outcomes

What a unit did, in terms that can be shown, and the text that shows it.  A call is answered
with one text: that of the first failure, else that of the last outcome.
-/

namespace ReplEngine

/-- What a unit did. -/
inductive Outcome where
  | method (name : String)
  | typeDecl (name : String)
  | value (name text : String)
  /-- Ran, and there is nothing to show. -/
  | silent
  | failure (exception : Descriptor)
  /-- The spans of the diagnostics point into `source`. -/
  | rejected (source : String) (diagnostics : List Diag)
  deriving DecidableEq, Repr, Inhabited

namespace Outcome

/-- Failures end an evaluation. -/
def isFailure : Outcome → Bool
  | failure _ | rejected _ _ => true
  | _ => false

/-! ## From events -/

/-- The outcome of a snippet that ran.  A statement has none. -/
def ofValid (snippet : Snippet) (text : Option String) : Option Outcome :=
  match snippet.kind with
  | .variable => some (.value snippet.name (text.getD ""))
  | .method => some (.method snippet.name)
  | .typeDecl => some (.typeDecl snippet.name)
  | .expression => some .silent
  | .statement => none

variable {σ υ : Type}

/-- The outcome of an event, if it has one; rejections fetch their diagnostics. -/
def ofEvent (c : Compiler σ υ) (event : Event) : WorkspaceM σ (Option Outcome) :=
  match event.result with
  | .threw exception => pure (some (.failure exception))
  | .rejected => do
    return some (.rejected event.snippet.source (← Workspace.diagnosticsFor c event.snippet))
  | .valid text => pure (ofValid event.snippet text)

/-- The outcomes of events, in order. -/
def ofEvents (c : Compiler σ υ) : List Event → WorkspaceM σ (List Outcome)
  | [] => pure []
  | event :: events => do
    let outcome ← ofEvent c event
    return outcome.toList ++ (← ofEvents c events)

/-! ## As text -/

/-- The text that shows an outcome. -/
def render (host : HostRegistry) : Outcome → String
  | .method name => s!"created method {name}()"
  | .typeDecl name => s!"created class {name}"
  | .value name text => s!"{name} ==> {text}"
  | .silent => ""
  | .failure exception => (exception.rebuild host).shownTrace
  | .rejected source diagnostics => Diag.report source diagnostics

/-- The text for a whole call: the first failure, else the last outcome; none without
outcomes. -/
def renderAll (host : HostRegistry) (outcomes : List Outcome) : Option String :=
  ((outcomes.find? isFailure).or outcomes.getLast?).map (render host)

end Outcome

end ReplEngine
