import ReplEngine.ClassSpace.Loader
import ReplEngine.Diagnostic
import ReplEngine.Engine.NextUnit
set_option autoImplicit false

/-!
# The compiler that an engine drives

The engine knows a compiler by six operations and nothing else: it splits source text into
units, compiles a unit, runs it against the classes of the session, says what is wrong with a
rejected one, defines classes from the bytes it emits, and can be closed.
-/

namespace ReplEngine

/-! ## What happened to a unit -/

/-- What a snippet is. -/
inductive SnippetKind where
  | variable
  | method
  | typeDecl
  | expression
  /-- A valid unit that binds nothing. -/
  | statement
  deriving DecidableEq, Repr, Inhabited

/-- One named entity of a unit. -/
structure Snippet where
  /-- Different for every snippet of a session. -/
  id : UInt32
  kind : SnippetKind
  name : String
  source : String
  deriving DecidableEq, Repr, Inhabited

/-- How the number of a snippet is written. -/
def snippetLabel (id : UInt32) : String := s!"#{id.toNat}"

/-- What happened when a snippet ran. -/
inductive SnippetResult where
  /-- It ran; a variable or an expression with a value comes with the text of the value. -/
  | valid (value : Option String)
  | rejected
  | threw (exception : Descriptor)
  deriving DecidableEq, Repr, Inhabited

/-- A snippet and what happened to it. -/
structure Event where
  snippet : Snippet
  result : SnippetResult
  deriving DecidableEq, Repr, Inhabited

/-! ## The operations -/

/-- The compiler itself failed; nothing can be said about the unit. -/
structure CompilerFailure where
  message : String
  deriving DecidableEq, Repr, Inhabited

/-- A compiled unit: the classes to install before it runs, and what to run. -/
structure Compiled (υ : Type) where
  classes : List ClassBytes
  unit : υ

/-- A compiler with states `σ` and executable units `υ`. -/
structure Compiler (σ υ : Type) where
  /-- The first unit of a text. -/
  nextUnit : σ → String → NextUnit
  compile : String → σ → Except CompilerFailure (Compiled υ) × σ
  /-- Runs a unit whose classes are installed. -/
  execute : FileTree → υ → σ → Loader → Except CompilerFailure (List Event) × σ × Loader
  /-- What is on record about a rejected snippet. -/
  diagnostics : σ → Snippet → List Diag
  definer : Definer
  close : σ → σ

end ReplEngine
