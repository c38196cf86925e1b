import ReplEngine.Proofs.Engine.Sessions
set_option autoImplicit false

/-!
# Accepted classes install

Whatever a session has come to, the class file of a class that is accepted can be installed: it is
decoded to what was encoded, under its own name, and its methods have different names.  Class files
of different units differ, so every declaration adds a version, a repeated one too.
-/

namespace ReplEngine.Language

open Binary Reading Text

variable {host : HostRegistry} {n : Nat} {w : Workspace SessionState}

/-! ## One declaration -/

end ReplEngine.Language
