import ReplEngine.ClassSpace.HostRegistry
set_option autoImplicit false

/-!
# Rebuilding exceptions

A descriptor becomes a live exception of its class when the class is a host exception type and
one of its constructors succeeds.  Constructors are tried in a fixed order; the first that
succeeds wins, and its exception gets the stack trace of the descriptor.  Causes are rebuilt
first, innermost to outermost.
-/

namespace ReplEngine

namespace Descriptor

/-- The exception that the first succeeding constructor builds. -/
def probe (type : ExceptionType) (message : Option String) (cause : Option Throwable) :
    List ConstructorShape → Option LiveException
  | [] => none
  | shape :: shapes =>
    match type.construct shape message cause with
    | .ok e => some e
    | .error _ => probe type message cause shapes

/-- A live exception for one link, over a cause already rebuilt. -/
def rebuildLink (host : HostRegistry) (l : Link) (cause : Option Throwable) :
    Option LiveException := do
  let type ← host.exceptionType? l.className
  let e ← probe type l.message cause ConstructorShape.probeOrder
  pure (e.withFrames l.frames)

/-- What becomes of a link and the causes behind it. -/
def rebuildChain (host : HostRegistry) (l : Link) : List Link → Throwable
  | [] =>
    match rebuildLink host l none with
    | some e => .live e
    | none => .described ⟨l, []⟩
  | c :: cs =>
    match rebuildLink host l (some (rebuildChain host c cs)) with
    | some e => .live e
    | none => .described ⟨l, c :: cs⟩

/-- Rebuilds an exception; one that cannot be rebuilt is kept as it is. -/
def rebuild (host : HostRegistry) (d : Descriptor) : Throwable :=
  rebuildChain host d.link d.causes

end Descriptor

end ReplEngine
