import ReplEngine.Throwable
import ReplEngine.Text.Inspect
set_option autoImplicit false

/-!
# Exception types and their constructors

A type declares at most one constructor of each shape.  A constructor takes what its shape names
and may refuse; what it builds is its own business.
-/

namespace ReplEngine

/-- The parameter lists that a constructor can have. -/
inductive ConstructorShape where
  | messageCause
  | message
  | cause
  | noArgs
  deriving DecidableEq, Repr, Inhabited

namespace ConstructorShape

/-- The order in which constructors are tried. -/
def probeOrder : List ConstructorShape := [messageCause, message, cause, noArgs]

/-- The signature of a constructor of this shape. -/
def signature : ConstructorShape → String
  | messageCause => "<init>(String, Throwable)"
  | message => "<init>(String)"
  | cause => "<init>(Throwable)"
  | noArgs => "<init>()"

/-- The name of the shape itself. -/
def label : ConstructorShape → String
  | messageCause => "MessageCause"
  | message => "Message"
  | cause => "Cause"
  | noArgs => "NoArgs"

end ConstructorShape

/-- What is handed to a constructor. -/
structure ConstructorArgs where
  message : Option String := none
  cause : Option Throwable := none
  deriving DecidableEq, Repr, Inhabited

/-- The arguments that a shape takes, out of a message and a cause. -/
def ConstructorShape.select (message : Option String) (cause : Option Throwable) :
    ConstructorShape → ConstructorArgs
  | .messageCause => ⟨message, cause⟩
  | .message => ⟨message, none⟩
  | .cause => ⟨none, cause⟩
  | .noArgs => ⟨none, none⟩

/-- Why no exception was constructed. -/
inductive ConstructError where
  | noSuchConstructor (className : String) (shape : ConstructorShape)
  | failed (className : String) (shape : ConstructorShape) (reason : String)
  deriving DecidableEq, Repr, Inhabited

/-- The wording of a refusal. -/
def ConstructError.message : ConstructError → String
  | noSuchConstructor className shape => s!"{className} has no constructor {shape.signature}"
  | failed className shape reason =>
    s!"constructor {shape.signature} of {className} failed: {reason}"

/-- Builds an exception of the named class, or refuses. -/
abbrev Constructor : Type := String → ConstructorArgs → Except ConstructError LiveException

/-- The conventional constructor: it keeps what it is given. -/
def Constructor.plain : Constructor := fun className args =>
  .ok (LiveException.make className args.message args.cause)

/-- A constructor that puts a text in front of the message. -/
def Constructor.prefixed (front : String) : Constructor := fun className args =>
  .ok (LiveException.make className (some (front ++ args.message.getD "")) args.cause)

/-- A constructor that always refuses. -/
def Constructor.failing (shape : ConstructorShape) (reason : String) : Constructor :=
  fun className _ => .error (.failed className shape reason)

/-- A class of exceptions: its name and the constructors it declares, in order. -/
structure ExceptionType where
  name : String
  constructors : List (ConstructorShape × Constructor) := []

namespace ExceptionType

/-- Declares a constructor, in place of an earlier one of its shape. -/
def withConstructor (type : ExceptionType) (shape : ConstructorShape) (build : Constructor) :
    ExceptionType :=
  { type with constructors := type.constructors.filter (·.1 ≠ shape) ++ [(shape, build)] }

/-- A type with the four conventional constructors. -/
def standard (name : String) : ExceptionType :=
  ConstructorShape.probeOrder.foldl (fun type shape => type.withConstructor shape .plain) ⟨name, []⟩

/-- The constructor of a shape. -/
def constructor? (type : ExceptionType) (shape : ConstructorShape) : Option Constructor :=
  (type.constructors.find? (·.1 = shape)).map (·.2)

/-- A constructor of this shape is declared. -/
def has (type : ExceptionType) (shape : ConstructorShape) : Bool :=
  type.constructors.any (·.1 = shape)

/-- Calls the constructor of a shape with what the shape takes. -/
def construct (type : ExceptionType) (shape : ConstructorShape) (message : Option String)
    (cause : Option Throwable) : Except ConstructError LiveException :=
  match type.constructor? shape with
  | some build => build type.name (shape.select message cause)
  | none => .error (.noSuchConstructor type.name shape)

/-- The signatures of the constructors declared. -/
def signatures (type : ExceptionType) : List String :=
  type.constructors.map (·.1.signature)

/-- The name and the shapes declared, for inspection. -/
def inspect (type : ExceptionType) : String :=
  let shapes := ", ".intercalate (type.constructors.map (·.1.label))
  s!"ExceptionType \x7b name: {Text.inspect type.name}, constructors: [{shapes}] \x7d"

end ExceptionType

end ReplEngine
