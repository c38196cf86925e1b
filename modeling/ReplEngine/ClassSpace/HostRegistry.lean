import ReplEngine.ClassSpace.Class
import ReplEngine.Text.Table
set_option autoImplicit false

/-!
# Host classes

The classes that the embedding process provides, by name.  Registering a name again replaces its
class; the count of registrations tells the two apart.
-/

namespace ReplEngine

/-- The classes of the embedding process. -/
structure HostRegistry where
  classes : Table LiveClass := {}
  registrations : Nat := 0

namespace HostRegistry

/-- The registry without classes. -/
def empty : HostRegistry := {}

/-- The class under a name. -/
def find? (r : HostRegistry) (name : String) : Option LiveClass := r.classes.get? name

/-- The name is registered. -/
def contains (r : HostRegistry) (name : String) : Bool := r.classes.contains name

/-- The number of names. -/
def size (r : HostRegistry) : Nat := r.classes.size

/-- The class that the next registration of a name and a body makes. -/
def nextObject (r : HostRegistry) (name : String) (body : ClassBody) : ClassObject :=
  ⟨name, .host r.registrations, body⟩

/-- Registers a class, in place of any earlier one of its name. -/
def register (r : HostRegistry) (name : String) (body : ClassBody) : HostRegistry :=
  ⟨r.classes.insert name ⟨r.nextObject name body, false⟩, r.registrations + 1⟩

/-- Registers an exception type under its own name. -/
def registerException (r : HostRegistry) (type : ExceptionType) : HostRegistry :=
  r.register type.name (.exception type)

/-- The exception type under a name; a plain class is none. -/
def exceptionType? (r : HostRegistry) (name : String) : Option ExceptionType :=
  (r.find? name).bind fun c => c.object.body.exceptionType?

/-- Records that the class under a name is prepared. -/
def markPrepared (r : HostRegistry) (name : String) : HostRegistry :=
  match r.find? name with
  | some c => { r with classes := r.classes.insert name { c with prepared := true } }
  | none => r

end HostRegistry

/-! ## The standard classes -/

namespace Lang

/-- The package that simple class names fall back to. -/
def package : String := "lang."

/-- The root of the class hierarchy. -/
def object : String := "lang.Object"

/-- Thrown by a division by zero. -/
def arithmeticException : String := "lang.ArithmeticException"

/-- Thrown where an object was needed and there is none. -/
def nullPointerException : String := "lang.NullPointerException"

/-- Thrown when calls nest too deeply. -/
def stackOverflowError : String := "lang.StackOverflowError"

/-- The exception types of every session. -/
def exceptions : List String :=
  ["lang.Exception", "lang.RuntimeException", "lang.IllegalStateException",
    "lang.IllegalArgumentException", arithmeticException, "lang.UnsupportedOperationException",
    nullPointerException, stackOverflowError]

end Lang

/-- Registers the root class and the standard exception types. -/
def HostRegistry.withStandard (r : HostRegistry) : HostRegistry :=
  Lang.exceptions.foldl (fun r name => r.registerException (.standard name))
    (r.register Lang.object (.host ["<init>()", "toString()"]))

/-- The registry with the standard classes only. -/
def HostRegistry.standard : HostRegistry := HostRegistry.empty.withStandard

end ReplEngine
