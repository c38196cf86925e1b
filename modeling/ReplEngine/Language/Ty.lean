import ReplEngine.ClassSpace.HostRegistry
set_option autoImplicit false

/-!
# Static types and signatures

What the checker knows of a session: the types of its variables and the signatures of its
methods and classes.
-/

namespace ReplEngine.Language

/-- The static type of an expression or a binding. -/
inductive Ty where
  | int
  | boolean
  | string
  | null
  | void
  /-- A class, by its full name. -/
  | object (className : String)
  /-- The type of an expression that has been reported already; it fits everything. -/
  | unknown
  deriving DecidableEq, Repr, Inhabited

namespace Ty

/-- `null` and everything that may be null. -/
def isReference : Ty → Bool
  | string | null | object _ => true
  | _ => false

/-- A class name without the package of the standard classes. -/
def shortName (className : String) : String :=
  if Lang.package.toList.isPrefixOf className.toList then
    String.ofList (className.toList.drop Lang.package.length)
  else className

/-- How a type reads in a message. -/
def render : Ty → String
  | int => "int"
  | boolean => "boolean"
  | string => "String"
  | null => "<null>"
  | void => "void"
  | object className => shortName className
  | unknown => "<any>"

/-- Types separated by commas. -/
def renderList (types : List Ty) : String := ",".intercalate (types.map render)

/-- A value of type `source` can be stored where `target` is expected. -/
def assignable (source target : Ty) : Bool :=
  source == target || source == unknown || target == unknown
    || (source == null && target.isReference)
    || (source.isReference && target == object Lang.object)

end Ty

/-- The signature of a method. -/
structure MethodSig where
  params : List Ty
  returns : Ty
  deriving DecidableEq, Repr, Inhabited

/-- The signatures of the methods of a class. -/
structure ClassSig where
  methods : Table MethodSig := {}
  deriving Repr, Inhabited

/-- The types and signatures of what a session has declared. -/
structure Env where
  vars : Table Ty := {}
  methods : Table MethodSig := {}
  classes : Table ClassSig := {}
  deriving Repr, Inhabited

end ReplEngine.Language
