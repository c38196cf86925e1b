import ReplEngine.Language.ClassFile
import ReplEngine.Throwable.Type
set_option autoImplicit false

/-!
# Classes

A class has a name, an origin and a body.  Its origin tells it apart from every other class of
its name, so two answers of a loader are the same class exactly when name and origin agree.
Listing the members of a class prepares it; that a class is prepared is recorded beside it.
-/

namespace ReplEngine

open Binary

/-- One compiled class: its name and its bytes. -/
structure ClassBytes where
  name : String
  bytes : Bytes
  deriving DecidableEq, Repr, Inhabited

/-- Name and size of a compiled class. -/
def ClassBytes.summary (c : ClassBytes) : String :=
  s!"ClassBytes({c.name}, {c.bytes.length} bytes)"

/-! ## Bodies -/

/-- Why the members of a class could not be listed. -/
inductive LinkError where
  | duplicateMethod (method className : String)
  /-- The class says so itself. -/
  | refused (reason : String)
  deriving DecidableEq, Repr, Inhabited

/-- The wording of a refusal. -/
def LinkError.message : LinkError → String
  | duplicateMethod method className => s!"duplicate method {method} in {className}"
  | refused reason => reason

/-- What a class consists of. -/
inductive ClassBody where
  /-- A class compiled from a snippet. -/
  | snippet (file : Language.ClassFile)
  /-- A class of exceptions. -/
  | exception (type : ExceptionType)
  /-- A class of the embedding process, known by its members only. -/
  | host (members : List String)
  /-- A class that is nothing but a list of members, which may refuse to be listed. -/
  | listing (members : Except LinkError (List String))

namespace ClassBody

/-- The signatures of methods of pairwise different names; `seen` holds the names before. -/
def methodSignatures (className : String) (seen : List String) :
    List Language.MethodDecl → Except LinkError (List String)
  | [] => .ok []
  | m :: ms =>
    if m.name ∈ seen then .error (.duplicateMethod m.name className)
    else (m.signature :: ·) <$> methodSignatures className (m.name :: seen) ms

/-- The signatures of the members that the class declares. -/
def members : ClassBody → Except LinkError (List String)
  | snippet file => methodSignatures file.name [] file.methods
  | exception type => .ok type.signatures
  | host ms => .ok ms
  | listing ms => ms

/-- The exception type that the class is, if it is one. -/
def exceptionType? : ClassBody → Option ExceptionType
  | exception type => some type
  | _ => none

/-- The class file that the class was defined from, if there is one. -/
def classFile? : ClassBody → Option Language.ClassFile
  | snippet file => some file
  | _ => none

end ClassBody

/-! ## Defining a class from bytes -/

/-- Why bytes do not define a class. -/
inductive DefineError where
  | malformed (className : String) (error : DecodeError)
  | wrongName (expected found : String)
  | notUtf8
  /-- The bytes say so themselves. -/
  | refused (reason : String)
  deriving DecidableEq, Repr, Inhabited

/-- The wording of a refusal. -/
def DefineError.message : DefineError → String
  | malformed className error => s!"malformed class file for {className}: {error.message}"
  | wrongName expected found => s!"{expected} (wrong name: {found})"
  | notUtf8 => "not UTF-8"
  | refused reason => reason

/-- Turns the bytes of a named class into its body. -/
abbrev Definer : Type := String → Bytes → Except DefineError ClassBody

/-- Defines a class from its class file, which has to carry the name asked for. -/
def defineSnippet : Definer := fun name bytes =>
  match Language.ClassFile.decode bytes with
  | .error e => .error (.malformed name e)
  | .ok file => if file.name = name then .ok (.snippet file) else .error (.wrongName name file.name)

/-! ## Live classes -/

/-- Where a class was found. -/
inductive Origin where
  /-- Installed; later versions have higher generations. -/
  | installed (generation : Nat)
  /-- Provided by the embedding process, by the number of its registration. -/
  | host (registration : Nat)
  /-- Read from an entry of the search path. -/
  | searchPath (entry : String)
  deriving DecidableEq, Repr, Inhabited

/-- A class. -/
structure ClassObject where
  name : String
  origin : Origin
  body : ClassBody

/-- Name and origin agree. -/
def ClassObject.sameAs (a b : ClassObject) : Bool := a.name == b.name && a.origin == b.origin

/-- A class, and whether its members have been listed. -/
structure LiveClass where
  object : ClassObject
  prepared : Bool := false

/-- Lists the members of a class.  Success prepares it. -/
def LiveClass.prepare (c : LiveClass) : Except LinkError (List String) × LiveClass :=
  match c.object.body.members with
  | .ok ms => (.ok ms, { c with prepared := true })
  | .error e => (.error e, c)

end ReplEngine
