import ReplEngine.Text.Blank
set_option autoImplicit false

/-!
# Exceptions

An exception is a link of a cause chain: a class name, a message and a stack trace.  In
transport form a chain is plain data, a `Descriptor`.  A `Throwable` is what becomes of it on
the other side: a chain whose first links may be live exceptions of their own class, followed by
links that could not be rebuilt.
-/

namespace ReplEngine

/-! ## Links -/

/-- One line of a stack trace. -/
structure StackFrame where
  className : String
  method : String
  file : Option String
  line : Option UInt32
  deriving DecidableEq, Repr, Inhabited

/-- `Class.method(file:line)`, as far as the place is known. -/
def StackFrame.render (f : StackFrame) : String :=
  let place :=
    match f.file, f.line with
    | some file, some line => s!"{file}:{line.toNat}"
    | some file, none => file
    | none, _ => "Unknown Source"
  f.className ++ "." ++ f.method ++ "(" ++ place ++ ")"

/-- One exception of a cause chain, its cause left out. -/
structure Link where
  className : String
  message : Option String := none
  /-- Innermost frame first. -/
  frames : List StackFrame := []
  deriving DecidableEq, Repr, Inhabited

/-- A name, and a message behind it if there is one. -/
def headerText (name : String) : Option String → String
  | some message => name ++ ": " ++ message
  | none => name

/-! ## Transport form -/

/-- An exception as plain data: the link thrown, and its causes outermost first. -/
structure Descriptor where
  link : Link
  causes : List Link := []
  deriving DecidableEq, Repr, Inhabited

namespace Descriptor

/-- The chain, from the exception thrown to the innermost cause. -/
def chain (d : Descriptor) : List Link := d.link :: d.causes

/-- The exception with its causes replaced by the chain of another one. -/
def withCause (link : Link) (cause : Option Descriptor) : Descriptor :=
  ⟨link, (cause.map chain).getD []⟩

/-- Class name and message. -/
def header (d : Descriptor) : String := headerText d.link.className d.link.message

end Descriptor

/-! ## Live exceptions -/

/-- The causes of a live exception: live ones first, then those that could not be rebuilt. -/
structure CauseChain where
  live : List Link := []
  described : List Link := []
  deriving DecidableEq, Repr, Inhabited

/-- A live exception. -/
structure LiveException where
  link : Link
  causes : CauseChain := {}
  deriving DecidableEq, Repr, Inhabited

/-- A live exception, or the description of one that could not be rebuilt. -/
inductive Throwable where
  | live (exception : LiveException)
  | described (descriptor : Descriptor)
  deriving DecidableEq, Repr, Inhabited

/-- The chain that starts with an optional throwable. -/
def CauseChain.ofCause : Option Throwable → CauseChain
  | none => {}
  | some (.live e) => ⟨e.link :: e.causes.live, e.causes.described⟩
  | some (.described d) => ⟨[], d.chain⟩

/-- What a chain starts with. -/
def CauseChain.first? : CauseChain → Option Throwable
  | ⟨l :: ls, ds⟩ => some (.live ⟨l, ⟨ls, ds⟩⟩)
  | ⟨[], d :: ds⟩ => some (.described ⟨d, ds⟩)
  | ⟨[], []⟩ => none

theorem CauseChain.first?_ofCause (cause : Option Throwable) :
    (CauseChain.ofCause cause).first? = cause := by
  cases cause with
  | none => rfl
  | some t => cases t <;> rfl

namespace LiveException

/-- A live exception without a stack trace. -/
def make (className : String) (message : Option String) (cause : Option Throwable) :
    LiveException :=
  ⟨⟨className, message, []⟩, CauseChain.ofCause cause⟩

/-- The exception with another stack trace. -/
def withFrames (e : LiveException) (frames : List StackFrame) : LiveException :=
  { e with link := { e.link with frames := frames } }

/-- What caused the exception. -/
def cause? (e : LiveException) : Option Throwable := e.causes.first?

end LiveException

namespace Throwable

/-- The class name that traces print for a link that could not be rebuilt. -/
def genericName : String := "kiln.EvalException"

/-- The first link of the chain. -/
def link : Throwable → Link
  | live e => e.link
  | described d => d.link

/-- What caused the throwable. -/
def cause? : Throwable → Option Throwable
  | live e => e.cause?
  | described d => (CauseChain.mk [] d.causes).first?

/-- The chain of causes, from the throwable itself on. -/
def chain (t : Throwable) : CauseChain := CauseChain.ofCause (some t)

/-- The class name that traces print. -/
def displayName : Throwable → String
  | live e => e.link.className
  | described _ => genericName

/-- The message. -/
def message (t : Throwable) : Option String := t.link.message

/-- Printed name and message. -/
def header (t : Throwable) : String := headerText t.displayName t.message

/-! ## Stack traces -/

/-- The links of the chain under the names that traces print for them. -/
def printedChain (t : Throwable) : List Link :=
  t.chain.live ++ t.chain.described.map fun l => { l with className := genericName }

/-- One link of a printed trace: its header, then a line for every frame. -/
def traceLink (l : Link) : String :=
  headerText l.className l.message ++ "\n" ++
    String.join (l.frames.map fun f => "\tat " ++ f.render ++ "\n")

/-- The printed trace: the exception, then every cause. -/
def trace (t : Throwable) : String :=
  "Caused by: ".intercalate (t.printedChain.map traceLink)

/-! ## Traces as shown -/

/-- Every CR LF and every other CR becomes LF. -/
def unifyBreaks : List Char → List Char
  | [] => []
  | '\r' :: '\n' :: cs => '\n' :: unifyBreaks cs
  | c :: cs => (if c = '\r' then '\n' else c) :: unifyBreaks cs

/-- Stands in place of the tab in front of a frame. -/
def frameIndent : List Char := "|        ".toList

/-- The tab behind a break becomes the indent of a frame. -/
def indentTabs : List Char → List Char
  | [] => []
  | '\n' :: '\t' :: cs => '\n' :: (frameIndent ++ indentTabs cs)
  | c :: cs => c :: indentTabs cs

/-- A printed trace as it is shown. -/
def shownTraceChars (trace : List Char) : List Char :=
  Text.dropEndWhile (· == '\n') (indentTabs (unifyBreaks trace))

/-- The trace as it is shown: frames indented under a bar, no break at the end. -/
def shownTrace (t : Throwable) : String := String.ofList (shownTraceChars t.trace.toList)

end Throwable

end ReplEngine
