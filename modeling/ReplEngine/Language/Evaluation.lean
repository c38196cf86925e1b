import ReplEngine.ClassSpace.Loader
import ReplEngine.Engine.PrintBuffer
import ReplEngine.Language.Value
set_option autoImplicit false

/-!
# Evaluation

Code of the top level runs in a frame of its own, every call of a method in another one.  A
frame records the line of the statement that it is executing, so an exception carries the call
path to the place where it was made.

At most `maxDepth` frames are active.  The room left for calls bounds the recursion through
method bodies; inside a body evaluation follows the syntax.
-/

namespace ReplEngine.Language

/-! ## State -/

/-- A method declared at the top level. -/
structure MethodDef where
  decl : MethodDecl
  snippet : UInt32
  deriving Inhabited

/-- What a session keeps between units. -/
structure Globals where
  vars : Table Value := {}
  methods : Table MethodDef := {}
  objects : UInt32 := 0

/-- Everything that evaluation can change. -/
structure World where
  globals : Globals
  loader : Loader
  printed : PrintBuffer

/-- A call that is not finished. -/
structure Frame where
  className : String
  method : String
  snippet : UInt32
  line : UInt32
  locals : Table Value := {}

/-- The name of the class around the code of a snippet. -/
def wrapperClass (snippet : UInt32) : String := s!"$Snippet${snippet.toNat}"

/-- The file that stack frames report for the code of a snippet. -/
def snippetFile (snippet : UInt32) : String := s!"#{snippet.toNat}"

/-- The name of the frame that code of the top level runs in. -/
def topLevelMethod : String := "do_it$"

/-- A frame as a stack trace shows it. -/
def Frame.toStackFrame (f : Frame) : StackFrame :=
  ⟨f.className, f.method, some (snippetFile f.snippet), some f.line⟩

/-! ## Stopping early -/

/-- What no exception of the language can express. -/
inductive Fault where
  | classLoad (name : String) (error : LoaderError)
  | unboundVariable (name : String)
  | noSuchMethod (receiver method : String)
  | notThrowable (value : String)
  deriving DecidableEq, Repr, Inhabited

/-- The wording of a fault. -/
def Fault.message : Fault → String
  | classLoad name error => s!"class {name} could not be loaded: {error.message}"
  | unboundVariable name => s!"unbound variable {name}"
  | noSuchMethod receiver method => s!"no method {method} on {receiver}"
  | notThrowable value => s!"{value} is not throwable"

/-- Why evaluation stopped. -/
inductive Unwind where
  | throw (exception : Descriptor)
  | fault (fault : Fault)
  deriving DecidableEq, Repr, Inhabited

/-- Evaluates; stopping early keeps what was changed before. -/
abbrev Eval (α : Type) : Type := ExceptT Unwind (StateM World) α

/-- Stops with a fault. -/
def raiseFault {α : Type} (fault : Fault) : Eval α := throw (.fault fault)

/-- The frames that may be active at a time. -/
def maxDepth : Nat := 512

/-- The active frames, innermost first. -/
abbrev Stack : Type := List Frame

/-- Stops with a new exception that carries the call path. -/
def raise {α : Type} (stack : Stack) (className : String) (message : Option String) : Eval α :=
  throw (.throw ⟨⟨className, message, stack.map Frame.toStackFrame⟩, []⟩)

/-- Stops with a value thrown. -/
def throwValue {α : Type} (stack : Stack) : Value → Eval α
  | .exception d => throw (.throw d)
  | .null => raise stack Lang.nullPointerException none
  | v => raiseFault (.notThrowable v.render)

/-! ## Names and operators -/

/-- A name: a local of the innermost frame, else a variable of the session. -/
def lookup (stack : Stack) (name : String) : Eval Value := do
  let locals := (stack.head?.map Frame.locals).getD {}
  match (locals.get? name).or ((← get).globals.vars.get? name) with
  | some v => pure v
  | none => raiseFault (.unboundVariable name)

/-- A sign applied to a value. -/
def negate : Value → Eval Value
  | .int n => pure (.int (-n))
  | v => raiseFault (.noSuchMethod v.render "-")

/-- An operator applied to integers, which wrap around. -/
def arithmetic (stack : Stack) (op : BinaryOp) (a b : Int32) : Eval Value :=
  match op with
  | .add => pure (.int (a + b))
  | .sub => pure (.int (a - b))
  | .mul => pure (.int (a * b))
  | .div =>
    if b = 0 then raise stack Lang.arithmeticException (some "/ by zero") else pure (.int (a / b))
  | .rem =>
    if b = 0 then raise stack Lang.arithmeticException (some "/ by zero") else pure (.int (a % b))

/-- An operator applied to values; `+` joins the texts of values that are not both integers. -/
def operate (stack : Stack) (op : BinaryOp) (lhs rhs : Value) : Eval Value :=
  match lhs, rhs with
  | .int a, .int b => arithmetic stack op a b
  | _, _ =>
    match op with
    | .add => pure (.string (lhs.display ++ rhs.display))
    | _ => raiseFault (.noSuchMethod lhs.render op.render)

/-! ## Objects -/

/-- A class by its full name, as the loader finds it. -/
def loadClass (files : FileTree) (name : String) : Eval (Except LoaderError ClassObject) := do
  let w ← get
  let (result, loader) := (Loader.find files name).run w.loader
  set { w with loader := loader }
  pure (result.map LiveClass.object)

/-- The name is in the package of the standard classes. -/
def isPackaged (name : String) : Bool := Lang.package.toList.isPrefixOf name.toList

/-- The class that a name refers to: as it stands, else in the package of the standard
classes. -/
def findClass (files : FileTree) (name : String) : Eval ClassObject := do
  match ← loadClass files name with
  | .ok cls => pure cls
  | .error (.classNotFound missing) =>
    if isPackaged name then raiseFault (.classLoad name (.classNotFound missing))
    else
      match ← loadClass files (Lang.package ++ name) with
      | .ok cls => pure cls
      | .error e => raiseFault (.classLoad name e)
  | .error e => raiseFault (.classLoad name e)

/-- Message and cause of a new exception, out of the arguments of its constructor. -/
def exceptionArgs : List Value → Option String × Option Descriptor
  | [] => (none, none)
  | [.exception cause] => (some cause.header, some cause)
  | [message, .exception cause] => (message.toMessage, some cause)
  | message :: _ => (message.toMessage, none)

/-- Counts one more object; its number, spread over all words, is its identity. -/
def freshIdentity : Eval UInt32 := do
  let w ← get
  let number := w.globals.objects + 1
  set { w with globals := { w.globals with objects := number } }
  pure (number * 0x9E3779B9)

/-- `new`, with the arguments evaluated. -/
def newInstance (files : FileTree) (stack : Stack) (name : String) (args : List Value) :
    Eval Value := do
  let cls ← findClass files name
  match cls.body.exceptionType? with
  | some _ =>
    let (message, cause) := exceptionArgs args
    pure (.exception
      (Descriptor.withCause ⟨cls.name, message, stack.map Frame.toStackFrame⟩ cause))
  | none => return .object cls (← freshIdentity)

/-! ## Calls -/

/-- A call of a method with a body. -/
structure Invocation where
  className : String
  snippet : UInt32
  decl : MethodDecl
  args : List Value

/-- Carries out a call on top of the active frames. -/
abbrev Invoker : Type := Stack → Invocation → Eval Value

/-- The frame that a call starts with. -/
def Invocation.frame (call : Invocation) : Frame :=
  { className := call.className
    method := call.decl.name
    snippet := call.snippet
    line := (call.decl.body.head?.map Stmt.line).getD 1
    locals := Table.ofList ((call.decl.params.map Param.name).zip call.args) }

/-- Prints a line. -/
def println (text : String) : Eval Unit :=
  modify fun w => { w with printed := w.printed.println text }

/-- A call of a top-level method, with the arguments evaluated. -/
def callMethod (invoke : Invoker) (stack : Stack) (name : String) (args : List Value) :
    Eval Value := do
  match (← get).globals.methods.get? name with
  | some m => invoke stack ⟨wrapperClass m.snippet, m.snippet, m.decl, args⟩
  | none =>
    if name = "println" then
      println ((args.head?.map Value.display).getD "")
      pure .void
    else raiseFault (.noSuchMethod "session" name)

/-- The method that the class of an object declares. -/
def declaredMethod? (cls : ClassObject) (method : String) :
    Option (ClassFile × MethodDecl) := do
  let file ← cls.body.classFile?
  let decl ← file.method? method
  pure (file, decl)

/-- The methods that need no declaration. -/
def builtinMethod (receiver : Value) (method : String) : Eval Value :=
  match receiver, method with
  | .exception d, "getMessage" => pure ((d.link.message.map Value.string).getD .null)
  | .string s, "length" => pure (.int (Int32.ofNat (min (units16 s.toList) 2147483647)))
  | _, "toString" => pure (.string receiver.display)
  | _, _ => raiseFault (.noSuchMethod receiver.render method)

/-- A call of a method of a value, with the arguments evaluated. -/
def callOn (invoke : Invoker) (stack : Stack) (receiver : Value) (method : String)
    (args : List Value) : Eval Value :=
  match receiver with
  | .null => raise stack Lang.nullPointerException none
  | .object cls _ =>
    match declaredMethod? cls method with
    | some (file, decl) => invoke stack ⟨file.name, file.snippet, decl, args⟩
    | none => builtinMethod receiver method
  | _ => builtinMethod receiver method

/-! ## Expressions -/

mutual

/-- The value of an expression. -/
def evalExpr (files : FileTree) (invoke : Invoker) (stack : Stack) : Expr → Eval Value
  | .int n _ => pure (.int n)
  | .string s _ => pure (.string s)
  | .bool b _ => pure (.bool b)
  | .null _ => pure .null
  | .name name _ => lookup stack name
  | .neg operand _ => do negate (← evalExpr files invoke stack operand)
  | .binary op lhs rhs _ => do
    let a ← evalExpr files invoke stack lhs
    let b ← evalExpr files invoke stack rhs
    operate stack op a b
  | .call name args _ => do callMethod invoke stack name (← evalExprs files invoke stack args)
  | .new name args _ => do newInstance files stack name (← evalExprs files invoke stack args)
  | .methodCall receiver method args _ => do
    let value ← evalExpr files invoke stack receiver
    callOn invoke stack value method (← evalExprs files invoke stack args)

/-- The values of expressions, in order. -/
def evalExprs (files : FileTree) (invoke : Invoker) (stack : Stack) :
    List Expr → Eval (List Value)
  | [] => pure []
  | e :: es => do
    let v ← evalExpr files invoke stack e
    return v :: (← evalExprs files invoke stack es)

end

/-! ## Bodies -/

/-- Executes statements in a frame on top of others.  The value is that of a `return`, if one
was reached. -/
def execBody (files : FileTree) (invoke : Invoker) (below : Stack) (frame : Frame) :
    List Stmt → Eval (Option Value)
  | [] => pure none
  | stmt :: stmts => do
    let frame := { frame with line := stmt.line }
    let eval := evalExpr files invoke (frame :: below)
    match stmt with
    | .var decl =>
      let v ←
        match decl.init with
        | some init => eval init
        | none => pure .null
      execBody files invoke below { frame with locals := frame.locals.insert decl.name v } stmts
    | .ret (some value) _ _ => some <$> eval value
    | .ret none _ _ => pure (some .void)
    | .throw value _ _ => do throwValue (frame :: below) (← eval value)
    | .expr value _ => do
      let _ ← eval value
      execBody files invoke below frame stmts

/-- Carries out a call where there is room for so many frames more. -/
def invokeWithin (files : FileTree) : Nat → Invoker
  | 0, stack, _ => raise stack Lang.stackOverflowError none
  | room + 1, stack, call => do
    let result ← execBody files (invokeWithin files room) stack call.frame call.decl.body
    pure (result.getD .void)

/-- Evaluates an expression on top of active frames. -/
def evalOn (files : FileTree) (stack : Stack) (e : Expr) : Eval Value :=
  evalExpr files (invokeWithin files (maxDepth - stack.length)) stack e

/-! ## The top level -/

/-- The frame that code of the top level runs in. -/
def topFrame (snippet line : UInt32) : Frame :=
  ⟨wrapperClass snippet, topLevelMethod, snippet, line, {}⟩

/-- The value of a top-level expression of a snippet. -/
def evalTop (files : FileTree) (snippet line : UInt32) (e : Expr) : Eval Value :=
  evalOn files [topFrame snippet line] e

/-- A top-level `throw` of a snippet; it always stops early. -/
def throwTop (files : FileTree) (snippet line : UInt32) (e : Expr) : Eval Value := do
  let stack := [topFrame snippet line]
  throwValue stack (← evalOn files stack e)

end ReplEngine.Language
