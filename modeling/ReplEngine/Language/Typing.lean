import ReplEngine.Diagnostic
import ReplEngine.Language.Ty
set_option autoImplicit false

/-!
# Type checking

A unit is checked against what the session has declared.  The checker reports every problem it
finds and goes on: an expression that has been reported has type `Ty.unknown`, which fits
everything, so one mistake is reported once.
-/

namespace ReplEngine.Language

/-! ## What the checker knows and reports -/

/-- The names that a method body can see beside the session. -/
structure Scope where
  /-- The types of locals, and whether each has a value yet. -/
  locals : Table (Ty × Bool) := {}
  /-- The return type of the method around; none outside methods. -/
  returns : Option Ty := none
  /-- The method around, as messages name it. -/
  owner : String := ""
  deriving Repr, Inhabited

/-- What the checker knows. -/
structure Context where
  env : Env
  host : HostRegistry
  /-- The class around the code of the unit, as messages name it. -/
  wrapper : String
  /-- The class being declared, visible to its own methods. -/
  pendingClass : Option (String × ClassSig) := none
  /-- The top-level method being declared, visible to itself. -/
  pendingMethod : Option (String × MethodSig) := none
  scope : Scope := {}

/-- Checks, and adds what it finds to the reports so far. -/
abbrev Judge (α : Type) : Type := StateM (List Diag) α

namespace Judge

/-- Reports a problem. -/
def report (message : String) (span : Span) : Judge Unit :=
  modify fun ds => ds ++ [⟨message, span⟩]

/-- Reports a problem with an expression, whose type stays unknown. -/
def reject (message : String) (span : Span) : Judge Ty := do
  report message span
  pure .unknown

end Judge

open Judge

namespace Context

/-! ## Names of classes and types -/

/-- A name that nothing declares. -/
def unknownSymbol (ctx : Context) (symbol : String) : String :=
  s!"cannot find symbol\n  symbol:   {symbol}\n  location: class {ctx.wrapper}"

/-- The class being declared has this name. -/
def isPending (ctx : Context) (name : String) : Bool :=
  match ctx.pendingClass with
  | some (pending, _) => pending == name
  | none => false

/-- The full name of the class that a name refers to: as it stands, else in the package of the
standard classes. -/
def resolveClass (ctx : Context) (name : String) : Option String :=
  if ctx.isPending name || ctx.env.classes.contains name || ctx.host.contains name then some name
  else
    let qualified := Lang.package ++ name
    if ctx.host.contains qualified then some qualified else none

/-- The type that a written type stands for. -/
def resolveType (ctx : Context) (type : TypeName) (span : Span) : Judge Ty :=
  match type with
  | .int => pure .int
  | .boolean => pure .boolean
  | .string => pure .string
  | .void => pure .void
  | .infer => pure .unknown
  | .named name =>
    match ctx.resolveClass name with
    | some qualified => pure (.object qualified)
    | none => reject (ctx.unknownSymbol s!"class {name}") span

/-- The host exception type that a type is. -/
def exceptionType? (ctx : Context) : Ty → Option ExceptionType
  | .object name => ctx.host.exceptionType? name
  | _ => none

/-- A value of the type may be thrown. -/
def isThrowable (ctx : Context) (type : Ty) : Bool :=
  type == .null || type == .unknown || (ctx.exceptionType? type).isSome

/-- The signature of a class declared in the session, or by the unit itself. -/
def classSig? (ctx : Context) (name : String) : Option ClassSig :=
  match ctx.pendingClass with
  | some (pending, sig) => if pending = name then some sig else ctx.env.classes.get? name
  | none => ctx.env.classes.get? name

/-- The signature of a top-level method. -/
def methodSig? (ctx : Context) (name : String) : Option MethodSig :=
  match ctx.pendingMethod with
  | some (pending, sig) => if pending = name then some sig else ctx.env.methods.get? name
  | none => ctx.env.methods.get? name

end Context

/-! ## Calls -/

/-- Types as a message lists them. -/
def describeTypes (types : List Ty) : String :=
  if types.isEmpty then "no arguments" else Ty.renderList types

/-- The arguments fit the parameters, one by one. -/
def MethodSig.accepts (sig : MethodSig) (args : List Ty) : Bool :=
  sig.params.length == args.length
    && (args.zip sig.params).all fun (arg, param) => arg.assignable param

/-- Checks arguments against a signature.  The call has the return type either way. -/
def applySig (what : String) (sig : MethodSig) (args : List Ty) (span : Span) : Judge Ty := do
  if !sig.accepts args then
    let reason :=
      if sig.params.length = args.length then "argument mismatch"
      else "actual and formal argument lists differ in length"
    report
      (s!"{what} cannot be applied to given types;\n  required: {describeTypes sig.params}\n  "
        ++ s!"found:    {describeTypes args}\n  reason: {reason}") span
  pure sig.returns

/-- The type may be that of a message. -/
def Ty.isMessage (type : Ty) : Bool := type == .string || type == .null || type == .unknown

/-- The shape of the constructor that arguments ask for. -/
def constructorShape? (isThrowable : Ty → Bool) : List Ty → Option ConstructorShape
  | [] => some .noArgs
  | [arg] =>
    if arg.isMessage then some .message else if isThrowable arg then some .cause else none
  | [message, cause] =>
    if message.isMessage && isThrowable cause then some .messageCause else none
  | _ => none

namespace Context

/-- A name in an expression: a local, else a variable of the session. -/
def nameType (ctx : Context) (name : String) (span : Span) : Judge Ty :=
  match ctx.scope.locals.get? name with
  | some (type, initialized) => do
    if !initialized then report s!"variable {name} might not have been initialized" span
    pure type
  | none =>
    match ctx.env.vars.get? name with
    | some type => pure type
    | none => reject (ctx.unknownSymbol s!"variable {name}") span

/-- The type of a sign applied to an operand. -/
def negType (operand : Ty) (span : Span) : Judge Ty :=
  if operand = .int ∨ operand = .unknown then pure .int
  else reject s!"bad operand type {operand.render} for unary operator '-'" span

/-- The type of an operator applied to two operands. -/
def binaryType (op : BinaryOp) (lhs rhs : Ty) (span : Span) : Judge Ty :=
  if lhs = .unknown ∨ rhs = .unknown then pure .unknown
  else if lhs = .void ∨ rhs = .void then reject "'void' type not allowed here" span
  else if lhs = .int ∧ rhs = .int then pure .int
  else if op = .add ∧ (lhs = .string ∨ rhs = .string) then pure .string
  else
    reject
      (s!"bad operand types for binary operator '{op.render}'\n  "
        ++ s!"first type:  {lhs.render}\n  second type: {rhs.render}") span

/-- The type of the built-in `println`, which takes one argument of any type, or none. -/
def printlnType (ctx : Context) (args : List Ty) (span : Span) : Judge Ty := do
  match args with
  | [] => pure ()
  | [arg] => if arg = .void then report "'void' type not allowed here" span
  | _ => report (ctx.unknownSymbol s!"method println({Ty.renderList args})") span
  pure .void

/-- The type of a call of a top-level method. -/
def callType (ctx : Context) (name : String) (args : List Ty) (span : Span) : Judge Ty :=
  match ctx.methodSig? name with
  | some sig => applySig s!"method {name} in class {ctx.wrapper}" sig args span
  | none =>
    if name = "println" then ctx.printlnType args span
    else reject (ctx.unknownSymbol s!"method {name}({Ty.renderList args})") span

/-- The type of `new`.  Exception types have the constructors they declare, every other class
one without parameters. -/
def newType (ctx : Context) (name : String) (args : List Ty) (span : Span) : Judge Ty :=
  match ctx.resolveClass name with
  | none => reject (ctx.unknownSymbol s!"class {name}") span
  | some qualified => do
    let type := Ty.object qualified
    match ctx.exceptionType? type with
    | some exception =>
      let fits :=
        match constructorShape? ctx.isThrowable args with
        | some shape => exception.has shape
        | none => false
      if !fits then
        report s!"no suitable constructor found for {name}({Ty.renderList args})" span
      pure type
    | none =>
      if args.isEmpty then pure type
      else applySig s!"constructor {name} in class {name}" ⟨[], type⟩ args span

/-- The method of a type that needs no declaration. -/
def builtinSig? (ctx : Context) (receiver : Ty) (method : String) : Option MethodSig :=
  if receiver = .string ∧ method = "length" then some ⟨[], .int⟩
  else if method = "toString" then some ⟨[], .string⟩
  else if method = "getMessage" ∧ (ctx.exceptionType? receiver).isSome then some ⟨[], .string⟩
  else none

/-- The method that the class of a type declares. -/
def declaredSig? (ctx : Context) (receiver : Ty) (method : String) : Option MethodSig :=
  match receiver with
  | .object name => (ctx.classSig? name).bind fun sig => sig.methods.get? method
  | _ => none

/-- The type of a method call on a receiver.  What a class declares comes before what needs no
declaration. -/
def methodCallType (ctx : Context) (receiver : Ty) (method : String) (args : List Ty)
    (span : Span) : Judge Ty :=
  match receiver with
  | .unknown => pure .unknown
  | .int | .boolean | .void | .null => reject s!"{receiver.render} cannot be dereferenced" span
  | .string | .object _ =>
    match (ctx.declaredSig? receiver method).or (ctx.builtinSig? receiver method) with
    | some sig => applySig s!"method {method} in class {receiver.render}" sig args span
    | none =>
      reject
        (s!"cannot find symbol\n  symbol:   method {method}({Ty.renderList args})\n  "
          ++ s!"location: class {receiver.render}") span

/-! ## Expressions -/

mutual

/-- The type of an expression. -/
def exprType (ctx : Context) : Expr → Judge Ty
  | .int _ _ => pure .int
  | .string _ _ => pure .string
  | .bool _ _ => pure .boolean
  | .null _ => pure .null
  | .name name span => ctx.nameType name span
  | .neg operand span => do negType (← ctx.exprType operand) span
  | .binary op lhs rhs span => do
    let lhsType ← ctx.exprType lhs
    let rhsType ← ctx.exprType rhs
    binaryType op lhsType rhsType span
  | .call name args span => do ctx.callType name (← ctx.exprTypes args) span
  | .new name args span => do ctx.newType name (← ctx.exprTypes args) span
  | .methodCall receiver method args span => do
    let receiverType ← ctx.exprType receiver
    ctx.methodCallType receiverType method (← ctx.exprTypes args) span

/-- The types of expressions, in order. -/
def exprTypes (ctx : Context) : List Expr → Judge (List Ty)
  | [] => pure []
  | e :: es => do
    let type ← ctx.exprType e
    return type :: (← ctx.exprTypes es)

end

/-! ## Declarations of variables -/

/-- The value of an expression can be stored where a type is expected. -/
def requireAssignable (source target : Ty) (span : Span) : Judge Unit := do
  if !source.assignable target then
    report s!"incompatible types: {source.render} cannot be converted to {target.render}" span

/-- The type that `var` stands for, given the type of the initializer. -/
def inferredType (decl : VarDecl) : Option Ty → Judge Ty
  | none =>
    reject
      (s!"cannot infer type for local variable {decl.name}\n  "
        ++ "(cannot use 'var' on variable without initializer)") decl.span
  | some .null => refused "null"
  | some .void => refused "void"
  | some type => pure type
where
  refused (shown : String) : Judge Ty :=
    reject
      (s!"cannot infer type for local variable {decl.name}\n  "
        ++ s!"(variable initializer is '{shown}')") decl.span

/-- The type of the variable that a declaration binds; `none` where `void` stands in place of a
type, and nothing is bound. -/
def varType (ctx : Context) (decl : VarDecl) : Judge (Option Ty) := do
  let initType ←
    match decl.init with
    | some init => some <$> ctx.exprType init
    | none => pure none
  if decl.type = .infer then some <$> inferredType decl initType
  else
    let declared ← ctx.resolveType decl.type decl.span
    if declared = .void then
      report "'void' type not allowed here" decl.span
      pure none
    else
      match decl.init, initType with
      | some init, some type => requireAssignable type declared init.span
      | _, _ => pure ()
      pure (some declared)

/-- A name is bound in a scope; a name that the scope has already is reported. -/
def bindLocal (ctx : Context) (name : String) (type : Ty) (initialized : Bool) (span : Span) :
    Judge Context := do
  if ctx.scope.locals.contains name then
    report s!"variable {name} is already defined in {ctx.scope.owner}" span
  let locals := ctx.scope.locals.insert name (type, initialized)
  pure { ctx with scope := { ctx.scope with locals := locals } }

/-! ## Statements -/

/-- `return`, against the return type of the method around. -/
def checkReturn (ctx : Context) (value : Option Expr) (span : Span) : Judge Unit := do
  let returns := ctx.scope.returns.getD .void
  match value with
  | some value =>
    let type ← ctx.exprType value
    if returns = .void then
      report "incompatible types: unexpected return value" value.span
    else requireAssignable type returns value.span
  | none =>
    if returns ≠ .void ∧ returns ≠ .unknown then
      report "incompatible types: missing return value" span

/-- `throw`. -/
def checkThrow (ctx : Context) (value : Expr) : Judge Unit := do
  let type ← ctx.exprType value
  if !ctx.isThrowable type then
    report s!"incompatible types: {type.render} cannot be converted to Throwable" value.span

/-- A statement in a method; the context behind it knows the variable it declares. -/
def checkStmt (ctx : Context) : Stmt → Judge Context
  | .var decl => do
    match ← ctx.varType decl with
    | some type => ctx.bindLocal decl.name type decl.init.isSome decl.span
    | none => pure ctx
  | .ret value span _ => do
    ctx.checkReturn value span
    pure ctx
  | .throw value _ _ => do
    ctx.checkThrow value
    pure ctx
  | .expr value _ => do
    if !value.isStatement then report "not a statement" value.span
    let _ ← ctx.exprType value
    pure ctx

/-- The statements of a body.  The first one behind a `return` or `throw` is reported and ends
the check; the answer says whether the body ended in one of those. -/
def checkBody (ctx : Context) (exited : Bool) : List Stmt → Judge Bool
  | [] => pure exited
  | stmt :: stmts => do
    if exited then
      report "unreachable statement" stmt.span
      pure true
    else
      let ctx ← ctx.checkStmt stmt
      ctx.checkBody stmt.exits stmts

/-! ## Methods and classes -/

/-- The types that the parameters of a method are written with. -/
def paramTypes (ctx : Context) (span : Span) : List Param → Judge (List Ty)
  | [] => pure []
  | p :: ps => do
    let type ← ctx.resolveType p.type span
    return type :: (← ctx.paramTypes span ps)

/-- The signature that a method is written with. -/
def methodSig (ctx : Context) (m : MethodDecl) : Judge MethodSig := do
  let params ← ctx.paramTypes m.nameSpan m.params
  let returns ← ctx.resolveType m.returns m.nameSpan
  pure ⟨params, returns⟩

/-- Binds parameters, all of which have a value. -/
def bindParams (ctx : Context) (span : Span) : List (Param × Ty) → Judge Context
  | [] => pure ctx
  | (p, type) :: ps => do
    let ctx ← ctx.bindLocal p.name type true span
    ctx.bindParams span ps

/-- The body of a method, against its signature. -/
def checkMethod (ctx : Context) (m : MethodDecl) (sig : MethodSig) : Judge Unit := do
  let owner := s!"method {m.name}({Ty.renderList sig.params})"
  let ctx := { ctx with scope := ⟨{}, some sig.returns, owner⟩ }
  let ctx ← ctx.bindParams m.nameSpan (m.params.zip sig.params)
  let exited ← ctx.checkBody false m.body
  if !exited && sig.returns != .void && sig.returns != .unknown then
    report "missing return statement" m.nameSpan

/-- The signatures of the methods of a class.  A second method of a name is reported and does
not count. -/
def classMethods (ctx : Context) (className : String) (sigs : Table MethodSig) :
    List MethodDecl → Judge (Table MethodSig)
  | [] => pure sigs
  | m :: ms => do
    let sig ← ctx.methodSig m
    if sigs.contains m.name then
      report s!"method {m.name}() is already defined in class {className}" m.nameSpan
      ctx.classMethods className sigs ms
    else ctx.classMethods className (sigs.insert m.name sig) ms

/-- The bodies of the methods of a class. -/
def checkMethods (ctx : Context) (sigs : Table MethodSig) : List MethodDecl → Judge Unit
  | [] => pure ()
  | m :: ms => do
    match sigs.get? m.name with
    | some sig => ctx.checkMethod m sig
    | none => pure ()
    ctx.checkMethods sigs ms

/-- A class: the signatures of its methods first, then their bodies. -/
def checkClass (ctx : Context) (c : ClassDecl) : Judge ClassSig := do
  let ctx := { ctx with pendingClass := some (c.name, {}) }
  let sigs ← ctx.classMethods c.name {} c.methods
  let sig : ClassSig := ⟨sigs⟩
  let ctx := { ctx with pendingClass := some (c.name, sig) }
  ctx.checkMethods sigs c.methods
  pure sig

end Context

/-! ## Units -/

/-- What a unit declares or is. -/
inductive Checked where
  | typeDecl (decl : ClassDecl) (sig : ClassSig)
  | method (decl : MethodDecl) (sig : MethodSig)
  | var (decl : VarDecl) (type : Ty)
  | expr (value : Expr) (line : UInt32) (type : Ty)
  | throw (value : Expr) (line : UInt32)
  deriving Inhabited

/-- Checks a unit and reports what is wrong with it.  A `return` is none at all. -/
def Context.checkItem (ctx : Context) : Item → Judge (Option Checked)
  | .typeDecl decl => do return some (.typeDecl decl (← ctx.checkClass decl))
  | .method decl => do
    let sig ← ctx.methodSig decl
    { ctx with pendingMethod := some (decl.name, sig) }.checkMethod decl sig
    pure (some (.method decl sig))
  | .stmt (.var decl) => do return (← ctx.varType decl).map (.var decl)
  | .stmt (.expr value line) => do return some (.expr value line (← ctx.exprType value))
  | .stmt (.throw value _ line) => do
    ctx.checkThrow value
    pure (some (.throw value line))
  | .stmt (.ret _ span _) => do
    report "return outside method" span
    pure none

/-- Checks a unit of the snippet with the given wrapper class: what it declares, or everything
that is wrong with it. -/
def Item.check (item : Item) (env : Env) (host : HostRegistry) (wrapper : String) :
    Except (List Diag) Checked :=
  let ctx : Context := { env := env, host := host, wrapper := wrapper }
  match (ctx.checkItem item).run [] with
  | (some checked, []) => .ok checked
  | (_, diags) => .error diags

end ReplEngine.Language
