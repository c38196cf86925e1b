import ReplEngine.Proofs.Typing.Reports
set_option autoImplicit false

/-!
# Typing rules

What it means for code to be well typed, as rules without messages: expressions, declarations of
variables, bodies and methods.  The rules know nothing of `Ty.unknown`.  The checker gives that
type to what it has reported, so it never shows up in what is accepted, as long as nothing that
was declared before has it.
-/

namespace ReplEngine.Language

open Judge

/-- No type in the signature is unknown. -/
structure MethodSig.Known (sig : MethodSig) : Prop where
  returns : sig.returns ≠ .unknown
  params : ∀ type ∈ sig.params, type ≠ .unknown

namespace Context

/-- No name that code can use has an unknown type. -/
structure Known (ctx : Context) : Prop where
  locals : ∀ {name binding}, ctx.scope.locals.get? name = some binding → binding.1 ≠ .unknown
  vars : ∀ {name type}, ctx.env.vars.get? name = some type → type ≠ .unknown
  methods : ∀ {name sig}, ctx.methodSig? name = some sig → sig.Known
  classes : ∀ {name sig method msig}, ctx.classSig? name = some sig →
    sig.methods.get? method = some msig → msig.Known

/-- Arguments of these types construct an instance of the class. -/
def Constructs (ctx : Context) (qualified : String) (args : List Ty) : Prop :=
  match ctx.exceptionType? (.object qualified) with
  | some exception =>
    ∃ shape, constructorShape? ctx.isThrowable args = some shape ∧ exception.has shape = true
  | none => args = []

/-- The method of a type, declared or not. -/
def memberSig? (ctx : Context) (receiver : Ty) (method : String) : Option MethodSig :=
  (ctx.declaredSig? receiver method).or (ctx.builtinSig? receiver method)

/-! ## Expressions -/

mutual

/-- The expression has the type. -/
inductive HasType (ctx : Context) : Expr → Ty → Prop where
  | int {n span} : HasType ctx (.int n span) .int
  | string {s span} : HasType ctx (.string s span) .string
  | bool {b span} : HasType ctx (.bool b span) .boolean
  | null {span} : HasType ctx (.null span) .null
  /-- A local has a value by then. -/
  | inner {name span type} :
      ctx.scope.locals.get? name = some (type, true) →
      HasType ctx (.name name span) type
  | outer {name span type} :
      ctx.scope.locals.get? name = none →
      ctx.env.vars.get? name = some type →
      HasType ctx (.name name span) type
  | neg {operand span} :
      HasType ctx operand .int →
      HasType ctx (.neg operand span) .int
  | arithmetic {op lhs rhs span} :
      HasType ctx lhs .int →
      HasType ctx rhs .int →
      HasType ctx (.binary op lhs rhs span) .int
  | concat {lhs rhs span lhsType rhsType} :
      HasType ctx lhs lhsType →
      HasType ctx rhs rhsType →
      lhsType = .string ∨ rhsType = .string →
      lhsType ≠ .void → rhsType ≠ .void →
      HasType ctx (.binary .add lhs rhs span) .string
  | call {name args span types sig} :
      HaveTypes ctx args types →
      ctx.methodSig? name = some sig →
      sig.accepts types = true →
      HasType ctx (.call name args span) sig.returns
  /-- `println` is built in where no method of the name is declared. -/
  | println {args span types} :
      HaveTypes ctx args types →
      ctx.methodSig? "println" = none →
      types.length ≤ 1 → .void ∉ types →
      HasType ctx (.call "println" args span) .void
  | new {name args span types qualified} :
      HaveTypes ctx args types →
      ctx.resolveClass name = some qualified →
      ctx.Constructs qualified types →
      HasType ctx (.new name args span) (.object qualified)
  | methodCall {receiver method args span type types sig} :
      HasType ctx receiver type →
      HaveTypes ctx args types →
      type.isReference = true → type ≠ .null →
      ctx.memberSig? type method = some sig →
      sig.accepts types = true →
      HasType ctx (.methodCall receiver method args span) sig.returns

/-- The expressions have the types, one by one. -/
inductive HaveTypes (ctx : Context) : List Expr → List Ty → Prop where
  | nil : HaveTypes ctx [] []
  | cons {e es type types} :
      HasType ctx e type →
      HaveTypes ctx es types →
      HaveTypes ctx (e :: es) (type :: types)

end

/-! ## Statements and methods -/

/-- The declaration binds a variable of the type. -/
structure Declares (ctx : Context) (decl : VarDecl) (type : Ty) : Prop where
  notVoid : type ≠ .void
  known : type ≠ .unknown
  fits : ∀ {init}, decl.init = some init →
    ∃ source, ctx.HasType init source ∧ source.assignable type = true

/-- The value is one that a method with the return type may return. -/
def Returns (ctx : Context) (returns : Ty) : Option Expr → Prop
  | none => returns = .void
  | some value =>
    returns ≠ .void ∧ ∃ type, ctx.HasType value type ∧ type.assignable returns = true

/-- The context with one more local. -/
def withLocal (ctx : Context) (name : String) (type : Ty) (initialized : Bool) : Context :=
  { ctx with
    scope := { ctx.scope with locals := ctx.scope.locals.insert name (type, initialized) } }

/-- The statements make a body whose `return`s fit the return type.  The flag says whether
control leaves it by a `return` or `throw`, which is the last statement then. -/
inductive BodyOk (returns : Ty) : Context → List Stmt → Bool → Prop where
  | nil {ctx} : BodyOk returns ctx [] false
  | var {ctx decl type stmts leaves} :
      ctx.Declares decl type →
      BodyOk returns (ctx.withLocal decl.name type decl.init.isSome) stmts leaves →
      BodyOk returns ctx (.var decl :: stmts) leaves
  | expr {ctx value line type stmts leaves} :
      ctx.HasType value type →
      BodyOk returns ctx stmts leaves →
      BodyOk returns ctx (.expr value line :: stmts) leaves
  | ret {ctx value span line} :
      ctx.Returns returns value →
      BodyOk returns ctx [.ret value span line] true
  | throw {ctx value span line type} :
      ctx.HasType value type →
      ctx.isThrowable type = true →
      BodyOk returns ctx [.throw value span line] true

/-- The context that a method body starts in, its parameters bound. -/
def withParams (ctx : Context) : List (Param × Ty) → Context
  | [] => ctx
  | (p, type) :: ps => (ctx.withLocal p.name type true).withParams ps

/-- The method has a body for the signature.  Control reaches its end only in `void` methods. -/
def MethodOk (ctx : Context) (m : MethodDecl) (sig : MethodSig) : Prop :=
  ∃ owner leaves,
    BodyOk sig.returns
      ({ ctx with scope := ⟨{}, some sig.returns, owner⟩ }.withParams (m.params.zip sig.params))
      m.body leaves ∧
    (leaves = false → sig.returns = .void)

end Context

end ReplEngine.Language
