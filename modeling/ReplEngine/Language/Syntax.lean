import ReplEngine.Text.Span
set_option autoImplicit false

/-!
# Syntax of the snippet language

Expressions carry the span they were read from; statements carry the line they start on as well,
because stack frames report it.
-/

namespace ReplEngine.Language

/-- A type as written. -/
inductive TypeName where
  | int
  | boolean
  | string
  | void
  /-- `var`: the type of the initializer. -/
  | infer
  | named (name : String)
  deriving DecidableEq, Repr, Inhabited

/-- How a type is written. -/
def TypeName.render : TypeName → String
  | int => "int"
  | boolean => "boolean"
  | string => "String"
  | void => "void"
  | infer => "var"
  | named name => name

/-- The binary operators. -/
inductive BinaryOp where
  | add
  | sub
  | mul
  | div
  | rem
  deriving DecidableEq, Repr, Inhabited

/-- How an operator is written. -/
def BinaryOp.render : BinaryOp → String
  | add => "+"
  | sub => "-"
  | mul => "*"
  | div => "/"
  | rem => "%"

/-- An expression. -/
inductive Expr where
  | int (value : Int32) (span : Span)
  | string (value : String) (span : Span)
  | bool (value : Bool) (span : Span)
  | null (span : Span)
  | name (name : String) (span : Span)
  | neg (operand : Expr) (span : Span)
  | binary (op : BinaryOp) (lhs rhs : Expr) (span : Span)
  /-- `f(args)`, the built-in `println` included. -/
  | call (name : String) (args : List Expr) (span : Span)
  | new (className : String) (args : List Expr) (span : Span)
  | methodCall (receiver : Expr) (method : String) (args : List Expr) (span : Span)
  deriving Inhabited

namespace Expr

/-- The span of an expression. -/
def span : Expr → Span
  | int _ s | string _ s | bool _ s | null s | name _ s | neg _ s | binary _ _ _ s
  | call _ _ s | new _ _ s | methodCall _ _ _ s => s

/-- The expression, read from another span: parentheses widen the span and leave no other
trace. -/
def withSpan (s : Span) : Expr → Expr
  | int v _ => int v s
  | string v _ => string v s
  | bool v _ => bool v s
  | null _ => null s
  | name n _ => name n s
  | neg e _ => neg e s
  | binary op l r _ => binary op l r s
  | call f args _ => call f args s
  | new c args _ => new c args s
  | methodCall r m args _ => methodCall r m args s

@[simp] theorem span_withSpan (s : Span) (e : Expr) : (e.withSpan s).span = s := by
  cases e <;> rfl

/-- Only calls and `new` do something when their value is thrown away. -/
def isStatement : Expr → Bool
  | call .. | new .. | methodCall .. => true
  | _ => false

/-- A name alone, as typed to look at a variable. -/
def isName : Expr → Bool
  | name .. => true
  | _ => false

end Expr

/-- `type name` or `type name = init`. -/
structure VarDecl where
  type : TypeName
  name : String
  init : Option Expr
  span : Span
  line : UInt32
  deriving Inhabited

/-- A statement. -/
inductive Stmt where
  | var (decl : VarDecl)
  | ret (value : Option Expr) (span : Span) (line : UInt32)
  | throw (value : Expr) (span : Span) (line : UInt32)
  | expr (value : Expr) (line : UInt32)
  deriving Inhabited

namespace Stmt

/-- The line a statement starts on. -/
def line : Stmt → UInt32
  | var decl => decl.line
  | ret _ _ line | throw _ _ line | expr _ line => line

/-- The span of a statement; that of an expression statement leaves its `;` out. -/
def span : Stmt → Span
  | var decl => decl.span
  | ret _ span _ | throw _ span _ => span
  | expr value _ => value.span

/-- Control never goes on behind the statement. -/
def exits : Stmt → Bool
  | ret .. | throw .. => true
  | _ => false

end Stmt

/-- A parameter of a method. -/
structure Param where
  type : TypeName
  name : String
  deriving DecidableEq, Repr, Inhabited

/-- A method: of a class, or declared at the top level. -/
structure MethodDecl where
  returns : TypeName
  name : String
  params : List Param
  body : List Stmt
  /-- The span of the name, for diagnostics. -/
  nameSpan : Span
  deriving Inhabited

/-- The return type, the name and the parameter types, as in `int area(int, int)`. -/
def MethodDecl.signature (m : MethodDecl) : String :=
  m.returns.render ++ " " ++ m.name ++
    "(" ++ ", ".intercalate (m.params.map fun p => p.type.render) ++ ")"

/-- A class. -/
structure ClassDecl where
  name : String
  methods : List MethodDecl
  nameSpan : Span
  deriving Inhabited

/-- One top-level unit. -/
inductive Item where
  | typeDecl (decl : ClassDecl)
  | method (decl : MethodDecl)
  | stmt (stmt : Stmt)
  deriving Inhabited

end ReplEngine.Language
