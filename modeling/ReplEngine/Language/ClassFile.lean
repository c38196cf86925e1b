import ReplEngine.Binary.Layout
import ReplEngine.Language.Syntax
set_option autoImplicit false

/-!
# Class files

What a class declaration compiles to: its name, the number of the snippet that declared it, and
its methods with their bodies as syntax trees.  `encode` writes a class file and `decode` reads
one back; variants are numbered in the order in which their types declare them.
-/

namespace ReplEngine.Language

open Binary

/-- A compiled class. -/
structure ClassFile where
  name : String
  /-- The number of the snippet that declared the class; stack frames report it. -/
  snippet : UInt32
  methods : List MethodDecl
  deriving Inhabited

namespace ClassFile

/-- The class file of a declaration in a numbered snippet. -/
def ofDecl (decl : ClassDecl) (snippet : UInt32) : ClassFile :=
  ⟨decl.name, snippet, decl.methods⟩

/-- The first method of a name. -/
def method? (f : ClassFile) (name : String) : Option MethodDecl :=
  f.methods.find? fun m => m.name == name

end ClassFile

/-! ## Writing -/

/-- A span. -/
def putSpan (s : Span) : Bytes := putWord s.start ++ putWord s.stop

/-- A type. -/
def putTypeName : TypeName → Bytes
  | .int => putVariant 0
  | .boolean => putVariant 1
  | .string => putVariant 2
  | .void => putVariant 3
  | .infer => putVariant 4
  | .named name => putVariant 5 ++ putText name

/-- A binary operator. -/
def putOp : BinaryOp → Bytes
  | .add => putVariant 0
  | .sub => putVariant 1
  | .mul => putVariant 2
  | .div => putVariant 3
  | .rem => putVariant 4

mutual

/-- An expression: what it is, then its span. -/
def putExpr : Expr → Bytes
  | .int value s => putVariant 0 ++ (putWord value.toUInt32 ++ putSpan s)
  | .string value s => putVariant 1 ++ (putText value ++ putSpan s)
  | .bool value s => putVariant 2 ++ (putBool value ++ putSpan s)
  | .null s => putVariant 3 ++ putSpan s
  | .name name s => putVariant 4 ++ (putText name ++ putSpan s)
  | .neg operand s => putVariant 5 ++ (putExpr operand ++ putSpan s)
  | .binary op lhs rhs s =>
    putVariant 6 ++ (putOp op ++ (putExpr lhs ++ (putExpr rhs ++ putSpan s)))
  | .call name args s =>
    putVariant 7 ++ (putText name ++ (putLength args.length ++ (putExprs args ++ putSpan s)))
  | .new name args s =>
    putVariant 8 ++ (putText name ++ (putLength args.length ++ (putExprs args ++ putSpan s)))
  | .methodCall receiver method args s =>
    putVariant 9 ++ (putExpr receiver ++ (putText method
      ++ (putLength args.length ++ (putExprs args ++ putSpan s))))

/-- Expressions one after the other. -/
def putExprs : List Expr → Bytes
  | [] => []
  | e :: es => putExpr e ++ putExprs es

end

/-- A variable declaration. -/
def putVarDecl (d : VarDecl) : Bytes :=
  putTypeName d.type ++ (putText d.name ++ (putOption putExpr d.init
    ++ (putSpan d.span ++ putWord d.line)))

/-- A statement. -/
def putStmt : Stmt → Bytes
  | .var decl => putVariant 0 ++ putVarDecl decl
  | .ret value span line =>
    putVariant 1 ++ (putOption putExpr value ++ (putSpan span ++ putWord line))
  | .throw value span line => putVariant 2 ++ (putExpr value ++ (putSpan span ++ putWord line))
  | .expr value line => putVariant 3 ++ (putExpr value ++ putWord line)

/-- A parameter. -/
def putParam (p : Param) : Bytes := putTypeName p.type ++ putText p.name

/-- A method. -/
def putMethod (m : MethodDecl) : Bytes :=
  putTypeName m.returns ++ (putText m.name ++ (putList putParam m.params
    ++ (putList putStmt m.body ++ putSpan m.nameSpan)))

/-- The bytes of a class file. -/
def ClassFile.encode (f : ClassFile) : Bytes :=
  putText f.name ++ (putWord f.snippet ++ putList putMethod f.methods)

/-! ## Reading -/

/-- A span. -/
def getSpan : Get Span := do
  let start ← getWord
  let stop ← getWord
  pure ⟨start, stop⟩

/-- A type. -/
def getTypeName : Get TypeName := do
  match ← getVariant 6 with
  | 0 => pure .int
  | 1 => pure .boolean
  | 2 => pure .string
  | 3 => pure .void
  | 4 => pure .infer
  | _ => TypeName.named <$> getText

/-- A binary operator. -/
def getOp : Get BinaryOp := do
  match ← getVariant 5 with
  | 0 => pure .add
  | 1 => pure .sub
  | 2 => pure .mul
  | 3 => pure .div
  | _ => pure .rem

/-- The text and the list of expressions that make up a call. -/
def getCall (expr : Get Expr) : Get (String × List Expr) := do
  let name ← getText
  let args ← getList expr
  pure (name, args)

/-- An expression, with at most `depth` expressions inside each other. -/
def getExprWithin : Nat → Get Expr
  | 0 => refuse .endOfInput
  | depth + 1 => do
    let expr := getExprWithin depth
    match ← getVariant 10 with
    | 0 =>
      let value ← getWord
      return .int value.toInt32 (← getSpan)
    | 1 =>
      let value ← getText
      return .string value (← getSpan)
    | 2 =>
      let value ← getBool
      return .bool value (← getSpan)
    | 3 => return .null (← getSpan)
    | 4 =>
      let name ← getText
      return .name name (← getSpan)
    | 5 =>
      let operand ← expr
      return .neg operand (← getSpan)
    | 6 =>
      let op ← getOp
      let lhs ← expr
      let rhs ← expr
      return .binary op lhs rhs (← getSpan)
    | 7 =>
      let (name, args) ← getCall expr
      return .call name args (← getSpan)
    | 8 =>
      let (name, args) ← getCall expr
      return .new name args (← getSpan)
    | _ =>
      let receiver ← expr
      let (method, args) ← getCall expr
      return .methodCall receiver method args (← getSpan)

/-- An expression.  Each one takes a byte at least, so the bytes at hand bound the depth. -/
def getExpr : Get Expr := fun bytes => getExprWithin (bytes.length + 1) bytes

/-- A variable declaration. -/
def getVarDecl : Get VarDecl := do
  let type ← getTypeName
  let name ← getText
  let init ← getOption getExpr
  let span ← getSpan
  let line ← getWord
  pure ⟨type, name, init, span, line⟩

/-- A statement. -/
def getStmt : Get Stmt := do
  match ← getVariant 4 with
  | 0 => Stmt.var <$> getVarDecl
  | 1 =>
    let value ← getOption getExpr
    let span ← getSpan
    return .ret value span (← getWord)
  | 2 =>
    let value ← getExpr
    let span ← getSpan
    return .throw value span (← getWord)
  | _ =>
    let value ← getExpr
    return .expr value (← getWord)

/-- A parameter. -/
def getParam : Get Param := do
  let type ← getTypeName
  let name ← getText
  pure ⟨type, name⟩

/-- A method. -/
def getMethod : Get MethodDecl := do
  let returns ← getTypeName
  let name ← getText
  let params ← getList getParam
  let body ← getList getStmt
  let nameSpan ← getSpan
  pure ⟨returns, name, params, body, nameSpan⟩

/-- A class file. -/
def getClassFile : Get ClassFile := do
  let name ← getText
  let snippet ← getWord
  let methods ← getList getMethod
  pure ⟨name, snippet, methods⟩

/-- Reads a class file; bytes behind it are ignored. -/
def ClassFile.decode (bytes : Bytes) : Except DecodeError ClassFile :=
  Binary.decode getClassFile bytes

end ReplEngine.Language
