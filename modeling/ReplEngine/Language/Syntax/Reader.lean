import ReplEngine.Diagnostic
import ReplEngine.Language.Syntax
import ReplEngine.Language.Token.Lexer
import ReplEngine.Text.Quoted
set_option autoImplicit false

/-!
# Reading one unit

A recursive descent over the token list.  Reading stops at the first problem and reports it as a
diagnostic against the unit.

Loops and nested expressions are bounded by a number of steps.  Every step but the last takes a
token, so one step more than there are tokens is never used up; `Item.parse` starts with that
many.
-/

namespace ReplEngine.Language

open Text

/-! ## The cursor -/

/-- What is left to read, and where the last token taken ended. -/
structure Cursor where
  tokens : List Token
  lastEnd : UInt32 := 0
  deriving DecidableEq, Repr, Inhabited

/-- Reads from the cursor, or refuses the unit. -/
abbrev Reader (α : Type) : Type := StateT Cursor (Except Diag) α

namespace Reader

/-- What stands at the cursor cannot be what was needed.  Text that is no token is reported
where it stands, anything else as missing behind the last token. -/
def unexpected (expected : String) (c : Cursor) : Diag :=
  match c.tokens with
  | [] => ⟨"reached end of file while parsing", Span.point c.lastEnd⟩
  | t :: _ =>
    match t.kind with
    | .illegal x => ⟨"illegal character: '" ++ String.ofList [x] ++ "'", t.span⟩
    | .unclosedString _ => ⟨"unclosed string literal", t.span⟩
    | .unclosedComment _ => ⟨"unclosed comment", t.span⟩
    | _ => ⟨expected ++ " expected", Span.point c.lastEnd⟩

/-- Refuses what stands at the cursor. -/
def fail {α : Type} (expected : String) : Reader α := fun c => .error (unexpected expected c)

/-- Refuses with a message about a span. -/
def refuse {α : Type} (message : String) (span : Span) : Reader α :=
  fun _ => .error ⟨message, span⟩

/-- The token at the cursor. -/
def current : Reader (Option Token) := fun c => .ok (c.tokens.head?, c)

/-- The kind of the token `ahead` places behind the cursor. -/
def kindAt (ahead : Nat) : Reader (Option TokenKind) :=
  fun c => .ok (c.tokens[ahead]?.map Token.kind, c)

/-- Nothing is left. -/
def atEnd : Reader Bool := fun c => .ok (c.tokens.isEmpty, c)

/-- Where the last token taken ended. -/
def lastEnd : Reader UInt32 := fun c => .ok (c.lastEnd, c)

/-- Takes the token at the cursor. -/
def advance : Reader Unit := fun c =>
  match c.tokens with
  | [] => .ok ((), c)
  | t :: ts => .ok ((), ⟨ts, t.span.stop⟩)

/-- Takes the token at the cursor if it is the given symbol, and says whether it was. -/
def eat (sign : Symbol) : Reader Bool := do
  match ← kindAt 0 with
  | some (.symbol found) =>
    if found = sign then
      advance
      pure true
    else pure false
  | _ => pure false

/-- Takes the given symbol. -/
def expect (sign : Symbol) : Reader Unit := do
  if !(← eat sign) then fail ("'" ++ String.ofList [sign.char] ++ "'")

/-- Takes an identifier. -/
def identifier : Reader (String × Span) := do
  match ← current with
  | some ⟨.identifier name, span⟩ =>
    advance
    pure (name, span)
  | _ => fail "<identifier>"

/-! ## Types -/

/-- The type that a keyword names. -/
def typeOfKeyword? : Keyword → Option TypeName
  | .intWord => some .int
  | .booleanWord => some .boolean
  | .stringWord => some .string
  | .voidWord => some .void
  | .varWord => some .infer
  | _ => none

/-- A type and a name start here: a type keyword, or two identifiers in a row. -/
def atDeclaration : Reader Bool := do
  match ← kindAt 0 with
  | some (.keyword word) => pure (typeOfKeyword? word).isSome
  | some (.identifier _) =>
    match ← kindAt 1 with
    | some (.identifier _) => pure true
    | _ => pure false
  | _ => pure false

/-- Reads a type. -/
def typeName : Reader TypeName := do
  match ← kindAt 0 with
  | some (.identifier name) =>
    advance
    pure (.named name)
  | some (.keyword word) =>
    match typeOfKeyword? word with
    | some type =>
      advance
      pure type
    | none => fail "<identifier>"
  | _ => fail "<identifier>"

/-! ## Literals -/

/-- The number that decimal digits stand for. -/
def decimalValue (digits : List Char) : Nat :=
  digits.foldl (fun n c => 10 * n + (c.toNat - '0'.toNat)) 0

/-- The digits of the least integer without its sign: they only fit once the sign is there. -/
def leastDigits : List Char := "2147483648".toList

/-- Reads the digits of an integer literal. -/
def integer (digits : List Char) (span : Span) : Reader Expr :=
  let value := decimalValue digits
  if value ≤ 2147483647 then pure (.int (Int32.ofNat value) span)
  else refuse "integer number too large" span

/-- Reads what stands between the quotes of a string literal. -/
def string (body : List Char) (span : Span) : Reader Expr :=
  match Quoted.decode? body with
  | some cs => pure (.string (String.ofList cs) span)
  | none => refuse "illegal escape character" span

/-! ## Expressions -/

/-- The operators that bind tighter. -/
def productOp? : TokenKind → Option BinaryOp
  | .symbol .star => some .mul
  | .symbol .slash => some .div
  | .symbol .percent => some .rem
  | _ => none

/-- The operators that bind looser. -/
def sumOp? : TokenKind → Option BinaryOp
  | .symbol .plus => some .add
  | .symbol .minus => some .sub
  | _ => none

/-- Joins operands as long as operators follow, to the left. -/
def joinLeft (operand : Reader Expr) (op? : TokenKind → Option BinaryOp) : Nat → Expr → Reader Expr
  | 0, _ => fail "<expression>"
  | steps + 1, lhs => do
    match (← kindAt 0).bind op? with
    | none => pure lhs
    | some op =>
      advance
      let rhs ← operand
      joinLeft operand op? steps (.binary op lhs rhs (lhs.span.merge rhs.span))

/-- Operands joined to the left by the operators that `op?` admits. -/
def leftAssociative (operand : Reader Expr) (op? : TokenKind → Option BinaryOp) (steps : Nat) :
    Reader Expr := do
  joinLeft operand op? steps (← operand)

/-- One or more arguments, through the `)`. -/
def argumentsFrom (expr : Reader Expr) : Nat → Reader (List Expr)
  | 0 => fail "<expression>"
  | steps + 1 => do
    let arg ← expr
    if ← eat .closeParen then pure [arg]
    else
      expect .comma
      return arg :: (← argumentsFrom expr steps)

/-- The arguments behind a `(` already taken, through the `)`. -/
def arguments (expr : Reader Expr) (steps : Nat) : Reader (List Expr) := do
  if ← eat .closeParen then pure [] else argumentsFrom expr steps

/-- An operand without sign and suffixes. -/
def primary (expr : Reader Expr) (steps : Nat) : Reader Expr := do
  match ← current with
  | none => fail "<expression>"
  | some ⟨kind, span⟩ =>
    match kind with
    | .integer digits =>
      let e ← integer digits span
      advance
      pure e
    | .quoted body =>
      let e ← string body span
      advance
      pure e
    | .keyword .trueWord =>
      advance
      pure (.bool true span)
    | .keyword .falseWord =>
      advance
      pure (.bool false span)
    | .keyword .nullWord =>
      advance
      pure (.null span)
    | .identifier name =>
      advance
      if ← eat .openParen then
        let args ← arguments expr steps
        pure (.call name args ⟨span.start, ← lastEnd⟩)
      else pure (.name name span)
    | .keyword .newWord =>
      advance
      let (name, _) ← identifier
      expect .openParen
      let args ← arguments expr steps
      pure (.new name args ⟨span.start, ← lastEnd⟩)
    | .symbol .openParen =>
      advance
      let inner ← expr
      expect .closeParen
      pure (inner.withSpan ⟨span.start, ← lastEnd⟩)
    | .illegal _ | .unclosedString _ | .unclosedComment _ => fail "<expression>"
    | _ => refuse "illegal start of expression" span

/-- The method calls that follow a receiver. -/
def methodCalls (expr : Reader Expr) (argumentSteps : Nat) : Nat → Expr → Reader Expr
  | 0, _ => fail "<expression>"
  | steps + 1, receiver => do
    if ← eat .dot then
      let (method, _) ← identifier
      expect .openParen
      let args ← arguments expr argumentSteps
      let stop ← lastEnd
      methodCalls expr argumentSteps steps
        (.methodCall receiver method args ⟨receiver.span.start, stop⟩)
    else pure receiver

/-- An operand with its suffixes. -/
def suffixed (expr : Reader Expr) (steps : Nat) : Reader Expr := do
  methodCalls expr steps steps (← primary expr steps)

/-- An operand with its signs. -/
def signed (expr : Reader Expr) (suffixSteps : Nat) : Nat → Reader Expr
  | 0 => fail "<expression>"
  | steps + 1 => do
    match ← current with
    | some ⟨.symbol .minus, minus⟩ =>
      advance
      match ← current with
      | some ⟨.integer digits, span⟩ =>
        if digits = leastDigits then
          advance
          pure (.int Int32.minValue (minus.merge span))
        else
          let operand ← signed expr suffixSteps steps
          pure (.neg operand (minus.merge operand.span))
      | _ =>
        let operand ← signed expr suffixSteps steps
        pure (.neg operand (minus.merge operand.span))
    | _ => suffixed expr suffixSteps

/-- An expression, with at most `steps` expressions inside each other. -/
def expression : Nat → Reader Expr
  | 0 => fail "<expression>"
  | steps + 1 =>
    let inner := expression steps
    let operand := signed inner (steps + 1) (steps + 1)
    leftAssociative (leftAssociative operand productOp? (steps + 1)) sumOp? (steps + 1)

/-! ## Statements -/

/-- A statement without its `;`. -/
def simpleStatement (lines : LineTable) (steps : Nat) : Reader Stmt := do
  let first ← current
  let start := (first.map fun t => t.span.start).getD (← lastEnd)
  let line := lines.lineAt start
  match first.map Token.kind with
  | some (.keyword .returnWord) =>
    advance
    let value ←
      match ← kindAt 0 with
      | none | some (.symbol .semicolon) => pure none
      | _ => some <$> expression steps
    pure (.ret value ⟨start, ← lastEnd⟩ line)
  | some (.keyword .throwWord) =>
    advance
    let value ← expression steps
    pure (.throw value ⟨start, ← lastEnd⟩ line)
  | _ =>
    if ← atDeclaration then
      let type ← typeName
      let (name, _) ← identifier
      let init ← if ← eat .equals then some <$> expression steps else pure none
      pure (.var ⟨type, name, init, ⟨start, ← lastEnd⟩, line⟩)
    else
      let value ← expression steps
      pure (.expr value line)

/-- A statement.  At the top level the last `;` may be left out. -/
def statement (lines : LineTable) (steps : Nat) (topLevel : Bool) : Reader Stmt := do
  let stmt ← simpleStatement lines steps
  if ← eat .semicolon then pure stmt
  else if topLevel && (← atEnd) then pure stmt
  else fail "';'"

/-- The statements of a block, through its closing brace. -/
def statementsFrom (lines : LineTable) (exprSteps : Nat) : Nat → Reader (List Stmt)
  | 0 => fail "'\x7d'"
  | steps + 1 => do
    if ← eat .closeBrace then pure []
    else if ← atEnd then fail "'\x7d'"
    else
      let stmt ← statement lines exprSteps false
      return stmt :: (← statementsFrom lines exprSteps steps)

/-! ## Declarations -/

/-- One or more parameters, through the `)`. -/
def paramsFrom : Nat → Reader (List Param)
  | 0 => fail "<identifier>"
  | steps + 1 => do
    let first ← current
    let type ← typeName
    if type = .infer then
      refuse "'var' is not allowed here" ((first.map Token.span).getD default)
    else
      let (name, _) ← identifier
      if ← eat .closeParen then pure [⟨type, name⟩]
      else
        expect .comma
        return ⟨type, name⟩ :: (← paramsFrom steps)

/-- The parameters behind a `(` already taken, through the `)`. -/
def params (steps : Nat) : Reader (List Param) := do
  if ← eat .closeParen then pure [] else paramsFrom steps

/-- A method. -/
def method (lines : LineTable) (steps : Nat) : Reader MethodDecl := do
  let returns ← typeName
  let (name, nameSpan) ← identifier
  expect .openParen
  let ps ← params steps
  expect .openBrace
  let body ← statementsFrom lines steps steps
  pure ⟨returns, name, ps, body, nameSpan⟩

/-- The methods of a class, through its closing brace. -/
def methodsFrom (lines : LineTable) (bodySteps : Nat) : Nat → Reader (List MethodDecl)
  | 0 => fail "'\x7d'"
  | steps + 1 => do
    if ← eat .closeBrace then pure []
    else
      match ← current with
      | none => fail "'\x7d'"
      | some t =>
        if ← atDeclaration then
          let m ← method lines bodySteps
          return m :: (← methodsFrom lines bodySteps steps)
        else refuse "illegal start of type" t.span

/-- A class, behind the word `class` already taken. -/
def classDecl (lines : LineTable) (steps : Nat) : Reader ClassDecl := do
  let (name, nameSpan) ← identifier
  expect .openBrace
  let methods ← methodsFrom lines steps steps
  pure ⟨name, methods, nameSpan⟩

/-- One top-level item.  A `;` may follow a class or a method. -/
def item (lines : LineTable) (steps : Nat) : Reader Item := do
  match ← kindAt 0 with
  | some (.keyword .classWord) =>
    advance
    let decl ← classDecl lines steps
    let _ ← eat .semicolon
    pure (.typeDecl decl)
  | _ =>
    if (← atDeclaration) && (← kindAt 2) == some (.symbol .openParen) then
      let decl ← method lines steps
      let _ ← eat .semicolon
      pure (.method decl)
    else
      let stmt ← statement lines steps true
      pure (.stmt stmt)

/-- Nothing may follow the item. -/
def finish : Reader Unit := do
  match ← current with
  | none => pure ()
  | some t => refuse "class, interface, enum, or record expected" t.span

end Reader

/-- Reads a source as exactly one unit. -/
def Item.parse (source : String) : Except Diag Item :=
  let chars := source.toList
  let tokens := Token.scan chars
  let whole : Reader Item := do
    let item ← Reader.item (LineTable.ofSource chars) (tokens.length + 1)
    Reader.finish
    pure item
  (whole.run ⟨tokens, 0⟩).map Prod.fst

end ReplEngine.Language
