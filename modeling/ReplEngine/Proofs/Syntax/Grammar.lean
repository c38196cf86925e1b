import ReplEngine.Language.Syntax.Reader
set_option autoImplicit false

/-!
# The grammar of one unit

The language as relations between token lists and what they say, written down without a reader:
`TopLevel line tokens item` holds when the tokens derive the item.

The relations carry attributes beside the shape.  The span of a phrase is computed from the spans
of its tokens, and the line of a statement from where its first token starts, through `line`.  A
list of tokens therefore derives at most one item in full, positions included, and not only up to
positions.
-/

namespace ReplEngine.Language.Grammar

/-! ## Positions -/

/-- Where the last of some tokens ends, or `stop` when there are none. -/
def stopAfter (stop : UInt32) : List Token → UInt32
  | [] => stop
  | t :: ts => stopAfter t.span.stop ts

@[simp] theorem stopAfter_nil (stop : UInt32) : stopAfter stop [] = stop := rfl

@[simp] theorem stopAfter_cons (stop : UInt32) (t : Token) (ts : List Token) :
    stopAfter stop (t :: ts) = stopAfter t.span.stop ts := rfl

@[simp] theorem stopAfter_append (stop : UInt32) (ts us : List Token) :
    stopAfter stop (ts ++ us) = stopAfter (stopAfter stop ts) us := by
  induction ts generalizing stop with
  | nil => rfl
  | cons t ts ih => exact ih t.span.stop

/-! ## Types -/

/-- The tokens that name a type. -/
inductive NamesType : TokenKind → TypeName → Prop where
  | int : NamesType (.keyword .intWord) .int
  | boolean : NamesType (.keyword .booleanWord) .boolean
  | string : NamesType (.keyword .stringWord) .string
  | void : NamesType (.keyword .voidWord) .void
  | infer : NamesType (.keyword .varWord) .infer
  | named (name : String) : NamesType (.identifier name) (.named name)

/-! ## Literals -/

/-- What a backslash and a character stand for. -/
inductive Escape : Char → Char → Prop where
  | newline : Escape 'n' '\n'
  | tab : Escape 't' '\t'
  | return : Escape 'r' '\r'
  | zero : Escape '0' '\x00'
  | quote : Escape '"' '"'
  | apostrophe : Escape '\'' '\''
  | backslash : Escape '\\' '\\'

/-- What stands between the quotes of a literal, and the text it stands for. -/
inductive Unescapes : List Char → List Char → Prop where
  | nil : Unescapes [] []
  | plain {c : Char} {body cs : List Char} (hc : c ≠ '\\') (h : Unescapes body cs) :
      Unescapes (c :: body) (c :: cs)
  | escape {c d : Char} {body cs : List Char} (hc : Escape c d) (h : Unescapes body cs) :
      Unescapes ('\\' :: c :: body) (d :: cs)

/-! ## Expressions -/

/-- How tightly an expression holds together, loosest first. -/
inductive Level where
  | sum
  | product
  | signed
  | suffixed
  | primary
  deriving DecidableEq, Repr

/-- The sign an operator is written with. -/
def sign : BinaryOp → Symbol
  | .add => .plus
  | .sub => .minus
  | .mul => .star
  | .div => .slash
  | .rem => .percent

/-- The level of the phrases an operator joins its operands to, and of its left operand. -/
def level : BinaryOp → Level
  | .add | .sub => .sum
  | .mul | .div | .rem => .product

/-- The level of the right operand of an operator. -/
def operandLevel : BinaryOp → Level
  | .add | .sub => .product
  | .mul | .div | .rem => .signed

/-- Phrases with a comma between neighbours: each phrase by its tokens and what they say. -/
inductive Listed {α : Type} : List (List Token × α) → List Token → Prop where
  | none : Listed [] []
  | one (ts : List Token) (a : α) : Listed [(ts, a)] ts
  | more (ts : List Token) (a : α) (comma : Span) {part : List Token × α}
      {parts : List (List Token × α)} {us : List Token} (h : Listed (part :: parts) us) :
      Listed ((ts, a) :: part :: parts) (ts ++ ⟨.symbol .comma, comma⟩ :: us)

/-- The tokens derive the expression at the level.  The least integer is a sign and digits that
are no literal on their own. -/
inductive Expression : Level → List Token → Expr → Prop where
  | ofProduct {ts : List Token} {e : Expr} (h : Expression .product ts e) : Expression .sum ts e
  | ofSigned {ts : List Token} {e : Expr} (h : Expression .signed ts e) : Expression .product ts e
  | ofSuffixed {ts : List Token} {e : Expr} (h : Expression .suffixed ts e) :
      Expression .signed ts e
  | ofPrimary {ts : List Token} {e : Expr} (h : Expression .primary ts e) :
      Expression .suffixed ts e
  | binary (op : BinaryOp) {l : Level} (hop : level op = l) (s : Span) {ts us : List Token}
      {lhs rhs : Expr} (hl : Expression l ts lhs) (hr : Expression (operandLevel op) us rhs) :
      Expression l (ts ++ ⟨.symbol (sign op), s⟩ :: us)
        (.binary op lhs rhs (lhs.span.merge rhs.span))
  | negate (minus : Span) {ts : List Token} {e : Expr} (h : Expression .signed ts e) :
      Expression .signed (⟨.symbol .minus, minus⟩ :: ts) (.neg e (minus.merge e.span))
  | least (minus s : Span) :
      Expression .signed [⟨.symbol .minus, minus⟩, ⟨.integer "2147483648".toList, s⟩]
        (.int (-2147483648) (minus.merge s))
  | methodCall (method : String) (dot name opening closing : Span) {ts us : List Token}
      {receiver : Expr} {parts : List (List Token × Expr)} (hr : Expression .suffixed ts receiver)
      (hlist : Listed parts us) (hargs : ∀ p ∈ parts, Expression .sum p.1 p.2) :
      Expression .suffixed
        (ts ++ (⟨.symbol .dot, dot⟩ :: ⟨.identifier method, name⟩ ::
          ⟨.symbol .openParen, opening⟩ :: us ++ [⟨.symbol .closeParen, closing⟩]))
        (.methodCall receiver method (parts.map Prod.snd) ⟨receiver.span.start, closing.stop⟩)
  | int {digits : List Char} (hfits : Reader.decimalValue digits ≤ 2147483647) (s : Span) :
      Expression .primary [⟨.integer digits, s⟩]
        (.int (Int32.ofNat (Reader.decimalValue digits)) s)
  | string {body cs : List Char} (h : Unescapes body cs) (s : Span) :
      Expression .primary [⟨.quoted body, s⟩] (.string (String.ofList cs) s)
  | true (s : Span) : Expression .primary [⟨.keyword .trueWord, s⟩] (.bool true s)
  | false (s : Span) : Expression .primary [⟨.keyword .falseWord, s⟩] (.bool false s)
  | null (s : Span) : Expression .primary [⟨.keyword .nullWord, s⟩] (.null s)
  | name (name : String) (s : Span) : Expression .primary [⟨.identifier name, s⟩] (.name name s)
  | call (f : String) (name opening closing : Span) {us : List Token}
      {parts : List (List Token × Expr)} (hlist : Listed parts us)
      (hargs : ∀ p ∈ parts, Expression .sum p.1 p.2) :
      Expression .primary
        (⟨.identifier f, name⟩ :: ⟨.symbol .openParen, opening⟩ :: us ++
          [⟨.symbol .closeParen, closing⟩])
        (.call f (parts.map Prod.snd) ⟨name.start, closing.stop⟩)
  | new (className : String) (word name opening closing : Span) {us : List Token}
      {parts : List (List Token × Expr)} (hlist : Listed parts us)
      (hargs : ∀ p ∈ parts, Expression .sum p.1 p.2) :
      Expression .primary
        (⟨.keyword .newWord, word⟩ :: ⟨.identifier className, name⟩ ::
          ⟨.symbol .openParen, opening⟩ :: us ++ [⟨.symbol .closeParen, closing⟩])
        (.new className (parts.map Prod.snd) ⟨word.start, closing.stop⟩)
  | paren (opening closing : Span) {ts : List Token} {e : Expr} (h : Expression .sum ts e) :
      Expression .primary
        (⟨.symbol .openParen, opening⟩ :: ts ++ [⟨.symbol .closeParen, closing⟩])
        (e.withSpan ⟨opening.start, closing.stop⟩)

/-! ## Statements -/

/-- The tokens derive the statement, its `;` left out. -/
inductive Simple (line : UInt32 → UInt32) : List Token → Stmt → Prop where
  | ret (word : Span) :
      Simple line [⟨.keyword .returnWord, word⟩] (.ret none word (line word.start))
  | retValue (word : Span) {ts : List Token} {e : Expr} (h : Expression .sum ts e) :
      Simple line (⟨.keyword .returnWord, word⟩ :: ts)
        (.ret (some e) ⟨word.start, stopAfter word.stop ts⟩ (line word.start))
  | throw (word : Span) {ts : List Token} {e : Expr} (h : Expression .sum ts e) :
      Simple line (⟨.keyword .throwWord, word⟩ :: ts)
        (.throw e ⟨word.start, stopAfter word.stop ts⟩ (line word.start))
  | var {kind : TokenKind} {type : TypeName} (htype : NamesType kind type) (word : Span)
      (name : String) (nameSpan : Span) :
      Simple line [⟨kind, word⟩, ⟨.identifier name, nameSpan⟩]
        (.var ⟨type, name, none, ⟨word.start, nameSpan.stop⟩, line word.start⟩)
  | varInit {kind : TokenKind} {type : TypeName} (htype : NamesType kind type) (word : Span)
      (name : String) (nameSpan equals : Span) {ts : List Token} {e : Expr}
      (h : Expression .sum ts e) :
      Simple line
        (⟨kind, word⟩ :: ⟨.identifier name, nameSpan⟩ :: ⟨.symbol .equals, equals⟩ :: ts)
        (.var ⟨type, name, some e, ⟨word.start, stopAfter equals.stop ts⟩, line word.start⟩)
  | expr {t : Token} {ts : List Token} {e : Expr} (h : Expression .sum (t :: ts) e) :
      Simple line (t :: ts) (.expr e (line t.span.start))

/-- The tokens derive the statements in order, each with its `;`. -/
inductive Statements (line : UInt32 → UInt32) : List Token → List Stmt → Prop where
  | nil : Statements line [] []
  | cons {ts us : List Token} {s : Stmt} {body : List Stmt} (semicolon : Span)
      (h : Simple line ts s) (hbody : Statements line us body) :
      Statements line (ts ++ ⟨.symbol .semicolon, semicolon⟩ :: us) (s :: body)

/-! ## Declarations -/

/-- The tokens derive the parameter.  `var` is not the type of one. -/
inductive Parameter : List Token → Param → Prop where
  | mk {kind : TokenKind} {type : TypeName} (htype : NamesType kind type) (hvar : type ≠ .infer)
      (word : Span) (name : String) (nameSpan : Span) :
      Parameter [⟨kind, word⟩, ⟨.identifier name, nameSpan⟩] ⟨type, name⟩

/-- The tokens derive the method. -/
inductive Method (line : UInt32 → UInt32) : List Token → MethodDecl → Prop where
  | mk {kind : TokenKind} {returns : TypeName} (htype : NamesType kind returns) (name : String)
      (word nameSpan openParen closeParen openBrace closeBrace : Span) {us vs : List Token}
      {parts : List (List Token × Param)} {body : List Stmt} (hlist : Listed parts us)
      (hparams : ∀ p ∈ parts, Parameter p.1 p.2) (hbody : Statements line vs body) :
      Method line
        (⟨kind, word⟩ :: ⟨.identifier name, nameSpan⟩ :: ⟨.symbol .openParen, openParen⟩ :: us ++
          ⟨.symbol .closeParen, closeParen⟩ :: ⟨.symbol .openBrace, openBrace⟩ :: vs ++
          [⟨.symbol .closeBrace, closeBrace⟩])
        ⟨returns, name, parts.map Prod.snd, body, nameSpan⟩

/-- The tokens derive the methods in order. -/
inductive Methods (line : UInt32 → UInt32) : List Token → List MethodDecl → Prop where
  | nil : Methods line [] []
  | cons {ts us : List Token} {m : MethodDecl} {ms : List MethodDecl} (h : Method line ts m)
      (hmethods : Methods line us ms) : Methods line (ts ++ us) (m :: ms)

/-- A `;`, or nothing. -/
inductive MaySemicolon : List Token → Prop where
  | absent : MaySemicolon []
  | present (s : Span) : MaySemicolon [⟨.symbol .semicolon, s⟩]

/-- The tokens derive the class. -/
inductive Class (line : UInt32 → UInt32) : List Token → ClassDecl → Prop where
  | mk (name : String) (word nameSpan opening closing : Span) {ts : List Token}
      {ms : List MethodDecl} (h : Methods line ts ms) :
      Class line
        (⟨.keyword .classWord, word⟩ :: ⟨.identifier name, nameSpan⟩ ::
          ⟨.symbol .openBrace, opening⟩ :: ts ++ [⟨.symbol .closeBrace, closing⟩])
        ⟨name, ms, nameSpan⟩

/-! ## Units -/

/-- The tokens derive the item, as the only unit of a source. -/
inductive TopLevel (line : UInt32 → UInt32) : List Token → Item → Prop where
  | typeDecl {ts us : List Token} {decl : ClassDecl} (h : Class line ts decl)
      (hend : MaySemicolon us) : TopLevel line (ts ++ us) (.typeDecl decl)
  | method {ts us : List Token} {decl : MethodDecl} (h : Method line ts decl)
      (hend : MaySemicolon us) : TopLevel line (ts ++ us) (.method decl)
  | stmt {ts us : List Token} {s : Stmt} (h : Simple line ts s) (hend : MaySemicolon us) :
      TopLevel line (ts ++ us) (.stmt s)

end ReplEngine.Language.Grammar
