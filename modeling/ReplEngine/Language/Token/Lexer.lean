import ReplEngine.Language.Token
import ReplEngine.Text.Bytes
set_option autoImplicit false

/-!
# Splitting a source into tokens

`Piece.next` reads the longest piece at the front of a text: a token, or a run of characters
that separates tokens (blanks and comments).  `Token.scan` reads piece after piece and keeps the
tokens.  It never fails: a character that starts no token is a token of its own.
-/

namespace ReplEngine

open Text

/-! ## Character classes -/

/-- Blanks between tokens. -/
def isSeparator (c : Char) : Bool :=
  c == ' ' || c == '\t' || c == '\r' || c == '\n' || c == '\x0c'

/-- A break that ends a line comment and may not stand in a string literal. -/
def isBreak (c : Char) : Bool := c == '\r' || c == '\n'

/-- ASCII decimal digits. -/
def isDigit (c : Char) : Bool := '0' ≤ c && c ≤ '9'

/-- Characters that may start an identifier. -/
def isWordStart (c : Char) : Bool :=
  ('A' ≤ c && c ≤ 'Z') || ('a' ≤ c && c ≤ 'z') || c == '_' || c == '$'

/-- Characters that may continue an identifier. -/
def isWordPart (c : Char) : Bool := isWordStart c || isDigit c

/-! ## Runs -/

/-- Splits a text behind its first `*/`; the first part does not hold the `*/`. -/
def splitAtCommentEnd? : List Char → Option (List Char × List Char)
  | [] => none
  | '*' :: '/' :: cs => some ([], cs)
  | c :: cs => (splitAtCommentEnd? cs).map fun (body, rest) => (c :: body, rest)

/-- Splits off the longest run that can stand inside a string literal: any character but a
quote, a backslash or a break, or a backslash with any character but a break behind it. -/
def spanStringBody : List Char → List Char × List Char
  | [] => ([], [])
  | '\\' :: c :: cs =>
    if isBreak c then ([], '\\' :: c :: cs)
    else
      let (body, rest) := spanStringBody cs
      ('\\' :: c :: body, rest)
  | c :: cs =>
    if c == '"' || c == '\\' || isBreak c then ([], c :: cs)
    else
      let (body, rest) := spanStringBody cs
      (c :: body, rest)

/-! ## Pieces -/

/-- The longest piece at the front of a text. -/
structure Piece where
  /-- The characters read. -/
  text : List Char
  /-- What they say; `none` for what only separates tokens. -/
  kind : Option TokenKind
  /-- What stands behind them. -/
  rest : List Char
  deriving DecidableEq, Repr, Inhabited

namespace Piece

/-- A piece that is a token. -/
def token (kind : TokenKind) (rest : List Char) : Piece := ⟨kind.text, some kind, rest⟩

/-- The piece that starts with a slash: a comment, or the operator. -/
def afterSlash : List Char → Piece
  | '/' :: cs =>
    let (body, rest) := cs.span (!isBreak ·)
    ⟨'/' :: '/' :: body, none, rest⟩
  | '*' :: cs =>
    match splitAtCommentEnd? cs with
    | some (body, rest) => ⟨'/' :: '*' :: (body ++ ['*', '/']), none, rest⟩
    | none => token (.unclosedComment cs) []
  | cs => token (.symbol .slash) cs

/-- The piece that starts with a quote. -/
def afterQuote (cs : List Char) : Piece :=
  match spanStringBody cs with
  | (body, '"' :: rest) => token (.quoted body) rest
  | (body, rest) => token (.unclosedString body) rest

/-- The keyword or identifier with these letters. -/
def wordKind (word : String) : TokenKind :=
  match Keyword.ofSpelling? word with
  | some k => .keyword k
  | none => .identifier word

/-- The longest piece at the front of `c :: cs`. -/
def next (c : Char) (cs : List Char) : Piece :=
  if isSeparator c then
    let (run, rest) := cs.span isSeparator
    ⟨c :: run, none, rest⟩
  else if c == '/' then afterSlash cs
  else if c == '"' then afterQuote cs
  else if isDigit c then
    let (run, rest) := cs.span isDigit
    token (.integer (c :: run)) rest
  else if isWordStart c then
    let (run, rest) := cs.span isWordPart
    token (wordKind (String.ofList (c :: run))) rest
  else match Symbol.ofChar? c with
    | some sign => token (.symbol sign) cs
    | none => token (.illegal c) cs

end Piece

/-! ## The token list -/

namespace Token

/-- The tokens of a text whose first byte has the given offset, in at most `pieces` pieces. -/
def scanWithin (pieces : Nat) (offset : Nat) : List Char → List Token
  | [] => []
  | c :: cs =>
    match pieces with
    | 0 => []
    | pieces + 1 =>
      let piece := Piece.next c cs
      let stop := offset + byteLength piece.text
      let later := scanWithin pieces stop piece.rest
      match piece.kind with
      | some kind => ⟨kind, Span.ofRange offset stop⟩ :: later
      | none => later

/-- The tokens of a source.  A source has no more pieces than characters. -/
def scan (source : List Char) : List Token := scanWithin source.length 0 source

end Token

end ReplEngine
