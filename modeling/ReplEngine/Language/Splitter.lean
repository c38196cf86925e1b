import ReplEngine.Engine.NextUnit
import ReplEngine.Language.Token.Lexer
set_option autoImplicit false

/-!
# Where the first unit of a source ends

A unit ends at the first `;` outside braces and parentheses, or at the `}` that closes a
top-level block, with a `;` directly behind it.  A source that ends inside a block, a
parenthesised list, a string or a comment, or right after an operator, is incomplete.  Any other
source is complete as typed: the last `;` may be left out.
-/

namespace ReplEngine.Language

open Text

/-- Brackets opened and not yet closed; stray closers count below zero. -/
structure Nesting where
  braces : Int := 0
  parens : Int := 0
  deriving DecidableEq, Repr, Inhabited

/-- What a walk over the tokens of a source finds. -/
inductive UnitEnd where
  /-- The unit ends at this offset. -/
  | at (offset : Nat)
  /-- The walk met an opened string or comment that nothing closes. -/
  | unclosed
  /-- The tokens ran out at this nesting. -/
  | ran (nesting : Nesting)
  deriving DecidableEq, Repr, Inhabited

/-- A block ends behind its `}`, or behind a `;` that follows directly. -/
def blockEnd (close : Token) : List Token → Nat
  | next :: _ =>
    if next.kind = .symbol .semicolon then next.span.stop.toNat else close.span.stop.toNat
  | [] => close.span.stop.toNat

/-- Looks for the end of the first unit. -/
def findEnd (n : Nesting) : List Token → UnitEnd
  | [] => .ran n
  | t :: ts =>
    match t.kind with
    | .unclosedComment _ => .unclosed
    | .unclosedString _ => if ts.isEmpty then .unclosed else findEnd n ts
    | .symbol .openBrace => findEnd { n with braces := n.braces + 1 } ts
    | .symbol .closeBrace =>
      let braces := n.braces - 1
      if braces = 0 ∧ n.parens ≤ 0 then .at (blockEnd t ts)
      else findEnd { n with braces := braces } ts
    | .symbol .openParen => findEnd { n with parens := n.parens + 1 } ts
    | .symbol .closeParen => findEnd { n with parens := n.parens - 1 } ts
    | .symbol .semicolon =>
      if n.braces ≤ 0 ∧ n.parens ≤ 0 then .at t.span.stop.toNat else findEnd n ts
    | _ => findEnd n ts

/-- The last token of a list asks for more. -/
def endsOpen (tokens : List Token) : Bool :=
  match tokens.getLast? with
  | some t => t.kind.expectsMore
  | none => false

/-- The first unit of a source, from its first token on. -/
def nextUnitChars (source : List Char) : NextUnit :=
  let tokens := Token.scan source
  match tokens with
  | [] => .empty
  | first :: _ =>
    let cut (stop : Nat) : NextUnit :=
      .complete (String.ofList (slice first.span.start.toNat stop source))
        (String.ofList (sliceFrom stop source))
    match findEnd {} tokens with
    | .at offset => cut offset
    | .unclosed => .incomplete
    | .ran n =>
      if 0 < n.braces ∨ 0 < n.parens ∨ endsOpen tokens then .incomplete
      else cut (byteLength source)

/-- The first unit of a source, from its first token on. -/
def nextUnit (source : String) : NextUnit := nextUnitChars source.toList

end ReplEngine.Language
