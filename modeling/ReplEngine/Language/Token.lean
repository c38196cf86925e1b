import ReplEngine.Text.Span
set_option autoImplicit false

/-!
# Tokens of the snippet language

A token is a kind and the span it was read from.  The kind carries what the text of the token
says, so that `Kind.text` gives back exactly the characters it was read from.
-/

namespace ReplEngine

/-- Words that are never identifiers. -/
inductive Keyword where
  | classWord
  | newWord
  | returnWord
  | throwWord
  | trueWord
  | falseWord
  | nullWord
  | intWord
  | booleanWord
  | stringWord
  | voidWord
  | varWord
  deriving DecidableEq, Repr, Inhabited

namespace Keyword

/-- Every keyword. -/
def all : List Keyword :=
  [classWord, newWord, returnWord, throwWord, trueWord, falseWord, nullWord, intWord,
    booleanWord, stringWord, voidWord, varWord]

/-- How a keyword is written. -/
def spelling : Keyword → String
  | classWord => "class"
  | newWord => "new"
  | returnWord => "return"
  | throwWord => "throw"
  | trueWord => "true"
  | falseWord => "false"
  | nullWord => "null"
  | intWord => "int"
  | booleanWord => "boolean"
  | stringWord => "String"
  | voidWord => "void"
  | varWord => "var"

/-- The keyword written so, if there is one. -/
def ofSpelling? (word : String) : Option Keyword := all.find? fun k => k.spelling == word

theorem ofSpelling?_spelling (k : Keyword) : ofSpelling? k.spelling = some k := by
  cases k <;> decide

end Keyword

/-- Punctuation and operators, one character each. -/
inductive Symbol where
  | openParen
  | closeParen
  | openBrace
  | closeBrace
  | comma
  | semicolon
  | dot
  | equals
  | plus
  | minus
  | star
  | slash
  | percent
  deriving DecidableEq, Repr, Inhabited

namespace Symbol

/-- Every symbol. -/
def all : List Symbol :=
  [openParen, closeParen, openBrace, closeBrace, comma, semicolon, dot, equals, plus, minus,
    star, slash, percent]

/-- How a symbol is written. -/
def char : Symbol → Char
  | openParen => '('
  | closeParen => ')'
  | openBrace => '\x7b'
  | closeBrace => '\x7d'
  | comma => ','
  | semicolon => ';'
  | dot => '.'
  | equals => '='
  | plus => '+'
  | minus => '-'
  | star => '*'
  | slash => '/'
  | percent => '%'

/-- The symbol written so, if there is one. -/
def ofChar? (c : Char) : Option Symbol := all.find? fun s => s.char == c

theorem ofChar?_char (s : Symbol) : ofChar? s.char = some s := by
  cases s <;> decide

end Symbol

/-- What a token says. -/
inductive TokenKind where
  | keyword (word : Keyword)
  | symbol (sign : Symbol)
  /-- A run of decimal digits. -/
  | integer (digits : List Char)
  /-- A string literal; `body` is what stands between the quotes, escapes unresolved. -/
  | quoted (body : List Char)
  /-- A string literal without its closing quote. -/
  | unclosedString (body : List Char)
  | identifier (name : String)
  /-- A block comment without its end; `body` is the rest of the source after the opening. -/
  | unclosedComment (body : List Char)
  /-- A character that starts no token. -/
  | illegal (c : Char)
  deriving DecidableEq, Repr, Inhabited

namespace TokenKind

/-- The characters that a token of this kind is read from. -/
def text : TokenKind → List Char
  | keyword word => word.spelling.toList
  | symbol sign => [sign.char]
  | integer digits => digits
  | quoted body => '"' :: body ++ ['"']
  | unclosedString body => '"' :: body
  | identifier name => name.toList
  | unclosedComment body => '/' :: '*' :: body
  | illegal c => [c]

/-- A unit cannot end after a binary operator, `=`, `,` or `.`. -/
def expectsMore : TokenKind → Bool
  | symbol sign =>
    match sign with
    | .plus | .minus | .star | .slash | .percent | .equals | .comma | .dot => true
    | _ => false
  | _ => false

end TokenKind

/-- A token and where it stands in the source. -/
structure Token where
  kind : TokenKind
  span : Span
  deriving DecidableEq, Repr, Inhabited

end ReplEngine
