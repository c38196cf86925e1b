import ReplEngine.Text.Span
import ReplEngine.Text.Bytes
set_option autoImplicit false

/-!
# Lines of a source text

A source may mix three line breaks: LF, CR LF and a bare CR.  This module finds the breaks,
the line that holds an offset, and the number of that line; it also splits a message into its
lines, where only LF ends a line.
-/

namespace ReplEngine.Text

/-- One line-break sequence: the bytes from `start` to `stop`. -/
structure LineBreak where
  start : Nat
  stop : Nat
  deriving DecidableEq, Repr, Inhabited

/-- The breaks of a text whose first byte has the given offset. -/
def lineBreaksFrom (offset : Nat) : List Char → List LineBreak
  | [] => []
  | '\r' :: '\n' :: cs => ⟨offset, offset + 2⟩ :: lineBreaksFrom (offset + 2) cs
  | c :: cs =>
    if c = '\r' ∨ c = '\n' then ⟨offset, offset + 1⟩ :: lineBreaksFrom (offset + 1) cs
    else lineBreaksFrom (offset + c.utf8Size) cs

/-- Every line break of a source, in order. -/
def lineBreaks (source : List Char) : List LineBreak := lineBreaksFrom 0 source

/-! ## The line that holds an offset -/

/-- The bytes of one line, its break left out. -/
structure LineBounds where
  start : Nat
  stop : Nat
  deriving DecidableEq, Repr, Inhabited

/-- The text of a line. -/
def LineBounds.text (b : LineBounds) (source : List Char) : List Char :=
  slice b.start b.stop source

/-- Walks the breaks from a line that starts at `start`: the line ends at the first break at or
after the offset, or at the end of the source. -/
def boundsAmong (offset size : Nat) (start : Nat) : List LineBreak → LineBounds
  | [] => ⟨start, size⟩
  | b :: bs => if offset ≤ b.start then ⟨start, b.start⟩ else boundsAmong offset size b.stop bs

/-- The line that holds a byte offset.  An offset past the end belongs to the last line. -/
def lineBounds (source : List Char) (offset : Nat) : LineBounds :=
  let size := byteLength source
  boundsAmong (min offset size) size 0 (lineBreaks source)

/-! ## Line numbers -/

/-- The offsets at which the lines of a source start, in order. -/
structure LineTable where
  starts : List UInt32
  deriving DecidableEq, Repr, Inhabited

namespace LineTable

/-- A line starts at the beginning and after every break. -/
def ofSource (source : List Char) : LineTable :=
  ⟨0 :: (lineBreaks source).map fun b => wordOf b.stop⟩

/-- The number of the line that holds an offset, counted from one: as many lines have started
at or before it. -/
def lineAt (table : LineTable) (offset : UInt32) : UInt32 :=
  wordOf (table.starts.countP (· ≤ offset))

/-- The number of lines. -/
def size (table : LineTable) : Nat := table.starts.length

end LineTable

/-- The number of the line of a source that holds an offset. -/
def lineNumber (source : List Char) (offset : UInt32) : UInt32 :=
  (LineTable.ofSource source).lineAt offset

/-! ## Columns -/

/-- The number of characters from one offset to another, or the number of bytes where the two
do not cut characters apart. -/
def charWidth (source : List Char) (start stop : Nat) : Nat :=
  if stop ≤ start then 0
  else match slice? start stop source with
    | some cs => cs.length
    | none => stop - start

/-! ## The lines of a message -/

/-- Puts a character in front of the first of some lines. -/
def consFirst (c : Char) : List (List Char) → List (List Char)
  | [] => [[c]]
  | l :: ls => (c :: l) :: ls

/-- The lines of a text.  LF ends a line and takes one CR in front of it along; what stands
after the last LF is a line unless it is empty. -/
def textLines : List Char → List (List Char)
  | [] => []
  | '\r' :: '\n' :: cs => [] :: textLines cs
  | c :: cs => if c = '\n' then [] :: textLines cs else consFirst c (textLines cs)

end ReplEngine.Text
