import ReplEngine.Text.Lines
import ReplEngine.Text.Blank
set_option autoImplicit false

/-!
# Diagnostics

A diagnostic is a message about a span of the source that a compiler refused.  It is shown as
the lines of its message, the source line on which the span starts, and a marker under that
line.
-/

namespace ReplEngine

/-- A message about a span of one source. -/
structure Diag where
  message : String
  span : Span
  deriving DecidableEq, Repr, Inhabited

namespace Diag

open Text

/-! ## The message -/

/-- A message line that names the synthetic class around the unit says nothing to the user. -/
def isNoise (line : List Char) : Bool :=
  "location:".toList.isPrefixOf (trimStart line)

/-- The lines of a message that are shown. -/
def shownLines (message : List Char) : List (List Char) :=
  (textLines message).filter fun line => !line.isEmpty && !isNoise line

/-! ## The marker -/

/-- Ends the marker of a span that runs past the shown line. -/
def continuation : List Char := "-...".toList

/-- The marker under columns `start` to `stop` of a line.  The closing caret stands under the
last character covered; a span of no width has the opening one only. -/
def closedMarker (start stop : Nat) : List Char :=
  List.replicate start ' ' ++
    '^' :: (if start < stop then List.replicate (stop - start - 1) '-' ++ ['^'] else [])

/-- The marker of a span that starts at column `start` of a line of the given width and does
not end on it. -/
def openMarker (start width : Nat) : List Char :=
  List.replicate start ' ' ++ '^' :: (List.replicate (width - (start + 1)) '-' ++ continuation)

/-- The marker of a span under the line of its start, both bounds clamped to the source. -/
def marker (source : List Char) (line : LineBounds) (start stop : Nat) : List Char :=
  let column := charWidth source line.start start
  if line.stop < stop then openMarker column (charWidth source line.start line.stop)
  else closedMarker column (charWidth source line.start stop)

/-! ## The whole -/

/-- The lines that show a diagnostic against the source it was reported for. -/
def renderChars (source : List Char) (d : Diag) : List (List Char) :=
  let size := byteLength source
  let start := min d.span.start.toNat size
  let stop := min (max d.span.stop.toNat start) size
  let line := lineBounds source start
  shownLines d.message.toList ++ [line.text source, marker source line start stop]

/-- The lines that show a diagnostic against the source it was reported for. -/
def render (source : String) (d : Diag) : List String :=
  (d.renderChars source.toList).map String.ofList

/-- Stands in front of every line of a report. -/
def bar : String := "|  "

/-- The report on a refused source: a heading, then every line of every diagnostic, each behind
the bar. -/
def report (source : String) (ds : List Diag) : String :=
  "\n".intercalate ((bar ++ "Error:") :: (ds.flatMap (render source)).map (bar ++ ·))

end Diag

end ReplEngine
