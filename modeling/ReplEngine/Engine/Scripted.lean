import ReplEngine.ClassSpace.Listing
import ReplEngine.Engine.Evaluator
set_option autoImplicit false

/-!
# A scripted compiler

A compiler that looks every unit up in a script instead of reading it.  It stands in where the
engine itself is the subject: what a unit emits, how it fails and what it reports can all be set
down in advance.
-/

namespace ReplEngine.Scripted

open Text

/-- What the script says about one unit. -/
structure Entry where
  /-- Compiling fails with this text. -/
  compileFailure : Option String := none
  classes : List ClassBytes := []
  /-- Running fails with this text. -/
  executeFailure : Option String := none
  /-- Running looks this class up first. -/
  needs : Option String := none
  /-- Kind, name and result of every event that running reports. -/
  events : List (SnippetKind × String × SnippetResult) := []
  diagnostics : List Diag := []
  deriving Repr, Inhabited

/-- The script, and what has been done so far. -/
structure State where
  script : Table Entry
  /-- The number of units compiled, those that failed included. -/
  units : UInt32 := 0
  /-- The sources run, in order. -/
  ran : List String := []
  /-- How often the compiler was closed. -/
  closes : Nat := 0
  deriving Repr, Inhabited

/-- The sources run since the last time. -/
def State.takeRan (s : State) : List String × State := (s.ran, { s with ran := [] })

/-- A unit: its number, its source and what the script says about it. -/
structure ScriptedUnit where
  id : UInt32
  source : String
  entry : Entry
  deriving Repr, Inhabited

/-- The name of a unit in the script: its source, trimmed, without semicolons at its end. -/
def keyOf (source : String) : String :=
  String.ofList (dropEndWhile (· == ';') (trim source.toList))

/-- What the script says about a source; nothing special if it does not say anything. -/
def State.entry (s : State) (source : String) : Entry := (s.script.get? (keyOf source)).getD {}

/-- A unit ends at its first `;`.  Without one it is complete unless it ends in `+`. -/
def nextUnitChars (source : List Char) : NextUnit :=
  if source.all isBlank then .empty
  else
    match source.span (· != ';') with
    | (unit, _ :: rest) => .complete (String.ofList (unit ++ [';'])) (String.ofList rest)
    | (unit, []) =>
      if unit.getLast? = some '+' then .incomplete else .complete (String.ofList unit) ""

/-- Looks a unit up. -/
def compile (source : String) (s : State) :
    Except CompilerFailure (Compiled ScriptedUnit) × State :=
  let s := { s with units := s.units + 1 }
  let entry := s.entry source
  match entry.compileFailure with
  | some reason => (.error ⟨reason⟩, s)
  | none => (.ok ⟨entry.classes, ⟨s.units, source, entry⟩⟩, s)

/-- The events that a unit reports. -/
def ScriptedUnit.report (unit : ScriptedUnit) : List Event :=
  unit.entry.events.map fun (kind, name, result) => ⟨⟨unit.id, kind, name, unit.source⟩, result⟩

/-- Runs a unit: it is on record, then fails, or finds the class it needs and reports. -/
def execute (files : FileTree) (unit : ScriptedUnit) (s : State) (loader : Loader) :
    Except CompilerFailure (List Event) × State × Loader :=
  let s := { s with ran := s.ran ++ [unit.source] }
  match unit.entry.executeFailure with
  | some reason => (.error ⟨reason⟩, s, loader)
  | none =>
    match unit.entry.needs with
    | none => (.ok unit.report, s, loader)
    | some name =>
      match (Loader.find files name).run loader with
      | (.ok _, loader) => (.ok unit.report, s, loader)
      | (.error e, loader) => (.error ⟨e.message⟩, s, loader)

/-- The scripted compiler. -/
def compiler : Compiler State ScriptedUnit where
  nextUnit _ source := nextUnitChars source.toList
  compile := compile
  execute := execute
  diagnostics s snippet := (s.entry snippet.source).diagnostics
  definer := defineListing
  close s := { s with closes := s.closes + 1 }

end ReplEngine.Scripted
