import ReplEngine.Engine.Compiler
import ReplEngine.Language.Evaluation
import ReplEngine.Language.Splitter
import ReplEngine.Language.Syntax.Reader
import ReplEngine.Language.Typing
set_option autoImplicit false

/-!
# The snippet compiler

Compiling a unit reads and checks it against what the session has declared, and records what the
unit declares; a class also yields a class file.  Running a unit evaluates it and reports one
event.  Every unit has a number, rejected ones included; every expression with a value that is
not just a name is kept in a variable of its own.
-/

namespace ReplEngine.Language

/-- The state of a session. -/
structure SessionState where
  host : HostRegistry
  env : Env := {}
  globals : Globals := {}
  /-- What has been printed and not been taken yet. -/
  printed : PrintBuffer := {}
  /-- The number of the last unit. -/
  units : UInt32 := 0
  /-- The number of the last variable for a value without a name. -/
  values : UInt32 := 0
  /-- What was wrong with rejected units. -/
  rejections : List (UInt32 × List Diag) := []

/-- What running a unit does. -/
inductive UnitBody where
  | rejected
  /-- Installed before the unit runs. -/
  | typeDecl
  | method (definition : MethodDef)
  | var (decl : VarDecl) (type : Ty)
  /-- `kept` is the variable that keeps the value. -/
  | expr (value : Expr) (line : UInt32) (kept : Option (String × Ty))
  | throw (value : Expr) (line : UInt32)
  deriving Inhabited

/-- A compiled unit. -/
structure SnippetUnit where
  snippet : Snippet
  body : UnitBody
  deriving Inhabited

namespace SessionState

/-! ## Compiling -/

/-- The kind and the name of the snippet that an item makes. -/
def describe : Item → SnippetKind × String
  | .typeDecl decl => (.typeDecl, decl.name)
  | .method decl => (.method, decl.name)
  | .stmt (.var decl) => (.variable, decl.name)
  | .stmt (.expr _ _) => (.expression, "")
  | .stmt (.ret _ _ _) | .stmt (.throw _ _ _) => (.statement, "")

/-- Records what is wrong with a unit; running it will do nothing. -/
def reject (s : SessionState) (snippet : Snippet) (diags : List Diag) :
    Compiled SnippetUnit × SessionState :=
  (⟨[], ⟨snippet, .rejected⟩⟩,
    { s with
      rejections := (snippet.id, diags) :: s.rejections.filter (·.1 ≠ snippet.id) })

/-- The name of a variable that keeps a value. -/
def keptName (number : UInt32) : String := s!"${number.toNat}"

/-- Records what a checked unit declares. -/
def commit (s : SessionState) (snippet : Snippet) :
    Checked → Compiled SnippetUnit × SessionState
  | .typeDecl decl sig =>
    (⟨[⟨decl.name, (ClassFile.ofDecl decl snippet.id).encode⟩], ⟨snippet, .typeDecl⟩⟩,
      { s with env := { s.env with classes := s.env.classes.insert decl.name sig } })
  | .method decl sig =>
    (⟨[], ⟨snippet, .method ⟨decl, snippet.id⟩⟩⟩,
      { s with env := { s.env with methods := s.env.methods.insert decl.name sig } })
  | .var decl type =>
    (⟨[], ⟨snippet, .var decl type⟩⟩,
      { s with env := { s.env with vars := s.env.vars.insert decl.name type } })
  | .expr value line type =>
    if type = .void ∨ value.isName then (⟨[], ⟨snippet, .expr value line none⟩⟩, s)
    else
      let number := s.values + 1
      let name := keptName number
      (⟨[], ⟨{ snippet with kind := .variable, name := name },
          .expr value line (some (name, type))⟩⟩,
        { s with
          values := number
          env := { s.env with vars := s.env.vars.insert name type } })
  | .throw value line => (⟨[], ⟨snippet, .throw value line⟩⟩, s)

/-- Reads and checks a unit under the next number. -/
def compile (source : String) (s : SessionState) : Compiled SnippetUnit × SessionState :=
  let id := s.units + 1
  let s := { s with units := id }
  match Item.parse source with
  | .error diag => s.reject ⟨id, .statement, "", source⟩ [diag]
  | .ok item =>
    let (kind, name) := describe item
    let snippet : Snippet := ⟨id, kind, name, source⟩
    match item.check s.env s.host (wrapperClass id) with
    | .error diags => s.reject snippet diags
    | .ok checked => s.commit snippet checked

/-! ## Running -/

/-- Evaluates against the classes of the session. -/
def evaluate (s : SessionState) (loader : Loader) (act : Eval Value) :
    Except Unwind Value × SessionState × Loader :=
  let (result, w) := act.run ⟨s.globals, loader, s.printed⟩
  (result, { s with globals := w.globals, printed := w.printed }, w.loader)

/-- Stores a value; a variable whose initializer stopped early keeps the default of its type. -/
def bind (s : SessionState) (name : String) (type : Ty) (result : Except Unwind Value) :
    SessionState :=
  let value :=
    match result with
    | .ok v => v
    | .error _ => Value.default type
  { s with globals := { s.globals with vars := s.globals.vars.insert name value } }

/-- The event of a snippet, out of how its evaluation ended. -/
def eventOf (snippet : Snippet) (shown : Value → Option String) :
    Except Unwind Value → Except CompilerFailure (List Event)
  | .ok v => .ok [⟨snippet, .valid (shown v)⟩]
  | .error (.throw exception) => .ok [⟨snippet, .threw exception⟩]
  | .error (.fault fault) => .error ⟨fault.message⟩

/-- Runs a unit. -/
def execute (files : FileTree) (unit : SnippetUnit) (s : SessionState) (loader : Loader) :
    Except CompilerFailure (List Event) × SessionState × Loader :=
  let snippet := unit.snippet
  let rendered (v : Value) : Option String := some v.render
  match unit.body with
  | .rejected => (.ok [⟨snippet, .rejected⟩], s, loader)
  | .typeDecl => (.ok [⟨snippet, .valid none⟩], s, loader)
  | .method m =>
    let globals := { s.globals with methods := s.globals.methods.insert m.decl.name m }
    (.ok [⟨snippet, .valid none⟩], { s with globals := globals }, loader)
  | .var decl type =>
    match decl.init with
    | some init =>
      let (result, s, loader) := s.evaluate loader (evalTop files snippet.id decl.line init)
      (eventOf snippet rendered result, s.bind decl.name type result, loader)
    | none =>
      let result := .ok (Value.default type)
      (eventOf snippet rendered result, s.bind decl.name type result, loader)
  | .expr value line kept =>
    let (result, s, loader) := s.evaluate loader (evalTop files snippet.id line value)
    match kept with
    | some (name, type) => (eventOf snippet rendered result, s.bind name type result, loader)
    | none => (eventOf snippet (fun _ => none) result, s, loader)
  | .throw value line =>
    let (result, s, loader) := s.evaluate loader (throwTop files snippet.id line value)
    (eventOf snippet rendered result, s, loader)

/-! ## The rest -/

/-- What was wrong with a rejected snippet. -/
def diagnostics (s : SessionState) (snippet : Snippet) : List Diag :=
  (s.rejections.lookup snippet.id).getD []

/-- The value of a session variable. -/
def valueOf? (s : SessionState) (name : String) : Option Value := s.globals.vars.get? name

/-- What has been printed since the last time. -/
def takePrinted (s : SessionState) : String × SessionState :=
  let (text, printed) := s.printed.take
  (text, { s with printed := printed })

/-- Forgets variables, methods, classes and diagnostics.  Numbers are not used again. -/
def close (s : SessionState) : SessionState :=
  { s with globals := {}, env := {}, rejections := [] }

end SessionState

/-- The compiler of the snippet language. -/
def snippetCompiler : Compiler SessionState SnippetUnit where
  nextUnit _ source := nextUnit source
  compile source s :=
    let (compiled, s) := s.compile source
    (.ok compiled, s)
  execute := SessionState.execute
  diagnostics := SessionState.diagnostics
  definer := defineSnippet
  close := SessionState.close

end ReplEngine.Language
