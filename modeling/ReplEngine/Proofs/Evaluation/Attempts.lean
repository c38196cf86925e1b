import ReplEngine.Language.Evaluation
import ReplEngine.Proofs.Reading
set_option autoImplicit false

/-!
# The calls that evaluation attempts

The rules below say what evaluation does, with no measure of how often bodies are entered inside
one another: a call enters whatever body it finds, stored or loaded, and the number of frames that
are active there alone decides whether it may.  A derivation is finite, so an evaluation that goes
on for ever has none.  It carries every call that was attempted, in order.
-/

namespace ReplEngine.Language

open Reading

variable {α β : Type}

/-! ## Endings -/

/-- How evaluation ended (with a value, a thrown exception or a fault) and the world that it
left. -/
abbrev Ending (α : Type) : Type := Except Unwind α × World

/-- Goes on with the value, if there is one. -/
def andThen (f : α → Eval β) : Ending α → Ending β
  | (.ok a, w) => (f a).run w
  | (.error unwind, w) => (.error unwind, w)

theorem run_andThen (act : Eval α) (f : α → Eval β) (w : World) :
    (act >>= f).run w = andThen f (act.run w) := by
  cases hrun : act.run w with
  | mk result w' =>
    cases result with
    | ok a => exact run_bind_ok hrun
    | error unwind => exact run_bind_error hrun

/-! ## What is called -/

/-- The call of a top-level method that is stored under the name. -/
def storedCall? (w : World) (name : String) (args : List Value) : Option Invocation :=
  (w.globals.methods.get? name).map fun m => ⟨wrapperClass m.snippet, m.snippet, m.decl, args⟩

/-- A call where no method is stored under the name. -/
def callUnstored (name : String) (args : List Value) : Eval Value :=
  if name = "println" then do
    println ((args.head?.map Value.display).getD "")
    pure .void
  else raiseFault (.noSuchMethod "session" name)

/-- The call of the method that the class of an object declares. -/
def declaredCall? (receiver : Value) (method : String) (args : List Value) : Option Invocation :=
  match receiver with
  | .object cls _ =>
    (declaredMethod? cls method).map fun (file, decl) => ⟨file.name, file.snippet, decl, args⟩
  | _ => none

/-- A call of a value whose class declares no such method. -/
def callUndeclared (stack : Stack) (receiver : Value) (method : String) : Eval Value :=
  match receiver with
  | .null => raise stack Lang.nullPointerException none
  | _ => builtinMethod receiver method

theorem run_callMethod (invoke : Invoker) (stack : Stack) (name : String) (args : List Value)
    (w : World) :
    (callMethod invoke stack name args).run w =
      match storedCall? w name args with
      | some call => (invoke stack call).run w
      | none => (callUnstored name args).run w := by
  unfold callMethod storedCall?
  rw [run_bind_ok (run_get w)]
  cases w.globals.methods.get? name with
  | some m => rfl
  | none => rfl

theorem callOn_eq (invoke : Invoker) (stack : Stack) (receiver : Value) (method : String)
    (args : List Value) :
    callOn invoke stack receiver method args =
      match declaredCall? receiver method args with
      | some call => invoke stack call
      | none => callUndeclared stack receiver method := by
  unfold callOn declaredCall?
  cases receiver with
  | object cls identity =>
    simp only
    cases declaredMethod? cls method with
    | some found => rfl
    | none => rfl
  | _ => rfl

/-! ## The rules -/

/-- A call as evaluation comes to it. -/
structure Attempt where
  /-- The frames that are active there. -/
  active : Stack
  call : Invocation
  before : World
  ending : Ending Value
  /-- The body was executed, in one frame more. -/
  entered : Bool

/-- The frame while it executes a statement. -/
def Frame.atStmt (frame : Frame) (stmt : Stmt) : Frame := { frame with line := stmt.line }

/-- The frame behind the declaration of a local. -/
def Frame.declaring (frame : Frame) (name : String) (v : Value) : Frame :=
  { frame with locals := frame.locals.insert name v }

mutual

/-- `ExprEnds files stack e w ending attempts`: on top of the stack and from the world on, the
expression evaluates to the ending, and these calls are attempted. -/
inductive ExprEnds (files : FileTree) :
    Stack → Expr → World → Ending Value → List Attempt → Prop where
  | int (stack : Stack) (n : Int32) (span : Span) (w : World) :
    ExprEnds files stack (.int n span) w (.ok (.int n), w) []
  | string (stack : Stack) (s : String) (span : Span) (w : World) :
    ExprEnds files stack (.string s span) w (.ok (.string s), w) []
  | bool (stack : Stack) (b : Bool) (span : Span) (w : World) :
    ExprEnds files stack (.bool b span) w (.ok (.bool b), w) []
  | null (stack : Stack) (span : Span) (w : World) :
    ExprEnds files stack (.null span) w (.ok .null, w) []
  | name (stack : Stack) (name : String) (span : Span) (w : World) :
    ExprEnds files stack (.name name span) w ((lookup stack name).run w) []
  | neg {stack : Stack} {operand : Expr} {span : Span} {w : World} {ending : Ending Value}
    {attempts : List Attempt} (h : ExprEnds files stack operand w ending attempts) :
    ExprEnds files stack (.neg operand span) w (andThen negate ending) attempts
  | lhsStops {stack : Stack} {op : BinaryOp} {lhs rhs : Expr} {span : Span} {w w' : World}
    {unwind : Unwind} {attempts : List Attempt}
    (h : ExprEnds files stack lhs w (.error unwind, w') attempts) :
    ExprEnds files stack (.binary op lhs rhs span) w (.error unwind, w') attempts
  | binary {stack : Stack} {op : BinaryOp} {lhs rhs : Expr} {span : Span} {w mid : World}
    {a : Value} {ending : Ending Value} {attempts later : List Attempt}
    (hlhs : ExprEnds files stack lhs w (.ok a, mid) attempts)
    (hrhs : ExprEnds files stack rhs mid ending later) :
    ExprEnds files stack (.binary op lhs rhs span) w (andThen (operate stack op a) ending)
      (attempts ++ later)
  | argsStop {stack : Stack} {name : String} {args : List Expr} {span : Span} {w w' : World}
    {unwind : Unwind} {attempts : List Attempt}
    (h : ExprsEnd files stack args w (.error unwind, w') attempts) :
    ExprEnds files stack (.call name args span) w (.error unwind, w') attempts
  | call {stack : Stack} {name : String} {args : List Expr} {span : Span} {w mid : World}
    {values : List Value} {ending : Ending Value} {attempts later : List Attempt}
    (hargs : ExprsEnd files stack args w (.ok values, mid) attempts)
    (hcall : CallEnds files stack (storedCall? mid name values) (callUnstored name values) mid
      ending later) :
    ExprEnds files stack (.call name args span) w ending (attempts ++ later)
  | new {stack : Stack} {name : String} {args : List Expr} {span : Span} {w : World}
    {ending : Ending (List Value)} {attempts : List Attempt}
    (h : ExprsEnd files stack args w ending attempts) :
    ExprEnds files stack (.new name args span) w (andThen (newInstance files stack name) ending)
      attempts
  | receiverStops {stack : Stack} {receiver : Expr} {method : String} {args : List Expr}
    {span : Span} {w w' : World} {unwind : Unwind} {attempts : List Attempt}
    (h : ExprEnds files stack receiver w (.error unwind, w') attempts) :
    ExprEnds files stack (.methodCall receiver method args span) w (.error unwind, w') attempts
  | receiverArgsStop {stack : Stack} {receiver : Expr} {method : String} {args : List Expr}
    {span : Span} {w mid w' : World} {value : Value} {unwind : Unwind}
    {attempts later : List Attempt}
    (hreceiver : ExprEnds files stack receiver w (.ok value, mid) attempts)
    (hargs : ExprsEnd files stack args mid (.error unwind, w') later) :
    ExprEnds files stack (.methodCall receiver method args span) w (.error unwind, w')
      (attempts ++ later)
  | methodCall {stack : Stack} {receiver : Expr} {method : String} {args : List Expr}
    {span : Span} {w mid mid' : World} {value : Value} {values : List Value}
    {ending : Ending Value} {attempts later last : List Attempt}
    (hreceiver : ExprEnds files stack receiver w (.ok value, mid) attempts)
    (hargs : ExprsEnd files stack args mid (.ok values, mid') later)
    (hcall : CallEnds files stack (declaredCall? value method values)
      (callUndeclared stack value method) mid' ending last) :
    ExprEnds files stack (.methodCall receiver method args span) w ending
      (attempts ++ (later ++ last))

/-- The same of expressions, in order. -/
inductive ExprsEnd (files : FileTree) :
    Stack → List Expr → World → Ending (List Value) → List Attempt → Prop where
  | nil (stack : Stack) (w : World) : ExprsEnd files stack [] w (.ok [], w) []
  | stops {stack : Stack} {e : Expr} {es : List Expr} {w w' : World} {unwind : Unwind}
    {attempts : List Attempt} (h : ExprEnds files stack e w (.error unwind, w') attempts) :
    ExprsEnd files stack (e :: es) w (.error unwind, w') attempts
  | cons {stack : Stack} {e : Expr} {es : List Expr} {w mid : World} {v : Value}
    {ending : Ending (List Value)} {attempts later : List Attempt}
    (h : ExprEnds files stack e w (.ok v, mid) attempts)
    (hrest : ExprsEnd files stack es mid ending later) :
    ExprsEnd files stack (e :: es) w (andThen (fun vs => pure (v :: vs)) ending)
      (attempts ++ later)

/-- A call of the method that was found, or what happens without one. -/
inductive CallEnds (files : FileTree) :
    Stack → Option Invocation → Eval Value → World → Ending Value → List Attempt → Prop where
  | without (stack : Stack) (otherwise : Eval Value) (w : World) :
    CallEnds files stack none otherwise w (otherwise.run w) []
  | refused {stack : Stack} (call : Invocation) (otherwise : Eval Value) (w : World)
    (hfull : maxDepth ≤ stack.length) :
    CallEnds files stack (some call) otherwise w
      ((raise stack Lang.stackOverflowError none).run w)
      [⟨stack, call, w, (raise stack Lang.stackOverflowError none).run w, false⟩]
  | entered {stack : Stack} {call : Invocation} (otherwise : Eval Value) {w : World}
    {ending : Ending (Option Value)} {attempts : List Attempt} (hroom : stack.length < maxDepth)
    (hbody : StmtsEnd files stack call.frame call.decl.body w ending attempts) :
    CallEnds files stack (some call) otherwise w
      (andThen (fun result => pure (result.getD .void)) ending)
      (⟨stack, call, w, andThen (fun result => pure (result.getD .void)) ending, true⟩ ::
        attempts)

/-- `StmtsEnd files below frame stmts w ending attempts`: the statements are executed in the
frame, on top of the frames below it. -/
inductive StmtsEnd (files : FileTree) :
    Stack → Frame → List Stmt → World → Ending (Option Value) → List Attempt → Prop where
  | done (below : Stack) (frame : Frame) (w : World) :
    StmtsEnd files below frame [] w (.ok none, w) []
  | declare {below : Stack} {frame : Frame} {decl : VarDecl} {stmts : List Stmt} {w : World}
    {ending : Ending (Option Value)} {attempts : List Attempt} (hinit : decl.init = none)
    (hrest : StmtsEnd files below ((frame.atStmt (.var decl)).declaring decl.name .null) stmts w
      ending attempts) :
    StmtsEnd files below frame (.var decl :: stmts) w ending attempts
  | initStops {below : Stack} {frame : Frame} {decl : VarDecl} {stmts : List Stmt} {init : Expr}
    {w w' : World} {unwind : Unwind} {attempts : List Attempt} (hinit : decl.init = some init)
    (h : ExprEnds files (frame.atStmt (.var decl) :: below) init w (.error unwind, w') attempts) :
    StmtsEnd files below frame (.var decl :: stmts) w (.error unwind, w') attempts
  | declareWith {below : Stack} {frame : Frame} {decl : VarDecl} {stmts : List Stmt} {init : Expr}
    {w mid : World} {v : Value} {ending : Ending (Option Value)} {attempts later : List Attempt}
    (hinit : decl.init = some init)
    (h : ExprEnds files (frame.atStmt (.var decl) :: below) init w (.ok v, mid) attempts)
    (hrest : StmtsEnd files below ((frame.atStmt (.var decl)).declaring decl.name v) stmts mid
      ending later) :
    StmtsEnd files below frame (.var decl :: stmts) w ending (attempts ++ later)
  | leave (below : Stack) (frame : Frame) (span : Span) (line : UInt32) (stmts : List Stmt)
    (w : World) :
    StmtsEnd files below frame (.ret none span line :: stmts) w (.ok (some .void), w) []
  | ret {below : Stack} {frame : Frame} {value : Expr} {span : Span} {line : UInt32}
    {stmts : List Stmt} {w : World} {ending : Ending Value} {attempts : List Attempt}
    (h : ExprEnds files (frame.atStmt (.ret (some value) span line) :: below) value w ending
      attempts) :
    StmtsEnd files below frame (.ret (some value) span line :: stmts) w
      (andThen (fun v => pure (some v)) ending) attempts
  | throw {below : Stack} {frame : Frame} {value : Expr} {span : Span} {line : UInt32}
    {stmts : List Stmt} {w : World} {ending : Ending Value} {attempts : List Attempt}
    (h : ExprEnds files (frame.atStmt (.throw value span line) :: below) value w ending attempts) :
    StmtsEnd files below frame (.throw value span line :: stmts) w
      (andThen (throwValue (frame.atStmt (.throw value span line) :: below)) ending) attempts
  | exprStops {below : Stack} {frame : Frame} {value : Expr} {line : UInt32} {stmts : List Stmt}
    {w w' : World} {unwind : Unwind} {attempts : List Attempt}
    (h : ExprEnds files (frame.atStmt (.expr value line) :: below) value w (.error unwind, w')
      attempts) :
    StmtsEnd files below frame (.expr value line :: stmts) w (.error unwind, w') attempts
  | expr {below : Stack} {frame : Frame} {value : Expr} {line : UInt32} {stmts : List Stmt}
    {w mid : World} {v : Value} {ending : Ending (Option Value)} {attempts later : List Attempt}
    (h : ExprEnds files (frame.atStmt (.expr value line) :: below) value w (.ok v, mid) attempts)
    (hrest : StmtsEnd files below (frame.atStmt (.expr value line)) stmts mid ending later) :
    StmtsEnd files below frame (.expr value line :: stmts) w ending (attempts ++ later)

end

end ReplEngine.Language
