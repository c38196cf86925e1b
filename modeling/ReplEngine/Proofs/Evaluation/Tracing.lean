import ReplEngine.Proofs.Evaluation.Attempts
set_option autoImplicit false

/-!
# Evaluation with its events noted

Evaluation is handed the active frames, and what it gives says nothing about the calls that were
made on the way.  Below it is written down once more, with a note of every event that concerns calls
and exceptions.  Notes change nothing: without them it is evaluation (`TopLevel.trace_erase`).
-/

namespace ReplEngine.Language

variable {α β : Type}

/-! ## Events -/

/-- What happens while code runs, as far as calls and exceptions go. -/
inductive PathEvent where
  /-- The body of a method begins. -/
  | enters (call : Invocation)
  /-- A statement of the body begins. -/
  | reaches (line : UInt32)
  | declares (name : String) (v : Value)
  | reads (name : String) (v : Value)
  | makes (exception : Descriptor)
  /-- The body has ended, with a value or early. -/
  | leaves

/-- Evaluates, and notes events in order. -/
structure Traced (α : Type) where
  run : World → Ending α × List PathEvent

namespace Traced

instance : Monad Traced where
  pure a := ⟨fun w => ((.ok a, w), [])⟩
  bind x f := ⟨fun w =>
    match x.run w with
    | ((.ok a, mid), log) => (((f a).run mid).1, log ++ ((f a).run mid).2)
    | ((.error unwind, mid), log) => ((.error unwind, mid), log)⟩

theorem run_bind_ok {x : Traced α} (f : α → Traced β) {w mid : World} {a : α}
    {log : List PathEvent} (h : x.run w = ((.ok a, mid), log)) :
    (x >>= f).run w = (((f a).run mid).1, log ++ ((f a).run mid).2) := by
  simp only [Bind.bind, h]

theorem run_bind_error {x : Traced α} (f : α → Traced β) {w mid : World} {unwind : Unwind}
    {log : List PathEvent} (h : x.run w = ((.error unwind, mid), log)) :
    (x >>= f).run w = ((.error unwind, mid), log) := by
  simp only [Bind.bind, h]

/-- Carries out a step, and notes what it has come to. -/
def noting (notes : Except Unwind α → List PathEvent) (act : Eval α) : Traced α :=
  ⟨fun w => (act.run w, notes (act.run w).1)⟩

/-- Carries out a step that is no event. -/
def silently (act : Eval α) : Traced α := noting (fun _ => []) act

/-- Notes an event. -/
def note (event : PathEvent) : Traced Unit := noting (fun _ => [event]) (pure ())

/-- Carries out a step that reads a name. -/
def reading (name : String) : Eval Value → Traced Value :=
  noting fun
    | .ok v => [.reads name v]
    | .error _ => []

/-- Carries out a step that throws no exception but one that it makes. -/
def raising : Eval α → Traced α :=
  noting fun
    | .error (.throw d) => [.makes d]
    | _ => []

/-- Carries out a step that gives no exception but one that it makes. -/
def creating : Eval Value → Traced Value :=
  noting fun
    | .ok (.exception d) => [.makes d]
    | _ => []

/-- Notes that a call is entered, and that it is left, however it has ended. -/
def within (call : Invocation) (body : Traced Value) : Traced Value :=
  ⟨fun w => ((body.run w).1, .enters call :: ((body.run w).2 ++ [.leaves]))⟩

/-! ## Without the notes -/

/-- What is evaluated. -/
def erase (x : Traced α) : Eval α := ExceptT.mk fun w => (x.run w).1

theorem erase_pure (a : α) : (pure a : Traced α).erase = pure a := rfl

theorem erase_bind (x : Traced α) (f : α → Traced β) :
    (x >>= f).erase = x.erase >>= fun a => (f a).erase := by
  refine funext fun w => ?_
  show ((x >>= f).run w).1 = (x.erase >>= fun a => (f a).erase).run w
  rw [run_andThen]
  show _ = andThen _ (x.run w).1
  cases hrun : x.run w with
  | mk ending log =>
    obtain ⟨result, mid⟩ := ending
    cases result with
    | ok a => rw [run_bind_ok f hrun]; rfl
    | error unwind => rw [run_bind_error f hrun]; rfl

theorem erase_noting (notes : Except Unwind α → List PathEvent) (act : Eval α) :
    (noting notes act).erase = act := rfl

theorem erase_silently (act : Eval α) : (silently act).erase = act := rfl

theorem erase_note (event : PathEvent) (x : Unit → Traced α) :
    (note event >>= x).erase = (x ()).erase := rfl

end Traced

open Traced

/-! ## Evaluation -/

/-- Carries out a call on top of the active frames, and notes events. -/
abbrev TracedInvoker : Type := Stack → Invocation → Traced Value

/-- Stops with a value thrown; `null` makes an exception. -/
def traceThrow (stack : Stack) : Value → Traced α
  | .exception d => silently (throw (.throw d))
  | v => raising (throwValue stack v)

/-- A call of a top-level method, with the arguments evaluated. -/
def traceMethod (invoke : TracedInvoker) (stack : Stack) (name : String) (args : List Value) :
    Traced Value :=
  ⟨fun w =>
    match storedCall? w name args with
    | some call => (invoke stack call).run w
    | none => (silently (callUnstored name args)).run w⟩

/-- A call of a method of a value, with the arguments evaluated. -/
def traceOn (invoke : TracedInvoker) (stack : Stack) (receiver : Value) (method : String)
    (args : List Value) : Traced Value :=
  match declaredCall? receiver method args with
  | some call => invoke stack call
  | none => raising (callUndeclared stack receiver method)

mutual

/-- The value of an expression. -/
def traceExpr (files : FileTree) (invoke : TracedInvoker) (stack : Stack) : Expr → Traced Value
  | .int n _ => pure (.int n)
  | .string s _ => pure (.string s)
  | .bool b _ => pure (.bool b)
  | .null _ => pure .null
  | .name name _ => reading name (lookup stack name)
  | .neg operand _ => do silently (negate (← traceExpr files invoke stack operand))
  | .binary op lhs rhs _ => do
    let a ← traceExpr files invoke stack lhs
    let b ← traceExpr files invoke stack rhs
    raising (operate stack op a b)
  | .call name args _ => do traceMethod invoke stack name (← traceExprs files invoke stack args)
  | .new name args _ => do
    creating (newInstance files stack name (← traceExprs files invoke stack args))
  | .methodCall receiver method args _ => do
    let value ← traceExpr files invoke stack receiver
    traceOn invoke stack value method (← traceExprs files invoke stack args)

/-- The values of expressions, in order. -/
def traceExprs (files : FileTree) (invoke : TracedInvoker) (stack : Stack) :
    List Expr → Traced (List Value)
  | [] => pure []
  | e :: es => do
    let v ← traceExpr files invoke stack e
    return v :: (← traceExprs files invoke stack es)

end

/-- Executes statements in a frame on top of others. -/
def traceBody (files : FileTree) (invoke : TracedInvoker) (below : Stack) (frame : Frame) :
    List Stmt → Traced (Option Value)
  | [] => pure none
  | stmt :: stmts => do
    note (.reaches stmt.line)
    let frame := frame.atStmt stmt
    let eval := traceExpr files invoke (frame :: below)
    match stmt with
    | .var decl =>
      let v ←
        match decl.init with
        | some init => eval init
        | none => pure .null
      note (.declares decl.name v)
      traceBody files invoke below (frame.declaring decl.name v) stmts
    | .ret (some value) _ _ => do
      let v ← eval value
      pure (some v)
    | .ret none _ _ => pure (some .void)
    | .throw value _ _ => do traceThrow (frame :: below) (← eval value)
    | .expr value _ => do
      let _ ← eval value
      traceBody files invoke below frame stmts

/-- Carries out a call where there is room for so many frames more. -/
def traceWithin (files : FileTree) : Nat → TracedInvoker
  | 0, stack, _ => raising (raise stack Lang.stackOverflowError none)
  | room + 1, stack, call =>
    within call do
      let result ← traceBody files (traceWithin files room) stack call.frame call.decl.body
      pure (result.getD .void)

/-! ## The top level -/

/-- Code of the top level that is evaluated. -/
inductive TopLevel where
  | value (e : Expr)
  /-- What the expression gives is thrown. -/
  | throw (e : Expr)

/-- The code is evaluated, as code of a snippet. -/
def TopLevel.eval (files : FileTree) (snippet line : UInt32) : TopLevel → Eval Value
  | .value e => evalTop files snippet line e
  | .throw e => throwTop files snippet line e

/-- The same, with events noted. -/
def TopLevel.trace (files : FileTree) (snippet line : UInt32) : TopLevel → Traced Value
  | .value e => traceExpr files (traceWithin files (maxDepth - 1)) [topFrame snippet line] e
  | .throw e => do
    let stack := [topFrame snippet line]
    traceThrow stack (← traceExpr files (traceWithin files (maxDepth - 1)) stack e)

/-! ## Notes change nothing -/

section

variable {files : FileTree} {traced : TracedInvoker} {invoke : Invoker}

theorem traceThrow_erase (stack : Stack) (v : Value) :
    (traceThrow stack v : Traced α).erase = throwValue stack v := by
  cases v <;> rfl

/-- A call does the same with and without notes. -/
def ErasesTo (traced : TracedInvoker) (invoke : Invoker) : Prop :=
  ∀ stack call, (traced stack call).erase = invoke stack call

theorem traceMethod_erase (h : ErasesTo traced invoke) (stack : Stack) (name : String)
    (args : List Value) :
    (traceMethod traced stack name args).erase = callMethod invoke stack name args := by
  refine funext fun w => ?_
  show _ = (callMethod invoke stack name args).run w
  rw [run_callMethod]
  show (match storedCall? w name args with
    | some call => (traced stack call).run w
    | none => (silently (callUnstored name args)).run w).1 = _
  cases storedCall? w name args with
  | some call => exact congrFun (h stack call) w
  | none => rfl

theorem traceOn_erase (h : ErasesTo traced invoke) (stack : Stack) (receiver : Value)
    (method : String) (args : List Value) :
    (traceOn traced stack receiver method args).erase =
      callOn invoke stack receiver method args := by
  rw [callOn_eq, traceOn]
  cases declaredCall? receiver method args with
  | some call => exact h stack call
  | none => rfl

mutual

theorem traceExpr_erase (h : ErasesTo traced invoke) (stack : Stack) :
    (e : Expr) → (traceExpr files traced stack e).erase = evalExpr files invoke stack e
  | .int _ _ | .string _ _ | .bool _ _ | .null _ | .name _ _ => rfl
  | .neg operand span => by
    simp only [traceExpr, evalExpr, erase_bind, traceExpr_erase h stack operand, erase_silently]
  | .binary op lhs rhs span => by
    simp only [traceExpr, evalExpr, erase_bind, traceExpr_erase h stack lhs,
      traceExpr_erase h stack rhs, raising, erase_noting]
  | .call name args span => by
    simp only [traceExpr, evalExpr, erase_bind, traceExprs_erase h stack args, traceMethod_erase h]
  | .new name args span => by
    simp only [traceExpr, evalExpr, erase_bind, traceExprs_erase h stack args, creating,
      erase_noting]
  | .methodCall receiver method args span => by
    simp only [traceExpr, evalExpr, erase_bind, traceExpr_erase h stack receiver,
      traceExprs_erase h stack args, traceOn_erase h]

theorem traceExprs_erase (h : ErasesTo traced invoke) (stack : Stack) :
    (es : List Expr) → (traceExprs files traced stack es).erase = evalExprs files invoke stack es
  | [] => rfl
  | e :: es => by
    simp only [traceExprs, evalExprs, erase_bind, traceExpr_erase h stack e,
      traceExprs_erase h stack es, erase_pure]

end

theorem traceBody_erase (h : ErasesTo traced invoke) (below : Stack) (frame : Frame)
    (stmts : List Stmt) :
    (traceBody files traced below frame stmts).erase = execBody files invoke below frame stmts := by
  induction stmts generalizing frame with
  | nil => rfl
  | cons stmt stmts ih =>
    unfold traceBody execBody
    rw [erase_note]
    cases stmt with
    | var decl =>
      obtain ⟨type, name, init, span, line⟩ := decl
      cases init with
      | none => exact ih _
      | some init =>
        simp only [erase_bind, traceExpr_erase h, ih]
        rfl
    | ret value span line =>
      cases value with
      | none => rfl
      | some value =>
        simp only [erase_bind, traceExpr_erase h, erase_pure, map_eq_pure_bind]
        rfl
    | throw value span line =>
      simp only [erase_bind, traceExpr_erase h, traceThrow_erase]
      rfl
    | expr value line =>
      simp only [erase_bind, traceExpr_erase h, ih]
      rfl

end

theorem traceWithin_erase (files : FileTree) (room : Nat) :
    ErasesTo (traceWithin files room) (invokeWithin files room) := by
  induction room with
  | zero => exact fun stack call => rfl
  | succ room ih =>
    intro stack call
    show (traceBody files (traceWithin files room) stack call.frame call.decl.body >>=
      fun result => pure (result.getD .void)).erase = _
    rw [erase_bind, traceBody_erase ih, invokeWithin]
    rfl

/-- Without the notes, code of the top level is evaluated. -/
theorem TopLevel.trace_erase (code : TopLevel) (files : FileTree) (snippet line : UInt32) :
    (code.trace files snippet line).erase = code.eval files snippet line := by
  have hinvoke := traceWithin_erase files (maxDepth - 1)
  cases code with
  | value e => exact traceExpr_erase hinvoke _ e
  | throw e =>
    simp only [TopLevel.trace, erase_bind, traceExpr_erase hinvoke, traceThrow_erase]
    rfl

end ReplEngine.Language
