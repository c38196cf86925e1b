import ReplEngine.Language.Evaluation
import ReplEngine.Proofs.Reading
set_option autoImplicit false

/-!
# What evaluation does to the world

Evaluation changes the world in three ways only: it looks for classes, it counts objects and it
prints lines.  A relation between worlds that holds along each of the three, and along sequences,
holds between the world that an evaluation starts in and the one that it leaves, whatever code is
evaluated, accepted or not, and however evaluation ends.
-/

namespace ReplEngine.Language

open Reading

variable {α β : Type}

/-- A relation between worlds that holds along whatever evaluation does. -/
structure Motion (R : World → World → Prop) : Prop where
  refl (w : World) : R w w
  trans {w w' w'' : World} (h : R w w') (h' : R w' w'') : R w w''
  find (files : FileTree) (name : String) (w : World) :
    R w { w with loader := ((Loader.find files name).run w.loader).2 }
  count (w : World) :
    R w { w with globals := { w.globals with objects := w.globals.objects + 1 } }
  println (text : String) (w : World) : R w { w with printed := w.printed.println text }

/-- The relation holds along an evaluation, however it ends. -/
def Moves (R : World → World → Prop) (act : Eval α) : Prop := ∀ w : World, R w (act.run w).2

section

variable {R : World → World → Prop} (hR : Motion R)

include hR

/-! ## Steps -/

theorem moves_pure (a : α) : Moves R (pure a) := fun w => hR.refl w

theorem moves_throw (unwind : Unwind) : Moves R (throw unwind : Eval α) := fun w => hR.refl w

theorem moves_get : Moves R (get : Eval World) := fun w => hR.refl w

theorem Moves.bind {act : Eval α} {f : α → Eval β} (h : Moves R act) (hf : ∀ a, Moves R (f a)) :
    Moves R (act >>= f) := by
  intro w
  have hact := h w
  cases hrun : act.run w with
  | mk result w' =>
    rw [hrun] at hact
    cases result with
    | ok a =>
      rw [run_bind_ok hrun]
      exact hR.trans hact (hf a w')
    | error unwind =>
      rw [run_bind_error hrun]
      exact hact

theorem Moves.map {act : Eval α} (h : Moves R act) (f : α → β) : Moves R (f <$> act) := by
  rw [map_eq_pure_bind]
  exact h.bind hR fun a => moves_pure hR (f a)

theorem moves_raiseFault (fault : Fault) : Moves R (raiseFault fault : Eval α) := moves_throw hR _

theorem moves_raise (stack : Stack) (className : String) (message : Option String) :
    Moves R (raise stack className message : Eval α) :=
  moves_throw hR _

theorem moves_throwValue (stack : Stack) (v : Value) : Moves R (throwValue stack v : Eval α) := by
  cases v with
  | exception d => exact moves_throw hR _
  | null => exact moves_raise hR _ _ _
  | _ => exact moves_raiseFault hR _

/-! ## Names and operators -/

theorem moves_lookup (stack : Stack) (name : String) : Moves R (lookup stack name) := by
  refine (moves_get hR).bind hR fun w => ?_
  cases (((stack.head?.map Frame.locals).getD {}).get? name).or (w.globals.vars.get? name) with
  | some v => exact moves_pure hR v
  | none => exact moves_raiseFault hR _

theorem moves_negate (v : Value) : Moves R (negate v) := by
  cases v with
  | int n => exact moves_pure hR _
  | _ => exact moves_raiseFault hR _

theorem moves_arithmetic (stack : Stack) (op : BinaryOp) (a b : Int32) :
    Moves R (arithmetic stack op a b) := by
  unfold arithmetic
  cases op with
  | div | rem =>
    simp only
    split
    · exact moves_raise hR _ _ _
    · exact moves_pure hR _
  | _ => exact moves_pure hR _

theorem moves_operate (stack : Stack) (op : BinaryOp) (lhs rhs : Value) :
    Moves R (operate stack op lhs rhs) := by
  unfold operate
  split
  · exact moves_arithmetic hR _ _ _ _
  · cases op with
    | add => exact moves_pure hR _
    | _ => exact moves_raiseFault hR _

/-! ## Objects -/

theorem moves_loadClass (files : FileTree) (name : String) : Moves R (loadClass files name) :=
  hR.find files name

theorem moves_findClass (files : FileTree) (name : String) : Moves R (findClass files name) := by
  refine (moves_loadClass hR files name).bind hR fun found => ?_
  cases found with
  | ok cls => exact moves_pure hR cls
  | error e =>
    cases e with
    | classNotFound missing =>
      simp only
      split
      · exact moves_raiseFault hR _
      · refine (moves_loadClass hR files _).bind hR fun standard => ?_
        cases standard with
        | ok cls => exact moves_pure hR cls
        | error e => exact moves_raiseFault hR _
    | _ => exact moves_raiseFault hR _

theorem moves_freshIdentity : Moves R freshIdentity := hR.count

theorem moves_newInstance (files : FileTree) (stack : Stack) (name : String)
    (args : List Value) : Moves R (newInstance files stack name args) := by
  refine (moves_findClass hR files name).bind hR fun cls => ?_
  cases cls.body.exceptionType? with
  | some type => exact moves_pure hR _
  | none => exact (moves_freshIdentity hR).bind hR fun _ => moves_pure hR _

/-! ## Calls -/

theorem moves_println (text : String) : Moves R (println text) :=
  hR.println text

theorem moves_builtinMethod (receiver : Value) (method : String) :
    Moves R (builtinMethod receiver method) := by
  unfold builtinMethod
  split
  · exact moves_pure hR _
  · exact moves_pure hR _
  · exact moves_pure hR _
  · exact moves_raiseFault hR _

/-- The relation holds along every call. -/
def MovesCalls (R : World → World → Prop) (invoke : Invoker) : Prop :=
  ∀ stack call, Moves R (invoke stack call)

variable {invoke : Invoker}

theorem moves_callMethod (hinvoke : MovesCalls R invoke) (stack : Stack) (name : String)
    (args : List Value) : Moves R (callMethod invoke stack name args) := by
  refine (moves_get hR).bind hR fun w => ?_
  cases w.globals.methods.get? name with
  | some m => exact hinvoke _ _
  | none =>
    simp only
    split
    · exact (moves_println hR _).bind hR fun _ => moves_pure hR _
    · exact moves_raiseFault hR _

theorem moves_callOn (hinvoke : MovesCalls R invoke) (stack : Stack) (receiver : Value)
    (method : String) (args : List Value) : Moves R (callOn invoke stack receiver method args) := by
  unfold callOn
  split
  · exact moves_raise hR _ _ _
  · split
    · exact hinvoke _ _
    · exact moves_builtinMethod hR _ _
  · exact moves_builtinMethod hR _ _

/-! ## Expressions and bodies -/

mutual

theorem moves_evalExpr (hinvoke : MovesCalls R invoke) (files : FileTree) (stack : Stack) :
    (e : Expr) → Moves R (evalExpr files invoke stack e)
  | .int _ _ | .string _ _ | .bool _ _ | .null _ => by
    unfold evalExpr
    exact moves_pure hR _
  | .name name span => by
    unfold evalExpr
    exact moves_lookup hR stack name
  | .neg operand span => by
    unfold evalExpr
    exact (moves_evalExpr hinvoke files stack operand).bind hR fun v => moves_negate hR v
  | .binary op lhs rhs span => by
    unfold evalExpr
    exact (moves_evalExpr hinvoke files stack lhs).bind hR fun a =>
      (moves_evalExpr hinvoke files stack rhs).bind hR fun b => moves_operate hR stack op a b
  | .call name args span => by
    unfold evalExpr
    exact (moves_evalExprs hinvoke files stack args).bind hR fun vs =>
      moves_callMethod hR hinvoke stack name vs
  | .new name args span => by
    unfold evalExpr
    exact (moves_evalExprs hinvoke files stack args).bind hR fun vs =>
      moves_newInstance hR files stack name vs
  | .methodCall receiver method args span => by
    unfold evalExpr
    exact (moves_evalExpr hinvoke files stack receiver).bind hR fun v =>
      (moves_evalExprs hinvoke files stack args).bind hR fun vs =>
        moves_callOn hR hinvoke stack v method vs

theorem moves_evalExprs (hinvoke : MovesCalls R invoke) (files : FileTree) (stack : Stack) :
    (es : List Expr) → Moves R (evalExprs files invoke stack es)
  | [] => by
    unfold evalExprs
    exact moves_pure hR _
  | e :: es => by
    unfold evalExprs
    exact (moves_evalExpr hinvoke files stack e).bind hR fun v =>
      (moves_evalExprs hinvoke files stack es).bind hR fun vs => moves_pure hR _

end

theorem moves_execBody (hinvoke : MovesCalls R invoke) (files : FileTree) (below : Stack)
    (frame : Frame) (stmts : List Stmt) : Moves R (execBody files invoke below frame stmts) := by
  have heval := moves_evalExpr hR hinvoke files
  induction stmts generalizing frame with
  | nil => exact moves_pure hR none
  | cons stmt stmts ih =>
    unfold execBody
    cases stmt with
    | var decl =>
      simp only
      cases decl.init with
      | none => exact ih _
      | some init => exact (heval _ init).bind hR fun v => ih _
    | ret value span line =>
      cases value with
      | none => exact moves_pure hR _
      | some value => exact (heval _ value).map hR some
    | throw value span line => exact (heval _ value).bind hR fun v => moves_throwValue hR _ v
    | expr value line => exact (heval _ value).bind hR fun _ => ih _

theorem moves_invokeWithin (files : FileTree) (room : Nat) :
    MovesCalls R (invokeWithin files room) := by
  -- The calls in a body have less room than the call of the body.
  induction room with
  | zero => exact fun stack call => moves_raise hR _ _ _
  | succ room ih =>
    intro stack call
    exact (moves_execBody hR ih files stack call.frame call.decl.body).bind hR fun _ =>
      moves_pure hR _

/-! ## The top level -/

theorem moves_evalTop (files : FileTree) (snippet line : UInt32) (e : Expr) :
    Moves R (evalTop files snippet line e) :=
  moves_evalExpr hR (moves_invokeWithin hR files _) files _ e

theorem moves_throwTop (files : FileTree) (snippet line : UInt32) (e : Expr) :
    Moves R (throwTop files snippet line e) :=
  (moves_evalTop hR files snippet line e).bind hR fun v => moves_throwValue hR _ v

end

end ReplEngine.Language
