import ReplEngine.Proofs.Evaluation.Attempts
set_option autoImplicit false

/-!
# Evaluation ends

Every evaluation on top of at most `maxDepth` frames has a derivation by the rules for attempted
calls, and only one; it ends as the functions say that carry evaluation out.  A call that finds
`maxDepth` frames active stops with an exception and enters nothing.

The measure is the room left for frames and, inside one body, the syntax.
-/

namespace ReplEngine.Language

variable {α β : Type}

/-! ## Results that are settled -/

/-- A call as it may be attempted: on top of at most `maxDepth` frames, its body entered exactly
where one frame more has room, and otherwise nothing done but stop with an exception. -/
structure Attempt.Bounded (a : Attempt) : Prop where
  active : a.active.length ≤ maxDepth
  entered : a.entered = true ↔ a.active.length < maxDepth
  refused : a.entered = false →
    a.ending = (raise a.active Lang.stackOverflowError none).run a.before

/-- A relation between endings and attempted calls. -/
abbrev Judgement (α : Type) : Type := Ending α → List Attempt → Prop

/-- The judgement allows this ending and no other, by one list of calls, all of them bounded. -/
def Settles (R : Judgement α) (ending : Ending α) : Prop :=
  ∃ attempts : List Attempt,
    (∀ ending' attempts', R ending' attempts' ↔ ending' = ending ∧ attempts' = attempts) ∧
      ∀ a ∈ attempts, a.Bounded

/-- A step that attempts no call. -/
def Does (act : Eval α) (w : World) : Judgement α :=
  fun ending attempts => ending = act.run w ∧ attempts = []

/-- One part, and another one behind the value that it gives. -/
inductive Sequence (first : Judgement α) (next : α → World → Judgement β) : Judgement β where
  | stops {unwind : Unwind} {w : World} {attempts : List Attempt}
    (h : first (.error unwind, w) attempts) : Sequence first next (.error unwind, w) attempts
  | goesOn {a : α} {mid : World} {ending : Ending β} {attempts later : List Attempt}
    (h : first (.ok a, mid) attempts) (hnext : next a mid ending later) :
    Sequence first next ending (attempts ++ later)

theorem sequence_does {first : Judgement α} {f : α → Eval β} {ending : Ending β}
    {attempts : List Attempt} :
    Sequence first (fun a mid => Does (f a) mid) ending attempts ↔
      ∃ before, first before attempts ∧ ending = andThen f before := by
  constructor
  · intro h
    cases h with
    | stops h => exact ⟨_, h, rfl⟩
    | goesOn h hnext =>
      obtain ⟨rfl, rfl⟩ := hnext
      rw [List.append_nil]
      exact ⟨_, h, rfl⟩
  · rintro ⟨⟨result, w⟩, h, rfl⟩
    cases result with
    | error unwind => exact .stops h
    | ok a =>
      rw [← List.append_nil attempts]
      exact .goesOn h ⟨rfl, rfl⟩

theorem Settles.congr {R S : Judgement α} {ending : Ending α} (h : Settles S ending)
    (hiff : ∀ ending' attempts, R ending' attempts ↔ S ending' attempts) :
    Settles R ending := by
  obtain ⟨attempts, honly, hbounded⟩ := h
  exact ⟨attempts, fun ending' attempts' => (hiff _ _).trans (honly _ _), hbounded⟩

/-- Where no call is attempted, the ending is that of one step. -/
theorem settles_step {R : Judgement α} (act : Eval α) {w : World} (h : R (act.run w) [])
    (honly : ∀ ending attempts, R ending attempts → ending = act.run w ∧ attempts = []) :
    Settles R (act.run w) := by
  refine ⟨[], fun ending attempts => ⟨honly ending attempts, ?_⟩,
    fun _ h => absurd h List.not_mem_nil⟩
  rintro ⟨rfl, rfl⟩
  exact h

theorem settles_does (act : Eval α) (w : World) : Settles (Does act w) (act.run w) :=
  settles_step act ⟨rfl, rfl⟩ fun _ _ h => h

theorem Settles.sequence {first : Judgement α} {next : α → World → Judgement β} {act : Eval α}
    {f : α → Eval β} {w : World} (hfirst : Settles first (act.run w))
    (hnext : ∀ a mid, Settles (next a mid) ((f a).run mid)) :
    Settles (Sequence first next) ((act >>= f).run w) := by
  obtain ⟨attempts, honly, hbounded⟩ := hfirst
  rw [run_andThen]
  cases hrun : act.run w with
  | mk result mid =>
    rw [hrun] at honly
    cases result with
    | error unwind =>
      refine ⟨attempts, fun ending' attempts' => ⟨?_, ?_⟩, hbounded⟩
      · intro h
        cases h with
        | stops h =>
          obtain ⟨heq, rfl⟩ := (honly _ _).1 h
          cases heq
          exact ⟨rfl, rfl⟩
        | goesOn h hnext => cases ((honly _ _).1 h).1
      · rintro ⟨rfl, rfl⟩
        exact .stops ((honly _ _).2 ⟨rfl, rfl⟩)
    | ok a =>
      obtain ⟨later, honly', hbounded'⟩ := hnext a mid
      refine ⟨attempts ++ later, fun ending' attempts' => ⟨?_, ?_⟩, ?_⟩
      · intro h
        cases h with
        | stops h => cases ((honly _ _).1 h).1
        | goesOn h hnext =>
          obtain ⟨heq, rfl⟩ := (honly _ _).1 h
          cases heq
          obtain ⟨rfl, rfl⟩ := (honly' _ _).1 hnext
          exact ⟨rfl, rfl⟩
      · rintro ⟨rfl, rfl⟩
        exact .goesOn ((honly _ _).2 ⟨rfl, rfl⟩) ((honly' _ _).2 ⟨rfl, rfl⟩)
      · intro b hb
        rcases List.mem_append.1 hb with hb | hb
        · exact hbounded b hb
        · exact hbounded' b hb

/-! ## What a derivation is made of -/

variable {files : FileTree} {stack below : Stack} {frame : Frame} {span : Span} {line : UInt32}
  {w : World} {attempts : List Attempt}

section Expressions

variable {ending : Ending Value}

theorem exprEnds_neg {operand : Expr} :
    ExprEnds files stack (.neg operand span) w ending attempts ↔
      Sequence (ExprEnds files stack operand w) (fun v mid => Does (negate v) mid)
        ending attempts := by
  rw [sequence_does]
  constructor
  · intro h
    cases h with
    | neg h => exact ⟨_, h, rfl⟩
  · rintro ⟨before, h, rfl⟩
    exact .neg h

theorem exprEnds_binary {op : BinaryOp} {lhs rhs : Expr} :
    ExprEnds files stack (.binary op lhs rhs span) w ending attempts ↔
      Sequence (ExprEnds files stack lhs w)
        (fun a mid => Sequence (ExprEnds files stack rhs mid)
          fun b mid' => Does (operate stack op a b) mid')
        ending attempts := by
  constructor
  · intro h
    cases h with
    | lhsStops h => exact .stops h
    | binary hlhs hrhs => exact .goesOn hlhs (sequence_does.2 ⟨_, hrhs, rfl⟩)
  · intro h
    cases h with
    | stops h => exact .lhsStops h
    | goesOn hlhs h =>
      obtain ⟨before, hrhs, rfl⟩ := sequence_does.1 h
      exact .binary hlhs hrhs

theorem exprEnds_call {name : String} {args : List Expr} :
    ExprEnds files stack (.call name args span) w ending attempts ↔
      Sequence (ExprsEnd files stack args w)
        (fun values mid =>
          CallEnds files stack (storedCall? mid name values) (callUnstored name values) mid)
        ending attempts := by
  constructor
  · intro h
    cases h with
    | argsStop h => exact .stops h
    | call hargs hcall => exact .goesOn hargs hcall
  · intro h
    cases h with
    | stops h => exact .argsStop h
    | goesOn hargs hcall => exact .call hargs hcall

theorem exprEnds_new {name : String} {args : List Expr} :
    ExprEnds files stack (.new name args span) w ending attempts ↔
      Sequence (ExprsEnd files stack args w)
        (fun values mid => Does (newInstance files stack name values) mid) ending attempts := by
  rw [sequence_does]
  constructor
  · intro h
    cases h with
    | new h => exact ⟨_, h, rfl⟩
  · rintro ⟨before, h, rfl⟩
    exact .new h

theorem exprEnds_methodCall {receiver : Expr} {method : String} {args : List Expr} :
    ExprEnds files stack (.methodCall receiver method args span) w ending attempts ↔
      Sequence (ExprEnds files stack receiver w)
        (fun value mid => Sequence (ExprsEnd files stack args mid)
          fun values mid' => CallEnds files stack (declaredCall? value method values)
            (callUndeclared stack value method) mid')
        ending attempts := by
  constructor
  · intro h
    cases h with
    | receiverStops h => exact .stops h
    | receiverArgsStop hreceiver hargs => exact .goesOn hreceiver (.stops hargs)
    | methodCall hreceiver hargs hcall => exact .goesOn hreceiver (.goesOn hargs hcall)
  · intro h
    cases h with
    | stops h => exact .receiverStops h
    | goesOn hreceiver h =>
      cases h with
      | stops hargs => exact .receiverArgsStop hreceiver hargs
      | goesOn hargs hcall => exact .methodCall hreceiver hargs hcall

theorem exprsEnd_cons {e : Expr} {es : List Expr} {ending : Ending (List Value)} :
    ExprsEnd files stack (e :: es) w ending attempts ↔
      Sequence (ExprEnds files stack e w)
        (fun v mid => Sequence (ExprsEnd files stack es mid)
          fun vs mid' => Does (pure (v :: vs)) mid')
        ending attempts := by
  constructor
  · intro h
    cases h with
    | stops h => exact .stops h
    | cons h hrest => exact .goesOn h (sequence_does.2 ⟨_, hrest, rfl⟩)
  · intro h
    cases h with
    | stops h => exact .stops h
    | goesOn h hseq =>
      obtain ⟨before, hrest, rfl⟩ := sequence_does.1 hseq
      exact .cons h hrest

end Expressions

section Statements

variable {stmts : List Stmt} {ending : Ending (Option Value)}

theorem stmtsEnd_declare {decl : VarDecl} (hinit : decl.init = none) :
    StmtsEnd files below frame (.var decl :: stmts) w ending attempts ↔
      StmtsEnd files below ((frame.atStmt (.var decl)).declaring decl.name .null) stmts w ending
        attempts := by
  constructor
  · intro h
    cases h with
    | declare _ hrest => exact hrest
    | initStops hsome _ | declareWith hsome _ _ =>
      rw [hinit] at hsome
      cases hsome
  · exact .declare hinit

theorem stmtsEnd_declareWith {decl : VarDecl} {init : Expr} (hinit : decl.init = some init) :
    StmtsEnd files below frame (.var decl :: stmts) w ending attempts ↔
      Sequence (ExprEnds files (frame.atStmt (.var decl) :: below) init w)
        (fun v => StmtsEnd files below ((frame.atStmt (.var decl)).declaring decl.name v) stmts)
        ending attempts := by
  constructor
  · intro h
    cases h with
    | declare hnone _ =>
      rw [hinit] at hnone
      cases hnone
    | initStops hsome h =>
      cases hinit.symm.trans hsome
      exact .stops h
    | declareWith hsome h hrest =>
      cases hinit.symm.trans hsome
      exact .goesOn h hrest
  · intro h
    cases h with
    | stops h => exact .initStops hinit h
    | goesOn h hrest => exact .declareWith hinit h hrest

theorem stmtsEnd_ret {value : Expr} :
    StmtsEnd files below frame (.ret (some value) span line :: stmts) w ending attempts ↔
      Sequence (ExprEnds files (frame.atStmt (.ret (some value) span line) :: below) value w)
        (fun v mid => Does (pure (some v)) mid) ending attempts := by
  rw [sequence_does]
  constructor
  · intro h
    cases h with
    | ret h => exact ⟨_, h, rfl⟩
  · rintro ⟨before, h, rfl⟩
    exact .ret h

theorem stmtsEnd_throw {value : Expr} :
    StmtsEnd files below frame (.throw value span line :: stmts) w ending attempts ↔
      Sequence (ExprEnds files (frame.atStmt (.throw value span line) :: below) value w)
        (fun v mid => Does (throwValue (frame.atStmt (.throw value span line) :: below) v) mid)
        ending attempts := by
  rw [sequence_does]
  constructor
  · intro h
    cases h with
    | throw h => exact ⟨_, h, rfl⟩
  · rintro ⟨before, h, rfl⟩
    exact .throw h

theorem stmtsEnd_expr {value : Expr} :
    StmtsEnd files below frame (.expr value line :: stmts) w ending attempts ↔
      Sequence (ExprEnds files (frame.atStmt (.expr value line) :: below) value w)
        (fun _ => StmtsEnd files below (frame.atStmt (.expr value line)) stmts)
        ending attempts := by
  constructor
  · intro h
    cases h with
    | exprStops h => exact .stops h
    | expr h hrest => exact .goesOn h hrest
  · intro h
    cases h with
    | stops h => exact .exprStops h
    | goesOn h hrest => exact .expr h hrest

end Statements

/-! ## Calls -/

/-- On top of the stack every call that is attempted is settled as the invoker carries it out. -/
def SettlesCalls (files : FileTree) (stack : Stack) (invoke : Invoker) : Prop :=
  ∀ call otherwise w,
    Settles (CallEnds files stack (some call) otherwise w) ((invoke stack call).run w)

theorem settles_without (files : FileTree) (stack : Stack) (otherwise : Eval Value) (w : World) :
    Settles (CallEnds files stack none otherwise w) (otherwise.run w) := by
  refine settles_step otherwise (.without stack otherwise w) ?_
  rintro _ _ ⟨⟩
  exact ⟨rfl, rfl⟩

variable {invoke : Invoker}

theorem settles_callMethod (hcalls : SettlesCalls files stack invoke) (name : String)
    (values : List Value) (w : World) :
    Settles (CallEnds files stack (storedCall? w name values) (callUnstored name values) w)
      ((callMethod invoke stack name values).run w) := by
  rw [run_callMethod]
  cases storedCall? w name values with
  | some call => exact hcalls call _ w
  | none => exact settles_without files stack _ w

theorem settles_callOn (hcalls : SettlesCalls files stack invoke) (receiver : Value)
    (method : String) (values : List Value) (w : World) :
    Settles (CallEnds files stack (declaredCall? receiver method values)
        (callUndeclared stack receiver method) w)
      ((callOn invoke stack receiver method values).run w) := by
  rw [callOn_eq]
  cases declaredCall? receiver method values with
  | some call => exact hcalls call _ w
  | none => exact settles_without files stack _ w

/-! ## Expressions -/

mutual

theorem settles_evalExpr (hcalls : SettlesCalls files stack invoke) :
    (e : Expr) → (w : World) →
      Settles (ExprEnds files stack e w) ((evalExpr files invoke stack e).run w)
  | .int n span, w => by
    unfold evalExpr
    refine settles_step (pure (Value.int n)) (.int stack n span w) ?_
    rintro _ _ ⟨⟩
    exact ⟨rfl, rfl⟩
  | .string s span, w => by
    unfold evalExpr
    refine settles_step (pure (Value.string s)) (.string stack s span w) ?_
    rintro _ _ ⟨⟩
    exact ⟨rfl, rfl⟩
  | .bool b span, w => by
    unfold evalExpr
    refine settles_step (pure (Value.bool b)) (.bool stack b span w) ?_
    rintro _ _ ⟨⟩
    exact ⟨rfl, rfl⟩
  | .null span, w => by
    unfold evalExpr
    refine settles_step (pure Value.null) (.null stack span w) ?_
    rintro _ _ ⟨⟩
    exact ⟨rfl, rfl⟩
  | .name name span, w => by
    unfold evalExpr
    refine settles_step (lookup stack name) (.name stack name span w) ?_
    rintro _ _ ⟨⟩
    exact ⟨rfl, rfl⟩
  | .neg operand span, w => by
    unfold evalExpr
    exact ((settles_evalExpr hcalls operand w).sequence fun v mid =>
      settles_does (negate v) mid).congr fun _ _ => exprEnds_neg
  | .binary op lhs rhs span, w => by
    unfold evalExpr
    exact ((settles_evalExpr hcalls lhs w).sequence fun a mid =>
      (settles_evalExpr hcalls rhs mid).sequence fun b mid' =>
        settles_does (operate stack op a b) mid').congr fun _ _ => exprEnds_binary
  | .call name args span, w => by
    unfold evalExpr
    exact ((settles_evalExprs hcalls args w).sequence fun values mid =>
      settles_callMethod hcalls name values mid).congr fun _ _ => exprEnds_call
  | .new name args span, w => by
    unfold evalExpr
    exact ((settles_evalExprs hcalls args w).sequence fun values mid =>
      settles_does (newInstance files stack name values) mid).congr fun _ _ => exprEnds_new
  | .methodCall receiver method args span, w => by
    unfold evalExpr
    exact ((settles_evalExpr hcalls receiver w).sequence fun value mid =>
      (settles_evalExprs hcalls args mid).sequence fun values mid' =>
        settles_callOn hcalls value method values mid').congr fun _ _ => exprEnds_methodCall

theorem settles_evalExprs (hcalls : SettlesCalls files stack invoke) :
    (es : List Expr) → (w : World) →
      Settles (ExprsEnd files stack es w) ((evalExprs files invoke stack es).run w)
  | [], w => by
    unfold evalExprs
    refine settles_step (pure []) (.nil stack w) ?_
    rintro _ _ ⟨⟩
    exact ⟨rfl, rfl⟩
  | e :: es, w => by
    unfold evalExprs
    exact ((settles_evalExpr hcalls e w).sequence fun v mid =>
      (settles_evalExprs hcalls es mid).sequence fun vs mid' =>
        settles_does (pure (v :: vs)) mid').congr fun _ _ => exprsEnd_cons

end

/-! ## Bodies -/

theorem execBody_declare {decl : VarDecl} (hinit : decl.init = none) (frame : Frame)
    (stmts : List Stmt) :
    execBody files invoke below frame (.var decl :: stmts) =
      execBody files invoke below ((frame.atStmt (.var decl)).declaring decl.name .null) stmts := by
  rw [execBody]
  simp only [hinit]
  rfl

theorem execBody_declareWith {decl : VarDecl} {init : Expr} (hinit : decl.init = some init)
    (frame : Frame) (stmts : List Stmt) :
    execBody files invoke below frame (.var decl :: stmts) =
      (evalExpr files invoke (frame.atStmt (.var decl) :: below) init >>= fun v =>
        execBody files invoke below ((frame.atStmt (.var decl)).declaring decl.name v) stmts) := by
  rw [execBody]
  simp only [hinit]
  rfl

theorem settles_execBody (hcalls : ∀ frame, SettlesCalls files (frame :: below) invoke)
    (frame : Frame) (stmts : List Stmt) (w : World) :
    Settles (StmtsEnd files below frame stmts w)
      ((execBody files invoke below frame stmts).run w) := by
  have heval := fun frame => settles_evalExpr (hcalls frame)
  induction stmts generalizing frame w with
  | nil =>
    refine settles_step (pure none) (.done below frame w) ?_
    rintro _ _ ⟨⟩
    exact ⟨rfl, rfl⟩
  | cons stmt stmts ih =>
    cases stmt with
    | var decl =>
      cases hinit : decl.init with
      | none =>
        rw [execBody_declare hinit]
        exact (ih _ w).congr fun _ _ => stmtsEnd_declare hinit
      | some init =>
        rw [execBody_declareWith hinit]
        exact ((heval _ init w).sequence fun v mid =>
          ih ((frame.atStmt (.var decl)).declaring decl.name v) mid).congr fun _ _ =>
            stmtsEnd_declareWith hinit
    | ret value span line =>
      cases value with
      | none =>
        refine settles_step (pure (some Value.void)) (.leave below frame span line stmts w) ?_
        rintro _ _ ⟨⟩
        exact ⟨rfl, rfl⟩
      | some value =>
        show Settles _ ((some <$> evalExpr files invoke (frame.atStmt _ :: below) value).run w)
        rw [map_eq_pure_bind]
        exact ((heval _ value w).sequence fun v mid => settles_does (pure (some v)) mid).congr
          fun _ _ => stmtsEnd_ret
    | throw value span line =>
      exact ((heval _ value w).sequence fun v mid => settles_does (throwValue _ v) mid).congr
        fun _ _ => stmtsEnd_throw
    | expr value line =>
      exact ((heval _ value w).sequence fun _ mid => ih _ mid).congr fun _ _ => stmtsEnd_expr

/-- The room that is left decides whether a call is carried out as the number of the active
frames does. -/
theorem settles_invokeWithin (files : FileTree) (room : Nat) (stack : Stack)
    (hroom : stack.length + room = maxDepth) :
    SettlesCalls files stack (invokeWithin files room) := by
  -- The frame of a call takes one of the room away for the calls in the body.
  induction room generalizing stack with
  | zero =>
    intro call otherwise w
    have hfull : stack.length = maxDepth := hroom
    refine ⟨[⟨stack, call, w, (raise stack Lang.stackOverflowError none).run w, false⟩],
      fun ending attempts => ⟨?_, ?_⟩, ?_⟩
    · intro h
      cases h with
      | refused => exact ⟨rfl, rfl⟩
      | entered _ hlt _ => omega
    · rintro ⟨rfl, rfl⟩
      exact .refused call otherwise w (Nat.le_of_eq hfull.symm)
    · intro a ha
      rw [List.mem_singleton.1 ha]
      exact ⟨Nat.le_of_eq hfull, by simp [hfull], fun _ => rfl⟩
  | succ room ih =>
    intro call otherwise w
    have hlt : stack.length < maxDepth := by omega
    have hbody := settles_execBody (fun frame => ih (frame :: stack) (by simp; omega)) call.frame
      call.decl.body w
    obtain ⟨attempts, honly, hbounded⟩ := hbody
    refine ⟨⟨stack, call, w, (invokeWithin files (room + 1) stack call).run w, true⟩ :: attempts,
      fun ending attempts' => ⟨?_, ?_⟩, ?_⟩
    · intro h
      cases h with
      | refused _ _ _ hfull => omega
      | entered _ _ hbody =>
        obtain ⟨rfl, rfl⟩ := (honly _ _).1 hbody
        rw [invokeWithin, run_andThen]
        exact ⟨rfl, rfl⟩
    · rintro ⟨rfl, rfl⟩
      rw [invokeWithin, run_andThen]
      exact .entered otherwise hlt ((honly _ _).2 ⟨rfl, rfl⟩)
    · intro a ha
      rcases List.mem_cons.1 ha with rfl | ha
      · exact ⟨Nat.le_of_lt hlt, by simp [hlt], fun h => by cases h⟩
      · exact hbounded a ha

/-! ## The theorem -/

/-- **Every evaluation ends.**  On top of at most `maxDepth` frames, from any world and whatever
is stored or loaded in it, evaluation has a derivation: it ends, with a value, an exception or a
fault, as `evalOn` says.  It ends in no other way, and there is one list of the calls that it
attempts.  Each of them finds at most `maxDepth` frames active; where there is room for one frame
more its body is entered, and where there is none the call stops with an exception that carries
the active frames and changes nothing. -/
theorem evaluation_ends (files : FileTree) (stack : Stack) (e : Expr) (w : World)
    (hstack : stack.length ≤ maxDepth) :
    ∃ attempts, ExprEnds files stack e w ((evalOn files stack e).run w) attempts ∧
      (∀ ending attempts', ExprEnds files stack e w ending attempts' →
        ending = (evalOn files stack e).run w ∧ attempts' = attempts) ∧
      ∀ a ∈ attempts, a.Bounded := by
  have hcalls := settles_invokeWithin files (maxDepth - stack.length) stack (by omega)
  obtain ⟨attempts, honly, hbounded⟩ := settles_evalExpr hcalls e w
  exact ⟨attempts, (honly _ _).2 ⟨rfl, rfl⟩, fun _ _ => (honly _ _).1, hbounded⟩

/-- A call without arguments. -/
def callExpr (name : String) : Expr := .call name [] default

/-- A method that does nothing but call itself. -/
def downMethod : MethodDecl :=
  ⟨.int, "down", [], [.ret (some (callExpr "down")) default 1], default⟩

/-- A world that stores only that method. -/
def downWorld : World where
  globals := { methods := Table.empty.insert "down" ⟨downMethod, 1⟩ }
  loader := { definer := defineSnippet, host := .standard }
  printed := {}

/-- With room for one frame more, a method that calls itself is entered once; the call in its
body is refused. -/
theorem evaluation_ends_down :
    let down := callExpr "down"
    let stack := List.replicate 511 (topFrame 2 1)
    let body := (⟨wrapperClass 1, 1, downMethod, []⟩ : Invocation).frame :: stack
    stack.length ≤ maxDepth ∧ ∃ attempts,
      ExprEnds {} stack down downWorld ((evalOn {} stack down).run downWorld) attempts ∧
      (evalOn {} stack down).run downWorld =
        (raise body Lang.stackOverflowError none).run downWorld ∧
      attempts.map Attempt.entered = [true, false] ∧ ∀ a ∈ attempts, a.Bounded := by
  intro down stack body
  have hlength : stack.length = 511 := List.length_replicate
  have hstack : stack.length ≤ maxDepth := by
    rw [hlength]
    decide
  obtain ⟨attempts, hends, honly, hbounded⟩ := evaluation_ends {} stack down downWorld hstack
  let call : Invocation := ⟨wrapperClass 1, 1, downMethod, []⟩
  let overflow := (raise body Lang.stackOverflowError none : Eval Value).run downWorld
  let refused : Attempt := ⟨body, call, downWorld, overflow, false⟩
  let entered : Attempt := ⟨stack, call, downWorld, overflow, true⟩
  have hstored : storedCall? downWorld "down" [] = some call := rfl
  have hinner : ExprEnds {} body down downWorld overflow [refused] := by
    refine .call (.nil body downWorld) ?_
    rw [hstored]
    refine .refused call _ downWorld ?_
    show 512 ≤ stack.length + 1
    omega
  have hbody : StmtsEnd {} stack call.frame [.ret (some down) default 1] downWorld
      (andThen (fun v => pure (some v)) overflow) [refused] := .ret hinner
  have hroom : stack.length < maxDepth := by
    rw [hlength]
    decide
  have hentered : CallEnds {} stack (some call) (callUnstored "down" []) downWorld overflow
      [entered, refused] := CallEnds.entered _ hroom hbody
  have houter : ExprEnds {} stack down downWorld overflow [entered, refused] :=
    .call (.nil stack downWorld) (hstored ▸ hentered)
  obtain ⟨hending, rfl⟩ := honly _ _ houter
  exact ⟨hstack, _, hends, hending.symm, rfl, hbounded⟩

end ReplEngine.Language
