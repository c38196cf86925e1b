import ReplEngine.Proofs.Evaluation.Steps
import ReplEngine.Proofs.Evaluation.Tracing
set_option autoImplicit false

/-!
# Where exceptions come from

Every exception that an evaluation gives or stops with was made in it, or is the value of a variable
of the session (`exception_made_or_stored`).  So the events of a run leave no exception out.
-/

namespace ReplEngine.Language

open Traced

variable {α β : Type} {w : World} {A B : Descriptor → Prop}

/-! ## Exceptions with a property -/

/-- Every exception that is a value of the table has the property. -/
def OnlyIn (A : Descriptor → Prop) (t : Table Value) : Prop :=
  ∀ ⦃name v⦄, t.get? name = some v → v.Only A

theorem onlyIn_empty : OnlyIn A {} := allIn_empty

theorem OnlyIn.insert {t : Table Value} (h : OnlyIn A t) {v : Value} (hv : v.Only A)
    (name : String) : OnlyIn A (t.insert name v) :=
  AllIn.insert h hv name

theorem onlyIn_ofList_zip (names : List String) {values : List Value}
    (h : ∀ v ∈ values, v.Only A) : OnlyIn A (Table.ofList (names.zip values)) :=
  allIn_ofList_zip names h

/-- If the exceptions that are made have the property, then so have those that come out. -/
def Accounts (w : World) (A : Descriptor → Prop) (post : α → Prop) (x : Traced α) : Prop :=
  ∀ w', w.Retains w' → (∀ d, .makes d ∈ (x.run w').2 → A d) →
    w.Retains (x.run w').1.2 ∧ Accounted A post (x.run w').1.1

section

variable {post : α → Prop} {next : β → Prop}

theorem accounts_pure {a : α} (h : post a) : Accounts w A post (pure a) := fun _ hw _ => ⟨hw, h⟩

theorem Accounts.bind {x : Traced α} {f : α → Traced β} (hx : Accounts w A post x)
    (hf : ∀ a, post a → Accounts w A next (f a)) : Accounts w A next (x >>= f) := by
  intro w' hw
  have hfirst := hx w' hw
  cases hrun : x.run w' with
  | mk ending log =>
    obtain ⟨result, mid⟩ := ending
    rw [hrun] at hfirst
    cases result with
    | ok a =>
      rw [run_bind_ok f hrun]
      intro hmade
      obtain ⟨hmid, ha⟩ := hfirst fun d hd => hmade d (List.mem_append_left _ hd)
      exact hf a ha mid hmid fun d hd => hmade d (List.mem_append_right _ hd)
    | error unwind =>
      rw [run_bind_error f hrun]
      cases unwind <;> exact hfirst

theorem accounts_note {event : PathEvent} {x : Traced α} (hx : Accounts w A post x) :
    Accounts w A post (note event >>= fun _ => x) :=
  fun w' hw hmade => hx w' hw fun d hd => hmade d (.tail _ hd)

theorem accounts_noting {notes : Except Unwind α → List PathEvent} {act : Eval α}
    (hact : Quiet act) (h : ∀ w', w.Retains w' →
      (∀ d, .makes d ∈ notes (act.run w').1 → A d) → Accounted A post (act.run w').1) :
    Accounts w A post (noting notes act) :=
  fun w' hw hmade => ⟨hw.trans (hact w'), h w' hw hmade⟩

/-! ## Steps that are noted -/

theorem accounts_silently {act : Eval α} (hact : Quiet act) (h : Gives A post act) :
    Accounts w A post (silently act) :=
  accounts_noting hact fun w' _ _ => h w'

theorem accounts_raising {act : Eval α} (hact : Quiet act) (h : Gives B post act) :
    Accounts w A post (raising act) := by
  refine accounts_noting hact fun w' _ hmade => ?_
  have hgives := h w'
  cases hrun : (act.run w').1 with
  | ok a =>
    rw [hrun] at hgives
    exact hgives
  | error unwind =>
    rw [hrun] at hmade
    cases unwind with
    | throw d => exact hmade d (.head _)
    | fault fault => trivial

theorem accounts_throw (stack : Stack) {v : Value} (h : v.Only A) :
    Accounts w A post (traceThrow stack v) := by
  have hthrows (v : Value) := moves_throwValue (α := α) motion_retains stack v
  cases v with
  | exception d => exact accounts_silently (hthrows (.exception d)) fun _ => h d rfl
  | null => exact accounts_raising (hthrows .null) (gives_raise _ _)
  | _ => exact accounts_raising (B := A) (hthrows _) (gives_raiseFault _)

end

theorem accounts_creating (files : FileTree) (stack : Stack) (name : String) (args : List Value) :
    Accounts w A (Value.Only A) (creating (newInstance files stack name args)) := by
  refine accounts_noting (moves_newInstance motion_retains files stack name args)
    fun w' _ hmade => ?_
  have hgives : Accounted A (Value.Only (TracedAt stack)) _ :=
    gives_newInstance files name args w'
  cases hrun : ((newInstance files stack name args).run w').1 with
  | ok v =>
    rw [hrun] at hmade
    intro d hd
    subst hd
    exact hmade d (.head _)
  | error unwind =>
    rw [hrun] at hgives
    cases unwind <;> exact hgives

theorem accounts_reading (hvars : OnlyIn A w.globals.vars) {stack : Stack}
    (hlocals : OnlyIn A ((stack.head?.map Frame.locals).getD {})) (name : String) :
    Accounts w A (Value.Only A) (reading name (lookup stack name)) := by
  refine accounts_noting (moves_lookup motion_retains stack name) fun w' hw _ => ?_
  have hgives : Accounted A (fun _ => True) ((lookup stack name).run w').1 :=
    gives_lookup name w'
  cases hrun : ((lookup stack name).run w').1 with
  | ok v =>
    rcases Option.or_eq_some_iff.mp (lookup_found hrun) with hlocal | ⟨-, hvar⟩
    · exact hlocals hlocal
    · rw [hw.vars] at hvar
      exact hvars hvar
  | error unwind =>
    rw [hrun] at hgives
    cases unwind <;> exact hgives

/-! ## Code -/

section

variable {files : FileTree} {invoke : TracedInvoker}

/-- A call with such arguments ends with such a value, or throws such an exception. -/
def AccountsCalls (w : World) (A : Descriptor → Prop) (invoke : TracedInvoker) : Prop :=
  ∀ stack call, (∀ v ∈ call.args, v.Only A) → Accounts w A (Value.Only A) (invoke stack call)

theorem accounts_traceMethod (hcalls : AccountsCalls w A invoke) (stack : Stack) (name : String)
    {args : List Value} (hargs : ∀ v ∈ args, v.Only A) :
    Accounts w A (Value.Only A) (traceMethod invoke stack name args) := by
  intro w' hw
  simp only [traceMethod]
  cases hcall : storedCall? w' name args with
  | some call =>
    obtain ⟨m, -, rfl⟩ := storedCall?_eq_some hcall
    exact hcalls stack _ hargs w' hw
  | none => exact accounts_silently (quiet_callUnstored name args) (gives_callUnstored _ _) w' hw

theorem accounts_traceOn (hcalls : AccountsCalls w A invoke) (stack : Stack) (receiver : Value)
    (method : String) {args : List Value} (hargs : ∀ v ∈ args, v.Only A) :
    Accounts w A (Value.Only A) (traceOn invoke stack receiver method args) := by
  unfold traceOn
  cases hcall : declaredCall? receiver method args with
  | some call =>
    obtain ⟨cls, file, decl, -, rfl⟩ := declaredCall?_eq_some hcall
    exact hcalls stack _ hargs
  | none => exact accounts_raising (quiet_callUndeclared _ _ _) (gives_callUndeclared _ _)

mutual

theorem accounts_traceExpr (hvars : OnlyIn A w.globals.vars) (hcalls : AccountsCalls w A invoke)
    (stack : Stack) (hlocals : OnlyIn A ((stack.head?.map Frame.locals).getD {})) :
    (e : Expr) → Accounts w A (Value.Only A) (traceExpr files invoke stack e)
  | .int _ _ | .string _ _ | .bool _ _ | .null _ => by
    unfold traceExpr
    exact accounts_pure nofun
  | .name name span => by
    unfold traceExpr
    exact accounts_reading hvars hlocals name
  | .neg operand span => by
    unfold traceExpr
    exact (accounts_traceExpr hvars hcalls stack hlocals operand).bind fun v _ =>
      accounts_silently (moves_negate motion_retains v) (gives_negate v)
  | .binary op lhs rhs span => by
    unfold traceExpr
    exact (accounts_traceExpr hvars hcalls stack hlocals lhs).bind fun a _ =>
      (accounts_traceExpr hvars hcalls stack hlocals rhs).bind fun b _ =>
        accounts_raising (moves_operate motion_retains stack op a b) (gives_operate op a b)
  | .call name args span => by
    unfold traceExpr
    exact (accounts_traceExprs hvars hcalls stack hlocals args).bind fun _ hvs =>
      accounts_traceMethod hcalls stack name hvs
  | .new name args span => by
    unfold traceExpr
    exact (accounts_traceExprs hvars hcalls stack hlocals args).bind fun vs _ =>
      accounts_creating files stack name vs
  | .methodCall receiver method args span => by
    unfold traceExpr
    exact (accounts_traceExpr hvars hcalls stack hlocals receiver).bind fun v _ =>
      (accounts_traceExprs hvars hcalls stack hlocals args).bind fun _ hvs =>
        accounts_traceOn hcalls stack v method hvs

theorem accounts_traceExprs (hvars : OnlyIn A w.globals.vars) (hcalls : AccountsCalls w A invoke)
    (stack : Stack) (hlocals : OnlyIn A ((stack.head?.map Frame.locals).getD {})) :
    (es : List Expr) →
      Accounts w A (fun vs => ∀ v ∈ vs, v.Only A) (traceExprs files invoke stack es)
  | [] => by
    unfold traceExprs
    exact accounts_pure nofun
  | e :: es => by
    unfold traceExprs
    exact (accounts_traceExpr hvars hcalls stack hlocals e).bind fun _ hv =>
      (accounts_traceExprs hvars hcalls stack hlocals es).bind fun _ hvs =>
        accounts_pure (List.forall_mem_cons.mpr ⟨hv, hvs⟩)

end

theorem accounts_traceBody (hvars : OnlyIn A w.globals.vars) (hcalls : AccountsCalls w A invoke)
    (below : Stack) {frame : Frame} (hlocals : OnlyIn A frame.locals) (stmts : List Stmt) :
    Accounts w A (fun result => ∀ v ∈ result, v.Only A)
      (traceBody files invoke below frame stmts) := by
  have heval {frame : Frame} (hlocals : OnlyIn A frame.locals) (e : Expr) :
      Accounts w A (Value.Only A) (traceExpr files invoke (frame :: below) e) :=
    accounts_traceExpr hvars hcalls (_ :: below) hlocals e
  induction stmts generalizing frame with
  | nil => exact accounts_pure fun v hv => by cases hv
  | cons stmt stmts ih =>
    have hframe : OnlyIn A (frame.atStmt stmt).locals := hlocals
    unfold traceBody
    refine accounts_note ?_
    cases stmt with
    | var decl =>
      obtain ⟨type, name, init, span, line⟩ := decl
      cases init with
      | none => exact accounts_note (ih (hframe.insert only_null name))
      | some init =>
        exact (heval hframe init).bind fun v hv => accounts_note (ih (hframe.insert hv name))
    | ret value span line =>
      cases value with
      | none =>
        refine accounts_pure fun v hv => ?_
        cases hv
        exact only_void
      | some value =>
        refine (heval hframe value).bind fun v hv => accounts_pure fun v' hv' => ?_
        cases hv'
        exact hv
    | throw value span line =>
      exact (heval hframe value).bind fun v hv => accounts_throw _ hv
    | expr value line => exact (heval hframe value).bind fun _ _ => ih hframe

end

theorem accounts_within {call : Invocation} {body : Traced Value} {post : Value → Prop}
    (hbody : Accounts w A post body) : Accounts w A post (within call body) :=
  fun w' hw hmade => hbody w' hw fun d hd => hmade d (.tail _ (List.mem_append_left _ hd))

theorem accounts_traceWithin (hvars : OnlyIn A w.globals.vars) (files : FileTree) (room : Nat) :
    AccountsCalls w A (traceWithin files room) := by
  induction room with
  | zero =>
    exact fun stack call _ =>
      accounts_raising (moves_raise motion_retains _ _ _) (gives_raise _ _)
  | succ room ih =>
    intro stack call hargs
    refine accounts_within ((accounts_traceBody hvars ih stack (onlyIn_ofList_zip _ hargs)
      call.decl.body).bind fun result hresult => accounts_pure ?_)
    cases result with
    | none => exact nofun
    | some v => exact hresult v rfl

theorem accounts_trace (hvars : OnlyIn A w.globals.vars) (code : TopLevel) (files : FileTree)
    (snippet line : UInt32) : Accounts w A (Value.Only A) (code.trace files snippet line) := by
  have hcalls := accounts_traceWithin hvars files (maxDepth - 1)
  have heval (e : Expr) : Accounts w A (Value.Only A)
      (traceExpr files (traceWithin files (maxDepth - 1)) [topFrame snippet line] e) :=
    accounts_traceExpr hvars hcalls _ onlyIn_empty e
  cases code with
  | value e => exact heval e
  | throw e => exact (heval e).bind fun v hv => accounts_throw _ hv

/-- An exception that code of the top level gives, or stops with, was made in the run or is the
value of a variable. -/
theorem exception_made_or_stored (code : TopLevel) (files : FileTree) (snippet line : UInt32)
    (w : World) {d : Descriptor}
    (h : (((code.eval files snippet line).run w).1 = .ok (.exception d)) ∨
      ((code.eval files snippet line).run w).1 = .error (.throw d)) :
    .makes d ∈ ((code.trace files snippet line).run w).2 ∨
      ∃ name, w.globals.vars.get? name = some (.exception d) := by
  have haccounts := (accounts_trace (w := w)
    (A := fun d => .makes d ∈ ((code.trace files snippet line).run w).2 ∨
      ∃ name, w.globals.vars.get? name = some (.exception d))
    (fun name v hv d hd => .inr ⟨name, hd ▸ hv⟩) code files snippet line w (.refl w)
    fun d hd => .inl hd).2
  rw [← code.trace_erase] at h
  rcases h with hgives | hthrows
  · rw [show ((code.trace files snippet line).run w).1.1 = .ok (.exception d) from hgives]
      at haccounts
    exact haccounts d rfl
  · rw [show ((code.trace files snippet line).run w).1.1 = .error (.throw d) from hthrows]
      at haccounts
    exact haccounts

end ReplEngine.Language
