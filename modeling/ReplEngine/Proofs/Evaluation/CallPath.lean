import ReplEngine.Proofs.Evaluation.Steps
import ReplEngine.Proofs.Evaluation.Tracing
set_option autoImplicit false

/-!
# Call paths

The frames that evaluation hands down are what the events so far have made of the first ones: a call
puts its frame on top, a statement sets the line of the innermost frame, and the frame goes when the
call is left.  So an exception that is made has these frames for its trace, and a call leaves those
below its own as they were, however it ends (`notes_trace`).
-/

namespace ReplEngine.Language

open Traced

variable {α β : Type} {w : World} {stack below : Stack} {frame : Frame}
  {log later : List PathEvent}

/-! ## Frames behind events -/

/-- What an event does to the active frames. -/
def PathEvent.step : PathEvent → Stack → Stack
  | .enters call, stack => call.frame :: stack
  | .reaches line, top :: below => { top with line } :: below
  | .declares name v, top :: below => top.declaring name v :: below
  | .leaves, _ :: below => below
  | _, stack => stack

/-- The frames that are active behind the events. -/
def replay (stack : Stack) (log : List PathEvent) : Stack :=
  log.foldl (fun stack event => event.step stack) stack

theorem replay_cons {event : PathEvent} :
    replay stack (event :: log) = replay (event.step stack) log := rfl

theorem replay_append : replay stack (log ++ later) = replay (replay stack log) later :=
  List.foldl_append

/-- At every event, the property holds of the frames that are active, the event and the events
behind it. -/
def Along (P : Stack → PathEvent → List PathEvent → Prop) : Stack → List PathEvent → Prop
  | _, [] => True
  | stack, event :: log => P stack event log ∧ Along P (event.step stack) log

/-- The property holds of the active frames all the time. -/
def Throughout (Q : Stack → Prop) : Stack → List PathEvent → Prop
  | stack, [] => Q stack
  | stack, event :: log => Q stack ∧ Throughout Q (event.step stack) log

theorem Throughout.first {Q : Stack → Prop} (h : Throughout Q stack log) : Q stack := by
  cases log with
  | nil => exact h
  | cons event log => exact h.1

theorem Throughout.append {Q : Stack → Prop} (h : Throughout Q stack log)
    (hlater : Throughout Q (replay stack log) later) : Throughout Q stack (log ++ later) := by
  induction log generalizing stack with
  | nil => exact hlater
  | cons event log ih => exact ⟨h.1, ih h.2 hlater⟩

theorem Throughout.imp {Q Q' : Stack → Prop} (h : Throughout Q stack log)
    (himp : ∀ stack, Q stack → Q' stack) : Throughout Q' stack log := by
  induction log generalizing stack with
  | nil => exact himp _ h
  | cons event log ih => exact ⟨himp _ h.1, ih h.2⟩

theorem Throughout.left {Q : Stack → Prop} (h : Throughout Q stack (log ++ later)) :
    Throughout Q stack log := by
  induction log generalizing stack with
  | nil => exact h.first
  | cons event log ih => exact ⟨h.1, ih h.2⟩

theorem Throughout.of_prefix {Q : Stack → Prop} (h : Throughout Q stack log)
    {before : List PathEvent} (hbefore : before <+: log) : Q (replay stack before) := by
  obtain ⟨after, rfl⟩ := hbefore
  induction before generalizing stack with
  | nil => exact h.first
  | cons event before ih => exact ih h.2

theorem Along.append {P : Stack → PathEvent → List PathEvent → Prop}
    (hP : ∀ {stack event after} later, P stack event after → P stack event (after ++ later))
    (h : Along P stack log) (hlater : Along P (replay stack log) later) :
    Along P stack (log ++ later) := by
  induction log generalizing stack with
  | nil => exact hlater
  | cons event log ih => exact ⟨hP later h.1, ih h.2 hlater⟩

theorem Along.split {P : Stack → PathEvent → List PathEvent → Prop}
    {before after : List PathEvent} {event : PathEvent}
    (h : Along P stack (before ++ event :: after)) : P (replay stack before) event after := by
  induction before generalizing stack with
  | nil => exact h.1
  | cons _ before ih => exact ih h.2

/-! ## What events say -/

/-- The call is one of a method that is declared at the top level, or by the class of an object. -/
inductive Invocation.Found (w : World) : Invocation → Prop where
  | stored {name : String} {m : MethodDef} (h : w.globals.methods.get? name = some m)
    (args : List Value) : Found w ⟨wrapperClass m.snippet, m.snippet, m.decl, args⟩
  | declared {cls : ClassObject} {method : String} {file : ClassFile} {decl : MethodDecl}
    (h : declaredMethod? cls method = some (file, decl)) (args : List Value) :
    Found w ⟨file.name, file.snippet, decl, args⟩

/-- There is a frame on top of these. -/
def Above (below stack : Stack) : Prop := ∃ top, (top :: below) <:+ stack

/-- A call is left, and all the time the frames below its own are as they were. -/
def Returns (below : Stack) (call : Invocation) (after : List PathEvent) : Prop :=
  ∃ inside rest, after = inside ++ .leaves :: rest ∧
    Throughout (Above below) (call.frame :: below) inside ∧
    ∃ top, replay (call.frame :: below) inside = top :: below

/-- What is so at every event: a call is of a method that is declared, has room and returns; a name
is a local of the innermost frame, else a variable of the session; and an exception has the call
path for its trace. -/
def Lawful (w : World) (stack : Stack) : PathEvent → List PathEvent → Prop
  | .enters call, after => call.Found w ∧ stack.length < maxDepth ∧ Returns stack call after
  | .reads name v, _ =>
    (((stack.head?.map Frame.locals).getD {}).get? name).or (w.globals.vars.get? name) = some v
  | .makes d, _ => TracedAt stack d ∧ stack.length ≤ maxDepth
  | _, _ => True

theorem Returns.append {call : Invocation} {after : List PathEvent} (h : Returns below call after)
    (later : List PathEvent) : Returns below call (after ++ later) := by
  obtain ⟨inside, rest, rfl, habove, hends⟩ := h
  exact ⟨inside, rest ++ later, List.append_assoc .., habove, hends⟩

theorem Lawful.append {event : PathEvent} {after : List PathEvent}
    (later : List PathEvent) (h : Lawful w stack event after) :
    Lawful w stack event (after ++ later) := by
  cases event with
  | enters call => exact ⟨h.1, h.2.1, h.2.2.append later⟩
  | _ => exact h

/-! ## Paths of expressions and bodies -/

/-- The events of code that leaves all frames as they are, its own included. -/
structure ClosedPath (w : World) (stack : Stack) (log : List PathEvent) : Prop where
  lawful : Along (Lawful w) stack log
  stays : Throughout (stack <:+ ·) stack log
  ends : replay stack log = stack

/-- The events of statements that are executed in the frame, and leave those below it. -/
structure BodyPath (w : World) (below : Stack) (frame : Frame) (log : List PathEvent) : Prop where
  lawful : Along (Lawful w) (frame :: below) log
  stays : Throughout (Above below) (frame :: below) log
  ends : ∃ top, replay (frame :: below) log = top :: below

namespace ClosedPath

theorem nil (w : World) (stack : Stack) : ClosedPath w stack [] :=
  ⟨trivial, List.suffix_rfl, rfl⟩

theorem single {event : PathEvent} (hstep : event.step stack = stack)
    (h : Lawful w stack event []) : ClosedPath w stack [event] where
  lawful := ⟨h, trivial⟩
  stays := ⟨List.suffix_rfl, by rw [hstep]; exact List.suffix_rfl⟩
  ends := hstep

theorem append (h : ClosedPath w stack log) (hlater : ClosedPath w stack later) :
    ClosedPath w stack (log ++ later) where
  lawful := h.lawful.append Lawful.append (by rw [h.ends]; exact hlater.lawful)
  stays := h.stays.append (by rw [h.ends]; exact hlater.stays)
  ends := by rw [replay_append, h.ends, hlater.ends]

/-- A call that has room, of which the body leaves the frames below. -/
theorem call {call : Invocation} (hfound : call.Found w) (hroom : stack.length < maxDepth)
    (hbody : BodyPath w stack call.frame log) :
    ClosedPath w stack (.enters call :: (log ++ [.leaves])) := by
  obtain ⟨top, htop⟩ := hbody.ends
  have hsuffix (s : Stack) (h : Above stack s) : stack <:+ s := by
    obtain ⟨top, h⟩ := h
    exact (List.suffix_cons top stack).trans h
  refine ⟨⟨⟨hfound, hroom, log, [], rfl, hbody.stays, top, htop⟩, ?_⟩, ⟨List.suffix_rfl, ?_⟩, ?_⟩
  · exact hbody.lawful.append Lawful.append ⟨trivial, trivial⟩
  · refine (hbody.stays.imp hsuffix).append ?_
    rw [htop]
    exact ⟨List.suffix_cons top stack, List.suffix_rfl⟩
  · rw [replay_cons, replay_append]
    show replay (replay (call.frame :: stack) log) [.leaves] = stack
    rw [htop]
    rfl

end ClosedPath

namespace BodyPath

theorem nil (w : World) (below : Stack) (frame : Frame) : BodyPath w below frame [] :=
  ⟨trivial, ⟨frame, List.suffix_rfl⟩, frame, rfl⟩

/-- An event that changes the frame itself. -/
theorem move {event : PathEvent} {frame' : Frame}
    (hstep : event.step (frame :: below) = frame' :: below)
    (h : Lawful w (frame :: below) event log) (hlater : BodyPath w below frame' log) :
    BodyPath w below frame (event :: log) where
  lawful := ⟨h, by rw [hstep]; exact hlater.lawful⟩
  stays := ⟨⟨frame, List.suffix_rfl⟩, by rw [hstep]; exact hlater.stays⟩
  ends := by
    rw [replay_cons, hstep]
    exact hlater.ends

/-- Code that is evaluated in the frame. -/
theorem eval (h : ClosedPath w (frame :: below) log) (hlater : BodyPath w below frame later) :
    BodyPath w below frame (log ++ later) where
  lawful := h.lawful.append Lawful.append (by rw [h.ends]; exact hlater.lawful)
  stays := (h.stays.imp fun _ hsuffix => ⟨frame, hsuffix⟩).append
    (by rw [h.ends]; exact hlater.stays)
  ends := by
    rw [replay_append, h.ends]
    exact hlater.ends

end BodyPath

theorem ClosedPath.body (h : ClosedPath w (frame :: below) log) : BodyPath w below frame log := by
  have hbody := BodyPath.eval h (.nil w below frame)
  rwa [List.append_nil] at hbody

/-! ## What is noted -/

/-- What the code notes has the property, and it declares nothing. -/
def Notes (w : World) (P : List PathEvent → Prop) (x : Traced α) : Prop :=
  ∀ w', w.Retains w' → w.Retains (x.run w').1.2 ∧ P (x.run w').2

section

variable {P P' P'' : List PathEvent → Prop}

theorem Notes.imp {x : Traced α} (h : Notes w P x) (himp : ∀ log, P log → P' log) :
    Notes w P' x :=
  fun w' hw => ⟨(h w' hw).1, himp _ (h w' hw).2⟩

theorem notes_pure (a : α) (h : P []) : Notes w P (pure a) := fun _ hw => ⟨hw, h⟩

theorem Notes.bind {x : Traced α} {f : α → Traced β} (hx : Notes w P x)
    (hf : ∀ a, Notes w P' (f a)) (hstop : ∀ log, P log → P'' log)
    (happend : ∀ log later, P log → P' later → P'' (log ++ later)) : Notes w P'' (x >>= f) := by
  intro w' hw
  obtain ⟨hmid, hlog⟩ := hx w' hw
  cases hrun : x.run w' with
  | mk ending log =>
    obtain ⟨result, mid⟩ := ending
    rw [hrun] at hmid hlog
    cases result with
    | ok a =>
      obtain ⟨hend, hlater⟩ := hf a mid hmid
      rw [run_bind_ok f hrun]
      exact ⟨hend, happend _ _ hlog hlater⟩
    | error unwind =>
      rw [run_bind_error f hrun]
      exact ⟨hmid, hstop _ hlog⟩

/-- Code that leaves all frames as they are, one piece after the other. -/
theorem Notes.closed {x : Traced α} {f : α → Traced β} (hx : Notes w (ClosedPath w stack) x)
    (hf : ∀ a, Notes w (ClosedPath w stack) (f a)) : Notes w (ClosedPath w stack) (x >>= f) :=
  hx.bind hf (fun _ h => h) fun _ _ => ClosedPath.append

/-- An expression of a statement, and what is executed with its value. -/
theorem Notes.body {x : Traced α} {f : α → Traced β}
    (hx : Notes w (ClosedPath w (frame :: below)) x)
    (hf : ∀ a, Notes w (BodyPath w below frame) (f a)) :
    Notes w (BodyPath w below frame) (x >>= f) :=
  hx.bind hf (fun _ => ClosedPath.body) fun _ _ => BodyPath.eval

theorem notes_move {event : PathEvent} {frame' : Frame} {x : Traced α}
    (hstep : event.step (frame :: below) = frame' :: below)
    (h : ∀ log, Lawful w (frame :: below) event log) (hx : Notes w (BodyPath w below frame') x) :
    Notes w (BodyPath w below frame) (note event >>= fun _ => x) := by
  intro w' hw
  obtain ⟨hend, hlog⟩ := hx w' hw
  exact ⟨hend, hlog.move hstep (h _)⟩

/-- A statement begins. -/
theorem notes_reaches (stmt : Stmt) {x : Traced α}
    (hx : Notes w (BodyPath w below (frame.atStmt stmt)) x) :
    Notes w (BodyPath w below frame) (note (.reaches stmt.line) >>= fun _ => x) :=
  notes_move rfl (fun _ => trivial) hx

/-- A local is declared. -/
theorem notes_declares (name : String) (v : Value) {x : Traced α}
    (hx : Notes w (BodyPath w below (frame.declaring name v)) x) :
    Notes w (BodyPath w below frame) (note (.declares name v) >>= fun _ => x) :=
  notes_move rfl (fun _ => trivial) hx

theorem notes_noting {notes : Except Unwind α → List PathEvent} {act : Eval α} (hact : Quiet act)
    (h : ∀ w', w.Retains w' → P (notes (act.run w').1)) : Notes w P (noting notes act) :=
  fun w' hw => ⟨hw.trans (hact w'), h w' hw⟩

theorem notes_silently {act : Eval α} (hact : Quiet act) (h : P []) :
    Notes w P (silently act) :=
  notes_noting hact fun _ _ => h

end

/-! ## Expressions -/

section

variable (hroom : stack.length ≤ maxDepth)

include hroom

theorem notes_raising {act : Eval α} {post : α → Prop} (hact : Quiet act)
    (h : Gives (TracedAt stack) post act) :
    Notes w (ClosedPath w stack) (raising act) := by
  refine notes_noting hact fun w' _ => ?_
  have hgives := h w'
  split
  · rename_i d hd
    rw [hd] at hgives
    exact .single rfl ⟨hgives, hroom⟩
  · exact .nil w stack

theorem notes_creating (files : FileTree) (name : String) (args : List Value) :
    Notes w (ClosedPath w stack) (creating (newInstance files stack name args)) := by
  refine notes_noting (moves_newInstance motion_retains files stack name args) fun w' _ => ?_
  have hgives : Accounted (fun _ => True) (Value.Only (TracedAt stack)) _ :=
    gives_newInstance files name args w'
  split
  · rename_i d hd
    rw [hd] at hgives
    exact .single rfl ⟨hgives d rfl, hroom⟩
  · exact .nil w stack

theorem notes_throw (v : Value) : Notes w (ClosedPath w stack) (traceThrow stack v : Traced α) := by
  have hquiet (v : Value) := moves_throwValue (α := α) motion_retains stack v
  have hgives {v : Value} (h : ∀ d, v ≠ .exception d) :
      Gives (TracedAt stack) (fun _ => True) (throwValue stack v : Eval α) := gives_throwValue h
  cases v with
  | exception d => exact notes_silently (hquiet (.exception d)) (.nil w stack)
  | _ => exact notes_raising hroom (hquiet _) (hgives nofun)

end

theorem notes_reading (name : String) :
    Notes w (ClosedPath w stack) (reading name (lookup stack name)) := by
  refine notes_noting (moves_lookup motion_retains stack name) fun w' hw => ?_
  split
  · rename_i v hv
    have hfound := lookup_found hv
    rw [hw.vars] at hfound
    exact .single rfl hfound
  · exact .nil w stack

/-- A call of a method that is declared leaves all frames as they are. -/
def NotesCalls (w : World) (stack : Stack) (invoke : TracedInvoker) : Prop :=
  ∀ call, call.Found w → Notes w (ClosedPath w stack) (invoke stack call)

section

variable {files : FileTree} {invoke : TracedInvoker}

theorem notes_traceMethod (hcalls : NotesCalls w stack invoke) (name : String) (args : List Value) :
    Notes w (ClosedPath w stack) (traceMethod invoke stack name args) := by
  intro w' hw
  simp only [traceMethod]
  cases hcall : storedCall? w' name args with
  | some call =>
    obtain ⟨m, hm, rfl⟩ := storedCall?_eq_some hcall
    rw [hw.methods] at hm
    exact hcalls _ (.stored hm args) w' hw
  | none => exact notes_silently (quiet_callUnstored name args) (.nil w stack) w' hw

theorem notes_traceOn (hroom : stack.length ≤ maxDepth) (hcalls : NotesCalls w stack invoke)
    (receiver : Value) (method : String) (args : List Value) :
    Notes w (ClosedPath w stack) (traceOn invoke stack receiver method args) := by
  unfold traceOn
  cases hcall : declaredCall? receiver method args with
  | some call =>
    obtain ⟨cls, file, decl, hdecl, rfl⟩ := declaredCall?_eq_some hcall
    exact hcalls _ (.declared hdecl args)
  | none =>
    exact notes_raising hroom (quiet_callUndeclared _ _ _)
      (gives_callUndeclared (A := fun _ => True) _ _)

mutual

theorem notes_traceExpr (hroom : stack.length ≤ maxDepth) (hcalls : NotesCalls w stack invoke) :
    (e : Expr) → Notes w (ClosedPath w stack) (traceExpr files invoke stack e)
  | .int _ _ | .string _ _ | .bool _ _ | .null _ => by
    unfold traceExpr
    exact notes_pure _ (.nil w stack)
  | .name name span => by
    unfold traceExpr
    exact notes_reading name
  | .neg operand span => by
    unfold traceExpr
    exact (notes_traceExpr hroom hcalls operand).closed fun v =>
      notes_silently (moves_negate motion_retains v) (.nil w stack)
  | .binary op lhs rhs span => by
    unfold traceExpr
    exact (notes_traceExpr hroom hcalls lhs).closed fun a =>
      (notes_traceExpr hroom hcalls rhs).closed fun b =>
        notes_raising hroom (moves_operate motion_retains stack op a b)
          (gives_operate (A := fun _ => True) op a b)
  | .call name args span => by
    unfold traceExpr
    exact (notes_traceExprs hroom hcalls args).closed fun vs => notes_traceMethod hcalls name vs
  | .new name args span => by
    unfold traceExpr
    exact (notes_traceExprs hroom hcalls args).closed fun vs => notes_creating hroom files name vs
  | .methodCall receiver method args span => by
    unfold traceExpr
    exact (notes_traceExpr hroom hcalls receiver).closed fun v =>
      (notes_traceExprs hroom hcalls args).closed fun vs =>
        notes_traceOn hroom hcalls v method vs

theorem notes_traceExprs (hroom : stack.length ≤ maxDepth) (hcalls : NotesCalls w stack invoke) :
    (es : List Expr) → Notes w (ClosedPath w stack) (traceExprs files invoke stack es)
  | [] => by
    unfold traceExprs
    exact notes_pure _ (.nil w stack)
  | e :: es => by
    unfold traceExprs
    exact (notes_traceExpr hroom hcalls e).closed fun v =>
      (notes_traceExprs hroom hcalls es).closed fun vs => notes_pure _ (.nil w stack)

end

/-! ## Bodies -/

theorem notes_traceBody (hroom : below.length < maxDepth)
    (hcalls : ∀ frame, NotesCalls w (frame :: below) invoke) (frame : Frame) (stmts : List Stmt) :
    Notes w (BodyPath w below frame) (traceBody files invoke below frame stmts) := by
  have hfull (frame : Frame) : (frame :: below).length ≤ maxDepth := hroom
  have heval (frame : Frame) (e : Expr) :
      Notes w (ClosedPath w (frame :: below)) (traceExpr files invoke (frame :: below) e) :=
    notes_traceExpr (hfull frame) (hcalls frame) e
  induction stmts generalizing frame with
  | nil => exact notes_pure none (.nil w below frame)
  | cons stmt stmts ih =>
    unfold traceBody
    refine notes_reaches stmt ?_
    cases stmt with
    | var decl =>
      obtain ⟨type, name, init, span, line⟩ := decl
      cases init with
      | none => exact notes_declares name .null (ih _)
      | some init =>
        exact (heval _ init).body fun v => notes_declares name v (ih _)
    | ret value span line =>
      cases value with
      | none => exact notes_pure _ (.nil _ _ _)
      | some value => exact (heval _ value).body fun v => notes_pure _ (.nil _ _ _)
    | throw value span line =>
      exact (heval _ value).body fun v => (notes_throw (hfull _) v).imp fun _ => ClosedPath.body
    | expr value line => exact (heval _ value).body fun _ => ih _

end

theorem notes_within {call : Invocation} (hfound : call.Found w) (hroom : stack.length < maxDepth)
    {body : Traced Value} (hbody : Notes w (BodyPath w stack call.frame) body) :
    Notes w (ClosedPath w stack) (within call body) :=
  fun w' hw => ⟨(hbody w' hw).1, .call hfound hroom (hbody w' hw).2⟩

theorem notes_traceWithin (w : World) (files : FileTree) {room : Nat} {stack : Stack}
    (hroom : room + stack.length = maxDepth) : NotesCalls w stack (traceWithin files room) := by
  -- The calls in a body have less room than the call of the body, and one frame more below them.
  induction room generalizing stack with
  | zero =>
    intro call _
    have hgives : Gives (TracedAt stack) (fun _ => True)
        (raise stack Lang.stackOverflowError none : Eval Value) := gives_raise _ _
    exact notes_raising (by omega) (moves_raise motion_retains _ _ _) hgives
  | succ room ih =>
    intro call hfound
    have hcalls (frame : Frame) : NotesCalls w (frame :: stack) (traceWithin files room) :=
      ih (by rw [List.length_cons]; omega)
    have hbody : Notes w (BodyPath w stack call.frame)
        (traceBody files (traceWithin files room) stack call.frame call.decl.body) :=
      notes_traceBody (by omega) hcalls _ _
    exact notes_within hfound (by omega) (hbody.bind (fun _ => notes_pure _ rfl)
      (fun _ h => h) fun log later h hlater => by rwa [← hlater, List.append_nil])

/-- Code of the top level leaves its frame as it is. -/
theorem notes_trace (code : TopLevel) (w : World) (files : FileTree) (snippet line : UInt32) :
    Notes w (ClosedPath w [topFrame snippet line]) (code.trace files snippet line) := by
  have hroom : [topFrame snippet line].length ≤ maxDepth := show 1 ≤ maxDepth by decide
  have hcalls : NotesCalls w [topFrame snippet line] (traceWithin files (maxDepth - 1)) :=
    notes_traceWithin w files rfl
  cases code with
  | value e => exact notes_traceExpr hroom hcalls e
  | throw e => exact (notes_traceExpr hroom hcalls e).closed fun v => notes_throw hroom v

end ReplEngine.Language
