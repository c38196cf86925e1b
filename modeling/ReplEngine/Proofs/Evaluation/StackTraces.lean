import ReplEngine.Proofs.Evaluation.CallPath
import ReplEngine.Proofs.Evaluation.Exceptions
set_option autoImplicit false

/-!
# Stack traces

The calls that are entered and not left are the active ones, each with the line of the statement
that it has reached.  At every point of a run the frames that evaluation is handed are those of the
active calls, on top of the frame of the top level, so an exception that is made there has them for
its trace (`stack_trace_is_call_path`).
-/

namespace ReplEngine.Language

variable {base stack : Stack} {log : List PathEvent}

/-! ## Active calls -/

/-- A call that is not finished. -/
structure Activation where
  call : Invocation
  /-- The line of the statement that it executes. -/
  line : UInt32

/-- An active call as a stack trace shows it. -/
def Activation.shown (a : Activation) : StackFrame :=
  ⟨a.call.className, a.call.decl.name, some (snippetFile a.call.snippet), some a.line⟩

/-- What an event does to the active calls.  A body without statements is on line 1. -/
def PathEvent.activate : PathEvent → List Activation → List Activation
  | .enters call, active => ⟨call, (call.decl.body.head?.map Stmt.line).getD 1⟩ :: active
  | .reaches line, innermost :: active => { innermost with line } :: active
  | .leaves, _ :: active => active
  | _, active => active

/-- The calls that are active behind the events, innermost first. -/
def activations (log : List PathEvent) : List Activation :=
  log.foldl (fun active event => event.activate active) []

/-- The stack has the frames of the active calls on top of others. -/
def Shows (base : Stack) (active : List Activation) (stack : Stack) : Prop :=
  ∃ own, stack = own ++ base ∧ own.map Frame.toStackFrame = active.map Activation.shown

/-- An event that leaves the frames below alone does the same to active calls and to frames. -/
theorem Shows.step {active : List Activation} (h : Shows base active stack) (event : PathEvent)
    (hstays : base <:+ event.step stack) :
    Shows base (event.activate active) (event.step stack) := by
  obtain ⟨own, rfl, hown⟩ := h
  cases own with
  | nil =>
    obtain rfl : active = [] := List.map_eq_nil_iff.mp hown.symm
    cases event with
    | enters call => exact ⟨[call.frame], rfl, rfl⟩
    | makes d | reads name v => exact ⟨[], rfl, rfl⟩
    | reaches line | declares name v | leaves =>
      -- The event can only change a frame of the base, which it does not.
      refine ⟨[], ?_, rfl⟩
      refine (hstays.eq_of_length_le ?_).symm
      cases base <;> simp [PathEvent.step]
  | cons frame own =>
    cases active with
    | nil => cases hown
    | cons innermost active =>
      obtain ⟨hframe, hown⟩ := List.cons.inj hown
      cases event with
      | enters call =>
        exact ⟨call.frame :: frame :: own, rfl, congrArg₂ _ rfl (congrArg₂ _ hframe hown)⟩
      | makes d | reads name v => exact ⟨frame :: own, rfl, congrArg₂ _ hframe hown⟩
      | declares name v => exact ⟨frame.declaring name v :: own, rfl, congrArg₂ _ hframe hown⟩
      | leaves => exact ⟨own, rfl, hown⟩
      | reaches line =>
        refine ⟨{ frame with line } :: own, rfl, congrArg₂ _ ?_ hown⟩
        obtain ⟨hclass, hmethod, hfile, -⟩ := StackFrame.mk.inj hframe
        exact StackFrame.mk.injEq .. ▸ ⟨hclass, hmethod, hfile, rfl⟩

theorem Throughout.shows {active : List Activation} (h : Throughout (base <:+ ·) stack log)
    (hstart : Shows base active stack) :
    Shows base (log.foldl (fun active event => event.activate active) active)
      (replay stack log) := by
  induction log generalizing active stack with
  | nil => exact hstart
  | cons event log ih => exact ih h.2 (hstart.step event h.2.first)

/-! ## Call paths -/

/-- What the events of a run in a frame of the top level say of calls and exceptions. -/
structure CallPaths (w : World) (top : Frame) (log : List PathEvent) : Prop where
  /-- At any point the frames are those of the active calls, innermost first, and that of the top
  level. -/
  active : ∀ before after, log = before ++ after →
    (replay [top] before).map Frame.toStackFrame =
      (activations before).map Activation.shown ++ [top.toStackFrame]
  /-- An exception records them where it is made. -/
  made : ∀ before d after, log = before ++ .makes d :: after →
    d.link.frames = (activations before).map Activation.shown ++ [top.toStackFrame] ∧
      1 ≤ d.link.frames.length ∧ d.link.frames.length ≤ maxDepth
  /-- A call is of a method that is declared.  It is left, and until then and behind it the frames
  below its own are those that there were before it. -/
  called : ∀ before call after, log = before ++ .enters call :: after →
    call.Found w ∧ ∃ inside rest, after = inside ++ .leaves :: rest ∧
      (∀ part, part <+: inside → ∃ upper own, replay [top] (before ++ .enters call :: part) =
        upper ++ own :: replay [top] before) ∧
      replay [top] (before ++ .enters call :: (inside ++ [.leaves])) = replay [top] before
  /-- A name is a local of the innermost frame, else a variable of the session. -/
  read : ∀ before name v after, log = before ++ .reads name v :: after →
    ((((replay [top] before).head?.map Frame.locals).getD {}).get? name).or
      (w.globals.vars.get? name) = some v

theorem ClosedPath.callPaths {w : World} {top : Frame} (h : ClosedPath w [top] log) :
    CallPaths w top log := by
  have hactive (before after : List PathEvent) (hlog : log = before ++ after) :
      (replay [top] before).map Frame.toStackFrame =
        (activations before).map Activation.shown ++ [top.toStackFrame] := by
    have hstays : Throughout ([top] <:+ ·) [top] (before ++ after) := hlog ▸ h.stays
    have hstart : Shows [top] [] [top] := ⟨[], rfl, rfl⟩
    obtain ⟨own, hown, hshown⟩ := hstays.left.shows hstart
    rw [hown, List.map_append, hshown]
    rfl
  refine ⟨hactive, ?_, ?_, ?_⟩
  · intro before d after hlog
    obtain ⟨hframes, hdepth⟩ := (hlog ▸ h.lawful : Along _ _ (before ++ .makes d :: after)).split
    have htrace := hframes.trans (hactive before _ hlog)
    refine ⟨htrace, ?_, ?_⟩
    · rw [htrace, List.length_append]
      exact Nat.le_add_left ..
    · rw [hframes, List.length_map]
      exact hdepth
  · intro before call after hlog
    obtain ⟨hfound, -, inside, rest, rfl, habove, own, hown⟩ :=
      (hlog ▸ h.lawful : Along _ _ (before ++ .enters call :: after)).split
    refine ⟨hfound, inside, rest, rfl, fun part hpart => ?_, ?_⟩
    · obtain ⟨own, upper, hupper⟩ := habove.of_prefix hpart
      rw [replay_append, replay_cons]
      exact ⟨upper, own, hupper.symm⟩
    · rw [replay_append, replay_cons, replay_append]
      show replay (replay (call.frame :: replay [top] before) inside) [.leaves] = _
      rw [hown]
      rfl
  · intro before name v after hlog
    exact (hlog ▸ h.lawful : Along _ _ (before ++ .reads name v :: after)).split

/-- **Stack traces are call paths.**  With its events noted, code of the top level does what it
does.  An exception that is made on the way has for its trace, innermost first, the calls that are
active there, with the class, the method, the snippet and the line that each of them has reached,
and the frame of the top level behind them.  A call leaves all frames below its own as they are,
however it ends.  And no exception is left out: one that comes out was made on the way, or is the
value of a variable. -/
theorem stack_trace_is_call_path (code : TopLevel) (files : FileTree) (snippet line : UInt32)
    (w : World) :
    ∃ log, (code.trace files snippet line).run w = ((code.eval files snippet line).run w, log) ∧
      CallPaths w (topFrame snippet line) log ∧
      ∀ d, ((code.eval files snippet line).run w).1 = .ok (.exception d) ∨
          ((code.eval files snippet line).run w).1 = .error (.throw d) →
        .makes d ∈ log ∨ ∃ name, w.globals.vars.get? name = some (.exception d) := by
  refine ⟨((code.trace files snippet line).run w).2, ?_, ?_, fun d => ?_⟩
  · rw [← code.trace_erase]
    rfl
  · exact (notes_trace code w files snippet line w (.refl w)).2.callPaths
  · exact exception_made_or_stored code files snippet line w

/-- `int f(int n) { return n / 0; }`, with the statement on the second line. -/
def dividingMethod : MethodDecl :=
  ⟨.int, "f", [⟨.int, "n"⟩],
    [.ret (some (.binary .div (.name "n" default) (.int 0 default) default)) default 2], default⟩

/-- The events of `f(1)`, in the second snippet. -/
example (loader : Loader) :
    (((TopLevel.value (.call "f" [.int 1 default] default)).trace {} 2 1).run
        ⟨⟨{}, ⟨[("f", ⟨dividingMethod, 1⟩)]⟩, 0⟩, loader, {}⟩).2 =
      [.enters ⟨"$Snippet$1", 1, dividingMethod, [.int 1]⟩, .reaches 2, .reads "n" (.int 1),
        .makes ⟨⟨"lang.ArithmeticException", some "/ by zero",
          [⟨"$Snippet$1", "f", some "#1", some 2⟩,
            ⟨"$Snippet$2", "do_it$", some "#2", some 1⟩]⟩, []⟩,
        .leaves] := by
  cbv

end ReplEngine.Language
