import ReplEngine.Proofs.Engine.Rounds
set_option autoImplicit false

/-!
# What one call does

A call takes units off the front of its candidate, one turn after the other.  `Turns` says which
ones, what each of them asks of the compiler and how the call ends; it has no bound on the number
of turns.  A call that comes to an end is such a sequence of turns (`exists_turns`) and does what
the turns say (`Turns.run`), for any compiler.
-/

namespace ReplEngine

open Reading

variable {σ υ : Type}

/-! ## What a compiler is asked for -/

/-- A compiler is asked to compile a source, or to run a unit against the classes of a session. -/
inductive Request (υ : Type) where
  | compile (source : String)
  | execute (unit : υ) (loader : Loader)

/-- The source that is to be compiled. -/
def Request.source? : Request υ → Option String
  | compile source => some source
  | execute _ _ => none

/-- A compiler that keeps a list of everything it is asked for. -/
def Compiler.recording (c : Compiler σ υ) : Compiler (σ × List (Request υ)) υ where
  nextUnit s text := c.nextUnit s.1 text
  compile source s :=
    let (result, state) := c.compile source s.1
    (result, state, s.2 ++ [.compile source])
  execute files unit s loader :=
    let (result, state, after) := c.execute files unit s.1 loader
    (result, (state, s.2 ++ [.execute unit loader]), after)
  diagnostics s snippet := c.diagnostics s.1 snippet
  definer := c.definer
  close s := (c.close s.1, s.2)

namespace Compiler

variable {c : Compiler σ υ} {files : FileTree}

theorem compile_recording {unit : String} {s s' : σ} {result : Except CompilerFailure (Compiled υ)}
    (h : c.compile unit s = (result, s')) (before : List (Request υ)) :
    c.recording.compile unit (s, before) = (result, s', before ++ [.compile unit]) := by
  simp only [recording, h]

theorem execute_recording {unit : υ} {s s' : σ} {loader loader' : Loader}
    {result : Except CompilerFailure (List Event)}
    (h : c.execute files unit s loader = (result, s', loader')) (before : List (Request υ)) :
    c.recording.execute files unit (s, before) loader =
      (result, (s', before ++ [.execute unit loader]), loader') := by
  simp only [recording, h]

end Compiler

/-- The workspace of a compiler that keeps a list. -/
def Workspace.withRequests (w : Workspace σ) (requests : List (Request υ)) :
    Workspace (σ × List (Request υ)) :=
  { state := (w.state, requests), loader := w.loader, closed := w.closed }

namespace Workspace

/-! ## One unit -/

/-- One unit: what the compiler is asked for, what comes of it, and the workspace behind it.  A
unit runs against the loader that its classes have been installed in. -/
inductive UnitRun (c : Compiler σ υ) (files : FileTree) (unit : String) (w : Workspace σ) :
    List (Request υ) → Except EngineError (List Outcome) → Workspace σ → Prop where
  | notCompiled {failure : CompilerFailure} {state : σ}
      (hcompile : c.compile unit w.state = (.error failure, state)) :
      UnitRun c files unit w [.compile unit] (.error (.compiler failure)) { w with state := state }
  | notInstalled {compiled : Compiled υ} {state : σ} {error : Loader.InstallError}
      {loader : Loader} (hcompile : c.compile unit w.state = (.ok compiled, state))
      (hinstall : (Loader.install compiled.classes).run w.loader = (.error error, loader)) :
      UnitRun c files unit w [.compile unit] (.error (.classInstall error))
        { w with state := state, loader := loader }
  | notExecuted {compiled : Compiled υ} {state state' : σ} {lives : List LiveClass}
      {loader loader' : Loader} {failure : CompilerFailure}
      (hcompile : c.compile unit w.state = (.ok compiled, state))
      (hinstall : (Loader.install compiled.classes).run w.loader = (.ok lives, loader))
      (hexecute : c.execute files compiled.unit state loader = (.error failure, state', loader')) :
      UnitRun c files unit w [.compile unit, .execute compiled.unit loader]
        (.error (.compiler failure)) { w with state := state', loader := loader' }
  | executed {compiled : Compiled υ} {state state' : σ} {lives : List LiveClass}
      {loader loader' : Loader} {events : List Event}
      (hcompile : c.compile unit w.state = (.ok compiled, state))
      (hinstall : (Loader.install compiled.classes).run w.loader = (.ok lives, loader))
      (hexecute : c.execute files compiled.unit state loader = (.ok events, state', loader')) :
      UnitRun c files unit w [.compile unit, .execute compiled.unit loader]
        (Outcome.report (c.diagnostics state') events)
        { w with state := state', loader := loader' }

/-- The steps of a unit.  Installing no classes changes nothing, so it does not matter that it is
left out. -/
theorem evaluate_run (c : Compiler σ υ) (files : FileTree) (unit : String) {w : Workspace σ}
    (hopen : w.closed = false) :
    (Workspace.evaluate c files unit).run w =
      match c.compile unit w.state with
      | (.error failure, state) => (.error (.compiler failure), { w with state := state })
      | (.ok compiled, state) =>
        match (Loader.install compiled.classes).run w.loader with
        | (.error error, loader) =>
          (.error (.classInstall error), { w with state := state, loader := loader })
        | (.ok _, loader) =>
          match c.execute files compiled.unit state loader with
          | (.error failure, state, loader) =>
            (.error (.compiler failure), { w with state := state, loader := loader })
          | (.ok events, state, loader) =>
            (.ok events, { w with state := state, loader := loader }) := by
  unfold Workspace.evaluate
  rw [run_bind_ok (requireOpen_run hopen)]
  cases hcompile : c.compile unit w.state with
  | mk result state =>
    have hcompiled : (Workspace.compile c unit).run w =
        (result.mapError .compiler, { w with state := state }) := by
      unfold Workspace.compile
      rw [run_bind_ok (run_get w), hcompile]
      cases result <;> rfl
    cases result with
    | error failure => exact run_bind_error hcompiled
    | ok compiled =>
      rw [run_bind_ok hcompiled]
      have hexecute (loader : Loader) :
          (Workspace.execute c files compiled.unit).run
              { w with state := state, loader := loader } =
            match c.execute files compiled.unit state loader with
            | (.error failure, state, loader) =>
              (.error (.compiler failure), { w with state := state, loader := loader })
            | (.ok events, state, loader) =>
              (.ok events, { w with state := state, loader := loader }) := by
        unfold Workspace.execute
        rw [run_bind_ok (run_get _)]
        cases c.execute files compiled.unit state loader with
        | mk result after => cases result <;> rfl
      cases hclasses : compiled.classes with
      | nil =>
        simp only [hclasses]
        exact hexecute w.loader
      | cons cls classes =>
        cases hinstall : (Loader.install compiled.classes).run w.loader with
        | mk result loader =>
          have hinstalled : (Workspace.install compiled.classes).run { w with state := state } =
              ((result.map fun _ => ()).mapError .classInstall,
                { w with state := state, loader := loader }) := by
            unfold Workspace.install
            rw [run_bind_ok (run_get _)]
            simp only [hinstall]
            cases result <;> rfl
          rw [hclasses] at hinstalled hinstall
          simp only [hclasses, hinstall]
          cases result with
          | error error => exact run_bind_error hinstalled
          | ok lives =>
            refine (run_bind_ok hinstalled).trans ?_
            exact hexecute loader

variable {c : Compiler σ υ} {files : FileTree} {unit : String} {w w' : Workspace σ}
  {requests : List (Request υ)} {result : Except EngineError (List Outcome)}

theorem exists_unitRun (c : Compiler σ υ) (files : FileTree) (unit : String) (w : Workspace σ) :
    ∃ requests result w', UnitRun c files unit w requests result w' := by
  cases hcompile : c.compile unit w.state with
  | mk compiled state =>
    cases compiled with
    | error failure => exact ⟨_, _, _, .notCompiled hcompile⟩
    | ok compiled =>
      cases hinstall : (Loader.install compiled.classes).run w.loader with
      | mk lives loader =>
        cases lives with
        | error error => exact ⟨_, _, _, .notInstalled hcompile hinstall⟩
        | ok lives =>
          cases hexecute : c.execute files compiled.unit state loader with
          | mk events after =>
            cases events with
            | error failure => exact ⟨_, _, _, .notExecuted hcompile hinstall hexecute⟩
            | ok events => exact ⟨_, _, _, .executed hcompile hinstall hexecute⟩

namespace UnitRun

theorem run (h : UnitRun c files unit w requests result w') (hopen : w.closed = false) :
    (runUnit c files unit).run w = (result, w') := by
  have hevaluate := evaluate_run c files unit hopen
  unfold runUnit
  cases h with
  | notCompiled hcompile =>
    simp only [hcompile] at hevaluate
    exact run_bind_error hevaluate
  | notInstalled hcompile hinstall =>
    simp only [hcompile, hinstall] at hevaluate
    exact run_bind_error hevaluate
  | notExecuted hcompile hinstall hexecute =>
    simp only [hcompile, hinstall, hexecute] at hevaluate
    exact run_bind_error hevaluate
  | executed hcompile hinstall hexecute =>
    simp only [hcompile, hinstall, hexecute] at hevaluate
    rw [run_bind_ok hevaluate, Outcome.ofEvents_run]

/-- Keeping a list changes nothing, and what is asked for is what is put on it. -/
theorem recording (h : UnitRun c files unit w requests result w') (before : List (Request υ)) :
    UnitRun c.recording files unit (w.withRequests before) requests result
      (w'.withRequests (before ++ requests)) := by
  cases h with
  | notCompiled hcompile =>
    exact .notCompiled (Compiler.compile_recording hcompile before)
  | notInstalled hcompile hinstall =>
    exact .notInstalled (w := w.withRequests before) (Compiler.compile_recording hcompile before)
      hinstall
  | notExecuted hcompile hinstall hexecute =>
    rw [List.append_cons]
    exact .notExecuted (Compiler.compile_recording hcompile before) hinstall
      (Compiler.execute_recording hexecute _)
  | executed hcompile hinstall hexecute =>
    rw [List.append_cons]
    exact .executed (c := c.recording) (Compiler.compile_recording hcompile before) hinstall
      (Compiler.execute_recording hexecute _)

/-- A unit is compiled once, and nothing else is. -/
theorem sources (h : UnitRun c files unit w requests result w') :
    requests.filterMap Request.source? = [unit] := by
  cases h <;> rfl

theorem closed (h : UnitRun c files unit w requests result w') : w'.closed = w.closed := by
  cases h <;> rfl

/-- No unit is refused because the workspace is closed. -/
theorem ne_closed {error : EngineError}
    (h : UnitRun c files unit w requests (.error error) w') : error ≠ .closed := by
  generalize hresult : Except.error error = result at h
  cases h with
  | executed =>
    obtain ⟨id, rfl⟩ := Outcome.report_error hresult.symm
    exact nofun
  | _ =>
    cases hresult
    exact nofun

end UnitRun

end Workspace

/-! ## A whole call -/

/-- One turn: the unit it takes, what it asks of the compiler, and its outcomes.  A turn that is
refused has none. -/
structure Turn (υ : Type) where
  unit : String
  requests : List (Request υ)
  outcomes : List Outcome

/-- Why a call takes no further turn. -/
inductive CallEnd where
  /-- There is no unit in what is left. -/
  | blank
  /-- What is left has to be typed on. -/
  | held (candidate : String)
  /-- The last unit could not be compiled, installed, run or told of. -/
  | refused (error : EngineError)
  /-- The last unit failed. -/
  | failed
  /-- Nothing is left behind the last unit. -/
  | exhausted

/-- The text that stays held. -/
def CallEnd.heldText : CallEnd → String
  | held candidate => candidate
  | _ => ""

/-- The rounds that a call takes after its last turn: one, if it has to look at what is left. -/
def CallEnd.rounds : CallEnd → Nat
  | blank | held _ => 1
  | _ => 0

/-- What a call gives, from the outcomes of its turns. -/
def CallEnd.answer (outcomes : List Outcome) : CallEnd → Except EngineError (List Outcome)
  | refused error => .error error
  | _ => .ok outcomes

theorem CallEnd.answer_append (outcomes later : List Outcome) (ending : CallEnd) :
    (ending.answer later).map (outcomes ++ ·) = ending.answer (outcomes ++ later) := by
  cases ending <;> rfl

open Workspace in
/-- The turns that a candidate is taken in, and the workspace behind the last of them. -/
inductive Turns (c : Compiler σ υ) (files : FileTree) :
    Workspace σ → String → List (Turn υ) → CallEnd → Workspace σ → Prop where
  | blank {w : Workspace σ} {candidate : String}
      (hnext : c.nextUnit w.state candidate = .empty) : Turns c files w candidate [] .blank w
  | held {w : Workspace σ} {candidate : String}
      (hnext : c.nextUnit w.state candidate = .incomplete) :
      Turns c files w candidate [] (.held candidate) w
  | refused {w w' : Workspace σ} {candidate unit rest : String} {requests : List (Request υ)}
      {error : EngineError} (hnext : c.nextUnit w.state candidate = .complete unit rest)
      (hunit : UnitRun c files unit w requests (.error error) w') :
      Turns c files w candidate [⟨unit, requests, []⟩] (.refused error) w'
  | failed {w w' : Workspace σ} {candidate unit rest : String} {requests : List (Request υ)}
      {outcomes : List Outcome} (hnext : c.nextUnit w.state candidate = .complete unit rest)
      (hunit : UnitRun c files unit w requests (.ok outcomes) w')
      (hfailed : outcomes.any Outcome.isFailure = true) :
      Turns c files w candidate [⟨unit, requests, outcomes⟩] .failed w'
  | exhausted {w w' : Workspace σ} {candidate unit : String} {requests : List (Request υ)}
      {outcomes : List Outcome} (hnext : c.nextUnit w.state candidate = .complete unit "")
      (hunit : UnitRun c files unit w requests (.ok outcomes) w')
      (hfine : outcomes.any Outcome.isFailure = false) :
      Turns c files w candidate [⟨unit, requests, outcomes⟩] .exhausted w'
  | next {w w' w'' : Workspace σ} {candidate unit rest : String} {requests : List (Request υ)}
      {outcomes : List Outcome} {turns : List (Turn υ)} {ending : CallEnd}
      (hnext : c.nextUnit w.state candidate = .complete unit rest)
      (hunit : UnitRun c files unit w requests (.ok outcomes) w')
      (hfine : outcomes.any Outcome.isFailure = false) (hrest : rest ≠ "")
      (hlater : Turns c files w' rest turns ending w'') :
      Turns c files w candidate (⟨unit, requests, outcomes⟩ :: turns) ending w''

namespace Turns

variable {c : Compiler σ υ} {files : FileTree} {candidate : String} {w w' : Workspace σ}
  {turns : List (Turn υ)} {ending : CallEnd}

theorem rounds_pos (h : Turns c files w candidate turns ending w') :
    0 < turns.length + ending.rounds := by
  cases h with
  | blank | held => exact Nat.one_pos
  | refused | failed | exhausted | next => simp only [List.length_cons]; omega

/-- A call does what its turns say, when it has the rounds for them. -/
theorem run (h : Turns c files w candidate turns ending w') (hopen : w.closed = false)
    {rounds : Nat} (hrounds : turns.length + ending.rounds ≤ rounds) :
    (Evaluator.runUnits c files rounds candidate).run ⟨w, {}⟩ =
      (ending.answer (turns.flatMap Turn.outcomes), ⟨w', ⟨ending.heldText⟩⟩) := by
  obtain ⟨rounds, rfl⟩ : ∃ n, rounds = n + 1 := ⟨rounds - 1, by have := h.rounds_pos; omega⟩
  induction h generalizing rounds with
  | blank hnext => exact Evaluator.runUnits_empty rounds hopen hnext
  | held hnext => exact Evaluator.runUnits_incomplete rounds hopen hnext
  | refused hnext hunit =>
    exact Evaluator.runUnits_complete (e := ⟨_, {}⟩) rounds hopen hnext (hunit.run hopen)
  | failed hnext hunit hfailed =>
    rw [Evaluator.runUnits_complete (e := ⟨_, {}⟩) rounds hopen hnext (hunit.run hopen)]
    simp [hfailed, CallEnd.answer, CallEnd.heldText]
  | exhausted hnext hunit hfine =>
    rw [Evaluator.runUnits_complete (e := ⟨_, {}⟩) rounds hopen hnext (hunit.run hopen)]
    simp [CallEnd.answer, CallEnd.heldText]
  | next hnext hunit hfine hrest hlater ih =>
    have hpos := hlater.rounds_pos
    rw [List.length_cons] at hrounds
    obtain ⟨rounds, rfl⟩ : ∃ n, rounds = n + 1 := ⟨rounds - 1, by omega⟩
    have hrun := ih (hunit.closed.trans hopen) rounds (by omega)
    rw [Evaluator.runUnits_complete (e := ⟨_, {}⟩) _ hopen hnext (hunit.run hopen)]
    simp only [hfine, hrest, hrun, String.isEmpty_iff, Bool.false_or, if_false]
    rw [CallEnd.answer_append]
    rfl

/-- Keeping a list changes nothing, and what is asked for is what is put on it. -/
theorem recording (h : Turns c files w candidate turns ending w') (before : List (Request υ)) :
    Turns c.recording files (w.withRequests before) candidate turns ending
      (w'.withRequests (before ++ turns.flatMap Turn.requests)) := by
  induction h generalizing before with
  | @blank w candidate hnext =>
    rw [List.flatMap_nil, List.append_nil]
    exact .blank (w := w.withRequests before) hnext
  | @held w candidate hnext =>
    rw [List.flatMap_nil, List.append_nil]
    exact .held (w := w.withRequests before) hnext
  | @refused w _ _ _ _ _ _ hnext hunit =>
    rw [List.flatMap_singleton]
    exact .refused (w := w.withRequests before) hnext (hunit.recording before)
  | @failed w _ _ _ _ _ _ hnext hunit hfailed =>
    rw [List.flatMap_singleton]
    exact .failed (w := w.withRequests before) hnext (hunit.recording before) hfailed
  | @exhausted w _ _ _ _ _ hnext hunit hfine =>
    rw [List.flatMap_singleton]
    exact .exhausted (w := w.withRequests before) hnext (hunit.recording before) hfine
  | @next w _ _ _ _ _ requests _ _ _ hnext hunit hfine hrest _ ih =>
    have hlater := ih (before ++ requests)
    rw [List.append_assoc] at hlater
    exact .next (w := w.withRequests before) hnext (hunit.recording before) hfine hrest hlater

/-- Every unit is compiled once, in order, and nothing else is. -/
theorem sources (h : Turns c files w candidate turns ending w') :
    (turns.flatMap Turn.requests).filterMap Request.source? = turns.map Turn.unit := by
  induction h with
  | blank | held => rfl
  | refused hnext hunit | failed hnext hunit | exhausted hnext hunit => simp [hunit.sources]
  | next hnext hunit hfine hrest hlater ih => simp [hunit.sources, ih]

theorem closed (h : Turns c files w candidate turns ending w') : w'.closed = w.closed := by
  induction h with
  | blank | held => rfl
  | refused _ hunit | failed _ hunit | exhausted _ hunit => exact hunit.closed
  | next _ hunit _ _ _ ih => exact ih.trans hunit.closed

theorem ne_closed {error : EngineError} (h : Turns c files w candidate turns ending w')
    (hending : ending = .refused error) : error ≠ .closed := by
  induction h with
  | refused _ hunit =>
    cases hending
    exact hunit.ne_closed
  | next _ _ _ _ _ ih => exact ih hending
  | _ => cases hending

end Turns

/-- A call takes no turn or one and is over, or takes one and goes on. -/
theorem turns_or_next (c : Compiler σ υ) (files : FileTree) (candidate : String)
    (w : Workspace σ) :
    (∃ turns ending w', Turns c files w candidate turns ending w' ∧
      turns.length + ending.rounds = 1) ∨
    ∃ unit rest requests outcomes w', c.nextUnit w.state candidate = .complete unit rest ∧
      Workspace.UnitRun c files unit w requests (.ok outcomes) w' ∧
      outcomes.any Outcome.isFailure = false ∧ rest ≠ "" := by
  cases hnext : c.nextUnit w.state candidate with
  | empty => exact .inl ⟨_, _, _, .blank hnext, rfl⟩
  | incomplete => exact .inl ⟨_, _, _, .held hnext, rfl⟩
  | complete unit rest =>
    obtain ⟨requests, result, w', hunit⟩ := Workspace.exists_unitRun c files unit w
    cases result with
    | error error => exact .inl ⟨_, _, _, .refused hnext hunit, rfl⟩
    | ok outcomes =>
      cases hfailed : outcomes.any Outcome.isFailure with
      | true => exact .inl ⟨_, _, _, .failed hnext hunit hfailed, rfl⟩
      | false =>
        by_cases hrest : rest = ""
        · subst hrest
          exact .inl ⟨_, _, _, .exhausted hnext hunit hfailed, rfl⟩
        · exact .inr ⟨_, _, _, _, _, rfl, hunit, hfailed, hrest⟩

/-- A call that comes to an end takes turns that it has the rounds for. -/
theorem exists_turns (c : Compiler σ υ) (files : FileTree) (rounds : Nat) (candidate : String)
    {w : Workspace σ} (hopen : w.closed = false)
    (hreturns : ((Evaluator.runUnits c files rounds candidate).run ⟨w, {}⟩).1 ≠
      .error .unfinished) :
    ∃ turns ending w', Turns c files w candidate turns ending w' ∧
      turns.length + ending.rounds ≤ rounds := by
  induction rounds generalizing candidate w with
  | zero => exact absurd rfl hreturns
  | succ rounds ih =>
    rcases turns_or_next c files candidate w with
      ⟨turns, ending, w', hturns, hone⟩ | ⟨unit, rest, _, _, w', hnext, hunit, hfine, hrest⟩
    · exact ⟨turns, ending, w', hturns, by omega⟩
    · have hlater : ((Evaluator.runUnits c files rounds rest).run ⟨w', {}⟩).1 ≠
          .error .unfinished := by
        intro h
        rw [Evaluator.runUnits_complete (e := ⟨_, {}⟩) _ hopen hnext (hunit.run hopen)] at hreturns
        simp [hfine, hrest, h, Except.map] at hreturns
      obtain ⟨turns, ending, w'', hturns, hrounds⟩ := ih rest (hunit.closed.trans hopen) hlater
      refine ⟨_, _, _, .next hnext hunit hfine hrest hturns, ?_⟩
      rw [List.length_cons]
      omega

/-! ## Compilers that take text away -/

/-- What is left behind a unit is shorter than what the unit was taken from. -/
def Compiler.TakesText (c : Compiler σ υ) : Prop :=
  ∀ s candidate unit rest, c.nextUnit s candidate = .complete unit rest →
    rest.length < candidate.length

theorem Turns.rounds_le {c : Compiler σ υ} (hc : c.TakesText) {files : FileTree}
    {candidate : String} {w w' : Workspace σ} {turns : List (Turn υ)} {ending : CallEnd}
    (h : Turns c files w candidate turns ending w') :
    turns.length + ending.rounds ≤ candidate.length + 1 := by
  induction h with
  | blank | held => exact Nat.le_add_left 1 _
  | refused | failed | exhausted => exact Nat.le_add_left 1 _
  | next hnext _ _ _ _ ih =>
    have hshorter := hc _ _ _ _ hnext
    rw [List.length_cons]
    omega

theorem exists_turns_of_takesText {c : Compiler σ υ} (hc : c.TakesText) (files : FileTree)
    (candidate : String) (w : Workspace σ) :
    ∃ turns ending w', Turns c files w candidate turns ending w' := by
  induction hlength : candidate.length using Nat.strongRecOn generalizing candidate w with
  | _ length ih =>
    rcases turns_or_next c files candidate w with
      ⟨turns, ending, w', hturns, -⟩ | ⟨unit, rest, _, _, w', hnext, hunit, hfine, hrest⟩
    · exact ⟨turns, ending, w', hturns⟩
    · obtain ⟨turns, ending, w'', hturns⟩ :=
        ih rest.length (hlength ▸ hc _ _ _ _ hnext) rest w' rfl
      exact ⟨_, _, _, .next hnext hunit hfine hrest hturns⟩

end ReplEngine
