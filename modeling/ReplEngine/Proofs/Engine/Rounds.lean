import ReplEngine.Engine.Evaluator
import ReplEngine.Proofs.Reading
set_option autoImplicit false

/-!
# One round of the evaluation loop

What a round does is decided by how the candidate starts: `runUnits_closed`, `runUnits_empty`,
`runUnits_incomplete` and `runUnits_complete` are the cases.  Nothing else of the loop is looked
into elsewhere.
-/

namespace ReplEngine

open Reading

variable {σ υ : Type}

namespace Outcome

/-- The outcome of an event, given what is on record about rejected snippets. -/
def reportOne (diagnostics : Snippet → List Diag) (event : Event) :
    Except EngineError (Option Outcome) :=
  match event.result with
  | .threw exception => .ok (some (.failure exception))
  | .rejected =>
    match diagnostics event.snippet with
    | [] => .error (.missingDiagnostics event.snippet.id)
    | diags => .ok (some (.rejected event.snippet.source diags))
  | .valid text => .ok (ofValid event.snippet text)

/-- The outcomes of events, in order, up to the first rejection without a diagnostic. -/
def report (diagnostics : Snippet → List Diag) : List Event → Except EngineError (List Outcome)
  | [] => .ok []
  | event :: events => do
    let outcome ← reportOne diagnostics event
    let later ← report diagnostics events
    return outcome.toList ++ later

theorem ofEvent_run (c : Compiler σ υ) (event : Event) (w : Workspace σ) :
    (ofEvent c event).run w = (reportOne (c.diagnostics w.state) event, w) := by
  obtain ⟨snippet, result⟩ := event
  cases result with
  | threw exception => rfl
  | valid text => rfl
  | rejected =>
    have hfound : (Workspace.diagnosticsFor c snippet).run w =
        (match c.diagnostics w.state snippet with
          | [] => .error (.missingDiagnostics snippet.id)
          | diags => .ok diags, w) := by
      unfold Workspace.diagnosticsFor
      rw [run_bind_ok (run_get w)]
      cases c.diagnostics w.state snippet <;> rfl
    unfold ofEvent reportOne
    simp only
    cases hdiags : c.diagnostics w.state snippet with
    | nil =>
      rw [hdiags] at hfound
      exact run_bind_error hfound
    | cons diag diags =>
      rw [hdiags] at hfound
      exact run_bind_ok hfound

/-- Reading outcomes off events changes nothing. -/
theorem ofEvents_run (c : Compiler σ υ) (events : List Event) (w : Workspace σ) :
    (ofEvents c events).run w = (report (c.diagnostics w.state) events, w) := by
  induction events with
  | nil => rfl
  | cons event events ih =>
    unfold ofEvents report
    have hone := ofEvent_run c event w
    cases hresult : reportOne (c.diagnostics w.state) event with
    | error e =>
      rw [hresult] at hone
      exact run_bind_error hone
    | ok outcome =>
      rw [hresult] at hone
      rw [run_bind_ok hone]
      cases hlater : report (c.diagnostics w.state) events with
      | error e =>
        rw [hlater] at ih
        exact run_bind_error ih
      | ok later =>
        rw [hlater] at ih
        rw [run_bind_ok ih]
        rfl

/-- The only thing that can be wrong with events is a rejection that nothing is on record for. -/
theorem report_error {diagnostics : Snippet → List Diag} {events : List Event}
    {error : EngineError} (h : report diagnostics events = .error error) :
    ∃ id, error = .missingDiagnostics id := by
  induction events with
  | nil => cases h
  | cons event events ih =>
    unfold report at h
    cases hone : reportOne diagnostics event with
    | error e =>
      rw [hone] at h
      cases h
      unfold reportOne at hone
      split at hone
      · cases hone
      · split at hone
        · cases hone
          exact ⟨_, rfl⟩
        · cases hone
      · cases hone
    | ok outcome =>
      rw [hone] at h
      cases hlater : report diagnostics events with
      | error e =>
        rw [hlater] at h
        cases h
        exact ih hlater
      | ok later =>
        rw [hlater] at h
        cases h

end Outcome

/-- Compiles, installs and runs one unit, and says what it did. -/
def Workspace.runUnit (c : Compiler σ υ) (files : FileTree) (unit : String) :
    WorkspaceM σ (List Outcome) := do
  let events ← Workspace.evaluate c files unit
  Outcome.ofEvents c events

theorem Workspace.requireOpen_run {w : Workspace σ} (hopen : w.closed = false) :
    requireOpen.run w = (.ok (), w) := by
  unfold requireOpen
  rw [run_bind_ok (run_get w), hopen]
  rfl

theorem Workspace.requireOpen_closed {w : Workspace σ} (hclosed : w.closed = true) :
    requireOpen.run w = (.error .closed, w) := by
  unfold requireOpen
  rw [run_bind_ok (run_get w), hclosed]
  rfl

theorem Workspace.classify_run (c : Compiler σ υ) (text : String) {w : Workspace σ}
    (hopen : w.closed = false) :
    (Workspace.classify c text).run w = (.ok (c.nextUnit w.state text), w) := by
  unfold classify
  rw [run_bind_ok (requireOpen_run hopen), run_bind_ok (run_get w)]
  rfl

theorem Workspace.classify_closed (c : Compiler σ υ) (text : String) {w : Workspace σ}
    (hclosed : w.closed = true) :
    (Workspace.classify c text).run w = (.error .closed, w) :=
  run_bind_error (requireOpen_closed hclosed)

namespace Evaluator

variable {c : Compiler σ υ} {files : FileTree} {e : Evaluator σ}

theorem onWorkspace_run {α : Type} (act : WorkspaceM σ α) (e : Evaluator σ) :
    (onWorkspace act).run e =
      ((act.run e.workspace).1, { e with workspace := (act.run e.workspace).2 }) := by
  unfold onWorkspace
  rw [run_bind_ok (run_get e)]
  cases hrun : act.run e.workspace with
  | mk result w => cases result <;> rfl

theorem runUnits_closed (rounds : Nat) (candidate : String) (h : e.isClosed = true) :
    (runUnits c files (rounds + 1) candidate).run e = (.error .closed, e) := by
  have hrun := onWorkspace_run (Workspace.classify c candidate) e
  rw [Workspace.classify_closed c candidate h] at hrun
  exact run_bind_error hrun

theorem runUnits_empty (rounds : Nat) {candidate : String} (hopen : e.isClosed = false)
    (h : c.nextUnit e.workspace.state candidate = .empty) :
    (runUnits c files (rounds + 1) candidate).run e = (.ok [], e) := by
  have hrun := onWorkspace_run (Workspace.classify c candidate) e
  rw [Workspace.classify_run c candidate hopen, h] at hrun
  rw [runUnits]
  rw [run_bind_ok hrun]
  rfl

theorem runUnits_incomplete (rounds : Nat) {candidate : String} (hopen : e.isClosed = false)
    (h : c.nextUnit e.workspace.state candidate = .incomplete) :
    (runUnits c files (rounds + 1) candidate).run e =
      (.ok [], { e with pending := ⟨candidate⟩ }) := by
  have hrun := onWorkspace_run (Workspace.classify c candidate) e
  rw [Workspace.classify_run c candidate hopen, h] at hrun
  rw [runUnits]
  rw [run_bind_ok hrun]
  rfl

/-- A complete unit is run; what comes behind it is gone on with unless it failed or was the
last. -/
theorem runUnits_complete (rounds : Nat) {candidate unit rest : String}
    (hopen : e.isClosed = false)
    (h : c.nextUnit e.workspace.state candidate = .complete unit rest) {w : Workspace σ}
    {result : Except EngineError (List Outcome)}
    (hunit : (Workspace.runUnit c files unit).run e.workspace = (result, w)) :
    (runUnits c files (rounds + 1) candidate).run e =
      match result with
      | .error err => (.error err, { e with workspace := w })
      | .ok outcomes =>
        if outcomes.any Outcome.isFailure || rest.isEmpty then
          (.ok outcomes, { e with workspace := w })
        else
          let later := (runUnits c files rounds rest).run { e with workspace := w }
          (later.1.map (outcomes ++ ·), later.2) := by
  have hclassify := onWorkspace_run (Workspace.classify c candidate) e
  rw [Workspace.classify_run c candidate hopen, h] at hclassify
  rw [runUnits]
  rw [run_bind_ok hclassify]
  have hevaluate := onWorkspace_run (Workspace.evaluate c files unit) e
  unfold Workspace.runUnit at hunit
  cases hevents : (Workspace.evaluate c files unit).run e.workspace with
  | mk evaluated w' =>
    rw [hevents] at hevaluate
    cases evaluated with
    | error err =>
      rw [run_bind_error hevents] at hunit
      cases hunit
      exact run_bind_error hevaluate
    | ok events =>
      rw [run_bind_ok hevents] at hunit
      have hreport := onWorkspace_run (Outcome.ofEvents c events) { e with workspace := w' }
      rw [hunit] at hreport
      simp only
      rw [run_bind_ok hevaluate]
      cases result with
      | error err => exact run_bind_error hreport
      | ok outcomes =>
        rw [run_bind_ok hreport]
        simp only
        split
        · rfl
        · cases hlater : (runUnits c files rounds rest).run { e with workspace := w } with
          | mk later e' =>
            cases later with
            | error err => exact run_bind_error hlater
            | ok later => exact run_bind_ok hlater

end Evaluator

end ReplEngine
