import ReplEngine.Proofs.Engine.Answers
set_option autoImplicit false

/-!
# How often a compiler is closed

A compiler can count how often it is closed.  Counting changes nothing else; no call closes the
compiler, whatever its units are, and closing an evaluator does so once.
-/

namespace ReplEngine

variable {σ υ : Type}

/-- A compiler that counts how often it is closed. -/
def Compiler.counting (c : Compiler σ υ) : Compiler (σ × Nat) υ where
  nextUnit s text := c.nextUnit s.1 text
  compile source s :=
    let (result, state) := c.compile source s.1
    (result, state, s.2)
  execute files unit s loader :=
    let (result, state, after) := c.execute files unit s.1 loader
    (result, (state, s.2), after)
  diagnostics s snippet := c.diagnostics s.1 snippet
  definer := c.definer
  close s := (c.close s.1, s.2 + 1)

/-- The workspace of a compiler that counts. -/
def Workspace.withCount (w : Workspace σ) (count : Nat) : Workspace (σ × Nat) :=
  { state := (w.state, count), loader := w.loader, closed := w.closed }

/-- The evaluator of a compiler that counts. -/
def Evaluator.withCount (e : Evaluator σ) (count : Nat) : Evaluator (σ × Nat) :=
  ⟨e.workspace.withCount count, e.pending⟩

/-- The number that has been counted. -/
def Evaluator.count (e : Evaluator (σ × Nat)) : Nat := e.workspace.state.2

variable {c : Compiler σ υ} {files : FileTree}

theorem Compiler.TakesText.counting (hc : c.TakesText) : c.counting.TakesText :=
  fun s candidate unit rest h => hc s.1 candidate unit rest h

namespace Compiler

theorem compile_counting {unit : String} {s s' : σ} {result : Except CompilerFailure (Compiled υ)}
    (h : c.compile unit s = (result, s')) (count : Nat) :
    c.counting.compile unit (s, count) = (result, s', count) := by
  simp only [counting, h]

theorem execute_counting {unit : υ} {s s' : σ} {loader loader' : Loader}
    {result : Except CompilerFailure (List Event)}
    (h : c.execute files unit s loader = (result, s', loader')) (count : Nat) :
    c.counting.execute files unit (s, count) loader = (result, (s', count), loader') := by
  simp only [counting, h]

end Compiler

/-- No unit closes the compiler. -/
theorem Workspace.UnitRun.counting {unit : String} {w w' : Workspace σ}
    {requests : List (Request υ)} {result : Except EngineError (List Outcome)}
    (h : UnitRun c files unit w requests result w') (count : Nat) :
    UnitRun c.counting files unit (w.withCount count) requests result (w'.withCount count) := by
  cases h with
  | notCompiled hcompile => exact .notCompiled (Compiler.compile_counting hcompile count)
  | notInstalled hcompile hinstall =>
    exact .notInstalled (w := w.withCount count) (Compiler.compile_counting hcompile count) hinstall
  | notExecuted hcompile hinstall hexecute =>
    exact .notExecuted (Compiler.compile_counting hcompile count) hinstall
      (Compiler.execute_counting hexecute count)
  | executed hcompile hinstall hexecute =>
    exact .executed (c := c.counting) (Compiler.compile_counting hcompile count) hinstall
      (Compiler.execute_counting hexecute count)

/-- No turn closes the compiler. -/
theorem Turns.counting {candidate : String} {w w' : Workspace σ} {turns : List (Turn υ)}
    {ending : CallEnd} (h : Turns c files w candidate turns ending w') (count : Nat) :
    Turns c.counting files (w.withCount count) candidate turns ending (w'.withCount count) := by
  induction h with
  | @blank w candidate hnext => exact .blank (w := w.withCount count) hnext
  | @held w candidate hnext => exact .held (w := w.withCount count) hnext
  | @refused w _ _ _ _ _ _ hnext hunit =>
    exact .refused (w := w.withCount count) hnext (hunit.counting count)
  | @failed w _ _ _ _ _ _ hnext hunit hfailed =>
    exact .failed (w := w.withCount count) hnext (hunit.counting count) hfailed
  | @exhausted w _ _ _ _ _ hnext hunit hfine =>
    exact .exhausted (w := w.withCount count) hnext (hunit.counting count) hfine
  | @next w _ _ _ _ _ _ _ _ _ hnext hunit hfine hrest _ ih =>
    exact .next (w := w.withCount count) hnext (hunit.counting count) hfine hrest ih

namespace Evaluator

end Evaluator

end ReplEngine
