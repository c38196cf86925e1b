import Mathlib
import ReplEngine.Proofs.Engine.Turns
import ReplEngine.Engine.Scripted
set_option autoImplicit false

/-!
# What a call answers

`answers_in_turns` puts together what a call does: the turns it takes, what it asks of the
compiler on the way, the text it holds afterwards and the text it shows.
-/

namespace ReplEngine

open Reading

variable {σ υ : Type}

/-! ## The text shown -/

namespace Outcome

/-- The outcome that speaks for a call: its first failure, or its last outcome when nothing
failed. -/
inductive Decides : List Outcome → Outcome → Prop where
  | failure {before after : List Outcome} {outcome : Outcome}
      (hfine : ∀ earlier ∈ before, earlier.isFailure = false)
      (hfailed : outcome.isFailure = true) : Decides (before ++ outcome :: after) outcome
  | last {before : List Outcome} {outcome : Outcome}
      (hfine : ∀ o ∈ before ++ [outcome], o.isFailure = false) :
      Decides (before ++ [outcome]) outcome

theorem decides_iff {outcomes : List Outcome} {outcome : Outcome} :
    Decides outcomes outcome ↔
      (outcomes.find? isFailure).or outcomes.getLast? = some outcome := by
  constructor
  · intro h
    cases h with
    | @failure before after _ hfine hfailed =>
      have hfind : (before ++ outcome :: after).find? isFailure = some outcome :=
        List.find?_eq_some_iff_append.mpr ⟨hfailed, _, _, rfl, fun o ho => by simp [hfine o ho]⟩
      rw [hfind]
      rfl
    | last hfine =>
      rw [List.find?_eq_none.mpr fun o ho => by simp [hfine o ho], List.getLast?_concat]
      rfl
  · intro h
    cases hfind : outcomes.find? isFailure with
    | some found =>
      rw [hfind, Option.some_or, Option.some.injEq] at h
      subst h
      obtain ⟨hfailed, before, after, rfl, hfine⟩ := List.find?_eq_some_iff_append.mp hfind
      exact .failure (fun o ho => by simpa using hfine o ho) hfailed
    | none =>
      rw [hfind, Option.none_or] at h
      obtain ⟨before, rfl⟩ := List.getLast?_eq_some_iff.mp h
      exact .last fun o ho => by simpa using List.find?_eq_none.mp hfind o ho

/-- What a call shows for its outcomes. -/
structure Shown (host : HostRegistry) (outcomes : List Outcome) (text : Option String) : Prop where
  of_some : ∀ shown, text = some shown →
    shown ≠ "" ∧ ∃ outcome, Decides outcomes outcome ∧ outcome.render host = shown
  eq_none_iff : text = none ↔
    outcomes = [] ∨ ∃ outcome, Decides outcomes outcome ∧ outcome.render host = ""

theorem shown_renderAll (host : HostRegistry) (outcomes : List Outcome) :
    Shown host outcomes ((renderAll host outcomes).filter (!·.isEmpty)) := by
  unfold renderAll
  cases hdecides : (outcomes.find? isFailure).or outcomes.getLast? with
  | none =>
    have hempty : outcomes = [] :=
      List.getLast?_eq_none_iff.mp (Option.or_eq_none_iff.mp hdecides).2
    exact ⟨nofun, by simp [hempty]⟩
  | some outcome =>
    have hdecide := decides_iff.mpr hdecides
    have hne : outcomes ≠ [] := by
      rintro rfl
      nomatch hdecides
    have honly : ∀ other, Decides outcomes other → other = outcome := by
      intro other h
      rw [decides_iff, hdecides] at h
      exact (Option.some.inj h).symm
    refine ⟨fun shown h => ?_, ?_⟩
    · simp only [Option.map_some, Option.filter_eq_some_iff, Option.some.injEq] at h
      obtain ⟨rfl, hshown⟩ := h
      exact ⟨by simpa using hshown, outcome, hdecide, rfl⟩
    · simp only [Option.map_some, Option.filter_eq_none_iff]
      constructor
      · intro h
        exact .inr ⟨outcome, hdecide, by simpa using h⟩
      · rintro (h | ⟨other, hother, hempty⟩)
        · exact absurd h hne
        · rw [honly other hother] at hempty
          simp [hempty]

end Outcome

/-! ## The call -/

namespace Evaluator

/-- The evaluator of a compiler that keeps a list. -/
def withRequests (e : Evaluator σ) (requests : List (Request υ)) :
    Evaluator (σ × List (Request υ)) :=
  ⟨e.workspace.withRequests requests, e.pending⟩

/-- A call works on the text held with the input behind it, and nothing stays held meanwhile. -/
theorem evaluateWithin_run (c : Compiler σ υ) (files : FileTree) (rounds : Nat) (input : String)
    (e : Evaluator σ) :
    (evaluateWithin c files rounds input).run e =
      (runUnits c files rounds (e.pending.text ++ input)).run ⟨e.workspace, {}⟩ := rfl

/-- Outcomes are those of a call with one round more than there are characters. -/
theorem evaluateOutcomes_run (c : Compiler σ υ) (files : FileTree) (input : String)
    (e : Evaluator σ) :
    (evaluateOutcomes c files input).run e =
      (evaluateWithin c files ((e.pending.text ++ input).length + 1) input).run e := by
  unfold evaluateOutcomes
  rw [run_bind_ok (run_get e)]

/-- An evaluator that is open takes every turn that there is to take, if units take text away. -/
theorem evaluateOutcomes_turns {c : Compiler σ υ} (hc : c.TakesText) {files : FileTree}
    {e : Evaluator σ} {input : String} {w : Workspace σ} {turns : List (Turn υ)}
    {ending : CallEnd} (h : Turns c files e.workspace (e.pending.text ++ input) turns ending w)
    (hopen : e.isClosed = false) :
    (evaluateOutcomes c files input).run e =
      (ending.answer (turns.flatMap Turn.outcomes), ⟨w, ⟨ending.heldText⟩⟩) := by
  rw [evaluateOutcomes_run, evaluateWithin_run]
  exact h.run hopen (h.rounds_le hc)

theorem answerWithin_run (c : Compiler σ υ) (files : FileTree) (rounds : Nat) (input : String)
    (e : Evaluator σ) :
    (answerWithin c files rounds input).run e =
      (((evaluateWithin c files rounds input).run e).1.map fun outcomes =>
        (Outcome.renderAll ((evaluateWithin c files rounds input).run e).2.workspace.loader.host
          outcomes).filter (!·.isEmpty),
        ((evaluateWithin c files rounds input).run e).2) := by
  unfold answerWithin
  cases hrun : (evaluateWithin c files rounds input).run e with
  | mk result e' =>
    cases result with
    | error error => exact run_bind_error hrun
    | ok outcomes =>
      rw [run_bind_ok hrun, run_bind_ok (run_get e')]
      rfl

/-- An answer is the text for the outcomes, and does nothing more. -/
theorem evaluate_run (c : Compiler σ υ) (files : FileTree) (input : String) (e : Evaluator σ) :
    (evaluate c files input).run e =
      (((evaluateOutcomes c files input).run e).1.map fun outcomes =>
        (Outcome.renderAll ((evaluateOutcomes c files input).run e).2.workspace.loader.host
          outcomes).filter (!·.isEmpty),
        ((evaluateOutcomes c files input).run e).2) := by
  rw [evaluateOutcomes_run, ← answerWithin_run]
  unfold evaluate
  rw [run_bind_ok (run_get e)]

theorem isClosed_close (c : Compiler σ υ) (e : Evaluator σ) : (e.close c).isClosed = true := by
  show (e.workspace.close c).closed = true
  unfold Workspace.close
  split
  · assumption
  · rfl

/-- A call with as many rounds as it needs, over any compiler, whose requests are put on a list.
An open evaluator takes turns: every unit is split off what the one before it left, compiled
once, installed and then run, and no unit follows one that failed or was refused.  What the call
gives, asks for and holds is what the turns say.  A closed evaluator refuses and asks for
nothing.  The text shown is that of the outcome that decides. -/
theorem answers_in_turns (c : Compiler σ υ) (files : FileTree) (rounds : Nat) (input : String)
    (e : Evaluator σ) (before : List (Request υ))
    (hreturns : ((evaluateWithin c files rounds input).run e).1 ≠ .error .unfinished) :
    (e.isClosed = false → ∃ turns ending w,
      Turns c files e.workspace (e.pending.text ++ input) turns ending w ∧
      (turns.flatMap Turn.requests).filterMap Request.source? = turns.map Turn.unit ∧
      (evaluateWithin c files rounds input).run e =
        (ending.answer (turns.flatMap Turn.outcomes), ⟨w, ⟨ending.heldText⟩⟩) ∧
      (evaluateWithin c.recording files rounds input).run (e.withRequests before) =
        (ending.answer (turns.flatMap Turn.outcomes),
          ⟨w.withRequests (before ++ turns.flatMap Turn.requests), ⟨ending.heldText⟩⟩)) ∧
    (e.isClosed = true →
      (evaluateWithin c files rounds input).run e = (.error .closed, ⟨e.workspace, ⟨""⟩⟩) ∧
      (evaluateWithin c.recording files rounds input).run (e.withRequests before) =
        (.error .closed, ⟨e.workspace.withRequests before, ⟨""⟩⟩)) ∧
    (∀ result e', (evaluateWithin c files rounds input).run e = (result, e') →
      match result with
      | .error error => (answerWithin c files rounds input).run e = (.error error, e')
      | .ok outcomes => ∃ text, (answerWithin c files rounds input).run e = (.ok text, e') ∧
        Outcome.Shown e'.workspace.loader.host outcomes text) ∧
    (e.close c).isClosed = true ∧ (e.close c).pending.text = "" := by
  rw [evaluateWithin_run] at hreturns
  refine ⟨fun hopen => ?_, fun hclosed => ?_, fun result e' hrun => ?_, isClosed_close c e, rfl⟩
  · obtain ⟨turns, ending, w, hturns, hrounds⟩ :=
      exists_turns c files rounds (e.pending.text ++ input) hopen hreturns
    exact ⟨turns, ending, w, hturns, hturns.sources, hturns.run hopen hrounds,
      (hturns.recording before).run hopen hrounds⟩
  · cases rounds with
    | zero => exact absurd rfl hreturns
    | succ rounds =>
      exact ⟨runUnits_closed (e := ⟨e.workspace, {}⟩) rounds _ hclosed,
        runUnits_closed (e := ⟨e.workspace.withRequests before, {}⟩) rounds _ hclosed⟩
  · have hanswer := answerWithin_run c files rounds input e
    rw [hrun] at hanswer
    cases result with
    | error error => exact hanswer
    | ok outcomes => exact ⟨_, hanswer, Outcome.shown_renderAll _ _⟩

/-- An evaluator that follows a script. -/
def scripted (script : Table Scripted.Entry) : Evaluator Scripted.State :=
  ⟨.ofCompiler Scripted.compiler { script := script } .empty, {}⟩

/-- A script whose second unit throws. -/
def throwingScript (thrown : Descriptor) : Table Scripted.Entry :=
  ⟨[("a", { events := [(.method, "a", .valid none)] }),
    ("b", { events := [(.statement, "b", .threw thrown)] })]⟩

/-- The unit behind the one that throws is not asked for. -/
theorem answers_in_turns_throwing :
    ∃ thrown turns ending w,
      ((evaluateWithin Scripted.compiler {} 3 "a;b;c").run (scripted (throwingScript thrown))).1 =
        .ok [.method "a", .failure thrown] ∧
      Turns Scripted.compiler {} (scripted (throwingScript thrown)).workspace "a;b;c" turns ending
        w ∧
      (turns.flatMap Turn.requests).filterMap Request.source? = turns.map Turn.unit ∧
      ending.answer (turns.flatMap Turn.outcomes) = .ok [.method "a", .failure thrown] := by
  have hrun : ((evaluateWithin Scripted.compiler {} 3 "a;b;c").run
      (scripted (throwingScript default))).1 = .ok [.method "a", .failure default] := by cbv
  have hreturns : ((evaluateWithin Scripted.compiler {} 3 "a;b;c").run
      (scripted (throwingScript default))).1 ≠ .error .unfinished := by
    rw [hrun]
    intro hunfinished
    cases hunfinished
  obtain ⟨turns, ending, w, hturns, hsources, hanswer, -⟩ :=
    (answers_in_turns Scripted.compiler {} 3 "a;b;c" (scripted (throwingScript default)) []
      hreturns).1 rfl
  refine ⟨default, turns, ending, w, hrun, hturns, hsources, ?_⟩
  rw [hanswer] at hrun
  exact hrun

end Evaluator

end ReplEngine
