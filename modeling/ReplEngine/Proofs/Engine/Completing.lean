import ReplEngine.Proofs.Engine.HeldInput
import ReplEngine.Proofs.Engine.Sessions
import ReplEngine.Proofs.Splitter.Completing
set_option autoImplicit false

/-!
# Held text can be completed

What an evaluator holds is an incomplete source (`InUse.pending_incomplete`), and every incomplete
source has a continuation that makes it complete (`exists_completion`).  So there is always an
input that the evaluator holds nothing behind: `held_text_completable`.
-/

namespace ReplEngine.Language

open Text

variable {host : HostRegistry}

/-! ## What is held -/

/-- A call holds a source only because it is incomplete. -/
theorem incomplete_of_held {files : FileTree} {w w' : Workspace SessionState} {candidate : String}
    {turns : List (Turn SnippetUnit)} {ending : CallEnd}
    (h : Turns snippetCompiler files w candidate turns ending w') :
    ending.heldText = "" ∨ nextUnit ending.heldText = .incomplete := by
  induction h with
  | held hnext => exact .inr hnext
  | next _ _ _ _ _ ih => exact ih
  | _ => exact .inl rfl

theorem InUse.pending_incomplete {e : Evaluator SessionState} (h : InUse host e) :
    e.pending.text = "" ∨ nextUnit e.pending.text = .incomplete := by
  induction h with
  | created h =>
    obtain ⟨w, -, rfl⟩ := exists_addRoots_of_create h
    exact .inl rfl
  | @evaluated e _ files input _ _ =>
    cases hopen : e.isClosed with
    | true =>
      rw [evaluateOutcomes_closed files input hopen]
      exact .inl rfl
    | false =>
      obtain ⟨turns, ending, w, hturns⟩ := exists_turns_of_takesText snippetCompiler_takesText
        files (e.pending.text ++ input) e.workspace
      rw [evaluateOutcomes_turns hturns hopen]
      exact incomplete_of_held hturns
  | extended _ files paths ih =>
    unfold Evaluator.extend
    rw [Evaluator.onWorkspace_run]
    exact ih
  | printedTaken _ ih => exact ih
  | closed _ _ => exact .inl rfl

/-! ## Completing it -/

/-- A call that takes in all of its text with one unit holds nothing. -/
theorem holds_nothing_of_complete (files : FileTree) {e : Evaluator SessionState}
    {input unit : String} (h : nextUnit (e.pending.text ++ input) = .complete unit "") :
    ((Evaluator.evaluateOutcomes snippetCompiler files input).run e).2.isHolding = false := by
  cases hopen : e.isClosed with
  | true =>
    rw [evaluateOutcomes_closed files input hopen]
    rfl
  | false =>
    obtain ⟨turns, ending, w, hturns⟩ := exists_turns_of_takesText snippetCompiler_takesText files
      (e.pending.text ++ input) e.workspace
    rw [evaluateOutcomes_turns hturns hopen]
    cases hturns with
    | held hnext =>
      have hboth := h.symm.trans hnext
      cases hboth
    | next hnext _ _ hrest =>
      have hboth := h.symm.trans hnext
      cases hboth
      exact (hrest rfl).elim
    | _ => rfl

theorem exists_continuation {source : String} (hsize : byteLength source.toList < 2 ^ 30)
    (h : nextUnit source = .incomplete) :
    ∃ more unit, nextUnit (source ++ more) = .complete unit "" := by
  obtain ⟨closer, n, unit, -, hunit⟩ := exists_completion hsize h
  refine ⟨String.ofList (closer ++ (closers n).map Symbol.char), unit, ?_⟩
  unfold nextUnit
  rw [String.toList_append, String.toList_ofList, ← List.append_assoc]
  exact hunit

/-- **Held text can be completed.** A source of fewer than 2^30 bytes that is incomplete has a
continuation with which all of it is one complete unit, from its first token on.  An evaluator
that holds text holds an incomplete source, and when that takes fewer than 2^30 bytes there is an
input behind which it holds nothing, whatever files there are. -/
theorem held_text_completable :
    (∀ source : String, byteLength source.toList < 2 ^ 30 → nextUnit source = .incomplete →
      ∃ more unit, nextUnit (source ++ more) = .complete unit "") ∧
    ∀ (host : HostRegistry) (e : Evaluator SessionState), InUse host e → e.isHolding = true →
      byteLength e.pending.text.toList < 2 ^ 30 →
        nextUnit e.pending.text = .incomplete ∧
        ∃ input, ∀ files,
          ((Evaluator.evaluateOutcomes snippetCompiler files input).run e).2.isHolding = false := by
  refine ⟨fun source => exists_continuation, fun host e huse hholding hsize => ?_⟩
  have hincomplete : nextUnit e.pending.text = .incomplete := by
    rcases huse.pending_incomplete with hempty | hincomplete
    · simp [Evaluator.isHolding, PendingInput.isHolding, hempty] at hholding
    · exact hincomplete
  obtain ⟨input, unit, hunit⟩ := exists_continuation hsize hincomplete
  exact ⟨hincomplete, input, fun files => holds_nothing_of_complete files hunit⟩

/-- A closing brace too many, an open parenthesis, a literal whose escape is cut off, an operator
and an open comment; and a session that holds an open parenthesis. -/
theorem held_text_completable_mixed :
    (∃ more unit, nextUnit ("\x7d ( \"a\\\n + /* *" ++ more) = .complete unit "") ∧
    ∃ input, ∀ files, ((Evaluator.evaluateOutcomes snippetCompiler files input).run
      ⟨declaredF, ⟨" ("⟩⟩).2.isHolding = false := by
  obtain ⟨hsources, hevaluators⟩ := held_text_completable
  have huse : InUse .standard newEvaluator := @InUse.created .standard {} {} newEvaluator rfl
  have hheld := @InUse.evaluated .standard _ huse {} "void f(){} (" (by decide)
  rw [evaluateOutcomes_openParen] at hheld
  exact ⟨hsources _ (by decide) (by cbv), (hevaluators _ _ hheld rfl (by decide)).2⟩

end ReplEngine.Language
