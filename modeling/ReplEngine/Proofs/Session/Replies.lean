import ReplEngine.Proofs.Engine.HeldInput
import ReplEngine.Proofs.Engine.Printing
import ReplEngine.Session.Session
set_option autoImplicit false

/-!
# What one input is answered with

A session is over exactly when its workspace is closed, and between inputs nothing that was
printed is waiting (`Session.Steady`).  So everything that a reply shows comes from the units of
its own input: what they printed, and behind that the text of the answer (`Session.respond_run`).
-/

namespace ReplEngine

open ReplEngine.Language (SessionState SnippetUnit snippetCompiler snippetCompiler_takesText
  printedTexts)

namespace Session

/-! ## Printed text and answer -/

/-- What is shown for a printed text and an answer: the printed text without the line breaks at
its end, and the answer behind it on a line of its own. -/
inductive Shows (printed : String) (answer : Option String) : Option String → Prop where
  | answer (hbreaks : ∀ c ∈ printed.toList, c = '\n') : Shows printed answer answer
  | printed {front breaks : String} (hsplit : printed = front ++ breaks)
      (hbreaks : ∀ c ∈ breaks.toList, c = '\n') (hfront : front ≠ "")
      (hend : front.toList.getLast? ≠ some '\n') :
      Shows printed answer (some (front ++ answer.elim "" ("\n" ++ ·)))

/-- A session is over exactly when its workspace is closed, and nothing that was printed is
waiting. -/
structure Steady (s : Session) : Prop where
  isClosed : s.evaluator.isClosed = s.ended
  printed : s.evaluator.workspace.state.printed = {}

/-- The text of an answer: that of the outcomes of the call, or of the refusal. -/
def answerText (host : HostRegistry) : Except EngineError (List Outcome) → Option String
  | .ok outcomes => (Outcome.renderAll host outcomes).filter (!·.isEmpty)
  | .error error => some (errorPrefix ++ error.message)

variable {s : Session} {files : FileTree} {input : String}

/-- Putting archives on the search path changes nothing but the loader. -/
theorem addRoots_keeps {extension : String} {roots : List String} {w w' : Workspace SessionState}
    (h : Evaluator.addRoots files extension w roots = .ok w') :
    w'.state = w.state ∧ w'.closed = w.closed := by
  induction roots generalizing w with
  | nil =>
    cases h
    exact ⟨rfl, rfl⟩
  | cons root roots ih =>
    unfold Evaluator.addRoots at h
    cases harchives : findArchives files root extension with
    | error error =>
      rw [harchives] at h
      cases h
    | ok archives =>
      rw [harchives] at h
      obtain ⟨hstate, hclosed⟩ := ih h
      have hentries : ∀ (archives : List String) (w : Workspace SessionState),
          (archives.foldl (fun w path => w.addEntry files path) w).state = w.state ∧
            (archives.foldl (fun w path => w.addEntry files path) w).closed = w.closed := by
        intro archives
        induction archives with
        | nil => exact fun w => ⟨rfl, rfl⟩
        | cons path archives ih => exact fun w => ih (w.addEntry files path)
      exact ⟨hstate.trans (hentries archives w).1, hclosed.trans (hentries archives w).2⟩

theorem start_eq (files : FileTree) (config : EvaluatorConfig) (style : PromptStyle) :
    Session.start files config style =
      ((Evaluator.addRoots files config.archiveExtension
        (Workspace.ofCompiler snippetCompiler { host := .standard } .standard)
        config.roots).mapError .engine).map fun w => ⟨⟨w, {}⟩, style, false⟩ := by
  unfold Session.start Evaluator.create
  simp only
  cases Evaluator.addRoots files config.archiveExtension
    (Workspace.ofCompiler snippetCompiler { host := .standard } .standard) config.roots <;> rfl

theorem steady_start {config : EvaluatorConfig} {style : PromptStyle}
    (h : Session.start files config style = .ok s) : s.Steady ∧ s.ended = false := by
  rw [start_eq] at h
  cases hroots : Evaluator.addRoots files config.archiveExtension
      (Workspace.ofCompiler snippetCompiler { host := .standard } .standard) config.roots with
  | error error =>
    rw [hroots] at h
    cases h
  | ok w =>
    rw [hroots] at h
    cases h
    obtain ⟨hstate, hclosed⟩ := addRoots_keeps hroots
    exact ⟨⟨hclosed, congrArg SessionState.printed hstate⟩, rfl⟩

/-- A session that cannot be started was refused by the engine. -/
theorem start_error {config : EvaluatorConfig} {style : PromptStyle} {error : SessionError}
    (h : Session.start files config style = .error error) : ∃ refusal, error = .engine refusal := by
  rw [start_eq] at h
  cases hroots : Evaluator.addRoots files config.archiveExtension
      (Workspace.ofCompiler snippetCompiler { host := .standard } .standard) config.roots with
  | error refusal =>
    rw [hroots] at h
    cases h
    exact ⟨refusal, rfl⟩
  | ok w =>
    rw [hroots] at h
    cases h

theorem finish_ended (h : s.ended = true) : s.finish = (false, s) := by
  unfold finish
  rw [if_pos h]

theorem finish_live (h : s.ended = false) :
    s.finish =
      (true, { s with evaluator := s.evaluator.close snippetCompiler, ended := true }) := by
  unfold finish
  rw [if_neg (by simp [h])]

theorem ended_finish (s : Session) : s.finish.2.ended = true := by
  cases h : s.ended with
  | true => rw [finish_ended h, h]
  | false => rw [finish_live h]

theorem steady_finish (h : s.Steady) : s.finish.2.Steady := by
  cases hended : s.ended with
  | true =>
    rw [finish_ended hended]
    exact h
  | false =>
    rw [finish_live hended]
    have hopen : s.evaluator.workspace.closed = false := h.isClosed.trans hended
    refine ⟨Evaluator.isClosed_close _ _, ?_⟩
    show (s.evaluator.workspace.close snippetCompiler).state.printed = {}
    unfold Workspace.close
    rw [if_neg (by simp [hopen])]
    exact h.printed

/-! ## Inputs -/

/-- The session behind the turns of an input. -/
def behind (s : Session) (w : Workspace SessionState) (ending : CallEnd) : Session :=
  { s with
    evaluator := ⟨{ w with state := { w.state with printed := {} } }, ⟨ending.heldText⟩⟩ }

/-- What an input is answered with: the text held with the input behind it is taken in turns, and
the reply shows what they printed and answered. -/
theorem respond_run (h : s.Steady) (hlive : s.ended = false) (files : FileTree)
    (input : String) {turns : List (Turn SnippetUnit)} {ending : CallEnd}
    {w : Workspace SessionState}
    (hturns : Turns snippetCompiler files s.evaluator.workspace
      (s.evaluator.pending.text ++ input) turns ending w) :
    s.respond files input =
      (.ok (.prompt (s.style.reply (s.behind w ending).isHolding input
        (joinShown (String.join (printedTexts files s.evaluator.workspace turns))
          (answerText w.loader.host (ending.answer (turns.flatMap Turn.outcomes)))))),
        s.behind w ending) := by
  have hopen : s.evaluator.isClosed = false := h.isClosed.trans hlive
  have hprinted := Language.printed_of_turns hturns hopen
  rw [h.printed, String.empty_append] at hprinted
  unfold respond
  rw [Evaluator.evaluate_run, Language.evaluateOutcomes_turns hturns hopen, ← hprinted]
  cases ending with
  | refused error =>
    have hne := hturns.ne_closed rfl
    cases error with
    | closed => exact absurd rfl hne
    | _ => rfl
  | _ => rfl

theorem acceptInput_ended (h : s.ended = true) (files : FileTree) (input : String) :
    s.acceptInput files input = (.error .closed, s) := by
  unfold acceptInput
  rw [if_pos h]

theorem acceptInput_exit (h : s.ended = false) (files : FileTree) :
    s.acceptInput files PromptStyle.exitCommand =
      (.ok (.farewell s.style.goodbye), s.finish.2) := by
  unfold acceptInput
  rw [if_neg (by simp [h]), if_pos rfl]

theorem acceptInput_other (h : s.ended = false) (files : FileTree)
    (hinput : input ≠ PromptStyle.exitCommand) :
    s.acceptInput files input = s.respond files input := by
  unfold acceptInput
  rw [if_neg (by simp [h]), if_neg hinput]

/-- A session that is not over replies to every input, and goes on unless it is the exit
command. -/
theorem acceptInput_live (h : s.Steady) (hlive : s.ended = false) (files : FileTree)
    (input : String) :
    ∃ reply s', s.acceptInput files input = (.ok reply, s') ∧ s'.Steady ∧
      ((input = PromptStyle.exitCommand ∧ s'.ended = true ∧ ∃ text, reply = .farewell text) ∨
        input ≠ PromptStyle.exitCommand ∧ s'.ended = false ∧ ∃ text, reply = .prompt text) := by
  by_cases hinput : input = PromptStyle.exitCommand
  · subst hinput
    exact ⟨_, _, acceptInput_exit hlive files, steady_finish h,
      .inl ⟨rfl, ended_finish s, _, rfl⟩⟩
  · obtain ⟨turns, ending, w, hturns⟩ := exists_turns_of_takesText snippetCompiler_takesText files
      (s.evaluator.pending.text ++ input) s.evaluator.workspace
    have hclosed : w.closed = s.ended := hturns.closed.trans h.isClosed
    refine ⟨_, _, (acceptInput_other hlive files hinput).trans
      (respond_run h hlive files input hturns), ⟨hclosed, rfl⟩, .inr ⟨hinput, hlive, _, rfl⟩⟩

theorem steady_acceptInput (h : s.Steady) (files : FileTree) (input : String) :
    (s.acceptInput files input).2.Steady := by
  cases hended : s.ended with
  | true =>
    rw [acceptInput_ended hended]
    exact h
  | false =>
    obtain ⟨reply, s', hrun, hsteady, -⟩ := acceptInput_live h hended files input
    rw [hrun]
    exact hsteady

/-! ## Uses -/

/-- What can be done with a session. -/
inductive Use where
  | input (text : String)
  | finish

/-- The session that a use leaves. -/
def Use.leaves (files : FileTree) : Use → Session → Session
  | .input text, s => (s.acceptInput files text).2
  | .finish, s => s.finish.2

/-- The session is over afterwards. -/
def Use.Ends : Use → Prop
  | .input text => text = PromptStyle.exitCommand
  | .finish => True

theorem steady_use (h : s.Steady) (files : FileTree) (use : Use) :
    (use.leaves files s).Steady := by
  cases use with
  | input text => exact steady_acceptInput h files text
  | finish => exact steady_finish h

/-- A session has ended after a use if it had before, or if the use ends it. -/
theorem ended_use (h : s.Steady) (files : FileTree) (use : Use) :
    (use.leaves files s).ended = true ↔ s.ended = true ∨ use.Ends := by
  cases use with
  | finish => exact iff_of_true (ended_finish s) (.inr trivial)
  | input text =>
    show (s.acceptInput files text).2.ended = true ↔ _ ∨ text = PromptStyle.exitCommand
    cases hended : s.ended with
    | true =>
      rw [acceptInput_ended hended]
      exact iff_of_true hended (.inl rfl)
    | false =>
      obtain ⟨reply, s', hrun, -, ⟨hexit, hover, -⟩ | ⟨hother, hlive, -⟩⟩ :=
        acceptInput_live h hended files text
      · rw [hrun]
        exact iff_of_true hover (.inr hexit)
      · rw [hrun]
        exact iff_of_false (by simp [hlive]) (by simp [hother])

end Session

end ReplEngine
