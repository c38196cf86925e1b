import Mathlib
import ReplEngine.Language.SnippetCompiler
import ReplEngine.Proofs.Engine.Answers
import ReplEngine.Proofs.Splitter.Behind
set_option autoImplicit false

/-!
# Input typed in two parts

A first part that leaves text held and a second part do together what they do when they are typed
at once (`outcomes_append`): the units that ran in the first part are found again at the front of
the whole.  The exception is a `;` that comes to follow the closing brace of a unit that has run
already; typed at once it is taken into that unit, typed later it is a unit of its own
(`semicolon_taken_by_block`).
-/

namespace ReplEngine.Language

open Reading Text

theorem snippetCompiler_takesText : snippetCompiler.TakesText := by
  intro _ candidate unit rest h
  rw [← String.length_toList (s := candidate)]
  exact length_rest_lt h

/-! ## The turns of the whole -/

/-- No `;` comes to follow the brace that the text in front of the held text ends with. -/
def NoSemicolonJoins (source held more : String) : Prop :=
  ∀ front, source.toList = front ++ held.toList → front.getLast? = some '\x7d' →
    Separate (Token.scan (held ++ more).toList)

/-- The turns of the first part are the first turns of the whole. -/
theorem turns_append {files : FileTree} {source held more : String}
    {w w' w'' : Workspace SessionState} {turns later : List (Turn SnippetUnit)} {ending : CallEnd}
    (h : Turns snippetCompiler files w source turns (.held held) w')
    (h' : Turns snippetCompiler files w' (held ++ more) later ending w'')
    (hsize : byteLength (source ++ more).toList < 4294967296)
    (hjoins : NoSemicolonJoins source held more) :
    Turns snippetCompiler files w (source ++ more) (turns ++ later) ending w'' ∧
      (turns ≠ [] → Separate (Token.scan source.toList) →
        Separate (Token.scan (source ++ more).toList)) := by
  generalize hending : CallEnd.held held = ended at h
  induction h with
  | blank | refused | failed | exhausted => cases hending
  | held hnext =>
    cases hending
    exact ⟨h', fun hne => (hne rfl).elim⟩
  | @next w w₁ w' source unit rest requests outcomes turns ended hnext hunit hfine hrest hlater
      ih =>
    subst hending
    have hshort := hsize
    rw [String.toList_append, byteLength_append] at hshort
    have hlead := leadingUnit_of_nextUnit (by omega) hnext hrest
    obtain ⟨before, hbefore⟩ := hlead.eq
    have hsizeRest : byteLength (rest ++ more).toList < 4294967296 := by
      rw [hbefore] at hshort
      simp only [String.toList_append, byteLength_append] at hshort ⊢
      omega
    have hjoinsRest : NoSemicolonJoins rest held more := by
      intro front hfront hlast
      refine hjoins (before ++ unit.toList ++ front) ?_ ?_
      · rw [hbefore, hfront]
        simp
      · rw [List.getLast?_append, hlast]
        rfl
    obtain ⟨hturns, hseparate⟩ := ih h' hsizeRest hjoinsRest rfl
    -- the next token is that of a unit found again, or the first of the held text
    have hfollows : unit.toList.getLast? = some '\x7d' →
        Separate (Token.scan (rest.toList ++ more.toList)) := by
      intro hbrace
      cases hlater with
      | held =>
        rw [← String.toList_append]
        refine hjoins (before ++ unit.toList) (by rw [hbefore, List.append_assoc]) ?_
        rw [List.getLast?_append, hbrace]
        rfl
      | next =>
        rw [← String.toList_append]
        exact hseparate (by simp) (hlead.separate hbrace)
    rw [String.toList_append] at hsize
    obtain ⟨hagain, hhead⟩ := hlead.append more.toList hsize hfollows
    rw [← String.toList_append, ← String.toList_append, String.ofList_toList,
      String.ofList_toList] at hagain
    rw [← String.toList_append] at hhead
    refine ⟨.next hagain hunit hfine ?_ hturns, fun _ => hhead⟩
    simp [hrest]

/-! ## The calls -/

/-- An evaluator that is open takes every turn that there is to take. -/
theorem evaluateOutcomes_turns {files : FileTree} {e : Evaluator SessionState} {input : String}
    {w : Workspace SessionState} {turns : List (Turn SnippetUnit)} {ending : CallEnd}
    (h : Turns snippetCompiler files e.workspace (e.pending.text ++ input) turns ending w)
    (hopen : e.isClosed = false) :
    (Evaluator.evaluateOutcomes snippetCompiler files input).run e =
      (ending.answer (turns.flatMap Turn.outcomes), ⟨w, ⟨ending.heldText⟩⟩) :=
  Evaluator.evaluateOutcomes_turns snippetCompiler_takesText h hopen

theorem evaluateOutcomes_closed (files : FileTree) {e : Evaluator SessionState} (input : String)
    (h : e.isClosed = true) :
    (Evaluator.evaluateOutcomes snippetCompiler files input).run e =
      (.error .closed, ⟨e.workspace, {}⟩) := by
  rw [Evaluator.evaluateOutcomes_run, Evaluator.evaluateWithin_run]
  exact Evaluator.runUnits_closed (e := ⟨e.workspace, {}⟩) _ _ h

/-- Two parts, the first of which leaves text held, give the outcomes of the whole, one behind the
other, and leave behind what the whole leaves behind: text held, session, printed text and
classes.  No `;` may come to follow the brace of a unit that ran in the first part. -/
theorem outcomes_append (files : FileTree) (e : Evaluator SessionState) (a b : String)
    (hnone : e.isHolding = false) (hsize : byteLength (a ++ b).toList < 2147483648)
    {outcomes : List Outcome} {e' : Evaluator SessionState}
    (ha : (Evaluator.evaluateOutcomes snippetCompiler files a).run e = (.ok outcomes, e'))
    (hholding : e'.isHolding = true) (hjoins : NoSemicolonJoins a e'.pending.text b) :
    (Evaluator.evaluateOutcomes snippetCompiler files (a ++ b)).run e =
      (((Evaluator.evaluateOutcomes snippetCompiler files b).run e').1.map (outcomes ++ ·),
        ((Evaluator.evaluateOutcomes snippetCompiler files b).run e').2) := by
  have hempty (input : String) : e.pending.text ++ input = input := by
    simp only [Evaluator.isHolding, PendingInput.isHolding] at hnone
    simp_all
  cases hopen : e.isClosed with
  | true =>
    rw [evaluateOutcomes_closed files a hopen] at ha
    cases ha
  | false =>
    obtain ⟨turns, ending, w, hturns⟩ :=
      exists_turns_of_takesText snippetCompiler_takesText files a e.workspace
    rw [evaluateOutcomes_turns (by rwa [hempty]) hopen] at ha
    obtain ⟨hanswer, rfl⟩ := Prod.mk.inj ha
    cases ending with
    | held held =>
      obtain rfl := Except.ok.inj hanswer
      have hopen' : (⟨w, ⟨held⟩⟩ : Evaluator SessionState).isClosed = false :=
        hturns.closed.trans hopen
      obtain ⟨later, ending, w', hlater⟩ :=
        exists_turns_of_takesText snippetCompiler_takesText files (held ++ b) w
      obtain ⟨hall, -⟩ := turns_append hturns hlater (by omega) hjoins
      rw [evaluateOutcomes_turns (by rwa [hempty]) hopen, List.flatMap_append,
        ← CallEnd.answer_append]
      simp only [CallEnd.heldText, evaluateOutcomes_turns (e := ⟨w, ⟨held⟩⟩) hlater hopen']
    | _ => cases hholding

/-- A session in which nothing has been typed. -/
def newEvaluator : Evaluator SessionState :=
  ⟨.ofCompiler snippetCompiler { host := .standard } .standard, {}⟩

/-- A new session once `void f(){}` has run in it. -/
def declaredF : Workspace SessionState where
  state :=
    { host := .standard
      env := { methods := ⟨[("f", ⟨[], .void⟩)]⟩ }
      globals := { methods := ⟨[("f", ⟨⟨.void, "f", [], [], ⟨5, 6⟩⟩, 1⟩)]⟩ }
      units := 1 }
  loader := { definer := defineSnippet, host := .standard }

theorem evaluateOutcomes_openParen :
    (Evaluator.evaluateOutcomes snippetCompiler {} "void f(){} (").run newEvaluator =
      (.ok [.method "f"], ⟨declaredF, ⟨" ("⟩⟩) := by cbv

theorem evaluateOutcomes_openComment :
    (Evaluator.evaluateOutcomes snippetCompiler {} "void f(){}/*").run newEvaluator =
      (.ok [.method "f"], ⟨declaredF, ⟨"/*"⟩⟩) := by cbv

/-- A parenthesis that is opened behind a method and closed by the next input. -/
theorem outcomes_append_paren :
    ((Evaluator.evaluateOutcomes snippetCompiler {} "void f(){} (").run newEvaluator).2.isHolding =
      true ∧
    ((Evaluator.evaluateOutcomes snippetCompiler {} ("void f(){} (" ++ "1)")).run newEvaluator).1 =
      .ok [.method "f", .value "$1" "1"] := by
  have hsecond : ((Evaluator.evaluateOutcomes snippetCompiler {} "1)").run
      ⟨declaredF, ⟨" ("⟩⟩).1 = .ok [.value "$1" "1"] := by cbv
  have hscan : (Token.scan (" (" ++ "1)").toList).head?.map Token.kind =
      some (.symbol .openParen) := by cbv
  have hjoins : NoSemicolonJoins "void f(){} (" " (" "1)" := by
    intro front _ _ t ht
    rw [Option.mem_def.1 ht] at hscan
    rw [Option.some.inj hscan]
    decide
  have hwhole := outcomes_append {} newEvaluator "void f(){} (" "1)" rfl (by cbv)
    evaluateOutcomes_openParen rfl hjoins
  rw [hwhole, hsecond, evaluateOutcomes_openParen]
  exact ⟨rfl, rfl⟩

/-- The `;` that comes to follow the brace of a method: typed later it is a unit of its own, and
rejected; typed at once it is taken into the method. -/
theorem semicolon_taken_by_block :
    ∃ e', (Evaluator.evaluateOutcomes snippetCompiler {} "void f(){}/*").run newEvaluator =
        (.ok [.method "f"], e') ∧
      e'.isHolding = true ∧
      ((Evaluator.evaluateOutcomes snippetCompiler {} "*/;").run e').1 =
        .ok [.rejected ";" [⟨"illegal start of expression", ⟨0, 1⟩⟩]] ∧
      ((Evaluator.evaluateOutcomes snippetCompiler {} ("void f(){}/*" ++ "*/;")).run
        newEvaluator).1 = .ok [.method "f"] := by
  refine ⟨_, evaluateOutcomes_openComment, rfl, ?_, ?_⟩
  · cbv
  · cbv

end ReplEngine.Language
