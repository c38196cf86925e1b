import ReplEngine.Proofs.Engine.Compiling
import ReplEngine.Proofs.Evaluation.Motion
set_option autoImplicit false

/-!
# What a unit prints

Whatever comes of a unit, it takes nothing back that was printed before it: what it prints stands
behind that (`printed_afterUnit`).  A call prints what its units print, one behind the other
(`printed_of_turns`).
-/

namespace ReplEngine.Language

/-! ## Evaluation and running -/

/-- A buffer starts with what another one holds. -/
def Extends (before after : PrintBuffer) : Prop := before.text.toList <+: after.text.toList

theorem extends_refl (b : PrintBuffer) : Extends b b := List.prefix_rfl

/-- Evaluation takes nothing back that was printed. -/
theorem motion_extends : Motion fun w w' => Extends w.printed w'.printed where
  refl w := extends_refl w.printed
  trans h h' := h.trans h'
  find _ _ w := extends_refl w.printed
  count w := extends_refl w.printed
  println text w := by
    show w.printed.text.toList <+: (w.printed.text ++ text ++ "\n").toList
    rw [String.toList_append, String.toList_append, List.append_assoc]
    exact List.prefix_append _ _

theorem execute_extends (files : FileTree) (unit : SnippetUnit) (s : SessionState) (l : Loader) :
    Extends s.printed (SessionState.execute files unit s l).2.1.printed := by
  have htop := moves_evalTop motion_extends files unit.snippet.id
  have hthrow := moves_throwTop motion_extends files unit.snippet.id
  let w : World := ⟨s.globals, l, s.printed⟩
  obtain ⟨snippet, body⟩ := unit
  cases body with
  | rejected | typeDecl | method => exact extends_refl _
  | var decl type =>
    obtain ⟨written, name, init, span, line⟩ := decl
    cases init with
    | none => exact extends_refl _
    | some init => exact htop line init w
  | expr value line kept => cases kept <;> exact htop line value w
  | throw value line => exact hthrow line value w

/-! ## Units -/

variable {files : FileTree} {unit : String} {w w' : Workspace SessionState}

theorem unitRun_extends {requests : List (Request SnippetUnit)}
    {result : Except EngineError (List Outcome)}
    (h : Workspace.UnitRun snippetCompiler files unit w requests result w') :
    Extends w.state.printed w'.state.printed := by
  have hcompiled {compiled : Except CompilerFailure (Compiled SnippetUnit)} {state : SessionState}
      (hcompile : snippetCompiler.compile unit w.state = (compiled, state)) :
      state.printed = w.state.printed := by
    rw [← (compile_keeps w.state unit).1.printed]
    exact congrArg (fun r => r.2.printed) hcompile.symm
  have hexecuted {compiled : SnippetUnit} {state state' : SessionState} {l l' : Loader}
      {events : Except CompilerFailure (List Event)}
      (hexecute : snippetCompiler.execute files compiled state l = (events, state', l')) :
      Extends state.printed state'.printed := by
    have hextends := execute_extends files compiled state l
    rwa [show SessionState.execute files compiled state l = _ from hexecute] at hextends
  cases h with
  | notCompiled hcompile | notInstalled hcompile =>
    rw [← hcompiled hcompile]
    exact extends_refl _
  | notExecuted hcompile _ hexecute | executed hcompile _ hexecute =>
    rw [← hcompiled hcompile]
    exact hexecuted hexecute

/-- What a unit prints, whatever comes of it. -/
def printedBy (files : FileTree) (w : Workspace SessionState) (unit : String) : String :=
  String.ofList ((afterUnit files w unit).state.printed.text.toList.drop
    w.state.printed.text.toList.length)

/-- What a unit prints stands behind what was printed before. -/
theorem printed_afterUnit (hopen : w.closed = false) (files : FileTree) (unit : String) :
    (afterUnit files w unit).state.printed.text =
      w.state.printed.text ++ printedBy files w unit := by
  obtain ⟨requests, result, w', hunit⟩ := Workspace.exists_unitRun snippetCompiler files unit w
  obtain ⟨rest, hrest⟩ := unitRun_extends hunit
  unfold printedBy
  rw [afterUnit_of_unitRun hunit hopen, ← hrest, List.drop_left]
  apply String.toList_injective
  rw [String.toList_append, String.toList_ofList, hrest]

/-! ## Calls -/

/-- What the units of turns print, each in the workspace that the ones before it left. -/
def printedTexts (files : FileTree) :
    Workspace SessionState → List (Turn SnippetUnit) → List String
  | _, [] => []
  | w, turn :: turns =>
    printedBy files w turn.unit :: printedTexts files (afterUnit files w turn.unit) turns

/-- A call prints what its units print. -/
theorem printed_of_turns {candidate : String} {turns : List (Turn SnippetUnit)}
    {ending : CallEnd} (h : Turns snippetCompiler files w candidate turns ending w')
    (hopen : w.closed = false) :
    w'.state.printed.text =
      w.state.printed.text ++ String.join (printedTexts files w turns) := by
  induction h with
  | blank | held => simp [printedTexts]
  | refused _ hunit | failed _ hunit | exhausted _ hunit =>
    rw [← afterUnit_of_unitRun hunit hopen, printed_afterUnit hopen]
    simp [printedTexts]
  | next _ hunit _ _ _ ih =>
    rw [ih (hunit.closed.trans hopen), ← afterUnit_of_unitRun hunit hopen,
      printed_afterUnit hopen, printedTexts, String.join_cons, String.append_assoc]

end ReplEngine.Language
