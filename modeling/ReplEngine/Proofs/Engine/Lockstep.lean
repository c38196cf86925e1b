import ReplEngine.Proofs.Engine.Sessions
import ReplEngine.Proofs.Evaluation.Lockstep
import ReplEngine.Proofs.Typing.Renaming
set_option autoImplicit false

/-!
# Units in lockstep

Two sessions that are the same but for the numbers of their snippets compile, install and run the
same unit alike (`runUnit_alike`).  A unit is accepted in both or rejected in both; the numbers show
up in the class file, in the wrapper class that reports name, and in stack frames, and nowhere else.
-/

namespace ReplEngine

open ReplEngine.Language

/-! ## What comes of units -/

/-- Outcomes that are the same but for the numbers of snippets. -/
inductive Outcome.Alike (T : Renumbering) : Outcome → Outcome → Prop where
  | method (name : String) : Alike T (.method name) (.method name)
  | typeDecl (name : String) : Alike T (.typeDecl name) (.typeDecl name)
  | value (name text : String) : Alike T (.value name text) (.value name text)
  | silent : Alike T .silent .silent
  | failure {d e : Descriptor} (h : d.Alike T e) : Alike T (.failure d) (.failure e)
  | rejected (source : String) {number number' : UInt32} {diags diags' : List Diag}
      (hunit : T (unitCode number) (unitCode number'))
      (hdiags : List.Forall₂ (Diag.Renamed (wrapperClass number) (wrapperClass number'))
        diags diags') :
      Alike T (.rejected source diags) (.rejected source diags')

theorem Outcome.Alike.mono {T U : Renumbering} {o o' : Outcome} (h : o.Alike T o') (hle : T ≤ U) :
    o.Alike U o' := by
  cases h with
  | method name => exact .method name
  | typeDecl name => exact .typeDecl name
  | value name text => exact .value name text
  | silent => exact .silent
  | failure h => exact .failure (h.mono hle)
  | rejected source hunit hdiags => exact .rejected source (hle _ _ hunit) hdiags

theorem Outcome.Alike.isFailure_eq {T : Renumbering} {o o' : Outcome} (h : o.Alike T o') :
    o'.isFailure = o.isFailure := by
  cases h <;> rfl

/-- What is said of a unit that was not rejected, but for the numbers of snippets. -/
inductive Event.Alike (T : Renumbering) : Event → Event → Prop where
  | valid (snippet : Snippet) (id id' : UInt32) (text : Option String) :
      Alike T ⟨{ snippet with id := id }, .valid text⟩ ⟨{ snippet with id := id' }, .valid text⟩
  | threw (snippet : Snippet) (id id' : UInt32) {d e : Descriptor} (h : d.Alike T e) :
      Alike T ⟨{ snippet with id := id }, .threw d⟩ ⟨{ snippet with id := id' }, .threw e⟩

/-- Units that were not rejected can be told of, alike. -/
theorem report_alike {T : Renumbering} {events events' : List Event}
    (h : List.Forall₂ (Event.Alike T) events events')
    (diagnostics diagnostics' : Snippet → List Diag) :
    ∃ outcomes outcomes', Outcome.report diagnostics events = .ok outcomes ∧
      Outcome.report diagnostics' events' = .ok outcomes' ∧
      List.Forall₂ (Outcome.Alike T) outcomes outcomes' := by
  induction h with
  | nil => exact ⟨[], [], rfl, rfl, .nil⟩
  | cons hevent _ ih =>
    obtain ⟨later, later', hlater, hlater', halike⟩ := ih
    unfold Outcome.report
    rw [hlater, hlater']
    cases hevent with
    | threw snippet id id' h => exact ⟨_, _, rfl, rfl, .cons (.failure h) halike⟩
    | valid snippet id id' text =>
      refine ⟨_, _, rfl, rfl, List.rel_append ?_ halike⟩
      unfold Outcome.ofValid
      simp only
      split
      · exact .cons (.value _ _) .nil
      · exact .cons (.method _) .nil
      · exact .cons (.typeDecl _) .nil
      · exact .cons .silent .nil
      · exact .nil

namespace Language

/-! ## Sessions -/

/-- The states of sessions that are the same but for the numbers of snippets.  Which numbers have
been given out, and what is on record about rejected units, does not count. -/
structure SessionState.Alike (T : Renumbering) (s s' : SessionState) : Prop where
  host : s'.host = s.host
  env : s'.env = s.env
  globals : s.globals.Alike T s'.globals
  printed : s'.printed = s.printed
  values : s'.values = s.values

/-- Sessions that are the same but for the numbers of snippets. -/
structure SessionsAlike (T : Renumbering) (w w' : Workspace SessionState) : Prop where
  state : w.state.Alike T w'.state
  loader : w.loader.Alike T w'.loader
  closed : w'.closed = w.closed

variable {T U : Renumbering} {s s' : SessionState} {l l' : Loader} {files : FileTree}

theorem SessionState.Alike.mono (h : s.Alike T s') (hle : T ≤ U) : s.Alike U s' :=
  ⟨h.host, h.env, h.globals.mono hle, h.printed, h.values⟩

theorem SessionState.Alike.counted (h : s.Alike T s') (units units' : UInt32)
    (rejections rejections' : List (UInt32 × List Diag)) :
    SessionState.Alike T { s with units := units, rejections := rejections }
      { s' with units := units', rejections := rejections' } :=
  ⟨h.host, h.env, h.globals, h.printed, h.values⟩

theorem SessionsAlike.mono {w w' : Workspace SessionState} (h : SessionsAlike T w w')
    (hle : T ≤ U) : SessionsAlike U w w' :=
  ⟨h.state.mono hle, h.loader.mono hle, h.closed⟩

/-! ## Compiling -/

/-- Both sessions reject a unit, with the same reports but for the wrapper class, or both accept it
as the same. -/
theorem compile_alike (h : s.Alike T s') (source : String) :
    (∃ (snippet : Snippet) (diags diags' : List Diag), diags ≠ [] ∧ diags' ≠ [] ∧
      s.compile source = s.numbered.reject { snippet with id := s.units + 1 } diags ∧
      s'.compile source = s'.numbered.reject { snippet with id := s'.units + 1 } diags' ∧
      List.Forall₂ (Diag.Renamed (wrapperClass (s.units + 1)) (wrapperClass (s'.units + 1)))
        diags diags') ∨
    ∃ (snippet : Snippet) (checked : Checked),
      s.compile source = s.numbered.commit { snippet with id := s.units + 1 } checked ∧
      s'.compile source = s'.numbered.commit { snippet with id := s'.units + 1 } checked := by
  obtain ⟨host, env, globals, printed, units, values, rejections⟩ := s'
  obtain ⟨rfl, rfl, -, rfl, rfl⟩ := h
  unfold SessionState.compile
  cases hparse : Item.parse source with
  | error diag =>
    exact .inl ⟨⟨0, .statement, "", source⟩, [diag], [diag], by simp, by simp, rfl, rfl,
      .cons (.same diag) .nil⟩
  | ok item =>
    simp only
    rcases check_renamed item s.env s.host (wrapperClass (s.units + 1))
      (wrapperClass (units + 1)) with
      ⟨checked, hcheck, hcheck'⟩ | ⟨diags, diags', hcheck, hcheck', hdiags⟩
    · simp only [hcheck, hcheck']
      exact .inr ⟨⟨0, _, _, source⟩, checked, rfl, rfl⟩
    · simp only [hcheck, hcheck']
      exact .inl ⟨⟨0, _, _, source⟩, diags, diags', ne_nil_of_check_error hcheck,
        ne_nil_of_check_error hcheck', rfl, rfl, hdiags⟩

/-! ## Running -/

/-- What is expected of two runs from alike sessions: alike results, in sessions that are still
alike.  Classes may have been found on the search path. -/
structure RunAlike {α : Type} (T : Renumbering) (post : Expected α) (l : Loader)
    (after after' : α × SessionState × Loader) : Prop where
  outside : ∀ code, l.Outside code → after.2.2.Outside code
  result : post (T.grown after.2.2) after.1 after'.1
  state : after.2.1.Alike (T.grown after.2.2) after'.2.1
  loader : after.2.2.Alike (T.grown after.2.2) after'.2.2

/-- How evaluations end. -/
abbrev ValuesAlike : Expected (Except Unwind Value) :=
  fun U => ExceptAlike (Unwind.Alike U) (Value.Alike U)

/-- What is said of units that were not rejected. -/
abbrev EventsAlike : Expected (Except CompilerFailure (List Event)) :=
  fun U => ExceptAlike Eq (List.Forall₂ (Event.Alike U))

/-- Where nothing is evaluated. -/
theorem RunAlike.of_state {α : Type} {post : Expected α} {a b : α} (hs : s.Alike T s')
    (hl : l.Alike T l') (h : post T a b) : RunAlike T post l (a, s, l) (b, s', l') := by
  have hgrown : T.grown l = T := Renumbering.grown_eq hl.outside
  refine ⟨fun _ => id, ?_, ?_, ?_⟩
  · rwa [hgrown]
  · rwa [hgrown]
  · rwa [hgrown]

theorem evaluate_alike (hs : s.Alike T s') (hl : l.Alike T l') {act act' : Eval Value}
    (h : EvalAlike T Value.Alike act act') :
    RunAlike T ValuesAlike l (s.evaluate l act) (s'.evaluate l' act') := by
  obtain ⟨houtside, hresult, hworld⟩ := h ⟨s.globals, l, s.printed⟩ ⟨s'.globals, l', s'.printed⟩
    ⟨hs.globals, hl, hs.printed⟩
  exact ⟨houtside, hresult, ⟨hs.host, hs.env, hworld.globals, hworld.printed, hs.values⟩,
    hworld.loader⟩

theorem bind_alike (hs : s.Alike T s') (name : String) (type : Ty)
    {result result' : Except Unwind Value} (hresult : ValuesAlike T result result') :
    (s.bind name type result).Alike T (s'.bind name type result') := by
  refine ⟨hs.host, hs.env, ⟨hs.globals.vars.insert name ?_, hs.globals.methods,
    hs.globals.objects⟩, hs.printed, hs.values⟩
  cases hresult with
  | ok hvalue => exact hvalue
  | error _ => exact default_alike T type

/-- The events of alike evaluations, where alike values are shown in the same way. -/
theorem eventOf_alike (snippet : Snippet) (id id' : UInt32) {shown : Value → Option String}
    (hshown : ∀ v v', v.Alike T v' → shown v' = shown v) {result result' : Except Unwind Value}
    (h : ValuesAlike T result result') :
    EventsAlike T (SessionState.eventOf { snippet with id := id } shown result)
      (SessionState.eventOf { snippet with id := id' } shown result') := by
  cases h with
  | @ok v v' hvalue =>
    unfold SessionState.eventOf
    simp only [hshown v v' hvalue]
    exact .ok (.cons (.valid snippet id id' _) .nil)
  | error hunwind =>
    cases hunwind with
    | throw h => exact .ok (.cons (.threw snippet id id' h) .nil)
    | fault fault => exact .error rfl

/-- The text of a value, as an answer shows it. -/
def shownText (v : Value) : Option String := some v.render

theorem RunAlike.told {after after' : Except Unwind Value × SessionState × Loader}
    (h : RunAlike T ValuesAlike l after after') (snippet : Snippet) (id id' : UInt32)
    {shown : Value → Option String}
    (hshown : ∀ U v v', Value.Alike U v v' → shown v' = shown v) :
    RunAlike T EventsAlike l
      (SessionState.eventOf { snippet with id := id } shown after.1, after.2)
      (SessionState.eventOf { snippet with id := id' } shown after'.1, after'.2) :=
  ⟨h.outside, eventOf_alike snippet id id' (hshown _) h.result, h.state, h.loader⟩

theorem RunAlike.kept {after after' : Except Unwind Value × SessionState × Loader}
    (h : RunAlike T ValuesAlike l after after') (snippet : Snippet) (id id' : UInt32)
    (name : String) (type : Ty) :
    RunAlike T EventsAlike l
      (SessionState.eventOf { snippet with id := id } shownText after.1,
        after.2.1.bind name type after.1, after.2.2)
      (SessionState.eventOf { snippet with id := id' } shownText after'.1,
        after'.2.1.bind name type after'.1, after'.2.2) where
  outside := h.outside
  result := eventOf_alike snippet id id' (fun _ _ hv => congrArg some hv.render_eq) h.result
  state := bind_alike h.state name type h.result
  loader := h.loader

theorem commit_alike (h : s.Alike T s') (snippet snippet' : Snippet) (checked : Checked) :
    (s.commit snippet checked).2.Alike T (s'.commit snippet' checked).2 := by
  obtain ⟨host, env, globals, printed, units, values, rejections⟩ := s'
  obtain ⟨rfl, rfl, hglobals, rfl, rfl⟩ := h
  cases checked with
  | expr value line type =>
    unfold SessionState.commit
    simp only
    split <;> exact ⟨rfl, rfl, hglobals, rfl, rfl⟩
  | _ => exact ⟨rfl, rfl, hglobals, rfl, rfl⟩

/-- The outcomes of a unit that was not rejected. -/
theorem EventsAlike.outcomes {result result' : Except CompilerFailure (List Event)}
    (h : EventsAlike T result result') (diagnostics diagnostics' : Snippet → List Diag) :
    ExceptAlike Eq (List.Forall₂ (Outcome.Alike T))
      ((result.mapError EngineError.compiler).bind (Outcome.report diagnostics))
      ((result'.mapError EngineError.compiler).bind (Outcome.report diagnostics')) := by
  cases h with
  | error heq => exact .error (congrArg _ heq)
  | ok hevents =>
    obtain ⟨outcomes, outcomes', hreport, hreport', halike⟩ :=
      report_alike hevents diagnostics diagnostics'
    show ExceptAlike Eq _ (Outcome.report diagnostics _) (Outcome.report diagnostics' _)
    rw [hreport, hreport']
    exact .ok halike

/-- A unit that was accepted is run alike in both sessions. -/
theorem execute_alike (h : s.Alike T s') (hl : l.Alike T l') {number number' : UInt32}
    (hunit : T (unitCode number) (unitCode number')) (files : FileTree) (snippet : Snippet)
    (checked : Checked) :
    let compiled := s.commit { snippet with id := number } checked
    let compiled' := s'.commit { snippet with id := number' } checked
    RunAlike T EventsAlike l (SessionState.execute files compiled.1.unit compiled.2 l)
      (SessionState.execute files compiled'.1.unit compiled'.2 l') := by
  intro compiled compiled'
  have hcommitted : compiled.2.Alike T compiled'.2 := commit_alike h _ _ checked
  have hvalid (text : Option String) : EventsAlike T
      (.ok [⟨{ snippet with id := number }, .valid text⟩])
      (.ok [⟨{ snippet with id := number' }, .valid text⟩]) :=
    .ok (.cons (.valid snippet number number' text) .nil)
  cases checked with
  | typeDecl decl sig => exact .of_state hcommitted hl (hvalid none)
  | method decl sig =>
    have hglobals := hcommitted.globals
    refine .of_state ⟨hcommitted.host, hcommitted.env, ⟨hglobals.vars, ?_, hglobals.objects⟩,
      hcommitted.printed, hcommitted.values⟩ hl (hvalid none)
    exact hglobals.methods.insert decl.name ⟨rfl, hunit⟩
  | var decl type =>
    obtain ⟨written, name, init, span, line⟩ := decl
    cases init with
    | none =>
      have hdefault : ValuesAlike T (.ok (Value.default type)) (.ok (Value.default type)) :=
        .ok (default_alike T type)
      exact .of_state (bind_alike hcommitted name type hdefault) hl (hvalid _)
    | some init =>
      exact (evaluate_alike hcommitted hl (evalTop_alike hunit files line init)).kept snippet
        number number' name type
  | throw value line =>
    exact (evaluate_alike hcommitted hl (throwTop_alike hunit files line value)).told snippet
      number number' fun _ _ _ hv => congrArg some hv.render_eq
  | expr value line type =>
    by_cases hkept : type = .void ∨ value.isName = true
    · simp only [compiled, compiled', SessionState.commit, if_pos hkept]
      exact (evaluate_alike h hl (evalTop_alike hunit files line value)).told snippet number
        number' fun _ _ _ _ => rfl
    · simp only [compiled, compiled', SessionState.commit, if_neg hkept, h.values] at hcommitted ⊢
      exact (evaluate_alike hcommitted hl (evalTop_alike hunit files line value)).kept
        { snippet with kind := .variable, name := _ } number number' _ type

/-! ## Units -/

variable {host : HostRegistry} {n n' : Nat} {w w' : Workspace SessionState} {source : String}
  {compiled compiled' : Compiled SnippetUnit} {state state' : SessionState}

/-- A unit whose classes are installed is run and told of. -/
theorem runUnit_installed (files : FileTree) (hopen : w.closed = false)
    {lives : List LiveClass} {loader : Loader}
    (hcompile : w.state.compile source = (compiled, state))
    (hinstall : (Loader.install compiled.classes).run w.loader = (.ok lives, loader)) :
    let after := SessionState.execute files compiled.unit state loader
    (Workspace.runUnit snippetCompiler files source).run w =
      ((after.1.mapError .compiler).bind (Outcome.report after.2.1.diagnostics),
        { w with state := after.2.1, loader := after.2.2 }) := by
  intro after
  have hcompiled : snippetCompiler.compile source w.state = (.ok compiled, state) := by
    show (Except.ok (w.state.compile source).1, (w.state.compile source).2) = _
    rw [hcompile]
  cases hexecute : after with
  | mk result rest =>
    cases result with
    | error failure => exact (Workspace.UnitRun.notExecuted hcompiled hinstall hexecute).run hopen
    | ok events => exact (Workspace.UnitRun.executed hcompiled hinstall hexecute).run hopen

/-- A unit that is rejected is told of with its reports, and changes nothing but the record of
what was rejected. -/
theorem runUnit_rejected (files : FileTree) (hopen : w.closed = false) {snippet : Snippet}
    {diags : List Diag} (hne : diags ≠ [])
    (hcompile : w.state.compile source = w.state.numbered.reject snippet diags) :
    (Workspace.runUnit snippetCompiler files source).run w =
      (.ok [.rejected snippet.source diags],
        { w with state := (w.state.numbered.reject snippet diags).2 }) := by
  have hnone : (Loader.install []).run w.loader = (.ok [], w.loader) := rfl
  rw [runUnit_installed files hopen hcompile hnone]
  exact congrArg (·, _) (report_rejected w.state.numbered snippet hne)

/-- The classes of a unit that is accepted in both sessions are installed in both. -/
theorem installs_alike (h : SessionsAlike T w w') (hsound : Sound host n w)
    (hsound' : Sound host n' w') (hle : T ≤ U)
    (hmember : ∀ name, U ⟨name, w.state.units + 1⟩ ⟨name, w'.state.units + 1⟩)
    (hsize : Text.byteLength source.toList < 2 ^ 64)
    (hcompile : w.state.compile source = (compiled, state))
    (hcompile' : w'.state.compile source = (compiled', state'))
    (hclasses : compiled.classes = [] ↔ compiled'.classes = []) :
    ∃ lives lives' m m', (Loader.install compiled.classes).run w.loader = (.ok lives, m) ∧
      (Loader.install compiled'.classes).run w'.loader = (.ok lives', m') ∧
      w.loader.SameElsewhere m ∧ m.Alike U m' := by
  rcases compile_classes hcompile with ⟨decl, hclass⟩ | ⟨hnone, -⟩
  · rcases compile_classes hcompile' with ⟨decl', hclass'⟩ | ⟨hnone', -⟩
    · obtain rfl : decl = decl' := by
        cases hclass.parse.symm.trans hclass'.parse
        rfl
      have hnewest := hsound.newest hclass hsize
      have hnewest' := hsound'.newest hclass' hsize
      obtain ⟨g, hcls⟩ := hnewest.newest
      obtain ⟨g', hcls'⟩ := hnewest'.newest
      rw [hclass.classes, hclass'.classes]
      exact Loader.install_alike h.loader hcls hcls' rfl rfl (members_of_nodup hclass.distinct)
        (members_of_nodup hclass'.distinct) (.declared _ _ _ rfl rfl (hmember decl.name)) hle
    · cases (hclasses.mpr hnone').symm.trans hclass.classes
  · rw [hnone, hclasses.mp hnone]
    exact ⟨[], [], w.loader, w'.loader, rfl, rfl, ⟨rfl, fun _ => rfl, rfl, rfl⟩,
      h.loader.mono hle⟩

theorem commit_classes_eq_nil (s s' : SessionState) (snippet snippet' : Snippet)
    (checked : Checked) :
    (s.commit snippet checked).1.classes = [] ↔ (s'.commit snippet' checked).1.classes = [] := by
  by_cases hclass : ∃ decl sig, checked = .typeDecl decl sig
  · obtain ⟨decl, sig, rfl⟩ := hclass
    exact iff_of_false nofun nofun
  · have hother : ∀ decl sig, checked ≠ .typeDecl decl sig :=
      fun decl sig heq => hclass ⟨decl, sig, heq⟩
    exact iff_of_true (commit_classes hother snippet).1 (commit_classes hother snippet').1

/-- **A unit is run alike.**  Sessions that are the same but for the numbers of snippets accept the
same units and give alike outcomes for them, and stay the same but for the numbers; those of the
unit itself are the next ones. -/
theorem runUnit_alike (h : SessionsAlike T w w') (hopen : w.closed = false)
    (hsound : Sound host n w) (hsound' : Sound host n' w') (hle : T ≤ U)
    (hunit : U (unitCode (w.state.units + 1)) (unitCode (w'.state.units + 1)))
    (hmember : ∀ name, U ⟨name, w.state.units + 1⟩ ⟨name, w'.state.units + 1⟩)
    (hsize : Text.byteLength source.toList < 2 ^ 64) (files : FileTree) :
    let after := (Workspace.runUnit snippetCompiler files source).run w
    let after' := (Workspace.runUnit snippetCompiler files source).run w'
    (∀ code, w.loader.Outside code → after.2.loader.Outside code) ∧
      ExceptAlike Eq (List.Forall₂ (Outcome.Alike (U.grown after.2.loader))) after.1 after'.1 ∧
      SessionsAlike (U.grown after.2.loader) after.2 after'.2 := by
  intro after after'
  have hopen' : w'.closed = false := h.closed.trans hopen
  rcases compile_alike h.state source with
    ⟨snippet, diags, diags', hne, hne', hcompile, hcompile', hdiags⟩ |
      ⟨snippet, checked, hcompile, hcompile'⟩
  · rw [show after = _ from runUnit_rejected files hopen hne hcompile,
      show after' = _ from runUnit_rejected files hopen' hne' hcompile']
    refine ⟨fun _ => id, .ok (.cons (.rejected _ (U.le_grown _ _ _ hunit) hdiags) .nil), ?_⟩
    refine SessionsAlike.mono ?_ (hle.trans (U.le_grown _))
    exact ⟨h.state.counted _ _ _ _, h.loader, h.closed⟩
  · obtain ⟨lives, lives', m, m', hinstall, hinstall', hkept, hloader⟩ :=
      installs_alike h hsound hsound' hle hmember hsize hcompile hcompile'
        (commit_classes_eq_nil _ _ _ _ checked)
    have hnumbered : w.state.numbered.Alike U w'.state.numbered :=
      (h.state.counted _ _ _ _).mono hle
    obtain ⟨houtside, hresult, hstate, hend⟩ :=
      execute_alike hnumbered hloader hunit files snippet checked
    rw [show after = _ from runUnit_installed files hopen hcompile hinstall,
      show after' = _ from runUnit_installed files hopen' hcompile' hinstall']
    exact ⟨fun code hcode => houtside code (hkept.outside hcode), hresult.outcomes _ _, hstate,
      hend, h.closed⟩

end Language

end ReplEngine
