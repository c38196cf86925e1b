import ReplEngine.Language.SnippetCompiler
import ReplEngine.Proofs.Engine.Turns
import ReplEngine.Proofs.Evaluation.Quiet
import ReplEngine.Proofs.Typing.Uses
set_option autoImplicit false

/-!
# Compiling and running one unit

Compiling gives out the next number and does one of two things: it rejects the unit, with at least
one report on record, or it commits what the unit declares (`compile_cases`).  Running a unit
changes neither what the checker knows nor what is installed (`execute_ran`), and what comes of it
can always be told (`exists_report`).
-/

namespace ReplEngine.Language

open Judge

variable {s : SessionState} {checked : Checked}

/-! ## Compiling -/

/-- The session while a unit is compiled: its number is given out. -/
def SessionState.numbered (s : SessionState) : SessionState := { s with units := s.units + 1 }

/-- A unit that is accepted is committed. -/
theorem compile_accepted {source : String} {item : Item} (hparse : Item.parse source = .ok item)
    (hcheck : item.check s.env s.host (wrapperClass (s.units + 1)) = .ok checked) :
    ∃ snippet, snippet.id = s.units + 1 ∧ s.compile source = s.numbered.commit snippet checked := by
  unfold SessionState.compile
  simp only [hparse, hcheck]
  exact ⟨_, rfl, rfl⟩

/-- What is wrong with a unit: it cannot be read, or it does not pass the check. -/
def SessionState.Faults (s : SessionState) (source : String) (diags : List Diag) : Prop :=
  (∃ d, Item.parse source = .error d ∧ diags = [d]) ∨
    ∃ item, Item.parse source = .ok item ∧
      item.check s.env s.host (wrapperClass (s.units + 1)) = .error diags

theorem SessionState.Faults.ne_nil {source : String} {diags : List Diag}
    (h : s.Faults source diags) : diags ≠ [] := by
  rcases h with ⟨d, -, rfl⟩ | ⟨item, -, hcheck⟩
  · exact List.cons_ne_nil d []
  · exact ne_nil_of_check_error hcheck

/-- A unit with faults is rejected for them. -/
theorem compile_rejected {source : String} {diags : List Diag} (h : s.Faults source diags) :
    ∃ snippet, snippet.id = s.units + 1 ∧ snippet.source = source ∧
      s.compile source = s.numbered.reject snippet diags := by
  unfold SessionState.compile
  rcases h with ⟨d, hparse, rfl⟩ | ⟨item, hparse, hcheck⟩
  · simp only [hparse]
    exact ⟨_, rfl, rfl, rfl⟩
  · simp only [hparse, hcheck]
    exact ⟨_, rfl, rfl, rfl⟩

theorem faults_or_accepted (s : SessionState) (source : String) :
    (∃ diags, s.Faults source diags) ∨
      ∃ item checked, Item.parse source = .ok item ∧
        item.check s.env s.host (wrapperClass (s.units + 1)) = .ok checked := by
  cases hparse : Item.parse source with
  | error d => exact .inl ⟨[d], .inl ⟨d, hparse, rfl⟩⟩
  | ok item =>
    cases hcheck : item.check s.env s.host (wrapperClass (s.units + 1)) with
    | error diags => exact .inl ⟨diags, .inr ⟨item, hparse, hcheck⟩⟩
    | ok checked => exact .inr ⟨item, checked, rfl, hcheck⟩

/-- A unit is rejected, and something is on record against it, or it is accepted. -/
theorem compile_cases (s : SessionState) (source : String) :
    (∃ snippet diags, snippet.id = s.units + 1 ∧ diags ≠ [] ∧
      s.compile source = s.numbered.reject snippet diags) ∨
    ∃ item checked snippet, snippet.id = s.units + 1 ∧ Item.parse source = .ok item ∧
      item.check s.env s.host (wrapperClass (s.units + 1)) = .ok checked ∧
      s.compile source = s.numbered.commit snippet checked := by
  rcases faults_or_accepted s source with ⟨diags, hfaults⟩ | ⟨item, checked, hparse, hcheck⟩
  · obtain ⟨snippet, hid, -, hreject⟩ := compile_rejected hfaults
    exact .inl ⟨snippet, diags, hid, hfaults.ne_nil, hreject⟩
  · obtain ⟨snippet, hid, hcommit⟩ := compile_accepted hparse hcheck
    exact .inr ⟨item, checked, snippet, hid, hparse, hcheck, hcommit⟩

/-- A unit that declares no class has none. -/
theorem commit_classes (hclass : ∀ decl sig, checked ≠ .typeDecl decl sig) (snippet : Snippet) :
    (s.commit snippet checked).1.classes = [] ∧
      (s.commit snippet checked).2.env.classes = s.env.classes := by
  cases checked with
  | typeDecl decl sig => exact absurd rfl (hclass decl sig)
  | expr value line type =>
    unfold SessionState.commit
    simp only
    split <;> exact ⟨rfl, rfl⟩
  | _ => exact ⟨rfl, rfl⟩

theorem commit_body (s : SessionState) (snippet : Snippet) (checked : Checked) :
    (s.commit snippet checked).1.unit.body ≠ .rejected := by
  cases checked with
  | expr value line type =>
    unfold SessionState.commit
    simp only
    split <;> exact nofun
  | _ => exact nofun

/-- Nothing has run between the states; what only running changes is as it was. -/
structure NothingRun (s s' : SessionState) : Prop where
  host : s'.host = s.host
  globals : s'.globals = s.globals
  printed : s'.printed = s.printed

/-- Committing evaluates nothing, and keeps the number that was given out. -/
theorem commit_keeps (s : SessionState) (snippet : Snippet) (checked : Checked) :
    NothingRun s (s.commit snippet checked).2 ∧ (s.commit snippet checked).2.units = s.units := by
  cases checked with
  | expr value line type =>
    unfold SessionState.commit
    simp only
    split <;> exact ⟨⟨rfl, rfl, rfl⟩, rfl⟩
  | _ => exact ⟨⟨rfl, rfl, rfl⟩, rfl⟩

/-- Compiling evaluates nothing, and gives out the next number. -/
theorem compile_keeps (s : SessionState) (source : String) :
    NothingRun s (s.compile source).2 ∧ (s.compile source).2.units = s.units + 1 := by
  rcases compile_cases s source with
    ⟨snippet, diags, -, -, hreject⟩ | ⟨item, checked, snippet, -, -, -, hcommit⟩
  · rw [hreject]
    exact ⟨⟨rfl, rfl, rfl⟩, rfl⟩
  · rw [hcommit]
    obtain ⟨hkeeps, hunits⟩ := commit_keeps s.numbered snippet checked
    exact ⟨⟨hkeeps.host, hkeeps.globals, hkeeps.printed⟩, hunits⟩

/-- The methods of a class that is accepted have pairwise different names. -/
theorem nodup_of_check {decl : ClassDecl} {env : Env} {host : HostRegistry} {wrapper : String}
    (h : (Item.typeDecl decl).check env host wrapper = .ok checked) :
    (decl.methods.map MethodDecl.name).Nodup := by
  rw [check_eq_ok] at h
  unfold Context.checkItem at h
  obtain ⟨sig, hclass, -⟩ := (accepts_bind fun _ => keeps_pure _).mp h
  unfold Context.checkClass at hclass
  obtain ⟨sigs, hsigs, -⟩ :=
    (accepts_bind fun _ => (Context.checkMethods_keeps _ _ _).bind fun _ => keeps_pure _).mp hclass
  exact (Context.nodup_of_accepts hsigs).1

/-- What compiling a class declaration gives when it is accepted. -/
structure CompilesClass (s : SessionState) (source : String) (decl : ClassDecl)
    (compiled : Compiled SnippetUnit) (state : SessionState) : Prop where
  parse : Item.parse source = .ok (.typeDecl decl)
  distinct : (decl.methods.map MethodDecl.name).Nodup
  classes : compiled.classes = [⟨decl.name, (ClassFile.ofDecl decl (s.units + 1)).encode⟩]
  declared : ∃ sig, state.env.classes = s.env.classes.insert decl.name sig

/-- A class declaration that is accepted gives its class file; any other unit gives none, and the
session has the classes that it had. -/
theorem compile_classes {source : String} {compiled : Compiled SnippetUnit} {state : SessionState}
    (h : s.compile source = (compiled, state)) :
    (∃ decl, CompilesClass s source decl compiled state) ∨
      (compiled.classes = [] ∧ state.env.classes = s.env.classes ∧
        (compiled.unit.body = .rejected ∨
          ∀ decl, Item.parse source ≠ .ok (.typeDecl decl))) := by
  rcases compile_cases s source with
    ⟨snippet, diags, -, -, hreject⟩ | ⟨item, checked, snippet, hid, hparse, hcheck, hcommit⟩
  · cases h.symm.trans hreject
    exact .inr ⟨rfl, rfl, .inl rfl⟩
  · obtain rfl : (s.numbered.commit snippet checked).1 = compiled :=
      congrArg Prod.fst (hcommit.symm.trans h)
    obtain rfl : (s.numbered.commit snippet checked).2 = state :=
      congrArg Prod.snd (hcommit.symm.trans h)
    by_cases hclass : ∃ decl sig, checked = .typeDecl decl sig
    · obtain ⟨decl, sig, rfl⟩ := hclass
      obtain rfl := (item_of_check hcheck).1 decl sig rfl
      refine .inl ⟨decl, hparse, nodup_of_check hcheck, ?_, sig, rfl⟩
      rw [← hid]
      rfl
    · obtain ⟨hnone, henv⟩ := commit_classes (s := s.numbered)
        (fun decl sig heq => hclass ⟨decl, sig, heq⟩) snippet
      refine .inr ⟨hnone, henv, .inr fun decl hdecl => ?_⟩
      rw [hparse, Except.ok.injEq] at hdecl
      subst hdecl
      rw [check_eq_ok] at hcheck
      unfold Context.checkItem at hcheck
      obtain ⟨sig, -, hpure⟩ := (accepts_bind fun _ => keeps_pure _).mp hcheck
      exact hclass ⟨decl, sig, (Option.some.inj (accepts_pure.mp hpure)).symm⟩

/-! ## Running -/

/-- What running a unit leaves alone. -/
structure Ran (s : SessionState) (l : Loader) (s' : SessionState) (l' : Loader) : Prop where
  host : s'.host = s.host
  env : s'.env = s.env
  units : s'.units = s.units
  rejections : s'.rejections = s.rejections
  loading : Relation.ReflTransGen Loader.Loading l l'

theorem ran_evaluate {act : Eval Value} (hact : Quiet act) (s : SessionState) (l : Loader) :
    Ran s l (s.evaluate l act).2.1 (s.evaluate l act).2.2 :=
  ⟨rfl, rfl, rfl, rfl, (hact ⟨s.globals, l, s.printed⟩).loading⟩

theorem Ran.bind {s' : SessionState} {l l' : Loader} (h : Ran s l s' l') (name : String)
    (type : Ty) (result : Except Unwind Value) : Ran s l (s'.bind name type result) l' :=
  ⟨h.host, h.env, h.units, h.rejections, h.loading⟩

theorem execute_ran (files : FileTree) (unit : SnippetUnit) (s : SessionState) (l : Loader) :
    let after := SessionState.execute files unit s l
    Ran s l after.2.1 after.2.2 := by
  obtain ⟨snippet, body⟩ := unit
  cases body with
  | rejected | typeDecl | method => exact ⟨rfl, rfl, rfl, rfl, .refl⟩
  | var decl type =>
    obtain ⟨written, name, init, span, line⟩ := decl
    cases init with
    | none => exact ⟨rfl, rfl, rfl, rfl, .refl⟩
    | some init => exact (ran_evaluate (quiet_evalTop files snippet.id line init) s l).bind _ _ _
  | expr value line kept =>
    have hran := ran_evaluate (quiet_evalTop files snippet.id line value) s l
    cases kept with
    | none => exact hran
    | some kept => exact hran.bind _ _ _
  | throw value line => exact ran_evaluate (quiet_throwTop files snippet.id line value) s l

/-- What an event says when its snippet was not rejected. -/
def Told (result : Except CompilerFailure (List Event)) : Prop :=
  ∀ events, result = .ok events → ∃ snippet told, events = [⟨snippet, told⟩] ∧ told ≠ .rejected

theorem told_eventOf (snippet : Snippet) (shown : Value → Option String)
    (result : Except Unwind Value) : Told (SessionState.eventOf snippet shown result) := by
  intro events h
  cases result with
  | ok v =>
    cases h
    exact ⟨_, _, rfl, nofun⟩
  | error unwind =>
    cases unwind with
    | throw exception =>
      cases h
      exact ⟨_, _, rfl, nofun⟩
    | fault fault => cases h

theorem told_execute (files : FileTree) {unit : SnippetUnit} (h : unit.body ≠ .rejected)
    (s : SessionState) (l : Loader) : Told (SessionState.execute files unit s l).1 := by
  obtain ⟨snippet, body⟩ := unit
  have hvalid (text : Option String) : Told (.ok [⟨snippet, .valid text⟩]) := by
    intro events h
    cases h
    exact ⟨_, _, rfl, nofun⟩
  cases body with
  | rejected => exact absurd rfl h
  | typeDecl | method => exact hvalid none
  | var decl type =>
    obtain ⟨written, name, init, span, line⟩ := decl
    cases init with
    | none => exact hvalid _
    | some init => exact told_eventOf _ _ _
  | expr value line kept => cases kept <;> exact told_eventOf _ _ _
  | throw value line => exact told_eventOf _ _ _

/-- An event of a snippet that was not rejected can be told. -/
theorem exists_report_of_told {result : Except CompilerFailure (List Event)} (h : Told result)
    {events : List Event} (hevents : result = .ok events) (diagnostics : Snippet → List Diag) :
    ∃ outcomes, Outcome.report diagnostics events = .ok outcomes := by
  obtain ⟨snippet, told, rfl, htold⟩ := h events hevents
  cases told with
  | rejected => exact absurd rfl htold
  | valid text => exact ⟨_, rfl⟩
  | threw exception => exact ⟨_, rfl⟩

theorem diagnostics_reject (s : SessionState) (snippet : Snippet) (diags : List Diag) :
    (s.reject snippet diags).2.diagnostics snippet = diags := by
  unfold SessionState.diagnostics SessionState.reject
  simp only [List.lookup_cons_self]
  rfl

/-- A unit that was rejected is told of with what is on record against it. -/
theorem report_rejected (s : SessionState) (snippet : Snippet) {diags : List Diag}
    (hne : diags ≠ []) :
    Outcome.report (s.reject snippet diags).2.diagnostics [⟨snippet, .rejected⟩] =
      .ok [.rejected snippet.source diags] := by
  unfold Outcome.report Outcome.reportOne
  simp only [diagnostics_reject]
  cases diags with
  | nil => exact absurd rfl hne
  | cons diag diags => rfl

/-- What comes of a unit can always be told: something is on record against one that was
rejected. -/
theorem exists_report (files : FileTree) {source : String} {compiled : Compiled SnippetUnit}
    {state state' : SessionState} {l l' : Loader} {events : List Event}
    (hcompile : s.compile source = (compiled, state))
    (hexecute : SessionState.execute files compiled.unit state l = (.ok events, state', l')) :
    ∃ outcomes, Outcome.report (SessionState.diagnostics state') events = .ok outcomes := by
  rcases compile_cases s source with
    ⟨snippet, diags, hid, hne, hreject⟩ | ⟨item, checked, snippet, hid, -, -, hcommit⟩
  · cases hcompile.symm.trans hreject
    cases hexecute
    exact ⟨_, report_rejected s.numbered snippet hne⟩
  · have hcompiled : compiled = (s.numbered.commit snippet checked).1 := by
      rw [← hcommit, hcompile]
    have htold := told_execute files (hcompiled ▸ commit_body s.numbered snippet checked) state l
    rw [hexecute] at htold
    exact exists_report_of_told htold rfl _

/-- The workspace when a unit has been evaluated in it, whatever came of that. -/
def afterUnit (files : FileTree) (w : Workspace SessionState) (source : String) :
    Workspace SessionState :=
  ((Workspace.evaluate snippetCompiler files source).run w).2

/-- The workspace behind a unit. -/
theorem afterUnit_of_unitRun {files : FileTree} {source : String} {w w' : Workspace SessionState}
    {requests : List (Request SnippetUnit)}
    {result : Except EngineError (List Outcome)}
    (hunit : Workspace.UnitRun snippetCompiler files source w requests result w')
    (hopen : w.closed = false) : afterUnit files w source = w' := by
  have hevaluate := Workspace.evaluate_run snippetCompiler files source hopen
  unfold afterUnit
  cases hunit with
  | notCompiled hcompile =>
    simp only [hcompile] at hevaluate
    rw [hevaluate]
  | notInstalled hcompile hinstall =>
    simp only [hcompile, hinstall] at hevaluate
    rw [hevaluate]
  | notExecuted hcompile hinstall hexecute =>
    simp only [hcompile, hinstall, hexecute] at hevaluate
    rw [hevaluate]
  | executed hcompile hinstall hexecute =>
    simp only [hcompile, hinstall, hexecute] at hevaluate
    rw [hevaluate]

end ReplEngine.Language
