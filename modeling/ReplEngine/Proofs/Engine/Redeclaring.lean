import Mathlib
import ReplEngine.Proofs.Engine.Compiling
import ReplEngine.Proofs.Evaluation.Declaring
set_option autoImplicit false

/-!
# Declaring a name again

A unit that is accepted may declare a name that code accepted before uses, and nothing checks that
code again.  `evaluate_keeps_accepted` says what stays as it was: code that uses no name whose
meaning the unit changes, and variables that the unit does not bind.  `redeclaration_breaks` shows
that no more can be said: a method that reads a variable of another type now is wrong, and so can
the value of the variable be that the unit binds, where there are objects of an older class.
-/

namespace ReplEngine.Language

variable {s : SessionState} {l : Loader} {checked : Checked}

/-! ## One unit -/

theorem Agrees.hasValue (ha : Agrees s l) (name : String) : s.HasValue name := by
  intro type htype
  obtain ⟨v, hv, hconforms⟩ := ha.vars htype
  exact ⟨v, hv, hconforms.isA⟩

theorem Agrees.numbered (ha : Agrees s l) : Agrees s.numbered l :=
  ⟨ha.host, ha.plain, ha.known, ha.installed, ha.notStandard, ha.vars, ha.methods, ha.noMethods,
    ha.classes, ha.shown⟩

/-- The classes of a unit are those that it declares. -/
theorem mem_classes_commit {snippet : Snippet} {name : String}
    (h : name ∈ (s.commit snippet checked).1.classes.map ClassBytes.name) (method : String) :
    checked.Replaces (.member name method) := by
  cases checked with
  | typeDecl decl sig => exact List.mem_singleton.mp h
  | expr value line type =>
    unfold SessionState.commit at h
    simp only at h
    split at h
    · cases h
    · cases h
  | _ => cases h

/-- A unit that binds a variable declares no class. -/
theorem classes_of_bound {bound : String × Ty} (h : checked.bound? s = some bound)
    (snippet : Snippet) : (s.commit snippet checked).1.classes = [] := by
  cases checked with
  | typeDecl decl sig => cases h
  | expr value line type =>
    unfold SessionState.commit
    simp only
    split <;> rfl
  | _ => rfl

section

variable {w : Workspace SessionState} (hopen : w.closed = false) (files : FileTree)
  {source : String} {item : Item} (hparse : Item.parse source = .ok item)
  (hcheck : item.check w.state.env w.state.host (wrapperClass (w.state.units + 1)) = .ok checked)

include hopen hparse hcheck

/-- A unit that is accepted is committed, its classes are installed, and it is run unless they
could not be. -/
theorem evaluate_accepted :
    let after := afterUnit files w source
    ∃ snippet compiled state loader, w.state.numbered.commit snippet checked = (compiled, state) ∧
      ((Loader.install compiled.classes).run w.loader).2 = loader ∧
      ((after = { w with state := state, loader := loader } ∧ compiled.classes ≠ []) ∨
        ∃ result state' loader', SessionState.execute files compiled.unit state loader =
          (result, state', loader') ∧ after = { w with state := state', loader := loader' }) := by
  obtain ⟨snippet, -, hcompile⟩ := compile_accepted hparse hcheck
  cases hcommit : w.state.numbered.commit snippet checked with
  | mk compiled state =>
    have hcompiled : snippetCompiler.compile source w.state = (.ok compiled, state) := by
      show (Except.ok (w.state.compile source).1, (w.state.compile source).2) = _
      rw [hcompile, hcommit]
    unfold afterUnit
    rw [Workspace.evaluate_run snippetCompiler files source hopen, hcompiled]
    simp only
    refine ⟨snippet, compiled, state, _, hcommit, rfl, ?_⟩
    cases hinstall : (Loader.install compiled.classes).run w.loader with
    | mk installed loader =>
      simp only
      cases installed with
      | error error =>
        refine .inl ⟨rfl, fun hnone => ?_⟩
        rw [hnone] at hinstall
        cases hinstall
      | ok lives =>
        refine .inr ?_
        cases hexecute : SessionState.execute files compiled.unit state loader with
        | mk result ran =>
          have hran : snippetCompiler.execute files compiled.unit state loader = (result, ran) :=
            hexecute
          simp only [hran]
          cases result with
          | error failure => exact ⟨_, _, _, rfl, rfl⟩
          | ok events => exact ⟨_, _, _, rfl, rfl⟩

/-- An accepted unit leaves alone what it does not declare, whether or not its classes could be
installed and whatever came of running it. -/
theorem evaluate_leaves :
    let after := afterUnit files w source
    Leaves checked w.state w.loader after.state after.loader := by
  intro after
  obtain ⟨snippet, compiled, state, loader, hcommit, hloader, hafter⟩ :=
    evaluate_accepted hopen files hparse hcheck
  have hstamps : ∀ className method, ¬ checked.Replaces (.member className method) →
      (loader.versions className).map Version.stamp =
        (w.loader.versions className).map Version.stamp := by
    intro className method hclass
    rw [← hloader]
    refine Loader.stamps_install (fun hname => ?_) w.loader
    have hclasses : (w.state.numbered.commit snippet checked).1.classes = compiled.classes := by
      rw [hcommit]
    exact hclass (mem_classes_commit (hclasses ▸ hname) method)
  rcases hafter with ⟨hafter, -⟩ | ⟨result, state', loader', hexecute, hafter⟩
  · obtain ⟨values, hcommitted⟩ := commit_state w.state.numbered checked snippet
    rw [hcommit] at hcommitted
    rw [show after = _ from hafter, show state = _ from hcommitted]
    exact ⟨rfl, rfl, fun _ _ => rfl, fun _ _ => rfl, hstamps⟩
  · have hran := execute_leaves files w.state.numbered checked snippet loader
    simp only [hcommit, hexecute] at hran
    rw [show after = _ from hafter]
    exact ⟨hran.env, hran.host, hran.vars, hran.methods, fun className method hclass =>
      (hran.stamps className method hclass).trans (hstamps className method hclass)⟩

/-- Where the session agrees with what the checker knows of it, every variable has a value of its
type when an accepted unit has run, and so has the one that it binds. -/
theorem evaluate_hasValue (ha : Agrees w.state w.loader) (name : String) :
    (afterUnit files w source).state.HasValue name := by
  have hleaves : Leaves checked w.state w.loader _ _ := evaluate_leaves hopen files hparse hcheck
  by_cases hbound : ∃ type, checked.bound? w.state = some (name, type)
  · obtain ⟨bound, hbound⟩ := hbound
    obtain ⟨snippet, compiled, state, loader, hcommit, hloader, hafter⟩ :=
      evaluate_accepted hopen files hparse hcheck
    have hnone : compiled.classes = [] := by
      rw [← classes_of_bound (s := w.state.numbered) hbound snippet, hcommit]
    rcases hafter with ⟨-, hclasses⟩ | ⟨result, state', loader', hexecute, hafter⟩
    · exact absurd hnone hclasses
    -- Nothing is installed, so the unit runs in the session that agreed.
    · rw [hnone] at hloader
      obtain rfl : w.loader = loader := hloader
      have hvars := (execute_accepted ha.numbered files snippet hcheck).2
      simp only [hcommit, hexecute] at hvars
      obtain ⟨values, hcommitted⟩ := commit_state w.state.numbered checked snippet
      have henv : (afterUnit files w source).state.env = state.env := by
        rw [hleaves.env, show state = _ from congrArg Prod.snd hcommit ▸ hcommitted]
        rfl
      intro type htype
      rw [henv] at htype
      obtain ⟨v, hv, hconforms⟩ := hvars name type htype
      exact ⟨v, hafter ▸ hv, hconforms.isA⟩
  · exact (hleaves.hasValue fun type hsome => hbound ⟨type, hsome⟩).mpr (ha.hasValue name)

end

/-- **Declaring names again.**  When an accepted unit has run, whatever came of it:
- a method that the unit does not declare itself is stored if it was stored before;
- a method that was accepted still is, if it uses no name whose meaning the unit changes;
- the methods that the unit declares are accepted;
- a variable that the unit does not bind has a value of its type if it had one before;
- every variable has a value of its type, the bound one included, if the session agreed with what
  the checker knows of it. -/
theorem evaluate_keeps_accepted {w : Workspace SessionState} (hopen : w.closed = false)
    (files : FileTree) {source : String} {item : Item} (hparse : Item.parse source = .ok item)
    (hcheck : item.check w.state.env w.state.host (wrapperClass (w.state.units + 1)) =
      .ok checked) :
    let before := w.state
    let after := afterUnit files w source
    (∀ place m sig, ¬ checked.Replaces place →
      (Stores after.state after.loader place m sig ↔ Stores before w.loader place m sig)) ∧
    (∀ wrapper m sig, (unitContext before.env before.host wrapper).AcceptsMethod m sig →
      (∀ use, (unitContext before.env before.host wrapper).MethodUses m sig use →
        ¬ checked.Changes before use) →
      (unitContext after.state.env after.state.host wrapper).AcceptsMethod m sig) ∧
    (∀ m sig, checked.Declares m sig →
      (unitContext after.state.env after.state.host
        (wrapperClass (before.units + 1))).AcceptsMethod m sig) ∧
    (∀ name, (∀ type, checked.bound? before ≠ some (name, type)) →
      (after.state.HasValue name ↔ before.HasValue name)) ∧
    (Agrees before w.loader → ∀ name, after.state.HasValue name) := by
  intro before after
  have hleaves : Leaves checked before w.loader after.state after.loader :=
    evaluate_leaves hopen files hparse hcheck
  refine ⟨fun place m sig hplace => hleaves.stores_iff hplace m sig,
    fun wrapper m sig haccepts huses => hleaves.acceptsMethod haccepts huses,
    fun m sig hm => ?_, fun name hname => hleaves.hasValue hname, fun ha => ?_⟩
  · rw [hleaves.env, hleaves.host]
    exact acceptsMethod_of_declares hcheck hm
  · exact evaluate_hasValue hopen files hparse hcheck ha

/-- The only names in the body of `twice` are its parameter. -/
theorem not_methodUses_twice (name : String) :
    ¬ (unitContext pairSession.env pairSession.host "").MethodUses twiceMethod ⟨[.int], .int⟩
      (.var name) := by
  intro h
  cases h with
  | body h =>
    cases h with
    | head h =>
      cases h with
      | ret h =>
        cases h with
        | lhs h =>
          cases h with
          | name hlocal => cases hlocal
        | rhs h =>
          cases h with
          | name hlocal => cases hlocal
    | tail _ h => cases h

/-- In a session with a class, a method and a variable, the variable gets another type.  The method
does not use it, and is accepted as before. -/
theorem evaluate_keeps_accepted_pair :
    let after := afterUnit {} ⟨pairSession, pairLoader, false⟩ "String p = \"s\";"
    Stores after.state after.loader (.topLevel "twice") twiceMethod ⟨[.int], .int⟩ ∧
      (unitContext after.state.env after.state.host "").AcceptsMethod twiceMethod ⟨[.int], .int⟩ ∧
      ∀ name, after.state.HasValue name := by
  have hparse : Item.parse "String p = \"s\";" =
      .ok (.stmt (.var ⟨.string, "p", some (.string "s" ⟨11, 14⟩), ⟨0, 14⟩, 1⟩)) := by cbv
  obtain ⟨hstores, haccepts, -, -, hvalues⟩ := evaluate_keeps_accepted
    (w := ⟨pairSession, pairLoader, false⟩) rfl {} hparse rfl
  refine ⟨(hstores (.topLevel "twice") _ _ id).mpr ?_, haccepts "" _ _ ⟨rfl, rfl⟩ ?_,
    hvalues pairSession_agrees⟩
  · exact .topLevel (m := ⟨twiceMethod, 2⟩) rfl rfl
  · intro use huse hchanges
    cases hchanges with
    | var hbound hother => exact not_methodUses_twice _ huse

/-! ## What can become wrong -/

/-- Every method that is stored is accepted at the signature on record for it. -/
def CodeAccepted (w : Workspace SessionState) : Prop :=
  ∀ place m sig, Stores w.state w.loader place m sig →
    ∃ wrapper, (unitContext w.state.env w.state.host wrapper).AcceptsMethod m sig

/-- The workspace of a new session when units have been evaluated in it, one after the other. -/
def workspaceAfter (sources : List String) : Workspace SessionState :=
  sources.foldl (afterUnit {}) (.ofCompiler snippetCompiler { host := .standard } .standard)

/-- `int f() { return x; }` -/
def readsX : MethodDecl :=
  ⟨.int, "f", [], [.ret (some (.name "x" ⟨17, 18⟩)) ⟨10, 18⟩ 1], ⟨4, 5⟩⟩

/-- A method that reads `x` was declared while `x` was an `int`. -/
def readingX : Workspace SessionState where
  state :=
    { host := .standard
      env := ⟨⟨[("x", .int)]⟩, ⟨[("f", ⟨[], .int⟩)]⟩, {}⟩
      globals := ⟨⟨[("x", .int 1)]⟩, ⟨[("f", ⟨readsX, 2⟩)]⟩, 0⟩
      units := 2 }
  loader := { definer := defineSnippet, host := .standard }

/-- The session is reached, and goes on with `x` a `String`. -/
theorem readingX_run :
    workspaceAfter ["int x = 1;", "int f() { return x; }"] = readingX ∧
    (afterUnit {} readingX "String x = \"s\";").state =
      { readingX.state with
        env := ⟨⟨[("x", .string)]⟩, ⟨[("f", ⟨[], .int⟩)]⟩, {}⟩
        globals := ⟨⟨[("x", .string "s")]⟩, ⟨[("f", ⟨readsX, 2⟩)]⟩, 0⟩
        units := 3 } := by
  constructor
  · cbv
  · cbv

theorem readingX_codeAccepted : CodeAccepted readingX := by
  intro place m sig hstores
  rcases hstores with ⟨hm, hsig⟩ | ⟨-, -, -, hclass, -⟩
  · obtain ⟨-, rfl⟩ := Table.get?_single.mp hm
    obtain ⟨-, rfl⟩ := Table.get?_single.mp hsig
    exact ⟨"", rfl, rfl⟩
  · cases hclass

theorem readingX_hasValue (name : String) : readingX.state.HasValue name := by
  intro type htype
  obtain ⟨rfl, rfl⟩ := Table.get?_single.mp htype
  exact ⟨.int 1, rfl, trivial⟩

/-- `int m() { return 1; }`, in the first class `A`. -/
def returnsOne : MethodDecl :=
  ⟨.int, "m", [], [.ret (some (.int 1 ⟨27, 28⟩)) ⟨20, 28⟩ 1], ⟨14, 15⟩⟩

/-- `boolean m() { return true; }`, in the second class `A`. -/
def returnsTrue : MethodDecl :=
  ⟨.boolean, "m", [], [.ret (some (.bool true ⟨31, 35⟩)) ⟨24, 35⟩ 1], ⟨18, 19⟩⟩

/-- The class that the first unit declares. -/
def firstA : ClassFile := ⟨"A", 1, [returnsOne]⟩

/-- The class that the third unit declares. -/
def secondA : ClassFile := ⟨"A", 3, [returnsTrue]⟩

/-- An object was made before its class was declared again. -/
def olderObject : Workspace SessionState where
  state :=
    { host := .standard
      env := ⟨⟨[("a", .object "A")]⟩, {}, ⟨[("A", ⟨⟨[("m", ⟨[], .boolean⟩)]⟩⟩)]⟩⟩
      globals :=
        ⟨⟨[("a", .object ⟨"A", .installed 1, .snippet firstA⟩ 0x9E3779B9)]⟩, {}, 1⟩
      units := 3 }
  loader :=
    { definer := defineSnippet
      host := .standard
      installed := ⟨[("A",
        [⟨firstA.encode, 1, some ⟨⟨"A", .installed 1, .snippet firstA⟩, true⟩⟩,
          ⟨secondA.encode, 2, some ⟨⟨"A", .installed 2, .snippet secondA⟩, true⟩⟩])]⟩
      nextGeneration := 3
      defined := 2 }

/-- The session is reached, and goes on with `a` a `boolean` that is `1`. -/
theorem olderObject_run :
    workspaceAfter ["class A { int m() { return 1; } }", "A a = new A();",
      "class A { boolean m() { return true; } }"] = olderObject ∧
    (afterUnit {} olderObject "boolean a = a.m();").state =
      { olderObject.state with
        env := ⟨⟨[("a", .boolean)]⟩, {}, ⟨[("A", ⟨⟨[("m", ⟨[], .boolean⟩)]⟩⟩)]⟩⟩
        globals := ⟨⟨[("a", .int 1)]⟩, {}, 1⟩
        units := 4 } := by
  constructor
  · cbv
  · cbv

theorem decode_secondA : ClassFile.decode secondA.encode = .ok secondA := by cbv

theorem olderObject_codeAccepted : CodeAccepted olderObject := by
  intro place m sig hstores
  rcases hstores with ⟨-, hsig⟩ | ⟨hbytes, hfile, hm, hclass, hsig⟩
  · cases hsig
  · obtain ⟨rfl, rfl⟩ := Table.get?_single.mp hclass
    obtain ⟨rfl, rfl⟩ := Table.get?_single.mp hsig
    cases hbytes
    cases decode_secondA.symm.trans hfile
    cases hm
    exact ⟨"", rfl, rfl⟩

theorem olderObject_hasValue (name : String) : olderObject.state.HasValue name := by
  intro type htype
  obtain ⟨rfl, rfl⟩ := Table.get?_single.mp htype
  exact ⟨_, rfl, .inr rfl⟩

/-- Two sessions in which every stored method is accepted and every variable has a value of its
type.  In the first one a variable gets another type, and the method that reads it is not accepted
any more.  In the second one a variable is bound to what the object of the older class returns,
which is not of the type that the newer class declares. -/
theorem redeclaration_breaks :
    (let before := workspaceAfter ["int x = 1;", "int f() { return x; }"]
      let after := afterUnit {} before "String x = \"s\";"
      CodeAccepted before ∧ (∀ name, before.state.HasValue name) ∧
        Stores after.state after.loader (.topLevel "f") readsX ⟨[], .int⟩ ∧
        ∀ wrapper, ¬ (unitContext after.state.env after.state.host wrapper).AcceptsMethod readsX
          ⟨[], .int⟩) ∧
    (let before := workspaceAfter ["class A { int m() { return 1; } }", "A a = new A();",
        "class A { boolean m() { return true; } }"]
      let after := afterUnit {} before "boolean a = a.m();"
      CodeAccepted before ∧ (∀ name, before.state.HasValue name) ∧
        ¬ after.state.HasValue "a") := by
  rw [readingX_run.1, olderObject_run.1]
  refine ⟨⟨readingX_codeAccepted, readingX_hasValue, ?_, ?_⟩, olderObject_codeAccepted,
    olderObject_hasValue, ?_⟩
  · rw [readingX_run.2]
    exact .topLevel (m := ⟨readsX, 2⟩) rfl rfl
  · intro wrapper haccepts
    -- A `String` is returned where an `int` is on record.
    rw [readingX_run.2] at haccepts
    have hreports := congrArg (fun answer => answer.2.length) haccepts.body
    exact Nat.one_ne_zero hreports
  · intro h
    rw [olderObject_run.2] at h
    obtain ⟨v, hv, hisA⟩ := h .boolean rfl
    cases hv
    exact hisA

end ReplEngine.Language
