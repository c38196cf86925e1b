import ReplEngine.Proofs.Engine.UnitHistory
import ReplEngine.Proofs.Evaluation.Objects
set_option autoImplicit false

/-!
# The objects of a session

A session, with the objects on record that its units have made (`SessionMaking`).  The count of
objects has gone on by one for each of them, and every object in a variable is one of them
(`SessionMaking.recorded`); so no two of them have the same identity, or the same text if they are
of one class (`objects_apart`).  An exception is no object here: it has no identity.
-/

namespace ReplEngine.Language

variable {host : HostRegistry} {w : Workspace SessionState} {made : List Made}

/-! ## What a unit makes -/

/-- What running a compiled unit makes. -/
def madeByUnit (files : FileTree) (unit : SnippetUnit) (s : SessionState) (l : Loader) :
    List Made :=
  let w : World := ⟨s.globals, l, s.printed⟩
  match unit.body with
  | .var decl _ =>
    match decl.init with
    | some init => madeByTop files unit.snippet.id decl.line init w
    | none => []
  | .expr value line _ => madeByTop files unit.snippet.id line value w
  | .throw value line => madeByTop files unit.snippet.id line value w
  | _ => []

/-- What a unit makes, which runs if its classes can be installed. -/
def madeBySource (files : FileTree) (w : Workspace SessionState) (source : String) : List Made :=
  let (compiled, state) := w.state.compile source
  match (Loader.install compiled.classes).run w.loader with
  | (.ok _, loader) => madeByUnit files compiled.unit state loader
  | (.error _, _) => []

section

variable {files : FileTree} {source : String} {compiled : Compiled SnippetUnit}
  {state : SessionState} {lives : List LiveClass} {loader : Loader}

theorem madeBySource_installed (hcompile : w.state.compile source = (compiled, state))
    (hinstall : (Loader.install compiled.classes).run w.loader = (.ok lives, loader)) :
    madeBySource files w source = madeByUnit files compiled.unit state loader := by
  unfold madeBySource
  simp only [hcompile, hinstall]

theorem madeBySource_notInstalled {error : Loader.InstallError}
    (hcompile : w.state.compile source = (compiled, state))
    (hinstall : (Loader.install compiled.classes).run w.loader = (.error error, loader)) :
    madeBySource files w source = [] := by
  unfold madeBySource
  simp only [hcompile, hinstall]

end

/-- The objects of a session: as many have been counted, and the variables hold no others. -/
structure Recorded (made : List Made) (count : UInt32) (vars : Table Value) : Prop where
  counted : Numbers 0 made count
  held : AllIn (fun v => v.IsObject → ∃ m ∈ made, v = m.value) vars

theorem not_isObject_default (type : Ty) : ¬ (Value.default type).IsObject := by
  cases type <;> exact id

section

variable {P : Value → Prop} (hplain : ∀ v : Value, ¬ v.IsObject → P v)

include hplain

theorem allIn_bind {s : SessionState} (hvars : AllIn P s.globals.vars) (name : String)
    (type : Ty) {result : Except Unwind Value} (hresult : ∀ v, result = .ok v → P v) :
    AllIn P (s.bind name type result).globals.vars := by
  cases result with
  | ok v => exact hvars.insert (hresult v rfl) name
  | error unwind => exact hvars.insert (hplain _ (not_isObject_default type)) name

/-- Running a unit keeps the record. -/
theorem execute_records (files : FileTree) (unit : SnippetUnit) (s : SessionState) (l : Loader)
    (hvars : AllIn P s.globals.vars)
    (hmade : ∀ m ∈ madeByUnit files unit s l, P m.value) :
    let after := (SessionState.execute files unit s l).2.1.globals
    Numbers s.globals.objects (madeByUnit files unit s l) after.objects ∧ AllIn P after.vars := by
  let w : World := ⟨s.globals, l, s.printed⟩
  obtain ⟨snippet, body⟩ := unit
  have htop := records_evalTop hplain files snippet.id
  cases body with
  | rejected | typeDecl | method => exact ⟨.nil _, hvars⟩
  | var decl type =>
    obtain ⟨written, name, init, span, line⟩ := decl
    cases init with
    | none =>
      have hdefault : ∀ v, .ok (Value.default type) = (.ok v : Except Unwind Value) → P v := by
        rintro v ⟨⟩
        exact hplain _ (not_isObject_default type)
      exact ⟨.nil _, allIn_bind hplain hvars name type hdefault⟩
    | some init =>
      obtain ⟨hnumbers, hkept, hpost⟩ := htop line init w hvars hmade
      exact ⟨hnumbers, allIn_bind hplain (hkept ▸ hvars) name type hpost⟩
  | expr value line kept =>
    obtain ⟨hnumbers, hkept, hpost⟩ := htop line value w hvars hmade
    cases kept with
    | none => exact ⟨hnumbers, hkept ▸ hvars⟩
    | some kept => exact ⟨hnumbers, allIn_bind hplain (hkept ▸ hvars) kept.1 kept.2 hpost⟩
  | throw value line =>
    obtain ⟨hnumbers, hkept, -⟩ :=
      records_throwTop hplain files snippet.id line value w hvars hmade
    exact ⟨hnumbers, hkept ▸ hvars⟩

end

theorem Recorded.execute {s : SessionState} (h : Recorded made s.globals.objects s.globals.vars)
    (files : FileTree) (unit : SnippetUnit) (l : Loader) :
    let after := (SessionState.execute files unit s l).2.1.globals
    Recorded (made ++ madeByUnit files unit s l) after.objects after.vars := by
  obtain ⟨hnumbers, hheld⟩ := execute_records
    (P := fun v => v.IsObject → ∃ m ∈ made ++ madeByUnit files unit s l, v = m.value)
    (fun v hv hobject => absurd hobject hv) files unit s l
    (fun name v hv hobject =>
      (h.held hv hobject).imp fun m hm => ⟨List.mem_append_left _ hm.1, hm.2⟩)
    (fun m hm _ => ⟨m, List.mem_append_right _ hm, rfl⟩)
  exact ⟨h.counted.append hnumbers, hheld⟩

/-- A unit keeps the record, whatever comes of it. -/
theorem Recorded.afterUnit (h : Recorded made w.state.globals.objects w.state.globals.vars)
    (hopen : w.closed = false) (files : FileTree) (source : String) :
    let after := (afterUnit files w source).state.globals
    Recorded (made ++ madeBySource files w source) after.objects after.vars := by
  obtain ⟨requests, result, w', hunit⟩ := Workspace.exists_unitRun snippetCompiler files source w
  rw [afterUnit_of_unitRun hunit hopen]
  have hcompiled {compiled : Compiled SnippetUnit} {state : SessionState}
      (hcompile : snippetCompiler.compile source w.state = (.ok compiled, state)) :
      w.state.compile source = (compiled, state) ∧
        Recorded made state.globals.objects state.globals.vars := by
    obtain ⟨hresult, hstate⟩ := Prod.ext_iff.1 hcompile
    obtain rfl : (w.state.compile source).1 = compiled := Except.ok.inj hresult
    obtain rfl : (w.state.compile source).2 = state := hstate
    rw [(compile_keeps w.state source).1.globals]
    exact ⟨rfl, h⟩
  cases hunit with
  | notCompiled hcompile => cases hcompile
  | notInstalled hcompile hinstall =>
    obtain ⟨hcompile, hrecorded⟩ := hcompiled hcompile
    rw [madeBySource_notInstalled hcompile hinstall, List.append_nil]
    exact hrecorded
  | @notExecuted compiled state _ _ loader _ _ hcompile hinstall hexecute
  | @executed compiled state _ _ loader _ _ hcompile hinstall hexecute =>
    obtain ⟨hcompile, hrecorded⟩ := hcompiled hcompile
    have hafter := hrecorded.execute files compiled.unit loader
    rw [show SessionState.execute files compiled.unit state loader = _ from hexecute] at hafter
    rw [madeBySource_installed hcompile hinstall]
    exact hafter

/-! ## Sessions -/

/-- The workspaces that a session over a host comes to, with the objects that its units have made,
in order. -/
inductive SessionMaking (host : HostRegistry) : List Made → Workspace SessionState → Prop where
  | start : SessionMaking host [] (.ofCompiler snippetCompiler { host := host } host)
  | entry {made : List Made} {w : Workspace SessionState} (h : SessionMaking host made w)
      (files : FileTree) (path : String) : SessionMaking host made (w.addEntry files path)
  | extended {made : List Made} {w : Workspace SessionState} (h : SessionMaking host made w)
      (files : FileTree) (paths : String) :
      SessionMaking host made ((Workspace.extend files paths).run w).2
  | evaluated {made : List Made} {w : Workspace SessionState} (h : SessionMaking host made w)
      (files : FileTree) (source : String) (hopen : w.closed = false) :
      SessionMaking host (made ++ madeBySource files w source) (afterUnit files w source)
  | printedTaken {made : List Made} {w : Workspace SessionState} (h : SessionMaking host made w) :
      SessionMaking host made { w with state := w.state.takePrinted.2 }
  | closed {made : List Made} {w : Workspace SessionState} (h : SessionMaking host made w) :
      SessionMaking host made (w.close snippetCompiler)

/-- Every session has a record of its objects. -/
theorem Session.exists_making {n : Nat} (h : Session host n w) :
    ∃ made, SessionMaking host made w := by
  induction h with
  | start => exact ⟨[], .start⟩
  | entry _ files path ih => exact ih.imp fun _ h => h.entry files path
  | extended _ files paths ih => exact ih.imp fun _ h => h.extended files paths
  | evaluated _ files hopen _ ih => 
    obtain ⟨made, h⟩ := ih
    exact ⟨_, h.evaluated files _ hopen⟩
  | printedTaken _ ih => exact ih.imp fun _ h => h.printedTaken
  | closed _ ih => exact ih.imp fun _ h => h.closed

/-- Every evaluator has a record of its objects. -/
theorem InUse.exists_making {e : Evaluator SessionState} (h : InUse host e) :
    ∃ made, SessionMaking host made e.workspace := by
  obtain ⟨n, hsession⟩ := h.session
  exact hsession.exists_making

/-- A session that is open counts on from its objects. -/
theorem SessionMaking.recorded (h : SessionMaking host made w) :
    ∃ count, Recorded made count w.state.globals.vars ∧
      (w.closed = false → count = w.state.globals.objects) := by
  induction h with
  | start => exact ⟨0, ⟨.nil 0, allIn_empty⟩, fun _ => rfl⟩
  | entry _ files path ih => exact ih
  | extended _ files paths ih =>
    rw [extend_run]
    split
    · exact ih
    · split <;> exact ih
  | evaluated _ files source hopen ih =>
    obtain ⟨count, hrecorded, hcount⟩ := ih
    obtain rfl := hcount hopen
    exact ⟨_, hrecorded.afterUnit hopen files source, fun _ => rfl⟩
  | printedTaken _ ih => exact ih
  | closed _ ih =>
    unfold Workspace.close
    split
    · exact ih
    · obtain ⟨count, hrecorded, -⟩ := ih
      exact ⟨count, ⟨hrecorded.counted, allIn_empty⟩, nofun⟩

/-- **Objects are apart.**  Every evaluator has a record of the objects that its units have made,
whatever the units are and however they have ended.  As long as there are fewer than 2^32 of them,
no two have the same identity, and no two of classes with one name have the same text.  The record
is as long as the count while the session is open, and a variable holds no object but one of it. -/
theorem objects_apart (host : HostRegistry) :
    (∀ e, InUse host e → ∃ made, SessionMaking host made e.workspace) ∧
    ∀ made w, SessionMaking host made w → made.length < 2 ^ 32 →
      (made.Pairwise fun m m' => m.identity ≠ m'.identity ∧
        (m.cls.name = m'.cls.name →
          m.value.display ≠ m'.value.display ∧ m.value.render ≠ m'.value.render)) ∧
      (w.closed = false → made.length = w.state.globals.objects.toNat) ∧
      ∀ name cls identity,
        w.state.globals.vars.get? name = some (.object cls identity) → ⟨cls, identity⟩ ∈ made := by
  refine ⟨fun e h => h.exists_making, fun made w h hfew => ?_⟩
  obtain ⟨count, hrecorded, hcount⟩ := h.recorded
  refine ⟨(hrecorded.counted.pairwise_ne hfew).imp fun {m m'} hidentity => ?_, fun hopen => ?_,
    fun name cls identity hheld => ?_⟩
  · exact ⟨hidentity, fun hname => ⟨Made.display_ne hidentity hname,
      Made.display_ne hidentity hname⟩⟩
  · rw [← hcount hopen, hrecorded.counted.last_eq, UInt32.zero_add,
      UInt32.toNat_ofNat_of_lt' hfew]
  · obtain ⟨m, hm, hvalue⟩ := hrecorded.held hheld trivial
    cases hvalue
    exact hm

/-- The class that `class A { }` declares. -/
def emptyA : ClassObject := ⟨"A", .installed 1, .snippet ⟨"A", 1, []⟩⟩

/-- A session in which the class has been declared: its variables, and its counts of objects, units
and values. -/
def withEmptyA (vars : List (String × Ty × Value)) (objects units values : UInt32) :
    Workspace SessionState where
  state :=
    { host := .standard
      env :=
        { vars := ⟨vars.map fun var => (var.1, var.2.1)⟩
          classes := ⟨[("A", ⟨{}⟩)]⟩ }
      globals := ⟨⟨vars.map fun var => (var.1, var.2.2)⟩, {}, objects⟩
      units := units
      values := values }
  loader :=
    { definer := defineSnippet
      host := .standard
      installed := ⟨[("A", [⟨ClassFile.encode ⟨"A", 1, []⟩, 1, some ⟨emptyA, true⟩⟩])]⟩
      nextGeneration := 2
      defined := 1 }

/-- A variable with the first object. -/
def firstObject : String × Ty × Value := ("a", .object "A", .object emptyA 0x9E3779B9)

/-- What the units of a session make: the second object is made by a unit that fails. -/
theorem withEmptyA_makes :
    madeBySource {} (workspaceAfter []) "class A { }" = [] ∧
    madeBySource {} (withEmptyA [] 0 1 0) "A a = new A();" = [⟨emptyA, 0x9E3779B9⟩] ∧
    madeBySource {} (withEmptyA [firstObject] 1 2 0) "\"\" + new A() + 1 / 0" =
      [⟨emptyA, 0x3C6EF372⟩] ∧
    madeBySource {} (withEmptyA [("$1", .string, .null), firstObject] 2 3 1) "A b = new A();" =
      [⟨emptyA, 0xDAA66D2B⟩] := by
  refine ⟨?_, ?_, ?_, ?_⟩
  · cbv
  · cbv
  · cbv
  · cbv

theorem withEmptyA_run :
    afterUnit {} (workspaceAfter []) "class A { }" = withEmptyA [] 0 1 0 ∧
    afterUnit {} (withEmptyA [] 0 1 0) "A a = new A();" = withEmptyA [firstObject] 1 2 0 ∧
    afterUnit {} (withEmptyA [firstObject] 1 2 0) "\"\" + new A() + 1 / 0" =
      withEmptyA [("$1", .string, .null), firstObject] 2 3 1 := by
  refine ⟨?_, ?_, ?_⟩
  · cbv
  · cbv
  · cbv

/-- Three objects of one class, the second of them made by a unit that fails. -/
theorem objects_apart_failing :
    let w := workspaceAfter ["class A { }", "A a = new A();", "\"\" + new A() + 1 / 0",
      "A b = new A();"]
    let made : List Made :=
      [⟨emptyA, 0x9E3779B9⟩, ⟨emptyA, 0x3C6EF372⟩, ⟨emptyA, 0xDAA66D2B⟩]
    SessionMaking .standard made w ∧ made.length < 2 ^ 32 ∧
      (made.Pairwise fun m m' => m.identity ≠ m'.identity ∧
        (m.cls.name = m'.cls.name →
          m.value.display ≠ m'.value.display ∧ m.value.render ≠ m'.value.render)) ∧
      (w.closed = false → made.length = w.state.globals.objects.toNat) ∧
      ∀ name cls identity,
        w.state.globals.vars.get? name = some (.object cls identity) → ⟨cls, identity⟩ ∈ made := by
  intro w made
  obtain ⟨hclass, hfirst, hfails⟩ := withEmptyA_run
  obtain ⟨hnone, hmakes, hmakes', hmakes''⟩ := withEmptyA_makes
  have hw : w = afterUnit {} (withEmptyA [("$1", .string, .null), firstObject] 2 3 1)
      "A b = new A();" := by
    show afterUnit {} (afterUnit {} (afterUnit {} (afterUnit {} (workspaceAfter []) "class A { }")
      "A a = new A();") "\"\" + new A() + 1 / 0") "A b = new A();" = _
    rw [hclass, hfirst, hfails]
  have hmaking : SessionMaking .standard made w := by
    have hstart : SessionMaking .standard [] (workspaceAfter []) := .start
    have hdeclared := hstart.evaluated {} "class A { }" rfl
    rw [hnone, hclass] at hdeclared
    have honce := hdeclared.evaluated {} "A a = new A();" rfl
    rw [hmakes, hfirst] at honce
    have hfailed := honce.evaluated {} "\"\" + new A() + 1 / 0" rfl
    rw [hmakes', hfails] at hfailed
    have hlast := hfailed.evaluated {} "A b = new A();" rfl
    rwa [hmakes'', ← hw] at hlast
  exact ⟨hmaking, by decide, (objects_apart .standard).2 made w hmaking (by decide)⟩

end ReplEngine.Language
