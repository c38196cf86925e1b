import ReplEngine.Proofs.ClassSpace.Newest
import ReplEngine.Proofs.Engine.Compiling
import ReplEngine.Proofs.Engine.HeldInput
import ReplEngine.Proofs.Syntax.Sizes
import ReplEngine.Proofs.Typing.Uses
set_option autoImplicit false

/-!
# What holds in every session

A session starts with an empty class space and goes on by units, entries of the search path, taking
what has been printed, and closing.  Whatever the units are, the newest version of every installed
name is the class file of a class that was accepted, and the checker knows that name
(`Session.sound`).

A text has fewer than 2^64 bytes here: its length is a word in a class file.
-/

namespace ReplEngine.Language

open Binary Reading Text

/-! ## Class files -/

/-- A class file defines the class that it is of. -/
theorem defineSnippet_encode {file : ClassFile} (h : file.Fits) :
    defineSnippet file.name file.encode = .ok (.snippet file) := by
  have hdecode : ClassFile.decode file.encode = .ok file :=
    (classFile_exact.decode_eq_ok _ _).mpr ⟨h, [], (List.append_nil _).symm⟩
  unfold defineSnippet
  simp only [hdecode, if_true]

theorem methodSignatures_of_nodup {className : String} {methods : List MethodDecl}
    {seen : List String} (hnodup : (methods.map MethodDecl.name).Nodup)
    (hfresh : ∀ m ∈ methods, m.name ∉ seen) :
    ClassBody.methodSignatures className seen methods =
      .ok (methods.map MethodDecl.signature) := by
  induction methods generalizing seen with
  | nil => rfl
  | cons m ms ih =>
    rw [List.map_cons, List.nodup_cons] at hnodup
    rw [List.forall_mem_cons] at hfresh
    have hlater : ∀ other ∈ ms, other.name ∉ m.name :: seen := by
      intro other hother hmem
      rcases List.mem_cons.mp hmem with heq | hmem
      · exact hnodup.1 (heq ▸ List.mem_map_of_mem hother)
      · exact hfresh.2 other hother hmem
    unfold ClassBody.methodSignatures
    rw [if_neg hfresh.1, ih hnodup.2 hlater]
    rfl

/-- The members of a class with pairwise different method names are the signatures of its
methods. -/
theorem members_of_nodup {file : ClassFile} (h : (file.methods.map MethodDecl.name).Nodup) :
    (ClassBody.snippet file).members = .ok (file.methods.map MethodDecl.signature) :=
  methodSignatures_of_nodup h (by simp)

/-! ## Sessions -/

/-- The workspaces that a session over a host comes to, with the number of units that have been
evaluated in it. -/
inductive Session (host : HostRegistry) : Nat → Workspace SessionState → Prop where
  | start : Session host 0 (.ofCompiler snippetCompiler { host := host } host)
  | entry {n : Nat} {w : Workspace SessionState} (h : Session host n w) (files : FileTree)
      (path : String) : Session host n (w.addEntry files path)
  | extended {n : Nat} {w : Workspace SessionState} (h : Session host n w) (files : FileTree)
      (paths : String) : Session host n ((Workspace.extend files paths).run w).2
  | evaluated {n : Nat} {w : Workspace SessionState} (h : Session host n w) (files : FileTree)
      {source : String} (hopen : w.closed = false) (hsize : byteLength source.toList < 2 ^ 64) :
      Session host (n + 1) (afterUnit files w source)
  | printedTaken {n : Nat} {w : Workspace SessionState} (h : Session host n w) :
      Session host n { w with state := w.state.takePrinted.2 }
  | closed {n : Nat} {w : Workspace SessionState} (h : Session host n w) :
      Session host n (w.close snippetCompiler)

/-- The newest version of a name is the class file of a class that was accepted in one of the first
`n` units. -/
structure Declared (n : Nat) (l : Loader) (name : String) (file : ClassFile) : Prop where
  fits : file.Fits
  name_eq : file.name = name
  word : ∀ d ∈ name.toList, isWordPart d = true
  distinct : (file.methods.map MethodDecl.name).Nodup
  unit : ∃ k < n, file.snippet = UInt32.ofNat (k + 1)
  bytes : (l.versions name).getLast?.map Version.bytes = some file.encode
  newest : ∃ generation, l.newest? name =
    some (.ok ⟨name, .installed generation, .snippet file⟩)

/-- What holds of a session in which `n` units have been evaluated. -/
structure Sound (host : HostRegistry) (n : Nat) (w : Workspace SessionState) : Prop where
  definer : w.loader.definer = defineSnippet
  host_eq : w.state.host = host
  sameHost : host.SameClasses w.loader.host
  units : w.state.units = UInt32.ofNat n
  declared : ∀ name, w.loader.versions name ≠ [] → ∃ file, Declared n w.loader name file
  /-- The checker knows the names of the installed classes, and no other. -/
  known : w.closed = false → ∀ name,
    (w.state.env.classes.contains name = true ↔ w.loader.versions name ≠ [])

variable {host : HostRegistry} {n : Nat} {w : Workspace SessionState} {files : FileTree}
  {source : String}

theorem Sound.nextNumber (h : Sound host n w) : w.state.units + 1 = UInt32.ofNat (n + 1) := by
  rw [h.units, UInt32.ofNat_add]
  rfl

/-! ## Steps that declare nothing -/

theorem Declared.loading {l l' : Loader} {name : String} {file : ClassFile}
    (h : Declared n l name file) (hloading : Relation.ReflTransGen Loader.Loading l l') :
    Declared n l' name file where
  fits := h.fits
  name_eq := h.name_eq
  word := h.word
  distinct := h.distinct
  unit := h.unit
  bytes := (Loader.newestBytes_of_loading hloading name).trans h.bytes
  newest := by
    rw [Loader.newest?_of_loading hloading]
    exact h.newest

/-- Running a unit keeps what holds. -/
theorem Sound.ran (h : Sound host n w) {s : SessionState} {l : Loader}
    (hran : Ran w.state w.loader s l) : Sound host n { w with state := s, loader := l } where
  definer := (Loader.definer_of_loading hran.loading).trans h.definer
  host_eq := hran.host.trans h.host_eq
  sameHost name := (Loader.host_of_loading hran.loading name).trans (h.sameHost name)
  units := hran.units.trans h.units
  declared name hne := by
    obtain ⟨file, hfile⟩ := h.declared name
      (mt (Loader.versions_eq_nil_of_loading hran.loading name).mpr hne)
    exact ⟨file, hfile.loading hran.loading⟩
  known hopen name := by
    have hkept := Loader.versions_eq_nil_of_loading hran.loading name
    simp only [hran.env, ne_eq, hkept]
    exact h.known hopen name

theorem Sound.loading (h : Sound host n w) {l : Loader}
    (hloading : Relation.ReflTransGen Loader.Loading w.loader l) :
    Sound host n { w with loader := l } :=
  h.ran ⟨rfl, rfl, rfl, rfl, hloading⟩

theorem sound_start : Sound host 0 (.ofCompiler snippetCompiler { host := host } host) where
  definer := rfl
  host_eq := rfl
  sameHost _ := rfl
  units := rfl
  declared _ hne := absurd rfl hne
  known _ name := by
    show ((none : Option ClassSig).isSome = true ↔ ([] : List Version) ≠ [])
    simp

theorem sound_entry (h : Sound host n w) (files : FileTree) (path : String) :
    Sound host n (w.addEntry files path) :=
  h.loading (.single (Loader.addEntry_loading w.loader files path))

/-- Extending the search path is refused, or done. -/
theorem extend_run (files : FileTree) (paths : String) (w : Workspace SessionState) :
    (Workspace.extend files paths).run w =
      if w.closed then (.error .closed, w)
      else
        match w.loader.extend files paths with
        | .ok loader => (.ok (), { w with loader := loader })
        | .error error => (.error (.classpath error), w) := by
  unfold Workspace.extend
  split
  · rename_i hclosed
    exact run_bind_error (Workspace.requireOpen_closed hclosed)
  · rename_i hopen
    rw [run_bind_ok (Workspace.requireOpen_run (Bool.eq_false_iff.mpr hopen)),
      run_bind_ok (run_get w)]
    cases w.loader.extend files paths <;> rfl

theorem sound_extended (h : Sound host n w) (files : FileTree) (paths : String) :
    Sound host n ((Workspace.extend files paths).run w).2 := by
  rw [extend_run]
  split
  · exact h
  · cases hextend : w.loader.extend files paths with
    | error error => exact h
    | ok l => exact h.loading (Loader.extend_loading hextend)

theorem sound_printedTaken (h : Sound host n w) :
    Sound host n { w with state := w.state.takePrinted.2 } :=
  h.ran ⟨rfl, rfl, rfl, rfl, .refl⟩

theorem sound_closed (h : Sound host n w) : Sound host n (w.close snippetCompiler) := by
  unfold Workspace.close
  split
  · exact h
  · exact ⟨h.definer, h.host_eq, h.sameHost, h.units, h.declared, nofun⟩

/-! ## A unit -/

/-- The class of a name, once its class file has been added. -/
theorem exists_newest_declareOne {l : Loader} {file : ClassFile}
    (hdefiner : l.definer = defineSnippet)
    (hdeclared : ∀ name, l.versions name ≠ [] → ∃ file, Declared n l name file)
    (hfits : file.Fits) :
    ∃ generation, (l.declareOne ⟨file.name, file.encode⟩).newest? file.name =
      some (.ok ⟨file.name, .installed generation, .snippet file⟩) := by
  by_cases hbytes : (l.versions file.name).getLast?.map Version.bytes = some file.encode
  · have hne : l.versions file.name ≠ [] := by
      intro hnil
      rw [hnil] at hbytes
      cases hbytes
    obtain ⟨older, holder⟩ := hdeclared file.name hne
    obtain ⟨generation, hnewest⟩ := holder.newest
    have hsame : older = file :=
      classFile_exact.unambiguous.encode_inj older file holder.fits hfits
        (Option.some.inj (holder.bytes.symm.trans hbytes))
    rw [Loader.declareOne_of_eq hbytes]
    exact ⟨generation, hsame ▸ hnewest⟩
  · exact ⟨l.nextGeneration, Loader.newest?_declareOne hbytes
      (by rw [hdefiner]; exact defineSnippet_encode hfits)⟩

theorem Declared.mono {l : Loader} {name : String} {file : ClassFile} {m : Nat}
    (h : Declared n l name file) (hle : n ≤ m) : Declared m l name file where
  fits := h.fits
  name_eq := h.name_eq
  word := h.word
  distinct := h.distinct
  unit := by
    obtain ⟨k, hk, hsnippet⟩ := h.unit
    exact ⟨k, Nat.lt_of_lt_of_le hk hle, hsnippet⟩
  bytes := h.bytes
  newest := h.newest

/-- Adding a class file changes nothing for the other names. -/
theorem Declared.declareOne {l : Loader} {name : String} {file : ClassFile} {added : ClassBytes}
    (h : Declared n l name file) (hne : name ≠ added.name) :
    Declared n (l.declareOne added) name file where
  fits := h.fits
  name_eq := h.name_eq
  word := h.word
  distinct := h.distinct
  unit := h.unit
  bytes := by
    have hversions : (l.declareOne added).versions name = l.versions name :=
      Loader.versions_declare [added] (by simpa using hne) l
    rw [hversions]
    exact h.bytes
  newest := by
    rw [Loader.newest?_declareOne_of_ne hne]
    exact h.newest

/-- A unit that declares no class keeps what holds. -/
theorem Sound.numbered (h : Sound host n w) {state : SessionState}
    (hhost : state.host = w.state.host) (hunits : state.units = w.state.units + 1)
    (hclasses : state.env.classes = w.state.env.classes) :
    Sound host (n + 1) { w with state := state } where
  definer := h.definer
  host_eq := hhost.trans h.host_eq
  sameHost := h.sameHost
  units := hunits.trans h.nextNumber
  declared name hne := by
    obtain ⟨file, hfile⟩ := h.declared name hne
    exact ⟨file, hfile.mono (Nat.le_succ n)⟩
  known hopen name := by
    simp only [hclasses]
    exact h.known hopen name

section

variable {decl : ClassDecl} {compiled : Compiled SnippetUnit} {state : SessionState}

/-- The class file of a class that is accepted, as its name comes to stand for it. -/
theorem Sound.newest (h : Sound host n w)
    (hclass : CompilesClass w.state source decl compiled state)
    (hsize : byteLength source.toList < 2 ^ 64) :
    Declared (n + 1)
      (w.loader.declareOne ⟨decl.name, (ClassFile.ofDecl decl (w.state.units + 1)).encode⟩)
      decl.name (.ofDecl decl (w.state.units + 1)) where
  fits := fits_of_parse hclass.parse hsize _
  name_eq := rfl
  word := word_of_parse hclass.parse
  distinct := hclass.distinct
  unit := ⟨n, Nat.lt_succ_self n, h.nextNumber⟩
  bytes := Loader.newestBytes_declareOne w.loader _
  newest := exists_newest_declareOne h.definer h.declared (fits_of_parse hclass.parse hsize _)

/-- What holds when the class file of an accepted class has been added. -/
theorem Sound.declares (h : Sound host n w)
    (hclass : CompilesClass w.state source decl compiled state)
    (hhost : state.host = w.state.host) (hunits : state.units = w.state.units + 1)
    (hsize : byteLength source.toList < 2 ^ 64) :
    Sound host (n + 1)
      { w with
        state := state
        loader := w.loader.declareOne
          ⟨decl.name, (ClassFile.ofDecl decl (w.state.units + 1)).encode⟩ } := by
  generalize hadded : ClassBytes.mk decl.name (ClassFile.ofDecl decl (w.state.units + 1)).encode =
    added
  have hname : added.name = decl.name := by rw [← hadded]
  have hother {name : String} (hne : name ≠ decl.name) :
      (w.loader.declareOne added).versions name = w.loader.versions name :=
    Loader.versions_declare [added] (by simpa [hname] using hne) w.loader
  have hnewest := h.newest hclass hsize
  rw [hadded] at hnewest
  refine ⟨?_, hhost.trans h.host_eq, ?_, hunits.trans h.nextNumber, fun name hne => ?_,
    fun hopen name => ?_⟩
  · exact (Loader.declareOne_definer w.loader added).trans h.definer
  · show host.SameClasses (w.loader.declareOne added).host
    rw [Loader.declareOne_host]
    exact h.sameHost
  · by_cases heq : name = decl.name
    · exact ⟨_, heq ▸ hnewest⟩
    · obtain ⟨file, hfile⟩ := h.declared name (hother heq ▸ hne)
      exact ⟨file, (hfile.mono (Nat.le_succ n)).declareOne (hname ▸ heq)⟩
  · obtain ⟨sig, hsig⟩ := hclass.declared
    simp only [hsig, Table.contains, Table.get?_insert]
    by_cases heq : name = decl.name
    · subst heq
      have hsome : (w.loader.declareOne added).versions decl.name ≠ [] := by
        intro hnil
        have hbytes := hnewest.bytes
        rw [hnil] at hbytes
        cases hbytes
      simp [hsome]
    · rw [if_neg heq, hother heq]
      exact h.known hopen name

/-- The classes of a unit are installed. -/
theorem Sound.installs (h : Sound host n w) (hsize : byteLength source.toList < 2 ^ 64)
    (hcompile : w.state.compile source = (compiled, state)) :
    ∃ lives loader, (Loader.install compiled.classes).run w.loader = (.ok lives, loader) ∧
      Sound host (n + 1) { w with state := state, loader := loader } := by
  have hkeeps := compile_keeps w.state source
  rw [hcompile] at hkeeps
  obtain ⟨⟨hhost, -, -⟩, hunits⟩ := hkeeps
  rcases compile_classes hcompile with ⟨decl, hclass⟩ | ⟨hnone, hclasses, -⟩
  · have hnewest := h.newest hclass hsize
    obtain ⟨generation, hcls⟩ := hnewest.newest
    obtain ⟨live, loader, hinstall, -, -, hloading⟩ :=
      Loader.install_run hcls (members_of_nodup hnewest.distinct)
    rw [← hclass.classes] at hinstall
    exact ⟨[live], loader, hinstall, (h.declares hclass hhost hunits hsize).loading hloading⟩
  · rw [hnone]
    exact ⟨[], w.loader, rfl, h.numbered hhost hunits hclasses⟩

end

/-- A unit keeps what holds; if it is refused, then because it could not be run. -/
theorem Sound.unitRun (h : Sound host n w) (hsize : byteLength source.toList < 2 ^ 64)
    {requests : List (Request SnippetUnit)} {result : Except EngineError (List Outcome)}
    {w' : Workspace SessionState}
    (hunit : Workspace.UnitRun snippetCompiler files source w requests result w') :
    Sound host (n + 1) w' ∧
      ∀ error, result = .error error → ∃ failure, error = .compiler failure := by
  cases hcompile : w.state.compile source with
  | mk compiled state =>
    obtain ⟨lives, loader, hinstall, hsound⟩ := h.installs hsize hcompile
    have hcompiled : snippetCompiler.compile source w.state = (.ok compiled, state) := by
      show (Except.ok (w.state.compile source).1, (w.state.compile source).2) = _
      rw [hcompile]
    have hran := execute_ran files compiled.unit state loader
    cases hunit with
    | notCompiled hother => cases hcompiled.symm.trans hother
    | notInstalled hother hrefused =>
      cases hcompiled.symm.trans hother
      cases hinstall.symm.trans hrefused
    | notExecuted hother hinstalled hexecute =>
      cases hcompiled.symm.trans hother
      cases hinstall.symm.trans hinstalled
      have hexecuted : SessionState.execute files compiled.unit state loader = _ := hexecute
      rw [hexecuted] at hran
      exact ⟨hsound.ran hran, fun error heq => ⟨_, (Except.error.inj heq).symm⟩⟩
    | executed hother hinstalled hexecute =>
      cases hcompiled.symm.trans hother
      cases hinstall.symm.trans hinstalled
      have hexecuted : SessionState.execute files compiled.unit state loader = _ := hexecute
      rw [hexecuted] at hran
      obtain ⟨outcomes, hreport⟩ := exists_report files hcompile hexecuted
      refine ⟨hsound.ran hran, fun error heq => ?_⟩
      cases hreport.symm.trans heq

/-- What holds in every session. -/
theorem Session.sound (h : Session host n w) : Sound host n w := by
  induction h with
  | start => exact sound_start
  | entry _ files path ih => exact sound_entry ih files path
  | extended _ files paths ih => exact sound_extended ih files paths
  | @evaluated n w _ files source hopen hsize ih =>
    obtain ⟨requests, result, w', hunit⟩ :=
      Workspace.exists_unitRun snippetCompiler files source w
    rw [afterUnit_of_unitRun hunit hopen]
    exact (ih.unitRun hsize hunit).1
  | printedTaken _ ih => exact sound_printedTaken ih
  | closed _ ih => exact sound_closed ih

/-! ## Evaluators -/

/-- The evaluators that a session over a host comes to. -/
inductive InUse (host : HostRegistry) : Evaluator SessionState → Prop where
  | created {files : FileTree} {config : EvaluatorConfig} {e : Evaluator SessionState}
      (h : Evaluator.create snippetCompiler { host := host } host files config = .ok e) :
      InUse host e
  | evaluated {e : Evaluator SessionState} (h : InUse host e) (files : FileTree) {input : String}
      (hsize : byteLength (e.pending.text ++ input).toList < 2 ^ 64) :
      InUse host ((Evaluator.evaluateOutcomes snippetCompiler files input).run e).2
  | extended {e : Evaluator SessionState} (h : InUse host e) (files : FileTree) (paths : String) :
      InUse host ((Evaluator.extend files paths).run e).2
  | printedTaken {e : Evaluator SessionState} (h : InUse host e) :
      InUse host
        ⟨{ e.workspace with state := e.workspace.state.takePrinted.2 }, e.pending⟩
  | closed {e : Evaluator SessionState} (h : InUse host e) : InUse host (e.close snippetCompiler)

theorem session_addRoots {files : FileTree} {extension : String} {roots : List String}
    {w' : Workspace SessionState} (h : Session host n w)
    (hroots : Evaluator.addRoots files extension w roots = .ok w') : Session host n w' := by
  induction roots generalizing w with
  | nil =>
    cases hroots
    exact h
  | cons root roots ih =>
    unfold Evaluator.addRoots at hroots
    cases harchives : findArchives files root extension with
    | error error =>
      rw [harchives] at hroots
      cases hroots
    | ok archives =>
      rw [harchives] at hroots
      refine ih ?_ hroots
      clear harchives hroots ih
      induction archives generalizing w with
      | nil => exact h
      | cons path archives ih => exact ih (h.entry files path)

/-- The turns of a call: the session goes on, and no unit is refused but by its evaluation. -/
theorem session_turns {candidate : String} {turns : List (Turn SnippetUnit)} {ending : CallEnd}
    {w' : Workspace SessionState}
    (hturns : Turns snippetCompiler files w candidate turns ending w') (h : Session host n w)
    (hopen : w.closed = false) (hsize : byteLength candidate.toList < 2 ^ 64) :
    (∃ m, Session host m w') ∧
      ∀ error, ending = .refused error → ∃ failure, error = .compiler failure := by
  have hunits {w w' : Workspace SessionState} {n : Nat} {candidate unit rest : String}
      {requests : List (Request SnippetUnit)} {result : Except EngineError (List Outcome)}
      (h : Session host n w) (hopen : w.closed = false)
      (hsize : byteLength candidate.toList < 2 ^ 64)
      (hnext : nextUnit candidate = .complete unit rest)
      (hunit : Workspace.UnitRun snippetCompiler files unit w requests result w') :
      Session host (n + 1) w' ∧
        ∀ error, result = .error error → ∃ failure, error = .compiler failure := by
    have hle := (byteLength_of_nextUnit hnext).1
    have hsizeUnit : byteLength unit.toList < 2 ^ 64 := by omega
    exact ⟨afterUnit_of_unitRun hunit hopen ▸ h.evaluated files hopen hsizeUnit,
      (h.sound.unitRun hsizeUnit hunit).2⟩
  induction hturns generalizing n with
  | blank | held => exact ⟨⟨n, h⟩, nofun⟩
  | refused hnext hunit =>
    obtain ⟨hlater, hrefused⟩ := hunits h hopen hsize hnext hunit
    exact ⟨⟨_, hlater⟩, fun error heq => hrefused error (congrArg _ (CallEnd.refused.inj heq))⟩
  | failed hnext hunit hfailed =>
    exact ⟨⟨_, (hunits h hopen hsize hnext hunit).1⟩, nofun⟩
  | exhausted hnext hunit hfine =>
    exact ⟨⟨_, (hunits h hopen hsize hnext hunit).1⟩, nofun⟩
  | next hnext hunit hfine hrest hlater ih =>
    have hle := (byteLength_of_nextUnit hnext).2
    exact ih (hunits h hopen hsize hnext hunit).1 (hunit.closed.trans hopen) (by omega)

/-- A call: the session goes on, and is refused only when it is closed, or by the evaluation of a
unit. -/
theorem session_evaluateOutcomes {e : Evaluator SessionState} (h : Session host n e.workspace)
    (files : FileTree) {input : String}
    (hsize : byteLength (e.pending.text ++ input).toList < 2 ^ 64) :
    let after := (Evaluator.evaluateOutcomes snippetCompiler files input).run e
    (∃ m, Session host m after.2.workspace) ∧
      ∀ error, after.1 = .error error → error = .closed ∨ ∃ failure, error = .compiler failure := by
  intro after
  cases hopen : e.isClosed with
  | true =>
    rw [show after = _ from evaluateOutcomes_closed files input hopen]
    exact ⟨⟨n, h⟩, fun error heq => .inl (Except.error.inj heq).symm⟩
  | false =>
    obtain ⟨turns, ending, w, hturns⟩ := exists_turns_of_takesText snippetCompiler_takesText files
      (e.pending.text ++ input) e.workspace
    obtain ⟨hsession, hrefused⟩ := session_turns hturns h hopen hsize
    rw [show after = _ from evaluateOutcomes_turns hturns hopen]
    refine ⟨hsession, fun error heq => .inr ?_⟩
    cases ending with
    | refused refusal =>
      obtain rfl : refusal = error := Except.error.inj heq
      exact hrefused refusal rfl
    | _ => cases heq

/-- An evaluator is created over the search path of its roots, and holds nothing. -/
theorem exists_addRoots_of_create {config : EvaluatorConfig} {e : Evaluator SessionState}
    (h : Evaluator.create snippetCompiler { host := host } host files config = .ok e) :
    ∃ w, Evaluator.addRoots files config.archiveExtension
        (Workspace.ofCompiler snippetCompiler { host := host } host) config.roots = .ok w ∧
      e = ⟨w, {}⟩ := by
  unfold Evaluator.create at h
  cases hroots : Evaluator.addRoots files config.archiveExtension
      (Workspace.ofCompiler snippetCompiler { host := host } host) config.roots with
  | error error =>
    rw [hroots] at h
    cases h
  | ok w =>
    rw [hroots] at h
    cases h
    exact ⟨w, rfl, rfl⟩

/-- Every evaluator is in a session. -/
theorem InUse.session {e : Evaluator SessionState} (h : InUse host e) :
    ∃ n, Session host n e.workspace := by
  induction h with
  | created h =>
    obtain ⟨w, hroots, rfl⟩ := exists_addRoots_of_create h
    exact ⟨0, session_addRoots .start hroots⟩
  | evaluated _ files hsize ih =>
    obtain ⟨n, hsession⟩ := ih
    exact (session_evaluateOutcomes hsession files hsize).1
  | extended _ files paths ih =>
    obtain ⟨n, hsession⟩ := ih
    unfold Evaluator.extend
    rw [Evaluator.onWorkspace_run]
    exact ⟨n, hsession.extended files paths⟩
  | printedTaken _ ih =>
    obtain ⟨n, hsession⟩ := ih
    exact ⟨n, hsession.printedTaken⟩
  | closed _ ih =>
    obtain ⟨n, hsession⟩ := ih
    exact ⟨n, hsession.closed⟩

end ReplEngine.Language
