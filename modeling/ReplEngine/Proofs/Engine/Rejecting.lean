import ReplEngine.Proofs.Engine.Lockstep
set_option autoImplicit false

/-!
# Rejected units

A unit that is rejected takes a number and leaves a record of what was wrong with it, and that is
all.  Whatever a session is asked for later, it answers as if the unit had never been there, only
that the numbers of later units are one higher (`rejected_unit_invisible`).
-/

namespace ReplEngine.Language

open Reading Text

variable {host : HostRegistry} {n N : Nat} {w w' : Workspace SessionState} {files : FileTree}
  {source : String} {T U : Renumbering}

/-! ## Numbers behind a rejected unit -/

/-- The number of a unit in a session that has rejected one more unit behind the first `n`. -/
def numberBehind (n k : Nat) : UInt32 := .ofNat (if k ≤ n then k else k + 1)

/-- The code of `n + N` units, and the same code in a session that has rejected one more unit behind
the first `n`. -/
inductive Shifted (n N : Nat) : Renumbering where
  | unit {k : Nat} (hk : k < n + N) :
      Shifted n N (unitCode (.ofNat (k + 1))) (unitCode (numberBehind n (k + 1)))
  | member (name : String) {k : Nat} (hk : k < n + N) :
      Shifted n N ⟨name, .ofNat (k + 1)⟩ ⟨name, numberBehind n (k + 1)⟩

theorem Shifted.mono {N N' : Nat} (h : N ≤ N') : Shifted n N ≤ Shifted n N' := by
  rintro c d (⟨hk⟩ | ⟨name, hk⟩)
  · exact .unit (by omega)
  · exact .member name (by omega)

/-- Before a unit is rejected, every number stands for itself. -/
theorem Shifted.own (n : Nat) : Shifted n 0 ≤ Shifted (n + 1) 0 := by
  have hnumber {k : Nat} (hk : k < n + 0) :
      numberBehind n (k + 1) = numberBehind (n + 1) (k + 1) := by
    unfold numberBehind
    rw [if_pos (by omega), if_pos (by omega)]
  rintro c d (⟨hk⟩ | ⟨name, hk⟩)
  · rw [hnumber hk]
    exact .unit (by omega)
  · rw [hnumber hk]
    exact .member name (by omega)

/-! ## What rejecting a unit does -/

/-- What a session is like once it has rejected a unit. -/
def SessionState.rejecting (s : SessionState) (diags : List Diag) : SessionState :=
  { s with
    units := s.units + 1
    rejections := (s.units + 1, diags) :: s.rejections.filter (·.1 ≠ s.units + 1) }

theorem compile_source (s : SessionState) (source : String) :
    (s.compile source).1.unit.snippet.source = source := by
  unfold SessionState.compile
  cases hparse : Item.parse source with
  | error diag => rfl
  | ok item =>
    simp only
    cases item.check s.env s.host (wrapperClass (s.units + 1)) with
    | error diags => rfl
    | ok checked =>
      cases checked with
      | expr value line type =>
        unfold SessionState.commit
        simp only
        split <;> rfl
      | _ => rfl

/-- A rejected unit is told of, and nothing else comes of it. -/
theorem exists_rejecting (files : FileTree) (hopen : w.closed = false)
    (h : (w.state.compile source).1.unit.body = .rejected) :
    ∃ diags, diags ≠ [] ∧ (Workspace.runUnit snippetCompiler files source).run w =
      (.ok [.rejected source diags], { w with state := w.state.rejecting diags }) := by
  have hsource := compile_source w.state source
  rcases compile_cases w.state source with
    ⟨snippet, diags, hid, hne, hcompile⟩ | ⟨item, checked, snippet, -, -, -, hcompile⟩
  · rw [hcompile] at hsource
    refine ⟨diags, hne, (runUnit_rejected files hopen hne hcompile).trans ?_⟩
    have hstate : (w.state.numbered.reject snippet diags).2 = w.state.rejecting diags := by
      unfold SessionState.reject SessionState.rejecting
      rw [hid]
      rfl
    rw [hstate, show snippet.source = source from hsource]
  · rw [hcompile] at h
    exact absurd h (commit_body _ snippet checked)

/-! ## Steps that both sessions take -/

theorem afterUnit_eq (files : FileTree) (source : String) (hopen : w.closed = false) :
    afterUnit files w source = ((Workspace.runUnit snippetCompiler files source).run w).2 := by
  obtain ⟨requests, result, after, hunit⟩ := Workspace.exists_unitRun snippetCompiler files source w
  rw [hunit.run hopen]
  exact afterUnit_of_unitRun hunit hopen

/-- A unit whose numbers are the next ones is run alike. -/
theorem runUnit_grown (h : SessionsAlike (T.grown w.loader) w w') (hopen : w.closed = false)
    {m : Nat} (hsound : Sound host n w) (hsound' : Sound host m w') (hle : T ≤ U)
    (hunit : U (unitCode (w.state.units + 1)) (unitCode (w'.state.units + 1)))
    (hmember : ∀ name, U ⟨name, w.state.units + 1⟩ ⟨name, w'.state.units + 1⟩)
    (hsize : byteLength source.toList < 2 ^ 64) (files : FileTree) :
    let after := (Workspace.runUnit snippetCompiler files source).run w
    let after' := (Workspace.runUnit snippetCompiler files source).run w'
    (∀ code, w.loader.Outside code → after.2.loader.Outside code) ∧
      ExceptAlike Eq (List.Forall₂ (Outcome.Alike (U.grown after.2.loader))) after.1 after'.1 ∧
      SessionsAlike (U.grown after.2.loader) after.2 after'.2 := by
  intro after after'
  obtain ⟨houtside, houtcomes, halike⟩ := runUnit_alike h hopen hsound hsound'
    (Renumbering.grown_mono hle fun _ => id) (.inl hunit) (fun name => .inl (hmember name)) hsize
    files
  rw [Renumbering.grown_grown houtside] at houtcomes halike
  exact ⟨houtside, houtcomes, halike⟩

theorem addEntry_sessionsAlike (h : SessionsAlike (T.grown w.loader) w w') (files : FileTree)
    (path : String) :
    SessionsAlike (T.grown (w.addEntry files path).loader) (w.addEntry files path)
      (w'.addEntry files path) :=
  ⟨h.state, Loader.addEntry_alike h.loader files path, h.closed⟩

theorem extend_sessionsAlike (h : SessionsAlike (T.grown w.loader) w w') (files : FileTree)
    (paths : String) :
    let after := (Workspace.extend files paths).run w
    let after' := (Workspace.extend files paths).run w'
    after.2.loader.Outside = w.loader.Outside ∧ after'.1 = after.1 ∧
      SessionsAlike (T.grown after.2.loader) after.2 after'.2 := by
  intro after after'
  rw [show after = _ from extend_run files paths w, show after' = _ from extend_run files paths w',
    h.closed]
  split
  · exact ⟨rfl, rfl, h⟩
  · rcases Loader.extend_alike h.loader files paths with
      ⟨error, herror, herror'⟩ | ⟨m, m', hm, hm', houtside, halike⟩
    · rw [herror, herror']
      exact ⟨rfl, rfl, h⟩
    · rw [hm, hm']
      have hgrown : T.grown m = T.grown w.loader := by
        unfold Renumbering.grown
        rw [houtside]
      refine ⟨houtside, rfl, ?_⟩
      rw [hgrown]
      exact ⟨h.state, halike, rfl⟩

theorem takePrinted_sessionsAlike (h : SessionsAlike T w w') :
    SessionsAlike T { w with state := w.state.takePrinted.2 }
      { w' with state := w'.state.takePrinted.2 } :=
  ⟨⟨h.state.host, h.state.env, h.state.globals, rfl, h.state.values⟩, h.loader, h.closed⟩

theorem close_loader (w : Workspace SessionState) :
    (w.close snippetCompiler).loader = w.loader := by
  unfold Workspace.close
  split <;> rfl

theorem close_sessionsAlike (h : SessionsAlike T w w') :
    SessionsAlike T (w.close snippetCompiler) (w'.close snippetCompiler) := by
  unfold Workspace.close
  rw [h.closed]
  split
  · exact h
  · exact ⟨⟨h.state.host, rfl, ⟨Table.alike_empty, Table.alike_empty, rfl⟩, h.state.printed,
      h.state.values⟩, h.loader, rfl⟩

/-- A session is the same as itself, every number standing for itself. -/
theorem Session.self_alike (h : Session host n w) :
    SessionsAlike ((Shifted n 0).grown w.loader) w w := by
  induction h with
  | start =>
    refine ⟨⟨rfl, rfl, ⟨Table.alike_empty, Table.alike_empty, rfl⟩, rfl, rfl⟩, ?_, rfl⟩
    exact ⟨rfl, fun _ => rfl, rfl, rfl, fun name => .inl ⟨rfl, rfl⟩,
      fun code houtside => .inr ⟨rfl, houtside⟩⟩
  | entry _ files path ih => exact addEntry_sessionsAlike ih files path
  | extended _ files paths ih => exact (extend_sessionsAlike ih files paths).2.2
  | printedTaken _ ih => exact takePrinted_sessionsAlike ih
  | @closed n w _ ih =>
    rw [close_loader w]
    exact close_sessionsAlike ih
  | @evaluated n w h files source hopen hsize ih =>
    have hunits : w.state.units + 1 = .ofNat (n + 1) := h.sound.nextNumber
    have hnumber : numberBehind (n + 1) (n + 1) = .ofNat (n + 1) := by
      unfold numberBehind
      rw [if_pos (Nat.le_refl _)]
    have hunit : Shifted (n + 1) 0 (unitCode (.ofNat (n + 1))) (unitCode (.ofNat (n + 1))) := by
      have h : Shifted (n + 1) 0 _ _ := .unit (Nat.lt_succ_self n)
      rwa [hnumber] at h
    have hmember (name : String) :
        Shifted (n + 1) 0 ⟨name, .ofNat (n + 1)⟩ ⟨name, .ofNat (n + 1)⟩ := by
      have h : Shifted (n + 1) 0 _ _ := .member name (Nat.lt_succ_self n)
      rwa [hnumber] at h
    obtain ⟨-, -, halike⟩ := runUnit_grown ih hopen h.sound h.sound (Shifted.own n)
      (hunits ▸ hunit) (fun name => hunits ▸ hmember name) hsize files
    rw [afterUnit_eq files source hopen]
    exact halike

/-! ## A session that has rejected one unit more -/

/-- Which code of a session, `n + N` units of which have run, stands for which code of one that has
rejected one more unit behind the first `n`. -/
abbrev numbers (n N : Nat) (w : Workspace SessionState) : Renumbering :=
  (Shifted n N).grown w.loader

/-- Two sessions that have run the same `n` units and, later, the same `N` units; the second one
has rejected a unit in between. -/
structure Behind (host : HostRegistry) (n N : Nat) (w w' : Workspace SessionState) : Prop where
  session : Session host (n + N) w
  sound' : Sound host (n + N + 1) w'
  alike : SessionsAlike (numbers n N w) w w'

/-- Such a session runs the next unit alike, under a number that is one higher. -/
theorem Behind.unitRun (h : Behind host n N w w') (hopen : w.closed = false)
    (hsize : byteLength source.toList < 2 ^ 64) {requests : List (Request SnippetUnit)}
    {result : Except EngineError (List Outcome)} {after : Workspace SessionState}
    (hunit : Workspace.UnitRun snippetCompiler files source w requests result after) :
    ∃ requests' result' after',
      Workspace.UnitRun snippetCompiler files source w' requests' result' after' ∧
      numbers n N w ≤ numbers n (N + 1) after ∧
      ExceptAlike Eq (List.Forall₂ (Outcome.Alike (numbers n (N + 1) after))) result result' ∧
      Behind host n (N + 1) after after' := by
  have hopen' : w'.closed = false := h.alike.closed.trans hopen
  have hunits : w.state.units + 1 = .ofNat (n + N + 1) := h.session.sound.nextNumber
  have hunits' : w'.state.units + 1 = numberBehind n (n + N + 1) := by
    rw [h.sound'.nextNumber]
    unfold numberBehind
    rw [if_neg (by omega)]
  obtain ⟨requests', result', after', hunit'⟩ :=
    Workspace.exists_unitRun snippetCompiler files source w'
  have hgrown := runUnit_grown h.alike hopen h.session.sound h.sound'
    (Shifted.mono (Nat.le_succ N)) (hunits ▸ hunits' ▸ .unit (by omega))
    (fun name => hunits ▸ hunits' ▸ .member name (by omega)) hsize files
  rw [hunit.run hopen, hunit'.run hopen'] at hgrown
  obtain ⟨houtside, houtcomes, halike⟩ := hgrown
  have hsession := h.session.evaluated files hopen hsize
  rw [afterUnit_of_unitRun hunit hopen] at hsession
  exact ⟨requests', result', after', hunit',
    Renumbering.grown_mono (Shifted.mono (Nat.le_succ N)) houtside, houtcomes, hsession,
    (h.sound'.unitRun hsize hunit').1, halike⟩

theorem isFailure_alike {outcomes outcomes' : List Outcome}
    (h : List.Forall₂ (Outcome.Alike T) outcomes outcomes') :
    outcomes'.any Outcome.isFailure = outcomes.any Outcome.isFailure := by
  induction h with
  | nil => rfl
  | cons houtcome _ ih => rw [List.any_cons, List.any_cons, houtcome.isFailure_eq, ih]

/-- Where the unit can be told of, it can be in such a session, and it fails in both or in
neither. -/
theorem Behind.unitRun_told (h : Behind host n N w w') (hopen : w.closed = false)
    (hsize : byteLength source.toList < 2 ^ 64) {requests : List (Request SnippetUnit)}
    {outcomes : List Outcome} {after : Workspace SessionState}
    (hunit : Workspace.UnitRun snippetCompiler files source w requests (.ok outcomes) after) :
    ∃ requests' outcomes' after',
      Workspace.UnitRun snippetCompiler files source w' requests' (.ok outcomes') after' ∧
      numbers n N w ≤ numbers n (N + 1) after ∧
      List.Forall₂ (Outcome.Alike (numbers n (N + 1) after)) outcomes outcomes' ∧
      outcomes'.any Outcome.isFailure = outcomes.any Outcome.isFailure ∧
      Behind host n (N + 1) after after' := by
  obtain ⟨requests', _, after', hunit', hle, hresult, hbehind⟩ := h.unitRun hopen hsize hunit
  cases hresult with
  | ok houtcomes =>
    exact ⟨requests', _, after', hunit', hle, houtcomes, isFailure_alike houtcomes, hbehind⟩

/-- Such a session takes the same turns in a call. -/
theorem Behind.turns {candidate : String} {turns : List (Turn SnippetUnit)} {ending : CallEnd}
    {after : Workspace SessionState}
    (hturns : Turns snippetCompiler files w candidate turns ending after)
    (h : Behind host n N w w') (hopen : w.closed = false)
    (hsize : byteLength candidate.toList < 2 ^ 64) :
    ∃ M turns' after', Turns snippetCompiler files w' candidate turns' ending after' ∧
      numbers n N w ≤ numbers n M after ∧
      List.Forall₂ (Outcome.Alike (numbers n M after)) (turns.flatMap Turn.outcomes)
        (turns'.flatMap Turn.outcomes) ∧
      Behind host n M after after' := by
  have hfront {candidate unit rest : String} (hnext : nextUnit candidate = .complete unit rest)
      (hsize : byteLength candidate.toList < 2 ^ 64) :
      byteLength unit.toList < 2 ^ 64 ∧ byteLength rest.toList < 2 ^ 64 :=
    (byteLength_of_nextUnit hnext).imp (Nat.lt_of_le_of_lt · hsize) (Nat.lt_of_le_of_lt · hsize)
  induction hturns generalizing w' N with
  | blank hnext => exact ⟨N, [], w', .blank hnext, le_refl _, .nil, h⟩
  | held hnext => exact ⟨N, [], w', .held hnext, le_refl _, .nil, h⟩
  | refused hnext hunit =>
    obtain ⟨_, _, after', hunit', hle, hresult, hbehind⟩ :=
      h.unitRun hopen (hfront hnext hsize).1 hunit
    cases hresult with
    | error heq =>
      subst heq
      exact ⟨N + 1, _, after', .refused hnext hunit', hle, .nil, hbehind⟩
  | failed hnext hunit hfailed =>
    obtain ⟨_, _, after', hunit', hle, houtcomes, hfails, hbehind⟩ :=
      h.unitRun_told hopen (hfront hnext hsize).1 hunit
    exact ⟨N + 1, _, after', .failed hnext hunit' (hfails.trans hfailed), hle,
      List.rel_append houtcomes .nil, hbehind⟩
  | exhausted hnext hunit hfine =>
    obtain ⟨_, _, after', hunit', hle, houtcomes, hfails, hbehind⟩ :=
      h.unitRun_told hopen (hfront hnext hsize).1 hunit
    exact ⟨N + 1, _, after', .exhausted hnext hunit' (hfails.trans hfine), hle,
      List.rel_append houtcomes .nil, hbehind⟩
  | next hnext hunit hfine hrest hlater ih =>
    obtain ⟨_, _, after', hunit', hle, houtcomes, hfails, hbehind⟩ :=
      h.unitRun_told hopen (hfront hnext hsize).1 hunit
    obtain ⟨M, turns', last, hturns', hle', halike, hend⟩ :=
      ih hbehind (hunit.closed.trans hopen) (hfront hnext hsize).2
    exact ⟨M, _, last, .next hnext hunit' (hfails.trans hfine) hrest hturns', hle.trans hle',
      List.rel_append (houtcomes.imp fun _ _ houtcome => houtcome.mono hle') halike, hend⟩

/-! ## Whatever comes later -/

/-- Something that a session is asked for. -/
inductive Demand where
  | evaluate (files : FileTree) (input : String)
  | extend (files : FileTree) (paths : String)
  | takePrinted
  | valueOf (name : String)
  | close

/-- What it gives. -/
inductive Answer where
  | outcomes (result : Except EngineError (List Outcome))
  | extended (result : Except EngineError Unit)
  | printed (text : String)
  | value (value : Option Value)
  | closed

/-- Answers that are the same but for the numbers of snippets. -/
inductive Answer.Alike (T : Renumbering) : Answer → Answer → Prop where
  | outcomes {result result' : Except EngineError (List Outcome)}
      (h : ExceptAlike Eq (List.Forall₂ (Outcome.Alike T)) result result') :
      Alike T (.outcomes result) (.outcomes result')
  | extended (result : Except EngineError Unit) : Alike T (.extended result) (.extended result)
  | printed (text : String) : Alike T (.printed text) (.printed text)
  | value {v v' : Option Value} (h : Option.Rel (Value.Alike T) v v') :
      Alike T (.value v) (.value v')
  | closed : Alike T .closed .closed

theorem Answer.Alike.mono {a a' : Answer} (h : a.Alike T a') (hle : T ≤ U) : a.Alike U a' := by
  cases h with
  | outcomes h =>
    exact .outcomes (h.mono (fun _ _ => id) fun _ _ houtcomes =>
      houtcomes.imp fun _ _ houtcome => houtcome.mono hle)
  | extended result => exact .extended result
  | printed text => exact .printed text
  | value h => exact .value (optionRel_imp h fun _ _ hv => hv.mono hle)
  | closed => exact .closed

/-- Asks a session for something. -/
def Demand.run (e : Evaluator SessionState) : Demand → Answer × Evaluator SessionState
  | evaluate files input =>
    let (result, e) := (Evaluator.evaluateOutcomes snippetCompiler files input).run e
    (.outcomes result, e)
  | extend files paths =>
    let (result, e) := (Evaluator.extend files paths).run e
    (.extended result, e)
  | takePrinted =>
    let (text, state) := e.workspace.state.takePrinted
    (.printed text, { e with workspace := { e.workspace with state := state } })
  | valueOf name => (.value (e.workspace.state.valueOf? name), e)
  | close => (.closed, e.close snippetCompiler)

/-- What is held and put in is a text of fewer than 2^64 bytes. -/
def Demand.Fits (e : Evaluator SessionState) : Demand → Prop
  | evaluate _ input => byteLength (e.pending.text ++ input).toList < 2 ^ 64
  | _ => True

/-- Asks a session for one thing after the other. -/
def runDemands (e : Evaluator SessionState) :
    List Demand → List Answer × Evaluator SessionState
  | [] => ([], e)
  | demand :: demands =>
    let (answer, e) := demand.run e
    let (answers, e) := runDemands e demands
    (answer :: answers, e)

/-- Every text that is put in is short enough. -/
def DemandsFit (e : Evaluator SessionState) : List Demand → Prop
  | [] => True
  | demand :: demands => demand.Fits e ∧ DemandsFit (demand.run e).2 demands

/-- Two evaluators of such sessions, with the same text held. -/
structure EvaluatorsBehind (host : HostRegistry) (n N : Nat) (e e' : Evaluator SessionState) :
    Prop where
  behind : Behind host n N e.workspace e'.workspace
  pending : e'.pending = e.pending

variable {e e' : Evaluator SessionState}

/-- A call of a session that has rejected one unit more. -/
theorem EvaluatorsBehind.evaluateOutcomes (h : EvaluatorsBehind host n N e e') (files : FileTree)
    {input : String} (hsize : byteLength (e.pending.text ++ input).toList < 2 ^ 64) :
    let after := (Evaluator.evaluateOutcomes snippetCompiler files input).run e
    let after' := (Evaluator.evaluateOutcomes snippetCompiler files input).run e'
    ∃ M, numbers n N e.workspace ≤ numbers n M after.2.workspace ∧
      ExceptAlike Eq (List.Forall₂ (Outcome.Alike (numbers n M after.2.workspace)))
        after.1 after'.1 ∧
      EvaluatorsBehind host n M after.2 after'.2 := by
  intro after after'
  cases hopen : e.isClosed with
  | true =>
    have hopen' : e'.isClosed = true := h.behind.alike.closed.trans hopen
    rw [show after = _ from evaluateOutcomes_closed files input hopen,
      show after' = _ from evaluateOutcomes_closed files input hopen']
    exact ⟨N, le_refl _, .error rfl, h.behind, rfl⟩
  | false =>
    have hopen' : e'.isClosed = false := h.behind.alike.closed.trans hopen
    obtain ⟨turns, ending, w, hturns⟩ := exists_turns_of_takesText snippetCompiler_takesText files
      (e.pending.text ++ input) e.workspace
    obtain ⟨M, turns', w', hturns', hle, houtcomes, hbehind⟩ := h.behind.turns hturns hopen hsize
    rw [← h.pending] at hturns'
    rw [show after = _ from evaluateOutcomes_turns hturns hopen,
      show after' = _ from evaluateOutcomes_turns hturns' hopen']
    refine ⟨M, hle, ?_, hbehind, rfl⟩
    cases ending with
    | refused error => exact .error rfl
    | _ => exact .ok houtcomes

/-- Whatever such a session is asked for, it answers alike. -/
theorem EvaluatorsBehind.demand (h : EvaluatorsBehind host n N e e') (demand : Demand)
    (hfits : demand.Fits e) :
    let after := demand.run e
    let after' := demand.run e'
    ∃ M, numbers n N e.workspace ≤ numbers n M after.2.workspace ∧
      Answer.Alike (numbers n M after.2.workspace) after.1 after'.1 ∧
      EvaluatorsBehind host n M after.2 after'.2 := by
  have hsession := h.behind.session
  have hsound' := h.behind.sound'
  have halike := h.behind.alike
  cases demand with
  | evaluate files input =>
    obtain ⟨M, hle, hresult, hbehind⟩ := h.evaluateOutcomes files hfits
    exact ⟨M, hle, .outcomes hresult, hbehind⟩
  | extend files paths =>
    obtain ⟨houtside, hresult, hextended⟩ := extend_sessionsAlike halike files paths
    have hrun (e : Evaluator SessionState) : (Demand.extend files paths).run e =
        (.extended ((Workspace.extend files paths).run e.workspace).1,
          { e with workspace := ((Workspace.extend files paths).run e.workspace).2 }) := by
      unfold Demand.run Evaluator.extend
      simp only [Evaluator.onWorkspace_run]
    rw [hrun e, hrun e', hresult]
    refine ⟨N, Renumbering.grown_mono (le_refl _) fun code hcode => houtside.symm ▸ hcode,
      .extended _, ⟨?_, ?_, hextended⟩, h.pending⟩
    · exact hsession.extended files paths
    · exact sound_extended hsound' files paths
  | takePrinted =>
    have htext : e'.workspace.state.printed.text = e.workspace.state.printed.text :=
      congrArg PrintBuffer.text halike.state.printed
    refine ⟨N, le_refl _, ?_, ⟨hsession.printedTaken, sound_printedTaken hsound',
      takePrinted_sessionsAlike halike⟩, h.pending⟩
    show Answer.Alike _ (.printed e.workspace.state.printed.text)
      (.printed e'.workspace.state.printed.text)
    rw [htext]
    exact .printed _
  | valueOf name => exact ⟨N, le_refl _, .value (halike.state.globals.vars name), h⟩
  | close =>
    have hnumbers : numbers n N (e.close snippetCompiler).workspace = numbers n N e.workspace := by
      unfold numbers
      rw [show (e.close snippetCompiler).workspace.loader = _ from close_loader e.workspace]
    refine ⟨N, le_of_eq hnumbers.symm, .closed, ⟨hsession.closed, sound_closed hsound', ?_⟩, rfl⟩
    show SessionsAlike (numbers n N (e.close snippetCompiler).workspace) _ _
    rw [hnumbers]
    exact close_sessionsAlike halike

theorem EvaluatorsBehind.demands (h : EvaluatorsBehind host n N e e') {demands : List Demand}
    (hfits : DemandsFit e demands) :
    let later := runDemands e demands
    let later' := runDemands e' demands
    ∃ M, numbers n N e.workspace ≤ numbers n M later.2.workspace ∧
      List.Forall₂ (Answer.Alike (numbers n M later.2.workspace)) later.1 later'.1 ∧
      EvaluatorsBehind host n M later.2 later'.2 := by
  induction demands generalizing e e' N with
  | nil => exact ⟨N, le_refl _, .nil, h⟩
  | cons demand demands ih =>
    obtain ⟨M, hle, hanswer, hbehind⟩ := h.demand demand hfits.1
    obtain ⟨K, hle', hanswers, hend⟩ := ih hbehind hfits.2
    exact ⟨K, hle.trans hle', .cons (hanswer.mono hle') hanswers, hend⟩

/-- **A rejected unit is invisible.**  Running it takes a number, puts on record what was wrong and
changes nothing else: variables, methods, classes, counters, class loader and printed text stay.
Whatever is asked for later, a session that saw it gives the same outcomes, values, names, printed
text, reports and exceptions as one that did not, and ends in the same state, only that the numbers
of the later units are one higher. -/
theorem rejected_unit_invisible (files : FileTree) (w : Workspace SessionState) (source : String)
    (hopen : w.closed = false) (hrejected : (w.state.compile source).1.unit.body = .rejected) :
    (∃ diags, diags ≠ [] ∧ (Workspace.runUnit snippetCompiler files source).run w =
      (.ok [.rejected source diags], { w with state := w.state.rejecting diags })) ∧
    ∀ host n, Session host n w → ∀ pending demands, DemandsFit ⟨w, pending⟩ demands →
      let after := ((Workspace.runUnit snippetCompiler files source).run w).2
      let later := runDemands ⟨w, pending⟩ demands
      let later' := runDemands ⟨after, pending⟩ demands
      ∃ N, List.Forall₂ (Answer.Alike (numbers n N later.2.workspace)) later.1 later'.1 ∧
        SessionsAlike (numbers n N later.2.workspace) later.2.workspace later'.2.workspace ∧
        later'.2.pending = later.2.pending ∧ Session host (n + N) later.2.workspace ∧
        later'.2.workspace.state.units = later.2.workspace.state.units + 1 := by
  obtain ⟨diags, hne, hrun⟩ := exists_rejecting files hopen hrejected
  refine ⟨⟨diags, hne, hrun⟩, fun host n hsession pending demands hfits => ?_⟩
  rw [hrun]
  have hself := hsession.self_alike
  have hstart : EvaluatorsBehind host n 0 ⟨w, pending⟩
      ⟨{ w with state := w.state.rejecting diags }, pending⟩ :=
    ⟨⟨hsession, hsession.sound.numbered rfl rfl rfl, hself.state.counted _ _ _ _, hself.loader,
      hself.closed⟩, rfl⟩
  obtain ⟨N, -, hanswers, ⟨hlater, hlater', halike⟩, hpending⟩ := hstart.demands hfits
  exact ⟨N, hanswers, halike, hpending, hlater,
    hlater'.units.trans hlater.sound.nextNumber.symm⟩

/-- A new session once `int x = 1;` has run in it. -/
def withX : Workspace SessionState where
  state :=
    { host := .standard
      env := { vars := ⟨[("x", .int)]⟩ }
      globals := { vars := ⟨[("x", .int 1)]⟩ }
      units := 1 }
  loader := { definer := defineSnippet, host := .standard }

theorem withX_run : afterUnit {} newEvaluator.workspace "int x = 1;" = withX := by cbv

/-- The session once it has rejected `int y = "s";`. -/
def rejectingY : Workspace SessionState :=
  { withX with
    state := withX.state.rejecting
      [⟨"incompatible types: String cannot be converted to int", ⟨8, 11⟩⟩] }

theorem rejectingY_run :
    ((Workspace.runUnit snippetCompiler {} "int y = \"s\";").run withX).2 = rejectingY := by cbv

/-- The answer to `x / 0;` as a unit with some number. -/
def dividedByZero (className file : String) : Answer :=
  .outcomes (.ok [.failure ⟨⟨"lang.ArithmeticException", some "/ by zero",
    [⟨className, "do_it$", some file, some 1⟩]⟩, []⟩])

/-- `x / 0;` is the second unit of the one session and the third unit of the other. -/
theorem rejected_unit_invisible_division :
    let demands := [Demand.evaluate {} "x / 0;"]
    (withX.state.compile "int y = \"s\";").1.unit.body = .rejected ∧
      (runDemands ⟨withX, {}⟩ demands).1 = [dividedByZero "$Snippet$2" "#2"] ∧
      (runDemands ⟨rejectingY, {}⟩ demands).1 = [dividedByZero "$Snippet$3" "#3"] ∧
      ∃ N, List.Forall₂
        (Answer.Alike (numbers 1 N (runDemands ⟨withX, {}⟩ demands).2.workspace))
        (runDemands ⟨withX, {}⟩ demands).1 (runDemands ⟨rejectingY, {}⟩ demands).1 := by
  have hrejected : (withX.state.compile "int y = \"s\";").1.unit.body = .rejected := by cbv
  have hsession : Session .standard 1 withX := by
    have hsize : byteLength "int x = 1;".toList < 2 ^ 64 := by decide
    exact withX_run ▸ Session.start.evaluated {} rfl hsize
  have hfits : DemandsFit ⟨withX, {}⟩ [Demand.evaluate {} "x / 0;"] := by
    have hsize : byteLength ("" ++ "x / 0;").toList < 2 ^ 64 := by decide
    exact ⟨hsize, trivial⟩
  obtain ⟨-, hlater⟩ := rejected_unit_invisible {} withX "int y = \"s\";" rfl hrejected
  obtain ⟨N, hanswers, -⟩ := hlater .standard 1 hsession {} _ hfits
  rw [rejectingY_run] at hanswers
  refine ⟨hrejected, ?_, ?_, N, hanswers⟩
  · cbv
  · cbv

end ReplEngine.Language
