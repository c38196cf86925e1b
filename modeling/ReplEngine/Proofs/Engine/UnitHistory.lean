import ReplEngine.Proofs.Engine.Redeclaring
import ReplEngine.Proofs.Engine.Sessions
set_option autoImplicit false

/-!
# The units of a session

A session, with the units that have been evaluated in it on record.  What holds of a session because
of its units is proved by induction over the record: a unit is rejected and leaves everything but
numbers and reports as it was, or it is accepted and adds what it declares
(`afterUnit_rejected_or_accepted`).
-/

namespace ReplEngine.Language

open Text

/-- The workspaces that a session over a host comes to, with the units that have been evaluated in
it, the last one first. -/
inductive SessionOf (host : HostRegistry) : List String → Workspace SessionState → Prop where
  | start : SessionOf host [] (.ofCompiler snippetCompiler { host := host } host)
  | entry {units : List String} {w : Workspace SessionState} (h : SessionOf host units w)
      (files : FileTree) (path : String) : SessionOf host units (w.addEntry files path)
  | extended {units : List String} {w : Workspace SessionState} (h : SessionOf host units w)
      (files : FileTree) (paths : String) :
      SessionOf host units ((Workspace.extend files paths).run w).2
  | evaluated {units : List String} {w : Workspace SessionState} (h : SessionOf host units w)
      (files : FileTree) (source : String) (hopen : w.closed = false) :
      SessionOf host (source :: units) (afterUnit files w source)
  | printedTaken {units : List String} {w : Workspace SessionState} (h : SessionOf host units w) :
      SessionOf host units { w with state := w.state.takePrinted.2 }
  | closed {units : List String} {w : Workspace SessionState} (h : SessionOf host units w) :
      SessionOf host units (w.close snippetCompiler)

variable {host : HostRegistry} {n : Nat} {units : List String} {w : Workspace SessionState}
  {source : String}

/-- Every session has a record of its units. -/
theorem Session.exists_units (h : Session host n w) :
    ∃ units, units.length = n ∧ SessionOf host units w := by
  induction h with
  | start => exact ⟨[], rfl, .start⟩
  | entry _ files path ih =>
    obtain ⟨units, hlength, h⟩ := ih
    exact ⟨units, hlength, h.entry files path⟩
  | extended _ files paths ih =>
    obtain ⟨units, hlength, h⟩ := ih
    exact ⟨units, hlength, h.extended files paths⟩
  | @evaluated _ _ _ files source hopen _ ih =>
    obtain ⟨units, hlength, h⟩ := ih
    exact ⟨source :: units, congrArg (· + 1) hlength, h.evaluated files source hopen⟩
  | printedTaken _ ih =>
    obtain ⟨units, hlength, h⟩ := ih
    exact ⟨units, hlength, h.printedTaken⟩
  | closed _ ih =>
    obtain ⟨units, hlength, h⟩ := ih
    exact ⟨units, hlength, h.closed⟩

/-! ## Steps that evaluate nothing -/

/-- Extending the search path changes nothing but the search path. -/
theorem extend_keeps (files : FileTree) (paths : String) (w : Workspace SessionState) :
    ((Workspace.extend files paths).run w).2.state = w.state := by
  rw [extend_run]
  split
  · rfl
  · split <;> rfl

/-- A session that is closed forgets what was declared, or had forgotten it before. -/
theorem close_state (w : Workspace SessionState) :
    (w.close snippetCompiler).state = w.state ∨
      (w.close snippetCompiler).state = w.state.close := by
  unfold Workspace.close
  split
  · exact .inl rfl
  · exact .inr rfl

/-! ## A unit -/

/-- A workspace that is closed evaluates nothing. -/
theorem afterUnit_closed (files : FileTree) (source : String) (hclosed : w.closed = true) :
    afterUnit files w source = w :=
  congrArg Prod.snd (Reading.run_bind_error (Workspace.requireOpen_closed hclosed))

/-- A unit that is rejected is on record, and nothing else comes of it. -/
theorem afterUnit_rejected (files : FileTree) (hopen : w.closed = false) {snippet : Snippet}
    {diags : List Diag} (h : w.state.compile source = w.state.numbered.reject snippet diags) :
    afterUnit files w source = { w with state := (w.state.numbered.reject snippet diags).2 } := by
  have hcompile : snippetCompiler.compile source w.state =
      (.ok (w.state.numbered.reject snippet diags).1,
        (w.state.numbered.reject snippet diags).2) := by
    show (Except.ok (w.state.compile source).1, (w.state.compile source).2) = _
    rw [h]
  unfold afterUnit
  rw [Workspace.evaluate_run snippetCompiler files source hopen, hcompile]
  rfl

/-- What comes of a unit: nothing but a number and a report, or what it declares. -/
theorem afterUnit_rejected_or_accepted (files : FileTree) (source : String)
    (hopen : w.closed = false) :
    (∃ snippet diags,
      afterUnit files w source = { w with state := (w.state.numbered.reject snippet diags).2 }) ∨
    ∃ item checked, Item.parse source = .ok item ∧
      item.check w.state.env w.state.host (wrapperClass (w.state.units + 1)) = .ok checked ∧
      Leaves checked w.state w.loader (afterUnit files w source).state
        (afterUnit files w source).loader := by
  rcases compile_cases w.state source with
    ⟨snippet, diags, -, -, hreject⟩ | ⟨item, checked, -, -, hparse, hcheck, -⟩
  · exact .inl ⟨snippet, diags, afterUnit_rejected files hopen hreject⟩
  · exact .inr ⟨item, checked, hparse, hcheck, evaluate_leaves hopen files hparse hcheck⟩

/-- A unit that is accepted and declares no class is committed and run. -/
theorem afterUnit_ran {item : Item} {checked : Checked} (hopen : w.closed = false)
    (files : FileTree) (hparse : Item.parse source = .ok item)
    (hcheck : item.check w.state.env w.state.host (wrapperClass (w.state.units + 1)) = .ok checked)
    (hclass : ∀ decl sig, checked ≠ .typeDecl decl sig) :
    ∃ snippet,
      let committed := w.state.numbered.commit snippet checked
      let ran := SessionState.execute files committed.1.unit committed.2 w.loader
      afterUnit files w source = { w with state := ran.2.1, loader := ran.2.2 } := by
  obtain ⟨snippet, compiled, state, loader, hcommit, hloader, hcase⟩ :=
    evaluate_accepted hopen files hparse hcheck
  have hnone := (commit_classes (s := w.state.numbered) hclass snippet).1
  refine ⟨snippet, ?_⟩
  rw [hcommit] at hnone ⊢
  rw [hnone] at hloader
  obtain rfl : w.loader = loader := hloader
  obtain ⟨-, hclasses⟩ | ⟨result, state', loader', hexecute, hafter⟩ := hcase
  · exact absurd hnone hclasses
  · simp only [hexecute]
    exact hafter

end ReplEngine.Language
