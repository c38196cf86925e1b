import ReplEngine.Proofs.Engine.UnitHistory
import ReplEngine.Proofs.Typing.Met
set_option autoImplicit false

/-!
# Expressions change no binding

A unit that is an expression or a `throw` declares nothing.  Whatever comes of it, it leaves every
method, every class and every variable as it was, but for the variable that keeps its value.  The
name of that variable has the next number, so it is new, unless a unit declared a variable of the
name: it is a name like others (`expression_keeps_bindings`, `keptName_taken`).  Numbers are words
and come again after 2^32 of them.
-/

namespace ReplEngine.Language

open Text

variable {host : HostRegistry} {units : List String} {w : Workspace SessionState}
  {s : SessionState} {source : String} {item : Item} {checked : Checked} {count : Nat}

/-! ## Numbers of kept values -/

theorem keptName_inj {a b : UInt32} (h : SessionState.keptName a = SessionState.keptName b) :
    a = b := by
  have htext : "$" ++ a.toNat.repr = "$" ++ b.toNat.repr := h
  rw [← String.toList_inj, String.toList_append, String.toList_append, List.append_cancel_left_eq,
    String.toList_inj] at htext
  exact UInt32.toNat_inj.mp (Nat.repr_inj.mp htext)

/-- The number of the last value that was kept, behind a unit that was accepted. -/
def Checked.valuesAfter (s : SessionState) : Checked → UInt32
  | .expr value _ type => if type = .void ∨ value.isName then s.values else s.values + 1
  | _ => s.values

theorem commit_values (s : SessionState) (snippet : Snippet) (checked : Checked) :
    (s.commit snippet checked).2.values = checked.valuesAfter s := by
  cases checked with
  | expr value line type =>
    unfold SessionState.commit Checked.valuesAfter
    simp only
    split <;> rfl
  | _ => rfl

theorem execute_values (files : FileTree) (unit : SnippetUnit) (s : SessionState) (l : Loader) :
    (SessionState.execute files unit s l).2.1.values = s.values := by
  obtain ⟨snippet, body⟩ := unit
  cases body with
  | var decl type =>
    obtain ⟨written, name, init, span, line⟩ := decl
    cases init <;> rfl
  | expr value line kept => cases kept <;> rfl
  | _ => rfl

/-! ## Units that declare no class -/

section

variable (hopen : w.closed = false) (files : FileTree) (hparse : Item.parse source = .ok item)
  (hcheck : item.check w.state.env w.state.host (wrapperClass (w.state.units + 1)) = .ok checked)

include hopen hparse hcheck

theorem values_afterUnit :
    (afterUnit files w source).state.values = checked.valuesAfter w.state := by
  obtain ⟨snippet, compiled, state, loader, hcommit, -, hafter⟩ :=
    evaluate_accepted hopen files hparse hcheck
  have hvalues : state.values = checked.valuesAfter w.state := by
    have hcommitted := commit_values w.state.numbered snippet checked
    rw [hcommit] at hcommitted
    exact hcommitted
  rcases hafter with ⟨hafter, -⟩ | ⟨result, state', loader', hexecute, hafter⟩
  · rw [hafter]
    exact hvalues
  · have hran := execute_values files compiled.unit state loader
    rw [hexecute] at hran
    rw [hafter]
    exact hran.trans hvalues

/-- A unit that declares no class makes classes out of bytes at most. -/
theorem loading_afterUnit (hclass : ∀ decl sig, checked ≠ .typeDecl decl sig) :
    Relation.ReflTransGen Loader.Loading w.loader (afterUnit files w source).loader := by
  obtain ⟨snippet, hafter⟩ := afterUnit_ran hopen files hparse hcheck hclass
  rw [hafter]
  exact (execute_ran files _ _ w.loader).loading

end

/-! ## Where variables come from -/

/-- The variable has a type or a value. -/
def SessionState.Binds (s : SessionState) (name : String) : Prop :=
  s.env.vars.get? name ≠ none ∨ s.globals.vars.get? name ≠ none

theorem not_binds_of_empty (henv : s.env = {}) (hglobals : s.globals = {}) (name : String) :
    ¬ s.Binds name := by
  unfold SessionState.Binds
  rw [henv, hglobals]
  rintro (htype | hvalue)
  · exact htype rfl
  · exact hvalue rfl

/-- The unit is a declaration of a variable of the name. -/
def DeclaresVar (source name : String) : Prop :=
  ∃ decl, Item.parse source = .ok (.stmt (.var decl)) ∧ decl.name = name

/-- A unit that binds a variable declares it, or keeps its value there. -/
theorem bound_cases (hparse : Item.parse source = .ok item) {wrapper : String}
    (hcheck : item.check s.env s.host wrapper = .ok checked) {name : String} {type : Ty}
    (h : checked.bound? s = some (name, type)) :
    (DeclaresVar source name ∧ checked.valuesAfter s = s.values) ∨
      (name = SessionState.keptName (s.values + 1) ∧ checked.valuesAfter s = s.values + 1) := by
  cases Context.acceptsItem_of_accepts (check_eq_ok.mp hcheck) with
  | @var decl found _ =>
    cases h
    exact .inl ⟨⟨decl, hparse, rfl⟩, rfl⟩
  | @expr value line found _ =>
    by_cases hkept : found = .void ∨ value.isName = true
    · cases (Checked.bound?_notKept hkept).symm.trans h
    · cases (Checked.bound?_kept hkept).symm.trans h
      exact .inr ⟨rfl, if_neg hkept⟩
  | _ => cases h

/-- A unit that binds no variable keeps no value. -/
theorem valuesAfter_of_not_bound (h : checked.bound? s = none) :
    checked.valuesAfter s = s.values := by
  cases checked with
  | expr value line type =>
    by_cases hkept : type = .void ∨ value.isName = true
    · exact if_pos hkept
    · cases (Checked.bound?_kept hkept).symm.trans h
  | _ => rfl

/-- The session has kept so many values, and every variable is one that a unit declared or that
keeps one of them. -/
structure Counted (units : List String) (count : Nat) (s : SessionState) : Prop where
  le_units : count ≤ units.length
  values : s.values = UInt32.ofNat count
  vars : ∀ name, s.Binds name → (∃ source ∈ units, DeclaresVar source name) ∨
    ∃ k < count, name = SessionState.keptName (UInt32.ofNat (k + 1))

theorem Counted.nextValue (h : Counted units count s) :
    s.values + 1 = UInt32.ofNat (count + 1) := by
  rw [h.values, UInt32.ofNat_add]
  rfl

/-- What is counted with the variables and the values that a session has had so far. -/
theorem Counted.mono (h : Counted units count s) {later : List String} {s' : SessionState}
    (hunits : ∀ source ∈ units, source ∈ later) (hlength : units.length ≤ later.length)
    (hvalues : s'.values = s.values) (hvars : ∀ name, s'.Binds name → s.Binds name) :
    Counted later count s' where
  le_units := h.le_units.trans hlength
  values := hvalues.trans h.values
  vars name hname := by
    refine (h.vars name (hvars name hname)).imp_left ?_
    rintro ⟨source, hsource, hdeclares⟩
    exact ⟨source, hunits source hsource, hdeclares⟩

/-- One more unit, accepted. -/
theorem Counted.accepted (h : Counted units count s) (hparse : Item.parse source = .ok item)
    {wrapper : String} (hcheck : item.check s.env s.host wrapper = .ok checked)
    {s' : SessionState} {l l' : Loader} (hleaves : Leaves checked s l s' l')
    (hvalues : s'.values = checked.valuesAfter s) :
    ∃ count', Counted (source :: units) count' s' := by
  have hcons (other : String) (hother : other ∈ units) : other ∈ source :: units :=
    List.mem_cons_of_mem source hother
  -- A variable that the unit does not bind was bound before.
  have hbefore (name : String) (hname : ∀ type, checked.bound? s ≠ some (name, type))
      (hbinds : s'.Binds name) : s.Binds name := by
    unfold SessionState.Binds at hbinds ⊢
    rwa [hleaves.env, Checked.envAfter_vars hname, hleaves.vars name hname] at hbinds
  cases hbound : checked.bound? s with
  | none =>
    refine ⟨count, h.mono hcons (Nat.le_succ _) ?_ fun name => hbefore name ?_⟩
    · rw [hvalues, valuesAfter_of_not_bound hbound]
    · simp [hbound]
  | some bound =>
    obtain ⟨key, type⟩ := bound
    have hother (name : String) (hne : name ≠ key) (found : Ty) :
        checked.bound? s ≠ some (name, found) := by
      rw [hbound]
      rintro ⟨⟩
      exact hne rfl
    rcases bound_cases hparse hcheck hbound with ⟨hdeclares, hsame⟩ | ⟨rfl, hnext⟩
    · refine ⟨count, h.le_units.trans (Nat.le_succ _), (hvalues.trans hsame).trans h.values,
        fun name hname => ?_⟩
      by_cases hkey : name = key
      · subst hkey
        exact .inl ⟨source, List.mem_cons_self, hdeclares⟩
      · refine (h.vars name (hbefore name (hother name hkey) hname)).imp_left ?_
        rintro ⟨unit, hunit, hdeclared⟩
        exact ⟨unit, hcons unit hunit, hdeclared⟩
    · refine ⟨count + 1, Nat.succ_le_succ h.le_units, (hvalues.trans hnext).trans h.nextValue,
        fun name hname => ?_⟩
      by_cases hkey : name = SessionState.keptName (s.values + 1)
      · exact .inr ⟨count, Nat.lt_succ_self count, hkey.trans (congrArg _ h.nextValue)⟩
      · refine (h.vars name (hbefore name (hother name hkey) hname)).imp ?_ ?_
        · rintro ⟨unit, hunit, hdeclared⟩
          exact ⟨unit, hcons unit hunit, hdeclared⟩
        · rintro ⟨k, hk, hname⟩
          exact ⟨k, Nat.lt_succ_of_lt hk, hname⟩

/-- Every session has counted the values that it has kept. -/
theorem SessionOf.counted (h : SessionOf host units w) : ∃ count, Counted units count w.state := by
  induction h with
  | start =>
    exact ⟨0, Nat.le_refl 0, rfl, fun name hname => absurd hname (not_binds_of_empty rfl rfl name)⟩
  | entry _ files path ih => exact ih
  | extended _ files paths ih =>
    rw [extend_keeps]
    exact ih
  | @evaluated units w _ files source hopen ih =>
    obtain ⟨count, ih⟩ := ih
    rcases afterUnit_rejected_or_accepted files source hopen with
      ⟨snippet, diags, hafter⟩ | ⟨item, checked, hparse, hcheck, hleaves⟩
    · rw [hafter]
      exact ⟨count, ih.mono (fun other hother => List.mem_cons_of_mem source hother)
        (Nat.le_succ _) rfl fun _ hname => hname⟩
    · exact ih.accepted hparse hcheck hleaves (values_afterUnit hopen files hparse hcheck)
  | printedTaken _ ih =>
    obtain ⟨count, ih⟩ := ih
    exact ⟨count, ih.mono (fun _ h => h) (Nat.le_refl _) rfl fun _ hname => hname⟩
  | @closed units w _ ih =>
    obtain ⟨count, ih⟩ := ih
    rcases close_state w with hsame | hclosed
    · rw [hsame]
      exact ⟨count, ih⟩
    · rw [hclosed]
      exact ⟨count, ih.mono (fun _ h => h) (Nat.le_refl _) rfl
        fun name hname => absurd hname (not_binds_of_empty rfl rfl name)⟩

/-- The name for the next value is new, unless a unit declared a variable of the name. -/
theorem Counted.fresh (h : Counted units count s)
    (hbinds : s.Binds (SessionState.keptName (s.values + 1))) :
    (∃ unit ∈ units, DeclaresVar unit (SessionState.keptName (s.values + 1))) ∨
      2 ^ 32 ≤ units.length := by
  refine (h.vars _ hbinds).imp id ?_
  rintro ⟨k, hk, hname⟩
  have hnumber := congrArg UInt32.toNat (keptName_inj hname)
  rw [h.nextValue, UInt32.toNat_ofNat', UInt32.toNat_ofNat'] at hnumber
  have hle := h.le_units
  omega

/-! ## Expressions -/

/-- The unit is evaluated and declares nothing. -/
def Item.IsEvaluated : Item → Prop
  | .stmt (.expr _ _) | .stmt (.throw _ _ _) => True
  | _ => False

/-- An expression or a `throw` declares no method and no class, and binds no variable but that of
the next value. -/
theorem not_replaces_of_isEvaluated (hitem : item.IsEvaluated) {wrapper : String}
    (hcheck : item.check s.env s.host wrapper = .ok checked) :
    (∀ place, ¬ checked.Replaces place) ∧ (∀ decl sig, checked ≠ .typeDecl decl sig) ∧
      ∀ name, name ≠ SessionState.keptName (s.values + 1) →
        ∀ type, checked.bound? s ≠ some (name, type) := by
  cases Context.acceptsItem_of_accepts (check_eq_ok.mp hcheck) with
  | @expr value line type _ =>
    refine ⟨fun _ h => h, nofun, fun name hname found hbound => ?_⟩
    by_cases hkept : type = .void ∨ value.isName = true
    · cases (Checked.bound?_notKept hkept).symm.trans hbound
    · cases (Checked.bound?_kept hkept).symm.trans hbound
      exact hname rfl
  | throw => exact ⟨fun _ h => h, nofun, fun _ _ _ => nofun⟩
  | _ => exact hitem.elim

/-- What two workspaces have in common when nothing was declared between them: methods, classes, and
every variable but one that keeps a value. -/
structure KeepsBindings (kept : String) (w w' : Workspace SessionState) : Prop where
  signatures : w'.state.env.methods.get? = w.state.env.methods.get?
  classSignatures : w'.state.env.classes.get? = w.state.env.classes.get?
  methods : w'.state.globals.methods.get? = w.state.globals.methods.get?
  /-- The newest class of every name. -/
  classes : w'.loader.newest? = w.loader.newest?
  /-- All versions of every class. -/
  versions : ∀ name,
    (w'.loader.versions name).map Version.stamp = (w.loader.versions name).map Version.stamp
  types : ∀ name, name ≠ kept → w'.state.env.vars.get? name = w.state.env.vars.get? name
  values : ∀ name, name ≠ kept → w'.state.globals.vars.get? name = w.state.globals.vars.get? name

theorem KeepsBindings.refl (kept : String) (w : Workspace SessionState) : KeepsBindings kept w w :=
  ⟨rfl, rfl, rfl, rfl, fun _ => rfl, fun _ _ => rfl, fun _ _ => rfl⟩

theorem keepsBindings_afterUnit (files : FileTree) (hparse : Item.parse source = .ok item)
    (hitem : item.IsEvaluated) :
    KeepsBindings (SessionState.keptName (w.state.values + 1)) w (afterUnit files w source) := by
  cases hclosed : w.closed with
  | true =>
    rw [afterUnit_closed files source hclosed]
    exact .refl _ w
  | false =>
    rcases afterUnit_rejected_or_accepted files source hclosed with
      ⟨snippet, diags, hafter⟩ | ⟨found, checked, hfound, hcheck, hleaves⟩
    · rw [hafter]
      exact ⟨rfl, rfl, rfl, rfl, fun _ => rfl, fun _ _ => rfl, fun _ _ => rfl⟩
    · cases hparse.symm.trans hfound
      obtain ⟨hreplaces, hclass, hbound⟩ := not_replaces_of_isEvaluated hitem hcheck
      have hloading := loading_afterUnit hclosed files hparse hcheck hclass
      refine ⟨funext fun name => ?_, funext fun name => ?_,
        funext fun name => hleaves.methods name (hreplaces _), Loader.newest?_of_loading hloading,
        Loader.stamps_of_loading hloading, fun name hname => ?_,
        fun name hname => hleaves.vars name (hbound name hname)⟩
      · rw [hleaves.env, Checked.envAfter_methods (hreplaces _)]
      · rw [hleaves.env, Checked.envAfter_classes (hreplaces (.member name ""))]
      · rw [hleaves.env, Checked.envAfter_vars (hbound name hname)]

/-- **Expressions and throws change no binding.**  Let a unit of any session be an expression or a
`throw`.  Whether it is accepted or not, and however its evaluation ends:
- the top-level methods and their signatures, the classes and their signatures, and all variables
  with their types and values are what they were, but for the variable that is named for the next
  value;
- there was no variable of that name before, unless a unit of the session declared one, or 2^32
  units have been evaluated. -/
theorem expression_keeps_bindings (h : SessionOf host units w) (files : FileTree)
    (hparse : Item.parse source = .ok item) (hitem : item.IsEvaluated) :
    let kept := SessionState.keptName (w.state.values + 1)
    KeepsBindings kept w (afterUnit files w source) ∧
      (w.state.Binds kept → (∃ unit ∈ units, DeclaresVar unit kept) ∨ 2 ^ 32 ≤ units.length) := by
  intro kept
  obtain ⟨count, hcounted⟩ := h.counted
  exact ⟨keepsBindings_afterUnit files hparse hitem, hcounted.fresh⟩

/-- In a session with `int x = 1;`, the value of `x + 1` is kept in a new variable. -/
theorem expression_keeps_bindings_sum :
    KeepsBindings "$1" (workspaceAfter ["int x = 1;"])
        (afterUnit {} (workspaceAfter ["int x = 1;"]) "x + 1") ∧
      ¬ (workspaceAfter ["int x = 1;"]).state.Binds "$1" := by
  have hparse : Item.parse "x + 1" =
      .ok (.stmt (.expr (.binary .add (.name "x" ⟨0, 1⟩) (.int 1 ⟨4, 5⟩) ⟨0, 5⟩) 1)) := by cbv
  have hkept : SessionState.keptName ((workspaceAfter ["int x = 1;"]).state.values + 1) = "$1" := by
    rw [show (workspaceAfter ["int x = 1;"]).state.values = 0 by cbv]
    rfl
  have hsession : SessionOf .standard ["int x = 1;"] (workspaceAfter ["int x = 1;"]) :=
    .evaluated .start {} _ rfl
  obtain ⟨hkeeps, hfresh⟩ := expression_keeps_bindings hsession {} hparse trivial
  rw [hkept] at hkeeps hfresh
  refine ⟨hkeeps, fun hbinds => ?_⟩
  rcases hfresh hbinds with ⟨unit, hunit, decl, hdecl, hname⟩ | hmany
  · cases List.mem_singleton.mp hunit
    have hvar : Item.parse "int x = 1;" =
        .ok (.stmt (.var ⟨.int, "x", some (.int 1 ⟨8, 9⟩), ⟨0, 9⟩, 1⟩)) := by cbv
    cases hvar.symm.trans hdecl
    exact absurd hname (by decide)
  · rw [List.length_singleton] at hmany
    omega

/-! ## Names that are taken -/

/-- Evaluating one value and storing it under the next number. -/
def Workspace.keeping (w : Workspace SessionState) (type : Ty) (v : Value) :
    Workspace SessionState :=
  let kept := SessionState.keptName (w.state.values + 1)
  { w with
    state :=
      { w.state with
        units := w.state.units + 1
        values := w.state.values + 1
        env := { w.state.env with vars := w.state.env.vars.insert kept type }
        globals := { w.state.globals with vars := w.state.globals.vars.insert kept v } } }

/-- A unit that is an expression with a value is run, and its value is kept and shown. -/
theorem evaluate_kept (hopen : w.closed = false) (files : FileTree) {e : Expr} {line : UInt32}
    {type : Ty} {v : Value} (hparse : Item.parse source = .ok (.stmt (.expr e line)))
    (hcheck : (Item.stmt (.expr e line)).check w.state.env w.state.host
      (wrapperClass (w.state.units + 1)) = .ok (.expr e line type))
    (hkept : ¬ (type = .void ∨ e.isName = true))
    (heval : ∀ snippet, evalTop files snippet line e = pure v) :
    ∃ snippet : Snippet, snippet.kind = .variable ∧
      snippet.name = SessionState.keptName (w.state.values + 1) ∧
      (Workspace.evaluate snippetCompiler files source).run w =
        (.ok [⟨snippet, .valid (some v.render)⟩], Workspace.keeping w type v) := by
  obtain ⟨snippet, hid, hcompile⟩ := compile_accepted hparse hcheck
  let kept := SessionState.keptName (w.state.values + 1)
  refine ⟨{ snippet with kind := .variable, name := kept }, rfl, rfl, ?_⟩
  have hcompiled : snippetCompiler.compile source w.state =
      (.ok (w.state.numbered.commit snippet (.expr e line type)).1,
        (w.state.numbered.commit snippet (.expr e line type)).2) := by
    show (Except.ok (w.state.compile source).1, (w.state.compile source).2) = _
    rw [hcompile]
  rw [Workspace.evaluate_run snippetCompiler files source hopen, hcompiled]
  simp only [SessionState.commit, if_neg hkept]
  have hinstall : (Loader.install []).run w.loader = (.ok [], w.loader) := rfl
  simp only [hinstall, snippetCompiler, SessionState.execute, SessionState.evaluate, heval]
  rfl

theorem afterUnit_literal (hopen : w.closed = false) {e : Expr} {line : UInt32} {type : Ty}
    {v : Value} (hparse : Item.parse source = .ok (.stmt (.expr e line)))
    (hcheck : (Item.stmt (.expr e line)).check w.state.env w.state.host
      (wrapperClass (w.state.units + 1)) = .ok (.expr e line type))
    (hkept : ¬ (type = .void ∨ e.isName = true))
    (heval : ∀ snippet, evalTop {} snippet line e = pure v) :
    afterUnit {} w source = Workspace.keeping w type v := by
  obtain ⟨snippet, -, -, hrun⟩ := evaluate_kept hopen {} hparse hcheck hkept heval
  exact congrArg Prod.snd hrun

theorem afterUnit_one (hopen : w.closed = false) :
    afterUnit {} w "1" = Workspace.keeping w .int (.int 1) :=
  afterUnit_literal hopen (by cbv) rfl (by decide) fun _ => rfl

theorem afterUnit_text (hopen : w.closed = false) :
    afterUnit {} w "\"s\"" = Workspace.keeping w .string (.string "s") :=
  afterUnit_literal hopen (by cbv) rfl (by decide) fun _ => rfl

/-- A session in which `1` has been evaluated so often. -/
theorem ones_run (n : Nat) :
    let w := workspaceAfter (List.replicate n "1")
    w.closed = false ∧ w.state.values = UInt32.ofNat n ∧
      (0 < n → w.state.env.vars.get? "$1" = some .int) := by
  induction n with
  | zero => exact ⟨rfl, rfl, fun h => absurd h (Nat.lt_irrefl 0)⟩
  | succ n ih =>
    obtain ⟨hopen, hvalues, hbound⟩ := ih
    have hlater : workspaceAfter (List.replicate (n + 1) "1") =
        Workspace.keeping (workspaceAfter (List.replicate n "1")) .int (.int 1) := by
      rw [List.replicate_succ', ← afterUnit_one hopen]
      exact List.foldl_append ..
    rw [hlater]
    refine ⟨hopen, ?_, fun _ => ?_⟩
    · rw [UInt32.ofNat_add, ← hvalues]
      rfl
    · refine (Table.get?_insert _ _ _ _).trans ?_
      split
      · rfl
      · rename_i hother
        refine hbound (Nat.pos_of_ne_zero fun hzero => hother ?_)
        rw [hvalues, hzero]
        rfl

/-- Two sessions with a variable `$1` that gets another type when a text is evaluated.  In the first
one a unit declared it, in the second one numbers have come round. -/
theorem keptName_taken :
    (∃ e line, Item.parse "\"s\"" = .ok (.stmt (.expr e line))) ∧
    (let before := workspaceAfter ["int $1 = 5;"]
      let after := afterUnit {} before "\"s\""
      before.state.env.vars.get? "$1" = some .int ∧
        before.state.globals.vars.get? "$1" = some (.int 5) ∧
        after.state.env.vars.get? "$1" = some .string ∧
        after.state.globals.vars.get? "$1" = some (.string "s")) ∧
    (let before := workspaceAfter (List.replicate (2 ^ 32) "1")
      let after := afterUnit {} before "\"s\""
      before.state.env.vars.get? "$1" = some .int ∧
        after.state.env.vars.get? "$1" = some .string) := by
  refine ⟨⟨.string "s" ⟨0, 3⟩, 1, ?_⟩, ?_, ?_⟩
  · cbv
  · cbv
    exact ⟨rfl, trivial⟩
  · obtain ⟨hopen, hvalues, hbound⟩ := ones_run (2 ^ 32)
    refine ⟨hbound (Nat.two_pow_pos 32), ?_⟩
    rw [afterUnit_text hopen]
    refine (Table.get?_insert _ _ _ _).trans (if_pos ?_)
    rw [hvalues]
    rfl

end ReplEngine.Language
