import ReplEngine.Proofs.Evaluation.Soundness
set_option autoImplicit false

/-!
# Running accepted units

What type soundness means for a session: running an accepted unit is reported as one event, and
afterwards every variable that the checker knows, a new one included, has a value of its type.
-/

namespace ReplEngine.Language

variable {s : SessionState} {l : Loader}

/-- Every variable has a value of its type. -/
def VarsConform (l : Loader) (types : Table Ty) (values : Table Value) : Prop :=
  ∀ name type, types.get? name = some type →
    ∃ v, values.get? name = some v ∧ Conforms l type v

theorem VarsConform.insert {types : Table Ty} {values : Table Value}
    (h : VarsConform l types values) (name : String) {type : Ty} {v : Value}
    (hv : Conforms l type v) : VarsConform l (types.insert name type) (values.insert name v) := by
  intro key found hkey
  rw [Table.get?_insert] at hkey
  rw [Table.get?_insert]
  by_cases heq : key = name
  · rw [if_pos heq] at hkey ⊢
    cases hkey
    exact ⟨v, rfl, hv⟩
  · rw [if_neg heq] at hkey ⊢
    exact h key found hkey

/-- What is stored for a variable has its type, also where the initializer threw. -/
theorem conforms_stored {act : Eval Value} {type : Ty} (h : Evaluates s l act (some type))
    (hvoid : type ≠ .void) (hknown : type ≠ .unknown) :
    Conforms (s.evaluate l act).2.2 type
      (match (s.evaluate l act).1 with
      | .ok v => v
      | .error _ => Value.default type) := by
  cases hresult : (s.evaluate l act).1 with
  | ok v =>
    obtain ⟨t, ht, hconforms⟩ := h.conforms v hresult
    cases ht
    exact hconforms
  | error unwind => exact conforms_default hvoid hknown

/-- An evaluation without a fault is reported as one event. -/
theorem eventOf_single {act : Eval Value} {type : Option Ty} (h : Evaluates s l act type)
    (snippet : Snippet) (shown : Value → Option String) :
    ∃ event, SessionState.eventOf snippet shown (s.evaluate l act).1 = .ok [event] := by
  cases hresult : (s.evaluate l act).1 with
  | ok v => exact ⟨_, rfl⟩
  | error unwind =>
    cases unwind with
    | throw exception => exact ⟨_, rfl⟩
    | fault fault => exact absurd hresult (h.noFault fault)

theorem Evaluates.vars {act : Eval Value} {type : Option Ty} (h : Evaluates s l act type) :
    VarsConform (s.evaluate l act).2.2 s.env.vars (s.evaluate l act).2.1.globals.vars := by
  intro name found hname
  rw [← h.sameEnv] at hname
  exact h.agrees.vars hname

theorem Agrees.varsConform (ha : Agrees s l) : VarsConform l s.env.vars s.globals.vars :=
  fun _ _ hname => ha.vars hname

/-- A unit that was accepted and committed runs to exactly one event, and every variable of the
session still has a value of its type. -/
theorem execute_accepted (ha : Agrees s l) (files : FileTree) (snippet : Snippet) {item : Item}
    {wrapper : String} {checked : Checked}
    (h : item.check s.env s.host wrapper = .ok checked) :
    let committed := s.commit snippet checked
    let after := SessionState.execute files committed.1.unit committed.2 l
    (∃ event, after.1 = .ok [event]) ∧
      VarsConform after.2.2 committed.2.env.vars after.2.1.globals.vars := by
  have hsound := unit_sound ha files snippet.id h
  have htyped := unit_wellTyped ha.known h
  cases checked with
  | typeDecl decl sig => exact ⟨⟨_, rfl⟩, ha.varsConform⟩
  | method decl sig => exact ⟨⟨_, rfl⟩, ha.varsConform⟩
  | throw value line => exact ⟨eventOf_single hsound snippet _, hsound.vars⟩
  | var decl type =>
    obtain ⟨written, name, init, span, line⟩ := decl
    cases init with
    | none =>
      exact ⟨⟨_, rfl⟩, ha.varsConform.insert name hsound⟩
    | some init =>
      refine ⟨eventOf_single hsound snippet _, ?_⟩
      exact hsound.vars.insert name (conforms_stored hsound htyped.notVoid htyped.known)
  | expr value line type =>
    by_cases hkept : type = .void ∨ value.isName = true
    · simp only [SessionState.commit, if_pos hkept]
      exact ⟨eventOf_single hsound snippet _, hsound.vars⟩
    · simp only [SessionState.commit, if_neg hkept]
      rw [not_or] at hkept
      have hknown := htyped.known (unitContext_known ha.known s.host wrapper)
      refine ⟨eventOf_single hsound _ _, ?_⟩
      exact hsound.vars.insert _ (conforms_stored hsound hkept.1 hknown)

/-- **Type soundness.**  In a session that agrees with what the checker knows of it, a variable,
expression or `throw` that the checker accepts is evaluated without a fault, whatever methods it
calls: to a value of its type or an exception, and a `throw` never to a value.  So the unit runs
to exactly one event and leaves every variable with a value of its type. -/
theorem type_soundness (ha : Agrees s l) (files : FileTree) (snippet : Snippet) {item : Item}
    {wrapper : String} {checked : Checked}
    (h : item.check s.env s.host wrapper = .ok checked) :
    checked.Sound files snippet.id s l ∧
      let committed := s.commit snippet checked
      let after := SessionState.execute files committed.1.unit committed.2 l
      (∃ event, after.1 = .ok [event]) ∧
        VarsConform after.2.2 committed.2.env.vars after.2.1.globals.vars :=
  ⟨unit_sound ha files snippet.id h, execute_accepted ha files snippet h⟩

/-! A session with a class, a method and a variable -/

/-- `class Pair { int size() { return 2; } String toString() { return "pair"; } }` -/
def pairClass : ClassDecl :=
  ⟨"Pair",
    [⟨.int, "size", [], [.ret (some (.int 2 default)) default 1], default⟩,
      ⟨.string, "toString", [], [.ret (some (.string "pair" default)) default 1], default⟩],
    default⟩

/-- `int twice(int n) { return n + n; }` -/
def twiceMethod : MethodDecl :=
  ⟨.int, "twice", [⟨.int, "n"⟩],
    [.ret (some (.binary .add (.name "n" default) (.name "n" default) default)) default 1], default⟩

/-- The class as it is installed. -/
def pairObject : ClassObject := ⟨"Pair", .installed 1, .snippet (.ofDecl pairClass 1)⟩

def pairSig : ClassSig :=
  ⟨⟨[("toString", ⟨[], .string⟩), ("size", ⟨[], .int⟩)]⟩⟩

/-- The session once the class, the method and `Pair p = new Pair();` have run. -/
def pairSession : SessionState where
  host := .standard
  env :=
    { vars := ⟨[("p", .object "Pair")]⟩
      methods := ⟨[("twice", ⟨[.int], .int⟩)]⟩
      classes := ⟨[("Pair", pairSig)]⟩ }
  globals :=
    { vars := ⟨[("p", .object pairObject 0x9E3779B9)]⟩
      methods := ⟨[("twice", ⟨twiceMethod, 2⟩)]⟩
      objects := 1 }

def pairLoader : Loader where
  definer := defineSnippet
  host := .standard
  installed :=
    ⟨[("Pair", [⟨(ClassFile.ofDecl pairClass 1).encode, 1, some ⟨pairObject, true⟩⟩])]⟩
  nextGeneration := 2
  defined := 1

theorem pairSession_agrees : Agrees pairSession pairLoader where
  host _ := rfl
  plain := ⟨fun _ => rfl, rfl, fun _ => rfl⟩
  known := {
    vars := by
      intro name type h
      obtain ⟨-, rfl⟩ := Table.get?_single.mp h
      simp
    methods := by
      intro name sig h
      obtain ⟨-, rfl⟩ := Table.get?_single.mp h
      exact ⟨by simp, by simp⟩
    classes := by
      intro name sig method msig h hmethod
      obtain ⟨-, rfl⟩ := Table.get?_single.mp h
      have hcases : msig = ⟨[], .string⟩ ∨ msig = ⟨[], .int⟩ := by
        unfold pairSig Table.get? at hmethod
        simp only [Table.lookup_cons_eq] at hmethod
        split at hmethod
        · exact Or.inl (Option.some.inj hmethod).symm
        split at hmethod
        · exact Or.inr (Option.some.inj hmethod).symm
        · cases hmethod
      rcases hcases with rfl | rfl
      · exact ⟨by simp, by simp⟩
      · exact ⟨by simp, by simp⟩ }
  installed name := by
    by_cases hname : name = "Pair"
    · subst hname
      exact iff_of_true (by intro h; cases h) rfl
    · have hversions : pairLoader.versions name = [] := by
        simp [pairLoader, Loader.versions, Table.get?, Table.lookup_cons_eq, hname]
      have hclass : pairSession.env.classes.contains name = false := by
        simp [pairSession, Table.contains, Table.get?, Table.lookup_cons_eq, hname]
      rw [hversions, hclass]
      simp
  notStandard := by
    intro name h
    obtain ⟨sig, hsig⟩ := Option.isSome_iff_exists.mp h
    obtain ⟨rfl, -⟩ := Table.get?_single.mp hsig
    rfl
  vars := by
    intro name type h
    obtain ⟨rfl, rfl⟩ := Table.get?_single.mp h
    exact ⟨_, rfl, rfl, Or.inr ⟨rfl, rfl⟩⟩
  methods := by
    intro name sig h
    obtain ⟨rfl, rfl⟩ := Table.get?_single.mp h
    exact ⟨⟨twiceMethod, 2⟩, "$Snippet$2", rfl, rfl, rfl⟩
  noMethods := by
    intro name h
    have hname : name ≠ "twice" := by
      intro hname
      subst hname
      cases h
    simp [pairSession, Table.get?, Table.lookup_cons_eq, hname]
  classes := by
    intro name sig h
    obtain ⟨rfl, rfl⟩ := Table.get?_single.mp h
    exact ⟨.installed 1, pairClass, 1, "$Snippet$1", rfl, rfl, rfl⟩
  shown := by
    intro name sig msig h hmethod
    obtain ⟨rfl, rfl⟩ := Table.get?_single.mp h
    exact (Option.some.inj hmethod).symm

/-- `twice(p.size())` -/
def pairCall : Expr := .call "twice" [.methodCall (.name "p" default) "size" [] default] default

/-- The session agrees with its classes, methods and variables, the checker accepts the call as
an `int`, and the call is evaluated as one. -/
theorem type_soundness_pair :
    Agrees pairSession pairLoader ∧
      (Item.stmt (.expr pairCall 1)).check pairSession.env pairSession.host "$Snippet$3" =
        .ok (.expr pairCall 1 .int) ∧
      Evaluates pairSession pairLoader (evalTop {} 3 1 pairCall) (some .int) := by
  have haccepted : (Item.stmt (.expr pairCall 1)).check pairSession.env pairSession.host
      "$Snippet$3" = .ok (.expr pairCall 1 .int) := rfl
  have hsound := type_soundness pairSession_agrees {} ⟨3, .expression, "", "twice(p.size())"⟩
    haccepted
  exact ⟨pairSession_agrees, haccepted, hsound.1⟩

end ReplEngine.Language
