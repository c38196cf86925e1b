import ReplEngine.Proofs.Evaluation.Quiet
import ReplEngine.Proofs.Evaluation.Running
import ReplEngine.Proofs.Typing.Uses
set_option autoImplicit false

/-!
# What a unit leaves alone

A unit that is accepted declares a method or a class, binds a variable, or does neither.  Everything
else that the session knows and holds is the same when the unit has run: other methods are stored
as they were, other variables have the type and the value that they had, and code that uses no name
whose meaning is changed is accepted as it was.
-/

namespace ReplEngine.Language

open Binary

/-! ## What a session holds -/

/-- Where a method is stored. -/
inductive Place where
  | topLevel (method : String)
  /-- In the newest version of a class. -/
  | member (className method : String)

/-- The session holds the method there, and has the signature on record for it. -/
inductive Stores (s : SessionState) (l : Loader) : Place → MethodDecl → MethodSig → Prop where
  | topLevel {name : String} {m : MethodDef} {sig : MethodSig}
      (hm : s.globals.methods.get? name = some m) (hsig : s.env.methods.get? name = some sig) :
      Stores s l (.topLevel name) m.decl sig
  | member {className name : String} {bytes : Bytes} {file : ClassFile} {m : MethodDecl}
      {classSig : ClassSig} {sig : MethodSig}
      (hbytes : (l.versions className).getLast?.map Version.bytes = some bytes)
      (hfile : ClassFile.decode bytes = .ok file) (hm : file.method? name = some m)
      (hclass : s.env.classes.get? className = some classSig)
      (hsig : classSig.methods.get? name = some sig) :
      Stores s l (.member className name) m sig

/-- The value is one of the type, by its class name: objects of earlier versions of a class are of
its type as well. -/
def Value.IsA : Ty → Value → Prop
  | .int, .int _ => True
  | .boolean, .bool _ => True
  | .string, .string _ => True
  | .void, .void => True
  | type, .null => type.isReference = true
  | .object name, .string _ => name = Lang.object
  | .object name, .exception d => name = Lang.object ∨ name = d.link.className
  | .object name, .object cls _ => name = Lang.object ∨ name = cls.name
  | _, _ => False

theorem Conforms.isA {l : Loader} {type : Ty} {v : Value} (h : Conforms l type v) : v.IsA type := by
  cases v with
  | exception d =>
    cases type with
    | object name => exact h.imp id And.left
    | _ => exact h
  | object cls identity =>
    cases type with
    | object name => exact h.2.imp id And.left
    | _ => exact h
  | _ => cases type <;> exact h

/-- A variable that is declared has a value of its type. -/
def SessionState.HasValue (s : SessionState) (name : String) : Prop :=
  ∀ type, s.env.vars.get? name = some type → ∃ v, s.globals.vars.get? name = some v ∧ v.IsA type

/-! ## What a unit changes -/

namespace Checked

/-- The variable that a value is stored in when the unit runs. -/
def bound? (s : SessionState) : Checked → Option (String × Ty)
  | .var decl type => some (decl.name, type)
  | .expr value _ type =>
    if type = .void ∨ value.isName then none
    else some (SessionState.keptName (s.values + 1), type)
  | _ => none

/-- The unit declares the method that is stored there. -/
def Replaces : Checked → Place → Prop
  | .method decl _, .topLevel name => name = decl.name
  | .typeDecl decl _, .member className _ => className = decl.name
  | _, _ => False

/-- The method is one of those that the unit declares. -/
def Declares : Checked → MethodDecl → MethodSig → Prop
  | .method decl declared, m, sig => m = decl ∧ sig = declared
  | .typeDecl decl declared, m, sig =>
    m ∈ decl.methods ∧ declared.methods.get? m.name = some sig
  | _, _, _ => False

/-- A name gets another meaning: a variable another type, a method another signature, a name of a
standard class a class of the session, a method of a class another signature or none. -/
inductive Changes (s : SessionState) : Checked → Use → Prop where
  | var {checked : Checked} {name : String} {type : Ty}
      (hbound : checked.bound? s = some (name, type)) (h : s.env.vars.get? name ≠ some type) :
      Changes s checked (.var name)
  | method {decl : MethodDecl} {sig : MethodSig} (h : s.env.methods.get? decl.name ≠ some sig) :
      Changes s (.method decl sig) (.method decl.name)
  | className {decl : ClassDecl} {sig : ClassSig}
      (hclass : s.env.classes.contains decl.name = false)
      (hhost : s.host.contains decl.name = false) :
      Changes s (.typeDecl decl sig) (.className decl.name)
  | member {decl : ClassDecl} {sig : ClassSig} {method : String}
      (h : ((s.env.classes.get? decl.name).bind fun old => old.methods.get? method) ≠
        sig.methods.get? method) :
      Changes s (.typeDecl decl sig) (.member decl.name method)

/-- What the session knows when the unit is committed. -/
def envAfter (s : SessionState) : Checked → Env
  | .typeDecl decl sig => { s.env with classes := s.env.classes.insert decl.name sig }
  | .method decl sig => { s.env with methods := s.env.methods.insert decl.name sig }
  | .var decl type => { s.env with vars := s.env.vars.insert decl.name type }
  | .expr value _ type =>
    if type = .void ∨ value.isName then s.env
    else { s.env with vars := s.env.vars.insert (SessionState.keptName (s.values + 1)) type }
  | .throw _ _ => s.env

end Checked

variable {s : SessionState} {l : Loader} {checked : Checked} {wrapper : String}

/-- A value without a name is kept in a variable of its own. -/
theorem Checked.bound?_kept {value : Expr} {line : UInt32} {type : Ty}
    (h : ¬ (type = .void ∨ value.isName = true)) :
    (Checked.expr value line type).bound? s =
      some (SessionState.keptName (s.values + 1), type) :=
  if_neg h

theorem Checked.bound?_notKept {value : Expr} {line : UInt32} {type : Ty}
    (h : type = .void ∨ value.isName = true) : (Checked.expr value line type).bound? s = none :=
  if_pos h

theorem Checked.envAfter_bound {name : String} {type : Ty}
    (h : checked.bound? s = some (name, type)) :
    checked.envAfter s = { s.env with vars := s.env.vars.insert name type } := by
  cases checked with
  | var decl found =>
    cases h
    rfl
  | expr value line found =>
    by_cases hkept : found = .void ∨ value.isName = true
    · cases (bound?_notKept hkept).symm.trans h
    · cases (bound?_kept hkept).symm.trans h
      exact if_neg hkept
  | _ => cases h

theorem Checked.envAfter_notKept {value : Expr} {line : UInt32} {type : Ty}
    (h : (Checked.expr value line type).bound? s = none) :
    (Checked.expr value line type).envAfter s = s.env := by
  by_cases hkept : type = .void ∨ value.isName = true
  · exact if_pos hkept
  · cases (bound?_kept hkept).symm.trans h

theorem Checked.envAfter_vars {name : String} (h : ∀ type, checked.bound? s ≠ some (name, type)) :
    (checked.envAfter s).vars.get? name = s.env.vars.get? name := by
  cases hbound : checked.bound? s with
  | some bound =>
    obtain ⟨key, type⟩ := bound
    have hkey : name ≠ key := by
      rintro rfl
      exact h type hbound
    rw [envAfter_bound hbound, Table.get?_insert, if_neg hkey]
  | none =>
    cases checked with
    | var decl type => cases hbound
    | expr value line type => rw [envAfter_notKept hbound]
    | _ => rfl

theorem Checked.envAfter_methods {name : String} (h : ¬ checked.Replaces (.topLevel name)) :
    (checked.envAfter s).methods.get? name = s.env.methods.get? name := by
  cases checked with
  | method decl sig => exact (Table.get?_insert _ _ _ _).trans (if_neg h)
  | expr value line type =>
    unfold envAfter
    simp only
    split <;> rfl
  | _ => rfl

theorem Checked.envAfter_classes {className method : String}
    (h : ¬ checked.Replaces (.member className method)) :
    (checked.envAfter s).classes.get? className = s.env.classes.get? className := by
  cases checked with
  | typeDecl decl sig => exact (Table.get?_insert _ _ _ _).trans (if_neg h)
  | expr value line type =>
    unfold envAfter
    simp only
    split <;> rfl
  | _ => rfl

/-- A name whose meaning is not changed means the same afterwards. -/
theorem same_of_not_changes {use : Use} (h : ¬ checked.Changes s use) :
    (unitContext s.env s.host wrapper).Same (checked.envAfter s) use := by
  cases hbound : checked.bound? s with
  | some bound =>
    obtain ⟨name, type⟩ := bound
    rw [Checked.envAfter_bound hbound]
    refine same_insertVar fun huse => ?_
    subst huse
    exact Decidable.not_not.mp fun hother => h (.var hbound hother)
  | none =>
    cases checked with
    | typeDecl decl sig =>
      refine same_insertClass (fun huse => ?_) fun method huse => ?_
      · subst huse
        rw [← Bool.not_eq_false, Bool.or_eq_false_iff]
        exact fun ⟨hclass, hhost⟩ => h (.className hclass hhost)
      · subst huse
        exact Decidable.not_not.mp fun hother => h (.member hother)
    | method decl sig =>
      refine same_insertMethod fun huse => ?_
      subst huse
      exact Decidable.not_not.mp fun hother => h (.method hother)
    | var decl type => cases hbound
    | expr value line type =>
      rw [Checked.envAfter_notKept hbound]
      cases use <;> rfl
    | throw value line => cases use <;> rfl

/-- What a unit declares is accepted where it is declared. -/
theorem acceptsMethod_of_declares {item : Item}
    (hcheck : item.check s.env s.host wrapper = .ok checked) {m : MethodDecl} {sig : MethodSig}
    (h : checked.Declares m sig) :
    (unitContext (checked.envAfter s) s.host wrapper).AcceptsMethod m sig := by
  cases checked with
  | typeDecl decl declared =>
    rw [(item_of_check hcheck).1 decl declared rfl] at hcheck
    exact acceptsMethod_of_declaredClass hcheck h.1 h.2
  | method decl declared =>
    rw [(item_of_check hcheck).2 decl declared rfl] at hcheck
    obtain ⟨rfl, rfl⟩ := h
    exact acceptsMethod_of_declared hcheck
  | _ => exact absurd h id

/-! ## What a unit leaves alone -/

theorem commit_state (s : SessionState) (checked : Checked) (snippet : Snippet) :
    ∃ values, (s.commit snippet checked).2 =
      { s with env := checked.envAfter s, values := values } := by
  cases checked with
  | expr value line type =>
    unfold SessionState.commit Checked.envAfter
    simp only
    split
    · exact ⟨s.values, rfl⟩
    · exact ⟨s.values + 1, rfl⟩
  | _ => exact ⟨s.values, rfl⟩

/-- What running leaves alone. -/
structure Leaves (checked : Checked) (s : SessionState) (l : Loader) (s' : SessionState)
    (l' : Loader) : Prop where
  env : s'.env = checked.envAfter s
  host : s'.host = s.host
  vars : ∀ name, (∀ type, checked.bound? s ≠ some (name, type)) →
    s'.globals.vars.get? name = s.globals.vars.get? name
  methods : ∀ name, ¬ checked.Replaces (.topLevel name) →
    s'.globals.methods.get? name = s.globals.methods.get? name
  stamps : ∀ className method, ¬ checked.Replaces (.member className method) →
    (l'.versions className).map Version.stamp = (l.versions className).map Version.stamp

/-- Storing a value changes no other variable. -/
theorem bind_vars {key name : String} (type : Ty) (result : Except Unwind Value)
    (h : name ≠ key) : (s.bind key type result).globals.vars.get? name = s.globals.vars.get? name :=
  (Table.get?_insert _ _ _ _).trans (if_neg h)

/-- Evaluating for a unit that was committed. -/
theorem leaves_of_evaluate {act : Eval Value} (hact : Quiet act) (committed : SessionState)
    (henv : committed.env = checked.envAfter s) (hhost : committed.host = s.host)
    (hglobals : committed.globals = s.globals) (l : Loader) :
    Leaves checked s l (committed.evaluate l act).2.1 (committed.evaluate l act).2.2 := by
  have hretains := hact ⟨committed.globals, l, committed.printed⟩
  refine ⟨henv, hhost, fun name _ => ?_, fun name _ => ?_, fun name _ _ => hretains.stamps name⟩
  · rw [← hglobals]
    exact congrArg (Table.get? · name) hretains.vars
  · rw [← hglobals]
    exact congrArg (Table.get? · name) hretains.methods

theorem Leaves.bind {s' : SessionState} {l' : Loader} (h : Leaves checked s l s' l')
    {key : String} {type : Ty} (hbound : checked.bound? s = some (key, type))
    (result : Except Unwind Value) : Leaves checked s l (s'.bind key type result) l' where
  env := h.env
  host := h.host
  vars name hname := by
    have hother : name ≠ key := by
      rintro rfl
      exact hname type hbound
    rw [bind_vars type result hother, h.vars name hname]
  methods := h.methods
  stamps := h.stamps

/-- A unit that was committed is run. -/
theorem execute_leaves (files : FileTree) (s : SessionState) (checked : Checked)
    (snippet : Snippet) (l : Loader) :
    let committed := s.commit snippet checked
    let after := SessionState.execute files committed.1.unit committed.2 l
    Leaves checked s l after.2.1 after.2.2 := by
  cases checked with
  | typeDecl decl sig => exact ⟨rfl, rfl, fun _ _ => rfl, fun _ _ => rfl, fun _ _ _ => rfl⟩
  | method decl sig =>
    refine ⟨rfl, rfl, fun _ _ => rfl, fun name hname => ?_, fun _ _ _ => rfl⟩
    exact (Table.get?_insert _ _ _ _).trans (if_neg hname)
  | throw value line =>
    exact leaves_of_evaluate (quiet_throwTop files snippet.id line value) s rfl rfl rfl l
  | var decl type =>
    obtain ⟨written, name, init, span, line⟩ := decl
    let committed := (s.commit snippet (.var ⟨written, name, init, span, line⟩ type)).2
    cases init with
    | none =>
      have hcommitted : Leaves (.var ⟨written, name, none, span, line⟩ type) s l committed l :=
        ⟨rfl, rfl, fun _ _ => rfl, fun _ _ => rfl, fun _ _ _ => rfl⟩
      exact hcommitted.bind rfl (.ok (Value.default type))
    | some init =>
      have hquiet := quiet_evalTop files snippet.id line init
      have hevaluated : Leaves (.var ⟨written, name, some init, span, line⟩ type) s l _ _ :=
        leaves_of_evaluate (s := s) hquiet committed rfl rfl rfl l
      exact hevaluated.bind rfl _
  | expr value line type =>
    have hquiet := quiet_evalTop files snippet.id line value
    by_cases hkept : type = .void ∨ value.isName = true
    · simp only [SessionState.commit, if_pos hkept]
      exact leaves_of_evaluate hquiet s (if_pos hkept).symm rfl rfl l
    · simp only [SessionState.commit, if_neg hkept]
      let committed : SessionState := { s with
        values := s.values + 1
        env := { s.env with
          vars := s.env.vars.insert (SessionState.keptName (s.values + 1)) type } }
      have hevaluated : Leaves (.expr value line type) s l _ _ :=
        leaves_of_evaluate (s := s) hquiet committed (if_neg hkept).symm rfl rfl l
      exact hevaluated.bind (Checked.bound?_kept hkept) _

/-! ## Stored methods and variables -/

variable {s' : SessionState} {l' : Loader}

/-- What is stored elsewhere stays as it is, and nothing else comes to be stored there. -/
theorem Leaves.stores_iff (h : Leaves checked s l s' l') {place : Place}
    (hplace : ¬ checked.Replaces place) (m : MethodDecl) (sig : MethodSig) :
    Stores s' l' place m sig ↔ Stores s l place m sig := by
  cases place with
  | topLevel name =>
    have hmethod := h.methods name hplace
    have hsig : s'.env.methods.get? name = s.env.methods.get? name := by
      rw [h.env, Checked.envAfter_methods hplace]
    constructor
    · rintro ⟨hm, hm'⟩
      exact .topLevel (hmethod ▸ hm) (hsig ▸ hm')
    · rintro ⟨hm, hm'⟩
      exact .topLevel (hmethod ▸ hm) (hsig ▸ hm')
  | member className name =>
    have hbytes := newestBytes_of_stamps (h.stamps className name hplace)
    have hclass : s'.env.classes.get? className = s.env.classes.get? className := by
      rw [h.env, Checked.envAfter_classes hplace]
    constructor
    · rintro (_ | ⟨hnewest, hfile, hm, hsig, hmsig⟩)
      exact .member (hbytes ▸ hnewest) hfile hm (hclass ▸ hsig) hmsig
    · rintro (_ | ⟨hnewest, hfile, hm, hsig, hmsig⟩)
      exact .member (hbytes ▸ hnewest) hfile hm (hclass ▸ hsig) hmsig

/-- A method that uses no name whose meaning is changed is accepted as it was. -/
theorem Leaves.acceptsMethod (h : Leaves checked s l s' l') {m : MethodDecl} {sig : MethodSig}
    (haccepts : (unitContext s.env s.host wrapper).AcceptsMethod m sig)
    (huses : ∀ use, (unitContext s.env s.host wrapper).MethodUses m sig use →
      ¬ checked.Changes s use) :
    (unitContext s'.env s'.host wrapper).AcceptsMethod m sig := by
  rw [h.env, h.host]
  exact haccepts.against fun use hu => same_of_not_changes (huses use hu)

/-- A variable that is not bound keeps its type and its value. -/
theorem Leaves.hasValue (h : Leaves checked s l s' l') {name : String}
    (hname : ∀ type, checked.bound? s ≠ some (name, type)) :
    s'.HasValue name ↔ s.HasValue name := by
  unfold SessionState.HasValue
  rw [h.env, Checked.envAfter_vars hname, h.vars name hname]

end ReplEngine.Language
