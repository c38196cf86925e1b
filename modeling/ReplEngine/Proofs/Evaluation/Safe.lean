import ReplEngine.Proofs.Evaluation.Agreement
set_option autoImplicit false

/-!
# Safe steps

Evaluation is safe where it ends with a value as expected or with an exception, and without a
fault, in a world that still holds what the session held.  Every step of evaluation has one lemma
that says on which values it is safe.
-/

namespace ReplEngine.Language

open Reading

variable {s : SessionState} {l : Loader} {α β : Type}

/-! ## Safety -/

/-- What every world has in common that evaluation can get to: variables, methods and what class
names stand for. -/
structure Reached (s : SessionState) (l : Loader) (w : World) : Prop where
  vars : w.globals.vars = s.globals.vars
  methods : w.globals.methods = s.globals.methods
  plain : w.loader.Plain
  newest : w.loader.newest? = l.newest?

/-- Evaluation ended with an expected value or an exception. -/
def EndsWell (s : SessionState) (l : Loader) (post : α → Prop) : Except Unwind α × World → Prop
  | (.ok a, w) => post a ∧ Reached s l w
  | (.error (.throw _), w) => Reached s l w
  | (.error (.fault _), _) => False

/-- Wherever evaluation starts, it ends well. -/
def Safe (s : SessionState) (l : Loader) (post : α → Prop) (act : Eval α) : Prop :=
  ∀ w, Reached s l w → EndsWell s l post (act.run w)

theorem safe_pure {post : α → Prop} {a : α} (h : post a) : Safe s l post (pure a) :=
  fun _ hw => ⟨h, hw⟩

theorem Safe.bind {post : α → Prop} {next : β → Prop} {act : Eval α} {f : α → Eval β}
    (hact : Safe s l post act) (hf : ∀ a, post a → Safe s l next (f a)) :
    Safe s l next (act >>= f) := by
  intro w hw
  have hends := hact w hw
  cases hrun : act.run w with
  | mk result w' =>
    rw [hrun] at hends
    cases result with
    | ok a =>
      rw [run_bind_ok hrun]
      exact hf a hends.1 w' hends.2
    | error unwind =>
      rw [run_bind_error hrun]
      cases unwind with
      | throw exception => exact hends
      | fault fault => exact hends

/-- An exception is a safe end whatever value was expected. -/
theorem safe_throw {post : α → Prop} (exception : Descriptor) :
    Safe s l post (throw (.throw exception)) :=
  fun _ hw => hw

theorem safe_raise {post : α → Prop} (stack : Stack) (className : String)
    (message : Option String) : Safe s l post (raise stack className message) :=
  safe_throw _

/-- A step that leaves globals alone but for the count of objects. -/
theorem safe_freshIdentity : Safe s l (fun _ => True) freshIdentity :=
  fun _ hw => ⟨trivial, hw.vars, hw.methods, hw.plain, hw.newest⟩

theorem safe_println (text : String) : Safe s l (fun _ => True) (println text) :=
  fun _ hw => ⟨trivial, hw.vars, hw.methods, hw.plain, hw.newest⟩

/-! ## Names and operators -/

/-- Every local has a value, one of its type once it is initialized, and no other name has. -/
def LocalsConform (l : Loader) (locals : Table (Ty × Bool)) (values : Table Value) : Prop :=
  ∀ name, match locals.get? name with
    | some (type, initialized) =>
      ∃ v, values.get? name = some v ∧ (initialized = true → Conforms l type v)
    | none => values.get? name = none

theorem LocalsConform.insert {locals : Table (Ty × Bool)} {values : Table Value}
    (h : LocalsConform l locals values) (name : String) {type : Ty} {initialized : Bool}
    {v : Value} (hv : initialized = true → Conforms l type v) :
    LocalsConform l (locals.insert name (type, initialized)) (values.insert name v) := by
  intro key
  rw [Table.get?_insert, Table.get?_insert]
  by_cases hkey : key = name
  · simp only [hkey, if_true]
    exact ⟨v, rfl, hv⟩
  · simp only [hkey, if_false]
    exact h key

theorem localsConform_empty : LocalsConform l {} {} := fun _ => rfl

/-- A name that is well typed has a value of its type. -/
theorem safe_lookup (ha : Agrees s l) {ctx : Context} (hsees : ctx.Sees s.env s.host)
    {frame : Frame} (hlocals : LocalsConform l ctx.scope.locals frame.locals) (below : Stack)
    {name : String} {span : Span} {type : Ty} (h : ctx.HasType (.name name span) type) :
    Safe s l (Conforms l type) (lookup (frame :: below) name) := by
  have hname := hlocals name
  intro w hw
  unfold lookup
  rw [run_bind_ok (run_get w)]
  simp only [List.head?_cons, Option.map_some, Option.getD_some]
  cases h with
  | inner hinner =>
    rw [hinner] at hname
    obtain ⟨v, hvalue, hconforms⟩ := hname
    rw [hvalue]
    exact ⟨hconforms rfl, hw⟩
  | outer hnone hvar =>
    rw [hnone] at hname
    rw [hsees.sameEnv] at hvar
    obtain ⟨v, hvalue, hconforms⟩ := ha.vars hvar
    simp only at hname
    rw [hname, hw.vars, hvalue]
    exact ⟨hconforms, hw⟩

theorem safe_negate {v : Value} (h : Conforms l .int v) :
    Safe s l (Conforms l .int) (negate v) := by
  obtain ⟨n, rfl⟩ := conforms_int h
  exact safe_pure trivial

theorem safe_arithmetic (stack : Stack) (op : BinaryOp) (a b : Int32) :
    Safe s l (Conforms l .int) (arithmetic stack op a b) := by
  unfold arithmetic
  cases op with
  | div | rem =>
    by_cases hzero : b = 0
    · simp only [hzero, if_true]
      exact safe_raise _ _ _
    · simp only [hzero, if_false]
      exact safe_pure trivial
  | _ => exact safe_pure trivial

theorem safe_operate_int (stack : Stack) (op : BinaryOp) {lhs rhs : Value}
    (hlhs : Conforms l .int lhs) (hrhs : Conforms l .int rhs) :
    Safe s l (Conforms l .int) (operate stack op lhs rhs) := by
  obtain ⟨a, rfl⟩ := conforms_int hlhs
  obtain ⟨b, rfl⟩ := conforms_int hrhs
  exact safe_arithmetic stack op a b

/-- One operand of a string type is enough for `+` to join texts. -/
theorem safe_operate_concat (stack : Stack) {lhsType rhsType : Ty} {lhs rhs : Value}
    (hlhs : Conforms l lhsType lhs) (hrhs : Conforms l rhsType rhs)
    (hstring : lhsType = .string ∨ rhsType = .string) :
    Safe s l (Conforms l .string) (operate stack .add lhs rhs) := by
  have hrun (hints : ∀ a b, ¬ (lhs = .int a ∧ rhs = .int b)) :
      operate stack .add lhs rhs = pure (.string (lhs.display ++ rhs.display)) := by
    unfold operate
    split
    · exact absurd ⟨rfl, rfl⟩ (hints _ _)
    · rfl
  rw [hrun]
  · exact safe_pure trivial
  · intro a b ⟨ha, hb⟩
    subst ha hb
    rcases hstring with rfl | rfl
    · cases hlhs
    · cases hrhs

/-- A value of a throwable type is thrown, whatever it is. -/
theorem safe_throwValue (ha : Agrees s l) {ctx : Context} (hsees : ctx.Sees s.env s.host)
    (stack : Stack) {type : Ty} {v : Value} (h : Conforms l type v)
    (hthrow : ctx.isThrowable type = true) {post : α → Prop} :
    Safe s l post (throwValue stack v) := by
  rcases ha.throwable_of_conforms hsees h hthrow with rfl | ⟨d, rfl⟩
  · exact safe_raise _ _ _
  · exact safe_throw _

/-! ## Objects -/

theorem loadClass_run {files : FileTree} {name : String} {w : World} {loader : Loader}
    {result : Except LoaderError LiveClass}
    (h : (Loader.find files name).run w.loader = (result, loader)) :
    (loadClass files name).run w =
      (.ok (result.map LiveClass.object), { w with loader := loader }) := by
  have hrun : (loadClass files name).run w =
      (.ok (((Loader.find files name).run w.loader).1.map LiveClass.object),
        { w with loader := ((Loader.find files name).run w.loader).2 }) := rfl
  rw [hrun, h]

/-- Names of declared classes and of standard ones stand for their current class. -/
theorem loadClass_current (ha : Agrees s l) (files : FileTree) {name : String}
    (hname : s.env.classes.contains name = true ∨ HostRegistry.standard.contains name = true)
    {w : World} (hw : Reached s l w) :
    ∃ cls w', (loadClass files name).run w = (.ok (.ok cls), w') ∧ cls.name = name ∧
      l.Current cls ∧ Reached s l w' := by
  rcases hname with hclass | hstandard
  · obtain ⟨sig, hsig⟩ := Option.isSome_iff_exists.mp hclass
    obtain ⟨origin, decl, snippet, -, hversion, -⟩ := ha.classes (hsig : _ = some sig)
    rw [← hw.newest] at hversion
    obtain ⟨live, loader, hfind, hlive, hnewest, hplain⟩ := Loader.find_newest files hversion
    refine ⟨live.object, _, loadClass_run hfind, by rw [hlive], ?_, hw.vars, hw.methods,
      hplain hw.plain, hnewest.trans hw.newest⟩
    unfold Loader.Current
    rw [hlive, ← hw.newest, hversion]
  · have hnone := ha.newest?_none (ha.notInstalled hstandard)
    obtain ⟨c, hfind⟩ := Option.isSome_iff_exists.mp hstandard
    have hfind : HostRegistry.standard.find? name = some c := hfind
    have hhost := hw.plain.host name
    rw [hfind] at hhost
    obtain ⟨live, hlive, hobject⟩ := Option.map_eq_some_iff.mp hhost
    have hname : live.object.name = name := by
      rw [hobject, HostRegistry.name_of_standard hfind]
    refine ⟨live.object, w, loadClass_run (Loader.find_host files ?_ hlive), hname, ?_, hw⟩
    · rw [hw.newest, hnone]
    · unfold Loader.Current
      rw [hname, hnone, hfind, hobject]
      rfl

theorem loadClass_missing (ha : Agrees s l) (files : FileTree) {name : String}
    (hclass : s.env.classes.contains name = false)
    (hstandard : HostRegistry.standard.contains name = false) {w : World} (hw : Reached s l w) :
    (loadClass files name).run w = (.ok (.error (.classNotFound name)), w) := by
  have hhost : w.loader.host.find? name = none := by
    have hcontains := (hw.plain.host.contains name).trans hstandard
    exact Option.not_isSome_iff_eq_none.mp (ne_true_of_eq_false hcontains)
  refine loadClass_run (Loader.find_missing files ?_ hhost hw.plain)
  rw [hw.newest, ha.newest?_none hclass]

/-- The short name of a standard class is in no package. -/
theorem not_packaged_of_standard {name : String}
    (h : HostRegistry.standard.contains (Lang.package ++ name) = true) :
    isPackaged name = false := by
  have hall : ∀ full ∈ Lang.object :: Lang.exceptions,
      Lang.package.toList.isPrefixOf (full.toList.drop 5) = false := by decide
  have hname := hall _ (HostRegistry.mem_of_standard h)
  simpa [isPackaged, Lang.package] using hname

/-- A name that the checker resolves is found as the class that it was resolved to. -/
theorem safe_findClass (ha : Agrees s l) (files : FileTree) {ctx : Context}
    (hsees : ctx.Sees s.env s.host) {name qualified : String}
    (hclass : ctx.resolveClass name = some qualified) :
    Safe s l (fun cls => cls.name = qualified ∧ l.Current cls) (findClass files name) := by
  intro w hw
  rcases hsees.resolveClass hclass with ⟨rfl, hname⟩ | ⟨hqualified, hnoClass, hnoHost, hhost⟩
  -- The name itself is found, or it is missing and the standard class is found next.
  · rw [ha.host.contains] at hname
    obtain ⟨cls, w', hrun, hsame, hcurrent, hw'⟩ := loadClass_current ha files hname hw
    unfold findClass
    rw [run_bind_ok hrun]
    exact ⟨⟨hsame, hcurrent⟩, hw'⟩
  · rw [ha.host.contains] at hnoHost hhost
    have hrun := loadClass_missing ha files hnoClass hnoHost hw
    subst hqualified
    obtain ⟨cls, w', hstandard, hsame, hcurrent, hw'⟩ :=
      loadClass_current ha files (Or.inr hhost) hw
    unfold findClass
    rw [run_bind_ok hrun]
    simp only [not_packaged_of_standard hhost, Bool.false_eq_true, if_false]
    rw [run_bind_ok hstandard]
    exact ⟨⟨hsame, hcurrent⟩, hw'⟩

theorem safe_newObject {cls : ClassObject} (hcurrent : l.Current cls) {name : String}
    (hname : name = Lang.object ∨ (name = cls.name ∧ cls.body.classFile?.isSome = true)) :
    Safe s l (Conforms l (.object name)) (do return .object cls (← freshIdentity)) := by
  apply safe_freshIdentity.bind
  intro identity _
  exact safe_pure ⟨hcurrent, hname⟩

/-- `new` makes a value of the class. -/
theorem safe_newInstance (ha : Agrees s l) (files : FileTree) (stack : Stack) {ctx : Context}
    (hsees : ctx.Sees s.env s.host) {name qualified : String}
    (hclass : ctx.resolveClass name = some qualified) (args : List Value) :
    Safe s l (Conforms l (.object qualified)) (newInstance files stack name args) := by
  unfold newInstance
  apply (safe_findClass ha files hsees hclass).bind
  intro cls ⟨hname, hcurrent⟩
  rcases ha.current_cases hcurrent with
    ⟨origin, decl, snippet, sig, wrapper, rfl, -⟩ | ⟨c, hfind, rfl⟩
  · exact safe_newObject hcurrent (Or.inr ⟨hname.symm, rfl⟩)
  · rw [hname] at hfind
    cases hexception : c.object.body.exceptionType? with
    | none =>
      exact safe_newObject hcurrent (Or.inl (HostRegistry.eq_object_of_standard hfind hexception))
    | some type =>
      apply safe_pure
      refine Or.inr ⟨hname.symm, ?_⟩
      unfold HostRegistry.exceptionType?
      rw [hfind, Option.bind_some, hexception]
      rfl

end ReplEngine.Language
