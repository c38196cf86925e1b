import ReplEngine.Proofs.Evaluation.Soundness
import ReplEngine.Proofs.Typing.Met
set_option autoImplicit false

/-!
# What a method call is dispatched to

The checker finds the signature of a method call by the type of the receiver: a declared method
first, then what needs no declaration.  Evaluation finds the code by the value, and by the class
that an object was made with.  `dispatched_of_admits` says for which values of a type both find the
same: the code takes what the signature asks for, and was accepted at it.
-/

namespace ReplEngine.Language

open Judge

/-! ## Code and signatures -/

/-- What a call of a method of a value comes to, as a caller that relies on the signature expects
it: a body that was accepted at the signature, or a value of the type that is returned. -/
inductive Dispatched (v : Value) (method : String) (sig : MethodSig) : Prop where
  | declared {className : String} {snippet : UInt32} {decl : MethodDecl} {ctx : Context}
      (hcall : ∀ invoke stack args,
        callOn invoke stack v method args = invoke stack ⟨className, snippet, decl, args⟩)
      (harity : decl.params.length = sig.params.length) (haccepts : ctx.AcceptsMethod decl sig)
  | builtin {result : Value} (hnone : sig.params = [])
      (hcall : ∀ invoke stack args, callOn invoke stack v method args = pure result)
      (hresult : ∀ l, Conforms l sig.returns result)

/-- The class was accepted, against whatever was declared then, with the signatures. -/
def ClassAcceptedAs (cls : ClassObject) (sig : ClassSig) : Prop :=
  ∃ decl snippet env host wrapper, cls.body = .snippet (.ofDecl decl snippet) ∧
    (Item.typeDecl decl).check env host wrapper = .ok (.typeDecl decl sig)

/-- The methods of a class that was accepted are those of its signatures. -/
theorem declaredMethod?_of_accepted {cls : ClassObject} {sig : ClassSig}
    (h : ClassAcceptedAs cls sig) (method : String) :
    match sig.methods.get? method with
    | some msig => ∃ file decl, declaredMethod? cls method = some (file, decl) ∧
        decl.params.length = msig.params.length ∧ ∃ ctx : Context, ctx.AcceptsMethod decl msig
    | none => declaredMethod? cls method = none := by
  obtain ⟨decl, snippet, env, host, wrapper, hbody, hcheck⟩ := h
  have hdeclared : declaredMethod? cls method =
      (decl.methods.find? fun m => m.name == method).map
        fun m => (ClassFile.ofDecl decl snippet, m) := by
    unfold declaredMethod?
    rw [hbody]
    show Option.bind (decl.methods.find? fun m => m.name == method) _ = _
    cases decl.methods.find? fun m => m.name == method <;> rfl
  have haccepts : (unitContext env host wrapper).AcceptsClass decl ∧
      sig = ⟨(unitContext env host wrapper).sigsOf decl⟩ := by
    cases Context.acceptsItem_of_accepts (check_eq_ok.mp hcheck) with
    | typeDecl haccepts => exact ⟨haccepts, rfl⟩
  obtain ⟨haccepts, hsig⟩ := haccepts
  cases hfind : decl.methods.find? fun m => m.name == method with
  | some m =>
    have hm := List.mem_of_find?_eq_some hfind
    obtain rfl : m.name = method := by simpa using List.find?_some hfind
    obtain ⟨msig, hmsig, -, -⟩ := haccepts.methods m hm
    have hrecord : sig.methods.get? m.name = some msig := by
      rw [hsig]
      exact hmsig
    have hmethod := acceptsMethod_of_declaredClass hcheck hm hrecord
    rw [hrecord, hdeclared, hfind]
    exact ⟨_, m, rfl, (Context.length_of_methodSig hmethod.written).symm, _, hmethod⟩
  | none =>
    cases hrecord : sig.methods.get? method with
    | none =>
      rw [hdeclared, hfind]
      rfl
    | some msig =>
      rw [hsig] at hrecord
      obtain ⟨m, hm, hname⟩ := haccepts.names hrecord
      exact absurd hname (by simpa using List.find?_eq_none.mp hfind m hm)

/-! ## Values of a type -/

namespace Context

/-- Class names mean one thing: a class that is declared is no exception type of the host, and
`lang.Object` is neither of both. -/
structure Apart (ctx : Context) : Prop where
  exceptions : ∀ name, (ctx.exceptionType? (.object name)).isSome = true →
    ctx.classSig? name = none
  object : ctx.classSig? Lang.object = none
  objectPlain : ctx.exceptionType? (.object Lang.object) = none

/-- The value is one of the type, and not `null`.  The class of an object is the one that is on
record; behind `lang.Object` it may be any other, if a `toString` that it declares has the
signature of the one that needs no declaration. -/
inductive Admits (ctx : Context) : Ty → Value → Prop where
  | string {text : String} : Admits ctx .string (.string text)
  | stringAsObject {text : String} : Admits ctx (.object Lang.object) (.string text)
  | exception {d : Descriptor} (h : (ctx.exceptionType? (.object d.link.className)).isSome = true) :
      Admits ctx (.object d.link.className) (.exception d)
  | exceptionAsObject {d : Descriptor} : Admits ctx (.object Lang.object) (.exception d)
  | object {cls : ClassObject} {identity : UInt32} {sig : ClassSig}
      (haccepted : ClassAcceptedAs cls sig) (hrecord : ctx.classSig? cls.name = some sig) :
      Admits ctx (.object cls.name) (.object cls identity)
  | asObject {cls : ClassObject} {identity : UInt32} {sig : ClassSig}
      (haccepted : ClassAcceptedAs cls sig)
      (hshown : ∀ msig, sig.methods.get? "toString" = some msig → msig = ⟨[], .string⟩) :
      Admits ctx (.object Lang.object) (.object cls identity)
  | plainObject {cls : ClassObject} {identity : UInt32} (hplain : cls.body.classFile? = none) :
      Admits ctx (.object Lang.object) (.object cls identity)

end Context

/-! ## Methods without a declaration -/

theorem callOn_builtin {v : Value} {method : String} (hnull : v ≠ .null)
    (hnone : ∀ cls identity, v = .object cls identity → declaredMethod? cls method = none)
    (invoke : Invoker) (stack : Stack) (args : List Value) :
    callOn invoke stack v method args = builtinMethod v method := by
  cases v with
  | null => exact absurd rfl hnull
  | object cls identity =>
    unfold callOn
    simp only [hnone cls identity rfl]
  | _ => rfl

theorem dispatched_toString {v : Value} (hnull : v ≠ .null)
    (hnone : ∀ cls identity, v = .object cls identity → declaredMethod? cls "toString" = none) :
    Dispatched v "toString" ⟨[], .string⟩ := by
  have hcall (invoke : Invoker) (stack : Stack) (args : List Value) :
      callOn invoke stack v "toString" args = pure (.string v.display) := by
    rw [callOn_builtin hnull hnone]
    cases v <;> simp [builtinMethod]
  exact .builtin rfl hcall fun _ => trivial

theorem dispatched_toString_object {cls : ClassObject} {identity : UInt32}
    (hnone : declaredMethod? cls "toString" = none) :
    Dispatched (.object cls identity) "toString" ⟨[], .string⟩ := by
  refine dispatched_toString nofun fun found _ hfound => ?_
  cases hfound
  exact hnone

theorem dispatched_length (text : String) : Dispatched (.string text) "length" ⟨[], .int⟩ :=
  .builtin rfl (fun _ _ _ => rfl) fun _ => trivial

theorem dispatched_getMessage (d : Descriptor) :
    Dispatched (.exception d) "getMessage" ⟨[], .string⟩ := by
  refine .builtin rfl (fun _ _ _ => rfl) fun l => ?_
  cases d.link.message with
  | none => rfl
  | some message => trivial

/-- What a class that was accepted declares. -/
theorem dispatched_declared {cls : ClassObject} {identity : UInt32} {sig : ClassSig}
    (haccepted : ClassAcceptedAs cls sig) {method : String} {msig : MethodSig}
    (hmsig : sig.methods.get? method = some msig) :
    Dispatched (.object cls identity) method msig := by
  have hmethod := declaredMethod?_of_accepted haccepted method
  rw [hmsig] at hmethod
  obtain ⟨file, decl, hdeclared, harity, ctx, haccepts⟩ := hmethod
  have hcall (invoke : Invoker) (stack : Stack) (args : List Value) :
      callOn invoke stack (.object cls identity) method args =
        invoke stack ⟨file.name, file.snippet, decl, args⟩ := by
    unfold callOn
    simp only [hdeclared]
  exact .declared hcall harity haccepts

theorem declaredMethod?_none {cls : ClassObject} {sig : ClassSig}
    (haccepted : ClassAcceptedAs cls sig) {method : String}
    (hmsig : sig.methods.get? method = none) : declaredMethod? cls method = none := by
  have hmethod := declaredMethod?_of_accepted haccepted method
  rwa [hmsig] at hmethod

/-! ## All calls -/

variable {ctx : Context}

/-- Behind `lang.Object` there is `toString` and nothing else. -/
theorem memberSig?_object (hapart : ctx.Apart) {method : String} {sig : MethodSig}
    (hsig : ctx.memberSig? (.object Lang.object) method = some sig) :
    method = "toString" ∧ sig = ⟨[], .string⟩ := by
  unfold Context.memberSig? Context.declaredSig? at hsig
  simp only [hapart.object, Option.bind_none, Option.none_or] at hsig
  rcases Context.builtinSig?_cases hsig with ⟨hstring, -⟩ | ⟨hname, hsig⟩ | ⟨-, hexception, -⟩
  · cases hstring
  · exact ⟨hname, hsig⟩
  · rw [hapart.objectPlain] at hexception
    cases hexception

/-- The checker and the evaluation of a call find the same. -/
theorem dispatched_of_admits (hapart : ctx.Apart) {receiver : Ty} {v : Value}
    (hv : ctx.Admits receiver v) {method : String} {sig : MethodSig}
    (hsig : ctx.memberSig? receiver method = some sig) : Dispatched v method sig := by
  cases hv with
  | string =>
    rcases Context.builtinSig?_cases hsig with ⟨-, rfl, rfl⟩ | ⟨rfl, rfl⟩ | ⟨-, hexception, -⟩
    · exact dispatched_length _
    · exact dispatched_toString nofun nofun
    · cases hexception
  | stringAsObject =>
    obtain ⟨rfl, rfl⟩ := memberSig?_object hapart hsig
    exact dispatched_toString nofun nofun
  | @exception d h =>
    unfold Context.memberSig? Context.declaredSig? at hsig
    simp only [hapart.exceptions _ h, Option.bind_none, Option.none_or] at hsig
    rcases Context.builtinSig?_cases hsig with ⟨hstring, -⟩ | ⟨rfl, rfl⟩ | ⟨rfl, -, rfl⟩
    · cases hstring
    · exact dispatched_toString nofun nofun
    · exact dispatched_getMessage d
  | exceptionAsObject =>
    obtain ⟨rfl, rfl⟩ := memberSig?_object hapart hsig
    exact dispatched_toString nofun nofun
  | @object cls identity classSig haccepted hrecord =>
    unfold Context.memberSig? Context.declaredSig? at hsig
    simp only [hrecord, Option.bind_some] at hsig
    cases hmsig : classSig.methods.get? method with
    | some msig =>
      rw [hmsig] at hsig
      cases hsig
      exact dispatched_declared haccepted hmsig
    | none =>
      rw [hmsig, Option.none_or] at hsig
      rcases Context.builtinSig?_cases hsig with ⟨hstring, -⟩ | ⟨rfl, rfl⟩ | ⟨-, hexception, -⟩
      · cases hstring
      · exact dispatched_toString_object (declaredMethod?_none haccepted hmsig)
      · -- A class on record is no exception type.
        rw [hapart.exceptions _ hexception] at hrecord
        cases hrecord
  | @asObject cls identity classSig haccepted hshown =>
    obtain ⟨rfl, rfl⟩ := memberSig?_object hapart hsig
    cases hmsig : classSig.methods.get? "toString" with
    | some msig =>
      cases hshown msig hmsig
      exact dispatched_declared haccepted hmsig
    | none => exact dispatched_toString_object (declaredMethod?_none haccepted hmsig)
  | plainObject hplain =>
    obtain ⟨rfl, rfl⟩ := memberSig?_object hapart hsig
    exact dispatched_toString_object (declaredMethod?_eq_none (by simp [hplain]) _)

/-! ## Sessions that agree with the checker -/

variable {s : SessionState} {l : Loader}

theorem Agrees.apart (ha : Agrees s l) (hsees : ctx.Sees s.env s.host) : ctx.Apart := by
  have hclass {name : String} (h : HostRegistry.standard.contains name = true) :
      ctx.classSig? name = none := by
    rw [hsees.classSig?]
    exact Option.not_isSome_iff_eq_none.mp (ne_true_of_eq_false (ha.notInstalled h))
  refine ⟨fun name h => ?_, hclass HostRegistry.standard_object, ?_⟩
  · rw [hsees.exceptionType?, ha.host.exceptionType?] at h
    exact hclass (HostRegistry.contains_of_exceptionType h)
  · rw [hsees.exceptionType?, ha.host.exceptionType?, ← Option.not_isSome_iff_eq_none]
    exact fun h => HostRegistry.ne_object_of_exceptionType h rfl

/-- The class of an object is the one that is on record, or has no code. -/
theorem Agrees.accepted_of_current (ha : Agrees s l) (hsees : ctx.Sees s.env s.host)
    {cls : ClassObject} (hcurrent : l.Current cls) :
    (∃ sig, ClassAcceptedAs cls sig ∧ ctx.classSig? cls.name = some sig) ∨
      cls.body.classFile? = none := by
  rcases ha.current_cases hcurrent with
    ⟨origin, decl, snippet, sig, wrapper, rfl, hsig, hcheck⟩ | ⟨c, hfind, rfl⟩
  · exact .inl ⟨sig, ⟨decl, snippet, _, _, wrapper, rfl, hcheck⟩, (hsees.classSig? _).trans hsig⟩
  · exact .inr (HostRegistry.classFile?_of_standard hfind)

/-- Every value of a type is admitted there. -/
theorem Agrees.admits (ha : Agrees s l) (hsees : ctx.Sees s.env s.host) {type : Ty} {v : Value}
    (hreference : type.isReference = true) (hv : Conforms l type v) (hnull : v ≠ .null) :
    ctx.Admits type v := by
  cases v with
  | null => exact absurd rfl hnull
  | string text =>
    cases type with
    | string => exact .string
    | object name =>
      cases hv
      exact .stringAsObject
    | _ => cases hv
  | exception d =>
    cases type with
    | object name =>
      rcases hv with rfl | ⟨rfl, hexception⟩
      · exact .exceptionAsObject
      · refine .exception ?_
        rw [hsees.exceptionType?, ha.host.exceptionType?]
        exact hexception
    | _ => cases hv
  | object cls identity =>
    cases type with
    | object name =>
      obtain ⟨hcurrent, hname⟩ := hv
      rcases ha.accepted_of_current hsees hcurrent with ⟨sig, haccepted, hrecord⟩ | hplain
      · rcases hname with rfl | ⟨rfl, -⟩
        · exact .asObject haccepted fun msig hmsig =>
            ha.shown ((hsees.classSig? _).symm.trans hrecord) hmsig
        · exact .object haccepted hrecord
      · rcases hname with rfl | ⟨rfl, hfile⟩
        · exact .plainObject hplain
        · rw [hplain] at hfile
          cases hfile
    | _ => cases hv
  | _ => exact absurd (hv.toObject hreference) id

end ReplEngine.Language
