import ReplEngine.Proofs.Evaluation.Safe
set_option autoImplicit false

/-!
# Safe calls

A call is well typed where its method has a well-typed body for a signature that its arguments
fit.  Whoever can carry out such calls can carry out every call that the checker accepts: what a
name means to the checker is what it dispatches to at run time.
-/

namespace ReplEngine.Language

open Reading

variable {s : SessionState} {l : Loader}

/-! ## Calls that are well typed -/

/-- The method of the call has a well-typed body for the signature, and the arguments fit. -/
structure Invocation.WellTyped (s : SessionState) (l : Loader) (call : Invocation)
    (sig : MethodSig) : Prop where
  body : ∃ ctx : Context, ctx.Sees s.env s.host ∧ ctx.MethodOk call.decl sig
  arity : call.decl.params.length = sig.params.length
  known : sig.Known
  args : ConformAll l sig.params call.args

/-- Well-typed calls are carried out safely. -/
def SafeInvoker (s : SessionState) (l : Loader) (invoke : Invoker) : Prop :=
  ∀ (stack : Stack) (call : Invocation) (sig : MethodSig), call.WellTyped s l sig →
    Safe s l (Conforms l sig.returns) (invoke stack call)

/-! ## Top-level methods -/

theorem safe_callMethod (ha : Agrees s l) {invoke : Invoker} (hinvoke : SafeInvoker s l invoke)
    (stack : Stack) {name : String} {sig : MethodSig} (hsig : s.env.methods.get? name = some sig)
    {args : List Value} (hargs : ConformAll l sig.params args) :
    Safe s l (Conforms l sig.returns) (callMethod invoke stack name args) := by
  intro w hw
  obtain ⟨m, wrapper, hm, rfl, hcheck⟩ := ha.methods hsig
  obtain ⟨harity, hbody⟩ := method_wellTyped ha.known hsig hcheck
  unfold callMethod
  rw [run_bind_ok (run_get w)]
  simp only [hw.methods, hm]
  exact hinvoke stack _ sig ⟨hbody, harity, ha.known.methods hsig, hargs⟩ w hw

theorem safe_callPrintln (ha : Agrees s l) (invoke : Invoker) (stack : Stack)
    (hsig : s.env.methods.get? "println" = none) (args : List Value) :
    Safe s l (Conforms l .void) (callMethod invoke stack "println" args) := by
  intro w hw
  unfold callMethod
  rw [run_bind_ok (run_get w)]
  simp only [hw.methods, ha.noMethods hsig, if_true]
  exact (safe_println _).bind (fun _ _ => safe_pure trivial) w hw

/-! ## Methods without a declaration -/

theorem safe_toString (v : Value) : Safe s l (Conforms l .string) (builtinMethod v "toString") := by
  have hshown : builtinMethod v "toString" = pure (.string v.display) := by
    cases v <;> simp [builtinMethod]
  rw [hshown]
  exact safe_pure trivial

theorem safe_length (text : String) :
    Safe s l (Conforms l .int) (builtinMethod (.string text) "length") := by
  have hlength : builtinMethod (.string text) "length" =
      pure (.int (Int32.ofNat (min (units16 text.toList) 2147483647))) := by
    simp [builtinMethod]
  rw [hlength]
  exact safe_pure trivial

theorem safe_getMessage (d : Descriptor) :
    Safe s l (Conforms l .string) (builtinMethod (.exception d) "getMessage") := by
  have hmessage : builtinMethod (.exception d) "getMessage" =
      pure ((d.link.message.map Value.string).getD .null) := by
    simp [builtinMethod]
  rw [hmessage]
  apply safe_pure
  cases d.link.message with
  | none => rfl
  | some message => trivial

/-- What needs no declaration is safe on every value of a type that has it. -/
theorem safe_builtin (ha : Agrees s l) {ctx : Context} (hsees : ctx.Sees s.env s.host)
    {receiver : Ty} {v : Value} (hv : Conforms l receiver v) (hnull : v ≠ .null) {method : String}
    {sig : MethodSig} (hsig : ctx.builtinSig? receiver method = some sig) :
    Safe s l (Conforms l sig.returns) (builtinMethod v method) := by
  rcases Context.builtinSig?_cases hsig with
    ⟨rfl, rfl, rfl⟩ | ⟨rfl, rfl⟩ | ⟨rfl, hexception, rfl⟩
  · cases v with
    | string text => exact safe_length text
    | null => exact absurd rfl hnull
    | _ => cases hv
  · exact safe_toString v
  · cases receiver with
    | object name =>
      rw [hsees.exceptionType?, ha.host.exceptionType?] at hexception
      rcases ha.exception_of_conforms hv hexception with rfl | ⟨d, rfl⟩
      · exact absurd rfl hnull
      · exact safe_getMessage d
    | _ => cases hexception

/-! ## Methods of classes -/

/-- A method that the class of an object declares, as the checker knows it. -/
theorem declaredMethod?_cases (ha : Agrees s l) {cls : ClassObject} (hcurrent : l.Current cls)
    (hfile : cls.body.classFile?.isSome = true) :
    ∃ sig, s.env.classes.get? cls.name = some sig ∧
      ∃ ctx : Context, ctx.Sees s.env s.host ∧ ∀ method,
        match sig.methods.get? method with
        | some msig => ∃ file m, declaredMethod? cls method = some (file, m) ∧
            m.params.length = msig.params.length ∧ ctx.MethodOk m msig
        | none => declaredMethod? cls method = none := by
  rcases ha.current_cases hcurrent with
    ⟨origin, decl, snippet, sig, wrapper, rfl, hsig, hcheck⟩ | ⟨c, hfind, rfl⟩
  · obtain ⟨ctx, hsees, hclass⟩ := class_wellTyped ha.known hsig hcheck
    refine ⟨sig, hsig, ctx, hsees, ?_⟩
    intro method
    have hmethod := hclass method
    have hdeclared : declaredMethod? ⟨decl.name, origin, .snippet (.ofDecl decl snippet)⟩ method =
        (decl.methods.find? fun m => m.name == method).map
          fun m => (ClassFile.ofDecl decl snippet, m) := by
      show Option.bind (decl.methods.find? fun m => m.name == method) _ = _
      cases decl.methods.find? fun m => m.name == method <;> rfl
    rw [hdeclared]
    cases hmsig : sig.methods.get? method with
    | none =>
      rw [hmsig] at hmethod
      simp only at hmethod ⊢
      rw [hmethod]
      rfl
    | some msig =>
      rw [hmsig] at hmethod
      obtain ⟨m, hfind, hlength, hok⟩ := hmethod
      refine ⟨.ofDecl decl snippet, m, ?_, hlength, hok⟩
      rw [hfind]
      rfl
  · rw [HostRegistry.classFile?_of_standard hfind] at hfile
    cases hfile

/-- A standard class declares no method that has a body. -/
theorem declaredMethod?_eq_none {cls : ClassObject} (hfile : ¬ cls.body.classFile?.isSome = true)
    (method : String) : declaredMethod? cls method = none := by
  unfold declaredMethod?
  rw [Option.not_isSome_iff_eq_none.mp hfile]
  rfl

theorem safe_declared (ha : Agrees s l) {invoke : Invoker} (hinvoke : SafeInvoker s l invoke)
    (stack : Stack) {cls : ClassObject} (identity : UInt32) (hcurrent : l.Current cls)
    (hfile : cls.body.classFile?.isSome = true) {sig : ClassSig}
    (hsig : s.env.classes.get? cls.name = some sig) {method : String} {msig : MethodSig}
    (hmsig : sig.methods.get? method = some msig) {args : List Value}
    (hargs : ConformAll l msig.params args) :
    Safe s l (Conforms l msig.returns)
      (callOn invoke stack (.object cls identity) method args) := by
  obtain ⟨sig', hsig', ctx, hsees, hmethods⟩ := declaredMethod?_cases ha hcurrent hfile
  cases hsig.symm.trans hsig'
  have hmethod := hmethods method
  rw [hmsig] at hmethod
  obtain ⟨file, m, hdeclared, harity, hok⟩ := hmethod
  unfold callOn
  simp only [hdeclared]
  exact hinvoke stack _ msig ⟨⟨ctx, hsees, hok⟩, harity, ha.known.classes hsig hmsig, hargs⟩

/-- Every object can be shown: by a `toString` of its class, which has the signature of the
built-in one, or else by the built-in one. -/
theorem safe_callToString (ha : Agrees s l) {invoke : Invoker} (hinvoke : SafeInvoker s l invoke)
    (stack : Stack) {cls : ClassObject} (identity : UInt32) (hcurrent : l.Current cls) :
    Safe s l (Conforms l .string)
      (callOn invoke stack (.object cls identity) "toString" []) := by
  have hbuiltin (hnone : declaredMethod? cls "toString" = none) : Safe s l (Conforms l .string)
      (callOn invoke stack (.object cls identity) "toString" []) := by
    unfold callOn
    simp only [hnone]
    exact safe_toString _
  by_cases hfile : cls.body.classFile?.isSome = true
  · obtain ⟨sig, hsig, ctx, hsees, hmethods⟩ := declaredMethod?_cases ha hcurrent hfile
    have hmethod := hmethods "toString"
    cases hmsig : sig.methods.get? "toString" with
    | none =>
      rw [hmsig] at hmethod
      exact hbuiltin hmethod
    | some msig =>
      cases ha.shown hsig hmsig
      exact safe_declared ha hinvoke stack identity hcurrent hfile hsig hmsig trivial
  · exact hbuiltin (declaredMethod?_eq_none hfile _)

/-- A type that no declared class has offers what needs no declaration. -/
theorem builtinSig?_of_memberSig? (ha : Agrees s l) {ctx : Context}
    (hsees : ctx.Sees s.env s.host) {receiver : Ty} {method : String} {sig : MethodSig}
    (hstandard : ∀ {name}, receiver = .object name →
      HostRegistry.standard.contains name = true)
    (hsig : ctx.memberSig? receiver method = some sig) :
    ctx.builtinSig? receiver method = some sig := by
  unfold Context.memberSig? at hsig
  cases receiver with
  | object name =>
    have hclass := ha.notInstalled (hstandard rfl)
    have hnone : s.env.classes.get? name = none :=
      Option.not_isSome_iff_eq_none.mp (ne_true_of_eq_false hclass)
    simpa [Context.declaredSig?, hsees.classSig?, hnone] using hsig
  | _ => exact hsig

/-- What the checker accepts as a method of a type, every value of the type can carry out. -/
theorem safe_callOn (ha : Agrees s l) {invoke : Invoker} (hinvoke : SafeInvoker s l invoke)
    (stack : Stack) {ctx : Context} (hsees : ctx.Sees s.env s.host) {receiver : Ty} {v : Value}
    (hv : Conforms l receiver v) {method : String} {sig : MethodSig}
    (hsig : ctx.memberSig? receiver method = some sig) {args : List Value}
    (hargs : ConformAll l sig.params args) :
    Safe s l (Conforms l sig.returns) (callOn invoke stack v method args) := by
  have hbuiltin (hnull : v ≠ .null) (hplain : ∀ cls identity, v ≠ .object cls identity)
      (hstandard : ∀ {name}, receiver = .object name →
        HostRegistry.standard.contains name = true) :
      Safe s l (Conforms l sig.returns) (callOn invoke stack v method args) := by
    have hcall : callOn invoke stack v method args = builtinMethod v method := by
      cases v with
      | null => exact absurd rfl hnull
      | object cls identity => exact absurd rfl (hplain cls identity)
      | _ => rfl
    rw [hcall]
    exact safe_builtin ha hsees hv hnull (builtinSig?_of_memberSig? ha hsees hstandard hsig)
  cases v with
  | null => exact safe_raise _ _ _
  | string text =>
    apply hbuiltin (by simp) (by simp)
    intro name hname
    subst hname
    cases hv
    exact HostRegistry.standard_object
  | exception d =>
    apply hbuiltin (by simp) (by simp)
    intro name hname
    subst hname
    rcases hv with rfl | ⟨-, hexception⟩
    · exact HostRegistry.standard_object
    · exact HostRegistry.contains_of_exceptionType hexception
  | object cls identity =>
    cases receiver with
    | object name =>
      -- Behind `lang.Object` there may be any class, so only `toString` can be called.
      have hconforms := hv
      obtain ⟨hcurrent, rfl | ⟨rfl, hfile⟩⟩ := hv
      · have hsig := builtinSig?_of_memberSig? ha hsees
          (fun hname => by cases hname; exact HostRegistry.standard_object) hsig
        rcases Context.builtinSig?_cases hsig with ⟨hstring, -⟩ | ⟨rfl, rfl⟩ | ⟨-, hexception, -⟩
        · cases hstring
        · cases args with
          | nil => exact safe_callToString ha hinvoke stack identity hcurrent
          | cons v vs => cases hargs
        · rw [hsees.exceptionType?, ha.host.exceptionType?] at hexception
          exact absurd rfl (HostRegistry.ne_object_of_exceptionType hexception)
      · obtain ⟨classSig, hclass, inner, -, hmethods⟩ := declaredMethod?_cases ha hcurrent hfile
        have hmethod := hmethods method
        unfold Context.memberSig? at hsig
        simp only [Context.declaredSig?, hsees.classSig?, hclass, Option.bind_some] at hsig
        cases hmsig : classSig.methods.get? method with
        | some msig =>
          rw [hmsig] at hsig
          cases hsig
          exact safe_declared ha hinvoke stack identity hcurrent hfile hclass hmsig hargs
        | none =>
          rw [hmsig] at hsig hmethod
          simp only at hmethod
          unfold callOn
          simp only [hmethod]
          exact safe_builtin ha hsees hconforms (by simp) hsig
    | _ => cases hv
  | _ =>
    apply hbuiltin (by simp) (by simp)
    intro name hname
    subst hname
    cases hv

end ReplEngine.Language
