import ReplEngine.Proofs.Evaluation.Alike
set_option autoImplicit false

/-!
# Evaluation in lockstep

The same code is evaluated in worlds that are alike: it ends in alike worlds, with alike values or
exceptions (`evalTop_alike`).  Evaluation may find classes on the search path, so what is alike at
the end is alike under a renumbering that knows the code of these classes too.
-/

namespace ReplEngine.Language

open Reading

variable {α β : Type} {T U : Renumbering} {files : FileTree}

/-- Evaluations that stopped alike. -/
inductive Unwind.Alike (T : Renumbering) : Unwind → Unwind → Prop where
  | throw {d e : Descriptor} (h : d.Alike T e) : Alike T (.throw d) (.throw e)
  | fault (fault : Fault) : Alike T (.fault fault) (.fault fault)

/-- What is expected of two results, under any renumbering. -/
abbrev Expected (α : Type) : Type := Renumbering → α → α → Prop

/-- How two evaluations end. -/
structure EndsAlike (T : Renumbering) (post : Expected α) (w : World)
    (after after' : Except Unwind α × World) : Prop where
  outside : ∀ code, w.loader.Outside code → after.2.loader.Outside code
  result : ExceptAlike (Unwind.Alike (T.grown after.2.loader)) (post (T.grown after.2.loader))
    after.1 after'.1
  world : after.2.Alike (T.grown after.2.loader) after'.2

/-- Two evaluations end alike whenever they start alike. -/
def EvalAlike (T : Renumbering) (post : Expected α) (act act' : Eval α) : Prop :=
  ∀ w w', World.Alike T w w' → EndsAlike T post w (act.run w) (act'.run w')

variable {post : Expected α} {next : Expected β}

/-! ## Steps -/

/-- Where the loader stays, nothing has to be added to what is known. -/
theorem EndsAlike.of_loader {w : World} {after after' : Except Unwind α × World}
    (hloader : after.2.loader = w.loader) (hworld : World.Alike T after.2 after'.2)
    (hresult : ExceptAlike (Unwind.Alike T) (post T) after.1 after'.1) :
    EndsAlike T post w after after' where
  outside code houtside := by rwa [hloader]
  result := by rwa [Renumbering.grown_eq hworld.loader.outside]
  world := by rwa [Renumbering.grown_eq hworld.loader.outside]

theorem evalAlike_pure {a b : α} (h : post T a b) : EvalAlike T post (pure a) (pure b) :=
  fun _ _ hw => .of_loader rfl hw (.ok h)

theorem evalAlike_throw {unwind unwind' : Unwind} (h : unwind.Alike T unwind') :
    EvalAlike T post (throw unwind) (throw unwind') :=
  fun _ _ hw => .of_loader rfl hw (.error h)

theorem evalAlike_get : EvalAlike T World.Alike get get :=
  fun _ _ hw => .of_loader rfl hw (.ok hw)

theorem EvalAlike.bind {act act' : Eval α} {f g : α → Eval β} (h : EvalAlike T post act act')
    (hf : ∀ U, T ≤ U → ∀ a b, post U a b → EvalAlike U next (f a) (g b)) :
    EvalAlike T next (act >>= f) (act' >>= g) := by
  intro w w' hw
  obtain ⟨houtside, hresult, hworld⟩ := h w w' hw
  cases hrun : act.run w with
  | mk result mid =>
    cases hrun' : act'.run w' with
    | mk result' mid' =>
      rw [hrun, hrun'] at hresult hworld
      rw [hrun] at houtside
      cases hresult with
      | ok hpost =>
        obtain ⟨hlater, hend, hends⟩ := hf _ (T.le_grown _) _ _ hpost mid mid' hworld
        rw [run_bind_ok hrun, run_bind_ok hrun']
        rw [Renumbering.grown_grown hlater] at hend hends
        exact ⟨fun code hcode => hlater code (houtside code hcode), hend, hends⟩
      | error hunwind =>
        rw [run_bind_error hrun, run_bind_error hrun']
        exact ⟨houtside, .error hunwind, hworld⟩

theorem EvalAlike.map {act act' : Eval α} {f g : α → β} (h : EvalAlike T post act act')
    (hf : ∀ U a b, post U a b → next U (f a) (g b)) :
    EvalAlike T next (f <$> act) (g <$> act') := by
  rw [map_eq_pure_bind, map_eq_pure_bind]
  exact h.bind fun U _ a b hpost => evalAlike_pure (hf U a b hpost)

theorem raiseFault_alike (fault : Fault) :
    EvalAlike T post (raiseFault fault) (raiseFault fault) :=
  evalAlike_throw (.fault fault)

theorem raise_alike {stack stack' : Stack} (h : Stack.Alike T stack stack') (className : String)
    (message : Option String) :
    EvalAlike T post (raise stack className message) (raise stack' className message) :=
  evalAlike_throw (.throw ⟨⟨rfl, rfl, h.traces⟩, .nil⟩)

theorem throwValue_alike {stack stack' : Stack} (h : Stack.Alike T stack stack') {v v' : Value}
    (hv : v.Alike T v') : EvalAlike T post (throwValue stack v) (throwValue stack' v') := by
  have hrender := hv.render_eq
  cases hv with
  | exception h => exact evalAlike_throw (.throw h)
  | null => exact raise_alike h _ _
  | object hcls identity =>
    unfold throwValue
    simp only [hrender]
    exact raiseFault_alike _
  | _ => exact raiseFault_alike _

/-! ## Names and operators -/

theorem lookup_alike {stack stack' : Stack} (h : Stack.Alike T stack stack') (name : String) :
    EvalAlike T Value.Alike (lookup stack name) (lookup stack' name) := by
  refine evalAlike_get.bind fun U hle w w' hw => ?_
  have hlocals : ((stack.head?.map Frame.locals).getD {}).Alike (Value.Alike U)
      ((stack'.head?.map Frame.locals).getD {}) := by
    cases h with
    | nil => exact Table.alike_empty
    | cons hframe _ => exact (hframe.mono hle).locals
  have hfound := optionRel_or (hlocals name) (hw.globals.vars name)
  revert hfound
  generalize (((stack.head?.map Frame.locals).getD {}).get? name).or
    (w.globals.vars.get? name) = found
  generalize (((stack'.head?.map Frame.locals).getD {}).get? name).or
    (w'.globals.vars.get? name) = found'
  intro hfound
  cases hfound with
  | none => exact raiseFault_alike _
  | some hvalue => exact evalAlike_pure hvalue

theorem negate_alike {v v' : Value} (hv : v.Alike T v') :
    EvalAlike T Value.Alike (negate v) (negate v') := by
  have hrender := hv.render_eq
  cases hv with
  | int n => exact evalAlike_pure (.int _)
  | object hcls identity =>
    unfold negate
    simp only [hrender]
    exact raiseFault_alike _
  | exception h =>
    unfold negate
    simp only [hrender]
    exact raiseFault_alike _
  | _ => exact raiseFault_alike _

theorem arithmetic_alike {stack stack' : Stack} (h : Stack.Alike T stack stack') (op : BinaryOp)
    (a b : Int32) :
    EvalAlike T Value.Alike (arithmetic stack op a b) (arithmetic stack' op a b) := by
  unfold arithmetic
  cases op with
  | div | rem =>
    simp only
    split
    · exact raise_alike h _ _
    · exact evalAlike_pure (.int _)
  | _ => exact evalAlike_pure (.int _)

theorem operate_alike {stack stack' : Stack} (h : Stack.Alike T stack stack') (op : BinaryOp)
    {lhs lhs' rhs rhs' : Value} (hlhs : lhs.Alike T lhs') (hrhs : rhs.Alike T rhs') :
    EvalAlike T Value.Alike (operate stack op lhs rhs) (operate stack' op lhs' rhs') := by
  have hconcat : EvalAlike T Value.Alike (pure (.string (lhs.display ++ rhs.display)))
      (pure (.string (lhs'.display ++ rhs'.display))) := by
    rw [hlhs.display_eq, hrhs.display_eq]
    exact evalAlike_pure (.string _)
  have hfault : EvalAlike T Value.Alike
      (raiseFault (.noSuchMethod lhs.render op.render) : Eval Value)
      (raiseFault (.noSuchMethod lhs'.render op.render)) := by
    rw [hlhs.render_eq]
    exact raiseFault_alike _
  -- only whole numbers on both sides are calculated with
  cases hlhs with
  | int a =>
    cases hrhs with
    | int b => exact arithmetic_alike h op a b
    | _ =>
      cases op with
      | add => exact hconcat
      | _ => exact hfault
  | _ =>
    cases op with
    | add => exact hconcat
    | _ => exact hfault

/-! ## Objects -/

theorem loadClass_alike (name : String) :
    EvalAlike T (fun U => ExceptAlike Eq (ClassObject.Alike U)) (loadClass files name)
      (loadClass files name) := by
  intro w w' hw
  obtain ⟨houtside, hresult, hloader⟩ := Loader.find_alike hw.loader files name
  exact ⟨houtside, .ok hresult.map, hw.globals.mono (T.le_grown _), hloader, hw.printed⟩

theorem findClass_alike (name : String) :
    EvalAlike T ClassObject.Alike (findClass files name) (findClass files name) := by
  refine (loadClass_alike name).bind fun U _ found found' hfound => ?_
  cases hfound with
  | ok hcls => exact evalAlike_pure hcls
  | @error e _ heq =>
    subst heq
    cases e with
    | classNotFound missing =>
      simp only
      split
      · exact raiseFault_alike _
      · refine (loadClass_alike _).bind fun V _ standard standard' hstandard => ?_
        cases hstandard with
        | ok hcls => exact evalAlike_pure hcls
        | error heq =>
          subst heq
          exact raiseFault_alike _
    | _ => exact raiseFault_alike _

theorem freshIdentity_alike : EvalAlike T (fun _ => Eq) freshIdentity freshIdentity := by
  intro w w' hw
  have hobjects := hw.globals.objects
  refine .of_loader rfl ⟨⟨hw.globals.vars, hw.globals.methods, ?_⟩, hw.loader, hw.printed⟩ (.ok ?_)
  · exact congrArg (· + 1) hobjects
  · exact congrArg (fun number => (number + 1) * 0x9E3779B9) hobjects.symm

theorem newInstance_alike {stack stack' : Stack} (h : Stack.Alike T stack stack') (name : String)
    {args args' : List Value} (hargs : List.Forall₂ (Value.Alike T) args args') :
    EvalAlike T Value.Alike (newInstance files stack name args)
      (newInstance files stack' name args') := by
  refine (findClass_alike name).bind fun U hle cls cls' hcls => ?_
  simp only [hcls.exceptionType?_eq]
  cases cls.body.exceptionType? with
  | none =>
    refine freshIdentity_alike.bind fun V hle' identity _ heq => ?_
    subst heq
    exact evalAlike_pure (.object (hcls.mono hle') identity)
  | some type =>
    obtain ⟨hmessage, hcause⟩ := exceptionArgs_alike (hargs.imp fun _ _ hv => hv.mono hle)
    refine evalAlike_pure (.exception (Descriptor.Alike.withCause ⟨?_, hmessage, ?_⟩ hcause))
    · exact hcls.name_eq
    · exact (h.mono hle).traces

/-! ## Calls -/

/-- Calls of the same code with alike arguments. -/
structure Invocation.Alike (T : Renumbering) (call call' : Invocation) : Prop where
  code : T ⟨call.className, call.snippet⟩ ⟨call'.className, call'.snippet⟩
  decl : call'.decl = call.decl
  args : List.Forall₂ (Value.Alike T) call.args call'.args

theorem Invocation.Alike.frame {call call' : Invocation} (h : call.Alike T call') :
    call.frame.Alike T call'.frame := by
  unfold Invocation.frame
  rw [h.decl]
  exact ⟨h.code, rfl, rfl, Table.ofList_zip_alike _ h.args⟩

/-- Calls of the same code with alike arguments are carried out alike. -/
def InvokerAlike (invoke : Invoker) : Prop :=
  ∀ {T : Renumbering} {stack stack' : Stack} {call call' : Invocation},
    Stack.Alike T stack stack' → call.Alike T call' →
      EvalAlike T Value.Alike (invoke stack call) (invoke stack' call')

theorem println_alike (text : String) :
    EvalAlike T (fun _ => Eq) (println text) (println text) := by
  intro w w' hw
  exact .of_loader rfl ⟨hw.globals, hw.loader, congrArg (·.println text) hw.printed⟩ (.ok rfl)

variable {invoke : Invoker} {stack stack' : Stack}

theorem callMethod_alike (hinvoke : InvokerAlike invoke) (h : Stack.Alike T stack stack')
    (name : String) {args args' : List Value} (hargs : List.Forall₂ (Value.Alike T) args args') :
    EvalAlike T Value.Alike (callMethod invoke stack name args)
      (callMethod invoke stack' name args') := by
  refine evalAlike_get.bind fun U hle w w' hw => ?_
  have hfound := hw.globals.methods name
  revert hfound
  generalize w.globals.methods.get? name = found
  generalize w'.globals.methods.get? name = found'
  intro hfound
  have hargs := hargs.imp fun _ _ hv => hv.mono hle
  cases hfound with
  | some hmethod => exact hinvoke (h.mono hle) ⟨hmethod.code, hmethod.decl, hargs⟩
  | none =>
    simp only
    split
    · have htext : (args'.head?.map Value.display).getD "" =
          (args.head?.map Value.display).getD "" := by
        cases hargs with
        | nil => rfl
        | cons hv _ => exact hv.display_eq
      rw [htext]
      exact (println_alike _).bind fun _ _ _ _ _ => evalAlike_pure .void
    · exact raiseFault_alike _

/-- Classes that are alike declare the same methods. -/
theorem declaredMethod_alike {cls cls' : ClassObject} (h : cls.Alike T cls') (method : String) :
    (declaredMethod? cls method = none ∧ declaredMethod? cls' method = none) ∨
      ∃ file file' decl, declaredMethod? cls method = some (file, decl) ∧
        declaredMethod? cls' method = some (file', decl) ∧ T file.code file'.code := by
  have hmethod (cls : ClassObject) : declaredMethod? cls method =
      cls.body.classFile?.bind fun file => (file.method? method).map (file, ·) := by
    unfold declaredMethod?
    cases cls.body.classFile? with
    | none => rfl
    | some file =>
      simp only [Option.bind_eq_bind, Option.bind_some]
      cases file.method? method <;> rfl
  rw [hmethod, hmethod]
  cases h with
  | @declared name g g' file file' hname hmethods hcode =>
    have hsame : file'.method? method = file.method? method := by
      unfold ClassFile.method?
      rw [hmethods]
    simp only [ClassBody.classFile?, Option.bind_some, hsame]
    cases file.method? method with
    | none => exact .inl ⟨rfl, rfl⟩
    | some decl => exact .inr ⟨file, file', decl, rfl, rfl, hcode⟩
  | elsewhere _ hcode =>
    cases hfile : cls.body.classFile? with
    | none => exact .inl ⟨rfl, rfl⟩
    | some file =>
      rw [Option.bind_some]
      cases file.method? method with
      | none => exact .inl ⟨rfl, rfl⟩
      | some decl => exact .inr ⟨file, file, decl, rfl, rfl, hcode file hfile⟩

theorem builtinMethod_alike {v v' : Value} (hv : v.Alike T v') (method : String) :
    EvalAlike T Value.Alike (builtinMethod v method) (builtinMethod v' method) := by
  have hshown (v : Value) : builtinMethod v "toString" = pure (.string v.display) := by
    cases v <;> simp [builtinMethod]
  have hmissing (v : Value) (hstring : method ≠ "toString")
      (hexception : ∀ d, v = .exception d → method ≠ "getMessage")
      (htext : ∀ s, v = .string s → method ≠ "length") :
      builtinMethod v method = raiseFault (.noSuchMethod v.render method) := by
    unfold builtinMethod
    split
    · exact absurd rfl (hexception _ rfl)
    · exact absurd rfl (htext _ rfl)
    · exact absurd rfl hstring
    · rfl
  by_cases hstring : method = "toString"
  · rw [hstring, hshown, hshown, hv.display_eq]
    exact evalAlike_pure (.string _)
  by_cases hexception : ∀ d, v = .exception d → method ≠ "getMessage"
  · by_cases htext : ∀ s, v = .string s → method ≠ "length"
    · rw [hmissing v hstring hexception htext, hmissing v' hstring, hv.render_eq]
      · exact raiseFault_alike _
      · rintro d rfl
        cases hv
        exact hexception _ rfl
      · rintro s rfl
        cases hv
        exact htext _ rfl
    · simp only [ne_eq, not_forall, not_not] at htext
      obtain ⟨s, rfl, rfl⟩ := htext
      cases hv
      simp only [builtinMethod]
      exact evalAlike_pure (.int _)
  · simp only [ne_eq, not_forall, not_not] at hexception
    obtain ⟨d, rfl, rfl⟩ := hexception
    cases hv with
    | @exception _ e h =>
      simp only [builtinMethod, h.link.message]
      cases d.link.message with
      | none => exact evalAlike_pure .null
      | some message => exact evalAlike_pure (.string message)

theorem callOn_alike (hinvoke : InvokerAlike invoke) (h : Stack.Alike T stack stack')
    {v v' : Value} (hv : v.Alike T v') (method : String) {args args' : List Value}
    (hargs : List.Forall₂ (Value.Alike T) args args') :
    EvalAlike T Value.Alike (callOn invoke stack v method args)
      (callOn invoke stack' v' method args') := by
  have hbuiltin := builtinMethod_alike hv method
  cases hv with
  | null => exact raise_alike h _ _
  | object hcls identity =>
    unfold callOn
    rcases declaredMethod_alike hcls method with
      ⟨hnone, hnone'⟩ | ⟨file, file', decl, hsome, hsome', hcode⟩
    · simp only [hnone, hnone']
      exact hbuiltin
    · simp only [hsome, hsome']
      exact hinvoke h ⟨hcode, rfl, hargs⟩
  | _ => exact hbuiltin

/-! ## Expressions and bodies -/

mutual

theorem evalExpr_alike (hinvoke : InvokerAlike invoke) {T : Renumbering} {stack stack' : Stack}
    (h : Stack.Alike T stack stack') : (e : Expr) →
    EvalAlike T Value.Alike (evalExpr files invoke stack e) (evalExpr files invoke stack' e)
  | .int n _ => by
    unfold evalExpr
    exact evalAlike_pure (.int n)
  | .string s _ => by
    unfold evalExpr
    exact evalAlike_pure (.string s)
  | .bool b _ => by
    unfold evalExpr
    exact evalAlike_pure (.bool b)
  | .null _ => by
    unfold evalExpr
    exact evalAlike_pure .null
  | .name name span => by
    unfold evalExpr
    exact lookup_alike h name
  | .neg operand span => by
    unfold evalExpr
    exact (evalExpr_alike hinvoke h operand).bind fun _ _ _ _ hv => negate_alike hv
  | .binary op lhs rhs span => by
    unfold evalExpr
    refine (evalExpr_alike hinvoke h lhs).bind fun U hle a a' ha => ?_
    refine (evalExpr_alike hinvoke (h.mono hle) rhs).bind fun V hle' b b' hb => ?_
    exact operate_alike ((h.mono hle).mono hle') op (ha.mono hle') hb
  | .call name args span => by
    unfold evalExpr
    exact (evalExprs_alike hinvoke h args).bind fun _ hle _ _ hvs =>
      callMethod_alike hinvoke (h.mono hle) name hvs
  | .new name args span => by
    unfold evalExpr
    exact (evalExprs_alike hinvoke h args).bind fun _ hle _ _ hvs =>
      newInstance_alike (h.mono hle) name hvs
  | .methodCall receiver method args span => by
    unfold evalExpr
    refine (evalExpr_alike hinvoke h receiver).bind fun U hle v v' hv => ?_
    refine (evalExprs_alike hinvoke (h.mono hle) args).bind fun V hle' vs vs' hvs => ?_
    exact callOn_alike hinvoke ((h.mono hle).mono hle') (hv.mono hle') method hvs

theorem evalExprs_alike (hinvoke : InvokerAlike invoke) {T : Renumbering} {stack stack' : Stack}
    (h : Stack.Alike T stack stack') : (es : List Expr) →
    EvalAlike T (fun U => List.Forall₂ (Value.Alike U)) (evalExprs files invoke stack es)
      (evalExprs files invoke stack' es)
  | [] => by
    unfold evalExprs
    exact evalAlike_pure .nil
  | e :: es => by
    unfold evalExprs
    refine (evalExpr_alike hinvoke h e).bind fun U hle v v' hv => ?_
    refine (evalExprs_alike hinvoke (h.mono hle) es).bind fun V hle' vs vs' hvs => ?_
    exact evalAlike_pure (.cons (hv.mono hle') hvs)

end

theorem Frame.Alike.declares {frame frame' : Frame} (h : frame.Alike T frame') (name : String)
    {v v' : Value} (hv : v.Alike T v') :
    Frame.Alike T { frame with locals := frame.locals.insert name v }
      { frame' with locals := frame'.locals.insert name v' } :=
  ⟨h.code, h.method, h.line, h.locals.insert name hv⟩

theorem execBody_alike (hinvoke : InvokerAlike invoke) {below below' : Stack}
    (hbelow : Stack.Alike T below below') {frame frame' : Frame} (hframe : frame.Alike T frame')
    (stmts : List Stmt) :
    EvalAlike T (fun U => Option.Rel (Value.Alike U)) (execBody files invoke below frame stmts)
      (execBody files invoke below' frame' stmts) := by
  induction stmts generalizing T frame frame' with
  | nil => exact evalAlike_pure .none
  | cons stmt stmts ih =>
    have hline : Frame.Alike T { frame with line := stmt.line }
        { frame' with line := stmt.line } :=
      ⟨hframe.code, hframe.method, rfl, hframe.locals⟩
    have hstack : Stack.Alike T (_ :: below) (_ :: below') := .cons hline hbelow
    have heval (e : Expr) : EvalAlike T Value.Alike (evalExpr files invoke _ e)
        (evalExpr files invoke _ e) := evalExpr_alike hinvoke hstack e
    unfold execBody
    cases stmt with
    | var decl =>
      simp only
      cases decl.init with
      | none => exact ih hbelow (hline.declares decl.name .null)
      | some init =>
        exact (heval init).bind fun U hle v v' hv =>
          ih (hbelow.mono hle) ((hline.mono hle).declares decl.name hv)
    | ret value span line =>
      cases value with
      | none => exact evalAlike_pure (.some .void)
      | some value => exact (heval value).map fun _ _ _ hv => .some hv
    | throw value span line =>
      exact (heval value).bind fun _ hle _ _ hv => throwValue_alike (hstack.mono hle) hv
    | expr value line =>
      exact (heval value).bind fun _ hle _ _ _ => ih (hbelow.mono hle) (hline.mono hle)

theorem invokeWithin_alike (files : FileTree) (room : Nat) :
    InvokerAlike (invokeWithin files room) := by
  -- The calls in a body have less room than the call of the body.
  induction room with
  | zero => exact fun hstack _ => raise_alike hstack _ _
  | succ room ih =>
    intro T stack stack' call call' hstack hcall
    unfold invokeWithin
    rw [hcall.decl]
    refine (execBody_alike ih hstack hcall.frame call.decl.body).bind fun U _ r r' hr => ?_
    cases hr with
    | none => exact evalAlike_pure .void
    | some hv => exact evalAlike_pure hv

/-! ## The top level -/

theorem topFrame_alike {number number' : UInt32} (h : T (unitCode number) (unitCode number'))
    (line : UInt32) : Stack.Alike T [topFrame number line] [topFrame number' line] :=
  .cons ⟨h, rfl, rfl, Table.alike_empty⟩ .nil

/-- An expression of a unit is evaluated alike under another number of the unit. -/
theorem evalTop_alike {number number' : UInt32} (h : T (unitCode number) (unitCode number'))
    (files : FileTree) (line : UInt32) (e : Expr) :
    EvalAlike T Value.Alike (evalTop files number line e) (evalTop files number' line e) :=
  evalExpr_alike (invokeWithin_alike files _) (topFrame_alike h line) e

theorem throwTop_alike {number number' : UInt32} (h : T (unitCode number) (unitCode number'))
    (files : FileTree) (line : UInt32) (e : Expr) :
    EvalAlike T Value.Alike (throwTop files number line e) (throwTop files number' line e) :=
  (evalTop_alike h files line e).bind fun _ hle _ _ hv =>
    throwValue_alike ((topFrame_alike h line).mono hle) hv

end ReplEngine.Language
