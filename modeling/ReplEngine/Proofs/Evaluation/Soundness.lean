import ReplEngine.Proofs.Evaluation.Calls
set_option autoImplicit false

/-!
# Type soundness

A unit that the checker accepts, in a session that agrees with what the checker knows, is
evaluated without a fault.  Its value has the type that the checker found, and a `throw` never
ends with a value.  The proof follows the syntax of expressions and bodies, and the room that is
left for calls.
-/

namespace ReplEngine.Language

open Context

variable {s : SessionState} {l : Loader}

/-! ## Expressions -/

/-- Code of the context can run in the frame. -/
structure Runs (s : SessionState) (l : Loader) (invoke : Invoker) (ctx : Context)
    (frame : Frame) : Prop where
  agrees : Agrees s l
  invoke : SafeInvoker s l invoke
  sees : ctx.Sees s.env s.host
  locals : LocalsConform l ctx.scope.locals frame.locals

variable {invoke : Invoker}

theorem Runs.onLine {ctx : Context} {frame : Frame} (h : Runs s l invoke ctx frame)
    (line : UInt32) : Runs s l invoke ctx { frame with line := line } :=
  ⟨h.agrees, h.invoke, h.sees, h.locals⟩

theorem Runs.withLocal {ctx : Context} {frame : Frame} (h : Runs s l invoke ctx frame)
    (name : String) {type : Ty} {initialized : Bool} {v : Value}
    (hv : initialized = true → Conforms l type v) :
    Runs s l invoke (ctx.withLocal name type initialized)
      { frame with locals := frame.locals.insert name v } :=
  ⟨h.agrees, h.invoke, h.sees.withScope _, h.locals.insert name hv⟩

mutual

theorem safe_evalExpr {ctx : Context} {frame : Frame} (hr : Runs s l invoke ctx frame)
    (files : FileTree) (below : Stack) :
    (e : Expr) → {type : Ty} → ctx.HasType e type →
      Safe s l (Conforms l type) (evalExpr files invoke (frame :: below) e)
  | .int n span, _, h => by
    cases h
    rw [evalExpr]
    exact safe_pure trivial
  | .string text span, _, h => by
    cases h
    rw [evalExpr]
    exact safe_pure trivial
  | .bool b span, _, h => by
    cases h
    rw [evalExpr]
    exact safe_pure trivial
  | .null span, _, h => by
    cases h
    rw [evalExpr]
    exact safe_pure rfl
  | .name name span, _, h => by
    rw [evalExpr]
    exact safe_lookup hr.agrees hr.sees hr.locals below h
  | .neg operand span, _, h => by
    cases h with
    | neg hoperand =>
      rw [evalExpr]
      apply (safe_evalExpr hr files below operand hoperand).bind
      intro v hv
      exact safe_negate hv
  | .binary op lhs rhs span, _, h => by
    cases h with
    | arithmetic hlhs hrhs =>
      rw [evalExpr]
      apply (safe_evalExpr hr files below lhs hlhs).bind
      intro a hva
      apply (safe_evalExpr hr files below rhs hrhs).bind
      intro b hvb
      exact safe_operate_int _ op hva hvb
    | concat hlhs hrhs hstring _ _ =>
      rw [evalExpr]
      apply (safe_evalExpr hr files below lhs hlhs).bind
      intro a hva
      apply (safe_evalExpr hr files below rhs hrhs).bind
      intro b hvb
      exact safe_operate_concat _ hva hvb hstring
  | .call name args span, _, h => by
    cases h with
    | call hargs hsig haccepts =>
      rw [hr.sees.methodSig?] at hsig
      rw [evalExpr]
      apply (safe_evalExprs hr files below args hargs).bind
      intro vs hvs
      have hknown := hr.agrees.known.methods hsig
      exact safe_callMethod hr.agrees hr.invoke _ hsig (hvs.accepted hknown haccepts)
    | println hargs hsig _ _ =>
      rw [hr.sees.methodSig?] at hsig
      rw [evalExpr]
      apply (safe_evalExprs hr files below args hargs).bind
      intro vs _
      exact safe_callPrintln hr.agrees invoke _ hsig vs
  | .new name args span, _, h => by
    cases h with
    | new hargs hclass _ =>
      rw [evalExpr]
      apply (safe_evalExprs hr files below args hargs).bind
      intro vs _
      exact safe_newInstance hr.agrees files _ hr.sees hclass vs
  | .methodCall receiver method args span, _, h => by
    cases h with
    | methodCall hreceiver hargs _ _ hsig haccepts =>
      rw [evalExpr]
      apply (safe_evalExpr hr files below receiver hreceiver).bind
      intro v hv
      apply (safe_evalExprs hr files below args hargs).bind
      intro vs hvs
      have hknown := hr.sees.memberSig?_known hr.agrees.known hsig
      exact safe_callOn hr.agrees hr.invoke _ hr.sees hv hsig (hvs.accepted hknown haccepts)

theorem safe_evalExprs {ctx : Context} {frame : Frame} (hr : Runs s l invoke ctx frame)
    (files : FileTree) (below : Stack) :
    (es : List Expr) → {types : List Ty} → ctx.HaveTypes es types →
      Safe s l (ConformAll l types) (evalExprs files invoke (frame :: below) es)
  | [], _, h => by
    cases h
    rw [evalExprs]
    exact safe_pure trivial
  | e :: es, _, h => by
    cases h with
    | cons he hes =>
      rw [evalExprs]
      apply (safe_evalExpr hr files below e he).bind
      intro v hv
      apply (safe_evalExprs hr files below es hes).bind
      intro vs hvs
      exact safe_pure ⟨hv, hvs⟩

end

/-! ## Bodies -/

/-- What a body ends with: a value that may be returned, or nothing where control may reach its
end. -/
def BodyEnds (l : Loader) (returns : Ty) (leaves : Bool) : Option Value → Prop
  | some v => Conforms l returns v
  | none => leaves = false

theorem safe_execBody {returns : Ty} (hreturns : returns ≠ .unknown) {ctx : Context}
    {stmts : List Stmt} {leaves : Bool} (hbody : BodyOk returns ctx stmts leaves) {frame : Frame}
    (hr : Runs s l invoke ctx frame) (files : FileTree) (below : Stack) :
    Safe s l (BodyEnds l returns leaves) (execBody files invoke below frame stmts) := by
  -- Each statement hands `Runs` on to the rest, with the local that it declares.
  induction hbody generalizing frame with
  | nil => exact safe_pure rfl
  | @var ctx decl type stmts leaves hdeclares hrest ih =>
    have hline := hr.onLine decl.line
    unfold execBody
    simp only
    cases hinit : decl.init with
    | none =>
      refine ih (hline.withLocal decl.name ?_)
      intro hinitialized
      simp [hinit] at hinitialized
    | some init =>
      obtain ⟨source, hsource, hfits⟩ := hdeclares.fits hinit
      apply (safe_evalExpr hline files below init hsource).bind
      intro v hv
      exact ih (hline.withLocal decl.name fun _ => hv.assign hfits hdeclares.known)
  | @expr ctx value line type stmts leaves hvalue hrest ih =>
    unfold execBody
    apply (safe_evalExpr (hr.onLine _) files below value hvalue).bind
    intro v _
    exact ih (hr.onLine _)
  | @ret ctx value span line hvalue =>
    unfold execBody
    cases value with
    | none =>
      apply safe_pure
      cases hvalue
      trivial
    | some value =>
      obtain ⟨-, type, htype, hfits⟩ := hvalue
      simp only [map_eq_pure_bind]
      apply (safe_evalExpr (hr.onLine _) files below value htype).bind
      intro v hv
      exact safe_pure (hv.assign hfits hreturns)
  | @throw ctx value span line type hvalue hthrow =>
    unfold execBody
    apply (safe_evalExpr (hr.onLine _) files below value hvalue).bind
    intro v hv
    exact safe_throwValue hr.agrees hr.sees _ hv hthrow

/-! ## Calls -/

/-- The locals that a call starts with are its parameters. -/
theorem LocalsConform.params {ctx : Context} {values : Table Value}
    (h : LocalsConform l ctx.scope.locals values) {params : List Param} {types : List Ty}
    {args : List Value} (hlength : params.length = types.length)
    (hargs : ConformAll l types args) :
    LocalsConform l (ctx.withParams (params.zip types)).scope.locals
      (((params.map Param.name).zip args).foldl (fun t p => t.insert p.1 p.2) values) := by
  induction params generalizing ctx values types args with
  | nil => exact h
  | cons p ps ih =>
    cases types with
    | nil => cases hlength
    | cons type types =>
      cases args with
      | nil => cases hargs
      | cons v vs =>
        apply ih _ (Nat.succ.inj hlength) hargs.2
        exact h.insert p.name fun _ => hargs.1

/-- With any room for further calls, a well-typed call is safe. -/
theorem safe_invokeWithin (ha : Agrees s l) (files : FileTree) (room : Nat) :
    SafeInvoker s l (invokeWithin files room) := by
  -- A call with no room left overflows the stack, which is an exception and no fault.
  induction room with
  | zero =>
    intro stack call sig _
    exact safe_raise _ _ _
  | succ room ih =>
    intro stack call sig hcall
    obtain ⟨ctx, hsees, owner, leaves, hbody, hend⟩ := hcall.body
    have hinner := hsees.withScope ⟨{}, some sig.returns, owner⟩
    have hr : Runs s l (invokeWithin files room) _ call.frame :=
      ⟨ha, ih, hinner.withParams _, localsConform_empty.params hcall.arity hcall.args⟩
    unfold invokeWithin
    apply (safe_execBody hcall.known.returns hbody hr files stack).bind
    intro result hresult
    apply safe_pure
    cases result with
    | some v => exact hresult
    | none =>
      rw [hend hresult]
      trivial

/-! ## Units -/

theorem runs_top (ha : Agrees s l) (files : FileTree) (wrapper : String) (snippet line : UInt32) :
    Runs s l (invokeWithin files (maxDepth - 1)) (unitContext s.env s.host wrapper)
      (topFrame snippet line) :=
  ⟨ha, safe_invokeWithin ha files _, unitContext_sees _ _ _, localsConform_empty⟩

theorem safe_evalTop (ha : Agrees s l) (files : FileTree) {wrapper : String}
    (snippet line : UInt32) {e : Expr} {type : Ty}
    (h : (unitContext s.env s.host wrapper).HasType e type) :
    Safe s l (Conforms l type) (evalTop files snippet line e) :=
  safe_evalExpr (runs_top ha files wrapper snippet line) files [] e h

/-- A `throw` never ends with a value. -/
theorem safe_throwTop (ha : Agrees s l) (files : FileTree) {wrapper : String}
    (snippet line : UInt32) {e : Expr} {type : Ty}
    (h : (unitContext s.env s.host wrapper).HasType e type)
    (hthrow : (unitContext s.env s.host wrapper).isThrowable type = true) :
    Safe s l (fun _ => False) (throwTop files snippet line e) := by
  unfold throwTop
  apply (safe_evalTop ha files snippet line h).bind
  intro v hv
  exact safe_throwValue ha (unitContext_sees _ _ _) _ hv hthrow

/-- Where evaluation can get to, checker and run time still agree. -/
theorem Agrees.of_reached (ha : Agrees s l) {w : World} (hw : Reached s l w) :
    Agrees { s with globals := w.globals, printed := w.printed } w.loader where
  host := ha.host
  plain := hw.plain
  known := ha.known
  installed name := by
    rw [ne_eq, ← Loader.newest?_eq_none, hw.newest, Loader.newest?_eq_none]
    exact ha.installed name
  notStandard := ha.notStandard
  vars hvar := by
    obtain ⟨v, hvalue, hconforms⟩ := ha.vars hvar
    exact ⟨v, by rw [hw.vars, hvalue], hconforms.congr hw.newest⟩
  methods hsig := by
    obtain ⟨m, wrapper, hm, hrest⟩ := ha.methods hsig
    exact ⟨m, wrapper, by rw [hw.methods, hm], hrest⟩
  noMethods hsig := by
    rw [hw.methods]
    exact ha.noMethods hsig
  classes hsig := by
    obtain ⟨origin, decl, snippet, wrapper, hversion, hrest⟩ := ha.classes hsig
    exact ⟨origin, decl, snippet, wrapper, by rw [hw.newest, hversion], hrest⟩
  shown := ha.shown

/-- Evaluating in a session ends without a fault: with a value of the type, where one is
expected, or with an exception.  It leaves what is declared alone, and the session in agreement
with it. -/
structure Evaluates (s : SessionState) (l : Loader) (act : Eval Value) (type : Option Ty) :
    Prop where
  noFault : ∀ fault, (s.evaluate l act).1 ≠ .error (.fault fault)
  conforms : ∀ v, (s.evaluate l act).1 = .ok v →
    ∃ t, type = some t ∧ Conforms (s.evaluate l act).2.2 t v
  sameEnv : (s.evaluate l act).2.1.env = s.env
  agrees : Agrees (s.evaluate l act).2.1 (s.evaluate l act).2.2

theorem Safe.evaluates (ha : Agrees s l) {post : Value → Prop} {act : Eval Value}
    (hact : Safe s l post act) {type : Option Ty}
    (hpost : ∀ v, post v → ∃ t, type = some t ∧ Conforms l t v) : Evaluates s l act type := by
  have hends := hact ⟨s.globals, l, s.printed⟩ ⟨rfl, rfl, ha.plain, rfl⟩
  have hrun : s.evaluate l act =
      ((act.run ⟨s.globals, l, s.printed⟩).1,
        { s with
          globals := (act.run ⟨s.globals, l, s.printed⟩).2.globals
          printed := (act.run ⟨s.globals, l, s.printed⟩).2.printed },
        (act.run ⟨s.globals, l, s.printed⟩).2.loader) := rfl
  cases hout : act.run ⟨s.globals, l, s.printed⟩ with
  | mk result w =>
    rw [hout] at hends hrun
    simp only at hrun
    cases result with
    | ok v =>
      obtain ⟨hv, hw⟩ := hends
      obtain ⟨t, ht, hconforms⟩ := hpost v hv
      refine ⟨by simp [hrun], ?_, by rw [hrun], ?_⟩
      · intro v' hv'
        rw [hrun] at hv'
        cases hv'
        rw [hrun]
        exact ⟨t, ht, hconforms.congr hw.newest⟩
      · rw [hrun]
        exact ha.of_reached hw
    | error unwind =>
      cases unwind with
      | fault fault => exact absurd hends id
      | throw exception =>
        refine ⟨by simp [hrun], by simp [hrun], by rw [hrun], ?_⟩
        rw [hrun]
        exact ha.of_reached hends

/-- The value of a variable that nothing is stored in has the type of the variable. -/
theorem conforms_default {type : Ty} (hvoid : type ≠ .void) (hknown : type ≠ .unknown) :
    Conforms l type (Value.default type) := by
  cases type with
  | void => exact absurd rfl hvoid
  | unknown => exact absurd rfl hknown
  | int => trivial
  | boolean => trivial
  | _ => rfl

/-- What running an accepted unit evaluates, for a session and its loader. -/
def Checked.Sound (files : FileTree) (snippet : UInt32) (s : SessionState) (l : Loader) :
    Checked → Prop
  | .var decl type =>
    match decl.init with
    | some init => Evaluates s l (evalTop files snippet decl.line init) (some type)
    | none => Conforms l type (Value.default type)
  | .expr value line type => Evaluates s l (evalTop files snippet line value) (some type)
  | .throw value line => Evaluates s l (throwTop files snippet line value) none
  | .typeDecl _ _ | .method _ _ => True

/-- In a session that agrees with what the checker knows of it, every variable, expression and
`throw` that the checker accepts is evaluated without a fault, to a value of its type or an
exception. -/
theorem unit_sound (ha : Agrees s l) (files : FileTree) (snippet : UInt32) {item : Item}
    {wrapper : String} {checked : Checked}
    (h : item.check s.env s.host wrapper = .ok checked) :
    checked.Sound files snippet s l := by
  have htyped := unit_wellTyped ha.known h
  cases checked with
  | typeDecl decl sig => trivial
  | method decl sig => trivial
  | var decl type =>
    unfold Checked.Sound
    simp only
    cases hinit : decl.init with
    | none => exact conforms_default htyped.notVoid htyped.known
    | some init =>
      obtain ⟨source, hsource, hfits⟩ := htyped.fits hinit
      apply (safe_evalTop ha files snippet decl.line hsource).evaluates ha
      intro v hv
      exact ⟨type, rfl, hv.assign hfits htyped.known⟩
  | expr value line type =>
    apply (safe_evalTop ha files snippet line htyped).evaluates ha
    intro v hv
    exact ⟨type, rfl, hv⟩
  | throw value line =>
    obtain ⟨type, hvalue, hthrow⟩ := htyped
    apply (safe_throwTop ha files snippet line hvalue hthrow).evaluates ha
    intro v hv
    exact absurd hv id

end ReplEngine.Language
