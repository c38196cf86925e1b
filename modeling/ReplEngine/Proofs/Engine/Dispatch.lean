import ReplEngine.Proofs.Engine.ClassNames
import ReplEngine.Proofs.Evaluation.Dispatch
import ReplEngine.Proofs.Engine.UnitHistory
set_option autoImplicit false

/-!
# Calls in a session

A method call that the checker accepts at a signature runs code that was accepted at it
(`dispatch_matches_signature`), as long as an object is of the class that is on record, a
`toString` has the signature of every `toString`, and no class takes the name of an exception type.
Nothing checks any of these when a class is declared, and `dispatch_differs` shows what becomes of
calls without them.
-/

namespace ReplEngine.Language

open Judge

/-- **What is called is what was checked.**  Let a method call be accepted on a receiver of a known
type.  Then it has a signature that fits the arguments and returns the type of the call, and:
- where class names mean one thing, the call on every value that the type admits comes to a body
  with as many parameters, accepted at the signature, or, where the signature has no parameters, to
  a value of the type without a body;
- in a session that agrees with what the checker knows, every value of the type but `null` is
  admitted, and the call with arguments of their types ends with a value of the type of the call or
  with an exception, never with a fault. -/
theorem dispatch_matches_signature {ctx : Context} {receiver : Ty} {method : String}
    {argTypes : List Ty} {span : Span} {type : Ty} (hknown : receiver ≠ .unknown)
    (haccepts : Accepts (ctx.methodCallType receiver method argTypes span) type) :
    ∃ sig, ctx.memberSig? receiver method = some sig ∧ sig.accepts argTypes = true ∧
      sig.returns = type ∧
      (ctx.Apart → ∀ v, ctx.Admits receiver v → Dispatched v method sig) ∧
      ∀ s l, Agrees s l → ctx.Sees s.env s.host → ∀ v, Conforms l receiver v → v ≠ .null →
        ctx.Apart ∧ ctx.Admits receiver v ∧
        ∀ files room stack args, ConformAll l argTypes args →
          Safe s l (Conforms l type) (callOn (invokeWithin files room) stack v method args) := by
  obtain ⟨sig, hsig, hreference, -, hfits, rfl⟩ := Context.accepts_methodCallType hknown haccepts
  refine ⟨sig, hsig, hfits, rfl, fun hapart v hv => dispatched_of_admits hapart hv hsig, ?_⟩
  intro s l ha hsees v hv hnull
  refine ⟨ha.apart hsees, ha.admits hsees hreference hv hnull, ?_⟩
  intro files room stack args hargs
  have hparams := hargs.accepted (hsees.memberSig?_known ha.known hsig) hfits
  exact safe_callOn ha (safe_invokeWithin ha files room) stack hsees hv hsig hparams

/-- The `size` of a `Pair`, in the session that has one. -/
theorem dispatch_matches_signature_pair :
    Accepts ((unitContext pairSession.env pairSession.host "$Snippet$3").methodCallType
        (.object "Pair") "size" [] default) .int ∧
      Dispatched (.object pairObject 0x9E3779B9) "size" ⟨[], .int⟩ ∧
      Safe pairSession pairLoader (Conforms pairLoader .int)
        (callOn (invokeWithin {} 511) [] (.object pairObject 0x9E3779B9) "size" []) := by
  have haccepts : Accepts ((unitContext pairSession.env pairSession.host
      "$Snippet$3").methodCallType (.object "Pair") "size" [] default) .int := rfl
  obtain ⟨sig, hsig, -, -, hdispatched, hagrees⟩ :=
    dispatch_matches_signature (by decide) haccepts
  cases hsig
  obtain ⟨hapart, hadmits, hsafe⟩ := hagrees pairSession pairLoader pairSession_agrees
    (unitContext_sees _ _ _) (.object pairObject 0x9E3779B9) ⟨rfl, .inr ⟨rfl, rfl⟩⟩ nofun
  exact ⟨haccepts, hdispatched hapart _ hadmits, hsafe {} 511 [] [] trivial⟩

/-! ## Calls of other code -/

/-- A variable that a unit declares holds what its initializer has given. -/
def Workspace.initialized (w : Workspace SessionState) (name : String) (type : Ty) (v : Value)
    (world : World) : Workspace SessionState :=
  { w with
    loader := world.loader
    state :=
      { w.state with
        units := w.state.units + 1
        env := { w.state.env with vars := w.state.env.vars.insert name type }
        globals := { world.globals with vars := world.globals.vars.insert name v }
        printed := world.printed } }

theorem afterUnit_initialized {w : Workspace SessionState} (hopen : w.closed = false)
    {files : FileTree} {source : String} {decl : VarDecl} {e : Expr} {type : Ty} {v : Value}
    {world : World} (hparse : Item.parse source = .ok (.stmt (.var decl)))
    (hinit : decl.init = some e)
    (hcheck : (Item.stmt (.var decl)).check w.state.env w.state.host
      (wrapperClass (w.state.units + 1)) = .ok (.var decl type))
    (heval : ∀ snippet, (evalTop files snippet decl.line e).run
      ⟨w.state.globals, w.loader, w.state.printed⟩ = (.ok v, world)) :
    afterUnit files w source = Workspace.initialized w decl.name type v world := by
  obtain ⟨snippet, hafter⟩ := afterUnit_ran hopen files hparse hcheck nofun
  have hrun : (evalTop files snippet.id decl.line e).run
      ⟨w.state.numbered.globals, w.loader, w.state.numbered.printed⟩ = (.ok v, world) :=
    heval snippet.id
  rw [hafter]
  simp only [SessionState.commit, SessionState.execute, hinit, SessionState.evaluate, hrun]
  rfl

/-- `int toString() { return 1; }`, in a class `A`. -/
def numericToString : MethodDecl :=
  ⟨.int, "toString", [], [.ret (some (.int 1 ⟨34, 35⟩)) ⟨27, 35⟩ 1], ⟨14, 22⟩⟩

/-- The class that declares it. -/
def numericA : ClassFile := ⟨"A", 1, [numericToString]⟩

/-- An object of that class. -/
def numericObject : Value := .object ⟨"A", .installed 1, .snippet numericA⟩ 0x9E3779B9

/-- A session in which the class has been declared. -/
def withNumericA : Workspace SessionState where
  state :=
    { host := .standard
      env := { classes := ⟨[("A", ⟨⟨[("toString", ⟨[], .int⟩)]⟩⟩)]⟩ }
      units := 1 }
  loader :=
    { definer := defineSnippet
      host := .standard
      installed := ⟨[("A",
        [⟨numericA.encode, 1, some ⟨⟨"A", .installed 1, .snippet numericA⟩, true⟩⟩])]⟩
      nextGeneration := 2
      defined := 1 }

/-- The session goes on with an `Object` that is of the class. -/
def withNumericObject : Workspace SessionState where
  state :=
    { withNumericA.state with
      env := { withNumericA.state.env with vars := ⟨[("o", .object "lang.Object")]⟩ }
      globals := ⟨⟨[("o", numericObject)]⟩, {}, 1⟩
      units := 2 }
  loader := withNumericA.loader

theorem withNumericA_run :
    workspaceAfter ["class A { int toString() { return 1; } }"] = withNumericA := by cbv

theorem withNumericObject_run :
    afterUnit {} withNumericA "Object o = new A();" = withNumericObject := by
  have hparse : Item.parse "Object o = new A();" = .ok (.stmt (.var
      ⟨.named "Object", "o", some (.new "A" [] ⟨11, 18⟩), ⟨0, 18⟩, 1⟩)) := by cbv
  have heval (snippet : UInt32) : (evalTop {} snippet 1 (.new "A" [] ⟨11, 18⟩)).run
      ⟨withNumericA.state.globals, withNumericA.loader, withNumericA.state.printed⟩ =
        (.ok numericObject, ⟨⟨{}, {}, 1⟩, withNumericA.loader, {}⟩) := by cbv
  exact (afterUnit_initialized rfl hparse rfl rfl heval).trans rfl

/-- A `String` is initialized with the text of the object, and holds a number. -/
theorem numericText_run :
    workspaceAfter ["class A { int toString() { return 1; } }", "Object o = new A();",
        "String s = o.toString();"] =
      Workspace.initialized withNumericObject "s" .string (.int 1)
        ⟨withNumericObject.state.globals, withNumericA.loader, {}⟩ := by
  show afterUnit {} (afterUnit {} (workspaceAfter ["class A { int toString() { return 1; } }"])
    "Object o = new A();") "String s = o.toString();" = _
  rw [withNumericA_run, withNumericObject_run]
  have hparse : Item.parse "String s = o.toString();" = .ok (.stmt (.var
      ⟨.string, "s", some (.methodCall (.name "o" ⟨11, 12⟩) "toString" [] ⟨11, 23⟩), ⟨0, 23⟩,
        1⟩)) := by cbv
  refine afterUnit_initialized rfl hparse rfl rfl fun snippet => ?_
  cbv

/-- A `boolean` is initialized by a method of the older class, and holds a number. -/
theorem olderCall_run :
    workspaceAfter ["class A { int m() { return 1; } }", "A a = new A();",
        "class A { boolean m() { return true; } }", "boolean a = a.m();"] =
      afterUnit {} olderObject "boolean a = a.m();" := by
  show afterUnit {} (workspaceAfter ["class A { int m() { return 1; } }", "A a = new A();",
    "class A { boolean m() { return true; } }"]) "boolean a = a.m();" = _
  rw [olderObject_run.1]

/-- An object of a class that has the name of an exception type has not the methods of one. -/
theorem boomMessage_run :
    ((Workspace.evaluate snippetCompiler {} "new Boom().getMessage()").run withBoom).1 =
      .error (.compiler ⟨"no method getMessage on Boom@9e3779b9"⟩) := by cbv

/-- Four accepted calls that do not come to what was checked.  A `toString` that gives a number is
called through `Object`; an object is of a class that has been declared again; a method that a body
calls has been declared again; and a class has the name of an exception type. -/
theorem dispatch_differs :
    (let after := (workspaceAfter ["class A { int toString() { return 1; } }",
        "Object o = new A();", "String s = o.toString();"]).state
     after.env.vars.get? "s" = some .string ∧ after.globals.vars.get? "s" = some (.int 1)) ∧
    (let after := (workspaceAfter ["class A { int m() { return 1; } }", "A a = new A();",
        "class A { boolean m() { return true; } }", "boolean a = a.m();"]).state
     after.env.vars.get? "a" = some .boolean ∧ after.globals.vars.get? "a" = some (.int 1)) ∧
    (let after := (workspaceAfter ["int f() { return 1; }", "class A { int m() { return f(); } }",
        "boolean f() { return true; }", "int x = new A().m();"]).state
     after.env.vars.get? "x" = some .int ∧ after.globals.vars.get? "x" = some (.bool true)) ∧
    ((Workspace.evaluate snippetCompiler {} "new Boom().getMessage()").run withBoom).1 =
      .error (.compiler ⟨"no method getMessage on Boom@9e3779b9"⟩) := by
  refine ⟨?_, ?_, ?_, boomMessage_run⟩
  · rw [numericText_run]
    exact ⟨rfl, rfl⟩
  · rw [olderCall_run, olderObject_run.2]
    exact ⟨rfl, rfl⟩
  · cbv

end ReplEngine.Language
