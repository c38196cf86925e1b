import ReplEngine.Proofs.Engine.Dispatch
import ReplEngine.Proofs.Engine.Lockstep
import ReplEngine.Proofs.Engine.Printing
import ReplEngine.Proofs.Evaluation.Attempts
set_option autoImplicit false

/-!
# The texts of a value

A value has a text of its own: `println` prints it, and `+` joins it to other texts.  `toString`
gives the same text, except where the class of an object declares the method.  There a call runs the
body, and printing and joining do not (`texts_of_variable`, `toString_passed_over`).
-/

namespace ReplEngine.Language

open Reading Judge

/-! ## Anywhere in the code -/

section

variable {files : FileTree} {invoke : Invoker} {stack : Stack} {e : Expr} {v : Value}
  {world after : World} (heval : (evalExpr files invoke stack e).run world = (.ok v, after))

include heval

/-- Joining a value to the empty text gives its text. -/
theorem run_join (left whole : Span) :
    (evalExpr files invoke stack (.binary .add (.string "" left) e whole)).run world =
      (.ok (.string v.display), after) := by
  have htext : "" ++ v.display = v.display := String.empty_append
  unfold evalExpr
  have hleft : (evalExpr files invoke stack (.string "" left)).run world =
      (.ok (.string ""), world) := rfl
  rw [run_bind_ok hleft, run_bind_ok heval]
  show (Except.ok (Value.string ("" ++ v.display)), after) = _
  rw [htext]

theorem run_evalExprs_single :
    (evalExprs files invoke stack [e]).run world = (.ok [v], after) := by
  unfold evalExprs
  rw [run_bind_ok heval]
  rfl

/-- Printing a value prints its text, where no method of the session is called `println`. -/
theorem run_println (hprintln : after.globals.methods.get? "println" = none) (span : Span) :
    (evalExpr files invoke stack (.call "println" [e] span)).run world =
      (.ok .void, { after with printed := after.printed.println v.display }) := by
  have hnone : storedCall? after "println" [v] = none := Option.map_eq_none_iff.mpr hprintln
  unfold evalExpr
  rw [run_bind_ok (run_evalExprs_single heval), run_callMethod, hnone]
  rfl

/-- `toString` gives the text of a value, or what the body gives that its class declares. -/
theorem run_toString (hnull : v ≠ .null) (span : Span) :
    (evalExpr files invoke stack (.methodCall e "toString" [] span)).run world =
      match declaredCall? v "toString" [] with
      | none => (.ok (.string v.display), after)
      | some call => (invoke stack call).run after := by
  have hargs : (evalExprs files invoke stack []).run after = (.ok [], after) := rfl
  unfold evalExpr
  rw [run_bind_ok heval, run_bind_ok hargs, callOn_eq]
  cases declaredCall? v "toString" [] with
  | some call => rfl
  | none =>
    cases v with
    | null => exact absurd rfl hnull
    | _ => rfl

end

/-! ## Units -/

/-- What the code of a unit starts with. -/
def worldOf (w : Workspace SessionState) : World := ⟨w.state.globals, w.loader, w.state.printed⟩

/-- The unit is an expression, and accepted at the type. -/
structure AcceptsExpr (w : Workspace SessionState) (source : String) (e : Expr) (line : UInt32)
    (type : Ty) : Prop where
  parse : Item.parse source = .ok (.stmt (.expr e line))
  check : (Item.stmt (.expr e line)).check w.state.env w.state.host
    (wrapperClass (w.state.units + 1)) = .ok (.expr e line type)

variable {w : Workspace SessionState} {source : String} {e : Expr} {line : UInt32} {type : Ty}
  {v : Value} {files : FileTree} {after : World}

/-- The value of an expression that is more than a name is kept and shown. -/
theorem runUnit_expr (hopen : w.closed = false) (h : AcceptsExpr w source e line type)
    (hvoid : type ≠ .void) (hname : e.isName = false)
    (heval : (evalTop files (w.state.units + 1) line e).run (worldOf w) = (.ok v, after)) :
    ((Workspace.runUnit snippetCompiler files source).run w).1 =
      .ok [.value (SessionState.keptName (w.state.values + 1)) v.render] := by
  have hkept : ¬ (type = .void ∨ e.isName = true) := by simp [hvoid, hname]
  obtain ⟨⟨id, kind, name, text⟩, hid, hcompile⟩ := compile_accepted h.parse h.check
  obtain rfl : id = w.state.units + 1 := hid
  have hnone : (Loader.install []).run w.loader = (.ok [], w.loader) := rfl
  have hrun : (evalTop files (w.state.units + 1) line e).run
      ⟨w.state.globals, w.loader, w.state.printed⟩ = (.ok v, after) := heval
  unfold SessionState.commit at hcompile
  simp only [if_neg hkept] at hcompile
  rw [runUnit_installed files hopen hcompile hnone]
  simp only [SessionState.execute, SessionState.evaluate, SessionState.numbered, hrun]
  rfl

/-- What an expression prints. -/
theorem printedBy_expr (hopen : w.closed = false) (h : AcceptsExpr w source e line type)
    (heval : ∀ snippet, (evalTop files snippet line e).run (worldOf w) = (.ok v, after))
    {text : String} (htext : after.printed.text = w.state.printed.text ++ text) :
    printedBy files w source = text := by
  obtain ⟨snippet, hafter⟩ := afterUnit_ran hopen files h.parse h.check nofun
  have hprinted : (afterUnit files w source).state.printed = after.printed := by
    have hrun : (evalTop files snippet.id line e).run
        ⟨w.state.globals, w.loader, w.state.printed⟩ = (.ok v, after) := heval snippet.id
    rw [hafter]
    unfold SessionState.commit
    simp only
    split <;> simp only [SessionState.execute, SessionState.evaluate, SessionState.numbered, hrun,
      SessionState.bind]
  have hbuffer := printed_afterUnit hopen files source
  rw [hprinted, htext, String.append_right_inj] at hbuffer
  exact hbuffer.symm

/-- An operator gives a value. -/
theorem ne_void_of_binary {op : BinaryOp} {lhs rhs : Expr} {span : Span}
    (h : AcceptsExpr w source (.binary op lhs rhs span) line type) : type ≠ .void := by
  cases Context.acceptsItem_of_accepts (check_eq_ok.mp h.check) with
  | expr haccepts =>
    obtain ⟨left, -, haccepts⟩ := (accepts_bind fun _ => (Context.exprType_keeps _ _).bind
      fun _ => Context.binaryType_keeps _ _ _ _).mp haccepts
    rw [accepts_bind fun _ => Context.binaryType_keeps _ _ _ _] at haccepts
    obtain ⟨right, -, haccepts⟩ := haccepts
    unfold Context.binaryType at haccepts
    split at haccepts
    · cases accepts_pure.mp haccepts
      nofun
    split at haccepts
    · exact absurd haccepts accepts_reject
    split at haccepts
    · cases accepts_pure.mp haccepts
      nofun
    split at haccepts
    · cases accepts_pure.mp haccepts
      nofun
    · exact absurd haccepts accepts_reject

/-- A variable of the session at the top level. -/
theorem run_variable {name : String} (hvalue : w.state.valueOf? name = some v) (files : FileTree)
    (invoke : Invoker) (snippet line : UInt32) (span : Span) :
    (evalExpr files invoke [topFrame snippet line] (.name name span)).run (worldOf w) =
      (.ok v, worldOf w) := by
  have hfound : (worldOf w).globals.vars.get? name = some v := hvalue
  unfold evalExpr lookup
  rw [run_bind_ok (run_get _), hfound]
  rfl

/-- **The texts of a value.**  Let a variable of an open session hold a value that is not `null`,
and let the text be that of the value.
- A unit that prints the variable prints the text as a line and nothing else, where the session has
  no method of its own that is called `println`.
- A unit that joins the variable to the empty text shows the text.
- A unit that calls `toString` on the variable, and has a value, shows the text as well, unless the
  value is an object whose class declares a `toString`.  Then it shows what the body gives.

So the string that `toString` returns is the one that is printed and joined, where the class of the
value declares no such method. -/
theorem texts_of_variable (hopen : w.closed = false) (files : FileTree) {name : String}
    (hvalue : w.state.valueOf? name = some v) (hnull : v ≠ .null) :
    let shows (source : String) (shown : Value) : Prop :=
      ((Workspace.runUnit snippetCompiler files source).run w).1 =
        .ok [.value (SessionState.keptName (w.state.values + 1)) shown.render]
    (w.state.globals.methods.get? "println" = none → ∀ source line type span whole,
      AcceptsExpr w source (.call "println" [.name name span] whole) line type →
        printedBy files w source = v.display ++ "\n") ∧
    (∀ source line type left span whole,
      AcceptsExpr w source (.binary .add (.string "" left) (.name name span) whole) line type →
        shows source (.string v.display)) ∧
    (∀ source line type span whole,
      AcceptsExpr w source (.methodCall (.name name span) "toString" [] whole) line type →
        type ≠ .void →
        match declaredCall? v "toString" [] with
        | none => shows source (.string v.display)
        | some call => ∀ result after,
          (invokeWithin files (maxDepth - 1) [topFrame (w.state.units + 1) line] call).run
              (worldOf w) = (.ok result, after) →
            shows source result) := by
  intro shows
  refine ⟨fun hprintln source line type span whole haccepts => ?_,
    fun source line type left span whole haccepts => ?_,
    fun source line type span whole haccepts hvoid => ?_⟩
  · refine printedBy_expr hopen haccepts
      (fun snippet => run_println (run_variable hvalue files _ snippet line span) hprintln whole) ?_
    exact String.append_assoc
  · exact runUnit_expr hopen haccepts (ne_void_of_binary haccepts) rfl
      (run_join (run_variable hvalue files _ _ line span) left whole)
  · have hrun := run_toString (run_variable hvalue files (invokeWithin files (maxDepth - 1))
      (w.state.units + 1) line span) hnull whole
    cases hdeclared : declaredCall? v "toString" [] with
    | none =>
      rw [hdeclared] at hrun
      exact runUnit_expr hopen haccepts hvoid rfl hrun
    | some call =>
      rw [hdeclared] at hrun
      exact fun result after hbody =>
        runUnit_expr hopen haccepts hvoid rfl (hrun.trans hbody)

/-- The object of the class that has been declared again has no `toString` of its own. -/
theorem texts_of_variable_object :
    olderObject.state.valueOf? "a" =
      some (.object ⟨"A", .installed 1, .snippet firstA⟩ 0x9E3779B9) ∧
    printedBy {} olderObject "println(a);" = "A@9e3779b9\n" ∧
    ((Workspace.runUnit snippetCompiler {} "\"\" + a").run olderObject).1 =
      .ok [.value "$1" "\"A@9e3779b9\""] ∧
    ((Workspace.runUnit snippetCompiler {} "a.toString()").run olderObject).1 =
      .ok [.value "$1" "\"A@9e3779b9\""] := by
  have hvalue : olderObject.state.valueOf? "a" =
      some (.object ⟨"A", .installed 1, .snippet firstA⟩ 0x9E3779B9) := rfl
  have hnull : Value.object ⟨"A", .installed 1, .snippet firstA⟩ 0x9E3779B9 ≠ .null := by
    intro hnull
    cases hnull
  obtain ⟨hprints, hjoins, hcalls⟩ := texts_of_variable rfl {} hvalue hnull
  have hprint : AcceptsExpr olderObject "println(a);" (.call "println" [.name "a" ⟨8, 9⟩] ⟨0, 10⟩) 1
      .void := ⟨by cbv, rfl⟩
  have hjoin : AcceptsExpr olderObject "\"\" + a"
      (.binary .add (.string "" ⟨0, 2⟩) (.name "a" ⟨5, 6⟩) ⟨0, 6⟩) 1 .string := ⟨by cbv, rfl⟩
  have hcall : AcceptsExpr olderObject "a.toString()"
      (.methodCall (.name "a" ⟨0, 1⟩) "toString" [] ⟨0, 12⟩) 1 .string := ⟨by cbv, rfl⟩
  refine ⟨hvalue, (hprints rfl _ _ _ _ _ hprint).trans (by decide +kernel),
    (hjoins _ _ _ _ _ _ hjoin).trans (by cbv), ?_⟩
  exact (hcalls _ _ _ _ _ hcall (by decide)).trans (by cbv)

/-! ## A `toString` that is declared -/

/-- `String toString() { return x; }`, in a class `A`. -/
def textOfX : MethodDecl :=
  ⟨.string, "toString", [], [.ret (some (.name "x" ⟨37, 38⟩)) ⟨30, 38⟩ 1], ⟨17, 25⟩⟩

/-- The class that declares it. -/
def textA : ClassFile := ⟨"A", 2, [textOfX]⟩

/-- A session with an object of the class, and a variable `x`. -/
def withTextObject : Workspace SessionState where
  state :=
    { host := .standard
      env :=
        { vars := ⟨[("a", .object "A"), ("x", .string)]⟩
          classes := ⟨[("A", ⟨⟨[("toString", ⟨[], .string⟩)]⟩⟩)]⟩ }
      globals :=
        ⟨⟨[("a", .object ⟨"A", .installed 1, .snippet textA⟩ 0x9E3779B9), ("x", .string "s")]⟩,
          {}, 1⟩
      units := 3 }
  loader :=
    { definer := defineSnippet
      host := .standard
      installed := ⟨[("A",
        [⟨textA.encode, 1, some ⟨⟨"A", .installed 1, .snippet textA⟩, true⟩⟩])]⟩
      nextGeneration := 2
      defined := 1 }

theorem withTextObject_run :
    workspaceAfter ["String x = \"s\";", "class A { String toString() { return x; } }",
      "A a = new A();"] = withTextObject := by cbv

/-- An object whose class declares a `toString`: the call runs it, and neither printing nor joining
does. -/
theorem toString_passed_over :
    let w := workspaceAfter ["String x = \"s\";", "class A { String toString() { return x; } }",
      "A a = new A();"]
    ((Workspace.runUnit snippetCompiler {} "a.toString()").run w).1 =
      .ok [.value "$1" "\"s\""] ∧
    printedBy {} w "println(a);" = "A@9e3779b9\n" ∧
    ((Workspace.runUnit snippetCompiler {} "\"\" + a").run w).1 =
      .ok [.value "$1" "\"A@9e3779b9\""] := by
  intro w
  rw [show w = withTextObject from withTextObject_run]
  refine ⟨?_, ?_, ?_⟩
  · cbv
  · cbv
  · cbv

end ReplEngine.Language
