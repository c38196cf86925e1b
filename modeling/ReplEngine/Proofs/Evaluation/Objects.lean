import ReplEngine.Proofs.Evaluation.Steps
set_option autoImplicit false

/-!
# The objects that evaluation makes

`madeByTop` lists the objects that `new` gives while code runs, in order, those included that were
made before the code stopped early.  It follows evaluation from world to world, and evaluates
nothing itself.  The count of objects goes on by one for each of them, and its identity is made out
of the count (`Numbers`).  Evaluation gives no object that was neither made by it nor held by a
variable before (`records_evalTop`).
-/

namespace ReplEngine.Language

open Reading

variable {α β : Type}

/-! ## Objects and their numbers -/

/-- An object that `new` has made. -/
structure Made where
  cls : ClassObject
  identity : UInt32

/-- The object as a value. -/
def Made.value (m : Made) : Value := .object m.cls m.identity

/-- The value is an object that `new` makes. -/
def Value.IsObject : Value → Prop
  | .object _ _ => True
  | _ => False

/-- The identity of the object with a number. -/
def identityOf (number : UInt32) : UInt32 := number * 0x9E3779B9

/-- The objects are made one after the other while the count goes on from one number to another. -/
inductive Numbers : UInt32 → List Made → UInt32 → Prop where
  | nil (count : UInt32) : Numbers count [] count
  | cons {count last : UInt32} {cls : ClassObject} {made : List Made}
      (hlater : Numbers (count + 1) made last) :
      Numbers count (⟨cls, identityOf (count + 1)⟩ :: made) last

theorem Numbers.append {count mid last : UInt32} {made later : List Made}
    (h : Numbers count made mid) (hlater : Numbers mid later last) :
    Numbers count (made ++ later) last := by
  induction h with
  | nil => exact hlater
  | cons _ ih => exact .cons (ih hlater)

/-! ## Identities -/

/-- Another number has another identity: the factor has an inverse. -/
theorem identityOf_injective {n m : UInt32} (h : identityOf n = identityOf m) : n = m := by
  have hback (n : UInt32) : identityOf n * 0x144CBC89 = n := by
    have hinverse : (0x9E3779B9 : UInt32) * 0x144CBC89 = 1 := by decide
    rw [identityOf, UInt32.mul_assoc, hinverse, UInt32.mul_one]
  rw [← hback n, h, hback]

theorem add_one_add_ofNat (count : UInt32) (k : Nat) :
    count + 1 + UInt32.ofNat k = count + UInt32.ofNat (k + 1) := by
  rw [UInt32.add_assoc, UInt32.add_comm 1, UInt32.ofNat_add]
  rfl

/-- The count goes on by one for each object. -/
theorem Numbers.last_eq {count last : UInt32} {made : List Made} (h : Numbers count made last) :
    last = count + UInt32.ofNat made.length := by
  induction h with
  | nil => exact (UInt32.add_zero _).symm
  | cons _ ih => exact ih.trans (add_one_add_ofNat _ _)

/-- The number of an object comes behind the count. -/
theorem Numbers.exists_number {count last : UInt32} {made : List Made}
    (h : Numbers count made last) {m : Made} (hm : m ∈ made) :
    ∃ k < made.length, m.identity = identityOf (count + UInt32.ofNat (k + 1)) := by
  induction h with
  | nil => cases hm
  | cons _ ih =>
    rcases List.mem_cons.1 hm with rfl | hm
    · exact ⟨0, Nat.zero_lt_succ _, rfl⟩
    · obtain ⟨k, hk, hidentity⟩ := ih hm
      exact ⟨k + 1, Nat.succ_lt_succ hk,
        hidentity.trans (congrArg identityOf (add_one_add_ofNat _ _))⟩

/-- As long as the count has not come round, no two objects have the same identity. -/
theorem Numbers.pairwise_ne {count last : UInt32} {made : List Made}
    (h : Numbers count made last) (hfew : made.length < 2 ^ 32) :
    made.Pairwise fun m m' => m.identity ≠ m'.identity := by
  induction h with
  | nil => exact .nil
  | @cons count _ _ later hlater ih =>
    have hfewer : later.length + 1 < 2 ^ 32 := hfew
    refine .cons (fun m hm hsame => ?_) (ih (Nat.lt_of_succ_lt hfewer))
    obtain ⟨k, hk, hidentity⟩ := hlater.exists_number hm
    have hnumbers := identityOf_injective (hsame.trans hidentity)
    rw [UInt32.left_eq_add] at hnumbers
    have hround : (k + 1) % 2 ^ 32 = 0 := congrArg UInt32.toNat hnumbers
    omega

/-! ## Texts -/

/-- The last digit stands behind the digits of the rest. -/
theorem toDigits_eq_append (n : Nat) :
    Nat.toDigits 16 n =
      (if n < 16 then [] else Nat.toDigits 16 (n / 16)) ++ [Nat.digitChar (n % 16)] := by
  rw [Nat.toDigits_eq_if (by decide)]
  split
  · rw [Nat.mod_eq_of_lt ‹_›]
    rfl
  · rfl

theorem digitChar_injective {n m : Nat} (hn : n < 16) (hm : m < 16)
    (h : Nat.digitChar n = Nat.digitChar m) : n = m := by
  have hall : ∀ i j : Fin 16, Nat.digitChar i = Nat.digitChar j → i = j := by decide
  exact Fin.mk.inj (hall ⟨n, hn⟩ ⟨m, hm⟩ h)

/-- Another number has another numeral. -/
theorem hex_injective {n m : Nat} (h : Value.hex n = Value.hex m) : n = m := by
  replace h : Nat.toDigits 16 n = Nat.toDigits 16 m := String.ofList_injective h
  induction n using Nat.strongRecOn generalizing m with
  | ind n ih =>
    rw [toDigits_eq_append n, toDigits_eq_append m] at h
    obtain ⟨hrest, hlast⟩ := List.append_inj' h rfl
    have hmod := digitChar_injective (Nat.mod_lt n (by decide)) (Nat.mod_lt m (by decide))
      (List.singleton_inj.1 hlast)
    have hdiv : n / 16 = m / 16 := by
      split at hrest <;> split at hrest
      · omega
      · exact absurd hrest.symm Nat.toDigits_ne_nil
      · exact absurd hrest Nat.toDigits_ne_nil
      · exact ih (n / 16) (by omega) hrest
    omega

/-- Objects of one class with different identities have different texts. -/
theorem Made.display_ne {m m' : Made} (hidentity : m.identity ≠ m'.identity)
    (hname : m.cls.name = m'.cls.name) : m.value.display ≠ m'.value.display := by
  intro htext
  replace htext : m.cls.name ++ "@" ++ Value.hex m.identity.toNat =
    m'.cls.name ++ "@" ++ Value.hex m'.identity.toNat := htext
  rw [hname, String.append_right_inj] at htext
  exact hidentity (UInt32.toNat_inj.1 (hex_injective htext))

/-! ## What is made on the way -/

/-- What an evaluation makes and, if it gives a value, what is made behind it. -/
def thenMade (made : World → List Made) (act : Eval α) (later : α → World → List Made)
    (w : World) : List Made :=
  made w ++
    match act.run w with
    | (.ok a, mid) => later a mid
    | (.error _, _) => []

/-- Nothing is made. -/
def nothing : World → List Made := fun _ => []

/-- What a call makes. -/
abbrev Making : Type := Stack → Invocation → World → List Made

/-- What `new` makes, with the arguments evaluated. -/
def madeByNew (files : FileTree) (stack : Stack) (name : String) (args : List Value) (w : World) :
    List Made :=
  match ((newInstance files stack name args).run w).1 with
  | .ok (.object cls identity) => [⟨cls, identity⟩]
  | _ => []

/-- What a call of a top-level method makes, with the arguments evaluated. -/
def madeByMethod (making : Making) (stack : Stack) (name : String) (args : List Value) (w : World) :
    List Made :=
  match storedCall? w name args with
  | some call => making stack call w
  | none => []

/-- What a call of a method of a value makes, with the arguments evaluated. -/
def madeOn (making : Making) (stack : Stack) (receiver : Value) (method : String)
    (args : List Value) : World → List Made :=
  match declaredCall? receiver method args with
  | some call => making stack call
  | none => nothing

section

variable (files : FileTree) (invoke : Invoker) (making : Making)

mutual

/-- What an expression makes. -/
def madeByExpr (stack : Stack) : Expr → World → List Made
  | .neg operand _ => madeByExpr stack operand
  | .binary _ lhs rhs _ =>
    thenMade (madeByExpr stack lhs) (evalExpr files invoke stack lhs) fun _ =>
      madeByExpr stack rhs
  | .call name args _ =>
    thenMade (madeByExprs stack args) (evalExprs files invoke stack args) fun values =>
      madeByMethod making stack name values
  | .new name args _ =>
    thenMade (madeByExprs stack args) (evalExprs files invoke stack args) fun values =>
      madeByNew files stack name values
  | .methodCall receiver method args _ =>
    thenMade (madeByExpr stack receiver) (evalExpr files invoke stack receiver) fun value =>
      thenMade (madeByExprs stack args) (evalExprs files invoke stack args) fun values =>
        madeOn making stack value method values
  | _ => nothing

/-- What expressions make, in order. -/
def madeByExprs (stack : Stack) : List Expr → World → List Made
  | [] => nothing
  | e :: es =>
    thenMade (madeByExpr stack e) (evalExpr files invoke stack e) fun _ => madeByExprs stack es

end

/-- What statements make, in a frame on top of others. -/
def madeByBody (below : Stack) (frame : Frame) : List Stmt → World → List Made
  | [] => nothing
  | stmt :: stmts =>
    let frame := frame.atStmt stmt
    let making := madeByExpr files invoke making (frame :: below)
    let eval := evalExpr files invoke (frame :: below)
    match stmt with
    | .var decl =>
      match decl.init with
      | some init =>
        thenMade (making init) (eval init) fun v =>
          madeByBody below (frame.declaring decl.name v) stmts
      | none => madeByBody below (frame.declaring decl.name .null) stmts
    | .ret (some value) _ _ => making value
    | .ret none _ _ => nothing
    | .throw value _ _ => making value
    | .expr value _ => thenMade (making value) (eval value) fun _ => madeByBody below frame stmts

end

/-- What a call makes where there is room for so many frames more. -/
def madeByCall (files : FileTree) : Nat → Making
  | 0, _, _ => nothing
  | room + 1, stack, call =>
    madeByBody files (invokeWithin files room) (madeByCall files room) stack call.frame
      call.decl.body

/-- What a top-level expression of a snippet makes. -/
def madeByTop (files : FileTree) (snippet line : UInt32) (e : Expr) : World → List Made :=
  let stack := [topFrame snippet line]
  let room := maxDepth - stack.length
  madeByExpr files (invokeWithin files room) (madeByCall files room) stack e

/-! ## The record is kept -/

/-- If what variables hold and what is made has the property, then so has what comes out; and the
count of objects goes on with what is made. -/
def Records (P : Value → Prop) (post : α → Prop) (act : Eval α) (made : World → List Made) :
    Prop :=
  ∀ w, AllIn P w.globals.vars → (∀ m ∈ made w, P m.value) →
    Numbers w.globals.objects (made w) (act.run w).2.globals.objects ∧
      (act.run w).2.globals.vars = w.globals.vars ∧ ∀ a, (act.run w).1 = .ok a → post a

section

variable {P : Value → Prop} {post : α → Prop} {next : β → Prop}

theorem records_pure {a : α} (h : post a) : Records P post (pure a) nothing := by
  intro w _ _
  refine ⟨.nil _, rfl, ?_⟩
  rintro b ⟨⟩
  exact h

theorem records_throw (unwind : Unwind) : Records P post (throw unwind : Eval α) nothing :=
  fun _ _ _ => ⟨.nil _, rfl, nofun⟩

theorem thenMade_ok {act : Eval α} {w mid : World} {a : α} (h : act.run w = (.ok a, mid))
    (made : World → List Made) (later : α → World → List Made) :
    thenMade made act later w = made w ++ later a mid := by
  rw [thenMade, h]

theorem thenMade_error {act : Eval α} {w mid : World} {unwind : Unwind}
    (h : act.run w = (.error unwind, mid)) (made : World → List Made)
    (later : α → World → List Made) : thenMade made act later w = made w := by
  rw [thenMade, h]
  exact List.append_nil _

theorem Records.bind {act : Eval α} {f : α → Eval β} {made : World → List Made}
    {later : α → World → List Made} (h : Records P post act made)
    (hf : ∀ a, post a → Records P next (f a) (later a)) :
    Records P next (act >>= f) (thenMade made act later) := by
  intro w hvars hmade
  cases hrun : act.run w with
  | mk result mid =>
    cases result with
    | ok a =>
      rw [thenMade_ok hrun] at hmade ⊢
      rw [run_bind_ok hrun]
      obtain ⟨hnumbers, hkept, hpost⟩ :=
        h w hvars fun m hm => hmade m (List.mem_append_left _ hm)
      rw [hrun] at hnumbers hkept hpost
      obtain ⟨hnumbers', hkept', hpost'⟩ := hf a (hpost a rfl) mid (hkept ▸ hvars)
        fun m hm => hmade m (List.mem_append_right _ hm)
      exact ⟨hnumbers.append hnumbers', hkept'.trans hkept, hpost'⟩
    | error unwind =>
      rw [thenMade_error hrun] at hmade ⊢
      rw [run_bind_error hrun]
      obtain ⟨hnumbers, hkept, -⟩ := h w hvars hmade
      rw [hrun] at hnumbers hkept
      exact ⟨hnumbers, hkept, nofun⟩

/-- Nothing is made behind the evaluation. -/
theorem Records.bind_nothing {act : Eval α} {f : α → Eval β} {made : World → List Made}
    (h : Records P post act made) (hf : ∀ a, post a → Records P next (f a) nothing) :
    Records P next (act >>= f) made := by
  have hsame : thenMade made act (fun _ => nothing) = made := by
    funext w
    unfold thenMade nothing
    split <;> exact List.append_nil _
  have hall := h.bind hf
  rwa [hsame] at hall

theorem records_raiseFault (fault : Fault) : Records P post (raiseFault fault : Eval α) nothing :=
  records_throw _

theorem records_raise (stack : Stack) (className : String) (message : Option String) :
    Records P post (raise stack className message : Eval α) nothing :=
  records_throw _

theorem records_throwValue (stack : Stack) (v : Value) :
    Records P post (throwValue stack v : Eval α) nothing := by
  cases v with
  | exception d => exact records_throw _
  | null => exact records_raise _ _ _
  | _ => exact records_raiseFault _

/-! ## Steps -/

/-- The frames hold values with the property. -/
def FrameHolds (P : Value → Prop) (stack : Stack) : Prop :=
  ∀ frame ∈ stack.head?, AllIn P frame.locals

theorem records_lookup {stack : Stack} (hstack : FrameHolds P stack) (name : String) :
    Records P P (lookup stack name) nothing := by
  intro w hvars _
  have hworld : ((lookup stack name).run w).2 = w := by
    unfold lookup
    rw [run_bind_ok (run_get w)]
    split <;> rfl
  rw [hworld]
  refine ⟨.nil _, rfl, fun v hv => ?_⟩
  rcases Option.or_eq_some_iff.1 (lookup_found hv) with hlocal | ⟨-, hglobal⟩
  · cases stack with
    | nil => cases hlocal
    | cons frame below => exact hstack frame rfl hlocal
  · exact hvars hglobal

theorem records_findClass (files : FileTree) (name : String) :
    Records P (fun _ => True) (findClass files name) nothing := by
  have hloads (name : String) : Records P (fun _ => True) (loadClass files name) nothing :=
    fun _ _ _ => ⟨.nil _, rfl, fun _ _ => trivial⟩
  refine (hloads name).bind_nothing fun found _ => ?_
  cases found with
  | ok cls => exact records_pure trivial
  | error e =>
    cases e with
    | classNotFound missing =>
      simp only
      split
      · exact records_raiseFault _
      · refine (hloads _).bind_nothing fun found _ => ?_
        cases found with
        | ok cls => exact records_pure trivial
        | error e => exact records_raiseFault _
    | _ => exact records_raiseFault _

variable (hplain : ∀ v : Value, ¬ v.IsObject → P v)

include hplain

theorem records_negate (v : Value) : Records P P (negate v) nothing := by
  cases v with
  | int n => exact records_pure (hplain _ id)
  | _ => exact records_raiseFault _

theorem records_operate (stack : Stack) (op : BinaryOp) (lhs rhs : Value) :
    Records P P (operate stack op lhs rhs) nothing := by
  unfold operate
  split
  · unfold arithmetic
    cases op with
    | div | rem =>
      simp only
      split
      · exact records_raise _ _ _
      · exact records_pure (hplain _ id)
    | _ => exact records_pure (hplain _ id)
  · cases op with
    | add => exact records_pure (hplain _ id)
    | _ => exact records_raiseFault _

/-- `new` makes the object that it gives, and nothing if it gives an exception. -/
theorem records_newInstance (files : FileTree) (stack : Stack) (name : String) (args : List Value) :
    Records P P (newInstance files stack name args) (madeByNew files stack name args) := by
  intro w hvars hmade
  obtain ⟨hnumbers, hkept, -⟩ := records_findClass (P := P) files name w hvars nofun
  cases hfound : (findClass files name).run w with
  | mk result mid =>
    rw [hfound] at hnumbers hkept
    cases result with
    | error unwind =>
      have hrun : (newInstance files stack name args).run w = (.error unwind, mid) :=
        run_bind_error hfound
      rw [madeByNew, hrun]
      exact ⟨hnumbers, hkept, nofun⟩
    | ok cls =>
      unfold madeByNew newInstance at hmade ⊢
      rw [run_bind_ok hfound] at hmade ⊢
      cases hthrown : cls.body.exceptionType? with
      | some type =>
        refine ⟨hnumbers, hkept, ?_⟩
        rintro v ⟨⟩
        exact hplain _ id
      | none =>
        rw [hthrown] at hmade
        refine ⟨?_, hkept, ?_⟩
        · rw [← hnumbers.last_eq.trans (UInt32.add_zero _)]
          exact .cons (.nil _)
        · rintro v ⟨⟩
          exact hmade _ (.head _)

theorem records_builtinMethod (receiver : Value) (method : String) :
    Records P P (builtinMethod receiver method) nothing := by
  unfold builtinMethod
  split
  · rename_i d
    cases d.link.message with
    | none => exact records_pure (hplain _ id)
    | some message => exact records_pure (hplain _ id)
  · exact records_pure (hplain _ id)
  · exact records_pure (hplain _ id)
  · exact records_raiseFault _

theorem records_callUndeclared (stack : Stack) (receiver : Value) (method : String) :
    Records P P (callUndeclared stack receiver method) nothing := by
  cases receiver with
  | null => exact records_raise _ _ _
  | _ => exact records_builtinMethod hplain _ _

theorem records_callUnstored (name : String) (args : List Value) :
    Records P P (callUnstored name args) nothing := by
  unfold callUnstored
  split
  · have hprints (text : String) : Records P (fun _ => True) (println text) nothing :=
      fun _ _ _ => ⟨.nil _, rfl, fun _ _ => trivial⟩
    exact (hprints _).bind_nothing fun _ _ => records_pure (hplain _ id)
  · exact records_raiseFault _

/-! ## Calls -/

end

/-- Calls keep the record, when their arguments have the property. -/
def RecordsCalls (P : Value → Prop) (invoke : Invoker) (making : Making) : Prop :=
  ∀ stack (call : Invocation), (∀ v ∈ call.args, P v) →
    Records P P (invoke stack call) (making stack call)

section

variable {P : Value → Prop} (hplain : ∀ v : Value, ¬ v.IsObject → P v) {invoke : Invoker}
  {making : Making} (hcalls : RecordsCalls P invoke making)

include hplain hcalls

theorem records_callMethod (stack : Stack) (name : String) {args : List Value}
    (hargs : ∀ v ∈ args, P v) :
    Records P P (callMethod invoke stack name args) (madeByMethod making stack name args) := by
  intro w
  unfold madeByMethod
  rw [run_callMethod]
  cases hcall : storedCall? w name args with
  | none => exact records_callUnstored hplain name args w
  | some call =>
    obtain ⟨m, -, rfl⟩ := storedCall?_eq_some hcall
    exact hcalls stack _ hargs w

theorem records_callOn (stack : Stack) (receiver : Value) (method : String) {args : List Value}
    (hargs : ∀ v ∈ args, P v) :
    Records P P (callOn invoke stack receiver method args)
      (madeOn making stack receiver method args) := by
  unfold madeOn
  rw [callOn_eq]
  cases hcall : declaredCall? receiver method args with
  | none => exact records_callUndeclared hplain stack receiver method
  | some call =>
    obtain ⟨cls, file, decl, -, rfl⟩ := declaredCall?_eq_some hcall
    exact hcalls stack _ hargs

end

/-! ## Expressions and bodies -/

section

variable {P : Value → Prop} {invoke : Invoker} {making : Making}

mutual

theorem records_evalExpr (hplain : ∀ v : Value, ¬ v.IsObject → P v)
    (hcalls : RecordsCalls P invoke making) (files : FileTree) {stack : Stack}
    (hstack : FrameHolds P stack) :
    (e : Expr) → Records P P (evalExpr files invoke stack e)
      (madeByExpr files invoke making stack e)
  | .int _ _ | .string _ _ | .bool _ _ | .null _ => by
    unfold evalExpr madeByExpr
    exact records_pure (hplain _ id)
  | .name name span => by
    unfold evalExpr madeByExpr
    exact records_lookup hstack name
  | .neg operand span => by
    unfold evalExpr madeByExpr
    exact (records_evalExpr hplain hcalls files hstack operand).bind_nothing fun v _ =>
      records_negate hplain v
  | .binary op lhs rhs span => by
    unfold evalExpr madeByExpr
    exact (records_evalExpr hplain hcalls files hstack lhs).bind fun a _ =>
      (records_evalExpr hplain hcalls files hstack rhs).bind_nothing fun b _ =>
        records_operate hplain stack op a b
  | .call name args span => by
    unfold evalExpr madeByExpr
    exact (records_evalExprs hplain hcalls files hstack args).bind fun values hvalues =>
      records_callMethod hplain hcalls stack name hvalues
  | .new name args span => by
    unfold evalExpr madeByExpr
    exact (records_evalExprs hplain hcalls files hstack args).bind fun values _ =>
      records_newInstance hplain files stack name values
  | .methodCall receiver method args span => by
    unfold evalExpr madeByExpr
    exact (records_evalExpr hplain hcalls files hstack receiver).bind fun value _ =>
      (records_evalExprs hplain hcalls files hstack args).bind fun values hvalues =>
        records_callOn hplain hcalls stack value method hvalues

theorem records_evalExprs (hplain : ∀ v : Value, ¬ v.IsObject → P v)
    (hcalls : RecordsCalls P invoke making) (files : FileTree) {stack : Stack}
    (hstack : FrameHolds P stack) :
    (es : List Expr) → Records P (fun vs => ∀ v ∈ vs, P v) (evalExprs files invoke stack es)
      (madeByExprs files invoke making stack es)
  | [] => by
    unfold evalExprs madeByExprs
    exact records_pure nofun
  | e :: es => by
    unfold evalExprs madeByExprs
    exact (records_evalExpr hplain hcalls files hstack e).bind fun v hv =>
      (records_evalExprs hplain hcalls files hstack es).bind_nothing fun vs hvs =>
        records_pure (List.forall_mem_cons.2 ⟨hv, hvs⟩)

end

/-- What a body leaves: the value of a `return` has the property, if one was reached. -/
theorem records_execBody (hplain : ∀ v : Value, ¬ v.IsObject → P v)
    (hcalls : RecordsCalls P invoke making) (files : FileTree) (below : Stack) {frame : Frame}
    (hframe : AllIn P frame.locals) (stmts : List Stmt) :
    Records P (fun result => ∀ v ∈ result, P v) (execBody files invoke below frame stmts)
      (madeByBody files invoke making below frame stmts) := by
  have heval {frame : Frame} (hframe : AllIn P frame.locals) (stmt : Stmt) (e : Expr) :
      Records P P (evalExpr files invoke (frame.atStmt stmt :: below) e)
        (madeByExpr files invoke making (frame.atStmt stmt :: below) e) :=
    records_evalExpr hplain hcalls files (by rintro _ ⟨⟩; exact hframe) e
  induction stmts generalizing frame with
  | nil => exact records_pure nofun
  | cons stmt stmts ih =>
    unfold execBody madeByBody
    cases stmt with
    | var decl =>
      simp only
      cases decl.init with
      | none => exact ih (hframe.insert (hplain _ id) _)
      | some init =>
        exact (heval hframe _ init).bind fun v hv => ih (hframe.insert hv _)
    | ret value span line =>
      cases value with
      | none => exact records_pure (by rintro v ⟨⟩; exact hplain _ id)
      | some value =>
        simp only [map_eq_pure_bind]
        exact (heval hframe _ value).bind_nothing fun v hv =>
          records_pure (by rintro _ ⟨⟩; exact hv)
    | throw value span line =>
      exact (heval hframe _ value).bind_nothing fun v _ => records_throwValue _ v
    | expr value line => exact (heval hframe _ value).bind fun _ _ => ih hframe

end

theorem records_invokeWithin {P : Value → Prop} (hplain : ∀ v : Value, ¬ v.IsObject → P v)
    (files : FileTree) (room : Nat) :
    RecordsCalls P (invokeWithin files room) (madeByCall files room) := by
  -- The calls in a body have less room than the call of the body.
  induction room with
  | zero => exact fun stack call _ => records_raise _ _ _
  | succ room ih =>
    intro stack call hargs
    have hframe : AllIn P call.frame.locals := allIn_ofList_zip _ hargs
    refine (records_execBody hplain ih files stack hframe call.decl.body).bind_nothing
      fun result hresult => records_pure ?_
    cases result with
    | none => exact hplain _ id
    | some v => exact hresult v rfl

/-! ## The top level -/

theorem records_evalTop {P : Value → Prop} (hplain : ∀ v : Value, ¬ v.IsObject → P v)
    (files : FileTree) (snippet line : UInt32) (e : Expr) :
    Records P P (evalTop files snippet line e) (madeByTop files snippet line e) := by
  refine records_evalExpr hplain (records_invokeWithin hplain files _) files ?_ e
  rintro frame ⟨⟩
  exact allIn_empty

theorem records_throwTop {P : Value → Prop} (hplain : ∀ v : Value, ¬ v.IsObject → P v)
    (files : FileTree) (snippet line : UInt32) (e : Expr) :
    Records P P (throwTop files snippet line e) (madeByTop files snippet line e) :=
  (records_evalTop hplain files snippet line e).bind_nothing fun v _ => records_throwValue _ v

end ReplEngine.Language
