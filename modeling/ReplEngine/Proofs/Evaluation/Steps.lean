import ReplEngine.Proofs.Evaluation.Attempts
import ReplEngine.Proofs.Evaluation.Quiet
set_option autoImplicit false

/-!
# What single steps give

A step of evaluation calls nothing.  It throws no exception but one that it makes, with the active
frames for its trace; only `new` gives an exception, which it makes as well.
-/

namespace ReplEngine.Language

open Reading

variable {α β : Type} {A B : Descriptor → Prop} {stack : Stack}

/-! ## Tables of values -/

/-- Every value of the table has the property. -/
def AllIn (P : Value → Prop) (t : Table Value) : Prop :=
  ∀ ⦃name v⦄, t.get? name = some v → P v

theorem allIn_empty {P : Value → Prop} : AllIn P {} := fun _ _ h => by cases h

theorem AllIn.insert {P : Value → Prop} {t : Table Value} (h : AllIn P t) {v : Value} (hv : P v)
    (name : String) : AllIn P (t.insert name v) := by
  intro key v' hfound
  rw [Table.get?_insert] at hfound
  split at hfound
  · cases hfound
    exact hv
  · exact h hfound

theorem allIn_ofList_zip {P : Value → Prop} (names : List String) {values : List Value}
    (h : ∀ v ∈ values, P v) : AllIn P (Table.ofList (names.zip values)) := by
  have hfold (pairs : List (String × Value)) (hpairs : ∀ p ∈ pairs, P p.2) (t : Table Value)
      (ht : AllIn P t) : AllIn P (pairs.foldl (fun t p => t.insert p.1 p.2) t) := by
    induction pairs generalizing t with
    | nil => exact ht
    | cons p pairs ih =>
      exact ih (fun q hq => hpairs q (.tail _ hq)) _ (ht.insert (hpairs p (.head _)) p.1)
  exact hfold _ (fun p hp => h p.2 (List.of_mem_zip hp).2) _ allIn_empty

/-! ## Exceptions with a property -/

/-- The exception has the frames for its trace. -/
def TracedAt (stack : Stack) (d : Descriptor) : Prop :=
  d.link.frames = stack.map Frame.toStackFrame

/-- If the value is an exception, the exception has the property. -/
def Value.Only (A : Descriptor → Prop) (v : Value) : Prop := ∀ d, v = .exception d → A d

theorem only_null : Value.Only A .null := fun _ h => by cases h

theorem only_void : Value.Only A .void := fun _ h => by cases h

/-- The exception that stops an evaluation has the property, and its value another one. -/
def Accounted (B : Descriptor → Prop) (post : α → Prop) : Except Unwind α → Prop
  | .ok a => post a
  | .error (.throw d) => B d
  | .error (.fault _) => True

/-- However the step ends, what comes out has the properties. -/
def Gives (B : Descriptor → Prop) (post : α → Prop) (act : Eval α) : Prop :=
  ∀ w, Accounted B post (act.run w).1

section

variable {post : α → Prop} {next : β → Prop}

theorem gives_pure {a : α} (h : post a) : Gives B post (pure a) := fun _ => h

theorem gives_raiseFault (fault : Fault) : Gives B post (raiseFault fault : Eval α) :=
  fun _ => trivial

theorem gives_raise (className : String) (message : Option String) :
    Gives (TracedAt stack) post (raise stack className message : Eval α) := fun _ => rfl

theorem Gives.bind {act : Eval α} {f : α → Eval β} (h : Gives B post act)
    (hf : ∀ a, post a → Gives B next (f a)) : Gives B next (act >>= f) := by
  intro w
  have hact := h w
  cases hrun : act.run w with
  | mk result mid =>
    rw [hrun] at hact
    cases result with
    | ok a =>
      rw [run_bind_ok hrun]
      exact hf a hact mid
    | error unwind =>
      rw [run_bind_error hrun]
      cases unwind <;> exact hact

/-! ## Names and operators -/

theorem gives_throwValue {v : Value} (h : ∀ d, v ≠ .exception d) :
    Gives (TracedAt stack) post (throwValue stack v) := by
  cases v with
  | exception d => exact absurd rfl (h d)
  | null => exact gives_raise _ _
  | _ => exact gives_raiseFault _

end

/-- The value that is read. -/
theorem lookup_found {w : World} {name : String} {v : Value}
    (h : ((lookup stack name).run w).1 = .ok v) :
    (((stack.head?.map Frame.locals).getD {}).get? name).or (w.globals.vars.get? name) =
      some v := by
  unfold lookup at h
  rw [run_bind_ok (run_get w)] at h
  split at h
  · rename_i v' hv
    cases h
    exact hv
  · cases h

theorem gives_lookup (name : String) : Gives B (fun _ => True) (lookup stack name) := by
  intro w
  unfold lookup
  rw [run_bind_ok (run_get w)]
  split
  · trivial
  · trivial

theorem gives_negate (v : Value) : Gives B (Value.Only A) (negate v) := by
  cases v with
  | int n => exact gives_pure nofun
  | _ => exact gives_raiseFault _

theorem gives_arithmetic (op : BinaryOp) (a b : Int32) :
    Gives (TracedAt stack) (Value.Only A) (arithmetic stack op a b) := by
  unfold arithmetic
  cases op with
  | div | rem =>
    simp only
    split
    · exact gives_raise _ _
    · exact gives_pure nofun
  | _ => exact gives_pure nofun

theorem gives_operate (op : BinaryOp) (lhs rhs : Value) :
    Gives (TracedAt stack) (Value.Only A) (operate stack op lhs rhs) := by
  unfold operate
  split
  · exact gives_arithmetic _ _ _
  · cases op with
    | add => exact gives_pure nofun
    | _ => exact gives_raiseFault _

/-! ## Objects -/

theorem gives_findClass (files : FileTree) (name : String) :
    Gives B (fun _ => True) (findClass files name) := by
  have hloads (name : String) : Gives B (fun _ => True) (loadClass files name) := fun _ => trivial
  refine (hloads name).bind fun found _ => ?_
  cases found with
  | ok cls => exact gives_pure trivial
  | error e =>
    cases e with
    | classNotFound missing =>
      simp only
      split
      · exact gives_raiseFault _
      · refine (hloads _).bind fun found _ => ?_
        cases found with
        | ok cls => exact gives_pure trivial
        | error e => exact gives_raiseFault _
    | _ => exact gives_raiseFault _

theorem gives_newInstance (files : FileTree) (name : String) (args : List Value) :
    Gives B (Value.Only (TracedAt stack)) (newInstance files stack name args) := by
  refine (gives_findClass files name).bind fun cls _ => ?_
  cases cls.body.exceptionType? with
  | some type =>
    refine gives_pure fun d hd => ?_
    cases hd
    rfl
  | none =>
    have hcounts : Gives B (fun _ => True) freshIdentity := fun _ => trivial
    exact hcounts.bind fun _ _ => gives_pure nofun

/-! ## Calls of what has no body -/

theorem quiet_callUnstored (name : String) (args : List Value) :
    Quiet (callUnstored name args) := by
  unfold callUnstored
  split
  · exact (moves_println motion_retains _).bind motion_retains fun _ => moves_pure motion_retains _
  · exact moves_raiseFault motion_retains _

theorem gives_callUnstored (name : String) (args : List Value) :
    Gives B (Value.Only A) (callUnstored name args) := by
  unfold callUnstored
  split
  · have hprints (text : String) : Gives B (fun _ => True) (println text) := fun _ => trivial
    exact (hprints _).bind fun _ _ => gives_pure nofun
  · exact gives_raiseFault _

theorem gives_builtinMethod (receiver : Value) (method : String) :
    Gives B (Value.Only A) (builtinMethod receiver method) := by
  unfold builtinMethod
  split
  · rename_i d
    cases d.link.message with
    | none => exact gives_pure nofun
    | some message => exact gives_pure nofun
  · exact gives_pure nofun
  · exact gives_pure nofun
  · exact gives_raiseFault _

theorem quiet_callUndeclared (stack : Stack) (receiver : Value) (method : String) :
    Quiet (callUndeclared stack receiver method) := by
  cases receiver with
  | null => exact moves_raise motion_retains _ _ _
  | _ => exact moves_builtinMethod motion_retains _ _

theorem gives_callUndeclared (receiver : Value) (method : String) :
    Gives (TracedAt stack) (Value.Only A) (callUndeclared stack receiver method) := by
  cases receiver with
  | null => exact gives_raise _ _
  | _ => exact gives_builtinMethod _ _

/-! ## Calls of what has a body -/

theorem storedCall?_eq_some {w : World} {name : String} {args : List Value} {call : Invocation}
    (h : storedCall? w name args = some call) :
    ∃ m, w.globals.methods.get? name = some m ∧
      call = ⟨wrapperClass m.snippet, m.snippet, m.decl, args⟩ := by
  obtain ⟨m, hm, rfl⟩ := Option.map_eq_some_iff.mp h
  exact ⟨m, hm, rfl⟩

theorem declaredCall?_eq_some {receiver : Value} {method : String} {args : List Value}
    {call : Invocation} (h : declaredCall? receiver method args = some call) :
    ∃ cls file decl, declaredMethod? cls method = some (file, decl) ∧
      call = ⟨file.name, file.snippet, decl, args⟩ := by
  cases receiver with
  | object cls identity =>
    obtain ⟨⟨file, decl⟩, hdecl, rfl⟩ := Option.map_eq_some_iff.mp h
    exact ⟨cls, file, decl, hdecl, rfl⟩
  | _ => cases h

end ReplEngine.Language
