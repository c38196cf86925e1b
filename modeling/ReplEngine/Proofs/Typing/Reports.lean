import ReplEngine.Language.Typing
import ReplEngine.Proofs.Syntax.Spans
set_option autoImplicit false

/-!
# Reports stay

The checker adds to its reports and never takes one back.  So a check that ends without reports
had none at any point, and it is accepted exactly when each of its parts is.

What the checker adds is about spans of the unit: each part of it reports the spans of what it
looks at (`Adds`), and so no check points outside of its unit (`span_mem_of_check_error`).
-/

namespace ReplEngine.Language

namespace Judge

variable {α β : Type}

/-- The check only adds to the reports that were made before it. -/
def Keeps (j : Judge α) : Prop := ∀ ds, ∃ new, (j.run ds).2 = ds ++ new

/-- The check finds nothing wrong, and this is its answer. -/
def Accepts (j : Judge α) (a : α) : Prop := j.run [] = (a, [])

/-- The check only adds reports, and only about spans that `P` admits. -/
def Adds (P : Span → Prop) (j : Judge α) : Prop :=
  ∀ ds, ∃ new, (j.run ds).2 = ds ++ new ∧ ∀ d ∈ new, P d.span

/-! ## Checks that add reports -/

section

variable {P : Span → Prop}

theorem adds_pure (a : α) : Adds P (pure a : Judge α) :=
  fun ds => ⟨[], (ds.append_nil).symm, nofun⟩

theorem adds_report (message : String) {span : Span} (h : P span) :
    Adds P (report message span) :=
  fun _ => ⟨[⟨message, span⟩], rfl, by simpa using h⟩

theorem Adds.bind {j : Judge α} {f : α → Judge β} (hj : Adds P j) (hf : ∀ a, Adds P (f a)) :
    Adds P (j >>= f) := by
  intro ds
  obtain ⟨first, hfirst, hfirsts⟩ := hj ds
  obtain ⟨second, hsecond, hseconds⟩ := hf (j.run ds).1 (j.run ds).2
  refine ⟨first ++ second, ?_, List.forall_mem_append.mpr ⟨hfirsts, hseconds⟩⟩
  rw [← List.append_assoc, ← hfirst, ← hsecond]
  rfl

theorem Adds.map {j : Judge α} (hj : Adds P j) (f : α → β) : Adds P (f <$> j) := by
  rw [map_eq_pure_bind]
  exact hj.bind fun a => adds_pure (f a)

theorem adds_reject (message : String) {span : Span} (h : P span) :
    Adds P (reject message span) :=
  (adds_report message h).bind fun _ => adds_pure _

theorem Adds.ite {c : Prop} [Decidable c] {j k : Judge α} (hj : Adds P j) (hk : Adds P k) :
    Adds P (if c then j else k) := by
  by_cases hc : c
  · rwa [if_pos hc]
  · rwa [if_neg hc]

end

/-! ## Checks that keep reports -/

theorem keeps_iff_adds {j : Judge α} : Keeps j ↔ Adds (fun _ => True) j := by
  simp [Keeps, Adds]

theorem keeps_pure (a : α) : Keeps (pure a : Judge α) := keeps_iff_adds.mpr (adds_pure a)

theorem keeps_report (message : String) (span : Span) : Keeps (report message span) :=
  keeps_iff_adds.mpr (adds_report message trivial)

theorem Keeps.bind {j : Judge α} {f : α → Judge β} (hj : Keeps j) (hf : ∀ a, Keeps (f a)) :
    Keeps (j >>= f) :=
  keeps_iff_adds.mpr ((keeps_iff_adds.mp hj).bind fun a => keeps_iff_adds.mp (hf a))

theorem Keeps.ite {c : Prop} [Decidable c] {j k : Judge α} (hj : Keeps j) (hk : Keeps k) :
    Keeps (if c then j else k) :=
  keeps_iff_adds.mpr (.ite (keeps_iff_adds.mp hj) (keeps_iff_adds.mp hk))

/-- What is left of reports that had others before them. -/
theorem Keeps.nil {j : Judge α} (hj : Keeps j) {ds : List Diag} (h : (j.run ds).2 = []) :
    ds = [] := by
  obtain ⟨new, hnew⟩ := hj ds
  rw [h] at hnew
  exact (List.append_eq_nil_iff.mp hnew.symm).1

/-! ## Accepted checks -/

@[simp] theorem accepts_pure {a b : α} : Accepts (pure a) b ↔ a = b := by
  show (a, ([] : List Diag)) = (b, []) ↔ a = b
  simp

@[simp] theorem accepts_report {message : String} {span : Span} {u : Unit} :
    ¬ Accepts (report message span) u := by
  show ¬ ((), [Diag.mk message span]) = (u, [])
  simp

/-- A sequence is accepted when its parts are, one behind the other. -/
theorem accepts_bind {j : Judge α} {f : α → Judge β} (hf : ∀ a, Keeps (f a)) {b : β} :
    Accepts (j >>= f) b ↔ ∃ a, Accepts j a ∧ Accepts (f a) b := by
  constructor
  · intro h
    -- Reports of the first part would still be there at the end.
    have hrun : (f (j.run []).1).run (j.run []).2 = (b, []) := h
    have hnil : (j.run []).2 = [] := (hf _).nil (by rw [hrun])
    refine ⟨(j.run []).1, Prod.ext rfl hnil, ?_⟩
    unfold Accepts
    rw [← hrun, hnil]
  · intro ⟨a, ha, hb⟩
    show (f (j.run []).1).run (j.run []).2 = (b, [])
    have hj : j.run [] = (a, []) := ha
    rw [hj]
    exact hb

theorem accepts_map {j : Judge α} {f : α → β} {b : β} :
    Accepts (f <$> j) b ↔ ∃ a, Accepts j a ∧ f a = b := by
  rw [map_eq_pure_bind, accepts_bind fun a => keeps_pure (f a)]
  simp only [accepts_pure]

@[simp] theorem accepts_reject {message : String} {span : Span} {type : Ty} :
    ¬ Accepts (reject message span) type := by
  unfold reject
  rw [accepts_bind fun _ => keeps_pure _]
  simp

/-- Nothing behind a report is accepted. -/
theorem not_accepts_report_bind {message : String} {span : Span} {f : Unit → Judge β}
    (hf : ∀ u, Keeps (f u)) {b : β} : ¬ Accepts (report message span >>= f) b := by
  rw [accepts_bind hf]
  simp

/-- A check that begins with a conditional report is accepted when the condition fails and the
rest is accepted. -/
theorem accepts_unless {c : Prop} [Decidable c] {message : String} {span : Span}
    {f : Unit → Judge β} (hf : ∀ u, Keeps (f u)) {b : β} :
    Accepts (if c then report message span >>= f else f ()) b ↔ ¬ c ∧ Accepts (f ()) b := by
  by_cases hc : c
  · simp [hc, not_accepts_report_bind hf]
  · simp [hc]

end Judge

open Judge

/-! ## Every part of the checker adds reports -/

theorem applySig_adds {P : Span → Prop} (what : String) (sig : MethodSig) (args : List Ty)
    {span : Span} (h : P span) : Adds P (applySig what sig args span) :=
  Adds.ite ((adds_report _ h).bind fun _ => adds_pure _) (adds_pure _)

namespace Context

variable (ctx : Context)

section Adds

variable {P : Span → Prop} {span : Span}

theorem resolveType_adds (type : TypeName) (h : P span) : Adds P (ctx.resolveType type span) := by
  cases type with
  | named name =>
    unfold resolveType
    simp only
    cases ctx.resolveClass name with
    | none => exact adds_reject _ h
    | some qualified => exact adds_pure _
  | _ => exact adds_pure _

theorem nameType_adds (name : String) (h : P span) : Adds P (ctx.nameType name span) := by
  unfold nameType
  cases ctx.scope.locals.get? name with
  | some binding => exact Adds.ite ((adds_report _ h).bind fun _ => adds_pure _) (adds_pure _)
  | none =>
    cases ctx.env.vars.get? name with
    | some type => exact adds_pure _
    | none => exact adds_reject _ h

theorem negType_adds (operand : Ty) (h : P span) : Adds P (negType operand span) :=
  Adds.ite (adds_pure _) (adds_reject _ h)

theorem binaryType_adds (op : BinaryOp) (lhs rhs : Ty) (h : P span) :
    Adds P (binaryType op lhs rhs span) := by
  unfold binaryType
  apply Adds.ite (adds_pure _)
  apply Adds.ite (adds_reject _ h)
  apply Adds.ite (adds_pure _)
  exact Adds.ite (adds_pure _) (adds_reject _ h)

theorem printlnType_adds (args : List Ty) (h : P span) : Adds P (ctx.printlnType args span) := by
  unfold printlnType
  rcases args with _ | ⟨arg, _ | ⟨more, args⟩⟩
  · exact adds_pure _
  · exact Adds.ite ((adds_report _ h).bind fun _ => adds_pure _) (adds_pure _)
  · exact (adds_report _ h).bind fun _ => adds_pure _

theorem callType_adds (name : String) (args : List Ty) (h : P span) :
    Adds P (ctx.callType name args span) := by
  unfold callType
  cases ctx.methodSig? name with
  | some sig => exact applySig_adds _ _ _ h
  | none => exact Adds.ite (ctx.printlnType_adds args h) (adds_reject _ h)

theorem newType_adds (name : String) (args : List Ty) (h : P span) :
    Adds P (ctx.newType name args span) := by
  unfold newType
  cases ctx.resolveClass name with
  | none => exact adds_reject _ h
  | some qualified =>
    simp only
    cases ctx.exceptionType? (.object qualified) with
    | some exception =>
      exact Adds.ite ((adds_report _ h).bind fun _ => adds_pure _) (adds_pure _)
    | none => exact Adds.ite (adds_pure _) (applySig_adds _ _ _ h)

theorem methodCallType_adds (receiver : Ty) (method : String) (args : List Ty) (h : P span) :
    Adds P (ctx.methodCallType receiver method args span) := by
  unfold methodCallType
  cases receiver with
  | unknown => exact adds_pure _
  | string | object name =>
    simp only
    cases (ctx.declaredSig? _ method).or (ctx.builtinSig? _ method) with
    | some sig => exact applySig_adds _ _ _ h
    | none => exact adds_reject _ h
  | _ => exact adds_reject _ h

mutual

/-- An expression is reported by its own span and those inside it. -/
theorem exprType_adds : (e : Expr) → (∀ s ∈ e.spans, P s) → Adds P (ctx.exprType e)
  | .int _ _, _ | .string _ _, _ | .bool _ _, _ | .null _, _ => by
    unfold exprType
    exact adds_pure _
  | .name name span, h => by
    unfold exprType
    exact ctx.nameType_adds name (h _ List.mem_cons_self)
  | .neg operand span, h => by
    unfold exprType
    obtain ⟨hown, hoperand⟩ := List.forall_mem_cons.mp h
    exact (exprType_adds operand hoperand).bind fun _ => negType_adds _ hown
  | .binary op lhs rhs span, h => by
    unfold exprType
    obtain ⟨hown, hinside⟩ := List.forall_mem_cons.mp h
    rw [Expr.inside, List.map_append] at hinside
    obtain ⟨hlhs, hrhs⟩ := List.forall_mem_append.mp hinside
    apply (exprType_adds lhs hlhs).bind
    intro lhsType
    exact (exprType_adds rhs hrhs).bind fun _ => binaryType_adds _ _ _ hown
  | .call name args span, h => by
    unfold exprType
    obtain ⟨hown, hargs⟩ := List.forall_mem_cons.mp h
    exact (exprTypes_adds args hargs).bind fun _ => ctx.callType_adds _ _ hown
  | .new name args span, h => by
    unfold exprType
    obtain ⟨hown, hargs⟩ := List.forall_mem_cons.mp h
    exact (exprTypes_adds args hargs).bind fun _ => ctx.newType_adds _ _ hown
  | .methodCall receiver method args span, h => by
    unfold exprType
    obtain ⟨hown, hinside⟩ := List.forall_mem_cons.mp h
    rw [Expr.inside, List.map_append] at hinside
    obtain ⟨hreceiver, hargs⟩ := List.forall_mem_append.mp hinside
    apply (exprType_adds receiver hreceiver).bind
    intro receiverType
    exact (exprTypes_adds args hargs).bind fun _ => ctx.methodCallType_adds _ _ _ hown

theorem exprTypes_adds : (es : List Expr) →
    (∀ s ∈ (Expr.insideAll es).map Expr.span, P s) → Adds P (ctx.exprTypes es)
  | [], _ => by
    unfold exprTypes
    exact adds_pure _
  | e :: es, h => by
    unfold exprTypes
    rw [Expr.insideAll, List.map_append] at h
    obtain ⟨he, hes⟩ := List.forall_mem_append.mp h
    apply (exprType_adds e he).bind
    intro type
    exact (exprTypes_adds es hes).bind fun _ => adds_pure _

end

theorem requireAssignable_adds (source target : Ty) (h : P span) :
    Adds P (requireAssignable source target span) :=
  Adds.ite (adds_report _ h) (adds_pure _)

theorem inferredType_adds {decl : VarDecl} (init : Option Ty) (h : P decl.span) :
    Adds P (inferredType decl init) := by
  unfold inferredType inferredType.refused
  rcases init with _ | type
  · exact adds_reject _ h
  · cases type with
    | null => exact adds_reject _ h
    | void => exact adds_reject _ h
    | _ => exact adds_pure _

/-- The type that a declaration binds where a type is written. -/
def writtenType (decl : VarDecl) (initType : Option Ty) (declared : Ty) : Judge (Option Ty) := do
  if declared = .void then
    report "'void' type not allowed here" decl.span
    pure none
  else
    match decl.init, initType with
    | some init, some type => requireAssignable type declared init.span
    | _, _ => pure ()
    pure (some declared)

/-- The type that a declaration binds, given the type of its initializer. -/
def boundType (decl : VarDecl) (initType : Option Ty) : Judge (Option Ty) :=
  if decl.type = .infer then some <$> inferredType decl initType
  else ctx.resolveType decl.type decl.span >>= writtenType decl initType

/-- A declaration is checked in two steps: its initializer, then what it binds. -/
theorem varType_eq (decl : VarDecl) :
    ctx.varType decl =
      (match decl.init with
      | some init => some <$> ctx.exprType init
      | none => pure none) >>= ctx.boundType decl := by
  obtain ⟨type, name, init, span, line⟩ := decl
  cases init with
  | none => rfl
  | some e => rfl

theorem writtenType_adds {decl : VarDecl} (initType : Option Ty) (declared : Ty)
    (h : P decl.span) (hinit : ∀ e ∈ decl.init, P e.span) :
    Adds P (writtenType decl initType declared) := by
  unfold writtenType
  apply Adds.ite ((adds_report _ h).bind fun _ => adds_pure _)
  cases hvalue : decl.init with
  | none => exact adds_pure _
  | some e =>
    cases initType with
    | none => exact adds_pure _
    | some type => exact (requireAssignable_adds _ _ (hinit e hvalue)).bind fun _ => adds_pure _

theorem boundType_adds {decl : VarDecl} (initType : Option Ty) (h : P decl.span)
    (hinit : ∀ e ∈ decl.init, P e.span) : Adds P (ctx.boundType decl initType) :=
  Adds.ite ((inferredType_adds initType h).map _)
    ((ctx.resolveType_adds _ h).bind fun _ => writtenType_adds initType _ h hinit)

theorem varType_adds {decl : VarDecl} (h : P decl.span)
    (hinit : ∀ e ∈ decl.init, ∀ s ∈ e.spans, P s) : Adds P (ctx.varType decl) := by
  rw [varType_eq]
  refine Adds.bind ?_ fun initType =>
    ctx.boundType_adds initType h fun e he => hinit e he _ List.mem_cons_self
  cases hvalue : decl.init with
  | none => exact adds_pure _
  | some e => exact (ctx.exprType_adds e (hinit e hvalue)).map some

theorem bindLocal_adds (name : String) (type : Ty) (initialized : Bool) (h : P span) :
    Adds P (ctx.bindLocal name type initialized span) :=
  Adds.ite ((adds_report _ h).bind fun _ => adds_pure _) (adds_pure _)

theorem checkReturn_adds {value : Option Expr} (h : P span)
    (hvalue : ∀ e ∈ value, ∀ s ∈ e.spans, P s) : Adds P (ctx.checkReturn value span) := by
  unfold checkReturn
  cases value with
  | none => exact Adds.ite (adds_report _ h) (adds_pure _)
  | some value =>
    have hspans := hvalue value rfl
    have hown := hspans _ List.mem_cons_self
    apply (ctx.exprType_adds value hspans).bind
    intro type
    exact Adds.ite (adds_report _ hown) (requireAssignable_adds _ _ hown)

theorem checkThrow_adds {value : Expr} (h : ∀ s ∈ value.spans, P s) :
    Adds P (ctx.checkThrow value) := by
  unfold checkThrow
  apply (ctx.exprType_adds value h).bind
  intro type
  exact Adds.ite (adds_report _ (h _ List.mem_cons_self)) (adds_pure _)

theorem bindVar_adds {decl : VarDecl} (bound : Option Ty) (h : P decl.span) :
    Adds P (match bound with
      | some type => ctx.bindLocal decl.name type decl.init.isSome decl.span
      | none => pure ctx) := by
  cases bound with
  | none => exact adds_pure _
  | some type => exact ctx.bindLocal_adds _ _ _ h

/-- A statement is reported by its own span and those of its expression. -/
theorem checkStmt_adds {stmt : Stmt} (h : ∀ s ∈ stmt.spans, P s) :
    Adds P (ctx.checkStmt stmt) := by
  obtain ⟨hown, hvalue⟩ := Stmt.forall_mem_spans.mp h
  unfold checkStmt
  cases stmt with
  | var decl => exact (ctx.varType_adds hown hvalue).bind fun bound => ctx.bindVar_adds bound hown
  | ret value span line => exact (ctx.checkReturn_adds hown hvalue).bind fun _ => adds_pure _
  | throw value span line =>
    exact (ctx.checkThrow_adds (hvalue value rfl)).bind fun _ => adds_pure _
  | expr value line =>
    have hrest : Adds P (do let _ ← ctx.exprType value; pure ctx) :=
      (ctx.exprType_adds value (hvalue value rfl)).bind fun _ => adds_pure _
    exact Adds.ite ((adds_report _ hown).bind fun _ => hrest) hrest

theorem checkBody_adds (exited : Bool) {stmts : List Stmt}
    (h : ∀ stmt ∈ stmts, ∀ s ∈ stmt.spans, P s) : Adds P (ctx.checkBody exited stmts) := by
  induction stmts generalizing ctx exited with
  | nil => exact adds_pure _
  | cons stmt stmts ih =>
    obtain ⟨hfirst, hlater⟩ := List.forall_mem_cons.mp h
    unfold checkBody
    apply Adds.ite ((adds_report _ (hfirst _ List.mem_cons_self)).bind fun _ => adds_pure _)
    exact (ctx.checkStmt_adds hfirst).bind fun ctx => ih ctx _ hlater

theorem paramTypes_adds (params : List Param) (h : P span) :
    Adds P (ctx.paramTypes span params) := by
  induction params with
  | nil => exact adds_pure _
  | cons p ps ih =>
    unfold paramTypes
    apply (ctx.resolveType_adds _ h).bind
    intro type
    exact ih.bind fun _ => adds_pure _

theorem methodSig_adds {m : MethodDecl} (h : P m.nameSpan) : Adds P (ctx.methodSig m) := by
  unfold methodSig
  apply (ctx.paramTypes_adds _ h).bind
  intro params
  exact (ctx.resolveType_adds _ h).bind fun _ => adds_pure _

theorem bindParams_adds (params : List (Param × Ty)) (h : P span) :
    Adds P (ctx.bindParams span params) := by
  induction params generalizing ctx with
  | nil => exact adds_pure _
  | cons p ps ih =>
    unfold bindParams
    exact (ctx.bindLocal_adds _ _ _ h).bind fun ctx => ih ctx

/-- A method is reported by the span of its name and those of its statements. -/
theorem checkMethod_adds {m : MethodDecl} (sig : MethodSig) (h : P m.nameSpan)
    (hbody : ∀ stmt ∈ m.body, ∀ s ∈ stmt.spans, P s) : Adds P (ctx.checkMethod m sig) := by
  unfold checkMethod
  apply (bindParams_adds _ _ h).bind
  intro inner
  apply (inner.checkBody_adds _ hbody).bind
  intro exited
  exact Adds.ite (adds_report _ h) (adds_pure _)

theorem classMethods_adds (className : String) (sigs : Table MethodSig)
    {methods : List MethodDecl} (h : ∀ m ∈ methods, P m.nameSpan) :
    Adds P (ctx.classMethods className sigs methods) := by
  induction methods generalizing sigs with
  | nil => exact adds_pure _
  | cons m ms ih =>
    obtain ⟨hfirst, hlater⟩ := List.forall_mem_cons.mp h
    unfold classMethods
    apply (ctx.methodSig_adds hfirst).bind
    intro sig
    exact Adds.ite ((adds_report _ hfirst).bind fun _ => ih _ hlater) (ih _ hlater)

theorem checkMethods_adds (sigs : Table MethodSig) {methods : List MethodDecl}
    (h : ∀ m ∈ methods, P m.nameSpan)
    (hbody : ∀ m ∈ methods, ∀ stmt ∈ m.body, ∀ s ∈ stmt.spans, P s) :
    Adds P (ctx.checkMethods sigs methods) := by
  induction methods with
  | nil => exact adds_pure _
  | cons m ms ih =>
    obtain ⟨hfirst, hlater⟩ := List.forall_mem_cons.mp h
    obtain ⟨hfirstBody, hlaterBody⟩ := List.forall_mem_cons.mp hbody
    unfold checkMethods
    cases sigs.get? m.name with
    | none => exact ih hlater hlaterBody
    | some sig =>
      exact (ctx.checkMethod_adds sig hfirst hfirstBody).bind fun _ => ih hlater hlaterBody

/-- A unit is reported by its own spans only. -/
theorem checkItem_adds {item : Item} (h : ∀ s ∈ item.spans, P s) :
    Adds P (ctx.checkItem item) := by
  obtain ⟨hnames, hstatements⟩ := List.forall_mem_append.mp h
  rw [List.forall_mem_flatMap] at hstatements
  unfold checkItem
  match item with
  | .typeDecl decl =>
    obtain ⟨-, hmethods⟩ := List.forall_mem_cons.mp hnames
    rw [List.forall_mem_map] at hmethods
    refine Adds.bind ?_ fun _ => adds_pure _
    unfold checkClass
    apply (classMethods_adds _ _ _ hmethods).bind
    intro sigs
    refine (checkMethods_adds _ _ hmethods ?_).bind fun _ => adds_pure _
    intro m hm stmt hstmt
    exact hstatements stmt (List.mem_flatMap_of_mem hm hstmt)
  | .method decl =>
    have hname := hnames _ List.mem_cons_self
    apply (ctx.methodSig_adds hname).bind
    intro sig
    exact (checkMethod_adds _ sig hname hstatements).bind fun _ => adds_pure _
  | .stmt stmt =>
    obtain ⟨hown, hvalue⟩ := Stmt.forall_mem_spans.mp (hstatements stmt List.mem_cons_self)
    match stmt with
    | .var decl => exact (ctx.varType_adds hown hvalue).bind fun _ => adds_pure _
    | .expr value line =>
      exact (ctx.exprType_adds value (hvalue value rfl)).bind fun _ => adds_pure _
    | .throw value span line =>
      exact (ctx.checkThrow_adds (hvalue value rfl)).bind fun _ => adds_pure _
    | .ret value span line => exact (adds_report _ hown).bind fun _ => adds_pure _

end Adds

/-! ## Every part of the checker keeps reports -/

theorem resolveType_keeps (type : TypeName) (span : Span) : Keeps (ctx.resolveType type span) :=
  keeps_iff_adds.mpr (ctx.resolveType_adds type trivial)

theorem negType_keeps (operand : Ty) (span : Span) : Keeps (negType operand span) :=
  keeps_iff_adds.mpr (negType_adds operand trivial)

theorem binaryType_keeps (op : BinaryOp) (lhs rhs : Ty) (span : Span) :
    Keeps (binaryType op lhs rhs span) :=
  keeps_iff_adds.mpr (binaryType_adds op lhs rhs trivial)

theorem callType_keeps (name : String) (args : List Ty) (span : Span) :
    Keeps (ctx.callType name args span) :=
  keeps_iff_adds.mpr (ctx.callType_adds name args trivial)

theorem newType_keeps (name : String) (args : List Ty) (span : Span) :
    Keeps (ctx.newType name args span) :=
  keeps_iff_adds.mpr (ctx.newType_adds name args trivial)

theorem methodCallType_keeps (receiver : Ty) (method : String) (args : List Ty) (span : Span) :
    Keeps (ctx.methodCallType receiver method args span) :=
  keeps_iff_adds.mpr (ctx.methodCallType_adds receiver method args trivial)

theorem exprType_keeps (e : Expr) : Keeps (ctx.exprType e) :=
  keeps_iff_adds.mpr (ctx.exprType_adds e fun _ _ => trivial)

theorem exprTypes_keeps (es : List Expr) : Keeps (ctx.exprTypes es) :=
  keeps_iff_adds.mpr (ctx.exprTypes_adds es fun _ _ => trivial)

theorem requireAssignable_keeps (source target : Ty) (span : Span) :
    Keeps (requireAssignable source target span) :=
  keeps_iff_adds.mpr (requireAssignable_adds source target trivial)

theorem writtenType_keeps (decl : VarDecl) (initType : Option Ty) (declared : Ty) :
    Keeps (writtenType decl initType declared) :=
  keeps_iff_adds.mpr (writtenType_adds initType declared trivial fun _ _ => trivial)

theorem boundType_keeps (decl : VarDecl) (initType : Option Ty) :
    Keeps (ctx.boundType decl initType) :=
  keeps_iff_adds.mpr (ctx.boundType_adds initType trivial fun _ _ => trivial)

theorem bindVar_keeps (decl : VarDecl) (bound : Option Ty) :
    Keeps (match bound with
      | some type => ctx.bindLocal decl.name type decl.init.isSome decl.span
      | none => pure ctx) :=
  keeps_iff_adds.mpr (ctx.bindVar_adds bound trivial)

theorem checkBody_keeps (exited : Bool) (stmts : List Stmt) :
    Keeps (ctx.checkBody exited stmts) :=
  keeps_iff_adds.mpr (ctx.checkBody_adds exited fun _ _ _ _ => trivial)

theorem paramTypes_keeps (span : Span) (params : List Param) :
    Keeps (ctx.paramTypes span params) :=
  keeps_iff_adds.mpr (ctx.paramTypes_adds params trivial)

theorem bindParams_keeps (span : Span) (params : List (Param × Ty)) :
    Keeps (ctx.bindParams span params) :=
  keeps_iff_adds.mpr (ctx.bindParams_adds params trivial)

theorem checkMethod_keeps (m : MethodDecl) (sig : MethodSig) : Keeps (ctx.checkMethod m sig) :=
  keeps_iff_adds.mpr (ctx.checkMethod_adds sig trivial fun _ _ _ _ => trivial)

theorem classMethods_keeps (className : String) (sigs : Table MethodSig)
    (methods : List MethodDecl) : Keeps (ctx.classMethods className sigs methods) :=
  keeps_iff_adds.mpr (ctx.classMethods_adds className sigs fun _ _ => trivial)

theorem checkMethods_keeps (sigs : Table MethodSig) (methods : List MethodDecl) :
    Keeps (ctx.checkMethods sigs methods) :=
  keeps_iff_adds.mpr (ctx.checkMethods_adds sigs (fun _ _ => trivial) fun _ _ _ _ _ _ => trivial)

/-! ## Nothing is refused without a report -/

theorem not_accepts_writtenType_none {decl : VarDecl} {initType : Option Ty} {declared : Ty} :
    ¬ Accepts (writtenType decl initType declared) none := by
  unfold writtenType
  by_cases hvoid : declared = .void
  · rw [if_pos hvoid]
    exact not_accepts_report_bind fun _ => keeps_pure _
  · rw [if_neg hvoid]
    obtain ⟨type, name, init, span, line⟩ := decl
    cases init <;> cases initType <;> simp [accepts_map]

theorem not_accepts_varType_none {decl : VarDecl} : ¬ Accepts (ctx.varType decl) none := by
  rw [varType_eq, accepts_bind (ctx.boundType_keeps decl)]
  rintro ⟨initType, -, hbound⟩
  unfold boundType at hbound
  split at hbound
  · obtain ⟨type, -, hnone⟩ := accepts_map.mp hbound
    cases hnone
  · obtain ⟨declared, -, hnone⟩ :=
      (accepts_bind (writtenType_keeps decl initType)).mp hbound
    exact not_accepts_writtenType_none hnone

/-- A unit that is nothing at all has been reported. -/
theorem not_accepts_checkItem_none {item : Item} : ¬ Accepts (ctx.checkItem item) none := by
  intro h
  unfold checkItem at h
  match item with
  | .typeDecl decl =>
    obtain ⟨sig, -, hnone⟩ := (accepts_bind fun _ => keeps_pure _).mp h
    cases accepts_pure.mp hnone
  | .method decl =>
    obtain ⟨sig, -, h⟩ :=
      (accepts_bind fun _ => (checkMethod_keeps _ _ _).bind fun _ => keeps_pure _).mp h
    obtain ⟨_, -, hnone⟩ := (accepts_bind fun _ => keeps_pure _).mp h
    cases accepts_pure.mp hnone
  | .stmt (.var decl) =>
    obtain ⟨bound, hbound, hnone⟩ := (accepts_bind fun _ => keeps_pure _).mp h
    rw [accepts_pure, Option.map_eq_none_iff] at hnone
    subst hnone
    exact ctx.not_accepts_varType_none hbound
  | .stmt (.expr value line) =>
    obtain ⟨type, -, hnone⟩ := (accepts_bind fun _ => keeps_pure _).mp h
    cases accepts_pure.mp hnone
  | .stmt (.throw value span line) =>
    obtain ⟨_, -, hnone⟩ := (accepts_bind fun _ => keeps_pure _).mp h
    cases accepts_pure.mp hnone
  | .stmt (.ret value span line) =>
    exact not_accepts_report_bind (fun _ => keeps_pure _) h

end Context

/-- A unit that is refused comes with at least one report. -/
theorem ne_nil_of_check_error {item : Item} {env : Env} {host : HostRegistry} {wrapper : String}
    {diags : List Diag} (h : item.check env host wrapper = .error diags) : diags ≠ [] := by
  rintro rfl
  unfold Item.check at h
  simp only at h
  split at h
  · cases h
  · rename_i answer reports haccepted hrun
    cases h
    cases answer with
    | none => exact Context.not_accepts_checkItem_none _ hrun
    | some checked => exact haccepted checked rfl rfl

/-- What is reported of a unit is about spans in it. -/
theorem span_mem_of_check_error {item : Item} {env : Env} {host : HostRegistry} {wrapper : String}
    {diags : List Diag} (h : item.check env host wrapper = .error diags) :
    ∀ d ∈ diags, d.span ∈ item.spans := by
  unfold Item.check at h
  simp only at h
  split at h
  · cases h
  · rename_i answer reports _ hrun
    cases h
    obtain ⟨new, hnew, hspans⟩ := Context.checkItem_adds _ (fun s (hs : s ∈ item.spans) => hs) []
    rw [hrun, List.nil_append] at hnew
    obtain rfl : diags = new := hnew
    exact hspans

end ReplEngine.Language
