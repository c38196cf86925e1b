import Mathlib.Data.List.Forall2
import ReplEngine.Proofs.Typing.Members
set_option autoImplicit false

/-!
# The name of the wrapper class

The checker names the class around a unit in its messages and uses that name for nothing else.  A
unit that is checked under another name is accepted as before, or refused with the same reports but
for the name in them (`check_renamed`).
-/

namespace ReplEngine

/-- Reports that are the same but for the name of the wrapper class. -/
inductive Diag.Renamed (wrapper wrapper' : String) : Diag → Diag → Prop where
  | same (d : Diag) : Renamed wrapper wrapper' d d
  | renamed (front back : String) (span : Span) :
      Renamed wrapper wrapper' ⟨front ++ wrapper ++ back, span⟩ ⟨front ++ wrapper' ++ back, span⟩

/-- Messages with the name at the end. -/
theorem Diag.renamed_end (wrapper wrapper' front : String) (span : Span) :
    Diag.Renamed wrapper wrapper' ⟨front ++ wrapper, span⟩ ⟨front ++ wrapper', span⟩ := by
  have h : Diag.Renamed wrapper wrapper' _ _ := .renamed front "" span
  rwa [String.append_empty, String.append_empty] at h

namespace Language

namespace Judge

variable {α β : Type} {wrapper wrapper' : String} {post : α → α → Prop} {next : β → β → Prop}

/-- Two checks add the same reports, but for the name of the wrapper class, and their answers are
as expected. -/
def Renames (wrapper wrapper' : String) (post : α → α → Prop) (j k : Judge α) : Prop :=
  ∀ ds es, List.Forall₂ (Diag.Renamed wrapper wrapper') ds es →
    post (j.run ds).1 (k.run es).1 ∧
      List.Forall₂ (Diag.Renamed wrapper wrapper') (j.run ds).2 (k.run es).2

theorem renames_pure {a b : α} (h : post a b) :
    Renames wrapper wrapper' post (pure a) (pure b) :=
  fun _ _ hds => ⟨h, hds⟩

theorem renames_report_of {message message' : String} {span : Span}
    (h : Diag.Renamed wrapper wrapper' ⟨message, span⟩ ⟨message', span⟩) :
    Renames wrapper wrapper' Eq (report message span) (report message' span) :=
  fun _ _ hds => ⟨rfl, List.rel_append hds (.cons h .nil)⟩

theorem renames_report (message : String) (span : Span) :
    Renames wrapper wrapper' Eq (report message span) (report message span) :=
  renames_report_of (.same ⟨message, span⟩)

theorem Renames.bind {j k : Judge α} {f g : α → Judge β} (h : Renames wrapper wrapper' post j k)
    (hf : ∀ a b, post a b → Renames wrapper wrapper' next (f a) (g b)) :
    Renames wrapper wrapper' next (j >>= f) (k >>= g) := by
  intro ds es hds
  obtain ⟨hpost, hreports⟩ := h ds es hds
  exact hf _ _ hpost _ _ hreports

/-- The first parts give the same answer. -/
theorem Renames.andThen {j k : Judge α} {f g : α → Judge β} (h : Renames wrapper wrapper' Eq j k)
    (hf : ∀ a, Renames wrapper wrapper' next (f a) (g a)) :
    Renames wrapper wrapper' next (j >>= f) (k >>= g) :=
  h.bind fun a _ heq => heq ▸ hf a

theorem Renames.map {j k : Judge α} (h : Renames wrapper wrapper' Eq j k) (f : α → β) :
    Renames wrapper wrapper' Eq (f <$> j) (f <$> k) := by
  rw [map_eq_pure_bind, map_eq_pure_bind]
  exact h.andThen fun a => renames_pure rfl

theorem Renames.ite {c : Prop} [Decidable c] {j j' k k' : Judge α}
    (h : Renames wrapper wrapper' post j j') (h' : Renames wrapper wrapper' post k k') :
    Renames wrapper wrapper' post (if c then j else k) (if c then j' else k') := by
  by_cases hc : c
  · rwa [if_pos hc, if_pos hc]
  · rwa [if_neg hc, if_neg hc]

theorem renames_reject_of {message message' : String} {span : Span}
    (h : Diag.Renamed wrapper wrapper' ⟨message, span⟩ ⟨message', span⟩) :
    Renames wrapper wrapper' Eq (reject message span) (reject message' span) :=
  (renames_report_of h).andThen fun _ => renames_pure rfl

theorem renames_reject (message : String) (span : Span) :
    Renames wrapper wrapper' Eq (reject message span) (reject message span) :=
  renames_reject_of (.same ⟨message, span⟩)

end Judge

open Judge

/-! ## Parts that do not name the class -/

section

variable {wrapper wrapper' : String}

theorem applySig_renamed (what : String) (sig : MethodSig) (args : List Ty) (span : Span) :
    Renames wrapper wrapper' Eq (applySig what sig args span) (applySig what sig args span) :=
  Renames.ite ((renames_report _ _).andThen fun _ => renames_pure rfl) (renames_pure rfl)

theorem negType_renamed (operand : Ty) (span : Span) :
    Renames wrapper wrapper' Eq (Context.negType operand span) (Context.negType operand span) :=
  Renames.ite (renames_pure rfl) (renames_reject _ _)

theorem binaryType_renamed (op : BinaryOp) (lhs rhs : Ty) (span : Span) :
    Renames wrapper wrapper' Eq (Context.binaryType op lhs rhs span)
      (Context.binaryType op lhs rhs span) := by
  unfold Context.binaryType
  apply Renames.ite (renames_pure rfl)
  apply Renames.ite (renames_reject _ _)
  apply Renames.ite (renames_pure rfl)
  exact Renames.ite (renames_pure rfl) (renames_reject _ _)

theorem requireAssignable_renamed (source target : Ty) (span : Span) :
    Renames wrapper wrapper' Eq (Context.requireAssignable source target span)
      (Context.requireAssignable source target span) :=
  Renames.ite (renames_report _ _) (renames_pure rfl)

theorem inferredType_renamed (decl : VarDecl) (init : Option Ty) :
    Renames wrapper wrapper' Eq (Context.inferredType decl init)
      (Context.inferredType decl init) := by
  unfold Context.inferredType Context.inferredType.refused
  rcases init with _ | type
  · exact renames_reject _ _
  · cases type with
    | null => exact renames_reject _ _
    | void => exact renames_reject _ _
    | _ => exact renames_pure rfl

theorem writtenType_renamed (decl : VarDecl) (initType : Option Ty) (declared : Ty) :
    Renames wrapper wrapper' Eq (Context.writtenType decl initType declared)
      (Context.writtenType decl initType declared) := by
  unfold Context.writtenType
  apply Renames.ite ((renames_report _ _).andThen fun _ => renames_pure rfl)
  cases decl.init with
  | none => exact renames_pure rfl
  | some e =>
    cases initType with
    | none => exact renames_pure rfl
    | some type => exact (requireAssignable_renamed _ _ _).andThen fun _ => renames_pure rfl

end

/-! ## Parts that name it -/

namespace Context

/-- The context under another name of the wrapper class. -/
def withWrapper (ctx : Context) (wrapper : String) : Context := { ctx with wrapper := wrapper }

variable (ctx : Context) (wrapper : String)

/-- The answers of two checks are one context under two names. -/
def UnderNames (wrapper wrapper' : String) (c d : Context) : Prop :=
  c.wrapper = wrapper ∧ d = c.withWrapper wrapper'

/-- A message about a name that nothing declares. -/
theorem unknownSymbol_renamed (symbol : String) (span : Span) :
    Diag.Renamed ctx.wrapper wrapper ⟨ctx.unknownSymbol symbol, span⟩
      ⟨(ctx.withWrapper wrapper).unknownSymbol symbol, span⟩ := by
  have hmessage (c : Context) : c.unknownSymbol symbol =
      "cannot find symbol\n  symbol:   " ++ symbol ++ "\n  location: class " ++ c.wrapper := by
    unfold unknownSymbol
    simp only [toString]
  rw [hmessage, hmessage]
  exact Diag.renamed_end ctx.wrapper wrapper _ span

theorem rejectUnknown_renamed (symbol : String) (span : Span) :
    Renames ctx.wrapper wrapper Eq (reject (ctx.unknownSymbol symbol) span)
      (reject ((ctx.withWrapper wrapper).unknownSymbol symbol) span) :=
  renames_reject_of (ctx.unknownSymbol_renamed wrapper symbol span)

theorem resolveType_renamed (type : TypeName) (span : Span) :
    Renames ctx.wrapper wrapper Eq (ctx.resolveType type span)
      ((ctx.withWrapper wrapper).resolveType type span) := by
  cases type with
  | named name =>
    unfold resolveType
    simp only [show (ctx.withWrapper wrapper).resolveClass name = ctx.resolveClass name from rfl]
    cases ctx.resolveClass name with
    | none => exact ctx.rejectUnknown_renamed wrapper _ _
    | some qualified => exact renames_pure rfl
  | _ => exact renames_pure rfl

theorem nameType_renamed (name : String) (span : Span) :
    Renames ctx.wrapper wrapper Eq (ctx.nameType name span)
      ((ctx.withWrapper wrapper).nameType name span) := by
  unfold nameType
  simp only [show (ctx.withWrapper wrapper).scope = ctx.scope from rfl,
    show (ctx.withWrapper wrapper).env = ctx.env from rfl]
  cases ctx.scope.locals.get? name with
  | some binding =>
    exact Renames.ite ((renames_report _ _).andThen fun _ => renames_pure rfl) (renames_pure rfl)
  | none =>
    cases ctx.env.vars.get? name with
    | some type => exact renames_pure rfl
    | none => exact ctx.rejectUnknown_renamed wrapper _ _

theorem printlnType_renamed (args : List Ty) (span : Span) :
    Renames ctx.wrapper wrapper Eq (ctx.printlnType args span)
      ((ctx.withWrapper wrapper).printlnType args span) := by
  unfold printlnType
  rcases args with _ | ⟨arg, _ | ⟨more, args⟩⟩
  · exact renames_pure rfl
  · exact Renames.ite ((renames_report _ _).andThen fun _ => renames_pure rfl) (renames_pure rfl)
  · exact (renames_report_of (ctx.unknownSymbol_renamed wrapper _ span)).andThen fun _ =>
      renames_pure rfl

/-- A call of a method with arguments that do not fit. -/
theorem applyMethod_renamed (name : String) (sig : MethodSig) (args : List Ty) (span : Span) :
    Renames ctx.wrapper wrapper Eq (applySig s!"method {name} in class {ctx.wrapper}" sig args span)
      (applySig s!"method {name} in class {wrapper}" sig args span) := by
  apply Renames.ite _ (renames_pure rfl)
  refine Renames.andThen (renames_report_of ?_) fun _ => renames_pure rfl
  simp only [toString]
  have h (back : String) : Diag.Renamed ctx.wrapper wrapper
      ⟨"method " ++ name ++ " in class " ++ ctx.wrapper ++ back, span⟩
      ⟨"method " ++ name ++ " in class " ++ wrapper ++ back, span⟩ :=
    .renamed _ back span
  simp only [String.append_assoc] at h ⊢
  exact h _

theorem callType_renamed (name : String) (args : List Ty) (span : Span) :
    Renames ctx.wrapper wrapper Eq (ctx.callType name args span)
      ((ctx.withWrapper wrapper).callType name args span) := by
  unfold callType
  simp only [show (ctx.withWrapper wrapper).methodSig? name = ctx.methodSig? name from rfl]
  cases ctx.methodSig? name with
  | some sig => exact ctx.applyMethod_renamed wrapper name sig args span
  | none =>
    exact Renames.ite (ctx.printlnType_renamed wrapper args span)
      (ctx.rejectUnknown_renamed wrapper _ _)

theorem newType_renamed (name : String) (args : List Ty) (span : Span) :
    Renames ctx.wrapper wrapper Eq (ctx.newType name args span)
      ((ctx.withWrapper wrapper).newType name args span) := by
  unfold newType
  simp only [show (ctx.withWrapper wrapper).resolveClass name = ctx.resolveClass name from rfl]
  cases ctx.resolveClass name with
  | none => exact ctx.rejectUnknown_renamed wrapper _ _
  | some qualified =>
    simp only [show (ctx.withWrapper wrapper).exceptionType? = ctx.exceptionType? from rfl,
      show (ctx.withWrapper wrapper).isThrowable = ctx.isThrowable from rfl]
    cases ctx.exceptionType? (.object qualified) with
    | some exception =>
      exact Renames.ite ((renames_report _ _).andThen fun _ => renames_pure rfl) (renames_pure rfl)
    | none => exact Renames.ite (renames_pure rfl) (applySig_renamed _ _ _ _)

theorem methodCallType_renamed (receiver : Ty) (method : String) (args : List Ty) (span : Span) :
    Renames ctx.wrapper wrapper Eq (ctx.methodCallType receiver method args span)
      ((ctx.withWrapper wrapper).methodCallType receiver method args span) := by
  unfold methodCallType
  cases receiver with
  | unknown => exact renames_pure rfl
  | string | object name =>
    simp only [show (ctx.withWrapper wrapper).declaredSig? = ctx.declaredSig? from rfl,
      show (ctx.withWrapper wrapper).builtinSig? = ctx.builtinSig? from rfl]
    cases (ctx.declaredSig? _ method).or (ctx.builtinSig? _ method) with
    | some sig => exact applySig_renamed _ _ _ _
    | none => exact renames_reject _ _
  | _ => exact renames_reject _ _

mutual

theorem exprType_renamed : (e : Expr) →
    Renames ctx.wrapper wrapper Eq (ctx.exprType e) ((ctx.withWrapper wrapper).exprType e)
  | .int _ _ | .string _ _ | .bool _ _ | .null _ => by
    unfold exprType
    exact renames_pure rfl
  | .name name span => by
    unfold exprType
    exact ctx.nameType_renamed wrapper name span
  | .neg operand span => by
    unfold exprType
    exact (exprType_renamed operand).andThen fun _ => negType_renamed _ _
  | .binary op lhs rhs span => by
    unfold exprType
    apply (exprType_renamed lhs).andThen
    intro lhsType
    exact (exprType_renamed rhs).andThen fun _ => binaryType_renamed _ _ _ _
  | .call name args span => by
    unfold exprType
    exact (exprTypes_renamed args).andThen fun _ => ctx.callType_renamed wrapper _ _ _
  | .new name args span => by
    unfold exprType
    exact (exprTypes_renamed args).andThen fun _ => ctx.newType_renamed wrapper _ _ _
  | .methodCall receiver method args span => by
    unfold exprType
    apply (exprType_renamed receiver).andThen
    intro receiverType
    exact (exprTypes_renamed args).andThen fun _ => ctx.methodCallType_renamed wrapper _ _ _ _

theorem exprTypes_renamed : (es : List Expr) →
    Renames ctx.wrapper wrapper Eq (ctx.exprTypes es) ((ctx.withWrapper wrapper).exprTypes es)
  | [] => by
    unfold exprTypes
    exact renames_pure rfl
  | e :: es => by
    unfold exprTypes
    apply (exprType_renamed e).andThen
    intro type
    exact (exprTypes_renamed es).andThen fun _ => renames_pure rfl

end

theorem boundType_renamed (decl : VarDecl) (initType : Option Ty) :
    Renames ctx.wrapper wrapper Eq (ctx.boundType decl initType)
      ((ctx.withWrapper wrapper).boundType decl initType) :=
  Renames.ite ((inferredType_renamed decl initType).map _)
    ((ctx.resolveType_renamed wrapper _ _).andThen fun _ => writtenType_renamed _ _ _)

theorem varType_renamed (decl : VarDecl) :
    Renames ctx.wrapper wrapper Eq (ctx.varType decl) ((ctx.withWrapper wrapper).varType decl) := by
  rw [varType_eq, varType_eq]
  refine Renames.andThen ?_ fun initType => ctx.boundType_renamed wrapper decl initType
  cases decl.init with
  | none => exact renames_pure rfl
  | some e => exact (ctx.exprType_renamed wrapper e).map some

/-! ## Statements and bodies -/

theorem bindLocal_renamed (name : String) (type : Ty) (initialized : Bool) (span : Span) :
    Renames ctx.wrapper wrapper (UnderNames ctx.wrapper wrapper)
      (ctx.bindLocal name type initialized span)
      ((ctx.withWrapper wrapper).bindLocal name type initialized span) :=
  Renames.ite ((renames_report _ _).andThen fun _ => renames_pure ⟨rfl, rfl⟩)
    (renames_pure ⟨rfl, rfl⟩)

theorem checkReturn_renamed (value : Option Expr) (span : Span) :
    Renames ctx.wrapper wrapper Eq (ctx.checkReturn value span)
      ((ctx.withWrapper wrapper).checkReturn value span) := by
  unfold checkReturn
  cases value with
  | none => exact Renames.ite (renames_report _ _) (renames_pure rfl)
  | some value =>
    apply (ctx.exprType_renamed wrapper value).andThen
    intro type
    exact Renames.ite (renames_report _ _) (requireAssignable_renamed _ _ _)

theorem checkThrow_renamed (value : Expr) :
    Renames ctx.wrapper wrapper Eq (ctx.checkThrow value)
      ((ctx.withWrapper wrapper).checkThrow value) := by
  unfold checkThrow
  apply (ctx.exprType_renamed wrapper value).andThen
  intro type
  exact Renames.ite (renames_report _ _) (renames_pure rfl)

theorem checkStmt_renamed (stmt : Stmt) :
    Renames ctx.wrapper wrapper (UnderNames ctx.wrapper wrapper) (ctx.checkStmt stmt)
      ((ctx.withWrapper wrapper).checkStmt stmt) := by
  have hsame : UnderNames ctx.wrapper wrapper ctx (ctx.withWrapper wrapper) := ⟨rfl, rfl⟩
  unfold checkStmt
  cases stmt with
  | var decl =>
    apply (ctx.varType_renamed wrapper decl).andThen
    intro bound
    cases bound with
    | none => exact renames_pure hsame
    | some type => exact ctx.bindLocal_renamed wrapper _ _ _ _
  | ret value span line =>
    exact (ctx.checkReturn_renamed wrapper _ _).andThen fun _ => renames_pure hsame
  | throw value span line =>
    exact (ctx.checkThrow_renamed wrapper _).andThen fun _ => renames_pure hsame
  | expr value line =>
    have hvalue : Renames ctx.wrapper wrapper (UnderNames ctx.wrapper wrapper)
        (do let _ ← ctx.exprType value; pure ctx)
        (do let _ ← (ctx.withWrapper wrapper).exprType value; pure (ctx.withWrapper wrapper)) :=
      (ctx.exprType_renamed wrapper value).andThen fun _ => renames_pure hsame
    exact Renames.ite ((renames_report _ _).andThen fun _ => hvalue) hvalue

theorem checkBody_renamed (exited : Bool) (stmts : List Stmt) :
    Renames ctx.wrapper wrapper Eq (ctx.checkBody exited stmts)
      ((ctx.withWrapper wrapper).checkBody exited stmts) := by
  induction stmts generalizing ctx exited with
  | nil => exact renames_pure rfl
  | cons stmt stmts ih =>
    unfold checkBody
    apply Renames.ite ((renames_report _ _).andThen fun _ => renames_pure rfl)
    apply (ctx.checkStmt_renamed wrapper stmt).bind
    rintro inner _ ⟨hwrapper, rfl⟩
    rw [← hwrapper]
    exact ih inner _

/-! ## Methods and classes -/

theorem paramTypes_renamed (span : Span) (params : List Param) :
    Renames ctx.wrapper wrapper Eq (ctx.paramTypes span params)
      ((ctx.withWrapper wrapper).paramTypes span params) := by
  induction params with
  | nil => exact renames_pure rfl
  | cons p ps ih =>
    unfold paramTypes
    apply (ctx.resolveType_renamed wrapper _ _).andThen
    intro type
    exact ih.andThen fun _ => renames_pure rfl

theorem methodSig_renamed (m : MethodDecl) :
    Renames ctx.wrapper wrapper Eq (ctx.methodSig m) ((ctx.withWrapper wrapper).methodSig m) := by
  unfold methodSig
  apply (ctx.paramTypes_renamed wrapper _ _).andThen
  intro params
  exact (ctx.resolveType_renamed wrapper _ _).andThen fun _ => renames_pure rfl

theorem bindParams_renamed (span : Span) (params : List (Param × Ty)) :
    Renames ctx.wrapper wrapper (UnderNames ctx.wrapper wrapper) (ctx.bindParams span params)
      ((ctx.withWrapper wrapper).bindParams span params) := by
  induction params generalizing ctx with
  | nil => exact renames_pure ⟨rfl, rfl⟩
  | cons p ps ih =>
    unfold bindParams
    apply (ctx.bindLocal_renamed wrapper _ _ _ _).bind
    rintro inner _ ⟨hwrapper, rfl⟩
    rw [← hwrapper]
    exact ih inner

theorem checkMethod_renamed (m : MethodDecl) (sig : MethodSig) :
    Renames ctx.wrapper wrapper Eq (ctx.checkMethod m sig)
      ((ctx.withWrapper wrapper).checkMethod m sig) := by
  unfold checkMethod
  refine (bindParams_renamed { ctx with scope := ⟨{}, some sig.returns, _⟩ } wrapper _ _).bind ?_
  rintro inner _ ⟨hwrapper, rfl⟩
  rw [← hwrapper]
  apply (inner.checkBody_renamed wrapper _ _).andThen
  intro exited
  exact Renames.ite (renames_report _ _) (renames_pure rfl)

theorem classMethods_renamed (className : String) (sigs : Table MethodSig)
    (methods : List MethodDecl) :
    Renames ctx.wrapper wrapper Eq (ctx.classMethods className sigs methods)
      ((ctx.withWrapper wrapper).classMethods className sigs methods) := by
  induction methods generalizing sigs with
  | nil => exact renames_pure rfl
  | cons m ms ih =>
    unfold classMethods
    apply (ctx.methodSig_renamed wrapper m).andThen
    intro sig
    exact Renames.ite ((renames_report _ _).andThen fun _ => ih _) (ih _)

theorem checkMethods_renamed (sigs : Table MethodSig) (methods : List MethodDecl) :
    Renames ctx.wrapper wrapper Eq (ctx.checkMethods sigs methods)
      ((ctx.withWrapper wrapper).checkMethods sigs methods) := by
  induction methods with
  | nil => exact renames_pure rfl
  | cons m ms ih =>
    unfold checkMethods
    cases sigs.get? m.name with
    | none => exact ih
    | some sig => exact (ctx.checkMethod_renamed wrapper m sig).andThen fun _ => ih

theorem checkClass_renamed (decl : ClassDecl) :
    Renames ctx.wrapper wrapper Eq (ctx.checkClass decl)
      ((ctx.withWrapper wrapper).checkClass decl) := by
  unfold checkClass
  refine (classMethods_renamed { ctx with pendingClass := some (decl.name, {}) } wrapper
    _ _ _).andThen fun sigs => ?_
  exact (checkMethods_renamed { ctx with pendingClass := some (decl.name, ⟨sigs⟩) } wrapper
    _ _).andThen fun _ => renames_pure rfl

/-! ## Units -/

theorem checkItem_renamed (item : Item) :
    Renames ctx.wrapper wrapper Eq (ctx.checkItem item)
      ((ctx.withWrapper wrapper).checkItem item) := by
  unfold checkItem
  match item with
  | .typeDecl decl => exact (ctx.checkClass_renamed wrapper decl).andThen fun _ => renames_pure rfl
  | .method decl =>
    apply (ctx.methodSig_renamed wrapper decl).andThen
    intro sig
    exact (checkMethod_renamed { ctx with pendingMethod := some (decl.name, sig) } wrapper
      _ _).andThen fun _ => renames_pure rfl
  | .stmt (.var decl) =>
    exact (ctx.varType_renamed wrapper decl).andThen fun _ => renames_pure rfl
  | .stmt (.expr value line) =>
    exact (ctx.exprType_renamed wrapper value).andThen fun _ => renames_pure rfl
  | .stmt (.throw value span line) =>
    exact (ctx.checkThrow_renamed wrapper value).andThen fun _ => renames_pure rfl
  | .stmt (.ret value span line) => exact (renames_report _ _).andThen fun _ => renames_pure rfl

end Context

/-- A unit is accepted under one name of the wrapper class as under another; reports differ in that
name. -/
theorem check_renamed (item : Item) (env : Env) (host : HostRegistry) (wrapper wrapper' : String) :
    (∃ checked, item.check env host wrapper = .ok checked ∧
      item.check env host wrapper' = .ok checked) ∨
    ∃ diags diags', item.check env host wrapper = .error diags ∧
      item.check env host wrapper' = .error diags' ∧
      List.Forall₂ (Diag.Renamed wrapper wrapper') diags diags' := by
  let ctx : Context := { env := env, host := host, wrapper := wrapper }
  let ctx' : Context := { env := env, host := host, wrapper := wrapper' }
  have hrenamed := ctx.checkItem_renamed wrapper' item [] [] .nil
  unfold Item.check
  simp only
  cases hbefore : (ctx.checkItem item).run [] with
  | mk answer diags =>
    cases hafter : (ctx'.checkItem item).run [] with
    | mk answer' diags' =>
      rw [hbefore, show ctx.withWrapper wrapper' = ctx' from rfl, hafter] at hrenamed
      obtain ⟨rfl, hdiags⟩ := hrenamed
      cases answer with
      | none => exact .inr ⟨_, _, rfl, rfl, hdiags⟩
      | some checked =>
        cases hdiags with
        | nil => exact .inl ⟨checked, rfl, rfl⟩
        | cons hfirst hrest => exact .inr ⟨_, _, rfl, rfl, .cons hfirst hrest⟩

end Language

end ReplEngine
