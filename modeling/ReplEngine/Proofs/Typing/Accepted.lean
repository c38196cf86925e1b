import ReplEngine.Proofs.Typing.Rules
set_option autoImplicit false

/-!
# Accepted code is well typed

What the checker accepts follows the typing rules.  Each part of the checker has one lemma that
says what its acceptance means; the expression as a whole is by induction on its syntax.
-/

namespace ReplEngine.Language

open Judge

theorem accepts_applySig {what : String} {sig : MethodSig} {args : List Ty} {span : Span}
    {type : Ty} :
    Accepts (applySig what sig args span) type ↔ sig.accepts args = true ∧ sig.returns = type := by
  refine (accepts_unless fun _ => keeps_pure _).trans ?_
  simp

namespace Context

variable {ctx : Context}

/-! ## Names and operators -/

theorem accepts_nameType {name : String} {span : Span} {type : Ty} :
    Accepts (ctx.nameType name span) type ↔
      ctx.scope.locals.get? name = some (type, true) ∨
        (ctx.scope.locals.get? name = none ∧ ctx.env.vars.get? name = some type) := by
  unfold nameType
  cases ctx.scope.locals.get? name with
  | some binding =>
    refine (accepts_unless fun _ => keeps_pure _).trans ?_
    obtain ⟨found, initialized⟩ := binding
    simp [and_comm]
  | none =>
    cases ctx.env.vars.get? name with
    | some found => simp
    | none => simp

theorem accepts_negType {operand type : Ty} {span : Span} (hknown : operand ≠ .unknown)
    (h : Accepts (negType operand span) type) : operand = .int ∧ type = .int := by
  unfold negType at h
  by_cases hint : operand = .int
  · rw [if_pos (Or.inl hint), accepts_pure] at h
    exact ⟨hint, h.symm⟩
  · rw [if_neg (by simp [hint, hknown])] at h
    exact absurd h accepts_reject

theorem accepts_binaryType {op : BinaryOp} {lhs rhs type : Ty} {span : Span}
    (hlhs : lhs ≠ .unknown) (hrhs : rhs ≠ .unknown)
    (h : Accepts (binaryType op lhs rhs span) type) :
    (lhs = .int ∧ rhs = .int ∧ type = .int) ∨
      (op = .add ∧ (lhs = .string ∨ rhs = .string) ∧ lhs ≠ .void ∧ rhs ≠ .void ∧
        type = .string) := by
  unfold binaryType at h
  rw [if_neg (by simp [hlhs, hrhs])] at h
  by_cases hvoid : lhs = .void ∨ rhs = .void
  · rw [if_pos hvoid] at h
    exact absurd h accepts_reject
  rw [if_neg hvoid] at h
  by_cases hint : lhs = .int ∧ rhs = .int
  · rw [if_pos hint, accepts_pure] at h
    exact Or.inl ⟨hint.1, hint.2, h.symm⟩
  rw [if_neg hint] at h
  by_cases hadd : op = .add ∧ (lhs = .string ∨ rhs = .string)
  · rw [if_pos hadd, accepts_pure] at h
    rw [not_or] at hvoid
    exact Or.inr ⟨hadd.1, hadd.2, hvoid.1, hvoid.2, h.symm⟩
  · rw [if_neg hadd] at h
    exact absurd h accepts_reject

/-! ## Calls -/

theorem accepts_printlnType {args : List Ty} {span : Span} {type : Ty}
    (h : Accepts (ctx.printlnType args span) type) :
    args.length ≤ 1 ∧ .void ∉ args ∧ type = .void := by
  unfold printlnType at h
  rcases args with _ | ⟨arg, _ | ⟨more, args⟩⟩
  · rw [accepts_pure] at h
    simp [h]
  · obtain ⟨hvoid, h⟩ := (accepts_unless fun _ => keeps_pure _).mp h
    rw [accepts_pure] at h
    exact ⟨Nat.le_refl 1, by simpa using Ne.symm hvoid, h.symm⟩
  · exact absurd h (not_accepts_report_bind fun _ => keeps_pure _)

theorem accepts_callType {name : String} {args : List Ty} {span : Span} {type : Ty}
    (h : Accepts (ctx.callType name args span) type) :
    (∃ sig, ctx.methodSig? name = some sig ∧ sig.accepts args = true ∧ sig.returns = type) ∨
      (ctx.methodSig? name = none ∧ name = "println" ∧ args.length ≤ 1 ∧ .void ∉ args ∧
        type = .void) := by
  unfold callType at h
  cases hsig : ctx.methodSig? name with
  | some sig =>
    rw [hsig] at h
    exact Or.inl ⟨sig, rfl, accepts_applySig.mp h⟩
  | none =>
    rw [hsig] at h
    simp only at h
    by_cases hname : name = "println"
    · rw [if_pos hname] at h
      exact Or.inr ⟨rfl, hname, accepts_printlnType h⟩
    · rw [if_neg hname] at h
      exact absurd h accepts_reject

theorem accepts_newType {name : String} {args : List Ty} {span : Span} {type : Ty}
    (h : Accepts (ctx.newType name args span) type) :
    ∃ qualified, ctx.resolveClass name = some qualified ∧ ctx.Constructs qualified args ∧
      type = .object qualified := by
  unfold newType at h
  cases hclass : ctx.resolveClass name with
  | none =>
    rw [hclass] at h
    exact absurd h accepts_reject
  | some qualified =>
    rw [hclass] at h
    refine ⟨qualified, rfl, ?_⟩
    unfold Constructs
    simp only at h
    cases hexception : ctx.exceptionType? (.object qualified) with
    | some exception =>
      rw [hexception] at h
      obtain ⟨hfits, h⟩ := (accepts_unless fun _ => keeps_pure _).mp h
      cases hshape : constructorShape? ctx.isThrowable args with
      | none => simp [hshape] at hfits
      | some shape => simp_all
    | none =>
      rw [hexception] at h
      simp only at h
      cases args with
      | nil =>
        rw [List.isEmpty_nil, if_pos rfl, accepts_pure] at h
        exact ⟨rfl, h.symm⟩
      | cons arg args =>
        rw [List.isEmpty_cons, if_neg (by simp), accepts_applySig] at h
        simp [MethodSig.accepts] at h

theorem accepts_methodCallType {receiver : Ty} {method : String} {args : List Ty} {span : Span}
    {type : Ty} (hknown : receiver ≠ .unknown)
    (h : Accepts (ctx.methodCallType receiver method args span) type) :
    ∃ sig, ctx.memberSig? receiver method = some sig ∧ receiver.isReference = true ∧
      receiver ≠ .null ∧ sig.accepts args = true ∧ sig.returns = type := by
  unfold methodCallType at h
  cases receiver with
  | unknown => exact absurd rfl hknown
  | string | object name =>
    simp only at h
    unfold memberSig?
    cases hsig : (ctx.declaredSig? _ method).or (ctx.builtinSig? _ method) with
    | some sig =>
      rw [hsig] at h
      exact ⟨sig, rfl, rfl, by simp, accepts_applySig.mp h⟩
    | none =>
      rw [hsig] at h
      exact absurd h accepts_reject
  | _ => exact absurd h accepts_reject

/-! ## Expressions -/

/-- The methods that need no declaration. -/
theorem builtinSig?_cases {receiver : Ty} {method : String} {sig : MethodSig}
    (h : ctx.builtinSig? receiver method = some sig) :
    (receiver = .string ∧ method = "length" ∧ sig = ⟨[], .int⟩) ∨
      (method = "toString" ∧ sig = ⟨[], .string⟩) ∨
      (method = "getMessage" ∧ (ctx.exceptionType? receiver).isSome = true ∧
        sig = ⟨[], .string⟩) := by
  unfold builtinSig? at h
  by_cases hlength : receiver = .string ∧ method = "length"
  · rw [if_pos hlength] at h
    cases h
    exact Or.inl ⟨hlength.1, hlength.2, rfl⟩
  rw [if_neg hlength] at h
  by_cases hshown : method = "toString"
  · rw [if_pos hshown] at h
    cases h
    exact Or.inr (Or.inl ⟨hshown, rfl⟩)
  rw [if_neg hshown] at h
  by_cases hmessage : method = "getMessage" ∧ (ctx.exceptionType? receiver).isSome
  · rw [if_pos hmessage] at h
    cases h
    exact Or.inr (Or.inr ⟨hmessage.1, hmessage.2, rfl⟩)
  · rw [if_neg hmessage] at h
    cases h

theorem Known.memberSig? (hknown : ctx.Known) {receiver : Ty} {method : String}
    {sig : MethodSig} (h : ctx.memberSig? receiver method = some sig) : sig.Known := by
  unfold Context.memberSig? at h
  rcases Option.or_eq_some_iff.mp h with hdeclared | ⟨-, hbuiltin⟩
  · cases receiver with
    | object name =>
      obtain ⟨classSig, hclass, hmethod⟩ := Option.bind_eq_some_iff.mp hdeclared
      exact hknown.classes hclass hmethod
    | _ => cases hdeclared
  · rcases builtinSig?_cases hbuiltin with ⟨-, -, rfl⟩ | ⟨-, rfl⟩ | ⟨-, -, rfl⟩
    · exact ⟨by simp, by simp⟩
    · exact ⟨by simp, by simp⟩
    · exact ⟨by simp, by simp⟩

/-- A well-typed expression has a type that can be named. -/
theorem HasType.known (hknown : ctx.Known) {e : Expr} {type : Ty} (h : ctx.HasType e type) :
    type ≠ .unknown := by
  cases h with
  | inner hlocal => exact hknown.locals hlocal
  | outer _ hvar => exact hknown.vars hvar
  | call _ hsig _ => exact (hknown.methods hsig).returns
  | methodCall _ _ _ _ hsig _ => exact (hknown.memberSig? hsig).returns
  | _ => simp

mutual

theorem hasType_of_accepts (hknown : ctx.Known) :
    (e : Expr) → {type : Ty} → Accepts (ctx.exprType e) type → ctx.HasType e type
  | .int _ _, _, h => by
    rw [exprType, accepts_pure] at h
    subst h
    exact .int
  | .string _ _, _, h => by
    rw [exprType, accepts_pure] at h
    subst h
    exact .string
  | .bool _ _, _, h => by
    rw [exprType, accepts_pure] at h
    subst h
    exact .bool
  | .null _, _, h => by
    rw [exprType, accepts_pure] at h
    subst h
    exact .null
  | .name name span, _, h => by
    rw [exprType, accepts_nameType] at h
    rcases h with hlocal | ⟨hlocal, hvar⟩
    · exact .inner hlocal
    · exact .outer hlocal hvar
  | .neg operand span, _, h => by
    rw [exprType, accepts_bind fun _ => negType_keeps _ _] at h
    obtain ⟨operandType, hoperand, h⟩ := h
    have htyped := hasType_of_accepts hknown operand hoperand
    obtain ⟨rfl, rfl⟩ := accepts_negType (htyped.known hknown) h
    exact .neg htyped
  | .binary op lhs rhs span, _, h => by
    rw [exprType, accepts_bind fun _ =>
      (ctx.exprType_keeps _).bind fun _ => binaryType_keeps _ _ _ _] at h
    obtain ⟨lhsType, hlhs, h⟩ := h
    rw [accepts_bind fun _ => binaryType_keeps _ _ _ _] at h
    obtain ⟨rhsType, hrhs, h⟩ := h
    have hl := hasType_of_accepts hknown lhs hlhs
    have hr := hasType_of_accepts hknown rhs hrhs
    rcases accepts_binaryType (hl.known hknown) (hr.known hknown) h with
      ⟨rfl, rfl, rfl⟩ | ⟨rfl, hstring, hlvoid, hrvoid, rfl⟩
    · exact .arithmetic hl hr
    · exact .concat hl hr hstring hlvoid hrvoid
  | .call name args span, _, h => by
    rw [exprType, accepts_bind fun _ => ctx.callType_keeps _ _ _] at h
    obtain ⟨types, htypes, h⟩ := h
    have hargs := haveTypes_of_accepts hknown args htypes
    rcases accepts_callType h with ⟨sig, hsig, haccepts, rfl⟩ | ⟨hsig, rfl, hone, hvoid, rfl⟩
    · exact .call hargs hsig haccepts
    · exact .println hargs hsig hone hvoid
  | .new name args span, _, h => by
    rw [exprType, accepts_bind fun _ => ctx.newType_keeps _ _ _] at h
    obtain ⟨types, htypes, h⟩ := h
    have hargs := haveTypes_of_accepts hknown args htypes
    obtain ⟨qualified, hclass, hfits, rfl⟩ := accepts_newType h
    exact .new hargs hclass hfits
  | .methodCall receiver method args span, _, h => by
    rw [exprType, accepts_bind fun _ =>
      (ctx.exprTypes_keeps _).bind fun _ => ctx.methodCallType_keeps _ _ _ _] at h
    obtain ⟨receiverType, hreceiver, h⟩ := h
    rw [accepts_bind fun _ => ctx.methodCallType_keeps _ _ _ _] at h
    obtain ⟨types, htypes, h⟩ := h
    have htyped := hasType_of_accepts hknown receiver hreceiver
    have hargs := haveTypes_of_accepts hknown args htypes
    obtain ⟨sig, hsig, hreference, hnull, haccepts, rfl⟩ :=
      accepts_methodCallType (htyped.known hknown) h
    exact .methodCall htyped hargs hreference hnull hsig haccepts

theorem haveTypes_of_accepts (hknown : ctx.Known) :
    (es : List Expr) → {types : List Ty} → Accepts (ctx.exprTypes es) types →
      ctx.HaveTypes es types
  | [], _, h => by
    rw [exprTypes, accepts_pure] at h
    subst h
    exact .nil
  | e :: es, _, h => by
    rw [exprTypes, accepts_bind fun _ =>
      (ctx.exprTypes_keeps _).bind fun _ => keeps_pure _] at h
    obtain ⟨type, htype, h⟩ := h
    rw [accepts_bind fun _ => keeps_pure _] at h
    obtain ⟨types, htypes, h⟩ := h
    rw [accepts_pure] at h
    subst h
    exact .cons (hasType_of_accepts hknown e htype) (haveTypes_of_accepts hknown es htypes)

end

/-! ## Declarations and statements -/

/-- Only `var` stands for a type that is not known yet. -/
theorem known_of_resolveType {type : TypeName} {span : Span} {resolved : Ty}
    (htype : type ≠ .infer) (h : Accepts (ctx.resolveType type span) resolved) :
    resolved ≠ .unknown := by
  unfold resolveType at h
  cases type with
  | infer => exact absurd rfl htype
  | named name =>
    simp only at h
    cases hclass : ctx.resolveClass name with
    | none =>
      rw [hclass] at h
      exact absurd h accepts_reject
    | some qualified =>
      rw [hclass, accepts_pure] at h
      simp [← h]
  | _ =>
    rw [accepts_pure] at h
    simp [← h]

theorem accepts_inferredType {decl : VarDecl} {init : Option Ty} {type : Ty}
    (h : Accepts (inferredType decl init) type) : init = some type ∧ type ≠ .void := by
  unfold inferredType inferredType.refused at h
  rcases init with _ | found
  · exact absurd h accepts_reject
  · cases found with
    | null => exact absurd h accepts_reject
    | void => exact absurd h accepts_reject
    | _ =>
      rw [accepts_pure] at h
      simp [← h]

theorem accepts_requireAssignable {source target : Ty} {span : Span} {u : Unit}
    (h : Accepts (requireAssignable source target span) u) : source.assignable target = true := by
  unfold requireAssignable at h
  by_cases hfits : source.assignable target = true
  · exact hfits
  · rw [if_pos (by simpa using hfits)] at h
    exact absurd h accepts_report

theorem assignable_self (type : Ty) : type.assignable type = true := by
  simp [Ty.assignable]

/-- A declaration that is accepted binds a variable that its initializer fits. -/
theorem declares_of_accepts (hknown : ctx.Known) {decl : VarDecl} {bound : Option Ty}
    (h : Accepts (ctx.varType decl) bound) :
    ∃ type, bound = some type ∧ ctx.Declares decl type := by
  rw [varType_eq, accepts_bind (ctx.boundType_keeps decl)] at h
  obtain ⟨initType, hinit, h⟩ := h
  have hsource {init : Expr} (hsome : decl.init = some init) :
      ∃ source, initType = some source ∧ ctx.HasType init source := by
    rw [hsome] at hinit
    obtain ⟨source, hsource, rfl⟩ := accepts_map.mp hinit
    exact ⟨source, rfl, hasType_of_accepts hknown init hsource⟩
  unfold boundType at h
  by_cases hinfer : decl.type = .infer
  · rw [if_pos hinfer, accepts_map] at h
    obtain ⟨type, htype, rfl⟩ := h
    obtain ⟨rfl, hvoid⟩ := accepts_inferredType htype
    cases hsome : decl.init with
    | none => simp [hsome] at hinit
    | some init =>
      obtain ⟨source, hsame, htyped⟩ := hsource hsome
      cases hsame
      refine ⟨type, rfl, hvoid, htyped.known hknown, ?_⟩
      intro other hother
      cases hsome.symm.trans hother
      exact ⟨type, htyped, assignable_self type⟩
  · rw [if_neg hinfer, accepts_bind (writtenType_keeps decl initType)] at h
    obtain ⟨declared, hdeclared, h⟩ := h
    have hdeclaredKnown := known_of_resolveType hinfer hdeclared
    unfold writtenType at h
    by_cases hvoid : declared = .void
    · rw [if_pos hvoid] at h
      exact absurd h (not_accepts_report_bind fun _ => keeps_pure _)
    rw [if_neg hvoid] at h
    cases hsome : decl.init with
    | none =>
      rw [hsome] at h
      refine ⟨declared, (accepts_pure.mp h).symm, hvoid, hdeclaredKnown, ?_⟩
      intro init hinit
      cases hsome.symm.trans hinit
    | some init =>
      obtain ⟨source, rfl, htyped⟩ := hsource hsome
      rw [hsome] at h
      simp only at h
      rw [accepts_bind fun _ => keeps_pure _] at h
      obtain ⟨_, hfits, h⟩ := h
      refine ⟨declared, (accepts_pure.mp h).symm, hvoid, hdeclaredKnown, ?_⟩
      intro other hother
      cases hsome.symm.trans hother
      exact ⟨source, htyped, accepts_requireAssignable hfits⟩

theorem accepts_bindLocal {name : String} {type : Ty} {initialized : Bool} {span : Span}
    {inner : Context} (h : Accepts (ctx.bindLocal name type initialized span) inner) :
    ctx.withLocal name type initialized = inner := by
  have h := ((accepts_unless fun _ => keeps_pure _).mp h).2
  exact accepts_pure.mp h

theorem returns_of_accepts (hknown : ctx.Known) {returns : Ty}
    (hreturns : ctx.scope.returns = some returns) (hreturnsKnown : returns ≠ .unknown)
    {value : Option Expr} {span : Span} {u : Unit}
    (h : Accepts (ctx.checkReturn value span) u) : ctx.Returns returns value := by
  unfold checkReturn at h
  simp only [hreturns, Option.getD_some] at h
  cases value with
  | none =>
    by_cases hvoid : returns = .void
    · exact hvoid
    · simp only [hvoid, hreturnsKnown, ne_eq, not_false_eq_true, and_self, if_true] at h
      exact absurd h accepts_report
  | some value =>
    simp only at h
    rw [accepts_bind fun _ => Keeps.ite (keeps_report _ _) (requireAssignable_keeps _ _ _)] at h
    obtain ⟨type, htype, h⟩ := h
    by_cases hvoid : returns = .void
    · rw [if_pos hvoid] at h
      exact absurd h accepts_report
    · rw [if_neg hvoid] at h
      exact ⟨hvoid, type, hasType_of_accepts hknown value htype, accepts_requireAssignable h⟩

theorem throws_of_accepts (hknown : ctx.Known) {value : Expr} {u : Unit}
    (h : Accepts (ctx.checkThrow value) u) :
    ∃ type, ctx.HasType value type ∧ ctx.isThrowable type = true := by
  unfold checkThrow at h
  rw [accepts_bind fun _ => Keeps.ite (keeps_report _ _) (keeps_pure _)] at h
  obtain ⟨type, htype, h⟩ := h
  refine ⟨type, hasType_of_accepts hknown value htype, ?_⟩
  by_cases hthrow : ctx.isThrowable type = true
  · exact hthrow
  · rw [if_pos (by simpa using hthrow)] at h
    exact absurd h accepts_report

/-! ## Bodies -/

theorem Known.withLocal (hknown : ctx.Known) (name : String) {type : Ty}
    (htype : type ≠ .unknown) (initialized : Bool) :
    (ctx.withLocal name type initialized).Known where
  locals {key binding} h := by
    rw [Context.withLocal, Table.get?_insert] at h
    by_cases hkey : key = name
    · rw [if_pos hkey] at h
      cases h
      exact htype
    · rw [if_neg hkey] at h
      exact hknown.locals h
  vars := hknown.vars
  methods := hknown.methods
  classes := hknown.classes

/-- Nothing is accepted behind a `return` or `throw`. -/
theorem nil_of_exited {stmts : List Stmt} {leaves : Bool}
    (h : Accepts (ctx.checkBody true stmts) leaves) : stmts = [] ∧ leaves = true := by
  cases stmts with
  | nil => exact ⟨rfl, (accepts_pure.mp h).symm⟩
  | cons stmt stmts =>
    unfold checkBody at h
    rw [if_pos rfl] at h
    exact absurd h (not_accepts_report_bind fun _ => keeps_pure _)

theorem bodyOk_of_accepts (hknown : ctx.Known) {returns : Ty}
    (hreturns : ctx.scope.returns = some returns) (hreturnsKnown : returns ≠ .unknown)
    {stmts : List Stmt} {leaves : Bool} (h : Accepts (ctx.checkBody false stmts) leaves) :
    BodyOk returns ctx stmts leaves := by
  induction stmts generalizing ctx with
  | nil =>
    cases accepts_pure.mp h
    exact .nil
  | cons stmt stmts ih =>
    unfold checkBody at h
    rw [if_neg (by simp), accepts_bind fun ctx => ctx.checkBody_keeps _ _] at h
    obtain ⟨inner, hstmt, hrest⟩ := h
    unfold checkStmt at hstmt
    cases stmt with
    | var decl =>
      obtain ⟨bound, hbound, hstmt⟩ := (accepts_bind (ctx.bindVar_keeps decl)).mp hstmt
      obtain ⟨type, rfl, hdeclares⟩ := declares_of_accepts hknown hbound
      cases accepts_bindLocal hstmt
      exact .var hdeclares (ih (hknown.withLocal _ hdeclares.known _) hreturns hrest)
    | ret value span line =>
      rw [accepts_bind fun _ => keeps_pure _] at hstmt
      obtain ⟨_, hvalue, -⟩ := hstmt
      obtain ⟨rfl, rfl⟩ := nil_of_exited hrest
      exact .ret (returns_of_accepts hknown hreturns hreturnsKnown hvalue)
    | throw value span line =>
      rw [accepts_bind fun _ => keeps_pure _] at hstmt
      obtain ⟨_, hvalue, -⟩ := hstmt
      obtain ⟨rfl, rfl⟩ := nil_of_exited hrest
      obtain ⟨type, htyped, hthrow⟩ := throws_of_accepts hknown hvalue
      exact .throw htyped hthrow
    | expr value line =>
      have hkeeps : Keeps (do let _ ← ctx.exprType value; pure ctx) :=
        (ctx.exprType_keeps value).bind fun _ => keeps_pure _
      have hvalue := ((accepts_unless fun _ => hkeeps).mp hstmt).2
      rw [accepts_bind fun _ => keeps_pure _] at hvalue
      obtain ⟨type, htype, hinner⟩ := hvalue
      cases accepts_pure.mp hinner
      exact .expr (hasType_of_accepts hknown value htype) (ih hknown hreturns hrest)

end Context

end ReplEngine.Language
