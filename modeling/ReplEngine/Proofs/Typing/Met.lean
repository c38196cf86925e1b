import ReplEngine.Proofs.Syntax.Units
import ReplEngine.Proofs.Typing.Uses
set_option autoImplicit false

/-!
# The types that a check meets

A check gives types to the expressions of a unit, to their parts and to its locals, and it takes
types from signatures: those of the methods that are called, and that of the method around.
Arguments, values and operands are fitted against these types and no others.  Where nothing that is
declared has an unknown type, an accepted unit meets an unknown one if and only if it writes `var`
for what a method returns: the checker resolves that to `Ty.unknown` without a report.  Parameters
are never written with `var`, which the reader refuses.
-/

namespace ReplEngine.Language

open Judge

/-- What a check answers, whatever it reports. -/
def Judge.answer {α : Type} (j : Judge α) : α := (j.run []).1

theorem Judge.Accepts.answer {α : Type} {j : Judge α} {a : α} (h : Accepts j a) : j.answer = a :=
  congrArg Prod.fst h

/-! ## Types met -/

/-- The type is that of a parameter, or is returned. -/
def MethodSig.Mentions (sig : MethodSig) (type : Ty) : Prop :=
  type ∈ sig.params ∨ type = sig.returns

theorem MethodSig.known_iff {sig : MethodSig} : sig.Known ↔ ¬ sig.Mentions .unknown := by
  unfold MethodSig.Mentions
  constructor
  · rintro h (hparam | hreturns)
    · exact h.params _ hparam rfl
    · exact h.returns hreturns.symm
  · intro h
    rw [not_or] at h
    exact ⟨fun hreturns => h.2 hreturns.symm, fun type htype heq => h.1 (heq ▸ htype)⟩

namespace Context

/-- The types that the check of an expression meets: those of the expression and its parts, and
those that arguments are fitted against. -/
inductive ExprMeets (ctx : Context) : Expr → Ty → Prop where
  | given {e : Expr} : ExprMeets ctx e (ctx.exprType e).answer
  | operand {operand : Expr} {span : Span} {type : Ty} (h : ExprMeets ctx operand type) :
      ExprMeets ctx (.neg operand span) type
  | lhs {op : BinaryOp} {lhs rhs : Expr} {span : Span} {type : Ty} (h : ExprMeets ctx lhs type) :
      ExprMeets ctx (.binary op lhs rhs span) type
  | rhs {op : BinaryOp} {lhs rhs : Expr} {span : Span} {type : Ty} (h : ExprMeets ctx rhs type) :
      ExprMeets ctx (.binary op lhs rhs span) type
  | callArg {name : String} {args : List Expr} {span : Span} {arg : Expr} {type : Ty}
      (harg : arg ∈ args) (h : ExprMeets ctx arg type) : ExprMeets ctx (.call name args span) type
  | callSig {name : String} {args : List Expr} {span : Span} {sig : MethodSig} {type : Ty}
      (hsig : ctx.methodSig? name = some sig) (h : sig.Mentions type) :
      ExprMeets ctx (.call name args span) type
  | newArg {name : String} {args : List Expr} {span : Span} {arg : Expr} {type : Ty}
      (harg : arg ∈ args) (h : ExprMeets ctx arg type) : ExprMeets ctx (.new name args span) type
  | receiver {receiver : Expr} {method : String} {args : List Expr} {span : Span} {type : Ty}
      (h : ExprMeets ctx receiver type) : ExprMeets ctx (.methodCall receiver method args span) type
  | memberArg {receiver : Expr} {method : String} {args : List Expr} {span : Span} {arg : Expr}
      {type : Ty} (harg : arg ∈ args) (h : ExprMeets ctx arg type) :
      ExprMeets ctx (.methodCall receiver method args span) type
  | memberSig {receiver : Expr} {method : String} {args : List Expr} {span : Span}
      {sig : MethodSig} {type : Ty}
      (hsig : ctx.memberSig? (ctx.exprType receiver).answer method = some sig)
      (h : sig.Mentions type) : ExprMeets ctx (.methodCall receiver method args span) type

/-- The types that the check of a statement meets; those of a `return` include the one that the
method around returns. -/
inductive StmtMeets (ctx : Context) : Stmt → Ty → Prop where
  | varInit {decl : VarDecl} {init : Expr} {type : Ty} (hinit : decl.init = some init)
      (h : ctx.ExprMeets init type) : StmtMeets ctx (.var decl) type
  | varType {decl : VarDecl} {type : Ty} (h : (ctx.varType decl).answer = some type) :
      StmtMeets ctx (.var decl) type
  | ret {value : Expr} {span : Span} {line : UInt32} {type : Ty} (h : ctx.ExprMeets value type) :
      StmtMeets ctx (.ret (some value) span line) type
  | returns {value : Option Expr} {span : Span} {line : UInt32} {type : Ty}
      (h : ctx.scope.returns = some type) : StmtMeets ctx (.ret value span line) type
  | throw {value : Expr} {span : Span} {line : UInt32} {type : Ty} (h : ctx.ExprMeets value type) :
      StmtMeets ctx (.throw value span line) type
  | expr {value : Expr} {line : UInt32} {type : Ty} (h : ctx.ExprMeets value type) :
      StmtMeets ctx (.expr value line) type

/-- The types that the check of statements meets, each in the context behind the ones in front of
it. -/
inductive BodyMeets : Context → List Stmt → Ty → Prop where
  | head {ctx : Context} {stmt : Stmt} {stmts : List Stmt} {type : Ty}
      (h : ctx.StmtMeets stmt type) : BodyMeets ctx (stmt :: stmts) type
  | tail {ctx : Context} {stmt : Stmt} {stmts : List Stmt} {type : Ty}
      (h : BodyMeets (ctx.checkStmt stmt).answer stmts type) : BodyMeets ctx (stmt :: stmts) type

/-- The types that the check of a method meets: those of its signature, which its parameters have
as locals, and those met in its body. -/
inductive MethodMeets (ctx : Context) (m : MethodDecl) (sig : MethodSig) : Ty → Prop where
  | sig {type : Ty} (h : sig.Mentions type) : MethodMeets ctx m sig type
  | body {type : Ty} (h : (ctx.inBody m sig).BodyMeets m.body type) : MethodMeets ctx m sig type

/-- The context of the methods of a class that is being declared. -/
def inClass (ctx : Context) (decl : ClassDecl) (sigs : Table MethodSig) : Context :=
  { ctx with pendingClass := some (decl.name, ⟨sigs⟩) }

/-- The signatures that the check of a class finds. -/
def sigsOf (ctx : Context) (decl : ClassDecl) : Table MethodSig :=
  ((ctx.inClass decl {}).classMethods decl.name {} decl.methods).answer

/-- The context of a method that is being declared at the top level. -/
def inMethod (ctx : Context) (decl : MethodDecl) (sig : MethodSig) : Context :=
  { ctx with pendingMethod := some (decl.name, sig) }

/-- The types that the check of a unit meets. -/
inductive ItemMeets (ctx : Context) : Item → Ty → Prop where
  | typeDecl {decl : ClassDecl} {m : MethodDecl} {sig : MethodSig} {type : Ty}
      (hm : m ∈ decl.methods) (hsig : (ctx.sigsOf decl).get? m.name = some sig)
      (h : (ctx.inClass decl (ctx.sigsOf decl)).MethodMeets m sig type) :
      ItemMeets ctx (.typeDecl decl) type
  | method {decl : MethodDecl} {type : Ty}
      (h : (ctx.inMethod decl (ctx.methodSig decl).answer).MethodMeets decl
        (ctx.methodSig decl).answer type) : ItemMeets ctx (.method decl) type
  | stmt {stmt : Stmt} {type : Ty} (h : ctx.StmtMeets stmt type) : ItemMeets ctx (.stmt stmt) type

variable {ctx : Context}

/-! ## Expressions -/

theorem accepts_of_mem {es : List Expr} {types : List Ty} (h : Accepts (ctx.exprTypes es) types)
    {e : Expr} (he : e ∈ es) : ∃ type, Accepts (ctx.exprType e) type := by
  induction es generalizing types with
  | nil => cases he
  | cons first es ih =>
    unfold exprTypes at h
    rw [accepts_bind fun _ => (exprTypes_keeps _ _).bind fun _ => keeps_pure _] at h
    obtain ⟨type, htype, h⟩ := h
    rw [accepts_bind fun _ => keeps_pure _] at h
    obtain ⟨later, hlater, -⟩ := h
    rcases List.mem_cons.mp he with rfl | he
    · exact ⟨type, htype⟩
    · exact ih hlater he

theorem known_of_accepts (hknown : ctx.Known) {e : Expr} {type : Ty}
    (h : Accepts (ctx.exprType e) type) : (ctx.exprType e).answer ≠ .unknown := by
  rw [h.answer]
  exact (hasType_of_accepts hknown e h).known hknown

/-- An accepted expression meets no unknown type. -/
theorem ExprMeets.known (hknown : ctx.Known) {e : Expr} {met : Ty} (h : ctx.ExprMeets e met)
    {type : Ty} (haccepts : Accepts (ctx.exprType e) type) : met ≠ .unknown := by
  have hmentions {sig : MethodSig} {met : Ty} (hsig : sig.Known) (h : sig.Mentions met) :
      met ≠ .unknown := by
    rintro rfl
    exact MethodSig.known_iff.mp hsig h
  induction h generalizing type with
  | given => exact known_of_accepts hknown haccepts
  | operand _ ih =>
    rw [exprType, accepts_bind fun _ => negType_keeps _ _] at haccepts
    obtain ⟨_, hoperand, -⟩ := haccepts
    exact ih hoperand
  | lhs _ ih =>
    rw [exprType, accepts_bind fun _ =>
      (exprType_keeps _ _).bind fun _ => binaryType_keeps _ _ _ _] at haccepts
    obtain ⟨_, hlhs, -⟩ := haccepts
    exact ih hlhs
  | rhs _ ih =>
    rw [exprType, accepts_bind fun _ =>
      (exprType_keeps _ _).bind fun _ => binaryType_keeps _ _ _ _] at haccepts
    obtain ⟨_, -, haccepts⟩ := haccepts
    rw [accepts_bind fun _ => binaryType_keeps _ _ _ _] at haccepts
    obtain ⟨_, hrhs, -⟩ := haccepts
    exact ih hrhs
  | callArg harg _ ih =>
    rw [exprType, accepts_bind fun _ => callType_keeps _ _ _ _] at haccepts
    obtain ⟨_, hargs, -⟩ := haccepts
    obtain ⟨_, harg⟩ := accepts_of_mem hargs harg
    exact ih harg
  | newArg harg _ ih =>
    rw [exprType, accepts_bind fun _ => newType_keeps _ _ _ _] at haccepts
    obtain ⟨_, hargs, -⟩ := haccepts
    obtain ⟨_, harg⟩ := accepts_of_mem hargs harg
    exact ih harg
  | receiver _ ih =>
    rw [exprType, accepts_bind fun _ =>
      (exprTypes_keeps _ _).bind fun _ => methodCallType_keeps _ _ _ _ _] at haccepts
    obtain ⟨_, hreceiver, -⟩ := haccepts
    exact ih hreceiver
  | memberArg harg _ ih =>
    rw [exprType, accepts_bind fun _ =>
      (exprTypes_keeps _ _).bind fun _ => methodCallType_keeps _ _ _ _ _] at haccepts
    obtain ⟨_, -, haccepts⟩ := haccepts
    rw [accepts_bind fun _ => methodCallType_keeps _ _ _ _ _] at haccepts
    obtain ⟨_, hargs, -⟩ := haccepts
    obtain ⟨_, harg⟩ := accepts_of_mem hargs harg
    exact ih harg
  | callSig hsig h => exact hmentions (hknown.methods hsig) h
  | memberSig hsig h => exact hmentions (hknown.memberSig? hsig) h

/-! ## Statements and bodies -/

theorem known_var (hknown : ctx.Known) {decl : VarDecl} {bound : Option Ty}
    (haccepts : Accepts (ctx.varType decl) bound) {met : Ty} (h : ctx.StmtMeets (.var decl) met) :
    met ≠ .unknown := by
  obtain ⟨type, rfl, hdeclares⟩ := declares_of_accepts hknown haccepts
  cases h with
  | varType h =>
    cases haccepts.answer.symm.trans h
    exact hdeclares.known
  | varInit hinit h =>
    rw [varType_eq, accepts_bind (ctx.boundType_keeps decl), hinit] at haccepts
    obtain ⟨_, hsome, -⟩ := haccepts
    obtain ⟨_, hinit, -⟩ := accepts_map.mp hsome
    exact h.known hknown hinit

theorem known_throw (hknown : ctx.Known) {value : Expr} {span : Span} {line : UInt32} {u : Unit}
    (haccepts : Accepts (ctx.checkThrow value) u) {met : Ty}
    (h : ctx.StmtMeets (.throw value span line) met) : met ≠ .unknown := by
  cases h with
  | throw h =>
    unfold checkThrow at haccepts
    rw [accepts_bind fun _ => Keeps.ite (keeps_report _ _) (keeps_pure _)] at haccepts
    obtain ⟨_, hvalue, -⟩ := haccepts
    exact h.known hknown hvalue

/-- An accepted statement meets no unknown type, and leaves no name with one. -/
theorem known_checkStmt (hknown : ctx.Known)
    (hreturns : ∀ {type}, ctx.scope.returns = some type → type ≠ .unknown) {stmt : Stmt}
    {inner : Context} (haccepts : Accepts (ctx.checkStmt stmt) inner) :
    (∀ {met}, ctx.StmtMeets stmt met → met ≠ .unknown) ∧ inner.Known ∧
      inner.scope.returns = ctx.scope.returns := by
  unfold checkStmt at haccepts
  cases stmt with
  | var decl =>
    obtain ⟨bound, hbound, haccepts⟩ := (accepts_bind (ctx.bindVar_keeps decl)).mp haccepts
    obtain ⟨type, rfl, hdeclares⟩ := declares_of_accepts hknown hbound
    cases accepts_bindLocal haccepts
    exact ⟨known_var hknown hbound, hknown.withLocal _ hdeclares.known _, rfl⟩
  | ret value span line =>
    obtain ⟨_, hvalue, haccepts⟩ := (accepts_bind fun _ => keeps_pure _).mp haccepts
    cases accepts_pure.mp haccepts
    refine ⟨fun hmet => ?_, hknown, rfl⟩
    cases hmet with
    | returns h => exact hreturns h
    | ret h =>
      unfold checkReturn at hvalue
      rw [accepts_bind fun _ => Keeps.ite (keeps_report _ _) (requireAssignable_keeps _ _ _)]
        at hvalue
      obtain ⟨_, hvalue, -⟩ := hvalue
      exact h.known hknown hvalue
  | throw value span line =>
    obtain ⟨_, hvalue, haccepts⟩ := (accepts_bind fun _ => keeps_pure _).mp haccepts
    cases accepts_pure.mp haccepts
    exact ⟨known_throw hknown hvalue, hknown, rfl⟩
  | expr value line =>
    have hkeeps : Keeps (do let _ ← ctx.exprType value; pure ctx) :=
      (ctx.exprType_keeps value).bind fun _ => keeps_pure _
    obtain ⟨_, hvalue, haccepts⟩ :=
      (accepts_bind fun _ => keeps_pure _).mp ((accepts_unless fun _ => hkeeps).mp haccepts).2
    cases accepts_pure.mp haccepts
    refine ⟨fun hmet => ?_, hknown, rfl⟩
    cases hmet with
    | expr h => exact h.known hknown hvalue

/-- An accepted body meets no unknown type. -/
theorem BodyMeets.known {stmts : List Stmt} {met : Ty} (h : ctx.BodyMeets stmts met)
    (hknown : ctx.Known) (hreturns : ∀ {type}, ctx.scope.returns = some type → type ≠ .unknown)
    {exited leaves : Bool} (haccepts : Accepts (ctx.checkBody exited stmts) leaves) :
    met ≠ .unknown := by
  induction stmts generalizing ctx exited with
  | nil => cases h
  | cons stmt stmts ih =>
    cases exited with
    | true => cases (nil_of_exited haccepts).1
    | false =>
      unfold checkBody at haccepts
      rw [if_neg (by simp), accepts_bind fun ctx => ctx.checkBody_keeps _ _] at haccepts
      obtain ⟨inner, hstmt, hrest⟩ := haccepts
      obtain ⟨hmet, hinner, hsame⟩ := known_checkStmt hknown hreturns hstmt
      cases h with
      | head h => exact hmet h
      | tail h =>
        rw [hstmt.answer] at h
        exact ih h hinner (fun hsome => hreturns (hsame ▸ hsome)) hrest

/-! ## Methods -/

theorem Known.inBody (hknown : ctx.Known) {m : MethodDecl} {sig : MethodSig} (hsig : sig.Known) :
    (ctx.inBody m sig).Known := by
  have houter : { ctx with scope := ⟨{}, some sig.returns,
      s!"method {m.name}({Ty.renderList sig.params})"⟩ }.Known :=
    ⟨nofun, hknown.vars, hknown.methods, hknown.classes⟩
  exact houter.withParams fun p hp => hsig.params p.2 (List.of_mem_zip hp).2

/-- An accepted method with a known signature meets no unknown type. -/
theorem MethodMeets.known {m : MethodDecl} {sig : MethodSig} {met : Ty}
    (h : ctx.MethodMeets m sig met) (hknown : ctx.Known) (hsig : sig.Known) {u : Unit}
    (haccepts : Accepts (ctx.checkMethod m sig) u) : met ≠ .unknown := by
  cases h with
  | sig h =>
    rintro rfl
    exact MethodSig.known_iff.mp hsig h
  | body h =>
    unfold checkMethod at haccepts
    rw [accepts_bind ?keeps] at haccepts
    case keeps =>
      intro inner
      exact (inner.checkBody_keeps _ _).bind fun _ => Keeps.ite (keeps_report _ _) (keeps_pure _)
    obtain ⟨inner, hinner, haccepts⟩ := haccepts
    rw [accepts_bind fun _ => Keeps.ite (keeps_report _ _) (keeps_pure _)] at haccepts
    obtain ⟨leaves, hbody, -⟩ := haccepts
    cases accepts_bindParams hinner
    refine h.known (hknown.inBody hsig) (fun hsome => ?_) hbody
    cases (withParams_returns _ _).symm.trans hsome
    exact hsig.returns

/-! ## Signatures -/

/-- Only `var` is resolved to the unknown type. -/
theorem unknown_resolveType {type : TypeName} {span : Span} {resolved : Ty}
    (h : Accepts (ctx.resolveType type span) resolved) :
    resolved = .unknown ↔ type = .infer := by
  constructor
  · intro hunknown
    exact Decidable.not_not.mp fun htype => known_of_resolveType htype h hunknown
  · rintro rfl
    exact (accepts_pure.mp h).symm

theorem known_paramTypes {span : Span} {params : List Param} {types : List Ty}
    (h : Accepts (ctx.paramTypes span params) types) (hparams : ∀ p ∈ params, p.type ≠ .infer) :
    ∀ type ∈ types, type ≠ .unknown := by
  induction params generalizing types with
  | nil =>
    cases accepts_pure.mp h
    simp
  | cons p ps ih =>
    unfold paramTypes at h
    rw [accepts_bind fun _ => (ctx.paramTypes_keeps _ _).bind fun _ => keeps_pure _] at h
    obtain ⟨type, htype, h⟩ := h
    rw [accepts_bind fun _ => keeps_pure _] at h
    obtain ⟨later, hlater, h⟩ := h
    cases accepts_pure.mp h
    rw [List.forall_mem_cons] at hparams ⊢
    exact ⟨known_of_resolveType hparams.1 htype, ih hlater hparams.2⟩

/-- A signature has no unknown type but that of a method whose return type is written `var`. -/
theorem unknown_methodSig {m : MethodDecl} {sig : MethodSig} (h : Accepts (ctx.methodSig m) sig)
    (hparams : ∀ p ∈ m.params, p.type ≠ .infer) :
    (∀ type ∈ sig.params, type ≠ .unknown) ∧ (sig.returns = .unknown ↔ m.returns = .infer) := by
  unfold methodSig at h
  rw [accepts_bind fun _ => (ctx.resolveType_keeps _ _).bind fun _ => keeps_pure _] at h
  obtain ⟨params, hwritten, h⟩ := h
  rw [accepts_bind fun _ => keeps_pure _] at h
  obtain ⟨returns, hreturns, h⟩ := h
  cases accepts_pure.mp h
  exact ⟨known_paramTypes hwritten hparams, unknown_resolveType hreturns⟩

theorem mentions_methodSig {m : MethodDecl} {sig : MethodSig} (h : Accepts (ctx.methodSig m) sig)
    (hparams : ∀ p ∈ m.params, p.type ≠ .infer) :
    sig.Mentions .unknown ↔ m.returns = .infer := by
  obtain ⟨hknown, hreturns⟩ := unknown_methodSig h hparams
  rw [← hreturns, eq_comm]
  exact ⟨fun hmentions => hmentions.resolve_left fun hmem => hknown _ hmem rfl, .inr⟩

/-! ## Classes -/

/-- What it means that a class is accepted: each of its methods is, at the signature on record for
it, and there is no other signature. -/
structure AcceptsClass (ctx : Context) (decl : ClassDecl) : Prop where
  methods : ∀ m ∈ decl.methods, ∃ sig, (ctx.sigsOf decl).get? m.name = some sig ∧
    Accepts ((ctx.inClass decl {}).methodSig m) sig ∧
    Accepts ((ctx.inClass decl (ctx.sigsOf decl)).checkMethod m sig) ()
  names : ∀ {name sig}, (ctx.sigsOf decl).get? name = some sig →
    ∃ m ∈ decl.methods, m.name = name

theorem acceptsClass_of_accepts {decl : ClassDecl} {sig : ClassSig}
    (h : Accepts (ctx.checkClass decl) sig) :
    ctx.AcceptsClass decl ∧ sig = ⟨ctx.sigsOf decl⟩ := by
  unfold checkClass at h
  rw [accepts_bind fun _ => (checkMethods_keeps _ _ _).bind fun _ => keeps_pure _] at h
  obtain ⟨sigs, hsigs, h⟩ := h
  rw [accepts_bind fun _ => keeps_pure _] at h
  obtain ⟨u, hbodies, h⟩ := h
  have hsame : ctx.sigsOf decl = sigs := hsigs.answer
  obtain ⟨-, hall, honly⟩ := accepts_classMethods hsigs
  rw [← hsame] at hall honly hbodies h
  refine ⟨⟨fun m hm => ?_, fun hsig => ?_⟩, (accepts_pure.mp h).symm⟩
  · obtain ⟨sig, hsig, hwritten⟩ := hall m hm
    obtain ⟨u, hbody⟩ := accepts_checkMethods hbodies m hm hsig
    exact ⟨sig, hsig, hwritten, hbody⟩
  · exact (honly hsig).resolve_left nofun

/-- A signature on record is that of a method of the class. -/
theorem AcceptsClass.written {decl : ClassDecl} (h : ctx.AcceptsClass decl) {name : String}
    {sig : MethodSig} (hsig : (ctx.sigsOf decl).get? name = some sig) :
    ∃ m ∈ decl.methods, m.name = name ∧ Accepts ((ctx.inClass decl {}).methodSig m) sig := by
  obtain ⟨m, hm, rfl⟩ := h.names hsig
  obtain ⟨found, hfound, hwritten, -⟩ := h.methods m hm
  cases hfound.symm.trans hsig
  exact ⟨m, hm, rfl, hwritten⟩

/-! ## Units -/

/-- How a unit is accepted, and as what. -/
inductive AcceptsItem (ctx : Context) : Item → Checked → Prop where
  | typeDecl {decl : ClassDecl} (h : ctx.AcceptsClass decl) :
      AcceptsItem ctx (.typeDecl decl) (.typeDecl decl ⟨ctx.sigsOf decl⟩)
  | method {decl : MethodDecl} {sig : MethodSig} (hsig : Accepts (ctx.methodSig decl) sig)
      (hbody : Accepts ((ctx.inMethod decl sig).checkMethod decl sig) ()) :
      AcceptsItem ctx (.method decl) (.method decl sig)
  | var {decl : VarDecl} {type : Ty} (h : Accepts (ctx.varType decl) (some type)) :
      AcceptsItem ctx (.stmt (.var decl)) (.var decl type)
  | expr {value : Expr} {line : UInt32} {type : Ty} (h : Accepts (ctx.exprType value) type) :
      AcceptsItem ctx (.stmt (.expr value line)) (.expr value line type)
  | throw {value : Expr} {span : Span} {line : UInt32} (h : Accepts (ctx.checkThrow value) ()) :
      AcceptsItem ctx (.stmt (.throw value span line)) (.throw value line)

theorem acceptsItem_of_accepts {item : Item} {checked : Checked}
    (h : Accepts (ctx.checkItem item) (some checked)) : ctx.AcceptsItem item checked := by
  unfold checkItem at h
  match item with
  | .typeDecl decl =>
    obtain ⟨sig, hclass, h⟩ := (accepts_bind fun _ => keeps_pure _).mp h
    cases accepts_pure.mp h
    obtain ⟨haccepts, rfl⟩ := acceptsClass_of_accepts hclass
    exact .typeDecl haccepts
  | .method decl =>
    rw [accepts_bind fun _ => (checkMethod_keeps _ _ _).bind fun _ => keeps_pure _] at h
    obtain ⟨sig, hsig, h⟩ := h
    obtain ⟨_, hbody, h⟩ := (accepts_bind fun _ => keeps_pure _).mp h
    cases accepts_pure.mp h
    exact .method hsig hbody
  | .stmt (.var decl) =>
    obtain ⟨bound, hbound, h⟩ := (accepts_bind fun _ => keeps_pure _).mp h
    obtain ⟨type, rfl, rfl⟩ := Option.map_eq_some_iff.mp (accepts_pure.mp h)
    exact .var hbound
  | .stmt (.expr value line) =>
    obtain ⟨type, htype, h⟩ := (accepts_bind fun _ => keeps_pure _).mp h
    cases accepts_pure.mp h
    exact .expr htype
  | .stmt (.throw value span line) =>
    obtain ⟨_, hvalue, h⟩ := (accepts_bind fun _ => keeps_pure _).mp h
    cases accepts_pure.mp h
    exact .throw hvalue
  | .stmt (.ret value span line) =>
    exact absurd h (not_accepts_report_bind fun _ => keeps_pure _)

end Context

/-! ## What is written -/

/-- The methods that a unit declares. -/
def Item.methods : Item → List MethodDecl
  | .typeDecl decl => decl.methods
  | .method decl => [decl]
  | .stmt _ => []

/-- The unit writes `var` for what a method returns. -/
def Item.InfersReturn (item : Item) : Prop := ∃ m ∈ item.methods, m.returns = .infer

open Grammar in
/-- No parameter is written with `var`. -/
theorem ne_infer_of_parse {source : String} {item : Item} (h : Item.parse source = .ok item)
    {m : MethodDecl} (hm : m ∈ item.methods) {p : Param} (hp : p ∈ m.params) :
    p.type ≠ .infer := by
  have hmethod {line : UInt32 → UInt32} {ts : List Token} (h : Method line ts m) :
      p.type ≠ .infer := by
    cases h with
    | mk htype name word nameSpan openParen closeParen openBrace closeBrace hlist hparams hbody =>
      obtain ⟨⟨us, q⟩, hpart, rfl⟩ := List.mem_map.mp hp
      cases hparams _ hpart with
      | mk htype hvar => exact hvar
  rw [Item.parse_eq_ok_iff] at h
  generalize Token.scan source.toList = tokens at h
  cases h with
  | typeDecl hclass _ =>
    cases hclass with
    | mk name word nameSpan opening closing hmethods =>
      induction hmethods with
      | nil => cases hm
      | cons hfirst _ ih =>
        rcases List.mem_cons.mp hm with rfl | hm
        · exact hmethod hfirst
        · exact ih hm
  | method hdecl _ =>
    cases List.mem_singleton.mp hm
    exact hmethod hdecl
  | stmt => cases hm

/-! ## Units -/

/-- The types in what a unit was accepted as. -/
inductive Checked.Mentions : Checked → Ty → Prop where
  | member {decl : ClassDecl} {sig : ClassSig} {name : String} {msig : MethodSig} {type : Ty}
      (hsig : sig.methods.get? name = some msig) (h : msig.Mentions type) :
      Mentions (.typeDecl decl sig) type
  | method {decl : MethodDecl} {sig : MethodSig} {type : Ty} (h : sig.Mentions type) :
      Mentions (.method decl sig) type
  | var {decl : VarDecl} {type : Ty} : Mentions (.var decl type) type
  | expr {value : Expr} {line : UInt32} {type : Ty} : Mentions (.expr value line type) type

section

variable {env : Env} {host : HostRegistry} {wrapper : String} {item : Item} {checked : Checked}

/-- The types in what a unit is accepted as: an unknown one stands for a return type that is
written `var`, and for nothing else. -/
theorem mentions_unknown_iff (hparams : ∀ m ∈ item.methods, ∀ p ∈ m.params, p.type ≠ .infer)
    (hknown : env.Known) (hcheck : item.check env host wrapper = .ok checked) :
    checked.Mentions .unknown ↔ item.InfersReturn := by
  have hctx := unitContext_known hknown host wrapper
  cases Context.acceptsItem_of_accepts (check_eq_ok.mp hcheck) with
  | typeDecl haccepts =>
    constructor
    · rintro ⟨hsig, hmentions⟩
      obtain ⟨m, hm, -, hwritten⟩ := haccepts.written hsig
      exact ⟨m, hm, (Context.mentions_methodSig hwritten (hparams m hm)).mp hmentions⟩
    · rintro ⟨m, hm, hinfer⟩
      obtain ⟨msig, hsig, hwritten, -⟩ := haccepts.methods m hm
      exact .member hsig ((Context.mentions_methodSig hwritten (hparams m hm)).mpr hinfer)
  | @method decl sig hsig hbody =>
    have hiff := Context.mentions_methodSig hsig (hparams decl (List.mem_singleton_self _))
    constructor
    · rintro (_ | hmentions)
      exact ⟨decl, List.mem_singleton_self _, hiff.mp hmentions⟩
    · rintro ⟨m, hm, hinfer⟩
      cases List.mem_singleton.mp hm
      exact .method (hiff.mpr hinfer)
  | var hbound =>
    obtain ⟨type, hsome, hdeclares⟩ := Context.declares_of_accepts hctx hbound
    cases hsome
    refine ⟨fun hmentions => ?_, nofun⟩
    cases hmentions
    exact absurd rfl hdeclares.known
  | expr htype =>
    refine ⟨fun hmentions => ?_, nofun⟩
    cases hmentions
    exact absurd htype.answer (Context.known_of_accepts hctx htype)
  | throw => exact ⟨nofun, nofun⟩

theorem known_inClass (hknown : env.Known) {decl : ClassDecl} {sigs : Table MethodSig}
    (hsigs : ∀ {name sig}, sigs.get? name = some sig → sig.Known) :
    ((unitContext env host wrapper).inClass decl sigs).Known where
  locals := nofun
  vars := hknown.vars
  methods := hknown.methods
  classes {name sig method msig} hclass hmethod := by
    replace hclass : (if decl.name = name then some ⟨sigs⟩ else env.classes.get? name) =
      some sig := hclass
    split at hclass
    · cases hclass
      exact hsigs hmethod
    · exact hknown.classes hclass hmethod

theorem known_inMethod (hknown : env.Known) {decl : MethodDecl} {sig : MethodSig}
    (hsig : sig.Known) : ((unitContext env host wrapper).inMethod decl sig).Known where
  locals := nofun
  vars := hknown.vars
  methods {name found} hfound := by
    replace hfound : (if decl.name = name then some sig else env.methods.get? name) =
      some found := hfound
    split at hfound
    · cases hfound
      exact hsig
    · exact hknown.methods hfound
  classes := hknown.classes

/-- An accepted unit without such a return type meets no unknown type. -/
theorem known_of_meets (hparams : ∀ m ∈ item.methods, ∀ p ∈ m.params, p.type ≠ .infer)
    (hknown : env.Known) (hreturns : ¬ item.InfersReturn)
    (haccepts : (unitContext env host wrapper).AcceptsItem item checked) {met : Ty}
    (h : (unitContext env host wrapper).ItemMeets item met) : met ≠ .unknown := by
  have hwritten {ctx : Context} {m : MethodDecl} {sig : MethodSig} (hm : m ∈ item.methods)
      (hsig : Accepts (ctx.methodSig m) sig) : sig.Known := by
    rw [MethodSig.known_iff, Context.mentions_methodSig hsig (hparams m hm)]
    exact fun hinfer => hreturns ⟨m, hm, hinfer⟩
  have hctx := unitContext_known hknown host wrapper
  cases haccepts with
  | typeDecl haccepts =>
    cases h with
    | @typeDecl _ m sig _ hm hsig h =>
      obtain ⟨found, hfound, hmethod, hbody⟩ := haccepts.methods m hm
      cases hfound.symm.trans hsig
      refine h.known (known_inClass hknown fun hsig => ?_) (hwritten hm hmethod) hbody
      obtain ⟨m, hm, -, hmethod⟩ := haccepts.written hsig
      exact hwritten hm hmethod
  | @method decl sig hsig hbody =>
    cases h with
    | method h =>
      rw [hsig.answer] at h
      have hsigKnown := hwritten (List.mem_singleton_self decl) hsig
      exact h.known (known_inMethod hknown hsigKnown) hsigKnown hbody
  | var hbound =>
    cases h with
    | stmt h => exact Context.known_var hctx hbound h
  | expr htype =>
    cases h with
    | stmt h =>
      cases h with
      | expr h => exact h.known hctx htype
  | throw hvalue =>
    cases h with
    | stmt h => exact Context.known_throw hctx hvalue h

/-- The types that an accepted unit meets: an unknown one where a return type is written `var`, and
nowhere else. -/
theorem meets_unknown_iff (hparams : ∀ m ∈ item.methods, ∀ p ∈ m.params, p.type ≠ .infer)
    (hknown : env.Known) (hcheck : item.check env host wrapper = .ok checked) :
    (unitContext env host wrapper).ItemMeets item .unknown ↔ item.InfersReturn := by
  have haccepts := Context.acceptsItem_of_accepts (check_eq_ok.mp hcheck)
  constructor
  · intro h
    exact Classical.byContradiction fun hreturns =>
      known_of_meets hparams hknown hreturns haccepts h rfl
  · rintro ⟨m, hm, hinfer⟩
    cases haccepts with
    | typeDecl haccepts =>
      obtain ⟨sig, hsig, hwritten, -⟩ := haccepts.methods m hm
      exact .typeDecl hm hsig
        (.sig ((Context.mentions_methodSig hwritten (hparams m hm)).mpr hinfer))
    | method hsig =>
      cases List.mem_singleton.mp hm
      have hmentions := (Context.mentions_methodSig hsig (hparams m hm)).mpr hinfer
      exact .method (.sig (hsig.answer ▸ hmentions))
    | _ => cases hm

end

end ReplEngine.Language
