import ReplEngine.Proofs.Typing.Members
set_option autoImplicit false

/-!
# What a body uses

The check of a body looks names up: variables of the session, top-level methods, classes by the
name that is written, and methods of classes.  `MethodUses` says which names those are; locals are
not among them.  A method that is accepted in one environment is accepted in every other one that
means the same by the names that it uses (`AcceptsMethod.against`).
-/

namespace ReplEngine.Language

open Judge

/-- A name, and what it is used as. -/
inductive Use where
  /-- A variable of the session. -/
  | var (name : String)
  /-- A top-level method. -/
  | method (name : String)
  /-- A class, as it is written. -/
  | className (name : String)
  /-- A method of the class with the full name. -/
  | member (className method : String)

/-- The return type of the method, or the type of a parameter, is written with the name. -/
def MethodDecl.Writes (m : MethodDecl) (name : String) : Prop :=
  m.returns = .named name ∨ ∃ param ∈ m.params, param.type = .named name

namespace Context

/-! ## Names used -/

/-- The names that an expression uses. -/
inductive ExprUses (ctx : Context) : Expr → Use → Prop where
  | name {name : String} {span : Span} (h : ctx.scope.locals.get? name = none) :
      ExprUses ctx (.name name span) (.var name)
  | operand {operand : Expr} {span : Span} {use : Use} (h : ExprUses ctx operand use) :
      ExprUses ctx (.neg operand span) use
  | lhs {op : BinaryOp} {lhs rhs : Expr} {span : Span} {use : Use} (h : ExprUses ctx lhs use) :
      ExprUses ctx (.binary op lhs rhs span) use
  | rhs {op : BinaryOp} {lhs rhs : Expr} {span : Span} {use : Use} (h : ExprUses ctx rhs use) :
      ExprUses ctx (.binary op lhs rhs span) use
  | call {name : String} {args : List Expr} {span : Span} :
      ExprUses ctx (.call name args span) (.method name)
  | callArg {name : String} {args : List Expr} {span : Span} {arg : Expr} {use : Use}
      (harg : arg ∈ args) (h : ExprUses ctx arg use) : ExprUses ctx (.call name args span) use
  | new {name : String} {args : List Expr} {span : Span} :
      ExprUses ctx (.new name args span) (.className name)
  | newArg {name : String} {args : List Expr} {span : Span} {arg : Expr} {use : Use}
      (harg : arg ∈ args) (h : ExprUses ctx arg use) : ExprUses ctx (.new name args span) use
  /-- Which class is meant is decided by the type of the receiver. -/
  | member {receiver : Expr} {method className : String} {args : List Expr} {span : Span}
      (h : Accepts (ctx.exprType receiver) (.object className)) :
      ExprUses ctx (.methodCall receiver method args span) (.member className method)
  | receiver {receiver : Expr} {method : String} {args : List Expr} {span : Span} {use : Use}
      (h : ExprUses ctx receiver use) : ExprUses ctx (.methodCall receiver method args span) use
  | memberArg {receiver : Expr} {method : String} {args : List Expr} {span : Span} {arg : Expr}
      {use : Use} (harg : arg ∈ args) (h : ExprUses ctx arg use) :
      ExprUses ctx (.methodCall receiver method args span) use

/-- The names that a statement uses. -/
inductive StmtUses (ctx : Context) : Stmt → Use → Prop where
  | varType {decl : VarDecl} {name : String} (h : decl.type = .named name) :
      StmtUses ctx (.var decl) (.className name)
  | varInit {decl : VarDecl} {init : Expr} {use : Use} (hinit : decl.init = some init)
      (h : ctx.ExprUses init use) : StmtUses ctx (.var decl) use
  | ret {value : Expr} {span : Span} {line : UInt32} {use : Use} (h : ctx.ExprUses value use) :
      StmtUses ctx (.ret (some value) span line) use
  | throw {value : Expr} {span : Span} {line : UInt32} {use : Use} (h : ctx.ExprUses value use) :
      StmtUses ctx (.throw value span line) use
  | expr {value : Expr} {line : UInt32} {use : Use} (h : ctx.ExprUses value use) :
      StmtUses ctx (.expr value line) use

/-- The names that statements use, each of which is checked in the context behind the ones in
front of it. -/
inductive BodyUses : Context → List Stmt → Use → Prop where
  | head {ctx : Context} {stmt : Stmt} {stmts : List Stmt} {use : Use}
      (h : ctx.StmtUses stmt use) : BodyUses ctx (stmt :: stmts) use
  | tail {ctx inner : Context} {stmt : Stmt} {stmts : List Stmt} {use : Use}
      (hstmt : Accepts (ctx.checkStmt stmt) inner) (h : BodyUses inner stmts use) :
      BodyUses ctx (stmt :: stmts) use

/-- The context that the body of a method starts in. -/
def inBody (ctx : Context) (m : MethodDecl) (sig : MethodSig) : Context :=
  { ctx with
    scope := ⟨{}, some sig.returns, s!"method {m.name}({Ty.renderList sig.params})"⟩ }.withParams
      (m.params.zip sig.params)

/-- The names that a method uses: the classes that its types are written with, and what its body
uses. -/
inductive MethodUses (ctx : Context) (m : MethodDecl) (sig : MethodSig) : Use → Prop where
  | written {name : String} (h : m.Writes name) : MethodUses ctx m sig (.className name)
  | body {use : Use} (h : (ctx.inBody m sig).BodyUses m.body use) : MethodUses ctx m sig use

/-! ## Other declarations -/

/-- The same code where other things are declared, and nothing is being declared any more. -/
def against (ctx : Context) (env : Env) : Context :=
  { ctx with env := env, pendingClass := none, pendingMethod := none }

/-- Other declarations mean the same by a name. -/
def Same (ctx : Context) (env : Env) : Use → Prop
  | .var name => env.vars.get? name = ctx.env.vars.get? name
  | .method name => (ctx.against env).methodSig? name = ctx.methodSig? name
  | .className name => (ctx.against env).resolveClass name = ctx.resolveClass name
  | .member className method =>
    (ctx.against env).declaredSig? (.object className) method =
      ctx.declaredSig? (.object className) method

variable {ctx : Context} {env : Env}

theorem resolveType_same {type : TypeName} (span : Span)
    (h : ∀ name, type = .named name → ctx.Same env (.className name)) :
    (ctx.against env).resolveType type span = ctx.resolveType type span := by
  cases type with
  | named name =>
    unfold resolveType
    simp only
    rw [(h name rfl : (ctx.against env).resolveClass name = ctx.resolveClass name)]
    rfl
  | _ => rfl

theorem methodCallType_same {receiver : Ty} {method : String} (args : List Ty) (span : Span)
    (h : ∀ className, receiver = .object className → ctx.Same env (.member className method)) :
    (ctx.against env).methodCallType receiver method args span =
      ctx.methodCallType receiver method args span := by
  cases receiver with
  | object className =>
    unfold methodCallType
    rw [(h className rfl : (ctx.against env).declaredSig? (.object className) method =
      ctx.declaredSig? (.object className) method)]
    rfl
  | _ => rfl

mutual

/-- An expression has the type it had. -/
theorem exprType_against : (e : Expr) → {type : Ty} → Accepts (ctx.exprType e) type →
    (∀ use, ctx.ExprUses e use → ctx.Same env use) → Accepts ((ctx.against env).exprType e) type
  | .int _ _, _, h, _ | .string _ _, _, h, _ | .bool _ _, _, h, _ | .null _, _, h, _ => by
    unfold exprType at h ⊢
    exact h
  | .name name span, type, h, hsame => by
    unfold exprType at h ⊢
    rw [accepts_nameType] at h ⊢
    rcases h with hlocal | ⟨hlocal, hvar⟩
    · exact .inl hlocal
    · exact .inr ⟨hlocal, (hsame _ (.name hlocal)).trans hvar⟩
  | .neg operand span, type, h, hsame => by
    unfold exprType at h ⊢
    rw [accepts_bind fun _ => negType_keeps _ _] at h ⊢
    obtain ⟨operandType, hoperand, h⟩ := h
    exact ⟨operandType, exprType_against operand hoperand fun use hu => hsame use (.operand hu), h⟩
  | .binary op lhs rhs span, type, h, hsame => by
    unfold exprType at h ⊢
    rw [accepts_bind fun _ => (exprType_keeps _ _).bind fun _ => binaryType_keeps _ _ _ _] at h ⊢
    obtain ⟨lhsType, hlhs, h⟩ := h
    rw [accepts_bind fun _ => binaryType_keeps _ _ _ _] at h
    obtain ⟨rhsType, hrhs, h⟩ := h
    refine ⟨lhsType, exprType_against lhs hlhs fun use hu => hsame use (.lhs hu), ?_⟩
    rw [accepts_bind fun _ => binaryType_keeps _ _ _ _]
    exact ⟨rhsType, exprType_against rhs hrhs fun use hu => hsame use (.rhs hu), h⟩
  | .call name args span, type, h, hsame => by
    unfold exprType at h ⊢
    rw [accepts_bind fun _ => callType_keeps _ _ _ _] at h ⊢
    obtain ⟨types, hargs, h⟩ := h
    refine ⟨types, exprTypes_against args hargs
      fun arg harg use hu => hsame use (.callArg harg hu), ?_⟩
    unfold callType at h ⊢
    rw [(hsame _ .call : (ctx.against env).methodSig? name = ctx.methodSig? name)]
    exact h
  | .new name args span, type, h, hsame => by
    unfold exprType at h ⊢
    rw [accepts_bind fun _ => newType_keeps _ _ _ _] at h ⊢
    obtain ⟨types, hargs, h⟩ := h
    refine ⟨types, exprTypes_against args hargs
      fun arg harg use hu => hsame use (.newArg harg hu), ?_⟩
    unfold newType at h ⊢
    rw [(hsame _ .new : (ctx.against env).resolveClass name = ctx.resolveClass name)]
    exact h
  | .methodCall receiver method args span, type, h, hsame => by
    have hkeeps (ctx : Context) (receiverType : Ty) : Keeps (do
        ctx.methodCallType receiverType method (← ctx.exprTypes args) span) :=
      (exprTypes_keeps _ _).bind fun _ => methodCallType_keeps _ _ _ _ _
    unfold exprType at h ⊢
    rw [accepts_bind (hkeeps _)] at h ⊢
    obtain ⟨receiverType, hreceiver, h⟩ := h
    rw [accepts_bind fun _ => methodCallType_keeps _ _ _ _ _] at h
    obtain ⟨types, hargs, h⟩ := h
    refine ⟨receiverType,
      exprType_against receiver hreceiver fun use hu => hsame use (.receiver hu), ?_⟩
    rw [accepts_bind fun _ => methodCallType_keeps _ _ _ _ _]
    refine ⟨types, exprTypes_against args hargs
      fun arg harg use hu => hsame use (.memberArg harg hu), ?_⟩
    rw [methodCallType_same]
    · exact h
    · rintro className rfl
      exact hsame _ (.member hreceiver)

theorem exprTypes_against : (es : List Expr) → {types : List Ty} →
    Accepts (ctx.exprTypes es) types →
    (∀ e ∈ es, ∀ use, ctx.ExprUses e use → ctx.Same env use) →
    Accepts ((ctx.against env).exprTypes es) types
  | [], _, h, _ => by
    unfold exprTypes at h ⊢
    exact h
  | e :: es, types, h, hsame => by
    have hkeeps (ctx : Context) (type : Ty) : Keeps (do return type :: (← ctx.exprTypes es)) :=
      (exprTypes_keeps _ _).bind fun _ => keeps_pure _
    unfold exprTypes at h ⊢
    rw [accepts_bind (hkeeps _)] at h ⊢
    obtain ⟨type, htype, h⟩ := h
    rw [accepts_bind fun _ => keeps_pure _] at h
    obtain ⟨later, hlater, h⟩ := h
    refine ⟨type, exprType_against e htype (hsame e List.mem_cons_self), ?_⟩
    rw [accepts_bind fun _ => keeps_pure _]
    exact ⟨later, exprTypes_against es hlater
      fun e' he' => hsame e' (List.mem_cons_of_mem e he'), h⟩

end

/-! ## Statements and bodies -/

theorem varType_against {decl : VarDecl} {bound : Option Ty}
    (h : Accepts (ctx.varType decl) bound)
    (hsame : ∀ use, ctx.StmtUses (.var decl) use → ctx.Same env use) :
    Accepts ((ctx.against env).varType decl) bound := by
  have hbound (initType : Option Ty) :
      (ctx.against env).boundType decl initType = ctx.boundType decl initType := by
    unfold boundType
    rw [resolveType_same decl.span fun name hname => hsame _ (.varType hname)]
  rw [varType_eq, accepts_bind (boundType_keeps _ _)] at h ⊢
  obtain ⟨initType, hinit, h⟩ := h
  refine ⟨initType, ?_, by rwa [hbound]⟩
  cases hsome : decl.init with
  | none =>
    rw [hsome] at hinit
    exact hinit
  | some init =>
    rw [hsome] at hinit
    obtain ⟨type, htype, rfl⟩ := accepts_map.mp hinit
    exact accepts_map.mpr
      ⟨type, exprType_against init htype fun use hu => hsame use (.varInit hsome hu), rfl⟩

theorem checkReturn_against {value : Option Expr} {span : Span} {u : Unit}
    (h : Accepts (ctx.checkReturn value span) u)
    (hsame : ∀ e use, value = some e → ctx.ExprUses e use → ctx.Same env use) :
    Accepts ((ctx.against env).checkReturn value span) u := by
  cases value with
  | none => exact h
  | some value =>
    unfold checkReturn at h ⊢
    simp only at h ⊢
    rw [accepts_bind fun _ => Keeps.ite (keeps_report _ _) (requireAssignable_keeps _ _ _)] at h ⊢
    obtain ⟨type, htype, h⟩ := h
    exact ⟨type, exprType_against value htype fun use => hsame value use rfl, h⟩

theorem checkThrow_against {value : Expr} {u : Unit} (h : Accepts (ctx.checkThrow value) u)
    (hsame : ∀ use, ctx.ExprUses value use → ctx.Same env use) :
    Accepts ((ctx.against env).checkThrow value) u := by
  unfold checkThrow at h ⊢
  rw [accepts_bind fun _ => Keeps.ite (keeps_report _ _) (keeps_pure _)] at h ⊢
  obtain ⟨type, htype, h⟩ := h
  exact ⟨type, exprType_against value htype hsame, h⟩

theorem bindLocal_against {name : String} {type : Ty} {initialized : Bool} {span : Span}
    {inner : Context} (h : Accepts (ctx.bindLocal name type initialized span) inner) :
    Accepts ((ctx.against env).bindLocal name type initialized span) (inner.against env) := by
  cases accepts_bindLocal h
  obtain ⟨hfree, -⟩ := (accepts_unless fun _ => keeps_pure _).mp h
  exact (accepts_unless fun _ => keeps_pure _).mpr ⟨hfree, accepts_pure.mpr rfl⟩

/-- A local changes nothing of what other names mean. -/
theorem same_withLocal {name : String} {type : Ty} {initialized : Bool} {use : Use} :
    (ctx.withLocal name type initialized).Same env use ↔ ctx.Same env use := by
  cases use <;> exact Iff.rfl

/-- The code behind a statement sees the locals that it saw. -/
theorem checkStmt_against {stmt : Stmt} {inner : Context} (h : Accepts (ctx.checkStmt stmt) inner)
    (hsame : ∀ use, ctx.StmtUses stmt use → ctx.Same env use) :
    Accepts ((ctx.against env).checkStmt stmt) (inner.against env) ∧
      ∀ use, inner.Same env use ↔ ctx.Same env use := by
  unfold checkStmt at h ⊢
  cases stmt with
  | var decl =>
    obtain ⟨bound, hbound, h⟩ := (accepts_bind (ctx.bindVar_keeps decl)).mp h
    have hbound' := varType_against hbound hsame
    cases bound with
    | none =>
      cases accepts_pure.mp h
      exact ⟨(accepts_bind (bindVar_keeps _ decl)).mpr ⟨none, hbound', accepts_pure.mpr rfl⟩,
        fun _ => Iff.rfl⟩
    | some type =>
      refine ⟨(accepts_bind (bindVar_keeps _ decl)).mpr ⟨some type, hbound', bindLocal_against h⟩, ?_⟩
      cases accepts_bindLocal h
      exact fun _ => same_withLocal
  | ret value span line =>
    obtain ⟨u, hvalue, h⟩ := (accepts_bind fun _ => keeps_pure _).mp h
    cases accepts_pure.mp h
    refine ⟨(accepts_bind fun _ => keeps_pure _).mpr
      ⟨u, checkReturn_against hvalue ?_, accepts_pure.mpr rfl⟩, fun _ => Iff.rfl⟩
    rintro e use rfl hu
    exact hsame use (.ret hu)
  | throw value span line =>
    obtain ⟨u, hvalue, h⟩ := (accepts_bind fun _ => keeps_pure _).mp h
    cases accepts_pure.mp h
    have hvalue' := checkThrow_against hvalue fun use hu => hsame use (.throw hu)
    exact ⟨(accepts_bind fun _ => keeps_pure _).mpr ⟨u, hvalue', accepts_pure.mpr rfl⟩,
      fun _ => Iff.rfl⟩
  | expr value line =>
    have hkeeps (ctx : Context) : Keeps (do let _ ← ctx.exprType value; pure ctx) :=
      (ctx.exprType_keeps value).bind fun _ => keeps_pure _
    obtain ⟨hform, h⟩ := (accepts_unless fun _ => hkeeps ctx).mp h
    obtain ⟨type, htype, h⟩ := (accepts_bind fun _ => keeps_pure _).mp h
    cases accepts_pure.mp h
    have htype' := exprType_against value htype fun use hu => hsame use (.expr hu)
    exact ⟨(accepts_unless fun _ => hkeeps _).mpr ⟨hform,
      (accepts_bind fun _ => keeps_pure _).mpr ⟨type, htype', accepts_pure.mpr rfl⟩⟩,
      fun _ => Iff.rfl⟩

theorem checkBody_against {stmts : List Stmt} {exited leaves : Bool}
    (h : Accepts (ctx.checkBody exited stmts) leaves)
    (hsame : ∀ use, ctx.BodyUses stmts use → ctx.Same env use) :
    Accepts ((ctx.against env).checkBody exited stmts) leaves := by
  induction stmts generalizing ctx exited with
  | nil => exact h
  | cons stmt stmts ih =>
    cases exited with
    | true => exact absurd (nil_of_exited h).1 (by simp)
    | false =>
      unfold checkBody at h ⊢
      rw [if_neg (by simp), accepts_bind fun ctx => ctx.checkBody_keeps _ _] at h ⊢
      obtain ⟨inner, hstmt, hrest⟩ := h
      obtain ⟨hstmt', hinner⟩ := checkStmt_against hstmt fun use hu => hsame use (.head hu)
      exact ⟨inner.against env, hstmt',
        ih hrest fun use hu => (hinner use).mpr (hsame use (.tail hstmt hu))⟩

/-! ## Methods -/

theorem paramTypes_same {span : Span} {params : List Param}
    (h : ∀ param ∈ params, ∀ name, param.type = .named name → ctx.Same env (.className name)) :
    (ctx.against env).paramTypes span params = ctx.paramTypes span params := by
  induction params with
  | nil => rfl
  | cons p ps ih =>
    unfold paramTypes
    rw [resolveType_same span (h p List.mem_cons_self),
      ih fun param hparam => h param (List.mem_cons_of_mem p hparam)]

/-- A method is written with the same signature. -/
theorem methodSig_same {m : MethodDecl}
    (h : ∀ name, m.Writes name → ctx.Same env (.className name)) :
    (ctx.against env).methodSig m = ctx.methodSig m := by
  unfold methodSig
  rw [paramTypes_same fun param hparam name hname => h name (.inr ⟨param, hparam, hname⟩),
    resolveType_same m.nameSpan fun name hname => h name (.inl hname)]

theorem bindParams_against {span : Span} {params : List (Param × Ty)} {inner : Context}
    (h : Accepts (ctx.bindParams span params) inner) :
    Accepts ((ctx.against env).bindParams span params) (inner.against env) := by
  induction params generalizing ctx with
  | nil =>
    cases accepts_pure.mp h
    exact accepts_pure.mpr rfl
  | cons p ps ih =>
    unfold bindParams at h ⊢
    rw [accepts_bind fun ctx => ctx.bindParams_keeps _ _] at h ⊢
    obtain ⟨next, hnext, h⟩ := h
    exact ⟨next.against env, bindLocal_against hnext, ih h⟩

theorem same_withParams {params : List (Param × Ty)} {use : Use} :
    (ctx.withParams params).Same env use ↔ ctx.Same env use := by
  induction params generalizing ctx with
  | nil => exact Iff.rfl
  | cons p ps ih => exact ih.trans same_withLocal

theorem same_inBody {m : MethodDecl} {sig : MethodSig} {use : Use} :
    (ctx.inBody m sig).Same env use ↔ ctx.Same env use := by
  refine same_withParams.trans ?_
  cases use <;> exact Iff.rfl

theorem checkMethod_against {m : MethodDecl} {sig : MethodSig} {u : Unit}
    (h : Accepts (ctx.checkMethod m sig) u)
    (hsame : ∀ use, ctx.MethodUses m sig use → ctx.Same env use) :
    Accepts ((ctx.against env).checkMethod m sig) u := by
  have hkeeps (inner : Context) : Keeps (do
      let exited ← inner.checkBody false m.body
      if !exited && sig.returns != .void && sig.returns != .unknown then
        report "missing return statement" m.nameSpan) :=
    (inner.checkBody_keeps _ _).bind fun _ => Keeps.ite (keeps_report _ _) (keeps_pure _)
  unfold checkMethod at h ⊢
  rw [accepts_bind hkeeps] at h ⊢
  obtain ⟨inner, hinner, h⟩ := h
  refine ⟨inner.against env, bindParams_against hinner, ?_⟩
  rw [accepts_bind fun _ => Keeps.ite (keeps_report _ _) (keeps_pure _)] at h ⊢
  obtain ⟨leaves, hbody, h⟩ := h
  cases accepts_bindParams hinner
  exact ⟨leaves, checkBody_against hbody fun use hu => same_inBody.mpr (hsame use (.body hu)), h⟩

/-- The checker accepts the method at the signature. -/
structure AcceptsMethod (ctx : Context) (m : MethodDecl) (sig : MethodSig) : Prop where
  written : Accepts (ctx.methodSig m) sig
  body : Accepts (ctx.checkMethod m sig) ()

/-- A method that is accepted still is where every name that it uses means the same. -/
theorem AcceptsMethod.against {m : MethodDecl} {sig : MethodSig} (h : ctx.AcceptsMethod m sig)
    (hsame : ∀ use, ctx.MethodUses m sig use → ctx.Same env use) :
    (ctx.against env).AcceptsMethod m sig where
  written := methodSig_same (fun _ hname => hsame _ (.written hname)) ▸ h.written
  body := checkMethod_against h.body hsame

end Context

/-! ## Declarations

What a unit declares is in front of its own code while it is checked, and in the environment
afterwards: the code is accepted there as well. -/

section

variable (env : Env) (host : HostRegistry) (wrapper : String)

theorem same_of_pendingMethod (name : String) (sig : MethodSig) (use : Use) :
    { unitContext env host wrapper with pendingMethod := some (name, sig) }.Same
      { env with methods := env.methods.insert name sig } use := by
  cases use with
  | method key =>
    show (env.methods.insert name sig).get? key =
      if name = key then some sig else env.methods.get? key
    rw [Table.get?_insert]
    simp only [eq_comm]
  | _ => rfl

/-- A class name means the same whatever the signature of the class is going to be. -/
theorem sameClass_of_pendingClass (name : String) (pending sig : ClassSig) (key : String) :
    { unitContext env host wrapper with pendingClass := some (name, pending) }.Same
      { env with classes := env.classes.insert name sig } (.className key) := by
  have hcontains : (env.classes.insert name sig).contains key =
      (name == key || env.classes.contains key) := by
    unfold Table.contains
    rw [Table.get?_insert]
    by_cases hkey : key = name
    · simp [hkey]
    · simp [hkey, Ne.symm hkey]
  show (if ((env.classes.insert name sig).contains key || host.contains key) = true then
    some key else _) = if (name == key || env.classes.contains key || host.contains key) = true
      then some key else _
  rw [hcontains]
  rfl

theorem same_of_pendingClass (name : String) (sig : ClassSig) (use : Use) :
    { unitContext env host wrapper with pendingClass := some (name, sig) }.Same
      { env with classes := env.classes.insert name sig } use := by
  cases use with
  | className key => exact sameClass_of_pendingClass env host wrapper name sig sig key
  | member key method =>
    show ((env.classes.insert name sig).get? key).bind _ =
      (if name = key then some sig else env.classes.get? key).bind _
    rw [Table.get?_insert]
    simp only [eq_comm]
  | _ => rfl

end

variable {env : Env} {host : HostRegistry} {wrapper : String}

/-! What is declared again means the same to everything that does not use it, and to all where
nothing about it is new. -/

theorem same_insertVar {name : String} {type : Ty} {use : Use}
    (h : use = .var name → env.vars.get? name = some type) :
    (unitContext env host wrapper).Same { env with vars := env.vars.insert name type } use := by
  cases use with
  | var key =>
    refine Table.get?_insert_of_eq fun hkey => ?_
    subst hkey
    exact h rfl
  | _ => rfl

theorem same_insertMethod {name : String} {sig : MethodSig} {use : Use}
    (h : use = .method name → env.methods.get? name = some sig) :
    (unitContext env host wrapper).Same
      { env with methods := env.methods.insert name sig } use := by
  cases use with
  | method key =>
    refine Table.get?_insert_of_eq fun hkey => ?_
    subst hkey
    exact h rfl
  | _ => rfl

theorem same_insertClass {name : String} {sig : ClassSig} {use : Use}
    (hname : use = .className name →
      (env.classes.contains name || host.contains name) = true)
    (hmember : ∀ method, use = .member name method →
      ((env.classes.get? name).bind fun old => old.methods.get? method) =
        sig.methods.get? method) :
    (unitContext env host wrapper).Same
      { env with classes := env.classes.insert name sig } use := by
  cases use with
  | className key =>
    show (if ((env.classes.insert name sig).contains key || host.contains key) = true then
      some key else _) =
        if (env.classes.contains key || host.contains key) = true then some key else _
    unfold Table.contains at hname ⊢
    rw [Table.get?_insert]
    by_cases hkey : key = name
    · -- The name stood for itself before.
      subst hkey
      rw [if_pos rfl, if_pos (hname rfl), Option.isSome_some, Bool.true_or, if_pos rfl]
    · rw [if_neg hkey]
      rfl
  | member key method =>
    show ((env.classes.insert name sig).get? key).bind _ = (env.classes.get? key).bind _
    rw [Table.get?_insert]
    by_cases hkey : key = name
    · subst hkey
      rw [if_pos rfl]
      exact (hmember method rfl).symm
    · rw [if_neg hkey]
  | _ => rfl

/-- A declaration is what it was read as. -/
theorem item_of_check {item : Item} {checked : Checked}
    (hcheck : item.check env host wrapper = .ok checked) :
    (∀ decl sig, checked = .typeDecl decl sig → item = .typeDecl decl) ∧
      ∀ decl sig, checked = .method decl sig → item = .method decl := by
  rw [check_eq_ok] at hcheck
  unfold Context.checkItem at hcheck
  match item with
  | .typeDecl decl =>
    obtain ⟨sig, -, h⟩ := (accepts_bind fun _ => keeps_pure _).mp hcheck
    cases accepts_pure.mp h
    exact ⟨by simp, by simp⟩
  | .method decl =>
    rw [accepts_bind fun _ => (Context.checkMethod_keeps _ _ _).bind fun _ => keeps_pure _]
      at hcheck
    obtain ⟨sig, -, h⟩ := hcheck
    obtain ⟨_, -, h⟩ := (accepts_bind fun _ => keeps_pure _).mp h
    cases accepts_pure.mp h
    exact ⟨by simp, by simp⟩
  | .stmt (.var decl) =>
    obtain ⟨bound, -, h⟩ := (accepts_bind fun _ => keeps_pure _).mp hcheck
    obtain ⟨type, -, rfl⟩ := Option.map_eq_some_iff.mp (accepts_pure.mp h)
    exact ⟨by simp, by simp⟩
  | .stmt (.expr value line) =>
    obtain ⟨type, -, h⟩ := (accepts_bind fun _ => keeps_pure _).mp hcheck
    cases accepts_pure.mp h
    exact ⟨by simp, by simp⟩
  | .stmt (.throw value span line) =>
    obtain ⟨_, -, h⟩ := (accepts_bind fun _ => keeps_pure _).mp hcheck
    cases accepts_pure.mp h
    exact ⟨by simp, by simp⟩
  | .stmt (.ret value span line) =>
    exact absurd hcheck (not_accepts_report_bind fun _ => keeps_pure _)

/-- A method that is declared is accepted where it is declared. -/
theorem acceptsMethod_of_declared {decl : MethodDecl} {sig : MethodSig}
    (h : (Item.method decl).check env host wrapper = .ok (.method decl sig)) :
    (unitContext { env with methods := env.methods.insert decl.name sig } host
      wrapper).AcceptsMethod decl sig := by
  rw [check_eq_ok] at h
  unfold Context.checkItem at h
  rw [accepts_bind fun _ => (Context.checkMethod_keeps _ _ _).bind fun _ => keeps_pure _] at h
  obtain ⟨found, hsig, h⟩ := h
  rw [accepts_bind fun _ => keeps_pure _] at h
  obtain ⟨u, hbody, h⟩ := h
  cases accepts_pure.mp h
  have hclasses (name : String) : (unitContext env host wrapper).Same
      { env with methods := env.methods.insert decl.name sig } (.className name) := rfl
  exact ⟨Context.methodSig_same (fun name _ => hclasses name) ▸ hsig,
    Context.checkMethod_against hbody fun use _ =>
      same_of_pendingMethod env host wrapper decl.name sig use⟩

/-- The methods of a class that is declared are accepted where it is declared. -/
theorem acceptsMethod_of_declaredClass {decl : ClassDecl} {sig : ClassSig}
    (h : (Item.typeDecl decl).check env host wrapper = .ok (.typeDecl decl sig)) {m : MethodDecl}
    (hm : m ∈ decl.methods) {msig : MethodSig} (hmsig : sig.methods.get? m.name = some msig) :
    (unitContext { env with classes := env.classes.insert decl.name sig } host
      wrapper).AcceptsMethod m msig := by
  rw [check_eq_ok] at h
  unfold Context.checkItem at h
  rw [accepts_bind fun _ => keeps_pure _] at h
  obtain ⟨found, hclass, h⟩ := h
  cases accepts_pure.mp h
  unfold Context.checkClass at hclass
  rw [accepts_bind fun _ => (Context.checkMethods_keeps _ _ _).bind fun _ => keeps_pure _] at hclass
  obtain ⟨sigs, hsigs, hclass⟩ := hclass
  rw [accepts_bind fun _ => keeps_pure _] at hclass
  obtain ⟨u, hbodies, hsame⟩ := hclass
  cases accepts_pure.mp hsame
  obtain ⟨-, hall, -⟩ := Context.accepts_classMethods hsigs
  obtain ⟨written, hfound, hwritten⟩ := hall m hm
  cases hfound.symm.trans hmsig
  obtain ⟨u', hbody⟩ := Context.accepts_checkMethods hbodies m hm hmsig
  have hclasses := sameClass_of_pendingClass env host wrapper decl.name {} ⟨sigs⟩
  exact ⟨Context.methodSig_same (fun key _ => hclasses key) ▸ hwritten,
    Context.checkMethod_against hbody fun use _ =>
      same_of_pendingClass env host wrapper decl.name _ use⟩

end ReplEngine.Language
