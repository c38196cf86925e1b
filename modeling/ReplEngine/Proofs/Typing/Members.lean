import ReplEngine.Proofs.Typing.Accepted
set_option autoImplicit false

/-!
# Accepted methods, classes and units

A method that is accepted has a well-typed body for its signature.  A class that is accepted has
one method of every name in its signature, and no other.
-/

namespace ReplEngine.Language

open Judge

/-- No type of anything declared is unknown. -/
structure Env.Known (env : Env) : Prop where
  vars : ∀ {name type}, env.vars.get? name = some type → type ≠ .unknown
  methods : ∀ {name sig}, env.methods.get? name = some sig → sig.Known
  classes : ∀ {name sig method msig}, env.classes.get? name = some sig →
    sig.methods.get? method = some msig → msig.Known

namespace Context

variable {ctx : Context} {env : Env} {host : HostRegistry}

/-! ## What code can see -/

/-- Beside its locals, code sees what is declared and nothing else: the class or method around it
is declared with the signature that it is checked for. -/
structure Sees (ctx : Context) (env : Env) (host : HostRegistry) : Prop where
  sameEnv : ctx.env = env
  sameHost : ctx.host = host
  pendingClass : ∀ {name sig}, ctx.pendingClass = some (name, sig) →
    env.classes.get? name = some sig
  pendingMethod : ∀ {name sig}, ctx.pendingMethod = some (name, sig) →
    env.methods.get? name = some sig

theorem Sees.classSig? (h : ctx.Sees env host) (name : String) :
    ctx.classSig? name = env.classes.get? name := by
  unfold Context.classSig?
  cases hpending : ctx.pendingClass with
  | none => rw [h.sameEnv]
  | some pending =>
    obtain ⟨key, sig⟩ := pending
    by_cases hkey : key = name
    · simp only [hkey, if_true]
      rw [← hkey, h.pendingClass hpending]
    · simp only [hkey, if_false, h.sameEnv]

theorem Sees.methodSig? (h : ctx.Sees env host) (name : String) :
    ctx.methodSig? name = env.methods.get? name := by
  unfold Context.methodSig?
  cases hpending : ctx.pendingMethod with
  | none => rw [h.sameEnv]
  | some pending =>
    obtain ⟨key, sig⟩ := pending
    by_cases hkey : key = name
    · simp only [hkey, if_true]
      rw [← hkey, h.pendingMethod hpending]
    · simp only [hkey, if_false, h.sameEnv]

theorem Sees.exceptionType? (h : ctx.Sees env host) (name : String) :
    ctx.exceptionType? (.object name) = host.exceptionType? name := by
  unfold Context.exceptionType?
  rw [h.sameHost]

/-- A class name stands for itself or for a standard class. -/
theorem Sees.resolveClass (h : ctx.Sees env host) {name qualified : String}
    (hclass : ctx.resolveClass name = some qualified) :
    (qualified = name ∧ (env.classes.contains name ∨ host.contains name)) ∨
      (qualified = Lang.package ++ name ∧ env.classes.contains name = false ∧
        host.contains name = false ∧ host.contains qualified) := by
  have hpending (hname : ctx.isPending name) : env.classes.contains name := by
    unfold isPending at hname
    cases hclass : ctx.pendingClass with
    | none => simp [hclass] at hname
    | some pending =>
      obtain ⟨key, sig⟩ := pending
      have hkey : key = name := by simpa [hclass] using hname
      unfold Table.contains
      rw [← hkey, h.pendingClass hclass]
      rfl
  unfold Context.resolveClass at hclass
  rw [h.sameEnv, h.sameHost] at hclass
  by_cases hself : (ctx.isPending name || env.classes.contains name || host.contains name) = true
  · rw [if_pos hself] at hclass
    cases hclass
    refine Or.inl ⟨rfl, ?_⟩
    rw [Bool.or_eq_true, Bool.or_eq_true] at hself
    rcases hself with (hname | hname) | hname
    · exact Or.inl (hpending hname)
    · exact Or.inl hname
    · exact Or.inr hname
  · rw [if_neg hself] at hclass
    by_cases hstandard : host.contains (Lang.package ++ name) = true
    · simp only [hstandard, if_true] at hclass
      cases hclass
      simp only [Bool.or_eq_true, not_or, Bool.not_eq_true] at hself
      exact Or.inr ⟨rfl, hself.1.2, hself.2, hstandard⟩
    · simp only [hstandard] at hclass
      cases hclass

theorem Sees.known (h : ctx.Sees env host) (hknown : env.Known)
    (hlocals : ∀ {name binding}, ctx.scope.locals.get? name = some binding →
      binding.1 ≠ .unknown) : ctx.Known where
  locals := hlocals
  vars hvar := hknown.vars (h.sameEnv ▸ hvar)
  methods hsig := hknown.methods (h.methodSig? _ ▸ hsig)
  classes hsig := hknown.classes (h.classSig? _ ▸ hsig)

theorem Sees.withScope (h : ctx.Sees env host) (scope : Scope) :
    { ctx with scope := scope }.Sees env host :=
  ⟨h.sameEnv, h.sameHost, h.pendingClass, h.pendingMethod⟩

theorem Sees.memberSig?_known (h : ctx.Sees env host) (hknown : env.Known) {receiver : Ty}
    {method : String} {sig : MethodSig} (hsig : ctx.memberSig? receiver method = some sig) :
    sig.Known :=
  ((h.withScope {}).known hknown (by simp [Table.get?])).memberSig? hsig

/-- Code of a class that is declared. -/
theorem Sees.inClass (h : ctx.Sees env host) {name : String} {sig : ClassSig}
    (hdeclared : env.classes.get? name = some sig) :
    { ctx with pendingClass := some (name, sig) }.Sees env host where
  sameEnv := h.sameEnv
  sameHost := h.sameHost
  pendingClass hpending := by
    cases hpending
    exact hdeclared
  pendingMethod := h.pendingMethod

/-- Code of a top-level method that is declared. -/
theorem Sees.inMethod (h : ctx.Sees env host) {name : String} {sig : MethodSig}
    (hdeclared : env.methods.get? name = some sig) :
    { ctx with pendingMethod := some (name, sig) }.Sees env host where
  sameEnv := h.sameEnv
  sameHost := h.sameHost
  pendingClass := h.pendingClass
  pendingMethod hpending := by
    cases hpending
    exact hdeclared

/-! ## Methods -/

theorem accepts_bindParams {span : Span} {params : List (Param × Ty)} {inner : Context}
    (h : Accepts (ctx.bindParams span params) inner) : ctx.withParams params = inner := by
  induction params generalizing ctx with
  | nil => exact accepts_pure.mp h
  | cons p ps ih =>
    unfold bindParams at h
    rw [accepts_bind fun ctx => ctx.bindParams_keeps _ _] at h
    obtain ⟨next, hnext, h⟩ := h
    cases accepts_bindLocal hnext
    exact ih h

theorem Known.withParams (hknown : ctx.Known) {params : List (Param × Ty)}
    (hparams : ∀ p ∈ params, p.2 ≠ .unknown) : (ctx.withParams params).Known := by
  induction params generalizing ctx with
  | nil => exact hknown
  | cons p ps ih =>
    apply ih (hknown.withLocal p.1.name (hparams p (by simp)) true)
    intro q hq
    exact hparams q (List.mem_cons_of_mem p hq)

theorem withParams_returns (ctx : Context) (params : List (Param × Ty)) :
    (ctx.withParams params).scope.returns = ctx.scope.returns := by
  induction params generalizing ctx with
  | nil => rfl
  | cons p ps ih => exact ih (ctx.withLocal p.1.name p.2 true)

theorem Sees.withParams (h : ctx.Sees env host) (params : List (Param × Ty)) :
    (ctx.withParams params).Sees env host := by
  induction params generalizing ctx with
  | nil => exact h
  | cons p ps ih => exact ih (h.withScope _)

theorem methodOk_of_accepts (h : ctx.Sees env host) (hknown : env.Known) {m : MethodDecl}
    {sig : MethodSig} (hsig : sig.Known) {u : Unit} (haccepts : Accepts (ctx.checkMethod m sig) u) :
    ctx.MethodOk m sig := by
  unfold checkMethod at haccepts
  rw [accepts_bind ?keeps] at haccepts
  case keeps =>
    intro inner
    exact (inner.checkBody_keeps _ _).bind fun _ => Keeps.ite (keeps_report _ _) (keeps_pure _)
  obtain ⟨inner, hinner, haccepts⟩ := haccepts
  rw [accepts_bind fun _ => Keeps.ite (keeps_report _ _) (keeps_pure _)] at haccepts
  obtain ⟨leaves, hbody, hend⟩ := haccepts
  have hsame := accepts_bindParams hinner
  subst hsame
  refine ⟨_, leaves, bodyOk_of_accepts ?_ (withParams_returns _ _) hsig.returns hbody, ?_⟩
  · apply Known.withParams
    · exact (h.withScope _).known hknown (by simp [Table.get?])
    · intro p hp
      exact hsig.params p.2 (List.of_mem_zip hp).2
  · intro hleaves
    by_cases hvoid : sig.returns = .void
    · exact hvoid
    · rw [if_pos (by simp [hleaves, hvoid, hsig.returns])] at hend
      exact absurd hend accepts_report

theorem length_of_paramTypes {span : Span} {params : List Param} {types : List Ty}
    (h : Accepts (ctx.paramTypes span params) types) : types.length = params.length := by
  induction params generalizing types with
  | nil =>
    cases accepts_pure.mp h
    rfl
  | cons p ps ih =>
    unfold paramTypes at h
    rw [accepts_bind fun _ => (ctx.paramTypes_keeps _ _).bind fun _ => keeps_pure _] at h
    obtain ⟨type, -, h⟩ := h
    rw [accepts_bind fun _ => keeps_pure _] at h
    obtain ⟨rest, hrest, h⟩ := h
    cases accepts_pure.mp h
    simp [ih hrest]

theorem length_of_methodSig {m : MethodDecl} {sig : MethodSig}
    (h : Accepts (ctx.methodSig m) sig) : sig.params.length = m.params.length := by
  unfold methodSig at h
  rw [accepts_bind fun _ => (ctx.resolveType_keeps _ _).bind fun _ => keeps_pure _] at h
  obtain ⟨params, hparams, h⟩ := h
  rw [accepts_bind fun _ => keeps_pure _] at h
  obtain ⟨returns, -, h⟩ := h
  cases accepts_pure.mp h
  exact length_of_paramTypes hparams

/-! ## Classes -/

/-- The signatures of a class are those found before and one for every further method, each of
another name. -/
theorem accepts_classMethods {className : String} {sigs result : Table MethodSig}
    {methods : List MethodDecl} (h : Accepts (ctx.classMethods className sigs methods) result) :
    (∀ {name sig}, sigs.get? name = some sig → result.get? name = some sig) ∧
      (∀ m ∈ methods, ∃ sig, result.get? m.name = some sig ∧ Accepts (ctx.methodSig m) sig) ∧
      (∀ {name sig}, result.get? name = some sig →
        sigs.get? name = some sig ∨ ∃ m ∈ methods, m.name = name) := by
  -- A name seen twice is reported, so no signature is ever replaced.
  induction methods generalizing sigs with
  | nil =>
    cases accepts_pure.mp h
    exact ⟨id, by simp, Or.inl⟩
  | cons m ms ih =>
    unfold classMethods at h
    rw [accepts_bind fun _ => Keeps.ite
      ((keeps_report _ _).bind fun _ => ctx.classMethods_keeps _ _ _)
      (ctx.classMethods_keeps _ _ _)] at h
    obtain ⟨msig, hmsig, h⟩ := h
    by_cases hseen : sigs.contains m.name = true
    · rw [if_pos hseen] at h
      exact absurd h (not_accepts_report_bind fun _ => ctx.classMethods_keeps _ _ _)
    rw [if_neg hseen] at h
    obtain ⟨hkept, hall, honly⟩ := ih h
    simp only [Table.get?_insert] at hkept honly
    have hfresh {name : String} {sig : MethodSig} (hname : sigs.get? name = some sig) :
        name ≠ m.name := by
      intro heq
      subst heq
      exact hseen (by simp [Table.contains, hname])
    refine ⟨?_, ?_, ?_⟩
    · intro name sig hname
      apply hkept
      rw [if_neg (hfresh hname), hname]
    · intro m' hm'
      rcases List.mem_cons.mp hm' with rfl | hm'
      · exact ⟨msig, hkept (if_pos rfl), hmsig⟩
      · exact hall m' hm'
    · intro name sig hname
      rcases honly hname with hname | ⟨m', hm', rfl⟩
      · by_cases heq : name = m.name
        · exact Or.inr ⟨m, by simp, heq.symm⟩
        · rw [if_neg heq] at hname
          exact Or.inl hname
      · exact Or.inr ⟨m', List.mem_cons_of_mem m hm', rfl⟩

/-- The methods of a class have pairwise different names. -/
theorem nodup_of_accepts {className : String} {sigs result : Table MethodSig}
    {methods : List MethodDecl} (h : Accepts (ctx.classMethods className sigs methods) result) :
    (methods.map MethodDecl.name).Nodup ∧
      ∀ name ∈ methods.map MethodDecl.name, sigs.contains name = false := by
  induction methods generalizing sigs with
  | nil => simp
  | cons m ms ih =>
    unfold classMethods at h
    rw [accepts_bind fun _ => Keeps.ite
      ((keeps_report _ _).bind fun _ => ctx.classMethods_keeps _ _ _)
      (ctx.classMethods_keeps _ _ _)] at h
    obtain ⟨msig, -, h⟩ := h
    by_cases hseen : sigs.contains m.name = true
    · rw [if_pos hseen] at h
      exact absurd h (not_accepts_report_bind fun _ => ctx.classMethods_keeps _ _ _)
    rw [if_neg hseen] at h
    obtain ⟨hnodup, hfresh⟩ := ih h
    have hother {name : String} (hname : name ∈ ms.map MethodDecl.name) :
        name ≠ m.name ∧ sigs.contains name = false := by
      have hnew := hfresh name hname
      unfold Table.contains at hnew ⊢
      rw [Table.get?_insert] at hnew
      by_cases heq : name = m.name
      · simp [heq] at hnew
      · rw [if_neg heq] at hnew
        exact ⟨heq, hnew⟩
    rw [List.map_cons, List.nodup_cons, List.forall_mem_cons, Bool.eq_false_iff]
    exact ⟨⟨fun hmem => (hother hmem).1 rfl, hnodup⟩, hseen, fun name hname => (hother hname).2⟩

theorem accepts_checkMethods {sigs : Table MethodSig} {methods : List MethodDecl} {u : Unit}
    (h : Accepts (ctx.checkMethods sigs methods) u) :
    ∀ m ∈ methods, ∀ {sig}, sigs.get? m.name = some sig →
      ∃ u, Accepts (ctx.checkMethod m sig) u := by
  induction methods with
  | nil => simp
  | cons m ms ih =>
    unfold checkMethods at h
    intro m' hm' sig hsig
    cases hfound : sigs.get? m.name with
    | none =>
      rw [hfound] at h
      rcases List.mem_cons.mp hm' with rfl | hm'
      · rw [hfound] at hsig
        cases hsig
      · exact ih h m' hm' hsig
    | some msig =>
      rw [hfound] at h
      simp only at h
      rw [accepts_bind fun _ => ctx.checkMethods_keeps _ _] at h
      obtain ⟨u', hmethod, h⟩ := h
      rcases List.mem_cons.mp hm' with rfl | hm'
      · cases hfound.symm.trans hsig
        exact ⟨u', hmethod⟩
      · exact ih h m' hm' hsig

/-- What the rules say of a class: under each name there is a well-typed method for the signature
of that name, or neither. -/
def ClassOk (ctx : Context) (decl : ClassDecl) (sig : ClassSig) : Prop :=
  ∀ name, match sig.methods.get? name with
    | some msig => ∃ m, decl.methods.find? (fun m => m.name == name) = some m ∧
        m.params.length = msig.params.length ∧ ctx.MethodOk m msig
    | none => decl.methods.find? (fun m => m.name == name) = none

theorem classOk_of_accepts (h : ctx.Sees env host) (hknown : env.Known) {decl : ClassDecl}
    {sig : ClassSig} (hdeclared : env.classes.get? decl.name = some sig)
    (haccepts : Accepts (ctx.checkClass decl) sig) :
    { ctx with pendingClass := some (decl.name, sig) }.ClassOk decl sig := by
  unfold checkClass at haccepts
  rw [accepts_bind fun _ => (checkMethods_keeps _ _ _).bind fun _ => keeps_pure _] at haccepts
  obtain ⟨sigs, hsigs, haccepts⟩ := haccepts
  rw [accepts_bind fun _ => keeps_pure _] at haccepts
  obtain ⟨u, hbodies, hsame⟩ := haccepts
  cases accepts_pure.mp hsame
  obtain ⟨-, hall, honly⟩ := accepts_classMethods hsigs
  have hsees := h.inClass hdeclared
  intro name
  cases hfind : decl.methods.find? (fun m => m.name == name) with
  | none =>
    cases hsig : sigs.get? name with
    | none => simp
    | some msig =>
      rcases honly hsig with hempty | ⟨m, hm, hname⟩
      · simp [Table.get?] at hempty
      · have hother := List.find?_eq_none.mp hfind m hm
        simp [hname] at hother
  | some m =>
    have hm := List.mem_of_find?_eq_some hfind
    have hname : m.name = name := by simpa using List.find?_some hfind
    obtain ⟨msig, hmsig, hwritten⟩ := hall m hm
    obtain ⟨u', hmethod⟩ := accepts_checkMethods hbodies m hm hmsig
    rw [hname] at hmsig
    simp only [hmsig]
    exact ⟨m, rfl, (length_of_methodSig hwritten).symm,
      methodOk_of_accepts hsees hknown (hknown.classes hdeclared hmsig) hmethod⟩

end Context

/-! ## Units -/

/-- The context of the code of a unit. -/
def unitContext (env : Env) (host : HostRegistry) (wrapper : String) : Context :=
  { env := env, host := host, wrapper := wrapper }

theorem unitContext_sees (env : Env) (host : HostRegistry) (wrapper : String) :
    (unitContext env host wrapper).Sees env host where
  sameEnv := rfl
  sameHost := rfl
  pendingClass hpending := by cases hpending
  pendingMethod hpending := by cases hpending

theorem unitContext_known {env : Env} (hknown : env.Known) (host : HostRegistry)
    (wrapper : String) : (unitContext env host wrapper).Known :=
  (unitContext_sees env host wrapper).known hknown (by simp [unitContext, Table.get?])

theorem check_eq_ok {item : Item} {env : Env} {host : HostRegistry} {wrapper : String}
    {checked : Checked} :
    item.check env host wrapper = .ok checked ↔
      Accepts ((unitContext env host wrapper).checkItem item) (some checked) := by
  unfold Item.check Accepts
  simp only
  split
  · rename_i found hrun
    constructor
    · intro h
      cases h
      exact hrun
    · intro h
      cases hrun.symm.trans h
      rfl
  · rename_i hrejected hrun
    constructor
    · intro h
      cases h
    · intro h
      cases hrun.symm.trans h
      exact absurd rfl (hrejected checked rfl)

variable {env : Env} {host : HostRegistry} {wrapper : String}

/-- A class that is accepted with the signature recorded for it is well typed. -/
theorem class_wellTyped (hknown : env.Known) {decl : ClassDecl} {sig : ClassSig}
    (hdeclared : env.classes.get? decl.name = some sig)
    (h : (Item.typeDecl decl).check env host wrapper = .ok (.typeDecl decl sig)) :
    ∃ ctx : Context, ctx.Sees env host ∧ ctx.ClassOk decl sig := by
  rw [check_eq_ok] at h
  unfold Context.checkItem at h
  rw [accepts_bind fun _ => keeps_pure _] at h
  obtain ⟨found, haccepts, h⟩ := h
  cases accepts_pure.mp h
  have hsees := unitContext_sees env host wrapper
  exact ⟨_, hsees.inClass hdeclared,
    Context.classOk_of_accepts hsees hknown hdeclared haccepts⟩

/-- A method that is accepted with the signature recorded for it is well typed. -/
theorem method_wellTyped (hknown : env.Known) {decl : MethodDecl} {sig : MethodSig}
    (hdeclared : env.methods.get? decl.name = some sig)
    (h : (Item.method decl).check env host wrapper = .ok (.method decl sig)) :
    decl.params.length = sig.params.length ∧
      ∃ ctx : Context, ctx.Sees env host ∧ ctx.MethodOk decl sig := by
  rw [check_eq_ok] at h
  unfold Context.checkItem at h
  rw [accepts_bind fun _ => (Context.checkMethod_keeps _ _ _).bind fun _ => keeps_pure _] at h
  obtain ⟨found, hfound, h⟩ := h
  rw [accepts_bind fun _ => keeps_pure _] at h
  obtain ⟨u, haccepts, h⟩ := h
  cases accepts_pure.mp h
  have hsees := (unitContext_sees env host wrapper).inMethod hdeclared
  exact ⟨(Context.length_of_methodSig hfound).symm, _, hsees,
    Context.methodOk_of_accepts hsees hknown (hknown.methods hdeclared) haccepts⟩

/-- What the rules say of a unit that is evaluated; declarations are none. -/
def Checked.WellTyped (ctx : Context) : Checked → Prop
  | .typeDecl _ _ | .method _ _ => True
  | .var decl type => ctx.Declares decl type
  | .expr value _ type => ctx.HasType value type
  | .throw value _ => ∃ type, ctx.HasType value type ∧ ctx.isThrowable type = true

/-- A unit that is accepted is well typed. -/
theorem unit_wellTyped (hknown : env.Known) {item : Item} {checked : Checked}
    (h : item.check env host wrapper = .ok checked) :
    checked.WellTyped (unitContext env host wrapper) := by
  rw [check_eq_ok] at h
  have hctx := unitContext_known hknown host wrapper
  unfold Context.checkItem at h
  match item with
  | .typeDecl decl =>
    rw [accepts_bind fun _ => keeps_pure _] at h
    obtain ⟨_, -, h⟩ := h
    cases accepts_pure.mp h
    trivial
  | .method decl =>
    rw [accepts_bind fun _ => (Context.checkMethod_keeps _ _ _).bind fun _ => keeps_pure _] at h
    obtain ⟨_, -, h⟩ := h
    rw [accepts_bind fun _ => keeps_pure _] at h
    obtain ⟨_, -, h⟩ := h
    cases accepts_pure.mp h
    trivial
  | .stmt (.var decl) =>
    rw [accepts_bind fun _ => keeps_pure _] at h
    obtain ⟨bound, hbound, h⟩ := h
    obtain ⟨type, rfl, hdeclares⟩ := Context.declares_of_accepts hctx hbound
    cases accepts_pure.mp h
    exact hdeclares
  | .stmt (.expr value line) =>
    rw [accepts_bind fun _ => keeps_pure _] at h
    obtain ⟨type, htype, h⟩ := h
    cases accepts_pure.mp h
    exact Context.hasType_of_accepts hctx value htype
  | .stmt (.throw value span line) =>
    rw [accepts_bind fun _ => keeps_pure _] at h
    obtain ⟨_, hvalue, h⟩ := h
    cases accepts_pure.mp h
    exact Context.throws_of_accepts hctx hvalue
  | .stmt (.ret value span line) =>
    exact absurd h (not_accepts_report_bind fun _ => keeps_pure _)

end ReplEngine.Language
