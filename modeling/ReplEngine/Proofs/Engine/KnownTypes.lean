import ReplEngine.Proofs.Engine.UnitHistory
import ReplEngine.Proofs.Typing.Met
set_option autoImplicit false

/-!
# Where types are unknown

The checker has one type for what it could not make out, and reports every expression that it gives
that type to.  There is one exception: `var` in place of what a method returns is resolved to it
without a report.  `unknown_iff_infersReturn` says that this is the only one, in an accepted unit
and over whole sessions, and `inferred_return_accepted` what comes of it.
-/

namespace ReplEngine.Language

variable {host : HostRegistry} {units : List String} {w : Workspace SessionState}
  {s : SessionState} {checked : Checked}

/-- What a unit without unknown types declares leaves no unknown type behind. -/
theorem known_envAfter (hknown : s.env.Known) (h : ¬ checked.Mentions .unknown) :
    (checked.envAfter s).Known := by
  have hinsert {name : String} {type : Ty} (htype : type ≠ .unknown) :
      { s.env with vars := s.env.vars.insert name type }.Known := by
    refine ⟨fun {key found} hfound => ?_, hknown.methods, hknown.classes⟩
    rw [Table.get?_insert] at hfound
    split at hfound
    · cases hfound
      exact htype
    · exact hknown.vars hfound
  cases checked with
  | typeDecl decl sig =>
    refine ⟨hknown.vars, hknown.methods, fun {name found method msig} hfound hmethod => ?_⟩
    replace hfound := (Table.get?_insert _ _ _ _).symm.trans hfound
    split at hfound
    · cases hfound
      exact MethodSig.known_iff.mpr fun hmentions => h (.member hmethod hmentions)
    · exact hknown.classes hfound hmethod
  | method decl sig =>
    refine ⟨hknown.vars, fun {name found} hfound => ?_, hknown.classes⟩
    replace hfound := (Table.get?_insert _ _ _ _).symm.trans hfound
    split at hfound
    · cases hfound
      exact MethodSig.known_iff.mpr fun hmentions => h (.method hmentions)
    · exact hknown.methods hfound
  | var decl type => exact hinsert fun heq => h (heq ▸ .var)
  | expr value line type =>
    unfold Checked.envAfter
    simp only
    split
    · exact hknown
    · exact hinsert fun heq => h (heq ▸ .expr)
  | throw value line => exact hknown

theorem known_empty : ({} : Env).Known :=
  ⟨nofun, nofun, nofun⟩

/-- Where no unit writes `var` for what a method returns, nothing that the session has declared has
an unknown type. -/
theorem SessionOf.known (h : SessionOf host units w)
    (hunits : ∀ source ∈ units, ∀ item, Item.parse source = .ok item → ¬ item.InfersReturn) :
    w.state.env.Known := by
  induction h with
  | start => exact known_empty
  | entry _ files path ih => exact ih hunits
  | extended _ files paths ih =>
    rw [extend_keeps]
    exact ih hunits
  | @evaluated units w _ files source hopen ih =>
    rw [List.forall_mem_cons] at hunits
    have hknown := ih hunits.2
    rcases afterUnit_rejected_or_accepted files source hopen with
      ⟨snippet, diags, hafter⟩ | ⟨item, checked, hparse, hcheck, hleaves⟩
    · rw [hafter]
      exact hknown
    · rw [hleaves.env]
      refine known_envAfter hknown fun hmentions => hunits.1 item hparse ?_
      have hparams := fun m hm p hp => ne_infer_of_parse (m := m) (p := p) hparse hm hp
      exact (mentions_unknown_iff hparams hknown hcheck).mp hmentions
  | printedTaken _ ih => exact ih hunits
  | @closed units w _ ih =>
    rcases close_state w with hsame | hclosed
    · rw [hsame]
      exact ih hunits
    · rw [hclosed]
      exact known_empty

/-- The methods that an accepted unit declares are those that it is written with. -/
theorem mem_methods_of_declares {item : Item} {env : Env} {wrapper : String}
    (hcheck : item.check env host wrapper = .ok checked) {m : MethodDecl} {sig : MethodSig}
    (h : checked.Declares m sig) : m ∈ item.methods := by
  cases checked with
  | typeDecl decl declared =>
    rw [(item_of_check hcheck).1 decl declared rfl]
    exact h.1
  | method decl declared =>
    rw [(item_of_check hcheck).2 decl declared rfl]
    exact List.mem_singleton.mpr h.1
  | _ => exact absurd h id

/-- **Unknown types.**  Let nothing that was declared before have an unknown type.  In a unit that
is accepted:
- the parameters of the methods that it declares have known types, and what such a method returns is
  unknown exactly if it is written `var`;
- nothing else in what the unit was accepted as is unknown;
- the check met an unknown type, for an expression or a part of one, for a local, or in a signature
  that it fitted arguments or returned values against, exactly if there is such a method.

In a session no unit of which declares such a method, nothing declared ever has an unknown type. -/
theorem unknown_iff_infersReturn (host : HostRegistry) :
    (∀ source item env wrapper checked, Item.parse source = .ok item → env.Known →
      item.check env host wrapper = .ok checked →
      (∀ m sig, checked.Declares m sig → m ∈ item.methods ∧
        (∀ type ∈ sig.params, type ≠ .unknown) ∧ (sig.returns = .unknown ↔ m.returns = .infer)) ∧
      (checked.Mentions .unknown ↔ item.InfersReturn) ∧
      ((unitContext env host wrapper).ItemMeets item .unknown ↔ item.InfersReturn)) ∧
    ∀ units w, SessionOf host units w →
      (∀ source ∈ units, ∀ item, Item.parse source = .ok item → ¬ item.InfersReturn) →
      w.state.env.Known := by
  refine ⟨fun source item env wrapper checked hparse hknown hcheck => ?_,
    fun units w h => h.known⟩
  have hparams (m : MethodDecl) (hm : m ∈ item.methods) (p : Param) (hp : p ∈ m.params) :
      p.type ≠ .infer :=
    ne_infer_of_parse hparse hm hp
  refine ⟨fun m sig hm => ?_, mentions_unknown_iff hparams hknown hcheck,
    meets_unknown_iff hparams hknown hcheck⟩
  have hmem := mem_methods_of_declares hcheck hm
  have haccepts := acceptsMethod_of_declares (s := { host := host, env := env }) hcheck hm
  exact ⟨hmem, Context.unknown_methodSig haccepts.written (hparams m hmem)⟩

/-- `int f(int n) { return n; }`, and the session in which `int x = 1;` has been evaluated. -/
theorem unknown_iff_infersReturn_declared :
    let identity : MethodDecl :=
      ⟨.int, "f", [⟨.int, "n"⟩], [.ret (some (.name "n" ⟨22, 23⟩)) ⟨15, 23⟩ 1], ⟨4, 5⟩⟩
    ¬ (unitContext {} .standard "").ItemMeets (.method identity) .unknown ∧
      (workspaceAfter ["int x = 1;"]).state.env.Known := by
  intro identity
  obtain ⟨hunit, hsession⟩ := unknown_iff_infersReturn .standard
  have hparse : Item.parse "int f(int n) { return n; }" = .ok (.method identity) := by cbv
  have hcheck : (Item.method identity).check {} .standard "" =
      .ok (.method identity ⟨[.int], .int⟩) := by cbv
  obtain ⟨-, -, hmeets⟩ := hunit _ _ {} "" _ hparse known_empty hcheck
  constructor
  · rw [hmeets]
    rintro ⟨m, hm, hinfer⟩
    cases List.mem_singleton.mp hm
    cases hinfer
  · refine hsession ["int x = 1;"] _ (SessionOf.start.evaluated {} "int x = 1;" rfl) ?_
    intro source hsource item hitem
    cases List.mem_singleton.mp hsource
    have hvar : Item.parse "int x = 1;" =
        .ok (.stmt (.var ⟨.int, "x", some (.int 1 ⟨8, 9⟩), ⟨0, 9⟩, 1⟩)) := by cbv
    cases hvar.symm.trans hitem
    rintro ⟨m, hm, -⟩
    exact List.not_mem_nil hm

/-- `var f() { return 1; }` is accepted in a new session.  What it returns is unknown, so that a
`boolean` may be initialized with a call of it, and holds a number. -/
theorem inferred_return_accepted :
    (∃ decl, Item.parse "var f() { return 1; }" = .ok (.method decl) ∧
      (Item.method decl).check {} .standard (wrapperClass 1) =
        .ok (.method decl ⟨[], .unknown⟩)) ∧
    ({} : Env).Known ∧
    let after := (workspaceAfter ["var f() { return 1; }", "boolean b = f();"]).state
    after.env.methods.get? "f" = some ⟨[], .unknown⟩ ∧
      after.env.vars.get? "b" = some .boolean ∧
      after.globals.vars.get? "b" = some (.int 1) := by
  refine ⟨⟨⟨.infer, "f", [], [.ret (some (.int 1 ⟨17, 18⟩)) ⟨10, 18⟩ 1], ⟨4, 5⟩⟩, ?_, ?_⟩,
    known_empty, ?_⟩
  · cbv
  · cbv
  · cbv

end ReplEngine.Language
