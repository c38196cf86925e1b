import ReplEngine.Language.SnippetCompiler
import ReplEngine.Proofs.ClassSpace.Resolution
import ReplEngine.Proofs.Syntax.Sizes
import ReplEngine.Proofs.Typing.Members
set_option autoImplicit false

/-!
# Checker and run time agree

When a value has a type, and when what the checker knows of a session is what the session holds:
its variables, its methods, and the newest versions of its classes.
-/

namespace ReplEngine

/-- The class is what its name stands for: the newest version installed under the name, or a
standard class where no version is. -/
def Loader.Current (l : Loader) (cls : ClassObject) : Prop :=
  match l.newest? cls.name with
  | some newest => newest = .ok cls
  | none => (HostRegistry.standard.find? cls.name).map LiveClass.object = some cls

namespace Language

/-! ## Values and types -/

/-- The value has the type.  Objects are of the current class of their name; `lang.Object` has
every value that a reference can have. -/
def Conforms (l : Loader) : Ty → Value → Prop
  | .int, .int _ => True
  | .boolean, .bool _ => True
  | .string, .string _ => True
  | .void, .void => True
  | type, .null => type.isReference = true
  | .object name, .string _ => name = Lang.object
  | .object name, .exception d =>
    name = Lang.object ∨
      (name = d.link.className ∧ (HostRegistry.standard.exceptionType? name).isSome = true)
  | .object name, .object cls _ =>
    l.Current cls ∧ (name = Lang.object ∨ (name = cls.name ∧ cls.body.classFile?.isSome = true))
  | _, _ => False

variable {l : Loader}

/-- What a value conforms to depends on the loader only in what class names stand for. -/
theorem Conforms.congr {l' : Loader} (hnewest : l'.newest? = l.newest?) {type : Ty} {v : Value}
    (h : Conforms l type v) : Conforms l' type v := by
  cases v with
  | object cls identity =>
    cases type with
    | object name =>
      obtain ⟨hcurrent, hname⟩ := h
      refine ⟨?_, hname⟩
      unfold Loader.Current at hcurrent ⊢
      rw [hnewest]
      exact hcurrent
    | _ => exact h
  | _ => cases type <;> exact h

theorem conforms_null {type : Ty} (h : type.isReference = true) : Conforms l type .null := by
  cases type <;> exact h

/-- Every value of a reference type is one of `lang.Object`. -/
theorem Conforms.toObject {type : Ty} {v : Value} (h : Conforms l type v)
    (hreference : type.isReference = true) : Conforms l (.object Lang.object) v := by
  cases v with
  | null => rfl
  | string s => rfl
  | exception d => exact Or.inl rfl
  | object cls identity =>
    cases type with
    | object name => exact ⟨h.1, Or.inl rfl⟩
    | _ => cases h
  | _ =>
    cases type with
    | int => cases hreference
    | boolean => cases hreference
    | void => cases hreference
    | _ => cases h

/-- A value fits wherever its type does. -/
theorem Conforms.assign {source target : Ty} {v : Value} (h : Conforms l source v)
    (hfits : source.assignable target = true) (hknown : target ≠ .unknown) :
    Conforms l target v := by
  have hsource : source ≠ .unknown := by
    intro hunknown
    subst hunknown
    cases v <;> cases h
  simp only [Ty.assignable, Bool.or_eq_true, Bool.and_eq_true, beq_iff_eq, hknown, hsource,
    or_false] at hfits
  rcases hfits with (hsame | ⟨hnull, hreference⟩) | ⟨hreference, hobject⟩
  · exact hsame ▸ h
  · subst hnull
    cases v with
    | null => exact conforms_null hreference
    | _ => cases h
  · exact hobject ▸ h.toObject hreference

theorem conforms_int {v : Value} (h : Conforms l .int v) : ∃ n, v = .int n := by
  cases v with
  | int n => exact ⟨n, rfl⟩
  | _ => cases h

/-- The values have the types, one by one. -/
def ConformAll (l : Loader) : List Ty → List Value → Prop
  | [], [] => True
  | type :: types, v :: vs => Conforms l type v ∧ ConformAll l types vs
  | _, _ => False

/-- Arguments that a signature accepts conform to its parameters. -/
theorem ConformAll.accepted {sig : MethodSig} (hknown : sig.Known) {types : List Ty}
    {vs : List Value} (h : ConformAll l types vs) (haccepts : sig.accepts types = true) :
    ConformAll l sig.params vs := by
  rw [MethodSig.accepts, Bool.and_eq_true, beq_iff_eq] at haccepts
  obtain ⟨hlength, hfits⟩ := haccepts
  have hparams := hknown.params
  generalize sig.params = params at hlength hfits hparams ⊢
  induction types generalizing vs params with
  | nil =>
    cases List.length_eq_zero_iff.mp hlength
    exact h
  | cons type types ih =>
    cases params with
    | nil => cases hlength
    | cons param params =>
      cases vs with
      | nil => cases h
      | cons v vs =>
        simp only [List.zip_cons_cons, List.all_cons, Bool.and_eq_true] at hfits
        refine ⟨h.1.assign hfits.1 (hparams param (by simp)), ih h.2 params ?_ hfits.2 ?_⟩
        · simpa using hlength
        · intro other hother
          exact hparams other (List.mem_cons_of_mem param hother)

/-! ## Sessions -/

/-- What the checker knows of a session is what the session and its loader hold. -/
structure Agrees (s : SessionState) (l : Loader) : Prop where
  host : s.host.Standard
  plain : l.Plain
  known : s.env.Known
  /-- The installed names are those of the declared classes. -/
  installed : ∀ name, l.versions name ≠ [] ↔ s.env.classes.contains name = true
  /-- Names of classes are identifiers, those of standard classes are not. -/
  notStandard : ∀ {name}, s.env.classes.contains name = true →
    HostRegistry.standard.contains name = false
  vars : ∀ {name type}, s.env.vars.get? name = some type →
    ∃ v, s.globals.vars.get? name = some v ∧ Conforms l type v
  methods : ∀ {name sig}, s.env.methods.get? name = some sig →
    ∃ m wrapper, s.globals.methods.get? name = some m ∧ m.decl.name = name ∧
      (Item.method m.decl).check s.env s.host wrapper = .ok (.method m.decl sig)
  noMethods : ∀ {name}, s.env.methods.get? name = none → s.globals.methods.get? name = none
  classes : ∀ {name sig}, s.env.classes.get? name = some sig →
    ∃ origin decl snippet wrapper,
      l.newest? name = some (.ok ⟨name, origin, .snippet (.ofDecl decl snippet)⟩) ∧
      decl.name = name ∧
      (Item.typeDecl decl).check s.env s.host wrapper = .ok (.typeDecl decl sig)
  /-- Every value can be shown as a text. -/
  shown : ∀ {name sig msig}, s.env.classes.get? name = some sig →
    sig.methods.get? "toString" = some msig → msig = ⟨[], .string⟩

/-- No class that is read from a source has the name of a standard class: its name has no dot. -/
theorem notStandard_of_parse {source : String} {decl : ClassDecl}
    (h : Item.parse source = .ok (.typeDecl decl)) :
    HostRegistry.standard.contains decl.name = false := by
  have hdots : ∀ name ∈ Lang.object :: Lang.exceptions, '.' ∈ name.toList := by decide
  rw [← Bool.not_eq_true]
  intro hstandard
  have hdot := word_of_parse h _ (hdots _ (HostRegistry.mem_of_standard hstandard))
  exact absurd hdot (by decide)

/-- A new session agrees with a new loader: nothing is declared yet. -/
theorem agrees_new (definer : Definer) :
    Agrees { host := .standard } { definer := definer, host := .standard } where
  host _ := rfl
  plain := ⟨fun _ => rfl, rfl, fun _ => rfl⟩
  known := ⟨by simp [Table.get?], by simp [Table.get?], by simp [Table.get?]⟩
  installed _ := by simp [Loader.versions, Table.get?, Table.contains]
  notStandard := by simp [Table.get?, Table.contains]
  vars := by simp [Table.get?]
  methods := by simp [Table.get?]
  noMethods _ := rfl
  classes := by simp [Table.get?]
  shown := by simp [Table.get?]

namespace Agrees

variable {s : SessionState}

theorem newest?_isSome (ha : Agrees s l) (name : String) :
    (l.newest? name).isSome = true ↔ s.env.classes.contains name = true := by
  rw [← ha.installed name, Option.isSome_iff_ne_none, ne_eq, Loader.newest?_eq_none]

theorem newest?_none (ha : Agrees s l) {name : String}
    (h : s.env.classes.contains name = false) : l.newest? name = none := by
  rw [← Option.not_isSome_iff_eq_none, ha.newest?_isSome, h]
  simp

/-- A standard class is not shadowed. -/
theorem notInstalled (ha : Agrees s l) {name : String}
    (h : HostRegistry.standard.contains name = true) : s.env.classes.contains name = false := by
  cases hclass : s.env.classes.contains name with
  | false => rfl
  | true =>
    rw [ha.notStandard hclass] at h
    cases h

/-- A current class is declared, or is a standard one. -/
theorem current_cases (ha : Agrees s l) {cls : ClassObject} (hcurrent : l.Current cls) :
    (∃ origin decl snippet sig wrapper,
      cls = ⟨decl.name, origin, .snippet (.ofDecl decl snippet)⟩ ∧
      s.env.classes.get? decl.name = some sig ∧
      (Item.typeDecl decl).check s.env s.host wrapper = .ok (.typeDecl decl sig)) ∨
    ∃ c, HostRegistry.standard.find? cls.name = some c ∧ c.object = cls := by
  unfold Loader.Current at hcurrent
  cases hnewest : l.newest? cls.name with
  | some newest =>
    rw [hnewest] at hcurrent
    have hclass := (ha.newest?_isSome cls.name).mp (by rw [hnewest]; rfl)
    obtain ⟨sig, hsig⟩ := Option.isSome_iff_exists.mp hclass
    have hsig : s.env.classes.get? cls.name = some sig := hsig
    obtain ⟨origin, decl, snippet, wrapper, hversion, hname, hcheck⟩ := ha.classes hsig
    rw [hnewest, hcurrent, ← hname] at hversion
    rw [← hname] at hsig
    exact Or.inl ⟨origin, decl, snippet, sig, wrapper, Except.ok.inj (Option.some.inj hversion),
      hsig, hcheck⟩
  | none =>
    rw [hnewest] at hcurrent
    exact Or.inr (Option.map_eq_some_iff.mp hcurrent)

/-- A class with a class file is declared under its name. -/
theorem not_standard_of_classFile (ha : Agrees s l) {cls : ClassObject}
    (hcurrent : l.Current cls) (hfile : cls.body.classFile?.isSome = true) :
    HostRegistry.standard.contains cls.name = false := by
  rcases ha.current_cases hcurrent with
    ⟨origin, decl, snippet, sig, wrapper, rfl, hsig, -⟩ | ⟨c, hfind, hobject⟩
  · exact ha.notStandard (by simp [Table.contains, hsig])
  · rw [← hobject, HostRegistry.classFile?_of_standard hfind] at hfile
    cases hfile

/-- The values of an exception type are its exceptions and `null`. -/
theorem exception_of_conforms (ha : Agrees s l) {name : String} {v : Value}
    (h : Conforms l (.object name) v)
    (htype : (HostRegistry.standard.exceptionType? name).isSome = true) :
    v = .null ∨ ∃ d, v = .exception d := by
  have hobject := HostRegistry.ne_object_of_exceptionType htype
  cases v with
  | null => exact Or.inl rfl
  | exception d => exact Or.inr ⟨d, rfl⟩
  | string text => exact absurd h hobject
  | object cls identity =>
    obtain ⟨hcurrent, hname | ⟨hname, hfile⟩⟩ := h
    · exact absurd hname hobject
    · have hstandard := HostRegistry.contains_of_exceptionType htype
      rw [hname, ha.not_standard_of_classFile hcurrent hfile] at hstandard
      cases hstandard
  | _ => cases h

/-- The values of a throwable type are exceptions and `null`. -/
theorem throwable_of_conforms (ha : Agrees s l) {ctx : Context} (hsees : ctx.Sees s.env s.host)
    {type : Ty} {v : Value} (h : Conforms l type v) (hthrow : ctx.isThrowable type = true) :
    v = .null ∨ ∃ d, v = .exception d := by
  cases type with
  | null =>
    cases v with
    | null => exact Or.inl rfl
    | _ => cases h
  | object name =>
    apply ha.exception_of_conforms h
    rw [← ha.host.exceptionType?, ← hsees.exceptionType?]
    simpa [Context.isThrowable] using hthrow
  | unknown => cases v <;> cases h
  | _ => simp [Context.isThrowable, Context.exceptionType?] at hthrow

end Agrees

end Language

end ReplEngine
