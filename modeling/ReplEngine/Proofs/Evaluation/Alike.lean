import Mathlib.Data.List.Forall2
import ReplEngine.Language.Evaluation
import ReplEngine.Proofs.ClassSpace.Lockstep
set_option autoImplicit false

/-!
# Values and worlds that are alike

What two sessions that number code differently have in common.  Stack frames name the class and the
number of their code; exceptions carry frames, objects carry classes, and frames, methods and worlds
carry these.  What a value shows is the same on both sides (`Value.Alike.render_eq`): no number can
be seen in it.
-/

namespace ReplEngine

/-! ## Tables -/

/-- Tables with the same names, and related values under them. -/
def Table.Alike {α : Type} (post : α → α → Prop) (t u : Table α) : Prop :=
  ∀ name, Option.Rel post (t.get? name) (u.get? name)

section

variable {α : Type} {post post' : α → α → Prop}

theorem optionRel_imp {x y : Option α} (h : Option.Rel post x y)
    (himp : ∀ a b, post a b → post' a b) : Option.Rel post' x y := by
  cases h with
  | none => exact .none
  | some h => exact .some (himp _ _ h)

theorem optionRel_or {x y x' y' : Option α} (h : Option.Rel post x y)
    (h' : Option.Rel post x' y') : Option.Rel post (x.or x') (y.or y') := by
  cases h with
  | none => exact h'
  | some h => exact .some h

theorem Table.alike_empty : (Table.empty : Table α).Alike post Table.empty := fun _ => .none

theorem Table.Alike.insert {t u : Table α} (h : t.Alike post u) (name : String) {a b : α}
    (hvalue : post a b) : (t.insert name a).Alike post (u.insert name b) := by
  intro key
  rw [Table.get?_insert, Table.get?_insert]
  by_cases hkey : key = name
  · rw [if_pos hkey, if_pos hkey]
    exact .some hvalue
  · rw [if_neg hkey, if_neg hkey]
    exact h key

theorem Table.Alike.imp {t u : Table α} (h : t.Alike post u)
    (himp : ∀ a b, post a b → post' a b) : t.Alike post' u :=
  fun name => optionRel_imp (h name) himp

/-- Related values under the same names. -/
theorem Table.ofList_zip_alike (names : List String) {as bs : List α}
    (h : List.Forall₂ post as bs) :
    (Table.ofList (names.zip as)).Alike post (Table.ofList (names.zip bs)) := by
  have hfold (names : List String) {as bs : List α} (h : List.Forall₂ post as bs) :
      ∀ {t u : Table α}, t.Alike post u →
        ((names.zip as).foldl (fun t p => t.insert p.1 p.2) t).Alike post
          ((names.zip bs).foldl (fun t p => t.insert p.1 p.2) u) := by
    induction h generalizing names with
    | nil => cases names <;> exact fun htables => htables
    | cons hvalue _ ih =>
      cases names with
      | nil => exact fun htables => htables
      | cons name names => exact fun htables => ih names (htables.insert name hvalue)
  exact hfold names h Table.alike_empty

end

/-! ## Exceptions -/

/-- Lines of a stack trace at the same place of code. -/
inductive StackFrame.Alike (T : Renumbering) : StackFrame → StackFrame → Prop where
  | of_code {c d : Code} (h : T c d) (method : String) (line : UInt32) :
      Alike T ⟨c.className, method, some (Language.snippetFile c.snippet), some line⟩
        ⟨d.className, method, some (Language.snippetFile d.snippet), some line⟩

/-- Links with the same class and message, and alike stack traces. -/
structure Link.Alike (T : Renumbering) (k l : Link) : Prop where
  className : l.className = k.className
  message : l.message = k.message
  frames : List.Forall₂ (StackFrame.Alike T) k.frames l.frames

/-- Exceptions with alike links. -/
structure Descriptor.Alike (T : Renumbering) (d e : Descriptor) : Prop where
  link : d.link.Alike T e.link
  causes : List.Forall₂ (Link.Alike T) d.causes e.causes

variable {T U : Renumbering}

theorem StackFrame.Alike.mono {f g : StackFrame} (h : f.Alike T g) (hle : T ≤ U) :
    f.Alike U g := by
  cases h with
  | of_code h method line => exact .of_code (hle _ _ h) method line

theorem Link.Alike.mono {k l : Link} (h : k.Alike T l) (hle : T ≤ U) : k.Alike U l :=
  ⟨h.className, h.message, h.frames.imp fun _ _ hframe => hframe.mono hle⟩

namespace Descriptor.Alike

variable {d e : Descriptor}

theorem mono (h : d.Alike T e) (hle : T ≤ U) : d.Alike U e :=
  ⟨h.link.mono hle, h.causes.imp fun _ _ hlink => hlink.mono hle⟩

theorem header_eq (h : d.Alike T e) : e.header = d.header := by
  unfold Descriptor.header
  rw [h.link.className, h.link.message]

theorem withCause {k l : Link} (h : k.Alike T l) {cause cause' : Option Descriptor}
    (hcause : Option.Rel (Descriptor.Alike T) cause cause') :
    (Descriptor.withCause k cause).Alike T (Descriptor.withCause l cause') := by
  cases hcause with
  | none => exact ⟨h, .nil⟩
  | some hcause => exact ⟨h, .cons hcause.link hcause.causes⟩

end Descriptor.Alike

namespace Language

/-! ## Values -/

/-- Values that are the same but for the numbers of snippets. -/
inductive Value.Alike (T : Renumbering) : Value → Value → Prop where
  | int (n : Int32) : Alike T (.int n) (.int n)
  | bool (b : Bool) : Alike T (.bool b) (.bool b)
  | string (s : String) : Alike T (.string s) (.string s)
  | null : Alike T .null .null
  | void : Alike T .void .void
  | object {c c' : ClassObject} (h : c.Alike T c') (identity : UInt32) :
      Alike T (.object c identity) (.object c' identity)
  | exception {d e : Descriptor} (h : d.Alike T e) : Alike T (.exception d) (.exception e)

namespace Value.Alike

variable {v v' : Value}

theorem mono (h : v.Alike T v') (hle : T ≤ U) : v.Alike U v' := by
  cases h with
  | int n => exact .int n
  | bool b => exact .bool b
  | string s => exact .string s
  | null => exact .null
  | void => exact .void
  | object h identity => exact .object (h.mono hle) identity
  | exception h => exact .exception (h.mono hle)

theorem display_eq (h : v.Alike T v') : v'.display = v.display := by
  cases h with
  | object h identity => exact congrArg (· ++ "@" ++ hex identity.toNat) h.name_eq
  | exception h => exact h.header_eq
  | _ => rfl

theorem render_eq (h : v.Alike T v') : v'.render = v.render := by
  have hdisplay := h.display_eq
  cases h with
  | string s => rfl
  | _ => exact hdisplay

theorem toMessage_eq (h : v.Alike T v') : v'.toMessage = v.toMessage := by
  have hdisplay := h.display_eq
  cases h with
  | null => rfl
  | _ => exact congrArg some hdisplay

end Value.Alike

theorem default_alike (T : Renumbering) (type : Ty) :
    (Value.default type).Alike T (Value.default type) := by
  cases type with
  | int => exact .int 0
  | boolean => exact .bool false
  | _ => exact .null

/-- The same message and alike causes come of alike arguments. -/
theorem exceptionArgs_alike {vs vs' : List Value} (h : List.Forall₂ (Value.Alike T) vs vs') :
    (exceptionArgs vs').1 = (exceptionArgs vs).1 ∧
      Option.Rel (Descriptor.Alike T) (exceptionArgs vs).2 (exceptionArgs vs').2 := by
  have hcause (message : Value) (cause : Descriptor) :
      exceptionArgs [message, .exception cause] = (message.toMessage, some cause) := by
    cases message <;> rfl
  have hmany (message second third : Value) (rest : List Value) :
      exceptionArgs (message :: second :: third :: rest) = (message.toMessage, none) := by
    cases message <;> cases second <;> rfl
  cases h with
  | nil => exact ⟨rfl, .none⟩
  | cons hfirst hrest =>
    have hmessage := hfirst.toMessage_eq
    cases hrest with
    | nil =>
      cases hfirst with
      | exception h => exact ⟨congrArg some h.header_eq, .some h⟩
      | _ => exact ⟨hmessage, .none⟩
    | cons hsecond hrest =>
      cases hrest with
      | cons _ _ =>
        rw [hmany, hmany]
        exact ⟨hmessage, .none⟩
      | nil =>
        cases hsecond with
        | exception h =>
          rw [hcause, hcause]
          exact ⟨hmessage, .some h⟩
        | _ => cases hfirst <;> exact ⟨hmessage, .none⟩

/-! ## Frames, methods and worlds -/

/-- The code of the top level of a snippet. -/
def unitCode (snippet : UInt32) : Code := ⟨wrapperClass snippet, snippet⟩

/-- Frames of the same code. -/
structure Frame.Alike (T : Renumbering) (f g : Frame) : Prop where
  code : T ⟨f.className, f.snippet⟩ ⟨g.className, g.snippet⟩
  method : g.method = f.method
  line : g.line = f.line
  locals : f.locals.Alike (Value.Alike T) g.locals

theorem Frame.Alike.mono {f g : Frame} (h : f.Alike T g) (hle : T ≤ U) : f.Alike U g where
  code := hle _ _ h.code
  method := h.method
  line := h.line
  locals := h.locals.imp fun _ _ hvalue => hvalue.mono hle

theorem Frame.Alike.toStackFrame {f g : Frame} (h : f.Alike T g) :
    f.toStackFrame.Alike T g.toStackFrame := by
  obtain ⟨className, method, snippet, line, locals⟩ := f
  obtain ⟨className', method', snippet', line', locals'⟩ := g
  obtain ⟨hcode, rfl, rfl, -⟩ := h
  exact .of_code hcode _ _

/-- Stacks of the same calls. -/
abbrev Stack.Alike (T : Renumbering) : Stack → Stack → Prop := List.Forall₂ (Frame.Alike T)

theorem Stack.Alike.mono {stack stack' : Stack} (h : Stack.Alike T stack stack') (hle : T ≤ U) :
    Stack.Alike U stack stack' :=
  h.imp fun _ _ hframe => hframe.mono hle

/-- The stack traces of stacks of the same calls. -/
theorem Stack.Alike.traces {stack stack' : Stack} (h : Stack.Alike T stack stack') :
    List.Forall₂ (StackFrame.Alike T) (stack.map Frame.toStackFrame)
      (stack'.map Frame.toStackFrame) :=
  List.rel_map (fun _ _ hframe => hframe.toStackFrame) h

/-- Methods that are the same but for the numbers of their snippets. -/
structure MethodDef.Alike (T : Renumbering) (m m' : MethodDef) : Prop where
  decl : m'.decl = m.decl
  code : T (unitCode m.snippet) (unitCode m'.snippet)

/-- What two sessions keep between units. -/
structure Globals.Alike (T : Renumbering) (g g' : Globals) : Prop where
  vars : g.vars.Alike (Value.Alike T) g'.vars
  methods : g.methods.Alike (MethodDef.Alike T) g'.methods
  objects : g'.objects = g.objects

theorem Globals.Alike.mono {g g' : Globals} (h : g.Alike T g') (hle : T ≤ U) : g.Alike U g' where
  vars := h.vars.imp fun _ _ hvalue => hvalue.mono hle
  methods := h.methods.imp fun _ _ hmethod => ⟨hmethod.decl, hle _ _ hmethod.code⟩
  objects := h.objects

/-- Worlds that are the same but for the numbers of snippets. -/
structure World.Alike (T : Renumbering) (w w' : World) : Prop where
  globals : w.globals.Alike T w'.globals
  loader : w.loader.Alike T w'.loader
  printed : w'.printed = w.printed

theorem World.Alike.mono {w w' : World} (h : w.Alike T w') (hle : T ≤ U) : w.Alike U w' :=
  ⟨h.globals.mono hle, h.loader.mono hle, h.printed⟩

end Language

end ReplEngine
