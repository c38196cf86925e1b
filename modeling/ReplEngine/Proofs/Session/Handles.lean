import ReplEngine.Proofs.Session.Registry
set_option autoImplicit false

/-!
# Sessions that are used past the registry

Whoever starts a session, or gets the one that is active for a key, can give it inputs and end it
without the registry.  The registry does not learn of that: a session that is ended so stays
active for its key, where it refuses every input and no other session can be started
(`registered_sessions`).  No operation of the registry itself leaves an ended session active.
-/

namespace ReplEngine.SessionRegistry

/-- What can be done with a registry and with the sessions that were started in it. -/
inductive Act where
  | ask (op : Op)
  | useOf (id : SessionId) (use : Session.Use)

/-- Ends the session of this number, past the registry. -/
def Act.Ends (id : SessionId) : Act → Prop
  | ask _ => False
  | useOf i use => i = id ∧ use.Ends

def perform (files : FileTree) (r : SessionRegistry) : Act → SessionRegistry
  | .ask op => (step files r op).2
  | .useOf id (.input text) => (r.acceptOn files id text).2
  | .useOf id .finish => (r.endOn id).2

/-- The registry when acts have been performed, from an empty one on. -/
def afterActs (files : FileTree) (acts : List Act) : SessionRegistry :=
  acts.foldl (perform files) {}

/-- The session of this number has been ended past the registry. -/
def EndedOnHandle (files : FileTree) (acts : List Act) (id : SessionId) : Prop :=
  ∃ before act later, acts = before ++ act :: later ∧ act.Ends id ∧
    id < (afterActs files before).sessions.length

variable {files : FileTree} {acts : List Act} {act : Act} {id : SessionId} {r : SessionRegistry}
  {s : Session} {key : String}

theorem afterActs_concat (files : FileTree) (acts : List Act) (act : Act) :
    afterActs files (acts ++ [act]) = perform files (afterActs files acts) act :=
  List.foldl_concat ..

theorem endedOnHandle_concat :
    EndedOnHandle files (acts ++ [act]) id ↔
      EndedOnHandle files acts id ∨
        (act.Ends id ∧ id < (afterActs files acts).sessions.length) := by
  constructor
  · rintro ⟨before, ending, later, heq, hends, hlt⟩
    rcases List.eq_nil_or_concat later with rfl | ⟨later, last, rfl⟩
    · obtain ⟨rfl, hact⟩ := List.append_inj' heq rfl
      cases hact
      exact .inr ⟨hends, hlt⟩
    · rw [List.concat_eq_append, ← List.cons_append, ← List.append_assoc] at heq
      obtain ⟨rfl, -⟩ := List.append_inj' heq rfl
      exact .inl ⟨before, ending, later, rfl, hends, hlt⟩
  · rintro (⟨before, ending, later, rfl, hends, hlt⟩ | ⟨hends, hlt⟩)
    · exact ⟨before, ending, later ++ [act], by simp, hends, hlt⟩
    · exact ⟨acts, act, [], rfl, hends, hlt⟩

/-! ## One act -/

theorem perform_useOf (files : FileTree) (r : SessionRegistry) (id : SessionId)
    (use : Session.Use) :
    perform files r (.useOf id use) =
      match r.session? id with
      | none => r
      | some s => r.setSession id (use.leaves files s) := by
  cases use with
  | input text =>
    show (r.acceptOn files id text).2 = _
    unfold acceptOn
    cases r.session? id <;> rfl
  | finish =>
    show (r.endOn id).2 = _
    unfold endOn
    cases r.session? id <;> rfl

/-! ## All acts -/

/-- What holds of every registry that acts lead to. -/
structure Kept (files : FileTree) (acts : List Act) : Prop where
  wellFormed : (afterActs files acts).WellFormed
  steady : (afterActs files acts).AllSteady
  ended_lt : ∀ id, EndedOnHandle files acts id → id < (afterActs files acts).sessions.length
  ended_iff : ∀ key id s, (afterActs files acts).get? key = some id →
    (afterActs files acts).session? id = some s → (s.ended = true ↔ EndedOnHandle files acts id)

theorem kept_nil (files : FileTree) : Kept files [] where
  wellFormed := wellFormed_empty
  steady := allSteady_empty
  ended_lt := by
    rintro id ⟨before, act, later, heq, -⟩
    simp at heq
  ended_iff := nofun

/-- The registry itself ends no session that stays active. -/
theorem Kept.ask (h : Kept files acts) (op : Op) : Kept files (acts ++ [.ask op]) := by
  have hr := h.wellFormed
  have hsame (id : SessionId) :
      EndedOnHandle files (acts ++ [.ask op]) id ↔ EndedOnHandle files acts id := by
    rw [endedOnHandle_concat]
    exact or_iff_left fun hends => hends.1
  constructor
  · rw [afterActs_concat]
    exact wellFormed_step hr files op
  · rw [afterActs_concat]
    exact allSteady_step h.steady hr files op
  · intro id hends
    rw [afterActs_concat]
    exact Nat.lt_of_lt_of_le (h.ended_lt id ((hsame id).1 hends)) (length_step hr files op)
  · intro key id s hkey hs
    rw [afterActs_concat] at hkey hs
    rw [hsame]
    rcases step_active_cases hr h.steady hkey hs with ⟨before, hold, hbefore, hended⟩ | ⟨rfl, hlive⟩
    · rw [hended]
      exact h.ended_iff key id before hold hbefore
    · -- a session that has just been started
      rw [hlive]
      exact iff_of_false nofun fun hends => Nat.lt_irrefl _ (h.ended_lt _ hends)

/-- Past the registry keys stay as they are, and only the session that is used changes. -/
theorem Kept.useOf (h : Kept files acts) (i : SessionId) (use : Session.Use) :
    Kept files (acts ++ [.useOf i use]) := by
  have hr := h.wellFormed
  cases hi : (afterActs files acts).session? i with
  | none =>
    -- no session has this number
    have hafter : afterActs files (acts ++ [.useOf i use]) = afterActs files acts := by
      rw [afterActs_concat, perform_useOf, hi]
    have hsame (id : SessionId) :
        EndedOnHandle files (acts ++ [.useOf i use]) id ↔ EndedOnHandle files acts id := by
      rw [endedOnHandle_concat]
      refine or_iff_left ?_
      rintro ⟨⟨rfl, -⟩, hlt⟩
      exact Nat.not_lt.2 (List.getElem?_eq_none_iff.1 hi) hlt
    refine ⟨?_, ?_, fun id hends => ?_, fun key id s hkey hs => ?_⟩
    · exact hafter ▸ hr
    · exact hafter ▸ h.steady
    · exact hafter ▸ h.ended_lt id ((hsame id).1 hends)
    · rw [hafter] at hkey hs
      exact (h.ended_iff key id s hkey hs).trans (hsame id).symm
  | some before =>
    have hlt : i < (afterActs files acts).sessions.length := (List.getElem?_eq_some_iff.1 hi).1
    have hafter : afterActs files (acts ++ [.useOf i use]) =
        (afterActs files acts).setSession i (use.leaves files before) := by
      rw [afterActs_concat, perform_useOf, hi]
    have hlength := length_setSession (afterActs files acts) i (use.leaves files before)
    have hbefore := h.steady i before hi
    constructor
    · rw [hafter]
      exact ⟨fun key id hkey => hlength ▸ hr.stored key id hkey, hr.distinct⟩
    · rw [hafter]
      exact h.steady.setSession hi (Session.steady_use hbefore files use)
    · intro id hends
      rw [hafter, hlength]
      rcases endedOnHandle_concat.1 hends with hold | ⟨-, hnew⟩
      · exact h.ended_lt id hold
      · exact hnew
    · intro key id s hkey hs
      rw [hafter] at hkey hs
      rw [endedOnHandle_concat]
      by_cases hid : id = i
      · subst hid
        rw [session?_setSession_self hi, Option.some.injEq] at hs
        rw [← hs, Session.ended_use hbefore, h.ended_iff key id before hkey hi]
        exact or_congr_right ⟨fun hends => ⟨⟨rfl, hends⟩, hlt⟩, fun hends => hends.1.2⟩
      · rw [session?_setSession_of_ne hid] at hs
        rw [h.ended_iff key id s hkey hs]
        exact (or_iff_left fun hends => hid hends.1.1.symm).symm

theorem kept (files : FileTree) (acts : List Act) : Kept files acts := by
  induction acts using List.reverseRecOn with
  | nil => exact kept_nil files
  | append_singleton acts act ih =>
    cases act with
    | ask op => exact ih.ask op
    | useOf id use => exact ih.useOf id use

/-! ## What is active -/

/-- **Active sessions.**  Acts of any kind in any order, on the registry and past it, lead to a
registry in which a key without a session can be given one and takes no input.  The session of any
other key has ended if and only if it was ended past the registry.  No session can be started for
that key; while its session has not ended every input is replied to, and once it has none is. -/
theorem registered_sessions (files : FileTree) (acts : List Act) (key : String) :
    let r := afterActs files acts
    (r.get? key = none →
      (∀ config style,
        (r.start key (Session.start files config style)).1 ≠ .error .alreadyActive) ∧
      ∀ text, (r.acceptInput files key text).1 = .error .notActive) ∧
    ∀ id, r.get? key = some id → ∃ s, r.session? id = some s ∧
      (s.ended = true ↔ EndedOnHandle files acts id) ∧
      (∀ create, (r.start key create).1 = .error .alreadyActive) ∧
      (s.ended = false → ∀ text, ∃ reply, (r.acceptInput files key text).1 = .ok reply) ∧
      (s.ended = true → ∀ text, (r.acceptInput files key text).1 = .error .closed) := by
  intro r
  have hkept := kept files acts
  refine ⟨fun hkey => ⟨fun config style => ?_, fun text => ?_⟩, fun id hkey => ?_⟩
  · cases hcreate : Session.start files config style with
    | error error =>
      obtain ⟨refusal, rfl⟩ := Session.start_error hcreate
      rw [start_refused hkey]
      exact nofun
    | ok s =>
      rw [start_started hkey]
      exact nofun
  · rw [acceptInput_notActive hkey]
  · obtain ⟨s, hs⟩ := hkept.wellFormed.exists_session hkey
    refine ⟨s, hs, hkept.ended_iff key id s hkey hs, fun create => ?_, fun hlive text => ?_,
      fun hended text => ?_⟩
    · rw [start_active hkey]
    · obtain ⟨reply, s', hrun, -⟩ :=
        Session.acceptInput_live (hkept.steady id s hs) hlive files text
      rw [acceptInput_active hkey hs, hrun]
      cases reply <;> exact ⟨_, rfl⟩
    · rw [acceptInput_active hkey hs, Session.acceptInput_ended hended]

/-- A session that is ended past the registry stays active: no other one can be started, and no
input is replied to. -/
theorem ended_session_active :
    let r := afterActs {} [.ask (.start "ann" {} {}), .useOf 0 .finish]
    r.get? "ann" = some 0 ∧ (r.session? 0).map Session.ended = some true ∧
      (r.start "ann" (Session.start {} {} {})).1 = .error .alreadyActive ∧
      (r.acceptInput {} "ann" "1").1 = .error .closed := by
  refine ⟨rfl, rfl, rfl, rfl⟩

end ReplEngine.SessionRegistry
