import ReplEngine.Proofs.Session.Replies
import ReplEngine.Session.Registry
set_option autoImplicit false

/-!
# What one operation does to a registry

An operation concerns one key, or all of them.  It changes the active session of such a key
(`step_session?_of_concerns`) and no other session (`step_session?_of_not_concerns`), and it takes
only such a key out of the registry or puts it in (`step_get?_of_not_concerns`).
-/

namespace ReplEngine.SessionRegistry

/-! ## Operations -/

/-- What is asked of a registry.  Every session is started over the standard host classes. -/
inductive Op where
  | start (key : String) (config : EvaluatorConfig) (style : PromptStyle)
  | input (key text : String)
  | finish (key : String)
  | finishAll

/-- What an operation is answered with. -/
inductive Answer where
  | started (result : Except SessionError Unit)
  | replied (reply : Except SessionError Reply)
  | finished (wasActive : Bool)
  | done
  deriving DecidableEq, Repr

/-- The operation is about the key, or about all of them. -/
def Op.concerns (key : String) : Op → Bool
  | start k _ _ | input k _ | finish k => k == key
  | finishAll => true

/-- Carries out an operation. -/
def step (files : FileTree) (r : SessionRegistry) : Op → Answer × SessionRegistry
  | .start key config style =>
    let (result, r) := r.start key (Session.start files config style)
    (.started (result.map fun _ => ()), r)
  | .input key text =>
    let (reply, r) := r.acceptInput files key text
    (.replied reply, r)
  | .finish key =>
    let (wasActive, r) := r.finish key
    (.finished wasActive, r)
  | .finishAll => (.done, r.finishAll)

/-- What an operation does with an active session that it concerns. -/
def Op.use? : Op → Option Session.Use
  | start _ _ _ => none
  | input _ text => some (.input text)
  | finish _ | finishAll => some .finish

/-- The session that an operation makes of an active one that it concerns. -/
def Op.leaves (files : FileTree) (op : Op) (s : Session) : Session :=
  op.use?.elim s fun use => use.leaves files s

/-! ## Keys and sessions -/

/-- Every active number names a session, and no two keys have the same one. -/
structure WellFormed (r : SessionRegistry) : Prop where
  stored : ∀ key id, r.get? key = some id → id < r.sessions.length
  distinct : ∀ key other id, r.get? key = some id → r.get? other = some id → key = other

theorem wellFormed_empty : WellFormed {} := ⟨nofun, nofun⟩

variable {r : SessionRegistry} {files : FileTree} {key text : String} {id : SessionId}
  {s : Session}

theorem WellFormed.exists_session (h : r.WellFormed) (hkey : r.get? key = some id) :
    ∃ s, r.session? id = some s :=
  ⟨_, List.getElem?_eq_getElem (h.stored key id hkey)⟩

theorem session?_setSession_self (hs : r.session? id = some s) (s' : Session) :
    (r.setSession id s').session? id = some s' := by
  obtain ⟨hlt, -⟩ := List.getElem?_eq_some_iff.1 hs
  exact List.getElem?_set_self hlt

theorem session?_setSession_of_ne {other : SessionId} (h : other ≠ id) (s' : Session) :
    (r.setSession id s').session? other = r.session? other :=
  List.getElem?_set_ne h.symm

theorem length_setSession (r : SessionRegistry) (id : SessionId) (s' : Session) :
    (r.setSession id s').sessions.length = r.sessions.length :=
  List.length_set

theorem get?_added (sessions : List Session) (active : Table SessionId) (key : String)
    (id : SessionId) : get? ⟨sessions, active.insert key id⟩ key = some id := by
  show (active.insert key id).get? key = some id
  rw [Table.get?_insert, if_pos rfl]

theorem get?_removed (sessions : List Session) (active : Table SessionId) (key : String) :
    get? ⟨sessions, active.erase key⟩ key = none := by
  show (active.erase key).get? key = none
  rw [Table.get?_erase, if_pos rfl]

/-! ## One key -/

theorem start_active (hkey : r.get? key = some id) (create : Except SessionError Session) :
    r.start key create = (.error .alreadyActive, r) := by
  unfold start
  rw [hkey]

theorem start_refused (hkey : r.get? key = none) (error : SessionError) :
    r.start key (.error error) = (.error error, r) := by
  unfold start
  rw [hkey]

theorem start_started (hkey : r.get? key = none) (s : Session) :
    r.start key (.ok s) = (.ok r.sessions.length,
      ⟨r.sessions ++ [s], r.active.insert key r.sessions.length⟩) := by
  unfold start
  rw [hkey]

theorem acceptInput_notActive (hkey : r.get? key = none) :
    r.acceptInput files key text = (.error .notActive, r) := by
  unfold acceptInput
  rw [hkey]

/-- An input goes to the session of the key; a farewell takes the key out. -/
theorem acceptInput_active (hkey : r.get? key = some id) (hs : r.session? id = some s) :
    r.acceptInput files key text =
      match s.acceptInput files text with
      | (.ok (.farewell bye), s') =>
        (.ok (.farewell bye), { r.setSession id s' with active := r.active.erase key })
      | (reply, s') => (reply, r.setSession id s') := by
  unfold acceptInput acceptOn
  rw [hkey]
  simp only [hs]
  cases s.acceptInput files text with
  | mk reply s' =>
    cases reply with
    | error error => rfl
    | ok reply => cases reply <;> rfl

theorem finish_notActive (hkey : r.get? key = none) : r.finish key = (false, r) := by
  unfold finish
  rw [hkey]

theorem finish_active (hkey : r.get? key = some id) (hs : r.session? id = some s) :
    r.finish key =
      (true, { r.setSession id s.finish.2 with active := r.active.erase key }) := by
  unfold finish endOn
  rw [hkey]
  simp only
  rw [show ({ r with active := r.active.erase key } : SessionRegistry).session? id = some s
    from hs]
  rfl

/-! ## What stays as it is -/

/-- What can become of a registry when an operation is carried out for one key. -/
inductive Change (key : String) (r : SessionRegistry) : SessionRegistry → Prop where
  | unchanged : Change key r r
  | started (hkey : r.get? key = none) (s : Session) :
    Change key r ⟨r.sessions ++ [s], r.active.insert key r.sessions.length⟩
  | updated {id : SessionId} (hkey : r.get? key = some id) (s : Session) :
    Change key r (r.setSession id s)
  | removed {id : SessionId} (hkey : r.get? key = some id) (s : Session) :
    Change key r { r.setSession id s with active := r.active.erase key }

namespace Change

variable {r' : SessionRegistry}

theorem get?_of_ne (h : Change key r r') {other : String} (hne : other ≠ key) :
    r'.get? other = r.get? other := by
  cases h with
  | unchanged | updated => rfl
  | started =>
    show (r.active.insert key r.sessions.length).get? other = r.active.get? other
    rw [Table.get?_insert, if_neg hne]
  | removed =>
    show (r.active.erase key).get? other = r.active.get? other
    rw [Table.get?_erase, if_neg hne]

theorem session?_of_ne (h : Change key r r') (hkey : r.get? key ≠ some id)
    (hlt : id < r.sessions.length) : r'.session? id = r.session? id := by
  cases h with
  | unchanged => rfl
  | started => exact List.getElem?_append_left hlt
  | updated hid | removed hid =>
    refine session?_setSession_of_ne ?_ _
    rintro rfl
    exact hkey hid

theorem length_le (h : Change key r r') : r.sessions.length ≤ r'.sessions.length := by
  cases h with
  | unchanged => exact Nat.le_refl _
  | started => simp
  | updated | removed => exact Nat.le_of_eq (length_setSession r _ _).symm

/-- A key has the number that it had, or that of a session that was not there before. -/
theorem get?_self (h : Change key r r') (hid : r'.get? key = some id) :
    r.get? key = some id ∨
      (r.get? key = none ∧ id = r.sessions.length ∧ id < r'.sessions.length) := by
  cases h with
  | unchanged | updated => exact .inl hid
  | started hkey =>
    rw [get?_added, Option.some.injEq] at hid
    subst hid
    exact .inr ⟨hkey, rfl, by simp⟩
  | removed =>
    rw [get?_removed] at hid
    cases hid

theorem wellFormed (h : Change key r r') (hr : r.WellFormed) : r'.WellFormed := by
  have hfresh : ∀ other id, other ≠ key → r'.get? other = some id → id < r.sessions.length :=
    fun other id hne hid => hr.stored other id (h.get?_of_ne hne ▸ hid)
  refine ⟨fun other id hid => ?_, fun k other id hk hother => ?_⟩
  · by_cases hne : other = key
    · subst hne
      rcases h.get?_self hid with hold | ⟨-, -, hlt⟩
      · exact Nat.lt_of_lt_of_le (hr.stored _ _ hold) h.length_le
      · exact hlt
    · exact Nat.lt_of_lt_of_le (hfresh other id hne hid) h.length_le
  · -- a number that is given out is that of no session so far
    have hsame : ∀ other, other ≠ key → r'.get? key = some id → r'.get? other ≠ some id := by
      intro other hne hid hid'
      rcases h.get?_self hid with hold | ⟨-, rfl, -⟩
      · exact hne (hr.distinct other key id (h.get?_of_ne hne ▸ hid') hold)
      · exact Nat.lt_irrefl _ (hfresh other _ hne hid')
    by_cases hk' : k = key
    · by_cases hother' : other = key
      · rw [hk', hother']
      · exact (hsame other hother' (hk' ▸ hk) hother).elim
    · by_cases hother' : other = key
      · exact (hsame k hk' (hother' ▸ hother) hk).elim
      · exact hr.distinct k other id (h.get?_of_ne hk' ▸ hk) (h.get?_of_ne hother' ▸ hother)

end Change

theorem change_start (r : SessionRegistry) (key : String) (create : Except SessionError Session) :
    Change key r (r.start key create).2 := by
  cases hkey : r.get? key with
  | some id =>
    rw [start_active hkey]
    exact .unchanged
  | none =>
    cases create with
    | error error =>
      rw [start_refused hkey]
      exact .unchanged
    | ok s =>
      rw [start_started hkey]
      exact .started hkey s

theorem change_acceptInput (hr : r.WellFormed) (files : FileTree) (key text : String) :
    Change key r (r.acceptInput files key text).2 := by
  cases hkey : r.get? key with
  | none =>
    rw [acceptInput_notActive hkey]
    exact .unchanged
  | some id =>
    obtain ⟨s, hs⟩ := hr.exists_session hkey
    rw [acceptInput_active hkey hs]
    split
    · exact .removed hkey _
    · exact .updated hkey _

theorem change_finish (hr : r.WellFormed) (key : String) : Change key r (r.finish key).2 := by
  cases hkey : r.get? key with
  | none =>
    rw [finish_notActive hkey]
    exact .unchanged
  | some id =>
    obtain ⟨s, hs⟩ := hr.exists_session hkey
    rw [finish_active hkey hs]
    exact .removed hkey _

theorem get?_finish (hr : r.WellFormed) (key : String) : (r.finish key).2.get? key = none := by
  cases hkey : r.get? key with
  | none =>
    rw [finish_notActive hkey]
    exact hkey
  | some id =>
    obtain ⟨s, hs⟩ := hr.exists_session hkey
    rw [finish_active hkey hs]
    exact get?_removed ..

theorem length_acceptInput (hr : r.WellFormed) (files : FileTree) (key text : String) :
    (r.acceptInput files key text).2.sessions.length = r.sessions.length := by
  cases hkey : r.get? key with
  | none => rw [acceptInput_notActive hkey]
  | some id =>
    obtain ⟨s, hs⟩ := hr.exists_session hkey
    rw [acceptInput_active hkey hs]
    split <;> exact length_setSession r id _

theorem length_finish (hr : r.WellFormed) (key : String) :
    (r.finish key).2.sessions.length = r.sessions.length := by
  cases hkey : r.get? key with
  | none => rw [finish_notActive hkey]
  | some id =>
    obtain ⟨s, hs⟩ := hr.exists_session hkey
    rw [finish_active hkey hs]
    exact length_setSession r id _

/-! ## All keys -/

/-- Ends the sessions of keys, one after the other. -/
def finishKeys (r : SessionRegistry) (keys : List String) : SessionRegistry :=
  keys.foldl (fun r key => (r.finish key).2) r

theorem wellFormed_finishKeys (hr : r.WellFormed) (keys : List String) :
    (r.finishKeys keys).WellFormed := by
  induction keys generalizing r with
  | nil => exact hr
  | cons key keys ih => exact ih ((change_finish hr key).wellFormed hr)

theorem length_finishKeys (hr : r.WellFormed) (keys : List String) :
    (r.finishKeys keys).sessions.length = r.sessions.length := by
  induction keys generalizing r with
  | nil => rfl
  | cons key keys ih =>
    exact (ih ((change_finish hr key).wellFormed hr)).trans (length_finish hr key)

/-- The keys are taken out, and no other key is. -/
theorem get?_finishKeys (hr : r.WellFormed) (keys : List String) (key : String) :
    (r.finishKeys keys).get? key = if key ∈ keys then none else r.get? key := by
  induction keys generalizing r with
  | nil => simp [finishKeys]
  | cons first keys ih =>
    have hchange := change_finish hr first
    rw [show r.finishKeys (first :: keys) = (r.finish first).2.finishKeys keys from rfl,
      ih (hchange.wellFormed hr)]
    by_cases hfirst : key = first
    · subst hfirst
      simp [get?_finish hr]
    · rw [hchange.get?_of_ne hfirst]
      simp [hfirst]

/-- A session that none of the keys has is that of none of them when a key is taken out. -/
theorem get?_finish_ne (hr : r.WellFormed) (first : String) {keys : List String}
    (hne : ∀ key ∈ keys, r.get? key ≠ some id) :
    ∀ key ∈ keys, (r.finish first).2.get? key ≠ some id := by
  intro key hkey hid
  by_cases hfirst : key = first
  · rw [hfirst, get?_finish hr] at hid
    cases hid
  · rw [(change_finish hr first).get?_of_ne hfirst] at hid
    exact hne key hkey hid

/-- Nobody has the session of a key that is taken out. -/
theorem get?_finish_ne_of_active (hr : r.WellFormed) (hkey : r.get? key = some id)
    (other : String) : (r.finish key).2.get? other ≠ some id := by
  intro hother
  by_cases hsame : other = key
  · rw [hsame, get?_finish hr] at hother
    cases hother
  · rw [(change_finish hr key).get?_of_ne hsame] at hother
    exact hsame (hr.distinct other key id hother hkey)

/-- Sessions of other keys stay as they are. -/
theorem session?_finishKeys_of_ne (hr : r.WellFormed) {keys : List String}
    (hne : ∀ key ∈ keys, r.get? key ≠ some id) (hlt : id < r.sessions.length) :
    (r.finishKeys keys).session? id = r.session? id := by
  induction keys generalizing r with
  | nil => rfl
  | cons first keys ih =>
    have hchange := change_finish hr first
    rw [List.forall_mem_cons] at hne
    exact (ih (hchange.wellFormed hr) (get?_finish_ne hr first hne.2)
      (Nat.lt_of_lt_of_le hlt hchange.length_le)).trans (hchange.session?_of_ne hne.1 hlt)

/-- The session of each of the keys is ended, once. -/
theorem session?_finishKeys (hr : r.WellFormed) {keys : List String} (hkey : key ∈ keys)
    (hid : r.get? key = some id) (hs : r.session? id = some s) :
    (r.finishKeys keys).session? id = some s.finish.2 := by
  induction keys generalizing r with
  | nil => cases hkey
  | cons first keys ih =>
    have hchange := change_finish hr first
    have hr' := hchange.wellFormed hr
    by_cases hfirst : key = first
    · subst hfirst
      have hlt := Nat.lt_of_lt_of_le (hr.stored key id hid) hchange.length_le
      refine (session?_finishKeys_of_ne hr'
        (fun other _ => get?_finish_ne_of_active hr hid other) hlt).trans ?_
      rw [finish_active hid hs]
      exact session?_setSession_self hs _
    · have hkey' := (List.mem_cons.1 hkey).resolve_left hfirst
      have hne : r.get? first ≠ some id :=
        fun hother => hfirst (hr.distinct key first id hid hother)
      refine ih hr' hkey' ((hchange.get?_of_ne hfirst).trans hid) ?_
      exact (hchange.session?_of_ne hne (hr.stored key id hid)).trans hs

/-- The keys that have an active session. -/
def keys (r : SessionRegistry) : List String := r.active.entries.map (·.1)

theorem mem_keys (hkey : r.get? key = some id) : key ∈ r.keys := by
  by_contra hmem
  have hnone : r.get? key = none := Table.lookup_eq_none_of_not_mem hmem
  rw [hkey] at hnone
  cases hnone

theorem finishAll_eq (r : SessionRegistry) : r.finishAll = r.finishKeys r.keys := rfl

theorem get?_finishAll (hr : r.WellFormed) (key : String) : r.finishAll.get? key = none := by
  rw [finishAll_eq, get?_finishKeys hr]
  split
  · rfl
  · rename_i hmem
    exact Option.eq_none_iff_forall_ne_some.2 fun id hid => hmem (mem_keys hid)

/-! ## Any operation -/

variable {op : Op}

theorem wellFormed_step (hr : r.WellFormed) (files : FileTree) (op : Op) :
    (step files r op).2.WellFormed := by
  cases op with
  | start key config style => exact (change_start r key _).wellFormed hr
  | input key text => exact (change_acceptInput hr files key text).wellFormed hr
  | finish key => exact (change_finish hr key).wellFormed hr
  | finishAll => exact wellFormed_finishKeys hr r.keys

theorem length_step (hr : r.WellFormed) (files : FileTree) (op : Op) :
    r.sessions.length ≤ (step files r op).2.sessions.length := by
  cases op with
  | start key config style => exact (change_start r key _).length_le
  | input key text => exact (change_acceptInput hr files key text).length_le
  | finish key => exact (change_finish hr key).length_le
  | finishAll => exact Nat.le_of_eq (length_finishKeys hr r.keys).symm

theorem step_get?_of_not_concerns (hr : r.WellFormed) (files : FileTree)
    (h : op.concerns key = false) :
    (step files r op).2.get? key = r.get? key := by
  cases op with
  | start k config style => exact (change_start r k _).get?_of_ne (ne_of_beq_false h).symm
  | input k text => exact (change_acceptInput hr files k text).get?_of_ne (ne_of_beq_false h).symm
  | finish k => exact (change_finish hr k).get?_of_ne (ne_of_beq_false h).symm
  | finishAll => cases h

/-- A key that has a session had it before, or had none. -/
theorem step_get?_cases (hr : r.WellFormed) (hid : (step files r op).2.get? key = some id) :
    r.get? key = some id ∨ (r.get? key = none ∧ id = r.sessions.length) := by
  cases hconcerns : op.concerns key with
  | false => exact .inl (step_get?_of_not_concerns hr files hconcerns ▸ hid)
  | true =>
    have hchange {r' : SessionRegistry} (h : Change key r r') (hid : r'.get? key = some id) :
        r.get? key = some id ∨ (r.get? key = none ∧ id = r.sessions.length) :=
      (h.get?_self hid).imp_right fun hnew => ⟨hnew.1, hnew.2.1⟩
    cases op with
    | start k config style =>
      obtain rfl : k = key := eq_of_beq hconcerns
      exact hchange (change_start r k _) hid
    | input k text =>
      obtain rfl : k = key := eq_of_beq hconcerns
      exact hchange (change_acceptInput hr files k text) hid
    | finish k =>
      obtain rfl : k = key := eq_of_beq hconcerns
      exact hchange (change_finish hr k) hid
    | finishAll =>
      rw [show (step files r .finishAll).2.get? key = none from get?_finishAll hr key] at hid
      cases hid

theorem step_session?_of_not_concerns (hr : r.WellFormed) (files : FileTree)
    (h : ∀ key, op.concerns key = true → r.get? key ≠ some id) (hlt : id < r.sessions.length) :
    (step files r op).2.session? id = r.session? id := by
  cases op with
  | start k config style =>
    exact (change_start r k _).session?_of_ne (h k (beq_self_eq_true k)) hlt
  | input k text =>
    exact (change_acceptInput hr files k text).session?_of_ne (h k (beq_self_eq_true k)) hlt
  | finish k => exact (change_finish hr k).session?_of_ne (h k (beq_self_eq_true k)) hlt
  | finishAll => exact session?_finishKeys_of_ne hr (fun key _ => h key rfl) hlt

/-- An operation about other keys leaves the session of a key as it is. -/
theorem step_session?_of_other (hr : r.WellFormed) (files : FileTree)
    (h : op.concerns key = false) (hkey : r.get? key = some id) :
    (step files r op).2.session? id = r.session? id := by
  refine step_session?_of_not_concerns hr files (fun other hother hid => ?_) (hr.stored key id hkey)
  rw [hr.distinct key other id hkey hid, hother] at h
  cases h

theorem step_session?_of_concerns (hr : r.WellFormed) (files : FileTree)
    (h : op.concerns key = true) (hkey : r.get? key = some id) (hs : r.session? id = some s) :
    (step files r op).2.session? id = some (op.leaves files s) := by
  cases op with
  | start k config style =>
    obtain rfl : k = key := eq_of_beq h
    show (r.start k _).2.session? id = some s
    rw [start_active hkey]
    exact hs
  | input k text =>
    obtain rfl : k = key := eq_of_beq h
    show (r.acceptInput files k text).2.session? id = some (s.acceptInput files text).2
    rw [acceptInput_active hkey hs]
    split <;> rename_i hrun <;> rw [hrun] <;> exact session?_setSession_self hs _
  | finish k =>
    obtain rfl : k = key := eq_of_beq h
    show (r.finish k).2.session? id = some s.finish.2
    rw [finish_active hkey hs]
    exact session?_setSession_self hs _
  | finishAll => exact session?_finishKeys hr (mem_keys hkey) hkey hs

/-- A session that was not there before has just been started, for a key that had none. -/
theorem step_session?_new (hr : r.WellFormed) (hge : r.sessions.length ≤ id)
    (hs : (step files r op).2.session? id = some s) :
    ∃ key config style, op = .start key config style ∧ r.get? key = none ∧
      id = r.sessions.length ∧ Session.start files config style = .ok s := by
  have hlt : id < (step files r op).2.sessions.length := (List.getElem?_eq_some_iff.1 hs).1
  cases op with
  | start key config style =>
    replace hs : (r.start key (Session.start files config style)).2.session? id = some s := hs
    have hnone : r.session? id = none := List.getElem?_eq_none hge
    cases hkey : r.get? key with
    | some other =>
      rw [start_active hkey, hnone] at hs
      cases hs
    | none =>
      cases hcreate : Session.start files config style with
      | error error =>
        rw [hcreate, start_refused hkey, hnone] at hs
        cases hs
      | ok created =>
        rw [hcreate, start_started hkey] at hs
        replace hs : (r.sessions ++ [created])[id]? = some s := hs
        rw [List.getElem?_append_right hge, List.getElem?_singleton] at hs
        split at hs
        · rename_i hzero
          cases hs
          have hle : id ≤ r.sessions.length := Nat.sub_eq_zero_iff_le.1 hzero
          exact ⟨key, config, style, rfl, hkey, Nat.le_antisymm hle hge, hcreate⟩
        · cases hs
  | input key text =>
    rw [show (step files r (.input key text)).2.sessions.length = r.sessions.length from
      length_acceptInput hr files key text] at hlt
    exact absurd hlt (Nat.not_lt.2 hge)
  | finish key =>
    rw [show (step files r (.finish key)).2.sessions.length = r.sessions.length from
      length_finish hr key] at hlt
    exact absurd hlt (Nat.not_lt.2 hge)
  | finishAll =>
    rw [show (step files r .finishAll).2.sessions.length = r.sessions.length from
      length_finishKeys hr r.keys] at hlt
    exact absurd hlt (Nat.not_lt.2 hge)

/-- Everything that an operation can make of a session. -/
theorem step_session?_cases (hr : r.WellFormed)
    (hs : (step files r op).2.session? id = some s) :
    r.session? id = some s ∨
      (∃ key before, op.concerns key = true ∧ r.get? key = some id ∧
        r.session? id = some before ∧ s = op.leaves files before) ∨
      (r.session? id = none ∧ ∃ config style, Session.start files config style = .ok s) := by
  rcases Nat.lt_or_ge id r.sessions.length with hlt | hge
  · by_cases hconcerned : ∃ key, op.concerns key = true ∧ r.get? key = some id
    · obtain ⟨key, hconcerns, hkey⟩ := hconcerned
      obtain ⟨before, hbefore⟩ := hr.exists_session hkey
      have hleaves := step_session?_of_concerns hr files hconcerns hkey hbefore
      rw [hs, Option.some.injEq] at hleaves
      exact .inr (.inl ⟨key, before, hconcerns, hkey, hbefore, hleaves⟩)
    · have hsame := step_session?_of_not_concerns hr files
        (fun key hconcerns hkey => hconcerned ⟨key, hconcerns, hkey⟩) hlt
      exact .inl (hsame ▸ hs)
  · obtain ⟨-, config, style, -, -, -, hcreate⟩ := step_session?_new hr hge hs
    exact .inr (.inr ⟨List.getElem?_eq_none hge, config, style, hcreate⟩)

/-- An operation of the registry that ends a session takes its key out. -/
theorem ended_leaves (hr : r.WellFormed) (h : op.concerns key = true)
    (hkey : r.get? key = some id) (hs : r.session? id = some s) (hsteady : s.Steady)
    (hafter : (step files r op).2.get? key = some id) :
    (op.leaves files s).ended = s.ended := by
  cases op with
  | start => rfl
  | input k text =>
    obtain rfl : k = key := eq_of_beq h
    show (s.acceptInput files text).2.ended = s.ended
    cases hended : s.ended with
    | true =>
      rw [Session.acceptInput_ended hended]
      exact hended
    | false =>
      obtain ⟨reply, s', hrun, -, ⟨-, -, bye, rfl⟩ | ⟨-, hlive, -⟩⟩ :=
        Session.acceptInput_live hsteady hended files text
      · replace hafter : (r.acceptInput files k text).2.get? k = some id := hafter
        rw [acceptInput_active hkey hs, hrun, get?_removed] at hafter
        cases hafter
      · rw [hrun]
        exact hlive
  | finish k =>
    obtain rfl : k = key := eq_of_beq h
    rw [show (step files r (.finish k)).2.get? k = none from get?_finish hr k] at hafter
    cases hafter
  | finishAll =>
    rw [show (step files r .finishAll).2.get? key = none from get?_finishAll hr key] at hafter
    cases hafter

/-! ## Steady sessions -/

/-- Every session, active or not, is steady. -/
def AllSteady (r : SessionRegistry) : Prop := ∀ id s, r.session? id = some s → s.Steady

theorem allSteady_empty : AllSteady {} := fun _ _ h => by cases h

theorem AllSteady.setSession (h : r.AllSteady) (hs : r.session? id = some s) {s' : Session}
    (hs' : s'.Steady) : (r.setSession id s').AllSteady := by
  intro other t ht
  by_cases hne : other = id
  · subst hne
    rw [session?_setSession_self hs, Option.some.injEq] at ht
    exact ht ▸ hs'
  · rw [session?_setSession_of_ne hne] at ht
    exact h other t ht

theorem allSteady_step (h : r.AllSteady) (hr : r.WellFormed) (files : FileTree) (op : Op) :
    (step files r op).2.AllSteady := by
  intro id s hs
  rcases step_session?_cases hr hs with hold | ⟨-, before, -, -, hbefore, rfl⟩ |
    ⟨-, config, style, hcreate⟩
  · exact h id s hold
  · have hsteady := h id before hbefore
    unfold Op.leaves
    cases op.use? with
    | none => exact hsteady
    | some use => exact Session.steady_use hsteady files use
  · exact (Session.steady_start hcreate).1

/-! ## Active sessions -/

/-- No operation of the registry ends a session that stays active. -/
theorem ended_step (hr : r.WellFormed) (hkey : r.get? key = some id)
    (hs : r.session? id = some s) (hsteady : s.Steady)
    (hafter : (step files r op).2.get? key = some id) {s' : Session}
    (hs' : (step files r op).2.session? id = some s') : s'.ended = s.ended := by
  cases hconcerns : op.concerns key with
  | false =>
    rw [step_session?_of_other hr files hconcerns hkey, hs, Option.some.injEq] at hs'
    rw [hs']
  | true =>
    rw [step_session?_of_concerns hr files hconcerns hkey hs, Option.some.injEq] at hs'
    rw [← hs']
    exact ended_leaves hr hconcerns hkey hs hsteady hafter

/-- An active session was active before and has ended if it had then, or it has just been
started. -/
theorem step_active_cases (hr : r.WellFormed) (hsteady : r.AllSteady)
    (hkey : (step files r op).2.get? key = some id)
    (hs : (step files r op).2.session? id = some s) :
    (∃ before, r.get? key = some id ∧ r.session? id = some before ∧ s.ended = before.ended) ∨
      (id = r.sessions.length ∧ s.ended = false) := by
  rcases step_get?_cases hr hkey with hold | ⟨-, rfl⟩
  · obtain ⟨before, hbefore⟩ := hr.exists_session hold
    exact .inl ⟨before, hold, hbefore,
      ended_step hr hold hbefore (hsteady id before hbefore) hkey hs⟩
  · obtain ⟨-, config, style, -, -, -, hcreate⟩ := step_session?_new hr (Nat.le_refl _) hs
    exact .inr ⟨rfl, (Session.steady_start hcreate).2⟩

/-- The registry that operations lead to, one after the other. -/
def after (files : FileTree) : SessionRegistry → List Op → SessionRegistry :=
  List.foldl fun r op => (step files r op).2

end ReplEngine.SessionRegistry
