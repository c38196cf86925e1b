import ReplEngine.Proofs.ClassSpace.History
set_option autoImplicit false

/-!
# Installing one class

Changes that add no version leave every name with the newest class that it had.  So what a name
stands for changes only when bytes are declared, and a class whose bytes can be defined and whose
members can be listed is installed whatever else the loader holds (`install_run`).
-/

namespace ReplEngine.Loader

open Reading

variable {l l' : Loader}

/-! ## What stays when no version is added -/

theorem Loading.definer (h : Loading l l') : l'.definer = l.definer := by
  cases h with
  | elsewhere installed next defined definer host => exact definer
  | _ => rfl

theorem definer_of_loading (h : Relation.ReflTransGen Loading l l') : l'.definer = l.definer := by
  induction h with
  | refl => rfl
  | tail _ hloading ih => exact hloading.definer.trans ih

theorem Loading.host (h : Loading l l') : l.host.SameClasses l'.host := by
  cases h with
  | elsewhere installed next defined definer host => exact host
  | _ => exact fun _ => rfl

theorem host_of_loading (h : Relation.ReflTransGen Loading l l') :
    l.host.SameClasses l'.host := by
  induction h with
  | refl => exact fun _ => rfl
  | tail _ hloading ih => exact fun name => (hloading.host name).trans (ih name)

/-- A version as a class, or why its bytes do not define one. -/
def classOf (l : Loader) (name : String) (v : Version) : Except DefineError ClassObject :=
  match v.live with
  | some live => .ok live.object
  | none => (l.definer name v.bytes).map fun body => ⟨name, .installed v.generation, body⟩

theorem newest?_eq (l : Loader) (name : String) :
    l.newest? name = (l.versions name).getLast?.map (l.classOf name) := rfl

theorem classOf_markPrepared (l : Loader) (name : String) (generation : Nat) (v : Version) :
    l.classOf name (v.markPrepared generation) = l.classOf name v := by
  unfold Version.markPrepared
  split
  · unfold classOf
    cases v.live <;> rfl
  · rfl

/-- Every name keeps its newest class. -/
theorem Loading.newest? (h : Loading l l') : l'.newest? = l.newest? := by
  cases h with
  | elsewhere installed next defined definer host =>
    unfold Loader.newest? versions
    rw [installed, definer]
  | defined name v body hnewest hlive hbody =>
    have hclass : l.newest? name = some (.ok ⟨name, .installed v.generation, body⟩) := by
      rw [newest?_eq, hnewest, Option.map_some, classOf, hlive]
      simp only [hbody]
      rfl
    exact newest?_setNewest v _ hclass rfl _
  | prepared name generation =>
    funext key
    rw [newest?_eq, newest?_eq, versions_setVersions]
    split
    · rename_i hkey
      subst hkey
      rw [List.getLast?_map, Option.map_map]
      refine Option.map_congr fun v _ => ?_
      exact l.classOf_markPrepared key generation v
    · rfl

theorem newest?_of_loading (h : Relation.ReflTransGen Loading l l') : l'.newest? = l.newest? := by
  induction h with
  | refl => rfl
  | tail _ hloading ih => exact hloading.newest?.trans ih

theorem newestBytes_of_loading (h : Relation.ReflTransGen Loading l l') (name : String) :
    (l'.versions name).getLast?.map Version.bytes =
      (l.versions name).getLast?.map Version.bytes :=
  newestBytes_of_stamps (stamps_of_loading h name)

theorem versions_eq_nil_of_loading (h : Relation.ReflTransGen Loading l l') (name : String) :
    l'.versions name = [] ↔ l.versions name = [] := by
  rw [← newest?_eq_none, ← newest?_eq_none, newest?_of_loading h]

/-! ## Declaring -/

/-- Bytes that differ from the newest ones are declared as one more version. -/
theorem declareOne_of_ne {c : ClassBytes}
    (h : (l.versions c.name).getLast?.map Version.bytes ≠ some c.bytes) :
    l.declareOne c =
      { l.setVersions c.name (l.versions c.name ++ [⟨c.bytes, l.nextGeneration, none⟩]) with
        nextGeneration := l.nextGeneration + 1 } := by
  unfold declareOne
  simp only [if_neg h]
  rfl

theorem declareOne_of_eq {c : ClassBytes}
    (h : (l.versions c.name).getLast?.map Version.bytes = some c.bytes) :
    l.declareOne c = l := by
  unfold declareOne
  simp only [if_pos h]

theorem versions_declareOne {c : ClassBytes}
    (h : (l.versions c.name).getLast?.map Version.bytes ≠ some c.bytes) (name : String) :
    (l.declareOne c).versions name =
      if name = c.name then l.versions name ++ [⟨c.bytes, l.nextGeneration, none⟩]
      else l.versions name := by
  rw [declareOne_of_ne h]
  refine (versions_setVersions l c.name name _).trans ?_
  split
  · rename_i hname
    rw [hname]
  · rfl

@[simp] theorem declareOne_definer (l : Loader) (c : ClassBytes) :
    (l.declareOne c).definer = l.definer := by
  unfold declareOne
  simp only
  split <;> rfl

@[simp] theorem declareOne_host (l : Loader) (c : ClassBytes) :
    (l.declareOne c).host = l.host := by
  unfold declareOne
  simp only
  split <;> rfl

/-- The newest bytes of the name are those declared. -/
theorem newestBytes_declareOne (l : Loader) (c : ClassBytes) :
    ((l.declareOne c).versions c.name).getLast?.map Version.bytes = some c.bytes := by
  by_cases h : (l.versions c.name).getLast?.map Version.bytes = some c.bytes
  · rw [declareOne_of_eq h, h]
  · rw [versions_declareOne h, if_pos rfl, List.getLast?_concat]
    rfl

theorem newest?_declareOne_of_ne {c : ClassBytes} {name : String} (h : name ≠ c.name) :
    (l.declareOne c).newest? name = l.newest? name := by
  by_cases hbytes : (l.versions c.name).getLast?.map Version.bytes = some c.bytes
  · rw [declareOne_of_eq hbytes]
  · rw [newest?_eq, newest?_eq, versions_declareOne hbytes, if_neg h]
    unfold classOf
    rw [declareOne_definer]

/-- A new version is what its bytes define. -/
theorem newest?_declareOne {c : ClassBytes} {body : ClassBody}
    (h : (l.versions c.name).getLast?.map Version.bytes ≠ some c.bytes)
    (hbody : l.definer c.name c.bytes = .ok body) :
    (l.declareOne c).newest? c.name =
      some (.ok ⟨c.name, .installed l.nextGeneration, body⟩) := by
  rw [newest?_eq, versions_declareOne h, if_pos rfl, List.getLast?_concat, Option.map_some,
    classOf, declareOne_definer]
  simp only [hbody]
  rfl

/-! ## Installing -/

/-- A name whose newest class has members is loaded and prepared. -/
theorem installOne_run {name : String} {cls : ClassObject} {members : List String}
    (h : l.newest? name = some (.ok cls)) (hmembers : cls.body.members = .ok members) :
    ∃ live l', installOne name l = (.ready live, l') ∧ live.object = cls ∧
      live.prepared = true := by
  obtain ⟨live, l', hload, hlive, -⟩ := loadInstalled_run h
  have hfound : (findInstalled name).run l = (.ok live, l') := run_bind_ok hload
  have hprepare : live.prepare = (.ok members, { live with prepared := true }) := by
    unfold LiveClass.prepare
    rw [hlive, hmembers]
  have hprepared : (Loader.prepare live).run l' =
      ((.ok members, { live with prepared := true }), l'.markPrepared live.object) := by
    unfold Loader.prepare
    rw [hprepare]
    rfl
  refine ⟨{ live with prepared := true }, l'.markPrepared live.object, ?_, hlive, rfl⟩
  exact (run_bind hfound).trans (run_bind hprepared)

/-- A class whose newest version can be defined and prepared is installed. -/
theorem install_run {c : ClassBytes} {cls : ClassObject} {members : List String}
    (h : (l.declareOne c).newest? c.name = some (.ok cls))
    (hmembers : cls.body.members = .ok members) :
    ∃ live l', (install [c]).run l = (.ok [live], l') ∧ live.object = cls ∧
      live.prepared = true ∧ Relation.ReflTransGen Loading (l.declareOne c) l' := by
  obtain ⟨live, l', hone, hlive, hprepared⟩ := installOne_run h hmembers
  refine ⟨live, l', ?_, hlive, hprepared, ?_⟩
  · have hnames : (installNames [c.name]).run (l.declareOne c) = (.ok [live], l') :=
      run_bind hone
    have hdeclare : (modify fun l => l.declare [c] : StateM Loader PUnit).run l =
        (⟨⟩, l.declareOne c) := rfl
    exact (run_bind hdeclare).trans (run_bind hnames)
  · have hloading := installOne_loading c.name (l.declareOne c)
    rwa [hone] at hloading

end ReplEngine.Loader
