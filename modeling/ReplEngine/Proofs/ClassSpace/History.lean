import Mathlib.Algebra.GroupWithZero.Nat
import Mathlib.Data.List.Chain
import Mathlib.Logic.Relation
import ReplEngine.Proofs.ClassSpace.Resolution
set_option autoImplicit false

/-!
# The history of installed classes

A loader changes its versions in three ways only: it adds one behind the newest version of a
name, it makes the newest one a class, and it records that a class is prepared.  `Edit` lists
them, every operation is a sequence of them (`perform_edits`), and what each of them keeps holds
along every run (`installed_history`).
-/

namespace ReplEngine

open Binary

/-! ## Counting in tables -/

namespace Table

variable {α : Type}

/-- No name has two entries. -/
def Distinct (t : Table α) : Prop := (t.entries.map Prod.fst).Nodup

/-- A number for every value, summed over the entries. -/
def total (count : α → Nat) (t : Table α) : Nat := (t.entries.map fun e => count e.2).sum

theorem lookup_eq_none_of_not_mem {entries : List (String × α)} {name : String}
    (h : name ∉ entries.map Prod.fst) : entries.lookup name = none := by
  induction entries with
  | nil => rfl
  | cons e entries ih =>
    obtain ⟨key, value⟩ := e
    rw [List.map_cons, List.mem_cons, not_or] at h
    rw [lookup_cons_eq, if_neg h.1, ih h.2]

theorem Distinct.insert {t : Table α} (h : t.Distinct) (name : String) (value : α) :
    (t.insert name value).Distinct := by
  show (name :: (t.erase name).entries.map Prod.fst).Nodup
  rw [List.nodup_cons]
  refine ⟨?_, h.sublist (List.filter_sublist.map Prod.fst)⟩
  rw [List.mem_map]
  rintro ⟨e, he, heq⟩
  have hne := (List.mem_filter.mp he).2
  simp [heq] at hne

/-- Erasing takes away what the erased value counted for. -/
theorem total_erase {t : Table α} (h : t.Distinct) (count : α → Nat) (name : String) :
    (t.erase name).total count + ((t.get? name).map count).getD 0 = t.total count := by
  obtain ⟨entries⟩ := t
  unfold Distinct at h
  simp only [erase, total, get?] at h ⊢
  induction entries with
  | nil => rfl
  | cons e entries ih =>
    obtain ⟨key, value⟩ := e
    rw [List.map_cons, List.nodup_cons] at h
    rw [lookup_cons_eq]
    by_cases hkey : name = key
    · subst hkey
      have hnone := lookup_eq_none_of_not_mem h.1
      have hrest := ih h.2
      rw [hnone] at hrest
      rw [List.filter_cons_of_neg (by simp), if_pos rfl]
      simp only [List.map_cons, List.sum_cons, Option.map_some, Option.map_none,
        Option.getD_some, Option.getD_none] at hrest ⊢
      omega
    · have hrest := ih h.2
      rw [List.filter_cons_of_pos (by simpa using Ne.symm hkey), if_neg hkey]
      simp only [List.map_cons, List.sum_cons] at hrest ⊢
      omega

theorem total_insert {t : Table α} (h : t.Distinct) (count : α → Nat) (name : String)
    (value : α) :
    (t.insert name value).total count + ((t.get? name).map count).getD 0 =
      t.total count + count value := by
  have herase := total_erase h count name
  have hinsert : (t.insert name value).total count = count value + (t.erase name).total count := by
    simp [total, insert]
  omega

end Table

/-! ## What a version keeps -/

/-- A version later on: the same bytes and generation, and once it has a class, that class. -/
structure Version.Continues (v v' : Version) : Prop where
  bytes : v'.bytes = v.bytes
  generation : v'.generation = v.generation
  live : ∀ {c}, v.live = some c →
    ∃ c', v'.live = some c' ∧ c'.object = c.object ∧ (c.prepared = true → c'.prepared = true)

theorem Version.Continues.refl (v : Version) : v.Continues v :=
  ⟨rfl, rfl, fun hlive => ⟨_, hlive, rfl, id⟩⟩

theorem Version.Continues.trans {v v' v'' : Version} (h : v.Continues v')
    (h' : v'.Continues v'') : v.Continues v'' where
  bytes := h'.bytes.trans h.bytes
  generation := h'.generation.trans h.generation
  live hlive := by
    obtain ⟨c', hlive', hobject, hprepared⟩ := h.live hlive
    obtain ⟨c'', hlive'', hobject', hprepared'⟩ := h'.live hlive'
    exact ⟨c'', hlive'', hobject'.trans hobject, hprepared' ∘ hprepared⟩

/-- A list of versions later on: every version stands at the place it had, so new ones stand
behind all of them. -/
def VersionsContinue (vs vs' : List Version) : Prop :=
  ∀ (i : Nat) (v : Version), vs[i]? = some v → ∃ v', vs'[i]? = some v' ∧ v.Continues v'

theorem VersionsContinue.refl (vs : List Version) : VersionsContinue vs vs :=
  fun _ v hv => ⟨v, hv, .refl v⟩

theorem VersionsContinue.trans {vs vs' vs'' : List Version} (h : VersionsContinue vs vs')
    (h' : VersionsContinue vs' vs'') : VersionsContinue vs vs'' := by
  intro i v hv
  obtain ⟨v', hv', hkept⟩ := h i v hv
  obtain ⟨v'', hv'', hkept'⟩ := h' i v' hv'
  exact ⟨v'', hv'', hkept.trans hkept'⟩

theorem VersionsContinue.concat (vs : List Version) (v : Version) :
    VersionsContinue vs (vs ++ [v]) := by
  intro i w hw
  obtain ⟨hi, -⟩ := List.getElem?_eq_some_iff.mp hw
  exact ⟨w, by rw [List.getElem?_append_left hi, hw], .refl w⟩

theorem VersionsContinue.map {f : Version → Version} (hf : ∀ v : Version, v.Continues (f v))
    (vs : List Version) : VersionsContinue vs (vs.map f) := by
  intro i v hv
  exact ⟨f v, by rw [List.getElem?_map, hv, Option.map_some], hf v⟩

theorem VersionsContinue.last {vs : List Version} {v v' : Version} (hlast : vs.getLast? = some v)
    (h : v.Continues v') : VersionsContinue vs (vs.dropLast ++ [v']) := by
  obtain ⟨older, rfl⟩ := List.getLast?_eq_some_iff.mp hlast
  rw [List.dropLast_concat]
  intro i w hw
  rcases Nat.lt_or_ge i older.length with hi | hi
  · rw [List.getElem?_append_left hi] at hw ⊢
    exact ⟨w, hw, .refl w⟩
  · rw [List.getElem?_append_right hi] at hw ⊢
    obtain ⟨hindex, rfl⟩ : i - older.length = 0 ∧ v = w := by
      simpa [List.getElem?_singleton] using hw
    exact ⟨v', by rw [hindex, List.getElem?_cons_zero], h⟩

/-- Records that the class of a generation is prepared. -/
def Version.markPrepared (generation : Nat) (v : Version) : Version :=
  if v.generation = generation then
    { v with live := v.live.map fun live => { live with prepared := true } }
  else v

/-- What identifies a version. -/
def Version.stamp (v : Version) : Bytes × Nat := (v.bytes, v.generation)

theorem Version.markPrepared_stamp (generation : Nat) (v : Version) :
    (v.markPrepared generation).stamp = v.stamp := by
  unfold markPrepared
  split <;> rfl

theorem Version.stamps_markPrepared (generation : Nat) (vs : List Version) :
    (vs.map (markPrepared generation)).map stamp = vs.map stamp := by
  rw [List.map_map]
  exact List.map_congr_left fun v _ => v.markPrepared_stamp generation

theorem Version.stamps_last {vs : List Version} {v : Version} (h : vs.getLast? = some v)
    (live : Option LiveClass) :
    (vs.dropLast ++ [{ v with live := live }]).map stamp = vs.map stamp := by
  obtain ⟨older, rfl⟩ := List.getLast?_eq_some_iff.mp h
  rw [List.dropLast_concat, List.map_append, List.map_append]
  rfl

theorem newestBytes_of_stamps {vs vs' : List Version}
    (h : vs'.map Version.stamp = vs.map Version.stamp) :
    vs'.getLast?.map Version.bytes = vs.getLast?.map Version.bytes := by
  have hlast := congrArg (fun stamps => stamps.getLast?.map Prod.fst) h
  simp only [List.getLast?_map, Option.map_map] at hlast
  exact hlast

theorem Version.markPrepared_live (generation : Nat) (v : Version) :
    (v.markPrepared generation).live.map LiveClass.object = v.live.map LiveClass.object := by
  unfold markPrepared
  split
  · cases v.live <;> rfl
  · rfl

theorem Version.continues_markPrepared (generation : Nat) (v : Version) :
    v.Continues (v.markPrepared generation) := by
  unfold markPrepared
  split
  · refine ⟨rfl, rfl, ?_⟩
    intro c hlive
    exact ⟨{ c with prepared := true }, by simp [hlive], rfl, fun _ => rfl⟩
  · exact .refl v

namespace Loader

/-! ## What is always recorded -/

/-- The number of versions that have a class. -/
def liveVersions (l : Loader) : Nat :=
  l.installed.total fun vs => vs.countP (·.live.isSome)

/-- What holds of the versions of a loader at any time. -/
structure Recorded (l : Loader) : Prop where
  /-- No name has two lists of versions. -/
  names : l.installed.Distinct
  /-- Versions of different names have different generations. -/
  own : ∀ {name name' v v'}, v ∈ l.versions name → v' ∈ l.versions name' →
    v.generation = v'.generation → name = name'
  increasing : ∀ name, (l.versions name).Pairwise fun v w => v.generation < w.generation
  below : ∀ {name v}, v ∈ l.versions name → v.generation < l.nextGeneration
  changed : ∀ name, (l.versions name).IsChain fun v w => v.bytes ≠ w.bytes
  carried : ∀ {name v c}, v ∈ l.versions name → v.live = some c →
    c.object.name = name ∧ c.object.origin = .installed v.generation
  counted : l.defined = l.liveVersions

theorem recorded_new (definer : Definer) (host : HostRegistry) :
    Recorded { definer := definer, host := host } where
  names := List.nodup_nil
  own hv := by simp [versions, Table.get?] at hv
  increasing _ := .nil
  below hv := by simp [versions, Table.get?] at hv
  changed _ := .nil
  carried hv := by simp [versions, Table.get?] at hv
  counted := rfl

/-! ## The changes that a loader makes to its versions -/

/-- Puts a list of versions in place of that of a name. -/
def setVersions (l : Loader) (name : String) (vs : List Version) : Loader :=
  { l with installed := l.installed.insert name vs }

theorem versions_setVersions (l : Loader) (name key : String) (vs : List Version) :
    (l.setVersions name vs).versions key = if key = name then vs else l.versions key := by
  show ((l.installed.insert name vs).get? key).getD [] = _
  rw [Table.get?_insert]
  by_cases hkey : key = name
  · simp [hkey]
  · simp only [hkey, if_false]
    rfl

theorem liveVersions_setVersions {l : Loader} (h : l.installed.Distinct) (name : String)
    (vs : List Version) :
    (l.setVersions name vs).liveVersions + (l.versions name).countP (·.live.isSome) =
      l.liveVersions + vs.countP (·.live.isSome) := by
  have htotal := Table.total_insert h (fun vs => vs.countP (·.live.isSome)) name vs
  have hold : ((l.installed.get? name).map fun vs => vs.countP (·.live.isSome)).getD 0 =
      (l.versions name).countP (·.live.isSome) := by
    unfold versions
    cases l.installed.get? name <;> rfl
  rw [hold] at htotal
  exact htotal

/-- One change that adds no version. -/
inductive Loading : Loader → Loader → Prop where
  /-- Something else changes. -/
  | elsewhere {l l' : Loader} (installed : l'.installed = l.installed)
      (next : l'.nextGeneration = l.nextGeneration) (defined : l'.defined = l.defined)
      (definer : l'.definer = l.definer) (host : l.host.SameClasses l'.host) : Loading l l'
  /-- The newest version is made a class. -/
  | defined (l : Loader) (name : String) (v : Version) (body : ClassBody)
      (hnewest : (l.versions name).getLast? = some v) (hlive : v.live = none)
      (hbody : l.definer name v.bytes = .ok body) :
      Loading l
        { l.setVersions name ((l.versions name).dropLast ++
            [{ v with live := some ⟨⟨name, .installed v.generation, body⟩, false⟩ }]) with
          defined := l.defined + 1 }
  /-- The class of a generation is prepared. -/
  | prepared (l : Loader) (name : String) (generation : Nat) :
      Loading l (l.setVersions name ((l.versions name).map (Version.markPrepared generation)))

/-- One change. -/
inductive Edit : Loader → Loader → Prop where
  | loading {l l' : Loader} (h : Loading l l') : Edit l l'
  /-- Bytes are added that differ from the newest ones. -/
  | declared (l : Loader) (name : String) (bytes : Bytes)
      (h : (l.versions name).getLast?.map Version.bytes ≠ some bytes) :
      Edit l
        { l.setVersions name (l.versions name ++ [⟨bytes, l.nextGeneration, none⟩]) with
          nextGeneration := l.nextGeneration + 1 }
  /-- The host provides another class. -/
  | registered (l : Loader) (name : String) (body : ClassBody) :
      Edit l { l with host := l.host.register name body }

/-- Changes one after the other. -/
abbrev Edits : Loader → Loader → Prop := Relation.ReflTransGen Edit

variable {l l' : Loader}

theorem VersionsContinue.setVersions {key : String} {vs : List Version}
    (h : VersionsContinue (l.versions key) vs) (name : String) :
    VersionsContinue (l.versions name) ((l.setVersions key vs).versions name) := by
  rw [versions_setVersions]
  split
  · rename_i hname
    exact hname ▸ h
  · exact .refl _

theorem Edit.continues (h : Edit l l') (name : String) :
    VersionsContinue (l.versions name) (l'.versions name) := by
  cases h with
  | declared key bytes h => exact VersionsContinue.setVersions (.concat _ _) name
  | registered key body => exact .refl _
  | loading h =>
    cases h with
    | elsewhere installed next defined definer host =>
      unfold versions
      rw [installed]
      exact .refl _
    | defined key v body hnewest hlive hbody =>
      have hnew : v.Continues
          { v with live := some ⟨⟨key, .installed v.generation, body⟩, false⟩ } := by
        refine ⟨rfl, rfl, ?_⟩
        intro c hc
        rw [hlive] at hc
        cases hc
      exact VersionsContinue.setVersions (.last hnewest hnew) name
    | prepared key generation =>
      exact VersionsContinue.setVersions (.map (Version.continues_markPrepared generation) _) name

theorem Edits.continues (h : Edits l l') (name : String) :
    VersionsContinue (l.versions name) (l'.versions name) := by
  induction h with
  | refl => exact .refl _
  | tail _ hedit ih => exact ih.trans (hedit.continues name)

/-- Changes that keep bytes and generations where they are keep what is said of these. -/
theorem Recorded.of_stamps (h : l.Recorded)
    (hstamps : ∀ name, (l'.versions name).map Version.stamp = (l.versions name).map Version.stamp)
    (hnext : l'.nextGeneration = l.nextGeneration) (names : l'.installed.Distinct)
    (carried : ∀ {name v c}, v ∈ l'.versions name → v.live = some c →
      c.object.name = name ∧ c.object.origin = .installed v.generation)
    (counted : l'.defined = l'.liveVersions) : l'.Recorded := by
  have hold {name : String} {v : Version} (hv : v ∈ l'.versions name) :
      ∃ w ∈ l.versions name, w.generation = v.generation := by
    have hstamp := List.mem_map_of_mem (f := Version.stamp) hv
    rw [hstamps, List.mem_map] at hstamp
    obtain ⟨w, hw, heq⟩ := hstamp
    exact ⟨w, hw, congrArg Prod.snd heq⟩
  refine ⟨names, ?_, ?_, ?_, ?_, carried, counted⟩
  · intro name name' v v' hv hv' heq
    obtain ⟨w, hw, hgeneration⟩ := hold hv
    obtain ⟨w', hw', hgeneration'⟩ := hold hv'
    exact h.own hw hw' (by rw [hgeneration, hgeneration', heq])
  · intro name
    have hincreasing : ((l.versions name).map Version.stamp).Pairwise fun s t => s.2 < t.2 :=
      List.pairwise_map.mpr (h.increasing name)
    rw [← hstamps, List.pairwise_map] at hincreasing
    exact hincreasing
  · intro name v hv
    obtain ⟨w, hw, hgeneration⟩ := hold hv
    rw [hnext, ← hgeneration]
    exact h.below hw
  · intro name
    have hchanged : ((l.versions name).map Version.stamp).IsChain fun s t => s.1 ≠ t.1 :=
      (List.isChain_map Version.stamp).mpr (h.changed name)
    rw [← hstamps, List.isChain_map] at hchanged
    exact hchanged

/-- A list of versions in place of one with the same bytes and generations. -/
theorem Recorded.setVersions (h : l.Recorded) {name : String} {vs : List Version}
    (hstamps : vs.map Version.stamp = (l.versions name).map Version.stamp) {defined : Nat}
    (carried : ∀ {v c}, v ∈ vs → v.live = some c →
      c.object.name = name ∧ c.object.origin = .installed v.generation)
    (counted : defined + (l.versions name).countP (·.live.isSome) =
      l.defined + vs.countP (·.live.isSome)) :
    Recorded { l.setVersions name vs with defined := defined } := by
  have hversions (key : String) :
      versions { l.setVersions name vs with defined := defined } key =
        if key = name then vs else l.versions key := versions_setVersions l name key vs
  refine h.of_stamps ?_ rfl (h.names.insert name vs) ?_ ?_
  · intro key
    rw [hversions]
    split
    · rename_i hkey
      rw [hkey, hstamps]
    · rfl
  · intro key v c hv
    rw [hversions] at hv
    split at hv
    · rename_i hkey
      exact hkey ▸ carried hv
    · exact h.carried hv
  · have hlive := liveVersions_setVersions h.names name vs
    have hcounted := h.counted
    show defined = (l.setVersions name vs).liveVersions
    omega

/-- A new version gets a generation above all others. -/
theorem Recorded.declared (h : l.Recorded) {name : String} {bytes : Bytes}
    (hbytes : (l.versions name).getLast?.map Version.bytes ≠ some bytes) :
    Recorded
      { l.setVersions name (l.versions name ++ [⟨bytes, l.nextGeneration, none⟩]) with
        nextGeneration := l.nextGeneration + 1 } := by
  have hversions (key : String) :
      versions { l.setVersions name (l.versions name ++ [⟨bytes, l.nextGeneration, none⟩]) with
        nextGeneration := l.nextGeneration + 1 } key =
      if key = name then l.versions name ++ [⟨bytes, l.nextGeneration, none⟩]
      else l.versions key := versions_setVersions l name key _
  have hcases {key : String} {v : Version}
      (hv : v ∈ versions { l.setVersions name
        (l.versions name ++ [⟨bytes, l.nextGeneration, none⟩]) with
        nextGeneration := l.nextGeneration + 1 } key) :
      v ∈ l.versions key ∨ key = name ∧ v = ⟨bytes, l.nextGeneration, none⟩ := by
    rw [hversions] at hv
    split at hv
    · rename_i hkey
      subst hkey
      rcases List.mem_append.mp hv with hold | hnew
      · exact Or.inl hold
      · exact Or.inr ⟨rfl, List.mem_singleton.mp hnew⟩
    · exact Or.inl hv
  refine ⟨h.names.insert name _, ?_, ?_, ?_, ?_, ?_, ?_⟩
  · intro key key' v v' hv hv' heq
    rcases hcases hv with hold | ⟨rfl, rfl⟩ <;> rcases hcases hv' with hold' | ⟨rfl, rfl⟩
    · exact h.own hold hold' heq
    · exact absurd heq (Nat.ne_of_lt (h.below hold))
    · exact absurd heq.symm (Nat.ne_of_lt (h.below hold'))
    · rfl
  · intro key
    rw [hversions]
    split
    · rw [List.pairwise_append]
      refine ⟨h.increasing name, List.pairwise_singleton _ _, ?_⟩
      intro v hv w hw
      rw [List.mem_singleton.mp hw]
      exact h.below hv
    · exact h.increasing key
  · intro key v hv
    rcases hcases hv with hold | ⟨-, rfl⟩
    · exact Nat.lt_succ_of_lt (h.below hold)
    · exact Nat.lt_succ_self _
  · intro key
    rw [hversions]
    split
    · refine List.isChain_append.mpr ⟨h.changed name, .singleton _, ?_⟩
      intro v hv w hw hsame
      cases hw
      rw [Option.mem_def.mp hv] at hbytes
      exact hbytes (congrArg some hsame)
    · exact h.changed key
  · intro key v c hv hlive
    rcases hcases hv with hold | ⟨-, rfl⟩
    · exact h.carried hold hlive
    · cases hlive
  · have hlive := liveVersions_setVersions h.names name
      (l.versions name ++ [⟨bytes, l.nextGeneration, none⟩])
    rw [List.countP_append] at hlive
    have hnew : [(⟨bytes, l.nextGeneration, none⟩ : Version)].countP (·.live.isSome) = 0 := rfl
    have hcounted := h.counted
    show l.defined = (l.setVersions name _).liveVersions
    omega

/-- Where no version is added, every one keeps its bytes and its generation. -/
theorem Loading.stamps (h : Loading l l') (name : String) :
    (l'.versions name).map Version.stamp = (l.versions name).map Version.stamp := by
  have hset {key : String} {vs : List Version}
      (hvs : vs.map Version.stamp = (l.versions key).map Version.stamp) :
      ((l.setVersions key vs).versions name).map Version.stamp =
        (l.versions name).map Version.stamp := by
    rw [versions_setVersions]
    split
    · rename_i hname
      rw [hvs, hname]
    · rfl
  cases h with
  | elsewhere installed next defined definer host =>
    unfold versions
    rw [installed]
  | defined key v body hnewest hlive hbody => exact hset (Version.stamps_last hnewest _)
  | prepared key generation => exact hset (Version.stamps_markPrepared generation _)

theorem stamps_of_loading (h : Relation.ReflTransGen Loading l l') (name : String) :
    (l'.versions name).map Version.stamp = (l.versions name).map Version.stamp := by
  induction h with
  | refl => rfl
  | tail _ hloading ih => exact (hloading.stamps name).trans ih

theorem Loading.recorded (hloading : Loading l l') (h : l.Recorded) : l'.Recorded := by
  have hstamps := hloading.stamps
  cases hloading with
  | elsewhere installed next defined definer host =>
    have hversions : l'.versions = l.versions := by
      unfold versions
      rw [installed]
    refine h.of_stamps hstamps next (installed ▸ h.names) ?_ ?_
    · intro name v c hv
      rw [hversions] at hv
      exact h.carried hv
    · unfold liveVersions
      rw [defined, installed]
      exact h.counted
  | defined name v body hnewest hlive hbody =>
    refine h.setVersions (Version.stamps_last hnewest _) ?_ ?_
    · intro w c hw hc
      rcases List.mem_append.mp hw with hold | hnew
      · exact h.carried (List.dropLast_subset _ hold) hc
      · rw [List.mem_singleton] at hnew
        subst hnew
        cases hc
        exact ⟨rfl, rfl⟩
    · obtain ⟨older, hversions⟩ := List.getLast?_eq_some_iff.mp hnewest
      rw [hversions, List.dropLast_concat, List.countP_append, List.countP_append,
        List.countP_singleton, List.countP_singleton, hlive]
      simp
      omega
  | prepared name generation =>
    refine h.setVersions (Version.stamps_markPrepared generation _) ?_ ?_
    · intro w c hw hc
      obtain ⟨v, hv, rfl⟩ := List.mem_map.mp hw
      have hsame := v.markPrepared_live generation
      rw [hc, Option.map_some, eq_comm, Option.map_eq_some_iff] at hsame
      obtain ⟨c', hc', hobject⟩ := hsame
      have hgeneration : (v.markPrepared generation).generation = v.generation :=
        congrArg Prod.snd (v.markPrepared_stamp generation)
      rw [← hobject, hgeneration]
      exact h.carried hv hc'
    · rw [List.countP_map]
      congr 1
      refine List.countP_congr fun v _ => ?_
      have hsame := congrArg Option.isSome (v.markPrepared_live generation)
      rw [Option.isSome_map, Option.isSome_map] at hsame
      simp [hsame]

/-- One change keeps what is always recorded. -/
theorem Edit.recorded (hedit : Edit l l') (h : l.Recorded) : l'.Recorded := by
  cases hedit with
  | loading hloading => exact hloading.recorded h
  | declared name bytes hbytes => exact h.declared hbytes
  | registered name body => exact ⟨h.names, h.own, h.increasing, h.below, h.changed, h.carried, h.counted⟩

theorem Edits.recorded (hedits : Edits l l') (h : l.Recorded) : l'.Recorded := by
  induction hedits with
  | refl => exact h
  | tail _ hedit ih => exact hedit.recorded ih

/-! ## Operations are sequences of changes -/

/-- Whatever the outcome, the operation only makes changes of a kind. -/
def Only (change : Loader → Loader → Prop) {α : Type} (act : StateM Loader α) : Prop :=
  ∀ l, Relation.ReflTransGen change l (act l).2

section

variable {change : Loader → Loader → Prop} {α β : Type}

theorem Only.pure (a : α) : Only change (Pure.pure a) := fun _ => .refl

theorem Only.bind {act : StateM Loader α} {f : α → StateM Loader β} (h : Only change act)
    (hf : ∀ a, Only change (f a)) : Only change (act >>= f) :=
  fun l => (h l).trans (hf _ _)

/-- An operation that is refused half-way has made its changes up to there. -/
theorem Only.bindM {act : LoaderM α} {f : α → LoaderM β} (h : Only change act.run)
    (hf : ∀ a, Only change (f a).run) : Only change (act >>= f).run := by
  refine Only.bind (f := ExceptT.bindCont f) h ?_
  intro result
  cases result with
  | ok a => exact hf a
  | error e => exact .pure _

theorem edits_of_loading (h : Relation.ReflTransGen Loading l l') : Edits l l' :=
  Relation.ReflTransGen.mono (fun _ _ => Edit.loading) l l' h

theorem Only.edits {act : StateM Loader α} (h : Only Loading act) : Only Edit act :=
  fun l => edits_of_loading (h l)

end

theorem declareOne_edits (l : Loader) (c : ClassBytes) : Edits l (l.declareOne c) := by
  unfold declareOne
  simp only
  split
  · exact .refl
  · rename_i hbytes
    exact .single (.declared l c.name c.bytes hbytes)

theorem declare_edits (classes : List ClassBytes) (l : Loader) : Edits l (l.declare classes) := by
  unfold declare
  induction classes generalizing l with
  | nil => exact .refl
  | cons c classes ih => exact (declareOne_edits l c).trans (ih _)

theorem loadInstalled_loading (name : String) : Only Loading (loadInstalled name).run := by
  intro l
  unfold loadInstalled
  rw [Reading.run_bind_ok (Reading.run_get l)]
  cases hnewest : (l.versions name).getLast? with
  | none => exact .refl
  | some v =>
    cases hlive : v.live with
    | some live =>
      simp only [hlive]
      exact .refl
    | none =>
      cases hbody : l.definer name v.bytes with
      | error e =>
        simp only [hlive, hbody]
        exact .refl
      | ok body =>
        simp only [hlive, hbody]
        exact .single (.defined l name v body hnewest hlive hbody)

/-- The search path and what was found on it hold no versions. -/
theorem loadFromSearchPath_loading (files : FileTree) (name : String) :
    Only Loading (loadFromSearchPath files name).run := by
  intro l
  unfold loadFromSearchPath
  rw [Reading.run_bind_ok (Reading.run_get l)]
  cases hfound : l.found.get? name with
  | some live => exact .refl
  | none =>
    cases hpath : SearchPath.find files name l.searchPath with
    | mk hit entries =>
      cases hit with
      | none => exact .single (.elsewhere rfl rfl rfl rfl fun _ => rfl)
      | some hit =>
        obtain ⟨found, entry⟩ := hit
        cases hbody : l.definer name found.bytes with
        | error e =>
          simp only [hbody]
          exact .single (.elsewhere rfl rfl rfl rfl fun _ => rfl)
        | ok body =>
          simp only [hbody]
          exact .single (.elsewhere rfl rfl rfl rfl fun _ => rfl)

theorem findInstalled_loading (name : String) : Only Loading (findInstalled name).run := by
  refine (loadInstalled_loading name).bindM ?_
  intro found
  cases found with
  | some live => exact .pure _
  | none => exact .pure _

theorem find_loading (files : FileTree) (name : String) :
    Only Loading (Loader.find files name).run := by
  refine (loadInstalled_loading name).bindM ?_
  intro found
  cases found with
  | some live => exact .pure _
  | none =>
    intro l
    show Relation.ReflTransGen Loading l ((get >>= fun l => _ : LoaderM LiveClass).run l).2
    rw [Reading.run_bind_ok (Reading.run_get l)]
    cases hhost : l.host.find? name with
    | some live => exact .refl
    | none =>
      refine (loadFromSearchPath_loading files name).bindM ?_ l
      intro found
      cases found with
      | some live => exact .pure _
      | none => exact .pure _

theorem markPrepared_loading (l : Loader) (c : ClassObject) :
    Relation.ReflTransGen Loading l (l.markPrepared c) := by
  unfold Loader.markPrepared
  split
  · rename_i generation horigin
    exact .single (.prepared l c.name generation)
  · exact .single (.elsewhere rfl rfl rfl rfl (l.host.sameClasses_markPrepared c.name))
  · split
    · exact .single (.elsewhere rfl rfl rfl rfl fun _ => rfl)
    · exact .refl

theorem prepare_loading (c : LiveClass) : Only Loading (Loader.prepare c) := by
  intro l
  unfold Loader.prepare
  cases c.prepare with
  | mk members live =>
    cases hprepared : live.prepared with
    | true =>
      simp only [hprepared]
      exact markPrepared_loading l c.object
    | false =>
      simp only [hprepared]
      exact .refl

theorem installOne_loading (name : String) : Only Loading (installOne name) := by
  refine (findInstalled_loading name).bind ?_
  intro result
  cases result with
  | error e => exact .pure _
  | ok live =>
    refine (prepare_loading live).bind ?_
    rintro ⟨members, live⟩
    cases members with
    | ok members => exact .pure _
    | error e => exact .pure _

theorem installNames_loading (names : List String) : Only Loading (installNames names) := by
  induction names with
  | nil => exact .pure _
  | cons name names ih =>
    refine (installOne_loading name).bind ?_
    intro result
    cases result with
    | notLoaded e => exact .pure _
    | notPrepared e => exact .pure _
    | ready live =>
      refine ih.bind ?_
      intro later
      cases later with
      | ok lives => exact .pure _
      | error e => exact .pure _

/-- A batch is declared, then its names are loaded. -/
theorem install_after (classes : List ClassBytes) (l : Loader) :
    ((install classes).run l).2 =
      (installNames (classes.map ClassBytes.name) (l.declare classes)).2 := by
  unfold install
  rw [StateT.run_bind, StateT.run_modify, pure_bind, StateT.run_bind]
  have hnames : (installNames (classes.map ClassBytes.name)).run (l.declare classes) =
      installNames (classes.map ClassBytes.name) (l.declare classes) := rfl
  rw [hnames]
  cases installNames (classes.map ClassBytes.name) (l.declare classes) with
  | mk result l' =>
    cases result with
    | ok lives => rfl
    | error e => rfl

theorem install_edits (classes : List ClassBytes) : Only Edit (install classes) := by
  intro l
  show Edits l ((install classes).run l).2
  rw [install_after]
  exact (declare_edits classes l).trans ((installNames_loading _).edits _)

/-- A name that no class of a batch has keeps its versions. -/
theorem versions_declare {name : String} (classes : List ClassBytes)
    (h : name ∉ classes.map ClassBytes.name) (l : Loader) :
    (l.declare classes).versions name = l.versions name := by
  unfold declare
  induction classes generalizing l with
  | nil => rfl
  | cons c classes ih =>
    rw [List.map_cons, List.mem_cons, not_or] at h
    rw [List.foldl_cons, ih h.2]
    unfold declareOne
    simp only
    split
    · rfl
    · show (l.setVersions c.name _).versions name = l.versions name
      rw [versions_setVersions, if_neg h.1]

/-- Installing a batch adds no version of any other name. -/
theorem stamps_install {name : String} {classes : List ClassBytes}
    (h : name ∉ classes.map ClassBytes.name) (l : Loader) :
    (((install classes).run l).2.versions name).map Version.stamp =
      (l.versions name).map Version.stamp := by
  rw [install_after, stamps_of_loading (installNames_loading _ _), versions_declare classes h]

theorem addEntry_loading (l : Loader) (files : FileTree) (path : String) :
    Loading l (l.addEntry files path) :=
  .elsewhere rfl rfl rfl rfl fun _ => rfl

theorem extend_loading {files : FileTree} {paths : String} (h : l.extend files paths = .ok l') :
    Relation.ReflTransGen Loading l l' := by
  unfold extend at h
  cases hsplit : SearchPath.split paths with
  | error e =>
    rw [hsplit] at h
    cases h
  | ok entries =>
    rw [hsplit] at h
    cases h
    clear hsplit
    induction entries generalizing l with
    | nil => exact .refl
    | cons path entries ih => exact .head (addEntry_loading l files path) ih

/-! ## Runs -/

/-- What can be done with a loader.  Files may change between any two operations. -/
inductive Action where
  | declare (classes : List ClassBytes)
  | install (classes : List ClassBytes)
  | find (files : FileTree) (name : String)
  | findInstalled (name : String)
  | prepare (c : LiveClass)
  | addEntry (files : FileTree) (path : String)
  | extend (files : FileTree) (paths : String)
  | register (name : String) (body : ClassBody)

/-- The loader after an operation, refused or not. -/
def perform (l : Loader) : Action → Loader
  | .declare classes => l.declare classes
  | .install classes => ((Loader.install classes).run l).2
  | .find files name => ((Loader.find files name).run l).2
  | .findInstalled name => ((Loader.findInstalled name).run l).2
  | .prepare c => ((Loader.prepare c).run l).2
  | .addEntry files path => l.addEntry files path
  | .extend files paths =>
    match l.extend files paths with
    | .ok l => l
    | .error _ => l
  | .register name body => { l with host := l.host.register name body }

/-- The loader after operations in order. -/
def performAll (l : Loader) (actions : List Action) : Loader := actions.foldl perform l

theorem perform_edits (l : Loader) (action : Action) : Edits l (l.perform action) := by
  cases action with
  | declare classes => exact declare_edits classes l
  | install classes => exact install_edits classes l
  | find files name => exact (find_loading files name).edits l
  | findInstalled name => exact (findInstalled_loading name).edits l
  | prepare c => exact (prepare_loading c).edits l
  | addEntry files path => exact .single (.loading (addEntry_loading l files path))
  | extend files paths =>
    simp only [perform]
    split
    · rename_i hextend
      exact edits_of_loading (extend_loading hextend)
    · exact .refl
  | register name body => exact .single (.registered l name body)

theorem performAll_edits (actions : List Action) (l : Loader) : Edits l (l.performAll actions) := by
  unfold performAll
  induction actions generalizing l with
  | nil => exact .refl
  | cons action actions ih => exact (perform_edits l action).trans (ih _)

/-- Whatever has been done with a new loader, its versions are recorded as they should be; and
whatever is done next, every version stays at its place behind the same ones, with its bytes, its
generation and, once it has one, its class. -/
theorem installed_history (definer : Definer) (host : HostRegistry)
    (earlier later : List Action) :
    let l := performAll { definer := definer, host := host } earlier
    l.Recorded ∧
      ∀ name, VersionsContinue (l.versions name) ((l.performAll later).versions name) := by
  have hrecorded := (performAll_edits earlier _).recorded (recorded_new definer host)
  exact ⟨hrecorded, fun name => (performAll_edits later _).continues name⟩

end Loader

end ReplEngine
