import ReplEngine.Proofs.ClassSpace.Newest
set_option autoImplicit false

/-!
# Installing a batch

A batch is declared as a whole and then loaded and prepared name by name.  Every name of a declared
batch is either ready or refused (`ready_or_refused`), and that decides what loading it does
(`installOne_ready`, `installOne_refused`).  Along the names of the batch this gives the report, the
flags and what is left behind (`installNames_exact`); a batch that has been installed is found as it
was left, so installing it again changes nothing (`installNames_again`).
-/

namespace ReplEngine

/-! ## Writing a table again -/

namespace Table

variable {α : Type}

theorem insert_insert (t : Table α) (name : String) (old new : α) :
    (t.insert name old).insert name new = t.insert name new := by
  simp [insert, erase, List.filter_filter]

/-- Stores pairs in order. -/
def insertAll (t : Table α) (pairs : List (String × α)) : Table α :=
  pairs.foldl (fun t p => t.insert p.1 p.2) t

theorem insertAll_append (t : Table α) (pairs more : List (String × α)) :
    t.insertAll (pairs ++ more) = (t.insertAll pairs).insertAll more :=
  List.foldl_append

/-- Pairs with different names stand in front of the rest, the last one first. -/
theorem entries_insertAll (t : Table α) {pairs : List (String × α)}
    (h : (pairs.map Prod.fst).Nodup) :
    (t.insertAll pairs).entries =
      pairs.reverse ++ t.entries.filter fun e => e.1 ∉ pairs.map Prod.fst := by
  induction pairs using List.reverseRecOn with
  | nil => simp [insertAll]
  | append_singleton pairs p ih =>
    rw [List.map_append, List.nodup_append] at h
    obtain ⟨hpairs, -, hnew⟩ := h
    have hkept : pairs.reverse.filter (fun e => e.1 != p.1) = pairs.reverse := by
      refine List.filter_eq_self.mpr fun e he => ?_
      have hmem := List.mem_map_of_mem (f := Prod.fst) (List.mem_reverse.mp he)
      simpa using hnew _ hmem p.1 (by simp)
    rw [insertAll_append]
    show p :: (t.insertAll pairs).entries.filter (fun e => e.1 != p.1) = _
    rw [ih hpairs, List.filter_append, hkept, List.filter_filter, List.reverse_append,
      List.reverse_singleton, List.singleton_append, List.cons_append]
    congr 2
    refine List.filter_congr fun e _ => ?_
    rw [Bool.eq_iff_iff]
    simp only [Bool.and_eq_true, bne_iff_ne, decide_eq_true_eq, List.map_append, List.mem_append,
      List.map_singleton, List.mem_singleton, not_or]
    exact and_comm

/-- Storing the same pairs a second time changes nothing, not even the order of the entries. -/
theorem insertAll_again (t : Table α) {pairs : List (String × α)}
    (h : (pairs.map Prod.fst).Nodup) :
    (t.insertAll pairs).insertAll pairs = t.insertAll pairs := by
  have hentries : ((t.insertAll pairs).insertAll pairs).entries = (t.insertAll pairs).entries := by
    have hnone : pairs.reverse.filter (fun e => e.1 ∉ pairs.map Prod.fst) = [] := by
      refine List.filter_eq_nil_iff.mpr fun e he => ?_
      simpa using ⟨e.2, List.mem_reverse.mp he⟩
    rw [entries_insertAll _ h, entries_insertAll t h, List.filter_append, hnone, List.nil_append,
      List.filter_filter]
    simp
  cases hagain : (t.insertAll pairs).insertAll pairs
  cases hfirst : t.insertAll pairs
  rw [hagain, hfirst] at hentries
  exact congrArg Table.mk hentries

end Table

namespace Loader

open Binary Reading

variable {l l' : Loader} {name : String} {cls : ClassObject}

/-! ## Declaring a batch -/

/-- Declaring changes no class that is not installed. -/
theorem declare_keeps (classes : List ClassBytes) (l : Loader) :
    (l.declare classes).host = l.host ∧ (l.declare classes).searchPath = l.searchPath ∧
      (l.declare classes).found = l.found := by
  unfold declare
  induction classes generalizing l with
  | nil => exact ⟨rfl, rfl, rfl⟩
  | cons c classes ih =>
    obtain ⟨hhost, hpath, hfound⟩ := ih (l.declareOne c)
    rw [List.foldl_cons, hhost, hpath, hfound]
    unfold declareOne
    simp only
    split <;> exact ⟨rfl, rfl, rfl⟩

/-- Declaring bytes that are the newest ones of their names changes nothing. -/
theorem declare_of_newest {classes : List ClassBytes}
    (h : ∀ c ∈ classes, (l.versions c.name).getLast?.map Version.bytes = some c.bytes) :
    l.declare classes = l := by
  unfold declare
  induction classes with
  | nil => rfl
  | cons c classes ih =>
    rw [List.foldl_cons, declareOne_of_eq (h c List.mem_cons_self)]
    exact ih fun d hd => h d (List.mem_cons_of_mem c hd)

/-- The bytes that a batch declares for a name: those declared last. -/
def declaredBytes (classes : List ClassBytes) (name : String) : Option Bytes :=
  (classes.reverse.find? fun c => c.name == name).map ClassBytes.bytes

theorem declaredBytes_append (classes more : List ClassBytes) (name : String) :
    declaredBytes (classes ++ more) name =
      (declaredBytes more name).or (declaredBytes classes name) := by
  unfold declaredBytes
  rw [List.reverse_append, List.find?_append]
  cases more.reverse.find? _ <;> rfl

theorem declaredBytes_last (before : List ClassBytes) {c : ClassBytes} {after : List ClassBytes}
    (h : c.name ∉ after.map ClassBytes.name) :
    declaredBytes (before ++ c :: after) c.name = some c.bytes := by
  have hafter : declaredBytes after c.name = none := by
    unfold declaredBytes
    rw [Option.map_eq_none_iff, List.find?_eq_none]
    intro d hd
    have hne : d.name ≠ c.name := fun heq =>
      h (heq ▸ List.mem_map_of_mem (List.mem_reverse.mp hd))
    simpa using hne
  rw [← List.singleton_append, declaredBytes_append, declaredBytes_append, hafter, Option.none_or]
  simp [declaredBytes]

theorem declaredBytes_isSome {classes : List ClassBytes} {c : ClassBytes} (hc : c ∈ classes) :
    (declaredBytes classes c.name).isSome = true := by
  unfold declaredBytes
  rw [Option.isSome_map, List.find?_isSome]
  exact ⟨c, List.mem_reverse.mpr hc, beq_self_eq_true c.name⟩

/-- What a batch declares last under a name are its newest bytes. -/
theorem newestBytes_declare (l : Loader) (classes : List ClassBytes) (name : String) :
    ((l.declare classes).versions name).getLast?.map Version.bytes =
      (declaredBytes classes name).or ((l.versions name).getLast?.map Version.bytes) := by
  induction classes generalizing l with
  | nil => rfl
  | cons c classes ih =>
    have hcons : l.declare (c :: classes) = (l.declareOne c).declare classes := rfl
    rw [hcons, ih, ← List.singleton_append, declaredBytes_append, Option.or_assoc]
    congr 1
    by_cases hname : name = c.name
    · rw [hname, newestBytes_declareOne]
      simp [declaredBytes]
    · have hnone : declaredBytes [c] name = none := by
        simpa [declaredBytes] using Ne.symm hname
      rw [hnone, Option.none_or]
      have hsame := versions_declare [c] (by simpa using hname) l
      exact congrArg (fun vs => vs.getLast?.map Version.bytes) hsame

theorem newest?_eq_none_of_bytes :
    l.newest? name = none ↔ (l.versions name).getLast?.map Version.bytes = none := by
  rw [newest?_eq_none, Option.map_eq_none_iff, List.getLast?_eq_none_iff]

/-- Every name of a batch has a version once the batch is declared. -/
theorem newest?_declare {classes : List ClassBytes} {c : ClassBytes} (hc : c ∈ classes)
    (l : Loader) : (l.declare classes).newest? c.name ≠ none := by
  obtain ⟨bytes, hbytes⟩ := Option.isSome_iff_exists.mp (declaredBytes_isSome hc)
  rw [ne_eq, newest?_eq_none_of_bytes, newestBytes_declare, hbytes]
  exact Option.some_ne_none bytes

/-! ## Ready and refused -/

/-- The newest version of the name is this class, or its bytes define it, and the members of the
class can be listed. -/
def Ready (l : Loader) (name : String) (cls : ClassObject) : Prop :=
  l.newest? name = some (.ok cls) ∧ ∃ members, cls.body.members = .ok members

/-- Why the newest version of the name cannot be loaded and prepared, and whether it is defined. -/
inductive Refused (l : Loader) (name : String) : LoaderError → Bool → Prop where
  | notDefined {e : DefineError} (h : l.newest? name = some (.error e)) :
      Refused l name (.define name e) false
  | notLinked {cls : ClassObject} {e : LinkError} (h : l.newest? name = some (.ok cls))
      (hmembers : cls.body.members = .error e) : Refused l name (.link name e) true

theorem ready_or_refused (h : l.newest? name ≠ none) :
    (∃ cls, l.Ready name cls) ∨ ∃ e defined, l.Refused name e defined := by
  cases hnewest : l.newest? name with
  | none => exact absurd hnewest h
  | some result =>
    cases result with
    | error e => exact .inr ⟨_, _, .notDefined hnewest⟩
    | ok cls =>
      cases hmembers : cls.body.members with
      | error e => exact .inr ⟨_, _, .notLinked hnewest hmembers⟩
      | ok members => exact .inl ⟨cls, hnewest, members, hmembers⟩

theorem Refused.not_ready {e : LoaderError} {defined : Bool} (h : l.Refused name e defined)
    (cls : ClassObject) : ¬ l.Ready name cls := by
  rintro ⟨hnewest, members, hmembers⟩
  cases h with
  | notDefined h => cases h.symm.trans hnewest
  | notLinked h herror =>
    cases h.symm.trans hnewest
    cases herror.symm.trans hmembers

/-- A name stays ready where it keeps its newest class. -/
theorem Ready.of_newest (h : l.Ready name cls) (hnewest : l'.newest? = l.newest?) :
    l'.Ready name cls :=
  ⟨by rw [hnewest, h.1], h.2⟩

theorem Refused.of_newest {e : LoaderError} {defined : Bool} (h : l.Refused name e defined)
    (hnewest : l'.newest? = l.newest?) : l'.Refused name e defined := by
  cases h with
  | notDefined h => exact .notDefined (by rw [hnewest, h])
  | notLinked h hmembers => exact .notLinked (by rw [hnewest, h]) hmembers

/-! ## Making the newest version a class -/

/-- The class that the newest version of the name has been made. -/
def live? (l : Loader) (name : String) : Option LiveClass :=
  (l.versions name).getLast?.bind Version.live

/-- The versions, with the newest one made this class. -/
def withLive (vs : List Version) (live : LiveClass) : List Version :=
  match vs.getLast? with
  | some v => vs.dropLast ++ [{ v with live := some live }]
  | none => []

theorem withLive_concat (older : List Version) (v : Version) (live : LiveClass) :
    withLive (older ++ [v]) live = older ++ [{ v with live := some live }] := by
  unfold withLive
  rw [List.getLast?_concat, List.dropLast_concat]

/-- The newest version of a recorded name is prepared, and no other version is. -/
theorem Recorded.markPrepared (h : l.Recorded) {older : List Version} {v : Version}
    {live : LiveClass} (hversions : l.versions name = older ++ [v]) (hlive : v.live = some live) :
    l.markPrepared live.object =
      l.setVersions name (withLive (l.versions name) { live with prepared := true }) := by
  have hmem : v ∈ l.versions name := by simp [hversions]
  obtain ⟨hname, horigin⟩ := h.carried hmem hlive
  have hincreasing := h.increasing name
  rw [hversions, List.pairwise_append] at hincreasing
  have holder : older.map (Version.markPrepared v.generation) = older := by
    refine (List.map_congr_left fun w hw => ?_).trans (List.map_id older)
    have hless := hincreasing.2.2 w hw v (by simp)
    exact if_neg (Nat.ne_of_lt hless)
  have hmarked : (l.versions name).map (Version.markPrepared v.generation) =
      withLive (l.versions name) { live with prepared := true } := by
    rw [hversions, withLive_concat, List.map_append, holder, List.map_singleton]
    unfold Version.markPrepared
    rw [if_pos rfl, hlive]
    rfl
  unfold Loader.markPrepared
  rw [horigin, hname, ← hmarked]
  rfl

/-- A class that the newest version has been made stays its class where no version is added. -/
theorem live?_of_edits (hedits : Edits l l')
    (hlength : (l'.versions name).length = (l.versions name).length) {live : LiveClass}
    (hlive : l.live? name = some live) :
    ∃ live', l'.live? name = some live' ∧ live'.object = live.object ∧
      (live.prepared = true → live'.prepared = true) := by
  obtain ⟨v, hv, hvlive⟩ := Option.bind_eq_some_iff.mp hlive
  rw [List.getLast?_eq_getElem?] at hv
  obtain ⟨v', hv', hcontinues⟩ := hedits.continues name _ v hv
  obtain ⟨live', hlive', hsame⟩ := hcontinues.live hvlive
  refine ⟨live', ?_, hsame⟩
  rw [live?, List.getLast?_eq_getElem?, hlength, hv', Option.bind_some, hlive']

/-! ## What a batch leaves alone -/

/-- `l'` is `l` with the newest versions of some names loaded; their classes may be prepared. -/
structure Loads (l : Loader) (names : List String) (l' : Loader) : Prop where
  host : l'.host = l.host
  searchPath : l'.searchPath = l.searchPath
  found : l'.found = l.found
  /-- No version is added. -/
  stamps : ∀ m, (l'.versions m).map Version.stamp = (l.versions m).map Version.stamp
  older : ∀ m, (l'.versions m).dropLast = (l.versions m).dropLast
  others : ∀ m, m ∉ names → l'.versions m = l.versions m

theorem Loads.refl (l : Loader) (names : List String) : Loads l names l :=
  ⟨rfl, rfl, rfl, fun _ => rfl, fun _ => rfl, fun _ _ => rfl⟩

theorem Loads.trans {names more : List String} {l'' : Loader} (h : Loads l names l')
    (h' : Loads l' more l'') : Loads l (names ++ more) l'' where
  host := h'.host.trans h.host
  searchPath := h'.searchPath.trans h.searchPath
  found := h'.found.trans h.found
  stamps m := (h'.stamps m).trans (h.stamps m)
  older m := (h'.older m).trans (h.older m)
  others m hm := by
    rw [List.mem_append, not_or] at hm
    exact (h'.others m hm.2).trans (h.others m hm.1)

theorem Loads.newestBytes {names : List String} (h : Loads l names l') (m : String) :
    (l'.versions m).getLast?.map Version.bytes = (l.versions m).getLast?.map Version.bytes :=
  newestBytes_of_stamps (h.stamps m)

/-- Once the newest version is given a class, nothing of the loading is left to see. -/
theorem Loads.withLive {names : List String} (h : Loads l names l') (m : String)
    (live : LiveClass) : withLive (l'.versions m) live = withLive (l.versions m) live := by
  have hstamps := h.stamps m
  have holder := h.older m
  rcases List.eq_nil_or_concat (l.versions m) with hnil | ⟨older, v, hold⟩
  · rw [hnil, List.map_nil, List.map_eq_nil_iff] at hstamps
    rw [hstamps, hnil]
  · rcases List.eq_nil_or_concat (l'.versions m) with hnil | ⟨older', v', hnew⟩
    · rw [hnil, hold] at hstamps
      simp at hstamps
    · rw [List.concat_eq_append] at hold hnew
      rw [hold, hnew, List.dropLast_concat, List.dropLast_concat] at holder
      rw [hold, hnew, holder, List.map_append, List.map_append] at hstamps
      obtain ⟨hbytes, hgeneration⟩ : v'.bytes = v.bytes ∧ v'.generation = v.generation := by
        simpa [Version.stamp] using hstamps
      rw [hold, hnew, holder, withLive_concat, withLive_concat, hbytes, hgeneration]

theorem loads_withLive (l : Loader) (name : String) (live : LiveClass) (defined : Nat) :
    Loads l [name]
      { l.setVersions name (withLive (l.versions name) live) with defined := defined } := by
  have hversions (m : String) :
      versions { l.setVersions name (withLive (l.versions name) live) with defined := defined } m =
        if m = name then withLive (l.versions name) live else l.versions m :=
    versions_setVersions l name m _
  refine ⟨rfl, rfl, rfl, fun m => ?_, fun m => ?_, fun m hm => ?_⟩
  · rw [hversions]
    split
    · rename_i hm
      rw [hm]
      rcases List.eq_nil_or_concat (l.versions name) with hnil | ⟨older, v, hold⟩
      · rw [hnil]
        rfl
      · rw [hold, List.concat_eq_append, withLive_concat, List.map_append, List.map_append]
        rfl
    · rfl
  · rw [hversions]
    split
    · rename_i hm
      rw [hm]
      rcases List.eq_nil_or_concat (l.versions name) with hnil | ⟨older, v, hold⟩
      · rw [hnil]
        rfl
      · rw [hold, List.concat_eq_append, withLive_concat, List.dropLast_concat,
          List.dropLast_concat]
    · rfl
  · rw [hversions, if_neg (by simpa using hm)]

/-- Loading a name whose newest version has a class makes the version that class, unless it has
been made that already. -/
theorem loadInstalled_live (h : l.newest? name = some (.ok cls)) :
    ∃ live l₁, (loadInstalled name).run l = (.ok (some live), l₁) ∧ live.object = cls ∧
      l₁.live? name = some live ∧ Loads l [name] l₁ ∧
      ∀ live', l₁.setVersions name (withLive (l₁.versions name) live') =
        { l.setVersions name (withLive (l.versions name) live') with defined := l₁.defined } := by
  rw [newest?_eq] at h
  obtain ⟨v, hv, hclass⟩ := Option.map_eq_some_iff.mp h
  obtain ⟨older, hold⟩ := List.getLast?_eq_some_iff.mp hv
  unfold classOf at hclass
  unfold loadInstalled
  rw [run_bind_ok (run_get l)]
  cases hlive : v.live with
  | some live =>
    rw [hlive] at hclass
    refine ⟨live, l, ?_, Except.ok.inj hclass, ?_, .refl l _, fun _ => rfl⟩
    · simp only [hv, hlive]
      rfl
    · rw [live?, hv, Option.bind_some, hlive]
  | none =>
    rw [hlive] at hclass
    cases hbody : l.definer name v.bytes with
    | error e =>
      rw [hbody] at hclass
      cases hclass
    | ok body =>
      rw [hbody] at hclass
      cases hclass
      generalize hlive' : (⟨⟨name, .installed v.generation, body⟩, false⟩ : LiveClass) = live
      let l₁ : Loader :=
        { l.setVersions name (withLive (l.versions name) live) with defined := l.defined + 1 }
      have hversions : l₁.versions name = older ++ [{ v with live := some live }] := by
        refine (versions_setVersions l name name _).trans ((if_pos rfl).trans ?_)
        rw [hold, withLive_concat]
      refine ⟨live, l₁, ?_, by rw [← hlive'], ?_, loads_withLive l name live _, fun live' => ?_⟩
      · have hset : l.setNewest name { v with live := some live } =
            l.setVersions name (withLive (l.versions name) live) := by
          unfold withLive
          rw [hv]
          rfl
        simp only [hv, hlive, hbody, hlive', hset]
        rfl
      · rw [live?, hversions, List.getLast?_concat]
        rfl
      · rw [hversions, hold, withLive_concat, withLive_concat]
        unfold l₁ setVersions
        simp only [Table.insert_insert]

/-! ## Loading and preparing one name -/

/-- A name that is ready is loaded and prepared. -/
theorem installOne_ready (h : l.Recorded) (hready : l.Ready name cls) :
    ∃ defined, installOne name l = (.ready ⟨cls, true⟩,
      { l.setVersions name (withLive (l.versions name) ⟨cls, true⟩) with defined := defined }) := by
  obtain ⟨hnewest, members, hmembers⟩ := hready
  obtain ⟨live, l₁, hload, rfl, hlive, -, hagain⟩ := loadInstalled_live hnewest
  have hloading := loadInstalled_loading name l
  rw [hload] at hloading
  have h₁ := (edits_of_loading hloading).recorded h
  obtain ⟨v, hv, hvlive⟩ := Option.bind_eq_some_iff.mp hlive
  obtain ⟨older, hversions⟩ := List.getLast?_eq_some_iff.mp hv
  have hfound : (findInstalled name).run l = (.ok live, l₁) := run_bind_ok hload
  have hprepared : (Loader.prepare live).run l₁ =
      ((.ok members, { live with prepared := true }), l₁.markPrepared live.object) := by
    unfold Loader.prepare LiveClass.prepare
    rw [hmembers]
    rfl
  refine ⟨l₁.defined, ((run_bind hfound).trans (run_bind hprepared)).trans ?_⟩
  rw [h₁.markPrepared hversions hvlive, hagain]
  rfl

/-- A name whose bytes define no class is left as it is. -/
theorem loadInstalled_undefined {e : DefineError} (h : l.newest? name = some (.error e)) :
    (loadInstalled name).run l = (.error (.define name e), l) ∧ l.live? name = none := by
  rw [newest?_eq] at h
  obtain ⟨v, hv, hclass⟩ := Option.map_eq_some_iff.mp h
  unfold classOf at hclass
  cases hlive : v.live with
  | some live =>
    rw [hlive] at hclass
    cases hclass
  | none =>
    rw [hlive] at hclass
    cases hbody : l.definer name v.bytes with
    | ok body =>
      rw [hbody] at hclass
      cases hclass
    | error e' =>
      rw [hbody] at hclass
      cases hclass
      refine ⟨?_, by rw [live?, hv, Option.bind_some, hlive]⟩
      unfold loadInstalled
      rw [run_bind_ok (run_get l)]
      simp only [hv, hlive, hbody]
      rfl

/-- A name that is refused is left undefined, or defined and not prepared. -/
theorem installOne_refused {e : LoaderError} {defined : Bool} (h : l.Recorded)
    (hrefused : l.Refused name e defined) :
    ∃ l', installOne name l = (if defined then .notPrepared e else .notLoaded e, l') ∧
      Loads l [name] l' ∧ (l'.live? name).isSome = defined := by
  cases hrefused with
  | @notDefined e hnewest =>
    obtain ⟨hload, hlive⟩ := loadInstalled_undefined hnewest
    have hfound : (findInstalled name).run l = (.error (.define name e), l) := run_bind_error hload
    exact ⟨l, run_bind hfound, .refl l _, by rw [hlive]; rfl⟩
  | @notLinked cls e hnewest hmembers =>
    obtain ⟨live, l₁, hload, rfl, hlive, hloads, hagain⟩ := loadInstalled_live hnewest
    have hfound : (findInstalled name).run l = (.ok live, l₁) := run_bind_ok hload
    have hrefused : (Loader.prepare live).run l₁ =
        ((.error e, live), if live.prepared then l₁.markPrepared live.object else l₁) := by
      unfold Loader.prepare LiveClass.prepare
      simp only [hmembers]
      cases live.prepared <;> rfl
    refine ⟨_, (run_bind hfound).trans (run_bind hrefused), ?_⟩
    split
    · -- marking a class again that has been prepared leaves it as it is
      rename_i hprepared
      obtain ⟨v, hv, hvlive⟩ := Option.bind_eq_some_iff.mp hlive
      obtain ⟨older, hversions⟩ := List.getLast?_eq_some_iff.mp hv
      have hloading := loadInstalled_loading name l
      rw [hload] at hloading
      have hmark := ((edits_of_loading hloading).recorded h).markPrepared hversions hvlive
      rw [hmark]
      refine ⟨by rw [hagain]; exact loads_withLive l name _ _, ?_⟩
      rw [live?, versions_setVersions, if_pos rfl, hversions, withLive_concat, List.getLast?_concat]
      rfl
    · exact ⟨hloads, by rw [hlive]; rfl⟩

/-! ## Loading and preparing in order -/

/-- The name is ready, and its newest version has been made its class and prepared. -/
structure Installed (l l' : Loader) (name : String) (live : LiveClass) : Prop where
  ready : l.Ready name live.object
  prepared : live.prepared = true
  newest : l'.live? name = some live

/-- A class that is prepared stays the newest one of its name where no version is added. -/
theorem Installed.loading {l₁ : Loader} {live : LiveClass} (h : Installed l l' name live)
    (hloading : Relation.ReflTransGen Loading l' l₁) : Installed l l₁ name live := by
  have hlength := congrArg List.length (stamps_of_loading hloading name)
  rw [List.length_map, List.length_map] at hlength
  obtain ⟨live', hlive', hobject, hprepared⟩ :=
    live?_of_edits (edits_of_loading hloading) hlength h.newest
  obtain rfl : live' = live := by
    cases live
    cases live'
    rw [LiveClass.mk.injEq]
    exact ⟨hobject, (hprepared h.prepared).trans h.prepared.symm⟩
  exact ⟨h.ready, h.prepared, hlive'⟩

/-- What is said of names before some more loading holds of them behind it. -/
theorem Installed.from {l₁ : Loader} {live : LiveClass} (h : Installed l₁ l' name live)
    (hnewest : l₁.newest? = l.newest?) : Installed l l' name live :=
  ⟨h.ready.of_newest hnewest.symm, h.prepared, h.newest⟩

/-- A name that is ready, with what loading it leaves for the names behind it. -/
theorem installOne_installed (h : l.Recorded) (hready : l.Ready name cls) :
    ∃ l₁, installOne name l = (.ready ⟨cls, true⟩, l₁) ∧ Loads l [name] l₁ ∧ l₁.Recorded ∧
      l₁.newest? = l.newest? ∧ Installed l l₁ name ⟨cls, true⟩ := by
  obtain ⟨count, hone⟩ := installOne_ready h hready
  have hloading := installOne_loading name l
  rw [hone] at hloading
  refine ⟨_, hone, loads_withLive l name _ count, (edits_of_loading hloading).recorded h,
    newest?_of_loading hloading, hready, rfl, ?_⟩
  obtain ⟨v, hv, -⟩ := Option.map_eq_some_iff.mp hready.1
  obtain ⟨older, hversions⟩ := List.getLast?_eq_some_iff.mp hv
  show (versions (l.setVersions name _) name).getLast?.bind Version.live = _
  rw [versions_setVersions, if_pos rfl, hversions, withLive_concat, List.getLast?_concat]
  rfl

/-- Names that are ready are all loaded and prepared; otherwise loading stops at the first name
that is refused. -/
theorem installNames_exact {names : List String} (h : l.Recorded)
    (hnames : ∀ name ∈ names, l.newest? name ≠ none) :
    (∃ lives l', installNames names l = (.ok lives, l') ∧ Loads l names l' ∧
      List.Forall₂ (Installed l l') names lives) ∨
    ∃ before name after e defined l', names = before ++ name :: after ∧
      installNames names l = (.error (e, before.map (fun _ => true) ++ defined ::
        after.map fun _ => false), l') ∧
      Loads l (before ++ [name]) l' ∧ (∀ m ∈ before, ∃ live, Installed l l' m live) ∧
      l.Refused name e defined ∧ (l'.live? name).isSome = defined := by
  induction names generalizing l with
  | nil => exact .inl ⟨[], l, rfl, .refl l _, .nil⟩
  | cons name names ih =>
    rcases ready_or_refused (hnames name List.mem_cons_self) with
      ⟨cls, hready⟩ | ⟨e, defined, hrefused⟩
    · obtain ⟨l₁, hone, hloads, h₁, hnewest, hinstalled⟩ := installOne_installed h hready
      have hlater := installNames_loading names l₁
      rcases ih h₁ (fun m hm => hnewest ▸ hnames m (List.mem_cons_of_mem name hm)) with
        ⟨lives, l', hrun, hloads', hall⟩ |
        ⟨before, refused, after, e, defined, l', rfl, hrun, hloads', hbefore, hrefused, hlive⟩
      · rw [hrun] at hlater
        refine .inl ⟨⟨cls, true⟩ :: lives, l', ?_, hloads.trans hloads',
          .cons (hinstalled.loading hlater) (hall.imp fun _ _ hm => hm.from hnewest)⟩
        exact (run_bind hone).trans (run_bind hrun)
      · rw [hrun] at hlater
        refine .inr ⟨name :: before, refused, after, e, defined, l', rfl, ?_,
          hloads.trans hloads', ?_, hrefused.of_newest hnewest.symm, hlive⟩
        · exact (run_bind hone).trans (run_bind hrun)
        · intro m hm
          rcases List.mem_cons.mp hm with rfl | hm
          · exact ⟨_, hinstalled.loading hlater⟩
          · obtain ⟨live, hm⟩ := hbefore m hm
            exact ⟨live, hm.from hnewest⟩
    · obtain ⟨l', hone, hloads, hlive⟩ := installOne_refused h hrefused
      refine .inr ⟨[], name, names, e, defined, l', rfl, ?_, hloads, by simp, hrefused, hlive⟩
      refine (run_bind hone).trans ?_
      cases defined <;> rfl

/-! ## Installing again -/

/-- What a batch of different names that are all ready leaves in the table of versions. -/
theorem installNames_table {pairs : List (String × ClassObject)} (h : l.Recorded)
    (hdistinct : (pairs.map Prod.fst).Nodup) (hready : ∀ p ∈ pairs, l.Ready p.1 p.2) :
    ∃ defined, installNames (pairs.map Prod.fst) l =
      (.ok (pairs.map fun p => ⟨p.2, true⟩),
        { l with
          installed := l.installed.insertAll
            (pairs.map fun p => (p.1, withLive (l.versions p.1) ⟨p.2, true⟩))
          defined := defined }) := by
  induction pairs generalizing l with
  | nil => exact ⟨l.defined, rfl⟩
  | cons p pairs ih =>
    rw [List.map_cons, List.nodup_cons] at hdistinct
    obtain ⟨count, hone⟩ := installOne_ready h (hready p List.mem_cons_self)
    obtain ⟨l₁, hone₁, -, h₁, hnewest, -⟩ :=
      installOne_installed h (hready p List.mem_cons_self)
    obtain rfl := congrArg Prod.snd (hone.symm.trans hone₁)
    obtain ⟨defined, hrun⟩ := ih h₁ hdistinct.2 fun q hq =>
      (hready q (List.mem_cons_of_mem p hq)).of_newest hnewest
    refine ⟨defined, ((run_bind hone).trans (run_bind hrun)).trans ?_⟩
    -- the names behind are other ones, so their versions are still those of `l`
    have hversions : pairs.map (fun q => (q.1, withLive (versions
          { l.setVersions p.1 (withLive (l.versions p.1) ⟨p.2, true⟩) with defined := count } q.1)
          ⟨q.2, true⟩)) =
        pairs.map fun q => (q.1, withLive (l.versions q.1) ⟨q.2, true⟩) := by
      refine List.map_congr_left fun q hq => ?_
      have hne : q.1 ≠ p.1 := fun heq => hdistinct.1 (heq ▸ List.mem_map_of_mem hq)
      rw [show versions { l.setVersions p.1 (withLive (l.versions p.1) ⟨p.2, true⟩) with
        defined := count } q.1 = l.versions q.1 from
          (versions_setVersions l p.1 q.1 _).trans (if_neg hne)]
    rw [hversions]
    rfl

/-- A batch of different names that has been installed is found as it was left. -/
theorem installNames_again {names : List String} {lives : List LiveClass} (h : l.Recorded)
    (hdistinct : names.Nodup) (hrun : installNames names l = (.ok lives, l'))
    (hloads : Loads l names l') (hall : List.Forall₂ (Installed l l') names lives) :
    installNames names l' = (.ok lives, l') := by
  obtain ⟨pairs, rfl, rfl, hpairs⟩ : ∃ pairs : List (String × ClassObject),
      names = pairs.map Prod.fst ∧ lives = pairs.map (fun p => ⟨p.2, true⟩) ∧
        ∀ p ∈ pairs, Installed l l' p.1 ⟨p.2, true⟩ := by
    clear hrun hdistinct hloads
    induction hall with
    | nil => exact ⟨[], rfl, rfl, by simp⟩
    | @cons name live names lives hinstalled _ ih =>
      obtain ⟨pairs, rfl, rfl, hpairs⟩ := ih
      obtain ⟨object, prepared⟩ := live
      obtain rfl : prepared = true := hinstalled.prepared
      exact ⟨(name, object) :: pairs, rfl, rfl, by
        simpa using ⟨hinstalled, fun a b hab => hpairs (a, b) hab⟩⟩
  have hloading := installNames_loading (pairs.map Prod.fst) l
  rw [hrun] at hloading
  have hrecorded := (edits_of_loading hloading).recorded h
  obtain ⟨defined, hfirst⟩ := installNames_table h hdistinct fun p hp => (hpairs p hp).ready
  obtain ⟨defined', hagain⟩ := installNames_table hrecorded hdistinct fun p hp =>
    (hpairs p hp).ready.of_newest (newest?_of_loading hloading)
  have hleft : l' = _ := congrArg Prod.snd (hrun.symm.trans hfirst)
  have hkeys : ((pairs.map fun p => (p.1, withLive (l.versions p.1) ⟨p.2, true⟩)).map
      Prod.fst).Nodup := by
    rwa [List.map_map]
  have hinstalled : l'.installed.insertAll
      (pairs.map fun p => (p.1, withLive (l'.versions p.1) ⟨p.2, true⟩)) = l'.installed := by
    rw [List.map_congr_left fun p _ => by rw [hloads.withLive], hleft]
    exact Table.insertAll_again _ hkeys
  have hafter := installNames_loading (pairs.map Prod.fst) l'
  rw [hagain, hinstalled] at hafter
  have hcount : defined' = l'.defined :=
    ((edits_of_loading hafter).recorded hrecorded).counted.trans hrecorded.counted.symm
  rw [hagain, hinstalled, hcount]

/-! ## A batch as a whole -/

/-- Installing a batch declares it and then loads its names; a refusal names them all. -/
theorem install_eq (classes : List ClassBytes) (l : Loader) :
    (install classes).run l =
      ((installNames (classes.map ClassBytes.name) (l.declare classes)).1.mapError
          fun e => ⟨e.1, classes.map ClassBytes.name, e.2⟩,
        (installNames (classes.map ClassBytes.name) (l.declare classes)).2) := by
  have hdeclare : (modify fun l => l.declare classes : StateM Loader PUnit).run l =
      (⟨⟩, l.declare classes) := rfl
  refine (run_bind hdeclare).trans ?_
  cases hnames : installNames (classes.map ClassBytes.name) (l.declare classes) with
  | mk result l' =>
    refine (run_bind hnames).trans ?_
    cases result with
    | ok lives => rfl
    | error e => rfl

/-- The flags of a refusal name the members that were loaded. -/
theorem loadedNames_eq (cause : LoaderError) (before : List String) (name : String)
    (after : List String) (defined : Bool) :
    InstallError.loadedNames ⟨cause, before ++ name :: after,
        before.map (fun _ => true) ++ defined :: after.map fun _ => false⟩ =
      before ++ if defined then [name] else [] := by
  have hbefore (names : List String) :
      (((names.zip (names.map fun _ => true)).filter (·.2)).map (·.1)) = names := by
    induction names with
    | nil => rfl
    | cons m names ih => simpa using ih
  have hafter (names : List String) :
      (((names.zip (names.map fun _ => false)).filter (·.2)).map (·.1)) = [] := by
    induction names with
    | nil => rfl
    | cons m names ih => simpa using ih
  unfold InstallError.loadedNames
  rw [List.zip_append (by simp), List.filter_append, List.map_append, hbefore, List.zip_cons_cons]
  cases defined
  · rw [List.filter_cons_of_neg (by simp), hafter]
    rfl
  · rw [List.filter_cons_of_pos (by simp), List.map_cons, hafter]
    rfl

/-- Loading names of a batch changes nothing but the classes of the batch. -/
theorem Loads.outside {classes : List ClassBytes} {loaded : List String}
    (h : Loads (l.declare classes) loaded l')
    (hsub : ∀ m ∈ loaded, m ∈ classes.map ClassBytes.name) :
    l'.host = l.host ∧ l'.searchPath = l.searchPath ∧ l'.found = l.found ∧
      ∀ m, m ∉ classes.map ClassBytes.name → l'.versions m = l.versions m := by
  obtain ⟨hhost, hpath, hfound⟩ := declare_keeps classes l
  exact ⟨h.host.trans hhost, h.searchPath.trans hpath, h.found.trans hfound,
    fun m hm => (h.others m fun hmem => hm (hsub m hmem)).trans (versions_declare classes hm l)⟩

/-- The newest version of a class is the last one of its name in the batch, loaded or not. -/
theorem Loads.declaredBytes {classes before after : List ClassBytes} {c : ClassBytes}
    {loaded : List String} (h : Loads (l.declare classes) loaded l')
    (hclasses : classes = before ++ c :: after) (hc : c.name ∉ after.map ClassBytes.name) :
    (l'.versions c.name).getLast?.map Version.bytes = some c.bytes := by
  rw [h.newestBytes]
  show ((l.declare classes).versions c.name).getLast?.map Version.bytes = _
  rw [newestBytes_declare, hclasses, declaredBytes_last before hc]
  rfl

/-- Declaring a batch of different names again adds no version. -/
theorem Loads.declare_again {classes : List ClassBytes} {loaded : List String}
    (h : Loads (l.declare classes) loaded l') (hdistinct : (classes.map ClassBytes.name).Nodup) :
    l'.declare classes = l' := by
  refine declare_of_newest fun c hc => ?_
  obtain ⟨before, after, rfl⟩ := List.append_of_mem hc
  rw [List.map_append, List.map_cons] at hdistinct
  exact h.declaredBytes rfl (List.nodup_cons.mp (List.nodup_append.mp hdistinct).2.1).1

/-- Whatever has been done with a loader, installing a batch does what it reports.  All of the
batch is declared, and nothing outside it changes.  The batch is installed if and only if every
name of it is ready, and then every name has its newest version prepared; a batch of different
names that is installed again gives the same classes and leaves the loader as it is.  A refusal
comes from the first name that is refused: the names before it are prepared, it is defined or not
as the flags say, and no name behind it is loaded. -/
theorem install_exact (definer : Definer) (host : HostRegistry) (earlier : List Action)
    (classes : List ClassBytes) :
    let l := performAll { definer := definer, host := host } earlier
    let declared := l.declare classes
    let names := classes.map ClassBytes.name
    let result := ((install classes).run l).1
    let l' := ((install classes).run l).2
    (l'.host = l.host ∧ l'.searchPath = l.searchPath ∧ l'.found = l.found ∧
      ∀ m, m ∉ names → l'.versions m = l.versions m) ∧
    (∀ before c after, classes = before ++ c :: after → c.name ∉ after.map ClassBytes.name →
      (l'.versions c.name).getLast?.map Version.bytes = some c.bytes) ∧
    ((∃ lives, result = .ok lives) ↔ ∀ name ∈ names, ∃ cls, declared.Ready name cls) ∧
    (∀ lives, result = .ok lives →
      Loads declared names l' ∧ List.Forall₂ (Installed declared l') names lives ∧
        (names.Nodup → (install classes).run l' = (.ok lives, l'))) ∧
    ∀ e, result = .error e → ∃ before name after defined,
      names = before ++ name :: after ∧ e.names = names ∧
        e.loaded = before.map (fun _ => true) ++ defined :: after.map (fun _ => false) ∧
        e.loadedNames = before ++ (if defined then [name] else []) ∧
        Loads declared (before ++ [name]) l' ∧
        (∀ m ∈ before, ∃ live, Installed declared l' m live) ∧
        declared.Refused name e.cause defined ∧ (l'.live? name).isSome = defined := by
  intro l declared names result l'
  have hrecorded : declared.Recorded := by
    have hearlier := performAll_edits earlier { definer := definer, host := host }
    exact (declare_edits classes l).recorded (hearlier.recorded (recorded_new definer host))
  have hnewest : ∀ name ∈ names, declared.newest? name ≠ none := by
    intro name hname
    obtain ⟨c, hc, rfl⟩ := List.mem_map.mp hname
    exact newest?_declare hc l
  have hinstall := install_eq classes l
  rcases installNames_exact hrecorded hnewest with
    ⟨lives, left, hrun, hloads, hall⟩ |
    ⟨before, name, after, e, defined, left, hnames, hrun, hloads, hbefore, hrefused, hlive⟩
  · rw [hrun] at hinstall
    have hresult : result = .ok lives := congrArg Prod.fst hinstall
    obtain rfl : l' = left := congrArg Prod.snd hinstall
    refine ⟨hloads.outside fun _ hm => hm, fun _ _ _ => hloads.declaredBytes, ?_, ?_, ?_⟩
    · have hready : ∀ name ∈ names, ∃ cls, declared.Ready name cls :=
        ((List.forall₂_and_left names lives).mp
          (hall.imp fun _ live h => ⟨⟨live.object, h.ready⟩, h⟩)).1
      exact ⟨fun _ => hready, fun _ => ⟨lives, hresult⟩⟩
    · intro lives' hlives
      obtain rfl : lives = lives' := Except.ok.inj (hresult.symm.trans hlives)
      refine ⟨hloads, hall, fun hdistinct => ?_⟩
      rw [install_eq, hloads.declare_again hdistinct,
        installNames_again hrecorded hdistinct hrun hloads hall]
      rfl
    · intro e he
      cases hresult.symm.trans he
  · rw [hrun] at hinstall
    have hresult : result = .error ⟨e, names, _⟩ := congrArg Prod.fst hinstall
    obtain rfl : l' = left := congrArg Prod.snd hinstall
    have hsub : ∀ m ∈ before ++ [name], m ∈ names := by
      rw [hnames]
      simp only [List.mem_append, List.mem_cons]
      tauto
    refine ⟨hloads.outside hsub, fun _ _ _ => hloads.declaredBytes, ⟨?_, fun hready => ?_⟩, ?_, ?_⟩
    · rintro ⟨lives, hlives⟩
      cases hresult.symm.trans hlives
    · obtain ⟨cls, hready⟩ := hready name (hsub name (by simp))
      exact absurd hready (hrefused.not_ready cls)
    · intro lives hlives
      cases hresult.symm.trans hlives
    · intro e' he'
      cases hresult.symm.trans he'
      refine ⟨before, name, after, defined, hnames, rfl, rfl, ?_, hloads, hbefore, hrefused, hlive⟩
      rw [hnames]
      exact loadedNames_eq e before name after defined

end Loader

end ReplEngine
