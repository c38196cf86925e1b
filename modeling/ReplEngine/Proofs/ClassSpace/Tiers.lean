import ReplEngine.Proofs.ClassSpace.SearchOrder
set_option autoImplicit false

/-!
# What a name stands for over a run

A name stands for the bytes declared last under it; where none ever were, for the class that the
host has now; else for the class that an earlier lookup found on the search path; else for what
the first entry that has the name gives.  The parts are read off the history of the loader
(`newestBytes_performAll`, `host_performAll`, `found_performAll`, `searchPath_performAll`) and put
together in `find_tiered`.
-/

namespace ReplEngine.Loader

open Binary

variable {l l' : Loader} {name : String}

/-! ## Classes of versions -/

/-- Every class of a version is what the bytes of the version define. -/
def Genuine (l : Loader) : Prop :=
  ∀ {name v c}, v ∈ l.versions name → v.live = some c →
    l.definer name v.bytes = .ok c.object.body

theorem genuine_new (definer : Definer) (host : HostRegistry) :
    Genuine { definer := definer, host := host } := by
  intro name v c hv
  simp [versions, Table.get?] at hv

theorem Genuine.setVersions (h : l.Genuine) {key : String} {vs : List Version}
    (hvs : ∀ {v c}, v ∈ vs → v.live = some c → l.definer key v.bytes = .ok c.object.body) :
    (l.setVersions key vs).Genuine := by
  intro name v c hv hlive
  rw [versions_setVersions] at hv
  split at hv
  · rename_i hname
    exact hname ▸ hvs hv hlive
  · exact h hv hlive

theorem Loading.genuine (hloading : Loading l l') (h : l.Genuine) : l'.Genuine := by
  cases hloading with
  | elsewhere installed next defined definer host =>
    intro name v c hv
    have hversions : l'.versions = l.versions := by
      unfold versions
      rw [installed]
    rw [definer]
    exact h (hversions ▸ hv)
  | defined key v body hnewest hlive hbody =>
    refine Genuine.setVersions h fun {w c} hw hc => ?_
    rcases List.mem_append.mp hw with hold | hnew
    · exact h (List.dropLast_subset _ hold) hc
    · rw [List.mem_singleton] at hnew
      subst hnew
      cases hc
      exact hbody
  | prepared key generation =>
    refine h.setVersions fun {w c} hw hc => ?_
    obtain ⟨v, hv, rfl⟩ := List.mem_map.mp hw
    have hsame := v.markPrepared_live generation
    rw [hc, Option.map_some, eq_comm, Option.map_eq_some_iff] at hsame
    obtain ⟨c', hc', hobject⟩ := hsame
    have hbytes : (v.markPrepared generation).bytes = v.bytes :=
      congrArg Prod.fst (v.markPrepared_stamp generation)
    rw [← hobject, hbytes]
    exact h hv hc'

theorem Edit.genuine (hedit : Edit l l') (h : l.Genuine) : l'.Genuine := by
  cases hedit with
  | loading hloading => exact hloading.genuine h
  | declared key bytes hbytes =>
    refine Genuine.setVersions h fun {w c} hw hc => ?_
    rcases List.mem_append.mp hw with hold | hnew
    · exact h hold hc
    · rw [List.mem_singleton] at hnew
      subst hnew
      cases hc
  | registered key body => exact h

theorem Edits.genuine (hedits : Edits l l') (h : l.Genuine) : l'.Genuine := by
  induction hedits with
  | refl => exact h
  | tail _ hedit ih => exact hedit.genuine ih

theorem Edit.definer (hedit : Edit l l') : l'.definer = l.definer := by
  cases hedit with
  | loading hloading => exact hloading.definer
  | _ => rfl

theorem Edits.definer (hedits : Edits l l') : l'.definer = l.definer := by
  induction hedits with
  | refl => rfl
  | tail _ hedit ih => exact hedit.definer.trans ih

/-- The newest class of a name is what the newest bytes define, whether they were defined before
or not. -/
theorem newest?_eq_defined (hrecorded : l.Recorded) (h : l.Genuine) (name : String) :
    l.newest? name = (l.versions name).getLast?.map fun v =>
      (l.definer name v.bytes).map fun body => ⟨name, .installed v.generation, body⟩ := by
  rw [newest?_eq]
  refine Option.map_congr fun v hv => ?_
  have hmem := List.mem_of_getLast? hv
  unfold classOf
  cases hlive : v.live with
  | none => rfl
  | some live =>
    obtain ⟨hname, horigin⟩ := hrecorded.carried hmem hlive
    obtain ⟨⟨clsName, origin, body⟩, prepared⟩ := live
    obtain rfl : clsName = name := hname
    obtain rfl : origin = .installed v.generation := horigin
    have hbody := h hmem hlive
    simp only [hbody]
    rfl

/-! ## What a lookup answers -/

/-- What looking a name up answers. -/
def answer (l : Loader) (files : FileTree) (name : String) : Except LoaderError ClassObject :=
  ((Loader.find files name).run l).1.map LiveClass.object

/-- The class that bytes define under a name. -/
def defineAs (definer : Definer) (name : String) (origin : Origin) (bytes : Bytes) :
    Except LoaderError ClassObject :=
  match definer name bytes with
  | .ok body => .ok ⟨name, origin, body⟩
  | .error e => .error (.define name e)

/-- What the search path has for a name: the first entry that offers bytes decides. -/
def searchAnswer (l : Loader) (files : FileTree) (name : String) :
    Except LoaderError ClassObject :=
  match l.searchPath.findSome? fun entry => (entry.offers files name).map (·, entry.path) with
  | some (c, entry) => defineAs l.definer name (.searchPath entry) c.bytes
  | none => .error (.classNotFound name)

/-- The tiers, one behind the other. -/
theorem answer_eq (l : Loader) (files : FileTree) (name : String) :
    l.answer files name =
      match l.newest? name, l.host.find? name, l.found.get? name with
      | some result, _, _ => result.mapError (.define name)
      | none, some live, _ => .ok live.object
      | none, none, some live => .ok live.object
      | none, none, none => l.searchAnswer files name := by
  have hsearch (hsearches : l.Searches name) : l.newest? name = none :=
    newest?_eq_none.mpr hsearches.1
  unfold answer searchAnswer defineAs
  rw [← SearchPath.find_hit]
  have hlookup := find_lookup l files name
  generalize (Loader.find files name).run l = left at hlookup ⊢
  obtain ⟨result, l'⟩ := left
  cases hlookup with
  | installed hnewest hlive hloads =>
    rw [hnewest]
    rfl
  | notInstalled hnewest =>
    rw [hnewest]
    rfl
  | host hnewest hhost =>
    rw [hnewest, hhost]
    rfl
  | cached hnewest hhost hfound =>
    rw [hnewest, hhost, hfound]
    rfl
  | absent hsearches hhit =>
    rw [hsearch hsearches, hsearches.2.1, hsearches.2.2, hhit]
    rfl
  | notDefined hsearches hhit hbody =>
    rw [hsearch hsearches, hsearches.2.1, hsearches.2.2, hhit]
    simp only [hbody]
    rfl
  | defined hsearches hhit hbody =>
    rw [hsearch hsearches, hsearches.2.1, hsearches.2.2, hhit]
    simp only [hbody]
    rfl

/-! ## What is read off a history -/

/-- The classes that an operation declares, in order. -/
def Action.declares : Action → List ClassBytes
  | .declare classes => classes
  | .install classes => classes
  | _ => []

/-- The body that an operation registers under a name. -/
def Action.registers (name : String) : Action → Option ClassBody
  | .register key body => if key = name then some body else none
  | _ => none

/-- The bytes that a history declares last under a name. -/
def lastDeclared (history : List Action) (name : String) : Option Bytes :=
  declaredBytes (history.flatMap Action.declares) name

/-- The body that a history registers last under a name. -/
def lastRegistered (history : List Action) (name : String) : Option ClassBody :=
  history.reverse.findSome? (Action.registers name)

theorem newestBytes_perform (l : Loader) (action : Action) (name : String) :
    ((l.perform action).versions name).getLast?.map Version.bytes =
      (declaredBytes action.declares name).or ((l.versions name).getLast?.map Version.bytes) := by
  cases action with
  | declare classes => exact newestBytes_declare l classes name
  | install classes =>
    show (((install classes).run l).2.versions name).getLast?.map Version.bytes = _
    rw [install_after, newestBytes_of_loading (installNames_loading _ _)]
    exact newestBytes_declare l classes name
  | find files key => exact newestBytes_of_loading (find_loading files key l) name
  | findInstalled key => exact newestBytes_of_loading (findInstalled_loading key l) name
  | prepare c => exact newestBytes_of_loading (prepare_loading c l) name
  | addEntry files path => rfl
  | extend files paths =>
    simp only [perform]
    split
    · rename_i hextend
      exact newestBytes_of_loading (extend_loading hextend) name
    · rfl
  | register key body => rfl

/-- The newest bytes of a name are those that were declared last under it. -/
theorem newestBytes_performAll (l : Loader) (history : List Action) (name : String) :
    ((l.performAll history).versions name).getLast?.map Version.bytes =
      (lastDeclared history name).or ((l.versions name).getLast?.map Version.bytes) := by
  induction history generalizing l with
  | nil => rfl
  | cons action history ih =>
    have hcons : l.performAll (action :: history) = (l.perform action).performAll history := rfl
    rw [hcons, ih, newestBytes_perform, lastDeclared, lastDeclared, List.flatMap_cons,
      declaredBytes_append, Option.or_assoc]

theorem host_perform (l : Loader) (action : Action) (name : String) :
    ((l.perform action).host.find? name).map LiveClass.object =
      match action.registers name with
      | some body => some (l.host.nextObject name body)
      | none => (l.host.find? name).map LiveClass.object := by
  cases action with
  | declare classes =>
    show ((l.declare classes).host.find? name).map _ = _
    rw [(declare_keeps classes l).1]
    rfl
  | install classes =>
    show (((install classes).run l).2.host.find? name).map _ = _
    rw [install_after, host_of_loading (installNames_loading _ _) name, (declare_keeps classes l).1]
    rfl
  | find files key => exact host_of_loading (find_loading files key l) name
  | findInstalled key => exact host_of_loading (findInstalled_loading key l) name
  | prepare c => exact host_of_loading (prepare_loading c l) name
  | addEntry files path => rfl
  | extend files paths =>
    simp only [perform]
    split
    · rename_i hextend
      exact host_of_loading (extend_loading hextend) name
    · rfl
  | register key body =>
    show ((l.host.register key body).find? name).map _ = _
    rw [HostRegistry.find?_register]
    simp only [Action.registers, eq_comm (a := name)]
    split
    · rename_i hkey
      rw [hkey]
      rfl
    · rfl

/-- The class that the host has under a name was registered last, or it was there before. -/
theorem host_performAll (l : Loader) (history : List Action) (name : String) :
    ((l.performAll history).host.find? name).map (·.object.body) =
      (lastRegistered history name).or ((l.host.find? name).map (·.object.body)) := by
  induction history generalizing l with
  | nil => rfl
  | cons action history ih =>
    have hcons : l.performAll (action :: history) = (l.perform action).performAll history := rfl
    have hstep := congrArg (Option.map ClassObject.body) (host_perform l action name)
    rw [Option.map_map] at hstep
    rw [hcons, ih, lastRegistered, lastRegistered, List.reverse_cons, List.findSome?_append,
      Option.or_assoc]
    congr 1
    refine hstep.trans ?_
    rw [List.findSome?_singleton]
    cases action.registers name with
    | some body => rfl
    | none => exact Option.map_map _ _ _

/-- Where the name is not registered, the host keeps its class. -/
theorem host_of_not_registered (l : Loader) {history : List Action}
    (h : ∀ action ∈ history, action.registers name = none) :
    ((l.performAll history).host.find? name).map LiveClass.object =
      (l.host.find? name).map LiveClass.object := by
  induction history generalizing l with
  | nil => rfl
  | cons action history ih =>
    have hstep := host_perform l action name
    rw [h action List.mem_cons_self] at hstep
    exact (ih (l.perform action) fun a ha => h a (List.mem_cons_of_mem action ha)).trans hstep

/-! ## What was found before -/

/-- An earlier lookup of the name went past the installed and the host classes and answered the
class. -/
def FoundBefore (l : Loader) (history : List Action) (name : String) (cls : ClassObject) : Prop :=
  ∃ before files after, history = before ++ .find files name :: after ∧
    lastDeclared before name = none ∧ (l.performAll before).host.find? name = none ∧
    (l.performAll before).answer files name = .ok cls

/-- A lookup keeps what was found, but for the class that it finds itself. -/
theorem found_find (l : Loader) (files : FileTree) (key name : String) :
    (((Loader.find files key).run l).2.found.get? name = l.found.get? name) ∨
    key = name ∧ l.Searches name := by
  have hlookup := find_lookup l files key
  generalize (Loader.find files key).run l = left at hlookup ⊢
  obtain ⟨result, l'⟩ := left
  cases hlookup with
  | installed hnewest hlive hloads => exact .inl (by rw [hloads.found])
  | defined hsearches hhit hbody =>
    by_cases hkey : key = name
    · exact .inr ⟨hkey, hkey ▸ hsearches⟩
    · refine .inl ((Table.get?_insert _ _ _ _).trans (if_neg (Ne.symm hkey)))
  | _ => exact .inl rfl

/-- What one operation does to what was found: nothing, but for a lookup that searches. -/
theorem found_perform (h : l.Recorded) (action : Action) (name : String) :
    (((l.perform action).found.get? name).map LiveClass.object =
      (l.found.get? name).map LiveClass.object) ∨
    ∃ files, action = .find files name ∧ l.Searches name := by
  by_cases hfind : ∃ files key, action = .find files key
  · obtain ⟨files, key, rfl⟩ := hfind
    rcases found_find l files key name with hkept | ⟨rfl, hsearches⟩
    · exact .inl (congrArg (Option.map LiveClass.object) hkept)
    · exact .inr ⟨files, rfl, hsearches⟩
  · exact .inl ((pathAdds_perform h (by simpa using hfind)).found name)

/-- A class that was found stays. -/
theorem found_stays (h : l.Recorded) {cls : ClassObject}
    (hfound : (l.found.get? name).map LiveClass.object = some cls) (actions : List Action) :
    ((l.performAll actions).found.get? name).map LiveClass.object = some cls := by
  induction actions generalizing l with
  | nil => exact hfound
  | cons action actions ih =>
    refine ih ((perform_edits l action).recorded h) ?_
    rcases found_perform h action name with hkept | ⟨files, -, hsearches⟩
    · rw [hkept, hfound]
    · rw [hsearches.2.2] at hfound
      cases hfound

/-- A lookup that goes past the installed and the host classes leaves the class that it answers
among those that were found; if it answers none, it leaves none. -/
theorem found_of_answer (files : FileTree) (hversions : l.versions name = [])
    (hhost : l.host.find? name = none) :
    ((l.perform (.find files name)).found.get? name).map LiveClass.object =
      (l.answer files name).toOption := by
  have hnone : l.newest? name = none := newest?_eq_none.mpr hversions
  unfold answer
  show ((((Loader.find files name).run l).2).found.get? name).map _ = _
  have hlookup := find_lookup l files name
  generalize (Loader.find files name).run l = left at hlookup ⊢
  obtain ⟨result, l'⟩ := left
  cases hlookup with
  | installed hnewest hlive hloads => cases hnone.symm.trans hnewest
  | notInstalled hnewest => cases hnone.symm.trans hnewest
  | host hnewest hlive => cases hhost.symm.trans hlive
  | cached hnewest hhost hfound => exact congrArg (Option.map LiveClass.object) hfound
  | absent hsearches hhit => exact congrArg (Option.map LiveClass.object) hsearches.2.2
  | notDefined hsearches hhit hbody => exact congrArg (Option.map LiveClass.object) hsearches.2.2
  | defined hsearches hhit hbody =>
    exact congrArg (Option.map LiveClass.object) ((Table.get?_insert _ _ _ _).trans (if_pos rfl))

theorem performAll_append (l : Loader) (earlier later : List Action) :
    l.performAll (earlier ++ later) = (l.performAll earlier).performAll later :=
  List.foldl_append

theorem versions_performAll_eq_nil (hversions : l.versions name = []) (history : List Action) :
    (l.performAll history).versions name = [] ↔ lastDeclared history name = none := by
  have hbytes := newestBytes_performAll l history name
  rw [hversions, List.getLast?_nil, Option.map_none, Option.or_none] at hbytes
  rw [← hbytes, Option.map_eq_none_iff, List.getLast?_eq_none_iff]

/-- What was found so far is what earlier lookups have answered. -/
theorem found_performAll (h : l.Recorded) (hversions : l.versions name = [])
    (hnew : l.found.get? name = none) (history : List Action) (cls : ClassObject) :
    ((l.performAll history).found.get? name).map LiveClass.object = some cls ↔
      l.FoundBefore history name cls := by
  constructor
  · intro hfound
    induction history using List.reverseRecOn with
    | nil =>
      rw [show l.performAll [] = l from rfl, hnew] at hfound
      cases hfound
    | append_singleton history action ih =>
      have hrecorded := (performAll_edits history l).recorded h
      rw [performAll_append] at hfound
      rcases found_perform hrecorded action name with hkept | ⟨files, rfl, hsearches⟩
      · obtain ⟨before, files, after, rfl, hbefore⟩ := ih (hkept.symm.trans hfound)
        exact ⟨before, files, after ++ [action], by simp, hbefore⟩
      · refine ⟨history, files, [], rfl, (versions_performAll_eq_nil hversions history).mp
          hsearches.1, hsearches.2.1, ?_⟩
        have hanswer := (found_of_answer files hsearches.1 hsearches.2.1).symm.trans hfound
        cases hresult : (l.performAll history).answer files name with
        | ok cls' =>
          rw [hresult] at hanswer
          exact congrArg Except.ok (Option.some.inj hanswer)
        | error e =>
          rw [hresult] at hanswer
          cases hanswer
  · rintro ⟨before, files, after, rfl, hdeclared, hhost, hanswer⟩
    have hcons : l.performAll (before ++ .find files name :: after) =
        ((l.performAll before).perform (.find files name)).performAll after :=
      performAll_append l before _
    rw [hcons]
    have hrecorded := (performAll_edits before l).recorded h
    refine found_stays ((perform_edits _ _).recorded hrecorded) ?_ after
    rw [found_of_answer files ((versions_performAll_eq_nil hversions before).mpr hdeclared) hhost,
      hanswer]
    rfl

/-! ## Tiers and their stability -/

theorem newest?_of_live? {live : LiveClass} (h : l.live? name = some live) :
    l.newest? name = some (.ok live.object) := by
  obtain ⟨v, hv, hvlive⟩ := Option.bind_eq_some_iff.mp h
  rw [newest?_eq, hv, Option.map_some, classOf, hvlive]

/-- A lookup that answers the newest version leaves it defined. -/
theorem live?_of_answer (files : FileTree) {cls : ClassObject}
    (h : l.newest? name = some (.ok cls)) :
    ∃ live, (l.perform (.find files name)).live? name = some live ∧ live.object = cls := by
  obtain ⟨live, l', hload, hobject, hlive, -⟩ := loadInstalled_live h
  have hfind : (Loader.find files name).run l = (.ok live, l') := Reading.run_bind_ok hload
  refine ⟨live, ?_, hobject⟩
  show ((Loader.find files name).run l).2.live? name = some live
  rw [hfind, hlive]

/-- Two lookups of a name answer the same class where between them no version of the name is added
and it is not registered, whatever becomes of the files and of the search path. -/
theorem answer_stable (h : l.Recorded) (files files' : FileTree) (between : List Action)
    {cls cls' : ClassObject}
    (hlength : (((l.perform (.find files name)).performAll between).versions name).length =
      (l.versions name).length)
    (hregisters : ∀ action ∈ between, action.registers name = none)
    (hfirst : l.answer files name = .ok cls)
    (hsecond : ((l.perform (.find files name)).performAll between).answer files' name = .ok cls') :
    cls' = cls := by
  have hedits := performAll_edits between (l.perform (.find files name))
  have hhost := (host_of_not_registered (l.perform (.find files name)) hregisters).trans
    (host_perform l (.find files name) name)
  rw [answer_eq] at hsecond
  cases hnewest : l.newest? name with
  | some result =>
    rw [answer_eq, hnewest] at hfirst
    cases result with
    | error e => cases hfirst
    | ok cls₁ =>
      cases hfirst
      obtain ⟨live, hlive, hobject⟩ := live?_of_answer files hnewest
      have hlength₁ := congrArg List.length (stamps_of_loading (find_loading files name l) name)
      rw [List.length_map, List.length_map] at hlength₁
      obtain ⟨live', hlive', hsame, -⟩ := live?_of_edits hedits (hlength.trans hlength₁.symm) hlive
      rw [newest?_of_live? hlive', hsame, hobject] at hsecond
      exact (Except.ok.inj hsecond).symm
  | none =>
    have hversions := newest?_eq_none.mp hnewest
    rw [hversions, List.length_nil, List.length_eq_zero_iff, ← newest?_eq_none] at hlength
    rw [hlength] at hsecond
    cases hregistered : l.host.find? name with
    | some live =>
      rw [answer_eq, hnewest, hregistered] at hfirst
      rw [hregistered] at hhost
      obtain ⟨live', hlive', hobject⟩ := Option.map_eq_some_iff.mp hhost
      rw [hlive'] at hsecond
      cases hfirst
      cases hsecond
      exact hobject
    | none =>
      rw [hregistered] at hhost
      have hleft := found_of_answer files hversions hregistered
      rw [hfirst] at hleft
      have hkept := found_stays ((perform_edits l (.find files name)).recorded h) hleft between
      obtain ⟨live', hlive', hobject⟩ := Option.map_eq_some_iff.mp hkept
      rw [Option.map_eq_none_iff.mp hhost, hlive'] at hsecond
      cases hsecond
      exact hobject

/-- A name that was declared stands for what its newest bytes define, or is refused as they are. -/
theorem answer_declared (hrecorded : l.Recorded) (hgenuine : l.Genuine) {bytes : Bytes}
    (h : (l.versions name).getLast?.map Version.bytes = some bytes) (files : FileTree) :
    ∃ generation, (l.versions name).getLast?.map Version.stamp = some (bytes, generation) ∧
      l.answer files name = defineAs l.definer name (.installed generation) bytes := by
  obtain ⟨v, hv, rfl⟩ := Option.map_eq_some_iff.mp h
  refine ⟨v.generation, by rw [hv]; rfl, ?_⟩
  rw [answer_eq, newest?_eq_defined hrecorded hgenuine, hv, Option.map_some]
  unfold defineAs
  cases l.definer name v.bytes <;> rfl

/-- Whatever was done with a loader, looking a name up answers in tiers.  If the name was ever
declared, the bytes declared last decide, also if they define no class.  Otherwise the class that
the host has now is answered; else the class that an earlier lookup found; else what the first
entry of the search path that has the name gives.  The host has what was registered last.  The
entries stand in the order in which they were added, and an archive offers what could be read of
it first.  Two lookups that answer a class answer the same one if no version of the name was added
between them and it was not registered. -/
theorem find_tiered (definer : Definer) (host : HostRegistry) (history : List Action)
    (files : FileTree) (name : String) :
    let start : Loader := { definer := definer, host := host }
    let l := start.performAll history
    (∀ bytes, lastDeclared history name = some bytes →
      ∃ generation, (l.versions name).getLast?.map Version.stamp = some (bytes, generation) ∧
        l.answer files name = defineAs definer name (.installed generation) bytes) ∧
    (lastDeclared history name = none →
      (∀ live, l.host.find? name = some live → l.answer files name = .ok live.object) ∧
      (l.host.find? name = none →
        (∀ cls, start.FoundBefore history name cls → l.answer files name = .ok cls) ∧
        ((∀ cls, ¬ start.FoundBefore history name cls) →
          l.answer files name =
            match l.searchPath.findSome? fun e => (e.offers files name).map (·, e.path) with
            | some (c, entry) => defineAs definer name (.searchPath entry) c.bytes
            | none => .error (.classNotFound name)))) ∧
    (l.host.find? name).map (·.object.body) =
      (lastRegistered history name).or ((host.find? name).map (·.object.body)) ∧
    l.searchPath = ((history.flatMap Action.adds).map asAdded).mapIdx
      (fun i e => e.seenWith (start.allLooks i history)) ∧
    ∀ between files' cls cls',
      let l' := (l.perform (.find files name)).performAll between
      (l'.versions name).length = (l.versions name).length →
      (∀ action ∈ between, action.registers name = none) →
      l.answer files name = .ok cls → l'.answer files' name = .ok cls' → cls' = cls := by
  intro start l
  have hstart : start.Recorded := recorded_new definer host
  have hedits : Edits start l := performAll_edits history start
  have hrecorded := hedits.recorded hstart
  have hgenuine : l.Genuine := hedits.genuine (genuine_new definer host)
  have hdefiner : l.definer = definer := hedits.definer
  have hcached (cls : ClassObject) :
      (l.found.get? name).map LiveClass.object = some cls ↔ start.FoundBefore history name cls :=
    found_performAll hstart rfl rfl history cls
  refine ⟨fun bytes hbytes => ?_, fun hnone => ?_, ?_, ?_, ?_⟩
  · have hnewest := newestBytes_performAll start history name
    rw [hbytes] at hnewest
    rw [← hdefiner]
    exact answer_declared hrecorded hgenuine hnewest files
  · have hversions : l.newest? name = none :=
      newest?_eq_none.mpr ((versions_performAll_eq_nil rfl history).mpr hnone)
    refine ⟨fun live hhost => by rw [answer_eq, hversions, hhost], fun hhost => ⟨?_, ?_⟩⟩
    · intro cls hbefore
      obtain ⟨live, hfound, rfl⟩ := Option.map_eq_some_iff.mp ((hcached cls).mpr hbefore)
      rw [answer_eq, hversions, hhost, hfound]
    · intro hnever
      have hfound : l.found.get? name = none := by
        cases hfound : l.found.get? name with
        | none => rfl
        | some live => exact absurd ((hcached live.object).mp (by rw [hfound]; rfl)) (hnever _)
      rw [answer_eq, hversions, hhost, hfound, ← hdefiner]
      rfl
  · exact host_performAll start history name
  · exact searchPath_performAll hstart history
  · intro between files' cls cls' l' hlength hregisters hfirst hsecond
    exact answer_stable hrecorded files files' between hlength hregisters hfirst hsecond

end ReplEngine.Loader
