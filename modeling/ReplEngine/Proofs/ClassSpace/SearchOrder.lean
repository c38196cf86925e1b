import ReplEngine.Proofs.ClassSpace.Batches
set_option autoImplicit false

/-!
# The search path over a run

A search asks the entries in the order in which they were added, and the first one that has a
class for the name gives it.  Directories are asked anew every time.  An archive is asked for what
could be read of it first; so what is kept of it depends on the files that it was looked at with,
one after the other (`searchPath_performAll`).
-/

namespace ReplEngine

/-! ## One entry -/

namespace SearchEntry

/-- The class that an entry has for a name.  An entry that cannot be read has none. -/
def offers (files : FileTree) (name : String) : SearchEntry → Option ClassBytes
  | directory path => (files.read (loosePath path name)).toOption.map (ClassBytes.mk name)
  | archive path kept => (kept.or (Archive.read files path).toOption).bind (Archive.find? · name)

/-- The entry after it was looked at with these files in turn: an archive keeps what could be read
first. -/
def seenWith (looks : List FileTree) : SearchEntry → SearchEntry
  | directory path => directory path
  | archive path kept =>
    archive path (kept.or (looks.findSome? fun files => (Archive.read files path).toOption))

theorem lookup_eq (files : FileTree) (name : String) (entry : SearchEntry) :
    entry.lookup files name = (entry.offers files name, entry.seenWith [files]) := by
  cases entry with
  | directory path =>
    simp only [lookup, offers, seenWith]
    cases files.read (loosePath path name) <;> rfl
  | archive path kept =>
    cases kept with
    | some contents => rfl
    | none =>
      simp only [lookup, offers, seenWith, List.findSome?_cons]
      cases Archive.read files path <;> rfl

@[simp] theorem seenWith_nil (entry : SearchEntry) : entry.seenWith [] = entry := by
  cases entry with
  | directory path => rfl
  | archive path kept => cases kept <;> rfl

theorem seenWith_append (looks more : List FileTree) (entry : SearchEntry) :
    entry.seenWith (looks ++ more) = (entry.seenWith looks).seenWith more := by
  cases entry with
  | directory path => rfl
  | archive path kept =>
    simp only [seenWith, List.findSome?_append, Option.or_assoc]

@[simp] theorem path_seenWith (looks : List FileTree) (entry : SearchEntry) :
    (entry.seenWith looks).path = entry.path := by
  cases entry <;> rfl

end SearchEntry

/-! ## One search -/

namespace SearchPath

/-- The entry at a place is asked for the name: no entry before it has a class. -/
def Reached (files : FileTree) (name : String) (entries : List SearchEntry) (i : Nat) : Prop :=
  i < entries.length ∧ ∀ entry ∈ entries.take i, entry.offers files name = none

instance (files : FileTree) (name : String) (entries : List SearchEntry) (i : Nat) :
    Decidable (Reached files name entries i) :=
  inferInstanceAs (Decidable (_ ∧ _))

theorem reached_zero (files : FileTree) (name : String) (entry : SearchEntry)
    (entries : List SearchEntry) : Reached files name (entry :: entries) 0 :=
  ⟨Nat.zero_lt_succ _, by simp⟩

theorem reached_succ {files : FileTree} {name : String} {entry : SearchEntry}
    {entries : List SearchEntry} {i : Nat} :
    Reached files name (entry :: entries) (i + 1) ↔
      entry.offers files name = none ∧ Reached files name entries i := by
  unfold Reached
  rw [List.length_cons, Nat.add_lt_add_iff_right, List.take_succ_cons, List.forall_mem_cons]
  exact and_left_comm

/-- The first entry that has a class gives it. -/
theorem find_hit (files : FileTree) (name : String) (entries : List SearchEntry) :
    (find files name entries).1 =
      entries.findSome? fun entry => (entry.offers files name).map (·, entry.path) := by
  induction entries with
  | nil => rfl
  | cons entry entries ih =>
    unfold find
    rw [entry.lookup_eq, List.findSome?_cons]
    cases entry.offers files name with
    | some found => simp
    | none => exact ih

/-- The entries that were asked have been looked at, and the others are as they were. -/
theorem find_entries (files : FileTree) (name : String) (entries : List SearchEntry) (i : Nat) :
    (find files name entries).2[i]? =
      entries[i]?.map (·.seenWith (if Reached files name entries i then [files] else [])) := by
  induction entries generalizing i with
  | nil => rfl
  | cons entry entries ih =>
    have hfind : (find files name (entry :: entries)).2 =
        entry.seenWith [files] ::
          if entry.offers files name = none then (find files name entries).2 else entries := by
      rw [find, entry.lookup_eq]
      cases entry.offers files name <;> simp
    rw [hfind]
    cases i with
    | zero =>
      rw [if_pos (reached_zero files name entry entries)]
      rfl
    | succ i =>
      rw [List.getElem?_cons_succ, List.getElem?_cons_succ]
      by_cases hoffers : entry.offers files name = none
      · rw [if_pos hoffers, ih]
        simp only [reached_succ, hoffers, true_and]
      · rw [if_neg hoffers, if_neg fun h => hoffers (reached_succ.mp h).1]
        simp

end SearchPath

namespace Loader

open Reading

variable {l l' : Loader} {name : String}

/-! ## One lookup -/

/-- The name is looked for on the search path: it is neither installed nor of the host, and no
class was found for it before. -/
def Searches (l : Loader) (name : String) : Prop :=
  l.versions name = [] ∧ l.host.find? name = none ∧ l.found.get? name = none

instance (l : Loader) (name : String) : Decidable (l.Searches name) :=
  inferInstanceAs (Decidable (_ ∧ _ = none ∧ _ = none))

/-- The loader once a name was looked for on the search path. -/
def searched (l : Loader) (files : FileTree) (name : String) : Loader :=
  { l with searchPath := (SearchPath.find files name l.searchPath).2 }

/-- How looking a name up can end, and what becomes of the loader. -/
inductive Lookup (l : Loader) (files : FileTree) (name : String) :
    Except LoaderError LiveClass → Loader → Prop where
  | installed {live : LiveClass} {l' : Loader} (hnewest : l.newest? name = some (.ok live.object))
      (hlive : l'.live? name = some live) (hloads : Loads l [name] l') :
      Lookup l files name (.ok live) l'
  | notInstalled {e : DefineError} (hnewest : l.newest? name = some (.error e)) :
      Lookup l files name (.error (.define name e)) l
  | host {live : LiveClass} (hnewest : l.newest? name = none)
      (hhost : l.host.find? name = some live) : Lookup l files name (.ok live) l
  | cached {live : LiveClass} (hnewest : l.newest? name = none) (hhost : l.host.find? name = none)
      (hfound : l.found.get? name = some live) : Lookup l files name (.ok live) l
  | absent (hsearches : l.Searches name)
      (hhit : (SearchPath.find files name l.searchPath).1 = none) :
      Lookup l files name (.error (.classNotFound name)) (l.searched files name)
  | notDefined {c : ClassBytes} {entry : String} {e : DefineError} (hsearches : l.Searches name)
      (hhit : (SearchPath.find files name l.searchPath).1 = some (c, entry))
      (hbody : l.definer name c.bytes = .error e) :
      Lookup l files name (.error (.define name e)) (l.searched files name)
  | defined {c : ClassBytes} {entry : String} {body : ClassBody} (hsearches : l.Searches name)
      (hhit : (SearchPath.find files name l.searchPath).1 = some (c, entry))
      (hbody : l.definer name c.bytes = .ok body) :
      Lookup l files name (.ok ⟨⟨name, .searchPath entry, body⟩, false⟩)
        { l.searched files name with
          found := l.found.insert name ⟨⟨name, .searchPath entry, body⟩, false⟩ }

theorem loadFromSearchPath_lookup (files : FileTree) (hsearches : l.Searches name) :
    ∃ result l', (loadFromSearchPath files name).run l = (result, l') ∧
      Lookup l files name (result.bind fun
        | some live => .ok live
        | none => .error (.classNotFound name)) l' := by
  unfold loadFromSearchPath
  rw [run_bind_ok (run_get l)]
  simp only [hsearches.2.2]
  cases hfind : SearchPath.find files name l.searchPath with
  | mk hit entries =>
    have hsearched : l.searched files name = { l with searchPath := entries } := by
      rw [searched, hfind]
    cases hit with
    | none => exact ⟨_, _, rfl, hsearched ▸ .absent hsearches (by rw [hfind])⟩
    | some hit =>
      obtain ⟨c, entry⟩ := hit
      have hhit : (SearchPath.find files name l.searchPath).1 = some (c, entry) := by rw [hfind]
      cases hbody : l.definer name c.bytes with
      | error e =>
        have hrefused := Lookup.notDefined hsearches hhit hbody
        rw [hsearched] at hrefused
        refine ⟨.error (.define name e), _, ?_, hrefused⟩
        simp only [hbody]
        rfl
      | ok body =>
        have hdefined : Lookup l files name _ _ := .defined hsearches hhit hbody
        rw [hsearched] at hdefined
        refine ⟨.ok (some ⟨⟨name, .searchPath entry, body⟩, false⟩), _, ?_, hdefined⟩
        simp only [hbody]
        rfl

/-- Every lookup ends in one of these ways. -/
theorem find_lookup (l : Loader) (files : FileTree) (name : String) :
    Lookup l files name ((Loader.find files name).run l).1 ((Loader.find files name).run l).2 := by
  cases hnewest : l.newest? name with
  | some result =>
    cases result with
    | error e =>
      have hfind : (Loader.find files name).run l = (.error (.define name e), l) :=
        run_bind_error (loadInstalled_undefined hnewest).1
      rw [hfind]
      exact .notInstalled hnewest
    | ok cls =>
      obtain ⟨live, l', hload, rfl, hlive, hloads, -⟩ := loadInstalled_live hnewest
      have hfind : (Loader.find files name).run l = (.ok live, l') := run_bind_ok hload
      rw [hfind]
      exact .installed hnewest hlive hloads
  | none =>
    cases hhost : l.host.find? name with
    | some live =>
      rw [find_host files hnewest hhost]
      exact .host hnewest hhost
    | none =>
      have hfind : (Loader.find files name).run l =
          (loadFromSearchPath files name >>= fun
            | some live => pure live
            | none => throw (.classNotFound name)).run l := by
        unfold Loader.find
        rw [run_bind_ok (loadInstalled_run_none hnewest)]
        simp only
        rewrite [run_bind_ok (run_get l), hhost]
        rfl
      cases hfound : l.found.get? name with
      | some live =>
        have hload : (loadFromSearchPath files name).run l = (.ok (some live), l) := by
          unfold loadFromSearchPath
          rw [run_bind_ok (run_get l)]
          simp only [hfound]
          rfl
        rw [hfind, run_bind_ok hload]
        exact .cached hnewest hhost hfound
      | none =>
        obtain ⟨result, l', hload, hlookup⟩ :=
          loadFromSearchPath_lookup files ⟨newest?_eq_none.mp hnewest, hhost, hfound⟩
        rw [hfind]
        cases result with
        | error e =>
          rw [run_bind_error hload]
          exact hlookup
        | ok found =>
          rw [run_bind_ok hload]
          cases found with
          | some live => exact hlookup
          | none => exact hlookup

/-! ## One operation -/

theorem Loads.mono {names more : List String} (h : Loads l names l') (hsub : names ⊆ more) :
    Loads l more l' :=
  { h with others := fun m hm => h.others m fun hmem => hm (hsub hmem) }

/-- Installing a batch declares it and loads newest versions of its names, refused or not. -/
theorem install_loads (h : l.Recorded) (classes : List ClassBytes) :
    Loads (l.declare classes) (classes.map ClassBytes.name) ((install classes).run l).2 := by
  have hnewest : ∀ name ∈ classes.map ClassBytes.name, (l.declare classes).newest? name ≠ none := by
    intro name hname
    obtain ⟨c, hc, rfl⟩ := List.mem_map.mp hname
    exact newest?_declare hc l
  rw [install_after]
  rcases installNames_exact ((declare_edits classes l).recorded h) hnewest with
    ⟨lives, l', hrun, hloads, -⟩ | ⟨before, name, after, e, defined, l', hnames, hrun, hloads, -⟩
  · rw [hrun]
    exact hloads
  · rw [hrun, hnames]
    refine hloads.mono fun m hm => ?_
    simp only [List.mem_append, List.mem_cons] at hm ⊢
    tauto

theorem findInstalled_loads (l : Loader) (name : String) :
    Loads l [name] ((findInstalled name).run l).2 := by
  cases hnewest : l.newest? name with
  | none =>
    have hfind : (findInstalled name).run l = (.error (.classNotFound name), l) :=
      run_bind_ok (loadInstalled_run_none hnewest)
    exact hfind ▸ .refl l _
  | some result =>
    cases result with
    | error e =>
      have hfind : (findInstalled name).run l = (.error (.define name e), l) :=
        run_bind_error (loadInstalled_undefined hnewest).1
      exact hfind ▸ .refl l _
    | ok cls =>
      obtain ⟨live, l', hload, -, -, hloads, -⟩ := loadInstalled_live hnewest
      have hfind : (findInstalled name).run l = (.ok live, l') := run_bind_ok hload
      exact hfind ▸ hloads

/-- Entries are added behind the others, and every class found on the search path stays. -/
structure PathAdds (l : Loader) (added : List SearchEntry) (l' : Loader) : Prop where
  searchPath : l'.searchPath = l.searchPath ++ added
  found : ∀ m, (l'.found.get? m).map LiveClass.object = (l.found.get? m).map LiveClass.object

theorem PathAdds.of_eq (hpath : l'.searchPath = l.searchPath) (hfound : l'.found = l.found) :
    PathAdds l [] l' :=
  ⟨by rw [hpath, List.append_nil], fun _ => by rw [hfound]⟩

theorem markPrepared_pathAdds (l : Loader) (c : ClassObject) :
    PathAdds l [] (l.markPrepared c) := by
  unfold Loader.markPrepared
  split
  · exact .of_eq rfl rfl
  · exact .of_eq rfl rfl
  · split
    · rename_i live hfound
      refine ⟨(List.append_nil _).symm, fun m => ?_⟩
      show ((l.found.insert c.name { live with prepared := true }).get? m).map _ = _
      rw [Table.get?_insert]
      split
      · rename_i hm
        rw [hm, hfound]
        rfl
      · rfl
    · exact .of_eq rfl rfl

theorem foldl_addEntry (files : FileTree) (paths : List String) (l : Loader) :
    paths.foldl (fun l path => l.addEntry files path) l =
      { l with searchPath := l.searchPath ++ paths.map (SearchEntry.ofPath files) } := by
  induction paths generalizing l with
  | nil => simp
  | cons path paths ih =>
    rw [List.foldl_cons, ih]
    simp [addEntry]

/-- The entries that an operation adds, each with the files that it is added with. -/
def Action.adds : Action → List (FileTree × String)
  | .addEntry files path => [(files, path)]
  | .extend files paths =>
    match SearchPath.split paths with
    | .ok paths => paths.map (files, ·)
    | .error _ => []
  | _ => []

/-- An entry as it is added. -/
def asAdded (e : FileTree × String) : SearchEntry := SearchEntry.ofPath e.1 e.2

/-- Only lookups look into entries. -/
theorem pathAdds_perform (h : l.Recorded) {action : Action}
    (hfind : ∀ files name, action ≠ .find files name) :
    PathAdds l (action.adds.map asAdded) (l.perform action) := by
  cases action with
  | find files name => exact absurd rfl (hfind files name)
  | declare classes =>
    obtain ⟨-, hpath, hfound⟩ := declare_keeps classes l
    exact .of_eq hpath hfound
  | install classes =>
    obtain ⟨-, hpath, hfound⟩ := declare_keeps classes l
    have hloads := install_loads h classes
    exact .of_eq (hloads.searchPath.trans hpath) (hloads.found.trans hfound)
  | findInstalled name =>
    have hloads := findInstalled_loads l name
    exact .of_eq hloads.searchPath hloads.found
  | prepare c =>
    show PathAdds l [] ((Loader.prepare c).run l).2
    unfold Loader.prepare
    cases hprepared : c.prepare.2.prepared with
    | true =>
      simp only [hprepared]
      exact markPrepared_pathAdds l c.object
    | false =>
      simp only [hprepared]
      exact .of_eq rfl rfl
  | addEntry files path => exact ⟨rfl, fun _ => rfl⟩
  | extend files paths =>
    simp only [perform, extend, Action.adds]
    cases SearchPath.split paths with
    | error e => exact .of_eq rfl rfl
    | ok paths =>
      show PathAdds l ((paths.map (files, ·)).map asAdded)
        (paths.foldl (fun l path => l.addEntry files path) l)
      rw [foldl_addEntry, List.map_map]
      exact ⟨rfl, fun _ => rfl⟩
  | register name body => exact .of_eq rfl rfl

/-! ## A run -/

/-- The files with which an operation looks into the entry at a place. -/
def looks (l : Loader) (i : Nat) : Action → List FileTree
  | .find files name =>
    if l.Searches name ∧ SearchPath.Reached files name l.searchPath i then [files] else []
  | _ => []

/-- The files with which a run looks into the entry at a place, one after the other. -/
def allLooks (l : Loader) (i : Nat) : List Action → List FileTree
  | [] => []
  | action :: actions => l.looks i action ++ (l.perform action).allLooks i actions

theorem looks_of_not_searches {files : FileTree} (h : ¬ l.Searches name) (i : Nat) :
    l.looks i (.find files name) = [] :=
  if_neg fun hlooks => h hlooks.1

theorem searchPath_find (l : Loader) (files : FileTree) (name : String) (i : Nat) :
    ((Loader.find files name).run l).2.searchPath[i]? =
      l.searchPath[i]?.map (·.seenWith (l.looks i (.find files name))) := by
  have hkept {l' : Loader} (hsearches : ¬ l.Searches name) (hpath : l'.searchPath = l.searchPath) :
      l'.searchPath[i]? = l.searchPath[i]?.map (·.seenWith (l.looks i (.find files name))) := by
    rw [hpath, looks_of_not_searches hsearches]
    simp
  have hsearched (hsearches : l.Searches name) : (l.searched files name).searchPath[i]? =
      l.searchPath[i]?.map (·.seenWith (l.looks i (.find files name))) := by
    rw [searched, SearchPath.find_entries, looks]
    simp only [hsearches, true_and]
  have hinstalled (h : l.newest? name ≠ none) : ¬ l.Searches name := fun hsearches =>
    h (newest?_eq_none.mpr hsearches.1)
  have hlookup := find_lookup l files name
  generalize (Loader.find files name).run l = left at hlookup ⊢
  obtain ⟨result, l'⟩ := left
  cases hlookup with
  | installed hnewest hlive hloads =>
    exact hkept (hinstalled (by rw [hnewest]; exact Option.some_ne_none _)) hloads.searchPath
  | notInstalled hnewest =>
    exact hkept (hinstalled (by rw [hnewest]; exact Option.some_ne_none _)) rfl
  | host hnewest hhost =>
    exact hkept (fun hsearches => by cases hhost.symm.trans hsearches.2.1) rfl
  | cached hnewest hhost hfound =>
    exact hkept (fun hsearches => by cases hfound.symm.trans hsearches.2.2) rfl
  | absent hsearches hhit => exact hsearched hsearches
  | notDefined hsearches hhit hbody => exact hsearched hsearches
  | defined hsearches hhit hbody => exact hsearched hsearches

/-- One operation adds its entries behind the others and looks into some of them. -/
theorem searchPath_perform (h : l.Recorded) (action : Action) :
    (l.perform action).searchPath =
      (l.searchPath ++ action.adds.map asAdded).mapIdx fun i e =>
        e.seenWith (l.looks i action) := by
  refine List.ext_getElem? fun i => ?_
  rw [List.getElem?_mapIdx]
  by_cases hfind : ∃ files name, action = .find files name
  · obtain ⟨files, name, rfl⟩ := hfind
    show _ = (l.searchPath ++ [])[i]?.map _
    rw [List.append_nil]
    exact searchPath_find l files name i
  · have hne : ∀ files name, action ≠ .find files name := by simpa using hfind
    have hlooks : l.looks i action = [] := by
      cases action with
      | find files name => exact absurd rfl (hne files name)
      | _ => rfl
    rw [hlooks, (pathAdds_perform h hne).searchPath]
    simp

/-- Nothing looks into an entry that is not there yet. -/
theorem looks_eq_nil {i : Nat} (hi : l.searchPath.length ≤ i) (action : Action) :
    l.looks i action = [] := by
  cases action with
  | find files name => exact if_neg fun hlooks => Nat.not_lt.mpr hi hlooks.2.1
  | _ => rfl

/-- Behind a run, the search path holds the entries in the order in which they were added, each
as looking into it has left it. -/
theorem searchPath_performAll (h : l.Recorded) (actions : List Action) :
    (l.performAll actions).searchPath =
      (l.searchPath ++ (actions.flatMap Action.adds).map asAdded).mapIdx fun i e =>
        e.seenWith (l.allLooks i actions) := by
  induction actions generalizing l with
  | nil =>
    refine List.ext_getElem? fun i => ?_
    simp [performAll, allLooks]
  | cons action actions ih =>
    have hcons : l.performAll (action :: actions) = (l.perform action).performAll actions := rfl
    rw [hcons, ih ((perform_edits l action).recorded h), searchPath_perform h action,
      List.flatMap_cons, List.map_append, ← List.append_assoc]
    refine List.ext_getElem? fun i => ?_
    rw [List.getElem?_mapIdx, List.getElem?_mapIdx]
    rcases Nat.lt_or_ge i (l.searchPath ++ action.adds.map asAdded).length with hi | hi
    · rw [List.getElem?_append_left (by simpa using hi), List.getElem?_append_left hi,
        List.getElem?_mapIdx, Option.map_map]
      refine Option.map_congr fun e _ => ?_
      rw [Function.comp_apply, ← SearchEntry.seenWith_append, allLooks]
    · have hnone : l.looks i action = [] :=
        looks_eq_nil ((by simp : l.searchPath.length ≤ _).trans hi) action
      rw [List.getElem?_append_right (by simpa using hi), List.getElem?_append_right hi,
        List.length_mapIdx, allLooks, hnone, List.nil_append]

end Loader

end ReplEngine
