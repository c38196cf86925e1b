import ReplEngine.ClassSpace.Loader
import ReplEngine.Proofs.Reading
set_option autoImplicit false

/-!
# What a class name stands for

Without a search path a name stands for the newest version installed under it, or else for a
class of the host.  Looking a class up may define a version; it never changes what any name
stands for.
-/

namespace ReplEngine

/-! ## The standard classes -/

namespace HostRegistry

theorem find?_register (r : HostRegistry) (name key : String) (body : ClassBody) :
    (r.register name body).find? key =
      if key = name then some ⟨r.nextObject name body, false⟩ else r.find? key :=
  Table.get?_insert _ _ _ _

/-- What registering exception types leaves under a name. -/
theorem find?_exceptions (names : List String) (r : HostRegistry) (key : String) :
    (∃ count, key ∈ names ∧
      (names.foldl (fun r name => r.registerException (.standard name)) r).find? key =
        some ⟨⟨key, .host count, .exception (.standard key)⟩, false⟩) ∨
    (key ∉ names ∧
      (names.foldl (fun r name => r.registerException (.standard name)) r).find? key =
        r.find? key) := by
  induction names generalizing r with
  | nil => simp
  | cons name names ih =>
    rcases ih (r.registerException (.standard name)) with ⟨count, hkey, hfind⟩ | ⟨hkey, hfind⟩
    · exact Or.inl ⟨count, List.mem_cons_of_mem _ hkey, hfind⟩
    · have hname : (ExceptionType.standard name).name = name := rfl
      unfold registerException at hfind
      rw [hname, find?_register] at hfind
      by_cases heq : key = name
      · subst heq
        rw [if_pos rfl] at hfind
        exact Or.inl ⟨r.registrations, by simp, hfind⟩
      · rw [if_neg heq] at hfind
        exact Or.inr ⟨by simp [heq, hkey], hfind⟩

/-- A standard class is the root class or an exception type under its own name. -/
theorem standard_cases {name : String} {c : LiveClass} (h : standard.find? name = some c) :
    c.object.name = name ∧
      ((name ∈ Lang.exceptions ∧ c.object.body = .exception (.standard name)) ∨
        (name = Lang.object ∧ ∃ members, c.object.body = .host members)) := by
  unfold standard withStandard at h
  rcases find?_exceptions Lang.exceptions (empty.register Lang.object (.host _)) name with
    ⟨count, hname, hfind⟩ | ⟨hname, hfind⟩
  · cases h.symm.trans hfind
    exact ⟨rfl, Or.inl ⟨hname, rfl⟩⟩
  · rw [find?_register] at hfind
    by_cases heq : name = Lang.object
    · rw [if_pos heq] at hfind
      cases h.symm.trans hfind
      exact ⟨heq.symm, Or.inr ⟨heq, _, rfl⟩⟩
    · rw [if_neg heq] at hfind
      cases h.symm.trans hfind

theorem name_of_standard {name : String} {c : LiveClass} (h : standard.find? name = some c) :
    c.object.name = name := (standard_cases h).1

/-- No standard class has a class file. -/
theorem classFile?_of_standard {name : String} {c : LiveClass}
    (h : standard.find? name = some c) : c.object.body.classFile? = none := by
  obtain ⟨-, ⟨-, hbody⟩ | ⟨-, members, hbody⟩⟩ := standard_cases h
  · rw [hbody]
    rfl
  · rw [hbody]
    rfl

/-- The only standard class that is no exception type is the root class. -/
theorem eq_object_of_standard {name : String} {c : LiveClass} (h : standard.find? name = some c)
    (hplain : c.object.body.exceptionType? = none) : name = Lang.object := by
  obtain ⟨-, ⟨-, hbody⟩ | ⟨hname, -⟩⟩ := standard_cases h
  · rw [hbody] at hplain
    cases hplain
  · exact hname

theorem standard_object : standard.contains Lang.object = true := by
  have hfind := find?_exceptions Lang.exceptions
    (empty.register Lang.object (.host ["<init>()", "toString()"])) Lang.object
  rcases hfind with ⟨count, hmem, -⟩ | ⟨-, hfind⟩
  · exact absurd hmem (by decide)
  · rw [find?_register, if_pos rfl] at hfind
    exact Option.isSome_iff_exists.mpr ⟨_, hfind⟩

theorem contains_of_exceptionType {r : HostRegistry} {name : String}
    (h : (r.exceptionType? name).isSome = true) : r.contains name = true := by
  obtain ⟨type, htype⟩ := Option.isSome_iff_exists.mp h
  obtain ⟨c, hfind, -⟩ := Option.bind_eq_some_iff.mp htype
  exact Option.isSome_iff_exists.mpr ⟨c, hfind⟩

/-- The root class is no exception type. -/
theorem ne_object_of_exceptionType {name : String}
    (h : (standard.exceptionType? name).isSome = true) : name ≠ Lang.object := by
  intro hname
  subst hname
  obtain ⟨type, htype⟩ := Option.isSome_iff_exists.mp h
  obtain ⟨c, hfind, hbody⟩ := Option.bind_eq_some_iff.mp htype
  obtain ⟨-, ⟨hmem, -⟩ | ⟨-, members, hhost⟩⟩ := standard_cases hfind
  · exact absurd hmem (by decide)
  · rw [hhost] at hbody
    cases hbody

/-- The names of the standard classes. -/
theorem mem_of_standard {name : String} (h : standard.contains name = true) :
    name ∈ Lang.object :: Lang.exceptions := by
  obtain ⟨c, hfind⟩ := Option.isSome_iff_exists.mp h
  obtain ⟨-, ⟨hname, -⟩ | ⟨hname, -⟩⟩ := standard_cases (hfind : standard.find? name = some c)
  · exact List.mem_cons_of_mem _ hname
  · simp [hname]

/-- The registries have the same classes under the same names; which of them are prepared does not
matter. -/
def SameClasses (r r' : HostRegistry) : Prop :=
  ∀ name, (r'.find? name).map LiveClass.object = (r.find? name).map LiveClass.object

theorem SameClasses.find_some {r r' : HostRegistry} (h : r.SameClasses r') {name : String}
    {live : LiveClass} (hfind : r.find? name = some live) :
    ∃ live', r'.find? name = some live' ∧ live'.object = live.object := by
  have hsame := h name
  rw [hfind, Option.map_some] at hsame
  exact Option.map_eq_some_iff.mp hsame

theorem SameClasses.find_none {r r' : HostRegistry} (h : r.SameClasses r') {name : String}
    (hfind : r.find? name = none) : r'.find? name = none := by
  have hsame := h name
  rw [hfind] at hsame
  exact Option.map_eq_none_iff.mp hsame

theorem SameClasses.contains {r r' : HostRegistry} (h : r.SameClasses r') (name : String) :
    r'.contains name = r.contains name := by
  have hsome := congrArg Option.isSome (h name)
  rwa [Option.isSome_map, Option.isSome_map] at hsome

theorem SameClasses.exceptionType? {r r' : HostRegistry} (h : r.SameClasses r') (name : String) :
    r'.exceptionType? name = r.exceptionType? name := by
  have hmap (r : HostRegistry) : r.exceptionType? name =
      ((r.find? name).map LiveClass.object).bind fun c => c.body.exceptionType? := by
    unfold HostRegistry.exceptionType?
    cases r.find? name <;> rfl
  rw [hmap r, hmap r', h name]

/-- Recording that a class is prepared leaves the classes what they are. -/
theorem sameClasses_markPrepared (r : HostRegistry) (name : String) :
    r.SameClasses (r.markPrepared name) := by
  intro key
  unfold markPrepared
  cases hfind : r.find? name with
  | none => rfl
  | some c =>
    show ((r.classes.insert name { c with prepared := true }).get? key).map _ = _
    rw [Table.get?_insert]
    split
    · rename_i hkey
      rw [hkey, hfind]
      rfl
    · rfl

/-- The registries that come of registering classes and of preparing them. -/
inductive Built : HostRegistry → Prop where
  | empty : Built empty
  | registered {r : HostRegistry} (h : Built r) (name : String) (body : ClassBody) :
      Built (r.register name body)
  | prepared {r : HostRegistry} (h : Built r) (name : String) : Built (r.markPrepared name)

/-- Classes are registered under their own names. -/
theorem Built.name_eq {r : HostRegistry} (h : Built r) {name : String} {c : LiveClass}
    (hfind : r.find? name = some c) : c.object.name = name := by
  induction h generalizing c with
  | empty => cases hfind
  | registered _ key body ih =>
    rw [find?_register] at hfind
    split at hfind
    · rename_i hkey
      cases hfind
      exact hkey.symm
    · exact ih hfind
  | @prepared r _ key ih =>
    have hsame := sameClasses_markPrepared r key name
    rw [hfind] at hsame
    obtain ⟨older, holder, hobject⟩ := Option.map_eq_some_iff.mp hsame.symm
    rw [← hobject]
    exact ih holder

theorem built_standard : Built standard := by
  unfold standard withStandard
  have hfold : ∀ (names : List String) {r : HostRegistry}, Built r →
      Built (names.foldl (fun r name => r.registerException (.standard name)) r) := by
    intro names
    induction names with
    | nil => exact fun h => h
    | cons name names ih => exact fun h => ih (h.registered _ _)
  exact hfold _ (Built.empty.registered _ _)

/-- The registry provides the standard classes and no other; which of them are prepared does not
matter. -/
def Standard (r : HostRegistry) : Prop :=
  ∀ name, (r.find? name).map LiveClass.object = (standard.find? name).map LiveClass.object

theorem Standard.contains {r : HostRegistry} (h : r.Standard) (name : String) :
    r.contains name = standard.contains name :=
  SameClasses.contains h name

theorem Standard.exceptionType? {r : HostRegistry} (h : r.Standard) (name : String) :
    r.exceptionType? name = standard.exceptionType? name :=
  SameClasses.exceptionType? h name

end HostRegistry

/-! ## The newest versions -/

namespace Loader

open Reading

/-- The newest version of a name as a class, or why its bytes do not define one; nothing where no
version is installed. -/
def newest? (l : Loader) (name : String) : Option (Except DefineError ClassObject) :=
  (l.versions name).getLast?.map fun v =>
    match v.live with
    | some live => .ok live.object
    | none => (l.definer name v.bytes).map fun body => ⟨name, .installed v.generation, body⟩

/-- Nothing comes from a search path, and the host provides the standard classes. -/
structure Plain (l : Loader) : Prop where
  host : l.host.Standard
  noPath : l.searchPath = []
  noneFound : ∀ name, l.found.get? name = none

theorem newest?_eq_none {l : Loader} {name : String} :
    l.newest? name = none ↔ l.versions name = [] := by
  simp [newest?]

theorem versions_setNewest (l : Loader) (name key : String) (v : Version) :
    (l.setNewest name v).versions key =
      if key = name then (l.versions name).dropLast ++ [v] else l.versions key := by
  show ((l.installed.insert name _).get? key).getD [] = _
  rw [Table.get?_insert]
  by_cases hkey : key = name
  · simp [hkey]
  · simp only [hkey, if_false]
    rfl

/-- Defining the newest version changes no answer. -/
theorem newest?_setNewest {l : Loader} {name : String} {cls : ClassObject} (v : Version)
    (live : LiveClass) (hnewest : l.newest? name = some (.ok cls)) (hlive : live.object = cls)
    (defined : Nat) :
    { l.setNewest name { v with live := some live } with defined := defined }.newest? =
      l.newest? := by
  funext key
  show (Option.map _ ((l.setNewest name { v with live := some live }).versions key).getLast?) = _
  rw [versions_setNewest]
  by_cases hkey : key = name
  · subst hkey
    rw [if_pos rfl, List.getLast?_concat, hnewest, ← hlive]
    rfl
  · rw [if_neg hkey]
    rfl

/-- What loading the newest version does to a loader. -/
theorem loadInstalled_run {l : Loader} {name : String} {cls : ClassObject}
    (h : l.newest? name = some (.ok cls)) :
    ∃ live l', (loadInstalled name).run l = (.ok (some live), l') ∧ live.object = cls ∧
      l'.newest? = l.newest? ∧ (l.Plain → l'.Plain) := by
  have hnewest := h
  unfold newest? at h
  obtain ⟨v, hv, h⟩ := Option.map_eq_some_iff.mp h
  cases hlive : v.live with
  | some live =>
    rw [hlive] at h
    cases h
    refine ⟨live, l, ?_, rfl, rfl, id⟩
    unfold loadInstalled
    rw [run_bind_ok (run_get l)]
    simp only [hv, hlive]
    rfl
  | none =>
    rw [hlive] at h
    simp only at h
    cases hbody : l.definer name v.bytes with
    | error e =>
      rw [hbody] at h
      cases h
    | ok body =>
      rw [hbody] at h
      cases h
      have hdefined := newest?_setNewest v ⟨⟨name, .installed v.generation, body⟩, false⟩
        hnewest rfl (l.defined + 1)
      refine ⟨⟨⟨name, .installed v.generation, body⟩, false⟩, _, ?_, rfl, hdefined, ?_⟩
      · unfold loadInstalled
        rw [run_bind_ok (run_get l)]
        simp only [hv, hlive, hbody]
        rfl
      · exact fun hplain => ⟨hplain.host, hplain.noPath, hplain.noneFound⟩

theorem loadInstalled_run_none {l : Loader} {name : String} (h : l.newest? name = none) :
    (loadInstalled name).run l = (.ok none, l) := by
  rw [newest?_eq_none] at h
  unfold loadInstalled
  rw [run_bind_ok (run_get l)]
  simp only [h, List.getLast?_nil]
  rfl

/-! ## Looking a class up -/

/-- An installed name stands for its newest version. -/
theorem find_newest (files : FileTree) {l : Loader} {name : String} {cls : ClassObject}
    (h : l.newest? name = some (.ok cls)) :
    ∃ live l', (Loader.find files name).run l = (.ok live, l') ∧ live.object = cls ∧
      l'.newest? = l.newest? ∧ (l.Plain → l'.Plain) := by
  obtain ⟨live, l', hrun, hlive, hnewest, hplain⟩ := loadInstalled_run h
  exact ⟨live, l', run_bind_ok hrun, hlive, hnewest, hplain⟩

/-- A name that is not installed stands for the class of the host. -/
theorem find_host (files : FileTree) {l : Loader} {name : String} {live : LiveClass}
    (h : l.newest? name = none) (hhost : l.host.find? name = some live) :
    (Loader.find files name).run l = (.ok live, l) := by
  unfold Loader.find
  rw [run_bind_ok (loadInstalled_run_none h)]
  simp only
  rw [run_bind_ok (run_get l)]
  simp only [hhost]
  rfl

/-- The search path has a class for the name, or one was found there before. -/
def OnPath (l : Loader) (files : FileTree) (name : String) : Prop :=
  l.found.get? name ≠ none ∨ (SearchPath.find files name l.searchPath).1 ≠ none

/-- A name that is found nowhere stands for nothing; archives may have been read for it. -/
theorem find_absent {files : FileTree} {l : Loader} {name : String} (h : l.newest? name = none)
    (hhost : l.host.find? name = none) (hpath : ¬ l.OnPath files name) :
    (Loader.find files name).run l = (.error (.classNotFound name),
      { l with searchPath := (SearchPath.find files name l.searchPath).2 }) := by
  obtain ⟨hfound, hsearched⟩ := not_or.mp hpath
  rw [ne_eq, Classical.not_not] at hfound hsearched
  have hload : (loadFromSearchPath files name).run l =
      (.ok none, { l with searchPath := (SearchPath.find files name l.searchPath).2 }) := by
    unfold loadFromSearchPath
    rw [run_bind_ok (run_get l)]
    cases hfind : SearchPath.find files name l.searchPath with
    | mk hit entries =>
      obtain rfl : hit = none := by simpa [hfind] using hsearched
      simp only [hfound]
      rfl
  unfold Loader.find
  rw [run_bind_ok (loadInstalled_run_none h)]
  simp only
  rw [run_bind_ok (run_get l)]
  simp only [hhost]
  exact run_bind_ok hload

/-- A name that is neither installed nor of the host stands for nothing, without a search path. -/
theorem find_missing (files : FileTree) {l : Loader} {name : String} (h : l.newest? name = none)
    (hhost : l.host.find? name = none) (hplain : l.Plain) :
    (Loader.find files name).run l = (.error (.classNotFound name), l) := by
  have hpath : ¬ l.OnPath files name := by
    rw [OnPath, hplain.noneFound, hplain.noPath]
    simp [SearchPath.find]
  rw [find_absent h hhost hpath]
  obtain ⟨definer, host, installed, searchPath, found, nextGeneration, defined⟩ := l
  cases hplain.noPath
  rfl

end Loader

end ReplEngine
