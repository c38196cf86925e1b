import Mathlib.Order.Basic
import ReplEngine.Proofs.ClassSpace.Newest
set_option autoImplicit false

/-!
# Loaders in lockstep

Two sessions may give different numbers to the same code.  A relation between codes says which
number in the one stands for which in the other; classes are alike when they are the same but for
that, and loaders are alike when every name stands for alike classes.  Loaders that are alike find
alike classes and stay alike (`find_alike`): the numbers decide nothing.

What a class of the host or of the search path consists of does not depend on the session, so its
code has the same number in both.
-/

namespace ReplEngine

open Binary Reading

/-! ## Code and its numbers -/

/-- Where code comes from: the class around it, and the number of its snippet. -/
structure Code where
  className : String
  snippet : UInt32

/-- The code of a class file. -/
def Language.ClassFile.code (file : Language.ClassFile) : Code := ⟨file.name, file.snippet⟩

/-- Which code of one session stands for which code of another. -/
abbrev Renumbering : Type := Code → Code → Prop

/-- Results that are alike: both refused, or neither. -/
inductive ExceptAlike {ε α : Type} (fail : ε → ε → Prop) (post : α → α → Prop) :
    Except ε α → Except ε α → Prop where
  | ok {a b : α} (h : post a b) : ExceptAlike fail post (.ok a) (.ok b)
  | error {e f : ε} (h : fail e f) : ExceptAlike fail post (.error e) (.error f)

theorem ExceptAlike.mono {ε α : Type} {fail fail' : ε → ε → Prop} {post post' : α → α → Prop}
    {x y : Except ε α} (h : ExceptAlike fail post x y) (hfail : ∀ e f, fail e f → fail' e f)
    (hpost : ∀ a b, post a b → post' a b) : ExceptAlike fail' post' x y := by
  cases h with
  | ok h => exact .ok (hpost _ _ h)
  | error h => exact .error (hfail _ _ h)

theorem ExceptAlike.map {ε α β : Type} {fail : ε → ε → Prop} {post : β → β → Prop} {f g : α → β}
    {x y : Except ε α} (h : ExceptAlike fail (fun a b => post (f a) (g b)) x y) :
    ExceptAlike fail post (x.map f) (y.map g) := by
  cases h with
  | ok h => exact .ok h
  | error h => exact .error h

/-- Classes that are the same but for the numbers of snippets: both declared in their sessions, or
one class that no session declared. -/
inductive ClassObject.Alike (T : Renumbering) : ClassObject → ClassObject → Prop where
  | declared (name : String) (g g' : Nat) {file file' : Language.ClassFile}
      (hname : file'.name = file.name) (hmethods : file'.methods = file.methods)
      (hcode : T file.code file'.code) :
      Alike T ⟨name, .installed g, .snippet file⟩ ⟨name, .installed g', .snippet file'⟩
  | elsewhere (c : ClassObject)
      (hcode : ∀ file, c.body.classFile? = some file → T file.code file.code) : Alike T c c

namespace ClassObject.Alike

variable {T U : Renumbering} {c c' : ClassObject}

theorem mono (h : c.Alike T c') (hle : T ≤ U) : c.Alike U c' := by
  cases h with
  | declared name g g' hname hmethods hcode =>
    exact .declared name g g' hname hmethods (hle _ _ hcode)
  | elsewhere _ hcode => exact .elsewhere c fun file hfile => hle _ _ (hcode file hfile)

theorem name_eq (h : c.Alike T c') : c'.name = c.name := by
  cases h <;> rfl

theorem exceptionType?_eq (h : c.Alike T c') :
    c'.body.exceptionType? = c.body.exceptionType? := by
  cases h <;> rfl

end ClassObject.Alike

namespace Loader

variable {T U : Renumbering} {l l' m : Loader}

/-! ## Classes from elsewhere -/

/-- The loader has a class that was not installed: of the host, or found on the search path. -/
def Offers (l : Loader) (c : ClassObject) : Prop :=
  ∃ name, (l.host.find? name).map LiveClass.object = some c ∨
    (l.found.get? name).map LiveClass.object = some c

/-- The code of a class that was not installed. -/
def Outside (l : Loader) (code : Code) : Prop :=
  ∃ c file, l.Offers c ∧ c.body.classFile? = some file ∧ file.code = code

/-- Everything that is outside of one loader is outside of the other. -/
theorem outside_mono (hhost : l.host.SameClasses m.host)
    (hfound : ∀ name live, l.found.get? name = some live → m.found.get? name = some live)
    {code : Code} (h : l.Outside code) : m.Outside code := by
  obtain ⟨c, file, ⟨name, hname⟩, hfile, hcode⟩ := h
  refine ⟨c, file, ⟨name, ?_⟩, hfile, hcode⟩
  rcases hname with hname | hname
  · exact .inl ((hhost name).trans hname)
  · obtain ⟨live, hlive, hobject⟩ := Option.map_eq_some_iff.mp hname
    exact .inr (by rw [hfound name live hlive, Option.map_some, hobject])

end Loader

/-- A renumbering that also knows the code of a loader that comes from elsewhere. -/
def Renumbering.grown (T : Renumbering) (l : Loader) : Renumbering :=
  fun c d => T c d ∨ (c = d ∧ l.Outside c)

namespace Renumbering

variable {T : Renumbering} {l m : Loader}

theorem le_grown (T : Renumbering) (l : Loader) : T ≤ T.grown l := fun _ _ h => .inl h

/-- Nothing has to be added when the code is known already. -/
theorem grown_eq (h : ∀ code, l.Outside code → T code code) : T.grown l = T := by
  funext c d
  refine propext ⟨?_, .inl⟩
  rintro (hcode | ⟨rfl, houtside⟩)
  · exact hcode
  · exact h c houtside

theorem grown_mono {U : Renumbering} (hle : T ≤ U)
    (h : ∀ code, l.Outside code → m.Outside code) : T.grown l ≤ U.grown m := by
  rintro c d (hcode | ⟨rfl, houtside⟩)
  · exact .inl (hle _ _ hcode)
  · exact .inr ⟨rfl, h c houtside⟩

theorem grown_grown (h : ∀ code, l.Outside code → m.Outside code) :
    (T.grown l).grown m = T.grown m := by
  funext c d
  refine propext ⟨?_, ?_⟩
  · rintro ((hcode | ⟨rfl, houtside⟩) | hgrown)
    · exact .inl hcode
    · exact .inr ⟨rfl, h c houtside⟩
    · exact .inr hgrown
  · rintro (hcode | hgrown)
    · exact .inl (.inl hcode)
    · exact .inr hgrown

end Renumbering

namespace Loader

variable {T U : Renumbering} {l l' m m' : Loader}

/-! ## Loaders -/

/-- Loaders that are the same but for the numbers of snippets. -/
structure Alike (T : Renumbering) (l l' : Loader) : Prop where
  definer : l'.definer = l.definer
  host : l.host.SameClasses l'.host
  searchPath : l'.searchPath = l.searchPath
  found : l'.found = l.found
  newest : ∀ name, (l.newest? name = none ∧ l'.newest? name = none) ∨
    ∃ c c', l.newest? name = some (.ok c) ∧ l'.newest? name = some (.ok c') ∧ c.Alike T c'
  outside : ∀ code, l.Outside code → T code code

theorem Alike.mono (h : l.Alike T l') (hle : T ≤ U) : l.Alike U l' where
  definer := h.definer
  host := h.host
  searchPath := h.searchPath
  found := h.found
  newest name := by
    rcases h.newest name with hnone | ⟨c, c', hc, hc', halike⟩
    · exact .inl hnone
    · exact .inr ⟨c, c', hc, hc', halike.mono hle⟩
  outside code houtside := hle _ _ (h.outside code houtside)

/-- The loaders differ in their installed classes only. -/
structure SameElsewhere (l m : Loader) : Prop where
  definer : m.definer = l.definer
  host : l.host.SameClasses m.host
  searchPath : m.searchPath = l.searchPath
  found : m.found = l.found

theorem SameElsewhere.outside (h : l.SameElsewhere m) {code : Code} (houtside : l.Outside code) :
    m.Outside code :=
  outside_mono h.host (fun name live hlive => by rwa [h.found]) houtside

theorem SameElsewhere.symm (h : l.SameElsewhere m) : m.SameElsewhere l where
  definer := h.definer.symm
  host name := (h.host name).symm
  searchPath := h.searchPath.symm
  found := h.found.symm

theorem SameElsewhere.trans {k : Loader} (h : k.SameElsewhere l) (h' : l.SameElsewhere m) :
    k.SameElsewhere m where
  definer := h'.definer.trans h.definer
  host name := (h'.host name).trans (h.host name)
  searchPath := h'.searchPath.trans h.searchPath
  found := h'.found.trans h.found

/-- Loaders stay alike while nothing but installed classes changes, and their newest versions stay
what they are. -/
theorem Alike.sameElsewhere (h : l.Alike T l') (hm : l.SameElsewhere m) (hm' : l'.SameElsewhere m')
    (hnewest : ∀ name, (m.newest? name = none ∧ m'.newest? name = none) ∨
      ∃ c c', m.newest? name = some (.ok c) ∧ m'.newest? name = some (.ok c') ∧ c.Alike U c')
    (hle : T ≤ U) : m.Alike U m' where
  definer := by rw [hm'.definer, h.definer, hm.definer]
  host name := by rw [hm'.host, h.host, hm.host]
  searchPath := by rw [hm'.searchPath, h.searchPath, hm.searchPath]
  found := by rw [hm'.found, h.found, hm.found]
  newest := hnewest
  outside code houtside := hle _ _ (h.outside code (hm.symm.outside houtside))

/-! ## Looking a class up -/

theorem loadInstalled_sameElsewhere (name : String) (l : Loader) :
    l.SameElsewhere ((loadInstalled name).run l).2 := by
  have hsame : l.SameElsewhere l := ⟨rfl, fun _ => rfl, rfl, rfl⟩
  unfold loadInstalled
  rw [run_bind_ok (run_get l)]
  cases (l.versions name).getLast? with
  | none => exact hsame
  | some v =>
    obtain ⟨bytes, generation, live⟩ := v
    cases live with
    | some live => exact hsame
    | none =>
      simp only
      cases l.definer name bytes with
      | error error => exact hsame
      | ok body => exact ⟨rfl, fun _ => rfl, rfl, rfl⟩

/-- What the search path gives depends on the search path, on what was found there before and on
how classes are defined.  It only adds to what was found, and what it gives is found. -/
theorem loadFromSearchPath_run (files : FileTree) (name : String) {l l' : Loader}
    (hdefiner : l'.definer = l.definer) (hpath : l'.searchPath = l.searchPath)
    (hfound : l'.found = l.found) :
    ∃ result path found,
      (loadFromSearchPath files name).run l =
        (result, { l with searchPath := path, found := found }) ∧
      (loadFromSearchPath files name).run l' =
        (result, { l' with searchPath := path, found := found }) ∧
      (∀ key live, l.found.get? key = some live → found.get? key = some live) ∧
      ∀ live, result = .ok (some live) → found.get? name = some live := by
  unfold loadFromSearchPath
  rw [run_bind_ok (run_get l), run_bind_ok (run_get l'), hfound]
  cases hknown : l.found.get? name with
  | some live =>
    refine ⟨.ok (some live), l.searchPath, l.found, rfl, ?_, fun _ _ h => h, ?_⟩
    · rw [← hpath, ← hfound]
      rfl
    · rintro _ ⟨⟩
      exact hknown
  | none =>
    simp only [hpath, hdefiner]
    cases SearchPath.find files name l.searchPath with
    | mk hit entries =>
      cases hit with
      | none => exact ⟨.ok none, entries, l.found, rfl, hfound ▸ rfl, fun _ _ h => h, nofun⟩
      | some hit =>
        simp only
        cases hbody : l.definer name hit.1.bytes with
        | error error =>
          exact ⟨.error (.define name error), entries, l.found, rfl, hfound ▸ rfl,
            fun _ _ h => h, nofun⟩
        | ok body =>
          let live : LiveClass := ⟨⟨name, .searchPath hit.2, body⟩, false⟩
          refine ⟨.ok (some live), entries, l.found.insert name live, rfl, hfound ▸ rfl,
            fun key other hother => ?_, ?_⟩
          · have hne : key ≠ name := by
              rintro rfl
              cases hknown.symm.trans hother
            rw [Table.get?_insert, if_neg hne, hother]
          · rintro _ ⟨⟩
            rw [Table.get?_insert, if_pos rfl]

/-- A name that is neither installed nor of the host stands for what the search path gives. -/
theorem find_searched {files : FileTree} {name : String} (h : l.newest? name = none)
    (hhost : l.host.find? name = none) {result : Except LoaderError (Option LiveClass)}
    (hload : (loadFromSearchPath files name).run l = (result, m)) :
    (Loader.find files name).run l =
      (result.bind fun hit => hit.elim (.error (.classNotFound name)) .ok, m) := by
  unfold Loader.find
  rw [run_bind_ok (loadInstalled_run_none h)]
  simp only
  rw [run_bind_ok (run_get l)]
  simp only [hhost]
  cases result with
  | error error => exact run_bind_error hload
  | ok hit =>
    rw [run_bind_ok hload]
    cases hit <;> rfl

/-- Loaders that are alike find a name alike that is neither installed nor of the host. -/
theorem find_searched_alike (h : l.Alike T l') (files : FileTree) {name : String}
    (hnone : l.newest? name = none) (hnone' : l'.newest? name = none)
    (hhost : l.host.find? name = none) :
    let after := (Loader.find files name).run l
    let after' := (Loader.find files name).run l'
    (∀ code, l.Outside code → after.2.Outside code) ∧
      ExceptAlike Eq (fun live live' => live.object.Alike (T.grown after.2) live'.object)
        after.1 after'.1 ∧
      after.2.Alike (T.grown after.2) after'.2 := by
  obtain ⟨result, path, found, hload, hload', hfound, hresult⟩ :=
    loadFromSearchPath_run files name h.definer h.searchPath h.found
  rw [find_searched hnone hhost hload, find_searched hnone' (h.host.find_none hhost) hload']
  let m : Loader := { l with searchPath := path, found := found }
  have hgrows : ∀ code, l.Outside code → m.Outside code :=
    fun _ => outside_mono (l := l) (m := m) (fun _ => rfl) hfound
  refine ⟨hgrows, ?_, ⟨h.definer, h.host, rfl, rfl, (h.mono (T.le_grown _)).newest,
    fun code houtside => .inr ⟨rfl, houtside⟩⟩⟩
  cases result with
  | error error => exact .error rfl
  | ok hit =>
    cases hit with
    | none => exact .error rfl
    | some live =>
      refine .ok (.elsewhere _ fun file hfile => .inr ⟨rfl, _, file, ⟨name, .inr ?_⟩, hfile, rfl⟩)
      rw [hresult live rfl, Option.map_some]

/-- Loaders that are alike find alike classes, or refuse alike, and stay alike. -/
theorem find_alike (h : l.Alike T l') (files : FileTree) (name : String) :
    let after := (Loader.find files name).run l
    let after' := (Loader.find files name).run l'
    (∀ code, l.Outside code → after.2.Outside code) ∧
      ExceptAlike Eq (fun live live' => live.object.Alike (T.grown after.2) live'.object)
        after.1 after'.1 ∧
      after.2.Alike (T.grown after.2) after'.2 := by
  rcases h.newest name with ⟨hnone, hnone'⟩ | ⟨c, c', hc, hc', halike⟩
  · cases hhost : l.host.find? name with
    | none => exact find_searched_alike h files hnone hnone' hhost
    | some live =>
      obtain ⟨live', hhost', hobject⟩ := h.host.find_some hhost
      rw [find_host files hnone hhost, find_host files hnone' hhost']
      refine ⟨fun _ => id, .ok ?_, h.mono (T.le_grown l)⟩
      simp only [hobject]
      refine .elsewhere _ fun file hfile => .inr ⟨rfl, _, file, ⟨name, .inl ?_⟩, hfile, rfl⟩
      rw [hhost, Option.map_some]
  · have hkept := loadInstalled_sameElsewhere name l
    have hkept' := loadInstalled_sameElsewhere name l'
    obtain ⟨live, m, hload, hlive, hnewest, -⟩ := loadInstalled_run hc
    obtain ⟨live', m', hload', hlive', hnewest', -⟩ := loadInstalled_run hc'
    rw [hload] at hkept
    rw [hload'] at hkept'
    have hfind : (Loader.find files name).run l = (.ok live, m) := run_bind_ok hload
    have hfind' : (Loader.find files name).run l' = (.ok live', m') := run_bind_ok hload'
    rw [hfind, hfind']
    refine ⟨fun _ => hkept.outside, .ok ?_, h.sameElsewhere hkept hkept' ?_ (T.le_grown m)⟩
    · rw [hlive, hlive']
      exact halike.mono (T.le_grown m)
    · rw [hnewest, hnewest']
      exact (h.mono (T.le_grown m)).newest

/-! ## Installing one class -/

theorem markPrepared_sameElsewhere {c : ClassObject} {generation : Nat}
    (h : c.origin = .installed generation) (l : Loader) : l.SameElsewhere (l.markPrepared c) := by
  unfold markPrepared
  rw [h]
  exact ⟨rfl, fun _ => rfl, rfl, rfl⟩

/-- Loading and preparing an installed class leaves alone what is not installed. -/
theorem installOne_sameElsewhere {name : String} {c : ClassObject} {generation : Nat}
    (h : l.newest? name = some (.ok c)) (horigin : c.origin = .installed generation) :
    l.SameElsewhere (installOne name l).2 := by
  have hkept := loadInstalled_sameElsewhere name l
  obtain ⟨live, m, hload, rfl, -⟩ := loadInstalled_run h
  rw [hload] at hkept
  have hfound : (findInstalled name).run l = (.ok live, m) := run_bind_ok hload
  have hprepare : m.SameElsewhere ((Loader.prepare live).run m).2 := by
    unfold Loader.prepare
    cases live.prepare with
    | mk members live' =>
      cases hprepared : live'.prepared with
      | false =>
        simp only [hprepared]
        exact ⟨rfl, fun _ => rfl, rfl, rfl⟩
      | true =>
        simp only [hprepared]
        exact markPrepared_sameElsewhere horigin m
  have hone : (installOne name l).2 = ((Loader.prepare live).run m).2 := by
    cases hrun : (Loader.prepare live).run m with
    | mk result after =>
      have hinstall : (installOne name).run l = _ := (run_bind hfound).trans (run_bind hrun)
      obtain ⟨members, live'⟩ := result
      show ((installOne name).run l).2 = after
      rw [hinstall]
      cases members <;> rfl
  rw [hone]
  exact hkept.trans hprepare

theorem declareOne_sameElsewhere (l : Loader) (c : ClassBytes) :
    l.SameElsewhere (l.declareOne c) := by
  unfold declareOne
  simp only
  split <;> exact ⟨rfl, fun _ => rfl, rfl, rfl⟩

theorem install_sameElsewhere {added : ClassBytes} {c : ClassObject} {generation : Nat}
    (h : (l.declareOne added).newest? added.name = some (.ok c))
    (horigin : c.origin = .installed generation) :
    l.SameElsewhere ((install [added]).run l).2 := by
  have hnames (m : Loader) :
      (installNames [added.name] m).2 = (installOne added.name m).2 := by
    cases hone : (installOne added.name).run m with
    | mk result after =>
      have hrun : (installNames [added.name]).run m = _ := run_bind hone
      show ((installNames [added.name]).run m).2 = ((installOne added.name).run m).2
      rw [hrun, hone]
      cases result <;> rfl
  rw [install_after]
  refine (declareOne_sameElsewhere l added).trans ?_
  show (l.declareOne added).SameElsewhere (installNames [added.name] (l.declareOne added)).2
  rw [hnames]
  exact installOne_sameElsewhere h horigin

/-- Loaders stay alike when alike classes of one name are installed in them. -/
theorem install_alike (h : l.Alike T l') {name : String} {bytes bytes' : Bytes}
    {c c' : ClassObject} {g g' : Nat} {members members' : List String}
    (hc : (l.declareOne ⟨name, bytes⟩).newest? name = some (.ok c))
    (hc' : (l'.declareOne ⟨name, bytes'⟩).newest? name = some (.ok c'))
    (horigin : c.origin = .installed g) (horigin' : c'.origin = .installed g')
    (hmembers : c.body.members = .ok members) (hmembers' : c'.body.members = .ok members')
    (halike : c.Alike U c') (hle : T ≤ U) :
    ∃ lives lives' m m', (install [⟨name, bytes⟩]).run l = (.ok lives, m) ∧
      (install [⟨name, bytes'⟩]).run l' = (.ok lives', m') ∧ l.SameElsewhere m ∧
      m.Alike U m' := by
  have hkept := install_sameElsewhere hc horigin
  have hkept' := install_sameElsewhere hc' horigin'
  obtain ⟨live, m, hrun, -, -, hloading⟩ := install_run hc hmembers
  obtain ⟨live', m', hrun', -, -, hloading'⟩ := install_run hc' hmembers'
  rw [hrun] at hkept
  rw [hrun'] at hkept'
  refine ⟨_, _, m, m', hrun, hrun', hkept, h.sameElsewhere hkept hkept' (fun key => ?_) hle⟩
  rw [newest?_of_loading hloading, newest?_of_loading hloading']
  by_cases hkey : key = name
  · exact .inr ⟨c, c', hkey ▸ hc, hkey ▸ hc', halike⟩
  · rw [newest?_declareOne_of_ne hkey, newest?_declareOne_of_ne hkey]
    exact (h.mono hle).newest key

/-! ## Extending the search path -/

theorem addEntry_alike (h : l.Alike T l') (files : FileTree) (path : String) :
    (l.addEntry files path).Alike T (l'.addEntry files path) :=
  ⟨h.definer, h.host, congrArg (· ++ [SearchEntry.ofPath files path]) h.searchPath, h.found,
    h.newest, h.outside⟩

/-- Loaders that are alike refuse the same lists of entries, and stay alike. -/
theorem extend_alike (h : l.Alike T l') (files : FileTree) (paths : String) :
    (∃ error, l.extend files paths = .error error ∧ l'.extend files paths = .error error) ∨
      ∃ m m', l.extend files paths = .ok m ∧ l'.extend files paths = .ok m' ∧
        m.Outside = l.Outside ∧ m.Alike T m' := by
  unfold extend
  cases SearchPath.split paths with
  | error error => exact .inl ⟨error, rfl, rfl⟩
  | ok entries =>
    refine .inr ⟨_, _, rfl, rfl, ?_⟩
    induction entries generalizing l l' with
    | nil => exact ⟨rfl, h⟩
    | cons path entries ih => exact ih (addEntry_alike h files path)

end Loader

end ReplEngine
