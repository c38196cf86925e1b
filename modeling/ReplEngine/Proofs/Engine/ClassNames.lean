import ReplEngine.Proofs.Engine.Sessions
import ReplEngine.Proofs.Evaluation.Safe
set_option autoImplicit false

/-!
# Class names in checked code

The checker looks a class name up among the class of the unit, the classes of the session and those
of the host, and then in the package of the standard classes.  Running code asks the loader for the
bare name first, and that looks on the search path too.  Where the search path has no class of the
bare name, both come to the same class (`resolved_class_found`); where it has one, that class hides
the standard one (`resolved_class_hidden`).
-/

namespace ReplEngine.Language

open Reading Text

/-! ## What a running unit finds -/

section

variable {files : FileTree} {w : World} {name : String}

/-- A name that is installed. -/
theorem findClass_installed (files : FileTree) {cls : ClassObject}
    (h : w.loader.newest? name = some (.ok cls)) :
    ∃ l, (findClass files name).run w = (.ok cls, { w with loader := l }) := by
  obtain ⟨live, l, hfind, hlive, -, -⟩ := Loader.find_newest files h
  refine ⟨l, ?_⟩
  unfold findClass
  rw [run_bind_ok (loadClass_run hfind), ← hlive]
  rfl

/-- A name of the host. -/
theorem findClass_host {live : LiveClass} (h : w.loader.newest? name = none)
    (hhost : w.loader.host.find? name = some live) :
    (findClass files name).run w = (.ok live.object, w) := by
  unfold findClass
  rw [run_bind_ok (loadClass_run (Loader.find_host files h hhost))]
  rfl

/-- A name that is found nowhere as it stands, and is the short name of a class of the host. -/
theorem findClass_packaged {live : LiveClass} (hnone : w.loader.newest? name = none)
    (hnoHost : w.loader.host.find? name = none) (hpath : ¬ w.loader.OnPath files name)
    (hshort : isPackaged name = false)
    (hnotInstalled : w.loader.newest? (Lang.package ++ name) = none)
    (hhost : w.loader.host.find? (Lang.package ++ name) = some live) :
    ∃ l, (findClass files name).run w = (.ok live.object, { w with loader := l }) := by
  refine ⟨{ w.loader with searchPath := (SearchPath.find files name w.loader.searchPath).2 }, ?_⟩
  unfold findClass
  rw [run_bind_ok (loadClass_run (Loader.find_absent hnone hnoHost hpath))]
  simp only [Except.map, hshort, Bool.false_eq_true, if_false]
  have hload : (loadClass files (Lang.package ++ name)).run
      { w with
        loader :=
          { w.loader with searchPath := (SearchPath.find files name w.loader.searchPath).2 } } =
      _ := loadClass_run (Loader.find_host files hnotInstalled hhost)
  rw [run_bind_ok hload]
  rfl

end

/-! ## What the checker resolves -/

/-- The contexts that the class names of a unit are resolved in: they know what the session has
declared, its host, and the class that the unit itself declares. -/
structure Context.Resolving (ctx : Context) (s : SessionState) (item : Item) : Prop where
  sameEnv : ctx.env = s.env
  sameHost : ctx.host = s.host
  pending : ∀ name, ctx.isPending name = true ↔
    ∃ decl, item = .typeDecl decl ∧ decl.name = name

/-- The code of a unit that declares no class. -/
theorem resolving_unit {s : SessionState} {item : Item} (h : ∀ decl, item ≠ .typeDecl decl)
    (wrapper : String) : (unitContext s.env s.host wrapper).Resolving s item where
  sameEnv := rfl
  sameHost := rfl
  pending name := by
    constructor
    · intro hpending
      cases hpending
    · rintro ⟨decl, hdecl, -⟩
      exact absurd hdecl (h decl)

/-- The members of a class, while the class is checked. -/
theorem resolving_class (s : SessionState) (decl : ClassDecl) (wrapper : String) (sig : ClassSig) :
    { unitContext s.env s.host wrapper with pendingClass := some (decl.name, sig) }.Resolving s
      (.typeDecl decl) where
  sameEnv := rfl
  sameHost := rfl
  pending name := by
    simp [Context.isPending]

variable {host : HostRegistry} {n : Nat} {w : Workspace SessionState} {source : String}

/-- The classes of the session when a unit was accepted are those that its names could mean. -/
theorem contains_of_accepted {s : SessionState} {item : Item} {compiled : Compiled SnippetUnit}
    {state : SessionState} (hparse : Item.parse source = .ok item)
    (hcompile : s.compile source = (compiled, state)) (haccepted : compiled.unit.body ≠ .rejected)
    {ctx : Context} (hctx : ctx.Resolving s item) (name : String) :
    state.env.classes.contains name = true ↔
      ctx.isPending name = true ∨ ctx.env.classes.contains name = true := by
  rw [hctx.pending, hctx.sameEnv]
  rcases compile_classes hcompile with ⟨decl, hclass⟩ | ⟨-, hclasses, hrejected | hother⟩
  · obtain rfl := Except.ok.inj (hparse.symm.trans hclass.parse)
    obtain ⟨sig, hsig⟩ := hclass.declared
    simp only [hsig, Table.contains, Table.get?_insert, Item.typeDecl.injEq, exists_eq_left']
    by_cases heq : name = decl.name
    · simp [heq]
    · simp [heq, Ne.symm heq]
  · exact absurd hrejected haccepted
  · rw [hclasses]
    refine ⟨.inr, fun h => h.resolve_left ?_⟩
    rintro ⟨decl, rfl, -⟩
    exact hother decl hparse

/-! ## Agreement -/

/-- A name of word characters is in no package. -/
theorem not_packaged_of_word {name : String} (h : ∀ d ∈ name.toList, isWordPart d = true) :
    isPackaged name = false := by
  rw [Bool.eq_false_iff]
  intro hpackaged
  have hfront : Lang.package.toList <+: name.toList := List.isPrefixOf_iff_prefix.mp hpackaged
  exact absurd (h '.' (hfront.subset (by decide))) (by decide)

theorem package_append_ne (name : String) : Lang.package ++ name ≠ name := by
  intro heq
  have hlength := congrArg String.length heq
  rw [String.length_append, show Lang.package.length = 5 from rfl] at hlength
  omega

/-- A class that the session has not declared is not installed. -/
theorem Sound.newest?_none (h : Sound host n w) (hopen : w.closed = false) {name : String}
    (hdeclared : w.state.env.classes.contains name ≠ true) : w.loader.newest? name = none := by
  rw [Loader.newest?_eq_none]
  by_contra hne
  exact hdeclared ((h.known hopen name).mpr hne)

/-- Classes of packages are not installed: what the session declares has no dot in its name. -/
theorem Sound.newest?_packaged (h : Sound host n w) (name : String) :
    w.loader.newest? (Lang.package ++ name) = none := by
  rw [Loader.newest?_eq_none]
  by_contra hne
  obtain ⟨file, hfile⟩ := h.declared _ hne
  have hdot : '.' ∈ (Lang.package ++ name).toList := by
    rw [String.toList_append]
    exact List.mem_append_left _ (by decide)
  exact absurd (hfile.word '.' hdot) (by decide)

/-- The classes of the host are found in the loader as they were registered. -/
theorem Sound.host_find (h : Sound host n w) {name : String}
    (hcontains : host.contains name = true) :
    ∃ registered live, host.find? name = some registered ∧
      w.loader.host.find? name = some live ∧ live.object = registered.object := by
  obtain ⟨registered, hregistered⟩ := Option.isSome_iff_exists.mp hcontains
  obtain ⟨live, hlive, hobject⟩ := h.sameHost.find_some hregistered
  exact ⟨registered, live, hregistered, hlive, hobject⟩

theorem Sound.host_find_none (h : Sound host n w) {name : String}
    (hcontains : host.contains name ≠ true) : w.loader.host.find? name = none :=
  h.sameHost.find_none (Option.not_isSome_iff_eq_none.mp hcontains)

/-- A class of the session is found as its newest version, which is no exception type. -/
theorem Sound.findClass_declared (h : Sound host n w) (hopen : w.closed = false)
    (files : FileTree) {name : String} (hdeclared : w.state.env.classes.contains name = true)
    (globals : Globals) (printed : PrintBuffer) :
    ∃ cls l, (findClass files name).run ⟨globals, w.loader, printed⟩ =
        (.ok cls, ⟨globals, l, printed⟩) ∧
      cls.name = name ∧ cls.body.exceptionType? = none := by
  obtain ⟨file, hfile⟩ := h.declared name ((h.known hopen name).mp hdeclared)
  obtain ⟨generation, hnewest⟩ := hfile.newest
  obtain ⟨l, hrun⟩ :=
    findClass_installed (w := ⟨globals, w.loader, printed⟩) files hnewest
  exact ⟨_, l, hrun, rfl, rfl⟩

/-- **Class names in a unit.**  A class name in an accepted unit that the checker resolves is found
by the running unit as a class of the name that it was resolved to.  That class is an exception
type exactly when the checker takes it for one, if it is not at once a class of the session and an
exception type of the host.  The exception is a short name of a standard class: it is found as that
class where the search path has no class of the short name. -/
theorem resolved_class_found (hhost : host.Built) (h : Session host n w) (hopen : w.closed = false)
    (hsize : byteLength source.toList < 2 ^ 64) {item : Item}
    (hparse : Item.parse source = .ok item) {compiled : Compiled SnippetUnit}
    {state : SessionState} (hcompile : w.state.compile source = (compiled, state))
    (haccepted : compiled.unit.body ≠ .rejected) {ctx : Context}
    (hctx : ctx.Resolving w.state item) {name qualified : String} {span : Span}
    (hwritten : ⟨.identifier name, span⟩ ∈ Token.scan source.toList)
    (hresolves : ctx.resolveClass name = some qualified) :
    ∃ lives installed, (Loader.install compiled.classes).run w.loader = (.ok lives, installed) ∧
      ∀ (files : FileTree) (running : World),
        Relation.ReflTransGen Loader.Loading installed running.loader →
        (qualified ≠ name → ¬ running.loader.OnPath files name) →
        ∃ cls loader, (findClass files name).run running =
            (.ok cls, { running with loader := loader }) ∧
          cls.name = qualified ∧
          (¬ (state.env.classes.contains qualified = true ∧
              (host.exceptionType? qualified).isSome = true) →
            cls.body.exceptionType?.isSome = ctx.isThrowable (.object qualified)) := by
  obtain ⟨lives, installed, hinstall, hinstalled⟩ := h.sound.installs hsize hcompile
  refine ⟨lives, installed, hinstall, fun files running hloading hpath => ?_⟩
  have hsound : Sound host (n + 1) { w with state := state, loader := running.loader } :=
    hinstalled.loading hloading
  have hcontains := contains_of_accepted hparse hcompile haccepted hctx
  have hsame : ctx.host = host := hctx.sameHost.trans h.sound.host_eq
  have hthrowable :
      ctx.isThrowable (.object qualified) = (host.exceptionType? qualified).isSome := by
    rw [← hsame]
    rfl
  have hwords : ∀ d ∈ name.toList, isWordPart d = true :=
    (scan_eq_iff.mp (rfl : Token.scan source.toList = _)).identifier span hwritten
  rw [hthrowable]
  unfold Context.resolveClass at hresolves
  by_cases hdeclared : state.env.classes.contains name = true
  · have hknown := (hcontains name).mp hdeclared
    obtain rfl : name = qualified := by
      rw [if_pos (by rcases hknown with hknown | hknown <;> simp [hknown])] at hresolves
      exact Option.some.inj hresolves
    obtain ⟨cls, loader, hrun, hname, hplain⟩ := hsound.findClass_declared hopen files hdeclared
      running.globals running.printed
    refine ⟨cls, loader, hrun, hname, fun hnotBoth => ?_⟩
    have hplainHost : host.exceptionType? name = none :=
      Option.not_isSome_iff_eq_none.mp fun hexception => hnotBoth ⟨hdeclared, hexception⟩
    rw [hplain, hplainHost]
  -- The class is one of the host, under the name as it stands or under its full name.
  · have hunknown := mt (hcontains name).mpr hdeclared
    rw [not_or] at hunknown
    obtain ⟨hpending, henv⟩ := hunknown
    have hnone := hsound.newest?_none hopen hdeclared
    simp only [hpending, henv, hsame, Bool.false_or] at hresolves
    by_cases hbare : host.contains name = true
    · rw [if_pos hbare, Option.some.injEq] at hresolves
      subst hresolves
      obtain ⟨registered, live, hregistered, hlive, hobject⟩ := hsound.host_find hbare
      refine ⟨live.object, running.loader, findClass_host hnone hlive, ?_, fun _ => ?_⟩
      · rw [hobject, hhost.name_eq hregistered]
      · rw [hobject, HostRegistry.exceptionType?, hregistered, Option.bind_some]
    · rw [if_neg hbare] at hresolves
      obtain ⟨hfull, hqualified⟩ := Option.ite_none_right_eq_some.mp hresolves
      rw [Option.some.injEq] at hqualified
      subst hqualified
      obtain ⟨registered, live, hregistered, hlive, hobject⟩ := hsound.host_find hfull
      obtain ⟨loader, hrun⟩ := findClass_packaged hnone (hsound.host_find_none hbare)
        (hpath (package_append_ne name)) (not_packaged_of_word hwords)
        (hsound.newest?_packaged name) hlive
      refine ⟨live.object, loader, hrun, ?_, fun _ => ?_⟩
      · rw [hobject, hhost.name_eq hregistered]
      · rw [hobject, HostRegistry.exceptionType?, hregistered, Option.bind_some]

/-- `new RuntimeException("a")` -/
def newRuntimeException : Expr :=
  .new "RuntimeException" [.string "a" ⟨21, 24⟩] ⟨0, 25⟩

theorem parse_newRuntimeException :
    Item.parse "new RuntimeException(\"a\")" = .ok (.stmt (.expr newRuntimeException 1)) := by cbv

theorem scan_newRuntimeException :
    ⟨.identifier "RuntimeException", ⟨4, 20⟩⟩ ∈
      Token.scan "new RuntimeException(\"a\")".toList := by
  cbv
  exact .tail _ (.head _)

theorem check_newRuntimeException (wrapper : String) :
    (Item.stmt (.expr newRuntimeException 1)).check {} .standard wrapper =
      .ok (.expr newRuntimeException 1 (.object "lang.RuntimeException")) := by rfl

theorem resolve_runtimeException :
    (unitContext {} .standard "").resolveClass "RuntimeException" = some "lang.RuntimeException" ∧
      (unitContext {} .standard "").isThrowable (.object "lang.RuntimeException") = true :=
  ⟨rfl, rfl⟩

/-- The unit as it is compiled first in a session. -/
def compiledNew : Compiled SnippetUnit :=
  ⟨[], ⟨⟨1, .variable, "$1", "new RuntimeException(\"a\")"⟩,
    .expr newRuntimeException 1 (some ("$1", .object "lang.RuntimeException"))⟩⟩

theorem compile_newRuntimeException :
    SessionState.compile "new RuntimeException(\"a\")" { host := .standard } =
      (compiledNew,
        { host := .standard
          env := { vars := ⟨[("$1", .object "lang.RuntimeException")]⟩ }
          units := 1
          values := 1 }) := by
  unfold SessionState.compile
  simp only [parse_newRuntimeException, check_newRuntimeException]
  rfl

/-- In a new session a standard class is found under its short name. -/
theorem resolved_class_found_short :
    ∃ cls loader, (findClass {} "RuntimeException").run ⟨{}, newEvaluator.workspace.loader, {}⟩ =
        (.ok cls, ⟨{}, loader, {}⟩) ∧
      cls.name = "lang.RuntimeException" ∧ cls.body.exceptionType?.isSome = true := by
  obtain ⟨lives, installed, hinstall, hfound⟩ := resolved_class_found
    HostRegistry.built_standard (.start : Session .standard 0 newEvaluator.workspace) rfl
    (by decide) parse_newRuntimeException compile_newRuntimeException (fun h => by cases h)
    (resolving_unit (fun _ h => by cases h) "") scan_newRuntimeException
    resolve_runtimeException.1
  obtain rfl : newEvaluator.workspace.loader = installed := congrArg Prod.snd hinstall
  obtain ⟨cls, loader, hrun, hname, hexception⟩ := hfound {} ⟨{}, newEvaluator.workspace.loader, {}⟩
    .refl fun _ hpath => hpath.elim (absurd rfl) (absurd rfl)
  refine ⟨cls, loader, hrun, hname, (hexception fun h => ?_).trans resolve_runtimeException.2⟩
  cases h.1

/-! ## Where checker and run time differ -/

/-- A name that is written in the next unit, which is accepted and declares no class; the checker
resolves it to a class that it takes for an exception type. -/
structure ResolvesThrowable (host : HostRegistry) (w : Workspace SessionState)
    (source name qualified : String) : Prop where
  session : ∃ n, Session host n w
  isOpen : w.closed = false
  written : ∃ span, ⟨.identifier name, span⟩ ∈ Token.scan source.toList
  accepted : ∃ compiled state, w.state.compile source = (compiled, state) ∧
    compiled.unit.body ≠ .rejected ∧ compiled.classes = []
  resolved : ∃ item ctx, Item.parse source = .ok item ∧ Context.Resolving ctx w.state item ∧
    ctx.resolveClass name = some qualified ∧ ctx.isThrowable (.object qualified) = true

/-- A class file under the short name of a standard class. -/
def hidingFile : ClassFile := ⟨"RuntimeException", 1, []⟩

/-- A directory with that class file. -/
def hidingFiles : FileTree :=
  ⟨[(["cp".toList], .directory),
    (["cp".toList, "RuntimeException.kclass".toList], .file hidingFile.encode)]⟩

/-- A new session with the directory on its search path. -/
def withPath : Workspace SessionState where
  state := { host := .standard }
  loader := { definer := defineSnippet, host := .standard, searchPath := [.directory "cp"] }

theorem withPath_run :
    ((Workspace.extend hidingFiles "cp").run newEvaluator.workspace).2 = withPath := by cbv

theorem findClass_withPath :
    ((findClass hidingFiles "RuntimeException").run ⟨{}, withPath.loader, {}⟩).1 =
      .ok ⟨"RuntimeException", .searchPath "cp", .snippet hidingFile⟩ := by cbv

theorem resolvesThrowable_withPath :
    ResolvesThrowable .standard withPath "new RuntimeException(\"a\")" "RuntimeException"
      "lang.RuntimeException" where
  session := ⟨0, withPath_run ▸ Session.start.extended hidingFiles "cp"⟩
  isOpen := rfl
  written := ⟨_, scan_newRuntimeException⟩
  accepted := ⟨_, _, compile_newRuntimeException, (fun h => by cases h), rfl⟩
  resolved := ⟨_, _, parse_newRuntimeException, resolving_unit (fun _ h => by cases h) "",
    resolve_runtimeException⟩

/-- A registry with an exception type whose name is an identifier. -/
def boomHost : HostRegistry := HostRegistry.standard.registerException (.standard "Boom")

/-- `class Boom {}` in the first unit. -/
def boomFile : ClassFile := ⟨"Boom", 1, []⟩

/-- A new session in which a class of that name has been declared. -/
def withBoom : Workspace SessionState where
  state :=
    { host := boomHost
      env := { classes := ⟨[("Boom", ⟨{}⟩)]⟩ }
      units := 1 }
  loader :=
    { definer := defineSnippet
      host := boomHost
      installed := ⟨[("Boom", [⟨boomFile.encode, 1,
        some ⟨⟨"Boom", .installed 1, .snippet boomFile⟩, true⟩⟩])]⟩
      nextGeneration := 2
      defined := 1 }

theorem withBoom_run :
    afterUnit {} (.ofCompiler snippetCompiler { host := boomHost } boomHost) "class Boom {}" =
      withBoom := by cbv

theorem findClass_withBoom :
    ((findClass {} "Boom").run ⟨{}, withBoom.loader, {}⟩).1 =
      .ok ⟨"Boom", .installed 1, .snippet boomFile⟩ := by cbv

/-- `throw new Boom();` -/
def throwBoom : Stmt := .throw (.new "Boom" [] ⟨6, 16⟩) ⟨0, 16⟩ 1

theorem parse_throwBoom : Item.parse "throw new Boom();" = .ok (.stmt throwBoom) := by cbv

theorem compile_throwBoom :
    withBoom.state.compile "throw new Boom();" =
      (⟨[], ⟨⟨2, .statement, "", "throw new Boom();"⟩, .throw (.new "Boom" [] ⟨6, 16⟩) 1⟩⟩,
        { withBoom.state with units := 2 }) := by cbv

theorem resolvesThrowable_withBoom :
    ResolvesThrowable boomHost withBoom "throw new Boom();" "Boom" "Boom" where
  session := ⟨1, withBoom_run ▸ Session.start.evaluated {} rfl (by decide)⟩
  isOpen := rfl
  written := by
    refine ⟨⟨10, 14⟩, ?_⟩
    cbv
    exact .tail _ (.tail _ (.head _))
  accepted := ⟨_, _, compile_throwBoom, (fun h => by cases h), rfl⟩
  resolved := ⟨_, _, parse_throwBoom, resolving_unit (fun _ h => by cases h) "", rfl, rfl⟩

/-- A class on the search path hides the standard class of its name from running code, not from the
checker; and a class of the session hides an exception type of the host, which the checker still
takes it for. -/
theorem resolved_class_hidden :
    (ResolvesThrowable .standard withPath "new RuntimeException(\"a\")" "RuntimeException"
        "lang.RuntimeException" ∧
      ∃ cls, ((findClass hidingFiles "RuntimeException").run ⟨{}, withPath.loader, {}⟩).1 =
          .ok cls ∧
        cls.name ≠ "lang.RuntimeException" ∧ cls.body.exceptionType? = none) ∧
    ResolvesThrowable boomHost withBoom "throw new Boom();" "Boom" "Boom" ∧
      ∃ cls, ((findClass {} "Boom").run ⟨{}, withBoom.loader, {}⟩).1 = .ok cls ∧
        cls.name = "Boom" ∧ cls.body.exceptionType? = none :=
  ⟨⟨resolvesThrowable_withPath, _, findClass_withPath, by decide, rfl⟩,
    resolvesThrowable_withBoom, _, findClass_withBoom, rfl, rfl⟩

end ReplEngine.Language
