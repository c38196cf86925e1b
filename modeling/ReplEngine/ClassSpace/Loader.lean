import ReplEngine.ClassSpace.HostRegistry
import ReplEngine.ClassSpace.SearchPath
set_option autoImplicit false

/-!
# The class loader

A class is looked for among the installed classes, then among the host classes, then on the
search path.  Installing a name again adds a version: earlier versions stay on record, and only
the newest one is ever found.  A version is defined when it is first looked for, and once.
-/

namespace ReplEngine

open Binary

/-- One version of an installed class. -/
structure Version where
  bytes : Bytes
  generation : Nat
  /-- The class defined from the bytes, once it has been looked for. -/
  live : Option LiveClass := none

/-- The classes of one session. -/
structure Loader where
  definer : Definer
  host : HostRegistry
  /-- The versions of every installed name, oldest first. -/
  installed : Table (List Version) := {}
  searchPath : List SearchEntry := []
  /-- The classes found on the search path so far. -/
  found : Table LiveClass := {}
  nextGeneration : Nat := 1
  /-- How often installed bytes have been made a class. -/
  defined : Nat := 0

/-- Works on a loader; a refusal keeps what was done before it. -/
abbrev LoaderM (α : Type) : Type := ExceptT LoaderError (StateM Loader) α

namespace Loader

/-! ## Versions -/

/-- Every installed version of a name, oldest first. -/
def versions (l : Loader) (name : String) : List Version := (l.installed.get? name).getD []

/-- Adds bytes as the newest version of a name, unless they are those of the newest version. -/
def declareOne (l : Loader) (c : ClassBytes) : Loader :=
  let versions := l.versions c.name
  if (versions.getLast?.map Version.bytes) = some c.bytes then l
  else
    { l with
      installed := l.installed.insert c.name (versions ++ [⟨c.bytes, l.nextGeneration, none⟩])
      nextGeneration := l.nextGeneration + 1 }

/-- Adds the bytes of every class, in order, and loads none. -/
def declare (l : Loader) (classes : List ClassBytes) : Loader := classes.foldl declareOne l

/-- Replaces the newest version of a name. -/
def setNewest (l : Loader) (name : String) (v : Version) : Loader :=
  { l with installed := l.installed.insert name ((l.versions name).dropLast ++ [v]) }

/-! ## The search path -/

/-- Adds one entry at the end of the search path. -/
def addEntry (l : Loader) (files : FileTree) (path : String) : Loader :=
  { l with searchPath := l.searchPath ++ [SearchEntry.ofPath files path] }

/-- Adds every entry of a list separated by colons. -/
def extend (l : Loader) (files : FileTree) (paths : String) : Except LoaderError Loader := do
  let entries ← SearchPath.split paths
  pure (entries.foldl (fun l path => l.addEntry files path) l)

/-! ## Resolution -/

/-- The newest installed version of a name as a class, defined if it was not yet. -/
def loadInstalled (name : String) : LoaderM (Option LiveClass) := do
  let l ← get
  match (l.versions name).getLast? with
  | none => pure none
  | some v =>
    match v.live with
    | some live => pure (some live)
    | none =>
      match l.definer name v.bytes with
      | .error e => throw (.define name e)
      | .ok body =>
        let live : LiveClass := ⟨⟨name, .installed v.generation, body⟩, false⟩
        set { l.setNewest name { v with live := some live } with defined := l.defined + 1 }
        pure (some live)

/-- The class that the search path has for a name, defined from the first entry that has it. -/
def loadFromSearchPath (files : FileTree) (name : String) : LoaderM (Option LiveClass) := do
  let l ← get
  match l.found.get? name with
  | some live => pure (some live)
  | none =>
    let (hit, entries) := SearchPath.find files name l.searchPath
    set { l with searchPath := entries }
    match hit with
    | none => pure none
    | some (found, entry) =>
      match l.definer name found.bytes with
      | .error e => throw (.define name e)
      | .ok body =>
        let live : LiveClass := ⟨⟨name, .searchPath entry, body⟩, false⟩
        modify fun l => { l with found := l.found.insert name live }
        pure (some live)

/-- The class of a name among the installed ones. -/
def findInstalled (name : String) : LoaderM LiveClass := do
  match ← loadInstalled name with
  | some live => pure live
  | none => throw (.classNotFound name)

/-- The class of a name: installed, else of the host, else from the search path. -/
def find (files : FileTree) (name : String) : LoaderM LiveClass := do
  match ← loadInstalled name with
  | some live => pure live
  | none =>
    match (← get).host.find? name with
    | some live => pure live
    | none =>
      match ← loadFromSearchPath files name with
      | some live => pure live
      | none => throw (.classNotFound name)

/-! ## Preparing -/

/-- Records that a class is prepared, where it is kept. -/
def markPrepared (l : Loader) (c : ClassObject) : Loader :=
  match c.origin with
  | .installed generation =>
    let mark (v : Version) : Version :=
      if v.generation = generation then
        { v with live := v.live.map fun live => { live with prepared := true } }
      else v
    { l with installed := l.installed.insert c.name ((l.versions c.name).map mark) }
  | .host _ => { l with host := l.host.markPrepared c.name }
  | .searchPath _ =>
    match l.found.get? c.name with
    | some live => { l with found := l.found.insert c.name { live with prepared := true } }
    | none => l

/-- Lists the members of a class, and records it as prepared if that succeeds. -/
def prepare (c : LiveClass) : StateM Loader (Except LinkError (List String) × LiveClass) := do
  let (members, live) := c.prepare
  if live.prepared then modify fun l => l.markPrepared c.object
  pure (members, live)

/-! ## Installing -/

/-- Why a batch was not installed: the first failure, and which members had been loaded. -/
structure InstallError where
  cause : LoaderError
  names : List String
  loaded : List Bool
  deriving DecidableEq, Repr, Inhabited

namespace InstallError

/-- The names of the members that were loaded. -/
def loadedNames (e : InstallError) : List String :=
  ((e.names.zip e.loaded).filter (·.2)).map (·.1)

/-- The wording of a refusal. -/
def message (e : InstallError) : String :=
  let loaded := if e.loadedNames.isEmpty then "none" else ", ".intercalate e.loadedNames
  s!"load: {e.cause.message} (loaded: {loaded})"

end InstallError

/-- What became of one member of a batch. -/
inductive MemberResult where
  | ready (live : LiveClass)
  /-- Not even defined. -/
  | notLoaded (error : LoaderError)
  /-- Defined, and then its members could not be listed. -/
  | notPrepared (error : LoaderError)

/-- Loads and prepares one class. -/
def installOne (name : String) : StateM Loader MemberResult := do
  match ← (findInstalled name).run with
  | .error e => pure (.notLoaded e)
  | .ok live =>
    match ← prepare live with
    | (.ok _, live) => pure (.ready live)
    | (.error e, _) => pure (.notPrepared (.link name e))

/-- Loads and prepares classes in order, up to the first failure.  A failure comes with a flag
for every class: loaded or not. -/
def installNames : List String →
    StateM Loader (Except (LoaderError × List Bool) (List LiveClass))
  | [] => pure (.ok [])
  | name :: names => do
    match ← installOne name with
    | .notLoaded e => pure (.error (e, false :: names.map fun _ => false))
    | .notPrepared e => pure (.error (e, true :: names.map fun _ => false))
    | .ready live =>
      match ← installNames names with
      | .ok lives => pure (.ok (live :: lives))
      | .error (e, loaded) => pure (.error (e, true :: loaded))

/-- Declares a batch, then loads and prepares every member in order. -/
def install (classes : List ClassBytes) : StateM Loader (Except InstallError (List LiveClass)) := do
  modify fun l => l.declare classes
  let names := classes.map ClassBytes.name
  match ← installNames names with
  | .ok lives => pure (.ok lives)
  | .error (e, loaded) => pure (.error ⟨e, names, loaded⟩)

/-- A line about the size of the loader. -/
def summary (l : Loader) : String :=
  s!"ClassLoader \x7b installed: {l.installed.size}, search_path: {l.searchPath.length}, "
    ++ s!"defined: {l.defined}, .. \x7d"

end Loader

end ReplEngine
