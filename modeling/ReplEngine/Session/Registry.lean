import ReplEngine.Session.Session
set_option autoImplicit false

/-!
# The sessions of all users

Sessions are kept by number from the day they are started, because whoever started one may go on
using it; a table says which session is active for a key.  Taking a key out of the table and
ending its session are two things, and only some operations do both.
-/

namespace ReplEngine

/-- Names a session of a registry. -/
abbrev SessionId : Type := Nat

/-- All sessions ever started, and the one active for every key. -/
structure SessionRegistry where
  sessions : List Session := []
  active : Table SessionId := {}

namespace SessionRegistry

/-- The session of a number. -/
def session? (r : SessionRegistry) (id : SessionId) : Option Session := r.sessions[id]?

/-- Replaces the session of a number. -/
def setSession (r : SessionRegistry) (id : SessionId) (s : Session) : SessionRegistry :=
  { r with sessions := r.sessions.set id s }

/-- The session active for a key. -/
def get? (r : SessionRegistry) (key : String) : Option SessionId := r.active.get? key

/-- A session is active for the key. -/
def isActive (r : SessionRegistry) (key : String) : Bool := r.active.contains key

/-- The number of keys with an active session. -/
def size (r : SessionRegistry) : Nat := r.active.size

/-- Starts a session for a key that has none. -/
def start (r : SessionRegistry) (key : String) (create : Except SessionError Session) :
    Except SessionError SessionId × SessionRegistry :=
  match r.get? key with
  | some _ => (.error .alreadyActive, r)
  | none =>
    match create with
    | .error e => (.error e, r)
    | .ok s =>
      let id := r.sessions.length
      (.ok id, ⟨r.sessions ++ [s], r.active.insert key id⟩)

/-- Gives one input to a session itself, whether it is active or not. -/
def acceptOn (r : SessionRegistry) (files : FileTree) (id : SessionId) (input : String) :
    Except SessionError Reply × SessionRegistry :=
  match r.session? id with
  | none => (.error .notActive, r)
  | some s =>
    let (reply, s) := s.acceptInput files input
    (reply, r.setSession id s)

/-- Ends a session itself, whether it is active or not, and says whether it had not ended
before. -/
def endOn (r : SessionRegistry) (id : SessionId) : Bool × SessionRegistry :=
  match r.session? id with
  | none => (false, r)
  | some s =>
    let (fresh, s) := s.finish
    (fresh, r.setSession id s)

/-- Gives one input to the active session of a key.  A farewell takes the key out. -/
def acceptInput (r : SessionRegistry) (files : FileTree) (key input : String) :
    Except SessionError Reply × SessionRegistry :=
  match r.get? key with
  | none => (.error .notActive, r)
  | some id =>
    let (reply, r) := r.acceptOn files id input
    match reply with
    | .ok (.farewell _) => (reply, { r with active := r.active.erase key })
    | _ => (reply, r)

/-- Ends the active session of a key, and says whether there was one. -/
def finish (r : SessionRegistry) (key : String) : Bool × SessionRegistry :=
  match r.get? key with
  | none => (false, r)
  | some id => (true, (({ r with active := r.active.erase key } : SessionRegistry).endOn id).2)

/-- Ends every active session. -/
def finishAll (r : SessionRegistry) : SessionRegistry :=
  (r.active.entries.map (·.1)).foldl (fun r key => (r.finish key).2) r

end SessionRegistry

end ReplEngine
