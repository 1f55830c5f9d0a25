/-
# Processes at one database file

Any number of adapters for one path, each in a process, sharing a directory.  An adapter
that is between two methods, and only then, may begin any of `load`, `store` and `close`,
again and again; a method then runs one call at a time (`Cluster.step`), with the calls of the others in
between, and each call may meet a fault.  A process may die at any moment, and its
adapters make no further call; what they did to the directory stays.

`Machine.author` records which adapter created a file.  No call reads it: it is there
to say of a lock file whose it is.
-/

import NewtonDB.Lib.Interleaving
import NewtonDB.Node.JsonFileAdapter
import Mathlib.Logic.Function.Basic

namespace NewtonDB

/-- The file a call has created. -/
def FileCall.made {N β : Type} : FileCall N β → Except ErrorCode β → Option ℕ
  | .create _, .ok file => some file
  | _, _ => none

/-- Whether the call is the one by which `#acquireLock` removes a stale lock. -/
def AdapterRequest.isTakeover {β : Type} : AdapterRequest β → Bool
  | .file (.lock _ .remove) _ => true
  | _ => false

/-- What all processes share. -/
structure Machine (ι : Type) where
  dir : Directory JsString
  alive : ℤ → Bool
  author : ℕ → Option ι

/-- What the system chooses when it answers a call. -/
structure SystemAnswer where
  fault : Option Fault
  uuid : JsString

/-- The answer to a call of the adapter `i`. -/
def Machine.reply {ι : Type} (i : ι) (answer : SystemAnswer) {β : Type} :
    AdapterRequest β → Machine ι → β × Machine ι
  | .file _ call, m =>
      let left := call.answer answer.fault m.dir
      (left.1, { m with
        dir := left.2
        author := match call.made left.1 with
          | some file => Function.update m.author file (some i)
          | none => m.author })
  | .inject _, m =>
      (match answer.fault with
        | none => .ok ()
        | some fault => .error fault.code.code, m)
  | .isAlive pid, m => (m.alive pid, m)
  | .randomUUID _, m => (answer.uuid, m)

/-! ### Sessions -/

/-- A method of the adapter interface. -/
inductive AdapterCall where
  | close
  | load
  | store (snapshot : SnapshotEnvelope) (expectedGeneration : ℕ)

/-- What a method returns. -/
inductive AdapterResult where
  | closed
  | loaded (snapshot : Option Json)
  | stored (acknowledgement : StoreAcknowledgement)

/-- The method that is called. -/
def AdapterCall.method (a : JsonFileAdapter) : AdapterCall → AdapterMethod AdapterResult
  | .close => do
      a.close
      return .closed
  | .load => do
      let snapshot ← a.load
      return .loaded snapshot
  | .store snapshot expectedGeneration => do
      let acknowledgement ← a.store snapshot expectedGeneration
      return .stored acknowledgement

/-- What is left to run of a method. -/
abbrev AdapterProgram := Program AdapterRequest (Except Thrown AdapterResult × AdapterFields)

/-- An adapter in use: the method it runs or ran last, with the fields it entered it with. -/
structure Session where
  entered : AdapterFields
  call : AdapterCall
  program : AdapterProgram

/-- An adapter that was constructed. -/
def Session.new : Session where
  entered := .new
  call := .close
  program := .pure (.ok .closed, .new)

/-- A method is entered. -/
def AdapterCall.session (a : JsonFileAdapter) (call : AdapterCall) (fields : AdapterFields) :
    Session where
  entered := fields
  call := call
  program := (call.method a).run.run fields

/-- Whether the adapter is between a `load` that succeeded and its `close`. -/
def Session.isOpen (session : Session) : Bool :=
  match session.program, session.call with
  | .pure left, _ => left.2.lock.isSome
  | .call .., .store .. => session.entered.lock.isSome
  | .call .., _ => false

/-- The snapshot of the `store` that has just returned. -/
def Session.stored? (session : Session) : Option SnapshotEnvelope :=
  match session.call, session.program with
  | .store snapshot _, .pure (.ok (.stored _), _) => some snapshot
  | _, _ => none

/-! ### Steps -/

/-- Adapters for one path. -/
structure Cluster (ι : Type) where
  name : JsString
  platform : Platform
  adapter : ι → JsonFileAdapter
  name_eq : ∀ i, (adapter i).name = name
  platform_eq : ∀ i, (adapter i).platform = platform

/-- The machine and what runs on it. -/
structure ClusterState (ι : Type) where
  machine : Machine ι
  sessions : ι → Session

/-- What happens next. -/
inductive ClusterLabel (ι : Type) where
  | begin (i : ι) (call : AdapterCall)
  | crash (pid : ℤ)
  | reply (i : ι) (answer : SystemAnswer)

namespace Cluster

variable {ι : Type}

/-- `path` of every adapter. -/
def path (c : Cluster ι) : JsString := c.name

/-- `#lockPath` of every adapter. -/
def lockPath (c : Cluster ι) : JsString := c.name ++ js ".lock"

/-- The process of an adapter. -/
def pid (c : Cluster ι) (i : ι) : ℤ := (c.adapter i).pid

/-- The adapters as they were constructed, on a directory. -/
def start (dir : Directory JsString) (alive : ℤ → Bool) : ClusterState ι where
  machine := ⟨dir, alive, fun _ => none⟩
  sessions _ := .new

/-- One step, if it is possible.  A method begins only between two methods of its adapter:
an adapter whose method is still running is called again when that has returned.  Calls of
different adapters, also in one process, may come in any order. -/
def step [DecidableEq ι] (c : Cluster ι) (s : ClusterState ι) :
    ClusterLabel ι → Option (ClusterState ι)
  | .begin i call =>
      match (s.sessions i).program with
      | .pure left =>
          if s.machine.alive (c.pid i) then
            some { s with
              sessions := Function.update s.sessions i (call.session (c.adapter i) left.2) }
          else none
      | .call .. => none
  | .crash pid => some { s with machine := { s.machine with
      alive := Function.update s.machine.alive pid false } }
  | .reply i answer =>
      match (s.sessions i).program with
      | .pure _ => none
      | .call request next =>
          if s.machine.alive (c.pid i) then
            let left := s.machine.reply i answer request
            some {
              machine := left.2
              sessions := Function.update s.sessions i
                { s.sessions i with program := next left.1 } }
          else none

/-- The file that bears the name of the lock is that of no live process. -/
def lockIsStale (c : Cluster ι) (m : Machine ι) : Bool :=
  ((m.dir.entries.get? c.lockPath).bind m.author).all fun i => !m.alive (c.pid i)

/-- Whether the step takes the lock from no live process: when it is the removal of a
stale lock by `#acquireLock`, and succeeds, the file it removes is that of none. -/
def sparesLiving (c : Cluster ι) (s : ClusterState ι) : ClusterLabel ι → Bool
  | .reply i answer =>
      match (s.sessions i).program with
      | .pure _ => true
      | .call request _ =>
          !request.isTakeover || answer.fault.isSome || c.lockIsStale s.machine
  | _ => true

end Cluster

end NewtonDB
