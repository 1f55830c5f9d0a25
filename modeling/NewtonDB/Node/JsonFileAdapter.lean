/-
# The file adapter

`JsonFileAdapter` of `src/node/json-file-adapter.ts`: `load`, `store` and `close`, with
the private methods they are made of, as methods that make calls on the directory of
the database.  Each call is made at a `CallSite`, and no site is passed twice in one
run of a method, so that `Host.fault` may let any of them fail.

Names are those in the directory.  The modes of new files are left out, and a
`faultInjector` that throws is a fault at its site.
-/

import NewtonDB.Lib.Directory
import NewtonDB.Lib.Program
import NewtonDB.Node.SnapshotFile

namespace NewtonDB

/-! ### Calls -/

/-- `JsonFileFaultPoint`. -/
inductive FaultPoint where
  | afterDirectorySync
  | afterFileSync
  | afterRename
  | afterTempClose
  | afterTempOpen
  | afterWrite
  | beforeTempOpen
  deriving DecidableEq

/-- The calls on the lock file in one attempt to take it. -/
inductive LockStep where
  | create
  | readFirst
  | readSecond
  | remove
  | sync
  | write
  deriving DecidableEq

/-- The calls on a snapshot that is read. -/
inductive ReadStep where
  | close
  | open
  | read
  | stat
  deriving DecidableEq

/-- The calls on a file that is written under a temporary name and put in place. -/
inductive WriteStep where
  | close
  | create
  | discard
  | discardClose
  | rename
  | sync
  | write
  deriving DecidableEq

/-- The calls on the directory that make a rename durable. -/
inductive DirectoryStep where
  | close
  | open
  | sync
  deriving DecidableEq

/-- The calls that release the lock. -/
inductive ReleaseStep where
  | close
  | read
  | remove
  deriving DecidableEq

/-- Where a call is made.  `copy` tells the two files a store writes apart: the verified
copy of a snapshot, and the snapshot itself. -/
inductive CallSite where
  | checkParent
  | directory (copy : Bool) (step : DirectoryStep)
  | inject (point : FaultPoint)
  | listTemps
  | lock (attempt : ℕ) (step : LockStep)
  | makeParent
  | owner (check : ℕ)
  | release (step : ReleaseStep)
  | removeTemp (name : JsString)
  | snapshot (backup : Bool) (step : ReadStep)
  | temporary (copy : Bool) (step : WriteStep)
  deriving DecidableEq

/-- Where an identifier is made up. -/
inductive IdSite where
  | temporary (copy : Bool)
  | token (attempt : ℕ)
  deriving DecidableEq

/-- What the adapter asks of its surroundings. -/
inductive AdapterRequest : Type → Type 1 where
  | file {β : Type} (site : CallSite) (call : FileCall JsString β) :
      AdapterRequest (Except ErrorCode β)
  | inject (point : FaultPoint) : AdapterRequest (Except ErrorCode Unit)
  | isAlive (pid : ℤ) : AdapterRequest Bool
  | randomUUID (site : IdSite) : AdapterRequest JsString

/-- The surroundings of one run of a method: the faults, the identifiers and the live
processes. -/
structure Host where
  fault : CallSite → Option Fault
  uuid : IdSite → JsString
  alive : ℤ → Bool

/-- What answers the adapter. -/
def Host.handler (host : Host) : Handler AdapterRequest (Directory JsString) where
  reply
    | .file site call, d => call.answer (host.fault site) d
    | .inject point, d =>
        (match host.fault (.inject point) with
          | none => .ok ()
          | some fault => .error fault.code.code, d)
    | .isAlive pid, d => (host.alive pid, d)
    | .randomUUID site, d => (host.uuid site, d)

/-! ### The adapter -/

/-- An adapter as it was constructed. -/
structure JsonFileAdapter where
  name : JsString
  createDirectories : Bool
  maxBytes : ℕ
  recoverFromBackup : Bool
  pid : ℕ
  platform : Platform

/-- The private fields that change. -/
@[ext]
structure AdapterFields where
  closed : Bool
  databaseId : Option JsString
  generation : ℕ
  loaded : Bool
  lock : Option ℕ
  lockToken : Option JsString

/-- The fields of a new adapter. -/
def AdapterFields.new : AdapterFields where
  closed := false
  databaseId := none
  generation := 0
  loaded := false
  lock := none
  lockToken := none

/-- The fields once `close` was called. -/
def AdapterFields.shut (fields : AdapterFields) : AdapterFields :=
  { fields with closed := true, lock := none }

/-- What the code throws: an error of its own, or one of the system. -/
inductive Thrown where
  | newton (error : NewtonError)
  | system (code : ErrorCode)
  deriving DecidableEq

/-- A method of the adapter. -/
abbrev AdapterMethod := Method AdapterRequest AdapterFields Thrown

/-- A call on the directory. -/
def fileCall {β : Type} (site : CallSite) (call : FileCall JsString β) : AdapterMethod β := do
  match ← Method.request (.file site call) with
  | .ok b => return b
  | .error code => throw (.system code)

/-- `#fault`. -/
def injectFault (point : FaultPoint) : AdapterMethod Unit := do
  match ← Method.request (.inject point) with
  | .ok () => return ()
  | .error code => throw (.system code)

/-- `readFile(name, "utf8")` with its errors caught. -/
def readText (site : CallSite) (name : JsString) : AdapterMethod (Option JsString) := do
  let outcome ← Method.attempt (fileCall site (.readFile name))
  return outcome.toOption.map utf8Text

/-- `LockRecord`. -/
structure LockRecord where
  pid : ℤ
  token : JsString
  deriving DecidableEq

/-- The value as a safe integer. -/
def Json.integer? : Json → Option ℤ
  | .prim (.number n) => n.toInt?.filter fun z => z.natAbs ≤ 2 ^ 53 - 1
  | _ => none

/-- `parseLock`. -/
def Platform.parseLock (platform : Platform) (value : JsString) : Option LockRecord := do
  let parsed ← platform.parse value
  let pid ← (parsed.property? (js "pid")).bind Json.integer?
  let token ← (parsed.property? (js "token")).bind Json.string?
  if token.length = 0 then none else some { pid, token }

/-- `processIsAlive` of the owner of a lock. -/
def isOwnerAlive (owner : Option LockRecord) : AdapterMethod Bool :=
  match owner with
  | none => return false
  | some owner => if owner.pid ≤ 0 then return false else Method.request (.isAlive owner.pid)

namespace JsonFileAdapter

variable (a : JsonFileAdapter)

/-- `path`. -/
def path : JsString := a.name

/-- `backupPath`. -/
def backupPath : JsString := a.name ++ js ".backup"

/-- `#lockPath`. -/
def lockPath : JsString := a.name ++ js ".lock"

/-- The name a file has before it is put in place. -/
def temporaryPath (destination uuid : JsString) : JsString :=
  js "." ++ destination ++ js "." ++ natText a.pid ++ js "." ++ uuid ++ js ".tmp"

/-- The text of the adapter's own lock file. -/
def lockText (token : JsString) : JsString :=
  (Json.obj [(js "pid", .prim (.number (.ofNat a.pid))),
    (js "token", .prim (.string token))]).stringify

/-! ### The lock -/

/-- The `try` of one turn of the loop of `#acquireLock`: the lock is taken. -/
def createLock (attempt : ℕ) (token : JsString) : AdapterMethod Bool := do
  let handle ← fileCall (.lock attempt .create) (.create a.lockPath)
  fileCall (.lock attempt .write) (.write handle (utf8Encode (a.lockText token)))
  fileCall (.lock attempt .sync) (.sync handle)
  modify fun fields => { fields with lock := some handle, lockToken := some token }
  return true

/-- The `catch` of the turn: the lock is not taken, and a stale one is removed. -/
def lockFailed (attempt : ℕ) (error : Thrown) : AdapterMethod Bool := do
  if error ≠ .system .exists then
    throw (.newton (.storage (js "Failed to acquire the database lock")))
  let firstText ← readText (.lock attempt .readFirst) a.lockPath
  if ← isOwnerAlive (firstText.bind a.platform.parseLock) then
    throw (.newton (.storageConflict (js "The database is locked by another live process")))
  let secondText ← readText (.lock attempt .readSecond) a.lockPath
  if firstText = none ∨ secondText ≠ firstText then return false
  let _ ← Method.attempt (fileCall (.lock attempt .remove) (.unlink a.lockPath))
  return false

/-- One turn of the loop of `#acquireLock`: whether the lock is taken. -/
def attemptLock (attempt : ℕ) : AdapterMethod Bool := do
  let token ← Method.request (.randomUUID (.token attempt))
  tryCatch (a.createLock attempt token) (a.lockFailed attempt)

/-- The checks of `#acquireLock` on the parent directory. -/
def checkParent : AdapterMethod Unit := do
  if a.createDirectories then
    tryCatch (fileCall .makeParent .mkdir) fun _ =>
      throw (.newton (.storage (js "Could not create the storage parent directory")))
  let isDirectory ← tryCatch (fileCall .checkParent .lstat) fun _ =>
    throw (.newton (.storage (js "Storage parent directory is unavailable")))
  if !isDirectory then throw (.newton (.storage (js "Storage parent is not a directory")))

/-- `#acquireLock`. -/
def acquireLock : AdapterMethod Unit := do
  a.checkParent
  if ← a.attemptLock 0 then return
  if ← a.attemptLock 1 then return
  throw (.newton (.storageConflict (js "Could not safely recover the stale database lock")))

/-- `#assertLockOwnership`. -/
def assertLockOwnership (check : ℕ) : AdapterMethod Unit := do
  match (← get).lockToken with
  | none => throw (.newton (.storageConflict (js "The database lock is not owned")))
  | some token =>
      let text ← readText (.owner check) a.lockPath
      if (a.platform.parseLock (text.getD [])).map LockRecord.token ≠ some token then
        throw (.newton (.storageConflict
          (js "The database lock fencing token changed unexpectedly")))

/-- The `try` of `close`: the lock file is removed when it has the adapter's token. -/
def releaseLock (token : JsString) : AdapterMethod Unit := do
  let bytes ← fileCall (.release .read) (.readFile a.lockPath)
  if (a.platform.parseLock (utf8Text bytes)).map LockRecord.token = some token then
    fileCall (.release .remove) (.unlink a.lockPath)

/-- `close`. -/
def close : AdapterMethod Unit := do
  let fields ← get
  if fields.closed then return
  modify AdapterFields.shut
  match fields.lock with
  | none => pure ()
  | some handle =>
      let _ ← Method.attempt (fileCall (.release .close) (.close handle))
  match fields.lockToken with
  | none => pure ()
  | some token =>
      tryCatch (a.releaseLock token) fun error => do
        if error ≠ .system .missing then
          throw (.newton (.storage (js "Failed to release the database lock")))

/-! ### Reading -/

/-- The checks of `#readSnapshotAt` on an open file. -/
def readHandle (backup : Bool) (handle : ℕ) : AdapterMethod Json := do
  let info ← fileCall (.snapshot backup .stat) (.stat handle)
  if !info.isFile then refuse "Storage path must be a regular file, not a symlink"
  if info.links ≠ 1 then refuse "Storage path must not have additional hard links"
  if a.maxBytes < info.size then refuse "Stored snapshot exceeds the configured byte limit"
  let bytes ← fileCall (.snapshot backup .read) (.read handle)
  if a.maxBytes < bytes.length then refuse "Stored snapshot exceeds the configured byte limit"
  match a.platform.decodeSnapshot bytes with
  | .ok snapshot => return snapshot
  | .error error => throw (.newton error)
where
  refuse (message : String) : AdapterMethod Unit :=
    throw (.newton (.corruptStorage (js message)))

/-- How `#readSnapshotAt` ends when it could not read a snapshot. -/
def readFailed : Thrown → AdapterMethod (Option Json)
  | .system .missing => return none
  | .system .loop => throw (.newton (.corruptStorage
      (js "Storage path must be a regular file, not a symlink")))
  | .newton (.corruptStorage message) => throw (.newton (.corruptStorage message))
  | _ => throw (.newton (.storage (js "Failed to read the database snapshot")))

/-- `#readSnapshotAt`, of the primary or the backup. -/
def readSnapshotAt (backup : Bool) : AdapterMethod (Option Json) := do
  let name := if backup then a.backupPath else a.path
  match ← Method.attempt (fileCall (.snapshot backup .open) (.openFile name)) with
  | .error error => readFailed error
  | .ok handle =>
      let outcome ← Method.attempt (a.readHandle backup handle)
      let _ ← Method.attempt (fileCall (.snapshot backup .close) (.close handle))
      match outcome with
      | .ok snapshot => return some snapshot
      | .error error => readFailed error

/-! ### Writing -/

/-- The codes of a directory that cannot be synced. -/
def isNoSync : Thrown → Bool
  | .system code => code = .invalid || code = .unsupported || code = .isDirectory
  | _ => false

/-- `#syncDirectory`. -/
def syncDirectory (copy : Bool) : AdapterMethod Unit := do
  match ← Method.attempt (fileCall (.directory copy .open) .openDirectory) with
  | .error error => if !isNoSync error then throw error
  | .ok () =>
      let outcome ← Method.attempt (fileCall (.directory copy .sync) .syncDirectory)
      fileCall (.directory copy .close) .closeDirectory
      match outcome with
      | .error error => if !isNoSync error then throw error
      | .ok () => return ()

/-- The cleanup after a file could not be put in place. -/
def discardTemporary (copy : Bool) (temporary : JsString) (handle : Option ℕ) :
    AdapterMethod Unit := do
  match handle with
  | none => pure ()
  | some handle =>
      let _ ← Method.attempt (fileCall (.temporary copy .discardClose) (.close handle))
  let _ ← Method.attempt (fileCall (.temporary copy .discard) (.unlink temporary))

/-- `#installBytes`. -/
def installBytes (destination : JsString) (bytes : List UInt8) : AdapterMethod Unit := do
  let uuid ← Method.request (.randomUUID (.temporary true))
  let temporary := a.temporaryPath destination uuid
  match ← Method.attempt (fileCall (.temporary true .create) (.create temporary)) with
  | .error _ => failed temporary none
  | .ok handle =>
      let written ← Method.attempt do
        fileCall (.temporary true .write) (.write handle bytes)
        fileCall (.temporary true .sync) (.sync handle)
        fileCall (.temporary true .close) (.close handle)
      match written with
      | .error _ => failed temporary (some handle)
      | .ok () =>
          let renamed ← Method.attempt do
            fileCall (.temporary true .rename) (.rename temporary destination)
            syncDirectory true
          match renamed with
          | .error _ => failed temporary none
          | .ok () => return ()
where
  failed (temporary : JsString) (handle : Option ℕ) : AdapterMethod Unit := do
    discardTemporary true temporary handle
    throw (.newton (.storage (js "Failed to install a verified snapshot copy")))

/-! ### Loading -/

/-- The removals of `#removeStaleTemps`: all are started, and the first error wins.
`Promise.all` rejects at the first error, with the other removals under way; here they run one
after the other, and all of them have ended before `load` goes on. -/
def removeTemps : List JsString → AdapterMethod Unit
  | [] => return ()
  | name :: rest => do
      let outcome ← Method.attempt (fileCall (.removeTemp name) (.unlink name))
      removeTemps rest
      match outcome with
      | .error error => throw error
      | .ok () => return ()

/-- The names `#removeStaleTemps` removes. -/
def isStaleTemp (name : JsString) : Bool :=
  (js "." ++ a.name ++ js ".").isPrefixOf name && (js ".tmp").isSuffixOf name

/-- `#removeStaleTemps`. -/
def removeStaleTemps : AdapterMethod Unit :=
  tryCatch
    (do
      let names ← fileCall .listTemps .readdir
      removeTemps (names.filter a.isStaleTemp))
    fun _ => throw (.newton (.storage (js "Failed to remove stale snapshot files")))

/-- The end of `#loadWithRecovery`, with a verified backup. -/
def recoverBackup (backup : Json) : AdapterMethod (Option Json) := do
  if !a.recoverFromBackup then
    throw (.newton (.corruptStorage (js "A verified backup exists but explicit " ++
      js "recoverFromBackup permission is required")))
  a.installBytes a.path (a.platform.serializeSnapshot backup)
  return some backup

/-- `#loadWithRecovery`. -/
def loadWithRecovery : AdapterMethod (Option Json) := do
  match ← Method.attempt (a.readSnapshotAt false) with
  | .ok (some primary) => return some primary
  | primary =>
      match primary, ← Method.attempt (a.readSnapshotAt true) with
      | .error _, .error _ => throw (.newton (.corruptStorage
          (js "Both the primary snapshot and its backup are unusable")))
      | .ok _, .error error => throw error
      | .error error, .ok none => throw error
      | .ok _, .ok none => return none
      | _, .ok (some backup) => a.recoverBackup backup

/-- The `try` of `load`. -/
def loadLocked : AdapterMethod (Option Json) := do
  a.removeStaleTemps
  a.assertLockOwnership 0
  let snapshot ← a.loadWithRecovery
  modify fun fields => { fields with
    generation := (snapshot.map Json.generation).getD 0
    databaseId := snapshot.map Json.databaseId }
  return snapshot

/-- `load`. -/
def load : AdapterMethod (Option Json) := do
  let fields ← get
  if fields.closed then throw (.newton (.storage (js "The storage adapter is closed")))
  if fields.loaded then
    throw (.newton (.storage (js "This adapter instance has already loaded storage")))
  a.acquireLock
  modify fun fields => { fields with loaded := true }
  tryCatch a.loadLocked fun error => do
    a.close
    throw error

/-- The cleanup of `Database.open`. -/
def openFailed {α : Type} (primary : Thrown) : AdapterMethod α := do
  match ← Method.attempt a.close with
  | .ok () => throw primary
  | .error _ => throw (.newton (.storage (js "Database open and adapter cleanup both failed")))

/-- `Database.open`, where `build` makes the database of the loaded snapshot. -/
def openDatabase {α : Type} (build : Option Json → Except NewtonError α) : AdapterMethod α := do
  match ← Method.attempt a.load with
  | .error error => a.openFailed error
  | .ok loaded =>
      match build loaded with
      | .ok database => return database
      | .error error => a.openFailed (.newton error)

/-! ### Storing -/

/-- `#assertReady`. -/
def assertReady : AdapterMethod Unit := do
  let fields ← get
  if fields.closed then throw (.newton (.storage (js "The storage adapter is closed")))
  if !fields.loaded || fields.lock.isNone then
    throw (.newton (.storage (js "load() must acquire storage before store()")))

/-- The checks of `store` before it writes: the snapshot on disk. -/
def checkStore (snapshot : SnapshotEnvelope) (expectedGeneration : ℕ) :
    AdapterMethod (Option Json) := do
  assertReady
  a.assertLockOwnership 0
  let fields ← get
  if expectedGeneration ≠ fields.generation ∨ snapshot.generation ≠ expectedGeneration + 1 then
    throw (.newton .generationConflict)
  if fields.databaseId.any (· ≠ snapshot.databaseId) then
    throw (.newton (.storageConflict (js "The database identity changed unexpectedly")))
  let disk ← a.readSnapshotAt false
  if (disk.map Json.generation).getD 0 ≠ fields.generation ∨
      disk.any (fun disk => disk.databaseId ≠ fields.databaseId.getD snapshot.databaseId) then
    throw (.newton (.storageConflict (js "The storage file was modified externally")))
  if a.maxBytes < (a.platform.serializeSnapshot snapshot.json).length then
    throw (.newton (.storage (js "Serialized snapshot exceeds the configured byte limit")))
  return disk

/-- The first part of the replacement in `store`: the backup, and a new file. -/
def openTemporary (temporary : JsString) (disk : Option Json) : AdapterMethod ℕ := do
  match disk with
  | none => pure ()
  | some disk => a.installBytes a.backupPath (a.platform.serializeSnapshot disk)
  injectFault .beforeTempOpen
  fileCall (.temporary false .create) (.create temporary)

/-- The second part: the new file is written. -/
def writeTemporary (handle : ℕ) (bytes : List UInt8) : AdapterMethod Unit := do
  injectFault .afterTempOpen
  fileCall (.temporary false .write) (.write handle bytes)
  injectFault .afterWrite
  fileCall (.temporary false .sync) (.sync handle)
  injectFault .afterFileSync
  fileCall (.temporary false .close) (.close handle)

/-- The third part: it is put in place. -/
def replacePrimary (temporary : JsString) : AdapterMethod Unit := do
  injectFault .afterTempClose
  a.assertLockOwnership 1
  fileCall (.temporary false .rename) (.rename temporary a.path)
  injectFault .afterRename
  syncDirectory false
  injectFault .afterDirectorySync

/-- The `catch` of the replacement. -/
def storeFailed (temporary : JsString) (handle : Option ℕ) (error : Thrown) :
    AdapterMethod Unit := do
  discardTemporary false temporary handle
  match error with
  | .newton (.storage message) => throw (.newton (.storage message))
  | .newton (.storageConflict message) => throw (.newton (.storageConflict message))
  | _ => throw (.newton (.storage (js "Failed to atomically store the database snapshot")))

/-- The replacement in `store`. -/
def replaceSnapshot (temporary : JsString) (disk : Option Json) (bytes : List UInt8) :
    AdapterMethod Unit := do
  match ← Method.attempt (a.openTemporary temporary disk) with
  | .error error => storeFailed temporary none error
  | .ok handle =>
      match ← Method.attempt (writeTemporary handle bytes) with
      | .error error => storeFailed temporary (some handle) error
      | .ok () =>
          match ← Method.attempt (a.replacePrimary temporary) with
          | .error error => storeFailed temporary none error
          | .ok () => return ()

/-- `store`. -/
def store (snapshot : SnapshotEnvelope) (expectedGeneration : ℕ) :
    AdapterMethod StoreAcknowledgement := do
  let disk ← a.checkStore snapshot expectedGeneration
  let uuid ← Method.request (.randomUUID (.temporary false))
  a.replaceSnapshot (a.temporaryPath a.path uuid) disk
    (a.platform.serializeSnapshot snapshot.json)
  modify fun fields => { fields with
    databaseId := some snapshot.databaseId, generation := snapshot.generation }
  return {
    databaseId := snapshot.databaseId
    generation := snapshot.generation
    revision := snapshot.revision }

end JsonFileAdapter

end NewtonDB
