/-
# The state of a database

The private fields of `Database` in `src/database.ts` and the methods that only
touch them: the lifecycle checks, the event queue, and the queue of stores.  A
store waits for the one queued before it, is handed to the adapter, ends when the
adapter answers, and is then taken off the books; each of these is a step of its
own, since anything may happen in between.

`history` is not a field of the code.  It records what the database's
surroundings saw: the roots it published, its calls to the adapter and how they
ended, and how its promises were settled.  The newest entry is first.
-/

import NewtonDB.Engine.Commit
import NewtonDB.Storage

namespace NewtonDB

/-- `DatabaseState`, without the two states no code enters. -/
inductive DatabaseState where
  | opened
  | degraded
  | closing
  | closed
  deriving DecidableEq

/-- `EventLimits`. -/
structure EventLimits where
  maxQueuedBatches : ℕ
  maxQueuedChanges : ℕ

/-- `defaultEventLimits`. -/
def defaultEventLimits : EventLimits where
  maxQueuedBatches := 1024
  maxQueuedChanges := 100000

/-- `PersistenceLimits`. -/
structure PersistenceLimits where
  maxPendingSnapshots : ℕ

/-- `defaultPersistenceLimits`. -/
def defaultPersistenceLimits : PersistenceLimits where
  maxPendingSnapshots := 256

/-- What stays fixed in the life of a database: its options, its identity and
its catalog.  `adapter`, `onEventOverflow` and `onListenerError` tell whether
there is one. -/
structure DatabaseOptions where
  adapter : Bool
  catalog : DatabaseCatalog
  commit : CommitOptions
  eventLimits : EventLimits
  onEventOverflow : Bool
  onListenerError : Bool
  persistenceLimits : PersistenceLimits
  transactionLimits : TransactionLimits

/-- How a call of `adapter.store` ended. -/
inductive StoreOutcome where
  | acknowledged (acknowledgement : StoreAcknowledgement)
  | rejected
  deriving DecidableEq

/-- Where a queued store stands: `settled` once its task has settled, `finished`
once the `finally` of the task has run as well. -/
inductive TaskPhase where
  | queued
  | storing (snapshot : SnapshotEnvelope)
  | settled (error : Option NewtonError)
  | finished (error : Option NewtonError)
  deriving DecidableEq

/-- How a finished store ended. -/
def TaskPhase.outcome : TaskPhase → Option (Option NewtonError)
  | .finished error => some error
  | _ => none

/-- A queued store of `#persist`: the receipt it was queued for, and the
documents of `root`, the root that was committed then. -/
structure PersistenceTask where
  receipt : CommitReceipt
  root : Root
  collections : SnapshotCollections
  phase : TaskPhase
  cloned : cloneSnapshotCollections root.collections = some collections

/-- What an `await` waits for. -/
inductive Waiting where
  | resolved
  | rejected (error : NewtonError)
  | task (index : ℕ)
  | tail (index : ℕ)
  deriving DecidableEq

/-- Where `#performClose` stands. -/
inductive ClosePhase where
  | flushing (waiting : Waiting)
  | closingAdapter (failure : Option NewtonError)
  | done (failure : Option NewtonError)
  deriving DecidableEq

/-- What the surroundings of a database see. -/
inductive DatabaseEvent where
  | published (root : Root)
  | overflow (batch : ChangeBatch)
  | dispatched (batch : ChangeBatch) (listeners : List ℕ)
  | delivered (listener : ℕ) (batch : ChangeBatch)
  | queued (receipt : CommitReceipt)
  | store (snapshot : SnapshotEnvelope) (expectedGeneration : ℕ)
  | acknowledged (snapshot : SnapshotEnvelope) (acknowledgement : StoreAcknowledgement)
  | failed (snapshot : SnapshotEnvelope)
  | adapterClose
  | committed (handle : ℕ) (receipt : CommitReceipt)
  | transaction (call : ℕ) (outcome : Except NewtonError CommitReceipt)
  | flush (call : ℕ) (outcome : Except NewtonError ℕ)
  | close (failure : Option NewtonError)

/-- The private fields of `Database`.  `tasks` are the stores queued so far: the
last one is what `#persistenceTail` waits for. -/
structure Database where
  root : Root
  state : DatabaseState
  closePromise : Option ClosePhase
  transactionCallbackActive : Bool
  generation : ℕ
  persistedRevision : ℤ
  pendingPersistence : ℕ
  persistenceByRevision : OrderedMap ℕ ℕ
  tasks : List PersistenceTask
  dispatchScheduled : Bool
  eventQueue : List ChangeBatch
  eventQueueChanges : ℕ
  listenerId : ℕ
  listeners : List ℕ
  history : List DatabaseEvent

namespace Database

/-- A database over a root, and the snapshot it was loaded from: the end of the
constructor and of `open`.  A persistent database that found nothing has
persisted nothing. -/
def start (options : DatabaseOptions) (root : Root) (stored : Option SnapshotEnvelope) :
    Database where
  root
  state := .opened
  closePromise := none
  transactionCallbackActive := false
  generation := stored.elim 0 (·.generation)
  persistedRevision := stored.elim (if options.adapter then -1 else 0) (·.revision)
  pendingPersistence := 0
  persistenceByRevision := .empty
  tasks := []
  dispatchScheduled := false
  eventQueue := []
  eventQueueChanges := 0
  listenerId := 0
  listeners := []
  history := [.published root]

/-- Record what the surroundings saw. -/
def record (db : Database) (event : DatabaseEvent) : Database :=
  { db with history := event :: db.history }

/-- `#assertOpen`, and `#assertUsable`, which is the same. -/
def assertOpen (db : Database) : Except NewtonError Unit :=
  if db.state ≠ .opened ∧ db.state ≠ .degraded then .error .closed else .ok ()

/-! ### Events -/

/-- `#enqueue` up to the call of a hook: the batch is queued, or it overflows. -/
def enqueue (options : DatabaseOptions) (db : Database) (batch : ChangeBatch) :
    Database × Bool :=
  if options.eventLimits.maxQueuedBatches ≤ db.eventQueue.length ∨
      options.eventLimits.maxQueuedChanges < db.eventQueueChanges + batch.changes.length then
    (db.record (.overflow batch), true)
  else
    ({ db with
        eventQueue := db.eventQueue ++ [batch]
        eventQueueChanges := db.eventQueueChanges + batch.changes.length
        dispatchScheduled := true }, false)

/-- `subscribe`. -/
def subscribe (db : Database) : Database :=
  match db.assertOpen with
  | .error _ => db
  | .ok () =>
      { db with listenerId := db.listenerId + 1, listeners := db.listeners ++ [db.listenerId + 1] }

/-- The function `subscribe` returned. -/
def unsubscribe (db : Database) (id : ℕ) : Database :=
  { db with listeners := db.listeners.filter (· ≠ id) }

/-! ### The queue of stores -/

/-- What a wait for the tail of the queue waits for. -/
def tail (db : Database) : Waiting :=
  match db.tasks.length with
  | 0 => .resolved
  | n + 1 => .tail n

/-- How a task ended once it is off the books: with an error or without. -/
def finished (db : Database) (index : ℕ) : Option (Option NewtonError) :=
  db.tasks[index]?.bind (·.phase.outcome)

/-- How a wait ended, if it did: with an error or without. -/
def outcome (db : Database) : Waiting → Option (Option NewtonError)
  | .resolved => some none
  | .rejected error => some (some error)
  | .task index => db.finished index
  | .tail index => (db.finished index).map fun _ => none

/-- A store joins the queue. -/
def queue (db : Database) (receipt : CommitReceipt) (collections : SnapshotCollections)
    (h : cloneSnapshotCollections db.root.collections = some collections) : Database :=
  { db with
    tasks := db.tasks ++ [⟨receipt, db.root, collections, .queued, h⟩]
    persistenceByRevision := db.persistenceByRevision.set receipt.revision db.tasks.length
    history := .queued receipt :: db.history }

/-- `#persist`. -/
def persist (options : DatabaseOptions) (db : Database) (receipt : CommitReceipt) :
    Database × Waiting :=
  if !options.adapter then (db, .resolved)
  else
    match db.persistenceByRevision.get? receipt.revision with
    | some index => (db, .task index)
    | none =>
        if options.persistenceLimits.maxPendingSnapshots ≤ db.pendingPersistence then
          ({ db with state := .degraded }, .rejected (.persistence receipt))
        else
          let db' := { db with pendingPersistence := db.pendingPersistence + 1 }
          match h : cloneSnapshotCollections db'.root.collections with
          | none => (db', .rejected (.plain (js "Record order invariant violated")))
          | some collections => (db'.queue receipt collections h, .task db.tasks.length)

/-- Move a task on. -/
def setPhase (db : Database) (index : ℕ) (phase : TaskPhase) : Database :=
  { db with tasks := db.tasks.modify index ({ · with phase }) }

/-- A task can start once the one before it is off the books. -/
def isReady (db : Database) : ℕ → Bool
  | 0 => true
  | index + 1 => (db.finished index).isSome

/-- The snapshot a task hands over when it starts. -/
def snapshot (options : DatabaseOptions) (db : Database) (task : PersistenceTask) :
    SnapshotEnvelope where
  catalog := options.catalog
  collections := task.collections
  databaseId := options.commit.databaseId
  generation := db.generation + 1
  revision := task.receipt.revision

/-- The task of `#persist` up to its call of `adapter.store`. -/
def startStore (options : DatabaseOptions) (db : Database) (index : ℕ) : Option Database :=
  match db.tasks[index]? with
  | some task =>
      if task.phase = .queued ∧ db.isReady index then
        let snapshot := db.snapshot options task
        some ((db.setPhase index (.storing snapshot)).record (.store snapshot db.generation))
      else none
  | none => none

/-- The acknowledgement matches the snapshot. -/
def accepts (options : DatabaseOptions) (snapshot : SnapshotEnvelope)
    (acknowledgement : StoreAcknowledgement) : Bool :=
  acknowledgement.databaseId = options.commit.databaseId ∧
    acknowledgement.generation = snapshot.generation ∧ snapshot.revision ≤ acknowledgement.revision

/-- A degraded database recovers when storage has caught up. -/
def stateAfter (db : Database) (persistedRevision : ℤ) : DatabaseState :=
  if db.state = .degraded ∧ db.root.revision ≤ persistedRevision then .opened else db.state

/-- The task of `#persist` after the adapter answered. -/
def settleStore (options : DatabaseOptions) (db : Database) (index : ℕ) (outcome : StoreOutcome) :
    Option Database :=
  match db.tasks[index]? with
  | some task =>
      match task.phase with
      | .storing snapshot =>
          let failed := { db with state := DatabaseState.degraded }.setPhase index
            (.settled (some (.persistence task.receipt))) |>.record (.failed snapshot)
          match outcome with
          | .rejected => some failed
          | .acknowledged acknowledgement =>
              if accepts options snapshot acknowledgement then
                let persistedRevision := max db.persistedRevision acknowledgement.revision
                let acknowledged := { db with
                  generation := acknowledgement.generation
                  persistedRevision
                  state := db.stateAfter persistedRevision }
                some <| acknowledged.setPhase index (.settled none) |>.record
                  (.acknowledged snapshot acknowledgement)
              else some failed
      | _ => none
  | none => none

/-- The `finally` of a task. -/
def finishStore (db : Database) (index : ℕ) : Option Database :=
  match db.tasks[index]? with
  | some task =>
      match task.phase with
      | .settled error =>
          some { db.setPhase index (.finished error) with
            pendingPersistence := db.pendingPersistence - 1
            persistenceByRevision :=
              if db.persistenceByRevision.get? task.receipt.revision = some index then
                db.persistenceByRevision.delete task.receipt.revision
              else db.persistenceByRevision }
      | _ => none
  | none => none

/-! ### Flushing and closing -/

/-- The receipt `flush` and `#flushDuringClose` make up. -/
def flushReceipt (options : DatabaseOptions) (db : Database) (id : JsString) : CommitReceipt where
  affected := 0
  databaseId := options.commit.databaseId
  durability := .memory
  generatedKeys := []
  revision := db.root.revision
  transactionId := id

/-- What `flush` does after its check. -/
def flushNow (options : DatabaseOptions) (db : Database) (id : JsString) : Database × Waiting :=
  if options.adapter ∧ db.persistedRevision < db.root.revision then
    db.persist options (db.flushReceipt options id)
  else (db, db.tail)

/-- `#flushDuringClose`. -/
def flushDuringClose (options : DatabaseOptions) (db : Database) (id : JsString) :
    Database × Waiting :=
  if !options.adapter then (db, .resolved) else db.flushNow options id

/-- `close`, and `#performClose` up to its first wait. -/
def close (options : DatabaseOptions) (db : Database) (id : JsString) : Database :=
  if db.state = .closed ∨ db.closePromise.isSome then db
  else
    let r := { db with state := .closing }.flushDuringClose options id
    { r.1 with closePromise := some (.flushing r.2) }

/-- `#performClose` from the end of its flush to its second wait. -/
def closeAdapter (options : DatabaseOptions) (db : Database) : Option Database :=
  match db.closePromise with
  | some (.flushing waiting) =>
      (db.outcome waiting).map fun failure =>
        let db := { db with closePromise := some (.closingAdapter failure) }
        if options.adapter then db.record .adapterClose else db
  | _ => none

/-- The end of `#performClose`, given how `adapter.close` ended. -/
def finishClose (db : Database) (adapterFailure : Option NewtonError) : Option Database :=
  match db.closePromise with
  | some (.closingAdapter failure) =>
      let failure := failure.or adapterFailure
      some ({ db with
        listeners := []
        eventQueue := []
        state := .closed
        closePromise := some (.done failure) }.record (.close failure))
  | _ => none

end Database

end NewtonDB
