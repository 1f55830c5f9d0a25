/-
# Opening a database

`Database.open` and the constructor of `src/database.ts`, from the snapshot the
adapter loaded on: its envelope and its catalog are checked, and the first root is
built of its documents, or of the initial data where storage is empty.
-/

import NewtonDB.Database.Runtime

namespace NewtonDB

/-- `Partial<EventLimits>`. -/
structure EventLimitOverrides where
  maxQueuedBatches : Option JsNumber
  maxQueuedChanges : Option JsNumber

/-- `Partial<PersistenceLimits>`. -/
structure PersistenceLimitOverrides where
  maxPendingSnapshots : Option JsNumber

/-- `Partial<TransactionLimits>`. -/
structure TransactionLimitOverrides where
  maxAgeMs : Option JsNumber
  maxOperations : Option JsNumber
  maxReadCollections : Option JsNumber

/-- `resolveLimits("event", ..)`. -/
def EventLimitOverrides.resolve (overrides : EventLimitOverrides) :
    Except NewtonError EventLimits := do
  let resolve := resolveLimit (js "event")
  let d := defaultEventLimits
  let maxQueuedBatches ← resolve (js "maxQueuedBatches") d.maxQueuedBatches overrides.maxQueuedBatches
  let maxQueuedChanges ← resolve (js "maxQueuedChanges") d.maxQueuedChanges overrides.maxQueuedChanges
  return { maxQueuedBatches, maxQueuedChanges }

/-- `resolveLimits("persistence", ..)`. -/
def PersistenceLimitOverrides.resolve (overrides : PersistenceLimitOverrides) :
    Except NewtonError PersistenceLimits := do
  let maxPendingSnapshots ← resolveLimit (js "persistence") (js "maxPendingSnapshots")
    defaultPersistenceLimits.maxPendingSnapshots overrides.maxPendingSnapshots
  return { maxPendingSnapshots }

/-- `resolveLimits("transaction", ..)`. -/
def TransactionLimitOverrides.resolve (overrides : TransactionLimitOverrides) :
    Except NewtonError TransactionLimits := do
  let resolve := resolveLimit (js "transaction")
  let d := defaultTransactionLimits
  let maxAgeMs ← resolve (js "maxAgeMs") d.maxAgeMs overrides.maxAgeMs
  let maxOperations ← resolve (js "maxOperations") d.maxOperations overrides.maxOperations
  let maxReadCollections ←
    resolve (js "maxReadCollections") d.maxReadCollections overrides.maxReadCollections
  return { maxAgeMs, maxOperations, maxReadCollections }

/-- The caller's documents for a database without any, with the heap they live on. -/
structure InitialData where
  heap : Heap
  collections : List (JsString × List JsValue)

/-- `DatabaseOpenOptions`, without the adapter. -/
structure OpenOptions where
  eventDocuments : Bool
  eventLimits : EventLimitOverrides
  initialData : Option InitialData
  onEventOverflow : Bool
  onListenerError : Bool
  persistenceLimits : PersistenceLimitOverrides
  schema : List (JsString × CollectionSchema)
  transactionLimits : TransactionLimitOverrides
  verifyInvariants : Bool

namespace OpenOptions

/-- The constructor, over an adapter. -/
def construct {σ : Type} [DecidableEq σ] (o : OpenOptions) (collate : JsString → JsString → Bool)
    (randomId : JsString) (graph : JsGraph σ) (seed : List (JsString × List σ))
    (stored : Option SnapshotEnvelope) : Except NewtonError (DatabaseOptions × Root) := do
  let eventLimits ← o.eventLimits.resolve
  let persistenceLimits ← o.persistenceLimits.resolve
  let transactionLimits ← o.transactionLimits.resolve
  let root ← createRoot graph seed o.schema (stored.elim 0 (·.revision))
  return ({
    adapter := true
    catalog := createCatalog collate o.schema
    commit := {
      databaseId := stored.elim randomId (·.databaseId)
      includeDocuments := o.eventDocuments
      verifyInvariants := o.verifyInvariants }
    eventLimits
    onEventOverflow := o.onEventOverflow
    onListenerError := o.onListenerError
    persistenceLimits
    transactionLimits }, root)

/-- The documents of a snapshot as a seed. -/
def seedOf (collections : SnapshotCollections) : List (JsString × List Json) :=
  collections.map fun entry => (entry.1, entry.2.map .obj)

/-- What `open` tries once the adapter has loaded. -/
def openLoaded (o : OpenOptions) (collate : JsString → JsString → Bool) (randomId : JsString) :
    Option SnapshotEnvelope → Except NewtonError (DatabaseOptions × Root)
  | some loaded =>
      if !isSnapshotEnvelope loaded then
        .error (.corruptStorage
          (js "The storage adapter returned an unsupported or malformed snapshot envelope"))
      else if !catalogsEqual loaded.catalog (createCatalog collate o.schema) then
        .error (.corruptStorage
          (js "The stored catalog does not match the supplied database schema"))
      else o.construct collate randomId Json.graph (seedOf loaded.collections) (some loaded)
  | none =>
      match o.initialData with
      | none => .error (.invalidArgument
          (js "initialData is required when persistent storage is empty"))
      | some initial => o.construct collate randomId initial.heap.graph initial.collections none

/-- The error `open` throws in the end: a snapshot that does not open is corrupt. -/
def openError (loaded : Option SnapshotEnvelope) : NewtonError → NewtonError
  | .corruptStorage message => .corruptStorage message
  | error =>
      if loaded.isSome then .corruptStorage (js "The stored database snapshot is invalid") else error

/-- `open` from the loaded snapshot on: the options of the database and a program that
just opened it. -/
def opened (o : OpenOptions) (collate : JsString → JsString → Bool) (randomId : JsString)
    (loaded : Option SnapshotEnvelope) : Except NewtonError (DatabaseOptions × Runtime) :=
  match o.openLoaded collate randomId loaded with
  | .error error => .error (openError loaded error)
  | .ok (options, root) => .ok (options, .start options root loaded)

end OpenOptions

namespace OpenOptions

variable {o : OpenOptions} {collate : JsString → JsString → Bool} {randomId : JsString}
  {options : DatabaseOptions}

/-- **What the constructor gives**: the options it resolved, and a root that was built of
the seed. -/
theorem construct_eq_ok {σ : Type} [DecidableEq σ] {graph : JsGraph σ}
    {seed : List (JsString × List σ)} {stored : Option SnapshotEnvelope} {root : Root}
    (h : o.construct collate randomId graph seed stored = .ok (options, root)) :
    options.adapter ∧ options.catalog = createCatalog collate o.schema ∧
      options.commit.databaseId = stored.elim randomId (·.databaseId) ∧
      createRoot graph seed o.schema (stored.elim 0 (·.revision)) = .ok root := by
  obtain ⟨eventLimits, -, h⟩ := bind_eq_ok.1 h
  obtain ⟨persistenceLimits, -, h⟩ := bind_eq_ok.1 h
  obtain ⟨transactionLimits, -, h⟩ := bind_eq_ok.1 h
  obtain ⟨root, hroot, h⟩ := bind_eq_ok.1 h
  obtain ⟨rfl, rfl⟩ := Prod.mk.inj (Except.ok.inj h)
  exact ⟨rfl, rfl, rfl, hroot⟩

/-- **What opening gives**: a program over a root that was built at the revision of the
loaded snapshot, under its identity. -/
theorem opened_eq_ok {loaded : Option SnapshotEnvelope} {r : Runtime}
    (h : o.opened collate randomId loaded = .ok (options, r)) :
    options.adapter ∧ options.catalog = createCatalog collate o.schema ∧
      options.commit.databaseId = loaded.elim randomId (·.databaseId) ∧
      ∃ (σ : Type) (_ : DecidableEq σ) (graph : JsGraph σ) (seed : List (JsString × List σ))
        (root : Root), createRoot graph seed o.schema (loaded.elim 0 (·.revision)) = .ok root ∧
          r = .start options root loaded := by
  unfold opened at h
  cases hopen : o.openLoaded collate randomId loaded with
  | error error =>
      rw [hopen] at h
      cases h
  | ok result =>
      obtain ⟨options', root⟩ := result
      rw [hopen] at h
      obtain ⟨rfl, rfl⟩ := Prod.mk.inj (Except.ok.inj h)
      cases loaded with
      | none =>
          unfold openLoaded at hopen
          cases hinitial : o.initialData with
          | none =>
              rw [hinitial] at hopen
              cases hopen
          | some initial =>
              rw [hinitial] at hopen
              obtain ⟨ha, hcatalog, hid, hroot⟩ := construct_eq_ok hopen
              exact ⟨ha, hcatalog, hid, _, _, _, _, root, hroot, rfl⟩
      | some loaded =>
          unfold openLoaded at hopen
          dsimp only at hopen
          split_ifs at hopen
          obtain ⟨ha, hcatalog, hid, hroot⟩ := construct_eq_ok hopen
          exact ⟨ha, hcatalog, hid, _, _, _, _, root, hroot, rfl⟩

end OpenOptions

end NewtonDB
