/-
# Collections

`StoredCollection`, `WorkingCollection`, `createStoredCollection` and
`assertCollectionInvariant` of `src/database.ts`.  A collection keeps its
documents by encoded primary key, the keys in insertion order, the position of
each key in that order, and the secondary indexes.
-/

import NewtonDB.Engine.Indexes

namespace NewtonDB

/-- A committed collection (`StoredCollection`). -/
structure StoredCollection where
  indexes : Indexes StoredBuckets
  nextPosition : ℕ
  order : List JsString
  positions : ReadonlyMap JsString ℕ
  records : ReadonlyMap JsString JsonObject
  revision : ℕ
  schema : CollectionSchema

/-- A collection a transaction writes to (`WorkingCollection`).  `isSealed` is the
flag of its overlay maps, which a commit sets on all of them when it publishes the
collection. -/
structure WorkingCollection where
  baseRevision : ℕ
  indexes : Indexes WorkingBuckets
  isSealed : Bool
  nextPosition : ℕ
  order : List JsString
  positions : OverlayMap JsString ℕ
  records : OverlayMap JsString JsonObject
  schema : CollectionSchema

namespace StoredCollection

/-- The clone a transaction writes to, of `#writable`. -/
def clone (stored : StoredCollection) : WorkingCollection where
  baseRevision := stored.revision
  indexes := cloneIndexes stored.indexes
  isSealed := false
  nextPosition := stored.nextPosition
  order := stored.order
  positions := .new stored.positions
  records := .new stored.records
  schema := stored.schema

/-- The documents in order: `order.map` of `records.get`, without `undefined`. -/
def documents (stored : StoredCollection) : List JsonObject :=
  stored.order.filterMap stored.records.get

end StoredCollection

namespace WorkingCollection

/-- The collection a commit publishes, of `_commit`. -/
def publish (collection : WorkingCollection) (revision : ℕ) : StoredCollection where
  indexes := sealIndexes collection.indexes
  nextPosition := collection.nextPosition
  order := collection.order
  positions := collection.positions.sealed
  records := collection.records.sealed
  revision := revision
  schema := collection.schema

/-- The documents in order. -/
def documents (collection : WorkingCollection) : List JsonObject :=
  collection.order.filterMap collection.records.get

end WorkingCollection

/-! ### Creation -/

/-- The maps `createStoredCollection` fills. -/
structure CollectionBuilder where
  indexes : Indexes (OrderedMap JsString Bucket)
  order : List JsString
  positions : OrderedMap JsString ℕ
  records : OrderedMap JsString JsonObject

section

variable {σ : Type} [DecidableEq σ] (graph : JsGraph σ)

/-- One turn of the loop of `createStoredCollection`. -/
def CollectionBuilder.add (name : JsString) (schema : CollectionSchema)
    (builder : CollectionBuilder) (input : σ) : Except NewtonError CollectionBuilder := do
  let document ← validateDocument name graph input schema
  let key ← documentKey document schema
  let encoded ← encodeKey key
  if builder.records.has encoded then .error (.duplicateKey name key)
  else do
    let indexes ← addToIndexes name builder.indexes encoded document
    return {
      indexes
      order := builder.order ++ [encoded]
      positions := builder.positions.set encoded builder.order.length
      records := builder.records.set encoded document }

/-- The collection a builder stands for. -/
def CollectionBuilder.build (schema : CollectionSchema) (revision : ℕ)
    (builder : CollectionBuilder) : StoredCollection where
  indexes := builder.indexes.mapVals fun index => index.withBuckets (.map index.buckets)
  nextPosition := builder.order.length
  order := builder.order
  positions := .map builder.positions
  records := .map builder.records
  revision := revision
  schema := schema

/-- `createStoredCollection`. -/
def createStoredCollection (name : JsString) (documents : List σ) (schema : CollectionSchema)
    (revision : ℕ) : Except NewtonError StoredCollection := do
  let indexes ← createIndexes name schema
  let builder ← documents.foldlM (CollectionBuilder.add graph name schema)
    { indexes, order := [], positions := .empty, records := .empty }
  return builder.build schema revision

end

/-! ### The internal check -/

/-- Throw an `InvariantViolationError` unless the condition holds. -/
def require (condition : Prop) [Decidable condition] (message : JsString) :
    Except NewtonError Unit :=
  if condition then .ok () else .error (.invariantViolation message)

/-- One turn of the loop over `order` of `assertCollectionInvariant`. -/
def checkPosition (name : JsString) (collection : StoredCollection) (previousKey : Option JsString)
    (key : JsString) : Except NewtonError Unit :=
  match collection.positions.get key with
  | none => .error (.invariantViolation (name ++ js ": record position is missing"))
  | some rank =>
      match previousKey >>= collection.positions.get with
      | none => .ok ()
      | some previous => require (previous < rank) (name ++ js ": record positions are unordered")

/-- The loop over `order` of `assertCollectionInvariant`. -/
def checkPositions (name : JsString) (collection : StoredCollection) :
    Option JsString → List JsString → Except NewtonError Unit
  | _, [] => .ok ()
  | previousKey, key :: rest => do
      checkPosition name collection previousKey key
      checkPositions name collection (some key) rest

/-- One turn of the loop over `records` of `assertCollectionInvariant`. -/
def checkRecord (name : JsString) (collection : StoredCollection)
    (record : JsString × JsonObject) : Except NewtonError Unit :=
  if !collection.order.contains record.1 then inconsistent
  else do
    let encoded ← encodeKey (← documentKey record.2 collection.schema)
    if encoded ≠ record.1 then inconsistent else .ok ()
where
  inconsistent := .error (.invariantViolation (name ++ js ": primary-key map is inconsistent"))

/-- The expected buckets after one more record. -/
def expectBucket (name : JsString) (index : SecondaryIndexState StoredBuckets)
    (expected : OrderedMap JsString Bucket) (record : JsString × JsonObject) :
    Except NewtonError (OrderedMap JsString Bucket) := do
  match ← indexValue name index.name index.path record.2 with
  | none => .ok expected
  | some encoded =>
      .ok (expected.set encoded (((expected.get? encoded).getD .empty).set record.1 ()))

/-- The comparison of one expected bucket. -/
def checkBucket (name : JsString) (index : SecondaryIndexState StoredBuckets)
    (entry : JsString × Bucket) : Except NewtonError Unit :=
  match index.buckets.get entry.1 with
  | none => mismatch
  | some actual =>
      if actual.size ≠ entry.2.size || entry.2.keys.any fun key => !actual.has key then mismatch
      else .ok ()
where
  mismatch := .error (.invariantViolation
    (name ++ js "." ++ index.name ++ js ": bucket contents mismatch"))

/-- One turn of the loop over `indexes` of `assertCollectionInvariant`. -/
def checkIndexState (name : JsString) (collection : StoredCollection)
    (index : SecondaryIndexState StoredBuckets) : Except NewtonError Unit := do
  let expected ← collection.records.entries.foldlM (expectBucket name index) .empty
  require (expected.size = index.buckets.size)
    (name ++ js "." ++ index.name ++ js ": bucket count mismatch")
  expected.entries.forM (checkBucket name index)

/-- `assertCollectionInvariant`. -/
def assertCollectionInvariant (name : JsString) (collection : StoredCollection) :
    Except NewtonError Unit := do
  require (collection.order.length = collection.records.size)
    (name ++ js ": record order cardinality mismatch")
  require (collection.positions.size = collection.records.size)
    (name ++ js ": position cardinality mismatch")
  require collection.order.Nodup (name ++ js ": record order contains duplicates")
  checkPositions name collection none collection.order
  collection.records.entries.forM (checkRecord name collection)
  collection.indexes.values.forM (checkIndexState name collection)

end NewtonDB
