/-
# Secondary indexes

`indexValue`, `createIndexes`, `addToIndexes`, `removeFromIndexes`, `cloneIndexes`
and `sealIndexes` of `src/database.ts`.  An index maps an encoded value to its
bucket, the set of the encoded primary keys of the documents that hold the value.
The bucket map is a plain map while a collection is created, an overlay inside a
transaction and a read-only map once committed; the functions are generic in it.

A bucket is a value here.  The source writes into a bucket in place only where
`copyOnWrite` is unset, which is while the collection is being created and nobody
else holds the bucket.
-/

import NewtonDB.Document
import NewtonDB.OverlayMap

namespace NewtonDB

/-- The encoded primary keys under one index value. -/
abbrev Bucket := OrderedSet JsString

/-- A secondary index with buckets of type `M` (`SecondaryIndexState`). -/
structure SecondaryIndexState (M : Type) where
  buckets : M
  copyOnWrite : Bool
  name : JsString
  path : PropertyPath
  unique : Bool

/-- The indexes of a collection, by name. -/
abbrev Indexes (M : Type) := OrderedMap JsString (SecondaryIndexState M)

/-- The buckets of a committed collection. -/
abbrev StoredBuckets := ReadonlyMap JsString Bucket

/-- The buckets of a working collection. -/
abbrev WorkingBuckets := OverlayMap JsString Bucket

namespace SecondaryIndexState

variable {M N : Type}

/-- The index with other buckets. -/
def withBuckets (index : SecondaryIndexState M) (buckets : N) : SecondaryIndexState N :=
  { index with buckets }

/-- New buckets are the buckets. -/
@[simp] theorem withBuckets_buckets (index : SecondaryIndexState M) (b : N) :
    (index.withBuckets b).buckets = b := rfl

/-- New buckets keep the path. -/
@[simp] theorem withBuckets_path (index : SecondaryIndexState M) (b : N) :
    (index.withBuckets b).path = index.path := rfl

/-- New buckets keep the name. -/
@[simp] theorem withBuckets_name (index : SecondaryIndexState M) (b : N) :
    (index.withBuckets b).name = index.name := rfl

/-- New buckets keep whether the index is unique. -/
@[simp] theorem withBuckets_unique (index : SecondaryIndexState M) (b : N) :
    (index.withBuckets b).unique = index.unique := rfl

end SecondaryIndexState

/-- `indexValue`, of the index `name` at `path`. -/
def indexValue (collection name : JsString) (path : PropertyPath) (document : JsonObject) :
    Except NewtonError (Option JsString) :=
  match readPath path (.obj document) with
  | none => .ok none
  | some (.prim value) => .ok (some (encodeIndexValue value))
  | some _ => .error (.invalidArgument (js "Index " ++ collection ++ js "." ++ name ++
      js " must resolve to a JSON primitive"))

/-- One turn of the loop of `createIndexes`. -/
def createIndex (collection : JsString) (indexes : Indexes (OrderedMap JsString Bucket))
    (definition : SecondaryIndex) :
    Except NewtonError (Indexes (OrderedMap JsString Bucket)) :=
  if definition.name.length = 0 || indexes.has definition.name then
    .error (.invalidArgument
      (js "Secondary index names must be non-empty and unique in " ++ collection))
  else do
    let path ← validatePath (definition.path.map PathToken.view) 32
    return indexes.set definition.name
      { buckets := .empty, copyOnWrite := false, name := definition.name, path,
        unique := definition.unique }

/-- `createIndexes`. -/
def createIndexes (collection : JsString) (schema : CollectionSchema) :
    Except NewtonError (Indexes (OrderedMap JsString Bucket)) :=
  schema.indexes.foldlM (createIndex collection) .empty

section

variable {M : Type} [MutableMap M JsString Bucket]

/-- The check of `addToIndexes` on one index: a unique value of another document
is refused. -/
def checkIndex (collection primaryKey : JsString) (document : JsonObject)
    (index : SecondaryIndexState M) : Except NewtonError Unit := do
  match ← indexValue collection index.name index.path document with
  | none => .ok ()
  | some encoded =>
      match MapView.get index.buckets encoded with
      | some bucket =>
          if index.unique && !bucket.has primaryKey then
            .error (.duplicateUniqueIndex collection index.name)
          else .ok ()
      | none => .ok ()

/-- The addition of `addToIndexes` to one index. -/
def addToIndex (collection primaryKey : JsString) (document : JsonObject)
    (index : SecondaryIndexState M) : SecondaryIndexState M :=
  match indexValue collection index.name index.path document with
  | .ok (some encoded) =>
      let bucket := (MapView.get index.buckets encoded).getD .empty
      index.withBuckets (MutableMap.set index.buckets encoded (bucket.set primaryKey ()))
  | _ => index

/-- `addToIndexes`: every index is checked before the first one is written. -/
def addToIndexes (collection : JsString) (indexes : Indexes M) (primaryKey : JsString)
    (document : JsonObject) : Except NewtonError (Indexes M) := do
  indexes.values.forM (checkIndex collection primaryKey document)
  return indexes.mapVals (addToIndex collection primaryKey document)

/-- One turn of the loop of `removeFromIndexes`. -/
def removeFromIndex (collection primaryKey : JsString) (document : JsonObject)
    (index : SecondaryIndexState M) : Except NewtonError (SecondaryIndexState M) := do
  match ← indexValue collection index.name index.path document with
  | none => .ok index
  | some encoded =>
      match MapView.get index.buckets encoded with
      | none => .ok index
      | some current =>
          let bucket := current.delete primaryKey
          .ok (index.withBuckets
            (if bucket.size = 0 then MutableMap.delete index.buckets encoded
              else MutableMap.set index.buckets encoded bucket))

/-- `removeFromIndexes`; the indexes before a failing one stay changed. -/
def removeFromIndexes (collection : JsString) (indexes : Indexes M) (primaryKey : JsString)
    (document : JsonObject) : Indexes M × Except NewtonError Unit :=
  indexes.updateVals (removeFromIndex collection primaryKey document)

end

/-- `cloneIndexes`. -/
def cloneIndexes (indexes : Indexes StoredBuckets) : Indexes WorkingBuckets :=
  indexes.mapVals fun index =>
    { index.withBuckets (OverlayMap.new index.buckets) with copyOnWrite := true }

/-- `sealIndexes`. -/
def sealIndexes (indexes : Indexes WorkingBuckets) : Indexes StoredBuckets :=
  indexes.mapVals fun index =>
    { index.withBuckets index.buckets.sealed with copyOnWrite := false }

end NewtonDB
