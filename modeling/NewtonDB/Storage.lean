/-
# Snapshots

`src/storage.ts`: the catalog of a schema, the envelope a database hands to its
storage adapter, and the checks of an envelope that comes back.  The host's
collation, which `localeCompare` sorts index names by, is a parameter.
-/

import NewtonDB.Engine.Collection

namespace NewtonDB

/-- An index of the catalog. -/
structure CatalogIndex where
  name : JsString
  path : PropertyPath
  unique : Bool
  deriving DecidableEq

/-- `CatalogCollection`. -/
structure CatalogCollection where
  generatedPrimaryKey : Bool
  indexes : List CatalogIndex
  primaryKey : JsString
  deriving DecidableEq

/-- `DatabaseCatalog`: own properties in property order. -/
abbrev DatabaseCatalog := List (JsString × CatalogCollection)

/-- The documents of every collection in order. -/
abbrev SnapshotCollections := List (JsString × List JsonObject)

/-- `SnapshotEnvelope`, without `format` and `formatVersion`, which are constants. -/
structure SnapshotEnvelope where
  catalog : DatabaseCatalog
  collections : SnapshotCollections
  databaseId : JsString
  generation : ℕ
  revision : ℕ
  deriving DecidableEq

/-- `StoreAcknowledgement`; the counters are natural numbers. -/
structure StoreAcknowledgement where
  databaseId : JsString
  generation : ℕ
  revision : ℕ
  deriving DecidableEq

/-- `snapshotFormat`. -/
def snapshotFormat : JsString := js "newtondb"

/-- `snapshotFormatVersion`. -/
def snapshotFormatVersion : ℕ := 1

/-! ### What a database hands over -/

/-- `a <= b` on strings: by code units. -/
def leUnits : JsString → JsString → Bool
  | [], _ => true
  | _ :: _, [] => false
  | a :: as, b :: bs => a < b || (a == b && leUnits as bs)

/-- The entry of a collection in the catalog. -/
def catalogCollection (collate : JsString → JsString → Bool) (schema : CollectionSchema) :
    CatalogCollection where
  generatedPrimaryKey := schema.generatePrimaryKey.isSome
  indexes := (schema.indexes.map fun index => ⟨index.name, index.path, index.unique⟩).mergeSort
    fun left right => collate left.name right.name
  primaryKey := schema.primaryKey

/-- `createCatalog`. -/
def createCatalog (collate : JsString → JsString → Bool)
    (schema : List (JsString × CollectionSchema)) : DatabaseCatalog :=
  (schema.mergeSort fun a b => leUnits a.1 b.1).foldl
    (fun output entry => defineProperty output entry.1 (catalogCollection collate entry.2)) []

/-- The documents of one collection in order; a key without a record throws. -/
def snapshotDocuments (collection : StoredCollection) : Option (List JsonObject) :=
  collection.order.mapM collection.records.get

/-- `cloneSnapshotCollections`. -/
def cloneSnapshotCollections (collections : OrderedMap JsString StoredCollection) :
    Option SnapshotCollections :=
  collections.entries.foldlM (fun output entry => do
    let documents ← snapshotDocuments entry.2
    return defineProperty output entry.1 documents) []

/-! ### What comes back -/

/-- A path token as data. -/
def PathToken.json : PathToken → Json
  | .name s => .prim (.string s)
  | .index (.finite n) => .prim (.number n)
  | .index _ => .prim .null

/-- An index of the catalog as data. -/
def CatalogIndex.json (index : CatalogIndex) : Json :=
  .obj [(js "name", .prim (.string index.name)), (js "path", .arr (index.path.map PathToken.json)),
    (js "unique", .prim (.bool index.unique))]

/-- A collection of the catalog as data. -/
def CatalogCollection.json (collection : CatalogCollection) : Json :=
  .obj [(js "generatedPrimaryKey", .prim (.bool collection.generatedPrimaryKey)),
    (js "indexes", .arr (collection.indexes.map CatalogIndex.json)),
    (js "primaryKey", .prim (.string collection.primaryKey))]

/-- A catalog as data. -/
def catalogJson (catalog : DatabaseCatalog) : Json :=
  .obj (catalog.map fun entry => (entry.1, entry.2.json))

/-- `catalogsEqual`. -/
def catalogsEqual (left right : DatabaseCatalog) : Bool :=
  (catalogJson left).stringify = (catalogJson right).stringify

/-- `Object.keys(..).sort()`, as data. -/
def sortedNames {α : Type} (props : List (JsString × α)) : Json :=
  .arr (((props.map Prod.fst).mergeSort leUnits).map fun name => .prim (.string name))

/-- The checks of `isSnapshotEnvelope` on one index. -/
def isSnapshotIndex (index : CatalogIndex) : Bool :=
  index.name.length ≠ 0 && index.path.length ≠ 0 &&
    index.path.zipIdx.all fun entry =>
      match entry.1 with
      | .name _ => true
      | .index n => 0 < entry.2 && n.toIndex?.isSome

/-- The checks of `isSnapshotEnvelope` on one collection. -/
def isSnapshotCollection (entry : JsString × CatalogCollection) : Bool :=
  entry.1.length ≠ 0 && entry.2.primaryKey.length ≠ 0 && entry.2.indexes.all isSnapshotIndex

/-- `isSnapshotEnvelope` of an envelope whose fields have the types they should have. -/
def isSnapshotEnvelope (value : SnapshotEnvelope) : Bool :=
  value.databaseId.length ≠ 0 && value.databaseId.length ≤ 256 &&
    value.generation ≤ 2 ^ 53 - 1 && value.revision ≤ 2 ^ 53 - 1 &&
    (sortedNames value.catalog).stringify = (sortedNames value.collections).stringify &&
    value.catalog.all isSnapshotCollection

end NewtonDB
