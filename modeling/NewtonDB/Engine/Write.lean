/-
# Writing to a collection

The bodies of `_insert`, `_update` and `_delete` of `src/database.ts`, on the
working collection they write to.  A write that throws still leaves a working
collection behind, so each body returns the collection it leaves together with
its result.
-/

import NewtonDB.Engine.Collection

namespace NewtonDB

/-- `ChangeOperation`. -/
inductive ChangeOperation where
  | delete
  | insert
  | update
  deriving DecidableEq

/-- What one write did (`Change`). -/
structure Change where
  after : Option JsonObject
  before : Option JsonObject
  collection : JsString
  operation : ChangeOperation
  primaryKey : PrimaryKey
  deriving DecidableEq

/-- What a completed write reports. -/
structure Written where
  change : Change
  generatedKey : Option JsString

/-- What a key generator does: return a string, return something else, or throw. -/
inductive GeneratorOutcome where
  | string (value : JsString)
  | other
  | throws
  deriving DecidableEq

/-! ### Patches -/

/-- The view of a slot under a renaming of the values. -/
def Slot.map {σ τ : Type*} (f : σ → τ) : Slot σ → Slot τ
  | .data value => .data (f value)
  | .accessor outcome => .accessor (outcome.map f)
  | .hole => .hole

/-- What an array has beside its elements, under a renaming of the values. -/
def ArrayExtras.map {σ τ : Type*} (f : σ → τ) (extras : ArrayExtras σ) : ArrayExtras τ where
  plain := extras.plain
  symbols := extras.symbols.map fun slot => (slot.1, slot.2.map f)
  named := extras.named.map fun slot => (slot.1, slot.2.map f)

/-- A view under a renaming of the values. -/
def JsView.map {σ τ : Type*} (f : σ → τ) : JsView σ → JsView τ
  | .undefined => .undefined
  | .null => .null
  | .bool b => .bool b
  | .number n => .number n
  | .string s => .string s
  | .unsupported type => .unsupported type
  | .array slots extras => .array (slots.map (Slot.map f)) (extras.map f)
  | .object plain symbols slots =>
      .object plain (symbols.map fun slot => (slot.1, slot.2.map f))
        (slots.map fun slot => (slot.1, slot.2.map f))

/-- The values reached from a merged document: the document itself, those of the
stored document and those of the patch. -/
inductive MergedValue where
  | candidate
  | stored (value : Json)
  | patched (value : JsValue)
  deriving DecidableEq

/-- One turn of the loop over the patch of `mergeDocument`. -/
def mergeSlot (output : List (JsString × MergedValue)) (slot : JsString × Slot JsValue) :
    Except NewtonError (List (JsString × MergedValue)) :=
  match slot.2 with
  | .data value => .ok (defineProperty output slot.1 (.patched value))
  | _ => .error (.invalidArgument (js "Update patches cannot contain accessors"))

/-- `mergeDocument`: the properties of the merged document. -/
def mergeDocument (before : JsonObject) (patch : JsInput) :
    Except NewtonError (List (JsString × MergedValue)) :=
  match patch.heap.graph.view patch.value with
  | .object true _ slots =>
      slots.foldlM mergeSlot (before.foldl (fun output p => defineProperty output p.1 (.stored p.2)) [])
  | _ => .error (.invalidArgument (js "An update patch must be a plain object"))

/-- The values reached from a merged document. -/
def mergedGraph (heap : Heap) (candidate : List (JsString × MergedValue)) : JsGraph MergedValue where
  view
    | .candidate => .object true [] (candidate.map fun p => (p.1, .data p.2))
    | .stored value => (Json.graph.view value).map .stored
    | .patched value => (heap.graph.view value).map .patched

/-! ### Preparation -/

/-- `materializePrimaryKey`, given what the generator does: the document and the
key made up for it. -/
def materializePrimaryKey (collection : JsString) (input : JsInput) (schema : CollectionSchema)
    (generated : GeneratorOutcome) : Except NewtonError (JsonObject × Option JsString) := do
  let cloned ← input.cloneAndFreeze (← resolvedLimits schema)
  if hasOwn cloned schema.primaryKey then .ok (cloned, none)
  else
    match schema.generatePrimaryKey, generated with
    | none, _ => .ok (cloned, none)
    | some _, .throws => .error .callback
    | some _, .other => .error refused
    | some _, .string generatedKey =>
        if generatedKey.length = 0 then .error refused
        else do
          let _ ← encodeKey (.string generatedKey)
          .ok (defineProperty cloned schema.primaryKey (.prim (.string generatedKey)),
            some generatedKey)
where
  refused := .invalidArgument (js "Generated primary key for " ++ collection ++
    js " must be a non-empty string")

/-- A document ready to be written. -/
structure Prepared where
  document : JsonObject
  primaryKey : PrimaryKey
  encoded : JsString
  generatedKey : Option JsString

/-- The first half of `_insert`: the validated document and its key. -/
def prepareInsert (name : JsString) (input : JsInput) (schema : CollectionSchema)
    (generated : GeneratorOutcome) : Except NewtonError Prepared := do
  let (document, generatedKey) ← materializePrimaryKey name input schema generated
  let document ← validateDocument name Json.graph (.obj document) schema
  let primaryKey ← documentKey document schema
  let encoded ← encodeKey primaryKey
  return { document, primaryKey, encoded, generatedKey }

/-- `validateDocument` of the merged document, in `_update`. -/
def patchDocument (name : JsString) (before : JsonObject) (patch : JsInput)
    (schema : CollectionSchema) : Except NewtonError JsonObject := do
  let candidate ← mergeDocument before patch
  validateDocument name (mergedGraph patch.heap candidate) .candidate schema

/-- The primary-key check of `_update`. -/
def checkSameKey (name : JsString) (after : JsonObject) (primaryKey : PrimaryKey)
    (schema : CollectionSchema) : Except NewtonError Unit := do
  let key ← documentKey after schema
  if key.same primaryKey then .ok () else .error (.immutablePrimaryKey name)

/-- The first half of `_update`: the validated new version of a document. -/
def prepareUpdate (name : JsString) (primaryKey : PrimaryKey) (before : JsonObject)
    (patch : JsInput) (schema : CollectionSchema) : Except NewtonError JsonObject := do
  let after ← patchDocument name before patch schema
  checkSameKey name after primaryKey schema
  return after

/-! ### Replacing a document in the indexes -/

section

variable {M : Type} [MutableMap M JsString Bucket]

/-- The removal of the old version, when there is one. -/
def removeBefore (name : JsString) (indexes : Indexes M) (encoded : JsString) :
    Option JsonObject → Indexes M × Except NewtonError Unit
  | none => (indexes, .ok ())
  | some before => removeFromIndexes name indexes encoded before

/-- The `catch` around the addition of the new version: the old one is added
again, and if that throws too its error wins. -/
def restoreBefore (name : JsString) (indexes : Indexes M) (encoded : JsString)
    (before : Option JsonObject) (error : NewtonError) : Indexes M × NewtonError :=
  match before with
  | none => (indexes, error)
  | some before =>
      match addToIndexes name indexes encoded before with
      | .ok indexes => (indexes, error)
      | .error error => (indexes, error)

/-- The index part of `_insert` and `_update`: out with the old version, in with
the new one. -/
def replaceInIndexes (name : JsString) (indexes : Indexes M) (encoded : JsString)
    (before : Option JsonObject) (document : JsonObject) : Indexes M × Except NewtonError Unit :=
  match removeBefore name indexes encoded before with
  | (indexes, .error error) => (indexes, .error error)
  | (indexes, .ok ()) =>
      match addToIndexes name indexes encoded document with
      | .ok indexes => (indexes, .ok ())
      | .error error =>
          let restored := restoreBefore name indexes encoded before error
          (restored.1, .error restored.2)

/-- `#assertMutable` of an overlay map that was sealed. -/
def immutableMap : NewtonError := .plain (js "A committed overlay map is immutable")

/-- Why a sealed collection refuses a new version of a document.  Its maps refuse the
first change: the removal of the old version from an index, or what follows the check
of the new one. -/
def refusalOfSealed (name : JsString) (indexes : Indexes M) (encoded : JsString)
    (before : Option JsonObject) (document : JsonObject) : NewtonError :=
  let removes (index : SecondaryIndexState M) : Bool :=
    before.any fun before =>
      (indexValue name index.name index.path before).toOption.any Option.isSome
  if indexes.values.any removes then immutableMap
  else
    match addToIndexes name indexes encoded document with
    | .error error => error
    | .ok _ => immutableMap

end

namespace WorkingCollection

/-- The record and, for a new key, its place in the order. -/
def setRecord (collection : WorkingCollection) (encoded : JsString) (document : JsonObject)
    (isNew : Bool) : WorkingCollection :=
  if isNew then
    { collection with
      records := collection.records.set encoded document
      order := collection.order ++ [encoded]
      positions := collection.positions.set encoded collection.nextPosition
      nextPosition := collection.nextPosition + 1 }
  else { collection with records := collection.records.set encoded document }

/-- The record, its position and its place in the order, removed. -/
def deleteRecord (collection : WorkingCollection) (encoded : JsString) : WorkingCollection :=
  { collection with
    records := collection.records.delete encoded
    positions := collection.positions.delete encoded
    order := collection.order.erase encoded }

/-- `_insert` after `#writable`; an upsert when `upsert` is set. -/
def insert (name : JsString) (input : JsInput) (upsert : Bool) (generated : GeneratorOutcome)
    (collection : WorkingCollection) : WorkingCollection × Except NewtonError Written :=
  match prepareInsert name input collection.schema generated with
  | .error error => (collection, .error error)
  | .ok prepared =>
      let before := collection.records.get prepared.encoded
      if before.isSome && !upsert then
        (collection, .error (.duplicateKey name prepared.primaryKey))
      else if collection.isSealed then
        (collection, .error
          (refusalOfSealed name collection.indexes prepared.encoded before prepared.document))
      else
        let (indexes, outcome) :=
          replaceInIndexes name collection.indexes prepared.encoded before prepared.document
        match outcome with
        | .error error => ({ collection with indexes }, .error error)
        | .ok () =>
            ({ collection with indexes }.setRecord prepared.encoded prepared.document before.isNone,
              .ok {
                change := {
                  after := some prepared.document
                  before
                  collection := name
                  operation := if before.isNone then .insert else .update
                  primaryKey := prepared.primaryKey }
                generatedKey := prepared.generatedKey })

/-- `_update` after `#writable`. -/
def update (name : JsString) (primaryKey : PrimaryKey) (patch : JsInput)
    (collection : WorkingCollection) : WorkingCollection × Except NewtonError Written :=
  match encodeKey primaryKey with
  | .error error => (collection, .error error)
  | .ok encoded =>
      match collection.records.get encoded with
      | none => (collection, .error (.notFound name primaryKey))
      | some before =>
          match prepareUpdate name primaryKey before patch collection.schema with
          | .error error => (collection, .error error)
          | .ok after =>
              if collection.isSealed then
                (collection, .error
                  (refusalOfSealed name collection.indexes encoded (some before) after))
              else
                let (indexes, outcome) :=
                  replaceInIndexes name collection.indexes encoded (some before) after
                match outcome with
                | .error error => ({ collection with indexes }, .error error)
                | .ok () =>
                    ({ collection with indexes }.setRecord encoded after false,
                      .ok {
                        change := {
                          after := some after
                          before := some before
                          collection := name
                          operation := .update
                          primaryKey }
                        generatedKey := none })

/-- `_delete` after `#writable`. -/
def delete (name : JsString) (primaryKey : PrimaryKey) (collection : WorkingCollection) :
    WorkingCollection × Except NewtonError Written :=
  match encodeKey primaryKey with
  | .error error => (collection, .error error)
  | .ok encoded =>
      match collection.records.get encoded with
      | none => (collection, .error (.notFound name primaryKey))
      | some before =>
          if collection.isSealed then (collection, .error immutableMap)
          else
            let (indexes, outcome) := removeFromIndexes name collection.indexes encoded before
            match outcome with
            | .error error => ({ collection with indexes }, .error error)
            | .ok () =>
                ({ collection with indexes }.deleteRecord encoded,
                  .ok {
                    change := {
                      after := none
                      before := some before
                      collection := name
                      operation := .delete
                      primaryKey }
                    generatedKey := none })

end WorkingCollection

end NewtonDB
