/-
# Commits and the initial root

`_commit` of `src/database.ts` without its lifecycle check, `commit` of a
transaction, and the part of the constructor that builds the first root from a
seed.
-/

import NewtonDB.Engine.Transaction

namespace NewtonDB

/-- What listeners are told of a commit (`ChangeBatch`). -/
structure ChangeBatch where
  changes : List Change
  databaseId : JsString
  revision : ℕ
  transactionId : JsString
  deriving DecidableEq

/-- The options a commit reads. -/
structure CommitOptions where
  databaseId : JsString
  includeDocuments : Bool
  verifyInvariants : Bool

/-- What a commit does: the new root, the receipt, and the batch of a commit
with changes. -/
structure Committed where
  root : Root
  receipt : CommitReceipt
  batch : Option ChangeBatch

/-- The collections a transaction read that changed since. -/
def conflictsOf (root : Root) : List (JsString × ℕ) → Except NewtonError (List JsString)
  | [] => .ok []
  | (name, baseRevision) :: rest => do
      let current ← root.stored name
      let conflicts ← conflictsOf root rest
      return if current.revision ≠ baseRevision then name :: conflicts else conflicts

/-- The collections after the working ones are published. -/
def publishAll (collections : OrderedMap JsString StoredCollection) (revision : ℕ)
    (working : OrderedMap JsString WorkingCollection) : OrderedMap JsString StoredCollection :=
  working.entries.foldl (fun next entry => next.set entry.1 (entry.2.publish revision)) collections

/-- A published collection is the working one, any other is untouched. -/
theorem get?_publishAll (collections : OrderedMap JsString StoredCollection) (revision : ℕ)
    (working : OrderedMap JsString WorkingCollection) (name : JsString) :
    (publishAll collections revision working).get? name =
      ((working.get? name).map (·.publish revision)).or (collections.get? name) :=
  OrderedMap.get?_foldl_set (fun w : WorkingCollection => w.publish revision) name working.nodup

/-- The check of every collection (`verify`, and `verifyInvariants` at a commit). -/
def verifyCollections (collections : OrderedMap JsString StoredCollection) :
    Except NewtonError Unit :=
  collections.entries.forM fun entry => assertCollectionInvariant entry.1 entry.2

/-- A change as listeners see it. -/
def Change.published (change : Change) (includeDocuments : Bool) : Change :=
  if includeDocuments then change else { change with after := none, before := none }

namespace Root

/-- The publication of `_commit`. -/
def publish (root : Root) (options : CommitOptions) (t : Transaction) :
    Except NewtonError Committed :=
  let revision := root.revision + 1
  let next := publishAll root.collections revision t.working
  let changes := t.changes.map (·.published options.includeDocuments)
  match if options.verifyInvariants then verifyCollections next else .ok () with
  | .error error => .error error
  | .ok () => .ok {
      root := { collections := next, revision }
      receipt := {
        affected := changes.length
        databaseId := options.databaseId
        durability := .memory
        generatedKeys := t.generatedKeys
        revision
        transactionId := t.id }
      batch := some { changes, databaseId := options.databaseId, revision, transactionId := t.id } }

/-- `_commit` after `#assertOpen`. -/
def commit (root : Root) (options : CommitOptions) (t : Transaction) :
    Except NewtonError Committed := do
  match ← conflictsOf root t.baseRevisions.entries with
  | name :: rest => .error (.conflict (name :: rest))
  | [] =>
      if t.changes = [] then
        .ok {
          root
          receipt := {
            affected := 0
            databaseId := options.databaseId
            durability := .memory
            generatedKeys := t.generatedKeys
            revision := root.revision
            transactionId := t.id }
          batch := none }
      else root.publish options t

end Root

/-- `commit` of a transaction, given `_commit`: the transaction is finished
whether it succeeds or throws, unless it was refused before. -/
def Transaction.commit (t : Transaction) (now : ℕ)
    (commitRoot : Transaction → Except NewtonError Committed) :
    Transaction × Except NewtonError Committed :=
  match t.assertActive >>= fun _ => t.assertWithinLimits now with
  | .error error => (t, .error error)
  | .ok () =>
      match commitRoot t with
      | .error error => ({ t with status := .rolledBack }, .error error)
      | .ok committed => ({ t with status := .committed }, .ok committed)

/-! ### The first root -/

section

variable {σ : Type} [DecidableEq σ] (graph : JsGraph σ)

/-- One turn of the loop over the seed, in the constructor.  `options.schema[name]` is looked
up among the schema's own properties: the type of the options has an entry for every
collection of the seed, so no name is left to what `Object.prototype` may hold under it. -/
def seedCollection (schemas : List (JsString × CollectionSchema)) (revision : ℕ)
    (collections : OrderedMap JsString StoredCollection) (entry : JsString × List σ) :
    Except NewtonError (OrderedMap JsString StoredCollection) :=
  match Assoc.get? schemas entry.1 with
  | none => .error (.invalidArgument
      (js "Missing collection data or schema for " ++ entry.1))
  | some schema => do
      let _ ← resolvedLimits schema
      let collection ← createStoredCollection graph entry.1 entry.2 schema revision
      return collections.set entry.1 collection

/-- Every schema has a collection in the seed. -/
def checkSchemaNames (seed : List (JsString × List σ)) (name : JsString) :
    Except NewtonError Unit :=
  if hasOwn seed name then .ok ()
  else .error (.invalidArgument (js "Schema references unknown collection " ++ name))

/-- The first root: the seed's collections, checked, at the stored revision.  The schemas are
the own properties of an object whose type names every collection of the seed
(`seedCollection`). -/
def createRoot (seed : List (JsString × List σ)) (schemas : List (JsString × CollectionSchema))
    (revision : ℕ) : Except NewtonError Root := do
  let collections ← seed.foldlM (seedCollection graph schemas revision) .empty
  (schemas.map Prod.fst).forM (checkSchemaNames seed)
  verifyCollections collections
  return { collections, revision }

end

end NewtonDB
