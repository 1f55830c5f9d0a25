/-
# Transactions

`Transaction` of `src/database.ts`: the state of one transaction and its
operations, each a function of the root that is current when it is called, of the
clock and of what the key generator does.  An operation that throws still moves
the state: the operation is counted, the collection is touched and cloned.
-/

import NewtonDB.Engine.Write
import NewtonDB.Query

namespace NewtonDB

/-- The committed state: the collections, and the revision of the last commit
that changed them. -/
structure Root where
  collections : OrderedMap JsString StoredCollection
  revision : ℕ

/-- `#stored`. -/
def Root.stored (root : Root) (name : JsString) : Except NewtonError StoredCollection :=
  match root.collections.get? name with
  | some collection => .ok collection
  | none => .error (.invalidArgument (js "Unknown collection " ++ name))

/-- `TransactionStatus`. -/
inductive TransactionStatus where
  | active
  | committed
  | rolledBack
  deriving DecidableEq

/-- The name of a status. -/
def TransactionStatus.text : TransactionStatus → JsString
  | .active => js "active"
  | .committed => js "committed"
  | .rolledBack => js "rolledBack"

/-- The state of a transaction (`Transaction`). -/
structure Transaction where
  id : JsString
  baseRevisions : OrderedMap JsString ℕ
  changes : List Change
  generatedKeys : List GeneratedKey
  createdAt : ℕ
  operations : ℕ
  status : TransactionStatus
  working : OrderedMap JsString WorkingCollection
  limits : TransactionLimits

/-- A call on a transaction, with what it reads from its surroundings. -/
inductive TransactionCall where
  | collection (name : JsString)
  | get (name : JsString) (primaryKey : PrimaryKey)
  | find (name : JsString) (condition : JsInput)
  | insert (name : JsString) (document : JsInput) (generated : GeneratorOutcome)
  | upsert (name : JsString) (document : JsInput) (generated : GeneratorOutcome)
  | update (name : JsString) (primaryKey : PrimaryKey) (patch : JsInput)
  | delete (name : JsString) (primaryKey : PrimaryKey)

/-- What a call returns. -/
inductive CallResult where
  | done
  | document (value : Option JsonObject)
  | documents (values : List JsonObject)
  | key (value : PrimaryKey)
  deriving DecidableEq

/-- `maxQueryCandidates`. -/
def maxQueryCandidates : ℕ := 100000

/-- `maxQueryResults`. -/
def maxQueryResults : ℕ := 100000

/-- The part of `_query` of a transaction that reads the collection. -/
def findDocuments {K : Type} (order : List K) (records : K → Option JsonObject)
    (condition : JsInput) : Except NewtonError (List JsonObject) :=
  if maxQueryCandidates < order.length then
    .error (.queryValidation .candidateLimit (js "/transaction"))
  else do
    let (_, test) ← compileWhere condition
    let documents := (order.filterMap records).filter test
    if maxQueryResults < documents.length then
      .error (.queryValidation .resultLimit (js "/transaction"))
    else .ok documents

namespace Transaction

/-- A new transaction (`beginTransaction`). -/
def new (id : JsString) (createdAt : ℕ) (limits : TransactionLimits) : Transaction where
  id
  baseRevisions := .empty
  changes := []
  generatedKeys := []
  createdAt
  operations := 0
  status := .active
  working := .empty
  limits

/-- `#assertActive`. -/
def assertActive (t : Transaction) : Except NewtonError Unit :=
  if t.status = .active then .ok ()
  else .error (.transactionState (js "Transaction is " ++ t.status.text))

/-- `#assertWithinLimits`. -/
def assertWithinLimits (t : Transaction) (now : ℕ) : Except NewtonError Unit :=
  if t.createdAt + t.limits.maxAgeMs < now then
    .error (.transactionState (js "Transaction exceeded its maximum age"))
  else .ok ()

/-- `#recordOperation`. -/
def recordOperation (t : Transaction) (now : ℕ) : Transaction × Except NewtonError Unit :=
  match t.assertActive >>= fun _ => t.assertWithinLimits now with
  | .error error => (t, .error error)
  | .ok () =>
      ({ t with operations := t.operations + 1 },
        if t.limits.maxOperations < t.operations + 1 then
          .error (.transactionState (js "Transaction exceeded its operation limit"))
        else .ok ())

/-- `#touchCollection`. -/
def touchCollection (t : Transaction) (root : Root) (now : ℕ) (name : JsString) :
    Transaction × Except NewtonError StoredCollection :=
  match t.assertActive >>= fun _ => t.assertWithinLimits now >>= fun _ => root.stored name with
  | .error error => (t, .error error)
  | .ok stored =>
      if t.baseRevisions.has name then (t, .ok stored)
      else if t.limits.maxReadCollections ≤ t.baseRevisions.size then
        (t, .error (.transactionState (js "Transaction exceeded its read-collection limit")))
      else ({ t with baseRevisions := t.baseRevisions.set name stored.revision }, .ok stored)

/-- `#writable`. -/
def writable (t : Transaction) (root : Root) (now : ℕ) (name : JsString) :
    Transaction × Except NewtonError WorkingCollection :=
  match t.assertActive with
  | .error error => (t, .error error)
  | .ok () =>
      match t.working.get? name with
      | some existing => (t, .ok existing)
      | none =>
          match t.touchCollection root now name with
          | (t, .error error) => (t, .error error)
          | (t, .ok stored) =>
              ({ t with working := t.working.set name stored.clone }, .ok stored.clone)

/-- `#working.get(name) ?? database._stored(name)`: the order and the records the
transaction sees. -/
def current (t : Transaction) (name : JsString) (stored : StoredCollection) :
    List JsString × (JsString → Option JsonObject) :=
  match t.working.get? name with
  | some collection => (collection.order, collection.records.get)
  | none => (stored.order, stored.records.get)

/-- `_read`. -/
def read (t : Transaction) (root : Root) (now : ℕ) (name : JsString) (primaryKey : PrimaryKey) :
    Transaction × Except NewtonError CallResult :=
  match t.touchCollection root now name with
  | (t, .error error) => (t, .error error)
  | (t, .ok stored) =>
      (t, (encodeKey primaryKey).map fun encoded => .document ((t.current name stored).2 encoded))

/-- `_query`. -/
def query (t : Transaction) (root : Root) (now : ℕ) (name : JsString) (condition : JsInput) :
    Transaction × Except NewtonError CallResult :=
  match t.touchCollection root now name with
  | (t, .error error) => (t, .error error)
  | (t, .ok stored) =>
      let collection := t.current name stored
      (t, (findDocuments collection.1 collection.2 condition).map .documents)

/-- What `_insert`, `_update` and `_delete` have in common: the operation is
counted, the body runs on the writable collection, and what it did is recorded. -/
def write (t : Transaction) (root : Root) (now : ℕ) (name : JsString)
    (body : WorkingCollection → WorkingCollection × Except NewtonError Written) :
    Transaction × Except NewtonError Written :=
  match t.recordOperation now with
  | (t, .error error) => (t, .error error)
  | (t, .ok ()) =>
      match t.writable root now name with
      | (t, .error error) => (t, .error error)
      | (t, .ok collection) =>
          let t' := { t with working := t.working.set name (body collection).1 }
          match (body collection).2 with
          | .error error => (t', .error error)
          | .ok written =>
              ({ t' with
                  changes := t.changes ++ [written.change]
                  generatedKeys := t.generatedKeys ++
                    written.generatedKey.toList.map fun key => ⟨name, key⟩ },
                .ok written)

/-- `_insert`. -/
def insert (t : Transaction) (root : Root) (now : ℕ) (name : JsString) (document : JsInput)
    (upsert : Bool) (generated : GeneratorOutcome) : Transaction × Except NewtonError CallResult :=
  let r := t.write root now name (·.insert name document upsert generated)
  (r.1, r.2.map fun written => .key written.change.primaryKey)

/-- `_update`. -/
def update (t : Transaction) (root : Root) (now : ℕ) (name : JsString) (primaryKey : PrimaryKey)
    (patch : JsInput) : Transaction × Except NewtonError CallResult :=
  let r := t.write root now name (·.update name primaryKey patch)
  (r.1, r.2.map fun _ => .done)

/-- `_delete`. -/
def delete (t : Transaction) (root : Root) (now : ℕ) (name : JsString) (primaryKey : PrimaryKey) :
    Transaction × Except NewtonError CallResult :=
  let r := t.write root now name (·.delete name primaryKey)
  (r.1, r.2.map fun _ => .done)

/-- One call on the transaction, while `root` is current. -/
def call (t : Transaction) (root : Root) (now : ℕ) :
    TransactionCall → Transaction × Except NewtonError CallResult
  | .collection name => (t, t.assertActive >>= fun _ => (root.stored name).map fun _ => .done)
  | .get name primaryKey => t.read root now name primaryKey
  | .find name condition => t.query root now name condition
  | .insert name document generated => t.insert root now name document false generated
  | .upsert name document generated => t.insert root now name document true generated
  | .update name primaryKey patch => t.update root now name primaryKey patch
  | .delete name primaryKey => t.delete root now name primaryKey

/-- `rollback`.  The array of generated keys is dropped as well; it stays here, since a
commit that is under way still holds it and nothing else reads it any more. -/
def rollback (t : Transaction) : Transaction :=
  if t.status = .active then
    { t with status := .rolledBack, working := .empty, changes := [] }
  else t

/-- The seals a commit puts on the working collections it publishes. -/
def sealWorking (t : Transaction) : Transaction :=
  { t with working := t.working.mapVals ({ · with isSealed := true }) }

end Transaction

end NewtonDB
