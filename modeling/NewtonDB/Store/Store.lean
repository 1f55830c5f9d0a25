/-
# The store

What the engine is for, without its data structures: a collection is a list of
documents by key, in insertion order, and the operations are the obvious ones.
An operation is refused when the document or the patch is invalid (`isValid`, `overlay`),
a key is taken or absent, the key would change, an indexed path leads to something that
is not a primitive, or another document has the same value in a unique index, decided by
looking at the documents.  Nothing here calls a function of the engine that validates,
stores or indexes a document.

`StoreTransaction` adds the limits of a transaction: its age, the number of its
operations and the number of collections it touches.
-/

import NewtonDB.Store.Validity
import NewtonDB.Engine.Commit

namespace NewtonDB

/-- Documents by key, in insertion order. -/
abbrev Documents := OrderedMap Key JsonObject

/-- The path leads to a primitive or nowhere. -/
def resolvesAt (path : PropertyPath) (document : JsonObject) : Bool :=
  match readPath path (.obj document) with
  | some value => value.prim?.isSome
  | none => true

/-- Two documents have strictly equal primitives at a path. -/
def sameAt (path : PropertyPath) (a b : JsonObject) : Bool :=
  match readPath path (.obj a) >>= Json.prim?, readPath path (.obj b) >>= Json.prim? with
  | some p, some q => p.same q
  | _, _ => false

/-- An index accepts a document under a key. -/
def Documents.accepts (documents : Documents) (key : Key) (document : JsonObject)
    (index : SecondaryIndex) : Bool :=
  resolvesAt index.path document &&
    !(index.unique && documents.entries.any fun e =>
      decide (e.1 ≠ key) && sameAt index.path e.2 document)

/-- A collection of the store. -/
structure StoreCollection where
  schema : CollectionSchema
  documents : Documents

namespace StoreCollection

/-- All indexes accept a document under a key. -/
def accepts (c : StoreCollection) (key : Key) (document : JsonObject) : Bool :=
  c.schema.indexes.all (c.documents.accepts key document)

/-- The collection with a document appended, or replaced in place. -/
def put (c : StoreCollection) (key : Key) (document : JsonObject) : StoreCollection :=
  { c with documents := c.documents.set key document }

/-- Insert a document, or upsert it. -/
def insert (c : StoreCollection) (input : JsInput) (upsert : Bool)
    (generated : GeneratorOutcome) : Option (PrimaryKey × StoreCollection) := do
  let (document, primaryKey) ← c.schema.prepare input generated
  let key ← primaryKey.toKey?
  if c.documents.has key && !upsert then none
  else if c.accepts key document then some (primaryKey, c.put key document)
  else none

/-- Update a document: the patch laid over it in place. -/
def update (c : StoreCollection) (primaryKey : PrimaryKey) (patch : JsInput) :
    Option StoreCollection := do
  let key ← primaryKey.toKey?
  let before ← c.documents.get? key
  let after ← (patch.overlay before).filter c.schema.isValid
  if keyOf c.schema after ≠ some key then none
  else if c.accepts key after then some (c.put key after)
  else none

/-- Delete a document. -/
def delete (c : StoreCollection) (primaryKey : PrimaryKey) : Option StoreCollection := do
  let key ← primaryKey.toKey?
  if c.documents.has key then some { c with documents := c.documents.delete key } else none

end StoreCollection

/-- The collections of the store. -/
abbrev Store := OrderedMap JsString StoreCollection

/-! ### Transactions -/

/-- A transaction on the store. -/
structure StoreTransaction where
  createdAt : ℕ
  operations : ℕ
  touched : List JsString
  store : Store

namespace StoreTransaction

variable (limits : TransactionLimits)

/-- The transaction is not too old. -/
def alive (t : StoreTransaction) (now : ℕ) : Bool := now ≤ t.createdAt + limits.maxAgeMs

/-- Count a write. -/
def count (t : StoreTransaction) (now : ℕ) : Option StoreTransaction :=
  if t.alive limits now && decide (t.operations + 1 ≤ limits.maxOperations) then
    some { t with operations := t.operations + 1 }
  else none

/-- Touch a collection. -/
def touch (t : StoreTransaction) (now : ℕ) (name : JsString) :
    Option (StoreTransaction × StoreCollection) :=
  if !t.alive limits now then none
  else
    match t.store.get? name with
    | none => none
    | some c =>
        if t.touched.contains name then some (t, c)
        else if limits.maxReadCollections ≤ t.touched.length then none
        else some ({ t with touched := t.touched ++ [name] }, c)

/-- Write to a collection. -/
def write (t : StoreTransaction) (now : ℕ) (name : JsString)
    (f : StoreCollection → Option (CallResult × StoreCollection)) :
    Option (StoreTransaction × CallResult) := do
  let t ← t.count limits now
  let (t, c) ← t.touch limits now name
  let (result, c) ← f c
  return ({ t with store := t.store.set name c }, result)

/-- Insert into a collection, or upsert. -/
def insert (t : StoreTransaction) (now : ℕ) (name : JsString) (document : JsInput) (upsert : Bool)
    (generated : GeneratorOutcome) : Option (StoreTransaction × CallResult) :=
  t.write limits now name fun c =>
    (c.insert document upsert generated).map (Prod.map .key id)

/-- One call on the transaction. -/
def call (t : StoreTransaction) (now : ℕ) : TransactionCall → Option (StoreTransaction × CallResult)
  | .collection name => if t.store.has name then some (t, .done) else none
  | .get name primaryKey => do
      let (t, c) ← t.touch limits now name
      let key ← primaryKey.toKey?
      return (t, .document (c.documents.get? key))
  | .find name condition => do
      let (t, c) ← t.touch limits now name
      let found ← (findDocuments c.documents.keys c.documents.get? condition).toOption
      return (t, .documents found)
  | .insert name document generated => t.insert limits now name document false generated
  | .upsert name document generated => t.insert limits now name document true generated
  | .update name primaryKey patch =>
      t.write limits now name fun c => (c.update primaryKey patch).map (.done, ·)
  | .delete name primaryKey =>
      t.write limits now name fun c => (c.delete primaryKey).map (.done, ·)

/-- The calls in order until one is refused: the results so far, and the
transaction if none was. -/
def calls (t : StoreTransaction) : List (ℕ × TransactionCall) →
    List CallResult × Option StoreTransaction
  | [] => ([], some t)
  | (now, c) :: rest =>
      match t.call limits now c with
      | none => ([], none)
      | some (t, result) => (result :: (calls t rest).1, (calls t rest).2)

end StoreTransaction

/-- A transaction as its user runs it: when it begins, what it calls, when it
commits. -/
structure TransactionScript where
  id : JsString
  begun : ℕ
  calls : List (ℕ × TransactionCall)
  committed : ℕ

/-- What a script showed its user: the results up to the first refusal, and
whether it committed. -/
structure ScriptOutcome where
  results : List CallResult
  committed : Bool
  deriving DecidableEq

/-- A script on the store: all or nothing. -/
def Store.runScript (limits : TransactionLimits) (store : Store) (script : TransactionScript) :
    Store × ScriptOutcome :=
  let t : StoreTransaction := { createdAt := script.begun, operations := 0, touched := [], store }
  match t.calls limits script.calls with
  | (results, none) => (store, { results, committed := false })
  | (results, some t) =>
      if t.alive limits script.committed then (t.store, { results, committed := true })
      else (store, { results, committed := false })

/-- Scripts one after the other: the store and the outcome after each. -/
def Store.runScripts (limits : TransactionLimits) : Store → List TransactionScript →
    List (Store × ScriptOutcome)
  | _, [] => []
  | store, script :: rest =>
      store.runScript limits script :: runScripts limits (store.runScript limits script).1 rest

/-! ### The first store -/

section

variable {σ : Type} (graph : JsGraph σ)

/-- One document of a seed. -/
def StoreCollection.addSeed (c : StoreCollection) (input : σ) : Option StoreCollection := do
  let document ← (graph.document? input).filter c.schema.isValid
  let key ← keyOf c.schema document
  if c.documents.has key then none
  else if c.accepts key document then some (c.put key document)
  else none

/-- One collection of a seed; its limits and its indexes must be well defined. -/
def Store.addSeed (schemas : List (JsString × CollectionSchema)) (store : Store)
    (entry : JsString × List σ) : Option Store := do
  let schema ← Assoc.get? schemas entry.1
  let _ ← (resolvedLimits schema).toOption
  let _ ← (createIndexes entry.1 schema).toOption
  let c ← entry.2.foldlM (StoreCollection.addSeed graph) { schema, documents := .empty }
  return store.set entry.1 c

/-- The store of a seed. -/
def Store.ofSeed (seed : List (JsString × List σ)) (schemas : List (JsString × CollectionSchema)) :
    Option Store := do
  let store ← seed.foldlM (Store.addSeed graph schemas) .empty
  if (schemas.map Prod.fst).all fun name => hasOwn seed name then some store else none

end

/-! ### The same scripts on the engine -/

/-- The calls of a script on a transaction of the engine, while `root` is current,
until one throws. -/
def Transaction.calls (root : Root) : Transaction → List (ℕ × TransactionCall) →
    List CallResult × Option Transaction
  | t, [] => ([], some t)
  | t, (now, c) :: rest =>
      match t.call root now c with
      | (_, .error _) => ([], none)
      | (t, .ok result) => (result :: (calls root t rest).1, (calls root t rest).2)

/-- A script on the engine.  The first call that throws rolls the transaction back. -/
def Root.runScript (limits : TransactionLimits) (options : CommitOptions) (root : Root)
    (script : TransactionScript) : Root × ScriptOutcome :=
  match (Transaction.new script.id script.begun limits).calls root script.calls with
  | (results, none) => (root, { results, committed := false })
  | (results, some t) =>
      match (t.commit script.committed (root.commit options)).2 with
      | .ok committed => (committed.root, { results, committed := true })
      | .error _ => (root, { results, committed := false })

/-- Scripts one after the other: the root and the outcome after each. -/
def Root.runScripts (limits : TransactionLimits) (options : CommitOptions) :
    Root → List TransactionScript → List (Root × ScriptOutcome)
  | _, [] => []
  | root, script :: rest =>
      root.runScript limits options script ::
        runScripts limits options (root.runScript limits options script).1 rest

end NewtonDB
