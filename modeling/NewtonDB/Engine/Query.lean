/-
# Queries of a committed collection

`choosePlan`, `compareJson` and `_query` of `Database` in `src/database.ts`, from
the lookup of the collection on.  A query reads its candidates through the primary
key, through a secondary index or off the whole order, then either stops at its
limit or sorts and slices.

The number `compareJson` returns is only ever compared with zero; its sign is an
`Ordering` here.
-/

import NewtonDB.Engine.Transaction

namespace NewtonDB

/-- `QueryPlan`. -/
inductive QueryPlan where
  | primary
  | scan
  | secondary (index : JsString)
  deriving DecidableEq

/-- The direction of an order field. -/
inductive SortDirection where
  | asc
  | desc
  deriving DecidableEq

/-- An order field of a query. -/
structure OrderField where
  direction : SortDirection
  path : PropertyPath
  deriving DecidableEq

/-- `QueryOptions`. -/
structure QueryOptions where
  limit : Option ℕ
  offset : ℕ
  order : Option (List OrderField)
  deriving DecidableEq

/-- `QueryExecution`. -/
structure QueryExecution where
  documents : List JsonObject
  plan : QueryPlan
  deriving DecidableEq

/-- `maxSortCandidates`. -/
def maxSortCandidates : ℕ := 100000

/-! ### The order of results -/

/-- The place of a value's type in `typeOrder`. -/
def Json.typeOrder : Json → ℕ
  | .prim (.bool _) => 0
  | .prim (.number _) => 1
  | .prim (.string _) => 2
  | _ => 3

/-- `left === right` on values of documents; two objects are at most of one rank, so
their identity does not matter. -/
def identical : Option Json → Option Json → Bool
  | none, none => true
  | some (.prim a), some (.prim b) => a.same b
  | _, _ => false

/-- `compareJson`. -/
def compareJson (left right : Option Json) : Ordering :=
  if identical left right then .eq
  else
    match left, right with
    | none, _ => .gt
    | _, none => .lt
    | some (.prim .null), _ => .gt
    | _, some (.prim .null) => .lt
    | some (.prim (.number a)), some (.prim (.number b)) =>
        if a.lt b then .lt else if b.lt a then .gt else .eq
    | some (.prim (.string a)), some (.prim (.string b)) => if a < b then .lt else .gt
    | some (.prim (.bool a)), some (.prim (.bool _)) => if a then .gt else .lt
    | some a, some b => compare a.typeOrder b.typeOrder

/-- A comparison in the direction of an order field. -/
def SortDirection.apply : SortDirection → Ordering → Ordering
  | .asc, compared => compared
  | .desc, compared => compared.swap

/-- The primary key as the value it is. -/
def PrimaryKey.json : PrimaryKey → Json
  | .number (.finite n) => .prim (.number n)
  | .number _ => .prim .null
  | .string s => .prim (.string s)

/-- The key of a document; a stored document has one. -/
def sortKey (schema : CollectionSchema) (document : JsonObject) : Option Json :=
  (documentKey document schema).toOption.map PrimaryKey.json

/-- The comparison of two documents: the order fields, then the primary key. -/
def compareDocuments (schema : CollectionSchema) :
    List OrderField → JsonObject → JsonObject → Ordering
  | [], left, right => compareJson (sortKey schema left) (sortKey schema right)
  | field :: order, left, right =>
      (field.direction.apply (compareJson (readPath field.path (.obj left))
        (readPath field.path (.obj right)))).then (compareDocuments schema order left right)

/-- `documents.map(..).sort(..).map(..)`: equal documents keep their places. -/
def sortDocuments (schema : CollectionSchema) (order : List OrderField)
    (documents : List JsonObject) : List JsonObject :=
  (documents.zipIdx.mergeSort fun left right =>
    ((compareDocuments schema order left.1 right.1).then (compare left.2 right.2)).isLE).map Prod.fst

/-! ### Candidates -/

namespace StoredCollection

variable (collection : StoredCollection)

/-- `choosePlan`. -/
def choosePlan : Where → QueryPlan
  | .comparison .eq path (.scalar _) =>
      if samePath path [.name collection.schema.primaryKey] then .primary
      else
        match collection.indexes.values.find? fun index => samePath path index.path with
        | some index => .secondary index.name
        | none => .scan
  | _ => .scan

/-- `positions.get(key) ?? Number.MAX_SAFE_INTEGER`. -/
def position (key : JsString) : ℕ := (collection.positions.get key).getD (2 ^ 53 - 1)

/-- The keys a plan looks at, in insertion order. -/
def candidateKeys : QueryPlan → Where → List JsString
  | .primary, .comparison _ _ (.scalar value) =>
      -- a value that is no primary key has no candidates
      match (Json.prim value).primaryKey? with
      | some key => (encodeKey key).toOption.toList
      | none => []
  | .secondary index, .comparison _ _ (.scalar value) =>
      match (collection.indexes.get? index).bind (·.buckets.get (encodeIndexValue value)) with
      | some bucket =>
          bucket.keys.mergeSort fun left right => collection.position left ≤ collection.position right
      | none => []
  | _, _ => collection.order

/-! ### Execution -/

/-- The loop of an unordered query, with the matches so far and the results so
far. -/
def collectDocuments (test : JsonObject → Bool) (options : QueryOptions) :
    List JsString → ℕ → List JsonObject → Except NewtonError (List JsonObject)
  | [], _, documents => .ok documents
  | key :: rest, matched, documents =>
      match (collection.records.get key).filter test with
      | none => collectDocuments test options rest matched documents
      | some document =>
          if matched < options.offset then
            collectDocuments test options rest (matched + 1) documents
          else if maxQueryResults ≤ documents.length then
            .error (.queryValidation .resultLimit (js "/execution"))
          else if options.limit.elim false (· ≤ documents.length + 1) then
            .ok (documents ++ [document])
          else collectDocuments test options rest (matched + 1) (documents ++ [document])

/-- The end of an ordered query: its documents sorted and sliced. -/
def orderedDocuments (test : JsonObject → Bool) (options : QueryOptions) (order : List OrderField)
    (keys : List JsString) : Except NewtonError (List JsonObject) :=
  let documents := (keys.filterMap collection.records.get).filter test
  if maxSortCandidates < documents.length then
    .error (.queryValidation .sortLimit (js "/execution"))
  else
    let sorted := sortDocuments collection.schema order documents
    let stop := options.limit.elim sorted.length (options.offset + ·)
    if maxQueryResults + options.offset < min sorted.length stop then
      .error (.queryValidation .resultLimit (js "/execution"))
    else .ok ((sorted.take stop).drop options.offset)

/-- `_query` of a collection, given the compiled condition. -/
def query (ast : Where) (test : JsonObject → Bool) (options : QueryOptions) :
    Except NewtonError QueryExecution :=
  let plan := collection.choosePlan ast
  let keys := collection.candidateKeys plan ast
  if options.limit = some 0 then .ok { documents := [], plan }
  else if maxQueryCandidates < keys.length then
    .error (.queryValidation .candidateLimit (js "/execution"))
  else
    (match options.order with
      | none => collection.collectDocuments test options keys 0 []
      | some order => collection.orderedDocuments test options order keys).map
        fun documents => { documents, plan }

end StoredCollection

/-- `_query` after `#assertOpen`. -/
def Root.query (root : Root) (name : JsString) (condition : JsInput) (options : QueryOptions) :
    Except NewtonError QueryExecution := do
  let collection ← root.stored name
  let (ast, test) ← compileWhere condition
  collection.query ast test options

end NewtonDB
