/-
# Collection schemas and limits

`CollectionSchema` of `src/schema.ts` and the numeric limits of `src/json.ts` and
`src/database.ts`.  A limit is overridden by a number below its default, checked
by `resolveLimit`; the resolved limits are natural numbers.
-/

import NewtonDB.Path

namespace NewtonDB

/-- One field of `resolveLimits`: the override, or the default that is also its
ceiling. -/
def resolveLimit (label name : JsString) (ceiling : ℕ) (override : Option JsNumber) :
    Except NewtonError ℕ :=
  match override with
  | none => .ok ceiling
  | some value =>
      match value.toIndex? with
      | some n =>
          if n = 0 || ceiling < n then .error refused else .ok n
      | none => .error refused
where
  refused := .invalidArgument (label ++ js " limit " ++ name ++
    js " must be a positive safe integer no greater than " ++ natText ceiling)

/-- A resolved limit is positive and at most its default.  An override is an integer in this
range, or it is refused. -/
theorem resolveLimit_bounds {label name : JsString} {ceiling n : ℕ} {override : Option JsNumber}
    (hc : 0 < ceiling) (h : resolveLimit label name ceiling override = .ok n) :
    0 < n ∧ n ≤ ceiling := by
  unfold resolveLimit at h
  split at h
  · obtain rfl := Except.ok.inj h; exact ⟨hc, le_rfl⟩
  · split at h
    · split_ifs at h with hb
      obtain rfl := Except.ok.inj h
      simp at hb
      omega
    · simp at h

/-- Bounds on a document (`JsonLimits`). -/
structure JsonLimits where
  maxDepth : ℕ
  maxDocumentBytes : ℕ
  maxNodes : ℕ
  maxStringBytes : ℕ
  deriving DecidableEq

/-- `defaultJsonLimits`. -/
def defaultJsonLimits : JsonLimits where
  maxDepth := 64
  maxDocumentBytes := 1048576
  maxNodes := 100000
  maxStringBytes := 262144

/-- `Partial<JsonLimits>`. -/
structure JsonLimitOverrides where
  maxDepth : Option JsNumber
  maxDocumentBytes : Option JsNumber
  maxNodes : Option JsNumber
  maxStringBytes : Option JsNumber
  deriving DecidableEq

/-- No override. -/
def JsonLimitOverrides.none : JsonLimitOverrides := ⟨.none, .none, .none, .none⟩

/-- How a collection makes up missing primary keys (`generatePrimaryKey`): with
the random identifiers of the platform, or with a function of the caller. -/
inductive KeyGenerator where
  | random
  | custom
  deriving DecidableEq

/-- A declared index (`SecondaryIndex`). -/
structure SecondaryIndex where
  name : JsString
  path : PropertyPath
  unique : Bool
  deriving DecidableEq

/-- What a collection holds (`CollectionSchema`).  The validator is a pure
function of the document: `true` when it returns, `false` when it throws. -/
structure CollectionSchema where
  generatePrimaryKey : Option KeyGenerator
  indexes : List SecondaryIndex
  primaryKey : JsString
  validate : Option (JsonObject → Bool)
  limits : JsonLimitOverrides

/-- `resolvedLimits` of a collection. -/
def resolvedLimits (schema : CollectionSchema) : Except NewtonError JsonLimits := do
  let resolve := resolveLimit (js "JSON")
  let d := defaultJsonLimits
  let maxDepth ← resolve (js "maxDepth") d.maxDepth schema.limits.maxDepth
  let maxDocumentBytes ←
    resolve (js "maxDocumentBytes") d.maxDocumentBytes schema.limits.maxDocumentBytes
  let maxNodes ← resolve (js "maxNodes") d.maxNodes schema.limits.maxNodes
  let maxStringBytes ← resolve (js "maxStringBytes") d.maxStringBytes schema.limits.maxStringBytes
  return { maxDepth, maxDocumentBytes, maxNodes, maxStringBytes }

/-- Bounds on a transaction (`TransactionLimits`). -/
structure TransactionLimits where
  maxAgeMs : ℕ
  maxOperations : ℕ
  maxReadCollections : ℕ
  deriving DecidableEq

/-- `defaultTransactionLimits`. -/
def defaultTransactionLimits : TransactionLimits where
  maxAgeMs := 30000
  maxOperations := 10000
  maxReadCollections := 1000

end NewtonDB
