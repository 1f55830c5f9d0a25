/-
# Errors

The failures of `src/errors.ts` and `src/json.ts` with the data they carry, and
the small types that data is made of: path tokens, primary keys and commit
receipts.  `callback` is an error thrown by user code that the engine passes
through unchanged, and `typeError` one that the language throws where a value is
called or constructed that cannot be.
-/

import NewtonDB.Js.Json
import NewtonDB.Lib.Except

namespace NewtonDB

/-- A token of a property path (`PathToken`). -/
inductive PathToken where
  | index (value : JsNumber)
  | name (value : JsString)
  deriving DecidableEq

/-- A property path (`PropertyPath`). -/
abbrev PropertyPath := List PathToken

/-- A primary key as a caller passes it (`PrimaryKey`). -/
inductive PrimaryKey where
  | number (value : JsNumber)
  | string (value : JsString)
  deriving DecidableEq

/-- `left === right` on primary keys. -/
def PrimaryKey.same : PrimaryKey → PrimaryKey → Bool
  | .number a, .number b => a.same b
  | .string a, .string b => a == b
  | _, _ => false

/-- The codes of `JsonValidationIssue`. -/
inductive JsonIssueCode where
  | accessor
  | cycle
  | depthLimit
  | documentSizeLimit
  | invalidNumber
  | invalidPrototype
  | nodeLimit
  | notObject
  | sparseArray
  | stringSizeLimit
  | unsupportedValue
  deriving DecidableEq

/-- Why a value is not an acceptable document (`JsonValidationIssue`). -/
structure JsonValidationIssue where
  code : JsonIssueCode
  path : PropertyPath
  message : JsString
  deriving DecidableEq

/-- Why a query is refused (`QueryValidationIssue`). -/
inductive QueryValidationIssue where
  | candidateLimit
  | depthLimit
  | invalidBoolean
  | invalidNode
  | invalidOperator
  | invalidPath
  | invalidValue
  | nodeLimit
  | resultLimit
  | scalarSizeLimit
  | sortLimit
  deriving DecidableEq

/-- What a commit promises about storage. -/
inductive Durability where
  | memory
  | persisted
  deriving DecidableEq

/-- A key the database made up (`GeneratedKey`). -/
structure GeneratedKey where
  collection : JsString
  primaryKey : JsString
  deriving DecidableEq

/-- What a commit did (`CommitReceipt`). -/
structure CommitReceipt where
  affected : ℕ
  databaseId : JsString
  durability : Durability
  generatedKeys : List GeneratedKey
  revision : ℕ
  transactionId : JsString
  deriving DecidableEq

/-- A failure of the library; `plain` is an `Error` outside its own classes. -/
inductive NewtonError where
  | closed
  | conflict (collections : List JsString)
  | corruptStorage (message : JsString)
  | duplicateKey (collection : JsString) (key : PrimaryKey)
  | duplicateUniqueIndex (collection index : JsString)
  | immutablePrimaryKey (collection : JsString)
  | invariantViolation (message : JsString)
  | invalidArgument (message : JsString)
  | invalidJson (issue : JsonValidationIssue)
  | notFound (collection : JsString) (key : PrimaryKey)
  | persistence (receipt : CommitReceipt)
  | plain (message : JsString)
  | queryValidation (issue : QueryValidationIssue) (location : JsString)
  | schemaValidation (collection : JsString)
  | storage (message : JsString)
  | storageConflict (message : JsString)
  | transactionCallback (message : JsString)
  | transactionState (message : JsString)
  | callback
  | typeError
  deriving DecidableEq

/-- `new StorageConflictError()` without a message. -/
def NewtonError.generationConflict : NewtonError :=
  .storageConflict (js "The storage generation changed unexpectedly")

end NewtonDB
