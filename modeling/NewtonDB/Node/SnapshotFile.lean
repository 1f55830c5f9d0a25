/-
# The snapshot file

The bytes `JsonFileAdapter` of `src/node/json-file-adapter.ts` writes for a snapshot,
and the checks of `#readSnapshotAt` on bytes that come back.  A snapshot is the plain
data that is written and read, so that its checksum is that of what is in the file.

`Platform` holds what the language and its library supply: `JSON.parse`, and SHA-256
of a text as hexadecimal digits.
-/

import NewtonDB.Storage
import NewtonDB.Js.JsonData
import NewtonDB.Node.JsonDuplicates

namespace NewtonDB

/-- What the language and its library supply. -/
structure Platform where
  parse : JsString → Option Json
  sha256 : JsString → JsString

/-! ### Text of any bytes -/

/-- Whether a second byte may follow a first one. -/
def isSecondByte (first second : UInt8) : Bool :=
  let a := first.toNat
  let low := if a = 0xE0 then 0xA0 else if a = 0xF0 then 0x90 else 0x80
  let high := if a = 0xED then 0x9F else if a = 0xF4 then 0x8F else 0xBF
  0xE0 ≤ a && a ≤ 0xF4 && low ≤ second.toNat && second.toNat ≤ high

/-- How many bytes one replacement character stands for. -/
def replacedLength : List UInt8 → ℕ
  | a :: b :: rest =>
      if isSecondByte a b then
        if 0xF0 ≤ a.toNat && (rest.head?.bind continuation?).isSome then 3 else 2
      else 1
  | _ => 1

/-- The text of bytes, with `fuel` for each of its characters. -/
def replaceScalars : ℕ → List UInt8 → JsString
  | _, [] => []
  | 0, _ :: _ => []
  | fuel + 1, bytes =>
      match decodeScalar bytes with
      | some (n, rest) => scalarUnits n ++ replaceScalars fuel rest
      | none => 0xFFFD :: replaceScalars fuel (bytes.drop (replacedLength bytes))

/-- `readFile(name, "utf8")`: what is no UTF-8 is replaced by `U+FFFD`. -/
def utf8Text (bytes : List UInt8) : JsString := replaceScalars bytes.length bytes

/-- **Bytes that are well formed are decoded alike**, whether the decoder is fatal or replaces
what is not. -/
theorem replaceScalars_of_decodeScalars : ∀ {fuel : ℕ} {bytes : List UInt8} {s : JsString},
    decodeScalars fuel bytes = some s → replaceScalars fuel bytes = s
  | 0, [], s, h => Option.some.inj h
  | _ + 1, [], s, h => Option.some.inj h
  | fuel + 1, b :: rest, s, h => by
      rw [decodeScalars] at h
      obtain ⟨⟨n, left⟩, hn, h⟩ := Option.bind_eq_some_iff.1 h
      obtain ⟨t, ht, rfl⟩ := Option.map_eq_some_iff.1 h
      rw [replaceScalars, hn]
      dsimp only
      rw [replaceScalars_of_decodeScalars ht]
      all_goals simp

/-- **Text that was written is read.**  A text that is well formed has no lone surrogate to be
replaced. -/
theorem utf8Text_utf8Encode {s : JsString} (h : isWellFormed s) : utf8Text (utf8Encode s) = s :=
  replaceScalars_of_decodeScalars (utf8Decode_utf8Encode h)

/-! ### Plain data -/

namespace Json

/-- The value as a string. -/
def string? : Json → Option JsString
  | .prim (.string s) => some s
  | _ => none

/-- The value as a boolean. -/
def bool? : Json → Option Bool
  | .prim (.bool b) => some b
  | _ => none

/-- The value as a safe integer that is not negative. -/
def index? : Json → Option ℕ
  | .prim (.number n) => (JsNumber.finite n).toIndex?
  | _ => none

/-- A natural number is an index as long as it is safe. -/
theorem index?_ofNat (n : ℕ) :
    index? (.prim (.number (.ofNat n))) = if n ≤ 2 ^ 53 - 1 then some n else none := by
  simp [index?, JsNumber.toIndex?, FiniteNumber.toInt?_ofNat]

/-- The value as an array. -/
def array? : Json → Option (List Json)
  | .arr items => some items
  | _ => none

/-- The value as a plain object. -/
def object? : Json → Option JsonObject
  | .obj props => some props
  | _ => none

end Json

/-! ### Snapshots as data -/

/-- The snapshot of the store task, as data. -/
def SnapshotEnvelope.json (snapshot : SnapshotEnvelope) : Json :=
  .obj [(js "catalog", catalogJson snapshot.catalog),
    (js "collections", .obj (snapshot.collections.map fun entry =>
      (entry.1, .arr (entry.2.map Json.obj)))),
    (js "databaseId", .prim (.string snapshot.databaseId)),
    (js "format", .prim (.string snapshotFormat)),
    (js "formatVersion", .prim (.number (.ofNat snapshotFormatVersion))),
    (js "generation", .prim (.number (.ofNat snapshot.generation))),
    (js "revision", .prim (.number (.ofNat snapshot.revision)))]

/-- `generation` of a snapshot. -/
def Json.generation (snapshot : Json) : ℕ :=
  ((snapshot.property? (js "generation")).bind Json.index?).getD 0

/-- `databaseId` of a snapshot. -/
def Json.databaseId (snapshot : Json) : JsString :=
  ((snapshot.property? (js "databaseId")).bind Json.string?).getD []

/-- One turn of the loop over the indexes of a collection, of `isSnapshotEnvelope`. -/
def isIndexData (index : Json) : Bool :=
  ((index.property? (js "name")).bind Json.string?).any (·.length ≠ 0) &&
    ((index.property? (js "unique")).bind Json.bool?).isSome &&
    ((index.property? (js "path")).bind Json.array?).any fun path =>
      (path.head?.bind Json.string?).isSome && path.zipIdx.all fun entry =>
        entry.1.string?.isSome || (0 < entry.2 && entry.1.index?.isSome)

/-- One turn of the loop over the catalog, of `isSnapshotEnvelope`. -/
def isCollectionData (collections : JsonObject) (entry : JsString × Json) : Bool :=
  entry.1.length ≠ 0 &&
    ((entry.2.property? (js "generatedPrimaryKey")).bind Json.bool?).isSome &&
    ((entry.2.property? (js "primaryKey")).bind Json.string?).any (·.length ≠ 0) &&
    ((entry.2.property? (js "indexes")).bind Json.array?).any (·.all isIndexData) &&
    ((Assoc.get? collections entry.1).bind Json.array?).any (·.all (·.object?.isSome))

/-- `isSnapshotEnvelope`, of plain data. -/
def isSnapshotData (value : Json) : Bool :=
  (value.property? (js "format")).any (· = .prim (.string snapshotFormat)) &&
    ((value.property? (js "formatVersion")).bind Json.index?).any (· = snapshotFormatVersion) &&
    ((value.property? (js "databaseId")).bind Json.string?).any
      (fun id => id.length ≠ 0 && id.length ≤ 256) &&
    ((value.property? (js "generation")).bind Json.index?).isSome &&
    ((value.property? (js "revision")).bind Json.index?).isSome &&
    ((value.property? (js "catalog")).bind Json.object?).any fun catalog =>
      ((value.property? (js "collections")).bind Json.object?).any fun collections =>
        (sortedNames catalog).stringify = (sortedNames collections).stringify &&
          catalog.all (isCollectionData collections)

/-! ### The file -/

namespace Platform

variable (platform : Platform)

/-- `checksum`. -/
def checksum (value : Json) : JsString := platform.sha256 value.stringify

/-- The disk envelope of a snapshot. -/
def diskEnvelope (snapshot : Json) : Json :=
  .obj [(js "checksum", .prim (.string (platform.checksum snapshot))), (js "snapshot", snapshot)]

/-- The text of a snapshot file. -/
def fileText (snapshot : Json) : JsString := (platform.diskEnvelope snapshot).stringify ++ [10]

/-- `#serializeSnapshot`. -/
def serializeSnapshot (snapshot : Json) : List UInt8 := utf8Encode (platform.fileText snapshot)

/-- The message for a text that is no JSON. -/
def notJson : NewtonError := .corruptStorage (js "Stored snapshot is not valid UTF-8 JSON")

/-- How `#readSnapshotAt` sees an error of the scan. -/
def scanError : ScanError → NewtonError
  | .corrupt message => .corruptStorage message
  | _ => notJson

/-- The checks of `#readSnapshotAt` on the parsed text. -/
def checkEnvelope (parsed : Json) : Except NewtonError Json :=
  match parsed with
  | .prim _ => .error (.corruptStorage (js "Stored snapshot envelope is malformed"))
  | _ =>
      match (parsed.property? (js "checksum")).bind Json.string?,
          parsed.property? (js "snapshot") with
      | some sum, some snapshot =>
          if isSnapshotData snapshot && platform.checksum snapshot = sum then .ok snapshot
          else invalid
      | _, _ => invalid
where
  invalid := .error (.corruptStorage (js "Stored snapshot checksum or envelope is invalid"))

/-- `#readSnapshotAt`, from the bytes of the file on. -/
def decodeSnapshot (bytes : List UInt8) : Except NewtonError Json :=
  if bytes.take 3 = [0xef, 0xbb, 0xbf] then
    .error (.corruptStorage (js "UTF-8 byte-order marks are not accepted"))
  else
    match utf8Decode bytes with
    | none => .error notJson
    | some text =>
        match assertNoDuplicateJsonKeys platform.parse text with
        | .error error => .error (scanError error)
        | .ok () =>
            match platform.parse text with
            | none => .error notJson
            | some parsed => platform.checkEnvelope parsed

/-- An envelope that passes has the snapshot in it.  Its checksum was compared as well, and is
not needed for this. -/
theorem checkEnvelope_eq_ok {parsed json : Json} (h : platform.checkEnvelope parsed = .ok json) :
    parsed.property? (js "snapshot") = some json ∧ isSnapshotData json = true := by
  unfold checkEnvelope at h
  split at h
  · cases h
  · split at h
    · next sum snapshot hsum hsnapshot =>
        split_ifs at h with hvalid
        · obtain rfl := Except.ok.inj h
          exact ⟨hsnapshot, (Bool.and_eq_true_iff.1 hvalid).1⟩
        · cases h
    · cases h

/-- **Bytes that decode** are a text that parses to an envelope.  What is returned is the
snapshot in it, whose checksum was right. -/
theorem decodeSnapshot_eq_ok {bytes : List UInt8} {json : Json}
    (h : platform.decodeSnapshot bytes = .ok json) : ∃ text parsed,
      utf8Decode bytes = some text ∧ platform.parse text = some parsed ∧
        parsed.property? (js "snapshot") = some json ∧ isSnapshotData json = true := by
  unfold decodeSnapshot at h
  split_ifs at h
  split at h
  · cases h
  · next text htext =>
      split at h
      · cases h
      · split at h
        · cases h
        · next parsed hparsed => exact ⟨text, parsed, htext, hparsed, platform.checkEnvelope_eq_ok h⟩

end Platform

end NewtonDB
