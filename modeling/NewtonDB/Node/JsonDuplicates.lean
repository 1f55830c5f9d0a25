/-
# The scan for duplicate names

`assertNoDuplicateJsonKeys` of `src/node/json-duplicates.ts`: a pass over the
text of a stored file that counts its values, bounds their nesting and refuses an
object with a name twice.  The state is what is left of the text, the position in
it and the count.  A loop over the members of an object or the items of an array
takes one unit at least each time, so the length of what is left bounds its
turns.

`parse` is `JSON.parse`, which decodes the names.
-/

import NewtonDB.Js.Json

namespace NewtonDB

/-- Why a text is refused: a `SyntaxError` of the scan at a position, one of
`JSON.parse`, or a `CorruptStorageError`. -/
inductive ScanError where
  | badJson (message : JsString) (index : ℕ)
  | parse
  | corrupt (message : JsString)
  deriving DecidableEq

/-- The state of the scan. -/
@[ext]
structure Scan where
  rest : JsString
  index : ℕ
  nodes : ℕ

/-- The node limit. -/
def maxScanNodes : ℕ := 1000000

/-- The nesting limit. -/
def maxScanDepth : ℕ := 128

/-- `whitespace`. -/
def isJsonWhitespace (c : UInt16) : Bool := c = 32 || c = 10 || c = 13 || c = 9

/-- `[\dA-Fa-f]`. -/
def isHexUnit (c : UInt16) : Bool :=
  isDigitUnit c || (65 ≤ c && c ≤ 70) || (97 ≤ c && c ≤ 102)

/-! ### Strings -/

/-- The escapes of one unit: quote, backslash, slash and `bfnrt`. -/
def isSimpleEscape (c : UInt16) : Bool :=
  c = 34 || c = 92 || c = 47 || c = 98 || c = 102 || c = 110 || c = 114 || c = 116

/-- The loop of `parseString`: from a position inside a string to the one after its
closing quote. -/
def stringEnd : JsString → ℕ → Except ScanError ℕ
  | [], index => .error (.badJson (js "Unterminated JSON string") index)
  | character :: rest, index =>
      if character = 34 then .ok (index + 1)
      else if character = 92 then
        match rest with
        | [] => .error (.badJson (js "Unterminated JSON string") (index + 2))
        | escape :: rest =>
            if escape = 117 then
              match rest with
              | a :: b :: c :: d :: rest =>
                  if isHexUnit a && isHexUnit b && isHexUnit c && isHexUnit d then
                    stringEnd rest (index + 6)
                  else .error (.badJson (js "Invalid Unicode escape") (index + 2))
              | _ => .error (.badJson (js "Invalid Unicode escape") (index + 2))
            else if isSimpleEscape escape then stringEnd rest (index + 2)
            else .error (.badJson (js "Invalid string escape") (index + 2))
      else if character < 32 then .error (.badJson (js "Invalid string character") (index + 1))
      else stringEnd rest (index + 1)

/-! ### Numbers -/

/-- How many digits a text begins with. -/
def digitsLength (text : JsString) : ℕ := (text.takeWhile isDigitUnit).length

/-- `0|[1-9]\d*`. -/
def integerLength : JsString → Option ℕ
  | [] => none
  | c :: rest =>
      if c = 48 then some 1
      else if isDigitUnit c then some (1 + digitsLength rest)
      else none

/-- `(?:\.\d+)?`. -/
def fractionLength : JsString → ℕ
  | [] => 0
  | c :: rest => if c = 46 ∧ digitsLength rest ≠ 0 then 1 + digitsLength rest else 0

/-- `[+-]?`. -/
def signLength : JsString → ℕ
  | [] => 0
  | c :: _ => if c = 43 ∨ c = 45 then 1 else 0

/-- `(?:[eE][+-]?\d+)?`. -/
def exponentLength : JsString → ℕ
  | [] => 0
  | c :: rest =>
      let digits := digitsLength (rest.drop (signLength rest))
      if (c = 101 ∨ c = 69) ∧ digits ≠ 0 then 1 + signLength rest + digits else 0

/-- The length of a number without its sign. -/
def unsignedLength (text : JsString) : Option ℕ :=
  (integerLength text).map fun integer =>
    let fraction := fractionLength (text.drop integer)
    integer + fraction + exponentLength (text.drop (integer + fraction))

/-- The length of the match of `numberPattern`. -/
def numberLength (text : JsString) : Option ℕ :=
  if text.head? = some 45 then (unsignedLength text.tail).map (· + 1) else unsignedLength text

/-! ### Values -/

namespace Scan

/-- `index += n`. -/
def advance (s : Scan) (n : ℕ) : Scan := { s with rest := s.rest.drop n, index := s.index + n }

/-- `fail`. -/
def fail {α : Type} (s : Scan) (message : JsString) : Except ScanError α :=
  .error (.badJson message s.index)

/-- `skipWhitespace`. -/
def skipWhitespace (s : Scan) : Scan := s.advance (s.rest.takeWhile isJsonWhitespace).length

/-- `if (text[index++] !== unit) fail(message)`. -/
def expect (s : Scan) (unit : UInt16) (message : JsString) : Except ScanError Scan :=
  if s.rest.head? = some unit then .ok (s.advance 1) else (s.advance 1).fail message

/-- `parseString`. -/
def parseString (parse : JsString → Option Json) (s : Scan) :
    Except ScanError (JsString × Scan) := do
  let opened ← s.expect 34 (js "Expected a JSON string")
  let stop ← stringEnd opened.rest opened.index
  match parse (s.rest.take (stop - s.index)) with
  | some (.prim (.string decoded)) => .ok (decoded, s.advance (stop - s.index))
  | some _ => (s.advance (stop - s.index)).fail (js "Invalid JSON string")
  | none => .error .parse

/-- The counters of `parseValue` and their limits. -/
def enterValue (s : Scan) (depth : ℕ) : Except ScanError Scan :=
  if maxScanNodes < s.nodes + 1 then
    .error (.corrupt (js "Stored JSON exceeds the node limit"))
  else if maxScanDepth < depth then
    .error (.corrupt (js "Stored JSON exceeds the nesting limit"))
  else .ok ({ s with nodes := s.nodes + 1 }.skipWhitespace)

/-- The loop over the members of an object, `value` reading the value of one. -/
def parseMembers (parse : JsString → Option Json) (value : Scan → Except ScanError Scan) :
    ℕ → List JsString → Scan → Except ScanError Scan
  | 0, _, s => s.fail (js "Unterminated object")
  | fuel + 1, keys, s =>
      if s.rest = [] then s.fail (js "Unterminated object")
      else do
        let (key, s) ← s.skipWhitespace.parseString parse
        if keys.contains key then
          throw (.corrupt (js "Stored JSON contains duplicate object key " ++ quote key))
        let s ← s.skipWhitespace.expect 58 (js "Expected a colon")
        let s ← value s
        let s := s.skipWhitespace
        if s.rest.head? = some 125 then return s.advance 1
        else if s.rest.head? = some 44 then
          parseMembers parse value fuel (key :: keys) (s.advance 1)
        else (s.advance 1).fail (js "Expected an object delimiter")

/-- The loop over the items of an array, `value` reading one. -/
def parseItems (value : Scan → Except ScanError Scan) : ℕ → Scan → Except ScanError Scan
  | 0, s => s.fail (js "Unterminated array")
  | fuel + 1, s =>
      if s.rest = [] then s.fail (js "Unterminated array")
      else do
        let s ← value s
        let s := s.skipWhitespace
        if s.rest.head? = some 93 then return s.advance 1
        else if s.rest.head? = some 44 then parseItems value fuel (s.advance 1)
        else (s.advance 1).fail (js "Expected an array delimiter")

/-- A value that is no object, array or string. -/
def parseAtom (s : Scan) : Except ScanError Scan :=
  if (js "true").isPrefixOf s.rest then .ok (s.advance 4)
  else if (js "false").isPrefixOf s.rest then .ok (s.advance 5)
  else if (js "null").isPrefixOf s.rest then .ok (s.advance 4)
  else
    match numberLength s.rest with
    | some n => .ok (s.advance n)
    | none => s.fail (js "Invalid JSON value")

/-- `parseValue`, with `levels` left until the nesting limit; the depth check refuses
whatever is below. -/
def parseValue (parse : JsString → Option Json) : ℕ → ℕ → Scan → Except ScanError Scan
  | levels, depth, s => do
      let s ← s.enterValue depth
      match levels with
      | 0 => throw (.corrupt (js "Stored JSON exceeds the nesting limit"))
      | levels + 1 =>
          let value := parseValue parse levels (depth + 1)
          if s.rest.head? = some 123 then
            let s := (s.advance 1).skipWhitespace
            if s.rest.head? = some 125 then return s.advance 1
            else s.parseMembers parse value s.rest.length []
          else if s.rest.head? = some 91 then
            let s := (s.advance 1).skipWhitespace
            if s.rest.head? = some 93 then return s.advance 1
            else s.parseItems value s.rest.length
          else if s.rest.head? = some 34 then (s.parseString parse).map Prod.snd
          else s.parseAtom

end Scan

/-- `assertNoDuplicateJsonKeys`. -/
def assertNoDuplicateJsonKeys (parse : JsString → Option Json) (text : JsString) :
    Except ScanError Unit := do
  let s ← Scan.parseValue parse (maxScanDepth + 1) 0 ⟨text, 0, 0⟩
  let s := s.skipWhitespace
  if s.rest ≠ [] then s.fail (js "Unexpected trailing JSON data")

end NewtonDB
