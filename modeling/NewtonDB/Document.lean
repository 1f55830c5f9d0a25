/-
# Documents

`cloneAndFreezeJsonObject` of `src/json.ts`: the walk that admits plain data and
copies it.  The walk carries the number of values and bytes seen, the objects it
is inside of, and, for the statements about hostile input, the number of getters
it has run.  `visit` is by recursion on the levels left below `maxDepth`; at the
bottom the depth check refuses whatever is there.
-/

import NewtonDB.Js.Value
import NewtonDB.Key

namespace NewtonDB

/-- The mutable state of the walk. -/
structure VisitState (σ : Type*) where
  nodes : ℕ
  bytes : ℕ
  seen : List σ
  getters : ℕ

/-- A step of the walk; the state survives an error. -/
abbrev VisitM (σ : Type) := ExceptT NewtonError (StateM (VisitState σ))

/-- `fail`. -/
def failJson {σ : Type} {α : Type} (code : JsonIssueCode) (path : PropertyPath)
    (message : JsString) : VisitM σ α :=
  throw (.invalidJson { code, path, message })

/-- An array position as a path token. -/
def indexToken (index : ℕ) : PathToken := .index (.finite (.ofNat index))

/-- `value[index]` on an array slot: a data property is read, an accessor runs
its getter.  A hole reads as nothing; the loop has asked `Object.hasOwn` before. -/
def readSlot {σ : Type} : Slot σ → VisitM σ (Option σ)
  | .data value => return some value
  | .accessor outcome => do
      modify fun s => { s with getters := s.getters + 1 }
      match outcome with
      | some value => return some value
      | none => throw .callback
  | .hole => return none

section

variable {σ : Type} [DecidableEq σ] (graph : JsGraph σ) (limits : JsonLimits)

/-- The counters of `visit` and their limits. -/
def enterValue (path : PropertyPath) (depth : ℕ) : VisitM σ Unit := do
  modify fun s => { s with nodes := s.nodes + 1 }
  if limits.maxNodes < (← get).nodes then
    failJson .nodeLimit path (js "Document exceeds " ++ natText limits.maxNodes ++ js " values")
  if limits.maxDepth < depth then
    failJson .depthLimit path (js "Document exceeds depth " ++ natText limits.maxDepth)

/-- Leaving an array or an object. -/
def leaveObject (value : σ) (path : PropertyPath) : VisitM σ Unit := do
  modify fun s => { s with seen := s.seen.erase value }
  if limits.maxDocumentBytes < (← get).bytes then
    failJson .documentSizeLimit path
      (js "Document exceeds " ++ natText limits.maxDocumentBytes ++ js " bytes")

/-- Entering an array or an object. -/
def enterObject (value : σ) (path : PropertyPath) : VisitM σ Unit := do
  if value ∈ (← get).seen then failJson .cycle path (js "Cyclic values are not JSON")
  modify fun s => { s with seen := value :: s.seen }

/-- Count the bytes of a value. -/
def addBytes (n : ℕ) : VisitM σ Unit := modify fun s => { s with bytes := s.bytes + n }

/-- `visit`, with `fuel` levels left below `maxDepth`. -/
def visit (fuel : ℕ) (value : σ) (path : PropertyPath) (depth : ℕ) : VisitM σ Json := do
  enterValue limits path depth
  match fuel with
  | 0 => failJson .depthLimit path (js "Document exceeds depth " ++ natText limits.maxDepth)
  | fuel + 1 =>
    match graph.view value with
    | .null => addBytes 4; return .prim .null
    | .bool b => addBytes (if b then 4 else 5); return .prim (.bool b)
    | .number (.finite n) => addBytes n.text.length; return .prim (.number n)
    | .number _ => failJson .invalidNumber path (js "Numbers must be finite")
    | .string s =>
        if limits.maxStringBytes < utf8Length s then
          failJson .stringSizeLimit path
            (js "String exceeds " ++ natText limits.maxStringBytes ++ js " bytes")
        addBytes (utf8Length s + 2)
        return .prim (.string s)
    | .undefined => failJson .unsupportedValue path (js "Unsupported undefined value")
    | .unsupported type =>
        failJson .unsupportedValue path (js "Unsupported " ++ type ++ js " value")
    -- the walk looks at the elements of an array and at nothing else that it has
    | .array slots _ =>
        enterObject value path
        let output ← slots.zipIdx.mapM fun (slot, index) => do
          let path := path ++ [indexToken index]
          match ← readSlot slot with
          | none => failJson .sparseArray path (js "Sparse arrays are not supported")
          | some item =>
              let item ← visit fuel item path (depth + 1)
              addBytes 1
              return item
        leaveObject limits value path
        return .arr output
    | .object plain symbols slots =>
        enterObject value path
        if !plain then
          failJson .invalidPrototype path (js "Only plain objects are supported")
        match symbols with
        | symbol :: _ =>
            failJson .unsupportedValue (path ++ [.name symbol.1.text])
              (js "Symbol properties are not supported")
        | [] => pure ()
        let output ← slots.mapM fun (key, slot) => do
          let path := path ++ [.name key]
          match slot with
          | .data item =>
              if limits.maxStringBytes < utf8Length key then
                failJson .stringSizeLimit path
                  (js "Property name exceeds " ++ natText limits.maxStringBytes ++ js " bytes")
              let item ← visit fuel item path (depth + 1)
              addBytes (utf8Length key + 3)
              return (key, item)
          | _ => failJson .accessor path (js "Accessors are not supported")
        leaveObject limits value path
        return .obj output

/-- One entry of the loop over `Object.entries(limits)`. -/
def checkLimit (name : JsString) (value ceiling : ℕ) : VisitM σ Unit := do
  if value = 0 || ceiling < value then
    throw (.invalidArgument (js "JSON limit " ++ name ++
      js " must be a positive safe integer no greater than " ++ natText ceiling))

/-- `cloneAndFreezeJsonObject`, in the state of the walk. -/
def cloneAndFreeze (input : σ) : VisitM σ JsonObject := do
  let d := defaultJsonLimits
  checkLimit (js "maxDepth") limits.maxDepth d.maxDepth
  checkLimit (js "maxDocumentBytes") limits.maxDocumentBytes d.maxDocumentBytes
  checkLimit (js "maxNodes") limits.maxNodes d.maxNodes
  checkLimit (js "maxStringBytes") limits.maxStringBytes d.maxStringBytes
  match graph.view input with
  | .object .. =>
      match ← visit graph limits (limits.maxDepth + 1) input [] 0 with
      | .obj props =>
          if limits.maxDocumentBytes < utf8Length (Json.obj props).stringify then
            failJson .documentSizeLimit []
              (js "Document exceeds " ++ natText limits.maxDocumentBytes ++
                js " serialized bytes")
          return props
      | _ => failJson .notObject [] (js "A document must be a plain JSON object")
  | _ => failJson .notObject [] (js "A document must be a plain JSON object")

/-- `cloneAndFreezeJsonObject`. -/
def cloneAndFreezeJsonObject (input : σ) : Except NewtonError JsonObject :=
  ((cloneAndFreeze graph limits input).run.run
    { nodes := 0, bytes := 2, seen := [], getters := 0 }).1

end

/-- A caller's value, copied. -/
def JsInput.cloneAndFreeze (input : JsInput) (limits : JsonLimits) :
    Except NewtonError JsonObject :=
  cloneAndFreezeJsonObject input.heap.graph limits input.value

/-- The call of the validator, in `validateDocument`. -/
def runValidator (collection : JsString) (cloned : JsonObject) (schema : CollectionSchema) :
    Except NewtonError Unit :=
  match schema.validate with
  | some validate => if validate cloned then .ok () else .error (.schemaValidation collection)
  | none => .ok ()

/-- `validateDocument` of `src/database.ts`. -/
def validateDocument {σ : Type} [DecidableEq σ] (collection : JsString) (graph : JsGraph σ)
    (document : σ) (schema : CollectionSchema) : Except NewtonError JsonObject := do
  let cloned ← cloneAndFreezeJsonObject graph (← resolvedLimits schema) document
  runValidator collection cloned schema
  let _ ← documentKey cloned schema
  return cloned

/-- A document key has an encoding.  The check of the key is the encoding itself, whose result
is dropped. -/
theorem encodeKey_of_documentKey {document : JsonObject} {schema : CollectionSchema}
    {key : PrimaryKey} (h : documentKey document schema = .ok key) :
    ∃ encoded, encodeKey key = .ok encoded := by
  unfold documentKey at h
  split at h
  · simp at h
  · obtain ⟨encoded, he, hk⟩ := bind_eq_ok.1 h
    obtain rfl := Except.ok.inj hk
    exact ⟨encoded, he⟩

/-- A valid document has a key.  That is the last check of `validateDocument`. -/
theorem documentKey_of_validateDocument {σ : Type} [DecidableEq σ] {collection : JsString}
    {graph : JsGraph σ} {value : σ} {schema : CollectionSchema} {document : JsonObject}
    (h : validateDocument collection graph value schema = .ok document) :
    ∃ key, documentKey document schema = .ok key := by
  unfold validateDocument at h
  obtain ⟨limits, -, h⟩ := bind_eq_ok.1 h
  obtain ⟨cloned, -, h⟩ := bind_eq_ok.1 h
  obtain ⟨-, -, h⟩ := bind_eq_ok.1 h
  obtain ⟨key, hkey, h⟩ := bind_eq_ok.1 h
  obtain rfl := Except.ok.inj h
  exact ⟨key, hkey⟩

end NewtonDB
