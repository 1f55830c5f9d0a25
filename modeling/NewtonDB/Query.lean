/-
# Queries

`parseWhere` and `compileWhere` of `src/query.ts`: the parser that admits the
query grammar from foreign values, and the evaluator of a parsed query.

The parsed lists come from `Array.prototype.map` and from spreading, so a hole of
the input is an empty slot of a parsed `conditions` list and `undefined` in a
parsed `in` list; both are `none` here.

The methods of arrays are looked up in the array that is passed: an own property
`map`, `every` or `entries` of it hides the method (`callMethod`), and `map` asks
its `constructor` for the kind of array to make (`readConstructor`).
-/

import NewtonDB.Document

namespace NewtonDB

/-- `ComparisonOperator`. -/
inductive ComparisonOperator where
  | contains
  | endsWith
  | eq
  | gt
  | gte
  | «in»
  | lt
  | lte
  | ne
  | startsWith
  deriving DecidableEq

/-- The operator a query names. -/
def comparisonOperator? (op : JsString) : Option ComparisonOperator :=
  if op = js "contains" then some .contains
  else if op = js "endsWith" then some .endsWith
  else if op = js "eq" then some .eq
  else if op = js "gt" then some .gt
  else if op = js "gte" then some .gte
  else if op = js "in" then some .in
  else if op = js "lt" then some .lt
  else if op = js "lte" then some .lte
  else if op = js "ne" then some .ne
  else if op = js "startsWith" then some .startsWith
  else none

/-- The operand of a comparison. -/
inductive QueryValue where
  | scalar (value : JsonPrimitive)
  | set (values : List (Option JsonPrimitive))
  deriving DecidableEq

/-- A parsed query (`Where`). -/
inductive Where where
  | and (conditions : List (Option Where))
  | or (conditions : List (Option Where))
  | not (condition : Where)
  | comparison (op : ComparisonOperator) (path : PropertyPath) (value : QueryValue)

/-- `QueryLimits`. -/
structure QueryLimits where
  maxDepth : ℕ
  maxNodes : ℕ
  maxPathTokens : ℕ
  maxScalarBytes : ℕ
  maxSetValues : ℕ
  maxTotalScalarBytes : ℕ
  deriving DecidableEq

/-- `defaultQueryLimits`. -/
def defaultQueryLimits : QueryLimits where
  maxDepth := 32
  maxNodes := 1000
  maxPathTokens := 32
  maxScalarBytes := 262144
  maxSetValues := 10000
  maxTotalScalarBytes := 1048576

/-! ### Parsing -/

/-- The mutable state of the parser. -/
structure ParseState where
  nodes : ℕ
  scalarBytes : ℕ
  getters : ℕ

/-- A step of the parser; the state survives an error. -/
abbrev ParseM := ExceptT NewtonError (StateM ParseState)

/-- `throw new QueryValidationError(issue, location)`. -/
def failQuery {α : Type} (issue : QueryValidationIssue) (location : JsString) : ParseM α :=
  throw (.queryValidation issue location)

/-- `isPrimitive`, with the primitive. -/
def JsView.primitive? {σ : Type} : JsView σ → Option JsonPrimitive
  | .null => some .null
  | .bool b => some (.bool b)
  | .string s => some (.string s)
  | .number (.finite n) => some (.number n)
  | _ => none

/-- The own property descriptor of an object, under `name`. -/
def JsView.descriptor? {σ : Type} : JsView σ → JsString → Option (Slot σ)
  | .object _ _ slots, name => Assoc.get? slots name
  | _, _ => none

/-- `Object.getOwnPropertyDescriptor(candidate, name)?.value`. -/
def JsView.dataProperty? {σ : Type} (view : JsView σ) (name : JsString) : Option σ :=
  match view.descriptor? name with
  | some (.data value) => some value
  | _ => none

/-- Reading an array element: a hole reads as `undefined`. -/
def readElement {σ : Type} : Slot σ → ParseM (Option σ)
  | .data value => return some value
  | .accessor outcome => do
      modify fun s => { s with getters := s.getters + 1 }
      match outcome with
      | some value => return some value
      | none => throw .callback
  | .hole => return none

/-- The call of a method that arrays have, given the own property that hides it, if
there is one.  That is read first, and as no value of the population can be called,
the call fails then, as it does where the prototype is a foreign one. -/
def callMethod {σ : Type} (extras : ArrayExtras σ) (own : Option (Slot σ)) : ParseM Unit :=
  match own with
  | some slot => do
      let _ ← readElement slot
      throw .typeError
  | none => if extras.plain then pure () else throw .typeError

/-- The own properties under symbols of an array or an object. -/
def JsView.symbols? {σ : Type} : JsView σ → Option (List (SymbolKey × Slot σ))
  | .object _ symbols _ => some symbols
  | .array _ extras => some extras.symbols
  | _ => none

/-- What a `constructor` says under `Symbol.species`, given its own symbols.  Nothing,
`undefined` and `null` ask for a plain array. -/
def readSpecies {σ : Type} (graph : JsGraph σ) (symbols : List (SymbolKey × Slot σ)) :
    ParseM Unit :=
  match Assoc.get? symbols .species with
  | none => pure ()
  | some slot => do
      match (← readElement slot).map graph.view with
      | none | some .undefined | some .null => pure ()
      | some _ => throw .typeError

/-- `ArraySpeciesCreate`, with which `map` makes its result: an own `constructor` of the
array is read, and asked for its `Symbol.species` when it is an object. -/
def readConstructor {σ : Type} (graph : JsGraph σ) (extras : ArrayExtras σ) : ParseM Unit :=
  match Assoc.get? extras.named (js "constructor") with
  | none => pure ()
  | some slot => do
      match (← readElement slot).map graph.view with
      | none | some .undefined => pure ()
      | some view =>
          match view.symbols? with
          | some symbols => readSpecies graph symbols
          | none => throw .typeError

section

variable (limits : QueryLimits)

/-- `consumeScalar`, given the bytes of the serialized scalar. -/
def consumeScalar (bytes : ℕ) (location : JsString) : ParseM Unit := do
  if limits.maxScalarBytes < bytes then failQuery .scalarSizeLimit location
  modify fun s => { s with scalarBytes := s.scalarBytes + bytes }
  if limits.maxTotalScalarBytes < (← get).scalarBytes then failQuery .scalarSizeLimit location

/-- The path of a comparison. -/
def parsePathOf {σ : Type} (graph : JsGraph σ) (path : Option σ) (location : JsString) :
    ParseM PropertyPath :=
  let location := location ++ js "/path"
  match path.map graph.view with
  | some (.array slots extras) => do
      if slots.length = 0 || limits.maxPathTokens < slots.length then
        failQuery .invalidPath location
      -- whatever is thrown here, a getter of the caller included, becomes `INVALID_PATH`
      let path ← tryCatch
        (do
          callMethod extras (Assoc.get? extras.named (js "entries"))
          slots.zipIdx.mapM fun (slot, index) => do
            let element ← readElement slot
            match checkToken index (tokenView (element.map graph.view)) with
            | .ok token => return token
            | .error error => throw error)
        (fun _ => failQuery .invalidPath location)
      for (token, index) in path.zipIdx do
        match token with
        | .name s =>
            consumeScalar limits (utf8Length (quote s)) (location ++ js "/" ++ natText index)
        | .index _ => pure ()
      return path
  | _ => failQuery .invalidPath location
where
  tokenView : Option (JsView σ) → TokenView
    | some (.string s) => .string s
    | some (.number n) => .number n
    | _ => .other

/-- The operand list of `in`. -/
def parseSetValue {σ : Type} (graph : JsGraph σ) (value : Option σ) (location : JsString) :
    ParseM QueryValue :=
  let location := location ++ js "/value"
  match value.map graph.view with
  | some (.array slots extras) => do
      if limits.maxSetValues < slots.length then failQuery .invalidValue location
      callMethod extras (Assoc.get? extras.named (js "every"))
      -- `every` skips holes; the later reads of the same slots see them as `undefined`
      let items ← slots.mapM fun slot => do
        match slot with
        | .hole => return none
        | _ =>
          match (← readElement slot) >>= fun v => (graph.view v).primitive? with
          | some p => return some p
          | none => failQuery .invalidValue location
      callMethod extras (Assoc.get? extras.named (js "entries"))
      for (slot, index) in slots.zipIdx do
        let item := (← readElement slot) >>= fun v => (graph.view v).primitive?
        consumeScalar limits ((item.map fun p => utf8Length p.stringify).getD 0)
          (location ++ js "/" ++ natText index)
      -- the list is spread by its iterator
      callMethod extras (Assoc.get? extras.symbols .iterator)
      let _ ← slots.mapM readElement
      return .set items
  | _ => failQuery .invalidValue location

/-- `visit` of `parseWhere`, with `fuel` levels left below `maxDepth`. -/
def parseNode {σ : Type} (graph : JsGraph σ) (fuel : ℕ) (candidate : Option σ) (depth : ℕ)
    (location : JsString) : ParseM Where := do
  modify fun s => { s with nodes := s.nodes + 1 }
  if limits.maxNodes < (← get).nodes then failQuery .nodeLimit location
  if limits.maxDepth < depth then failQuery .depthLimit location
  match fuel with
  | 0 => failQuery .depthLimit location
  | fuel + 1 =>
    let view ←
      match candidate.map graph.view with
      | some (.object plain symbols slots) => pure (JsView.object plain symbols slots)
      | _ => failQuery .invalidNode location
    let op ←
      match (view.dataProperty? (js "op")).map graph.view with
      | some (.string op) => pure op
      | _ => failQuery .invalidOperator location
    let keys :=
      match view with
      | .object _ _ slots => slots.map Prod.fst
      | _ => []
    let allowedKeys :=
      if op = js "and" || op = js "or" then [js "conditions", js "op"]
      else if op = js "not" then [js "condition", js "op"]
      else [js "op", js "path", js "value"]
    if keys.any fun key => key ∉ allowedKeys then failQuery .invalidNode location
    if op = js "and" || op = js "or" then
      let location := location ++ js "/conditions"
      match (view.dataProperty? (js "conditions")).map graph.view with
      | some (.array slots extras) =>
          if slots.length = 0 then failQuery .invalidBoolean location
          callMethod extras (Assoc.get? extras.named (js "map"))
          readConstructor graph extras
          -- `map` skips holes and leaves them in its result
          let parsed ← slots.zipIdx.mapM fun (slot, index) => do
            match slot with
            | .hole => return none
            | _ =>
                let condition ← readElement slot
                let parsed ← parseNode graph fuel condition (depth + 1)
                  (location ++ js "/" ++ natText index)
                return some parsed
          return if op = js "and" then .and parsed else .or parsed
      | _ => failQuery .invalidBoolean location
    else if op = js "not" then
      let parsed ← parseNode graph fuel (view.dataProperty? (js "condition")) (depth + 1)
        (location ++ js "/condition")
      return .not parsed
    else
      let some op := comparisonOperator? op | failQuery .invalidOperator location
      let path ← parsePathOf limits graph (view.dataProperty? (js "path")) location
      let value := view.dataProperty? (js "value")
      if op = .in then
        return .comparison op path (← parseSetValue limits graph value location)
      let location := location ++ js "/value"
      let some value := value >>= fun v => (graph.view v).primitive?
        | failQuery .invalidValue location
      consumeScalar limits (utf8Length value.stringify) location
      match op, value with
      | .startsWith, .string _ | .endsWith, .string _ => pure ()
      | .startsWith, _ | .endsWith, _ => failQuery .invalidValue location
      | _, _ => pure ()
      return .comparison op path (.scalar value)

/-- One entry of the loop over `Object.entries(limits)`. -/
def checkQueryLimit (name : JsString) (value : ℕ) : ParseM Unit := do
  if value = 0 then
    throw (.invalidArgument (js "Query limit " ++ name ++ js " must be a positive safe integer"))

/-- `parseWhere`, in the state of the parser. -/
def parseWhereM {σ : Type} (graph : JsGraph σ) (input : σ) : ParseM Where := do
  checkQueryLimit (js "maxDepth") limits.maxDepth
  checkQueryLimit (js "maxNodes") limits.maxNodes
  checkQueryLimit (js "maxPathTokens") limits.maxPathTokens
  checkQueryLimit (js "maxScalarBytes") limits.maxScalarBytes
  checkQueryLimit (js "maxSetValues") limits.maxSetValues
  checkQueryLimit (js "maxTotalScalarBytes") limits.maxTotalScalarBytes
  parseNode limits graph (limits.maxDepth + 1) (some input) 0 []

/-- `parseWhere`. -/
def parseWhere {σ : Type} (graph : JsGraph σ) (input : σ) : Except NewtonError Where :=
  ((parseWhereM limits graph input).run.run { nodes := 0, scalarBytes := 0, getters := 0 }).1

end

/-! ### Evaluation -/

/-- `samePrimitive`: `undefined`, arrays and objects equal no primitive. -/
def samePrimitive (source : Option Json) (value : JsonPrimitive) : Bool :=
  match source >>= Json.prim? with
  | some p => p.same value
  | none => false

/-- `orderedCompare`, given the comparison on numbers and on strings. -/
def orderedCompare (source : Option Json) (value : JsonPrimitive)
    (numbers : FiniteNumber → FiniteNumber → Bool) (strings : JsString → JsString → Bool) : Bool :=
  match source >>= Json.prim?, value with
  | some (.number a), .number b => numbers a b
  | some (.string a), .string b => strings a b
  | _, _ => false

/-- A comparison with a scalar, on the value at its path. -/
def compareScalar (op : ComparisonOperator) (source : Option Json) (value : JsonPrimitive) :
    Bool :=
  match op with
  | .eq => samePrimitive source value
  | .ne => !samePrimitive source value
  | .lt => orderedCompare source value (fun a b => a.lt b) (fun a b => decide (a < b))
  | .lte => orderedCompare source value (fun a b => a.lt b || a.same b) (fun a b => !decide (b < a))
  | .gt => orderedCompare source value (fun a b => b.lt a) (fun a b => decide (b < a))
  | .gte => orderedCompare source value (fun a b => b.lt a || a.same b) (fun a b => !decide (a < b))
  | .contains =>
      match source, value with
      | some (.prim (.string s)), .string part => decide (part <:+: s)
      | some (.prim (.string _)), _ => false
      | some (.arr items), value => items.any fun item => samePrimitive (some item) value
      | _, _ => false
  | .startsWith =>
      match source, value with
      | some (.prim (.string s)), .string part => part.isPrefixOf s
      | _, _ => false
  | .endsWith =>
      match source, value with
      | some (.prim (.string s)), .string part => part.isSuffixOf s
      | _, _ => false
  | .in => false

/-- Membership in the set of an `in` comparison; an `undefined` member is found
where nothing is. -/
def memberOf (source : Option Json) (values : List (Option JsonPrimitive)) : Bool :=
  values.any fun
    | some p => samePrimitive source p
    | none => source.isNone

namespace Where

mutual

/-- The predicate a query compiles to. -/
def test : Where → JsonObject → Bool
  | .and conditions, document => testEvery conditions document
  | .or conditions, document => testSome conditions document
  | .not condition, document => !test condition document
  | .comparison op path value, document =>
      match value with
      | .set values => memberOf (readPath path (.obj document)) values
      | .scalar value => compareScalar op (readPath path (.obj document)) value

/-- `children.every`; empty slots are skipped. -/
def testEvery : List (Option Where) → JsonObject → Bool
  | [], _ => true
  | none :: rest, document => testEvery rest document
  | some child :: rest, document => test child document && testEvery rest document

/-- `children.some`; empty slots are skipped. -/
def testSome : List (Option Where) → JsonObject → Bool
  | [], _ => false
  | none :: rest, document => testSome rest document
  | some child :: rest, document => test child document || testSome rest document

end

end Where

/-- `compileWhere` of a caller's value under the default limits: the parsed query
and its predicate. -/
def compileWhere (input : JsInput) : Except NewtonError (Where × (JsonObject → Bool)) :=
  (parseWhere defaultQueryLimits input.heap.graph input.value).map fun ast => (ast, ast.test)

end NewtonDB
