/-
# The grammar of queries

What a JSON value must be to be read as a query (`Where.Reads`), with the bounds on the
lists that the grammar itself has, and what a query costs: its conditions, how deep they
are nested, the bytes of its scalars, and the numbers in its paths (`Where.Fits`).  A
query is itself written as JSON (`Where.json`) and is read back from that.
-/

import NewtonDB.Query
import NewtonDB.Pointer
import NewtonDB.Storage

namespace NewtonDB

/-! ### Names -/

/-- The name of an operator. -/
def ComparisonOperator.name : ComparisonOperator → JsString
  | .contains => js "contains"
  | .endsWith => js "endsWith"
  | .eq => js "eq"
  | .gt => js "gt"
  | .gte => js "gte"
  | .in => js "in"
  | .lt => js "lt"
  | .lte => js "lte"
  | .ne => js "ne"
  | .startsWith => js "startsWith"

/-- An operator is found by its name.  The names are all different. -/
theorem comparisonOperator?_eq_some {text : JsString} {op : ComparisonOperator} :
    comparisonOperator? text = some op ↔ text = op.name := by
  constructor
  · intro h
    unfold comparisonOperator? at h
    split_ifs at h with h1 h2 h3 h4 h5 h6 h7 h8 h9 h10 <;> obtain rfl := Option.some.inj h <;>
      assumption
  · rintro rfl
    cases op <;> decide

/-- An operator that is not one of the booleans. -/
theorem name_ne_boolean (op : ComparisonOperator) :
    op.name ≠ js "and" ∧ op.name ≠ js "or" ∧ op.name ≠ js "not" := by
  cases op <;> decide

/-! ### Reading -/

/-- A JSON value as a path token. -/
def Json.token? : Json → Option PathToken
  | .prim (.string s) => some (.name s)
  | .prim (.number x) => some (.index (.finite x))
  | _ => none

/-- A token the grammar has behind the first: a string or a non-negative integer. -/
def PathToken.IsNatural : PathToken → Prop
  | .name _ => True
  | .index (.finite x) => ∃ n : ℕ, x.toInt? = some (n : ℤ)
  | .index _ => False

/-- A path of the grammar. -/
structure IsQueryPath (path : PropertyPath) : Prop where
  named : ∃ name rest, path = .name name :: rest
  length_le : path.length ≤ 32
  natural : ∀ token ∈ path, token.IsNatural

/-- The operand of an operator. -/
def readOperand : ComparisonOperator → Json → Option QueryValue
  | .in, .arr items =>
      if items.length ≤ 10000 then (items.mapM Json.prim?).map fun values =>
        .set (values.map some)
      else none
  | .in, _ => none
  | .startsWith, .prim (.string s) => some (.scalar (.string s))
  | .endsWith, .prim (.string s) => some (.scalar (.string s))
  | .startsWith, _ => none
  | .endsWith, _ => none
  | _, .prim p => some (.scalar p)
  | _, _ => none

/-- An object of certain names, with its operator. -/
structure Json.IsNode (props : List (JsString × Json)) (names : List JsString) (op : JsString) :
    Prop where
  closed : ∀ name ∈ props.map Prod.fst, name ∈ names
  operator : Assoc.get? props (js "op") = some (.prim (.string op))

namespace Where

mutual

/-- **The query that a JSON value is.** -/
def Reads : Where → Json → Prop
  | .and conditions, j => ∃ props items, j = .obj props ∧
      Json.IsNode props [js "conditions", js "op"] (js "and") ∧
      Assoc.get? props (js "conditions") = some (.arr items) ∧ items ≠ [] ∧
      ReadsAll conditions items
  | .or conditions, j => ∃ props items, j = .obj props ∧
      Json.IsNode props [js "conditions", js "op"] (js "or") ∧
      Assoc.get? props (js "conditions") = some (.arr items) ∧ items ≠ [] ∧
      ReadsAll conditions items
  | .not condition, j => ∃ props k, j = .obj props ∧
      Json.IsNode props [js "condition", js "op"] (js "not") ∧
      Assoc.get? props (js "condition") = some k ∧ Reads condition k
  | .comparison op path value, j => ∃ props tokens k, j = .obj props ∧
      Json.IsNode props [js "op", js "path", js "value"] op.name ∧
      Assoc.get? props (js "path") = some (.arr tokens) ∧
      tokens.mapM Json.token? = some path ∧ IsQueryPath path ∧
      Assoc.get? props (js "value") = some k ∧ readOperand op k = some value

/-- The queries that JSON values are. -/
def ReadsAll : List (Option Where) → List Json → Prop
  | [], items => items = []
  | none :: _, _ => False
  | some condition :: conditions, items => ∃ k rest, items = k :: rest ∧ Reads condition k ∧
      ReadsAll conditions rest

end

/-! ### Costs -/

mutual

/-- The number of conditions. -/
def nodes : Where → ℕ
  | .and conditions => nodesAll conditions + 1
  | .or conditions => nodesAll conditions + 1
  | .not condition => nodes condition + 1
  | .comparison _ _ _ => 1

/-- The number of conditions of a list. -/
def nodesAll : List (Option Where) → ℕ
  | [] => 0
  | none :: rest => nodesAll rest
  | some condition :: rest => nodes condition + nodesAll rest

end

mutual

/-- How deep conditions are nested. -/
def depth : Where → ℕ
  | .and conditions => depthAll conditions
  | .or conditions => depthAll conditions
  | .not condition => depth condition + 1
  | .comparison _ _ _ => 0

/-- How deep the conditions of a list are nested, below their parent. -/
def depthAll : List (Option Where) → ℕ
  | [] => 0
  | none :: rest => depthAll rest
  | some condition :: rest => max (depth condition + 1) (depthAll rest)

end

mutual

/-- The comparisons, from the left. -/
def comparisons : Where → List (PropertyPath × QueryValue)
  | .and conditions => comparisonsAll conditions
  | .or conditions => comparisonsAll conditions
  | .not condition => comparisons condition
  | .comparison _ path value => [(path, value)]

/-- The comparisons of a list. -/
def comparisonsAll : List (Option Where) → List (PropertyPath × QueryValue)
  | [] => []
  | none :: rest => comparisonsAll rest
  | some condition :: rest => comparisons condition ++ comparisonsAll rest

end

end Where

/-- The bytes of the strings of a path. -/
def pathBytes (path : PropertyPath) : List ℕ :=
  path.filterMap fun
    | .name s => some (utf8Length (quote s))
    | .index _ => none

/-- The bytes of the scalars of an operand. -/
def QueryValue.bytes : QueryValue → List ℕ
  | .scalar p => [utf8Length p.stringify]
  | .set values => values.map fun value => (value.map fun p => utf8Length p.stringify).getD 0

/-- The bytes of the scalars of a query. -/
def Where.bytes (condition : Where) : List ℕ :=
  condition.comparisons.flatMap fun c => pathBytes c.1 ++ c.2.bytes

/-- **The limits of a query**, apart from those of its grammar. -/
structure Where.Fits (condition : Where) : Prop where
  nodes_le : condition.nodes ≤ defaultQueryLimits.maxNodes
  depth_le : condition.depth ≤ defaultQueryLimits.maxDepth
  bytes_le : ∀ bytes ∈ condition.bytes, bytes ≤ defaultQueryLimits.maxScalarBytes
  sum_le : condition.bytes.sum ≤ defaultQueryLimits.maxTotalScalarBytes
  safe : ∀ c ∈ condition.comparisons, ∀ token ∈ c.1, token.IsValid

/-! ### Writing -/

/-- An operand as JSON; an `undefined` member is written as `null`. -/
def QueryValue.json : QueryValue → Json
  | .scalar p => .prim p
  | .set values => .arr (values.map fun value => .prim (value.getD .null))

namespace Where

mutual

/-- A parsed query as JSON; an empty slot is written as `null`. -/
def json : Where → Json
  | .and conditions =>
      .obj [(js "conditions", .arr (jsonAll conditions)), (js "op", .prim (.string (js "and")))]
  | .or conditions =>
      .obj [(js "conditions", .arr (jsonAll conditions)), (js "op", .prim (.string (js "or")))]
  | .not condition =>
      .obj [(js "condition", json condition), (js "op", .prim (.string (js "not")))]
  | .comparison op path value =>
      .obj [(js "op", .prim (.string op.name)), (js "path", .arr (path.map PathToken.json)),
        (js "value", value.json)]

/-- Parsed queries as JSON. -/
def jsonAll : List (Option Where) → List Json
  | [] => []
  | none :: rest => .prim .null :: jsonAll rest
  | some condition :: rest => json condition :: jsonAll rest

end

end Where

end NewtonDB
