/-
# Queries in storage

A query that was parsed may be parsed again, and may be written as JSON text and read
back: the parser and the published schema accept the same values, and what comes back
compiles to the same predicate (`queries_survive`).
-/

import NewtonDB.Js.JsonText
import NewtonDB.QueryReading
import NewtonDB.QuerySchema

namespace NewtonDB

/-! ### Writing -/

/-- A token is read from what it is written as. -/
theorem PathToken.IsNatural.token?_json {token : PathToken} (h : token.IsNatural) :
    token.json.token? = some token := by
  rcases token with ⟨_ | _ | x⟩ | name
  · exact h.elim
  · exact h.elim
  · rfl
  · rfl

/-- A path is read from what it is written as. -/
theorem IsQueryPath.mapM_json {path : PropertyPath} (h : IsQueryPath path) :
    (path.map PathToken.json).mapM Json.token? = some path := by
  rw [mapM_eq_some, List.forall₂_map_left_iff, List.forall₂_same]
  exact fun token htoken => (h.natural token htoken).token?_json

/-- An operand is read from what it is written as.  A list is written as one, and a primitive as
itself. -/
theorem readOperand_json {op : ComparisonOperator} {k : Json} {value : QueryValue}
    (h : readOperand op k = some value) : readOperand op value.json = some value := by
  by_cases hin : op = .in
  · subst hin
    cases k with
    | prim p => cases h
    | obj props => cases h
    | arr items =>
        obtain ⟨hlen, ps, hps, rfl⟩ := readOperand_in.1 h
        have hjson : (QueryValue.set (ps.map some)).json = .arr (ps.map Json.prim) := by
          rw [QueryValue.json, List.map_map]
          rfl
        rw [hjson]
        refine readOperand_in.2 ⟨?_, ps, ?_, rfl⟩
        · rw [List.length_map, ← (mapM_eq_some.1 hps).length_eq]
          exact hlen
        · rw [mapM_eq_some, List.forall₂_map_left_iff, List.forall₂_same]
          exact fun p _ => rfl
  · obtain ⟨p, -, hread⟩ := (readOperand_scalar hin).1 h
    obtain rfl := eq_scalar_of_readOperand hin hread
    exact hread

namespace Where

/-- Conditions that were read from a list that is not empty are not written as an empty one. -/
theorem ReadsAll.jsonAll_ne_nil {conditions : List (Option Where)} {items : List Json}
    (h : ReadsAll conditions items) (hne : items ≠ []) : jsonAll conditions ≠ [] := by
  cases conditions with
  | nil => exact absurd h hne
  | cons condition conditions => cases condition <;> exact List.cons_ne_nil _ _

mutual

/-- **A query is read from what it is written as.**  By induction on the query: the properties
are written in the order the schema has them. -/
theorem Reads.json : ∀ {w : Where} {j : Json}, w.Reads j → w.Reads w.json
  | .and conditions, j, h => by
      obtain ⟨props, items, rfl, hnode, hitems, hne, hall⟩ := h
      exact ⟨_, _, rfl, ⟨fun _ h => h, rfl⟩, rfl, hall.jsonAll_ne_nil hne,
        hall.json⟩
  | .or conditions, j, h => by
      obtain ⟨props, items, rfl, hnode, hitems, hne, hall⟩ := h
      exact ⟨_, _, rfl, ⟨fun _ h => h, rfl⟩, rfl, hall.jsonAll_ne_nil hne,
        hall.json⟩
  | .not condition, j, h => by
      obtain ⟨props, k, rfl, hnode, hk, hreads⟩ := h
      exact ⟨_, _, rfl, ⟨fun _ h => h, rfl⟩, rfl, hreads.json⟩
  | .comparison op path value, j, h => by
      obtain ⟨props, tokens, k, rfl, hnode, htokens, hpath, hvalid, hk, hread⟩ := h
      exact ⟨_, _, _, rfl, ⟨fun _ h => h, rfl⟩, rfl, hvalid.mapM_json, hvalid, rfl,
        readOperand_json hread⟩

/-- The queries of a list are read from what they are written as. -/
theorem ReadsAll.json : ∀ {conditions : List (Option Where)} {items : List Json},
    ReadsAll conditions items → ReadsAll conditions (jsonAll conditions)
  | [], items, _ => rfl
  | none :: _, items, h => h.elim
  | some w :: conditions, items, h => by
      obtain ⟨k, rest, rfl, hreads, hall⟩ := h
      exact ⟨_, _, rfl, hreads.json, hall.json⟩

end

end Where

/-! ### The signs of zeros -/

/-- An operand without the signs of zeros. -/
def QueryValue.unsigned : QueryValue → QueryValue
  | .scalar p => .scalar p.unsigned
  | .set values => .set (values.map (Option.map JsonPrimitive.unsigned))

namespace Where

mutual

/-- A query without the signs of zeros. -/
def unsigned : Where → Where
  | .and conditions => .and (unsignedAll conditions)
  | .or conditions => .or (unsignedAll conditions)
  | .not condition => .not (unsigned condition)
  | .comparison op path value => .comparison op (path.map PathToken.unsigned) value.unsigned

/-- Queries without the signs of zeros. -/
def unsignedAll : List (Option Where) → List (Option Where)
  | [] => []
  | none :: rest => none :: unsignedAll rest
  | some condition :: rest => some (unsigned condition) :: unsignedAll rest

end

end Where

/-- What is found in an object without the signs of zeros is what was found in it, without
them. -/
theorem get?_unsigned (props : List (JsString × Json)) (name : JsString) :
    Assoc.get? (Json.unsignedProps props) name = (Assoc.get? props name).map Json.unsigned := by
  rw [Json.unsignedProps_eq]
  exact get?_map Json.unsigned props name

/-- An object stays a node of the grammar when the signs of zeros are forgotten. -/
theorem Json.IsNode.unsigned {props : List (JsString × Json)} {names : List JsString}
    {op : JsString} (h : Json.IsNode props names op) :
    Json.IsNode (Json.unsignedProps props) names op := by
  refine ⟨?_, by rw [get?_unsigned, h.operator]; rfl⟩
  rw [Json.unsignedProps_eq, List.map_map]
  exact h.closed

/-- A number is the same integer without the sign of a zero. -/
theorem FiniteNumber.toInt?_unsigned (x : FiniteNumber) : x.unsigned.toInt? = x.toInt? := by
  cases x <;> rfl

/-- A number is the same index without the sign of a zero. -/
theorem toIndex?_unsigned (x : FiniteNumber) :
    (JsNumber.finite x.unsigned).toIndex? = (JsNumber.finite x).toIndex? := by
  rw [JsNumber.toIndex?, JsNumber.toIndex?, x.toInt?_unsigned]

/-- A token that may stand in a path may do so without the sign of a zero. -/
theorem PathToken.IsValid.unsigned {token : PathToken} (h : token.IsValid) :
    token.unsigned.IsValid := by
  rcases token with ⟨_ | _ | x⟩ | name
  · exact h
  · exact h
  · exact (congrArg Option.isSome (toIndex?_unsigned x)).trans h
  · trivial

/-- Whether a token is a natural index does not depend on the sign of a zero.  Zero is a natural
index with either sign. -/
theorem PathToken.isNatural_unsigned {token : PathToken} :
    token.unsigned.IsNatural ↔ token.IsNatural := by
  rcases token with ⟨_ | _ | x⟩ | name
  · exact Iff.rfl
  · exact Iff.rfl
  · show (∃ n : ℕ, x.unsigned.toInt? = some (n : ℤ)) ↔ _
    rw [x.toInt?_unsigned]
    exact Iff.rfl
  · exact Iff.rfl

/-- A path of a query stays one without the signs of zeros. -/
theorem IsQueryPath.unsigned {path : PropertyPath} (h : IsQueryPath path) :
    IsQueryPath (path.map PathToken.unsigned) := by
  obtain ⟨⟨name, rest, rfl⟩, hlen, hnat⟩ := h
  refine ⟨⟨name, _, rfl⟩, by rwa [List.length_map], fun token htoken => ?_⟩
  obtain ⟨t, ht, rfl⟩ := List.mem_map.1 htoken
  exact PathToken.isNatural_unsigned.2 (hnat t ht)

/-- A token is read without its sign from a value without signs.  A name has no sign, and a
number loses it on both sides alike. -/
theorem token?_unsigned {j : Json} {token : PathToken} (h : j.token? = some token) :
    j.unsigned.token? = some token.unsigned := by
  rcases j with (_ | b | x | t) | items | props
  · cases h
  · cases h
  · obtain rfl := Option.some.inj h
    rfl
  · obtain rfl := Option.some.inj h
    rfl
  · cases h
  · cases h

/-- A primitive stays a primitive without the sign of a zero.  Only a zero changes at all. -/
theorem prim?_unsigned {j : Json} {p : JsonPrimitive} (h : j.prim? = some p) :
    j.unsigned.prim? = some p.unsigned := by
  cases j with
  | prim q =>
      obtain rfl := Option.some.inj h
      rfl
  | arr items => cases h
  | obj props => cases h

/-- A reader that takes each item without its signs to what it is without them does so for a
list. -/
theorem mapM_unsigned {β : Type} {f : Json → Option β} {g : β → β} {l : List Json} {l' : List β}
    (hf : ∀ {j b}, f j = some b → f j.unsigned = some (g b)) (h : l.mapM f = some l') :
    (Json.unsignedItems l).mapM f = some (l'.map g) := by
  rw [Json.unsignedItems_eq, mapM_eq_some, List.forall₂_map_left_iff, List.forall₂_map_right_iff]
  exact (mapM_eq_some.1 h).imp fun _ _ => hf

/-- An operand is read without signs from a value without signs.  The length of a list and the
kind of a primitive are the same. -/
theorem readOperand_unsigned {op : ComparisonOperator} {k : Json} {value : QueryValue}
    (h : readOperand op k = some value) : readOperand op k.unsigned = some value.unsigned := by
  by_cases hin : op = .in
  · subst hin
    cases k with
    | prim p => cases h
    | obj props => cases h
    | arr items =>
        obtain ⟨hlen, ps, hps, rfl⟩ := readOperand_in.1 h
        refine readOperand_in.2 ⟨?_, _, mapM_unsigned prim?_unsigned hps, ?_⟩
        · rw [Json.unsignedItems_eq, List.length_map]
          exact hlen
        · rw [QueryValue.unsigned, List.map_map, List.map_map]
          rfl
  · obtain ⟨p, hp, hread⟩ := (readOperand_scalar hin).1 h
    obtain rfl := eq_scalar_of_readOperand hin hread
    refine (readOperand_scalar hin).2 ⟨_, prim?_unsigned hp, ?_⟩
    cases op <;> first
      | exact absurd rfl hin
      | rfl
      | (cases p <;> first | rfl | cases hread)

namespace Where

mutual

/-- **A value without signs is read as the query without signs.**  By induction on the query;
only operands and indexes of paths have numbers. -/
theorem Reads.unsigned : ∀ {w : Where} {j : Json}, w.Reads j → w.unsigned.Reads j.unsigned
  | .and conditions, j, h => by
      obtain ⟨props, items, rfl, hnode, hitems, hne, hall⟩ := h
      refine ⟨_, _, rfl, hnode.unsigned, by rw [get?_unsigned, hitems]; rfl, ?_, hall.unsigned⟩
      rw [Json.unsignedItems_eq]
      exact fun h => hne (List.map_eq_nil_iff.1 h)
  | .or conditions, j, h => by
      obtain ⟨props, items, rfl, hnode, hitems, hne, hall⟩ := h
      refine ⟨_, _, rfl, hnode.unsigned, by rw [get?_unsigned, hitems]; rfl, ?_, hall.unsigned⟩
      rw [Json.unsignedItems_eq]
      exact fun h => hne (List.map_eq_nil_iff.1 h)
  | .not condition, j, h => by
      obtain ⟨props, k, rfl, hnode, hk, hreads⟩ := h
      exact ⟨_, _, rfl, hnode.unsigned, by rw [get?_unsigned, hk]; rfl, hreads.unsigned⟩
  | .comparison op path value, j, h => by
      obtain ⟨props, tokens, k, rfl, hnode, htokens, hpath, hvalid, hk, hread⟩ := h
      exact ⟨_, _, _, rfl, hnode.unsigned, by rw [get?_unsigned, htokens]; rfl,
        mapM_unsigned token?_unsigned hpath, hvalid.unsigned, by rw [get?_unsigned, hk]; rfl,
        readOperand_unsigned hread⟩

/-- **Conditions that are read are also read without the signs of zeros.**  By induction on the
conditions, together with the queries. -/
theorem ReadsAll.unsigned : ∀ {conditions : List (Option Where)} {items : List Json},
    ReadsAll conditions items → ReadsAll (unsignedAll conditions) (Json.unsignedItems items)
  | [], items, h => by
      obtain rfl : items = [] := h
      rfl
  | none :: _, items, h => h.elim
  | some w :: conditions, items, h => by
      obtain ⟨k, rest, rfl, hreads, hall⟩ := h
      exact ⟨_, _, rfl, hreads.unsigned, hall.unsigned⟩

end

mutual

/-- A query has as many nodes without the signs of zeros. -/
theorem nodes_unsigned : ∀ w : Where, w.unsigned.nodes = w.nodes
  | .and conditions => congrArg (· + 1) (nodesAll_unsigned conditions)
  | .or conditions => congrArg (· + 1) (nodesAll_unsigned conditions)
  | .not condition => congrArg (· + 1) (nodes_unsigned condition)
  | .comparison _ _ _ => rfl

/-- Conditions have as many nodes without the signs of zeros. -/
theorem nodesAll_unsigned : ∀ conditions, nodesAll (unsignedAll conditions) = nodesAll conditions
  | [] => rfl
  | none :: rest => nodesAll_unsigned rest
  | some condition :: rest => congrArg₂ (· + ·) (nodes_unsigned condition) (nodesAll_unsigned rest)

end

mutual

/-- A query is nested as deep without the signs of zeros. -/
theorem depth_unsigned : ∀ w : Where, w.unsigned.depth = w.depth
  | .and conditions => depthAll_unsigned conditions
  | .or conditions => depthAll_unsigned conditions
  | .not condition => congrArg (· + 1) (depth_unsigned condition)
  | .comparison _ _ _ => rfl

/-- Conditions are nested as deep without the signs of zeros. -/
theorem depthAll_unsigned : ∀ conditions, depthAll (unsignedAll conditions) = depthAll conditions
  | [] => rfl
  | none :: rest => depthAll_unsigned rest
  | some condition :: rest =>
      congrArg₂ (fun m n => max (m + 1) n) (depth_unsigned condition) (depthAll_unsigned rest)

end

mutual

/-- The comparisons of a query without the signs of zeros are its own, without them. -/
theorem comparisons_unsigned : ∀ w : Where, w.unsigned.comparisons =
    w.comparisons.map fun c => (c.1.map PathToken.unsigned, c.2.unsigned)
  | .and conditions => comparisonsAll_unsigned conditions
  | .or conditions => comparisonsAll_unsigned conditions
  | .not condition => comparisons_unsigned condition
  | .comparison _ _ _ => rfl

/-- The comparisons of conditions without the signs of zeros are their own, without them. -/
theorem comparisonsAll_unsigned : ∀ conditions, comparisonsAll (unsignedAll conditions) =
    (comparisonsAll conditions).map fun c => (c.1.map PathToken.unsigned, c.2.unsigned)
  | [] => rfl
  | none :: rest => comparisonsAll_unsigned rest
  | some condition :: rest => by
      rw [unsignedAll, comparisonsAll, comparisonsAll, List.map_append, comparisons_unsigned,
        comparisonsAll_unsigned]

end

end Where

/-- A path counts as many bytes without the signs of zeros: only its names count. -/
theorem pathBytes_unsigned (path : PropertyPath) :
    pathBytes (path.map PathToken.unsigned) = pathBytes path := by
  unfold pathBytes
  rw [List.filterMap_map]
  refine List.filterMap_congr fun token _ => ?_
  rcases token with ⟨_ | _ | x⟩ | name <;> rfl

/-- A primitive is written the same without the sign of a zero. -/
theorem stringify_primitive_unsigned (p : JsonPrimitive) : p.unsigned.stringify = p.stringify := by
  cases p with
  | number x => exact Json.text_unsigned x
  | null => rfl
  | bool b => rfl
  | string s => rfl

/-- An operand counts as many bytes without the signs of zeros, since these are not written.
For a list it is so element by element. -/
theorem QueryValue.bytes_unsigned (value : QueryValue) : value.unsigned.bytes = value.bytes := by
  cases value with
  | scalar p => exact congrArg (fun s => [utf8Length s]) (stringify_primitive_unsigned p)
  | set values =>
      rw [unsigned, bytes, bytes, List.map_map]
      refine List.map_congr_left fun o _ => ?_
      cases o with
      | none => rfl
      | some p => exact congrArg utf8Length (stringify_primitive_unsigned p)

/-- A query without signs is as cheap.  Its nodes, its depth and its bytes are the same. -/
theorem Where.Fits.unsigned {w : Where} (h : w.Fits) : w.unsigned.Fits := by
  have hbytes : w.unsigned.bytes = w.bytes := by
    rw [Where.bytes, Where.bytes, Where.comparisons_unsigned, List.flatMap_map]
    simp only [pathBytes_unsigned, QueryValue.bytes_unsigned]
  refine ⟨w.nodes_unsigned ▸ h.nodes_le, w.depth_unsigned ▸ h.depth_le, hbytes ▸ h.bytes_le,
    hbytes ▸ h.sum_le, fun c hc token htoken => ?_⟩
  rw [Where.comparisons_unsigned] at hc
  obtain ⟨d, hd, rfl⟩ := List.mem_map.1 hc
  obtain ⟨t, ht, rfl⟩ := List.mem_map.1 htoken
  exact PathToken.IsValid.unsigned (h.safe d hd t ht)

/-! ### Evaluation without signs -/

/-- The sign of a zero plays no part in `===`. -/
theorem FiniteNumber.same_unsigned (x y : FiniteNumber) : x.same y.unsigned = x.same y := by
  cases x <;> cases y <;> rfl

/-- The sign of a zero on the right plays no part in `<`. -/
theorem FiniteNumber.lt_unsigned (x y : FiniteNumber) : x.lt y.unsigned = x.lt y := by
  cases x <;> cases y <;> rfl

/-- The sign of a zero on the left plays no part in `<`. -/
theorem FiniteNumber.unsigned_lt (x y : FiniteNumber) : y.unsigned.lt x = y.lt x := by
  cases x <;> cases y <;> rfl

/-- A path without signs leads to the same value.  An index is looked up as a natural number,
and both zeros are the first element. -/
theorem readPath_unsigned : ∀ (path : PropertyPath) (j : Json),
    readPath (path.map PathToken.unsigned) j = readPath path j
  | [], _ => rfl
  | token :: path, j => by
      have ih := funext (readPath_unsigned path)
      rw [List.map_cons]
      rcases token with ⟨_ | _ | x⟩ | name
      · cases j <;> simp only [PathToken.unsigned, readPath, ih]
      · cases j <;> simp only [PathToken.unsigned, readPath, ih]
      · cases j <;> simp only [PathToken.unsigned, readPath, ih, toIndex?_unsigned]
      · cases j <;> simp only [PathToken.unsigned, readPath, ih]

/-- A value equals a primitive also without the sign of a zero.  `===` takes both zeros for the
same. -/
theorem samePrimitive_unsigned (source : Option Json) (p : JsonPrimitive) :
    samePrimitive source p.unsigned = samePrimitive source p := by
  unfold samePrimitive
  cases source >>= Json.prim? with
  | none => rfl
  | some q =>
      cases p with
      | number x =>
          cases q with
          | number y => exact FiniteNumber.same_unsigned y x
          | null => rfl
          | bool b => rfl
          | string s => rfl
      | null => rfl
      | bool b => rfl
      | string s => rfl

/-- An ordered comparison whose numbers do not see the sign of a zero does not see it.  Strings
are compared as they are. -/
theorem orderedCompare_unsigned {source : Option Json} {x : FiniteNumber}
    {numbers : FiniteNumber → FiniteNumber → Bool} {strings : JsString → JsString → Bool}
    (h : ∀ a, numbers a x.unsigned = numbers a x) :
    orderedCompare source (.number x.unsigned) numbers strings =
      orderedCompare source (.number x) numbers strings := by
  unfold orderedCompare
  cases source >>= Json.prim? with
  | none => rfl
  | some q =>
      cases q with
      | number a => exact h a
      | null => rfl
      | bool b => rfl
      | string s => rfl

/-- **No operator sees the sign of a zero** in its operand.  `===` and `<` do not tell the zeros
apart, and a string has none. -/
theorem compareScalar_unsigned (op : ComparisonOperator) (source : Option Json)
    (p : JsonPrimitive) : compareScalar op source p.unsigned = compareScalar op source p := by
  cases p with
  | null => rfl
  | bool b => rfl
  | string s => rfl
  | number x =>
      have hsame := fun source => samePrimitive_unsigned source (.number x)
      have hlt := fun a => FiniteNumber.lt_unsigned a x
      have hgt := fun a => FiniteNumber.unsigned_lt a x
      have heq := fun a => FiniteNumber.same_unsigned a x
      simp only [JsonPrimitive.unsigned] at hsame ⊢
      cases op with
      | eq => exact hsame source
      | ne => exact congrArg (!·) (hsame source)
      | lt => exact orderedCompare_unsigned hlt
      | gt => exact orderedCompare_unsigned hgt
      | lte => exact orderedCompare_unsigned fun a => congrArg₂ (· || ·) (hlt a) (heq a)
      | gte => exact orderedCompare_unsigned fun a => congrArg₂ (· || ·) (hgt a) (heq a)
      | contains =>
          rcases source with _ | (_ | b | y | t) | items | props
          · rfl
          · rfl
          · rfl
          · rfl
          · rfl
          · exact congrArg items.any (funext fun item => hsame (some item))
          · rfl
      | startsWith => simp only [compareScalar]
      | endsWith => simp only [compareScalar]
      | «in» => rfl

/-- Membership does not see the signs of zeros in the list.  Each element is compared by
`===`. -/
theorem memberOf_unsigned (source : Option Json) (values : List (Option JsonPrimitive)) :
    memberOf source (values.map (Option.map JsonPrimitive.unsigned)) = memberOf source values := by
  unfold memberOf
  rw [List.any_map]
  refine congrArg (values.any ·) (funext fun o => ?_)
  cases o with
  | none => rfl
  | some p => exact samePrimitive_unsigned source p

namespace Where

mutual

/-- **A query without signs holds of the same documents.**  By induction on the query.  Each
comparison is one by `===` or by order, along a path. -/
theorem test_unsigned (document : JsonObject) : ∀ w : Where,
    w.unsigned.test document = w.test document
  | .and conditions => testEvery_unsigned document conditions
  | .or conditions => testSome_unsigned document conditions
  | .not condition => congrArg (!·) (test_unsigned document condition)
  | .comparison op path (.scalar p) => (compareScalar_unsigned ..).trans
      (congrArg (compareScalar op · p) (readPath_unsigned path _))
  | .comparison _ path (.set values) => (memberOf_unsigned ..).trans
      (congrArg (memberOf · values) (readPath_unsigned path _))

/-- A list of conditions that must all hold is tested the same without the signs of zeros. -/
theorem testEvery_unsigned (document : JsonObject) : ∀ conditions,
    testEvery (unsignedAll conditions) document = testEvery conditions document
  | [] => rfl
  | none :: rest => testEvery_unsigned document rest
  | some condition :: rest =>
      congrArg₂ (· && ·) (test_unsigned document condition) (testEvery_unsigned document rest)

/-- A list of conditions of which one must hold is tested the same without the signs of
zeros. -/
theorem testSome_unsigned (document : JsonObject) : ∀ conditions,
    testSome (unsignedAll conditions) document = testSome conditions document
  | [] => rfl
  | none :: rest => testSome_unsigned document rest
  | some condition :: rest =>
      congrArg₂ (· || ·) (test_unsigned document condition) (testSome_unsigned document rest)

end

end Where

/-! ### Text -/

/-- A token is written as data. -/
theorem PathToken.isData_json (token : PathToken) : token.json.isData := by
  rcases token with ⟨_ | _ | x⟩ | name <;> rfl

/-- An operand is written as data. -/
theorem QueryValue.isData_json (value : QueryValue) : value.json.isData := by
  cases value with
  | scalar p => rfl
  | set values =>
      refine Json.isDataItems_iff.2 fun j hj => ?_
      obtain ⟨o, -, rfl⟩ := List.mem_map.1 hj
      rfl

namespace Where

mutual

/-- A query is written as data.  Its properties are in the order of the source's own
literals. -/
theorem isData_json : ∀ w : Where, w.json.isData
  | .and conditions => by
      refine Bool.and_eq_true_iff.2 ⟨isPropertyList_of_order ?_, ?_⟩
      · exact (⟨by decide, by decide⟩ : PropertyOrder [js "conditions", js "op"])
      · exact Bool.and_eq_true_iff.2 ⟨isDataItems_jsonAll conditions, rfl⟩
  | .or conditions => by
      refine Bool.and_eq_true_iff.2 ⟨isPropertyList_of_order ?_, ?_⟩
      · exact (⟨by decide, by decide⟩ : PropertyOrder [js "conditions", js "op"])
      · exact Bool.and_eq_true_iff.2 ⟨isDataItems_jsonAll conditions, rfl⟩
  | .not condition => by
      refine Bool.and_eq_true_iff.2 ⟨isPropertyList_of_order ?_, ?_⟩
      · exact (⟨by decide, by decide⟩ : PropertyOrder [js "condition", js "op"])
      · exact Bool.and_eq_true_iff.2 ⟨isData_json condition, rfl⟩
  | .comparison op path value => by
      refine Bool.and_eq_true_iff.2 ⟨isPropertyList_of_order ?_, ?_⟩
      · exact (⟨by decide, by decide⟩ : PropertyOrder [js "op", js "path", js "value"])
      · refine Json.isDataProps_iff.2 fun p hp => ?_
        simp only [List.mem_cons, List.not_mem_nil, or_false] at hp
        obtain rfl | rfl | rfl := hp
        · rfl
        · refine Json.isDataItems_iff.2 fun j hj => ?_
          obtain ⟨token, -, rfl⟩ := List.mem_map.1 hj
          exact token.isData_json
        · exact value.isData_json

/-- Conditions are written as data. -/
theorem isDataItems_jsonAll : ∀ conditions, Json.isDataItems (jsonAll conditions)
  | [] => rfl
  | none :: rest => isDataItems_jsonAll rest
  | some condition :: rest =>
      Bool.and_eq_true_iff.2 ⟨isData_json condition, isDataItems_jsonAll rest⟩

end

end Where

/-- **Membership is equality with a member.**  A list with a hole, or with `undefined`, is none
of those the theorem speaks of. -/
theorem test_in (path : PropertyPath) (values : List JsonPrimitive) (document : JsonObject) :
    (Where.comparison .in path (.set (values.map some))).test document ↔
      ∃ value ∈ values, (Where.comparison .eq path (.scalar value)).test document := by
  show memberOf _ (values.map some) = true ↔ _
  rw [memberOf, List.any_map, List.any_eq_true]
  exact Iff.rfl

/-- **The published grammar is what is parsed, and queries survive storage.**  For every
JSON value that keeps to the limits when it is a query, the parser accepts it exactly when
it is valid under the published schema.  What was parsed is parsed to itself, and what its
JSON text is read back as is parsed to a query that holds of the same documents.
Membership is equality with a member, and inequality is not equality. -/
theorem queries_survive :
    (∀ j : Json, (∀ w : Where, w.Reads j → w.Fits) → ∀ levels, 2 * j.height ≤ levels →
      ((∃ w, parseWhere defaultQueryLimits Json.graph j = .ok w) ↔
        queryJsonSchema.validates (levels + 3) queryJsonSchema.root j)) ∧
    (∀ j w, parseWhere defaultQueryLimits Json.graph j = .ok w →
      parseWhere defaultQueryLimits Json.graph w.json = .ok w ∧
      ∀ parse, ReadsJson parse → ∃ k w', parse w.json.stringify = some k ∧
        parseWhere defaultQueryLimits Json.graph k = .ok w' ∧
        ∀ document, w'.test document = w.test document) ∧
    (∀ path (values : List JsonPrimitive) document,
      (Where.comparison .in path (.set (values.map some))).test document ↔
        ∃ value ∈ values, (Where.comparison .eq path (.scalar value)).test document) ∧
    ∀ path value document, (Where.comparison .ne path (.scalar value)).test document =
      !(Where.comparison .eq path (.scalar value)).test document := by
  refine ⟨fun j hfits levels hlevels => ?_, fun j w h => ?_, test_in, fun _ _ _ => rfl⟩
  · rw [validates_iff hlevels]
    simp only [parseWhere_eq_ok]
    exact exists_congr fun w => and_iff_left_of_imp (hfits w)
  · obtain ⟨hreads, hfits⟩ := parseWhere_eq_ok.1 h
    refine ⟨parseWhere_eq_ok.2 ⟨hreads.json, hfits⟩, fun parse hparse => ?_⟩
    exact ⟨_, w.unsigned, hparse _ w.isData_json,
      parseWhere_eq_ok.2 ⟨hreads.json.unsigned, hfits.unsigned⟩,
      fun document => w.test_unsigned document⟩

/-- A query for a member of a list with a negative zero. -/
def membershipQuery : Json :=
  .obj [(js "op", .prim (.string (js "in"))), (js "path", .arr [.prim (.string (js "count"))]),
    (js "value", .arr [.prim .null, .prim (.number (.zero true))])]

/-- The query that it is. -/
def membershipWhere : Where :=
  .comparison .in [.name (js "count")] (.set [some .null, some (.number (.zero true))])

/-- A membership in a list with a negative zero is valid, and survives being written and read.
The theorem applies to it: it is within the limits, so that the schema accepts it too. -/
theorem membershipQuery_survives :
    queryJsonSchema.validates 7 queryJsonSchema.root membershipQuery ∧
    ∃ k w', readWritten membershipWhere.json.stringify = some k ∧
      parseWhere defaultQueryLimits Json.graph k = .ok w' ∧
      ∀ document, w'.test document = membershipWhere.test document := by
  have hparse : parseWhere defaultQueryLimits Json.graph membershipQuery =
      .ok membershipWhere := rfl
  obtain ⟨hreads, hfits⟩ := parseWhere_eq_ok.1 hparse
  have hlimits : ∀ w : Where, w.Reads membershipQuery → w.Fits := fun w hw =>
    (hreads.unique hw) ▸ hfits
  exact ⟨(queries_survive.1 _ hlimits 4 (by decide)).1 ⟨_, hparse⟩,
    (queries_survive.2.1 _ _ hparse).2 _ readsJson_readWritten⟩

end NewtonDB
