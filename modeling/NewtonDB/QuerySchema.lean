/-
# The published query grammar

`queryJsonSchema` of `src/query-schema.ts`, and what is valid under it: **exactly the
values that are read as a query** (`validates_iff`).
-/

import NewtonDB.Js.JsonSchema
import NewtonDB.QueryGrammar

namespace NewtonDB

open JsonSchema

/-! ### The schema -/

/-- The first alternative of `$defs.boolean`. -/
def conditionsSchema : JsonSchema :=
  .all [
    .properties [
      (js "conditions", .all [.items [] (.ref (js "where")), .minItems 1, .type .array]),
      (js "op", .enum [js "and", js "or"])] false,
    .required [js "op", js "conditions"],
    .type .object]

/-- The second alternative of `$defs.boolean`. -/
def conditionSchema : JsonSchema :=
  .all [
    .properties [
      (js "condition", .ref (js "where")),
      (js "op", .const (js "not"))] false,
    .required [js "op", js "condition"],
    .type .object]

/-- `$defs.boolean`. -/
def booleanSchema : JsonSchema := .oneOf [conditionsSchema, conditionSchema]

/-- An alternative of `$defs.comparison`. -/
def comparisonAlternative (operator value : JsonSchema) : JsonSchema :=
  .all [
    .properties [(js "op", operator), (js "path", .ref (js "path")), (js "value", value)] false,
    .required [js "op", js "path", js "value"],
    .type .object]

/-- `$defs.comparison`. -/
def comparisonSchema : JsonSchema :=
  .oneOf [
    comparisonAlternative
      (.enum [js "contains", js "eq", js "gt", js "gte", js "lt", js "lte", js "ne"])
      (.ref (js "primitive")),
    comparisonAlternative (.enum [js "endsWith", js "startsWith"]) (.type .string),
    comparisonAlternative (.const (js "in"))
      (.all [.items [] (.ref (js "primitive")), .maxItems 10000, .type .array])]

/-- `$defs.path`. -/
def pathSchema : JsonSchema :=
  .all [
    .items [.type .string] (.anyOf [.type .string, .all [.minimum (.zero false), .type .integer]]),
    .maxItems 32,
    .minItems 1,
    .type .array]

/-- `$defs.primitive`. -/
def primitiveSchema : JsonSchema :=
  .anyOf [.type .boolean, .type .null, .type .number, .type .string]

/-- `$defs.where`. -/
def whereSchema : JsonSchema :=
  .oneOf [.ref (js "boolean"), .ref (js "comparison")]

/-- `queryJsonSchema`. -/
def queryJsonSchema : JsonSchemaDocument where
  defs := [(js "boolean", booleanSchema), (js "comparison", comparisonSchema),
    (js "path", pathSchema), (js "primitive", primitiveSchema), (js "where", whereSchema)]
  root := .ref (js "where")

variable {resolve : JsString → Json → Bool} {j k : Json} {levels : ℕ}

/-! ### Paths and primitives -/

/-- A string is what is read as a name. -/
theorem check_typeString :
    check resolve (.type .string) k ↔ ∃ name, k.token? = some (.name name) := by
  rcases k with (_ | b | x | t) | items | props <;> simp [check, JsonType.admits, Json.token?]

/-- A number from zero on without a fraction is a natural number.  A minimum of zero admits both
zeros. -/
theorem check_natural (x : FiniteNumber) :
    check resolve (.all [.minimum (.zero false), .type .integer]) (.prim (.number x)) ↔
      ∃ n : ℕ, x.toInt? = some (n : ℤ) := by
  have hcheck : check resolve (.all [.minimum (.zero false), .type .integer]) (.prim (.number x)) ↔
      x.lt (.zero false) = false ∧ x.toInt?.isSome := by
    rw [check_all]
    simp [check, JsonType.admits]
  rw [hcheck]
  cases x with
  | zero s => exact iff_of_true ⟨rfl, rfl⟩ ⟨0, rfl⟩
  | nonzero s d =>
      rw [FiniteNumber.lt, FiniteNumber.toInt?, Option.isSome_map]
      cases s with
      | false =>
          rw [and_iff_right rfl, Option.isSome_iff_exists]
          simp
      | true =>
          refine iff_of_false (fun h => Bool.noConfusion h.1) ?_
          rintro ⟨n, hn⟩
          obtain ⟨m, hm, heq⟩ := Option.map_eq_some_iff.1 hn
          have hpos : 0 < m := by
            unfold Decimal.toNat? at hm
            split_ifs at hm
            obtain rfl := Option.some.inj hm
            exact Nat.mul_pos d.digits_pos (Nat.pow_pos (by decide))
          simp only [if_true] at heq
          omega

/-- A token behind the first.  A string is a name, and a number must be one from zero on without
a fraction. -/
theorem check_token :
    check resolve (.anyOf [.type .string, .all [.minimum (.zero false), .type .integer]]) k ↔
      ∃ token, k.token? = some token ∧ token.IsNatural := by
  rw [check_anyOf]
  simp only [List.mem_cons, List.not_mem_nil, exists_eq_or_imp, or_false, exists_eq_left]
  rcases k with (_ | b | x | t) | items | props
  · simp [check, countValid, JsonType.admits, Json.token?]
  · simp [check, countValid, JsonType.admits, Json.token?]
  · rw [check_natural]
    simp [check, JsonType.admits, Json.token?, PathToken.IsNatural]
  · simp [check, JsonType.admits, Json.token?, PathToken.IsNatural]
  · simp [check, countValid, JsonType.admits, Json.token?]
  · simp [check, countValid, JsonType.admits, Json.token?]

/-- The tokens of a list.  The path is what they are read as, one after the other. -/
theorem forall_token {tokens : List Json} :
    (∀ k ∈ tokens, ∃ token, k.token? = some token ∧ token.IsNatural) ↔
      ∃ path, tokens.mapM Json.token? = some path ∧ ∀ token ∈ path, token.IsNatural := by
  constructor
  · intro h
    induction tokens with
    | nil => exact ⟨[], rfl, fun t ht => by cases ht⟩
    | cons k tokens ih =>
        obtain ⟨⟨token, htoken, hnat⟩, hrest⟩ := List.forall_mem_cons.1 h
        obtain ⟨path, hpath, hall⟩ := ih hrest
        exact ⟨token :: path, mapM_eq_some.2 (.cons htoken (mapM_eq_some.1 hpath)),
          List.forall_mem_cons.2 ⟨hnat, hall⟩⟩
  · rintro ⟨path, hpath, hall⟩
    replace hpath := mapM_eq_some.1 hpath
    induction hpath with
    | nil => exact fun k hk => by cases hk
    | cons htoken _ ih =>
        obtain ⟨hnat, hall⟩ := List.forall_mem_cons.1 hall
        exact List.forall_mem_cons.2 ⟨⟨_, htoken, hnat⟩, ih hall⟩

/-- **`$defs.path` is the paths of the grammar.**  A name comes first; the bounds on the length
are those of the parser. -/
theorem check_pathSchema : check resolve pathSchema j ↔ ∃ tokens path, j = .arr tokens ∧
    tokens.mapM Json.token? = some path ∧ IsQueryPath path := by
  unfold pathSchema
  rw [check_array (by simp)]
  refine exists_congr fun tokens => ?_
  rw [exists_and_left]
  refine and_congr_right fun _ => ?_
  have hbounds : (∀ bound ∈ [JsonSchema.maxItems 32, .minItems 1, .type .array],
      check resolve bound (.arr tokens)) ↔ tokens.length ≤ 32 ∧ 0 < tokens.length := by
    simp [check, Json.items?, JsonType.admits, Nat.one_le_iff_ne_zero, Nat.pos_iff_ne_zero]
  simp only [hbounds, check_token]
  cases tokens with
  | nil =>
      refine iff_of_false (fun h => absurd h.1.2 (Nat.lt_irrefl 0)) ?_
      rintro ⟨path, hpath, hvalid⟩
      obtain ⟨name, rest, rfl⟩ := hvalid.named
      cases hpath
  | cons k tokens =>
      have hfirst : checkItems resolve [.type .string] (k :: tokens) ↔
          ∃ name, k.token? = some (.name name) := by
        rw [checkItems_cons_cons, checkItems_nil, Bool.and_true, check_typeString]
      simp only [hfirst, List.length_singleton, List.drop_succ_cons, List.drop_zero, forall_token]
      constructor
      · rintro ⟨⟨hlen, -⟩, ⟨name, hname⟩, path, hpath, hall⟩
        have hall' : (k :: tokens).mapM Json.token? = some (.name name :: path) :=
          mapM_eq_some.2 (.cons hname (mapM_eq_some.1 hpath))
        exact ⟨.name name :: path, hall', ⟨name, path, rfl⟩, hlen.trans_eq'
          (mapM_eq_some.1 hall').length_eq, List.forall_mem_cons.2 ⟨trivial, hall⟩⟩
      · rintro ⟨path, hpath, hvalid⟩
        have hlength := (mapM_eq_some.1 hpath).length_eq
        obtain ⟨name, rest, rfl⟩ := hvalid.named
        obtain ⟨hname, hrest⟩ := List.forall₂_cons.1 (mapM_eq_some.1 hpath)
        exact ⟨⟨hlength ▸ hvalid.length_le, Nat.succ_pos _⟩, ⟨name, hname⟩, rest,
          mapM_eq_some.2 hrest, (List.forall_mem_cons.1 hvalid.natural).2⟩

/-- The schema of primitives is met by primitives. -/
theorem check_primitiveSchema : check resolve primitiveSchema j ↔ ∃ p, j.prim? = some p := by
  unfold primitiveSchema
  rw [check_anyOf]
  rcases j with (_ | b | x | t) | items | props <;> simp [check, JsonType.admits, Json.prim?]

/-! ### Operators -/

/-- An object with one of certain operators. -/
def HasOperator (names : List JsString) (j : Json) : Prop :=
  ∃ props name, j = .obj props ∧ name ∈ names ∧
    Assoc.get? props (js "op") = some (.prim (.string name))

/-- No value has operators of two lists that share none. -/
theorem HasOperator.disjoint {names names' : List JsString} (h : HasOperator names j)
    (h' : HasOperator names' j) (hnames : ∀ name ∈ names, name ∉ names') : False := by
  obtain ⟨props, name, rfl, hname, hget⟩ := h
  obtain ⟨_, name', heq, hname', hget'⟩ := h'
  cases heq
  cases hget.symm.trans hget'
  exact hnames name hname hname'

/-- An enumeration of operators is met by their names. -/
theorem check_enum {names : List JsString} :
    check resolve (.enum names) k ↔ ∃ name ∈ names, k = .prim (.string name) := by
  simp [check]

/-- A constant operator is met by its name. -/
theorem check_const {name : JsString} :
    check resolve (.const name) k ↔ ∃ name' ∈ [name], k = .prim (.string name') := by
  simp [check]

/-- What a schema says of the operator.  The names are those the schema enumerates for it. -/
theorem hasOperator_of_check {schema : JsonSchema} {names required : List JsString}
    {properties : List (JsString × JsonSchema)}
    (h : check resolve (.all [.properties properties false, .required required, .type .object]) j)
    (hschema : (js "op", schema) ∈ properties) (hrequired : js "op" ∈ required)
    (hnames : ∀ k, check resolve schema k ↔ ∃ name ∈ names, k = .prim (.string name)) :
    HasOperator names j := by
  obtain ⟨props, rfl, -, hall, hvalid⟩ := check_object.1 h
  obtain ⟨value, hvalue⟩ := hall _ hrequired
  obtain ⟨name, hname, rfl⟩ := (hnames value).1 (hvalid _ hschema value hvalue)
  exact ⟨props, name, rfl, hname, hvalue⟩

/-! ### Comparisons -/

/-- One of the alternatives for comparisons.  Its path, its operator and its value are read on
their own. -/
theorem check_alternative (operator value : JsonSchema) (ops : List ComparisonOperator)
    (hpath : ∀ k, resolve (js "path") k ↔ ∃ tokens path, k = .arr tokens ∧
      tokens.mapM Json.token? = some path ∧ IsQueryPath path)
    (hoperator : ∀ k, check resolve operator k ↔
      ∃ name ∈ ops.map ComparisonOperator.name, k = .prim (.string name))
    (hvalue : ∀ op ∈ ops, ∀ k, check resolve value k ↔ ∃ v, readOperand op k = some v) :
    check resolve (comparisonAlternative operator value) j ↔
      ∃ op ∈ ops, ∃ path v, (Where.comparison op path v).Reads j := by
  unfold comparisonAlternative
  rw [check_object]
  constructor
  · rintro ⟨props, rfl, hclosed, hrequired, hvalid⟩
    simp only [List.forall_mem_cons] at hrequired hvalid
    obtain ⟨⟨o, ho⟩, ⟨p, hp⟩, ⟨k, hk⟩, -⟩ := hrequired
    obtain ⟨hvo, hvp, hvk, -⟩ := hvalid
    obtain ⟨_, hname, rfl⟩ := (hoperator o).1 (hvo o ho)
    obtain ⟨op, hop, rfl⟩ := List.mem_map.1 hname
    obtain ⟨tokens, path, rfl, hread, hquery⟩ := (hpath p).1 (hvp p hp)
    obtain ⟨v, hv⟩ := (hvalue op hop k).1 (hvk k hk)
    exact ⟨op, hop, path, v, props, tokens, k, rfl, ⟨hclosed, ho⟩, hp, hread, hquery, hk, hv⟩
  · rintro ⟨op, hop, path, v, props, tokens, k, rfl, ⟨hclosed, ho⟩, hp, hread, hquery, hk, hv⟩
    refine ⟨props, rfl, hclosed, ?_, ?_⟩
    · simp only [List.forall_mem_cons]
      exact ⟨⟨_, ho⟩, ⟨_, hp⟩, ⟨_, hk⟩, fun _ h => by cases h⟩
    · simp only [List.forall_mem_cons, ho, hp, hk]
      refine ⟨?_, ?_, ?_, fun _ h => by cases h⟩
      · rintro _ ⟨⟩
        exact (hoperator _).2 ⟨_, List.mem_map_of_mem hop, rfl⟩
      · rintro _ ⟨⟩
        exact (hpath _).2 ⟨tokens, path, rfl, hread, hquery⟩
      · rintro _ ⟨⟩
        exact (hvalue op hop _).2 ⟨v, hv⟩

/-- The operands that are any primitive. -/
theorem exists_readOperand {op : ComparisonOperator}
    (h : op ∈ [ComparisonOperator.contains, .eq, .gt, .gte, .lt, .lte, .ne]) :
    (∃ v, readOperand op k = some v) ↔ ∃ p, k.prim? = some p := by
  cases op <;> first | exact absurd h (by decide) | cases k <;> simp [readOperand, Json.prim?]

/-- The operands that are strings. -/
theorem exists_readOperand_string {op : ComparisonOperator}
    (h : op ∈ [ComparisonOperator.endsWith, .startsWith]) :
    (∃ v, readOperand op k = some v) ↔ check resolve (.type .string) k := by
  cases op <;> first
    | exact absurd h (by decide)
    | rcases k with (_ | b | x | t) | items | props <;>
        simp [readOperand, check, JsonType.admits]

/-- The operand of `in`.  Its items are primitives, and there are at most so many. -/
theorem exists_readOperand_in (hprim : ∀ k, resolve (js "primitive") k ↔ ∃ p, k.prim? = some p) :
    (∃ v, readOperand .in k = some v) ↔
      check resolve (.all [.items [] (.ref (js "primitive")), .maxItems 10000, .type .array])
        k := by
  rw [check_array (by simp)]
  cases k with
  | prim p => simp [readOperand]
  | obj props => simp [readOperand]
  | arr items =>
      have hbounds : (∀ bound ∈ [JsonSchema.maxItems 10000, .type .array],
          check resolve bound (.arr items)) ↔ items.length ≤ 10000 := by
        simp [check, Json.items?, JsonType.admits]
      have hitems : (∀ item ∈ items, check resolve (.ref (js "primitive")) item) ↔
          ∃ ps, items.mapM Json.prim? = some ps :=
        (forall₂_congr fun item _ => hprim item).trans exists_mapM_eq_some.symm
      simp only [Json.arr.injEq, exists_eq_left', checkItems_nil, true_and, List.length_nil,
        List.drop_zero, hbounds, hitems, readOperand]
      split_ifs with hlen
      · simp [hlen]
      · simp [hlen]

/-- **`$defs.comparison` is the comparisons of the grammar.**  One schema for `in`, whose
operand is a list, and one for the other operators. -/
theorem check_comparisonSchema
    (hpath : ∀ k, resolve (js "path") k ↔ ∃ tokens path, k = .arr tokens ∧
      tokens.mapM Json.token? = some path ∧ IsQueryPath path)
    (hprim : ∀ k, resolve (js "primitive") k ↔ ∃ p, k.prim? = some p) :
    check resolve comparisonSchema j ↔
      ∃ op path v, (Where.comparison op path v).Reads j := by
  have hplain := check_alternative (j := j) (.enum _) (.ref (js "primitive"))
    [.contains, .eq, .gt, .gte, .lt, .lte, .ne] hpath (fun k => check_enum) fun op hop k =>
      (hprim k).trans (exists_readOperand hop).symm
  have hstring := check_alternative (j := j) (.enum _) (.type .string) [.endsWith, .startsWith]
    hpath (fun k => check_enum) fun op hop k => (exists_readOperand_string hop).symm
  have hin := check_alternative (j := j) (.const _) _ [.in] hpath (fun k => check_const)
    fun op hop k => (List.mem_singleton.1 hop) ▸ (exists_readOperand_in hprim).symm
  have hany : (∃ op path v, (Where.comparison op path v).Reads j) ↔
      ∃ op ∈ [ComparisonOperator.contains, .eq, .gt, .gte, .lt, .lte, .ne] ++
        [.endsWith, .startsWith] ++ [.in], ∃ path v, (Where.comparison op path v).Reads j :=
    exists_congr fun op => (and_iff_right (by cases op <;> decide)).symm
  unfold comparisonSchema
  rw [check_oneOf ?_]
  · simp only [List.mem_cons, List.not_mem_nil, or_false, exists_eq_or_imp, exists_eq_left]
    rw [hany]
    refine (or_congr hplain (or_congr hstring hin)).trans ?_
    simp only [List.mem_append, or_and_right, exists_or, or_assoc]
  · have hop : ∀ {operator value : JsonSchema} {names : List JsString},
        (∀ k, check resolve operator k ↔ ∃ name ∈ names, k = .prim (.string name)) →
        check resolve (comparisonAlternative operator value) j → HasOperator names j :=
      fun hnames h => hasOperator_of_check h (List.mem_cons_self ..) (List.mem_cons_self ..) hnames
    simp only [List.pairwise_cons, List.forall_mem_cons, List.not_mem_nil, false_implies,
      implies_true, List.Pairwise.nil, and_true]
    refine ⟨⟨fun h h' => ?_, fun h h' => ?_⟩, fun h h' => ?_⟩
    · exact (hop (fun _ => check_enum) h).disjoint (hop (fun _ => check_enum) h') (by decide)
    · exact (hop (fun _ => check_enum) h).disjoint (hop (fun _ => check_const) h') (by decide)
    · exact (hop (fun _ => check_enum) h).disjoint (hop (fun _ => check_const) h') (by decide)

/-! ### Boolean conditions -/

/-- A query that is not a comparison. -/
def Where.IsBoolean : Where → Prop
  | .comparison .. => False
  | _ => True

/-- An item is nested less deep than its array.  The height of an array is one more than the
largest of its items. -/
theorem height_lt_of_mem {items : List Json} (h : k ∈ items) :
    k.height < (Json.arr items).height := by
  show k.height < Json.heightItems items
  induction items with
  | nil => cases h
  | cons item items ih =>
      rw [Json.heightItems]
      obtain rfl | h := List.mem_cons.1 h
      · omega
      · have := ih h
        omega

/-- The value of a property is nested less deep than its object.  Whichever property of the name
is found, it is one of the object's. -/
theorem height_lt_of_get? {props : List (JsString × Json)} {name : JsString}
    (h : Assoc.get? props name = some k) : k.height < (Json.obj props).height := by
  show k.height < Json.heightProps props
  induction props with
  | nil => cases h
  | cons p props ih =>
      obtain ⟨name', value⟩ := p
      rw [Assoc.get?] at h
      rw [Json.heightProps]
      split_ifs at h
      · obtain rfl := Option.some.inj h
        omega
      · have := ih h
        omega

/-- The conditions of a list.  They are read one by one, into a list of the same length. -/
theorem exists_readsAll {l : List Json} :
    (∃ conditions, Where.ReadsAll conditions l) ↔ ∀ k ∈ l, ∃ w : Where, w.Reads k := by
  induction l with
  | nil => exact iff_of_true ⟨[], rfl⟩ fun k hk => by cases hk
  | cons k l ih =>
      rw [List.forall_mem_cons, ← ih]
      constructor
      · rintro ⟨conditions, h⟩
        cases conditions with
        | nil => cases h
        | cons condition conditions =>
            cases condition with
            | none => cases h
            | some w =>
                obtain ⟨_, _, heq, hreads, hrest⟩ := h
                obtain ⟨rfl, rfl⟩ := List.cons.inj heq
                exact ⟨⟨w, hreads⟩, conditions, hrest⟩
      · rintro ⟨⟨w, hreads⟩, conditions, hrest⟩
        exact ⟨some w :: conditions, k, l, rfl, hreads, hrest⟩

/-- The lists of conditions.  What the reference to a query means is known for everything that
is nested less deep. -/
theorem check_conditionsSchema
    (hwhere : ∀ k, k.height < j.height → (resolve (js "where") k ↔ ∃ w : Where, w.Reads k)) :
    check resolve conditionsSchema j ↔
      ∃ conditions, (Where.and conditions).Reads j ∨ (Where.or conditions).Reads j := by
  have hlist : ∀ {props : List (JsString × Json)} {c : Json}, j = .obj props →
      Assoc.get? props (js "conditions") = some c →
      (check resolve (.all [.items [] (.ref (js "where")), .minItems 1, .type .array]) c ↔
        ∃ l, c = .arr l ∧ l ≠ [] ∧ ∃ conditions, Where.ReadsAll conditions l) := by
    rintro props c rfl hc
    rw [check_array (by simp)]
    refine exists_congr fun l => and_congr_right ?_
    rintro rfl
    have hheight : ∀ k ∈ l, k.height < (Json.obj props).height := fun k hk =>
      (height_lt_of_mem hk).trans (height_lt_of_get? hc)
    have hbounds : (∀ bound ∈ [JsonSchema.minItems 1, .type .array],
        check resolve bound (.arr l)) ↔ l ≠ [] := by
      simp [check, Json.items?, JsonType.admits, Nat.one_le_iff_ne_zero]
    have hall : (∀ k ∈ l, check resolve (.ref (js "where")) k) ↔
        ∃ conditions, Where.ReadsAll conditions l :=
      (forall₂_congr fun k hk => hwhere k (hheight k hk)).trans exists_readsAll.symm
    rw [hbounds, checkItems_nil, List.length_nil, List.drop_zero, hall]
    exact and_congr_right fun _ => and_iff_right rfl
  unfold conditionsSchema
  rw [check_object]
  constructor
  · rintro ⟨props, rfl, hclosed, hrequired, hvalid⟩
    simp only [List.forall_mem_cons] at hrequired hvalid
    obtain ⟨⟨o, ho⟩, ⟨c, hc⟩, -⟩ := hrequired
    obtain ⟨hvc, hvo, -⟩ := hvalid
    obtain ⟨name, hname, rfl⟩ := check_enum.1 (hvo o ho)
    obtain ⟨l, rfl, hne, conditions, hreads⟩ := (hlist rfl hc).1 (hvc c hc)
    obtain rfl | hname := List.mem_cons.1 hname
    · exact ⟨conditions, .inl ⟨props, l, rfl, ⟨hclosed, ho⟩, hc, hne, hreads⟩⟩
    · obtain rfl := List.mem_singleton.1 hname
      exact ⟨conditions, .inr ⟨props, l, rfl, ⟨hclosed, ho⟩, hc, hne, hreads⟩⟩
  · rintro ⟨conditions, ⟨props, l, rfl, ⟨hclosed, ho⟩, hc, hne, hreads⟩ |
      ⟨props, l, rfl, ⟨hclosed, ho⟩, hc, hne, hreads⟩⟩
    all_goals
      refine ⟨props, rfl, hclosed, ?_, ?_⟩
      · simp only [List.forall_mem_cons]
        exact ⟨⟨_, ho⟩, ⟨_, hc⟩, fun _ h => by cases h⟩
      · simp only [List.forall_mem_cons, ho, hc]
        refine ⟨?_, ?_, fun _ h => by cases h⟩
        · rintro _ ⟨⟩
          exact (hlist rfl hc).2 ⟨l, rfl, hne, conditions, hreads⟩
        · rintro _ ⟨⟩
          exact check_enum.2 ⟨_, by simp, rfl⟩

/-- The negations.  It has one condition under `condition`, which is nested less deep. -/
theorem check_conditionSchema
    (hwhere : ∀ k, k.height < j.height → (resolve (js "where") k ↔ ∃ w : Where, w.Reads k)) :
    check resolve conditionSchema j ↔ ∃ w, (Where.not w).Reads j := by
  unfold conditionSchema
  rw [check_object]
  constructor
  · rintro ⟨props, rfl, hclosed, hrequired, hvalid⟩
    simp only [List.forall_mem_cons] at hrequired hvalid
    obtain ⟨⟨o, ho⟩, ⟨c, hc⟩, -⟩ := hrequired
    obtain ⟨hvc, hvo, -⟩ := hvalid
    obtain ⟨name, hname, rfl⟩ := check_const.1 (hvo o ho)
    obtain rfl := List.mem_singleton.1 hname
    obtain ⟨w, hreads⟩ := (hwhere c (height_lt_of_get? hc)).1 (hvc c hc)
    exact ⟨w, props, c, rfl, ⟨hclosed, ho⟩, hc, hreads⟩
  · rintro ⟨w, props, c, rfl, ⟨hclosed, ho⟩, hc, hreads⟩
    refine ⟨props, rfl, hclosed, ?_, ?_⟩
    · simp only [List.forall_mem_cons]
      exact ⟨⟨_, ho⟩, ⟨_, hc⟩, fun _ h => by cases h⟩
    · simp only [List.forall_mem_cons, ho, hc]
      refine ⟨?_, ?_, fun _ h => by cases h⟩
      · rintro _ ⟨⟩
        exact (hwhere c (height_lt_of_get? hc)).2 ⟨w, hreads⟩
      · rintro _ ⟨⟩
        exact check_const.2 ⟨_, List.mem_singleton_self _, rfl⟩

/-- **`$defs.boolean` is the other conditions of the grammar.**  It refers to `$defs.where` for
smaller values only, which is why the hypothesis may be one by induction. -/
theorem check_booleanSchema
    (hwhere : ∀ k, k.height < j.height → (resolve (js "where") k ↔ ∃ w : Where, w.Reads k)) :
    check resolve booleanSchema j ↔ ∃ w : Where, w.IsBoolean ∧ w.Reads j := by
  unfold booleanSchema
  rw [check_oneOf ?_]
  · simp only [List.mem_cons, List.not_mem_nil, or_false, exists_eq_or_imp, exists_eq_left,
      check_conditionsSchema hwhere, check_conditionSchema hwhere]
    constructor
    · rintro (⟨conditions, hreads | hreads⟩ | ⟨w, hreads⟩)
      · exact ⟨.and conditions, trivial, hreads⟩
      · exact ⟨.or conditions, trivial, hreads⟩
      · exact ⟨.not w, trivial, hreads⟩
    · rintro ⟨w, hboolean, hreads⟩
      cases w with
      | and conditions => exact .inl ⟨conditions, .inl hreads⟩
      | or conditions => exact .inl ⟨conditions, .inr hreads⟩
      | not condition => exact .inr ⟨condition, hreads⟩
      | comparison op path value => exact hboolean.elim
  · simp only [List.pairwise_cons, List.mem_singleton, forall_eq, List.not_mem_nil, false_implies,
      implies_true, List.Pairwise.nil, and_true]
    intro h h'
    have hop : HasOperator [js "and", js "or"] j := hasOperator_of_check h
      (List.mem_cons_of_mem _ (List.mem_cons_self ..)) (List.mem_cons_self ..) fun _ => check_enum
    have hop' : HasOperator [js "not"] j := hasOperator_of_check h'
      (List.mem_cons_of_mem _ (List.mem_cons_self ..)) (List.mem_cons_self ..) fun _ => check_const
    exact hop.disjoint hop' (by decide)

/-! ### Conditions -/

/-- The operator of a query. -/
def Where.operator : Where → JsString
  | .and _ => js "and"
  | .or _ => js "or"
  | .not _ => js "not"
  | .comparison op _ _ => op.name

/-- What is read as a query has its operator.  It decides which of the alternatives of the
schema it can match. -/
theorem Where.Reads.hasOperator {w : Where} (h : w.Reads j) : HasOperator [w.operator] j := by
  cases w with
  | and conditions =>
      obtain ⟨props, _, rfl, hnode, -⟩ := h
      exact ⟨props, _, rfl, List.mem_singleton_self _, hnode.operator⟩
  | or conditions =>
      obtain ⟨props, _, rfl, hnode, -⟩ := h
      exact ⟨props, _, rfl, List.mem_singleton_self _, hnode.operator⟩
  | not condition =>
      obtain ⟨props, _, rfl, hnode, -⟩ := h
      exact ⟨props, _, rfl, List.mem_singleton_self _, hnode.operator⟩
  | comparison op path value =>
      obtain ⟨props, _, _, rfl, hnode, -⟩ := h
      exact ⟨props, _, rfl, List.mem_singleton_self _, hnode.operator⟩

/-- **`$defs.where` is the grammar.**  No value is both, since they share no operator; so
`oneOf` may be read as `anyOf`. -/
theorem check_whereSchema
    (hboolean : resolve (js "boolean") j ↔ ∃ w : Where, w.IsBoolean ∧ w.Reads j)
    (hcomparison : resolve (js "comparison") j ↔
      ∃ op path v, (Where.comparison op path v).Reads j) :
    check resolve whereSchema j ↔ ∃ w : Where, w.Reads j := by
  unfold whereSchema
  rw [check_oneOf ?_]
  · simp only [List.mem_cons, List.not_mem_nil, or_false, exists_eq_or_imp, exists_eq_left]
    refine (or_congr hboolean hcomparison).trans ⟨?_, ?_⟩
    · rintro (⟨w, -, hreads⟩ | ⟨op, path, v, hreads⟩)
      · exact ⟨w, hreads⟩
      · exact ⟨_, hreads⟩
    · rintro ⟨w, hreads⟩
      cases w with
      | and conditions => exact .inl ⟨.and conditions, trivial, hreads⟩
      | or conditions => exact .inl ⟨.or conditions, trivial, hreads⟩
      | not condition => exact .inl ⟨.not condition, trivial, hreads⟩
      | comparison op path value => exact .inr ⟨op, path, value, hreads⟩
  · simp only [List.pairwise_cons, List.mem_singleton, forall_eq, List.not_mem_nil, false_implies,
      implies_true, List.Pairwise.nil, and_true]
    intro h h'
    obtain ⟨w, hw, hreads⟩ := hboolean.1 h
    obtain ⟨op, path, v, hreads'⟩ := hcomparison.1 h'
    refine hreads.hasOperator.disjoint hreads'.hasOperator ?_
    simp only [List.mem_singleton, forall_eq]
    obtain ⟨hand, hor, hnot⟩ := name_ne_boolean op
    cases w with
    | and conditions => exact hand.symm
    | or conditions => exact hor.symm
    | not condition => exact hnot.symm
    | comparison op path value => exact hw.elim

/-- **The schema of paths is met by the paths of queries**: a name, and then names or natural
numbers. -/
theorem validates_path (levels : ℕ) : queryJsonSchema.validates levels pathSchema k ↔
    ∃ tokens path, k = .arr tokens ∧ tokens.mapM Json.token? = some path ∧ IsQueryPath path := by
  cases levels <;> exact check_pathSchema

/-- The schema of primitives is met by primitives, at any depth. -/
theorem validates_primitive (levels : ℕ) :
    queryJsonSchema.validates levels primitiveSchema k ↔ ∃ p, k.prim? = some p := by
  cases levels <;> exact check_primitiveSchema

/-- **What is valid under the published schema is what is read as a query**, when the
references are followed far enough. -/
theorem validates_iff {levels : ℕ} {j : Json} (h : 2 * j.height ≤ levels) :
    queryJsonSchema.validates (levels + 3) queryJsonSchema.root j ↔ ∃ w : Where, w.Reads j := by
  have hboolean : queryJsonSchema.validates (levels + 1) booleanSchema j ↔
      ∃ w : Where, w.IsBoolean ∧ w.Reads j := by
    refine check_booleanSchema fun k hk => ?_
    -- two references lead from a condition to one that it contains
    obtain ⟨n, rfl⟩ := Nat.exists_eq_add_of_le' (show 2 ≤ levels by omega)
    exact validates_iff (show 2 * k.height ≤ n by omega)
  have hcomparison : queryJsonSchema.validates (levels + 1) comparisonSchema j ↔
      ∃ op path v, (Where.comparison op path v).Reads j :=
    check_comparisonSchema (fun k => validates_path levels) fun k => validates_primitive levels
  exact check_whereSchema hboolean hcomparison

end NewtonDB
