/-
# JSON Schema

The keywords of JSON Schema 2020-12 that the published query grammar uses, as a tree
(`JsonSchema`), and the validation of a value against it.  A keyword says nothing about
values of another type than its own.  References go to the definitions of a document,
and each one that is followed uses up a level.
-/

import NewtonDB.Js.JsonData
import NewtonDB.Js.NumberOrder

namespace NewtonDB

/-- The types of the keyword `type`. -/
inductive JsonType where
  | null
  | boolean
  | number
  | integer
  | string
  | array
  | object
  deriving DecidableEq

/-- A value is of a type. -/
def JsonType.admits : JsonType → Json → Bool
  | .null, .prim .null => true
  | .boolean, .prim (.bool _) => true
  | .number, .prim (.number _) => true
  | .integer, .prim (.number x) => x.toInt?.isSome
  | .string, .prim (.string _) => true
  | .array, .arr _ => true
  | .object, .obj _ => true
  | _, _ => false

/-- A schema: one keyword, or several at once (`all`). -/
inductive JsonSchema where
  | all (keywords : List JsonSchema)
  | ref (name : JsString)
  | type (kind : JsonType)
  | const (value : JsString)
  | enum (values : List JsString)
  | minimum (value : FiniteNumber)
  | minItems (count : ℕ)
  | maxItems (count : ℕ)
  | items (first : List JsonSchema) (rest : JsonSchema)
  | properties (schemas : List (JsString × JsonSchema)) (additional : Bool)
  | required (names : List JsString)
  | anyOf (schemas : List JsonSchema)
  | oneOf (schemas : List JsonSchema)

/-- A schema with definitions. -/
structure JsonSchemaDocument where
  defs : List (JsString × JsonSchema)
  root : JsonSchema

/-- The items of an array. -/
def Json.items? : Json → Option (List Json)
  | .arr items => some items
  | _ => none

/-- The members of an object. -/
def Json.members? : Json → Option (List (JsString × Json))
  | .obj props => some props
  | _ => none

namespace JsonSchema

variable (resolve : JsString → Json → Bool)

mutual

/-- A value is valid, given what the definitions admit. -/
def check : JsonSchema → Json → Bool
  | .all keywords, j => countValid keywords j == keywords.length
  | .ref name, j => resolve name j
  | .type kind, j => kind.admits j
  | .const value, j => decide (j = .prim (.string value))
  | .enum values, j => values.any fun value => decide (j = .prim (.string value))
  | .minimum value, j =>
      match j with
      | .prim (.number x) => !x.lt value
      | _ => true
  | .minItems count, j => (j.items?.map fun items => decide (count ≤ items.length)).getD true
  | .maxItems count, j => (j.items?.map fun items => decide (items.length ≤ count)).getD true
  | .items first rest, j =>
      (j.items?.map fun items => checkItems first items &&
        (items.drop first.length).all fun item => check rest item).getD true
  | .properties schemas additional, j =>
      (j.members?.map fun members => checkProperties schemas members &&
        (additional || members.all fun p => (schemas.map Prod.fst).contains p.1)).getD true
  | .required names, j =>
      (j.members?.map fun members => names.all fun name => (Assoc.get? members name).isSome).getD
        true
  | .anyOf schemas, j => decide (0 < countValid schemas j)
  | .oneOf schemas, j => countValid schemas j == 1

/-- How many schemas a value is valid under. -/
def countValid : List JsonSchema → Json → ℕ
  | [], _ => 0
  | schema :: schemas, j => (check schema j).toNat + countValid schemas j

/-- The first items, each under its own schema. -/
def checkItems : List JsonSchema → List Json → Bool
  | schema :: schemas, j :: rest => check schema j && checkItems schemas rest
  | _, _ => true

/-- The members that have a schema. -/
def checkProperties : List (JsString × JsonSchema) → List (JsString × Json) → Bool
  | [], _ => true
  | (name, schema) :: schemas, members =>
      ((Assoc.get? members name).map fun value => check schema value).getD true &&
        checkProperties schemas members

end

variable {resolve} {schema : JsonSchema} {schemas : List JsonSchema} {j : Json} {items : List Json}
  {props : List (JsString × Json)}

/-! ### Schemas together -/

/-- How many are valid, of a list. -/
theorem countValid_eq : ∀ schemas : List JsonSchema,
    countValid resolve schemas j = schemas.countP fun schema => check resolve schema j
  | [] => by rw [countValid, List.countP_nil]
  | schema :: schemas => by
      rw [countValid, List.countP_cons, countValid_eq schemas, Nat.add_comm]
      cases check resolve schema j <;> rfl

/-- A value meets all the schemas of a list. -/
@[simp]
theorem check_all :
    check resolve (.all schemas) j ↔ ∀ schema ∈ schemas, check resolve schema j := by
  rw [check, countValid_eq, beq_iff_eq, List.countP_eq_length]

/-- A value meets one of the schemas of a list. -/
@[simp]
theorem check_anyOf :
    check resolve (.anyOf schemas) j ↔ ∃ schema ∈ schemas, check resolve schema j := by
  rw [check, countValid_eq, decide_eq_true_eq, List.countP_pos_iff]

/-- **Of schemas that exclude each other, one is valid when any is.**  So `oneOf` may be read as
`anyOf` where its schemas have no value in common. -/
theorem check_oneOf
    (h : schemas.Pairwise fun a b => check resolve a j → ¬check resolve b j) :
    check resolve (.oneOf schemas) j ↔ ∃ schema ∈ schemas, check resolve schema j := by
  rw [check, countValid_eq, beq_iff_eq, ← List.countP_pos_iff]
  have hle : (schemas.countP fun schema => check resolve schema j) ≤ 1 := by
    induction schemas with
    | nil => exact Nat.zero_le _
    | cons a schemas ih =>
        obtain ⟨ha, hrest⟩ := List.pairwise_cons.1 h
        rw [List.countP_cons]
        split_ifs with hvalid
        · rw [List.countP_eq_zero.2 fun b hb => ha b hb hvalid]
        · exact ih hrest
  omega

/-! ### Objects -/

/-- The schema of a property asks nothing where the property is missing.  Where it is there its
value must pass the property's own schema. -/
theorem check_properties {properties : List (JsString × JsonSchema)} :
    checkProperties resolve properties props ↔
      ∀ p ∈ properties, ∀ value, Assoc.get? props p.1 = some value → check resolve p.2 value := by
  induction properties with
  | nil => exact iff_of_true rfl fun p hp => by cases hp
  | cons p properties ih =>
      rw [checkProperties, Bool.and_eq_true, ih, List.forall_mem_cons]
      refine and_congr_left' ?_
      cases Assoc.get? props p.1 <;> simp

/-- **An object with certain properties and no others.**  It has the names that are required, no
other than those listed, and under each a value that is valid. -/
theorem check_object {properties : List (JsString × JsonSchema)} {names : List JsString} :
    check resolve (.all [.properties properties false, .required names, .type .object]) j ↔
      ∃ props, j = .obj props ∧ (∀ name ∈ props.map Prod.fst, name ∈ properties.map Prod.fst) ∧
        (∀ name ∈ names, ∃ value, Assoc.get? props name = some value) ∧
        ∀ p ∈ properties, ∀ value, Assoc.get? props p.1 = some value →
          check resolve p.2 value := by
  rw [check_all]
  cases j with
  | prim p => simp [check, JsonType.admits]
  | arr items => simp [check, JsonType.admits]
  | obj props =>
      simp only [List.forall_mem_cons, check, Json.members?, Option.map_some, Option.getD_some,
        Bool.and_eq_true, check_properties, Bool.false_or, List.all_eq_true,
        Option.isSome_iff_exists, JsonType.admits, Json.obj.injEq, exists_eq_left',
        List.forall_mem_map, List.contains_iff_mem]
      tauto

/-! ### Arrays -/

/-- Where no schemas are left, nothing is asked of the other items. -/
@[simp]
theorem checkItems_nil (items : List Json) : checkItems resolve [] items = true := by
  cases items <;> rfl

/-- The schemas of a list are met by the items in the order of both. -/
@[simp]
theorem checkItems_cons_cons : checkItems resolve (schema :: schemas) (j :: items) =
    (check resolve schema j && checkItems resolve schemas items) := rfl

/-- **An array of certain items.**  The first items have schemas of their own, and one schema is
for all the others. -/
theorem check_array {bounds : List JsonSchema} (h : .type .array ∈ bounds) :
    check resolve (.all (.items schemas schema :: bounds)) j ↔
      ∃ items, j = .arr items ∧ (∀ bound ∈ bounds, check resolve bound (.arr items)) ∧
        checkItems resolve schemas items ∧
        ∀ item ∈ items.drop schemas.length, check resolve schema item := by
  rw [check_all, List.forall_mem_cons]
  constructor
  · rintro ⟨hitems, hbounds⟩
    cases j with
    | arr items =>
        obtain ⟨hfirst, hrest⟩ := Bool.and_eq_true_iff.1 hitems
        exact ⟨items, rfl, hbounds, hfirst, List.all_eq_true.1 hrest⟩
    | prim p => exact absurd (hbounds _ h) (by cases p <;> exact Bool.false_ne_true)
    | obj props => exact absurd (hbounds _ h) Bool.false_ne_true
  · rintro ⟨items, rfl, hbounds, hfirst, hrest⟩
    exact ⟨Bool.and_eq_true_iff.2 ⟨hfirst, List.all_eq_true.2 hrest⟩, hbounds⟩

end JsonSchema

/-- A value is valid, when so many references may be followed. -/
def JsonSchemaDocument.validates (document : JsonSchemaDocument) : ℕ → JsonSchema → Json → Bool
  | 0 => JsonSchema.check fun _ _ => false
  | levels + 1 => JsonSchema.check fun name j =>
      match Assoc.get? document.defs name with
      | some schema => validates document levels schema j
      | none => false

end NewtonDB
