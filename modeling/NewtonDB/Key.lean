/-
# The key and index codecs

`encodeKey`, `encodeIndexValue` and `documentKey` of `src/key.ts`.  Both codecs
tag a value with its domain, and a string with its length, so they are injective
up to `===` (`encodeKey_eq_iff`, `encodeIndexValue_eq_iff`).
-/

import NewtonDB.Schema

namespace NewtonDB

/-- `encodeKey`. -/
def encodeKey : PrimaryKey → Except NewtonError JsString
  | .string key =>
      if key.length = 0 then
        .error (.invalidArgument (js "Primary keys cannot be empty strings"))
      else .ok (js "s:" ++ natText key.length ++ js ":" ++ key)
  | .number key =>
      match key with
      | .finite x =>
          if x.isSafeInteger then .ok (js "n:" ++ x.text)
          else .error (.invalidArgument (js "Numeric primary keys must be safe integers"))
      | _ => .error (.invalidArgument (js "Numeric primary keys must be safe integers"))

/-- `encodeIndexValue`; the numbers of plain data are finite. -/
def encodeIndexValue : JsonPrimitive → JsString
  | .null => js "z:"
  | .bool value => if value then js "b:1" else js "b:0"
  | .string value => js "s:" ++ natText value.length ++ js ":" ++ value
  | .number value => js "n:" ++ match value with
      | .zero _ => js "0"
      | x => x.text

/-- The field of a document as a primary key, when its type allows. -/
def Json.primaryKey? : Json → Option PrimaryKey
  | .prim (.string s) => some (.string s)
  | .prim (.number n) => some (.number (.finite n))
  | _ => none

/-- `documentKey`. -/
def documentKey (document : JsonObject) (schema : CollectionSchema) :
    Except NewtonError PrimaryKey :=
  match Assoc.get? document schema.primaryKey >>= Json.primaryKey? with
  | none => .error (.invalidArgument
      (js "A primary key must be a non-empty string or safe integer"))
  | some value => do
      let _ ← encodeKey value
      return value

/-- A length-tagged string determines the string.  The length is read up to the colon, which no
number has. -/
theorem tagged_injective {s t : JsString}
    (h : natText s.length ++ js ":" ++ s = natText t.length ++ js ":" ++ t) : s = t := by
  have hcut : ∀ u : JsString, (natText u.length ++ js ":" ++ u).takeWhile (· ≠ 58) =
      natText u.length := fun u => by
    rw [List.append_assoc]
    exact (isDigits_natText u.length).takeWhile_ne (by decide) u
  have hl := congrArg (List.takeWhile (· ≠ 58)) h
  rw [hcut, hcut] at hl
  rw [hl, List.append_assoc, List.append_assoc] at h
  exact List.append_cancel_left (List.append_cancel_left h)

/-- **The key codec is injective up to `===`.**  A key is a string or a safe integer, and the
text shows which. -/
theorem encodeKey_eq_iff {a b : PrimaryKey} {u v : JsString} (ha : encodeKey a = .ok u)
    (hb : encodeKey b = .ok v) : u = v ↔ a.same b = true := by
  match a, b with
  | .string s, .string t =>
      simp only [encodeKey] at ha hb
      split_ifs at ha hb
      obtain rfl := Except.ok.inj ha
      obtain rfl := Except.ok.inj hb
      simp only [PrimaryKey.same, beq_iff_eq]
      refine ⟨fun h => tagged_injective ?_, fun h => by rw [h]⟩
      rw [List.append_assoc, List.append_assoc] at h
      simpa [List.append_assoc] using h
  | .number (.finite x), .number (.finite y) =>
      simp only [encodeKey] at ha hb
      split_ifs at ha hb
      obtain rfl := Except.ok.inj ha
      obtain rfl := Except.ok.inj hb
      rw [List.append_cancel_left_eq, FiniteNumber.text_eq_iff]
      rfl
  | .string s, .number (.finite x) =>
      simp only [encodeKey] at ha hb
      split_ifs at ha hb
      obtain rfl := Except.ok.inj ha
      obtain rfl := Except.ok.inj hb
      simp [PrimaryKey.same, js]
  | .number (.finite x), .string s =>
      simp only [encodeKey] at ha hb
      split_ifs at ha hb
      obtain rfl := Except.ok.inj ha
      obtain rfl := Except.ok.inj hb
      simp [PrimaryKey.same, js]
  | .number .nan, _ => simp [encodeKey] at ha
  | .number (.infinity _), _ => simp [encodeKey] at ha
  | .string _, .number .nan => simp [encodeKey] at hb
  | .string _, .number (.infinity _) => simp [encodeKey] at hb
  | .number (.finite _), .number .nan => simp [encodeKey] at hb
  | .number (.finite _), .number (.infinity _) => simp [encodeKey] at hb

/-- The text of an index number is its printed form. -/
theorem encodeIndexValue_number (x : FiniteNumber) :
    encodeIndexValue (.number x) = js "n:" ++ x.text := by
  cases x <;> rfl

/-- **The index codec is injective up to `===`.**  The text shows the type; a number is printed,
and a string follows its mark. -/
theorem encodeIndexValue_eq_iff (a b : JsonPrimitive) :
    encodeIndexValue a = encodeIndexValue b ↔ a.same b = true := by
  have tag : ∀ (x y : UInt16) (s t : JsString), x ≠ y → x :: s ≠ y :: t :=
    fun x y s t h e => h (List.cons.inj e).1
  match a, b with
  | .null, .null => simp [JsonPrimitive.same]
  | .bool a, .bool b => cases a <;> cases b <;> decide
  | .number x, .number y =>
      rw [encodeIndexValue_number, encodeIndexValue_number, List.append_cancel_left_eq,
        FiniteNumber.text_eq_iff]
      rfl
  | .string s, .string t =>
      simp only [encodeIndexValue, JsonPrimitive.same, beq_iff_eq]
      refine ⟨fun h => tagged_injective ?_, fun h => by rw [h]⟩
      simpa [List.append_assoc] using h
  | .null, .bool b => cases b <;> decide
  | .bool b, .null => cases b <;> decide
  | .null, .number x => exact iff_of_false (tag _ _ _ _ (by decide)) Bool.false_ne_true
  | .number x, .null => exact iff_of_false (tag _ _ _ _ (by decide)) Bool.false_ne_true
  | .null, .string s => exact iff_of_false (tag _ _ _ _ (by decide)) Bool.false_ne_true
  | .string s, .null => exact iff_of_false (tag _ _ _ _ (by decide)) Bool.false_ne_true
  | .bool b, .number x =>
      exact iff_of_false (by cases b <;> exact tag _ _ _ _ (by decide)) (by simp [JsonPrimitive.same])
  | .number x, .bool b =>
      exact iff_of_false (by cases b <;> exact tag _ _ _ _ (by decide)) (by simp [JsonPrimitive.same])
  | .bool b, .string s =>
      exact iff_of_false (by cases b <;> exact tag _ _ _ _ (by decide)) (by simp [JsonPrimitive.same])
  | .string s, .bool b =>
      exact iff_of_false (by cases b <;> exact tag _ _ _ _ (by decide)) (by simp [JsonPrimitive.same])
  | .number x, .string s => exact iff_of_false (tag _ _ _ _ (by decide)) (by simp [JsonPrimitive.same])
  | .string s, .number x => exact iff_of_false (tag _ _ _ _ (by decide)) (by simp [JsonPrimitive.same])

/-- A primary key of the accepted domain: a non-empty string or a safe integer. -/
def PrimaryKey.IsAccepted : PrimaryKey → Prop
  | .string key => key ≠ []
  | .number (.finite x) => x.isSafeInteger
  | .number _ => False

/-- The accepted keys are those that have an encoding.  An empty string and a number that is no
safe integer are refused. -/
theorem PrimaryKey.isAccepted_iff (key : PrimaryKey) :
    key.IsAccepted ↔ ∃ encoded, encodeKey key = .ok encoded := by
  match key with
  | .string [] => exact iff_of_false (fun h => h rfl) fun h => by obtain ⟨_, h⟩ := h; cases h
  | .string (c :: s) => exact iff_of_true (List.cons_ne_nil c s) ⟨_, rfl⟩
  | .number (.finite x) =>
      by_cases hx : x.isSafeInteger
      · exact iff_of_true hx ⟨_, if_pos hx⟩
      · refine iff_of_false hx ?_
        rintro ⟨encoded, h⟩
        rw [encodeKey, if_neg hx] at h
        cases h
  | .number .nan => exact iff_of_false id fun h => by obtain ⟨_, h⟩ := h; cases h
  | .number (.infinity _) => exact iff_of_false id fun h => by obtain ⟨_, h⟩ := h; cases h

/-- **Both codecs are injective up to `===`**: the key codec on the keys it accepts, the index
codec on all primitives, whatever their types.  So one bucket, or one record, never holds two
values that the language tells apart. -/
theorem codecs_injective :
    (∀ a b : PrimaryKey, a.IsAccepted → b.IsAccepted → ∃ u v, encodeKey a = .ok u ∧
      encodeKey b = .ok v ∧ (u = v ↔ a.same b = true)) ∧
    ∀ u v : JsonPrimitive, encodeIndexValue u = encodeIndexValue v ↔ u.same v = true := by
  refine ⟨fun a b ha hb => ?_, encodeIndexValue_eq_iff⟩
  obtain ⟨u, hu⟩ := a.isAccepted_iff.1 ha
  obtain ⟨v, hv⟩ := b.isAccepted_iff.1 hb
  exact ⟨u, v, hu, hv, encodeKey_eq_iff hu hv⟩

/-- A string that looks like the encoding of a number is another key than the number.
The theorem says that the key codec keeps the two apart. -/
theorem encoded_number_apart : ∃ u v, encodeKey (.string (js "n:1")) = .ok u ∧
    encodeKey (.number (.finite (.ofNat 1))) = .ok v ∧
    (u = v ↔ PrimaryKey.same (.string (js "n:1")) (.number (.finite (.ofNat 1))) = true) :=
  codecs_injective.1 _ _ (by simp [PrimaryKey.IsAccepted, js]) (by
    show FiniteNumber.isSafeInteger _ = true
    decide +kernel)

end NewtonDB
