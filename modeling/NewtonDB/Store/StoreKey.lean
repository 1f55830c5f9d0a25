/-
# The keys of a store

What a primary key is for: a non-empty string, or an integer in the safe range.
`Key` is that, so an invalid key cannot be built and equality of keys is `===`.
The engine stores documents under the text `encodeKey` gives a key;
`encodeKey_eq_ok_iff` says that this is the text of its `Key`, and
`Key.encode_injective` that distinct keys have distinct texts.
-/

import NewtonDB.Key

namespace NewtonDB

/-- A valid primary key, up to `===`. -/
inductive Key where
  | string (value : JsString) (nonempty : value.length ≠ 0)
  | integer (value : ℤ) (safe : value.natAbs ≤ 2 ^ 53 - 1)
  deriving DecidableEq

/-- The text a key is stored under. -/
def Key.encode : Key → JsString
  | .string value _ => js "s:" ++ natText value.length ++ js ":" ++ value
  | .integer value _ => js "n:" ++ (FiniteNumber.ofInt value).text

/-- The key a caller's value denotes, when it denotes one. -/
def PrimaryKey.toKey? : PrimaryKey → Option Key
  | .string value => if h : value.length ≠ 0 then some (.string value h) else none
  | .number (.finite x) =>
      match x.toInt? with
      | some z => if h : z.natAbs ≤ 2 ^ 53 - 1 then some (.integer z h) else none
      | none => none
  | .number _ => none

/-- **`encodeKey` gives the text of the key a value denotes**, and fails where it
denotes none. -/
theorem encodeKey_eq_ok_iff {k : PrimaryKey} {text : JsString} :
    encodeKey k = .ok text ↔ ∃ key, k.toKey? = some key ∧ key.encode = text := by
  match k with
  | .string value =>
      by_cases h : value.length = 0
      · simp [encodeKey, PrimaryKey.toKey?, h]
      · simp [encodeKey, PrimaryKey.toKey?, h, Key.encode]
  | .number .nan => simp [encodeKey, PrimaryKey.toKey?]
  | .number (.infinity _) => simp [encodeKey, PrimaryKey.toKey?]
  | .number (.finite x) =>
      cases hz : x.toInt? with
      | none => simp [encodeKey, PrimaryKey.toKey?, FiniteNumber.isSafeInteger, hz]
      | some z =>
          by_cases hs : z.natAbs ≤ 2 ^ 53 - 1
          · have htext : x.text = (FiniteNumber.ofInt z).text :=
              (FiniteNumber.text_eq_iff ..).2
                (FiniteNumber.same_of_toInt? hz (FiniteNumber.toInt?_ofInt z))
            simp only [encodeKey, FiniteNumber.isSafeInteger, hz, decide_eq_true hs, if_true,
              PrimaryKey.toKey?, dif_pos hs, Option.some.injEq, exists_eq_left', Key.encode, htext,
              Except.ok.injEq]
          · simp only [encodeKey, FiniteNumber.isSafeInteger, hz, decide_eq_false hs,
              Bool.false_eq_true, if_false, PrimaryKey.toKey?, dif_neg hs, reduceCtorEq, false_and,
              exists_false]

/-- Every key is denoted by a value. -/
theorem Key.exists_primaryKey (key : Key) : ∃ k : PrimaryKey, k.toKey? = some key := by
  cases key with
  | string value h => exact ⟨.string value, by rw [PrimaryKey.toKey?, dif_pos h]⟩
  | integer z h =>
      refine ⟨.number (.finite (.ofInt z)), ?_⟩
      rw [PrimaryKey.toKey?, FiniteNumber.toInt?_ofInt]
      exact dif_pos h

/-- Values denote the same key exactly when they are `===`.  A key that is accepted is a string
or a safe integer, and a safe integer is its value. -/
theorem PrimaryKey.toKey?_eq_iff {a b : PrimaryKey} {key key' : Key} (ha : a.toKey? = some key)
    (hb : b.toKey? = some key') : key = key' ↔ a.same b = true := by
  match a, b with
  | .string s, .string t =>
      simp only [PrimaryKey.toKey?] at ha hb
      split_ifs at ha hb
      obtain rfl := Option.some.inj ha
      obtain rfl := Option.some.inj hb
      simp [PrimaryKey.same]
  | .number (.finite x), .number (.finite y) =>
      simp only [PrimaryKey.toKey?] at ha hb
      cases hx : x.toInt? with
      | none => rw [hx] at ha; cases ha
      | some z =>
          cases hy : y.toInt? with
          | none => rw [hy] at hb; cases hb
          | some w =>
              rw [hx] at ha
              rw [hy] at hb
              simp only at ha hb
              split_ifs at ha hb
              obtain rfl := Option.some.inj ha
              obtain rfl := Option.some.inj hb
              simp only [Key.integer.injEq, PrimaryKey.same, JsNumber.same]
              refine ⟨?_, fun h => ?_⟩
              · rintro rfl
                exact FiniteNumber.same_of_toInt? hx hy
              · have := FiniteNumber.toInt?_of_same h
                rw [hx, hy] at this
                exact Option.some.inj this
  | .string s, .number (.finite y) =>
      simp only [PrimaryKey.toKey?] at ha hb
      split_ifs at ha
      obtain rfl := Option.some.inj ha
      cases hy : y.toInt? with
      | none => rw [hy] at hb; cases hb
      | some w =>
          rw [hy] at hb
          simp only at hb
          split_ifs at hb
          obtain rfl := Option.some.inj hb
          simp [PrimaryKey.same]
  | .number (.finite x), .string t =>
      simp only [PrimaryKey.toKey?] at ha hb
      split_ifs at hb
      obtain rfl := Option.some.inj hb
      cases hx : x.toInt? with
      | none => rw [hx] at ha; cases ha
      | some z =>
          rw [hx] at ha
          simp only at ha
          split_ifs at ha
          obtain rfl := Option.some.inj ha
          simp [PrimaryKey.same]
  | .number .nan, _ => cases ha
  | .number (.infinity _), _ => cases ha
  | .string _, .number .nan => cases hb
  | .string _, .number (.infinity _) => cases hb
  | .number (.finite _), .number .nan => cases hb
  | .number (.finite _), .number (.infinity _) => cases hb

/-- **Distinct keys have distinct texts.**  The text tells a string from a number, and a number
is printed in one way. -/
theorem Key.encode_injective {a b : Key} (h : a.encode = b.encode) : a = b := by
  obtain ⟨x, hx⟩ := a.exists_primaryKey
  obtain ⟨y, hy⟩ := b.exists_primaryKey
  refine (PrimaryKey.toKey?_eq_iff hx hy).2 ?_
  exact (encodeKey_eq_iff (encodeKey_eq_ok_iff.2 ⟨a, hx, rfl⟩)
    (encodeKey_eq_ok_iff.2 ⟨b, hy, rfl⟩)).1 h

/-- The key of a document. -/
def keyOf (schema : CollectionSchema) (document : JsonObject) : Option Key :=
  Assoc.get? document schema.primaryKey >>= Json.primaryKey? >>= PrimaryKey.toKey?

/-- `documentKey` succeeds where the document has a key.  The store's key is the number or the
string, without a sign of zero. -/
theorem keyOf_of_documentKey {schema : CollectionSchema} {document : JsonObject} {k : PrimaryKey}
    (h : documentKey document schema = .ok k) : keyOf schema document = k.toKey? := by
  unfold documentKey at h
  unfold keyOf
  cases hv : Assoc.get? document schema.primaryKey >>= Json.primaryKey? with
  | none => rw [hv] at h; cases h
  | some value =>
      rw [hv] at h
      obtain ⟨_, -, h⟩ := bind_eq_ok.1 h
      rw [← Except.ok.inj h]
      rfl

end NewtonDB
