/-
# JSON trees and their text

`Json` is plain data: the value a frozen document, a snapshot or the result of
`JSON.parse` holds.  An object is the list of its own properties in property
order; `defineProperty` keeps the order of the language, array indices ascending
before the other names in insertion order.  `stringify` is `JSON.stringify`
without indentation, including its escaping of unpaired surrogates.
-/

import NewtonDB.Js.Number
import NewtonDB.Lib.OrderedMap

namespace NewtonDB

/-- `null`, a boolean, a finite number or a string (`JsonPrimitive`). -/
inductive JsonPrimitive where
  | null
  | bool (value : Bool)
  | number (value : FiniteNumber)
  | string (value : JsString)
  deriving DecidableEq

/-- Plain data (`JsonValue`). -/
inductive Json where
  | prim (value : JsonPrimitive)
  | arr (items : List Json)
  | obj (props : List (JsString × Json))

/-- The own properties of a plain object (`JsonObject`). -/
abbrev JsonObject := List (JsString × Json)

namespace JsonPrimitive

/-- `left === right`. -/
def same : JsonPrimitive → JsonPrimitive → Bool
  | .null, .null => true
  | .bool a, .bool b => a == b
  | .number a, .number b => a.same b
  | .string a, .string b => a == b
  | _, _ => false

end JsonPrimitive

mutual

/-- Equality of trees is decidable. -/
def Json.decEq : (a b : Json) → Decidable (a = b)
  | .prim a, .prim b => decidable_of_iff (a = b) (by simp)
  | .arr a, .arr b => @decidable_of_iff _ (a = b) (by simp) (Json.decEqItems a b)
  | .obj a, .obj b => @decidable_of_iff _ (a = b) (by simp) (Json.decEqProps a b)
  | .prim _, .arr _ => isFalse (by simp)
  | .prim _, .obj _ => isFalse (by simp)
  | .arr _, .prim _ => isFalse (by simp)
  | .arr _, .obj _ => isFalse (by simp)
  | .obj _, .prim _ => isFalse (by simp)
  | .obj _, .arr _ => isFalse (by simp)

/-- Equality of lists of trees is decidable. -/
def Json.decEqItems : (a b : List Json) → Decidable (a = b)
  | [], [] => isTrue rfl
  | [], _ :: _ => isFalse (by simp)
  | _ :: _, [] => isFalse (by simp)
  | a :: as, b :: bs =>
      @decidable_of_iff _ (a = b ∧ as = bs) (by simp)
        (@instDecidableAnd _ _ (Json.decEq a b) (Json.decEqItems as bs))

/-- Equality of lists of properties is decidable. -/
def Json.decEqProps : (a b : List (JsString × Json)) → Decidable (a = b)
  | [], [] => isTrue rfl
  | [], _ :: _ => isFalse (by simp)
  | _ :: _, [] => isFalse (by simp)
  | (k, a) :: as, (l, b) :: bs =>
      @decidable_of_iff _ (k = l ∧ a = b ∧ as = bs) (by simp [and_assoc])
        (@instDecidableAnd _ _ _
          (@instDecidableAnd _ _ (Json.decEq a b) (Json.decEqProps as bs)))

end

instance : DecidableEq Json := Json.decEq

/-! ### Property order -/

/-- The array index a property name denotes: a canonical decimal below
`2 ^ 32 - 1`. -/
def arrayIndex? (name : JsString) : Option ℕ :=
  let n := name.foldl (fun n c => 10 * n + (c.toNat - 48)) 0
  if natText n = name ∧ n < 2 ^ 32 - 1 then some n else none

/-- Whether a property name is an array index below `n`. -/
def isSmallerIndex (n : ℕ) (name : JsString) : Bool :=
  match arrayIndex? name with
  | some m => m < n
  | none => false

/-- Insert an absent property where the order of own property keys puts it: an
array index before the first name that is not a smaller index, any other name
at the end. -/
def insertProperty {α : Type*} (props : List (JsString × α)) (name : JsString) (value : α) :
    List (JsString × α) :=
  match arrayIndex? name with
  | none => props ++ [(name, value)]
  | some n =>
      props.takeWhile (isSmallerIndex n ·.1) ++ (name, value) ::
        props.dropWhile (isSmallerIndex n ·.1)

/-- `Object.defineProperty` with an enumerable data descriptor. -/
def defineProperty {α : Type*} (props : List (JsString × α)) (name : JsString) (value : α) :
    List (JsString × α) :=
  if name ∈ props.map Prod.fst then Assoc.set props name value else insertProperty props name value

/-- `Object.hasOwn`. -/
def hasOwn {α : Type*} (props : List (JsString × α)) (name : JsString) : Bool :=
  (Assoc.get? props name).isSome

/-- What is found in two lists of properties, the first one before the second. -/
theorem get?_append {α : Type*} (l l' : List (JsString × α)) (k : JsString) :
    Assoc.get? (l ++ l') k = (Assoc.get? l k).or (Assoc.get? l' k) := by
  induction l with
  | nil => rfl
  | cons e l ih => by_cases h : e.1 = k <;> simp [Assoc.get?, h, ih]

/-- **A new property is found under its name**, wherever its place among the others is.  The
list is cut where the property is put, and a lookup goes through both halves. -/
theorem get?_insertProperty {α : Type*} {props : List (JsString × α)} {name : JsString}
    (h : name ∉ props.map Prod.fst) (value : α) (k : JsString) :
    Assoc.get? (insertProperty props name value) k =
      if name = k then some value else Assoc.get? props k := by
  have key : ∀ a b : List (JsString × α), name ∉ (a ++ b).map Prod.fst →
      Assoc.get? (a ++ (name, value) :: b) k =
        if name = k then some value else Assoc.get? (a ++ b) k := by
    intro a b hab
    rw [get?_append, get?_append, Assoc.get?]
    split_ifs with hk
    · have : Assoc.get? a k = none :=
        Assoc.get?_eq_none_iff.2 fun hm => hab (by subst hk; simp at hm ⊢; exact Or.inl hm)
      rw [this]; rfl
    · rfl
  unfold insertProperty
  split
  · have := key props [] (by simpa using h)
    rwa [List.append_nil] at this
  · next n _ =>
      have hsplit := List.takeWhile_append_dropWhile (p := (isSmallerIndex n ·.1)) (l := props)
      have := key (props.takeWhile (isSmallerIndex n ·.1)) _ (by rwa [hsplit])
      rwa [hsplit] at this

/-- **A defined property reads back, the others are untouched.**  A name that is there keeps its
place and gets the value; a new one gets a place. -/
theorem get?_defineProperty {α : Type*} (props : List (JsString × α)) (name : JsString) (value : α)
    (k : JsString) : Assoc.get? (defineProperty props name value) k =
      if name = k then some value else Assoc.get? props k := by
  unfold defineProperty
  split
  · exact Assoc.get?_set ..
  · next h => exact get?_insertProperty h value k

/-! ### `JSON.stringify` -/

/-- A hexadecimal digit, lower case. -/
def hexUnit (d : ℕ) : UInt16 := (if d < 10 then 48 + d else 87 + d).toUInt16

/-- `\uXXXX`. -/
def unicodeEscape (c : UInt16) : JsString :=
  [92, 117, hexUnit (c.toNat / 4096 % 16), hexUnit (c.toNat / 256 % 16),
    hexUnit (c.toNat / 16 % 16), hexUnit (c.toNat % 16)]

/-- A code unit inside a quoted string (`QuoteJSONString`), an unpaired surrogate
included. -/
def escapeUnit (c : UInt16) : JsString :=
  if c = 34 then [92, 34]
  else if c = 92 then [92, 92]
  else if c = 8 then [92, 98]
  else if c = 12 then [92, 102]
  else if c = 10 then [92, 110]
  else if c = 13 then [92, 114]
  else if c = 9 then [92, 116]
  else if c < 32 || isHighSurrogate c || isLowSurrogate c then unicodeEscape c
  else [c]

/-- The inside of a quoted string; surrogate pairs are copied. -/
def quoteUnits : JsString → JsString
  | [] => []
  | [c] => escapeUnit c
  | c :: d :: rest =>
      if isHighSurrogate c && isLowSurrogate d then c :: d :: quoteUnits rest
      else escapeUnit c ++ quoteUnits (d :: rest)

/-- A quoted string. -/
def quote (s : JsString) : JsString := 34 :: (quoteUnits s ++ [34])

namespace JsonPrimitive

/-- The text of a primitive. -/
def stringify : JsonPrimitive → JsString
  | .null => js "null"
  | .bool true => js "true"
  | .bool false => js "false"
  | .number n => n.text
  | .string s => quote s

end JsonPrimitive

namespace Json

mutual

/-- `JSON.stringify`. -/
def stringify : Json → JsString
  | .prim p => p.stringify
  | .arr items => 91 :: (stringifyItems items ++ [93])
  | .obj props => 123 :: (stringifyProps props ++ [125])

/-- The items of an array, separated by commas. -/
def stringifyItems : List Json → JsString
  | [] => []
  | [j] => stringify j
  | j :: k :: rest => stringify j ++ 44 :: stringifyItems (k :: rest)

/-- The members of an object, separated by commas. -/
def stringifyProps : List (JsString × Json) → JsString
  | [] => []
  | [(name, j)] => quote name ++ 58 :: stringify j
  | (name, j) :: p :: rest => quote name ++ 58 :: (stringify j ++ 44 :: stringifyProps (p :: rest))

end

/-- The value as a primitive. -/
def prim? : Json → Option JsonPrimitive
  | .prim p => some p
  | _ => none

/-- The own property `name` of an object. -/
def property? : Json → JsString → Option Json
  | .obj props, name => Assoc.get? props name
  | _, _ => none

end Json

example : (Json.obj [(js "a", .arr [.prim (.bool true), .prim .null])]).stringify =
    js "\x7b\"a\":[true,null]\x7d" := by decide

end NewtonDB
