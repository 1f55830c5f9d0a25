/-
# The grammar of JSON texts

The grammar of RFC 8259 over code units.  `JsonSyntax` is a value as it is written, without
the white space around its parts: literals and numbers are the texts they are, and strings
have their escapes.  `Derives` says which texts are those of a value.  It also has the rules
for a value between white space (`JsonPhrase.padded`), which is what a JSON text is, and for
what stands between brackets and braces.

`unescape` reads the inside of a string.
-/

import NewtonDB.Js.JsonText

namespace NewtonDB

/-! ### Strings -/

/-- A hexadecimal digit. -/
def IsHexDigit (c : UInt16) : Prop :=
  (48 ≤ c.toNat ∧ c.toNat ≤ 57) ∨ (65 ≤ c.toNat ∧ c.toNat ≤ 70) ∨ (97 ≤ c.toNat ∧ c.toNat ≤ 102)

/-- The units that stand for one unit behind a backslash. -/
def shortEscapes : List UInt16 := [34, 92, 47, 98, 102, 110, 114, 116]

/-- What stands between the quotes of a string. -/
inductive StringBody : JsString → Prop
  | nil : StringBody []
  | plain {c : UInt16} {rest : JsString} : c ≠ 34 → c ≠ 92 → 32 ≤ c.toNat → StringBody rest →
      StringBody (c :: rest)
  | short {e : UInt16} {rest : JsString} : e ∈ shortEscapes → StringBody rest →
      StringBody (92 :: e :: rest)
  | unicode {a b c d : UInt16} {rest : JsString} : IsHexDigit a → IsHexDigit b → IsHexDigit c →
      IsHexDigit d → StringBody rest → StringBody (92 :: 117 :: a :: b :: c :: d :: rest)

/-- A string with its quotes. -/
def quoted (body : JsString) : JsString := 34 :: (body ++ [34])

/-- The value of a hexadecimal digit of either case. -/
def hexDigitValue (c : UInt16) : ℕ :=
  if c.toNat < 58 then c.toNat - 48 else if c.toNat < 71 then c.toNat - 55 else c.toNat - 87

/-- The units that the inside of a string stands for. -/
def unescape : JsString → JsString
  | [] => []
  | c :: rest =>
      if c = 92 then
        match rest with
        | [] => []
        | e :: rest =>
            if e = 117 then
              match rest with
              | a :: b :: c :: d :: rest =>
                  (4096 * hexDigitValue a + 256 * hexDigitValue b + 16 * hexDigitValue c +
                    hexDigitValue d).toUInt16 :: unescape rest
              | _ => []
            else unescapeUnit e :: unescape rest
      else c :: unescape rest

/-- **A string literal is read as what it stands for.** -/
def ReadsStrings (parse : JsString → Option Json) : Prop :=
  ∀ body, StringBody body → parse (quoted body) = some (.prim (.string (unescape body)))

/-! ### Numbers -/

/-- The digits before the point. -/
inductive IntegerText : JsString → Prop
  | zero : IntegerText [48]
  | digits {c : UInt16} {s : JsString} : IsDigits (c :: s) → c ≠ 48 → IntegerText (c :: s)

/-- The point and the digits after it, if there are any. -/
inductive FractionText : JsString → Prop
  | none : FractionText []
  | digits {s : JsString} : IsDigits s → s ≠ [] → FractionText (46 :: s)

/-- The exponent, if there is one. -/
inductive ExponentText : JsString → Prop
  | none : ExponentText []
  | unsigned {e : UInt16} {s : JsString} : e = 101 ∨ e = 69 → IsDigits s → s ≠ [] →
      ExponentText (e :: s)
  | signed {e sign : UInt16} {s : JsString} : e = 101 ∨ e = 69 → sign = 43 ∨ sign = 45 →
      IsDigits s → s ≠ [] → ExponentText (e :: sign :: s)

/-- A number without a sign. -/
inductive UnsignedText : JsString → Prop
  | parts {integer fraction exponent : JsString} : IntegerText integer → FractionText fraction →
      ExponentText exponent → UnsignedText (integer ++ (fraction ++ exponent))

/-- A number. -/
inductive NumberText : JsString → Prop
  | unsigned {s : JsString} : UnsignedText s → NumberText s
  | negative {s : JsString} : UnsignedText s → NumberText (45 :: s)

/-- A literal or a number. -/
inductive AtomText : JsString → Prop
  | true : AtomText (js "true")
  | false : AtomText (js "false")
  | null : AtomText (js "null")
  | number {s : JsString} : NumberText s → AtomText s

/-! ### Values -/

/-- White space. -/
def IsBlank (s : JsString) : Prop := ∀ c ∈ s, c = 32 ∨ c = 9 ∨ c = 10 ∨ c = 13

/-- A value as it is written. -/
inductive JsonSyntax where
  | atom (text : JsString)
  | string (body : JsString)
  | array (items : List JsonSyntax)
  | object (members : List (JsString × JsonSyntax))

/-- What the grammar has rules for. -/
inductive JsonPhrase where
  | value (v : JsonSyntax)
  | padded (v : JsonSyntax)
  | items (vs : List JsonSyntax)
  | members (ms : List (JsString × JsonSyntax))

/-- The rules. -/
inductive Derives : JsonPhrase → JsString → Prop
  | atom {t : JsString} : AtomText t → Derives (.value (.atom t)) t
  | string {body : JsString} : StringBody body → Derives (.value (.string body)) (quoted body)
  | noItems {w : JsString} : IsBlank w → Derives (.value (.array [])) (91 :: (w ++ [93]))
  | array {vs : List JsonSyntax} {t : JsString} : Derives (.items vs) t →
      Derives (.value (.array vs)) (91 :: (t ++ [93]))
  | noMembers {w : JsString} : IsBlank w → Derives (.value (.object [])) (123 :: (w ++ [125]))
  | object {ms : List (JsString × JsonSyntax)} {t : JsString} : Derives (.members ms) t →
      Derives (.value (.object ms)) (123 :: (t ++ [125]))
  | pad {w w' t : JsString} {v : JsonSyntax} : IsBlank w → Derives (.value v) t → IsBlank w' →
      Derives (.padded v) (w ++ (t ++ w'))
  | item {v : JsonSyntax} {t : JsString} : Derives (.padded v) t → Derives (.items [v]) t
  | moreItems {v : JsonSyntax} {vs : List JsonSyntax} {t s : JsString} : Derives (.padded v) t →
      Derives (.items vs) s → Derives (.items (v :: vs)) (t ++ 44 :: s)
  | member {w w' body t : JsString} {v : JsonSyntax} : IsBlank w → StringBody body → IsBlank w' →
      Derives (.padded v) t →
      Derives (.members [(body, v)]) (w ++ (quoted body ++ (w' ++ 58 :: t)))
  | moreMembers {w w' body t s : JsString} {v : JsonSyntax} {ms : List (JsString × JsonSyntax)} :
      IsBlank w → StringBody body → IsBlank w' → Derives (.padded v) t → Derives (.members ms) s →
      Derives (.members ((body, v) :: ms)) (w ++ (quoted body ++ (w' ++ 58 :: (t ++ 44 :: s))))

/-- White space after white space is white space. -/
theorem IsBlank.append {w w' : JsString} (hw : IsBlank w) (hw' : IsBlank w') : IsBlank (w ++ w') :=
  fun c hc => (List.mem_append.1 hc).elim (hw c) (hw' c)

/-- A number begins with a digit or a minus sign.  No white space, bracket, quote or comma
does. -/
theorem NumberText.head {s : JsString} (h : NumberText s) :
    ∃ c t, s = c :: t ∧ (c = 45 ∨ (48 ≤ c.toNat ∧ c.toNat ≤ 57)) := by
  cases h with
  | negative => exact ⟨_, _, rfl, .inl rfl⟩
  | unsigned h =>
      obtain ⟨hinteger, -, -⟩ := h
      cases hinteger with
      | zero => exact ⟨_, _, rfl, .inr (by decide)⟩
      | digits hdigits => exact ⟨_, _, rfl, .inr (hdigits _ (List.mem_cons_self ..))⟩

/-- The unit a literal or a number begins with.  The last three are those of `true`, `false` and
`null`, behind the minus sign. -/
theorem AtomText.head {s : JsString} (h : AtomText s) :
    ∃ c t, s = c :: t ∧ ((48 ≤ c.toNat ∧ c.toNat ≤ 57) ∨ c ∈ [45, 116, 102, 110]) := by
  cases h with
  | true => exact ⟨_, _, rfl, .inr (by decide)⟩
  | false => exact ⟨_, _, rfl, .inr (by decide)⟩
  | null => exact ⟨_, _, rfl, .inr (by decide)⟩
  | number h =>
      obtain ⟨c, t, rfl, rfl | hc⟩ := h.head
      · exact ⟨_, _, rfl, .inr (by decide)⟩
      · exact ⟨c, t, rfl, .inl hc⟩

namespace Derives

variable {w t : JsString} {v : JsonSyntax} {vs : List JsonSyntax}
  {ms : List (JsString × JsonSyntax)}

/-- White space may come before a value between white space. -/
theorem blank_padded (h : Derives (.padded v) t) (hw : IsBlank w) : Derives (.padded v) (w ++ t) := by
  cases h with
  | pad hw₁ ht hw₂ =>
      rw [← List.append_assoc]
      exact .pad (hw.append hw₁) ht hw₂

/-- White space may come before the items of an array. -/
theorem blank_items (h : Derives (.items vs) t) (hw : IsBlank w) : Derives (.items vs) (w ++ t) := by
  cases h with
  | item h => exact .item (h.blank_padded hw)
  | moreItems h hs =>
      rw [← List.append_assoc]
      exact .moreItems (h.blank_padded hw) hs

/-- White space may come before the members of an object.  It is taken into the white space
before the first name. -/
theorem blank_members (h : Derives (.members ms) t) (hw : IsBlank w) :
    Derives (.members ms) (w ++ t) := by
  cases h with
  | member hw₁ hbody hw₂ h =>
      rw [← List.append_assoc]
      exact .member (hw.append hw₁) hbody hw₂ h
  | moreMembers hw₁ hbody hw₂ h hs =>
      rw [← List.append_assoc]
      exact .moreMembers (hw.append hw₁) hbody hw₂ h hs

/-- **A value begins** with no white space and with no delimiter.  It is a brace, a bracket, a
quote, a sign, a digit or a letter. -/
theorem value_head (h : Derives (.value v) t) :
    ∃ c t', t = c :: t' ∧ c ∉ [32, 9, 10, 13, 44, 93, 125] := by
  cases h with
  | atom h =>
      obtain ⟨c, t, rfl, hc | hc⟩ := h.head
      · refine ⟨c, t, rfl, fun hmem => ?_⟩
        simp only [List.mem_cons, List.not_mem_nil, or_false] at hmem
        rcases hmem with rfl | rfl | rfl | rfl | rfl | rfl | rfl <;> exact absurd hc (by decide)
      · refine ⟨c, t, rfl, ?_⟩
        simp only [List.mem_cons, List.not_mem_nil, or_false] at hc
        rcases hc with rfl | rfl | rfl | rfl <;> decide
  | string => exact ⟨_, _, rfl, by decide⟩
  | noItems => exact ⟨_, _, rfl, by decide⟩
  | array => exact ⟨_, _, rfl, by decide⟩
  | noMembers => exact ⟨_, _, rfl, by decide⟩
  | object => exact ⟨_, _, rfl, by decide⟩

/-- What a value between white space begins with. -/
theorem padded_head (h : Derives (.padded v) t) : ∃ w c t', IsBlank w ∧ t = w ++ c :: t' ∧
    c ∉ [32, 9, 10, 13, 44, 93, 125] := by
  cases h with
  | pad hw h =>
      obtain ⟨c, t', rfl, hc⟩ := h.value_head
      exact ⟨_, c, _, hw, rfl, hc⟩

/-- What items begin with, and that each is at least one unit.  The bound on their number is
what the scanner needs as its fuel. -/
theorem items_head : ∀ {vs : List JsonSyntax} {t : JsString}, Derives (.items vs) t →
    ∃ w c t', IsBlank w ∧ t = w ++ c :: t' ∧ c ∉ [32, 9, 10, 13, 44, 93, 125] ∧
      vs.length ≤ t'.length + 1
  | [], t, h => by cases h
  | v :: vs, t, h => by
      cases h with
      | item h =>
          obtain ⟨w, c, t', hw, rfl, hc⟩ := h.padded_head
          exact ⟨w, c, t', hw, rfl, hc, by simp⟩
      | moreItems h hs =>
          obtain ⟨w, c, t', hw, rfl, hc⟩ := h.padded_head
          obtain ⟨w₁, c₁, t₁, -, rfl, -, hlength⟩ := items_head hs
          refine ⟨w, c, _, hw, by rw [List.append_assoc, List.cons_append], hc, ?_⟩
          simp only [List.length_cons, List.length_append]
          omega

/-- Members begin with a quote, and each is at least one unit.  The quote is that of the first
name. -/
theorem members_head : ∀ {ms : List (JsString × JsonSyntax)} {t : JsString},
    Derives (.members ms) t → ∃ w t', IsBlank w ∧ t = w ++ 34 :: t' ∧ ms.length ≤ t'.length + 1
  | [], t, h => by cases h
  | m :: ms, t, h => by
      cases h with
      | member hw hbody hw' h => exact ⟨_, _, hw, rfl, by simp⟩
      | moreMembers hw hbody hw' h hs =>
          obtain ⟨w₁, t₁, -, rfl, hlength⟩ := members_head hs
          refine ⟨_, _, hw, by rw [quoted, List.cons_append], ?_⟩
          simp only [List.length_cons, List.length_append]
          omega

end Derives

namespace JsonSyntax

mutual

/-- The number of values of a value, itself included. -/
def nodes : JsonSyntax → ℕ
  | .atom _ => 1
  | .string _ => 1
  | .array vs => nodesItems vs + 1
  | .object ms => nodesMembers ms + 1

/-- The number of values of the items of an array. -/
def nodesItems : List JsonSyntax → ℕ
  | [] => 0
  | v :: vs => nodes v + nodesItems vs

/-- The number of values of the members of an object. -/
def nodesMembers : List (JsString × JsonSyntax) → ℕ
  | [] => 0
  | (_, v) :: ms => nodes v + nodesMembers ms

end

mutual

/-- How deep the values of a value are nested. -/
def height : JsonSyntax → ℕ
  | .atom _ => 0
  | .string _ => 0
  | .array vs => heightItems vs
  | .object ms => heightMembers ms

/-- The height above the items of an array. -/
def heightItems : List JsonSyntax → ℕ
  | [] => 0
  | v :: vs => max (height v + 1) (heightItems vs)

/-- The height above the members of an object. -/
def heightMembers : List (JsString × JsonSyntax) → ℕ
  | [] => 0
  | (_, v) :: ms => max (height v + 1) (heightMembers ms)

end

mutual

/-- **No object has a name twice**, once the names are read. -/
def NamesDistinct : JsonSyntax → Prop
  | .atom _ => True
  | .string _ => True
  | .array vs => NamesDistinctItems vs
  | .object ms => (ms.map fun m => unescape m.1).Nodup ∧ NamesDistinctMembers ms

/-- No object in the items of an array has a name twice. -/
def NamesDistinctItems : List JsonSyntax → Prop
  | [] => True
  | v :: vs => NamesDistinct v ∧ NamesDistinctItems vs

/-- No object in the members of an object has a name twice. -/
def NamesDistinctMembers : List (JsString × JsonSyntax) → Prop
  | [] => True
  | (_, v) :: ms => NamesDistinct v ∧ NamesDistinctMembers ms

end

end JsonSyntax

end NewtonDB
