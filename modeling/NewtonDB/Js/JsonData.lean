/-
# JSON trees as data

An induction over trees, their size and nesting, and the trees that objects of
the language have: every property name once, in the order of own property keys.
`unsigned` forgets the sign of zero, which `stringify` does not write.  What
`stringify` writes is well-formed, whatever the strings inside are.
-/

import NewtonDB.Js.Json
import NewtonDB.Js.Utf8

namespace NewtonDB

namespace Json

/-- **Induction over trees.**  The lists of items and of properties are dealt with here,
once. -/
theorem induction {P : Json → Prop} (hprim : ∀ p, P (.prim p))
    (harr : ∀ items, (∀ j ∈ items, P j) → P (.arr items))
    (hobj : ∀ props, (∀ p ∈ props, P p.2) → P (.obj props)) (j : Json) : P j := by
  refine @Json.rec P (fun items => ∀ j ∈ items, P j) (fun props => ∀ p ∈ props, P p.2)
    (fun p => P p.2) hprim harr hobj ?_ ?_ ?_ ?_ ?_ j
  · simp
  · exact fun j items hj hitems => List.forall_mem_cons.2 ⟨hj, hitems⟩
  · simp
  · exact fun p props hp hprops => List.forall_mem_cons.2 ⟨hp, hprops⟩
  · exact fun _ _ hj => hj

mutual

/-- The number of values of a tree, itself included. -/
def nodes : Json → ℕ
  | .prim _ => 1
  | .arr items => nodesItems items + 1
  | .obj props => nodesProps props + 1

/-- The number of values of the items of an array. -/
def nodesItems : List Json → ℕ
  | [] => 0
  | j :: rest => nodes j + nodesItems rest

/-- The number of values of the members of an object. -/
def nodesProps : List (JsString × Json) → ℕ
  | [] => 0
  | (_, j) :: rest => nodes j + nodesProps rest

end

mutual

/-- How deep the values of a tree are nested. -/
def height : Json → ℕ
  | .prim _ => 0
  | .arr items => heightItems items
  | .obj props => heightProps props

/-- The height above the items of an array. -/
def heightItems : List Json → ℕ
  | [] => 0
  | j :: rest => max (height j + 1) (heightItems rest)

/-- The height above the members of an object. -/
def heightProps : List (JsString × Json) → ℕ
  | [] => 0
  | (_, j) :: rest => max (height j + 1) (heightProps rest)

end

end Json

/-- A number without the sign of zero. -/
def FiniteNumber.unsigned : FiniteNumber → FiniteNumber
  | .zero _ => .zero false
  | x => x

/-- A primitive without the sign of zero. -/
def JsonPrimitive.unsigned : JsonPrimitive → JsonPrimitive
  | .number x => .number x.unsigned
  | p => p

/-- Properties in the order of own property keys, each name once. -/
def isPropertyList {α : Type*} [DecidableEq α] (props : List (JsString × α)) : Bool :=
  props.foldl (fun output p => defineProperty output p.1 p.2) [] = props

namespace Json

mutual

/-- A tree without the signs of zeros. -/
def unsigned : Json → Json
  | .prim p => .prim p.unsigned
  | .arr items => .arr (unsignedItems items)
  | .obj props => .obj (unsignedProps props)

/-- The items of an array without the signs of zeros. -/
def unsignedItems : List Json → List Json
  | [] => []
  | j :: rest => unsigned j :: unsignedItems rest

/-- The members of an object without the signs of zeros. -/
def unsignedProps : List (JsString × Json) → List (JsString × Json)
  | [] => []
  | (name, j) :: rest => (name, unsigned j) :: unsignedProps rest

end

mutual

/-- The properties of every object are as the language keeps them. -/
def isData : Json → Bool
  | .prim _ => true
  | .arr items => isDataItems items
  | .obj props => isPropertyList props && isDataProps props

/-- The items of an array are data. -/
def isDataItems : List Json → Bool
  | [] => true
  | j :: rest => isData j && isDataItems rest

/-- The members of an object are data. -/
def isDataProps : List (JsString × Json) → Bool
  | [] => true
  | (_, j) :: rest => isData j && isDataProps rest

end

/-- A list of items is data when every item is. -/
theorem isDataItems_iff {items : List Json} : isDataItems items ↔ ∀ j ∈ items, j.isData := by
  induction items with
  | nil => simp [isDataItems]
  | cons j rest ih => simp [isDataItems, ih]

/-- A list of properties is data when the value of every property is. -/
theorem isDataProps_iff {props : List (JsString × Json)} :
    isDataProps props ↔ ∀ p ∈ props, p.2.isData := by
  induction props with
  | nil => simp [isDataProps]
  | cons p rest ih => simp [isDataProps, ih]

/-- To forget the signs of zeros in a list of items is to forget them in each. -/
theorem unsignedItems_eq (items : List Json) : unsignedItems items = items.map unsigned := by
  induction items with
  | nil => rfl
  | cons j rest ih => rw [unsignedItems, ih, List.map_cons]

/-- To forget the signs of zeros in a list of properties is to forget them in each value. -/
theorem unsignedProps_eq (props : List (JsString × Json)) :
    unsignedProps props = props.map fun p => (p.1, p.2.unsigned) := by
  induction props with
  | nil => rfl
  | cons p rest ih => rw [unsignedProps, ih, List.map_cons]

/-! ### Names once -/

/-- **To define a property does not make a name occur twice.**  A known name keeps its place and
a new one gets its own. -/
theorem nodup_defineProperty {α : Type*} {props : List (JsString × α)}
    (h : (props.map Prod.fst).Nodup) (name : JsString) (value : α) :
    ((defineProperty props name value).map Prod.fst).Nodup := by
  unfold defineProperty
  split_ifs with hm
  · exact Assoc.nodup_set h name value
  · have key : ∀ a b : List (JsString × α), ((a ++ b).map Prod.fst).Nodup →
        name ∉ (a ++ b).map Prod.fst → ((a ++ (name, value) :: b).map Prod.fst).Nodup := by
      intro a b hab hnot
      rw [List.map_append, List.map_cons]
      rw [List.map_append] at hab hnot
      exact (List.perm_middle.nodup_iff).2 (List.nodup_cons.2 ⟨hnot, hab⟩)
    unfold insertProperty
    split
    · have := key props [] (by simpa using h) (by simpa using hm)
      simpa using this
    · next n _ =>
        have hsplit := List.takeWhile_append_dropWhile (p := (isSmallerIndex n ·.1)) (l := props)
        exact key _ _ (by rwa [hsplit]) (by rwa [hsplit])

/-- The properties of an object, as the language keeps them, have different names.  Such a list
is what defining its properties one after the other gives, and that replaces a property of the
same name. -/
theorem nodup_of_isPropertyList {α : Type*} [DecidableEq α] {props : List (JsString × α)}
    (h : isPropertyList props) : (props.map Prod.fst).Nodup := by
  have hfold : ∀ (l output : List (JsString × α)), (output.map Prod.fst).Nodup →
      ((l.foldl (fun output p => defineProperty output p.1 p.2) output).map Prod.fst).Nodup := by
    intro l
    induction l with
    | nil => exact fun output h => h
    | cons p l ih => exact fun output h => ih _ (nodup_defineProperty h p.1 p.2)
  rw [← of_decide_eq_true h]
  exact hfold props [] List.nodup_nil

/-! ### The text of a tree -/

/-- A zero has the same text with and without a sign. -/
theorem text_unsigned (x : FiniteNumber) : x.unsigned.text = x.text := by cases x <;> rfl

/-- **The sign of zero is not written.**  `JSON.stringify` prints numbers as `String` does.
`String` prints both zeros as `0`. -/
theorem stringify_unsigned (j : Json) : j.unsigned.stringify = j.stringify := by
  induction j using Json.induction with
  | hprim p =>
      cases p with
      | number x => exact text_unsigned x
      | _ => rfl
  | harr items ih =>
      have hitems : stringifyItems (unsignedItems items) = stringifyItems items := by
        induction items with
        | nil => rfl
        | cons j rest ihrest =>
            have hj := ih j (List.mem_cons_self ..)
            have hrest := ihrest fun k hk => ih k (List.mem_cons_of_mem _ hk)
            cases rest with
            | nil => simpa [unsignedItems, stringifyItems] using hj
            | cons k rest =>
                simp only [unsignedItems, stringifyItems, hj] at hrest ⊢
                rw [hrest]
      simp only [unsigned, stringify, hitems]
  | hobj props ih =>
      have hprops : stringifyProps (unsignedProps props) = stringifyProps props := by
        induction props with
        | nil => rfl
        | cons p rest ihrest =>
            have hj := ih p (List.mem_cons_self ..)
            have hrest := ihrest fun q hq => ih q (List.mem_cons_of_mem _ hq)
            cases rest with
            | nil => simp [unsignedProps, stringifyProps, hj]
            | cons q rest =>
                simp only [unsignedProps, stringifyProps, hj] at hrest ⊢
                rw [hrest]
      simp only [unsigned, stringify, hprops]

end Json

/-! ### Well-formed text -/

/-- Units below 128. -/
def IsAscii (s : JsString) : Prop := ∀ c ∈ s, c.toNat < 128

/-- A unit of ASCII is no surrogate. -/
theorem isSurrogate_of_lt {c : UInt16} (h : c.toNat < 128) : isSurrogate c = false := by
  simp only [isSurrogate, isHighSurrogate, isLowSurrogate, Bool.or_eq_false_iff,
    Bool.and_eq_false_iff, decide_eq_false_iff_not, UInt16.le_iff_toNat_le, UInt16.toNat_ofNat]
  omega

/-- A text of ASCII is well formed: it has no surrogate to stand alone. -/
theorem IsAscii.isWellFormed {s : JsString} (h : IsAscii s) : isWellFormed s :=
  isWellFormed_of_forall fun c hc => isSurrogate_of_lt (h c hc)

/-- A unit of ASCII before a text of ASCII. -/
theorem isAscii_cons {c : UInt16} {s : JsString} (hc : c.toNat < 128) (hs : IsAscii s) :
    IsAscii (c :: s) := List.forall_mem_cons.2 ⟨hc, hs⟩

/-- **The units of a number** are digits, signs, a point and the mark of the exponent.  What
holds of those holds of the text of a number. -/
theorem forall_text {p : UInt16 → Prop} (hdigit : ∀ c : UInt16, 48 ≤ c.toNat → c.toNat ≤ 57 → p c)
    (hmark : ∀ c ∈ [(43 : UInt16), 45, 46, 101], p c) (x : FiniteNumber) : ∀ c ∈ x.text, p c := by
  have hzero : p 48 := hdigit 48 (by decide) (by decide)
  have hdigits : ∀ {s : JsString}, IsDigits s → ∀ c ∈ s, p c :=
    fun hs c hc => hdigit c (hs c hc).1 (hs c hc).2
  have hdecimal : ∀ d : Decimal, ∀ c ∈ d.text, p c := by
    intro d
    have hs := isSignificant_natText d.lowest
    have hpart : ∀ {t : JsString}, (∀ c ∈ t, c ∈ natText d.digits) → ∀ c ∈ t, p c :=
      fun h c hc => hdigits hs.digits c (h c hc)
    rw [Decimal.text]
    rcases layout_cases _ hs.ne_nil ((natText d.digits).length + d.exponent) with
      ⟨z, -, e⟩ | ⟨a, b, hab, -, -, -, e⟩ | ⟨z, -, e⟩ | ⟨c, b, hb, e⟩
    · rw [e]
      exact List.forall_mem_append.2 ⟨hdigits hs.digits, hdigits (isDigits_replicate z)⟩
    · rw [e]
      exact List.forall_mem_append.2 ⟨hpart fun c hc => hab ▸ List.mem_append_left _ hc,
        List.forall_mem_cons.2 ⟨hmark 46 (by decide),
          hpart fun c hc => hab ▸ List.mem_append_right _ hc⟩⟩
    · rw [e]
      exact List.forall_mem_cons.2 ⟨hzero, List.forall_mem_cons.2 ⟨hmark 46 (by decide),
        List.forall_mem_append.2 ⟨hdigits (isDigits_replicate z), hdigits hs.digits⟩⟩⟩
    · rw [e]
      have hc : p c := hpart (fun c hc => hc) c (hb ▸ List.mem_cons_self ..)
      have hbs : ∀ c ∈ b, p c := hpart fun c hc => hb ▸ List.mem_cons_of_mem _ hc
      refine List.forall_mem_append.2 ⟨List.forall_mem_cons.2 ⟨hc, ?_⟩, List.forall_mem_cons.2
        ⟨hmark 101 (by decide), List.forall_mem_cons.2 ⟨?_, hdigits (isDigits_natText _)⟩⟩⟩
      · split_ifs
        · exact fun c hc => by cases hc
        · exact List.forall_mem_cons.2 ⟨hmark 46 (by decide), hbs⟩
      · split_ifs
        · exact hmark 45 (by decide)
        · exact hmark 43 (by decide)
  cases x with
  | zero negative => exact List.forall_mem_singleton.2 hzero
  | nonzero negative d =>
      cases negative with
      | false => exact hdecimal d
      | true => exact List.forall_mem_cons.2 ⟨hmark 45 (by decide), hdecimal d⟩

/-- The text of a number is ASCII. -/
theorem isAscii_text (x : FiniteNumber) : IsAscii x.text :=
  forall_text (fun c _ hc => by omega) (by simp) x

/-- The unit of a hexadecimal digit: `0` to `9`, then `a` to `f`. -/
theorem hexUnit_toNat {d : ℕ} (h : d < 16) :
    (hexUnit d).toNat = if d < 10 then 48 + d else 87 + d := by
  unfold hexUnit
  rw [Nat.toUInt16, UInt16.toNat_ofNat']
  split_ifs <;> omega

/-- An escape of four hexadecimal digits is ASCII.  Its units are a backslash, a `u` and the
digits. -/
theorem isAscii_unicodeEscape (c : UInt16) : IsAscii (unicodeEscape c) := by
  have hhex : ∀ n : ℕ, (hexUnit (n % 16)).toNat < 128 := by
    intro n
    rw [hexUnit_toNat (by omega)]
    split_ifs <;> omega
  refine isAscii_cons (by decide) (isAscii_cons (by decide) ?_)
  exact isAscii_cons (hhex _) (isAscii_cons (hhex _) (isAscii_cons (hhex _)
    (isAscii_cons (hhex _) fun c hc => by cases hc)))

/-- What a single unit is written as is well formed, also where the unit is a lone surrogate,
which is escaped. -/
theorem isWellFormed_escapeUnit (c : UInt16) : isWellFormed (escapeUnit c) := by
  unfold escapeUnit
  split_ifs with h1 h2 h3 h4 h5 h6 h7 h8
  all_goals try decide
  · exact (isAscii_unicodeEscape c).isWellFormed
  · simp only [Bool.or_eq_true, not_or, Bool.not_eq_true] at h8
    simp [isWellFormed, isSurrogate, h8.1.2, h8.2]

/-- **What the units of a string are written as is well formed**, by induction on them: a pair
of surrogates stays together, and a lone one is escaped. -/
theorem isWellFormed_quoteUnits : ∀ s, isWellFormed (quoteUnits s)
  | [] => rfl
  | [c] => isWellFormed_escapeUnit c
  | c :: d :: rest => by
      unfold quoteUnits
      split_ifs with hp
      · rw [isWellFormed, if_pos hp]
        exact isWellFormed_quoteUnits rest
      · exact isWellFormed_append (isWellFormed_escapeUnit c) (isWellFormed_quoteUnits (d :: rest))

/-- A quoted string is well formed, whatever the string. -/
theorem isWellFormed_quote (s : JsString) : isWellFormed (quote s) :=
  isWellFormed_append (s := [34]) rfl (isWellFormed_append (isWellFormed_quoteUnits s) rfl)

/-- Well-formed texts with a mark between them. -/
theorem isWellFormed_marked {c : UInt16} (hc : c.toNat < 128) {s t : JsString}
    (hs : isWellFormed s) (ht : isWellFormed t) : isWellFormed (s ++ c :: t) := by
  have hmark : isWellFormed [c] := by simpa [isWellFormed] using isSurrogate_of_lt hc
  exact isWellFormed_append hs (isWellFormed_append hmark ht)

namespace Json

mutual

/-- **What `JSON.stringify` writes is well-formed.**  A lone surrogate in a string is escaped,
so that the text can be encoded. -/
theorem isWellFormed_stringify : ∀ j : Json, isWellFormed j.stringify
  | .prim .null => rfl
  | .prim (.bool true) => rfl
  | .prim (.bool false) => rfl
  | .prim (.number x) => (isAscii_text x).isWellFormed
  | .prim (.string s) => isWellFormed_quote s
  | .arr items => isWellFormed_append (s := [91]) rfl
      (isWellFormed_append (isWellFormed_stringifyItems items) rfl)
  | .obj props => isWellFormed_append (s := [123]) rfl
      (isWellFormed_append (isWellFormed_stringifyProps props) rfl)

/-- The text of a list of items is well formed. -/
theorem isWellFormed_stringifyItems : ∀ items : List Json, isWellFormed (stringifyItems items)
  | [] => rfl
  | [j] => isWellFormed_stringify j
  | j :: k :: rest =>
      isWellFormed_marked (by decide) (isWellFormed_stringify j)
        (isWellFormed_stringifyItems (k :: rest))

/-- The text of a list of properties is well formed.  Names are quoted, and what stands between
the parts is ASCII. -/
theorem isWellFormed_stringifyProps : ∀ props : List (JsString × Json),
    isWellFormed (stringifyProps props)
  | [] => rfl
  | [(name, j)] =>
      isWellFormed_marked (by decide) (isWellFormed_quote name) (isWellFormed_stringify j)
  | (name, j) :: p :: rest =>
      isWellFormed_marked (by decide) (isWellFormed_quote name) (isWellFormed_marked (by decide)
        (isWellFormed_stringify j) (isWellFormed_stringifyProps (p :: rest)))

end

end Json

end NewtonDB
