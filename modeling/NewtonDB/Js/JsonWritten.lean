/-
# What `JSON.stringify` writes

The text of a tree is a JSON text (`derives_stringify`): that of `Json.written`, which has
as many values as the tree, nested as deep, and names that are read back as the names of the
tree.
-/

import NewtonDB.Js.JsonGrammar

namespace NewtonDB

/-! ### Strings -/

/-- What is written as a hexadecimal digit is one. -/
theorem isHexDigit_hexUnit (n : ℕ) : IsHexDigit (hexUnit (n % 16)) := by
  unfold IsHexDigit
  rw [hexUnit_toNat (by omega)]
  split_ifs <;> omega

/-- A hexadecimal digit has the value it was written for. -/
theorem hexDigitValue_hexUnit (n : ℕ) : hexDigitValue (hexUnit (n % 16)) = n % 16 := by
  unfold hexDigitValue
  rw [hexUnit_toNat (by omega)]
  split_ifs <;> omega

/-- A unit that stands for itself. -/
theorem unescape_plain {c : UInt16} (h : c ≠ 92) (rest : JsString) :
    unescape (c :: rest) = c :: unescape rest := by
  rw [unescape.eq_def]
  simp only [if_neg h]

/-- A short escape stands for one unit. -/
theorem unescape_short {e : UInt16} (h : e ≠ 117) (rest : JsString) :
    unescape (92 :: e :: rest) = unescapeUnit e :: unescape rest := by
  rw [unescape.eq_def]
  simp only [if_true, if_neg h]

/-- An escape of four digits stands for the unit it was written for.  The four digits are those
of the unit to the base sixteen. -/
theorem unescape_unicodeEscape (c : UInt16) (rest : JsString) :
    unescape (unicodeEscape c ++ rest) = c :: unescape rest := by
  have hvalue : (4096 * (c.toNat / 4096 % 16) + 256 * (c.toNat / 256 % 16) +
      16 * (c.toNat / 16 % 16) + c.toNat % 16).toUInt16 = c := by
    have hc := c.toNat_lt
    rw [show 4096 * (c.toNat / 4096 % 16) + 256 * (c.toNat / 256 % 16) +
      16 * (c.toNat / 16 % 16) + c.toNat % 16 = c.toNat by omega]
    exact UInt16.ofNat_toNat
  simp only [unicodeEscape, List.cons_append, List.nil_append]
  rw [unescape.eq_def]
  simp only [if_true, hexDigitValue_hexUnit, hvalue]

/-- **What is written for a unit** is allowed in a string and is read as the unit.  The cases
are those of the escapes: a short one, one of four digits, or none. -/
theorem escapeUnit_spec (c : UInt16) {rest : JsString} (h : StringBody rest) :
    StringBody (escapeUnit c ++ rest) ∧ unescape (escapeUnit c ++ rest) = c :: unescape rest := by
  unfold escapeUnit
  split_ifs with h1 h2 h3 h4 h5 h6 h7 h8
  · exact ⟨.short (by decide) h, by rw [h1]; exact unescape_short (e := 34) (by decide) rest⟩
  · exact ⟨.short (by decide) h, by rw [h2]; exact unescape_short (e := 92) (by decide) rest⟩
  · exact ⟨.short (by decide) h, by rw [h3]; exact unescape_short (e := 98) (by decide) rest⟩
  · exact ⟨.short (by decide) h, by rw [h4]; exact unescape_short (e := 102) (by decide) rest⟩
  · exact ⟨.short (by decide) h, by rw [h5]; exact unescape_short (e := 110) (by decide) rest⟩
  · exact ⟨.short (by decide) h, by rw [h6]; exact unescape_short (e := 114) (by decide) rest⟩
  · exact ⟨.short (by decide) h, by rw [h7]; exact unescape_short (e := 116) (by decide) rest⟩
  · exact ⟨.unicode (isHexDigit_hexUnit _) (isHexDigit_hexUnit _) (isHexDigit_hexUnit _)
      (isHexDigit_hexUnit _) h, unescape_unicodeEscape c rest⟩
  · simp only [Bool.or_eq_true, not_or, Bool.not_eq_true, decide_eq_true_eq] at h8
    have hc : 32 ≤ c.toNat := not_lt.1 fun hlt => h8.1.1 (UInt16.lt_iff_toNat_lt.2 hlt)
    exact ⟨.plain h1 h2 hc h, unescape_plain h2 rest⟩

/-- **What is written for a string** is allowed in one and is read as the string.  By induction
on the units. -/
theorem quoteUnits_spec : ∀ s : JsString, StringBody (quoteUnits s) ∧ unescape (quoteUnits s) = s
  | [] => ⟨.nil, rfl⟩
  | [c] => by
      have hspec := escapeUnit_spec c .nil
      rw [List.append_nil] at hspec
      exact hspec
  | c :: d :: rest => by
      unfold quoteUnits
      split_ifs with hpair
      · obtain ⟨⟨hc, -⟩, hd, -⟩ := bounds_of_pair hpair
        have hne : ∀ u : UInt16, 55296 ≤ u.toNat → u ≠ 34 ∧ u ≠ 92 ∧ 32 ≤ u.toNat := by
          refine fun u hu => ⟨?_, ?_, by omega⟩
          · rintro rfl
            exact absurd hu (by decide)
          · rintro rfl
            exact absurd hu (by decide)
        obtain ⟨hc34, hc92, hc32⟩ := hne c hc
        obtain ⟨hd34, hd92, hd32⟩ := hne d (by omega)
        obtain ⟨hbody, hread⟩ := quoteUnits_spec rest
        refine ⟨.plain hc34 hc92 hc32 (.plain hd34 hd92 hd32 hbody), ?_⟩
        rw [unescape_plain hc92, unescape_plain hd92, hread]
      · obtain ⟨hbody, hread⟩ := quoteUnits_spec (d :: rest)
        obtain ⟨hbody', hread'⟩ := escapeUnit_spec c hbody
        exact ⟨hbody', hread'.trans (congrArg (c :: ·) hread)⟩

/-! ### Numbers -/

/-- Digits that do not begin with a zero. -/
theorem integerText_of_significant {a b : JsString} {m : ℕ} (hs : IsSignificant (natText m))
    (hab : natText m = a ++ b) (ha : a ≠ []) : IntegerText a := by
  obtain ⟨c, t, rfl⟩ := List.exists_cons_of_ne_nil ha
  refine .digits (fun d hd => hs.digits d (hab ▸ List.mem_append_left _ hd)) fun hc => ?_
  have hhead := hs.head
  simp only [hab, List.cons_append, List.head_cons] at hhead
  exact hhead hc

/-- More zeros do not change how digits begin. -/
theorem IntegerText.zeros {s : JsString} (h : IntegerText s) (hne : s ≠ [48]) (z : ℕ) :
    IntegerText (s ++ List.replicate z 48) := by
  cases h with
  | zero => exact absurd rfl hne
  | digits hdigits hc => exact .digits (hdigits.append (isDigits_replicate z)) hc

/-- **The text of a positive number is a number.**  The cases are those of the layout: digits
alone, a point among them, zeros before or behind, or an exponent. -/
theorem unsignedText_text (d : Decimal) : UnsignedText d.text := by
  have hs := isSignificant_natText d.lowest
  have hlead : ∀ {a b : JsString}, natText d.digits = a ++ b → a ≠ [] → IntegerText a :=
    integerText_of_significant hs
  rw [Decimal.text]
  rcases layout_cases _ hs.ne_nil ((natText d.digits).length + d.exponent) with
    ⟨z, -, e⟩ | ⟨a, b, hab, ha, hb, -, e⟩ | ⟨z, -, e⟩ | ⟨c, b, hcb, e⟩
  · have hinteger : IntegerText (natText d.digits) := hlead (List.append_nil _).symm hs.ne_nil
    have hne : natText d.digits ≠ [48] := fun he => by
      have hhead := hs.head
      simp only [he, List.head_cons, ne_eq, not_true_eq_false] at hhead
    have hparts := UnsignedText.parts (hinteger.zeros hne z) .none .none
    rw [e]
    simpa using hparts
  · have hbs : IsDigits b := fun c hc => hs.digits c (hab ▸ List.mem_append_right _ hc)
    have hparts := UnsignedText.parts (hlead hab ha) (.digits hbs hb) .none
    rw [e]
    simpa using hparts
  · have hall := (isDigits_replicate z).append hs.digits
    have hne : List.replicate z 48 ++ natText d.digits ≠ [] := by simp [hs.ne_nil]
    have hparts := UnsignedText.parts .zero (.digits hall hne) .none
    rw [e]
    simpa using hparts
  · have hbs : IsDigits b := fun x hx => hs.digits x (hcb ▸ List.mem_cons_of_mem _ hx)
    have hsplit : natText d.digits = [c] ++ b := hcb
    rw [e]
    generalize (natText d.digits).length + d.exponent - 1 = n
    have hsign : (if n < 0 then (45 : UInt16) else 43) = 43 ∨
        (if n < 0 then (45 : UInt16) else 43) = 45 := by split_ifs <;> simp
    generalize (if n < 0 then (45 : UInt16) else 43) = sign at hsign ⊢
    have hne : natText n.natAbs ≠ [] := by simpa [natText] using natDigits_ne_nil n.natAbs
    have hexponent : ExponentText (101 :: sign :: natText n.natAbs) :=
      .signed (.inl rfl) hsign (isDigits_natText _) hne
    by_cases hb : b = []
    · have hparts := UnsignedText.parts (hlead hsplit (by simp)) .none hexponent
      rw [if_pos hb]
      simpa using hparts
    · have hparts := UnsignedText.parts (hlead hsplit (by simp)) (.digits hbs hb) hexponent
      rw [if_neg hb]
      simpa using hparts

/-- **The text of a number is one of the grammar**: no zero leads it, and a fraction and an
exponent have digits. -/
theorem numberText_text (x : FiniteNumber) : NumberText x.text := by
  cases x with
  | zero negative => exact .unsigned (.parts .zero .none .none)
  | nonzero negative d =>
      cases negative with
      | false => exact .unsigned (unsignedText_text d)
      | true => exact .negative (unsignedText_text d)

/-! ### Values -/

/-- How a primitive is written. -/
def JsonPrimitive.written : JsonPrimitive → JsonSyntax
  | .null => .atom (js "null")
  | .bool true => .atom (js "true")
  | .bool false => .atom (js "false")
  | .number x => .atom x.text
  | .string s => .string (quoteUnits s)

namespace Json

mutual

/-- **How a tree is written.** -/
def written : Json → JsonSyntax
  | .prim p => p.written
  | .arr items => .array (writtenItems items)
  | .obj props => .object (writtenProps props)

/-- How the items of an array are written. -/
def writtenItems : List Json → List JsonSyntax
  | [] => []
  | j :: rest => written j :: writtenItems rest

/-- How the members of an object are written. -/
def writtenProps : List (JsString × Json) → List (JsString × JsonSyntax)
  | [] => []
  | (name, j) :: rest => (quoteUnits name, written j) :: writtenProps rest

end

/-- No text at all is white space. -/
theorem isBlank_nil : IsBlank [] := fun _ hc => (List.not_mem_nil hc).elim

/-- Nothing stands around what is written. -/
theorem derives_padded {v : JsonSyntax} {t : JsString} (h : Derives (.value v) t) :
    Derives (.padded v) t := by
  have hpad := Derives.pad isBlank_nil h isBlank_nil
  rwa [List.nil_append, List.append_nil] at hpad

/-- A name and its value. -/
theorem derives_member {name t : JsString} {v : JsonSyntax} (h : Derives (.padded v) t) :
    Derives (.members [(quoteUnits name, v)]) (quote name ++ 58 :: t) :=
  .member isBlank_nil (quoteUnits_spec name).1 isBlank_nil h

/-- A name, its value and more members. -/
theorem derives_moreMembers {name t s : JsString} {v : JsonSyntax}
    {ms : List (JsString × JsonSyntax)} (h : Derives (.padded v) t) (hs : Derives (.members ms) s) :
    Derives (.members ((quoteUnits name, v) :: ms)) (quote name ++ 58 :: (t ++ 44 :: s)) :=
  .moreMembers isBlank_nil (quoteUnits_spec name).1 isBlank_nil h hs

mutual

/-- **The text of a tree is a JSON text.**  By induction on the tree, with the derivation
`written` says. -/
theorem derives_stringify : ∀ j : Json, Derives (.value j.written) j.stringify
  | .prim .null => .atom .null
  | .prim (.bool true) => .atom .true
  | .prim (.bool false) => .atom .false
  | .prim (.number x) => .atom (.number (numberText_text x))
  | .prim (.string s) => .string (quoteUnits_spec s).1
  | .arr [] => .noItems isBlank_nil
  | .arr (j :: rest) => .array (derives_stringifyItems (j :: rest) (List.cons_ne_nil j rest))
  | .obj [] => .noMembers isBlank_nil
  | .obj (p :: rest) => .object (derives_stringifyProps (p :: rest) (List.cons_ne_nil p rest))

/-- What a list of items is written as is derived from the items. -/
theorem derives_stringifyItems : ∀ items : List Json, items ≠ [] →
    Derives (.items (writtenItems items)) (stringifyItems items)
  | [], h => absurd rfl h
  | [j], _ => .item (derives_padded (derives_stringify j))
  | j :: k :: rest, _ => .moreItems (derives_padded (derives_stringify j))
      (derives_stringifyItems (k :: rest) (List.cons_ne_nil k rest))

/-- What a list of properties is written as is derived from the properties. -/
theorem derives_stringifyProps : ∀ props : List (JsString × Json), props ≠ [] →
    Derives (.members (writtenProps props)) (stringifyProps props)
  | [], h => absurd rfl h
  | [(_, j)], _ => derives_member (derives_padded (derives_stringify j))
  | (_, j) :: p :: rest, _ => derives_moreMembers (derives_padded (derives_stringify j))
      (derives_stringifyProps (p :: rest) (List.cons_ne_nil p rest))

end

mutual

/-- A value and what it is written as have the same number of values in them.  A primitive
becomes an atom or a string, which is one value as well. -/
theorem nodes_written : ∀ j : Json, j.written.nodes = j.nodes
  | .prim .null => rfl
  | .prim (.bool true) => rfl
  | .prim (.bool false) => rfl
  | .prim (.number _) => rfl
  | .prim (.string _) => rfl
  | .arr items => congrArg (· + 1) (nodesItems_written items)
  | .obj props => congrArg (· + 1) (nodesProps_written props)

/-- The same for a list of items. -/
theorem nodesItems_written : ∀ items : List Json,
    JsonSyntax.nodesItems (writtenItems items) = nodesItems items
  | [] => rfl
  | j :: rest => congrArg₂ (· + ·) (nodes_written j) (nodesItems_written rest)

/-- The same for a list of properties. -/
theorem nodesProps_written : ∀ props : List (JsString × Json),
    JsonSyntax.nodesMembers (writtenProps props) = nodesProps props
  | [] => rfl
  | (_, j) :: rest => congrArg₂ (· + ·) (nodes_written j) (nodesProps_written rest)

end

mutual

/-- A value and what it is written as are nested equally deep.  Names have no part in the
height. -/
theorem height_written : ∀ j : Json, j.written.height = j.height
  | .prim .null => rfl
  | .prim (.bool true) => rfl
  | .prim (.bool false) => rfl
  | .prim (.number _) => rfl
  | .prim (.string _) => rfl
  | .arr items => heightItems_written items
  | .obj props => heightProps_written props

/-- The same for a list of items. -/
theorem heightItems_written : ∀ items : List Json,
    JsonSyntax.heightItems (writtenItems items) = heightItems items
  | [] => rfl
  | j :: rest => congrArg₂ (fun a b => max (a + 1) b) (height_written j) (heightItems_written rest)

/-- The same for a list of properties. -/
theorem heightProps_written : ∀ props : List (JsString × Json),
    JsonSyntax.heightMembers (writtenProps props) = heightProps props
  | [] => rfl
  | (_, j) :: rest =>
      congrArg₂ (fun a b => max (a + 1) b) (height_written j) (heightProps_written rest)

end

/-- The names of an object are read as they were. -/
theorem map_unescape_written (props : List (JsString × Json)) :
    (writtenProps props).map (fun m => unescape m.1) = props.map Prod.fst := by
  induction props with
  | nil => rfl
  | cons p rest ih => exact congrArg₂ List.cons (quoteUnits_spec p.1).2 ih

mutual

/-- **Data has every name once**, and so has its text.  The names are compared as they are read,
so that escapes do not hide one. -/
theorem namesDistinct_written : ∀ {j : Json}, j.isData → j.written.NamesDistinct
  | .prim .null, _ => trivial
  | .prim (.bool true), _ => trivial
  | .prim (.bool false), _ => trivial
  | .prim (.number _), _ => trivial
  | .prim (.string _), _ => trivial
  | .arr _, h => namesDistinctItems_written h
  | .obj props, h => by
      obtain ⟨hlist, hprops⟩ := Bool.and_eq_true_iff.1 h
      refine ⟨?_, namesDistinctProps_written hprops⟩
      rw [map_unescape_written]
      exact nodup_of_isPropertyList hlist

/-- The items of data are written without a name that occurs twice in an object. -/
theorem namesDistinctItems_written : ∀ {items : List Json}, isDataItems items →
    JsonSyntax.NamesDistinctItems (writtenItems items)
  | [], _ => trivial
  | _ :: _, h => by
      obtain ⟨hj, hrest⟩ := Bool.and_eq_true_iff.1 h
      exact ⟨namesDistinct_written hj, namesDistinctItems_written hrest⟩

/-- The properties of data are written without a name that occurs twice in an object. -/
theorem namesDistinctProps_written : ∀ {props : List (JsString × Json)}, isDataProps props →
    JsonSyntax.NamesDistinctMembers (writtenProps props)
  | [], _ => trivial
  | _ :: _, h => by
      obtain ⟨hj, hrest⟩ := Bool.and_eq_true_iff.1 h
      exact ⟨namesDistinct_written hj, namesDistinctProps_written hrest⟩

end

end Json

end NewtonDB
