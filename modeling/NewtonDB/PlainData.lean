/-
# Plain data in a population of values

`graph.Denotes j v` says that the value `v`, with everything its data properties lead to,
is the tree `j`: no accessor, no hole, no object with a symbol or a foreign prototype, and no
cycle, since the tree is finite.  Two values may share what is below them; the tree has it
twice.  Of an array the tree has the elements.  What else an array has is not looked at:
whether there is anything else is `graph.ArraysHave`.

`estimate` is what the walk over a document counts for a tree, and never more than the
bytes of its text (`estimate_le`).
-/

import NewtonDB.Js.JsonData
import NewtonDB.Js.Value

namespace NewtonDB

/-! ### What a value denotes -/

/-- The view of a value that is a primitive of plain data. -/
def JsView.prim? {σ : Type*} : JsView σ → Option JsonPrimitive
  | .null => some .null
  | .bool b => some (.bool b)
  | .number (.finite n) => some (.number n)
  | .string s => some (.string s)
  | _ => none

namespace JsGraph

variable {σ : Type*} (graph : JsGraph σ)

mutual

/-- **A value is the tree**, with its arrays taken as their elements. -/
def Denotes : Json → σ → Prop
  | .prim p, v => (graph.view v).prim? = some p
  | .arr items, v => ∃ slots extras, graph.view v = .array slots extras ∧ DenotesItems items slots
  | .obj props, v => ∃ slots, graph.view v = .object true [] slots ∧ DenotesProps props slots

/-- Array slots are the items. -/
def DenotesItems : List Json → List (Slot σ) → Prop
  | [], slots => slots = []
  | j :: items, slots => ∃ w rest, slots = .data w :: rest ∧ Denotes j w ∧ DenotesItems items rest

/-- Object slots are the members. -/
def DenotesProps : List (JsString × Json) → List (JsString × Slot σ) → Prop
  | [], slots => slots = []
  | (name, j) :: props, slots =>
      ∃ w rest, slots = (name, .data w) :: rest ∧ Denotes j w ∧ DenotesProps props rest

end

variable {graph}

mutual

/-- **A value is one tree.**  By induction on the tree: the view of a value leaves no choice.
The two lists of slots are one, as they are in the view of the value. -/
theorem denotes_unique : ∀ {j k : Json} {v : σ}, graph.Denotes j v → graph.Denotes k v → j = k
  | .prim p, .prim q, _, hj, hk => congrArg Json.prim (Option.some.inj (hj.symm.trans hk))
  | .arr items, .arr items', _, ⟨slots, _, hview, hitems⟩, ⟨slots', _, hview', hitems'⟩ => by
      obtain rfl := (JsView.array.inj (hview.symm.trans hview')).1
      rw [denotesItems_unique hitems hitems']
  | .obj props, .obj props', _, ⟨slots, hview, hprops⟩, ⟨slots', hview', hprops'⟩ => by
      obtain rfl := (JsView.object.inj (hview.symm.trans hview')).2.2
      rw [denotesProps_unique hprops hprops']
  | .prim p, .arr _, _, hj, ⟨_, _, hview, _⟩ => by rw [Denotes, hview] at hj; cases hj
  | .prim p, .obj _, _, hj, ⟨_, hview, _⟩ => by rw [Denotes, hview] at hj; cases hj
  | .arr _, .prim q, _, ⟨_, _, hview, _⟩, hk => by rw [Denotes, hview] at hk; cases hk
  | .obj _, .prim q, _, ⟨_, hview, _⟩, hk => by rw [Denotes, hview] at hk; cases hk
  | .arr _, .obj _, _, ⟨_, _, hview, _⟩, ⟨_, hview', _⟩ => by cases hview.symm.trans hview'
  | .obj _, .arr _, _, ⟨_, hview, _⟩, ⟨_, _, hview', _⟩ => by cases hview.symm.trans hview'

/-- A list of slots denotes one list of items at most.  By recursion along the slots, with the
elements' own trees. -/
theorem denotesItems_unique : ∀ {items items' : List Json} {slots : List (Slot σ)},
    graph.DenotesItems items slots → graph.DenotesItems items' slots → items = items'
  | [], [], _, _, _ => rfl
  | [], _ :: _, _, h, ⟨_, _, h', _⟩ => by cases h.symm.trans h'
  | _ :: _, [], _, ⟨_, _, h, _⟩, h' => by cases h.symm.trans h'
  | j :: items, k :: items', _, ⟨v, rest, h, hj, hitems⟩, ⟨w, rest', h', hk, hitems'⟩ => by
      obtain ⟨hslot, rfl⟩ := List.cons.inj (h.symm.trans h')
      obtain rfl := Slot.data.inj hslot
      rw [denotes_unique hj hk, denotesItems_unique hitems hitems']

/-- A list of named slots denotes one list of properties at most.  The names are those of the
slots, so only the values are left. -/
theorem denotesProps_unique : ∀ {props props' : List (JsString × Json)}
    {slots : List (JsString × Slot σ)},
    graph.DenotesProps props slots → graph.DenotesProps props' slots → props = props'
  | [], [], _, _, _ => rfl
  | [], _ :: _, _, h, ⟨_, _, h', _⟩ => by cases h.symm.trans h'
  | _ :: _, [], _, ⟨_, _, h, _⟩, h' => by cases h.symm.trans h'
  | (name, j) :: props, (name', k) :: props', _, ⟨v, rest, h, hj, hprops⟩,
      ⟨w, rest', h', hk, hprops'⟩ => by
      obtain ⟨hslot, rfl⟩ := List.cons.inj (h.symm.trans h')
      obtain ⟨rfl, hdata⟩ := Prod.mk.inj hslot
      obtain rfl := Slot.data.inj hdata
      rw [denotes_unique hj hk, denotesProps_unique hprops hprops']

end

end JsGraph

/-! ### Plain data is what it is -/

namespace Json

mutual

/-- **Plain data denotes itself.**  By induction on the tree. -/
theorem denotes_graph : ∀ j : Json, graph.Denotes j j
  | .prim .null => rfl
  | .prim (.bool _) => rfl
  | .prim (.number _) => rfl
  | .prim (.string _) => rfl
  | .arr items => ⟨_, _, rfl, denotesItems_graph items⟩
  | .obj props => ⟨_, rfl, denotesProps_graph props⟩

/-- The items of plain data denote themselves. -/
theorem denotesItems_graph : ∀ items : List Json, graph.DenotesItems items (items.map .data)
  | [] => rfl
  | j :: items => ⟨j, _, rfl, denotes_graph j, denotesItems_graph items⟩

/-- The properties of plain data denote themselves. -/
theorem denotesProps_graph : ∀ props : List (JsString × Json),
    graph.DenotesProps props (props.map fun p => (p.1, .data p.2))
  | [] => rfl
  | (_, j) :: props => ⟨j, _, rfl, denotes_graph j, denotesProps_graph props⟩

end

/-! ### The estimate of the walk -/

mutual

/-- The bytes the walk counts for a tree. -/
def estimate : Json → ℕ
  | .prim .null => 4
  | .prim (.bool b) => if b then 4 else 5
  | .prim (.number n) => n.text.length
  | .prim (.string s) => utf8Length s + 2
  | .arr items => estimateItems items
  | .obj props => estimateProps props

/-- The bytes it counts for the items of an array. -/
def estimateItems : List Json → ℕ
  | [] => 0
  | j :: rest => estimate j + 1 + estimateItems rest

/-- The bytes it counts for the members of an object. -/
def estimateProps : List (JsString × Json) → ℕ
  | [] => 0
  | (name, j) :: rest => estimate j + (utf8Length name + 3) + estimateProps rest

end

mutual

/-- No string and no name is longer than the limit. -/
def StringsWithin (limit : ℕ) : Json → Prop
  | .prim (.string s) => utf8Length s ≤ limit
  | .prim _ => True
  | .arr items => StringsWithinItems limit items
  | .obj props => StringsWithinProps limit props

/-- No string in the items is. -/
def StringsWithinItems (limit : ℕ) : List Json → Prop
  | [] => True
  | j :: rest => StringsWithin limit j ∧ StringsWithinItems limit rest

/-- No string and no name in the members is. -/
def StringsWithinProps (limit : ℕ) : List (JsString × Json) → Prop
  | [] => True
  | (name, j) :: rest =>
      utf8Length name ≤ limit ∧ StringsWithin limit j ∧ StringsWithinProps limit rest

end

end Json

/-! ### The bytes of a text -/

/-- A unit that is no surrogate has its own bytes. -/
theorem utf8Length_cons {c : UInt16} (h : isSurrogate c = false) (s : JsString) :
    utf8Length (c :: s) = unitBytes c + utf8Length s := by
  cases s with
  | nil => rfl
  | cons d rest =>
      have hhigh : isHighSurrogate c = false := (Bool.or_eq_false_iff.1 h).1
      rw [utf8Length, hhigh, Bool.false_and, if_neg (by simp)]

/-- The bytes of two texts add up when the first is well formed, so that no pair is made where
they meet. -/
theorem utf8Length_append {s : JsString} (h : isWellFormed s) (t : JsString) :
    utf8Length (s ++ t) = utf8Length s + utf8Length t := by
  refine isWellFormed_induction (P := fun s => utf8Length (s ++ t) = utf8Length s + utf8Length t)
    (Nat.zero_add _).symm (fun c s hc _ ih => ?_) (fun c d s hp _ ih => ?_) s h
  · rw [List.cons_append, utf8Length_cons hc, utf8Length_cons hc, ih, Nat.add_assoc]
  · rw [List.cons_append, List.cons_append, utf8Length, utf8Length, if_pos hp, if_pos hp, ih,
      Nat.add_assoc]

/-- A text of ASCII has as many bytes as units.  A unit below 128 takes one byte, and is no half
of a pair. -/
theorem utf8Length_of_isAscii {s : JsString} (h : IsAscii s) : utf8Length s = s.length := by
  induction s with
  | nil => rfl
  | cons c s ih =>
      have hc : c.toNat < 128 := h c (List.mem_cons_self ..)
      have hunit : unitBytes c = 1 := if_pos (UInt16.lt_iff_toNat_lt.2 hc)
      rw [utf8Length_cons (isSurrogate_of_lt hc), hunit, ih fun c hc => h c (List.mem_cons_of_mem _ hc),
        List.length_cons, Nat.add_comm]

/-- **An escape is not shorter than what it stands for.**  The cases are those of the
escapes. -/
theorem unitBytes_le_escapeUnit (c : UInt16) : unitBytes c ≤ utf8Length (escapeUnit c) := by
  have hle : unitBytes c ≤ 3 := by
    unfold unitBytes
    split_ifs <;> omega
  unfold escapeUnit
  split_ifs with h1 h2 h3 h4 h5 h6 h7 h8
  · subst h1; decide
  · subst h2; decide
  · subst h3; decide
  · subst h4; decide
  · subst h5; decide
  · subst h6; decide
  · subst h7; decide
  · rw [utf8Length_of_isAscii (isAscii_unicodeEscape c)]
    exact hle.trans (Nat.le_of_ble_eq_true rfl)
  · exact le_rfl

/-- To escape a string does not make it shorter: a lone surrogate of three bytes becomes an
escape of six. -/
theorem utf8Length_le_quoteUnits : ∀ s : JsString, utf8Length s ≤ utf8Length (quoteUnits s)
  | [] => le_rfl
  | [c] => unitBytes_le_escapeUnit c
  | c :: d :: rest => by
      by_cases hp : (isHighSurrogate c && isLowSurrogate d) = true
      · rw [quoteUnits, if_pos hp, utf8Length, if_pos hp, utf8Length, if_pos hp]
        exact Nat.add_le_add_left (utf8Length_le_quoteUnits rest) 4
      · rw [quoteUnits, if_neg hp, utf8Length, if_neg hp,
          utf8Length_append (isWellFormed_escapeUnit c)]
        exact Nat.add_le_add (unitBytes_le_escapeUnit c) (utf8Length_le_quoteUnits (d :: rest))

/-- A quoted string has at least the bytes of the string and of two quotes. -/
theorem utf8Length_le_quote (s : JsString) : utf8Length s + 2 ≤ utf8Length (quote s) := by
  have hunits := utf8Length_le_quoteUnits s
  have hquote : utf8Length (quote s) = 1 + (utf8Length (quoteUnits s) + 1) := by
    rw [quote, utf8Length_cons (by decide), utf8Length_append (isWellFormed_quoteUnits s)]
    rfl
  omega

/-- One more byte for a mark. -/
theorem utf8Length_mark {c : UInt16} (h : c.toNat < 128) (s : JsString) :
    utf8Length (c :: s) = utf8Length s + 1 := by
  rw [utf8Length_cons (isSurrogate_of_lt h), Nat.add_comm, unitBytes,
    if_pos (UInt16.lt_iff_toNat_lt.2 h)]

/-- The bytes of a written value and of what follows it add up. -/
theorem utf8Length_stringify_append (j : Json) (t : JsString) :
    utf8Length (j.stringify ++ t) = utf8Length j.stringify + utf8Length t :=
  utf8Length_append j.isWellFormed_stringify t

/-- The bytes of a member. -/
theorem utf8Length_member (name : JsString) (t : JsString) :
    utf8Length (quote name ++ 58 :: t) = utf8Length (quote name) + 1 + utf8Length t := by
  rw [utf8Length_append (isWellFormed_quote name), utf8Length_mark (by decide)]
  omega

namespace Json

/-- An array has the bytes of its items and of two brackets. -/
theorem utf8Length_arr (items : List Json) :
    utf8Length (arr items).stringify = utf8Length (stringifyItems items) + 2 := by
  rw [stringify, utf8Length_mark (by decide), utf8Length_append (isWellFormed_stringifyItems items)]
  rfl

/-- An object has the bytes of its properties and of two braces. -/
theorem utf8Length_obj (props : List (JsString × Json)) :
    utf8Length (obj props).stringify = utf8Length (stringifyProps props) + 2 := by
  rw [stringify, utf8Length_mark (by decide), utf8Length_append (isWellFormed_stringifyProps props)]
  rfl

mutual

/-- **The estimate is no more than the bytes of the text.**  By induction on
the tree: a primitive counts its own bytes, and an array or an object some for each part. -/
theorem estimate_le : ∀ j : Json, j.estimate ≤ utf8Length j.stringify
  | .prim .null => by decide
  | .prim (.bool true) => by decide
  | .prim (.bool false) => by decide
  | .prim (.number n) => (utf8Length_of_isAscii (isAscii_text n)).ge
  | .prim (.string s) => utf8Length_le_quote s
  | .arr items => by
      have hitems := estimateItems_le items
      rw [estimate, utf8Length_arr]
      omega
  | .obj props => by
      have hprops := estimateProps_le props
      rw [estimate, utf8Length_obj]
      omega

/-- The estimate of a list of items is no more than their bytes and one, for the comma it counts
behind the last. -/
theorem estimateItems_le : ∀ items : List Json,
    estimateItems items ≤ utf8Length (stringifyItems items) + 1
  | [] => by decide
  | [j] => by
      have hj := estimate_le j
      simp only [estimateItems, stringifyItems]
      omega
  | j :: k :: rest => by
      have hj := estimate_le j
      have hrest := estimateItems_le (k :: rest)
      rw [estimateItems, stringifyItems, utf8Length_stringify_append, utf8Length_mark (by decide)]
      omega

/-- The estimate of a list of properties is no more than their bytes and one, for the comma it
counts behind the last. -/
theorem estimateProps_le : ∀ props : List (JsString × Json),
    estimateProps props ≤ utf8Length (stringifyProps props)
  | [] => by decide
  | [(name, j)] => by
      have hname := utf8Length_le_quote name
      have hj := estimate_le j
      simp only [estimateProps, stringifyProps, utf8Length_member]
      omega
  | (name, j) :: p :: rest => by
      have hname := utf8Length_le_quote name
      have hj := estimate_le j
      have hrest := estimateProps_le (p :: rest)
      rw [estimateProps, stringifyProps, utf8Length_member, utf8Length_stringify_append,
        utf8Length_mark (by decide)]
      omega

end

end Json

end NewtonDB
