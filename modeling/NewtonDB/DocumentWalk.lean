/-
# The walk over a document

What `visit` does with any value, plain data or not.  It passes what is plain data within
the limits (`Passes`), it runs a getter where it comes to an accessor element of an array
(`Meets`), and it refuses anything else without having run one (`visit_outcome`).

`Meets` follows the walk: what it comes to is an element of an array, below arrays and
plain objects, and whatever the walk visits before it is plain data within the limits.
-/

import NewtonDB.Engine.Failures
import NewtonDB.Lib.Outcome
import NewtonDB.PlainData

namespace NewtonDB

/-! ### What fits -/

/-- A tree the walk has room for, with so many levels left below `maxDepth` and so many
values and bytes counted. -/
structure Json.Fits (limits : JsonLimits) (levels nodes bytes : ℕ) (j : Json) : Prop where
  nodes_le : nodes + j.nodes ≤ limits.maxNodes
  height_lt : j.height < levels
  strings : j.StringsWithin limits.maxStringBytes
  /-- The bytes are compared at the end of an array or an object. -/
  bytes_le : j.prim? = none → bytes + j.estimate ≤ limits.maxDocumentBytes

/-- Items the walk has room for, one after the other. -/
def Json.FitsItems (limits : JsonLimits) (levels : ℕ) : ℕ → ℕ → List Json → Prop
  | _, _, [] => True
  | nodes, bytes, j :: rest =>
      j.Fits limits levels nodes bytes ∧
        FitsItems limits levels (nodes + j.nodes) (bytes + (j.estimate + 1)) rest

/-- Members the walk has room for. -/
def Json.FitsProps (limits : JsonLimits) (levels : ℕ) : ℕ → ℕ → List (JsString × Json) → Prop
  | _, _, [] => True
  | nodes, bytes, (name, j) :: rest =>
      utf8Length name ≤ limits.maxStringBytes ∧ j.Fits limits levels nodes bytes ∧
        FitsProps limits levels (nodes + j.nodes)
          (bytes + (j.estimate + (utf8Length name + 3))) rest

namespace Json

variable {limits : JsonLimits} {levels nodes bytes : ℕ}

/-- **Items fit when all of them do together.**  The bytes only grow, so the comparison at
the end is the strictest. -/
theorem fitsItems_iff : ∀ {items : List Json} {nodes bytes : ℕ}, nodes ≤ limits.maxNodes →
    bytes + estimateItems items ≤ limits.maxDocumentBytes →
    (FitsItems limits levels nodes bytes items ↔ nodes + nodesItems items ≤ limits.maxNodes ∧
      heightItems items ≤ levels ∧ StringsWithinItems limits.maxStringBytes items)
  | [], _, _, hn, _ => ⟨fun _ => ⟨hn, Nat.zero_le _, trivial⟩, fun _ => trivial⟩
  | j :: rest, nodes, bytes, hn, hb => by
      rw [estimateItems] at hb
      have hrest : nodes + j.nodes ≤ limits.maxNodes →
          (FitsItems limits levels (nodes + j.nodes) (bytes + (j.estimate + 1)) rest ↔ _) :=
        fun h => fitsItems_iff h (by omega)
      simp only [FitsItems, nodesItems, heightItems, StringsWithinItems, max_le_iff]
      constructor
      · rintro ⟨hj, hfits⟩
        obtain ⟨hnodes, hheight, hstrings⟩ := (hrest hj.nodes_le).1 hfits
        exact ⟨by omega, ⟨hj.height_lt, hheight⟩, hj.strings, hstrings⟩
      · rintro ⟨hnodes, ⟨hj, hheight⟩, hstring, hstrings⟩
        refine ⟨⟨by omega, hj, hstring, fun _ => by omega⟩, (hrest (by omega)).2 ?_⟩
        exact ⟨by omega, hheight, hstrings⟩

/-- **Properties fit** when there is room for their values, none of them is nested too deep and
no string or name is too long.  The bytes are counted property by property, so that the last
count bounds the others. -/
theorem fitsProps_iff : ∀ {props : List (JsString × Json)} {nodes bytes : ℕ},
    nodes ≤ limits.maxNodes → bytes + estimateProps props ≤ limits.maxDocumentBytes →
    (FitsProps limits levels nodes bytes props ↔ nodes + nodesProps props ≤ limits.maxNodes ∧
      heightProps props ≤ levels ∧ StringsWithinProps limits.maxStringBytes props)
  | [], _, _, hn, _ => ⟨fun _ => ⟨hn, Nat.zero_le _, trivial⟩, fun _ => trivial⟩
  | (name, j) :: rest, nodes, bytes, hn, hb => by
      rw [estimateProps] at hb
      have hrest : nodes + j.nodes ≤ limits.maxNodes → (FitsProps limits levels (nodes + j.nodes)
          (bytes + (j.estimate + (utf8Length name + 3))) rest ↔ _) :=
        fun h => fitsProps_iff h (by omega)
      simp only [FitsProps, nodesProps, heightProps, StringsWithinProps, max_le_iff]
      constructor
      · rintro ⟨hname, hj, hfits⟩
        obtain ⟨hnodes, hheight, hstrings⟩ := (hrest hj.nodes_le).1 hfits
        exact ⟨by omega, ⟨hj.height_lt, hheight⟩, hname, hj.strings, hstrings⟩
      · rintro ⟨hnodes, ⟨hj, hheight⟩, hname, hstring, hstrings⟩
        refine ⟨hname, ⟨by omega, hj, hstring, fun _ => by omega⟩, (hrest (by omega)).2 ?_⟩
        exact ⟨by omega, hheight, hstrings⟩

/-- An array fits when its items do, one level down.  The comma of each element is in the
estimate of the items already. -/
theorem fits_arr_iff {items : List Json} :
    (arr items).Fits limits (levels + 1) nodes bytes ↔ nodes + 1 ≤ limits.maxNodes ∧
      FitsItems limits levels (nodes + 1) bytes items ∧
        bytes + estimateItems items ≤ limits.maxDocumentBytes := by
  constructor
  · intro h
    have hnodes : nodes + (nodesItems items + 1) ≤ limits.maxNodes := h.nodes_le
    have hbytes := h.bytes_le rfl
    refine ⟨by omega, (fitsItems_iff (by omega) hbytes).2 ⟨by omega, ?_, h.strings⟩, hbytes⟩
    exact Nat.le_of_lt_succ h.height_lt
  · rintro ⟨hn, hfits, hbytes⟩
    obtain ⟨hnodes, hheight, hstrings⟩ := (fitsItems_iff hn hbytes).1 hfits
    exact ⟨by rw [Json.nodes]; omega, Nat.lt_succ_of_le hheight, hstrings, fun _ => hbytes⟩

/-- An object fits when there is room for it and its properties, and its estimate is within the
limit. -/
theorem fits_obj_iff {props : List (JsString × Json)} :
    (obj props).Fits limits (levels + 1) nodes bytes ↔ nodes + 1 ≤ limits.maxNodes ∧
      FitsProps limits levels (nodes + 1) bytes props ∧
        bytes + estimateProps props ≤ limits.maxDocumentBytes := by
  constructor
  · intro h
    have hnodes : nodes + (nodesProps props + 1) ≤ limits.maxNodes := h.nodes_le
    have hbytes := h.bytes_le rfl
    refine ⟨by omega, (fitsProps_iff (by omega) hbytes).2 ⟨by omega, ?_, h.strings⟩, hbytes⟩
    exact Nat.le_of_lt_succ h.height_lt
  · rintro ⟨hn, hfits, hbytes⟩
    obtain ⟨hnodes, hheight, hstrings⟩ := (fitsProps_iff hn hbytes).1 hfits
    exact ⟨by rw [Json.nodes]; omega, Nat.lt_succ_of_le hheight, hstrings, fun _ => hbytes⟩

/-- A primitive fits. -/
theorem fits_prim_iff {p : JsonPrimitive} :
    (prim p).Fits limits (levels + 1) nodes bytes ↔ nodes + 1 ≤ limits.maxNodes ∧
      (prim p).StringsWithin limits.maxStringBytes :=
  ⟨fun h => ⟨h.nodes_le, h.strings⟩, fun h => ⟨h.1, Nat.succ_pos _, h.2, fun hp => by cases hp⟩⟩

/-- Every value counts at least as one. -/
theorem nodes_pos : ∀ j : Json, 0 < j.nodes
  | .prim _ => Nat.one_pos
  | .arr _ => Nat.succ_pos _
  | .obj _ => Nat.succ_pos _

end Json

/-! ### What the walk passes and what it comes to -/

/-- The walk, so many values and bytes further. -/
def VisitState.add {σ : Type} (s : VisitState σ) (nodes bytes : ℕ) : VisitState σ :=
  { s with nodes := s.nodes + nodes, bytes := s.bytes + bytes }

/-- Two additions to the counts are one of their sums. -/
theorem VisitState.add_add {σ : Type} (s : VisitState σ) (n b n' b' : ℕ) :
    (s.add n b).add n' b' = s.add (n + n') (b + b') := by
  simp only [VisitState.add, Nat.add_assoc]

/-- The walk inside an array or an object. -/
def VisitState.inside {σ : Type} (s : VisitState σ) (value : σ) : VisitState σ :=
  { s with nodes := s.nodes + 1, seen := value :: s.seen }

namespace JsGraph

variable {σ : Type} (graph : JsGraph σ) (limits : JsonLimits)

/-- The walk passes a value: it is plain data there is room for. -/
def Passes (levels : ℕ) (value : σ) (s : VisitState σ) (j : Json) (s' : VisitState σ) : Prop :=
  graph.Denotes j value ∧ j.Fits limits levels s.nodes s.bytes ∧ s' = s.add j.nodes j.estimate

/-- It passes an element of an array. -/
def PassesSlot (levels : ℕ) (slot : Slot σ) (s : VisitState σ) (j : Json)
    (s' : VisitState σ) : Prop :=
  ∃ value, slot = .data value ∧ graph.Denotes j value ∧
    j.Fits limits levels s.nodes s.bytes ∧ s' = s.add j.nodes (j.estimate + 1)

/-- It passes a property of an object. -/
def PassesMember (levels : ℕ) (property : JsString × Slot σ) (s : VisitState σ)
    (member : JsString × Json) (s' : VisitState σ) : Prop :=
  ∃ value, property = (member.1, .data value) ∧ graph.Denotes member.2 value ∧
    utf8Length member.1 ≤ limits.maxStringBytes ∧
    member.2.Fits limits levels s.nodes s.bytes ∧
    s' = s.add member.2.nodes (member.2.estimate + (utf8Length member.1 + 3))

/-- It comes to an accessor at an element of an array, or below the element. -/
def MeetsSlot (meets : σ → VisitState σ → Prop) : Slot σ → VisitState σ → Prop
  | .data item, s => meets item s
  | .accessor _, _ => True
  | .hole, _ => False

/-- It comes to one below a property of an object; a property that is an accessor is not
read, nor is one whose name is too long. -/
def MeetsMember (meets : σ → VisitState σ → Prop) (property : JsString × Slot σ)
    (s : VisitState σ) : Prop :=
  ∃ item, property.2 = .data item ∧ utf8Length property.1 ≤ limits.maxStringBytes ∧ meets item s

/-- **The walk comes to an accessor element of an array.** -/
def Meets : ℕ → σ → VisitState σ → Prop
  | 0, _, _ => False
  | levels + 1, value, s =>
      s.nodes + 1 ≤ limits.maxNodes ∧ value ∉ s.seen ∧
        match graph.view value with
        | .array slots _ =>
            MeetsAny (PassesSlot graph limits levels) (MeetsSlot (Meets levels)) slots
              (s.inside value)
        | .object true [] slots =>
            MeetsAny (PassesMember graph limits levels) (MeetsMember limits (Meets levels)) slots
              (s.inside value)
        | _ => False

/-- Each of the values the walk is inside of is, if plain data at all, more than `value`. -/
def Below (seen : List σ) (value : σ) : Prop :=
  ∀ a ∈ seen, ∀ k, graph.Denotes k a → ∃ j, graph.Denotes j value ∧ j.nodes < k.nodes

variable {graph limits}

/-- Plain data is not inside of itself. -/
theorem Below.not_mem {seen : List σ} {value : σ} {j : Json} (h : graph.Below seen value)
    (hj : graph.Denotes j value) : value ∉ seen := fun hm => by
  obtain ⟨k, hk, hlt⟩ := h value hm j hj
  rw [denotes_unique hk hj] at hlt
  exact lt_irrefl _ hlt

/-- What is directly below a value is below those it is inside of.  It has fewer nodes than the
value, so it is none of those the value is inside of, nor the value itself. -/
theorem Below.child {seen : List σ} {value item : σ} (h : graph.Below seen value)
    (hitem : ∀ k, graph.Denotes k value → ∃ j, graph.Denotes j item ∧ j.nodes < k.nodes) :
    graph.Below (value :: seen) item := by
  intro a ha k hk
  obtain rfl | ha := List.mem_cons.1 ha
  · exact hitem k hk
  · obtain ⟨k', hk', hlt⟩ := h a ha k hk
    obtain ⟨j, hj, hlt'⟩ := hitem k' hk'
    exact ⟨j, hj, hlt'.trans hlt⟩

/-- An element of slots that denote items denotes a tree, with no more values than all of
them. -/
theorem denotesItems_mem : ∀ {items : List Json} {slots : List (Slot σ)},
    graph.DenotesItems items slots → ∀ {item : σ}, Slot.data item ∈ slots →
      ∃ j, graph.Denotes j item ∧ j.nodes ≤ Json.nodesItems items
  | [], _, h, item, hm => by
      rw [h] at hm
      cases hm
  | k :: items, _, ⟨w, rest, hslots, hk, hitems⟩, item, hm => by
      rw [hslots, List.mem_cons] at hm
      obtain hm | hm := hm
      · obtain rfl := Slot.data.inj hm
        exact ⟨k, hk, Nat.le_add_right _ _⟩
      · obtain ⟨j, hj, hle⟩ := denotesItems_mem hitems hm
        exact ⟨j, hj, hle.trans (Nat.le_add_left _ _)⟩

/-- A property of slots that denote properties denotes a tree, with no more values than all of
them. -/
theorem denotesProps_mem : ∀ {props : List (JsString × Json)} {slots : List (JsString × Slot σ)},
    graph.DenotesProps props slots → ∀ {name : JsString} {item : σ},
      (name, Slot.data item) ∈ slots → ∃ j, graph.Denotes j item ∧ j.nodes ≤ Json.nodesProps props
  | [], _, h, name, item, hm => by
      rw [h] at hm
      cases hm
  | (key, k) :: props, _, ⟨w, rest, hslots, hk, hprops⟩, name, item, hm => by
      rw [hslots, List.mem_cons] at hm
      obtain hm | hm := hm
      · obtain rfl := Slot.data.inj (Prod.mk.inj hm).2
        exact ⟨k, hk, Nat.le_add_right _ _⟩
      · obtain ⟨j, hj, hle⟩ := denotesProps_mem hprops hm
        exact ⟨j, hj, hle.trans (Nat.le_add_left _ _)⟩

/-- An array is a tree when its elements are.  What it has beside its elements plays no part in
what it denotes. -/
theorem denotes_array {value : σ} {slots : List (Slot σ)} {extras : ArrayExtras σ}
    (hview : graph.view value = .array slots extras) {j : Json} :
    graph.Denotes j value ↔ ∃ items, j = .arr items ∧ graph.DenotesItems items slots := by
  constructor
  · intro h
    cases j with
    | prim p => rw [Denotes, hview] at h; cases h
    | arr items =>
        obtain ⟨slots', extras', hview', hitems⟩ := h
        obtain ⟨rfl, -⟩ := JsView.array.inj (hview.symm.trans hview')
        exact ⟨items, rfl, hitems⟩
    | obj props =>
        obtain ⟨slots', hview', -⟩ := h
        cases hview.symm.trans hview'
  · rintro ⟨items, rfl, hitems⟩
    exact ⟨slots, extras, hview, hitems⟩

/-- **What an object denotes**: with a plain prototype and without symbols, the tree of its
properties, and otherwise nothing. -/
theorem denotes_object {value : σ} {plain : Bool} {symbols : List (SymbolKey × Slot σ)}
    {slots : List (JsString × Slot σ)} (hview : graph.view value = .object plain symbols slots)
    {j : Json} : graph.Denotes j value ↔
      plain = true ∧ symbols = [] ∧ ∃ props, j = .obj props ∧ graph.DenotesProps props slots := by
  constructor
  · intro h
    cases j with
    | prim p => rw [Denotes, hview] at h; cases h
    | arr items =>
        obtain ⟨slots', extras', hview', -⟩ := h
        cases hview.symm.trans hview'
    | obj props =>
        obtain ⟨slots', hview', hprops⟩ := h
        obtain ⟨rfl, rfl, rfl⟩ := JsView.object.inj (hview.symm.trans hview')
        exact ⟨rfl, rfl, props, rfl, hprops⟩
  · rintro ⟨rfl, rfl, props, rfl, hprops⟩
    exact ⟨slots, hview, hprops⟩

/-- A value that is no object is plain data only as a primitive.  The remaining views are
`undefined` and what is unsupported, and those denote nothing. -/
theorem denotes_scalar {value : σ} (harray : ∀ slots extras, graph.view value ≠ .array slots extras)
    (hobject : ∀ plain symbols slots, graph.view value ≠ .object plain symbols slots) {j : Json} :
    graph.Denotes j value ↔ ∃ p, (graph.view value).prim? = some p ∧ j = .prim p := by
  constructor
  · intro h
    cases j with
    | prim p => exact ⟨p, h, rfl⟩
    | arr items =>
        obtain ⟨slots, extras, hview, -⟩ := h
        exact absurd hview (harray _ _)
    | obj props => exact absurd h.choose_spec.1 (hobject _ _ _)
  · rintro ⟨p, hp, rfl⟩
    exact hp

/-! ### Loops -/

/-- **The items the walk passes.**  By induction on the slots: they denote the items, these fit,
and the state is left with what they count. -/
theorem passesAll_slots {levels : ℕ} : ∀ {slots : List (Slot σ)} {s s' : VisitState σ}
    {items : List Json}, PassesAll (graph.PassesSlot limits levels) slots s items s' ↔
      graph.DenotesItems items slots ∧ Json.FitsItems limits levels s.nodes s.bytes items ∧
        s' = s.add (Json.nodesItems items) (Json.estimateItems items)
  | [], s, s', items => by
      cases items with
      | nil => exact ⟨fun h => ⟨rfl, trivial, h.2⟩, fun h => ⟨rfl, h.2.2⟩⟩
      | cons j items =>
          refine ⟨fun h => (by cases h.1), fun h => ?_⟩
          obtain ⟨w, rest, hslots, -⟩ := h.1
          cases hslots
  | slot :: slots, s, s', items => by
      have hadd : ∀ j rest, (s.add j.nodes (j.estimate + 1)).add (Json.nodesItems rest)
          (Json.estimateItems rest) = s.add (Json.nodesItems (j :: rest))
            (Json.estimateItems (j :: rest)) := fun _ _ => s.add_add ..
      constructor
      · rintro ⟨j, t, rest, ⟨w, rfl, hj, hfits, rfl⟩, hrest, rfl⟩
        obtain ⟨hitems, hfitsItems, rfl⟩ := passesAll_slots.1 hrest
        exact ⟨⟨w, slots, rfl, hj, hitems⟩, ⟨hfits, hfitsItems⟩, hadd j rest⟩
      · rintro ⟨hitems, hfits, rfl⟩
        cases items with
        | nil => cases hitems
        | cons j rest =>
            obtain ⟨w, slots', hslots, hj, hitems⟩ := hitems
            obtain ⟨rfl, rfl⟩ := List.cons.inj hslots
            refine ⟨j, _, rest, ⟨w, rfl, hj, hfits.1, rfl⟩, passesAll_slots.2 ?_, rfl⟩
            exact ⟨hitems, hfits.2, (hadd j rest).symm⟩

/-- **The members the walk passes.**  By induction on the slots: they denote the properties,
these fit, and the state is left with what they count. -/
theorem passesAll_members {levels : ℕ} : ∀ {slots : List (JsString × Slot σ)}
    {s s' : VisitState σ} {props : List (JsString × Json)},
    PassesAll (graph.PassesMember limits levels) slots s props s' ↔
      graph.DenotesProps props slots ∧ Json.FitsProps limits levels s.nodes s.bytes props ∧
        s' = s.add (Json.nodesProps props) (Json.estimateProps props)
  | [], s, s', props => by
      cases props with
      | nil => exact ⟨fun h => ⟨rfl, trivial, h.2⟩, fun h => ⟨rfl, h.2.2⟩⟩
      | cons p props =>
          refine ⟨fun h => (by cases h.1), fun h => ?_⟩
          obtain ⟨w, rest, hslots, -⟩ := h.1
          cases hslots
  | slot :: slots, s, s', props => by
      have hadd : ∀ (p : JsString × Json) rest,
          (s.add p.2.nodes (p.2.estimate + (utf8Length p.1 + 3))).add (Json.nodesProps rest)
            (Json.estimateProps rest) = s.add (Json.nodesProps (p :: rest))
              (Json.estimateProps (p :: rest)) := fun _ _ => s.add_add ..
      constructor
      · rintro ⟨p, t, rest, ⟨w, rfl, hj, hname, hfits, rfl⟩, hrest, rfl⟩
        obtain ⟨hprops, hfitsProps, rfl⟩ := passesAll_members.1 hrest
        exact ⟨⟨w, slots, rfl, hj, hprops⟩, ⟨hname, hfits, hfitsProps⟩, hadd p rest⟩
      · rintro ⟨hprops, hfits, rfl⟩
        cases props with
        | nil => cases hprops
        | cons p rest =>
            obtain ⟨w, slots', hslots, hj, hprops⟩ := hprops
            obtain ⟨rfl, rfl⟩ := List.cons.inj hslots
            refine ⟨p, _, rest, ⟨w, rfl, hj, hfits.1, hfits.2.1, rfl⟩, passesAll_members.2 ?_, rfl⟩
            exact ⟨hprops, hfits.2.2, (hadd p rest).symm⟩

/-- An element is passed in one way. -/
theorem passesSlot_oneWay {levels : ℕ} (slot : Slot σ) (s : VisitState σ) :
    OneWay (graph.PassesSlot limits levels slot s) := by
  rintro j s₁ k s₂ ⟨v, rfl, hj, -, rfl⟩ ⟨w, hw, hk, -, rfl⟩
  obtain rfl := Slot.data.inj hw
  obtain rfl := denotes_unique hj hk
  exact ⟨rfl, rfl⟩

/-- A property is passed in one way. -/
theorem passesMember_oneWay {levels : ℕ} (property : JsString × Slot σ) (s : VisitState σ) :
    OneWay (graph.PassesMember limits levels property s) := by
  rintro ⟨name, j⟩ s₁ ⟨name', k⟩ s₂ ⟨v, rfl, hj, -, -, rfl⟩ ⟨w, hw, hk, -, -, rfl⟩
  obtain ⟨rfl, hdata⟩ := Prod.mk.inj hw
  obtain rfl := Slot.data.inj hdata
  obtain rfl := denotes_unique hj hk
  exact ⟨rfl, rfl⟩

end JsGraph

/-! ### The steps of the walk -/

section Steps

variable {σ α : Type} {limits : JsonLimits} {path : PropertyPath} {depth : ℕ} {s : VisitState σ}

/-- A failure, with what came before it left as it is. -/
theorem failJson_outcome {code : JsonIssueCode} {message : JsString} {P : α → VisitState σ → Prop}
    {Q : Prop} (hP : ∀ a s', ¬P a s') (hQ : ¬Q) :
    Outcome VisitState.getters (failJson code path message : VisitM σ α) s P Q :=
  .refuses _ s rfl rfl hP hQ

/-- Coming to a value: there must be room for one more, at this depth.  It runs no getter, so it
never meets one. -/
theorem enterValue_outcome : Outcome VisitState.getters (enterValue limits path depth) s
    (fun _ s' => s.nodes + 1 ≤ limits.maxNodes ∧ depth ≤ limits.maxDepth ∧ s' = s.add 1 0)
    False := by
  unfold enterValue
  refine .after rfl rfl (.after rfl rfl (.check rfl (fun hn => ?_) fun hn => ?_))
  · exact ⟨fun _ _ hpass => not_le.2 hn hpass.1, id⟩
  · by_cases hd : limits.maxDepth < depth
    · rw [if_pos hd]
      exact failJson_outcome (fun _ _ hpass => not_le.2 hd hpass.2.1) id
    · rw [if_neg hd]
      exact .returns () _ rfl rfl ⟨not_lt.1 hn, not_lt.1 hd, rfl⟩ id

variable [DecidableEq σ] {value : σ}

/-- Entering an array or an object the walk is not inside of. -/
theorem enterObject_outcome : Outcome VisitState.getters (enterObject value path) s
    (fun _ s' => value ∉ s.seen ∧ s' = { s with seen := value :: s.seen }) False := by
  unfold enterObject
  refine .after rfl rfl (.check rfl (fun hm => ?_) fun hm => ?_)
  · exact ⟨fun _ _ hpass => hpass.1 hm, id⟩
  · exact .returns () _ rfl rfl ⟨hm, rfl⟩ id

/-- Leaving an array or an object: the bytes are compared.  They are those counted so far for
the whole document, not for this value. -/
theorem leaveObject_outcome : Outcome VisitState.getters (leaveObject limits value path) s
    (fun _ s' => s.bytes ≤ limits.maxDocumentBytes ∧
      s' = { s with seen := s.seen.erase value }) False := by
  unfold leaveObject
  refine .after rfl rfl (.after rfl rfl ?_)
  by_cases hb : limits.maxDocumentBytes < s.bytes
  · rw [if_pos hb]
    exact failJson_outcome (fun _ _ hpass => not_le.2 hb hpass.1) id
  · rw [if_neg hb]
    exact .returns () _ rfl rfl ⟨not_lt.1 hb, rfl⟩ id

end Steps

/-! ### The walk -/

namespace JsGraph

variable {σ : Type} {graph : JsGraph σ} {limits : JsonLimits} {levels : ℕ} {value : σ}
  {s : VisitState σ}

/-- The walk comes to an accessor in an array. -/
theorem meets_array {slots : List (Slot σ)} {extras : ArrayExtras σ}
    (hview : graph.view value = .array slots extras) :
    graph.Meets limits (levels + 1) value s ↔ s.nodes + 1 ≤ limits.maxNodes ∧ value ∉ s.seen ∧
      MeetsAny (graph.PassesSlot limits levels) (MeetsSlot (graph.Meets limits levels)) slots
        (s.inside value) := by
  rw [Meets, hview]

/-- It comes to one in an object.  A foreign prototype and a symbol key are refused before the
loop over the properties. -/
theorem meets_object {plain : Bool} {symbols : List (SymbolKey × Slot σ)}
    {slots : List (JsString × Slot σ)} (hview : graph.view value = .object plain symbols slots) :
    graph.Meets limits (levels + 1) value s ↔ s.nodes + 1 ≤ limits.maxNodes ∧ value ∉ s.seen ∧
      (plain = true ∧ symbols = [] ∧ MeetsAny (graph.PassesMember limits levels)
        (MeetsMember limits (graph.Meets limits levels)) slots (s.inside value)) := by
  rw [Meets, hview]
  refine and_congr_right fun _ => and_congr_right fun _ => ?_
  cases plain with
  | false => simp
  | true => cases symbols <;> simp

/-- There is no accessor in a value that is no object.  The walk ends at it, whatever it is. -/
theorem not_meets_scalar (harray : ∀ slots extras, graph.view value ≠ .array slots extras)
    (hobject : ∀ plain symbols slots, graph.view value ≠ .object plain symbols slots) :
    ¬graph.Meets limits levels value s := by
  cases levels with
  | zero => exact id
  | succ levels =>
      rintro ⟨-, -, h⟩
      split at h
      · exact harray _ _ ‹_›
      · exact hobject _ _ _ ‹_›
      · exact h

/-- **A value is passed in one way**: as one tree, and with one count. -/
theorem passes_oneWay : OneWay (graph.Passes limits levels value s) := by
  rintro j s₁ k s₂ ⟨hj, -, rfl⟩ ⟨hk, -, rfl⟩
  obtain rfl := denotes_unique hj hk
  exact ⟨rfl, rfl⟩

/-- There is no room for one more value.  The count is compared before the value is looked
at. -/
theorem stops_of_nodes (h : ¬s.nodes + 1 ≤ limits.maxNodes) :
    (∀ j s', ¬graph.Passes limits levels value s j s') ∧ ¬graph.Meets limits levels value s := by
  constructor
  · rintro j s' ⟨-, hfits, -⟩
    have hle := hfits.nodes_le
    have hpos := j.nodes_pos
    omega
  · cases levels with
    | zero => exact id
    | succ levels => exact fun hm => h hm.1

/-- A value that is not plain data, and no object either. -/
theorem stops_of_scalar (harray : ∀ slots extras, graph.view value ≠ .array slots extras)
    (hobject : ∀ plain symbols slots, graph.view value ≠ .object plain symbols slots)
    (hprim : (graph.view value).prim? = none) :
    (∀ j s', ¬graph.Passes limits levels value s j s') ∧ ¬graph.Meets limits levels value s := by
  refine ⟨fun j s' h => ?_, not_meets_scalar harray hobject⟩
  obtain ⟨p, hp, -⟩ := (denotes_scalar harray hobject).1 h.1
  cases hprim.symm.trans hp

/-- The walk runs no getter back. -/
theorem visit_grows [DecidableEq σ] (fuel : ℕ) (value : σ) (path : PropertyPath) (depth : ℕ) :
    Grows VisitState.getters (visit graph limits fuel value path depth) := fun _ =>
  .anyFailure (visit_keeps (fun _ _ hle h => h.trans hle) fuel value path depth)

/-- A primitive is passed.  Its bytes are counted, and the document's are compared when its
container is left. -/
theorem prim_outcome {p : JsonPrimitive} (hp : (graph.view value).prim? = some p)
    (hn : s.nodes + 1 ≤ limits.maxNodes)
    (hstrings : (Json.prim p).StringsWithin limits.maxStringBytes)
    (hmeets : ¬graph.Meets limits (levels + 1) value s) :
    Outcome VisitState.getters
      (addBytes (Json.prim p).estimate >>= fun _ => pure (Json.prim p)) (s.add 1 0)
      (graph.Passes limits (levels + 1) value s) (graph.Meets limits (levels + 1) value s) := by
  refine .after rfl rfl (.returns _ _ rfl rfl ⟨hp, Json.fits_prim_iff.2 ⟨hn, hstrings⟩, ?_⟩ hmeets)
  exact (s.add_add 1 0 0 _).trans (by rw [Nat.zero_add]; rfl)

end JsGraph

end NewtonDB
