/-
# What a document is admitted as

`cloneAndFreezeJsonObject` on any value.  It admits what is plain data within the limits,
and nothing else (`cloneAndFreeze_outcome`): the estimate of the walk refuses no document
whose text fits.  What it admits it admits again, also after its text has been read back
(`document_limits`).

It is not only plain data it admits: the elements of an array are read by index, so an
accessor among them runs its getter (`getter_runs_iff`).
-/

import NewtonDB.DocumentOutcome
import NewtonDB.Js.JsonText

namespace NewtonDB

/-! ### The sign of zero -/

namespace Json

mutual

/-- A value has as many values in it without the signs of zeros. -/
theorem nodes_unsigned : ∀ j : Json, j.unsigned.nodes = j.nodes
  | .prim _ => rfl
  | .arr items => congrArg (· + 1) (nodesItems_unsigned items)
  | .obj props => congrArg (· + 1) (nodesProps_unsigned props)

/-- The same for a list of items. -/
theorem nodesItems_unsigned : ∀ items : List Json,
    nodesItems (unsignedItems items) = nodesItems items
  | [] => rfl
  | j :: rest => congrArg₂ (· + ·) (nodes_unsigned j) (nodesItems_unsigned rest)

/-- The same for a list of properties. -/
theorem nodesProps_unsigned : ∀ props : List (JsString × Json),
    nodesProps (unsignedProps props) = nodesProps props
  | [] => rfl
  | (_, j) :: rest => congrArg₂ (· + ·) (nodes_unsigned j) (nodesProps_unsigned rest)

end

mutual

/-- A value is nested as deep without the signs of zeros. -/
theorem height_unsigned : ∀ j : Json, j.unsigned.height = j.height
  | .prim _ => rfl
  | .arr items => heightItems_unsigned items
  | .obj props => heightProps_unsigned props

/-- The same for a list of items. -/
theorem heightItems_unsigned : ∀ items : List Json,
    heightItems (unsignedItems items) = heightItems items
  | [] => rfl
  | j :: rest => by
      rw [unsignedItems, heightItems, heightItems, height_unsigned j, heightItems_unsigned rest]

/-- The same for a list of properties. -/
theorem heightProps_unsigned : ∀ props : List (JsString × Json),
    heightProps (unsignedProps props) = heightProps props
  | [] => rfl
  | (_, j) :: rest => by
      rw [unsignedProps, heightProps, heightProps, height_unsigned j, heightProps_unsigned rest]

end

mutual

/-- The strings and names of a value are as long without the signs of zeros.  Numbers have no
part in this bound; by recursion on the value. -/
theorem stringsWithin_unsigned {limit : ℕ} : ∀ j : Json,
    j.unsigned.StringsWithin limit ↔ j.StringsWithin limit
  | .prim .null => Iff.rfl
  | .prim (.bool _) => Iff.rfl
  | .prim (.number _) => Iff.rfl
  | .prim (.string _) => Iff.rfl
  | .arr items => stringsWithinItems_unsigned items
  | .obj props => stringsWithinProps_unsigned props

/-- The same for a list of items. -/
theorem stringsWithinItems_unsigned {limit : ℕ} : ∀ items : List Json,
    StringsWithinItems limit (unsignedItems items) ↔ StringsWithinItems limit items
  | [] => Iff.rfl
  | j :: rest => and_congr (stringsWithin_unsigned j) (stringsWithinItems_unsigned rest)

/-- The same for a list of properties. -/
theorem stringsWithinProps_unsigned {limit : ℕ} : ∀ props : List (JsString × Json),
    StringsWithinProps limit (unsignedProps props) ↔ StringsWithinProps limit props
  | [] => Iff.rfl
  | (_, j) :: rest => and_congr Iff.rfl
      (and_congr (stringsWithin_unsigned j) (stringsWithinProps_unsigned rest))

end

end Json

/-! ### Limits -/

/-- Limits a caller may give: positive, and no larger than the defaults. -/
structure JsonLimits.Allowed (limits : JsonLimits) : Prop where
  maxDepth : 0 < limits.maxDepth ∧ limits.maxDepth ≤ defaultJsonLimits.maxDepth
  maxDocumentBytes : 0 < limits.maxDocumentBytes ∧
    limits.maxDocumentBytes ≤ defaultJsonLimits.maxDocumentBytes
  maxNodes : 0 < limits.maxNodes ∧ limits.maxNodes ≤ defaultJsonLimits.maxNodes
  maxStringBytes : 0 < limits.maxStringBytes ∧
    limits.maxStringBytes ≤ defaultJsonLimits.maxStringBytes

/-- **A document within the limits**: the number of its values, how deep they are nested, the
bytes of its strings and names, and the bytes of its text. -/
structure Json.Within (limits : JsonLimits) (j : Json) : Prop where
  nodes_le : j.nodes ≤ limits.maxNodes
  height_le : j.height ≤ limits.maxDepth
  strings : j.StringsWithin limits.maxStringBytes
  bytes_le : utf8Length j.stringify ≤ limits.maxDocumentBytes

/-- The sign of zero counts for nothing.  The nodes, the height, the strings and the estimate of
the bytes are the same. -/
theorem Json.within_unsigned {limits : JsonLimits} {j : Json} :
    j.unsigned.Within limits ↔ j.Within limits := by
  constructor
  · rintro ⟨hnodes, hheight, hstrings, hbytes⟩
    exact ⟨j.nodes_unsigned ▸ hnodes, j.height_unsigned ▸ hheight,
      j.stringsWithin_unsigned.1 hstrings, j.stringify_unsigned ▸ hbytes⟩
  · rintro ⟨hnodes, hheight, hstrings, hbytes⟩
    exact ⟨j.nodes_unsigned.symm ▸ hnodes, j.height_unsigned.symm ▸ hheight,
      j.stringsWithin_unsigned.2 hstrings, j.stringify_unsigned.symm ▸ hbytes⟩

/-- **The walk has room for what is within the limits**, and compares the text at the end.  The
estimate, which the walk counts, is never more than the bytes of the text, so that it refuses
nothing the text would not. -/
theorem Json.within_obj_iff {limits : JsonLimits} {props : List (JsString × Json)} :
    (obj props).Within limits ↔ (obj props).Fits limits (limits.maxDepth + 1) 0 2 ∧
      utf8Length (obj props).stringify ≤ limits.maxDocumentBytes := by
  constructor
  · intro h
    have hbytes := h.bytes_le
    have hestimate : (obj props).estimate + 2 ≤ utf8Length (obj props).stringify := by
      rw [utf8Length_obj]
      exact Nat.add_le_add_right (estimateProps_le props) 2
    exact ⟨⟨(Nat.zero_add _).trans_le h.nodes_le, Nat.lt_succ_of_le h.height_le, h.strings,
      fun _ => by omega⟩, hbytes⟩
  · rintro ⟨hfits, hbytes⟩
    exact ⟨(Nat.zero_add _).symm.trans_le hfits.nodes_le, Nat.le_of_lt_succ hfits.height_lt,
      hfits.strings, hbytes⟩

/-! ### Plain data runs no getter -/

namespace JsGraph

variable {σ : Type} {graph : JsGraph σ} {limits : JsonLimits}

/-- Every slot of plain data is a data property.  What `Denotes` says of an array it says of
each element in turn. -/
theorem denotesItems_slot : ∀ {items : List Json} {slots : List (Slot σ)},
    graph.DenotesItems items slots → ∀ slot ∈ slots, ∃ w j, slot = .data w ∧ graph.Denotes j w
  | [], _, h, slot, hm => by
      rw [h] at hm
      cases hm
  | k :: items, _, ⟨w, rest, hslots, hk, hitems⟩, slot, hm => by
      rw [hslots, List.mem_cons] at hm
      obtain rfl | hm := hm
      · exact ⟨w, k, rfl, hk⟩
      · exact denotesItems_slot hitems slot hm

/-- **The walk over plain data comes to no accessor.**  By induction on the levels: what it
passes before an accessor is plain, and so is what it comes to. -/
theorem Denotes.not_meets {levels : ℕ} {j : Json} {value : σ} {s : VisitState σ}
    (h : graph.Denotes j value) : ¬graph.Meets limits levels value s := by
  induction levels generalizing j value s with
  | zero => exact id
  | succ levels ih =>
      cases j with
      | prim p =>
          refine not_meets_scalar (fun slots extras hview => ?_) fun plain symbols slots hview => ?_
          · rw [Denotes, hview] at h
            cases h
          · rw [Denotes, hview] at h
            cases h
      | arr items =>
          obtain ⟨slots, extras, hview, hitems⟩ := h
          rw [meets_array hview]
          rintro ⟨-, -, hany⟩
          obtain ⟨slot, hslot, s', hmeets⟩ := hany.exists_mem
          obtain ⟨w, k, rfl, hk⟩ := denotesItems_slot hitems slot hslot
          exact ih hk hmeets
      | obj props =>
          obtain ⟨slots, hview, hprops⟩ := h
          rw [meets_object hview]
          rintro ⟨-, -, -, -, hany⟩
          obtain ⟨⟨name, slot⟩, hslot, s', item, rfl, -, hmeets⟩ := hany.exists_mem
          obtain ⟨k, hk, -⟩ := denotesProps_mem hprops hslot
          exact ih hk hmeets

end JsGraph

/-! ### The whole call -/

/-- The walk before it begins. -/
def VisitState.start (σ : Type) : VisitState σ where
  nodes := 0
  bytes := 2
  seen := []
  getters := 0

/-- A limit is checked before the rest goes on.  A limit outside its range is refused, and then
nothing may be promised of what follows. -/
theorem checkLimit_outcome {σ α : Type} {name : JsString} {value ceiling : ℕ} {s : VisitState σ}
    {k : Unit → VisitM σ α} {P : α → VisitState σ → Prop} {Q : Prop}
    (hstop : ¬(0 < value ∧ value ≤ ceiling) → (∀ a s', ¬P a s') ∧ ¬Q)
    (hk : 0 < value ∧ value ≤ ceiling → Outcome VisitState.getters (k ()) s P Q) :
    Outcome VisitState.getters (checkLimit name value ceiling >>= k) s P Q := by
  unfold checkLimit
  by_cases h : (value = 0 || ceiling < value) = true
  · rw [if_pos h]
    simp only [Bool.or_eq_true, decide_eq_true_eq] at h
    obtain ⟨hP, hQ⟩ := hstop (by omega)
    exact .halt rfl rfl hP hQ
  · rw [if_neg h]
    simp only [Bool.or_eq_true, decide_eq_true_eq] at h
    exact .after rfl rfl (hk (by omega))

namespace JsGraph

variable {σ : Type} (graph : JsGraph σ) (limits : JsonLimits)

/-- **The walk over a document comes to an accessor element of an array.**  The limits are
allowed and the document is an object, so that there is a walk. -/
def ComesToGetter (input : σ) : Prop :=
  limits.Allowed ∧ (∃ plain symbols slots, graph.view input = .object plain symbols slots) ∧
    graph.Meets limits (limits.maxDepth + 1) input (VisitState.start σ)

variable {graph limits} [DecidableEq σ] {input : σ}

/-- What the call does with the copy: its text is compared with the limit. -/
def checkText {σ : Type} (limits : JsonLimits) : Json → VisitM σ JsonObject
  | .obj props => do
      if limits.maxDocumentBytes < utf8Length (Json.obj props).stringify then
        failJson .documentSizeLimit []
          (js "Document exceeds " ++ natText limits.maxDocumentBytes ++ js " serialized bytes")
      return props
  | _ => failJson .notObject [] (js "A document must be a plain JSON object")

/-- The walk over an object and what comes after it.  The walk passes a document that is within
the limits; the text is measured at the end, on the tree that was copied. -/
theorem walk_outcome {plain : Bool} {symbols : List (SymbolKey × Slot σ)}
    {slots : List (JsString × Slot σ)} (hview : graph.view input = .object plain symbols slots) :
    Outcome VisitState.getters
      (visit graph limits (limits.maxDepth + 1) input [] 0 >>= checkText limits)
      (VisitState.start σ)
      (fun props _ => graph.Denotes (.obj props) input ∧ (Json.obj props).Within limits)
      (graph.Meets limits (limits.maxDepth + 1) input (VisitState.start σ)) := by
  have hbelow : graph.Below (VisitState.start σ).seen input := fun a ha => by cases ha
  have hwalk : Outcome VisitState.getters (visit graph limits (limits.maxDepth + 1) input [] 0)
      (VisitState.start σ) _ _ := visit_outcome (Nat.add_zero _) hbelow
  have hrest : ∀ value s₁, graph.Passes limits (limits.maxDepth + 1) input (VisitState.start σ)
      value s₁ → Outcome VisitState.getters (checkText limits value) s₁
        (fun props _ => value = .obj props ∧
          utf8Length value.stringify ≤ limits.maxDocumentBytes) False := by
    rintro value s₁ ⟨hvalue, -⟩
    obtain ⟨-, -, props, rfl, -⟩ := (denotes_object hview).1 hvalue
    unfold checkText
    refine .check rfl (fun hlong => ⟨?_, id⟩) fun hshort => ?_
    · exact fun _ _ hpass => not_lt.2 hpass.2 hlong
    · exact .returns props s₁ rfl rfl ⟨rfl, not_lt.1 hshort⟩ id
  have hgrow : ∀ value,
      Grows VisitState.getters (checkText limits value : VisitM σ JsonObject) := by
    intro value c
    cases value with
    | prim p => exact .anyFailure failJson_keeps
    | arr items => exact .anyFailure failJson_keeps
    | obj props => exact .check (.anyFailure failJson_keeps) fun _ => .pure _
  refine (hwalk.bind hgrow passes_oneWay hrest).congr (fun props s' => ?_) (by simp)
  constructor
  · rintro ⟨_, s₁, ⟨hvalue, hfits, -⟩, rfl, hbytes⟩
    exact ⟨hvalue, Json.within_obj_iff.2 ⟨hfits, hbytes⟩⟩
  · rintro ⟨hvalue, hwithin⟩
    obtain ⟨hfits, hbytes⟩ := Json.within_obj_iff.1 hwithin
    exact ⟨_, _, ⟨hvalue, hfits, rfl⟩, rfl, hbytes⟩

/-- **The call on any value.**  It passes what is plain data within allowed limits, or has come
to an accessor of an array, or refuses without having run one. -/
theorem cloneAndFreeze_outcome : Outcome VisitState.getters (cloneAndFreeze graph limits input)
    (VisitState.start σ)
    (fun props _ => limits.Allowed ∧ graph.Denotes (.obj props) input ∧
      (Json.obj props).Within limits) (graph.ComesToGetter limits input) := by
  unfold cloneAndFreeze
  refine checkLimit_outcome (fun hlimit => ⟨?_, ?_⟩) fun hdepth => ?_
  · exact fun _ _ h => hlimit h.1.maxDepth
  · exact fun h => hlimit h.1.maxDepth
  refine checkLimit_outcome (fun hlimit => ⟨?_, ?_⟩) fun hbytes => ?_
  · exact fun _ _ h => hlimit h.1.maxDocumentBytes
  · exact fun h => hlimit h.1.maxDocumentBytes
  refine checkLimit_outcome (fun hlimit => ⟨?_, ?_⟩) fun hnodes => ?_
  · exact fun _ _ h => hlimit h.1.maxNodes
  · exact fun h => hlimit h.1.maxNodes
  refine checkLimit_outcome (fun hlimit => ⟨?_, ?_⟩) fun hstrings => ?_
  · exact fun _ _ h => hlimit h.1.maxStringBytes
  · exact fun h => hlimit h.1.maxStringBytes
  have hallowed : limits.Allowed := ⟨hdepth, hbytes, hnodes, hstrings⟩
  split
  · next plain symbols slots hview =>
      refine (walk_outcome hview).congr (fun props s' => (and_iff_right hallowed).symm) ?_
      exact ⟨fun h => ⟨hallowed, ⟨_, _, _, hview⟩, h⟩, fun h => h.2.2⟩
  · next hview =>
      refine failJson_outcome ?_ ?_
      · rintro props s' ⟨-, ⟨slots, hobject, -⟩, -⟩
        exact hview _ _ _ hobject
      · rintro ⟨-, ⟨plain, symbols, slots, hobject⟩, -⟩
        exact hview _ _ _ hobject

end JsGraph

/-! ### Documents -/

section

variable {σ : Type} [DecidableEq σ]

/-- The getters that the call runs. -/
def gettersRun (graph : JsGraph σ) (limits : JsonLimits) (input : σ) : ℕ :=
  ((cloneAndFreeze graph limits input).run.run (VisitState.start σ)).2.getters

variable {graph : JsGraph σ} {limits : JsonLimits} {input : σ}

/-- **What is plain data is admitted when it is within the limits.**  The document is the tree
it is, name for name and in order. -/
theorem cloneAndFreezeJsonObject_eq_ok {props : JsonObject} (hlimits : limits.Allowed)
    (hplain : graph.Denotes (.obj props) input) {d : JsonObject} :
    cloneAndFreezeJsonObject graph limits input = .ok d ↔
      d = props ∧ (Json.obj props).Within limits := by
  have hclear : ¬graph.ComesToGetter limits input := fun h => hplain.not_meets h.2.2
  show ((cloneAndFreeze graph limits input).run.run (VisitState.start σ)).1 = .ok d ↔ _
  cases (JsGraph.cloneAndFreeze_outcome : Outcome _ (cloneAndFreeze graph limits input) _ _ _) with
  | returns d' s' hrun hsame hpass =>
      obtain ⟨-, hdenotes, hwithin⟩ := hpass
      obtain rfl := Json.obj.inj (JsGraph.denotes_unique hdenotes hplain)
      rw [hrun]
      constructor
      · exact fun h => ⟨(Except.ok.inj h).symm, hwithin⟩
      · exact fun h => congrArg Except.ok h.1.symm
  | counts hcounted hmeet => exact absurd hmeet hclear
  | refuses e s' hrun hsame hstop =>
      rw [hrun]
      constructor
      · exact fun h => by cases h
      · exact fun h => absurd ⟨hlimits, hplain, h.2⟩ (hstop props s')

/-- **Limits are exact, and a document stays a document.**  Plain data is admitted under
allowed limits exactly when it has no more values, nesting, bytes in a string or name, and
bytes of text than they say.  What is admitted is admitted again as it is, and so is what
its text is read back as, which differs in the signs of zeros only. -/
theorem document_limits (limits : JsonLimits) (hlimits : limits.Allowed) (graph : JsGraph σ)
    (input : σ) (props : JsonObject) (hdata : (Json.obj props).isData)
    (hplain : graph.Denotes (.obj props) input) :
    ((∃ d, cloneAndFreezeJsonObject graph limits input = .ok d) ↔
      (Json.obj props).Within limits) ∧
    ∀ d, cloneAndFreezeJsonObject graph limits input = .ok d →
      cloneAndFreezeJsonObject Json.graph limits (.obj d) = .ok d ∧
      ∀ parse, ReadsJson parse → ∃ d', parse (Json.obj d).stringify = some (.obj d') ∧
        cloneAndFreezeJsonObject Json.graph limits (.obj d') = .ok d' ∧
        (Json.obj d').unsigned = (Json.obj d).unsigned := by
  have hadmitted := @cloneAndFreezeJsonObject_eq_ok σ _ graph limits input props hlimits hplain
  refine ⟨⟨?_, fun hwithin => ⟨props, hadmitted.2 ⟨rfl, hwithin⟩⟩⟩, fun d hd => ?_⟩
  · rintro ⟨d, hd⟩
    exact (hadmitted.1 hd).2
  · obtain ⟨rfl, hwithin⟩ := hadmitted.1 hd
    have hagain : ∀ k : JsonObject, (Json.obj k).Within limits →
        cloneAndFreezeJsonObject Json.graph limits (.obj k) = .ok k := fun k hk =>
      (cloneAndFreezeJsonObject_eq_ok hlimits (Json.denotes_graph (.obj k))).2 ⟨rfl, hk⟩
    refine ⟨hagain d hwithin, fun parse hparse => ⟨_, hparse _ hdata, ?_, ?_⟩⟩
    · exact hagain _ (Json.within_unsigned.2 hwithin)
    · exact stringify_eq_iff.1 (Json.stringify_unsigned (.obj d))

end

/-- A document with a negative zero. -/
def signedDocument : JsonObject := [(js "a", .arr [.prim (.number (.zero true)), .prim .null])]

/-- A document with a negative zero is admitted again, and so is what its text is read back as,
without the sign.  The theorem applies to it under the default limits. -/
theorem signedDocument_limits :
    cloneAndFreezeJsonObject Json.graph defaultJsonLimits (.obj signedDocument) =
      .ok signedDocument ∧
    ∃ d', readWritten (Json.obj signedDocument).stringify = some (.obj d') ∧
      cloneAndFreezeJsonObject Json.graph defaultJsonLimits (.obj d') = .ok d' ∧
      (Json.obj d').unsigned = (Json.obj signedDocument).unsigned := by
  have hallowed : defaultJsonLimits.Allowed :=
    ⟨by decide, by decide, by decide, by decide⟩
  have hlimits := document_limits defaultJsonLimits hallowed Json.graph (.obj signedDocument)
    signedDocument (by decide) (Json.denotes_graph _)
  have hok : cloneAndFreezeJsonObject Json.graph defaultJsonLimits (.obj signedDocument) =
      .ok signedDocument := by decide +kernel
  exact ⟨hok, (hlimits.2 _ hok).2 _ readsJson_readWritten⟩

/-! ### Hostile values -/

/-- **The walk drops something that an array has beside its elements.**  The limits are
allowed, the value is a document within them when its arrays are taken as their elements,
and it leads to an array that has more than is admitted. -/
def JsGraph.DropsExtras {σ : Type} (graph : JsGraph σ) (limits : JsonLimits)
    (admitted : ArrayExtras σ → Prop) (input : σ) : Prop :=
  limits.Allowed ∧ (∃ d, graph.Denotes (.obj d) input ∧ (Json.obj d).Within limits) ∧
    ¬graph.ArraysHave admitted input

/-- **Only plain data is admitted, and no getter is run, exactly when** the walk comes to no
accessor element of an array and drops nothing that an array has beside its elements.  What
is admitted is the tree the value denotes: every slot below it is a data property, no array
has a hole, no object a foreign prototype or a symbol, and there is no cycle.

What an array may have beside its elements is left open.  When the tree is to be exactly what
the value holds, it is nothing, neither a name nor a symbol (`ArrayExtras.Bare`); when arrays
are to be plain as objects are, it is also asked that their prototype is. -/
theorem getter_runs_iff {σ : Type} [DecidableEq σ] (graph : JsGraph σ) (limits : JsonLimits)
    (input : σ) (admitted : ArrayExtras σ → Prop) :
    (gettersRun graph limits input = 0 ∧
      ∀ d, cloneAndFreezeJsonObject graph limits input = .ok d →
        graph.Denotes (.obj d) input ∧ graph.ArraysHave admitted input) ↔
    ¬graph.ComesToGetter limits input ∧ ¬graph.DropsExtras limits admitted input := by
  show (((cloneAndFreeze graph limits input).run.run (VisitState.start σ)).2.getters = 0 ∧
    ∀ d, ((cloneAndFreeze graph limits input).run.run (VisitState.start σ)).1 = .ok d → _) ↔ _
  cases (JsGraph.cloneAndFreeze_outcome : Outcome _ (cloneAndFreeze graph limits input) _ _ _) with
  | returns d s' hrun hsame hpass hclear =>
      obtain ⟨hallowed, hdenotes, hwithin⟩ := hpass
      rw [hrun]
      constructor
      · rintro ⟨-, hok⟩
        exact ⟨hclear, fun hdrops => hdrops.2.2 (hok d rfl).2⟩
      · rintro ⟨-, hdrops⟩
        refine ⟨hsame, fun d' hd => ?_⟩
        obtain rfl := Except.ok.inj hd
        exact ⟨hdenotes, not_not.1 fun hextras =>
          hdrops ⟨hallowed, ⟨d, hdenotes, hwithin⟩, hextras⟩⟩
  | counts hcounted hmeet =>
      refine ⟨fun h => ?_, fun h => absurd hmeet h.1⟩
      exact absurd h.1 (Nat.ne_of_gt ((Nat.zero_le _).trans_lt hcounted))
  | refuses e s' hrun hsame hstop hclear =>
      rw [hrun]
      refine ⟨fun _ => ⟨hclear, fun hdrops => ?_⟩, fun _ => ⟨hsame, fun d' hd => by cases hd⟩⟩
      obtain ⟨hallowed, ⟨d, hdenotes, hwithin⟩, -⟩ := hdrops
      exact hstop d s' ⟨hallowed, hdenotes, hwithin⟩

/-- Two documents with an array: its one element is an accessor, and it has no element but an
accessor under another name. -/
def accessorHeap : Heap where
  object
    | 0 => .object true [] [(js "a", .data (.ref 1))]
    | 1 => .array [.accessor (some .null)]
    | 2 => .object true [] [(js "a", .data (.ref 3))]
    | _ => .array [] { named := [(js "b", .accessor (some .null))] }

/-- The getter of the first is run, and what it returns is in the document.  The accessor of the
second is dropped.  So a getter is run, and more than plain data is admitted. -/
theorem accessorHeap_runs :
    (gettersRun accessorHeap.graph defaultJsonLimits (.ref 0) = 1 ∧
      cloneAndFreezeJsonObject accessorHeap.graph defaultJsonLimits (.ref 0) =
        .ok [(js "a", .arr [.prim .null])] ∧
      ¬accessorHeap.graph.Denotes (.obj [(js "a", .arr [.prim .null])]) (.ref 0)) ∧
    cloneAndFreezeJsonObject accessorHeap.graph defaultJsonLimits (.ref 2) =
      .ok [(js "a", .arr [])] ∧
    ¬accessorHeap.graph.ArraysHave ArrayExtras.Bare (.ref 2) := by
  refine ⟨⟨by decide +kernel, by decide +kernel, ?_⟩, by decide +kernel, fun hbare => ?_⟩
  · rintro ⟨slots, hview, w, rest, rfl, ⟨items, extras, hitems, x, tail, hx, -⟩, -⟩
    obtain ⟨-, -, hslots⟩ := JsView.object.inj hview
    obtain rfl := Slot.data.inj (Prod.mk.inj (List.cons.inj hslots).1).2
    obtain ⟨rfl, -⟩ := JsView.array.inj hitems
    cases hx
  · have hholds : accessorHeap.graph.Holds (.ref 2) (.ref 3) :=
      .property rfl (List.mem_singleton_self (js "a", _))
    cases (hbare (.ref 3) _ _ (.single hholds) rfl).named

end NewtonDB
