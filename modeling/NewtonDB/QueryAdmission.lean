/-
# What the parser of queries admits

`parseWhere` on any value.  It reads arrays by methods that are looked up in them, so it
admits more than finite trees of data properties: an accessor element of an array runs its
getter, and so does one that hides a method; a hole in a list of conditions or of members
becomes nothing; and what a list has beside its elements is dropped (`admits_published_iff`).
-/

import NewtonDB.QueryOutcome
import NewtonDB.QuerySchema

namespace NewtonDB

/-! ### Queries without empty slots -/

/-- An operand without `undefined` in it. -/
def QueryValue.Dense : QueryValue → Prop
  | .scalar _ => True
  | .set values => none ∉ values

namespace Where

mutual

/-- **A query without `undefined` and without empty slots.** -/
def Dense : Where → Prop
  | .and conditions => DenseAll conditions
  | .or conditions => DenseAll conditions
  | .not condition => Dense condition
  | .comparison _ _ value => value.Dense

/-- Conditions without an empty slot. -/
def DenseAll : List (Option Where) → Prop
  | [] => True
  | none :: _ => False
  | some condition :: conditions => Dense condition ∧ DenseAll conditions

end

/-- An operand that is read from JSON has no `undefined` in it.  What is collected from a list
are its primitives, and JSON has a value at every place. -/
theorem dense_of_readOperand {op : ComparisonOperator} {k : Json} {value : QueryValue}
    (h : readOperand op k = some value) : value.Dense := by
  by_cases hin : op = .in
  · subst hin
    cases k with
    | arr items =>
        obtain ⟨-, ps, -, rfl⟩ := readOperand_in.1 h
        simp [QueryValue.Dense]
    | prim p => cases h
    | obj props => cases h
  · obtain ⟨p, -, hread⟩ := (readOperand_scalar hin).1 h
    rw [eq_scalar_of_readOperand hin hread]
    trivial

mutual

/-- JSON is read as a query without them. -/
theorem Reads.dense : ∀ {w : Where} {j : Json}, w.Reads j → w.Dense
  | .and _, _, ⟨_, _, _, _, _, _, hall⟩ => ReadsAll.dense hall
  | .or _, _, ⟨_, _, _, _, _, _, hall⟩ => ReadsAll.dense hall
  | .not condition, _, ⟨_, _, _, _, _, hread⟩ => Reads.dense (w := condition) hread
  | .comparison _ _ _, _, ⟨_, _, _, _, _, _, _, _, _, hread⟩ => dense_of_readOperand hread

/-- Conditions that are read from JSON are all there. -/
theorem ReadsAll.dense : ∀ {conditions : List (Option Where)} {items : List Json},
    ReadsAll conditions items → DenseAll conditions
  | [], _, _ => trivial
  | none :: _, _, h => h.elim
  | some _ :: _, _, ⟨_, _, _, hread, hall⟩ => ⟨Reads.dense hread, ReadsAll.dense hall⟩

end

end Where

/-! ### Trees -/

namespace JsGraph

variable {σ : Type}

/-- The population without what the parser does not look at in the objects of a query:
prototypes and symbols. -/
def plainly (graph : JsGraph σ) : JsGraph σ where
  view v :=
    match graph.view v with
    | .object _ _ slots => .object true [] slots
    | view => view

/-- The own properties of an object have different names. -/
def NamesOnce (graph : JsGraph σ) : Prop :=
  ∀ v plain symbols slots, graph.view v = .object plain symbols slots →
    (slots.map Prod.fst).Nodup

variable {graph : JsGraph σ} {v : σ}

/-- What is no object is seen as before when prototypes and symbols are forgotten. -/
theorem plainly_view (h : ∀ plain symbols slots, graph.view v ≠ .object plain symbols slots) :
    graph.plainly.view v = graph.view v := by
  unfold plainly
  dsimp only
  split
  · exact absurd ‹_› (h _ _ _)
  · rfl

/-- An object is seen as a plain one when prototypes and symbols are forgotten. -/
theorem plainly_object {plain : Bool} {symbols : List (SymbolKey × Slot σ)}
    {slots : List (JsString × Slot σ)} (h : graph.view v = .object plain symbols slots) :
    graph.plainly.view v = .object true [] slots := by
  unfold plainly
  dsimp only
  rw [h]

/-- An array is seen as before when the prototypes and symbols of objects are forgotten. -/
theorem plainly_array {slots : List (Slot σ)} {extras : ArrayExtras σ}
    (h : graph.view v = .array slots extras) : graph.plainly.view v = .array slots extras :=
  (plainly_view fun _ _ _ hv => by cases h.symm.trans hv).trans h

/-- The parser and the walk through a document take the same values for primitives. -/
theorem primitive?_eq_prim? (view : JsView σ) : view.primitive? = view.prim? := by
  cases view with
  | number x => cases x <;> rfl
  | undefined | null | bool b | string s | unsupported type | array slots extras
  | object plain symbols slots => rfl

/-- A primitive is the tree of its view. -/
theorem denotes_primitive {p : JsonPrimitive} (h : (graph.view v).primitive? = some p) :
    graph.plainly.Denotes (.prim p) v := by
  have hview : graph.plainly.view v = graph.view v :=
    plainly_view fun _ _ _ hv => by rw [hv] at h; cases h
  rwa [Denotes, hview, ← primitive?_eq_prim?]

/-- Properties that are all trees.  They are collected in the order of the slots. -/
theorem exists_denotesProps {slots : List (JsString × Slot σ)}
    (h : ∀ p ∈ slots, ∃ w j, p.2 = .data w ∧ graph.Denotes j w) :
    ∃ props, graph.DenotesProps props slots := by
  induction slots with
  | nil => exact ⟨[], rfl⟩
  | cons p slots ih =>
      obtain ⟨name, slot⟩ := p
      obtain ⟨⟨w, j, rfl, hj⟩, hrest⟩ := List.forall_mem_cons.1 h
      obtain ⟨props, hprops⟩ := ih hrest
      exact ⟨(name, j) :: props, w, slots, rfl, hj, hprops⟩

/-- A list of named slots denotes properties of the same names. -/
theorem denotesProps_names : ∀ {props : List (JsString × Json)} {slots : List (JsString × Slot σ)},
    graph.DenotesProps props slots → props.map Prod.fst = slots.map Prod.fst
  | [], _, h => by rw [h]; rfl
  | (name, j) :: props, _, ⟨w, rest, h, _, hprops⟩ => by
      rw [h, List.map_cons, List.map_cons, denotesProps_names hprops]

/-- The tree of a property.  Names are looked up alike in both lists, the first one counting. -/
theorem denotesProps_get? {name : JsString} {w : σ} :
    ∀ {props : List (JsString × Json)} {slots : List (JsString × Slot σ)},
    graph.DenotesProps props slots → Assoc.get? slots name = some (.data w) →
      ∃ j, Assoc.get? props name = some j ∧ graph.Denotes j w
  | [], _, h, hget => by
      rw [h] at hget
      cases hget
  | (name', j) :: props, _, ⟨w', rest, h, hj, hprops⟩, hget => by
      rw [h, Assoc.get?] at hget
      rw [Assoc.get?]
      split_ifs at hget ⊢ with hname
      · obtain rfl := Slot.data.inj (Option.some.inj hget)
        exact ⟨j, rfl, hj⟩
      · exact denotesProps_get? hprops hget

/-- An object whose properties are all trees.  The keys an operator allows are all there are, so
every property is one of them. -/
theorem object_tree (hnames : graph.NamesOnce) {op : JsString} {plain : Bool}
    {symbols : List (SymbolKey × Slot σ)} {slots : List (JsString × Slot σ)}
    (hview : graph.view v = .object plain symbols slots) (hnode : graph.IsNode slots op)
    (h : ∀ name ∈ allowedKeys op, name ≠ js "op" →
      ∃ w j, Assoc.get? slots name = some (.data w) ∧ graph.plainly.Denotes j w) :
    ∃ props, graph.plainly.Denotes (.obj props) v ∧ Json.IsNode props (allowedKeys op) op ∧
      ∀ name w j, Assoc.get? slots name = some (.data w) → graph.plainly.Denotes j w →
        Assoc.get? props name = some j := by
  have hnodup := hnames v plain symbols slots hview
  obtain ⟨o, ho, hop⟩ := hnode.operator
  have hoperator : graph.plainly.Denotes (.prim (.string op)) o :=
    denotes_primitive (by rw [hop]; rfl)
  have htree : ∀ name ∈ allowedKeys op,
      ∃ w j, Assoc.get? slots name = some (.data w) ∧ graph.plainly.Denotes j w := by
    intro name hname
    by_cases heq : name = js "op"
    · exact ⟨o, _, heq ▸ ho, hoperator⟩
    · exact h name hname heq
  have hslots : ∀ p ∈ slots, ∃ w j, p.2 = .data w ∧ graph.plainly.Denotes j w := by
    rintro ⟨name, slot⟩ hp
    obtain ⟨w, j, hget, hj⟩ := htree name (hnode.closed name (List.mem_map_of_mem hp))
    have hslot := (Assoc.get?_eq_some_iff hnodup).2 hp
    exact ⟨w, j, Option.some.inj (hslot.symm.trans hget), hj⟩
  obtain ⟨props, hprops⟩ := exists_denotesProps hslots
  have hget : ∀ name w j, Assoc.get? slots name = some (.data w) → graph.plainly.Denotes j w →
      Assoc.get? props name = some j := by
    intro name w j hw hj
    obtain ⟨j', hj', hdenotes⟩ := denotesProps_get? hprops hw
    rw [hj', denotes_unique hdenotes hj]
  refine ⟨props, ⟨slots, plainly_object hview, hprops⟩, ⟨fun name hname => ?_, ?_⟩, hget⟩
  · rw [denotesProps_names hprops] at hname
    exact hnode.closed name hname
  · exact hget _ _ _ ho hoperator

/-- A path that is read is a tree.  A token is a string or a number, and each is a tree of one
node. -/
theorem path_tree {path : PropertyPath} (hquery : IsQueryPath path) (h : graph.ReadsPath path v) :
    ∃ tokens, graph.plainly.Denotes (.arr tokens) v ∧ tokens.mapM Json.token? = some path := by
  obtain ⟨slots, extras, hview, -, hreads⟩ := h
  have hitems : ∀ {slots : List (Slot σ)} {path : PropertyPath},
      List.Forall₂ graph.ReadsToken slots path → (∀ token ∈ path, token.IsNatural) →
        ∃ tokens, graph.plainly.DenotesItems tokens slots ∧
          List.Forall₂ (fun j t => Json.token? j = some t) tokens path := by
    intro slots path hreads
    induction hreads with
    | nil => exact fun _ => ⟨[], rfl, .nil⟩
    | @cons slot token slots path htoken hrest ih =>
        intro hnatural
        obtain ⟨hnat, hnats⟩ := List.forall_mem_cons.1 hnatural
        obtain ⟨tokens, htokens, hforall⟩ := ih hnats
        obtain ⟨w, rfl, hw⟩ := htoken
        have hone : ∃ j, graph.plainly.Denotes j w ∧ Json.token? j = some token := by
          cases hv : graph.view w with
          | string s =>
              rw [hv] at hw
              obtain rfl := view_token_injective (t := .name s) hw
              exact ⟨.prim (.string s), denotes_primitive (by rw [hv]; rfl), rfl⟩
          | number x =>
              rw [hv] at hw
              obtain rfl := view_token_injective (t := .index x) hw
              cases x with
              | finite y => exact ⟨.prim (.number y), denotes_primitive (by rw [hv]; rfl), rfl⟩
              | nan => exact hnat.elim
              | infinity s => exact hnat.elim
          | undefined | null | bool b | unsupported type | array slots extras
          | object plain symbols slots => rw [hv] at hw; cases token <;> cases hw
        obtain ⟨j, hj, hjt⟩ := hone
        exact ⟨j :: tokens, ⟨w, slots, rfl, hj, htokens⟩, .cons hjt hforall⟩
  obtain ⟨tokens, htokens, hforall⟩ := hitems hreads hquery.natural
  exact ⟨tokens, ⟨slots, extras, plainly_array hview, htokens⟩, mapM_eq_some.2 hforall⟩

/-- A list that is read without holes is a tree.  The holes are the `none` among the values, and
there are none. -/
theorem set_tree {values : List (Option JsonPrimitive)} {slots : List (Slot σ)}
    (h : List.Forall₂ graph.ReadsMember slots values) (hdense : none ∉ values) :
    ∃ items ps, graph.plainly.DenotesItems items slots ∧ items.mapM Json.prim? = some ps ∧
      values = ps.map some := by
  induction h with
  | nil => exact ⟨[], [], rfl, rfl, rfl⟩
  | @cons slot o slots values hmember hrest ih =>
      obtain ⟨items, ps, hitems, hps, rfl⟩ := ih fun hm => hdense (List.mem_cons_of_mem _ hm)
      cases o with
      | none => exact absurd (List.mem_cons_self ..) hdense
      | some p =>
          obtain ⟨w, rfl, hp⟩ := hmember
          refine ⟨.prim p :: items, p :: ps, ⟨w, slots, rfl, denotes_primitive hp, hitems⟩, ?_, rfl⟩
          exact mapM_eq_some.2 (.cons rfl (mapM_eq_some.1 hps))

/-- An operand that is read without holes is a tree.  A single operand is a primitive, and a
list is one of primitives. -/
theorem operand_tree {op : ComparisonOperator} {value : QueryValue}
    (h : graph.ReadsOperand op value v) (hdense : value.Dense) :
    ∃ k, graph.plainly.Denotes k v ∧ readOperand op k = some value := by
  cases value with
  | scalar p => exact ⟨.prim p, denotes_primitive h.2.1, h.2.2⟩
  | set values =>
      obtain ⟨rfl, slots, extras, hview, hlen, -, hreads⟩ := h
      obtain ⟨items, ps, hitems, hps, rfl⟩ := set_tree hreads hdense
      refine ⟨.arr items, ⟨slots, extras, plainly_array hview, hitems⟩,
        readOperand_in.2 ⟨?_, ps, hps, rfl⟩⟩
      have hitemsLength : items.length = ps.length := (mapM_eq_some.1 hps).length_eq
      have hslotsLength := hreads.length_eq
      rw [List.length_map] at hslotsLength
      exact (hitemsLength.trans hslotsLength.symm).trans_le hlen

/-- A list of conditions, as the property of an object.  The operator is `and` or `or`; they
differ in nothing else. -/
theorem conditions_node {op : JsString} (hkeys : allowedKeys op = [js "conditions", js "op"])
    (hnames : graph.NamesOnce) {conditions : List (Option Where)}
    (h : graph.ReadsNode op v fun slots => ∃ list items extras,
      Assoc.get? slots (js "conditions") = some (.data list) ∧
        graph.view list = .array items extras ∧ items ≠ [] ∧ graph.Mappable extras ∧
        graph.ReadsConditions conditions items)
    (htree : ∀ slots, graph.ReadsConditions conditions slots →
      ∃ items, graph.plainly.DenotesItems items slots ∧ Where.ReadsAll conditions items) :
    ∃ props items, graph.plainly.Denotes (.obj props) v ∧
      Json.IsNode props [js "conditions", js "op"] op ∧
      Assoc.get? props (js "conditions") = some (.arr items) ∧ items ≠ [] ∧
      Where.ReadsAll conditions items := by
  obtain ⟨plain, symbols, slots, hview, hnode, list, elements, extras, hlist, hitems, hne, -,
    hreads⟩ := h
  obtain ⟨items, hdenotes, hall⟩ := htree elements hreads
  have htree : graph.plainly.Denotes (.arr items) list :=
    ⟨elements, extras, plainly_array hitems, hdenotes⟩
  obtain ⟨props, hprops, hjson, hget⟩ := object_tree hnames hview hnode (by
    rw [hkeys]
    intro name hname hop
    obtain rfl | hname := List.mem_cons.1 hname
    · exact ⟨list, _, hlist, htree⟩
    · exact absurd (List.mem_singleton.1 hname) hop)
  refine ⟨props, items, hprops, hkeys ▸ hjson, hget _ _ _ hlist htree, ?_, hall⟩
  rintro rfl
  exact hne hdenotes

mutual

/-- **A query that is read without holes is a tree, and the tree is that query.**  By induction
on the query.  Holes are the one thing that is read and is in no tree. -/
theorem query_tree (hnames : graph.NamesOnce) : ∀ {w : Where} {v : σ}, graph.ReadsQuery w v →
    w.Dense → ∃ j, graph.plainly.Denotes j v ∧ w.Reads j
  | .and conditions, v, hread, hdense => by
      obtain ⟨props, items, hprops, hnode, hget, hne, hall⟩ := conditions_node (by decide) hnames
        hread fun slots hreads => conditions_tree hnames hreads hdense
      exact ⟨.obj props, hprops, props, items, rfl, hnode, hget, hne, hall⟩
  | .or conditions, v, hread, hdense => by
      obtain ⟨props, items, hprops, hnode, hget, hne, hall⟩ := conditions_node (by decide) hnames
        hread fun slots hreads => conditions_tree hnames hreads hdense
      exact ⟨.obj props, hprops, props, items, rfl, hnode, hget, hne, hall⟩
  | .not condition, v, hread, hdense => by
      obtain ⟨plain, symbols, slots, hview, hnode, w, hw, hcondition⟩ := hread
      obtain ⟨k, hk, hreads⟩ := query_tree hnames hcondition hdense
      have hkeys : allowedKeys (js "not") = [js "condition", js "op"] := by decide
      obtain ⟨props, hprops, hjson, hget⟩ := object_tree hnames hview hnode (by
        rw [hkeys]
        intro name hname hop
        obtain rfl | hname := List.mem_cons.1 hname
        · exact ⟨w, k, hw, hk⟩
        · exact absurd (List.mem_singleton.1 hname) hop)
      exact ⟨.obj props, hprops, props, k, rfl, hkeys ▸ hjson, hget _ _ _ hw hk, hreads⟩
  | .comparison op path value, v, hread, hdense => by
      obtain ⟨plain, symbols, slots, hview, hnode, ⟨p, hp, hpath⟩, hquery, x, hx, hvalue⟩ := hread
      obtain ⟨tokens, htokens, htokensPath⟩ := path_tree hquery hpath
      obtain ⟨k, hk, hkValue⟩ := operand_tree hvalue hdense
      obtain ⟨props, hprops, hjson, hget⟩ := object_tree hnames hview hnode (by
        rw [allowedKeys_name]
        intro name hname hop
        obtain rfl | hname := List.mem_cons.1 hname
        · exact absurd rfl hop
        obtain rfl | hname := List.mem_cons.1 hname
        · exact ⟨p, _, hp, htokens⟩
        · obtain rfl := List.mem_singleton.1 hname
          exact ⟨x, k, hx, hk⟩)
      exact ⟨.obj props, hprops, props, tokens, k, rfl, allowedKeys_name op ▸ hjson,
        hget _ _ _ hp htokens, htokensPath, hquery, hget _ _ _ hx hk, hkValue⟩

/-- **A list of conditions that is read without a hole is a list of trees**, each of a query.
The induction is on the conditions, together with that on the query. -/
theorem conditions_tree (hnames : graph.NamesOnce) : ∀ {conditions : List (Option Where)}
    {slots : List (Slot σ)}, graph.ReadsConditions conditions slots → Where.DenseAll conditions →
    ∃ items, graph.plainly.DenotesItems items slots ∧ Where.ReadsAll conditions items
  | [], slots, hreads, _ => ⟨[], hreads, rfl⟩
  | none :: conditions, slots, _, hdense => hdense.elim
  | some condition :: conditions, slots, hreads, hdense => by
      obtain ⟨v, rest, rfl, hread, hreads⟩ := hreads
      obtain ⟨k, hk, hkRead⟩ := query_tree hnames hread hdense.1
      obtain ⟨items, hitems, hall⟩ := conditions_tree hnames hreads hdense.2
      exact ⟨k :: items, ⟨v, rest, rfl, hk, hitems⟩, k, items, rfl, hkRead, hall⟩

end

end JsGraph

/-! ### The whole call -/

section

variable {σ : Type}

/-- The getters that the parser runs. -/
def queryGettersRun (graph : JsGraph σ) (input : σ) : ℕ :=
  ((parseWhereM defaultQueryLimits graph input).run.run ⟨0, 0, 0⟩).2.getters

/-- **The value is a query of the published grammar**: a finite tree of data properties that is
valid under the schema, whose arrays have nothing beside their elements but what is admitted,
and the query is that tree. -/
structure IsPublished (graph : JsGraph σ) (admitted : ArrayExtras σ → Prop) (input : σ) (w : Where)
    (j : Json) : Prop where
  tree : graph.plainly.Denotes j input
  arrays : graph.ArraysHave admitted input
  valid : ∀ levels, 2 * j.height ≤ levels →
    queryJsonSchema.validates (levels + 3) queryJsonSchema.root j
  reads : w.Reads j
  dense : w.Dense

/-- **Only the published grammar is admitted, and no getter is run, exactly when** the parser
comes to no accessor of an array, and the value is no query with a hole or with a list that
has more than its elements: one that would be within the limits if `undefined` and empty slots
were queries, and if a list were its elements.

What a list may have beside its elements is left open.  When the value is to be a tree of the
grammar and nothing else, it is no own property of another name (`fun extras => extras.named =
[]`, or `ArrayExtras.Bare`). -/
theorem admits_published_iff (graph : JsGraph σ) (hnames : graph.NamesOnce) (input : σ)
    (admitted : ArrayExtras σ → Prop) :
    (queryGettersRun graph input = 0 ∧ ∀ w, parseWhere defaultQueryLimits graph input = .ok w →
      ∃ j, IsPublished graph admitted input w j) ↔
    ¬graph.MeetsQuery (defaultQueryLimits.maxDepth + 1) input ⟨0, 0, 0⟩ ∧
      ∀ w, graph.ReadsQuery w input → w.Fits → w.Dense ∧ graph.ArraysHave admitted input := by
  have hstart : (⟨0, 0, 0⟩ : ParseState).Within := ⟨Nat.zero_le _, Nat.zero_le _⟩
  have houtcome : Outcome ParseState.getters (parseWhereM defaultQueryLimits graph input) ⟨0, 0, 0⟩
      (PassesQuery graph (defaultQueryLimits.maxDepth + 1) (some input) ⟨0, 0, 0⟩)
      (∃ v, some input = some v ∧ graph.MeetsQuery (defaultQueryLimits.maxDepth + 1) v ⟨0, 0, 0⟩) :=
    parseNode_outcome (Nat.add_zero _) hstart
  have haccepted : ∀ w s',
      PassesQuery graph (defaultQueryLimits.maxDepth + 1) (some input) ⟨0, 0, 0⟩ w s' →
        graph.ReadsQuery w input ∧ w.Fits := by
    rintro w s' ⟨⟨v, hv, hread⟩, hdepth, hcharged⟩
    obtain rfl := Option.some.inj hv
    exact ⟨hread, fits_iff.2 ⟨hdepth, s', hcharged⟩⟩
  show (((parseWhereM defaultQueryLimits graph input).run.run ⟨0, 0, 0⟩).2.getters = 0 ∧ ∀ w,
    ((parseWhereM defaultQueryLimits graph input).run.run ⟨0, 0, 0⟩).1 = .ok w → _) ↔ _
  cases houtcome with
  | returns w s' hrun hsame hpass hclear =>
      have hclear : ¬graph.MeetsQuery (defaultQueryLimits.maxDepth + 1) input ⟨0, 0, 0⟩ := fun h =>
        hclear ⟨input, rfl, h⟩
      obtain ⟨hread, hfits⟩ := haccepted w s' hpass
      rw [hrun]
      constructor
      · rintro ⟨-, hok⟩
        refine ⟨hclear, fun w' hread' _ => ?_⟩
        obtain ⟨j, hj⟩ := hok w rfl
        exact ⟨JsGraph.readsQuery_unique hread hread' ▸ hj.dense, hj.arrays⟩
      · rintro ⟨-, hplain⟩
        refine ⟨hsame, fun w' hw' => ?_⟩
        obtain rfl := Except.ok.inj hw'
        obtain ⟨hdense, harrays⟩ := hplain w hread hfits
        obtain ⟨j, hj, hreads⟩ := JsGraph.query_tree hnames hread hdense
        exact ⟨j, hj, harrays, fun levels hlevels => (validates_iff hlevels).2 ⟨w, hreads⟩, hreads,
          hreads.dense⟩
  | counts hcounted hmeet =>
      obtain ⟨v, hv, hmeets⟩ := hmeet
      obtain rfl := Option.some.inj hv
      refine iff_of_false (fun h => ?_) fun h => h.1 hmeets
      exact absurd h.1 (Nat.ne_of_gt hcounted)
  | refuses e s' hrun hsame hstop hclear =>
      have hnone : ∀ w, graph.ReadsQuery w input → ¬w.Fits := by
        intro w hread hfits
        obtain ⟨hdepth, s', hcharged⟩ := fits_iff.1 hfits
        exact hstop w s' ⟨⟨input, rfl, hread⟩, hdepth, hcharged⟩
      rw [hrun]
      refine iff_of_true ⟨hsame, fun w hw => by cases hw⟩ ⟨fun h => ?_, fun w hread hfits => ?_⟩
      · exact hclear ⟨input, rfl, h⟩
      · exact absurd hfits (hnone w hread)

end

/-- Three queries: an `and` whose list of conditions is one hole, an `in` whose list is one
accessor, and an `and` whose list of conditions has an accessor for a constructor. -/
def hostileHeap : Heap where
  object
    | 0 => .object true [] [(js "op", .data (.string (js "and"))),
        (js "conditions", .data (.ref 1))]
    | 1 => .array [.hole]
    | 2 => .object true [] [(js "op", .data (.string (js "in"))), (js "path", .data (.ref 3)),
        (js "value", .data (.ref 4))]
    | 3 => .array [.data (.string (js "a"))]
    | 4 => .array [.accessor (some .null)]
    | 5 => .object true [] [(js "op", .data (.string (js "and"))),
        (js "conditions", .data (.ref 6))]
    | 6 => .array [.data (.ref 7)] { named := [(js "constructor", .accessor (some .undefined))] }
    | _ => .object true [] [(js "op", .data (.string (js "eq"))), (js "path", .data (.ref 3)),
        (js "value", .data .null)]

/-- The first is a query without conditions; the getter of the second is run three times, and
that of the third once.  So more than the grammar is admitted, in three ways. -/
theorem hostileHeap_admitted :
    parseWhere defaultQueryLimits hostileHeap.graph (.ref 0) = .ok (.and [none]) ∧
    (∀ admitted j, ¬IsPublished hostileHeap.graph admitted (.ref 0) (.and [none]) j) ∧
    queryGettersRun hostileHeap.graph (.ref 2) = 3 ∧
    queryGettersRun hostileHeap.graph (.ref 5) = 1 :=
  ⟨rfl, fun _ _ h => h.dense, by decide +kernel, by decide +kernel⟩

/-- Its objects have each name once. -/
theorem hostileHeap_namesOnce : hostileHeap.graph.NamesOnce := by
  rintro v plain symbols slots h
  cases v with
  | ref a =>
      rcases a with _ | _ | _ | _ | _ | _ | _ | a <;> cases h <;> decide
  | undefined | null | bool b | number x | string t | unsupported type => cases h

/-- The condition fails for the first, as it should.  The equivalence applies to it: it is a
query with a hole. -/
theorem hostileHeap_holed : hostileHeap.graph.MeetsQuery (defaultQueryLimits.maxDepth + 1) (.ref 0)
      ⟨0, 0, 0⟩ ∨ ∃ w, hostileHeap.graph.ReadsQuery w (.ref 0) ∧ w.Fits ∧
        ¬(w.Dense ∧ hostileHeap.graph.ArraysHave ArrayExtras.Bare (.ref 0)) := by
  by_contra h
  rw [not_or] at h
  have hplain : ∀ w, hostileHeap.graph.ReadsQuery w (.ref 0) → w.Fits →
      w.Dense ∧ hostileHeap.graph.ArraysHave ArrayExtras.Bare (.ref 0) :=
    fun w hread hfits => not_not.1 fun hnot => h.2 ⟨w, hread, hfits, hnot⟩
  have hok : parseWhere defaultQueryLimits hostileHeap.graph (.ref 0) = .ok (.and [none]) := rfl
  obtain ⟨j, hj⟩ := ((admits_published_iff hostileHeap.graph hostileHeap_namesOnce (.ref 0)
    ArrayExtras.Bare).2 ⟨h.1, hplain⟩).2 _ hok
  exact hj.dense

end NewtonDB
