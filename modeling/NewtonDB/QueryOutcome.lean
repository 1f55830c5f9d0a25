/-
# What the parser of queries does with any value

The outcome of `visit` of `parseWhere`: a list of conditions (`parseConditions_outcome`), an
object with an operator, and any value (`parseNode_outcome`).
-/

import NewtonDB.QueryComparisons

namespace NewtonDB

variable {σ : Type} {graph : JsGraph σ} {s s' : ParseState} {location : JsString}
  {source : Option σ}

/-! ### Conditions -/

/-- What a value is read as, with so many levels left. -/
def PassesQuery (graph : JsGraph σ) (levels : ℕ) (candidate : Option σ) (s : ParseState)
    (w : Where) (s' : ParseState) : Prop :=
  (∃ v, candidate = some v ∧ graph.ReadsQuery w v) ∧ w.depth < levels ∧
    Charged s w.nodes w.comparisons s'

/-- A value is one query at most, and parsing it leaves one state. -/
theorem passesQuery_oneWay {levels : ℕ} : OneWay (PassesQuery graph levels source s) := by
  rintro w t w' t' ⟨⟨v, rfl, hread⟩, -, hcharged⟩ ⟨⟨v', hv', hread'⟩, -, hcharged'⟩
  obtain rfl := Option.some.inj hv'
  obtain rfl := JsGraph.readsQuery_unique hread hread'
  exact ⟨rfl, charged_unique hcharged hcharged'⟩

/-- What an element of a list of conditions is read as. -/
def PassesCondition (graph : JsGraph σ) (levels : ℕ) (slot : Slot σ) (s : ParseState) :
    Option Where → ParseState → Prop
  | none, s' => slot = .hole ∧ s' = s
  | some w, s' => ∃ v, slot = .data v ∧ PassesQuery graph levels (some v) s w s'

/-- An element of a list is one condition at most, and parsing it leaves one state.  A hole is
passed over, and a condition is read in one way. -/
theorem passesCondition_oneWay {levels : ℕ} (slot : Slot σ) (s : ParseState) :
    OneWay (PassesCondition graph levels slot s) := by
  intro o t o' t' h h'
  cases o with
  | none =>
      obtain ⟨rfl, rfl⟩ := h
      cases o' with
      | none => exact ⟨rfl, h'.2.symm⟩
      | some w => cases h'.choose_spec.1
  | some w =>
      obtain ⟨v, rfl, hw⟩ := h
      cases o' with
      | none => cases h'.1
      | some w' =>
          obtain ⟨v', hv', hw'⟩ := h'
          obtain rfl := Slot.data.inj hv'
          obtain ⟨rfl, rfl⟩ := passesQuery_oneWay _ _ _ _ hw hw'
          exact ⟨rfl, rfl⟩

/-- What `visit` does with any value, with so many levels left. -/
def VisitsQuery (graph : JsGraph σ) (levels depth : ℕ) : Prop :=
  ∀ {candidate : Option σ} {location : JsString} {s : ParseState}, s.Within →
    Outcome ParseState.getters
      (parseNode defaultQueryLimits graph levels candidate depth location) s
      (PassesQuery graph levels candidate s)
      (∃ v, candidate = some v ∧ graph.MeetsQuery levels v s)

/-- Parsing runs no getter back. -/
theorem parseNode_grows (levels : ℕ) (candidate : Option σ) (depth : ℕ) (location : JsString) :
    Grows ParseState.getters
      (parseNode defaultQueryLimits graph levels candidate depth location) := fun c =>
  (parseNode_keeps (getters_upwardClosed c) _ _ _ _).anyFailure

/-- Parsing a condition runs no getter back.  Whatever it comes to, getters that have run stay
counted. -/
theorem parseCondition_grows (levels depth : ℕ) (location : JsString) (entry : Slot σ × ℕ) :
    Grows ParseState.getters
      (parseCondition defaultQueryLimits graph levels depth location entry) := by
  obtain ⟨slot, index⟩ := entry
  intro c
  cases slot with
  | hole => exact .pure _
  | data v | accessor outcome =>
      exact .bind (readElement_grows _ c) fun _ =>
        .bind (parseNode_grows _ _ _ _ c) fun _ => .pure _

/-- One turn of the loop over conditions.  A hole is skipped by `map` and stays a hole in the
result. -/
theorem parseCondition_outcome {levels depth index : ℕ} (hs : s.Within)
    (hvisit : VisitsQuery graph levels (depth + 1)) (slot : Slot σ) :
    Outcome ParseState.getters
      (parseCondition defaultQueryLimits graph levels depth location (slot, index)) s
      (PassesCondition graph levels slot s)
      ((∃ outcome, slot = .accessor outcome) ∨
        ∃ v, slot = .data v ∧ graph.MeetsQuery levels v s) := by
  unfold parseCondition
  dsimp only
  cases slot with
  | data v =>
      refine .after (a := some v) rfl rfl (((hvisit hs).map some).congr (fun o s' => ?_) ?_)
      · constructor
        · rintro ⟨w, hw, rfl⟩
          exact ⟨v, rfl, hw⟩
        · intro h
          cases o with
          | none => cases h.1
          | some w =>
              obtain ⟨v', hv', hw⟩ := h
              obtain rfl := Slot.data.inj hv'
              exact ⟨w, hw, rfl⟩
      · constructor
        · rintro ⟨v', hv', hmeets⟩
          exact .inr ⟨v, rfl, Option.some.inj hv' ▸ hmeets⟩
        · rintro (⟨outcome, h⟩ | ⟨v', hv', hmeets⟩)
          · cases h
          · exact ⟨v, rfl, Slot.data.inj hv' ▸ hmeets⟩
  | accessor outcome =>
      refine readElement_counts (fun element c => ?_) (.inl ⟨outcome, rfl⟩)
      exact .bind (parseNode_grows _ _ _ _ c) fun _ => .pure _
  | hole =>
      refine .returns none s rfl rfl ⟨rfl, rfl⟩ ?_
      rintro (⟨outcome, h⟩ | ⟨v, h, -⟩)
      · cases h
      · cases h

/-- The elements of a list that are read, with what they are charged for.  By recursion along
the slots, where charges add up. -/
theorem passesAll_conditions {levels : ℕ} : ∀ {slots : List (Slot σ)} {s : ParseState}
    {conditions : List (Option Where)} {s' : ParseState}, s.Within →
    (PassesAll (PassesCondition graph levels) slots s conditions s' ↔
      graph.ReadsConditions conditions slots ∧ Where.depthAll conditions ≤ levels ∧
        Charged s (Where.nodesAll conditions) (Where.comparisonsAll conditions) s')
  | [], s, conditions, s', hs => by
      constructor
      · rintro ⟨rfl, rfl⟩
        exact ⟨rfl, Nat.zero_le _, (charged_zero hs).2 rfl⟩
      · rintro ⟨hreads, -, hcharged⟩
        rcases conditions with _ | ⟨_ | w, conditions⟩
        · exact ⟨rfl, ((charged_zero hs).1 hcharged).symm⟩
        · cases hreads.choose_spec.1
        · cases hreads.choose_spec.choose_spec.1
  | slot :: slots, s, conditions, s', hs => by
      constructor
      · rintro ⟨o, s₁, rest, hstep, hrest, rfl⟩
        cases o with
        | none =>
            obtain ⟨rfl, rfl⟩ := hstep
            obtain ⟨hreads, hdepth, hcharged⟩ := (passesAll_conditions hs).1 hrest
            exact ⟨⟨slots, rfl, hreads⟩, hdepth, hcharged⟩
        | some w =>
            obtain ⟨v, rfl, ⟨v', hv', hread⟩, hdepth, hcharged⟩ := hstep
            obtain rfl := Option.some.inj hv'
            obtain ⟨hreads, hdepths, hchargeds⟩ := (passesAll_conditions hcharged.within).1 hrest
            exact ⟨⟨v, slots, rfl, hread, hreads⟩, Nat.max_le.2 ⟨hdepth, hdepths⟩,
              charged_append.2 ⟨s₁, hcharged, hchargeds⟩⟩
      · rintro ⟨hreads, hdepth, hcharged⟩
        rcases conditions with _ | ⟨_ | w, conditions⟩
        · cases hreads
        · obtain ⟨rest, h, hreads⟩ := hreads
          obtain ⟨rfl, rfl⟩ := List.cons.inj h
          exact ⟨none, s, conditions, ⟨rfl, rfl⟩,
            (passesAll_conditions hs).2 ⟨hreads, hdepth, hcharged⟩, rfl⟩
        · obtain ⟨v, rest, h, hread, hreads⟩ := hreads
          obtain ⟨rfl, rfl⟩ := List.cons.inj h
          obtain ⟨hdepth, hdepths⟩ := Nat.max_le.1 hdepth
          obtain ⟨s₁, hcharged, hchargeds⟩ := charged_append.1 hcharged
          exact ⟨some w, s₁, conditions, ⟨v, rfl, ⟨v, rfl, hread⟩, hdepth, hcharged⟩,
            (passesAll_conditions hcharged.within).2 ⟨hreads, hdepths, hchargeds⟩, rfl⟩

/-- A condition that passes stays within the limits. -/
theorem PassesCondition.within {levels : ℕ} {slot : Slot σ} {o : Option Where} (hs : s.Within)
    (h : PassesCondition graph levels slot s o s') : s'.Within := by
  cases o with
  | none => exact h.2 ▸ hs
  | some w =>
      obtain ⟨v, -, -, -, hcharged⟩ := h
      exact hcharged.within

/-- The loop over conditions.  What the parser of one level less does is a hypothesis here, to
be discharged by the recursion. -/
theorem conditions_loop_outcome {levels depth : ℕ} (hs : s.Within)
    (hvisit : VisitsQuery graph levels (depth + 1)) (slots : List (Slot σ)) :
    Outcome ParseState.getters
      (slots.zipIdx.mapM (parseCondition defaultQueryLimits graph levels depth location)) s
      (fun conditions s' => graph.ReadsConditions conditions slots ∧
        Where.depthAll conditions ≤ levels ∧
        Charged s (Where.nodesAll conditions) (Where.comparisonsAll conditions) s')
      (graph.MeetsElement (graph.MeetsQuery levels) levels slots s) := by
  refine Outcome.congr
    (P := PassesAll (fun x => PassesCondition graph levels x.1) slots.zipIdx s)
    (Q := MeetsAny (fun x => PassesCondition graph levels x.1)
      (fun x s => (∃ outcome, x.1 = .accessor outcome) ∨
        ∃ v, x.1 = .data v ∧ graph.MeetsQuery levels v s) slots.zipIdx s)
    (.mapM (I := ParseState.Within) (parseCondition_grows levels depth location)
      (fun x : Slot σ × ℕ => passesCondition_oneWay x.1)
      (fun x _ s o s' hs h => PassesCondition.within hs h)
      (fun x _ s hs => parseCondition_outcome hs hvisit x.1) s hs)
    (fun conditions s' => (passesAll_zipIdx slots 0 s conditions s').trans
      (passesAll_conditions hs)) ?_
  have hindex : MeetsAny (fun x => PassesCondition graph levels x.1) _ slots.zipIdx s ↔
      MeetsAny (PassesCondition graph levels) (fun slot s => (∃ outcome, slot = .accessor outcome) ∨
        ∃ v, slot = .data v ∧ graph.MeetsQuery levels v s) slots s := meetsAny_zipIdx slots 0 s
  rw [hindex, JsGraph.MeetsElement]
  simp only [meetsAny_iff, passesAll_conditions hs, and_assoc]

/-- What a boolean condition is read as. -/
def PassesConditions (graph : JsGraph σ) (levels : ℕ) (slots : List (JsString × Slot σ))
    (text : JsString) (s : ParseState) (w : Where) (s' : ParseState) : Prop :=
  ∃ list items extras conditions, Assoc.get? slots (js "conditions") = some (.data list) ∧
    graph.view list = .array items extras ∧ items ≠ [] ∧ graph.Mappable extras ∧
    graph.ReadsConditions conditions items ∧ Where.depthAll conditions ≤ levels ∧
    Charged s (Where.nodesAll conditions) (Where.comparisonsAll conditions) s' ∧
    w = if text = js "and" then .and conditions else .or conditions

/-- A property whose value has a view is a data property with that view. -/
theorem of_map_view_none {slots : List (JsString × Slot σ)} {name : JsString} {plain : Bool}
    {symbols : List (SymbolKey × Slot σ)} {view : JsView σ}
    (h : ((JsView.object plain symbols slots).dataProperty? name).map graph.view = some view) :
    ∃ v, Assoc.get? slots name = some (.data v) ∧ graph.view v = view := by
  obtain ⟨v, hv, hview⟩ := of_map_view h
  exact ⟨v, dataProperty?_eq_some.1 hv, hview⟩

/-- The list of a boolean condition is mapped, by the method and to the kind of array that its
properties ask for. -/
theorem map_outcome {levels depth : ℕ} {text : JsString} (hs : s.Within)
    (hvisit : VisitsQuery graph levels (depth + 1)) (items : List (Slot σ))
    (extras : ArrayExtras σ) : Outcome ParseState.getters (do
      callMethod extras (Assoc.get? extras.named (js "map"))
      readConstructor graph extras
      let parsed ← items.zipIdx.mapM
        (parseCondition defaultQueryLimits graph levels depth location)
      return if text = js "and" then .and parsed else .or parsed : ParseM Where) s
      (fun w s' => graph.Mappable extras ∧ ∃ conditions, (graph.ReadsConditions conditions items ∧
        Where.depthAll conditions ≤ levels ∧
        Charged s (Where.nodesAll conditions) (Where.comparisonsAll conditions) s') ∧
        w = if text = js "and" then .and conditions else .or conditions)
      (JsGraph.IsGetter (Assoc.get? extras.named (js "map")) ∨
        JsGraph.Inherits extras (Assoc.get? extras.named (js "map")) ∧
          (graph.MeetsConstructor extras ∨ graph.PlainConstructor extras ∧
            graph.MeetsElement (graph.MeetsQuery levels) levels items s)) := by
  have hloop : ∀ (u : Unit) s', graph.PlainConstructor extras ∧ s' = s →
      Outcome ParseState.getters (do
        let parsed ← items.zipIdx.mapM
          (parseCondition defaultQueryLimits graph levels depth location)
        return if text = js "and" then .and parsed else .or parsed : ParseM Where) s'
        (fun w t => ∃ conditions, (graph.ReadsConditions conditions items ∧
          Where.depthAll conditions ≤ levels ∧
          Charged s (Where.nodesAll conditions) (Where.comparisonsAll conditions) t) ∧
          w = if text = js "and" then .and conditions else .or conditions)
        (graph.MeetsElement (graph.MeetsQuery levels) levels items s) := by
    rintro ⟨⟩ s' ⟨-, rfl⟩
    exact (conditions_loop_outcome hs hvisit items).map fun conditions =>
      if text = js "and" then Where.and conditions else .or conditions
  have hgrow : Grows ParseState.getters (do
      let parsed ← items.zipIdx.mapM
        (parseCondition defaultQueryLimits graph levels depth location)
      return if text = js "and" then .and parsed else .or parsed : ParseM Where) := fun c =>
    .bind (.mapM fun entry _ => parseCondition_grows levels depth location entry c) fun _ => .pure _
  have hone : OneWay fun (_ : Unit) s' => graph.PlainConstructor extras ∧ s' = s :=
    fun _ _ _ _ h h' => ⟨rfl, h.2.trans h'.2.symm⟩
  refine (callMethod_bind_outcome (fun c => .bind
    (readConstructor_keeps (getters_upwardClosed c) _).anyFailure fun _ => hgrow c) fun _ =>
    readConstructor_outcome.bind (fun _ => hgrow) hone hloop).congr (fun w s' => ?_) ?_
  · constructor
    · rintro ⟨hmap, _, _, ⟨hkind, rfl⟩, hread⟩
      exact ⟨⟨hmap, hkind⟩, hread⟩
    · rintro ⟨⟨hmap, hkind⟩, hread⟩
      exact ⟨hmap, (), s, ⟨hkind, rfl⟩, hread⟩
  · refine or_congr_right (and_congr_right fun _ => or_congr_right ?_)
    constructor
    · rintro ⟨_, _, ⟨hkind, rfl⟩, hmeets⟩
      exact ⟨hkind, hmeets⟩
    · rintro ⟨hkind, hmeets⟩
      exact ⟨(), s, ⟨hkind, rfl⟩, hmeets⟩

/-- **A boolean condition.**  The list must not be empty; `map` is looked up, asks for the kind
of array, and visits each element but the holes. -/
theorem parseConditions_outcome {levels depth : ℕ} {text : JsString} (hs : s.Within)
    (hvisit : VisitsQuery graph levels (depth + 1)) {plain : Bool}
    {symbols : List (SymbolKey × Slot σ)} {slots : List (JsString × Slot σ)} :
    Outcome ParseState.getters
      (parseConditions defaultQueryLimits graph levels depth location (.object plain symbols slots)
        text) s
      (PassesConditions graph levels slots text s)
      (graph.MeetsConditions (graph.MeetsQuery levels) levels slots s) := by
  unfold parseConditions
  split
  · next items extras hview =>
      obtain ⟨list, hlist, hitems⟩ := of_map_view_none hview
      refine check_outcome (fun hlen => ⟨?_, ?_⟩) fun hlen => ?_
      · rintro w s' ⟨list', items', extras', conditions, hlist', hitems', hne, -⟩
        obtain rfl := JsGraph.property_unique hlist hlist'
        obtain ⟨rfl, -⟩ := JsView.array.inj (hitems.symm.trans hitems')
        exact hne (List.length_eq_zero_iff.1 hlen)
      · rintro ⟨list', items', extras', hlist', hitems', hne, -⟩
        obtain rfl := JsGraph.property_unique hlist hlist'
        obtain ⟨rfl, -⟩ := JsView.array.inj (hitems.symm.trans hitems')
        exact hne (List.length_eq_zero_iff.1 hlen)
      have hne : items ≠ [] := fun hnil => hlen (List.length_eq_zero_iff.2 hnil)
      refine (map_outcome hs hvisit items extras).congr (fun w s' => ?_) ?_
      · constructor
        · rintro ⟨hmap, conditions, ⟨hreads, hdepth, hcharged⟩, rfl⟩
          exact ⟨list, items, extras, conditions, hlist, hitems, hne, hmap, hreads, hdepth, hcharged,
            rfl⟩
        · rintro ⟨list', items', extras', conditions, hlist', hitems', -, hmap, hreads, hdepth,
            hcharged, rfl⟩
          obtain rfl := JsGraph.property_unique hlist hlist'
          obtain ⟨rfl, rfl⟩ := JsView.array.inj (hitems.symm.trans hitems')
          exact ⟨hmap, conditions, ⟨hreads, hdepth, hcharged⟩, rfl⟩
      · constructor
        · exact fun hmeets => ⟨list, items, extras, hlist, hitems, hne, hmeets⟩
        · rintro ⟨list', items', extras', hlist', hitems', -, hmeets⟩
          obtain rfl := JsGraph.property_unique hlist hlist'
          obtain ⟨rfl, rfl⟩ := JsView.array.inj (hitems.symm.trans hitems')
          exact hmeets
  · next hother =>
      have hno : ∀ list items extras, Assoc.get? slots (js "conditions") = some (.data list) →
          graph.view list ≠ .array items extras := by
        intro list items extras hlist hview
        refine hother items extras ?_
        rw [dataProperty?_eq_some.2 hlist]
        exact congrArg some hview
      refine failQuery_outcome ?_ ?_
      · rintro w s' ⟨list, items, extras, conditions, hlist, hview, -⟩
        exact hno list items extras hlist hview
      · rintro ⟨list, items, extras, hlist, hview, -⟩
        exact hno list items extras hlist hview

/-! ### Objects -/

/-- What an object with an operator is read as. -/
def PassesBelow (graph : JsGraph σ) (levels : ℕ) (slots : List (JsString × Slot σ))
    (text : JsString) (s : ParseState) (w : Where) (s' : ParseState) : Prop :=
  if text = js "and" ∨ text = js "or" then PassesConditions graph levels slots text s w s'
  else if text = js "not" then ∃ v, Assoc.get? slots (js "condition") = some (.data v) ∧
    ∃ condition, PassesQuery graph levels (some v) s condition s' ∧ w = .not condition
  else PassesComparison graph slots text s w s'

/-- How the parser comes to an accessor below an object with an operator. -/
def MeetsBelow (graph : JsGraph σ) (levels : ℕ) (slots : List (JsString × Slot σ))
    (text : JsString) (s : ParseState) : Prop :=
  if text = js "and" ∨ text = js "or" then
    graph.MeetsConditions (graph.MeetsQuery levels) levels slots s
  else if text = js "not" then ∃ v, Assoc.get? slots (js "condition") = some (.data v) ∧
    graph.MeetsQuery levels v s
  else graph.MeetsComparison slots text s

variable {levels depth : ℕ} {plain : Bool} {symbols : List (SymbolKey × Slot σ)}
  {slots : List (JsString × Slot σ)} {text : JsString}

/-- **What the parser does below an operator**: it passes, comes to an accessor or refuses as
the parts say.  The cases are those of the operator: a list of conditions, one condition, a
comparison. -/
theorem parseOperator_outcome (hs : s.Within) (hvisit : VisitsQuery graph levels (depth + 1)) :
    Outcome ParseState.getters
      (parseOperator defaultQueryLimits graph levels depth location (.object plain symbols slots)
        text) s
      (PassesBelow graph levels slots text s) (MeetsBelow graph levels slots text s) := by
  unfold parseOperator PassesBelow MeetsBelow
  by_cases hbool : text = js "and" ∨ text = js "or"
  · have hc : (text = js "and" || text = js "or") = true := by
      rwa [Bool.or_eq_true, decide_eq_true_eq, decide_eq_true_eq]
    simp only [if_pos hbool, if_pos hc]
    exact parseConditions_outcome hs hvisit
  have hc : ¬(text = js "and" || text = js "or") = true := by
    rwa [Bool.or_eq_true, decide_eq_true_eq, decide_eq_true_eq]
  by_cases hnot : text = js "not"
  · simp only [if_neg hbool, if_neg hc, if_pos hnot]
    refine ((hvisit hs).map Where.not).congr (fun w s' => ?_) ?_
    · constructor
      · rintro ⟨condition, ⟨⟨v, hv, hread⟩, h⟩, rfl⟩
        exact ⟨v, dataProperty?_eq_some.1 hv, condition, ⟨⟨v, rfl, hread⟩, h⟩, rfl⟩
      · rintro ⟨v, hv, condition, ⟨⟨v', hv', hread⟩, h⟩, rfl⟩
        obtain rfl := Option.some.inj hv'
        exact ⟨condition, ⟨⟨v, dataProperty?_eq_some.2 hv, hread⟩, h⟩, rfl⟩
    · simp only [dataProperty?_eq_some]
  · simp only [if_neg hbool, if_neg hc, if_neg hnot]
    exact parseComparison_outcome hs.ok

/-- A comparison, as it is charged.  A path that is read has at least one token, and the first
is a name. -/
theorem charged_comparison {path : PropertyPath} {value : QueryValue} (hs : s.Within) :
    path.IsValid ∧ Spends s (pathBytes path ++ value.bytes) s' ↔
      IsQueryPath path ∧ Charged s 0 [(path, value)] s' := by
  have hbytes : comparisonBytes [(path, value)] = pathBytes path ++ value.bytes :=
    List.append_nil _
  constructor
  · rintro ⟨hpath, hspend⟩
    refine ⟨(isValid_iff.1 hpath).1, hs.nodes_le, fun c hc => ?_, hbytes ▸ hspend⟩
    obtain rfl := List.mem_singleton.1 hc
    exact hpath.tokens
  · rintro ⟨hpath, -, hsafe, hspend⟩
    exact ⟨isValid_iff.2 ⟨hpath, hsafe _ (List.mem_singleton_self _)⟩, hbytes ▸ hspend⟩

/-- **What is below an operator is what the query is read from.**  The counts are those of the
nodes and the scalars of the query. -/
theorem passesBelow_iff (hs : s.Within) {v : σ} {w : Where}
    (hview : graph.view v = .object plain symbols slots) :
    (∃ text, graph.IsNode slots text ∧ PassesBelow graph levels slots text s w s') ↔
      graph.ReadsQuery w v ∧ w.depth ≤ levels ∧ Charged s (w.nodes - 1) w.comparisons s' := by
  constructor
  · rintro ⟨text, hnode, hpass⟩
    unfold PassesBelow at hpass
    split_ifs at hpass with hbool hnot
    · obtain ⟨list, items, extras, conditions, hlist, hitems, hne, hmap, hreads, hdepth, hcharged,
        rfl⟩ := hpass
      obtain rfl | rfl := hbool
      · exact ⟨⟨plain, symbols, slots, hview, hnode, list, items, extras, hlist, hitems, hne, hmap,
          hreads⟩, hdepth, hcharged⟩
      · exact ⟨⟨plain, symbols, slots, hview, hnode, list, items, extras, hlist, hitems, hne, hmap,
          hreads⟩, hdepth, hcharged⟩
    · subst hnot
      obtain ⟨w', hw', condition, ⟨⟨v', hv', hread⟩, hdepth, hcharged⟩, rfl⟩ := hpass
      obtain rfl := Option.some.inj hv'
      exact ⟨⟨plain, symbols, slots, hview, hnode, w', hw', hread⟩, hdepth, hcharged⟩
    · obtain ⟨op, path, value, rfl, rfl, hpath, hvalid, hvalue, hspend⟩ := hpass
      obtain ⟨hquery, hcharged⟩ := (charged_comparison hs).1 ⟨hvalid, hspend⟩
      exact ⟨⟨plain, symbols, slots, hview, hnode, hpath, hquery, hvalue⟩, Nat.zero_le _, hcharged⟩
  · rintro ⟨hread, hdepth, hcharged⟩
    have hslots : ∀ {op : JsString} {reads : List (JsString × Slot σ) → Prop},
        graph.ReadsNode op v reads → graph.IsNode slots op ∧ reads slots := by
      rintro op reads ⟨plain', symbols', slots', hview', hnode, hreads⟩
      obtain ⟨-, -, rfl⟩ := JsView.object.inj (hview.symm.trans hview')
      exact ⟨hnode, hreads⟩
    cases w with
    | and conditions =>
        obtain ⟨hnode, list, items, extras, hlist, hitems, hne, hmap, hreads⟩ := hslots hread
        refine ⟨js "and", hnode, ?_⟩
        unfold PassesBelow
        rw [if_pos (.inl rfl)]
        exact ⟨list, items, extras, conditions, hlist, hitems, hne, hmap, hreads, hdepth, hcharged,
          rfl⟩
    | or conditions =>
        obtain ⟨hnode, list, items, extras, hlist, hitems, hne, hmap, hreads⟩ := hslots hread
        refine ⟨js "or", hnode, ?_⟩
        unfold PassesBelow
        rw [if_pos (.inr rfl)]
        exact ⟨list, items, extras, conditions, hlist, hitems, hne, hmap, hreads, hdepth, hcharged,
          rfl⟩
    | not condition =>
        obtain ⟨hnode, w', hw', hread⟩ := hslots hread
        refine ⟨js "not", hnode, ?_⟩
        unfold PassesBelow
        rw [if_neg (by decide), if_pos rfl]
        exact ⟨w', hw', condition, ⟨⟨w', rfl, hread⟩, hdepth, hcharged⟩, rfl⟩
    | comparison op path value =>
        obtain ⟨hnode, hpath, hquery, hvalue⟩ := hslots hread
        obtain ⟨hvalid, hspend⟩ := (charged_comparison hs).2 ⟨hquery, hcharged⟩
        obtain ⟨hand, hor, hnot⟩ := name_ne_boolean op
        refine ⟨op.name, hnode, ?_⟩
        unfold PassesBelow
        rw [if_neg (not_or.2 ⟨hand, hor⟩), if_neg hnot]
        exact ⟨op, path, value, rfl, rfl, hpath, hvalid, hvalue, hspend⟩

/-- A condition that is an object.  Its operator is looked up first, and decides which keys are
allowed and what is read. -/
theorem parseObject_outcome (hs : s.Within) (hvisit : VisitsQuery graph levels (depth + 1)) {v : σ}
    (hview : graph.view v = .object plain symbols slots) : Outcome ParseState.getters
      (parseObject defaultQueryLimits graph levels depth location (.object plain symbols slots)
        fun op => (ownNames (.object plain symbols slots : JsView σ)).any fun key =>
          key ∉ allowedKeys op) s
      (fun w s' => graph.ReadsQuery w v ∧ w.depth ≤ levels ∧
        Charged s (w.nodes - 1) w.comparisons s')
      (∃ op, graph.IsNode slots op ∧ MeetsBelow graph levels slots op s) := by
  have hnone : (∀ text, ¬graph.IsNode slots text) →
      (∀ w s', ¬(graph.ReadsQuery w v ∧ w.depth ≤ levels ∧
        Charged s (w.nodes - 1) w.comparisons s')) ∧
      ¬∃ op, graph.IsNode slots op ∧ MeetsBelow graph levels slots op s := by
    intro h
    refine ⟨fun w s' hpass => ?_, fun ⟨op, hnode, _⟩ => h op hnode⟩
    obtain ⟨text, hnode, -⟩ := (passesBelow_iff hs hview).2 hpass
    exact h text hnode
  unfold parseObject
  extract_lets rest
  split
  · next text hop =>
      obtain ⟨o, ho, htext⟩ := of_map_view_none hop
      have honly : ∀ text', graph.IsNode slots text' → text' = text := by
        intro text' hnode
        obtain ⟨o', ho', htext'⟩ := hnode.operator
        obtain rfl := JsGraph.property_unique ho ho'
        exact JsView.string.inj (htext'.symm.trans htext)
      rw [pure_bind]
      subst rest
      dsimp only
      refine check_outcome (fun hforbid => hnone fun text' hnode => ?_) fun hforbid => ?_
      · obtain rfl := honly text' hnode
        obtain ⟨key, hkey, hnot⟩ := List.any_eq_true.1 hforbid
        exact of_decide_eq_true hnot (hnode.closed key hkey)
      have hnode : graph.IsNode slots text := by
        refine ⟨fun key hkey => ?_, o, ho, htext⟩
        by_contra hnot
        exact hforbid (List.any_eq_true.2 ⟨key, hkey, decide_eq_true hnot⟩)
      refine (parseOperator_outcome hs hvisit).congr (fun w s' => ?_) ?_
      · rw [← passesBelow_iff hs hview]
        constructor
        · exact fun hpass => ⟨text, hnode, hpass⟩
        · rintro ⟨text', hnode', hpass⟩
          exact honly text' hnode' ▸ hpass
      · constructor
        · exact fun hmeets => ⟨text, hnode, hmeets⟩
        · rintro ⟨text', hnode', hmeets⟩
          exact honly text' hnode' ▸ hmeets
  · next hother =>
      obtain ⟨hpass, hmeets⟩ := hnone fun text hnode => by
        obtain ⟨o, ho, htext⟩ := hnode.operator
        refine hother text ?_
        rw [dataProperty?_eq_some.2 ho]
        exact congrArg some htext
      exact failQuery_bind_outcome hpass hmeets

/-- The parser comes to an accessor of a query when there is room for one more node and it does
so below its operator. -/
theorem meetsQuery_iff {v : σ} (hview : graph.view v = .object plain symbols slots) :
    graph.MeetsQuery (levels + 1) v s ↔ s.nodes + 1 ≤ defaultQueryLimits.maxNodes ∧
      ∃ op, graph.IsNode slots op ∧
        MeetsBelow graph levels slots op { s with nodes := s.nodes + 1 } := by
  refine and_congr_right fun _ => exists_congr fun op => ?_
  constructor
  · rintro ⟨plain', symbols', slots', hview', h⟩
    obtain ⟨-, -, rfl⟩ := JsView.object.inj (hview.symm.trans hview')
    exact h
  · exact fun h => ⟨plain, symbols, slots, hview, h⟩

/-- Only an object is read as a query. -/
theorem ReadsNode.isObject {v : σ} {op : JsString} {reads : List (JsString × Slot σ) → Prop}
    (h : graph.ReadsNode op v reads) :
    ∃ plain symbols slots, graph.view v = .object plain symbols slots := by
  obtain ⟨plain, symbols, slots, hview, -⟩ := h
  exact ⟨plain, symbols, slots, hview⟩

/-- What is read as a query is an object. -/
theorem ReadsQuery.isObject {v : σ} {w : Where} (h : graph.ReadsQuery w v) :
    ∃ plain symbols slots, graph.view v = .object plain symbols slots := by
  cases w with
  | and conditions | or conditions | not condition | comparison op path value =>
      exact ReadsNode.isObject h

/-- **`visit` of any value.**  By induction on the levels.  A value that is no object is
refused, and so is an object with an accessor or with a property its operator does not have. -/
theorem parseNode_outcome : ∀ {levels depth : ℕ},
    levels + depth = defaultQueryLimits.maxDepth + 1 → VisitsQuery graph levels depth
  | 0, depth, _, candidate, location, s, hs => by
      have hpass : ∀ w s', ¬PassesQuery graph 0 candidate s w s' := fun w s' h =>
        Nat.not_lt_zero _ h.2.1
      have hmeets : ¬∃ v, candidate = some v ∧ graph.MeetsQuery 0 v s := fun ⟨_, _, h⟩ => h
      rw [parseNode_zero]
      refine .after rfl rfl (.after rfl rfl (check_outcome (fun _ => ⟨hpass, hmeets⟩) fun _ =>
        check_outcome (fun _ => ⟨hpass, hmeets⟩) fun _ => failQuery_outcome hpass hmeets))
  | levels + 1, depth, hlevels, candidate, location, s, hs => by
      have hvisit : VisitsQuery graph levels (depth + 1) := parseNode_outcome (by omega)
      rw [parseNode_succ]
      refine .after rfl rfl (.after rfl rfl (check_outcome (fun hn => ⟨?_, ?_⟩) fun hn =>
        check_outcome (fun hd => ?_) fun hd => ?_))
      · rintro w s' ⟨-, -, hcharged⟩
        exact not_lt.2 (charged_nodes.1 hcharged).1 hn
      · rintro ⟨v, -, hmeets⟩
        exact not_lt.2 hmeets.1 hn
      · omega
      have hs' : ({ s with nodes := s.nodes + 1 } : ParseState).Within := ⟨not_lt.1 hn, hs.ok⟩
      split
      · next plain symbols slots hview =>
          obtain ⟨v, rfl, hv⟩ := of_map_view hview
          refine (parseObject_outcome hs' hvisit hv).congr (fun w s' => ?_) ?_
          · constructor
            · rintro ⟨hread, hdepth, hcharged⟩
              exact ⟨⟨v, rfl, hread⟩, Nat.lt_succ_of_le hdepth,
                charged_nodes.2 ⟨not_lt.1 hn, hcharged⟩⟩
            · rintro ⟨⟨v', hv', hread⟩, hdepth, hcharged⟩
              obtain rfl := Option.some.inj hv'
              exact ⟨hread, Nat.le_of_lt_succ hdepth, (charged_nodes.1 hcharged).2⟩
          · constructor
            · exact fun hmeets => ⟨v, rfl, (meetsQuery_iff hv).2 ⟨not_lt.1 hn, hmeets⟩⟩
            · rintro ⟨v', hv', hmeets⟩
              obtain rfl := Option.some.inj hv'
              exact ((meetsQuery_iff hv).1 hmeets).2
      · next hother =>
          have hno : ∀ v, candidate = some v → ∀ plain symbols slots,
              graph.view v ≠ .object plain symbols slots := by
            rintro v rfl plain symbols slots hview
            exact hother plain symbols slots (congrArg some hview)
          refine failQuery_bind_outcome ?_ ?_
          · rintro w s' ⟨⟨v, hv, hread⟩, -⟩
            obtain ⟨plain, symbols, slots, hview⟩ := ReadsQuery.isObject hread
            exact hno v hv _ _ _ hview
          · rintro ⟨v, hv, -, op, plain, symbols, slots, hview, -⟩
            exact hno v hv _ _ _ hview

end NewtonDB
