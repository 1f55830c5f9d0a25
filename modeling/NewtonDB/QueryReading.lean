/-
# Queries that are JSON

The population of plain data (`Json.graph`) has no accessor, so the parser runs no getter
there, and it reads a value as a query when the value is that query (`readsQuery_json`):
a JSON value is parsed to the query it is, when that is within the limits
(`parseWhere_eq_ok`).
-/

import NewtonDB.Js.PropertyOrder
import NewtonDB.QueryOutcome

namespace NewtonDB

namespace JsGraph

variable {σ : Type} {graph : JsGraph σ}

/-- Every array is its elements, and none of these is an accessor. -/
def NoAccessors (graph : JsGraph σ) : Prop :=
  ∀ v slots extras, graph.view v = .array slots extras →
    extras = {} ∧ ∀ outcome, Slot.accessor outcome ∉ slots

/-- There is no getter where there is no property. -/
theorem not_isGetter_none : ¬IsGetter (none : Option (Slot σ)) := fun ⟨_, h⟩ => by cases h

/-- An array that is its elements has the methods of its prototype. -/
theorem inherits_bare : Inherits ({} : ArrayExtras σ) none := ⟨rfl, rfl⟩

/-- A list that is its elements may be mapped. -/
theorem mappable_bare : graph.Mappable {} := ⟨inherits_bare, nofun⟩

/-- Its members may be checked, counted and spread. -/
theorem iterable_bare : Iterable ({} : ArrayExtras σ) :=
  ⟨inherits_bare, inherits_bare, inherits_bare⟩

/-- **Where no array has an accessor, the parser comes to none.**  By induction on the
levels. -/
theorem NoAccessors.not_meetsQuery (h : graph.NoAccessors) {levels : ℕ} {v : σ} {s : ParseState} :
    ¬graph.MeetsQuery levels v s := by
  have hnone : ∀ {v : σ} {before after : List (Slot σ)} {outcome : Option σ}
      {extras : ArrayExtras σ}, graph.view v ≠ .array (before ++ .accessor outcome :: after) extras :=
    fun hview => (h _ _ _ hview).2 _ (List.mem_append_right _ (List.mem_cons_self ..))
  induction levels generalizing v s with
  | zero => exact id
  | succ levels ih =>
      rintro ⟨-, op, plain, symbols, slots, -, -, hmeets⟩
      split_ifs at hmeets
      · obtain ⟨list, items, extras, -, hview, -, hmeets⟩ := hmeets
        obtain rfl := (h _ _ _ hview).1
        obtain hgetter | ⟨-, (hgetter | ⟨v, symbols, hget, -⟩) | ⟨-, helement⟩⟩ := hmeets
        · exact not_isGetter_none hgetter
        · exact not_isGetter_none hgetter
        · cases hget
        · obtain ⟨before, slot, after, conditions, s', rfl, -, -, -, hslot⟩ := helement
          obtain ⟨outcome, rfl⟩ | ⟨w, -, hw⟩ := hslot
          · exact hnone hview
          · exact ih hw
      · obtain ⟨w, -, hw⟩ := hmeets
        exact ih hw
      · obtain ⟨o, w, -, -, hpath | ⟨-, path, s', list, -, -, -, -, hset⟩⟩ := hmeets
        · obtain ⟨slots, extras, hview, -, -, hmeets⟩ := hpath
          obtain rfl := (h _ _ _ hview).1
          obtain hgetter | ⟨-, before, outcome, after, path, rfl, -⟩ := hmeets
          · exact not_isGetter_none hgetter
          · exact hnone hview
        · obtain ⟨slots, extras, hview, -, hmeets⟩ := hset
          obtain rfl := (h _ _ _ hview).1
          obtain hgetter | ⟨-, ⟨before, outcome, after, values, rfl, -⟩ | ⟨values, -, hmeets⟩⟩ :=
            hmeets
          · exact not_isGetter_none hgetter
          · exact hnone hview
          · obtain hgetter | ⟨-, -, hgetter⟩ := hmeets
            · exact not_isGetter_none hgetter
            · exact not_isGetter_none hgetter

end JsGraph

/-! ### Plain data -/

namespace Json

/-- A JSON value as `validatePath` sees it. -/
theorem tokenView_json (j : Json) (token : PathToken) :
    parsePathOf.tokenView (some j.view) = token.view ↔ j.token? = some token := by
  rcases j with (_ | b | x | s) | items | props <;> rcases token with n | name <;>
    simp [Json.view, parsePathOf.tokenView, PathToken.view, Json.token?, eq_comm]

/-- A primitive among plain data is seen as one. -/
theorem primitive?_view (j : Json) : (Json.graph.view j).primitive? = j.prim? := by
  rcases j with (_ | b | x | t) | items | props <;> rfl

/-- Plain data has no accessors.  Its arrays have data elements and nothing else. -/
theorem noAccessors : Json.graph.NoAccessors := by
  intro j slots extras hview
  cases j with
  | arr items =>
      obtain ⟨rfl, rfl⟩ := JsView.array.inj hview
      refine ⟨rfl, fun outcome hm => ?_⟩
      obtain ⟨k, -, hk⟩ := List.mem_map.1 hm
      cases hk
  | prim p => cases p <;> cases hview
  | obj props => cases hview

/-- A property of plain data. -/
theorem get?_slots {props : List (JsString × Json)} {name : JsString} {k : Json} :
    Assoc.get? (props.map fun p => (p.1, Slot.data p.2)) name = some (.data k) ↔
      Assoc.get? props name = some k := by
  have hget : Assoc.get? (props.map fun p => (p.1, Slot.data p.2)) name =
      (Assoc.get? props name).map Slot.data := get?_map Slot.data props name
  rw [hget]
  cases Assoc.get? props name <;> simp

/-- A node among plain data is an object with an operator and with the properties it may
have. -/
theorem readsNode_iff {op : JsString} {j : Json} {reads : List (JsString × Slot Json) → Prop} :
    Json.graph.ReadsNode op j reads ↔ ∃ props, j = .obj props ∧
      Json.IsNode props (allowedKeys op) op ∧ reads (props.map fun p => (p.1, .data p.2)) := by
  have hnames : ∀ props : List (JsString × Json),
      (props.map fun p => (p.1, Slot.data p.2)).map Prod.fst = props.map Prod.fst :=
    fun props => List.map_map
  constructor
  · rintro ⟨plain, symbols, slots, hview, ⟨hclosed, o, ho, hop⟩, hreads⟩
    cases j with
    | obj props =>
        obtain ⟨-, -, rfl⟩ := JsView.object.inj hview
        refine ⟨props, rfl, ⟨hnames props ▸ hclosed, ?_⟩, hreads⟩
        rw [get?_slots.1 ho]
        rcases o with (_ | b | x | t) | items | props
        · cases hop
        · cases hop
        · cases hop
        · rw [JsView.string.inj hop]
        · cases hop
        · cases hop
    | prim p => cases p <;> cases hview
    | arr items => cases hview
  · rintro ⟨props, rfl, ⟨hclosed, hop⟩, hreads⟩
    exact ⟨true, [], _, rfl, ⟨(hnames props).symm ▸ hclosed, _, get?_slots.2 hop, rfl⟩, hreads⟩

/-- A path among plain data is a list of tokens.  Each element is a data element that holds a
string or a number. -/
theorem readsPath_iff {path : PropertyPath} {k : Json} : Json.graph.ReadsPath path k ↔
    ∃ tokens, k = .arr tokens ∧ tokens.mapM Json.token? = some path := by
  have htokens : ∀ tokens : List Json,
      List.Forall₂ Json.graph.ReadsToken (tokens.map Slot.data) path ↔
        tokens.mapM Json.token? = some path := by
    intro tokens
    rw [List.forall₂_map_left_iff, mapM_eq_some]
    refine iff_of_eq (congrArg (fun r => List.Forall₂ r tokens path) ?_)
    funext j token
    refine propext ⟨?_, fun h => ⟨j, rfl, (tokenView_json j token).2 h⟩⟩
    rintro ⟨w, hw, htoken⟩
    obtain rfl := Slot.data.inj hw
    exact (tokenView_json j token).1 htoken
  constructor
  · rintro ⟨slots, extras, hview, -, hreads⟩
    cases k with
    | arr tokens =>
        obtain ⟨rfl, -⟩ := JsView.array.inj hview
        exact ⟨tokens, rfl, (htokens tokens).1 hreads⟩
    | prim p => cases p <;> cases hview
    | obj props => cases hview
  · rintro ⟨tokens, rfl, h⟩
    exact ⟨_, _, rfl, JsGraph.inherits_bare, (htokens tokens).2 h⟩

/-- Elements of plain data that are read as members are primitives.  There is no hole among
them, so no `none` is read. -/
theorem forall₂_readsMember {items : List Json} {values : List (Option JsonPrimitive)} :
    List.Forall₂ Json.graph.ReadsMember (items.map Slot.data) values ↔
      ∃ ps, items.mapM Json.prim? = some ps ∧ values = ps.map some := by
  rw [List.forall₂_map_left_iff]
  constructor
  · intro h
    induction h with
    | nil => exact ⟨[], rfl, rfl⟩
    | @cons j o _ _ hmember _ ih =>
        obtain ⟨ps, hps, rfl⟩ := ih
        cases o with
        | none => cases hmember
        | some p =>
            obtain ⟨k, hk, hp⟩ := hmember
            obtain rfl := Slot.data.inj hk
            rw [primitive?_view] at hp
            exact ⟨p :: ps, mapM_eq_some.2 (.cons hp (mapM_eq_some.1 hps)), rfl⟩
  · rintro ⟨ps, hps, rfl⟩
    rw [List.forall₂_map_right_iff]
    exact (mapM_eq_some.1 hps).imp fun j p hp => ⟨j, rfl, (primitive?_view j).trans hp⟩

/-- An operand among plain data is read as the grammar reads it.  A list inherits every method,
as it has no property of its own. -/
theorem readsOperand_iff {op : ComparisonOperator} {value : QueryValue} {k : Json} :
    Json.graph.ReadsOperand op value k ↔ readOperand op k = some value := by
  by_cases hin : op = .in
  · subst hin
    constructor
    · intro h
      cases value with
      | scalar p => exact absurd rfl h.1
      | set values =>
          obtain ⟨-, slots, extras, hview, hlen, -, hreads⟩ := h
          cases k with
          | arr items =>
              obtain ⟨rfl, -⟩ := JsView.array.inj hview
              obtain ⟨ps, hps, rfl⟩ := forall₂_readsMember.1 hreads
              exact readOperand_in.2 ⟨List.length_map (f := Slot.data) ▸ hlen, ps, hps, rfl⟩
          | prim p => cases p <;> cases hview
          | obj props => cases hview
    · intro h
      cases k with
      | arr items =>
          obtain ⟨hlen, ps, hps, rfl⟩ := readOperand_in.1 h
          exact ⟨rfl, _, _, rfl, (List.length_map _).trans_le hlen, JsGraph.iterable_bare,
            forall₂_readsMember.2 ⟨ps, hps, rfl⟩⟩
      | prim p => cases h
      | obj props => cases h
  · rw [readOperand_scalar hin]
    constructor
    · intro h
      cases value with
      | scalar p => exact ⟨p, (primitive?_view k).symm.trans h.2.1, h.2.2⟩
      | set values => exact absurd h.1 hin
    · rintro ⟨p, hp, hread⟩
      obtain rfl := eq_scalar_of_readOperand hin hread
      exact ⟨hin, (primitive?_view k).trans hp, hread⟩

/-- A list of conditions of plain data.  The list is the array under `conditions`, and it
inherits `map`. -/
theorem readsList_iff {op : JsString} {j : Json} {conditions : List (Option Where)}
    (hkeys : allowedKeys op = [js "conditions", js "op"])
    (h : ∀ items, Json.graph.ReadsConditions conditions (items.map .data) ↔
      Where.ReadsAll conditions items) :
    (Json.graph.ReadsNode op j fun slots => ∃ list items extras,
        Assoc.get? slots (js "conditions") = some (.data list) ∧
          Json.graph.view list = .array items extras ∧ items ≠ [] ∧ Json.graph.Mappable extras ∧
          Json.graph.ReadsConditions conditions items) ↔
      ∃ props items, j = .obj props ∧ Json.IsNode props [js "conditions", js "op"] op ∧
        Assoc.get? props (js "conditions") = some (.arr items) ∧ items ≠ [] ∧
        Where.ReadsAll conditions items := by
  rw [readsNode_iff, hkeys]
  refine exists_congr fun props => ?_
  constructor
  · rintro ⟨hj, hnode, list, slots, extras, hlist, hview, hne, -, hreads⟩
    cases list with
    | arr items =>
        obtain ⟨rfl, -⟩ := JsView.array.inj hview
        exact ⟨items, hj, hnode, get?_slots.1 hlist, fun hnil => hne (by rw [hnil]; rfl),
          (h items).1 hreads⟩
    | prim p => cases p <;> cases hview
    | obj props => cases hview
  · rintro ⟨items, hj, hnode, hget, hne, hreads⟩
    exact ⟨hj, hnode, .arr items, _, _, get?_slots.2 hget, rfl,
      fun hnil => hne (List.map_eq_nil_iff.1 hnil), JsGraph.mappable_bare, (h items).2 hreads⟩

mutual

/-- **The query that plain data is read as is the query that it is.**  By induction on the
query; plain data has neither holes nor properties beside the elements. -/
theorem readsQuery_iff : ∀ {w : Where} {j : Json}, Json.graph.ReadsQuery w j ↔ w.Reads j
  | .and conditions, j => readsList_iff (by decide) fun _ => readsConditions_iff
  | .or conditions, j => readsList_iff (by decide) fun _ => readsConditions_iff
  | .not condition, j => by
      have hkeys : allowedKeys (js "not") = [js "condition", js "op"] := by decide
      rw [JsGraph.ReadsQuery, readsNode_iff, hkeys, Where.Reads]
      simp only [get?_slots, readsQuery_iff]
      exact exists_congr fun props => ⟨fun ⟨hj, hnode, k, h⟩ => ⟨k, hj, hnode, h⟩,
        fun ⟨k, hj, hnode, h⟩ => ⟨hj, hnode, k, h⟩⟩
  | .comparison op path value, j => by
      rw [JsGraph.ReadsQuery, readsNode_iff, allowedKeys_name, Where.Reads]
      simp only [get?_slots, readsPath_iff, readsOperand_iff]
      refine exists_congr fun props => ⟨?_, ?_⟩
      · rintro ⟨hj, hnode, ⟨_, hget, tokens, rfl, htokens⟩, hquery, k, hk, hread⟩
        exact ⟨tokens, k, hj, hnode, hget, htokens, hquery, hk, hread⟩
      · rintro ⟨tokens, k, hj, hnode, hget, htokens, hquery, hk, hread⟩
        exact ⟨hj, hnode, ⟨_, hget, tokens, rfl, htokens⟩, hquery, k, hk, hread⟩

/-- **Conditions among plain data are read as the grammar reads them**, by induction on the
conditions and the queries in them. -/
theorem readsConditions_iff : ∀ {conditions : List (Option Where)} {items : List Json},
    Json.graph.ReadsConditions conditions (items.map .data) ↔ Where.ReadsAll conditions items
  | [], items => List.map_eq_nil_iff
  | none :: conditions, items => by
      refine iff_of_false ?_ id
      rintro ⟨rest, h, -⟩
      cases items <;> cases h
  | some condition :: conditions, items => by
      constructor
      · rintro ⟨k, slots, h, hread, hreads⟩
        cases items with
        | nil => cases h
        | cons j items =>
            obtain ⟨hslot, rfl⟩ := List.cons.inj h
            obtain rfl := Slot.data.inj hslot
            exact ⟨j, items, rfl, readsQuery_iff.1 hread, readsConditions_iff.1 hreads⟩
      · rintro ⟨k, rest, rfl, hread, hreads⟩
        exact ⟨k, _, rfl, readsQuery_iff.2 hread, readsConditions_iff.2 hreads⟩

end

end Json

/-- A value is one query. -/
theorem Where.Reads.unique {w w' : Where} {j : Json} (h : w.Reads j) (h' : w'.Reads j) : w = w' :=
  JsGraph.readsQuery_unique (Json.readsQuery_iff.2 h) (Json.readsQuery_iff.2 h')

/-- **A JSON value is parsed to the query it is**, when that is within the limits.  No accessor
is met, so that the parser returns exactly what it reads. -/
theorem parseWhere_eq_ok {w : Where} {j : Json} :
    parseWhere defaultQueryLimits Json.graph j = .ok w ↔ w.Reads j ∧ w.Fits := by
  have hstart : (⟨0, 0, 0⟩ : ParseState).Within := ⟨Nat.zero_le _, Nat.zero_le _⟩
  have hclear : ¬∃ v, some j = some v ∧
      Json.graph.MeetsQuery (defaultQueryLimits.maxDepth + 1) v ⟨0, 0, 0⟩ := fun ⟨_, _, h⟩ =>
    Json.noAccessors.not_meetsQuery h
  have hparse : parseWhere defaultQueryLimits Json.graph j = .ok w ↔ ∃ s', Runs (parseNode
      defaultQueryLimits Json.graph (defaultQueryLimits.maxDepth + 1) (some j) 0 [])
        ⟨0, 0, 0⟩ w s' :=
    ⟨fun h => ⟨_, Prod.ext h rfl⟩, fun ⟨_, h⟩ => (Prod.mk.inj h).1⟩
  rw [hparse, fits_iff]
  simp only [(parseNode_outcome (Nat.add_zero _) hstart).runs_iff passesQuery_oneWay hclear,
    PassesQuery, Option.some.injEq, exists_eq_left', Json.readsQuery_iff, exists_and_left]

end NewtonDB
