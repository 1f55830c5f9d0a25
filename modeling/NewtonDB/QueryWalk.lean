/-
# Queries in a population of values

`graph.ReadsQuery w v` says that the parser of `src/query.ts` reads the value `v` as the
query `w`.  It is what `Where.Reads` says of JSON, with one difference: a hole in a list of
conditions or of members is read as well, as nothing (`none`).  Of the own properties that an
array has beside its elements it is only asked that none hides the methods the parser calls.

`graph.MeetsQuery` says that the parser comes to an accessor of an array, an element or one
that hides a method, and follows the parser: what it reads before that is read.
-/

import NewtonDB.Engine.Failures
import NewtonDB.Lib.Outcome
import NewtonDB.PlainData
import NewtonDB.QueryParsing

namespace NewtonDB

namespace JsGraph

section

variable {σ : Type} (graph : JsGraph σ)

/-! ### Methods of arrays -/

/-- A method of an array is the one of its prototype: no own property hides it. -/
structure Inherits (extras : ArrayExtras σ) (own : Option (Slot σ)) : Prop where
  unhidden : own = none
  plain : extras.plain = true

/-- An own property is an accessor, whose getter runs when it is looked up. -/
def IsGetter (own : Option (Slot σ)) : Prop := ∃ outcome, own = some (.accessor outcome)

/-- Symbols under which a constructor asks for a plain array. -/
def PlainSpecies (symbols : List (SymbolKey × Slot σ)) : Prop :=
  ∀ slot, Assoc.get? symbols .species = some slot →
    slot = .hole ∨ ∃ v, slot = .data v ∧ (graph.view v = .undefined ∨ graph.view v = .null)

/-- `map` makes a plain array of it: it has no own constructor, or one that asks for that. -/
def PlainConstructor (extras : ArrayExtras σ) : Prop :=
  ∀ slot, Assoc.get? extras.named (js "constructor") = some slot →
    slot = .hole ∨ ∃ v, slot = .data v ∧ (graph.view v = .undefined ∨
      ∃ symbols, (graph.view v).symbols? = some symbols ∧ graph.PlainSpecies symbols)

/-- Asking for the constructor comes to an accessor: the constructor, or its species. -/
def MeetsConstructor (extras : ArrayExtras σ) : Prop :=
  IsGetter (Assoc.get? extras.named (js "constructor")) ∨
    ∃ v symbols, Assoc.get? extras.named (js "constructor") = some (.data v) ∧
      (graph.view v).symbols? = some symbols ∧ IsGetter (Assoc.get? symbols .species)

/-- A list that the parser may map. -/
structure Mappable (extras : ArrayExtras σ) : Prop where
  map : Inherits extras (Assoc.get? extras.named (js "map"))
  kind : graph.PlainConstructor extras

/-- A list whose members the parser may check, count and spread. -/
structure Iterable (extras : ArrayExtras σ) : Prop where
  every : Inherits extras (Assoc.get? extras.named (js "every"))
  entries : Inherits extras (Assoc.get? extras.named (js "entries"))
  iterator : Inherits extras (Assoc.get? extras.symbols .iterator)

/-! ### Reading -/

/-- An array element is read as a token of a path. -/
def ReadsToken (slot : Slot σ) (token : PathToken) : Prop :=
  ∃ v, slot = .data v ∧ parsePathOf.tokenView (some (graph.view v)) = token.view

/-- An array element is read as a member of a list. -/
def ReadsMember (slot : Slot σ) : Option JsonPrimitive → Prop
  | none => slot = .hole
  | some p => ∃ v, slot = .data v ∧ (graph.view v).primitive? = some p

/-- A value is read as a path. -/
def ReadsPath (path : PropertyPath) (v : σ) : Prop :=
  ∃ slots extras, graph.view v = .array slots extras ∧
    Inherits extras (Assoc.get? extras.named (js "entries")) ∧
    List.Forall₂ graph.ReadsToken slots path

/-- A value is read as the operand of an operator. -/
def ReadsOperand (op : ComparisonOperator) : QueryValue → σ → Prop
  | .scalar p, v => op ≠ .in ∧ (graph.view v).primitive? = some p ∧
      readOperand op (.prim p) = some (.scalar p)
  | .set values, v => op = .in ∧ ∃ slots extras, graph.view v = .array slots extras ∧
      slots.length ≤ defaultQueryLimits.maxSetValues ∧ Iterable extras ∧
      List.Forall₂ graph.ReadsMember slots values

/-- Own properties of certain names only, with the operator among them. -/
structure IsNode (slots : List (JsString × Slot σ)) (op : JsString) : Prop where
  closed : ∀ name ∈ slots.map Prod.fst, name ∈ allowedKeys op
  operator : ∃ v, Assoc.get? slots (js "op") = some (.data v) ∧ graph.view v = .string op

/-- An object with an operator, and what its properties are. -/
def ReadsNode (op : JsString) (v : σ) (reads : List (JsString × Slot σ) → Prop) : Prop :=
  ∃ plain symbols slots, graph.view v = .object plain symbols slots ∧ graph.IsNode slots op ∧
    reads slots

mutual

/-- **The query that a value is read as.** -/
def ReadsQuery : Where → σ → Prop
  | .and conditions, v => graph.ReadsNode (js "and") v fun slots => ∃ list items extras,
      Assoc.get? slots (js "conditions") = some (.data list) ∧
        graph.view list = .array items extras ∧ items ≠ [] ∧ graph.Mappable extras ∧
        ReadsConditions conditions items
  | .or conditions, v => graph.ReadsNode (js "or") v fun slots => ∃ list items extras,
      Assoc.get? slots (js "conditions") = some (.data list) ∧
        graph.view list = .array items extras ∧ items ≠ [] ∧ graph.Mappable extras ∧
        ReadsConditions conditions items
  | .not condition, v => graph.ReadsNode (js "not") v fun slots => ∃ w,
      Assoc.get? slots (js "condition") = some (.data w) ∧ ReadsQuery condition w
  | .comparison op path value, v => graph.ReadsNode op.name v fun slots =>
      (∃ w, Assoc.get? slots (js "path") = some (.data w) ∧ graph.ReadsPath path w) ∧
        IsQueryPath path ∧
        ∃ w, Assoc.get? slots (js "value") = some (.data w) ∧ graph.ReadsOperand op value w

/-- The conditions that array elements are read as. -/
def ReadsConditions : List (Option Where) → List (Slot σ) → Prop
  | [], slots => slots = []
  | none :: conditions, slots => ∃ rest, slots = .hole :: rest ∧ ReadsConditions conditions rest
  | some condition :: conditions, slots => ∃ v rest, slots = .data v :: rest ∧
      ReadsQuery condition v ∧ ReadsConditions conditions rest

end

/-! ### Coming to an accessor -/

/-- The parser comes to an accessor in a path. -/
def MeetsPath (v : σ) : Prop :=
  ∃ slots extras, graph.view v = .array slots extras ∧ slots ≠ [] ∧
    slots.length ≤ defaultQueryLimits.maxPathTokens ∧
    (IsGetter (Assoc.get? extras.named (js "entries")) ∨
      Inherits extras (Assoc.get? extras.named (js "entries")) ∧
        ∃ before outcome after path, slots = before ++ .accessor outcome :: after ∧
          List.Forall₂ graph.ReadsToken before path ∧ (∀ token ∈ path, token.IsValid) ∧
          ∀ token ∈ path.head?, ∃ name, token = .name name)

/-- It comes to one in the list of an `in`: where the members are checked, and after that
where they are counted and where they are spread. -/
def MeetsSet (v : σ) (s : ParseState) : Prop :=
  ∃ slots extras, graph.view v = .array slots extras ∧
    slots.length ≤ defaultQueryLimits.maxSetValues ∧
    (IsGetter (Assoc.get? extras.named (js "every")) ∨
      Inherits extras (Assoc.get? extras.named (js "every")) ∧
        ((∃ before outcome after values, slots = before ++ .accessor outcome :: after ∧
            List.Forall₂ graph.ReadsMember before values) ∨
          ∃ values, List.Forall₂ graph.ReadsMember slots values ∧
            (IsGetter (Assoc.get? extras.named (js "entries")) ∨
              Inherits extras (Assoc.get? extras.named (js "entries")) ∧
                (∃ s', Spends s (QueryValue.set values).bytes s') ∧
                IsGetter (Assoc.get? extras.symbols .iterator))))

/-- It comes to one in a comparison: in the path, or in the list after the path. -/
def MeetsComparison (slots : List (JsString × Slot σ)) (op : JsString) (s : ParseState) : Prop :=
  ∃ o v, op = ComparisonOperator.name o ∧ Assoc.get? slots (js "path") = some (.data v) ∧
    (graph.MeetsPath v ∨ o = .in ∧ ∃ path s' list, graph.ReadsPath path v ∧ path.IsValid ∧
      Spends s (pathBytes path) s' ∧ Assoc.get? slots (js "value") = some (.data list) ∧
      graph.MeetsSet list s')

/-- It comes to one among the elements of a list of conditions: an accessor element, or below
an element. -/
def MeetsElement (meets : σ → ParseState → Prop) (levels : ℕ) (items : List (Slot σ))
    (s : ParseState) : Prop :=
  ∃ before slot after conditions s', items = before ++ slot :: after ∧
    graph.ReadsConditions conditions before ∧ Where.depthAll conditions ≤ levels ∧
    Charged s (Where.nodesAll conditions) (Where.comparisonsAll conditions) s' ∧
    ((∃ outcome, slot = .accessor outcome) ∨ ∃ v, slot = .data v ∧ meets v s')

/-- It comes to one in a list of conditions: where the method is looked up, where the
constructor is, or among the elements. -/
def MeetsConditions (meets : σ → ParseState → Prop) (levels : ℕ)
    (slots : List (JsString × Slot σ)) (s : ParseState) : Prop :=
  ∃ list items extras, Assoc.get? slots (js "conditions") = some (.data list) ∧
    graph.view list = .array items extras ∧ items ≠ [] ∧
    (IsGetter (Assoc.get? extras.named (js "map")) ∨
      Inherits extras (Assoc.get? extras.named (js "map")) ∧
        (graph.MeetsConstructor extras ∨
          graph.PlainConstructor extras ∧ graph.MeetsElement meets levels items s))

/-- **The parser comes to an accessor of an array**, with so many levels left. -/
def MeetsQuery : ℕ → σ → ParseState → Prop
  | 0, _, _ => False
  | levels + 1, v, s => s.nodes + 1 ≤ defaultQueryLimits.maxNodes ∧
      ∃ op, graph.ReadsNode op v fun slots =>
        if op = js "and" ∨ op = js "or" then
          graph.MeetsConditions (MeetsQuery levels) levels slots { s with nodes := s.nodes + 1 }
        else if op = js "not" then ∃ w, Assoc.get? slots (js "condition") = some (.data w) ∧
          MeetsQuery levels w { s with nodes := s.nodes + 1 }
        else graph.MeetsComparison slots op { s with nodes := s.nodes + 1 }

end

/-! ### One reading -/

variable {σ : Type} {graph : JsGraph σ} {v : σ}

/-- Tokens that look the same are the same.  A name looks like a string and an index like a
number. -/
theorem view_token_injective {t t' : PathToken} (h : t.view = t'.view) : t = t' := by
  cases t with
  | index n =>
      cases t' with
      | index n' => rw [TokenView.number.inj h]
      | name s => cases h
  | name s =>
      cases t' with
      | index n => cases h
      | name s' => rw [TokenView.string.inj h]

/-- An element is read as one token at most. -/
theorem readsToken_unique : Relator.RightUnique graph.ReadsToken := by
  intro slot t t' h h'
  obtain ⟨v, rfl, hv⟩ := h
  obtain ⟨w, hw, hw'⟩ := h'
  obtain rfl := Slot.data.inj hw
  exact view_token_injective (hv.symm.trans hw')

/-- An element is read as one member at most.  A hole is read as nothing, and a data element as
the primitive it holds. -/
theorem readsMember_unique : Relator.RightUnique graph.ReadsMember := by
  intro slot o o' h h'
  cases o with
  | none =>
      cases o' with
      | none => rfl
      | some p' =>
          obtain ⟨v, hv, -⟩ := h'
          cases h.symm.trans hv
  | some p =>
      obtain ⟨v, rfl, hv⟩ := h
      cases o' with
      | none => cases h'
      | some p' =>
          obtain ⟨w, hw, hw'⟩ := h'
          obtain rfl := Slot.data.inj hw
          exact hv.symm.trans hw'

/-- A value is read as one path at most. -/
theorem ReadsPath.unique {path path' : PropertyPath} (h : graph.ReadsPath path v)
    (h' : graph.ReadsPath path' v) : path = path' := by
  obtain ⟨slots, extras, hview, -, hpath⟩ := h
  obtain ⟨slots', extras', hview', -, hpath'⟩ := h'
  obtain ⟨rfl, -⟩ := JsView.array.inj (hview.symm.trans hview')
  exact readsToken_unique.forall₂ hpath hpath'

/-- A value is read as one operand at most.  Which kind of operand it is depends on the operator
alone. -/
theorem ReadsOperand.unique {op : ComparisonOperator} {value value' : QueryValue}
    (h : graph.ReadsOperand op value v) (h' : graph.ReadsOperand op value' v) : value = value' := by
  cases value with
  | scalar p =>
      cases value' with
      | scalar p' => rw [Option.some.inj (h.2.1.symm.trans h'.2.1)]
      | set values' => exact absurd h'.1 h.1
  | set values =>
      cases value' with
      | scalar p' => exact absurd h.1 h'.1
      | set values' =>
          obtain ⟨-, slots, extras, hview, -, -, hvalues⟩ := h
          obtain ⟨-, slots', extras', hview', -, -, hvalues'⟩ := h'
          obtain ⟨rfl, -⟩ := JsView.array.inj (hview.symm.trans hview')
          rw [readsMember_unique.forall₂ hvalues hvalues']

/-- An object has one operator, and one list of properties.  It is what the view of the value
shows. -/
theorem ReadsNode.congr {op op' : JsString} {reads reads' : List (JsString × Slot σ) → Prop}
    (h : graph.ReadsNode op v reads) (h' : graph.ReadsNode op' v reads') :
    op = op' ∧ ∃ slots, reads slots ∧ reads' slots := by
  obtain ⟨plain, symbols, slots, hview, hnode, hreads⟩ := h
  obtain ⟨plain', symbols', slots', hview', hnode', hreads'⟩ := h'
  obtain ⟨-, -, rfl⟩ := JsView.object.inj (hview.symm.trans hview')
  obtain ⟨w, hw, hop⟩ := hnode.operator
  obtain ⟨w', hw', hop'⟩ := hnode'.operator
  obtain rfl := Slot.data.inj (Option.some.inj (hw.symm.trans hw'))
  exact ⟨JsView.string.inj (hop.symm.trans hop'), slots, hreads, hreads'⟩

/-- Two data properties of one name. -/
theorem property_unique {slots : List (JsString × Slot σ)} {name : JsString} {v w : σ}
    (h : Assoc.get? slots name = some (.data v)) (h' : Assoc.get? slots name = some (.data w)) :
    v = w :=
  Slot.data.inj (Option.some.inj (h.symm.trans h'))

mutual

/-- **A value is read as one query.**  By induction on the query: the operator is read from the
object, and says what else is. -/
theorem readsQuery_unique : ∀ {w w' : Where} {v : σ}, graph.ReadsQuery w v →
    graph.ReadsQuery w' v → w = w'
  | .and conditions, .and conditions', _, h, h' => by
      obtain ⟨-, slots, ⟨list, items, extras, hlist, hview, -, -, hread⟩, list', items', extras',
        hlist', hview', -, -, hread'⟩ := h.congr h'
      obtain rfl := property_unique hlist hlist'
      obtain ⟨rfl, -⟩ := JsView.array.inj (hview.symm.trans hview')
      rw [readsConditions_unique hread hread']
  | .or conditions, .or conditions', _, h, h' => by
      obtain ⟨-, slots, ⟨list, items, extras, hlist, hview, -, -, hread⟩, list', items', extras',
        hlist', hview', -, -, hread'⟩ := h.congr h'
      obtain rfl := property_unique hlist hlist'
      obtain ⟨rfl, -⟩ := JsView.array.inj (hview.symm.trans hview')
      rw [readsConditions_unique hread hread']
  | .not condition, .not condition', _, h, h' => by
      obtain ⟨-, slots, ⟨w, hw, hread⟩, w', hw', hread'⟩ := h.congr h'
      obtain rfl := property_unique hw hw'
      rw [readsQuery_unique hread hread']
  | .comparison op path value, .comparison op' path' value', _, h, h' => by
      obtain ⟨hop, slots, ⟨⟨p, hp, hpath⟩, -, x, hx, hvalue⟩, ⟨p', hp', hpath'⟩, -, x', hx',
        hvalue'⟩ := h.congr h'
      have hname := comparisonOperator?_eq_some.2 hop
      obtain rfl := Option.some.inj ((comparisonOperator?_eq_some.2 rfl).symm.trans hname)
      obtain rfl := property_unique hp hp'
      obtain rfl := property_unique hx hx'
      rw [hpath.unique hpath', hvalue.unique hvalue']
  | .and _, .or _, _, h, h' => absurd (h.congr h').1 (by decide)
  | .and _, .not _, _, h, h' => absurd (h.congr h').1 (by decide)
  | .and _, .comparison op _ _, _, h, h' => absurd (h.congr h').1.symm (name_ne_boolean op).1
  | .or _, .and _, _, h, h' => absurd (h.congr h').1 (by decide)
  | .or _, .not _, _, h, h' => absurd (h.congr h').1 (by decide)
  | .or _, .comparison op _ _, _, h, h' => absurd (h.congr h').1.symm (name_ne_boolean op).2.1
  | .not _, .and _, _, h, h' => absurd (h.congr h').1 (by decide)
  | .not _, .or _, _, h, h' => absurd (h.congr h').1 (by decide)
  | .not _, .comparison op _ _, _, h, h' => absurd (h.congr h').1.symm (name_ne_boolean op).2.2
  | .comparison op _ _, .and _, _, h, h' => absurd (h.congr h').1 (name_ne_boolean op).1
  | .comparison op _ _, .or _, _, h, h' => absurd (h.congr h').1 (name_ne_boolean op).2.1
  | .comparison op _ _, .not _, _, h, h' => absurd (h.congr h').1 (name_ne_boolean op).2.2

/-- Elements are read as one list of conditions at most, by induction on them.  A hole and a
condition exclude each other at every place. -/
theorem readsConditions_unique : ∀ {conditions conditions' : List (Option Where)}
    {slots : List (Slot σ)}, graph.ReadsConditions conditions slots →
    graph.ReadsConditions conditions' slots → conditions = conditions'
  | [], [], _, _, _ => rfl
  | [], none :: _, _, h, ⟨_, h', _⟩ => by cases h.symm.trans h'
  | [], some _ :: _, _, h, ⟨_, _, h', _⟩ => by cases h.symm.trans h'
  | none :: _, [], _, ⟨_, h, _⟩, h' => by cases h.symm.trans h'
  | some _ :: _, [], _, ⟨_, _, h, _⟩, h' => by cases h.symm.trans h'
  | none :: _, some _ :: _, _, ⟨_, h, _⟩, ⟨_, _, h', _⟩ => by cases h.symm.trans h'
  | some _ :: _, none :: _, _, ⟨_, _, h, _⟩, ⟨_, h', _⟩ => by cases h.symm.trans h'
  | none :: conditions, none :: conditions', _, ⟨rest, h, hread⟩, ⟨rest', h', hread'⟩ => by
      obtain rfl := (List.cons.inj (h.symm.trans h')).2
      rw [readsConditions_unique hread hread']
  | some c :: conditions, some c' :: conditions', _, ⟨v, rest, h, hc, hread⟩,
      ⟨v', rest', h', hc', hread'⟩ => by
      obtain ⟨hslot, rfl⟩ := List.cons.inj (h.symm.trans h')
      obtain rfl := Slot.data.inj hslot
      rw [readsQuery_unique hc hc', readsConditions_unique hread hread']

end

end JsGraph

end NewtonDB
