/-
# Values a caller can pass

Code that validates foreign input reads it by reflection: `typeof`,
`Array.isArray`, the prototype, the own property descriptors.  `JsView` is what
one such look at a value shows, and `JsGraph σ` a population `σ` of values with a
view of each, so that shared and cyclic values are just values whose views reach
themselves.  A slot is a data property, an accessor or, in an array, a hole.  An
array has its elements and, like any object, own properties of other names, symbol
keys and a prototype (`ArrayExtras`).

The values are primitives, arrays and objects.  Proxies are outside the model, and
so is calling a function that was found among the values.

The plain data of a frozen document is such a population too (`Json.graph`), and
so is a heap of objects (`Heap.graph`).
-/

import NewtonDB.Js.Json
import NewtonDB.Lib.OrderedMap
import Mathlib.Logic.Relation

namespace NewtonDB

/-- An own slot of an array or an object.  An accessor has the outcome of calling
its getter: a value, or an error.  That outcome is the same at every call, and the
getter does nothing else: it does not change the population and does not call the
engine. -/
inductive Slot (σ : Type*) where
  | data (value : σ)
  | accessor (outcome : Option σ)
  | hole

/-- A symbol that is a property key: one of the two that the methods of arrays look
up, or another one, which is known by its text. -/
inductive SymbolKey where
  | iterator
  | species
  | other (text : JsString)
  deriving DecidableEq

/-- `String(symbol)`. -/
def SymbolKey.text : SymbolKey → JsString
  | .iterator => js "Symbol(Symbol.iterator)"
  | .species => js "Symbol(Symbol.species)"
  | .other text => text

/-- What an array has beside its elements: whether its prototype is that of arrays,
the own properties under symbols, and those under other names than an index or
`length`.  A foreign prototype has none of the names that are looked up through it,
as `null` has none. -/
structure ArrayExtras (σ : Type*) where
  plain : Bool := true
  symbols : List (SymbolKey × Slot σ) := []
  named : List (JsString × Slot σ) := []

/-- **An array that is its elements**: no own property of another name and no symbol.
Nothing is asked of the prototype. -/
structure ArrayExtras.Bare {σ : Type*} (extras : ArrayExtras σ) : Prop where
  named : extras.named = []
  symbols : extras.symbols = []

/-- What reflection shows of a value.  Of what is `unsupported` (a bigint, a symbol, a
function) it is the `typeof`. -/
inductive JsView (σ : Type*) where
  | undefined
  | null
  | bool (value : Bool)
  | number (value : JsNumber)
  | string (value : JsString)
  | unsupported (type : JsString)
  | array (slots : List (Slot σ)) (extras : ArrayExtras σ)
  | object (plain : Bool) (symbols : List (SymbolKey × Slot σ)) (slots : List (JsString × Slot σ))

/-- A population of values. -/
structure JsGraph (σ : Type*) where
  view : σ → JsView σ

/-- The view of plain data. -/
def Json.view : Json → JsView Json
  | .prim .null => .null
  | .prim (.bool b) => .bool b
  | .prim (.number n) => .number (.finite n)
  | .prim (.string s) => .string s
  | .arr items => .array (items.map .data) {}
  | .obj props => .object true [] (props.map fun p => (p.1, .data p.2))

/-- Plain data as a population of values. -/
def Json.graph : JsGraph Json := ⟨Json.view⟩

/-- A value on a heap: a primitive, or a reference. -/
inductive JsValue where
  | undefined
  | null
  | bool (value : Bool)
  | number (value : JsNumber)
  | string (value : JsString)
  | unsupported (type : JsString)
  | ref (address : ℕ)
  deriving DecidableEq

/-- An object on a heap. -/
inductive HeapObject where
  | array (slots : List (Slot JsValue)) (extras : ArrayExtras JsValue := {})
  | object (plain : Bool) (symbols : List (SymbolKey × Slot JsValue))
      (slots : List (JsString × Slot JsValue))

/-- The objects a caller's values refer to. -/
structure Heap where
  object : ℕ → HeapObject

/-- The values of a heap as a population. -/
def Heap.graph (h : Heap) : JsGraph JsValue where
  view
    | .undefined => .undefined
    | .null => .null
    | .bool b => .bool b
    | .number n => .number n
    | .string s => .string s
    | .unsupported t => .unsupported t
    | .ref a =>
        match h.object a with
        | .array slots extras => .array slots extras
        | .object plain symbols slots => .object plain symbols slots

/-- A value passed by a caller, with the heap it lives on. -/
structure JsInput where
  heap : Heap
  value : JsValue

/-- A plain object with the given data properties, alone on its heap. -/
def JsInput.plain (props : List (JsString × JsValue)) : JsInput where
  heap := ⟨fun _ => .object true [] (props.map fun p => (p.1, .data p.2))⟩
  value := .ref 0

/-! ### What a value leads to -/

namespace JsGraph

variable {σ : Type*} (graph : JsGraph σ)

/-- A value holds another: as an element of an array, or as a property of an object. -/
inductive Holds : σ → σ → Prop
  | element {v w : σ} {slots : List (Slot σ)} {extras : ArrayExtras σ}
      (hview : graph.view v = .array slots extras) (hmem : .data w ∈ slots) : Holds v w
  | property {v w : σ} {plain : Bool} {symbols : List (SymbolKey × Slot σ)}
      {slots : List (JsString × Slot σ)} {name : JsString}
      (hview : graph.view v = .object plain symbols slots) (hmem : (name, .data w) ∈ slots) :
      Holds v w

/-- **Every array that a value leads to**, through elements and properties, has nothing
beside its elements but what is admitted. -/
def ArraysHave (admitted : ArrayExtras σ → Prop) (v : σ) : Prop :=
  ∀ a slots extras, Relation.ReflTransGen graph.Holds v a →
    graph.view a = .array slots extras → admitted extras

end JsGraph

end NewtonDB
