/-
# The order of query results

`compareJson` orders the values a path can lead to: booleans, numbers, strings,
objects, `null`, nothing.  Written as a chain of comparisons (`compareJson_eq`) it is
a total preorder, and so is the comparison of documents.  The positions that
`sortDocuments` pairs documents with make its sort a stable one
(`sortDocuments_eq`).
-/

import NewtonDB.Engine.Query
import NewtonDB.Js.NumberOrder
import Mathlib.Order.Compare

namespace NewtonDB

open Std (TransCmp OrientedCmp)

/-! ### Values -/

/-- The class of a value: types in the order of `typeOrder`, then `null`, then
nothing. -/
def sortClass : Option Json → ℕ
  | none => 5
  | some (.prim .null) => 4
  | some j => j.typeOrder

/-- The boolean a value is. -/
def boolOf : Option Json → Bool
  | some (.prim (.bool b)) => b
  | _ => false

/-- The number a value is. -/
def numberOf : Option Json → ℚ
  | some (.prim (.number n)) => n.value
  | _ => 0

/-- The string a value is. -/
def stringOf : Option Json → JsString
  | some (.prim (.string s)) => s
  | _ => []

/-- The comparison of strings. -/
def compareUnits (a b : JsString) : Ordering := compareOfLessAndEq a b

instance : TransCmp compareUnits :=
  TransCmp.compareOfLessAndEq_of_irrefl_of_trans_of_antisymm List.lt_irrefl List.lt_trans
    fun h h' => List.le_antisymm h' h

/-- A comparison of images is a total preorder. -/
theorem transCmp_on {α β : Type*} (cmp : β → β → Ordering) [TransCmp cmp] (f : α → β) :
    TransCmp fun a b => cmp (f a) (f b) where
  eq_swap := OrientedCmp.eq_swap
  isLE_trans := TransCmp.isLE_trans

/-- **`compareJson` compares classes, then booleans, numbers and strings.**  So it inherits what
each of the four comparisons is: total, and transitive. -/
theorem compareJson_eq (left right : Option Json) : compareJson left right =
    compareLex (compareOn sortClass) (compareLex (compareOn boolOf) (compareLex (compareOn numberOf)
      fun a b => compareUnits (stringOf a) (stringOf b))) left right := by
  have hnumber : ∀ a b : FiniteNumber, (if a.same b then .eq
      else if a.lt b then .lt else if b.lt a then .gt else .eq) = compare a.value b.value := by
    intro a b
    simp only [FiniteNumber.same_iff, FiniteNumber.lt_iff]
    rcases lt_trichotomy a.value b.value with h | h | h
    · rw [if_neg h.ne, if_pos h, compare_lt_iff_lt.2 h]
    · rw [if_pos h, compare_eq_iff_eq.2 h]
    · rw [if_neg h.ne', if_neg h.not_gt, if_pos h, compare_gt_iff_gt.2 h]
  have hstring : ∀ a b : JsString, (if a = b then .eq else if a < b then .lt else .gt) =
      compareUnits a b := by
    intro a b
    unfold compareUnits compareOfLessAndEq
    by_cases h : a = b
    · subst h
      rw [if_pos rfl, if_neg (List.lt_irrefl a), if_pos rfl]
    · rw [if_neg h]
      split_ifs <;> rfl
  have hself : compareUnits [] [] = .eq := rfl
  rcases left with _ | (_ | a | a | a) | a | a <;> rcases right with _ | (_ | b | b | b) | b | b
  all_goals simp only [compareJson, identical, compareLex, compareOn, sortClass, boolOf, numberOf,
    stringOf, Json.typeOrder, JsonPrimitive.same, hself, ← hnumber, ← hstring]
  any_goals rfl
  · cases a <;> cases b <;> rfl
  · have hone : ∀ c : Ordering, c = (compare 1 1).then ((compare false false).then (c.then .eq)) :=
      fun c => by cases c <;> rfl
    exact hone _
  · have htwo : ∀ c : Ordering, c =
        (compare 2 2).then ((compare false false).then ((compare (0 : ℚ) 0).then c)) :=
      fun c => rfl
    simp only [beq_iff_eq]
    exact htwo _

instance : TransCmp compareJson := by
  have hstring := transCmp_on compareUnits stringOf
  have hchain : TransCmp (compareLex (compareOn sortClass) (compareLex (compareOn boolOf)
      (compareLex (compareOn numberOf) fun a b => compareUnits (stringOf a) (stringOf b)))) :=
    inferInstance
  have heq : compareJson = _ := funext fun left => funext fun right => compareJson_eq left right
  rw [heq]
  exact hchain

/-- Values that compare as equal are of one class, and of one number or string.  The comparison
is the lexicographic one of these three. -/
theorem of_compareJson_eq {left right : Option Json} (h : compareJson left right = .eq) :
    sortClass left = sortClass right ∧ numberOf left = numberOf right ∧
      stringOf left = stringOf right := by
  rw [compareJson_eq] at h
  simp only [compareLex, compareOn, Ordering.then_eq_eq, compare_eq_iff_eq] at h
  obtain ⟨hclass, -, hnumber, hstring⟩ := h
  refine ⟨hclass, hnumber, ?_⟩
  unfold compareUnits compareOfLessAndEq at hstring
  split_ifs at hstring with _ heq
  exact heq

/-! ### Documents -/

/-- A direction keeps a total preorder.  Descending swaps the two sides, and that keeps a
comparison transitive. -/
theorem transCmp_apply {α : Type*} (cmp : α → α → Ordering) [TransCmp cmp]
    (direction : SortDirection) : TransCmp fun a b => direction.apply (cmp a b) := by
  cases direction with
  | asc => exact inferInstanceAs (TransCmp cmp)
  | desc =>
      have hswap : (fun a b => SortDirection.desc.apply (cmp a b)) = fun a b => cmp b a :=
        funext fun a => funext fun b =>
          (show cmp b a = (cmp a b).swap from OrientedCmp.eq_swap).symm
      rw [hswap]
      exact TransCmp.opposite

/-- **The comparison of documents is a total preorder.** -/
instance transCmp_compareDocuments (schema : CollectionSchema) (order : List OrderField) :
    TransCmp (compareDocuments schema order) := by
  induction order with
  | nil => exact transCmp_on compareJson (sortKey schema)
  | cons field order ih =>
      have hfield := transCmp_on compareJson fun d : JsonObject => readPath field.path (.obj d)
      have hdirected := transCmp_apply (fun a b : JsonObject => compareJson
        (readPath field.path (.obj a)) (readPath field.path (.obj b))) field.direction
      exact inferInstanceAs (TransCmp (compareLex (fun a b : JsonObject => field.direction.apply
        (compareJson (readPath field.path (.obj a)) (readPath field.path (.obj b))))
        (compareDocuments schema order)))

/-- Documents that compare as equal have equal keys. -/
theorem sortKey_of_compare_eq {schema : CollectionSchema} {order : List OrderField}
    {a b : JsonObject} (h : compareDocuments schema order a b = .eq) :
    compareJson (sortKey schema a) (sortKey schema b) = .eq := by
  induction order with
  | nil => exact h
  | cons field order ih => exact ih (Ordering.then_eq_eq.1 h).2

/-- **The positions only say that the sort is stable.**  The positions decide between elements
that compare as equal, and a stable sort does so too. -/
theorem sortDocuments_eq (schema : CollectionSchema) (order : List OrderField)
    (documents : List JsonObject) : sortDocuments schema order documents =
      documents.mergeSort fun a b => (compareDocuments schema order a b).isLE := by
  have hle : (fun left right : JsonObject × ℕ => ((compareDocuments schema order left.1
      right.1).then (compare left.2 right.2)).isLE) =
      List.zipIdxLE fun a b => (compareDocuments schema order a b).isLE := by
    funext left right
    have hswap : compareDocuments schema order right.1 left.1 =
        (compareDocuments schema order left.1 right.1).swap := OrientedCmp.eq_swap
    rw [List.zipIdxLE, hswap]
    cases compareDocuments schema order left.1 right.1 with
    | lt | gt => rfl
    | eq => exact (Bool.eq_iff_iff.2 (Nat.isLE_compare.trans decide_eq_true_iff.symm))
  rw [sortDocuments, hle, List.mergeSort_zipIdx]

/-- **Sorted documents** are in the order of the comparison.  It is total, so that a sort by it
puts every two of them in order. -/
theorem pairwise_sortDocuments (schema : CollectionSchema) (order : List OrderField)
    (documents : List JsonObject) : (sortDocuments schema order documents).Pairwise
      fun a b => (compareDocuments schema order a b).isLE := by
  rw [sortDocuments_eq]
  refine List.pairwise_mergeSort (fun a b d => ?_) (fun a b => ?_) documents
  · exact TransCmp.isLE_trans
  rw [show compareDocuments schema order b a = (compareDocuments schema order a b).swap from
    OrientedCmp.eq_swap]
  cases compareDocuments schema order a b <;> rfl

/-- They are the documents given. -/
theorem sortDocuments_perm (schema : CollectionSchema) (order : List OrderField)
    (documents : List JsonObject) : (sortDocuments schema order documents).Perm documents := by
  rw [sortDocuments_eq]
  exact List.mergeSort_perm ..

end NewtonDB
