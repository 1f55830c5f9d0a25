/-
# Stable sorting

A stable sort of a list without repetitions puts `a` before `b` when `a` is the lesser
one, or when they are as great and `a` stood before `b`.  So two sorts of the same
elements agree when they order every two of them alike (`mergeSort_eq_iff`).
-/

import Mathlib.Data.List.Basic
import Mathlib.Data.List.Nodup
import Mathlib.Data.List.Perm.Basic

namespace NewtonDB

variable {α : Type*} {l l' : List α} {le le' : α → α → Bool} {a b : α}

/-! ### Two elements of a list -/

/-- Where a pair stands in order in a list with a head: in the tail, or with its first at the
head and its second in the tail. -/
theorem pair_sublist_cons {c : α} :
    [a, b].Sublist (c :: l) ↔ [a, b].Sublist l ∨ a = c ∧ b ∈ l := by
  rw [List.sublist_cons_iff]
  simp

/-- Two elements of a list without repetitions stand in one order.  Both orders at once would
put one of them into the list twice. -/
theorem eq_of_pair_sublist (hl : l.Nodup) (hab : [a, b].Sublist l) (hba : [b, a].Sublist l) :
    a = b := by
  induction l with
  | nil => cases hab
  | cons c l ih =>
      obtain ⟨hc, hl⟩ := List.nodup_cons.1 hl
      rcases pair_sublist_cons.1 hab with hab | ⟨hac, hb⟩
      · rcases pair_sublist_cons.1 hba with hba | ⟨hbc, -⟩
        · exact ih hl hab hba
        · exact absurd (hbc ▸ hab.subset (List.mem_cons_of_mem _ (List.mem_cons_self ..))) hc
      · rcases pair_sublist_cons.1 hba with hba | ⟨hbc, -⟩
        · exact absurd (hac ▸ hba.subset (List.mem_cons_of_mem _ (List.mem_cons_self ..))) hc
        · rw [hac, hbc]

/-- Two elements of a list stand in some order.  Whichever comes first is in front. -/
theorem pair_sublist_or (ha : a ∈ l) (hb : b ∈ l) (hne : a ≠ b) :
    [a, b].Sublist l ∨ [b, a].Sublist l := by
  induction l with
  | nil => cases ha
  | cons c l ih =>
      rw [pair_sublist_cons, pair_sublist_cons]
      rcases List.mem_cons.1 ha with hac | ha'
      · exact .inl (.inr ⟨hac, (List.mem_cons.1 hb).resolve_left fun e => hne (hac.trans e.symm)⟩)
      · rcases List.mem_cons.1 hb with hbc | hb'
        · exact .inr (.inr ⟨hbc, ha'⟩)
        · exact (ih ha' hb').imp .inl .inl

/-! ### The order of a stable sort -/

/-- `a` is put before `b`. -/
def SortedBefore (le : α → α → Bool) (l : List α) (a b : α) : Prop :=
  le a b ∧ (le b a → [a, b].Sublist l)

instance [DecidableEq α] (le : α → α → Bool) (l : List α) (a b : α) :
    Decidable (SortedBefore le l a b) := inferInstanceAs (Decidable (_ ∧ (_ → _)))

/-- A comparison of a sort: total and transitive, with ties. -/
structure IsComparison (le : α → α → Bool) : Prop where
  trans : ∀ a b c, le a b → le b c → le a c
  total : ∀ a b, le a b || le b a

/-- Of two elements one is put before the other. -/
theorem SortedBefore.antisymm (hl : l.Nodup) (hab : SortedBefore le l a b)
    (hba : SortedBefore le l b a) : a = b :=
  eq_of_pair_sublist hl (hab.2 hba.1) (hba.2 hab.1)

/-- **Elements are put in the order of the sort.**  The order of the sort is that of the
comparison, and for equal elements that of the list. -/
theorem pairwise_sortedBefore (hle : IsComparison le) (hl : l.Nodup) :
    (l.mergeSort le).Pairwise (SortedBefore le l) := by
  have hnodup : (l.mergeSort le).Nodup := (List.mergeSort_perm l le).nodup_iff.2 hl
  refine List.pairwise_iff_forall_sublist.2 fun {a b} hab => ?_
  have hle' : le a b := List.pairwise_iff_forall_sublist.1
    (List.pairwise_mergeSort hle.trans hle.total l) hab
  refine ⟨hle', fun hba => ?_⟩
  have hmem : ∀ c ∈ [a, b], c ∈ l := fun c hc =>
    (List.mergeSort_perm l le).mem_iff.1 (hab.subset hc)
  have hne : a ≠ b := by
    rintro rfl
    exact List.pairwise_iff_forall_sublist.1 hnodup hab rfl
  rcases pair_sublist_or (hmem a (by simp)) (hmem b (by simp)) hne with h | h
  · exact h
  · exact absurd (eq_of_pair_sublist hnodup hab
      (List.pair_sublist_mergeSort hle.trans hle.total hba h)) hne

/-- **Two sorts of the same elements agree** when they order every two of them alike.  So one
comparison may stand for the other where no two elements are told apart differently. -/
theorem mergeSort_eq_iff (hle : IsComparison le) (hle' : IsComparison le') (hl : l.Nodup)
    (hperm : l'.Perm l) : l.mergeSort le = l'.mergeSort le' ↔
      ∀ a ∈ l, ∀ b ∈ l, a ≠ b → (SortedBefore le l a b ↔ SortedBefore le' l' a b) := by
  have hl' : l'.Nodup := hperm.nodup_iff.2 hl
  have hsort := pairwise_sortedBefore hle hl
  have hsort' := pairwise_sortedBefore hle' hl'
  have hsame :=
    (List.mergeSort_perm l le).trans (hperm.symm.trans (List.mergeSort_perm l' le').symm)
  constructor
  · intro heq a ha b hb hne
    have hmem : ∀ c ∈ l, c ∈ l.mergeSort le := fun c => (List.mergeSort_perm l le).mem_iff.2
    rw [← heq] at hsort'
    rcases pair_sublist_or (hmem a ha) (hmem b hb) hne with h | h
    · exact iff_of_true (List.pairwise_iff_forall_sublist.1 hsort h)
        (List.pairwise_iff_forall_sublist.1 hsort' h)
    · exact iff_of_false
        (fun hab => hne (hab.antisymm hl (List.pairwise_iff_forall_sublist.1 hsort h)))
        (fun hab => hne (hab.antisymm hl' (List.pairwise_iff_forall_sublist.1 hsort' h)))
  · intro halike
    have hnodup : (l'.mergeSort le').Nodup := (List.mergeSort_perm l' le').nodup_iff.2 hl'
    have hmem : ∀ c ∈ l'.mergeSort le', c ∈ l := fun c hc =>
      hperm.mem_iff.1 ((List.mergeSort_perm l' le').mem_iff.1 hc)
    have hsort'' : (l'.mergeSort le').Pairwise (SortedBefore le l) :=
      (hsort'.and hnodup).imp_of_mem fun {a b} ha hb hab =>
        (halike a (hmem a ha) b (hmem b hb) hab.2).2 hab.1
    exact List.Perm.eq_of_pairwise (fun a b _ _ hab hba => hab.antisymm hl hba) hsort hsort'' hsame

end NewtonDB
