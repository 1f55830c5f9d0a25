/-
# Logs of edits

Lists under names, and a log of what happened to them: an element was appended, one was
replaced in place by another, or one was removed.  `replay` makes the edits of a log
again, and meets a mismatch where an edit is about an element that is not there.  A log
can be replayed when the edits of every name can be, on their own
(`replay_eq_some_iff`).

A list may be kept as keys in order with an element under each.  Where no element is
under two keys, the edits say in full what happened to such a list: `apply_append_keyed`,
`apply_replace_keyed`, `apply_remove_keyed`.
-/

import Mathlib.Data.List.Nodup
import Mathlib.Logic.Function.Basic

namespace NewtonDB

namespace EditLog

/-- What happened to a list. -/
inductive Edit (α : Type*) where
  | append (after : α)
  | replace (before after : α)
  | remove (before : α)

variable {ι α : Type*}

/-! ### Edits by name -/

section

variable [DecidableEq ι] {log : List (ι × Edit α)}

/-- The edits of one name. -/
def editsOf (i : ι) (log : List (ι × Edit α)) : List (Edit α) :=
  (log.filter (·.1 = i)).map Prod.snd

/-- The edits of one owner in two logs, one after the other. -/
theorem editsOf_append (i : ι) (log log' : List (ι × Edit α)) :
    editsOf i (log ++ log') = editsOf i log ++ editsOf i log' := by
  simp [editsOf]

/-- The edits of its owner in a log of one edit. -/
theorem editsOf_singleton_self (i : ι) (e : Edit α) : editsOf i [(i, e)] = [e] := by
  simp [editsOf]

/-- An edit of another owner does not count. -/
theorem editsOf_singleton_ne {i j : ι} (h : j ≠ i) (e : Edit α) : editsOf i [(j, e)] = [] := by
  simp [editsOf, h]

/-- A name the log is not about has no edits. -/
theorem editsOf_eq_nil {i : ι} (h : ∀ e ∈ log, e.1 ≠ i) : editsOf i log = [] := by
  rw [editsOf, List.map_eq_nil_iff, List.filter_eq_nil_iff]
  simpa using h

end

/-! ### Replaying -/

section

variable [DecidableEq α]

/-- The list after an edit, if the element it is about is there. -/
def Edit.apply (l : List α) : Edit α → Option (List α)
  | .append after => some (l ++ [after])
  | .replace before after => if before ∈ l then some (l.replace before after) else none
  | .remove before => if before ∈ l then some (l.erase before) else none

/-- The list after edits. -/
def run (edits : List (Edit α)) (l : List α) : Option (List α) := edits.foldlM Edit.apply l

variable [DecidableEq ι]

/-- The lists after an edit of one of them. -/
def step (r : ι → List α) (e : ι × Edit α) : Option (ι → List α) :=
  (e.2.apply (r e.1)).map (Function.update r e.1)

/-- **The lists after a log.** -/
def replay (log : List (ι × Edit α)) (r : ι → List α) : Option (ι → List α) := log.foldlM step r

variable {r s : ι → List α} {log log' : List (ι × Edit α)}

/-- To make edits again is to make the first and then the others. -/
theorem run_cons (e : Edit α) (edits : List (Edit α)) (l : List α) :
    run (e :: edits) l = (e.apply l).bind (run edits) := rfl

/-- **Logs compose**: to make two logs again is to make the one and then the other.  The first
must succeed, since an edit may name an element that is not there. -/
theorem run_append (edits edits' : List (Edit α)) (l : List α) :
    run (edits ++ edits') l = (run edits l).bind (run edits') := List.foldlM_append ..

/-- Edits, and one more. -/
theorem run_concat {edits : List (Edit α)} {e : Edit α} {l l' l'' : List α}
    (h : run edits l = some l') (he : e.apply l' = some l'') :
    run (edits ++ [e]) l = some l'' := by
  rw [run_append, h, Option.bind_some, run_cons, he]
  rfl

/-- One log after another. -/
theorem replay_append (h : replay log r = some s) :
    replay (log ++ log') r = replay log' s := by
  unfold replay at h ⊢
  rw [List.foldlM_append, h]
  rfl

/-- **A log is replayed name by name.**  Edits under different names do not see each other, so
that their order plays no part. -/
theorem replay_eq_some_iff : ∀ {log : List (ι × Edit α)} {r : ι → List α},
    replay log r = some s ↔ ∀ i, run (editsOf i log) (r i) = some (s i)
  | [], r => by
      show some r = some s ↔ ∀ i, some (r i) = some (s i)
      simp only [Option.some.injEq]
      exact funext_iff
  | e :: log, r => by
      have hstep : replay (e :: log) r = (step r e).bind (replay log) := rfl
      have hself : editsOf e.1 (e :: log) = e.2 :: editsOf e.1 log := by simp [editsOf]
      have hother : ∀ i, i ≠ e.1 → editsOf i (e :: log) = editsOf i log := fun i hi => by
        simp [editsOf, Ne.symm hi]
      rw [hstep]
      cases he : e.2.apply (r e.1) with
      | none =>
          refine iff_of_false (by simp [step, he]) fun h => ?_
          have hrun := h e.1
          rw [hself, run_cons, he] at hrun
          cases hrun
      | some l =>
          rw [step, he, Option.map_some, Option.bind_some, replay_eq_some_iff]
          refine forall_congr' fun i => ?_
          by_cases hi : i = e.1
          · subst hi
            rw [Function.update_self, hself, run_cons, he, Option.bind_some]
          · rw [Function.update_of_ne hi, hother i hi]

end

/-! ### Keys in order -/

section

variable {K : Type*} {order : List K} {content : K → Option α} {key : K}
  {before after : α}

/-- The content of a key of the order is in the list. -/
theorem mem_of_keyed (hkey : key ∈ order) (hbefore : content key = some before) :
    before ∈ order.filterMap content := List.mem_filterMap.2 ⟨key, hkey, hbefore⟩

variable [DecidableEq K]

/-- Where a key is not, its content does not matter. -/
theorem filterMap_update (h : key ∉ order) (value : Option α) :
    order.filterMap (Function.update content key value) = order.filterMap content :=
  List.filterMap_congr fun k hk => Function.update_of_ne (fun he : k = key => h (he ▸ hk)) ..

variable [DecidableEq α]

/-- A new element goes to the end. -/
theorem apply_append_keyed (h : key ∉ order) :
    (Edit.append after).apply (order.filterMap content) =
      some ((order ++ [key]).filterMap (Function.update content key (some after))) := by
  rw [Edit.apply, List.filterMap_append, filterMap_update h]
  simp

/-- **An update of one key replaces its content in the list**, if no other key of the order has
the same content. -/
theorem replace_filterMap : ∀ {order : List K}, order.Nodup → key ∈ order →
    content key = some before → (∀ k ∈ order, content k = some before → k = key) →
    (order.filterMap content).replace before after =
      order.filterMap (Function.update content key (some after))
  | k :: order, hnodup, hkey, hbefore, honce => by
      obtain ⟨hk, hnodup⟩ := List.nodup_cons.1 hnodup
      by_cases he : k = key
      · subst he
        rw [List.filterMap_cons_some hbefore, List.replace_cons_self,
          List.filterMap_cons_some (Function.update_self ..), filterMap_update hk]
      · have ih := replace_filterMap hnodup ((List.mem_cons.1 hkey).resolve_left (Ne.symm he))
          hbefore fun k' hk' => honce k' (List.mem_cons_of_mem _ hk')
        have hupdate : Function.update content key (some after) k = content k :=
          Function.update_of_ne he ..
        cases hc : content k with
        | none => rw [List.filterMap_cons_none hc, List.filterMap_cons_none (hupdate.trans hc), ih]
        | some other =>
            have hne : other ≠ before := fun heq =>
              he (honce k (List.mem_cons_self ..) (hc.trans (congrArg some heq)))
            rw [List.filterMap_cons_some hc, List.filterMap_cons_some (hupdate.trans hc),
              List.replace_cons, beq_false_of_ne (Ne.symm hne), ih]

/-- **A new version of an element stays where the old one was.**  The content of no other key is
equal to it, which is what makes the edit find the right one. -/
theorem apply_replace_keyed (hnodup : order.Nodup) (hkey : key ∈ order)
    (hbefore : content key = some before)
    (honce : ∀ k ∈ order, content k = some before → k = key) :
    (Edit.replace before after).apply (order.filterMap content) =
      some (order.filterMap (Function.update content key (some after))) := by
  rw [Edit.apply, if_pos (mem_of_keyed hkey hbefore),
    replace_filterMap hnodup hkey hbefore honce]

/-- **A removal of one key erases its content from the list**, if no other key of the order has
the same content. -/
theorem erase_filterMap [BEq K] [LawfulBEq K] : ∀ {order : List K}, order.Nodup → key ∈ order →
    content key = some before → (∀ k ∈ order, content k = some before → k = key) →
    (order.filterMap content).erase before =
      (order.erase key).filterMap (Function.update content key none)
  | k :: order, hnodup, hkey, hbefore, honce => by
      obtain ⟨hk, hnodup⟩ := List.nodup_cons.1 hnodup
      by_cases he : k = key
      · subst he
        rw [List.filterMap_cons_some hbefore, List.erase_cons_head, List.erase_cons_head,
          filterMap_update hk]
      · have ih := erase_filterMap hnodup ((List.mem_cons.1 hkey).resolve_left (Ne.symm he))
          hbefore fun k' hk' => honce k' (List.mem_cons_of_mem _ hk')
        have hupdate : Function.update content key none k = content k :=
          Function.update_of_ne he ..
        rw [List.erase_cons_tail (by simpa using he)]
        cases hc : content k with
        | none => rw [List.filterMap_cons_none hc, List.filterMap_cons_none (hupdate.trans hc), ih]
        | some other =>
            have hne : other ≠ before := fun heq =>
              he (honce k (List.mem_cons_self ..) (hc.trans (congrArg some heq)))
            rw [List.filterMap_cons_some hc, List.filterMap_cons_some (hupdate.trans hc),
              List.erase_cons_tail (by simpa using hne), ih]

/-- **A removed element is gone**, and its key with it.  The content of no other key is equal to
it, which is what makes the edit find the right one. -/
theorem apply_remove_keyed [BEq K] [LawfulBEq K] (hnodup : order.Nodup) (hkey : key ∈ order)
    (hbefore : content key = some before)
    (honce : ∀ k ∈ order, content k = some before → k = key) :
    (Edit.remove before).apply (order.filterMap content) =
      some ((order.erase key).filterMap (Function.update content key none)) := by
  rw [Edit.apply, if_pos (mem_of_keyed hkey hbefore), erase_filterMap hnodup hkey hbefore honce]

end

end EditLog

end NewtonDB
