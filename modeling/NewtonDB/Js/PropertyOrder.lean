/-
# The order of own property keys

Array indices come first and ascend, the other names follow in the order they were
defined.  Whatever properties are defined in whatever order, the result is as the
language keeps it (`isPropertyList_foldl`).
-/

import NewtonDB.Js.JsonData

namespace NewtonDB

/-- The order of two own property keys, where it is fixed. -/
def keyBefore (a b : JsString) : Bool :=
  match arrayIndex? a, arrayIndex? b with
  | some m, some n => m < n
  | none, some _ => false
  | _, none => true

/-- Property names as the language keeps them. -/
structure PropertyOrder (names : List JsString) : Prop where
  nodup : names.Nodup
  sorted : names.Pairwise fun a b => keyBefore a b

/-- An array index is written in one way. -/
theorem natText_of_arrayIndex? {name : JsString} {n : ℕ} (h : arrayIndex? name = some n) :
    natText n = name := by
  unfold arrayIndex? at h
  dsimp only at h
  split_ifs at h with hc
  obtain rfl := Option.some.inj h
  exact hc.1

/-- A name comes before an index when it is a smaller index. -/
theorem isSmallerIndex_iff {n : ℕ} {name : JsString} :
    isSmallerIndex n name ↔ ∃ m, arrayIndex? name = some m ∧ m < n := by
  unfold isSmallerIndex
  cases arrayIndex? name <;> simp

/-- A name before an array index is a smaller one. -/
theorem isSmallerIndex_of_keyBefore {a b : JsString} {n : ℕ} (hb : arrayIndex? b = some n)
    (h : keyBefore a b) : isSmallerIndex n a := by
  unfold keyBefore at h
  rw [hb] at h
  cases ha : arrayIndex? a with
  | none => rw [ha] at h; cases h
  | some m => rw [ha] at h; exact isSmallerIndex_iff.2 ⟨m, ha, of_decide_eq_true h⟩

/-- **The place of an array index**: behind the smaller ones, before everything else.  This is
what `insertProperty` relies on when it looks for the place. -/
theorem keyBefore_of_not_smaller {name a b : JsString} {n : ℕ} (hname : arrayIndex? name = some n)
    (ha : isSmallerIndex n a = false) (hab : a = b ∨ keyBefore a b) (hb : b ≠ name) :
    keyBefore name b := by
  unfold keyBefore
  rw [hname]
  cases hm : arrayIndex? b with
  | none => rfl
  | some m =>
      -- the first name that is no smaller index is an index of at least `n`
      have hle : n ≤ m := by
        by_contra hlt
        refine Bool.false_ne_true (ha.symm.trans ?_)
        rcases hab with rfl | hab
        · exact isSmallerIndex_iff.2 ⟨m, hm, not_le.1 hlt⟩
        · obtain ⟨k, hk, hkm⟩ := isSmallerIndex_iff.1 (isSmallerIndex_of_keyBefore hm hab)
          exact isSmallerIndex_iff.2 ⟨k, hk, hkm.trans (not_le.1 hlt)⟩
      refine decide_eq_true (lt_of_le_of_ne hle fun e => hb (by
      rw [← natText_of_arrayIndex? hm, ← e, natText_of_arrayIndex? hname]))

variable {α : Type*}

/-- **A defined property takes its place.**  A name that is there keeps it; an index goes among
the indexes, any other name to the end. -/
theorem PropertyOrder.defineProperty {props : List (JsString × α)}
    (h : PropertyOrder (props.map Prod.fst)) (name : JsString) (value : α) :
    PropertyOrder ((defineProperty props name value).map Prod.fst) := by
  refine ⟨Json.nodup_defineProperty h.nodup name value, ?_⟩
  unfold NewtonDB.defineProperty
  split_ifs with hm
  · rw [Assoc.keys_set, if_pos hm]
    exact h.sorted
  unfold insertProperty
  split
  · next hnone =>
      rw [List.map_append]
      refine List.pairwise_append.2 ⟨h.sorted, List.pairwise_singleton _ _, fun a _ b hb => ?_⟩
      obtain rfl := List.mem_singleton.1 hb
      unfold keyBefore
      rw [hnone]
      cases arrayIndex? a <;> rfl
  · next n hn =>
      have hsplit := List.takeWhile_append_dropWhile (p := (isSmallerIndex n ·.1)) (l := props)
      have hsorted := h.sorted
      rw [← hsplit, List.map_append, List.pairwise_append] at hsorted
      obtain ⟨hbefore, hafter, hcross⟩ := hsorted
      have hsmaller : ∀ a ∈ (props.takeWhile (isSmallerIndex n ·.1)).map Prod.fst,
          isSmallerIndex n a := by
        intro a ha
        obtain ⟨p, hp, rfl⟩ := List.mem_map.1 ha
        exact List.mem_takeWhile_imp (p := fun q : JsString × α => isSmallerIndex n q.1) hp
      have hplace : ∀ b ∈ (props.dropWhile (isSmallerIndex n ·.1)).map Prod.fst,
          keyBefore name b := by
        intro b hb
        have hne : b ≠ name := by
          rintro rfl
          exact hm (List.map_subset _ (List.dropWhile_subset _) hb)
        cases hd : props.dropWhile (isSmallerIndex n ·.1) with
        | nil => rw [hd] at hb; cases hb
        | cons p rest =>
            have hp : isSmallerIndex n p.1 = false := by
              have hne : props.dropWhile (isSmallerIndex n ·.1) ≠ [] := by
                rw [hd]
                exact List.cons_ne_nil _ _
              have hhead := List.head_dropWhile_not (fun q : JsString × α => isSmallerIndex n q.1) hne
              simpa only [hd, List.head_cons] using hhead
            rw [hd, List.map_cons] at hb hafter
            refine keyBefore_of_not_smaller hn hp ?_ hne
            exact (List.mem_cons.1 hb).imp Eq.symm fun hb => (List.pairwise_cons.1 hafter).1 b hb
      rw [List.map_append, List.map_cons]
      refine List.pairwise_append.2 ⟨hbefore, List.pairwise_cons.2 ⟨hplace, hafter⟩,
        fun a ha b hb => ?_⟩
      rcases List.mem_cons.1 hb with rfl | hb
      · obtain ⟨m, hma, hmn⟩ := isSmallerIndex_iff.1 (hsmaller a ha)
        unfold keyBefore
        rw [hma, hn]
        exact decide_eq_true hmn
      · exact hcross a ha b hb

/-- A property behind all others is defined at the end.  Array indices come first in the order,
by size, and other names as they were defined. -/
theorem defineProperty_last {props : List (JsString × α)} {p : JsString × α}
    (h : PropertyOrder ((props ++ [p]).map Prod.fst)) :
    defineProperty props p.1 p.2 = props ++ [p] := by
  have hnodup := h.nodup
  have hsorted := h.sorted
  rw [List.map_append, List.map_singleton] at hnodup hsorted
  have hnot : p.1 ∉ props.map Prod.fst := fun hm =>
    (List.nodup_append.1 hnodup).2.2 p.1 hm p.1 (List.mem_singleton_self _) rfl
  have hlast : ∀ q ∈ props, keyBefore q.1 p.1 := fun q hq =>
    (List.pairwise_append.1 hsorted).2.2 q.1 (List.mem_map_of_mem hq) p.1
      (List.mem_singleton_self _)
  rw [defineProperty, if_neg hnot, insertProperty]
  split
  · rfl
  · next n hn =>
      have hall : ∀ q ∈ props, isSmallerIndex n q.1 :=
        fun q hq => isSmallerIndex_of_keyBefore hn (hlast q hq)
      rw [List.takeWhile_eq_self_iff.2 hall, List.dropWhile_eq_nil_iff.2 hall]

/-- **Properties in order are as they were defined.**  By induction from the end: each goes
behind those before it. -/
theorem foldl_defineProperty_of_order {props : List (JsString × α)}
    (h : PropertyOrder (props.map Prod.fst)) :
    props.foldl (fun output p => defineProperty output p.1 p.2) [] = props := by
  induction props using List.reverseRecOn with
  | nil => rfl
  | append_singleton props p ih =>
      have hprops : PropertyOrder (props.map Prod.fst) := by
        have hsub : (props.map Prod.fst).Sublist ((props ++ [p]).map Prod.fst) :=
          (List.sublist_append_left props [p]).map _
        exact ⟨h.nodup.sublist hsub, h.sorted.sublist hsub⟩
      rw [List.foldl_append, ih hprops]
      exact defineProperty_last h

/-- Defining properties keeps the order. -/
theorem PropertyOrder.foldl {β : Type*} (name : β → JsString) (value : β → α) :
    ∀ {l : List β} {props : List (JsString × α)}, PropertyOrder (props.map Prod.fst) →
      PropertyOrder ((l.foldl (fun output b => NewtonDB.defineProperty output (name b) (value b))
        props).map Prod.fst)
  | [], _, h => h
  | b :: l, _, h => PropertyOrder.foldl name value (l := l) (h.defineProperty (name b) (value b))

/-- **What is defined is a property list.**  So an object of the model is one the language can
have. -/
theorem isPropertyList_of_order [DecidableEq α] {props : List (JsString × α)}
    (h : PropertyOrder (props.map Prod.fst)) : isPropertyList props :=
  decide_eq_true (foldl_defineProperty_of_order h)

/-! ### Values -/

/-- What is defined under a name, when every name is defined once.  By induction on what is
defined; a later definition of another name is not seen. -/
theorem get?_foldl_defineProperty (name : JsString) :
    ∀ {l props : List (JsString × α)}, (l.map Prod.fst).Nodup →
      Assoc.get? (l.foldl (fun output p => defineProperty output p.1 p.2) props) name =
        (Assoc.get? l name).or (Assoc.get? props name)
  | [], props, _ => rfl
  | p :: l, props, h => by
      obtain ⟨hnot, hl⟩ := List.nodup_cons.1 ((List.map_cons ..) ▸ h)
      rw [List.foldl_cons, get?_foldl_defineProperty name hl, get?_defineProperty, Assoc.get?]
      split_ifs with he
      · subst he
        rw [Assoc.get?_eq_none_iff.2 hnot]
        rfl
      · rfl

section

variable {β : Type*} (f : α → β)

/-- To change every value changes what is found under a name.  The names are as they were. -/
theorem get?_map (props : List (JsString × α)) (name : JsString) :
    Assoc.get? (props.map (Prod.map id f)) name = (Assoc.get? props name).map f := by
  induction props with
  | nil => rfl
  | cons p props ih =>
      rw [List.map_cons, Assoc.get?, Assoc.get?, ih]
      show (if p.1 = name then _ else _) = _
      split_ifs <;> rfl

/-- To change every value and to set one may change places.  The place of the property is the
same before and after. -/
theorem map_set (props : List (JsString × α)) (name : JsString) (value : α) :
    (Assoc.set props name value).map (Prod.map id f) =
      Assoc.set (props.map (Prod.map id f)) name (f value) := by
  induction props with
  | nil => rfl
  | cons p props ih =>
      rw [List.map_cons, Assoc.set, Assoc.set]
      show _ = if p.1 = name then _ else _
      split_ifs
      · rfl
      · rw [List.map_cons, ih]

/-- A property with an image of the value.  Its place depends on the names only. -/
theorem map_defineProperty (props : List (JsString × α)) (name : JsString) (value : α) :
    (defineProperty props name value).map (Prod.map id f) =
      defineProperty (props.map (Prod.map id f)) name (f value) := by
  have hnames : (props.map (Prod.map id f)).map Prod.fst = props.map Prod.fst := by
    rw [List.map_map]
    rfl
  unfold defineProperty
  rw [hnames]
  split_ifs
  · exact map_set f props name value
  · unfold insertProperty
    cases arrayIndex? name with
    | none => simp
    | some n =>
        have hfun : ((isSmallerIndex n ·.1) ∘ Prod.map id f : JsString × α → Bool) =
          (isSmallerIndex n ·.1) := rfl
        simp only [List.map_append, List.map_cons, List.takeWhile_map, List.dropWhile_map, hfun,
          Prod.map_apply, id]

/-- **Images are defined as the values are.**  By induction on the list, since places depend on
names only. -/
theorem map_foldl_defineProperty : ∀ l props : List (JsString × α),
    (l.foldl (fun output p => defineProperty output p.1 p.2) props).map (Prod.map id f) =
      (l.map (Prod.map id f)).foldl (fun output p => defineProperty output p.1 p.2)
        (props.map (Prod.map id f))
  | [], _ => rfl
  | p :: l, props => by
      rw [List.foldl_cons, map_foldl_defineProperty l, map_defineProperty, List.map_cons,
        List.foldl_cons]
      rfl

end

end NewtonDB
