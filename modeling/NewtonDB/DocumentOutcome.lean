/-
# What the walk over a document does

The outcome of `visit` on any value (`visit_outcome`), and from it that of
`cloneAndFreezeJsonObject`.
-/

import NewtonDB.DocumentWalk

namespace NewtonDB

namespace JsGraph

variable {σ : Type} {graph : JsGraph σ} {limits : JsonLimits} {levels depth : ℕ} {value : σ}
  {s : VisitState σ} {path : PropertyPath}

/-- An array or an object. -/
def isContainer {σ : Type} : JsView σ → Bool
  | .array .. => true
  | .object .. => true
  | _ => false

/-- Nothing is below any other value. -/
theorem not_meets_of_view {view : JsView σ} (hview : graph.view value = view)
    (h : isContainer view = false) : ¬graph.Meets limits levels value s := by
  refine not_meets_scalar (fun slots extras hv => ?_) fun plain symbols slots hv => ?_
  · rw [← hview, hv] at h
    cases h
  · rw [← hview, hv] at h
    cases h

/-- Another value that is not plain data.  No array and no object has this view, and no
primitive, so every case of both relations is impossible. -/
theorem stops_of_view {view : JsView σ} (hview : graph.view value = view)
    (h : isContainer view = false) (hprim : view.prim? = none) :
    (∀ j s', ¬graph.Passes limits levels value s j s') ∧ ¬graph.Meets limits levels value s := by
  refine stops_of_scalar (fun slots extras hv => ?_) (fun plain symbols slots hv => ?_) (hview ▸ hprim)
  · rw [← hview, hv] at h
    cases h
  · rw [← hview, hv] at h
    cases h

/-- What is refused without being looked into. -/
theorem refused_outcome {view : JsView σ} (hview : graph.view value = view)
    (h : isContainer view = false) (hprim : view.prim? = none) {s' : VisitState σ}
    {code : JsonIssueCode} {message : JsString} :
    Outcome VisitState.getters (failJson code path message : VisitM σ Json) s'
      (graph.Passes limits levels value s) (graph.Meets limits levels value s) := by
  obtain ⟨hpass, hmeets⟩ := stops_of_view hview h hprim
  exact failJson_outcome hpass hmeets

/-- A plain value that the walk is inside of is not plain data. -/
theorem stops_of_mem (hbelow : graph.Below s.seen value) (h : value ∈ s.seen) :
    (∀ j s', ¬graph.Passes limits levels value s j s') ∧ ¬graph.Meets limits levels value s := by
  refine ⟨fun j s' hpass => hbelow.not_mem hpass.1 h, ?_⟩
  cases levels with
  | zero => exact id
  | succ levels => exact fun hm => hm.2.1 h

/-- An accessor element runs its getter, whatever comes after.  The count of getters only grows
in what follows, so it stays above what it was. -/
theorem accessor_outcome {α : Type} {outcome : Option σ} {k : Option σ → VisitM σ α}
    (hgrow : ∀ a, Grows VisitState.getters (k a)) {P : α → VisitState σ → Prop} {Q : Prop}
    (hQ : Q) : Outcome VisitState.getters (readSlot (.accessor outcome) >>= k) s P Q := by
  refine .counts ?_ hQ
  cases outcome with
  | none => exact Nat.lt_succ_self _
  | some v =>
      have hle := (hgrow (some v)).le { s with getters := s.getters + 1 }
      exact (Nat.lt_succ_self s.getters).trans_le hle

section

variable [DecidableEq σ]

/-- The walk with some levels left, so deep. -/
def VisitsTo (graph : JsGraph σ) (limits : JsonLimits) (levels depth : ℕ) : Prop :=
  ∀ {value : σ} {path : PropertyPath} {s : VisitState σ}, graph.Below s.seen value →
    Outcome VisitState.getters (visit graph limits levels value path depth) s
      (graph.Passes limits levels value s) (graph.Meets limits levels value s)

/-- A value and the bytes after it.  The bytes are those the loops add for a comma or for a
name. -/
theorem visit_add_outcome (hvisit : VisitsTo graph limits levels depth) (n : ℕ) {α : Type}
    (result : Json → α) (hbelow : graph.Below s.seen value) :
    Outcome VisitState.getters (do
      let item ← visit graph limits levels value path depth
      addBytes n
      return result item) s
      (fun a s' => ∃ j, graph.Denotes j value ∧ j.Fits limits levels s.nodes s.bytes ∧
        s' = s.add j.nodes (j.estimate + n) ∧ a = result j)
      (graph.Meets limits levels value s) := by
  have hadd : ∀ item s₁, graph.Passes limits levels value s item s₁ → Outcome VisitState.getters
      (addBytes n >>= fun _ => pure (result item)) s₁
      (fun a s₂ => s₂ = s₁.add 0 n ∧ a = result item) False :=
    fun item s₁ _ => .after rfl rfl (.returns _ _ rfl rfl ⟨rfl, rfl⟩ id)
  have hgrow : ∀ item, Grows VisitState.getters
      (addBytes n >>= fun _ => pure (result item) : VisitM σ α) :=
    fun item c => .bind (.update fun _ h => h) fun _ => .pure _
  refine ((hvisit hbelow).bind hgrow passes_oneWay hadd).congr (fun a s' => ?_) (by simp)
  constructor
  · rintro ⟨j, _, ⟨hj, hfits, rfl⟩, rfl, rfl⟩
    exact ⟨j, hj, hfits, s.add_add .., rfl⟩
  · rintro ⟨j, hj, hfits, rfl, rfl⟩
    exact ⟨j, _, ⟨hj, hfits, rfl⟩, (s.add_add j.nodes j.estimate 0 n).symm, rfl⟩

/-- To go on with an element, or to refuse a hole, runs no getter back.  Both ways a getter that
ran before has been counted for good. -/
theorem element_grows (item : Option σ) : Grows VisitState.getters (match item with
    | none => failJson .sparseArray path (js "Sparse arrays are not supported")
    | some item => do
        let item ← visit graph limits levels item path depth
        addBytes 1
        return item : VisitM σ Json) := by
  intro c
  cases item with
  | none => exact .anyFailure failJson_keeps
  | some item =>
      exact .bind (visit_grows _ _ _ _ c) fun _ => .bind (.update fun _ h => h) fun _ => .pure _

/-- The elements of an array.  By induction along the slots: a hole ends the loop, an accessor
runs its getter, and a data element is visited. -/
theorem slots_outcome (hvisit : VisitsTo graph limits levels (depth + 1))
    (hbelow : graph.Below s.seen value) {slots : List (Slot σ)} {extras : ArrayExtras σ}
    (hview : graph.view value = .array slots extras) :
    Outcome VisitState.getters (slots.zipIdx.mapM fun (slot, index) => do
      let path := path ++ [indexToken index]
      match ← readSlot slot with
      | none => failJson .sparseArray path (js "Sparse arrays are not supported")
      | some item =>
          let item ← visit graph limits levels item path (depth + 1)
          addBytes 1
          return item) (s.inside value)
      (PassesAll (graph.PassesSlot limits levels) slots (s.inside value))
      (MeetsAny (graph.PassesSlot limits levels) (MeetsSlot (graph.Meets limits levels)) slots
        (s.inside value)) := by
  refine Outcome.congr
    (P := PassesAll (fun x => graph.PassesSlot limits levels x.1) slots.zipIdx (s.inside value))
    (Q := MeetsAny (fun x => graph.PassesSlot limits levels x.1)
      (fun x => MeetsSlot (graph.Meets limits levels) x.1) slots.zipIdx (s.inside value))
    (.mapM (I := fun t => t.seen = value :: s.seen) ?_ (fun x : Slot σ × ℕ => passesSlot_oneWay x.1)
      ?_ ?_ _ rfl) (fun items s' => passesAll_zipIdx slots 0 _ items s') (meetsAny_zipIdx slots 0 _)
  · rintro ⟨slot, index⟩ c
    exact .bind (.anyFailure (readSlot_keeps (fun _ _ hle h => h.trans hle) slot)) fun item =>
      element_grows item c
  · rintro ⟨slot, index⟩ - t j t' ht ⟨v, -, -, -, rfl⟩
    exact ht
  · rintro ⟨slot, index⟩ hx t ht
    have hmem : slot ∈ slots := List.fst_mem_of_mem_zipIdx hx
    dsimp only
    cases slot with
    | hole =>
        refine .after (a := none) rfl rfl (failJson_outcome ?_ id)
        rintro j t' ⟨v, hv, -⟩
        cases hv
    | accessor outcome =>
        exact accessor_outcome element_grows trivial
    | data item =>
        have hchild : graph.Below t.seen item := by
          rw [ht]
          refine hbelow.child fun k hk => ?_
          obtain ⟨items, rfl, hitems⟩ := (denotes_array hview).1 hk
          obtain ⟨j, hj, hle⟩ := denotesItems_mem hitems hmem
          exact ⟨j, hj, Nat.lt_succ_of_le hle⟩
        refine .after (a := some item) rfl rfl
          ((visit_add_outcome hvisit 1 id hchild).congr (fun j t' => ?_) Iff.rfl)
        constructor
        · rintro ⟨_, hj, hfits, rfl, rfl⟩
          exact ⟨item, rfl, hj, hfits, rfl⟩
        · rintro ⟨v, hv, hj, hfits, rfl⟩
          obtain rfl := Slot.data.inj hv
          exact ⟨j, hj, hfits, rfl, rfl⟩

/-- The properties of an object.  By induction along the slots: an accessor and a name that is
too long end the loop without a getter. -/
theorem members_outcome (hvisit : VisitsTo graph limits levels (depth + 1))
    (hbelow : graph.Below s.seen value) {plain : Bool} {symbols : List (SymbolKey × Slot σ)}
    {slots : List (JsString × Slot σ)} (hview : graph.view value = .object plain symbols slots) :
    Outcome VisitState.getters (slots.mapM fun (key, slot) => do
      let path := path ++ [.name key]
      match slot with
      | .data item =>
          if limits.maxStringBytes < utf8Length key then
            failJson .stringSizeLimit path
              (js "Property name exceeds " ++ natText limits.maxStringBytes ++ js " bytes")
          let item ← visit graph limits levels item path (depth + 1)
          addBytes (utf8Length key + 3)
          return (key, item)
      | _ => failJson .accessor path (js "Accessors are not supported")) (s.inside value)
      (PassesAll (graph.PassesMember limits levels) slots (s.inside value))
      (MeetsAny (graph.PassesMember limits levels)
        (MeetsMember limits (graph.Meets limits levels)) slots (s.inside value)) := by
  refine .mapM (I := fun t => t.seen = value :: s.seen) ?_ passesMember_oneWay ?_ ?_ _ rfl
  · rintro ⟨key, slot⟩ c
    cases slot with
    | data item =>
        exact .check (.anyFailure failJson_keeps) fun _ => .bind (visit_grows _ _ _ _ c) fun _ =>
          .bind (.update fun _ h => h) fun _ => .pure _
    | accessor outcome => exact .anyFailure failJson_keeps
    | hole => exact .anyFailure failJson_keeps
  · rintro ⟨key, slot⟩ - t p t' ht ⟨v, -, -, -, -, rfl⟩
    exact ht
  · rintro ⟨key, slot⟩ hmem t ht
    dsimp only
    cases slot with
    | hole =>
        refine failJson_outcome ?_ ?_
        · rintro p t' ⟨v, hv, -⟩
          cases hv
        · rintro ⟨v, hv, -⟩
          cases hv
    | accessor outcome =>
        refine failJson_outcome ?_ ?_
        · rintro p t' ⟨v, hv, -⟩
          cases hv
        · rintro ⟨v, hv, -⟩
          cases hv
    | data item =>
        have hchild : graph.Below t.seen item := by
          rw [ht]
          refine hbelow.child fun k hk => ?_
          obtain ⟨-, -, props, rfl, hprops⟩ := (denotes_object hview).1 hk
          obtain ⟨j, hj, hle⟩ := denotesProps_mem hprops hmem
          exact ⟨j, hj, Nat.lt_succ_of_le hle⟩
        refine .check rfl (fun hlong => ⟨?_, ?_⟩) fun hshort => ?_
        · rintro p t' ⟨v, hv, -, hname, -⟩
          obtain ⟨rfl, -⟩ := Prod.mk.inj hv
          exact not_lt.2 hname hlong
        · rintro ⟨v, -, hname, -⟩
          exact not_lt.2 hname hlong
        refine (visit_add_outcome hvisit _ (fun j => (key, j)) hchild).congr (fun p t' => ?_) ?_
        · constructor
          · rintro ⟨j, hj, hfits, rfl, rfl⟩
            exact ⟨item, rfl, hj, not_lt.1 hshort, hfits, rfl⟩
          · rintro ⟨v, hv, hj, -, hfits, rfl⟩
            obtain ⟨rfl, hdata⟩ := Prod.mk.inj hv
            obtain rfl := Slot.data.inj hdata
            exact ⟨p.2, hj, hfits, rfl, rfl⟩
        · constructor
          · exact fun h => ⟨item, rfl, not_lt.1 hshort, h⟩
          · rintro ⟨v, hv, -, h⟩
            obtain rfl := Slot.data.inj hv
            exact h

/-- Leaving an array or an object after its loop.  The bytes are compared there, and the value
is taken off the ones that are entered. -/
theorem leave_outcome {β : Type} {m : VisitM σ β} {P : β → VisitState σ → Prop} {Q : Prop}
    (hloop : Outcome VisitState.getters m s P Q) (hone : OneWay P) (result : β → Json) :
    Outcome VisitState.getters (do
      let output ← m
      leaveObject limits value path
      return result output) s
      (fun j s' => ∃ output s₁, P output s₁ ∧ s₁.bytes ≤ limits.maxDocumentBytes ∧
        s' = { s₁ with seen := s₁.seen.erase value } ∧ j = result output) Q := by
  have hleave : ∀ output s₁, P output s₁ → Outcome VisitState.getters (do
      leaveObject limits value path
      return result output) s₁ (fun j s' => s₁.bytes ≤ limits.maxDocumentBytes ∧
        s' = { s₁ with seen := s₁.seen.erase value } ∧ j = result output) False := by
    intro output s₁ _
    refine leaveObject_outcome.step (fun hstop => ⟨?_, id⟩) ?_
    · exact fun j s' h => hstop () _ ⟨h.1, rfl⟩
    · rintro ⟨⟩ s' ⟨hbytes, rfl⟩
      exact .returns _ _ rfl rfl ⟨hbytes, rfl, rfl⟩ id
  have hgrow : ∀ output, Grows VisitState.getters (do
      leaveObject limits value path
      return result output) := fun output c =>
    .bind (.anyFailure (leaveObject_keeps fun _ _ hle h => h.trans hle)) fun _ => .pure _
  exact (hloop.bind hgrow hone hleave).congr (fun j s' => Iff.rfl) (by simp)

/-- The walk leaves an array or an object as it came to it, but for the counts. -/
theorem inside_add_erase (n b : ℕ) :
    { (s.inside value).add n b with seen := ((s.inside value).add n b).seen.erase value } =
      s.add (n + 1) b := by
  have herase : (value :: s.seen).erase value = s.seen := List.erase_cons_head ..
  simp only [VisitState.inside, VisitState.add, herase, VisitState.mk.injEq, and_true]
  omega

/-- An array is passed when its elements are.  The state in between is the one after the loop,
before the array is left. -/
theorem passes_array {slots : List (Slot σ)} {extras : ArrayExtras σ}
    (hview : graph.view value = .array slots extras) (hn : s.nodes + 1 ≤ limits.maxNodes)
    {j : Json} {s' : VisitState σ} :
    (∃ items s₁, PassesAll (graph.PassesSlot limits levels) slots (s.inside value) items s₁ ∧
      s₁.bytes ≤ limits.maxDocumentBytes ∧ s' = { s₁ with seen := s₁.seen.erase value } ∧
      j = .arr items) ↔ graph.Passes limits (levels + 1) value s j s' := by
  constructor
  · rintro ⟨items, _, hall, hbytes, rfl, rfl⟩
    obtain ⟨hitems, hfits, rfl⟩ := passesAll_slots.1 hall
    exact ⟨⟨slots, extras, hview, hitems⟩, Json.fits_arr_iff.2 ⟨hn, hfits, hbytes⟩, inside_add_erase ..⟩
  · rintro ⟨hj, hfits, rfl⟩
    obtain ⟨items, rfl, hitems⟩ := (denotes_array hview).1 hj
    obtain ⟨-, hitemsFit, hbytes⟩ := Json.fits_arr_iff.1 hfits
    exact ⟨items, _, passesAll_slots.2 ⟨hitems, hitemsFit, rfl⟩, hbytes,
      (inside_add_erase ..).symm, rfl⟩

/-- A plain object is passed when its properties are.  A foreign prototype or a symbol key is
refused before the loop, so the view is that of a plain one. -/
theorem passes_object {slots : List (JsString × Slot σ)}
    (hview : graph.view value = .object true [] slots) (hn : s.nodes + 1 ≤ limits.maxNodes)
    {j : Json} {s' : VisitState σ} :
    (∃ props s₁, PassesAll (graph.PassesMember limits levels) slots (s.inside value) props s₁ ∧
      s₁.bytes ≤ limits.maxDocumentBytes ∧ s' = { s₁ with seen := s₁.seen.erase value } ∧
      j = .obj props) ↔ graph.Passes limits (levels + 1) value s j s' := by
  constructor
  · rintro ⟨props, _, hall, hbytes, rfl, rfl⟩
    obtain ⟨hprops, hfits, rfl⟩ := passesAll_members.1 hall
    exact ⟨⟨slots, hview, hprops⟩, Json.fits_obj_iff.2 ⟨hn, hfits, hbytes⟩, inside_add_erase ..⟩
  · rintro ⟨hj, hfits, rfl⟩
    obtain ⟨-, -, props, rfl, hprops⟩ := (denotes_object hview).1 hj
    obtain ⟨-, hpropsFit, hbytes⟩ := Json.fits_obj_iff.1 hfits
    exact ⟨props, _, passesAll_members.2 ⟨hprops, hpropsFit, rfl⟩, hbytes,
      (inside_add_erase ..).symm, rfl⟩

/-- **The walk at any value.**  By induction on the levels.  A primitive passes; an array goes
through its elements, an object through its properties, each by the loop of the library. -/
theorem visit_outcome : ∀ {levels depth : ℕ}, levels + depth = limits.maxDepth + 1 →
    VisitsTo graph limits levels depth
  | 0, depth, hdepth, value, path, s, hbelow => by
      unfold visit
      refine enterValue_outcome.step (fun _ => ⟨?_, id⟩) ?_
      · exact fun j s' h => Nat.not_lt_zero _ h.2.1.height_lt
      · rintro ⟨⟩ s' ⟨-, hle, -⟩
        omega
  | levels + 1, depth, hdepth, value, path, s, hbelow => by
      have hvisit : VisitsTo graph limits levels (depth + 1) := visit_outcome (by omega)
      unfold visit
      refine enterValue_outcome.step (fun hstop => ?_) ?_
      · exact stops_of_nodes fun hn => hstop () _ ⟨hn, by omega, rfl⟩
      rintro ⟨⟩ _ ⟨hn, -, rfl⟩
      dsimp only
      split
      · next hview =>
          exact prim_outcome (p := .null) (by rw [hview]; rfl) hn trivial
            (not_meets_of_view hview rfl)
      · next b hview =>
          exact prim_outcome (p := .bool b) (by rw [hview]; rfl) hn trivial
            (not_meets_of_view hview rfl)
      · next x hview =>
          exact prim_outcome (p := .number x) (by rw [hview]; rfl) hn trivial
            (not_meets_of_view hview rfl)
      · next x hx hview =>
          have hprim : (JsView.number x : JsView σ).prim? = none := by
            cases x with
            | nan => rfl
            | infinity negative => rfl
            | finite y => exact (hx y rfl).elim
          exact refused_outcome hview rfl hprim
      · next t hview =>
          have hdenotes : graph.Denotes (.prim (.string t)) value := by
            rw [Denotes, hview]
            rfl
          refine .check rfl (fun hlong => ⟨?_, not_meets_of_view hview rfl⟩) fun hshort => ?_
          · rintro j s' ⟨hj, hfits, -⟩
            obtain rfl := denotes_unique hj hdenotes
            exact not_lt.2 hfits.strings hlong
          · exact prim_outcome (p := .string t) hdenotes hn (not_lt.1 hshort)
              (not_meets_of_view hview rfl)
      · next hview => exact refused_outcome hview rfl rfl
      · next type hview => exact refused_outcome hview rfl rfl
      · next slots extras hview =>
          refine enterObject_outcome.step (fun hstop => stops_of_mem hbelow ?_) ?_
          · by_contra hm
            exact hstop () _ ⟨hm, rfl⟩
          rintro ⟨⟩ _ ⟨hm, rfl⟩
          exact (leave_outcome (slots_outcome hvisit hbelow hview)
            (PassesAll.oneWay passesSlot_oneWay slots _) .arr).congr
            (fun j s' => passes_array hview hn) ⟨fun h => (meets_array hview).2 ⟨hn, hm, h⟩,
              fun h => ((meets_array hview).1 h).2.2⟩
      · next plain symbols slots hview =>
          refine enterObject_outcome.step (fun hstop => stops_of_mem hbelow ?_) ?_
          · by_contra hm
            exact hstop () _ ⟨hm, rfl⟩
          rintro ⟨⟩ _ ⟨hm, rfl⟩
          refine .check rfl (fun hplain => ⟨fun j s' h => ?_, fun h => ?_⟩) fun hplain => ?_
          · obtain ⟨rfl, -⟩ := (denotes_object hview).1 h.1
            cases hplain
          · obtain ⟨-, -, rfl, -⟩ := (meets_object hview).1 h
            cases hplain
          obtain rfl : plain = true := by simpa using hplain
          split
          · refine .halt rfl rfl (fun j s' h => ?_) fun h => ?_
            · obtain ⟨-, hsymbols, -⟩ := (denotes_object hview).1 h.1
              cases hsymbols
            · obtain ⟨-, -, -, hsymbols, -⟩ := (meets_object hview).1 h
              cases hsymbols
          · exact (leave_outcome (members_outcome hvisit hbelow hview)
              (PassesAll.oneWay passesMember_oneWay slots _) .obj).congr
              (fun j s' => passes_object hview hn) ⟨fun h => (meets_object hview).2
                ⟨hn, hm, rfl, rfl, h⟩, fun h => ((meets_object hview).1 h).2.2.2.2⟩

end

end JsGraph

end NewtonDB
