/-
# The tree a value is read as

`cloneAndFreezeJsonObject` counts what it visits and remembers what it is inside of.
`graph.tree? levels v` reads a value without any of that: an object is its data properties,
an array what is found at its places.  **The call returns a document exactly when the value
is read as that document, and it is within limits that are allowed**
(`cloneAndFreezeJsonObject_eq_ok_document`), whichever getters are run on the way.

The walk takes the elements of an array by index, so that an accessor among them counts as
what its getter returns.  `graph.forced` is the population in which it is that value; there
the walk runs no getter, and it returns what it returns in the population itself
(`follows_visit`).
-/

import NewtonDB.DocumentCopies

namespace NewtonDB

variable {σ : Type}

/-! ### Reading -/

/-- What is found at a place of an array: a value, or what the getter returns. -/
def Slot.read? : Slot σ → Option σ
  | .data value => some value
  | .accessor outcome => outcome
  | .hole => none

/-- The value of a data property. -/
def Slot.data? : Slot σ → Option σ
  | .data value => some value
  | _ => none

/-- The slot with a value in place of the accessor that returns it. -/
def Slot.forced (slot : Slot σ) : Slot σ :=
  match slot.read? with
  | some value => .data value
  | none => .hole

/-- A view with the elements of the array forced. -/
def JsView.forced : JsView σ → JsView σ
  | .array slots extras => .array (slots.map Slot.forced) extras
  | view => view

/-- The population with the elements of all arrays forced. -/
def JsGraph.forced (graph : JsGraph σ) : JsGraph σ where
  view value := (graph.view value).forced

/-- **The tree a value is read as**, if it has no more than so many levels. -/
def JsGraph.tree? (graph : JsGraph σ) : ℕ → σ → Option Json
  | 0, _ => none
  | levels + 1, value =>
      match graph.view value with
      | .array slots _ => (slots.mapM fun slot => slot.read? >>= tree? graph levels).map .arr
      | .object true [] slots =>
          (slots.mapM fun p => (p.2.data? >>= tree? graph levels).map (p.1, ·)).map .obj
      | view => view.prim?.map .prim

/-- The document a value is read as.  One with more levels than there may ever be is none. -/
def JsGraph.document? (graph : JsGraph σ) (value : σ) : Option JsonObject :=
  match graph.tree? (defaultJsonLimits.maxDepth + 1) value with
  | some (.obj props) => some props
  | _ => none

/-- A slot is read as before when its getter is replaced by what it returns. -/
theorem Slot.read?_forced (slot : Slot σ) : slot.forced.read? = slot.read? := by
  unfold Slot.forced
  cases h : slot.read? with
  | none => rfl
  | some value => rfl

/-- A slot whose getter is replaced is a data property exactly when the slot can be read. -/
theorem Slot.forced_eq_data {slot : Slot σ} {value : σ} :
    slot.forced = .data value ↔ slot.read? = some value := by
  unfold Slot.forced
  cases slot.read? with
  | none => simp
  | some w => simp

namespace JsGraph

variable {graph : JsGraph σ}

/-- Array slots are the items that are read at them.  An accessor is read as what its getter
returns, so a slot that was forced is a data element. -/
theorem denotesItems_forced {items : List Json} {slots : List (Slot σ)} :
    graph.forced.DenotesItems items (slots.map Slot.forced) ↔
      List.Forall₂ (fun slot j => ∃ w, slot.read? = some w ∧ graph.forced.Denotes j w)
        slots items := by
  induction items generalizing slots with
  | nil => simp [DenotesItems]
  | cons j items ih =>
      cases slots with
      | nil => simp [DenotesItems]
      | cons slot slots =>
          rw [List.forall₂_cons, ← ih, DenotesItems, List.map_cons]
          constructor
          · rintro ⟨w, rest, hslots, hj, hitems⟩
            obtain ⟨hslot, rfl⟩ := List.cons.inj hslots
            exact ⟨⟨w, Slot.forced_eq_data.1 hslot, hj⟩, hitems⟩
          · rintro ⟨⟨w, hslot, hj⟩, hitems⟩
            exact ⟨w, _, congrArg (· :: _) (Slot.forced_eq_data.2 hslot), hj, hitems⟩

/-- Object slots are the members that are read at them.  The names are those of the slots, in
their order. -/
theorem denotesProps_iff {props : List (JsString × Json)} {slots : List (JsString × Slot σ)} :
    graph.DenotesProps props slots ↔
      List.Forall₂ (fun slot p => ∃ w, slot = (p.1, .data w) ∧ graph.Denotes p.2 w)
        slots props := by
  induction props generalizing slots with
  | nil => simp [DenotesProps]
  | cons p props ih =>
      cases slots with
      | nil => simp [DenotesProps]
      | cons slot slots =>
          rw [List.forall₂_cons, ← ih, DenotesProps]
          constructor
          · rintro ⟨w, rest, hslots, hj, hprops⟩
            obtain ⟨rfl, rfl⟩ := List.cons.inj hslots
            exact ⟨⟨w, rfl, hj⟩, hprops⟩
          · rintro ⟨⟨w, rfl, hj⟩, hprops⟩
            exact ⟨w, slots, rfl, hj, hprops⟩

end JsGraph

/-- Items are no higher than what they are in. -/
theorem Json.heightItems_le {levels : ℕ} {items : List Json} :
    heightItems items ≤ levels ↔ ∀ j ∈ items, j.height < levels := by
  induction items with
  | nil => simp [heightItems]
  | cons j items ih => rw [heightItems, max_le_iff, List.forall_mem_cons, ih, Nat.succ_le_iff]

/-- Members are no higher than what they are in. -/
theorem Json.heightProps_le {levels : ℕ} {props : List (JsString × Json)} :
    heightProps props ≤ levels ↔ ∀ p ∈ props, p.2.height < levels := by
  induction props with
  | nil => simp [heightProps]
  | cons p props ih => rw [heightProps, max_le_iff, List.forall_mem_cons, ih, Nat.succ_le_iff]

/-- Lists that are related one by one, with what holds of the second. -/
theorem forall₂_and_right {α β : Type*} {r : α → β → Prop} {p : β → Prop} {l : List α}
    {l' : List β} :
    List.Forall₂ (fun a b => p b ∧ r a b) l l' ↔ (∀ b ∈ l', p b) ∧ List.Forall₂ r l l' := by
  have hflip : List.Forall₂ (fun a b => p b ∧ r a b) l l' ↔
      List.Forall₂ (fun b a => p b ∧ flip r b a) l' l := ⟨List.Forall₂.flip, List.Forall₂.flip⟩
  rw [hflip, List.forall₂_and_left]
  exact and_congr_right fun _ => ⟨List.Forall₂.flip, List.Forall₂.flip⟩

/-- The value of a data property. -/
theorem Slot.data?_eq_some {slot : Slot σ} {value : σ} :
    slot.data? = some value ↔ slot = .data value := by
  cases slot with
  | data w => simp [Slot.data?]
  | accessor outcome => simp [Slot.data?]
  | hole => simp [Slot.data?]

namespace JsGraph

variable {graph : JsGraph σ}

/-- The elements of an array, where every value is read as the tree it denotes.  Holes and
getters that throw read as nothing, and then the array denotes nothing. -/
theorem mapM_read?_eq_some {levels : ℕ}
    (hread : ∀ {w j}, graph.tree? levels w = some j ↔
      j.height < levels ∧ graph.forced.Denotes j w)
    {slots : List (Slot σ)} {items : List Json} :
    (slots.mapM fun slot => slot.read? >>= graph.tree? levels) = some items ↔
      Json.heightItems items ≤ levels ∧
        graph.forced.DenotesItems items (slots.map Slot.forced) := by
  rw [mapM_eq_some, Json.heightItems_le, denotesItems_forced, ← forall₂_and_right]
  refine iff_of_eq (congrFun (congrFun (congrArg _ ?_) _) _)
  funext slot j
  simp only [Option.bind_eq_bind, Option.bind_eq_some_iff, hread]
  exact propext ⟨fun ⟨w, hw, hheight, hj⟩ => ⟨hheight, w, hw, hj⟩,
    fun ⟨hheight, w, hw, hj⟩ => ⟨w, hw, hheight, hj⟩⟩

/-- The properties of an object.  An accessor of an object is not read, as the walk refuses
it. -/
theorem mapM_data?_eq_some {levels : ℕ}
    (hread : ∀ {w j}, graph.tree? levels w = some j ↔
      j.height < levels ∧ graph.forced.Denotes j w)
    {slots : List (JsString × Slot σ)} {props : List (JsString × Json)} :
    (slots.mapM fun p => (p.2.data? >>= graph.tree? levels).map (p.1, ·)) = some props ↔
      Json.heightProps props ≤ levels ∧ graph.forced.DenotesProps props slots := by
  rw [mapM_eq_some, Json.heightProps_le, denotesProps_iff, ← forall₂_and_right]
  refine iff_of_eq (congrFun (congrFun (congrArg _ ?_) _) _)
  funext slot p
  simp only [Option.map_eq_some_iff, Option.bind_eq_bind, Option.bind_eq_some_iff, hread,
    Slot.data?_eq_some]
  refine propext ⟨?_, ?_⟩
  · rintro ⟨j, ⟨w, hw, hheight, hj⟩, rfl⟩
    exact ⟨hheight, w, Prod.ext rfl hw, hj⟩
  · rintro ⟨hheight, w, rfl, hj⟩
    exact ⟨p.2, ⟨w, rfl, hheight, hj⟩, rfl⟩

/-- **A value is read as the tree it denotes**, with the elements of its arrays forced, when
that is not too high. -/
theorem tree?_eq_some_iff : ∀ {levels : ℕ} {value : σ} {j : Json},
    graph.tree? levels value = some j ↔ j.height < levels ∧ graph.forced.Denotes j value
  | 0, _, _ => iff_of_false (fun h => by cases h) fun h => Nat.not_lt_zero _ h.1
  | levels + 1, value, j => by
      have hforced : graph.forced.view value = (graph.view value).forced := rfl
      have hscalar : ∀ view : JsView σ, graph.forced.view value = view →
          (∀ slots extras, view ≠ .array slots extras) →
          (∀ plain symbols slots, view ≠ .object plain symbols slots) →
          (view.prim?.map Json.prim = some j ↔
            j.height < levels + 1 ∧ graph.forced.Denotes j value) := by
        rintro view rfl harray hobject
        rw [denotes_scalar harray hobject, Option.map_eq_some_iff]
        constructor
        · rintro ⟨p, hp, rfl⟩
          exact ⟨Nat.succ_pos _, p, hp, rfl⟩
        · rintro ⟨-, p, hp, rfl⟩
          exact ⟨p, hp, rfl⟩
      unfold tree?
      cases hview : graph.view value with
      | array slots extras =>
          rw [hview] at hforced
          rw [denotes_array hforced, Option.map_eq_some_iff]
          simp only [mapM_read?_eq_some tree?_eq_some_iff]
          constructor
          · rintro ⟨items, ⟨hheight, hitems⟩, rfl⟩
            exact ⟨Nat.lt_succ_of_le hheight, items, rfl, hitems⟩
          · rintro ⟨hheight, items, rfl, hitems⟩
            exact ⟨items, ⟨Nat.le_of_lt_succ hheight, hitems⟩, rfl⟩
      | object plain symbols slots =>
          rw [hview] at hforced
          rw [denotes_object hforced]
          cases plain with
          | false => exact iff_of_false (fun h => by cases h) fun h => by cases h.2.1
          | true =>
              cases symbols with
              | cons symbol rest =>
                  exact iff_of_false (fun h => by cases h) fun h => by cases h.2.2.1
              | nil =>
                  simp only [Option.map_eq_some_iff, mapM_data?_eq_some tree?_eq_some_iff]
                  constructor
                  · rintro ⟨props, ⟨hheight, hprops⟩, rfl⟩
                    exact ⟨Nat.lt_succ_of_le hheight, trivial, trivial, props, rfl, hprops⟩
                  · rintro ⟨hheight, -, -, props, rfl, hprops⟩
                    exact ⟨props, ⟨Nat.le_of_lt_succ hheight, hprops⟩, rfl⟩
      | undefined | null | bool | number | string | unsupported =>
          exact hscalar _ (hforced.trans (congrArg _ hview)) (by simp) (by simp)

end JsGraph

/-! ### The walk in two populations -/

/-- The walk with so many getters run. -/
def VisitState.counting (s : VisitState σ) (getters : ℕ) : VisitState σ := { s with getters }

/-- **Whenever the first walk returns, the second does**, with the same result and the same
counts, whatever getters each has run. -/
def Follows {α : Type} (m m' : VisitM σ α) : Prop :=
  ∀ s a t, Runs m s a t → ∀ g, ∃ g', Runs m' (s.counting g) a (t.counting g')

section

variable {α β : Type}

/-- To return follows returning the same. -/
theorem Follows.pure (a : α) : Follows (Pure.pure a : VisitM σ α) (Pure.pure a) :=
  fun _ _ _ hruns g => ⟨g, runs_pure.2 ⟨(runs_pure.1 hruns).1, by rw [(runs_pure.1 hruns).2]⟩⟩

/-- **Two parts that are followed are followed one after the other.**  The getters that the
first has run are handed on to the second. -/
theorem Follows.bind {m m' : VisitM σ α} {f f' : α → VisitM σ β} (hm : Follows m m')
    (hf : ∀ a, Follows (f a) (f' a)) : Follows (m >>= f) (m' >>= f') := by
  intro s b u hruns g
  obtain ⟨a, t, ha, hb⟩ := runs_bind.1 hruns
  obtain ⟨g₁, ha'⟩ := hm s a t ha g
  obtain ⟨g₂, hb'⟩ := hf a t b u hb g₁
  exact ⟨g₂, runs_bind.2 ⟨a, _, ha', hb'⟩⟩

/-- What never returns is followed by anything. -/
theorem Follows.of_never {m m' : VisitM σ α} (h : ∀ s a t, ¬Runs m s a t) : Follows m m' :=
  fun s a t hruns => absurd hruns (h s a t)

/-- What throws is followed by anything, since it has no run. -/
theorem follows_failJson {code : JsonIssueCode} {path : PropertyPath} {message : JsString}
    {m : VisitM σ α} : Follows (failJson code path message) m :=
  .of_never fun _ _ _ => runs_failJson

/-- A check that fails, before both go on.  A check that refuses ends both, and one that passes
is forgotten. -/
theorem Follows.check {c : Prop} [Decidable c] {fail : VisitM σ Unit} {k k' : Unit → VisitM σ α}
    (hfail : ∀ s u t, ¬Runs fail s u t) (hk : Follows (k ()) (k' ())) :
    Follows (if c then fail >>= k else k ()) (if c then fail >>= k' else k' ()) := by
  by_cases h : c
  · rw [if_pos h]
    refine .of_never fun s a t hruns => ?_
    obtain ⟨u, s₁, hu, -⟩ := runs_bind.1 hruns
    exact hfail s u s₁ hu
  · rw [if_neg h, if_neg h]
    exact hk

/-- Two loops whose turns follow one another.  By induction along the two lists, which have the
same length. -/
theorem Follows.mapM {γ δ : Type} {f : γ → VisitM σ β} {f' : δ → VisitM σ β} {l : List γ}
    {l' : List δ} (h : List.Forall₂ (fun x y => Follows (f x) (f' y)) l l') :
    Follows (l.mapM f) (l'.mapM f') := by
  induction h with
  | nil => exact .pure []
  | cons hx _ ih =>
      rw [List.mapM_cons, List.mapM_cons]
      exact hx.bind fun b => ih.bind fun bs => .pure (b :: bs)

end

/-! ### The steps of the walk -/

section

variable {limits : JsonLimits} {path : PropertyPath} {value : σ}

/-- To count bytes follows counting them. -/
theorem follows_addBytes (n : ℕ) : Follows (addBytes n : VisitM σ PUnit) (addBytes n) :=
  fun s u t hruns g => by
  obtain rfl := runs_addBytes.1 hruns
  exact ⟨g, runs_addBytes.2 rfl⟩

/-- The check of a limit follows itself: it looks at no getter. -/
theorem follows_checkLimit (name : JsString) (n ceiling : ℕ) :
    Follows (checkLimit name n ceiling : VisitM σ Unit) (checkLimit name n ceiling) :=
  fun s u t hruns g => by
  obtain ⟨hlimit, rfl⟩ := runs_checkLimit.1 hruns
  exact ⟨g, runs_checkLimit.2 ⟨hlimit, rfl⟩⟩

/-- To enter a value follows entering it. -/
theorem follows_enterValue (depth : ℕ) :
    Follows (enterValue limits path depth : VisitM σ Unit) (enterValue limits path depth) :=
  fun s u t hruns g => by
  obtain ⟨hnodes, hdepth, rfl⟩ := runs_enterValue.1 hruns
  exact ⟨g, runs_enterValue.2 ⟨hnodes, hdepth, rfl⟩⟩

/-- The getters that are run to read a slot. -/
def Slot.getters : Slot σ → ℕ
  | .accessor _ => 1
  | _ => 0

/-- To read a slot gives what is in it, or what its getter returns, and counts the getter.  A
hole gives nothing and a getter that throws ends the walk, so neither is among the cases. -/
theorem runs_readSlot_some {slot : Slot σ} {item : σ} {s t : VisitState σ} :
    Runs (readSlot slot) s (some item) t ↔
      slot.read? = some item ∧ t = s.counting (s.getters + slot.getters) := by
  cases slot with
  | data w =>
      refine runs_pure.trans (and_congr Iff.rfl ?_)
      exact eq_comm
  | hole => exact runs_pure.trans (iff_of_false (fun h => by cases h.1) fun h => by cases h.1)
  | accessor outcome =>
      unfold readSlot
      rw [runs_bind]
      constructor
      · rintro ⟨_, s₁, hmodify, h⟩
        obtain rfl := runs_modify.1 hmodify
        cases outcome with
        | none => exact (runs_throw.1 h).elim
        | some w => exact ⟨(runs_pure.1 h).1, (runs_pure.1 h).2.symm⟩
      · rintro ⟨hread, rfl⟩
        obtain rfl : outcome = some item := hread
        exact ⟨⟨⟩, _, runs_modify.2 rfl, runs_pure.2 ⟨rfl, rfl⟩⟩

/-- Two slots with the same value are read, and the value is what both go on with.  The count of
getters may differ, and neither side looks at it. -/
theorem follows_readSlot {α : Type} {slot slot' : Slot σ} (hread : slot.read? = slot'.read?)
    {k k' : Option σ → VisitM σ α} (hnone : ∀ s a t, ¬Runs (k none) s a t)
    (hk : ∀ item, Follows (k (some item)) (k' (some item))) :
    Follows (readSlot slot >>= k) (readSlot slot' >>= k') := by
  intro s a t hruns g
  obtain ⟨found, s₁, hfound, hrest⟩ := runs_bind.1 hruns
  cases found with
  | none => exact absurd hrest (hnone s₁ a t)
  | some item =>
      obtain ⟨hitem, rfl⟩ := runs_readSlot_some.1 hfound
      obtain ⟨g', hrest'⟩ := hk item _ a t hrest (g + slot'.getters)
      exact ⟨g', runs_bind.2 ⟨some item, _,
        runs_readSlot_some.2 ⟨hread.symm.trans hitem, rfl⟩, hrest'⟩⟩

variable [DecidableEq σ]

/-- To enter an object follows entering it. -/
theorem follows_enterObject :
    Follows (enterObject value path) (enterObject value path) := fun s u t hruns g => by
  obtain ⟨hseen, rfl⟩ := runs_enterObject.1 hruns
  exact ⟨g, runs_enterObject.2 ⟨hseen, rfl⟩⟩

/-- To leave an object follows leaving it. -/
theorem follows_leaveObject :
    Follows (leaveObject limits value path) (leaveObject limits value path) :=
  fun s u t hruns g => by
  obtain ⟨hbytes, rfl⟩ := runs_leaveObject.1 hruns
  exact ⟨g, runs_leaveObject.2 ⟨hbytes, rfl⟩⟩

end

/-! ### Populations that read alike -/

/-- Two views show the same, an array by what is read at its places. -/
inductive JsView.Alike : JsView σ → JsView σ → Prop
  | array {slots slots' : List (Slot σ)} {extras extras' : ArrayExtras σ}
      (hread : slots.map Slot.read? = slots'.map Slot.read?) :
      Alike (.array slots extras) (.array slots' extras')
  | other {view : JsView σ} (harray : ∀ slots extras, view ≠ .array slots extras) : Alike view view

/-- Views that show the same do so both ways. -/
theorem JsView.Alike.symm {view view' : JsView σ} (h : view.Alike view') : view'.Alike view := by
  cases h with
  | array hread => exact .array hread.symm
  | other harray => exact .other harray

/-- Two populations of the same values read alike. -/
def JsGraph.Alike (graph graph' : JsGraph σ) : Prop :=
  ∀ value, (graph.view value).Alike (graph'.view value)

/-- Elements that are read alike, with their places.  The places are those in the lists, and
both lists have the same length. -/
theorem forall₂_zipIdx : ∀ {slots slots' : List (Slot σ)} (n : ℕ),
    slots.map Slot.read? = slots'.map Slot.read? →
      List.Forall₂ (fun x y => x.1.read? = y.1.read? ∧ x.2 = y.2) (slots.zipIdx n)
        (slots'.zipIdx n)
  | [], [], _, _ => .nil
  | [], _ :: _, _, h => by cases h
  | _ :: _, [], _, h => by cases h
  | _ :: _, _ :: _, n, h =>
      .cons ⟨(List.cons.inj h).1, rfl⟩ (forall₂_zipIdx (n + 1) (List.cons.inj h).2)

section

variable [DecidableEq σ] {graph graph' : JsGraph σ} {limits : JsonLimits}

/-- **The walk in one population is followed by that in the other**, when they read alike.  By
induction on the levels.  An array is read at its places only, so that a getter may stand for
what it returns. -/
theorem follows_visit (h : graph.Alike graph') :
    ∀ (levels : ℕ) (value : σ) (path : PropertyPath) (depth : ℕ),
      Follows (visit graph limits levels value path depth)
        (visit graph' limits levels value path depth)
  | 0, value, path, depth => by
      unfold visit
      exact (follows_enterValue depth).bind fun _ => follows_failJson
  | levels + 1, value, path, depth => by
      unfold visit
      refine (follows_enterValue depth).bind fun _ => ?_
      have hviews := h value
      generalize graph.view value = view at hviews
      generalize graph'.view value = view' at hviews
      cases hviews with
      | array hread =>
          refine follows_enterObject.bind fun _ => ?_
          refine Follows.bind (.mapM ((forall₂_zipIdx 0 hread).imp ?_)) fun items =>
            follows_leaveObject.bind fun _ => .pure _
          rintro ⟨slot, index⟩ ⟨slot', index'⟩ ⟨hslot, hindex⟩
          obtain rfl : index = index' := hindex
          refine follows_readSlot hslot (fun _ _ _ => runs_failJson) fun item => ?_
          exact (follows_visit h levels item _ _).bind fun j =>
            (follows_addBytes 1).bind fun _ => .pure _
      | other harray =>
          cases view with
          | array slots extras => exact absurd rfl (harray slots extras)
          | null => exact (follows_addBytes _).bind fun _ => .pure _
          | bool b => exact (follows_addBytes _).bind fun _ => .pure _
          | number x =>
              cases x with
              | finite n => exact (follows_addBytes _).bind fun _ => .pure _
              | nan => exact follows_failJson
              | infinity _ => exact follows_failJson
          | string text =>
              refine .check (fun _ _ _ => runs_failJson) ?_
              exact (follows_addBytes _).bind fun _ => .pure _
          | undefined => exact follows_failJson
          | unsupported type => exact follows_failJson
          | object plain symbols slots =>
              refine follows_enterObject.bind fun _ => .check (fun _ _ _ => runs_failJson) ?_
              cases symbols with
              | cons symbol rest =>
                  refine .of_never fun _ _ _ hruns => ?_
                  obtain ⟨_, _, hfail, -⟩ := runs_bind.1 hruns
                  exact runs_failJson hfail
              | nil =>
                  refine Follows.bind (.mapM (List.forall₂_same.2 ?_)) fun props =>
                    follows_leaveObject.bind fun _ => .pure _
                  rintro ⟨key, slot⟩ -
                  cases slot with
                  | accessor outcome => exact follows_failJson
                  | hole => exact follows_failJson
                  | data item =>
                      refine .check (fun _ _ _ => runs_failJson) ?_
                      exact (follows_visit h levels item _ _).bind fun j =>
                        (follows_addBytes _).bind fun _ => .pure _

/-- **What one admits, the other does.**  The limits are checked alike, and the walk over the
one is followed by that over the other. -/
theorem cloneAndFreezeJsonObject_of_alike (h : graph.Alike graph') {input : σ} {d : JsonObject}
    (hd : cloneAndFreezeJsonObject graph limits input = .ok d) :
    cloneAndFreezeJsonObject graph' limits input = .ok d := by
  have hfollows : Follows (cloneAndFreeze graph limits input)
      (cloneAndFreeze graph' limits input) := by
    unfold cloneAndFreeze
    refine (follows_checkLimit _ _ _).bind fun _ => (follows_checkLimit _ _ _).bind fun _ =>
      (follows_checkLimit _ _ _).bind fun _ => (follows_checkLimit _ _ _).bind fun _ => ?_
    have hviews := h input
    generalize graph.view input = view at hviews
    generalize graph'.view input = view' at hviews
    cases hviews with
    | array hread => exact follows_failJson
    | other harray =>
        cases view with
        | object plain symbols slots =>
            refine (follows_visit h _ _ _ _).bind fun j => ?_
            cases j with
            | prim p => exact follows_failJson
            | arr items => exact follows_failJson
            | obj props => exact .check (fun _ _ _ => runs_failJson) (.pure props)
        | array | undefined | null | bool | number | string | unsupported =>
            exact follows_failJson
  have hruns : Runs (cloneAndFreeze graph limits input) (VisitState.start σ) d
      ((cloneAndFreeze graph limits input).run.run (VisitState.start σ)).2 := Prod.ext hd rfl
  obtain ⟨g, hruns'⟩ := hfollows _ _ _ hruns 0
  exact congrArg Prod.fst hruns'

end

/-! ### The forced population -/

namespace JsGraph

variable {graph : JsGraph σ} {limits : JsonLimits}

/-- A population reads like the one whose getters are replaced by what they return.  Only
elements of arrays are forced; everything else is the same view. -/
theorem alike_forced : graph.Alike graph.forced := fun value => by
  show (graph.view value).Alike (graph.view value).forced
  generalize graph.view value = view
  cases view with
  | array slots extras =>
      refine .array ?_
      rw [List.map_map]
      exact List.map_congr_left fun slot _ => (slot.read?_forced).symm
  | object | undefined | null | bool | number | string | unsupported =>
      exact .other (fun _ _ h => by cases h)

/-- What the walk comes to in the forced population is no accessor.  Every element of its arrays
is a data element or a hole. -/
theorem not_meets_forced : ∀ {levels : ℕ} {value : σ} {s : VisitState σ},
    ¬graph.forced.Meets limits levels value s
  | 0, _, _ => id
  | levels + 1, value, s => by
      have hforced : graph.forced.view value = (graph.view value).forced := rfl
      cases hview : graph.view value with
      | array slots extras =>
          rw [hview] at hforced
          rw [meets_array hforced]
          rintro ⟨-, -, hany⟩
          obtain ⟨slot, hslot, s', hmeets⟩ := hany.exists_mem
          obtain ⟨slot, -, rfl⟩ := List.mem_map.1 hslot
          unfold Slot.forced at hmeets
          cases hread : slot.read? with
          | none =>
              rw [hread] at hmeets
              exact hmeets
          | some item =>
              rw [hread] at hmeets
              exact not_meets_forced hmeets
      | object plain symbols slots =>
          rw [hview] at hforced
          rw [meets_object hforced]
          rintro ⟨-, -, -, -, hany⟩
          obtain ⟨_, -, s', item, -, -, hmeets⟩ := hany.exists_mem
          exact not_meets_forced hmeets
      | undefined | null | bool | number | string | unsupported =>
          rw [hview] at hforced
          refine not_meets_scalar (fun _ _ h => ?_) fun _ _ _ h => ?_
          · cases hforced.symm.trans h
          · cases hforced.symm.trans h

/-- What is admitted is what the value denotes with its arrays forced, within limits that are
allowed. -/
theorem cloneAndFreezeJsonObject_eq_ok_iff [DecidableEq σ] {input : σ} {d : JsonObject} :
    cloneAndFreezeJsonObject graph limits input = .ok d ↔
      limits.Allowed ∧ graph.forced.Denotes (.obj d) input ∧ (Json.obj d).Within limits := by
  constructor
  · intro h
    have hd : ((cloneAndFreeze graph.forced limits input).run.run (VisitState.start σ)).1 = .ok d :=
      cloneAndFreezeJsonObject_of_alike alike_forced h
    cases (cloneAndFreeze_outcome :
      Outcome _ (cloneAndFreeze graph.forced limits input) _ _ _) with
    | returns d' s' hrun hsame hpass =>
        rw [hrun] at hd
        obtain rfl := Except.ok.inj hd
        exact hpass
    | counts hcounted hmeet => exact absurd hmeet.2.2 not_meets_forced
    | refuses e s' hrun hsame hstop =>
        rw [hrun] at hd
        cases hd
  · rintro ⟨hallowed, hplain, hwithin⟩
    refine cloneAndFreezeJsonObject_of_alike (fun value => (alike_forced value).symm) ?_
    exact (cloneAndFreezeJsonObject_eq_ok hallowed hplain).2 ⟨rfl, hwithin⟩

mutual

/-- **Plain data is read as what it is**, since it has no accessors.  By induction on the
tree. -/
theorem Denotes.forced : ∀ {j : Json} {value : σ}, graph.Denotes j value →
    graph.forced.Denotes j value
  | .prim p, value, h => by
      have hforced : graph.forced.view value = (graph.view value).forced := rfl
      unfold Denotes at h ⊢
      rw [hforced]
      cases hview : graph.view value with
      | array slots extras =>
          rw [hview] at h
          cases h
      | object | undefined | null | bool | number | string | unsupported =>
          rw [hview] at h
          exact h
  | .arr items, value, ⟨slots, extras, hview, hitems⟩ =>
      ⟨slots.map Slot.forced, extras, congrArg JsView.forced hview, hitems.forcedItems⟩
  | .obj props, value, ⟨slots, hview, hprops⟩ =>
      ⟨slots, congrArg JsView.forced hview, hprops.forcedProps⟩

/-- What slots denote they denote without getters.  Data elements are forced to themselves, and
what they hold is so by the recursion. -/
theorem DenotesItems.forcedItems : ∀ {items : List Json} {slots : List (Slot σ)},
    graph.DenotesItems items slots →
      graph.forced.DenotesItems items (slots.map Slot.forced)
  | [], _, h => by
      rw [h]
      rfl
  | j :: items, _, ⟨w, rest, hslots, hj, hitems⟩ =>
      ⟨w, rest.map Slot.forced, by rw [hslots]; rfl, hj.forced, hitems.forcedItems⟩

/-- What named slots denote they denote without getters. -/
theorem DenotesProps.forcedProps : ∀ {props : List (JsString × Json)}
    {slots : List (JsString × Slot σ)}, graph.DenotesProps props slots →
      graph.forced.DenotesProps props slots
  | [], _, h => h
  | _ :: _, _, ⟨w, rest, hslots, hj, hprops⟩ =>
      ⟨w, rest, hslots, hj.forced, hprops.forcedProps⟩

end

/-- A value is a document when it is the tree of an object, no deeper than any limit allows.  A
tree that is no object is no document, whatever its height. -/
theorem document?_eq_some {value : σ} {d : JsonObject} : graph.document? value = some d ↔
    graph.tree? (defaultJsonLimits.maxDepth + 1) value = some (.obj d) := by
  unfold document?
  cases graph.tree? (defaultJsonLimits.maxDepth + 1) value with
  | none => simp
  | some j =>
      cases j with
      | prim p => simp
      | arr items => simp
      | obj props => simp

/-- A value is read as the document it denotes. -/
theorem document?_eq_some_iff {value : σ} {d : JsonObject} :
    graph.document? value = some d ↔ (Json.obj d).height ≤ defaultJsonLimits.maxDepth ∧
      graph.forced.Denotes (.obj d) value := by
  rw [document?_eq_some, tree?_eq_some_iff, Nat.lt_succ_iff]

/-- **What is admitted is the document that is read**, within limits that are allowed.  To read
is to take every element for what its getter returns; then only plain data is left, and the
limits decide. -/
theorem cloneAndFreezeJsonObject_eq_ok_document [DecidableEq σ] {input : σ} {d : JsonObject} :
    cloneAndFreezeJsonObject graph limits input = .ok d ↔
      limits.Allowed ∧ graph.document? input = some d ∧ (Json.obj d).Within limits := by
  rw [cloneAndFreezeJsonObject_eq_ok_iff, document?_eq_some_iff]
  refine and_congr_right fun hallowed => ?_
  constructor
  · rintro ⟨hplain, hwithin⟩
    exact ⟨⟨hwithin.height_le.trans hallowed.maxDepth.2, hplain⟩, hwithin⟩
  · rintro ⟨⟨-, hplain⟩, hwithin⟩
    exact ⟨hplain, hwithin⟩

end JsGraph

end NewtonDB
