/-
# What is copied

Whatever the walk over a document returns has been counted and is within the limits, also
where the getter of an array element supplied a part of it (`counted_visit`).  So what
`cloneAndFreezeJsonObject` returned is admitted again as it is, and a document that was
validated stays valid (`validateDocument_self`).
-/

import NewtonDB.DocumentContract

namespace NewtonDB

variable {σ : Type} {limits : JsonLimits} {levels depth : ℕ} {path : PropertyPath}

/-! ### The steps of the walk -/

/-- What throws has no successful run. -/
theorem runs_failJson {α : Type} {code : JsonIssueCode} {message : JsString} {s s' : VisitState σ}
    {a : α} : ¬Runs (failJson code path message : VisitM σ α) s a s' :=
  fun h => runs_throw.1 h

/-- A value is entered when there is room for one more, and it is not too deep.  The node is
counted first, so the last one allowed is still entered. -/
theorem runs_enterValue {s s' : VisitState σ} {u : Unit} :
    Runs (enterValue limits path depth) s u s' ↔
      s.nodes + 1 ≤ limits.maxNodes ∧ depth ≤ limits.maxDepth ∧ s' = s.add 1 0 := by
  unfold enterValue
  rw [runs_bind]
  constructor
  · rintro ⟨_, s₁, hmodify, h⟩
    obtain rfl := runs_modify.1 hmodify
    obtain ⟨t, s₂, hget, h⟩ := runs_bind.1 h
    obtain ⟨rfl, rfl⟩ := runs_get.1 hget
    obtain ⟨hnodes, h⟩ := (runs_check fun _ _ _ => runs_failJson).1 h
    rcases runs_ite.1 h with ⟨-, h⟩ | ⟨hdepth, h⟩
    · exact (runs_failJson h).elim
    · exact ⟨not_lt.1 hnodes, not_lt.1 hdepth, (runs_pure.1 h).2.symm⟩
  · rintro ⟨hnodes, hdepth, rfl⟩
    refine ⟨⟨⟩, _, runs_modify.2 rfl, runs_bind.2 ⟨_, _, runs_get.2 ⟨rfl, rfl⟩, ?_⟩⟩
    refine (runs_check fun _ _ _ => runs_failJson).2 ⟨not_lt.2 hnodes, ?_⟩
    exact runs_ite.2 (.inr ⟨not_lt.2 hdepth, runs_pure.2 ⟨rfl, rfl⟩⟩)

/-- To count bytes adds them to the state, and changes nothing else. -/
theorem runs_addBytes {n : ℕ} {s s' : VisitState σ} {u : PUnit} :
    Runs (addBytes n : VisitM σ PUnit) s u s' ↔ s' = s.add 0 n :=
  runs_modify.trans eq_comm

/-- To read a slot counts neither a node nor a byte.  A getter is counted on its own. -/
theorem runs_readSlot {slot : Slot σ} {s s' : VisitState σ} {item : Option σ}
    (h : Runs (readSlot slot) s item s') : s'.nodes = s.nodes ∧ s'.bytes = s.bytes := by
  cases slot with
  | data value =>
      obtain ⟨-, rfl⟩ := runs_pure.1 h
      exact ⟨rfl, rfl⟩
  | hole =>
      obtain ⟨-, rfl⟩ := runs_pure.1 h
      exact ⟨rfl, rfl⟩
  | accessor outcome =>
      obtain ⟨_, s₁, hmodify, h⟩ := runs_bind.1 h
      obtain rfl := runs_modify.1 hmodify
      cases outcome with
      | none => exact (runs_throw.1 h).elim
      | some value =>
          obtain ⟨-, rfl⟩ := runs_pure.1 h
          exact ⟨rfl, rfl⟩

/-- A limit that is checked.  The check reads no state, so it leaves the one it was given. -/
theorem runs_checkLimit {name : JsString} {value ceiling : ℕ} {s s' : VisitState σ} {u : Unit} :
    Runs (checkLimit name value ceiling) s u s' ↔ (0 < value ∧ value ≤ ceiling) ∧ s' = s := by
  unfold checkLimit
  rw [runs_ite]
  simp only [Bool.or_eq_true, decide_eq_true_eq]
  constructor
  · rintro (⟨-, h⟩ | ⟨hlimit, h⟩)
    · exact (runs_throw.1 h).elim
    · exact ⟨by omega, (runs_pure.1 h).2.symm⟩
  · rintro ⟨hlimit, rfl⟩
    exact .inr ⟨by omega, runs_pure.2 ⟨rfl, rfl⟩⟩

/-! ### What is counted -/

/-- **A tree that was returned has been counted**, and there was room for it. -/
structure Counted (limits : JsonLimits) (levels : ℕ) (s : VisitState σ) (j : Json)
    (s' : VisitState σ) : Prop where
  fits : j.Fits limits levels s.nodes s.bytes
  nodes : s'.nodes = s.nodes + j.nodes
  bytes : s'.bytes = s.bytes + j.estimate

/-- A primitive that was returned.  It is one node, and its estimate was added to the bytes. -/
theorem counted_prim {p : JsonPrimitive} {s s' : VisitState σ} {j : Json}
    (hnodes : s.nodes + 1 ≤ limits.maxNodes)
    (hstrings : (Json.prim p).StringsWithin limits.maxStringBytes)
    (h : Runs (addBytes (Json.prim p).estimate >>= fun _ => pure (Json.prim p) : VisitM σ Json)
      (s.add 1 0) j s') : Counted limits (levels + 1) s j s' := by
  obtain ⟨_, s₁, hadd, h⟩ := runs_bind.1 h
  obtain rfl := runs_addBytes.1 hadd
  obtain ⟨rfl, rfl⟩ := runs_pure.1 h
  exact ⟨Json.fits_prim_iff.2 ⟨hnodes, hstrings⟩, rfl, rfl⟩

/-- A value is walked and more bytes are counted.  The bytes are those of a separator or of a
name. -/
theorem counted_add {α : Type} {m : VisitM σ Json}
    (hm : ∀ s j s', Runs m s j s' → Counted limits levels s j s') {n : ℕ} {g : Json → α}
    {s s' : VisitState σ} {a : α}
    (h : Runs (m >>= fun j => addBytes n >>= fun _ => pure (g j)) s a s') :
    ∃ j, a = g j ∧ j.Fits limits levels s.nodes s.bytes ∧ s'.nodes = s.nodes + j.nodes ∧
      s'.bytes = s.bytes + (j.estimate + n) := by
  obtain ⟨j, s₁, hj, h⟩ := runs_bind.1 h
  obtain ⟨_, s₂, hadd, h⟩ := runs_bind.1 h
  obtain ⟨rfl, rfl⟩ := runs_pure.1 h
  obtain rfl := runs_addBytes.1 hadd
  obtain ⟨hfits, hnodes, hbytes⟩ := hm s j s₁ hj
  exact ⟨j, rfl, hfits, hnodes, (congrArg (· + n) hbytes).trans (Nat.add_assoc ..)⟩

/-- The turns of a loop over the elements of an array.  Each turn counts its element and one
byte for the comma. -/
theorem counted_items {body : Slot σ × ℕ → VisitM σ Json}
    (hbody : ∀ x s j s', Runs (body x) s j s' → j.Fits limits levels s.nodes s.bytes ∧
      s'.nodes = s.nodes + j.nodes ∧ s'.bytes = s.bytes + (j.estimate + 1)) :
    ∀ {slots : List (Slot σ × ℕ)} {s s' : VisitState σ} {items : List Json},
      RunsAll body slots s items s' → Json.FitsItems limits levels s.nodes s.bytes items ∧
        s'.nodes = s.nodes + Json.nodesItems items ∧
        s'.bytes = s.bytes + Json.estimateItems items
  | [], s, s', items, h => by
      obtain ⟨rfl, rfl⟩ := h
      exact ⟨trivial, rfl, rfl⟩
  | x :: slots, s, s', items, h => by
      obtain ⟨j, s₁, rest, hj, hrest, rfl⟩ := h
      obtain ⟨hfits, hnodes, hbytes⟩ := hbody _ _ _ _ hj
      obtain ⟨hfitsRest, hnodesRest, hbytesRest⟩ := counted_items hbody hrest
      rw [hnodes, hbytes] at hfitsRest
      refine ⟨⟨hfits, hfitsRest⟩, ?_, ?_⟩
      · rw [hnodesRest, hnodes, Json.nodesItems, Nat.add_assoc]
      · rw [hbytesRest, hbytes, Json.estimateItems, Nat.add_assoc]

/-- The turns of a loop over the properties of an object.  Each turn counts the name, its quotes
and its colon besides the value. -/
theorem counted_props {body : JsString × Slot σ → VisitM σ (JsString × Json)}
    (hbody : ∀ x s p s', Runs (body x) s p s' → utf8Length p.1 ≤ limits.maxStringBytes ∧
      p.2.Fits limits levels s.nodes s.bytes ∧ s'.nodes = s.nodes + p.2.nodes ∧
        s'.bytes = s.bytes + (p.2.estimate + (utf8Length p.1 + 3))) :
    ∀ {slots : List (JsString × Slot σ)} {s s' : VisitState σ} {props : JsonObject},
      RunsAll body slots s props s' → Json.FitsProps limits levels s.nodes s.bytes props ∧
        s'.nodes = s.nodes + Json.nodesProps props ∧
        s'.bytes = s.bytes + Json.estimateProps props
  | [], s, s', props, h => by
      obtain ⟨rfl, rfl⟩ := h
      exact ⟨trivial, rfl, rfl⟩
  | x :: slots, s, s', props, h => by
      obtain ⟨p, s₁, rest, hp, hrest, rfl⟩ := h
      obtain ⟨hname, hfits, hnodes, hbytes⟩ := hbody _ _ _ _ hp
      obtain ⟨hfitsRest, hnodesRest, hbytesRest⟩ := counted_props hbody hrest
      rw [hnodes, hbytes] at hfitsRest
      refine ⟨⟨hname, hfits, hfitsRest⟩, ?_, ?_⟩
      · rw [hnodesRest, hnodes, Json.nodesProps, Nat.add_assoc]
      · rw [hbytesRest, hbytes, Json.estimateProps, Nat.add_assoc]

/-! ### The walk -/

variable [DecidableEq σ] {graph : JsGraph σ}

/-- An array or object is entered when it is not inside itself.  It is remembered until it is
left, so a value that is shared is met again without being a cycle. -/
theorem runs_enterObject {value : σ} {s s' : VisitState σ} {u : Unit} :
    Runs (enterObject value path) s u s' ↔
      value ∉ s.seen ∧ s' = { s with seen := value :: s.seen } := by
  unfold enterObject
  rw [runs_bind]
  constructor
  · rintro ⟨t, s₁, hget, h⟩
    obtain ⟨rfl, rfl⟩ := runs_get.1 hget
    obtain ⟨hseen, h⟩ := (runs_check fun _ _ _ => runs_failJson).1 h
    exact ⟨hseen, (runs_modify.1 h).symm⟩
  · rintro ⟨hseen, rfl⟩
    refine ⟨_, _, runs_get.2 ⟨rfl, rfl⟩, ?_⟩
    exact (runs_check fun _ _ _ => runs_failJson).2 ⟨hseen, runs_modify.2 rfl⟩

/-- The bytes are compared when an array or object is left.  It is forgotten then, which is what
makes sharing possible. -/
theorem runs_leaveObject {value : σ} {s s' : VisitState σ} {u : Unit} :
    Runs (leaveObject limits value path) s u s' ↔
      s.bytes ≤ limits.maxDocumentBytes ∧ s' = { s with seen := s.seen.erase value } := by
  unfold leaveObject
  rw [runs_bind]
  constructor
  · rintro ⟨_, s₁, hmodify, h⟩
    obtain rfl := runs_modify.1 hmodify
    obtain ⟨t, s₂, hget, h⟩ := runs_bind.1 h
    obtain ⟨rfl, rfl⟩ := runs_get.1 hget
    rcases runs_ite.1 h with ⟨-, h⟩ | ⟨hbytes, h⟩
    · exact (runs_failJson h).elim
    · exact ⟨not_lt.1 hbytes, (runs_pure.1 h).2.symm⟩
  · rintro ⟨hbytes, rfl⟩
    refine ⟨⟨⟩, _, runs_modify.2 rfl, runs_bind.2 ⟨_, _, runs_get.2 ⟨rfl, rfl⟩, ?_⟩⟩
    exact runs_ite.2 (.inr ⟨not_lt.2 hbytes, runs_pure.2 ⟨rfl, rfl⟩⟩)

/-- **What the walk returns has been counted.**  By induction on the levels: an array counts its
items, an object its properties, and the state is left with their sums. -/
theorem counted_visit : ∀ (levels : ℕ) (value : σ) (path : PropertyPath) (depth : ℕ)
    (s s' : VisitState σ) (j : Json), Runs (visit graph limits levels value path depth) s j s' →
      Counted limits levels s j s'
  | 0, value, path, depth, s, s', j, h => by
      unfold visit at h
      obtain ⟨_, s₁, -, h⟩ := runs_bind.1 h
      exact (runs_failJson h).elim
  | levels + 1, value, path, depth, s, s', j, h => by
      unfold visit at h
      obtain ⟨_, s₁, henter, h⟩ := runs_bind.1 h
      obtain ⟨hnodes, -, rfl⟩ := runs_enterValue.1 henter
      dsimp only at h
      split at h
      · exact counted_prim (p := .null) hnodes trivial h
      · next b _ =>
          refine counted_prim (p := .bool b) hnodes trivial ?_
          cases b <;> exact h
      · next x _ => exact counted_prim (p := .number x) hnodes trivial h
      · exact (runs_failJson h).elim
      · next text _ =>
          obtain ⟨hlength, h⟩ := (runs_check fun _ _ _ => runs_failJson).1 h
          exact counted_prim (p := .string text) hnodes (not_lt.1 hlength) h
      · exact (runs_failJson h).elim
      · exact (runs_failJson h).elim
      · next slots extras _ =>
          obtain ⟨_, s₁, hobject, h⟩ := runs_bind.1 h
          obtain ⟨items, s₂, hitems, h⟩ := runs_bind.1 h
          obtain ⟨_, s₃, hleave, h⟩ := runs_bind.1 h
          obtain ⟨rfl, rfl⟩ := runs_pure.1 h
          obtain ⟨-, rfl⟩ := runs_enterObject.1 hobject
          obtain ⟨hbytes, rfl⟩ := runs_leaveObject.1 hleave
          have hcounted : Json.FitsItems limits levels (s.nodes + 1) s.bytes items ∧
              s₂.nodes = s.nodes + 1 + Json.nodesItems items ∧
              s₂.bytes = s.bytes + Json.estimateItems items := by
            refine counted_items ?_ (runs_mapM.1 hitems)
            rintro ⟨slot, index⟩ t k t' h
            obtain ⟨found, t₁, hread, h⟩ := runs_bind.1 h
            obtain ⟨hnodes, hbytes⟩ := runs_readSlot hread
            cases found with
            | none => exact (runs_failJson h).elim
            | some item =>
                obtain ⟨k', rfl, hvisit⟩ :=
                  counted_add (fun _ _ _ => counted_visit levels item _ _ _ _ _) h
                rwa [hnodes, hbytes] at hvisit
          obtain ⟨hfits, hnodes₂, hbytes₂⟩ := hcounted
          rw [hbytes₂] at hbytes
          refine ⟨Json.fits_arr_iff.2 ⟨hnodes, hfits, hbytes⟩, ?_, hbytes₂⟩
          exact hnodes₂.trans ((Nat.add_assoc ..).trans (congrArg _ (Nat.add_comm ..)))
      · next plain symbols slots _ =>
          obtain ⟨_, s₁, hobject, h⟩ := runs_bind.1 h
          obtain ⟨-, h⟩ := (runs_check fun _ _ _ => runs_failJson).1 h
          cases symbols with
          | cons symbol symbols =>
              obtain ⟨_, _, hfail, -⟩ := runs_bind.1 h
              exact (runs_failJson hfail).elim
          | nil =>
              obtain ⟨props, s₂, hprops, h⟩ := runs_bind.1 h
              obtain ⟨_, s₃, hleave, h⟩ := runs_bind.1 h
              obtain ⟨rfl, rfl⟩ := runs_pure.1 h
              obtain ⟨-, rfl⟩ := runs_enterObject.1 hobject
              obtain ⟨hbytes, rfl⟩ := runs_leaveObject.1 hleave
              have hcounted : Json.FitsProps limits levels (s.nodes + 1) s.bytes props ∧
                  s₂.nodes = s.nodes + 1 + Json.nodesProps props ∧
                  s₂.bytes = s.bytes + Json.estimateProps props := by
                refine counted_props ?_ (runs_mapM.1 hprops)
                rintro ⟨key, slot⟩ t p t' h
                cases slot with
                | accessor outcome => exact (runs_failJson h).elim
                | hole => exact (runs_failJson h).elim
                | data item =>
                    obtain ⟨hname, h⟩ := (runs_check fun _ _ _ => runs_failJson).1 h
                    obtain ⟨k, rfl, hvisit⟩ :=
                      counted_add (fun _ _ _ => counted_visit levels item _ _ _ _ _) h
                    exact ⟨not_lt.1 hname, hvisit⟩
              obtain ⟨hfits, hnodes₂, hbytes₂⟩ := hcounted
              rw [hbytes₂] at hbytes
              refine ⟨Json.fits_obj_iff.2 ⟨hnodes, hfits, hbytes⟩, ?_, hbytes₂⟩
              exact hnodes₂.trans ((Nat.add_assoc ..).trans (congrArg _ (Nat.add_comm ..)))

/-! ### The whole call -/

/-- **What is admitted is within limits that are allowed**, whatever the value is and
whichever getters supplied a part of it. -/
theorem cloneAndFreezeJsonObject_within {input : σ} {d : JsonObject}
    (h : cloneAndFreezeJsonObject graph limits input = .ok d) :
    limits.Allowed ∧ (Json.obj d).Within limits := by
  have hruns : Runs (cloneAndFreeze graph limits input) (VisitState.start σ) d
      ((cloneAndFreeze graph limits input).run.run (VisitState.start σ)).2 := Prod.ext h rfl
  unfold cloneAndFreeze at hruns
  obtain ⟨_, s₁, hcheck, hruns⟩ := runs_bind.1 hruns
  obtain ⟨hdepth, rfl⟩ := runs_checkLimit.1 hcheck
  obtain ⟨_, s₂, hcheck, hruns⟩ := runs_bind.1 hruns
  obtain ⟨hbytes, rfl⟩ := runs_checkLimit.1 hcheck
  obtain ⟨_, s₃, hcheck, hruns⟩ := runs_bind.1 hruns
  obtain ⟨hnodes, rfl⟩ := runs_checkLimit.1 hcheck
  obtain ⟨_, s₄, hcheck, hruns⟩ := runs_bind.1 hruns
  obtain ⟨hstrings, rfl⟩ := runs_checkLimit.1 hcheck
  refine ⟨⟨hdepth, hbytes, hnodes, hstrings⟩, ?_⟩
  split at hruns
  · obtain ⟨j, s₅, hvisit, hruns⟩ := runs_bind.1 hruns
    have hfits := (counted_visit _ _ _ _ _ _ _ hvisit).fits
    cases j with
    | prim p => exact (runs_failJson hruns).elim
    | arr items => exact (runs_failJson hruns).elim
    | obj props =>
        obtain ⟨hlength, hruns⟩ := (runs_check fun _ _ _ => runs_failJson).1 hruns
        obtain ⟨rfl, -⟩ := runs_pure.1 hruns
        exact Json.within_obj_iff.2 ⟨hfits, not_lt.1 hlength⟩
  · exact (runs_failJson hruns).elim

/-- **What was admitted is admitted as it is.**  It was counted within the limits once, and the
second walk counts the same. -/
theorem cloneAndFreezeJsonObject_self {input : σ} {d : JsonObject}
    (h : cloneAndFreezeJsonObject graph limits input = .ok d) :
    cloneAndFreezeJsonObject Json.graph limits (.obj d) = .ok d := by
  obtain ⟨hallowed, hwithin⟩ := cloneAndFreezeJsonObject_within h
  exact (cloneAndFreezeJsonObject_eq_ok hallowed (Json.denotes_graph (.obj d))).2 ⟨rfl, hwithin⟩

/-- **A document that was validated is valid as it is.**  The limits and the validator are those
of the schema both times. -/
theorem validateDocument_self {collection : JsString} {input : σ} {schema : CollectionSchema}
    {d : JsonObject} (h : validateDocument collection graph input schema = .ok d) :
    validateDocument collection Json.graph (.obj d) schema = .ok d := by
  unfold validateDocument at h ⊢
  obtain ⟨limits, hlimits, h⟩ := bind_eq_ok.1 h
  obtain ⟨cloned, hcloned, h⟩ := bind_eq_ok.1 h
  obtain ⟨_, hvalid, h⟩ := bind_eq_ok.1 h
  obtain ⟨key, hkey, h⟩ := bind_eq_ok.1 h
  obtain rfl := Except.ok.inj h
  exact bind_eq_ok.2 ⟨limits, hlimits, bind_eq_ok.2 ⟨cloned, cloneAndFreezeJsonObject_self hcloned,
    bind_eq_ok.2 ⟨_, hvalid, bind_eq_ok.2 ⟨key, hkey, rfl⟩⟩⟩⟩

end NewtonDB
