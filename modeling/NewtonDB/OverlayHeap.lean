/-
# Overlays over shared maps

The maps of `src/overlay-map.ts` as objects that hold references: an overlay refers to its
base, several overlays may refer to one, and a call changes the object it is made on.
`MapHeap.call` is one call on any of them, in any order: a plain map appears, an overlay is
constructed over a map, `set` and `delete` of an overlay, `seal`.  Overlays are only
constructed over plain maps and over what `seal` returned.

Beside the heap a run keeps plain maps that received the same calls.  Each object reads as
its plain map (`Run.agrees`), whatever was compacted, and is at most 32 layers deep; a call
leaves every other object as it was (`view_call`), bases among them.
-/

import NewtonDB.OverlayMap
import Mathlib.Data.Set.Insert
import Mathlib.Logic.Function.Basic

namespace NewtonDB

/-- A map object: a plain map, or an overlay with a reference to its base. -/
inductive MapObject (K V : Type) where
  | map (entries : OrderedMap K V)
  | overlay (base : ℕ) (deletions : OrderedSet K) (updates : OrderedMap K V) (size depth : ℕ)

/-- The objects by their addresses, and which overlays are sealed. -/
structure MapHeap (K V : Type) where
  object : ℕ → MapObject K V
  isSealed : ℕ → Bool
  next : ℕ

/-- Why a call throws: the overlay is sealed (`#assertMutable`), or the object has no such
method. -/
inductive MapError where
  | immutable
  | noMethod
  deriving DecidableEq

/-- A call, on an object or of a constructor. -/
inductive MapCall (K V : Type) where
  | map (entries : OrderedMap K V)
  | construct (base : ℕ)
  | set (address : ℕ) (key : K) (value : V)
  | delete (address : ℕ) (key : K)
  | seal (address : ℕ)

namespace MapHeap

variable {K V : Type}

/-- No objects. -/
def empty : MapHeap K V where
  object _ := .map .empty
  isSealed _ := false
  next := 0

/-- The map an object shows to a reader, through so many references. -/
def resolve (h : MapHeap K V) : ℕ → ℕ → ReadonlyMap K V
  | 0, _ => .map .empty
  | fuel + 1, address =>
      match h.object address with
      | .map entries => .map entries
      | .overlay base deletions updates size depth =>
          .overlay (resolve h fuel base) deletions updates size depth

/-- The map an object shows to a reader; a base is older than its overlays. -/
def view (h : MapHeap K V) (address : ℕ) : ReadonlyMap K V := h.resolve (address + 1) address

/-- The overlay at an address, with the map its base shows, and the reference to the base. -/
def overlay? (h : MapHeap K V) (address : ℕ) : Option (OverlayMap K V × ℕ) :=
  match h.object address with
  | .map _ => none
  | .overlay base deletions updates size depth =>
      some (⟨h.view base, deletions, updates, size, depth⟩, base)

/-- A new object. -/
def alloc (h : MapHeap K V) (object : MapObject K V) : MapHeap K V :=
  { h with object := Function.update h.object h.next object, next := h.next + 1 }

/-- The fields of an overlay changed. -/
def write (h : MapHeap K V) (address base : ℕ) (o : OverlayMap K V) : MapHeap K V :=
  { h with
    object := Function.update h.object address
      (.overlay base o.deletions o.updates o.size o.depth) }

/-- A method that changes an overlay. -/
def mutate (h : MapHeap K V) (address : ℕ) (method : OverlayMap K V → OverlayMap K V) :
    Except MapError (MapHeap K V × ℕ) :=
  match h.overlay? address with
  | none => .error .noMethod
  | some (o, base) =>
      if h.isSealed address then .error .immutable
      else .ok (h.write address base (method o), address)

section

variable [DecidableEq K]

/-- `seal`: the overlay is sealed, and returned unless it is compacted into a new map. -/
def sealAt (h : MapHeap K V) (address : ℕ) : Except MapError (MapHeap K V × ℕ) :=
  match h.overlay? address with
  | none => .error .noMethod
  | some (o, _) =>
      let h := { h with isSealed := Function.update h.isSealed address true }
      match o.sealed with
      | .map entries => .ok (h.alloc (.map entries), h.next)
      | .overlay .. => .ok (h, address)

/-- A call, and the object it returns. -/
def call (h : MapHeap K V) : MapCall K V → Except MapError (MapHeap K V × ℕ)
  | .map entries => .ok (h.alloc (.map entries), h.next)
  | .construct base =>
      .ok (h.alloc (.overlay base .empty .empty (h.view base).size ((h.view base).depth + 1)),
        h.next)
  | .set address key value => h.mutate address (·.set key value)
  | .delete address key => h.mutate address (·.delete key)
  | .seal address => h.sealAt address

end

end MapHeap

namespace MapCall

variable {K V : Type} [DecidableEq K]

/-- What the call does to plain maps, one for each object: an overlay begins as a copy of its
base, and what `seal` returns is a copy of what was sealed. -/
def plain (result : ℕ) (p : ℕ → OrderedMap K V) : MapCall K V → ℕ → OrderedMap K V
  | .map entries => Function.update p result entries
  | .construct base => Function.update p result (p base)
  | .set address key value => Function.update p address ((p address).set key value)
  | .delete address key => Function.update p address ((p address).delete key)
  | .seal address => Function.update p result (p address)

omit [DecidableEq K] in
/-- The maps that overlays may be constructed over, after the call. -/
def bases (result : ℕ) (B : Set ℕ) : MapCall K V → Set ℕ
  | .map _ | .seal _ => insert result B
  | _ => B

omit [DecidableEq K] in
/-- The object whose contents the call changes. -/
def target : MapCall K V → Option ℕ
  | .set address _ _ | .delete address _ => some address
  | _ => none

end MapCall

/-- A run of calls, any number of them on any objects in any order, with the plain maps that
received the same calls and the maps that overlays may be constructed over. -/
inductive MapHeap.Run {K V : Type} [DecidableEq K] :
    MapHeap K V → (ℕ → OrderedMap K V) → Set ℕ → Prop where
  | start : Run .empty (fun _ => .empty) ∅
  | call {h h' : MapHeap K V} {p : ℕ → OrderedMap K V} {B : Set ℕ} {c : MapCall K V}
      {result : ℕ} (run : Run h p B) (hbase : ∀ base, c = .construct base → base ∈ B)
      (hcall : h.call c = .ok (h', result)) : Run h' (c.plain result p) (c.bases result B)

/-- A map reads as a plain map: lookups, membership, size, and iteration, which meets each
key of the plain map exactly once with its value. -/
structure ReadonlyMap.Agrees {K V : Type} [DecidableEq K] (m : ReadonlyMap K V)
    (p : OrderedMap K V) : Prop where
  get : ∀ k, m.get k = p.get? k
  has : ∀ k, m.has k = p.has k
  size : m.size = p.size
  keys_nodup : m.keys.Nodup
  entries : m.entries.Perm p.entries

variable {K V : Type} [DecidableEq K]

/-- **Lookups decide the rest.**  The keys are those under which something is found, and the
size is their number. -/
theorem ReadonlyMap.agrees_of_get {m : ReadonlyMap K V} {p : OrderedMap K V} (h : m.WF)
    (hget : ∀ k, m.get k = p.get? k) : m.Agrees p := by
  have hnodup := keys_nodup h
  refine ⟨hget, fun k => ?_, ?_, hnodup, ?_⟩
  · rw [has_eq_isSome, hget, OrderedMap.has]
  · have hplain : (ReadonlyMap.map p).WF := trivial
    exact size_congr h hplain fun k => congrArg Option.isSome (hget k)
  · have hm : m.entries.Nodup := hnodup.of_map Prod.fst
    have hp : p.entries.Nodup := p.nodup.of_map Prod.fst
    refine (List.perm_ext_iff_of_nodup hm hp).2 ?_
    rintro ⟨k, v⟩
    rw [mem_entries_iff h, hget, OrderedMap.get?_eq_some_iff]

namespace MapHeap

variable {h h' : MapHeap K V} {p : ℕ → OrderedMap K V} {B : Set ℕ} {address : ℕ}

/-- The invariant of runs. -/
structure Invariant (h : MapHeap K V) (p : ℕ → OrderedMap K V) (B : Set ℕ) : Prop where
  /-- A base is older than its overlays, and one that overlays may be constructed over. -/
  base : ∀ {address base deletions updates size depth},
    h.object address = .overlay base deletions updates size depth → base < address ∧ base ∈ B
  /-- What overlays are constructed over is not written to any more. -/
  closed : ∀ {base}, base ∈ B →
    base < h.next ∧ (h.overlay? base = none ∨ h.isSealed base = true)
  shallow : ∀ {base}, base ∈ B → (h.view base).depth < 32
  fresh : ∀ {address}, h.next ≤ address → h.overlay? address = none ∧ h.isSealed address = false
  wf : ∀ address, (h.view address).WF
  get : ∀ {address}, address < h.next → ∀ k, (h.view address).get k = (p address).get? k
  depth : ∀ address, (h.view address).depth ≤ 32

/-! ### What a call leaves alone -/

/-- Objects are read through bases only.  A base is one of the objects that are the same in both
heaps, and so are the bases below it. -/
theorem resolve_congr (hinv : h.Invariant p B) (hB : ∀ b ∈ B, h'.object b = h.object b) :
    ∀ (fuel : ℕ) {address : ℕ}, h'.object address = h.object address →
      h'.resolve fuel address = h.resolve fuel address
  | 0, _, _ => rfl
  | fuel + 1, address, hobject => by
      rw [resolve, resolve, hobject]
      split
      · rfl
      · next base _ _ _ _ ho =>
          have hbase := (hinv.base ho).2
          rw [resolve_congr hinv hB fuel (hB base hbase)]

/-- The view of an object depends on that object and on bases only. -/
theorem view_congr (hinv : h.Invariant p B) (hB : ∀ b ∈ B, h'.object b = h.object b)
    (hobject : h'.object address = h.object address) : h'.view address = h.view address :=
  resolve_congr hinv hB _ hobject

/-- More references than there are make no difference.  A base has a smaller address, so the
chain below an object is shorter than its address. -/
theorem resolve_eq_view (hinv : h.Invariant p B) : ∀ {fuel address : ℕ}, address < fuel →
    h.resolve fuel address = h.view address
  | fuel + 1, address, hlt => by
      rw [view, resolve, resolve]
      split
      · rfl
      · next base _ _ _ _ ho =>
          have hbase := (hinv.base ho).1
          rw [resolve_eq_view hinv (show base < fuel by omega), resolve_eq_view hinv hbase]

/-- An overlay that was made or written shows its base under its own changes.  The base is older
and was not changed, so it reads as before. -/
theorem view_overlay (hinv : h.Invariant p B) (hB : ∀ b ∈ B, h'.object b = h.object b)
    {base : ℕ} (hbase : base < address ∧ base ∈ B) {o : OverlayMap K V}
    (ho : h'.object address = .overlay base o.deletions o.updates o.size o.depth)
    (hview : o.base = h.view base) : h'.view address = o.toReadonly := by
  rw [view, resolve, ho]
  dsimp only
  rw [resolve_congr hinv hB address (hB base hbase.2), resolve_eq_view hinv hbase.1, ← hview]
  rfl

omit [DecidableEq K] in
/-- An overlay is an object of its class, and its base is the view of the object it was made
on. -/
theorem overlay?_eq_some {o : OverlayMap K V} {base : ℕ}
    (ho : h.overlay? address = some (o, base)) :
    h.object address = .overlay base o.deletions o.updates o.size o.depth ∧
      o.base = h.view base := by
  unfold overlay? at ho
  split at ho
  · cases ho
  · next hobject =>
      obtain ⟨rfl, rfl⟩ := Prod.mk.inj (Option.some.inj ho)
      exact ⟨hobject, rfl⟩

/-- The overlay at an address is what it shows. -/
theorem view_of_overlay? (hinv : h.Invariant p B) {o : OverlayMap K V} {base : ℕ}
    (ho : h.overlay? address = some (o, base)) : h.view address = o.toReadonly := by
  obtain ⟨hobject, hview⟩ := overlay?_eq_some ho
  exact view_overlay hinv (fun _ _ => rfl) (hinv.base hobject) hobject hview

/-- An overlay has been allocated. -/
theorem lt_next_of_overlay? (hinv : h.Invariant p B) {o : OverlayMap K V} {base : ℕ}
    (ho : h.overlay? address = some (o, base)) : address < h.next := by
  by_contra hlt
  rw [(hinv.fresh (not_lt.1 hlt)).1] at ho
  cases ho

omit [DecidableEq K] in
/-- Whether an object is an overlay is a matter of the object alone. -/
theorem overlay?_eq_none_iff : h.overlay? address = none ↔
    ∃ entries, h.object address = .map entries := by
  unfold overlay?
  split
  · next entries ho => exact iff_of_true rfl ⟨entries, ho⟩
  · next ho => exact iff_of_false (fun hc => by cases hc) fun ⟨_, hc⟩ => by cases ho.symm.trans hc

omit [DecidableEq K] in
/-- Whether an object is an overlay depends on that object only. -/
theorem overlay?_none_congr (hobject : h'.object address = h.object address) :
    h'.overlay? address = none ↔ h.overlay? address = none := by
  rw [overlay?_eq_none_iff, overlay?_eq_none_iff, hobject]

/-! ### Calls keep the invariant -/

/-- The invariant holds of an empty heap.  There is no object yet. -/
theorem invariant_empty : Invariant (empty : MapHeap K V) (fun _ => .empty) ∅ where
  base ho := by cases ho
  closed hb := hb.elim
  shallow hb := hb.elim
  fresh _ := ⟨rfl, rfl⟩
  wf _ := trivial
  get hlt := absurd hlt (Nat.not_lt_zero _)
  depth _ := Nat.zero_le _

omit [DecidableEq K] in
/-- A new object changes no other. -/
theorem object_alloc_of_ne {object : MapObject K V} (hne : address ≠ h.next) :
    (h.alloc object).object address = h.object address :=
  Function.update_of_ne hne ..

omit [DecidableEq K] in
/-- The new object is at the next address. -/
theorem object_alloc_self (object : MapObject K V) : (h.alloc object).object h.next = object :=
  Function.update_self ..

/-- A base stays as it is when an object is allocated, since it was allocated before. -/
theorem object_alloc_of_mem (hinv : h.Invariant p B) (object : MapObject K V) :
    ∀ b ∈ B, (h.alloc object).object b = h.object b := fun _ hb =>
  object_alloc_of_ne (hinv.closed hb).1.ne

/-- **A new object** that shows a well-formed map.  It joins the bases when it is a map of its
own, and must stand on a base when it is an overlay. -/
theorem Invariant.alloc (hinv : h.Invariant p B) {object : MapObject K V} {q : OrderedMap K V}
    {B' : Set ℕ} (hB : B' = B ∨ B' = insert h.next B ∧ ∃ entries, object = .map entries)
    (hbase : ∀ base d u s l, object = .overlay base d u s l → base ∈ B)
    (hwf : ((h.alloc object).view h.next).WF)
    (hget : ∀ k, ((h.alloc object).view h.next).get k = q.get? k)
    (hdepth : ((h.alloc object).view h.next).depth ≤ 32) :
    (h.alloc object).Invariant (Function.update p h.next q) B' := by
  have hsame := object_alloc_of_mem hinv object
  have hview : ∀ {a}, a ≠ h.next → (h.alloc object).view a = h.view a := fun hne =>
    view_congr hinv hsame (object_alloc_of_ne hne)
  have hsub : ∀ {b}, b ∈ B → b ∈ B' := fun {b} hb => by
    obtain rfl | ⟨rfl, -⟩ := hB
    · exact hb
    · exact Set.mem_insert_of_mem _ hb
  have hnew : ∀ {b}, b ∈ B' → b ∈ B ∨ b = h.next ∧ ∃ entries, object = .map entries :=
    fun {b} hb => by
      obtain rfl | ⟨rfl, hmap⟩ := hB
      · exact .inl hb
      · exact hb.symm.imp id fun e => ⟨e, hmap⟩
  have hmapView : (∃ entries, object = .map entries) →
      ∃ entries, (h.alloc object).object h.next = .map entries := fun ⟨entries, he⟩ =>
    ⟨entries, (object_alloc_self object).trans he⟩
  refine ⟨fun {a base d u s l} ho => ?_, fun {b} hb => ?_, fun {b} hb => ?_, fun {a} hlt => ?_,
    fun a => ?_, fun {a} hlt k => ?_, fun a => ?_⟩
  · by_cases ha : a = h.next
    · subst ha
      rw [object_alloc_self] at ho
      have hmem := hbase _ _ _ _ _ ho
      exact ⟨(hinv.closed hmem).1, hsub hmem⟩
    · rw [object_alloc_of_ne ha] at ho
      exact ⟨(hinv.base ho).1, hsub (hinv.base ho).2⟩
  · obtain hb | ⟨rfl, hmap⟩ := hnew hb
    · obtain ⟨hlt, hclosed⟩ := hinv.closed hb
      exact ⟨hlt.trans (Nat.lt_succ_self _),
        hclosed.imp_left (overlay?_none_congr (hsame b hb)).2⟩
    · exact ⟨Nat.lt_succ_self _, .inl (overlay?_eq_none_iff.2 (hmapView hmap))⟩
  · obtain hb | ⟨rfl, hmap⟩ := hnew hb
    · rw [hview (hinv.closed hb).1.ne]
      exact hinv.shallow hb
    · obtain ⟨entries, he⟩ := hmapView hmap
      rw [view, resolve, he]
      exact Nat.zero_lt_succ _
  · have hne : a ≠ h.next := (Nat.lt_of_succ_le hlt).ne'
    obtain ⟨hnone, hsealed⟩ := hinv.fresh (Nat.le_of_succ_le hlt)
    exact ⟨(overlay?_none_congr (object_alloc_of_ne hne)).2 hnone, hsealed⟩
  · by_cases ha : a = h.next
    · rwa [ha]
    · rw [hview ha]
      exact hinv.wf a
  · by_cases ha : a = h.next
    · rw [ha, Function.update_self]
      exact hget k
    · rw [hview ha, Function.update_of_ne ha]
      exact hinv.get (lt_of_le_of_ne (Nat.le_of_lt_succ hlt) ha) k
  · by_cases ha : a = h.next
    · rwa [ha]
    · rw [hview ha]
      exact hinv.depth a

/-- What a method that changes an overlay must do: like the one of plain maps. -/
structure MethodSpec (method : OverlayMap K V → OverlayMap K V)
    (plain : OrderedMap K V → OrderedMap K V) : Prop where
  base : ∀ o, (method o).base = o.base
  depth : ∀ o, (method o).depth = o.depth
  wf : ∀ {o}, o.WF → (method o).WF
  get : ∀ {o q}, (∀ k, o.get k = q.get? k) → ∀ k, (method o).get k = (plain q).get? k

/-- `set` of an overlay is `set` of the map it stands for, and keeps the overlay well formed. -/
theorem set_spec (key : K) (value : V) :
    MethodSpec (K := K) (·.set key value) (·.set key value) where
  base _ := rfl
  depth _ := rfl
  wf ho := OverlayMap.wf_set ho key value
  get hq k := by rw [OverlayMap.get_set, OrderedMap.get?_set, hq]

/-- `delete` of an overlay is `delete` of the map it stands for, and keeps the overlay well
formed. -/
theorem delete_spec (key : K) : MethodSpec (V := V) (·.delete key) (·.delete key) where
  base o := by
    dsimp only [OverlayMap.delete]
    split <;> rfl
  depth o := by
    dsimp only [OverlayMap.delete]
    split <;> rfl
  wf ho := OverlayMap.wf_delete ho key
  get hq k := by rw [OverlayMap.get_delete, OrderedMap.get?_delete, hq]

omit [DecidableEq K] in
/-- **A call that changes an overlay** found one that is not sealed, wrote the changed one to
its place and returned it. -/
theorem mutate_eq_ok {method : OverlayMap K V → OverlayMap K V} {result : ℕ}
    (hcall : h.mutate address method = .ok (h', result)) : ∃ o base,
      h.overlay? address = some (o, base) ∧ h.isSealed address = false ∧
        h' = h.write address base (method o) ∧ result = address := by
  unfold mutate at hcall
  split at hcall
  · cases hcall
  · next o base ho =>
      split_ifs at hcall with hs
      obtain ⟨rfl, rfl⟩ := Prod.mk.inj (Except.ok.inj hcall)
      exact ⟨o, base, ho, Bool.eq_false_iff.2 hs, rfl, rfl⟩

/-- An overlay that can be written to is no base. -/
theorem not_mem_bases (hinv : h.Invariant p B) {o : OverlayMap K V} {base : ℕ}
    (ho : h.overlay? address = some (o, base)) (hs : h.isSealed address = false) : address ∉ B :=
  fun hm => by
    obtain hnone | hsealed := (hinv.closed hm).2
    · cases hnone.symm.trans ho
    · cases hs.symm.trans hsealed

omit [DecidableEq K] in
/-- A call that changes an overlay leaves every other object as it is. -/
theorem object_mutate_of_ne {method : OverlayMap K V → OverlayMap K V} {result a : ℕ}
    (hcall : h.mutate address method = .ok (h', result)) (hne : a ≠ address) :
    h'.object a = h.object a := by
  obtain ⟨o, base, -, -, rfl, -⟩ := mutate_eq_ok hcall
  exact Function.update_of_ne hne ..

/-- **A call that changes an overlay changes no base**: what is a base is sealed, or is no
overlay. -/
theorem object_mutate_of_mem (hinv : h.Invariant p B) {method : OverlayMap K V → OverlayMap K V}
    {result : ℕ} (hcall : h.mutate address method = .ok (h', result)) :
    ∀ b ∈ B, h'.object b = h.object b := fun b hb => by
  obtain ⟨o, base, ho, hs, -⟩ := mutate_eq_ok hcall
  refine object_mutate_of_ne hcall ?_
  rintro rfl
  exact not_mem_bases hinv ho hs hb

/-- **A method that changes an overlay** does to it what it does to its plain map.  The base is
not touched, and the other overlays on it stand on what they stood on. -/
theorem Invariant.mutate (hinv : h.Invariant p B) {method : OverlayMap K V → OverlayMap K V}
    {plain : OrderedMap K V → OrderedMap K V} (hspec : MethodSpec method plain) {result : ℕ}
    (hcall : h.mutate address method = .ok (h', result)) :
    h'.Invariant (Function.update p address (plain (p address))) B := by
  have hsame := object_mutate_of_mem hinv hcall
  have hother : ∀ {a}, a ≠ address → h'.view a = h.view a := fun hne =>
    view_congr hinv hsame (object_mutate_of_ne hcall hne)
  have hne : ∀ {a}, a ≠ address → h'.object a = h.object a := fun ha =>
    object_mutate_of_ne hcall ha
  obtain ⟨o, base, ho, hs, rfl, -⟩ := mutate_eq_ok hcall
  obtain ⟨hobject, hbaseView⟩ := overlay?_eq_some ho
  have hself : (h.write address base (method o)).view address = (method o).toReadonly :=
    view_overlay hinv hsame (hinv.base hobject) (Function.update_self ..)
      ((hspec.base o).trans hbaseView)
  have hview := view_of_overlay? hinv ho
  have hwf : o.toReadonly.WF := hview ▸ hinv.wf address
  have hnot := not_mem_bases hinv ho hs
  refine ⟨fun {a b d u s l} hoa => ?_, fun {b} hb => ?_, fun {b} hb => ?_, fun {a} hle => ?_,
    fun a => ?_, fun {a} hlt k => ?_, fun a => ?_⟩
  · by_cases ha : a = address
    · subst ha
      have hwritten : (h.write a base (method o)).object a = .overlay base (method o).deletions
          (method o).updates (method o).size (method o).depth := Function.update_self ..
      obtain ⟨rfl, -⟩ := MapObject.overlay.inj (hwritten.symm.trans hoa)
      exact hinv.base hobject
    · rw [hne ha] at hoa
      exact hinv.base hoa
  · obtain ⟨hlt, hclosed⟩ := hinv.closed hb
    exact ⟨hlt, hclosed.imp_left (overlay?_none_congr (hsame b hb)).2⟩
  · have hb' : b ≠ address := fun e => hnot (e ▸ hb)
    rw [hother hb']
    exact hinv.shallow hb
  · have ha : a ≠ address := ((lt_next_of_overlay? hinv ho).trans_le hle).ne'
    obtain ⟨hnone, hsealed⟩ := hinv.fresh hle
    exact ⟨(overlay?_none_congr (hne ha)).2 hnone, hsealed⟩
  · by_cases ha : a = address
    · rw [ha, hself]
      exact hspec.wf hwf
    · rw [hother ha]
      exact hinv.wf a
  · by_cases ha : a = address
    · subst ha
      rw [hself, Function.update_self]
      refine hspec.get (fun k => ?_) k
      have hget := hinv.get hlt k
      rwa [hview] at hget
    · rw [hother ha, Function.update_of_ne ha]
      exact hinv.get hlt k
  · by_cases ha : a = address
    · subst ha
      have hdepth := hinv.depth a
      rw [hview] at hdepth
      rw [hself]
      exact (hspec.depth o).trans_le hdepth
    · rw [hother ha]
      exact hinv.depth a

/-- What `seal` returns: a compacted copy, or the overlay itself, with room for a layer more. -/
theorem sealed_cases (o : OverlayMap K V) :
    (∃ entries, o.sealed = .map entries) ∨ o.sealed = o.toReadonly ∧ o.depth < 32 := by
  unfold OverlayMap.sealed
  dsimp only
  split_ifs with hc
  · exact .inl ⟨_, rfl⟩
  · exact .inr ⟨rfl, not_le.1 fun hd => hc (.inl hd)⟩

/-- Sealing an overlay changes no object.  The flag is looked at by the mutating methods
only. -/
theorem Invariant.flag (hinv : h.Invariant p B) (hlt : address < h.next) :
    Invariant { h with isSealed := Function.update h.isSealed address true } p B := by
  have hview : ∀ a, view { h with isSealed := Function.update h.isSealed address true } a =
      h.view a := fun a => view_congr hinv (fun _ _ => rfl) rfl
  have hnone : ∀ {a}, h.overlay? a = none →
      overlay? { h with isSealed := Function.update h.isSealed address true } a = none :=
    fun {a} ho => by
      obtain ⟨entries, he⟩ := overlay?_eq_none_iff.1 ho
      exact overlay?_eq_none_iff.2 ⟨entries, he⟩
  refine ⟨hinv.base, fun {b} hb => ?_, fun {b} hb => ?_, fun {a} hle => ?_, fun a => ?_,
    fun {a} hlt' k => ?_, fun a => ?_⟩
  · obtain ⟨hb', hclosed⟩ := hinv.closed hb
    refine ⟨hb', hclosed.imp hnone fun hs => ?_⟩
    by_cases hba : b = address
    · rw [hba]
      exact Function.update_self ..
    · exact (Function.update_of_ne hba ..).trans hs
  · rw [hview]
    exact hinv.shallow hb
  · obtain ⟨ho, hs⟩ := hinv.fresh hle
    exact ⟨hnone ho, (Function.update_of_ne (hlt.trans_le hle).ne' ..).trans hs⟩
  · rw [hview]
    exact hinv.wf a
  · rw [hview]
    exact hinv.get hlt' k
  · rw [hview]
    exact hinv.depth a

/-- **`seal`** returns a map that reads like the overlay.  It is the overlay itself, closed to
changes, or a map of its own where overlays were stacked too deep. -/
theorem Invariant.seal (hinv : h.Invariant p B) {result : ℕ}
    (hcall : h.sealAt address = .ok (h', result)) :
    h'.Invariant (Function.update p result (p address)) (insert result B) := by
  unfold sealAt at hcall
  split at hcall
  · cases hcall
  · next o base ho =>
      have hlt := lt_next_of_overlay? hinv ho
      have hview := view_of_overlay? hinv ho
      have hwf : o.toReadonly.WF := hview ▸ hinv.wf address
      have hget : ∀ k, o.get k = (p address).get? k := fun k => by
        have hk := hinv.get hlt k
        rwa [hview] at hk
      have hflag := hinv.flag hlt
      dsimp only at hcall
      obtain ⟨entries, he⟩ | ⟨he, hdepth⟩ := sealed_cases o
      · rw [he] at hcall
        obtain ⟨rfl, rfl⟩ := Prod.mk.inj (Except.ok.inj hcall)
        refine hflag.alloc (.inr ⟨rfl, entries, rfl⟩) (fun _ _ _ _ _ hc => by cases hc) ?_
          (fun k => ?_) ?_
        · rw [view, resolve, object_alloc_self]
          trivial
        · have hk := OverlayMap.get_sealed hwf k
          rw [view, resolve, object_alloc_self]
          dsimp only
          rw [← he, hk, hget]
        · rw [view, resolve, object_alloc_self]
          exact Nat.zero_le _
      · rw [he] at hcall
        obtain ⟨rfl, rfl⟩ := Prod.mk.inj (Except.ok.inj hcall)
        rw [Function.update_eq_self]
        refine { hflag with
          base := fun hoa => ?_, closed := fun {b} hb => ?_, shallow := fun {b} hb => ?_ }
        · exact ⟨(hflag.base hoa).1, Set.mem_insert_of_mem _ (hflag.base hoa).2⟩
        · obtain rfl | hb := hb
          · exact ⟨hlt, .inr (Function.update_self ..)⟩
          · exact hflag.closed hb
        · obtain rfl | hb := hb
          · have hsame : view { h with isSealed := Function.update h.isSealed b true } b =
                h.view b := view_congr hinv (fun _ _ => rfl) rfl
            rw [hsame, hview]
            exact hdepth
          · exact hflag.shallow hb

/-- **One call.**  One case for each method: one that changes, `seal`, or the making of an
overlay. -/
theorem Invariant.call (hinv : h.Invariant p B) {c : MapCall K V} {result : ℕ}
    (hbase : ∀ base, c = .construct base → base ∈ B) (hcall : h.call c = .ok (h', result)) :
    h'.Invariant (c.plain result p) (c.bases result B) := by
  cases c with
  | map entries =>
      obtain ⟨rfl, rfl⟩ := Prod.mk.inj (Except.ok.inj hcall)
      have hview : (h.alloc (.map entries)).view h.next = .map entries := by
        rw [view, resolve, object_alloc_self]
      refine hinv.alloc (.inr ⟨rfl, entries, rfl⟩) (fun _ _ _ _ _ hc => by cases hc) ?_
        (fun k => ?_) ?_
      · rw [hview]
        trivial
      · rw [hview]
        rfl
      · rw [hview]
        exact Nat.zero_le _
  | construct base =>
      obtain ⟨rfl, rfl⟩ := Prod.mk.inj (Except.ok.inj hcall)
      have hmem := hbase base rfl
      have hlt := (hinv.closed hmem).1
      have hview : (h.alloc (.overlay base .empty .empty (h.view base).size
          ((h.view base).depth + 1))).view h.next = (OverlayMap.new (h.view base)).toReadonly :=
        view_overlay hinv (object_alloc_of_mem hinv _) ⟨hlt, hmem⟩ (object_alloc_self _) rfl
      refine hinv.alloc (.inl rfl) (fun _ _ _ _ _ hc => ?_) ?_ (fun k => ?_) ?_
      · obtain ⟨rfl, -⟩ := MapObject.overlay.inj hc
        exact hmem
      · rw [hview]
        exact OverlayMap.wf_new (hinv.wf base)
      · rw [hview]
        exact (OverlayMap.get_new _ k).trans (hinv.get hlt k)
      · rw [hview]
        exact Nat.succ_le_of_lt (hinv.shallow hmem)
  | set address key value => exact hinv.mutate (set_spec key value) hcall
  | delete address key => exact hinv.mutate (delete_spec key) hcall
  | «seal» address => exact hinv.seal hcall

/-- **Every run.**  By induction on the calls. -/
theorem Run.invariant (hrun : Run h p B) : h.Invariant p B := by
  induction hrun with
  | start => exact invariant_empty
  | call _ hbase hcall ih => exact ih.call hbase hcall

/-- **A call leaves every object alone** but the one it changes the contents of.  A base in
particular, so that overlays on one base do not see each other. -/
theorem Invariant.view_call (hinv : h.Invariant p B) {c : MapCall K V} {result : ℕ}
    (hcall : h.call c = .ok (h', result)) (hlt : address < h.next)
    (htarget : c.target ≠ some address) : h'.view address = h.view address := by
  cases c with
  | map entries =>
      obtain ⟨rfl, -⟩ := Prod.mk.inj (Except.ok.inj hcall)
      exact view_congr hinv (object_alloc_of_mem hinv _) (object_alloc_of_ne hlt.ne)
  | construct base =>
      obtain ⟨rfl, -⟩ := Prod.mk.inj (Except.ok.inj hcall)
      exact view_congr hinv (object_alloc_of_mem hinv _) (object_alloc_of_ne hlt.ne)
  | set a key value =>
      exact view_congr hinv (object_mutate_of_mem hinv hcall)
        (object_mutate_of_ne hcall fun e => htarget (congrArg some e.symm))
  | delete a key =>
      exact view_congr hinv (object_mutate_of_mem hinv hcall)
        (object_mutate_of_ne hcall fun e => htarget (congrArg some e.symm))
  | «seal» a =>
      change h.sealAt a = _ at hcall
      unfold sealAt at hcall
      split at hcall
      · cases hcall
      · next o base ho =>
          have hflag := hinv.flag (lt_next_of_overlay? hinv ho)
          have hsame : view { h with isSealed := Function.update h.isSealed a true } address =
              h.view address := view_congr hinv (fun _ _ => rfl) rfl
          dsimp only at hcall
          split at hcall
          · obtain ⟨rfl, -⟩ := Prod.mk.inj (Except.ok.inj hcall)
            exact (view_congr hflag (object_alloc_of_mem hflag _)
              (object_alloc_of_ne hlt.ne)).trans hsame
          · obtain ⟨rfl, -⟩ := Prod.mk.inj (Except.ok.inj hcall)
            exact hsame

/-- **Overlay maps are maps.**  After any run, each object reads as the plain map that
received the same calls and is at most 32 layers deep; a call that follows leaves every object
it is not made on, the bases among them, as it was. -/
theorem overlay_maps_are_maps (hrun : Run h p B) :
    (∀ address < h.next, (h.view address).Agrees (p address) ∧ (h.view address).depth ≤ 32) ∧
    ∀ (c : MapCall K V) (h' : MapHeap K V) (result : ℕ), h.call c = .ok (h', result) →
      ∀ address < h.next, c.target ≠ some address → h'.view address = h.view address := by
  have hinv := hrun.invariant
  refine ⟨fun address hlt => ⟨?_, hinv.depth address⟩, fun c h' result hcall address hlt htarget =>
    hinv.view_call hcall hlt htarget⟩
  exact ReadonlyMap.agrees_of_get (hinv.wf address) (hinv.get hlt)

/-- A key deleted from a sealed overlay over a map that has it, and another one set.
The theorem gives its size, its keys and its lookups. -/
theorem sealed_overlay_agrees : ∃ (h : MapHeap ℕ ℕ) (p : ℕ → OrderedMap ℕ ℕ),
    (p 1).entries = [(2, 20)] ∧ (p 0).entries = [(1, 10)] ∧
      (h.view 1).Agrees (p 1) ∧ (h.view 1).depth ≤ 32 := by
  have hmap := Run.call (c := .map (OrderedMap.ofList [(1, 10)])) (Run.start (K := ℕ) (V := ℕ))
    (fun _ hc => by cases hc) rfl
  have hnew := Run.call (c := .construct 0) hmap
    (fun base hc => MapCall.construct.inj hc ▸ Set.mem_insert ..) rfl
  have hset := Run.call (c := .set 1 2 20) hnew (fun _ hc => by cases hc) rfl
  have hdelete := Run.call (c := .delete 1 1) hset (fun _ hc => by cases hc) rfl
  have hseal := Run.call (c := .seal 1) hdelete (fun _ hc => by cases hc) rfl
  exact ⟨_, _, by decide, by decide, (overlay_maps_are_maps hseal).1 1 (by decide)⟩

end MapHeap

end NewtonDB
