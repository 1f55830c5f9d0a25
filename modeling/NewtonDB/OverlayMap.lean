/-
# Overlay maps

`OverlayMap` of `src/overlay-map.ts`: a copy-on-write map that records the keys
deleted from and the values set over a base it never changes.  Sealing makes it
immutable and gives back either itself, to serve as the base of later overlays,
or a compacted plain copy.  The two stages have two types: `OverlayMap` is the
mutable one of a transaction, `ReadonlyMap` what a committed collection holds,
so a sealed overlay cannot be written to.

`get_set` and `get_delete` say that an overlay reads like the map that received
the calls, `get_sealed` that sealing keeps that, and `WF` that the running size is
the number of entries.
-/

import NewtonDB.Lib.OrderedMap
import Mathlib.Data.List.Perm.Basic
import Mathlib.Data.List.Nodup

namespace NewtonDB

/-- A map that is only read: a plain map, or a sealed overlay. -/
inductive ReadonlyMap (K V : Type) where
  | map (entries : OrderedMap K V)
  | overlay (base : ReadonlyMap K V) (deletions : OrderedSet K) (updates : OrderedMap K V)
      (size depth : ℕ)

/-- An overlay that is still written to. -/
structure OverlayMap (K V : Type) where
  base : ReadonlyMap K V
  deletions : OrderedSet K
  updates : OrderedMap K V
  size : ℕ
  depth : ℕ

/-- A map that can be read, with the invariant of its representation. -/
class MapView (M : Type) (K V : outParam Type) where
  get : M → K → Option V
  WF : M → Prop

/-- A map with the mutating operations (`MutableMap`). -/
class MutableMap (M : Type) (K V : outParam Type) extends MapView M K V where
  set : M → K → V → M
  delete : M → K → M

/-- What the operations of a mutable map do to its lookups. -/
class LawfulMutableMap (M : Type) (K V : outParam Type) [DecidableEq K] [MutableMap M K V] :
    Prop where
  get_set (m : M) (k k' : K) (v : V) :
    MapView.get (MutableMap.set m k v) k' = if k = k' then some v else MapView.get m k'
  get_delete (m : M) (k k' : K) :
    MapView.get (MutableMap.delete m k) k' = if k = k' then none else MapView.get m k'
  wf_set {m : M} (h : MapView.WF m) (k : K) (v : V) : MapView.WF (MutableMap.set m k v)
  wf_delete {m : M} (h : MapView.WF m) (k : K) : MapView.WF (MutableMap.delete m k)

variable {K V : Type} [DecidableEq K]

instance : MutableMap (OrderedMap K V) K V where
  get := OrderedMap.get?
  WF _ := True
  set := OrderedMap.set
  delete := OrderedMap.delete

instance : LawfulMutableMap (OrderedMap K V) K V where
  get_set := OrderedMap.get?_set
  get_delete := OrderedMap.get?_delete
  wf_set _ _ _ := trivial
  wf_delete _ _ := trivial

namespace ReadonlyMap

/-- `get`. -/
def get : ReadonlyMap K V → K → Option V
  | .map entries, k => entries.get? k
  | .overlay base deletions updates _ _, k =>
      if updates.has k then updates.get? k
      else if deletions.has k then none
      else get base k

/-- `has`. -/
def has : ReadonlyMap K V → K → Bool
  | .map entries, k => entries.has k
  | .overlay base deletions updates _ _, k =>
      updates.has k || (!deletions.has k && has base k)

omit [DecidableEq K] in
/-- `size`. -/
def size : ReadonlyMap K V → ℕ
  | .map entries => entries.size
  | .overlay _ _ _ size _ => size

omit [DecidableEq K] in
/-- The layers above the plain map. -/
def depth : ReadonlyMap K V → ℕ
  | .map _ => 0
  | .overlay _ _ _ _ depth => depth

/-- `#iterateEntries`. -/
def entries : ReadonlyMap K V → List (K × V)
  | .map entries => entries.entries
  | .overlay base deletions updates _ _ =>
      ((entries base).filter fun e => !deletions.has e.1).map
          (fun e => (e.1, (updates.get? e.1).getD e.2)) ++
        updates.entries.filter fun e => !has base e.1

/-- `keys`. -/
def keys (m : ReadonlyMap K V) : List K := m.entries.map Prod.fst

/-- No key is both set and deleted, and the running size is the number of
entries, in every layer. -/
def WF : ReadonlyMap K V → Prop
  | .map _ => True
  | .overlay base deletions updates size depth =>
      base.WF ∧ (∀ k, updates.has k → deletions.has k = false) ∧
        size = (ReadonlyMap.overlay base deletions updates size depth).entries.length

instance : MapView (ReadonlyMap K V) K V where
  get := ReadonlyMap.get
  WF := ReadonlyMap.WF

/-- A map has what it gets.  By induction on the layers. -/
theorem has_eq_isSome (m : ReadonlyMap K V) (k : K) : m.has k = (m.get k).isSome := by
  induction m with
  | map entries => rfl
  | overlay base deletions updates _ _ ih =>
      rw [has, get, ih]
      by_cases hu : updates.has k
      · rw [if_pos hu, hu, Bool.true_or]; exact hu.symm
      · by_cases hd : deletions.has k <;> simp [hu, hd]

/-- A map has exactly its keys.  An overlay has the keys below that are not deleted, and its
own. -/
theorem has_iff_mem_keys {m : ReadonlyMap K V} (h : m.WF) (k : K) :
    m.has k = true ↔ k ∈ m.keys := by
  induction m with
  | map entries => exact OrderedMap.has_iff
  | overlay base deletions updates s d ih =>
      have hb := ih h.1
      have hu : updates.has k = true ↔ k ∈ updates.entries.map Prod.fst := OrderedMap.has_iff
      have hl : k ∈ (ReadonlyMap.overlay base deletions updates s d).keys ↔
          (k ∈ base.keys ∧ deletions.has k = false) ∨ (updates.has k ∧ base.has k = false) := by
        rw [hu, keys, entries, List.map_append, List.mem_append]
        refine or_congr ?_ ?_
        · simp only [List.map_map, List.mem_map, List.mem_filter, keys, Function.comp_apply]
          constructor
          · rintro ⟨e, ⟨he, hd⟩, rfl⟩; exact ⟨⟨e, he, rfl⟩, by simpa using hd⟩
          · rintro ⟨⟨e, he, rfl⟩, hd⟩; exact ⟨e, ⟨he, by simpa using hd⟩, rfl⟩
        · simp only [List.mem_map, List.mem_filter]
          constructor
          · rintro ⟨e, ⟨he, hd⟩, rfl⟩; exact ⟨⟨e, he, rfl⟩, by simpa using hd⟩
          · rintro ⟨⟨e, he, rfl⟩, hd⟩; exact ⟨e, ⟨he, by simpa using hd⟩, rfl⟩
      rw [hl, has, ← hb]
      have hdisj := h.2.1 k
      cases hU : updates.has k <;> cases hD : deletions.has k <;> cases hB : base.has k <;>
        simp_all

/-- The keys of a map are unique.  A key that was updated is taken out of those below. -/
theorem keys_nodup {m : ReadonlyMap K V} (h : m.WF) : m.keys.Nodup := by
  induction m with
  | map entries => exact entries.nodup
  | overlay base deletions updates s d ih =>
      have hb := has_iff_mem_keys h.1
      rw [keys, entries, List.map_append]
      refine List.nodup_append.2 ⟨?_, ?_, ?_⟩
      · have : (((entries base).filter fun e => !deletions.has e.1).map
            fun e => (e.1, (updates.get? e.1).getD e.2)).map Prod.fst =
            base.keys.filter fun k => !deletions.has k := by
          rw [List.map_map, keys, List.filter_map]; rfl
        rw [this]
        exact (ih h.1).filter _
      · have : (updates.entries.filter fun e => !has base e.1).map Prod.fst =
            updates.keys.filter fun k => !has base k := by
          rw [OrderedMap.keys, List.filter_map]; rfl
        rw [this]
        exact updates.nodup.filter _
      · intro a ha b hb'
        obtain ⟨e, he, rfl⟩ := List.mem_map.1 ha
        obtain ⟨e', he', rfl⟩ := List.mem_map.1 he
        obtain ⟨f, hf, rfl⟩ := List.mem_map.1 hb'
        have h1 : base.has e'.1 = true :=
          (hb _).2 (List.mem_map_of_mem (List.mem_filter.1 he').1)
        have h2 := (List.mem_filter.1 hf).2
        rintro heq
        rw [← heq] at h2
        simp [h1] at h2

/-- **The entries are the lookups**, each key once.  The entries of the base that are neither
deleted nor updated come first, the updates behind them. -/
theorem mem_entries_iff {m : ReadonlyMap K V} (h : m.WF) (k : K) (v : V) :
    (k, v) ∈ m.entries ↔ m.get k = some v := by
  induction m generalizing v with
  | map entries => exact OrderedMap.get?_eq_some_iff.symm
  | overlay base deletions updates s d ih =>
      have hb := ih h.1
      have hdisj := h.2.1 k
      have hbase := has_eq_isSome base k
      rw [entries, get, List.mem_append]
      simp only [List.mem_map, List.mem_filter, Prod.mk.injEq]
      have hleft : (∃ a, (a ∈ base.entries ∧ (!deletions.has a.1) = true) ∧ a.1 = k ∧
          (updates.get? a.1).getD a.2 = v) ↔
          deletions.has k = false ∧ ∃ w, base.get k = some w ∧ (updates.get? k).getD w = v := by
        constructor
        · rintro ⟨a, ⟨ha, hd⟩, rfl, rfl⟩
          exact ⟨by simpa using hd, a.2, (hb a.2).1 ha, rfl⟩
        · rintro ⟨hd, w, hw, rfl⟩
          exact ⟨(k, w), ⟨(hb w).2 hw, by simpa using hd⟩, rfl, rfl⟩
      have hright : ((k, v) ∈ updates.entries ∧ (!base.has k) = true) ↔
          updates.get? k = some v ∧ base.get k = none := by
        rw [← OrderedMap.get?_eq_some_iff, hbase]
        cases base.get k <;> simp
      rw [hleft, hright]
      have hU : updates.has k = (updates.get? k).isSome := rfl
      cases hu : updates.get? k with
      | none => cases hd : deletions.has k <;> simp_all
      | some u =>
          have := hdisj (by rw [hU, hu]; rfl)
          cases hbk : base.get k <;> simp_all

/-- The size of a map is the number of its keys. -/
theorem size_eq {m : ReadonlyMap K V} (h : m.WF) : m.size = m.keys.length := by
  cases m with
  | map entries => exact entries.size_eq_keys
  | overlay base deletions updates s d => simpa [size, keys] using h.2.2

/-- Equal lookups give equal sizes. -/
theorem size_congr {m m' : ReadonlyMap K V} (h : m.WF) (h' : m'.WF)
    (heq : ∀ k, (m.get k).isSome = (m'.get k).isSome) : m.size = m'.size := by
  rw [size_eq h, size_eq h']
  refine List.Perm.length_eq ((List.perm_ext_iff_of_nodup (keys_nodup h) (keys_nodup h')).2 ?_)
  intro k
  rw [← has_iff_mem_keys h, ← has_iff_mem_keys h', has_eq_isSome, has_eq_isSome, heq]

end ReadonlyMap

namespace OverlayMap

/-- `new OverlayMap(base)`. -/
def new (base : ReadonlyMap K V) : OverlayMap K V where
  base := base
  deletions := .empty
  updates := .empty
  size := base.size
  depth := base.depth + 1

/-- The overlay, to be read. -/
def toReadonly (o : OverlayMap K V) : ReadonlyMap K V :=
  .overlay o.base o.deletions o.updates o.size o.depth

/-- `get`. -/
def get (o : OverlayMap K V) (k : K) : Option V := o.toReadonly.get k

/-- `has`. -/
def has (o : OverlayMap K V) (k : K) : Bool := o.toReadonly.has k

/-- `changedCount`. -/
def changedCount (o : OverlayMap K V) : ℕ := o.deletions.size + o.updates.size

/-- `set`. -/
def set (o : OverlayMap K V) (k : K) (v : V) : OverlayMap K V :=
  { o with
    deletions := o.deletions.delete k
    updates := o.updates.set k v
    size := if o.has k then o.size else o.size + 1 }

/-- `delete`. -/
def delete (o : OverlayMap K V) (k : K) : OverlayMap K V :=
  if o.has k then
    { o with
      updates := o.updates.delete k
      deletions := o.deletions.set k ()
      size := o.size - 1 }
  else o

/-- `seal()`: the overlay itself, or a compacted copy. -/
def sealed (o : OverlayMap K V) : ReadonlyMap K V :=
  let compactThreshold := max 256 ((o.base.size + 3) / 4)
  if 32 ≤ o.depth ∨ compactThreshold ≤ o.changedCount then
    .map (OrderedMap.ofList o.toReadonly.entries)
  else o.toReadonly

/-- The overlay is well formed when it is so to read. -/
def WF (o : OverlayMap K V) : Prop := o.toReadonly.WF

instance : MutableMap (OverlayMap K V) K V where
  get := OverlayMap.get
  WF := OverlayMap.WF
  set := OverlayMap.set
  delete := OverlayMap.delete

/-- An overlay has what it gets. -/
theorem has_eq_isSome (o : OverlayMap K V) (k : K) : o.has k = (o.get k).isSome :=
  ReadonlyMap.has_eq_isSome ..

/-- A new overlay gets what its base gets. -/
@[simp] theorem get_new (base : ReadonlyMap K V) (k : K) : (new base).get k = base.get k := by
  simp [new, get, toReadonly, ReadonlyMap.get, OrderedMap.has]

/-- **`get` after `set`**: the new value under the key, and under any other what was there.  A
deletion of the key, if there was one, is taken back. -/
theorem get_set (o : OverlayMap K V) (k k' : K) (v : V) :
    (o.set k v).get k' = if k = k' then some v else o.get k' := by
  simp only [get, toReadonly, set, ReadonlyMap.get, OrderedMap.has_set, OrderedMap.has_delete,
    OrderedMap.get?_set]
  by_cases h : k = k' <;> simp [h]

/-- **`get` after `delete`**: nothing under the key, and under any other what was there.  An
update of the key is taken back, and a key of the base is marked. -/
theorem get_delete (o : OverlayMap K V) (k k' : K) :
    (o.delete k).get k' = if k = k' then none else o.get k' := by
  unfold delete
  split_ifs with hk h h
  · subst h
    simp [get, toReadonly, ReadonlyMap.get, OrderedMap.has_set, OrderedMap.has_delete]
  · simp [get, toReadonly, ReadonlyMap.get, OrderedMap.has_set, OrderedMap.has_delete,
      OrderedMap.get?_delete, h]
  · subst h
    rw [has_eq_isSome] at hk
    simpa using hk
  · rfl

/-- Whatever its size field, an overlay of a well-formed map with disjoint changes
has the entries of a well-formed one. -/
theorem wf_of_disjoint {base : ReadonlyMap K V} {deletions : OrderedSet K}
    {updates : OrderedMap K V} (hb : base.WF)
    (hd : ∀ k, updates.has k → deletions.has k = false) (d : ℕ) :
    (ReadonlyMap.overlay base deletions updates
      (ReadonlyMap.overlay base deletions updates 0 d).entries.length d).WF := ⟨hb, hd, rfl⟩

/-- A well-formed map with one key more has one entry more.  The keys are those from before and
the new one, in some order, and the size is their number. -/
theorem size_insert {m m' : ReadonlyMap K V} (h : m.WF) (h' : m'.WF) {k : K}
    (hk : m.has k = false) (hmem : ∀ x, m'.has x = (decide (k = x) || m.has x)) :
    m'.size = m.size + 1 := by
  have hp : m'.keys.Perm (k :: m.keys) := by
    refine (List.perm_ext_iff_of_nodup (ReadonlyMap.keys_nodup h')
      (List.nodup_cons.2 ⟨?_, ReadonlyMap.keys_nodup h⟩)).2 fun x => ?_
    · rw [← ReadonlyMap.has_iff_mem_keys h, hk]; simp
    · rw [← ReadonlyMap.has_iff_mem_keys h', hmem, List.mem_cons, ← ReadonlyMap.has_iff_mem_keys h,
        Bool.or_eq_true, decide_eq_true_iff, eq_comm]
  rw [ReadonlyMap.size_eq h', ReadonlyMap.size_eq h, hp.length_eq, List.length_cons]

/-- A new overlay is well formed. -/
theorem wf_new {base : ReadonlyMap K V} (h : base.WF) : (new base).WF := by
  refine ⟨h, fun k hk => by simp [new, OrderedMap.has] at hk, ?_⟩
  rw [show (new base).size = base.size from rfl, ReadonlyMap.size_eq h]
  simp [new, ReadonlyMap.entries, ReadonlyMap.keys, OrderedMap.has]

/-- `set` keeps an overlay well formed: its size counts a key that its base or its updates did
not have. -/
theorem wf_set {o : OverlayMap K V} (h : o.WF) (k : K) (v : V) : (o.set k v).WF := by
  have hd : ∀ x, (o.updates.set k v).has x → (o.deletions.delete k).has x = false := by
    intro x hx
    rw [OrderedMap.has_set] at hx
    rw [OrderedMap.has_delete]
    by_cases hkx : k = x
    · simp [hkx]
    · simp only [hkx, decide_false, Bool.false_or] at hx
      simp [h.2.1 x hx]
  refine ⟨h.1, hd, ?_⟩
  have hwf := wf_of_disjoint h.1 hd o.depth
  have hhas : ∀ x, (o.set k v).has x = (decide (k = x) || o.has x) := fun x => by
    rw [has_eq_isSome, get_set, has_eq_isSome]
    by_cases hkx : k = x <;> simp [hkx]
  show (if o.has k then o.size else o.size + 1) = _
  split_ifs with hk
  · refine (ReadonlyMap.size_congr hwf h fun x => ?_).symm
    show ((o.set k v).get x).isSome = (o.get x).isSome
    rw [← has_eq_isSome, ← has_eq_isSome, hhas]
    by_cases hkx : k = x
    · subst hkx; simp [hk]
    · simp [hkx]
  · exact (size_insert h hwf (Bool.eq_false_iff.2 hk) hhas).symm

/-- `delete` keeps an overlay well formed: its size loses a key that was there, and a deletion
is of a key of the base. -/
theorem wf_delete {o : OverlayMap K V} (h : o.WF) (k : K) : (o.delete k).WF := by
  by_cases hk : o.has k
  · have hd : ∀ x, (o.updates.delete k).has x → (o.deletions.set k ()).has x = false := by
      intro x hx
      rw [OrderedMap.has_delete, Bool.and_eq_true] at hx
      rw [OrderedMap.has_set, h.2.1 x hx.2]
      simpa using hx.1
    have hwf := wf_of_disjoint h.1 hd o.depth
    have hget : ∀ x, (o.delete k).get x = if k = x then none else o.get x := get_delete o k
    rw [delete, if_pos hk] at hget ⊢
    refine ⟨h.1, hd, ?_⟩
    have hhas : ∀ x, ReadonlyMap.has (.overlay o.base (o.deletions.set k ()) (o.updates.delete k)
        (ReadonlyMap.overlay o.base (o.deletions.set k ()) (o.updates.delete k) 0
          o.depth).entries.length o.depth) x = (decide (k ≠ x) && o.has x) := fun x => by
      rw [ReadonlyMap.has_eq_isSome]
      refine (congrArg Option.isSome (hget x)).trans ?_
      rw [has_eq_isSome]
      by_cases hkx : k = x <;> simp [hkx]
    have := size_insert hwf h (k := k) (by rw [hhas]; simp) fun x => by
      rw [hhas]
      by_cases hkx : k = x
      · subst hkx; rw [decide_eq_true rfl, Bool.true_or]; exact hk
      · rw [decide_eq_false hkx, Bool.false_or, decide_eq_true hkx, Bool.true_and]; rfl
    show o.size - 1 = _
    rw [show o.toReadonly.size = o.size from rfl] at this
    rw [this]
    rfl
  · rw [delete, if_neg hk]; exact h

instance : LawfulMutableMap (OverlayMap K V) K V where
  get_set := get_set
  get_delete := get_delete
  wf_set := wf_set
  wf_delete := wf_delete

/-- **Sealing keeps every lookup**, compacting or not.  What is compacted are the entries, and
these are the lookups. -/
theorem get_sealed {o : OverlayMap K V} (h : o.WF) (k : K) : o.sealed.get k = o.get k := by
  rw [sealed]
  split
  · refine Option.ext fun v => ?_
    rw [ReadonlyMap.get, OrderedMap.get?_eq_some_iff,
      OrderedMap.entries_ofList (ReadonlyMap.keys_nodup h), ReadonlyMap.mem_entries_iff h]
    rfl
  · rfl

/-- To seal keeps an overlay well formed, whether it stays an overlay or becomes a map of its
own. -/
theorem wf_sealed {o : OverlayMap K V} (h : o.WF) : o.sealed.WF := by
  rw [sealed]
  split
  · trivial
  · exact h

end OverlayMap

end NewtonDB
