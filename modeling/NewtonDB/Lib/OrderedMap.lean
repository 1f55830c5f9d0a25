/-
# Insertion-ordered maps and sets

The `Map` and `Set` of ECMAScript keep their entries in insertion order: setting
a present key replaces the value where it stands, setting an absent key appends,
deleting removes.  `OrderedMap K V` is that structure: a list of entries whose
keys are pairwise distinct, the distinctness being a field, so a map with a
repeated key cannot be built.  `OrderedSet K` is the map to `Unit`.

`get?_set`, `get?_delete` and `keys_set`, `keys_delete` say what one operation
does to the lookups and to the order; everything else about the maps follows
from them.
-/

import Mathlib.Data.List.Nodup
import Mathlib.Data.List.Perm.Basic

namespace NewtonDB

namespace Assoc

variable {K V W : Type*} [DecidableEq K]

/-- The value of the first entry under `k`. -/
def get? : List (K × V) → K → Option V
  | [], _ => none
  | (k', v) :: l, k => if k' = k then some v else get? l k

/-- Replace the value under `k` in place, or append an entry. -/
def set : List (K × V) → K → V → List (K × V)
  | [], k, v => [(k, v)]
  | (k', v') :: l, k, v => if k' = k then (k, v) :: l else (k', v') :: set l k v

/-- Replace the values in order until a replacement fails. -/
def updateVals {ε : Type*} (f : V → Except ε V) : List (K × V) → List (K × V) × Except ε Unit
  | [] => ([], .ok ())
  | e :: l =>
      match f e.2 with
      | .error error => (e :: l, .error error)
      | .ok v => ((e.1, v) :: (updateVals f l).1, (updateVals f l).2)

/-- Remove the entries under `k`. -/
def delete (l : List (K × V)) (k : K) : List (K × V) := l.filter fun e => e.1 ≠ k

/-- Nothing is found under a name exactly when no entry has it.  By induction on the entries. -/
theorem get?_eq_none_iff {l : List (K × V)} {k : K} : get? l k = none ↔ k ∉ l.map Prod.fst := by
  induction l with
  | nil => simp [get?]
  | cons e l ih =>
      obtain ⟨k', v⟩ := e
      by_cases h : k' = k
      · simp [get?, h]
      · simp [get?, h, ih, Ne.symm h]

/-- Where names are unique, what is found under a name is the entry that has it.  The first
entry of a name is then the only one. -/
theorem get?_eq_some_iff {l : List (K × V)} (hl : (l.map Prod.fst).Nodup) {k : K} {v : V} :
    get? l k = some v ↔ (k, v) ∈ l := by
  induction l with
  | nil => simp [get?]
  | cons e l ih =>
      obtain ⟨k', v'⟩ := e
      obtain ⟨hk, hnd⟩ := List.nodup_cons.1 hl
      by_cases h : k' = k
      · subst h
        have : (k', v) ∉ l := fun hm => hk (List.mem_map.2 ⟨_, hm, rfl⟩)
        simp [get?, this, eq_comm]
      · simp [get?, h, ih hnd, Ne.symm h]

/-- What is found after a `set`: the new value under the name that was set, and the old one
elsewhere. -/
theorem get?_set (l : List (K × V)) (k k' : K) (v : V) :
    get? (set l k v) k' = if k = k' then some v else get? l k' := by
  induction l with
  | nil => simp [set, get?]
  | cons e l ih =>
      obtain ⟨k₀, v₀⟩ := e
      by_cases h : k₀ = k
      · subst h; by_cases h' : k₀ = k' <;> simp [set, get?, h']
      · by_cases h' : k₀ = k'
        · subst h'; simp [set, get?, h, Ne.symm h]
        · simp [set, get?, h, h', ih]

/-- What is found after a `delete`: nothing under the name that was deleted, and the old value
elsewhere. -/
theorem get?_delete (l : List (K × V)) (k k' : K) :
    get? (delete l k) k' = if k = k' then none else get? l k' := by
  induction l with
  | nil => simp [delete, get?]
  | cons e l ih =>
      obtain ⟨k₀, v₀⟩ := e
      by_cases h : k₀ = k
      · subst h
        rw [show delete ((k₀, v₀) :: l) k₀ = delete l k₀ by simp [delete], ih]
        by_cases h' : k₀ = k' <;> simp [get?, h']
      · rw [show delete ((k₀, v₀) :: l) k = (k₀, v₀) :: delete l k by simp [delete, h]]
        by_cases h' : k₀ = k'
        · subst h'; simp [get?, Ne.symm h]
        · simp [get?, h', ih]

/-- A `set` keeps a key that is there in its place, and puts a new one at the end.  By induction
on the entries: the key is found or the end is reached. -/
theorem keys_set (l : List (K × V)) (k : K) (v : V) :
    (set l k v).map Prod.fst =
      if k ∈ l.map Prod.fst then l.map Prod.fst else l.map Prod.fst ++ [k] := by
  induction l with
  | nil => simp [set]
  | cons e l ih =>
      obtain ⟨k', v'⟩ := e
      by_cases h : k' = k
      · simp [set, h]
      · simp only [set, h, if_false, List.map_cons, ih, List.mem_cons, Ne.symm h, false_or]
        split <;> simp

/-- A `delete` leaves the other keys in their order. -/
theorem keys_delete (l : List (K × V)) (k : K) :
    (delete l k).map Prod.fst = (l.map Prod.fst).filter (· ≠ k) := by
  rw [delete, List.filter_map]; rfl

/-- A `set` does not make a key occur twice. -/
theorem nodup_set {l : List (K × V)} (hl : (l.map Prod.fst).Nodup) (k : K) (v : V) :
    ((set l k v).map Prod.fst).Nodup := by
  rw [keys_set]
  split
  · exact hl
  · next h => exact List.nodup_append.2 ⟨hl, List.nodup_singleton k, by
      intro a ha b hb; rw [List.mem_singleton.1 hb]; exact fun e => h (e ▸ ha)⟩

/-- A `delete` does not make a key occur twice. -/
theorem nodup_delete {l : List (K × V)} (hl : (l.map Prod.fst).Nodup) (k : K) :
    ((delete l k).map Prod.fst).Nodup := by
  rw [keys_delete]; exact hl.filter _

omit [DecidableEq K] in
/-- To change the values one after the other changes no key, also when it stops in the
middle. -/
theorem keys_updateVals {ε : Type*} (f : V → Except ε V) (l : List (K × V)) :
    (updateVals f l).1.map Prod.fst = l.map Prod.fst := by
  induction l with
  | nil => rfl
  | cons e l ih => unfold updateVals; split <;> simp [ih]

omit [DecidableEq K] in
/-- When no replacement fails, every value is replaced.  The names are as they were. -/
theorem updateVals_ok {ε : Type*} {f : V → Except ε V} {g : V → V} {l : List (K × V)}
    (h : ∀ e ∈ l, f e.2 = .ok (g e.2)) :
    updateVals f l = (l.map fun e => (e.1, g e.2), .ok ()) := by
  induction l with
  | nil => rfl
  | cons e l ih =>
      have ih := ih fun e he => h e (List.mem_cons_of_mem _ he)
      simp [updateVals, h e (List.mem_cons_self ..), ih]

/-- Setting an absent key appends an entry.  No entry has the key, so the end is reached. -/
theorem set_of_not_mem {l : List (K × V)} {k : K} (h : k ∉ l.map Prod.fst) (v : V) :
    set l k v = l ++ [(k, v)] := by
  induction l with
  | nil => rfl
  | cons e l ih =>
      obtain ⟨k', v'⟩ := e
      simp only [List.map_cons, List.mem_cons, not_or] at h
      simp [set, Ne.symm h.1, ih h.2]

end Assoc

/-- A map with pairwise distinct keys in insertion order. -/
@[ext]
structure OrderedMap (K V : Type*) where
  entries : List (K × V)
  nodup : (entries.map Prod.fst).Nodup

/-- A set in insertion order. -/
abbrev OrderedSet (K : Type*) := OrderedMap K Unit

namespace OrderedMap

variable {K V W : Type*}

instance [DecidableEq K] [DecidableEq V] : DecidableEq (OrderedMap K V) := fun a b =>
  decidable_of_iff (a.entries = b.entries) OrderedMap.ext_iff.symm

/-- The map without entries. -/
def empty : OrderedMap K V := ⟨[], List.nodup_nil⟩

instance : Inhabited (OrderedMap K V) := ⟨empty⟩

/-- The keys, in insertion order. -/
def keys (m : OrderedMap K V) : List K := m.entries.map Prod.fst

/-- The values, in insertion order. -/
def values (m : OrderedMap K V) : List V := m.entries.map Prod.snd

/-- The number of entries. -/
def size (m : OrderedMap K V) : ℕ := m.entries.length

/-- The map with every value replaced. -/
def mapVals (f : V → W) (m : OrderedMap K V) : OrderedMap K W :=
  ⟨m.entries.map fun e => (e.1, f e.2), by
    rw [List.map_map, show Prod.fst ∘ (fun e : K × V => (e.1, f e.2)) = Prod.fst from rfl]
    exact m.nodup⟩

/-- Replace the values in order until a replacement fails. -/
def updateVals {ε : Type*} (f : V → Except ε V) (m : OrderedMap K V) :
    OrderedMap K V × Except ε Unit :=
  (⟨(Assoc.updateVals f m.entries).1, by rw [Assoc.keys_updateVals]; exact m.nodup⟩,
    (Assoc.updateVals f m.entries).2)

/-- **The keys of a map are unique.**  That is a field of the map. -/
theorem keys_nodup (m : OrderedMap K V) : m.keys.Nodup := m.nodup

/-- The empty map has no key. -/
@[simp] theorem keys_empty : (empty : OrderedMap K V).keys = [] := rfl

/-- The empty map has no entry. -/
@[simp] theorem entries_empty : (empty : OrderedMap K V).entries = [] := rfl

/-- To change every value changes no key. -/
@[simp] theorem keys_mapVals (f : V → W) (m : OrderedMap K V) : (m.mapVals f).keys = m.keys := by
  simp [keys, mapVals]

/-- The size of a map is the number of its keys. -/
theorem size_eq_keys (m : OrderedMap K V) : m.size = m.keys.length := by simp [size, keys]

variable [DecidableEq K]

/-- The value under `k`. -/
def get? (m : OrderedMap K V) (k : K) : Option V := Assoc.get? m.entries k

/-- Whether `k` has a value. -/
def has (m : OrderedMap K V) (k : K) : Bool := (m.get? k).isSome

/-- Replace in place, or append. -/
def set (m : OrderedMap K V) (k : K) (v : V) : OrderedMap K V :=
  ⟨Assoc.set m.entries k v, Assoc.nodup_set m.nodup k v⟩

/-- Remove an entry. -/
def delete (m : OrderedMap K V) (k : K) : OrderedMap K V :=
  ⟨Assoc.delete m.entries k, Assoc.nodup_delete m.nodup k⟩

/-- The map of a list of entries, later entries overriding earlier ones. -/
def ofList (l : List (K × V)) : OrderedMap K V := l.foldl (fun m e => m.set e.1 e.2) empty

/-- Nothing is found in the empty map. -/
@[simp] theorem get?_empty (k : K) : (empty : OrderedMap K V).get? k = none := rfl

/-- **What `get` finds after a `set`**: the new value under the key that was set, and what was
found before under any other. -/
theorem get?_set (m : OrderedMap K V) (k k' : K) (v : V) :
    (m.set k v).get? k' = if k = k' then some v else m.get? k' := Assoc.get?_set ..

/-- The key that was set has the value it was set to. -/
@[simp] theorem get?_set_self (m : OrderedMap K V) (k : K) (v : V) :
    (m.set k v).get? k = some v := by simp [get?_set]

/-- **What `get` finds after a `delete`**: nothing under the key, and what was found before
under any other. -/
theorem get?_delete (m : OrderedMap K V) (k k' : K) :
    (m.delete k).get? k' = if k = k' then none else m.get? k' := Assoc.get?_delete ..

/-- A key is in the map exactly when something is found under it. -/
theorem mem_keys_iff {m : OrderedMap K V} {k : K} : k ∈ m.keys ↔ (m.get? k).isSome := by
  rw [Option.isSome_iff_ne_none, ne_eq, get?, Assoc.get?_eq_none_iff, not_not]; rfl

/-- Nothing is found exactly under what is no key. -/
theorem get?_eq_none_iff {m : OrderedMap K V} {k : K} : m.get? k = none ↔ k ∉ m.keys :=
  Assoc.get?_eq_none_iff

/-- What is found under a key is the entry with that key. -/
theorem get?_eq_some_iff {m : OrderedMap K V} {k : K} {v : V} :
    m.get? k = some v ↔ (k, v) ∈ m.entries := Assoc.get?_eq_some_iff m.nodup

/-- `has` answers whether the key is in the map. -/
theorem has_iff {m : OrderedMap K V} {k : K} : m.has k = true ↔ k ∈ m.keys := mem_keys_iff.symm

/-- After a `set` the map has that key, and the keys it had. -/
theorem has_set (m : OrderedMap K V) (k k' : K) (v : V) :
    (m.set k v).has k' = (decide (k = k') || m.has k') := by
  by_cases h : k = k' <;> simp [has, get?_set, h]

/-- After a `delete` the map has the keys it had but that one. -/
theorem has_delete (m : OrderedMap K V) (k k' : K) :
    (m.delete k).has k' = (decide (k ≠ k') && m.has k') := by
  by_cases h : k = k' <;> simp [has, get?_delete, h]

/-- **The order of the keys after a `set`** is the order of insertion: a known key keeps its
place, a new one comes last. -/
theorem keys_set (m : OrderedMap K V) (k : K) (v : V) :
    (m.set k v).keys = if k ∈ m.keys then m.keys else m.keys ++ [k] := Assoc.keys_set ..

/-- **The order of the keys after a `delete`** is that of the others before.  So a key that is
deleted and set again comes last. -/
theorem keys_delete (m : OrderedMap K V) (k : K) :
    (m.delete k).keys = m.keys.filter (· ≠ k) := Assoc.keys_delete ..

/-- The entry of a new key comes last. -/
theorem entries_set_of_not_mem {m : OrderedMap K V} {k : K} (h : k ∉ m.keys) (v : V) :
    (m.set k v).entries = m.entries ++ [(k, v)] := Assoc.set_of_not_mem h v

/-- To change every value changes what is found, and nothing else.  The names are the same, and
so is the first entry of each. -/
theorem get?_mapVals (f : V → W) (m : OrderedMap K V) (k : K) :
    (m.mapVals f).get? k = (m.get? k).map f := by
  obtain ⟨l, hl⟩ := m
  show Assoc.get? (l.map fun e => (e.1, f e.2)) k = (Assoc.get? l k).map f
  clear hl
  induction l with
  | nil => rfl
  | cons e l ih => by_cases h : e.1 = k <;> simp [Assoc.get?, h, ih]

/-- Setting distinct absent keys one after the other appends the entries.  Each is absent still
when its turn comes, because they are distinct. -/
theorem foldl_set {l : List (K × V)} : ∀ {m : OrderedMap K V}, (l.map Prod.fst).Nodup →
    (∀ k ∈ l.map Prod.fst, k ∉ m.keys) →
      (l.foldl (fun m e => m.set e.1 e.2) m).entries = m.entries ++ l := by
  induction l with
  | nil => simp
  | cons e l ih =>
      intro m hn hm
      obtain ⟨he, hn⟩ := List.nodup_cons.1 hn
      have hem : e.1 ∉ m.keys := hm e.1 (by simp)
      rw [List.foldl_cons, ih hn, entries_set_of_not_mem hem, List.append_assoc]
      · rfl
      · intro k hk
        rw [keys_set, if_neg hem, List.mem_append, List.mem_singleton, not_or]
        exact ⟨hm k (List.mem_cons_of_mem _ hk), fun e' => he (e' ▸ hk)⟩

/-- Setting the images of distinct keys' values overrides the lookups.  A key is set once, so
what is found is the image of its own value. -/
theorem get?_foldl_set (f : W → V) (k : K) : ∀ {l : List (K × W)} {m : OrderedMap K V},
    (l.map Prod.fst).Nodup →
      (l.foldl (fun m e => m.set e.1 (f e.2)) m).get? k =
        ((Assoc.get? l k).map f).or (m.get? k)
  | [], _, _ => rfl
  | e :: l, m, hn => by
      obtain ⟨he, hn⟩ := List.nodup_cons.1 hn
      rw [List.foldl_cons, get?_foldl_set f k hn, get?_set]
      by_cases h : e.1 = k
      · subst h
        simp [Assoc.get?, Assoc.get?_eq_none_iff.2 he]
      · simp [Assoc.get?, h]

/-- Setting present keys keeps the keys.  A key that is present keeps its place. -/
theorem keys_foldl_set_of_mem (f : W → V) : ∀ {l : List (K × W)} {m : OrderedMap K V},
    (∀ e ∈ l, e.1 ∈ m.keys) → (l.foldl (fun m e => m.set e.1 (f e.2)) m).keys = m.keys
  | [], _, _ => rfl
  | e :: l, m, h => by
      have he : (m.set e.1 (f e.2)).keys = m.keys := by
        rw [keys_set, if_pos (h e (List.mem_cons_self ..))]
      rw [List.foldl_cons, keys_foldl_set_of_mem f fun e' he' => by
        rw [he]; exact h e' (List.mem_cons_of_mem _ he'), he]

/-- A list with distinct keys is the entries of its map. -/
theorem entries_ofList {l : List (K × V)} (h : (l.map Prod.fst).Nodup) :
    (ofList l).entries = l := by
  rw [ofList, foldl_set h (by simp)]
  rfl

omit [DecidableEq K] in
/-- When no replacement fails, every value is replaced. -/
theorem updateVals_ok {ε : Type*} {f : V → Except ε V} {g : V → V} {m : OrderedMap K V}
    (h : ∀ v ∈ m.values, f v = .ok (g v)) : m.updateVals f = (m.mapVals g, .ok ()) := by
  have := Assoc.updateVals_ok (f := f) (g := g) (l := m.entries) fun e he =>
    h e.2 (List.mem_map_of_mem he)
  simp [updateVals, mapVals, this]

end OrderedMap

end NewtonDB
