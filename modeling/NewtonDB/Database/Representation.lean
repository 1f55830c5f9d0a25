/-
# The representation of collections in every program

What the six structures of a collection have to do with one another, spelled out
for its readers: `Representation`.  It holds of every committed collection and of
every working collection of every transaction, at every point of every program, so
`verify` of an open database never throws (`representation_holds`).
-/

import NewtonDB.Database.Programs

namespace NewtonDB

section

variable {M : Type} [MapView M JsString Bucket]

/-- The key is that of a document with the value at the path. -/
def InGroup (content : Content) (path : PropertyPath) (value key : JsString) : Prop :=
  ∃ document, content key = some document ∧ indexText path document = some value

/-- **The structures of a collection**: its order, its positions, its records and the
buckets of its indexes. -/
structure Representation (order : List JsString) (nextPosition : ℕ)
    (position : JsString → Option ℕ) (content : Content) (indexes : Indexes M)
    (schema : CollectionSchema) : Prop where
  order_once : order.Nodup
  order_keys : ∀ key, key ∈ order ↔ (content key).isSome
  position_keys : ∀ key, (position key).isSome ↔ (content key).isSome
  increasing : order.Pairwise fun a b => ∃ i j, position a = some i ∧ position b = some j ∧ i < j
  nextPosition_greater : ∀ key i, position key = some i → i < nextPosition
  keyed : ∀ key document, content key = some document →
    ∃ k, documentKey document schema = .ok k ∧ encodeKey k = .ok key
  groups : ∀ index ∈ indexes.values, ∀ value,
    (∃ bucket, MapView.get index.buckets value = some bucket) ↔
      ∃ key, InGroup content index.path value key
  buckets : ∀ index ∈ indexes.values, ∀ value bucket,
    MapView.get index.buckets value = some bucket →
      ∀ key, key ∈ bucket.keys ↔ InGroup content index.path value key
  unique : ∀ index ∈ indexes.values, index.unique → ∀ value bucket,
    MapView.get index.buckets value = some bucket → ∃ key, bucket.keys = [key]

/-- **Consistent structures represent a collection.**  This is the invariant of the engine in
the words of the collection's structures. -/
theorem Consistent.representation {order : List JsString} {nextPosition : ℕ}
    {position : JsString → Option ℕ} {content : Content} {indexes : Indexes M}
    {schema : CollectionSchema}
    (h : Consistent order nextPosition position content indexes schema) :
    Representation order nextPosition position content indexes schema where
  order_once := h.nodup
  order_keys := h.mem_order
  position_keys key := (h.position_some key).trans (h.mem_order key)
  increasing := by
    refine h.sorted.imp_of_mem fun {a b} ha hb hab => ?_
    obtain ⟨i, hi⟩ := Option.isSome_iff_exists.1 ((h.position_some a).2 ha)
    obtain ⟨j, hj⟩ := Option.isSome_iff_exists.1 ((h.position_some b).2 hb)
    exact ⟨i, j, hi, hj, hab i j hi hj⟩
  nextPosition_greater := h.bound
  keyed := h.keyed
  groups index hi value := by
    have hindex := h.indexed index hi
    rw [← Option.isSome_iff_exists, exists_bucket_iff hindex.buckets value]
    exact exists_congr fun key => hindex.holds_iff value key
  buckets index hi value bucket hb key := by
    refine Iff.trans ?_ ((h.indexed index hi).holds_iff value key)
    rw [← OrderedMap.has_iff]
    refine ⟨fun hk => ⟨bucket, hb, hk⟩, fun ⟨bucket', hb', hk⟩ => ?_⟩
    obtain rfl := Option.some.inj (hb.symm.trans hb')
    exact hk
  unique index hi hu value bucket hb := by
    have hindex := h.indexed index hi
    have hmem : ∀ key ∈ bucket.keys, InGroup content index.path value key := fun key hk =>
      (hindex.holds_iff value key).1 ⟨bucket, hb, OrderedMap.has_iff.2 hk⟩
    obtain ⟨key, hkey⟩ := List.exists_mem_of_ne_nil _ (hindex.buckets.nonempty value bucket hb)
    obtain ⟨document, hd, ht⟩ := hmem key hkey
    refine ⟨key, List.perm_singleton.1 ((List.perm_ext_iff_of_nodup bucket.keys_nodup
      (List.nodup_singleton key)).2 fun key' => ⟨fun hk => ?_, fun hk => ?_⟩)⟩
    · obtain ⟨document', hd', ht'⟩ := hmem key' hk
      exact List.mem_singleton.2 (hindex.unique hu key' key document' document value hd' hd ht' ht)
    · exact List.mem_singleton.1 hk ▸ hkey

end

/-- The representation of a committed collection. -/
def StoredCollection.Represented (c : StoredCollection) : Prop :=
  Representation c.order c.nextPosition c.positions.get c.records.get c.indexes c.schema

/-- The representation of a working collection. -/
def WorkingCollection.Represented (c : WorkingCollection) : Prop :=
  Representation c.order c.nextPosition c.positions.get c.records.get c.indexes c.schema

/-- `verify`. -/
def Database.verify (db : Database) : Except NewtonError Unit := do
  db.assertOpen
  verifyCollections db.root.collections

namespace Runtime

variable {options : DatabaseOptions} {schemas : List (JsString × CollectionSchema)} {r : Runtime}

/-- **The representation invariant.**  At every point of every program, after every
operation that completed or threw, the committed collections and the working
collections of all transactions are represented; so `verify` of an open database
returns. -/
theorem representation_holds (h : r.Reached options schemas) :
    (∀ name c, r.database.root.collections.get? name = some c → c.Represented) ∧
    (∀ t ∈ r.transactions, ∀ name c, t.working.get? name = some c → c.Represented) ∧
    (r.database.assertOpen = .ok () → r.database.verify = .ok ()) := by
  have hengine := h.declared.engine
  refine ⟨fun name c hc => (hengine.root name c hc).consistent.representation,
    fun t ht name c hc => (hengine.transactions t ht name c hc).consistent.representation,
    fun ho => ?_⟩
  unfold Database.verify
  rw [ho]
  exact hengine.root.verify_ok

/-- Notes with distinct tags. -/
def taggedNotes : CollectionSchema :=
  { notes with indexes := [{ name := js "tag", path := [.name (js "tag")], unique := true }] }

/-- A transaction writes a note with a tag. -/
def addTagged (handle : ℕ) (id tag : String) : Label :=
  .operate handle 0 (.upsert (js "notes")
    (.plain [(js "id", .string (js id)), (js "tag", .string (js tag))]) .other)

/-- A tag that is taken, caught, between two upserts of one note.  The upsert that clashed was
taken back, and the theorem says so of every structure. -/
theorem caught_clash_represented : ∃ r : Runtime, r.database.root.revision = 1 ∧
    (∀ name c, r.database.root.collections.get? name = some c → c.Represented) ∧
    r.database.verify = .ok () := by
  obtain ⟨root, r, hroot, hr⟩ := exists_run_from
    (createRoot Json.graph [(js "notes", [])] [(js "notes", taggedNotes)] 0) (f := fun root =>
    (Transition.run (step (notesOptions 1 8)) (start (notesOptions 1 8) root none)
      [.beginTransaction (js "t") 0, addTagged 0 "a" "x", addTagged 0 "b" "y",
        addTagged 0 "b" "x", addTagged 0 "a" "z", .commit 0 0, .resume]).filter fun r =>
          r.database.root.revision = 1 ∧ r.database.state = .opened) (by decide +kernel)
  obtain ⟨hrun, hfinal⟩ := Option.filter_eq_some_iff.1 hr
  obtain ⟨hrevision, hopen⟩ := of_decide_eq_true hfinal
  have hreached : r.Reached (notesOptions 1 8) [(js "notes", taggedNotes)] :=
    ⟨Json, _, _, _, _, _, _, _, hroot, Transition.run_sound hrun⟩
  obtain ⟨hroots, -, hverify⟩ := representation_holds hreached
  exact ⟨r, hrevision, hroots, hverify (by rw [Database.assertOpen, hopen]; rfl)⟩

end Runtime

end NewtonDB
