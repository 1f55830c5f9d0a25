/-
# Writes that throw

An insert, upsert, update or delete that throws has already been counted, has
touched its collection and may have taken the old version of a document out of the
indexes and put it back.  What a reader can see of a collection is its `contents`:
the documents, their order and positions and the keys in the buckets of each index.
The contents of the indexes are a function of the documents
(`IndexesInvariant.contents_eq`), so a restored index cannot differ from the one
before, and a call that throws leaves the contents of every working collection, the
recorded changes and the generated keys as they were (`call_spares`).

What stays behind besides is a clone of the touched collection and its base
revision.  A commit publishes that clone under a new revision, with the contents the
collection had (`thrown_call_spares`).
-/

import NewtonDB.Store.Scripts
import Mathlib.Data.Set.Basic

namespace NewtonDB

/-! ### What a collection shows -/

/-- The keys in the buckets of one index, by value. -/
abbrev BucketContents := JsString → Option (Set JsString)

/-- **What a reader can see of a collection.** -/
structure CollectionContents where
  records : Content
  order : List JsString
  position : JsString → Option ℕ
  nextPosition : ℕ
  indexes : List (JsString × SecondaryIndex × BucketContents)
  schema : CollectionSchema

section

variable {M N : Type} [MapView M JsString Bucket] [MapView N JsString Bucket]

/-- The keys in each bucket of an index. -/
def SecondaryIndexState.contents (index : SecondaryIndexState M) : BucketContents := fun value =>
  (MapView.get index.buckets value).map fun bucket => {key | bucket.has key}

/-- The contents of all indexes, with their definitions. -/
def indexContents (indexes : Indexes M) : List (JsString × SecondaryIndex × BucketContents) :=
  indexes.entries.map fun e => (e.1, e.2.definition, e.2.contents)

open Classical in
/-- The keys of the documents with a value, when there are any. -/
noncomputable def groupedKeys (content : Content) (path : PropertyPath) : BucketContents :=
  fun value =>
    let keys := {key | ∃ document, content key = some document ∧
      indexText path document = some value}
    if keys.Nonempty then some keys else none

/-- **The buckets of an index are the groups of its documents.**  The invariant says so of each
value, and the order of the buckets is left out. -/
theorem IndexInvariant.contents_eq {content : Content} {index : SecondaryIndexState M}
    (h : IndexInvariant content index) : index.contents = groupedKeys content index.path := by
  funext value
  rw [SecondaryIndexState.contents, groupedKeys]
  cases hb : MapView.get index.buckets value with
  | none =>
      refine (if_neg ?_).symm
      rintro ⟨key, hkey⟩
      obtain ⟨bucket, hbucket, -⟩ := (h.holds_iff value key).2 hkey
      rw [hb] at hbucket
      cases hbucket
  | some bucket =>
      have hkeys : {key | bucket.has key} = {key | ∃ document, content key = some document ∧
          indexText index.path document = some value} := by
        ext key
        rw [Set.mem_ofPred_eq, Set.mem_ofPred_eq, ← h.holds_iff, Holds, hb]
        simp
      obtain ⟨key, hkey⟩ := List.exists_mem_of_ne_nil _ (h.buckets.nonempty value bucket hb)
      have hnonempty : {key | bucket.has key}.Nonempty := ⟨key, OrderedMap.has_iff.2 hkey⟩
      rw [Option.map_some, hkeys]
      exact (if_pos (hkeys ▸ hnonempty)).symm

/-- **The contents of the indexes are a function of the documents.**  So two collections of the
same documents and definitions have the same contents. -/
theorem IndexesInvariant.contents_eq {content : Content} {indexes : Indexes M}
    {others : Indexes N} (h : IndexesInvariant content indexes)
    (hothers : IndexesInvariant content others) (hd : definitions others = definitions indexes) :
    indexContents others = indexContents indexes := by
  have hgroups : ∀ {L : Type} [MapView L JsString Bucket] {indexes : Indexes L},
      IndexesInvariant content indexes → indexContents indexes =
        (definitions indexes).map fun d => (d.1, d.2, groupedKeys content d.2.path) := by
    intro L _ indexes h
    rw [indexContents, definitions, List.map_map]
    refine List.map_congr_left fun e he => ?_
    rw [(h e.2 (List.mem_map_of_mem he)).contents_eq]
    rfl
  rw [hgroups h, hgroups hothers, hd]

end

/-- What a working collection shows. -/
def WorkingCollection.contents (c : WorkingCollection) : CollectionContents where
  records := c.records.get
  order := c.order
  position := c.positions.get
  nextPosition := c.nextPosition
  indexes := indexContents c.indexes
  schema := c.schema

/-- What a committed collection shows. -/
def StoredCollection.contents (c : StoredCollection) : CollectionContents where
  records := c.records.get
  order := c.order
  position := c.positions.get
  nextPosition := c.nextPosition
  indexes := indexContents c.indexes
  schema := c.schema

/-- A clone shows what its collection shows.  Its maps are overlays without an entry, which read
like the maps below them. -/
theorem StoredCollection.Invariant.contents_clone {c : StoredCollection} (h : c.Invariant) :
    c.clone.contents = c.contents := by
  have hr : c.clone.records.get = c.records.get := funext fun k => OverlayMap.get_new ..
  have hp : c.clone.positions.get = c.positions.get := funext fun k => OverlayMap.get_new ..
  have hi := h.clone.consistent.indexed
  rw [hr] at hi
  rw [WorkingCollection.contents, hr, hp,
    h.consistent.indexed.contents_eq hi (definitions_cloneIndexes c.indexes)]
  rfl

/-- A published collection shows what the working one shows.  Sealing an overlay may copy it,
and what it reads as stays the same. -/
theorem WorkingCollection.Invariant.contents_publish {c : WorkingCollection} (h : c.Invariant)
    (revision : ℕ) : (c.publish revision).contents = c.contents := by
  have hr : (c.publish revision).records.get = c.records.get :=
    funext fun k => OverlayMap.get_sealed h.records_wf k
  have hp : (c.publish revision).positions.get = c.positions.get :=
    funext fun k => OverlayMap.get_sealed h.positions_wf k
  have hi := (h.publish revision).consistent.indexed
  rw [hr] at hi
  rw [StoredCollection.contents, hr, hp,
    h.consistent.indexed.contents_eq hi (definitions_sealIndexes c.indexes)]
  rfl

namespace WorkingCollection

variable {c : WorkingCollection} {name : JsString} {error : NewtonError}

/-- Where nothing was written, the contents are those before. -/
theorem Unchanged.contents_eq {c' : WorkingCollection} (h : c.Invariant) (hu : Unchanged c c') :
    c'.contents = c.contents := by
  have hi := hu.invariant.consistent.indexed
  rw [hu.records] at hi
  rw [contents, hu.records, hu.order, hu.positions, hu.nextPosition, hu.schema,
    h.consistent.indexed.contents_eq hi hu.definitions]
  rfl

/-- **An insert or upsert that throws** leaves the contents.  An upsert that clashes has taken
the old document out of the indexes and puts it back before it throws. -/
theorem Invariant.contents_insert (h : c.Invariant) {document : JsInput} {upsert : Bool}
    {generated : GeneratorOutcome}
    (he : (c.insert name document upsert generated).2 = .error error) :
    (c.insert name document upsert generated).1.contents = c.contents := by
  rcases insert_spec h name document upsert generated with
    ⟨_, -, hu, -⟩ | ⟨_, -, -, -, -, -, hok⟩
  · exact hu.contents_eq h
  · rw [hok] at he
    cases he

/-- **An update that throws** leaves the contents.  The document is taken out, the new one
clashes, and the old one is put back. -/
theorem Invariant.contents_update (h : c.Invariant) {primaryKey : PrimaryKey} {patch : JsInput}
    (he : (c.update name primaryKey patch).2 = .error error) :
    (c.update name primaryKey patch).1.contents = c.contents := by
  rcases update_spec h name primaryKey patch with
    ⟨_, -, hu, -⟩ | ⟨_, _, _, -, -, -, -, -, -, hok⟩
  · exact hu.contents_eq h
  · rw [hok] at he
    cases he

/-- **A delete that throws** leaves the contents.  A removal cannot clash, so that it throws
only where there is no document. -/
theorem Invariant.contents_delete (h : c.Invariant) {primaryKey : PrimaryKey}
    (he : (c.delete name primaryKey).2 = .error error) :
    (c.delete name primaryKey).1.contents = c.contents := by
  rcases delete_spec h name primaryKey with ⟨_, -, hu, -⟩ | ⟨_, _, -, -, -, -, hok⟩
  · exact hu.contents_eq h
  · rw [hok] at he
    cases he

end WorkingCollection

/-! ### What a call that throws leaves behind -/

namespace Transaction

variable {t t' : Transaction} {root : Root} {now : ℕ} {name : JsString} {error : NewtonError}

/-- **What a call that throws spares**: the recorded changes, the generated keys and the
contents of every working collection.  What may be new is the clone of a collection of
the root, and base revisions of the root. -/
structure Spares (root : Root) (t t' : Transaction) : Prop where
  id : t'.id = t.id
  status : t'.status = t.status
  createdAt : t'.createdAt = t.createdAt
  limits : t'.limits = t.limits
  changes : t'.changes = t.changes
  generatedKeys : t'.generatedKeys = t.generatedKeys
  touched : ∃ added, t'.baseRevisions.entries = t.baseRevisions.entries ++ added ∧
    ∀ e ∈ added, ∃ s, root.collections.get? e.1 = some s ∧ s.revision = e.2
  kept : ∀ name w, t.working.get? name = some w →
    ∃ w', t'.working.get? name = some w' ∧ w'.contents = w.contents
  cloned : ∀ name w', t'.working.get? name = some w' → t.working.get? name = none →
    ∃ s, root.collections.get? name = some s ∧ w'.contents = s.contents ∧
      name ∈ t'.baseRevisions.keys

namespace Spares

/-- Operations are counted and base revisions captured.  The captured revisions are those of the
root, so that they are no conflicts there. -/
theorem counted (t : Transaction) (operations : ℕ) {base : OrderedMap JsString ℕ}
    {added : List (JsString × ℕ)} (hb : base.entries = t.baseRevisions.entries ++ added)
    (hadded : ∀ e ∈ added, ∃ s, root.collections.get? e.1 = some s ∧ s.revision = e.2) :
    Spares root t { t with operations, baseRevisions := base } where
  id := rfl
  status := rfl
  createdAt := rfl
  limits := rfl
  changes := rfl
  generatedKeys := rfl
  touched := ⟨added, hb, hadded⟩
  kept _ w hw := ⟨w, hw, rfl⟩
  cloned _ _ hw hn := by
    rw [hw] at hn
    cases hn

/-- To do nothing spares everything. -/
theorem refl (root : Root) (t : Transaction) : Spares root t t :=
  counted t t.operations (List.append_nil _).symm fun _ h => absurd h List.not_mem_nil

/-- A base revision stays. -/
theorem mem_keys (h : Spares root t t') (hn : name ∈ t.baseRevisions.keys) :
    name ∈ t'.baseRevisions.keys := by
  obtain ⟨added, he, -⟩ := h.touched
  rw [OrderedMap.keys, he, List.map_append]
  exact List.mem_append_left _ hn

/-- **Two calls that throw spare, one after the other,** what each of them spares.  The clones
the first one made are those the second finds. -/
theorem trans {t'' : Transaction} (h : Spares root t t') (h' : Spares root t' t'') :
    Spares root t t'' where
  id := h'.id.trans h.id
  status := h'.status.trans h.status
  createdAt := h'.createdAt.trans h.createdAt
  limits := h'.limits.trans h.limits
  changes := h'.changes.trans h.changes
  generatedKeys := h'.generatedKeys.trans h.generatedKeys
  touched := by
    obtain ⟨added, he, hadded⟩ := h.touched
    obtain ⟨added', he', hadded'⟩ := h'.touched
    refine ⟨added ++ added', by rw [he', he, List.append_assoc], fun e hm => ?_⟩
    exact (List.mem_append.1 hm).elim (hadded e) (hadded' e)
  kept name w hw := by
    obtain ⟨w', hw', hc⟩ := h.kept name w hw
    obtain ⟨w'', hw'', hc'⟩ := h'.kept name w' hw'
    exact ⟨w'', hw'', hc'.trans hc⟩
  cloned name w'' hw'' hn := by
    cases hw : t'.working.get? name with
    | none => exact h'.cloned name w'' hw'' hw
    | some w' =>
        -- the clone is from the first half, and kept by the second
        obtain ⟨s, hs, hc, hk⟩ := h.cloned name w' hw hn
        obtain ⟨v, hv, hc'⟩ := h'.kept name w' hw
        obtain rfl := Option.some.inj (hw''.symm.trans hv)
        exact ⟨s, hs, hc'.trans hc, h'.mem_keys hk⟩

/-- A touched collection is cloned.  It is a base of the transaction already, so a commit looks
for its revision as before. -/
theorem clone {s : StoredCollection} (hs : root.collections.get? name = some s)
    (hinv : s.Invariant) (hn : t.working.get? name = none) (hk : name ∈ t.baseRevisions.keys) :
    Spares root t { t with working := t.working.set name s.clone } where
  id := rfl
  status := rfl
  createdAt := rfl
  limits := rfl
  changes := rfl
  generatedKeys := rfl
  touched := (refl root t).touched
  kept n w hw := by
    refine ⟨w, ?_, rfl⟩
    rw [OrderedMap.get?_set, if_neg]
    · exact hw
    · rintro rfl
      rw [hn] at hw
      cases hw
  cloned n w hw hnone := by
    rw [OrderedMap.get?_set] at hw
    split_ifs at hw with he
    · obtain rfl := Option.some.inj hw
      subst he
      exact ⟨s, hs, hinv.contents_clone, hk⟩
    · rw [hnone] at hw
      cases hw

/-- A working collection is replaced by one with its contents.  The map of working collections
keeps its names and their order. -/
theorem rewrite {w w' : WorkingCollection} (hw : t.working.get? name = some w)
    (hc : w'.contents = w.contents) :
    Spares root t { t with working := t.working.set name w' } where
  id := rfl
  status := rfl
  createdAt := rfl
  limits := rfl
  changes := rfl
  generatedKeys := rfl
  touched := (refl root t).touched
  kept n v hv := by
    by_cases he : name = n
    · subst he
      obtain rfl := Option.some.inj (hw.symm.trans hv)
      exact ⟨w', OrderedMap.get?_set_self .., hc⟩
    · refine ⟨v, ?_, rfl⟩
      rw [OrderedMap.get?_set, if_neg he]
      exact hv
  cloned n v hv hn := by
    rw [OrderedMap.get?_set] at hv
    split_ifs at hv with he
    · rw [← he, hw] at hn
      cases hn
    · rw [hn] at hv
      cases hv

end Spares

/-- To count an operation changes nothing that counts as an effect. -/
theorem recordOperation_spares (root : Root) (t : Transaction) (now : ℕ) :
    Spares root t (t.recordOperation now).1 := by
  unfold recordOperation
  split
  · exact .refl root t
  · exact .counted t _ (List.append_nil _).symm fun _ h => absurd h List.not_mem_nil

/-- To touch a collection takes its revision as a base, and does nothing else.  Its name is
counted first, and it may be over the limit on collections. -/
theorem touchCollection_spares (t : Transaction) (root : Root) (now : ℕ) (name : JsString) :
    Spares root t (t.touchCollection root now name).1 := by
  rcases touchCollection_cases t root now name with
    ⟨_, h⟩ | ⟨stored, base, hs, -, ⟨-, h⟩ | ⟨rfl, hn, h⟩⟩
  · rw [h]
    exact .refl root t
  · rw [h]
    exact .refl root t
  · rw [h]
    refine .counted t _ (OrderedMap.entries_set_of_not_mem (OrderedMap.get?_eq_none_iff.1 hn) _) ?_
    intro e he
    obtain rfl := List.mem_singleton.1 he
    exact ⟨stored, hs, rfl⟩

/-- To make a collection writable clones it, and changes no content.  What the clone shows is
what the collection shows, so that the transaction reads the same. -/
theorem writable_spares (hr : root.Invariant) (t : Transaction) (now : ℕ) (name : JsString) :
    Spares root t (t.writable root now name).1 := by
  unfold writable
  split
  · exact .refl root t
  · split
    · exact .refl root t
    · next hn =>
      have htouch := touchCollection_spares t root now name
      have hcases := touchCollection_cases t root now name
      have hworking := touchCollection_working t root now name
      have hkey (t' : Transaction) (stored : StoredCollection) :
          t.touchCollection root now name = (t', .ok stored) → name ∈ t'.baseRevisions.keys :=
        mem_base_of_touch
      generalize t.touchCollection root now name = r at htouch hcases hworking hkey
      obtain ⟨t', error | stored⟩ := r
      · exact htouch
      · obtain ⟨_, he⟩ | ⟨stored', _, hs, hok, -⟩ := hcases
        · cases he
        · obtain rfl := Except.ok.inj hok
          rw [← hworking] at hn
          exact htouch.trans (.clone hs (hr name _ hs) hn (hkey t' _ rfl))

/-- A writable collection is a working one.  It was one before, or it is the clone that was put
there. -/
theorem get?_writable {w : WorkingCollection} (h : (t.writable root now name).2 = .ok w) :
    (t.writable root now name).1.working.get? name = some w := by
  unfold writable at h ⊢
  split
  · next ha =>
    rw [ha] at h
    cases h
  · next ha =>
    rw [ha] at h
    split
    · next existing he =>
      simp only [he] at h
      rw [he, Except.ok.inj h]
    · next he =>
      simp only [he] at h
      generalize t.touchCollection root now name = r at h ⊢
      obtain ⟨t', error | stored⟩ := r
      · cases h
      · obtain rfl := Except.ok.inj h
        exact OrderedMap.get?_set_self ..

/-- **A write that throws** spares the transaction, when its body spares the collection.  The
operation is counted and the collection is cloned all the same; neither shows. -/
theorem write_spares (hr : root.Invariant) (h : t.Invariant)
    {body : WorkingCollection → WorkingCollection × Except NewtonError Written}
    (hbody : ∀ w, w.Invariant → (body w).2 = .error error → (body w).1.contents = w.contents)
    (he : (t.write root now name body).2 = .error error) :
    Spares root t (t.write root now name body).1 := by
  have hrecord := recordOperation_spares root t now
  have hwritable := writable_spares hr (t.recordOperation now).1 now name
  have hcollection := (All.writable (fun name s hs => (hr name s hs).clone)
    (All.recordOperation h now) now name).2
  have hget (w : WorkingCollection) : ((t.recordOperation now).1.writable root now name).2 = .ok w →
      ((t.recordOperation now).1.writable root now name).1.working.get? name = some w :=
    get?_writable
  unfold write at he ⊢
  generalize t.recordOperation now = recorded at hrecord hwritable hcollection hget he ⊢
  obtain ⟨t₁, refused | _⟩ := recorded
  · exact hrecord
  · dsimp only at hrecord hwritable hcollection hget he ⊢
    generalize t₁.writable root now name = prepared at hwritable hcollection hget he ⊢
    obtain ⟨t₂, refused | w⟩ := prepared
    · exact hrecord.trans hwritable
    · dsimp only at hwritable hcollection hget he ⊢
      cases hb : (body w).2 with
      | ok written =>
          rw [hb] at he
          cases he
      | error thrown =>
          rw [hb] at he
          obtain rfl := Except.error.inj he
          exact (hrecord.trans hwritable).trans
            (.rewrite (hget w rfl) (hbody w (hcollection w rfl) hb))

/-- **A call that throws spares the transaction.**  One case for each method; a read only
touches its collection. -/
theorem call_spares (hr : root.Invariant) (h : t.Invariant) {call : TransactionCall}
    (he : (t.call root now call).2 = .error error) : Spares root t (t.call root now call).1 := by
  cases call with
  | collection name => exact .refl root t
  | get name key =>
      rw [Transaction.call, read_fst]
      exact touchCollection_spares t root now name
  | find name condition =>
      rw [Transaction.call, query_fst]
      exact touchCollection_spares t root now name
  | insert name document generated =>
      exact write_spares hr h (fun w hw => hw.contents_insert) (map_eq_error.1 he)
  | upsert name document generated =>
      exact write_spares hr h (fun w hw => hw.contents_insert) (map_eq_error.1 he)
  | update name key patch =>
      exact write_spares hr h (fun w hw => hw.contents_update) (map_eq_error.1 he)
  | delete name key =>
      exact write_spares hr h (fun w hw => hw.contents_delete) (map_eq_error.1 he)

end Transaction

/-! ### Committing what was spared -/

/-- What a reader can see of a root. -/
def Root.contents (root : Root) (name : JsString) : Option CollectionContents :=
  (root.collections.get? name).map StoredCollection.contents

/-- **Two commits come to the same**: they throw the same error, or publish the same
contents under one revision, with the same receipt and the same batch. -/
inductive SameCommit : Except NewtonError Committed → Except NewtonError Committed → Prop
  | thrown (error : NewtonError) : SameCommit (.error error) (.error error)
  | published {c c' : Committed} (receipt : c'.receipt = c.receipt) (batch : c'.batch = c.batch)
      (revision : c'.root.revision = c.root.revision)
      (contents : c'.root.contents = c.root.contents) :
      SameCommit (.ok c) (.ok c')

/-- A commit that succeeds is the same as one that succeeds. -/
theorem SameCommit.exists_ok {x : Except NewtonError Committed} {c' : Committed}
    (h : SameCommit x (.ok c')) : ∃ c, x = .ok c ∧ SameCommit (.ok c) (.ok c') := by
  cases h with
  | @published c _ receipt batch revision contents =>
      exact ⟨c, rfl, .published receipt batch revision contents⟩

/-- Base revisions that are current are no conflicts.  The list of conflicts is that of the
revisions that differ, in order. -/
theorem conflictsOf_current {root : Root} {l : List (JsString × ℕ)}
    (h : ∀ e ∈ l, ∃ s, root.collections.get? e.1 = some s ∧ s.revision = e.2) :
    conflictsOf root l = .ok [] := by
  induction l with
  | nil => rfl
  | cons e rest ih =>
      obtain ⟨name, base⟩ := e
      obtain ⟨s, hs, rfl⟩ := h _ (List.mem_cons_self ..)
      have hstored : root.stored name = .ok s := Root.stored_eq_ok.2 hs
      rw [conflictsOf, hstored, ih fun e he => h e (List.mem_cons_of_mem _ he)]
      exact congrArg Except.ok (if_neg fun hne => hne rfl)

/-- Current base revisions add no conflict.  Each is looked up on its own, so those before are
compared as they were. -/
theorem conflictsOf_append {root : Root} {l added : List (JsString × ℕ)}
    (h : ∀ e ∈ added, ∃ s, root.collections.get? e.1 = some s ∧ s.revision = e.2) :
    conflictsOf root (l ++ added) = conflictsOf root l := by
  induction l with
  | nil => exact conflictsOf_current h
  | cons e rest ih =>
      obtain ⟨name, base⟩ := e
      rw [List.cons_append, conflictsOf, conflictsOf, ih]

/-- **A commit of a transaction with its invariants.**  The check of the collections passes, so
that the root is the published one. -/
theorem Root.Invariant.publish_eq {root : Root} {t : Transaction} (hr : root.Invariant)
    (h : t.Invariant) (options : CommitOptions) :
    root.publish options t = .ok {
      root := {
        collections := NewtonDB.publishAll root.collections (root.revision + 1) t.working
        revision := root.revision + 1 }
      receipt := {
        affected := (t.changes.map (·.published options.includeDocuments)).length
        databaseId := options.databaseId
        durability := .memory
        generatedKeys := t.generatedKeys
        revision := root.revision + 1
        transactionId := t.id }
      batch := some {
        changes := t.changes.map (·.published options.includeDocuments)
        databaseId := options.databaseId
        revision := root.revision + 1
        transactionId := t.id } } := by
  have hverify := (hr.publishAll h (root.revision + 1)).verify_ok
  unfold Root.publish
  dsimp only at hverify ⊢
  rw [hverify, ite_self]

namespace Transaction.Spares

variable {t t' : Transaction} {root next : Root} {now : ℕ} {options : CommitOptions}

/-- **What a commit publishes of a spared transaction**: the contents it would have
published, where the cloned collections are those of the root. -/
theorem contents_publishAll (h : Spares root t t') (ht : t.Invariant) (ht' : t'.Invariant)
    (hclone : ∀ name w', t'.working.get? name = some w' → t.working.get? name = none →
      next.contents name = some w'.contents) (revision : ℕ) (name : JsString) :
    Root.contents { collections := publishAll next.collections revision t'.working, revision }
        name =
      Root.contents { collections := publishAll next.collections revision t.working, revision }
        name := by
  rw [Root.contents, Root.contents, get?_publishAll, get?_publishAll]
  cases hw : t.working.get? name with
  | some w =>
      obtain ⟨w', hw', hc⟩ := h.kept name w hw
      simp only [hw', Option.map_some, Option.some_or]
      rw [(ht name w hw).contents_publish, (ht' name w' hw').contents_publish, hc]
  | none =>
      cases hw' : t'.working.get? name with
      | none => rfl
      | some w' =>
          simp only [Option.map_some, Option.some_or, Option.map_none, Option.none_or]
          rw [(ht' name w' hw').contents_publish]
          exact (hclone name w' hw' hw).symm

/-- **A commit of a spared transaction**, where the conflicts are the same and the
cloned collections are those of the root. -/
theorem sameCommit (h : Spares root t t') (hn : next.Invariant) (ht : t.Invariant)
    (ht' : t'.Invariant)
    (hconflicts : conflictsOf next t'.baseRevisions.entries =
      conflictsOf next t.baseRevisions.entries)
    (hclone : ∀ name w', t'.working.get? name = some w' → t.working.get? name = none →
      next.contents name = some w'.contents) (options : CommitOptions) :
    SameCommit (next.commit options t) (next.commit options t') := by
  unfold Root.commit
  rw [hconflicts]
  cases conflictsOf next t.baseRevisions.entries with
  | error error => exact .thrown error
  | ok conflicts =>
      cases conflicts with
      | cons name rest => exact .thrown _
      | nil =>
          simp only [bind, Except.bind, h.changes, h.generatedKeys, h.id]
          split_ifs with hc
          · exact .published rfl rfl rfl rfl
          · rw [hn.publish_eq ht, hn.publish_eq ht', h.changes, h.generatedKeys, h.id]
            refine .published rfl rfl rfl (funext fun name => ?_)
            exact h.contents_publishAll ht ht' hclone (next.revision + 1) name

/-- **A commit at the root of the call** is the commit without the call.  The collections that
differ were cloned and not changed, and their revisions are those of the root, so that neither
sees a conflict the other does not. -/
theorem sameCommit_root (h : Spares root t t') (hr : root.Invariant) (ht : t.Invariant)
    (ht' : t'.Invariant) (options : CommitOptions) :
    SameCommit (root.commit options t) (root.commit options t') := by
  obtain ⟨added, he, hadded⟩ := h.touched
  refine h.sameCommit hr ht ht' (by rw [he, conflictsOf_append hadded]) ?_ options
  intro name w' hw' hn
  obtain ⟨s, hs, hc, -⟩ := h.cloned name w' hw' hn
  rw [Root.contents, hs, Option.map_some, hc]

/-- **A commit at a later root** is the commit without the call, when it succeeds: a
touched collection is then the one that was cloned. -/
theorem sameCommit_later (h : Spares root t t') (hl : root.Later next) (hk : t'.Known root)
    (hn : next.Invariant) (ht : t.Invariant) (ht' : t'.Invariant) {committed : Committed}
    (hc : next.commit options t' = .ok committed) :
    ∃ c, next.commit options t = .ok c ∧ SameCommit (.ok c) (.ok committed) := by
  obtain ⟨conflicts, hconflicts, -⟩ := bind_eq_ok.1 hc
  obtain ⟨hcurrent, -⟩ := Root.commit_ok hc
  obtain ⟨added, he, -⟩ := h.touched
  have hadded : ∀ e ∈ added, ∃ s, next.collections.get? e.1 = some s ∧ s.revision = e.2 := by
    intro e hm
    refine hcurrent e.1 e.2 (OrderedMap.get?_eq_some_iff.2 ?_)
    rw [he]
    exact List.mem_append_right _ hm
  refine SameCommit.exists_ok (hc ▸ ?_)
  refine h.sameCommit hn ht ht' (by rw [he, conflictsOf_append hadded]) ?_ options
  intro name w' hw' hnone
  obtain ⟨s, hs, hcontents, hkey⟩ := h.cloned name w' hw' hnone
  obtain ⟨base, hb⟩ := Option.isSome_iff_exists.1 (OrderedMap.mem_keys_iff.1 hkey)
  obtain ⟨c, hcn, hrev⟩ := hcurrent name base hb
  obtain ⟨s', hs', hle⟩ := hk.base_le name base hb
  obtain rfl := Option.some.inj (hs.symm.trans hs')
  have hle' := hl.revision_le name s c hs hcn
  obtain rfl := hl.eq_of_revision name s c hs hcn (by omega)
  rw [Root.contents, hcn, Option.map_some, hcontents]

end Transaction.Spares

/-! ### Catching the error and committing -/

/-- Commits behind one check. -/
theorem SameCommit.bind {x y : Except NewtonError Committed} (h : SameCommit x y)
    (check : Except NewtonError Unit) :
    SameCommit (check >>= fun _ => x) (check >>= fun _ => y) := by
  cases check with
  | error error => exact .thrown error
  | ok _ => exact h

namespace Transaction

variable {t t' : Transaction} {root next : Root} {now : ℕ} {call : TransactionCall}
  {error : NewtonError}

/-- `commit` of a transaction is `_commit` behind its two checks.  It marks the transaction as
committed besides, and that is in the first component. -/
theorem commit_snd (t : Transaction) (now : ℕ)
    (commitRoot : Transaction → Except NewtonError Committed) :
    (t.commit now commitRoot).2 =
      (t.assertActive >>= fun _ => t.assertWithinLimits now) >>= fun _ => commitRoot t := by
  unfold commit
  cases t.assertActive >>= fun _ => t.assertWithinLimits now with
  | error _ => rfl
  | ok _ => cases commitRoot t <;> rfl

/-- The checks of `commit` do not see what a thrown call leaves behind. -/
theorem Spares.checks (h : Spares root t t') (now : ℕ) :
    (t'.assertActive >>= fun _ => t'.assertWithinLimits now) =
      (t.assertActive >>= fun _ => t.assertWithinLimits now) := by
  rw [assertActive, assertActive, assertWithinLimits, assertWithinLimits, h.status, h.createdAt,
    h.limits]

/-- **A call that throws leaves the working state as it was.**  Whatever the reason, the
recorded changes and the generated keys are those before; every working collection has the
documents, the order, the positions and the buckets it had; and a collection that became a
working one has those of the root.  So a callback that catches the error and commits gets
what it would have got without the call.  At a later root the commit may conflict on a
collection that only the call touched; when it succeeds, it publishes what it would have
published. -/
theorem thrown_call_spares (hr : root.Invariant) (ht : t.Invariant) (hk : t.Known root)
    (he : (t.call root now call).2 = .error error) :
    let t' := (t.call root now call).1
    t'.changes = t.changes ∧ t'.generatedKeys = t.generatedKeys ∧
    (∀ name w, t.working.get? name = some w →
      ∃ w', t'.working.get? name = some w' ∧ w'.contents = w.contents) ∧
    (∀ name w', t'.working.get? name = some w' → t.working.get? name = none →
      ∃ s, root.collections.get? name = some s ∧ w'.contents = s.contents) ∧
    (∀ time options, SameCommit (t.commit time (root.commit options)).2
      (t'.commit time (root.commit options)).2) ∧
    (∀ next, root.Later next → next.Invariant → ∀ time options committed,
      (t'.commit time (next.commit options)).2 = .ok committed →
        ∃ c, (t.commit time (next.commit options)).2 = .ok c ∧
          SameCommit (.ok c) (.ok committed)) := by
  intro t'
  have h : Spares root t t' := call_spares hr ht he
  have ht' : t'.Invariant := ht.call hr call
  refine ⟨h.changes, h.generatedKeys, h.kept, fun name w' hw' hn => ?_, fun time options => ?_,
    fun next hl hnext time options committed hc => ?_⟩
  · obtain ⟨s, hs, hcontents, -⟩ := h.cloned name w' hw' hn
    exact ⟨s, hs, hcontents⟩
  · rw [commit_snd, commit_snd, h.checks]
    exact (h.sameCommit_root hr ht ht' options).bind _
  · rw [commit_snd, h.checks] at hc
    obtain ⟨_, hchecks, hc⟩ := bind_eq_ok.1 hc
    obtain ⟨c, hok, hsame⟩ := h.sameCommit_later hl (call_known call hk) hnext ht ht' hc
    rw [commit_snd, hchecks]
    exact ⟨c, hok, hsame⟩

/-- A note takes the tag another note was given in the same transaction: its old version is back
in the index, and the commit is the one without it.  The call that was caught left no change and
no key behind, and the theorem compares the two commits. -/
theorem caught_clash_spared :
    let schema : CollectionSchema :=
      { generatePrimaryKey := none
        indexes := [{ name := js "tag", path := [.name (js "tag")], unique := true }]
        primaryKey := js "id", validate := none, limits := .none }
    let notes := js "notes"
    let tagged (id tag : String) :=
      JsInput.plain [(js "id", .string (js id)), (js "tag", .string (js tag))]
    let writing (root : Root) := ((Transaction.new (js "t") 0 defaultTransactionLimits).call root 0
      (.insert notes (tagged "b" "y") .other)).1
    let clash := TransactionCall.upsert notes (tagged "a" "y") .other
    ∃ root, createRoot Json.graph [(notes, [.obj [(js "id", .prim (.string (js "a"))),
        (js "tag", .prim (.string (js "x")))]])] [(notes, schema)] 0 = .ok root ∧
      ((writing root).call root 0 clash).2 =
        .error (.duplicateUniqueIndex notes (js "tag")) ∧
      ∀ time options, SameCommit ((writing root).commit time (root.commit options)).2
        (((writing root).call root 0 clash).1.commit time (root.commit options)).2 := by
  intro schema notes tagged writing clash
  have hrun : ((createRoot Json.graph [(notes, [.obj [(js "id", .prim (.string (js "a"))),
      (js "tag", .prim (.string (js "x")))]])] [(notes, schema)] 0).toOption.any fun root =>
        ((writing root).call root 0 clash).2 = .error (.duplicateUniqueIndex notes (js "tag"))) =
          true := by decide +kernel
  obtain ⟨root, hroot, hthrown⟩ := (Option.any_eq_true _ _).1 hrun
  have hroot := eq_ok_of_toOption hroot
  have hthrown := of_decide_eq_true hthrown
  have hr := (createRoot_invariant hroot).1
  have ht : (writing root).Invariant :=
    (Invariant.new (js "t") 0 defaultTransactionLimits).call hr _
  have hk : (writing root).Known root :=
    call_known _ (known_new (js "t") 0 defaultTransactionLimits)
  obtain ⟨-, -, -, -, hcommit, -⟩ := thrown_call_spares hr ht hk hthrown
  exact ⟨root, hroot, hthrown, hcommit⟩

end Transaction

end NewtonDB
