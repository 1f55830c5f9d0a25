/-
# The invariant of a transaction and of a root

Every collection a transaction writes to and every committed collection has its
representation invariant, whatever the transaction does, completes or throws
(`Transaction.Invariant.call`), and whatever is committed
(`Root.Invariant.commit`).  So the documents of a root can always be read in
order (`Root.Invariant.exists_clone`).
-/

import NewtonDB.Engine.CollectionCheck
import NewtonDB.Engine.Serializability
import NewtonDB.Storage

namespace NewtonDB

/-- Every committed collection has its invariant. -/
def Root.Invariant (root : Root) : Prop :=
  ∀ name s, root.collections.get? name = some s → s.Invariant

/-- Every collection the transaction writes to has its invariant. -/
def Transaction.Invariant (t : Transaction) : Prop :=
  ∀ name w, t.working.get? name = some w → w.Invariant

namespace Transaction

variable {P : JsString → WorkingCollection → Prop} {t : Transaction} {root : Root} {now : ℕ}
  {name : JsString}

/-! ### What every working collection has -/

/-- Every collection the transaction writes to has a property. -/
def All (P : JsString → WorkingCollection → Prop) (t : Transaction) : Prop :=
  ∀ name w, t.working.get? name = some w → P name w

/-- **A property of working collections**: every clone has it and the three writes
keep it, whether they complete or throw. -/
structure Kept (P : JsString → WorkingCollection → Prop) (root : Root) : Prop where
  clone : ∀ name s, root.collections.get? name = some s → P name s.clone
  insert : ∀ name w document upsert generated, P name w →
    P name (WorkingCollection.insert name document upsert generated w).1
  update : ∀ name w key patch, P name w → P name (WorkingCollection.update name key patch w).1
  delete : ∀ name w key, P name w → P name (WorkingCollection.delete name key w).1

/-- A new transaction has no working collection of which anything could be asked. -/
theorem All.new (P : JsString → WorkingCollection → Prop) (id : JsString) (createdAt : ℕ)
    (limits : TransactionLimits) : (Transaction.new id createdAt limits).All P :=
  fun _ _ h => by cases h

/-- What is said of the working collections depends on them only. -/
theorem All.of_working {t' : Transaction} (h : t.All P) (hw : t'.working = t.working) :
    t'.All P := by
  rw [All, hw]
  exact h

/-- A rollback keeps what is said of the working collections. -/
theorem All.rollback (h : t.All P) : t.rollback.All P := by
  unfold Transaction.rollback
  split_ifs
  · exact fun _ _ hw => by cases hw
  · exact h

/-- To seal the working collections keeps what sealing each keeps. -/
theorem All.sealWorking (h : t.All P)
    (hseal : ∀ name w, P name w → P name { w with isSealed := true }) : t.sealWorking.All P := by
  intro name w hw
  rw [Transaction.sealWorking, OrderedMap.get?_mapVals] at hw
  obtain ⟨w', hw', rfl⟩ := Option.map_eq_some_iff.1 hw
  exact hseal name w' (h name w' hw')

/-- To count an operation keeps the working collections. -/
theorem All.recordOperation (h : t.All P) (now : ℕ) : (t.recordOperation now).1.All P := by
  unfold Transaction.recordOperation
  split
  · exact h
  · exact h

/-- A collection made writable has the property, and so have the others.  What has to be known
of the property is that a fresh clone has it. -/
theorem All.writable (hclone : ∀ name s, root.collections.get? name = some s → P name s.clone)
    (h : t.All P) (now : ℕ) (name : JsString) :
    (t.writable root now name).1.All P ∧
      ∀ w, (t.writable root now name).2 = .ok w → P name w := by
  unfold Transaction.writable
  split
  · exact ⟨h, fun _ he => by cases he⟩
  · split
    · next existing hw =>
        refine ⟨h, fun w he => ?_⟩
        obtain rfl := Except.ok.inj he
        exact h name existing hw
    · have htouch := touchCollection_cases t root now name
      have hworking := touchCollection_working t root now name
      generalize t.touchCollection root now name = r at htouch hworking
      obtain ⟨t', r⟩ := r
      rcases htouch with ⟨error, he⟩ | ⟨stored, base, hs, he, -⟩
      · obtain ⟨rfl, rfl⟩ := Prod.mk.inj he
        exact ⟨h, fun _ he => by cases he⟩
      · obtain rfl : r = .ok stored := he
        refine ⟨fun n w hw => ?_, fun w he => ?_⟩
        · dsimp only at hw hworking
          rw [OrderedMap.get?_set, hworking] at hw
          split_ifs at hw with hn
          · obtain rfl := Option.some.inj hw
            exact hn ▸ hclone name stored hs
          · exact h n w hw
        · obtain rfl := Except.ok.inj he
          exact hclone name stored hs

/-- **A write keeps the property, whether it completes or throws.**  It is asked of clones, and
of what the body leaves, whichever way it ends. -/
theorem All.write (hclone : ∀ name s, root.collections.get? name = some s → P name s.clone)
    (h : t.All P) {body : WorkingCollection → WorkingCollection × Except NewtonError Written}
    (hbody : ∀ w, P name w → P name (body w).1) : (t.write root now name body).1.All P := by
  have hrecord := h.recordOperation now
  obtain ⟨hwritable, hcollection⟩ := hrecord.writable hclone now name
  rcases write_cases t root now name body with ⟨error, -, he⟩ | ⟨-, ⟨error, -, he⟩ | hok⟩
  · rw [he]; exact hrecord
  · rw [he]; exact hwritable
  · obtain ⟨w, hw, -, -, -, hworking⟩ := hok
    intro n w' hw'
    rw [hworking, OrderedMap.get?_set] at hw'
    split_ifs at hw' with hn
    · obtain rfl := Option.some.inj hw'
      exact hn ▸ hbody w (hcollection w hw)
    · exact hwritable n w' hw'

/-- **Every call keeps the property.**  The property is one that clones have and that the four
writes keep. -/
theorem All.call (hkept : Kept P root) (h : t.All P) (c : TransactionCall) :
    (t.call root now c).1.All P := by
  cases c with
  | collection name => exact h
  | get name key =>
      rw [Transaction.call, read_fst]
      exact h.of_working (touchCollection_working ..)
  | find name condition =>
      rw [Transaction.call, query_fst]
      exact h.of_working (touchCollection_working ..)
  | insert name document generated =>
      exact h.write hkept.clone fun w => hkept.insert name w document false generated
  | upsert name document generated =>
      exact h.write hkept.clone fun w => hkept.insert name w document true generated
  | update name key patch => exact h.write hkept.clone fun w => hkept.update name w key patch
  | delete name key => exact h.write hkept.clone fun w => hkept.delete name w key

/-! ### The representation invariant -/

/-- A new transaction has the invariant. -/
theorem Invariant.new (id : JsString) (createdAt : ℕ) (limits : TransactionLimits) :
    (Transaction.new id createdAt limits).Invariant :=
  All.new (fun _ w => w.Invariant) id createdAt limits

/-- The invariant depends on the working collections only. -/
theorem Invariant.of_working {t' : Transaction} (h : t.Invariant) (hw : t'.working = t.working) :
    t'.Invariant :=
  All.of_working (P := fun _ w => w.Invariant) h hw

/-- **Clones have their invariant and the writes keep it.**  One lemma for each write says so,
of a write that throws as well. -/
theorem kept_invariant (hr : root.Invariant) : Kept (fun _ w => w.Invariant) root where
  clone name s hs := (hr name s hs).clone
  insert name w document upsert generated hw := by
    rcases WorkingCollection.insert_spec hw name document upsert generated with
      ⟨error, -, hu, -⟩ | ⟨p, -, -, -, -, hput, -⟩
    · exact hu.invariant
    · exact hput.invariant
  update name w key patch hw := by
    rcases WorkingCollection.update_spec hw name key patch with
      ⟨error, -, hu, -⟩ | ⟨_, before, after, -, -, -, -, -, hput, -⟩
    · exact hu.invariant
    · exact hput.invariant
  delete name w key hw := by
    rcases WorkingCollection.delete_spec hw name key with
      ⟨error, -, hu, -⟩ | ⟨_, before, -, -, -, hdrop, -⟩
    · exact hu.invariant
    · exact hdrop.invariant

/-- **Every call keeps the invariant.**  Its working collections are clones, or were left by
writes. -/
theorem Invariant.call (hr : root.Invariant) (h : t.Invariant) (c : TransactionCall) :
    (t.call root now c).1.Invariant :=
  All.call (kept_invariant hr) h c

end Transaction

namespace Root.Invariant

variable {root : Root} {t : Transaction} {options : CommitOptions} {committed : Committed}

/-- **Published working collections keep the invariant.**  The collections that were not touched
are as they were. -/
theorem publishAll (hr : root.Invariant) (h : t.Invariant) (revision : ℕ) :
    Root.Invariant { collections := publishAll root.collections revision t.working, revision } := by
  intro name s hs
  rw [get?_publishAll] at hs
  cases hw : t.working.get? name with
  | some w =>
      rw [hw] at hs
      obtain rfl := Option.some.inj hs
      exact (h name w hw).publish _
  | none =>
      rw [hw] at hs
      exact hr name s hs

/-- **A commit keeps the invariant.**  A transaction without changes publishes nothing and
leaves the root. -/
theorem commit (hr : root.Invariant) (h : t.Invariant)
    (hc : root.commit options t = .ok committed) : committed.root.Invariant := by
  obtain ⟨-, he | he⟩ := commit_ok hc
  · rw [he]
    exact hr
  · rw [he]
    exact hr.publishAll h _

/-- **A root passes the internal check.**  Each of its collections passes the check of its
own. -/
theorem verify_ok (hr : root.Invariant) : verifyCollections root.collections = .ok () := by
  refine verifyCollections_ok fun s hs => ?_
  obtain ⟨e, he, rfl⟩ := List.mem_map.1 hs
  exact hr e.1 e.2 (OrderedMap.get?_eq_some_iff.2 he)

end Root.Invariant

/-! ### Reading a root -/

/-- Every key of the order has its document.  So the snapshot is made, and is the list of
documents. -/
theorem StoredCollection.Invariant.snapshotDocuments_eq {s : StoredCollection} (h : s.Invariant) :
    snapshotDocuments s = some s.documents := by
  have hall : ∀ {order : List JsString}, (∀ key ∈ order, (s.records.get key).isSome) →
      order.mapM s.records.get = some (order.filterMap s.records.get) := by
    intro order
    induction order with
    | nil => exact fun _ => rfl
    | cons key rest ih =>
        intro hs
        obtain ⟨document, hd⟩ := Option.isSome_iff_exists.1 (hs key (List.mem_cons_self ..))
        rw [List.mapM_cons, hd, ih fun k hk => hs k (List.mem_cons_of_mem _ hk),
          List.filterMap_cons_some hd]
        rfl
  exact hall fun key hk => (h.consistent.mem_order key).1 hk

/-- **The documents of a root can be read in order.**  Every key of an order has a record, so
that no document is missing. -/
theorem Root.Invariant.exists_clone {root : Root} (hr : root.Invariant) :
    ∃ collections, cloneSnapshotCollections root.collections = some collections := by
  have hfold : ∀ (l : List (JsString × StoredCollection)) (output : SnapshotCollections),
      (∀ e ∈ l, e.2.Invariant) → ∃ collections, l.foldlM (fun output entry => do
        let documents ← snapshotDocuments entry.2
        return defineProperty output entry.1 documents) output = some collections := by
    intro l
    induction l with
    | nil => exact fun output _ => ⟨output, rfl⟩
    | cons e l ih =>
        intro output he
        rw [List.foldlM_cons, (he e (List.mem_cons_self ..)).snapshotDocuments_eq]
        exact ih _ fun e' he' => he e' (List.mem_cons_of_mem _ he')
  exact hfold _ _ fun e he => hr e.1 e.2 (OrderedMap.get?_eq_some_iff.2 he)

end NewtonDB
