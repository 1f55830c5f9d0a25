/-
# The store queue, operation by operation

One lemma for each operation on the queue of stores: when it is possible and
what the database is afterwards.
-/

import NewtonDB.Database.Effects

namespace NewtonDB

/-- An element in the middle of a list, and the list with it changed. -/
theorem exists_split {α : Type} {l : List α} {i : ℕ} {a : α} (h : l[i]? = some a) :
    ∃ pre post, l = pre ++ a :: post ∧ pre.length = i ∧
      ∀ f : α → α, l.modify i f = pre ++ f a :: post := by
  obtain ⟨hi, rfl⟩ := List.getElem?_eq_some_iff.1 h
  refine ⟨l.take i, l.drop (i + 1), ?_, List.length_take_of_le hi.le, fun f => ?_⟩
  · rw [List.getElem_cons_drop, List.take_append_drop]
  · rw [List.modify_eq_take_cons_drop hi]

/-- An element of a list with one more, by its place.  An index below the length is one of the
old list, and the length itself is the new element. -/
theorem getElem?_concat_cases {α : Type} {l : List α} {a b : α} {i : ℕ}
    (h : (l ++ [a])[i]? = some b) : l[i]? = some b ∨ i = l.length ∧ b = a := by
  rw [List.getElem?_append] at h
  split_ifs at h with hi
  · exact .inl h
  · obtain ⟨hlt, -⟩ := List.getElem?_eq_some_iff.1 h
    rw [List.length_singleton] at hlt
    exact .inr ⟨by omega, List.mem_singleton.1 (List.mem_of_getElem? h)⟩

/-- An element of a list with one more. -/
theorem getElem?_concat_eq_some {α : Type} {l : List α} {a b : α} {i : ℕ}
    (h : (l ++ [a])[i]? = some b) : l[i]? = some b ∨ b = a :=
  (getElem?_concat_cases h).imp_right And.right

namespace Database

variable {options : DatabaseOptions} {db db' : Database} {index : ℕ}

/-- A store is finished with an outcome when its phase says so. -/
theorem finished_eq_some {error : Option NewtonError} :
    db.finished index = some error ↔
      ∃ task, db.tasks[index]? = some task ∧ task.phase = .finished error := by
  have hphase : ∀ phase : TaskPhase, phase.outcome = some error ↔ phase = .finished error := by
    intro phase
    cases phase <;> simp [TaskPhase.outcome]
  simp [finished, Option.bind_eq_some_iff, hphase]

/-- What `#persist` can do. -/
inductive Persisted (options : DatabaseOptions) (db : Database) (receipt : CommitReceipt) :
    Database × Waiting → Prop
  | coalesced (index : ℕ) (entry : db.persistenceByRevision.get? receipt.revision = some index) :
      Persisted options db receipt (db, .task index)
  | full (entry : db.persistenceByRevision.get? receipt.revision = none)
      (limit : options.persistenceLimits.maxPendingSnapshots ≤ db.pendingPersistence) :
      Persisted options db receipt
        ({ db with state := .degraded }, .rejected (.persistence receipt))
  | broken (entry : db.persistenceByRevision.get? receipt.revision = none)
      (limit : db.pendingPersistence < options.persistenceLimits.maxPendingSnapshots)
      (clone : cloneSnapshotCollections db.root.collections = none) (error : NewtonError) :
      Persisted options db receipt
        ({ db with pendingPersistence := db.pendingPersistence + 1 }, .rejected error)
  | queued (entry : db.persistenceByRevision.get? receipt.revision = none)
      (limit : db.pendingPersistence < options.persistenceLimits.maxPendingSnapshots)
      (collections : SnapshotCollections)
      (clone : cloneSnapshotCollections db.root.collections = some collections) :
      Persisted options db receipt
        ({ db with pendingPersistence := db.pendingPersistence + 1 }.queue receipt collections clone,
          .task db.tasks.length)

/-- **What queuing a store does**: it joins a store of the same revision, is refused by a full
queue or by a root that cannot be cloned, or comes last in the queue. -/
theorem persist_spec (ha : options.adapter) (db : Database) (receipt : CommitReceipt) :
    Persisted options db receipt (db.persist options receipt) := by
  unfold persist
  rw [if_neg (by simpa using ha)]
  split
  · next index h => exact .coalesced index h
  · next h =>
      split_ifs with hfull
      · exact .full h hfull
      · dsimp only
        split
        · next hc => exact .broken h (not_le.1 hfull) hc _
        · next collections hc => exact .queued h (not_le.1 hfull) collections hc

/-- `#persist` of a revision would queue a store. -/
def appends (options : DatabaseOptions) (db : Database) (revision : ℕ) : Bool :=
  options.adapter && db.persistedRevision < revision &&
    (db.persistenceByRevision.get? revision).isNone &&
    db.pendingPersistence < options.persistenceLimits.maxPendingSnapshots

/-- What stops `#persist` from queueing a store.  A store of that revision is pending, or the
queue is full. -/
theorem appends_eq_false {revision : ℕ} (ha : options.adapter)
    (hlt : db.persistedRevision < revision) (h : db.appends options revision = false) :
    (db.persistenceByRevision.get? revision).isSome ∨
      options.persistenceLimits.maxPendingSnapshots ≤ db.pendingPersistence := by
  by_contra hcon
  obtain ⟨hentry, hlimit⟩ := not_or.1 hcon
  have hnone := Option.not_isSome_iff_eq_none.1 hentry
  rw [appends, ha, hnone, decide_eq_true hlt, decide_eq_true (not_le.1 hlimit)] at h
  cases h

/-- A flush persists the current revision, or waits for the tail of the queue.  Without storage,
or with nothing left to store, it waits for whatever is queued. -/
theorem flushNow_cases (options : DatabaseOptions) (db : Database) (id : JsString) :
    (options.adapter ∧ db.persistedRevision < db.root.revision ∧
      db.flushNow options id = db.persist options (db.flushReceipt options id)) ∨
    ((options.adapter → (db.root.revision : ℤ) ≤ db.persistedRevision) ∧
      db.flushNow options id = (db, db.tail)) := by
  unfold flushNow
  split_ifs with h
  · exact .inl ⟨h.1, h.2, rfl⟩
  · exact .inr ⟨fun ha => not_lt.1 fun hlt => h ⟨ha, hlt⟩, rfl⟩

/-- The close of a database happens once.  Later calls return the same promise, and a closed
database has nothing to do. -/
theorem close_cases (options : DatabaseOptions) (db : Database) (id : JsString) :
    db.close options id = db ∨
    (db.state ≠ .closed ∧ db.closePromise = none ∧ db.close options id =
      { ({ db with state := .closing }.flushDuringClose options id).1 with
        closePromise := some (.flushing
          ({ db with state := .closing }.flushDuringClose options id).2) }) := by
  unfold close
  split_ifs with h
  · exact .inl rfl
  · obtain ⟨hs, hp⟩ := not_or.1 h
    exact .inr ⟨hs, by simpa using hp, rfl⟩

/-- **A store that starts** was queued, its turn has come, and its snapshot is handed to the
adapter with the generation. -/
theorem startStore_eq_some (h : db.startStore options index = some db') :
    ∃ task, db.tasks[index]? = some task ∧ task.phase = .queued ∧ db.isReady index ∧
      db' = (db.setPhase index (.storing (db.snapshot options task))).record
        (.store (db.snapshot options task) db.generation) := by
  unfold startStore at h
  split at h
  · next task ht =>
      split_ifs at h with hready
      exact ⟨task, ht, hready.1, hready.2, (Option.some.inj h).symm⟩
  · cases h

/-- A store fails. -/
def failStore (db : Database) (index : ℕ) (task : PersistenceTask) (snapshot : SnapshotEnvelope) :
    Database :=
  { db with state := .degraded }.setPhase index (.settled (some (.persistence task.receipt)))
    |>.record (.failed snapshot)

/-- A store succeeds. -/
def acknowledge (db : Database) (index : ℕ) (snapshot : SnapshotEnvelope)
    (acknowledgement : StoreAcknowledgement) : Database :=
  { db with
    generation := acknowledgement.generation
    persistedRevision := max db.persistedRevision acknowledgement.revision
    state := db.stateAfter (max db.persistedRevision acknowledgement.revision) }.setPhase index
      (.settled none) |>.record (.acknowledged snapshot acknowledgement)

/-- **A store that is answered** was under way, and it fails, or its acknowledgement is
accepted. -/
theorem settleStore_eq_some {outcome : StoreOutcome}
    (h : db.settleStore options index outcome = some db') :
    ∃ task snapshot, db.tasks[index]? = some task ∧ task.phase = .storing snapshot ∧
      (db' = db.failStore index task snapshot ∧
          (∀ a, outcome = .acknowledged a → accepts options snapshot a = false) ∨
        ∃ a, outcome = .acknowledged a ∧ accepts options snapshot a ∧
          db' = db.acknowledge index snapshot a) := by
  unfold settleStore at h
  split at h
  · next task ht =>
      split at h
      · next snapshot hs =>
          refine ⟨task, snapshot, ht, hs, ?_⟩
          cases outcome with
          | rejected =>
              obtain rfl := Option.some.inj h
              exact .inl ⟨rfl, fun _ ha => by cases ha⟩
          | acknowledged a =>
              dsimp only at h
              split_ifs at h with ha
              · exact .inr ⟨a, rfl, ha, (Option.some.inj h).symm⟩
              · obtain rfl := Option.some.inj h
                refine .inl ⟨rfl, fun b hb => ?_⟩
                obtain rfl := StoreOutcome.acknowledged.inj hb
                exact Bool.not_eq_true _ ▸ ha
      · cases h
  · cases h

/-- A store that ends was answered, and leaves the books.  Its entry in the map goes only if it
still leads to this store. -/
theorem finishStore_eq_some (h : db.finishStore index = some db') :
    ∃ task error, db.tasks[index]? = some task ∧ task.phase = .settled error ∧
      db' = { db.setPhase index (.finished error) with
        pendingPersistence := db.pendingPersistence - 1
        persistenceByRevision :=
          if db.persistenceByRevision.get? task.receipt.revision = some index then
            db.persistenceByRevision.delete task.receipt.revision
          else db.persistenceByRevision } := by
  unfold finishStore at h
  split at h
  · next task ht =>
      split at h
      · next error he => exact ⟨task, error, ht, he, (Option.some.inj h).symm⟩
      · cases h
  · cases h

/-- **The adapter is closed** when the wait of the close is over, if there is an adapter.  The
error the wait ended in, if any, is kept for the end of the close. -/
theorem closeAdapter_eq_some (h : db.closeAdapter options = some db') :
    ∃ waiting failure, db.closePromise = some (.flushing waiting) ∧
      db.outcome waiting = some failure ∧
      db' = if options.adapter then
          { db with closePromise := some (.closingAdapter failure) }.record .adapterClose
        else { db with closePromise := some (.closingAdapter failure) } := by
  unfold closeAdapter at h
  split at h
  · next waiting hw =>
      obtain ⟨failure, hf, rfl⟩ := Option.map_eq_some_iff.1 h
      exact ⟨waiting, failure, hw, hf, rfl⟩
  · cases h

/-- A close ends when the adapter was closed, and empties what listeners wait for.  The failure
of the flush is reported before that of the adapter. -/
theorem finishClose_eq_some {adapterFailure : Option NewtonError}
    (h : db.finishClose adapterFailure = some db') :
    ∃ failure, db.closePromise = some (.closingAdapter failure) ∧
      db' = { db with
        listeners := []
        eventQueue := []
        state := .closed
        closePromise := some (.done (failure.or adapterFailure)) }.record
          (.close (failure.or adapterFailure)) := by
  unfold finishClose at h
  split at h
  · next failure hf => exact ⟨failure, hf, (Option.some.inj h).symm⟩
  · cases h

/-! ### The root -/

/-- **What a commit returns**: the root as it was, or one with the next revision and a
batch; the receipt carries the revision of that root and promises nothing of
storage. -/
theorem commit_receipt {root : Root} {t : Transaction} {committed : Committed}
    (h : root.commit options.commit t = .ok committed) :
    committed.receipt.revision = committed.root.revision ∧
      committed.receipt.durability = .memory ∧
      ((committed.batch = none ∧ committed.root = root) ∨
        (∃ batch, committed.batch = some batch ∧ committed.root.revision = root.revision + 1)) := by
  unfold Root.commit at h
  obtain ⟨conflicts, -, h⟩ := bind_eq_ok.1 h
  cases conflicts with
  | cons name rest => cases h
  | nil =>
      dsimp only at h
      split_ifs at h
      · rw [← Except.ok.inj h]
        exact ⟨rfl, rfl, .inl ⟨rfl, rfl⟩⟩
      · unfold Root.publish at h
        dsimp only at h
        split at h
        · cases h
        · rw [← Except.ok.inj h]
          exact ⟨rfl, rfl, .inr ⟨_, rfl, rfl⟩⟩

/-- Without an adapter nothing is queued. -/
theorem persist_of_no_adapter (ha : ¬options.adapter) (db : Database) (receipt : CommitReceipt) :
    db.persist options receipt = (db, .resolved) := by
  unfold persist
  rw [if_pos (by simpa using ha)]

/-- To queue a store leaves the root. -/
@[simp]
theorem root_persist (db : Database) (receipt : CommitReceipt) :
    (db.persist options receipt).1.root = db.root := by
  by_cases ha : options.adapter
  · have hspec := persist_spec ha db receipt
    generalize db.persist options receipt = result at hspec
    cases hspec <;> rfl
  · rw [persist_of_no_adapter ha]

/-- A flush leaves the root. -/
@[simp]
theorem root_flushNow (db : Database) (id : JsString) :
    (db.flushNow options id).1.root = db.root := by
  rcases flushNow_cases options db id with ⟨-, -, he⟩ | ⟨-, he⟩
  · rw [he, root_persist]
  · rw [he]

/-- The flush of a close leaves the root. -/
@[simp]
theorem root_flushDuringClose (db : Database) (id : JsString) :
    (db.flushDuringClose options id).1.root = db.root := by
  unfold flushDuringClose
  split_ifs
  · rfl
  · exact root_flushNow db id

/-- A call of `close` leaves the root. -/
@[simp]
theorem root_close (db : Database) (id : JsString) : (db.close options id).root = db.root := by
  rcases close_cases options db id with he | ⟨-, -, he⟩
  · rw [he]
  · rw [he]
    exact root_flushDuringClose { db with state := .closing } id

/-- A publication sets the root to the committed one, if there is a change. -/
theorem root_publish (db : Database) (committed : Committed) :
    (db.publish committed).root = db.root ∨ (db.publish committed).root = committed.root := by
  unfold publish
  split
  · exact .inl rfl
  · exact .inr rfl

end Database

/-- **Only a commit of an open database changes the root.**  So a root is one that a transaction
of the program committed, or the first. -/
theorem Runtime.StorageEffect.root {options : DatabaseOptions} {r : Runtime} {label : Label}
    {db : Database} (h : r.StorageEffect options label db) :
    db.root = r.database.root ∨ ∃ t ∈ r.transactions, ∃ committed,
      r.database.assertOpen = .ok () ∧
      r.database.root.commit options.commit t = .ok committed ∧ db.root = committed.root := by
  cases h with
  | quiet hq => exact .inl hq.root
  | commit t committed known usable ok hq =>
      rcases r.database.root_publish committed with he | he
      · exact .inl (hq.root.trans he)
      · exact .inr ⟨t, known, committed, usable, ok, hq.root.trans he⟩
  | persist handle call receipt rest _ _ _ _ =>
      exact .inl (Database.root_persist _ (r.receiptOf handle receipt))
  | flush id _ => exact .inl (Database.root_flushNow _ id)
  | close id => exact .inl (Database.root_close _ id)
  | startStore index hs =>
      obtain ⟨task, -, -, -, rfl⟩ := Database.startStore_eq_some hs
      exact .inl rfl
  | settleStore index outcome hs =>
      obtain ⟨task, snapshot, -, -, ⟨rfl, -⟩ | ⟨a, -, -, rfl⟩⟩ := Database.settleStore_eq_some hs
      · exact .inl rfl
      · exact .inl rfl
  | finishStore index hs =>
      obtain ⟨task, error, -, -, rfl⟩ := Database.finishStore_eq_some hs
      exact .inl rfl
  | closeAdapter hs =>
      obtain ⟨waiting, failure, -, -, rfl⟩ := Database.closeAdapter_eq_some hs
      split_ifs <;> exact .inl rfl
  | finishClose failure hs =>
      obtain ⟨_, -, rfl⟩ := Database.finishClose_eq_some hs
      exact .inl rfl

/-- **The revision never decreases.**  A commit with changes adds one, and nothing else touches
it. -/
theorem Runtime.StorageEffect.revision_le {options : DatabaseOptions} {r : Runtime} {label : Label}
    {db : Database} (h : r.StorageEffect options label db) :
    r.database.root.revision ≤ db.root.revision := by
  rcases h.root with he | ⟨t, -, committed, -, hc, he⟩
  · rw [he]
  · rw [he]
    obtain ⟨-, -, ⟨-, hroot⟩ | ⟨batch, -, hrev⟩⟩ := Database.commit_receipt hc
    · rw [hroot]
    · rw [hrev]
      exact Nat.le_succ _

end NewtonDB
