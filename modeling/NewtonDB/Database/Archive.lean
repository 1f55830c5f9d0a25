/-
# What a database hands to its adapter

Every snapshot is one of a root that was published, under the identity and the catalog of
the database, and every root that was published can be built again of its snapshot
(`Runtime.archived_of_run`).
-/

import NewtonDB.Database.Programs
import NewtonDB.Database.Queue
import NewtonDB.Store.Reseeding

namespace NewtonDB

/-- An event with a root or a snapshot. -/
def DatabaseEvent.isArchived : DatabaseEvent → Bool
  | .published _ | .store .. => true
  | _ => false

/-- An event that leaves storage alone is no part of the archive. -/
theorem DatabaseEvent.isArchived_of_isQuiet {e : DatabaseEvent} (h : e.isQuiet) :
    e.isArchived = false := by
  cases e <;> first | rfl | cases h

/-- A snapshot of a published root, under the identity and the catalog of its database. -/
structure SnapshotEnvelope.IsOf (options : DatabaseOptions) (history : List DatabaseEvent)
    (snapshot : SnapshotEnvelope) : Prop where
  catalog : snapshot.catalog = options.catalog
  databaseId : snapshot.databaseId = options.commit.databaseId
  root : ∃ root, .published root ∈ history ∧
    cloneSnapshotCollections root.collections = some snapshot.collections

/-- A snapshot of a root that was published is one still when more happened. -/
theorem SnapshotEnvelope.IsOf.mono {options : DatabaseOptions} {history : List DatabaseEvent}
    {snapshot : SnapshotEnvelope} (h : snapshot.IsOf options history)
    (events : List DatabaseEvent) : snapshot.IsOf options (events ++ history) := by
  obtain ⟨root, hp, hc⟩ := h.root
  exact ⟨h.catalog, h.databaseId, root, List.mem_append_right _ hp, hc⟩

namespace Database

/-- All published roots have a property, among them the current one, which comes last, and
those of the stores, and all snapshots are of published roots. -/
structure Archive (options : DatabaseOptions) (P : Root → Prop) (db : Database) : Prop where
  published : ∀ root, .published root ∈ db.history → P root
  current : .published db.root ∈ db.history
  latest : ∀ root, .published root ∈ db.history →
    root = db.root ∨ root.revision < db.root.revision
  tasks : ∀ task ∈ db.tasks, .published task.root ∈ db.history
  stored : ∀ snapshot expected, .store snapshot expected ∈ db.history →
    snapshot.IsOf options db.history

variable {options : DatabaseOptions} {P : Root → Prop} {db db' : Database} {index : ℕ}

namespace Archive

/-- The archive of a database that was just opened has its first root.  No store is queued, and
the snapshot that was loaded is the only one on record. -/
theorem start {root : Root} (h : P root) (stored : Option SnapshotEnvelope) :
    Archive options P (.start options root stored) where
  published root' hp := by
    obtain rfl := DatabaseEvent.published.inj (List.mem_singleton.1 hp)
    exact h
  current := List.mem_singleton.2 rfl
  latest root' hp := .inl (DatabaseEvent.published.inj (List.mem_singleton.1 hp))
  tasks _ ht := by cases ht
  stored _ _ hs := by cases List.mem_singleton.1 hs

/-- Neither roots nor snapshots, and stores of published roots only.  Whatever roots the tasks
have, they are roots that the archive knows already. -/
theorem kept (h : db.Archive options P) (root : db'.root = db.root)
    (tasks : ∀ task ∈ db'.tasks, task.root = db.root ∨ ∃ t ∈ db.tasks, task.root = t.root)
    (history : ∃ events, db'.history = events ++ db.history ∧
      ∀ e ∈ events, e.isArchived = false) : db'.Archive options P := by
  obtain ⟨events, hh, he⟩ := history
  have hpublished : ∀ root', .published root' ∈ db'.history → .published root' ∈ db.history := by
    intro root' hp
    rw [hh] at hp
    rcases List.mem_append.1 hp with hp | hp
    · cases he _ hp
    · exact hp
  refine ⟨fun root' hp => h.published root' (hpublished root' hp), ?_,
    fun root' hp => root ▸ h.latest root' (hpublished root' hp), fun task ht => ?_,
    fun snapshot expected hs => ?_⟩
  · rw [root, hh]
    exact List.mem_append_right _ h.current
  · rw [hh]
    refine List.mem_append_right _ ?_
    rcases tasks task ht with he | ⟨t, hm, he⟩
    · rw [he]
      exact h.current
    · rw [he]
      exact h.tasks t hm
  · rw [hh] at hs ⊢
    rcases List.mem_append.1 hs with hs | hs
    · cases he _ hs
    · exact (h.stored snapshot expected hs).mono events

/-- The queue of stores as it was. -/
theorem same (h : db.Archive options P) (root : db'.root = db.root)
    (tasks : db'.tasks = db.tasks) (history : ∃ events, db'.history = events ++ db.history ∧
      ∀ e ∈ events, e.isArchived = false) : db'.Archive options P :=
  h.kept root (fun task ht => .inr ⟨task, tasks ▸ ht, rfl⟩) history

/-- What leaves storage and the root alone leaves the archive. -/
theorem quiet (h : db.Archive options P) (hq : db.Quiet DatabaseEvent.isQuiet db') :
    db'.Archive options P := by
  obtain ⟨events, hh, he⟩ := hq.history
  exact h.same hq.root hq.tasks
    ⟨events, hh, fun e hm => DatabaseEvent.isArchived_of_isQuiet (he e hm)⟩

/-- **A published root** joins as the latest.  The root before it keeps its place in the
history, and what is published later is of a later revision. -/
theorem publish (h : db.Archive options P) {t : Transaction} {committed : Committed}
    (hc : db.root.commit options.commit t = .ok committed) (hp : P committed.root) :
    (db.publish committed).Archive options P := by
  unfold Database.publish
  obtain ⟨-, -, ⟨hb, -⟩ | ⟨batch, hb, hrev⟩⟩ := commit_receipt hc
  · rw [hb]
    exact h
  · rw [hb]
    refine ⟨fun root' hm => ?_, List.mem_cons_self .., fun root' hm => ?_, fun task ht => ?_,
      fun snapshot expected hs => ?_⟩
    · rcases List.mem_cons.1 hm with he | hm
      · obtain rfl := DatabaseEvent.published.inj he
        exact hp
      · exact h.published root' hm
    · rcases List.mem_cons.1 hm with he | hm
      · exact .inl (DatabaseEvent.published.inj he)
      · refine .inr ?_
        show root'.revision < committed.root.revision
        rw [hrev, Nat.lt_succ_iff]
        rcases h.latest root' hm with rfl | hlt
        · exact le_rfl
        · exact hlt.le
    · exact List.mem_cons_of_mem _ (h.tasks task ht)
    · rcases List.mem_cons.1 hs with he | hs
      · cases he
      · exact (h.stored snapshot expected hs).mono [_]

/-- To queue a store publishes nothing and stores nothing yet.  The task keeps the current root,
which the archive knows as the latest one. -/
theorem persist (h : db.Archive options P) (receipt : CommitReceipt) :
    (db.persist options receipt).1.Archive options P := by
  by_cases ha : options.adapter
  · have hspec := persist_spec ha db receipt
    generalize db.persist options receipt = result at hspec
    cases hspec with
    | coalesced index entry => exact h
    | full entry limit => exact h.same rfl rfl ⟨[], rfl, by simp⟩
    | broken entry limit clone error => exact h.same rfl rfl ⟨[], rfl, by simp⟩
    | queued entry limit collections clone =>
        refine h.kept rfl (fun task ht => ?_) ⟨[.queued receipt], rfl, by
          simp [DatabaseEvent.isArchived]⟩
        rcases List.mem_append.1 ht with ht | ht
        · exact .inr ⟨task, ht, rfl⟩
        · rw [List.mem_singleton.1 ht]
          exact .inl rfl
  · rwa [persist_of_no_adapter ha]

/-- A flush publishes nothing and stores nothing yet. -/
theorem flushNow (h : db.Archive options P) (id : JsString) :
    (db.flushNow options id).1.Archive options P := by
  rcases flushNow_cases options db id with ⟨-, -, he⟩ | ⟨-, he⟩
  · rw [he]
    exact h.persist _
  · rwa [he]

/-- A call of `close` publishes nothing and stores nothing yet.  It may queue a store of the
current root on its way, as a flush does. -/
theorem close (h : db.Archive options P) (id : JsString) :
    (db.close options id).Archive options P := by
  rcases close_cases options db id with he | ⟨-, -, he⟩
  · rwa [he]
  · have hclosing : Archive options P { db with state := .closing } :=
      h.same rfl rfl ⟨[], rfl, by simp⟩
    have hflush : Archive options P ({ db with state := .closing }.flushDuringClose options id).1 := by
      unfold flushDuringClose
      split_ifs
      · exact hclosing
      · exact hclosing.flushNow id
    rw [he]
    exact hflush.same rfl rfl ⟨[], rfl, by simp⟩

/-- A store that moves on has the root it had. -/
theorem setPhase (h : db.Archive options P) (index : ℕ) (phase : TaskPhase) :
    (db.setPhase index phase).Archive options P := by
  refine h.kept rfl (fun task ht => .inr ?_) ⟨[], rfl, by simp⟩
  obtain ⟨t, hm, rfl | rfl⟩ := mem_setPhase ht
  · exact ⟨_, hm, rfl⟩
  · exact ⟨t, hm, rfl⟩

/-- **A store hands over a snapshot** of the root it was queued for.  That root was published,
so that the snapshot of its collections is one of a published root. -/
theorem startStore (h : db.Archive options P) (hs : db.startStore options index = some db') :
    db'.Archive options P := by
  obtain ⟨task, ht, -, -, rfl⟩ := startStore_eq_some hs
  have hset := h.setPhase index (.storing (db.snapshot options task))
  have hpublished : ∀ root : Root, DatabaseEvent.published root ∈
      .store (db.snapshot options task) db.generation :: db.history →
        .published root ∈ db.history := by
    intro root hp
    rcases List.mem_cons.1 hp with he | hp
    · cases he
    · exact hp
  refine ⟨fun root hp => h.published root (hpublished root hp),
    List.mem_cons_of_mem _ hset.current, fun root hp => h.latest root (hpublished root hp),
    fun task ht => List.mem_cons_of_mem _ (hset.tasks task ht), fun snapshot expected hm => ?_⟩
  · rcases List.mem_cons.1 hm with he | hm
    · obtain ⟨rfl, -⟩ := DatabaseEvent.store.inj he
      exact ⟨rfl, rfl, task.root,
        List.mem_cons_of_mem _ (h.tasks task (List.mem_of_getElem? ht)), task.cloned⟩
    · exact (h.stored snapshot expected hm).mono [_]

/-- **Every step keeps the archive**, where what it commits has the property.  The property is
asked of committed roots only, since a step publishes nothing else. -/
theorem step (h : db.Archive options P) {r : Runtime} (hr : r.database = db) {label : Label}
    (hcommit : ∀ t ∈ r.transactions, ∀ committed,
      db.root.commit options.commit t = .ok committed → P committed.root)
    (he : r.StorageEffect options label db') : db'.Archive options P := by
  subst hr
  cases he with
  | quiet hq => exact h.quiet hq
  | commit t committed known _ ok hq => exact (h.publish ok (hcommit t known committed ok)).quiet hq
  | persist handle call receipt rest _ _ _ _ =>
      have hrecord : (r.database.record (.committed handle
          (r.receiptOf handle receipt))).Archive options P := h.quiet (.record rfl _)
      exact hrecord.persist (r.receiptOf handle receipt)
  | flush id _ => exact h.flushNow id
  | close id => exact h.close id
  | startStore index hs => exact h.startStore hs
  | settleStore index outcome hs =>
      obtain ⟨task, snapshot, -, -, ⟨rfl, -⟩ | ⟨a, -, -, rfl⟩⟩ := settleStore_eq_some hs
      · exact (h.setPhase index (.settled (some (.persistence task.receipt)))).same rfl rfl
          ⟨[.failed snapshot], rfl, by simp [DatabaseEvent.isArchived]⟩
      · exact (h.setPhase index (.settled none)).same rfl rfl
          ⟨[.acknowledged snapshot a], rfl, by simp [DatabaseEvent.isArchived]⟩
  | finishStore index hs =>
      obtain ⟨task, error, -, -, rfl⟩ := finishStore_eq_some hs
      exact (h.setPhase index (.finished error)).same rfl rfl ⟨[], rfl, by simp⟩
  | closeAdapter hs =>
      obtain ⟨waiting, failure, -, -, rfl⟩ := closeAdapter_eq_some hs
      split_ifs
      · exact h.same rfl rfl ⟨[.adapterClose], rfl, by simp [DatabaseEvent.isArchived]⟩
      · exact h.same rfl rfl ⟨[], rfl, by simp⟩
  | finishClose failure hs =>
      obtain ⟨previous, -, rfl⟩ := finishClose_eq_some hs
      exact h.same rfl rfl ⟨[.close (previous.or failure)], rfl, by simp [DatabaseEvent.isArchived]⟩

end Archive

end Database

namespace Runtime

/-- Documents are valid wherever they are, and the history has what can be built again. -/
structure Archived (options : DatabaseOptions) (schemas : List (JsString × CollectionSchema))
    (r : Runtime) : Prop where
  declared : r.Declared schemas
  transactions : ∀ t ∈ r.transactions, t.All (WorkingCollection.Records IsValid)
  archive : r.database.Archive options (Root.Rebuildable schemas)

variable {options : DatabaseOptions} {schemas : List (JsString × CollectionSchema)}
  {r r' : Runtime}

namespace Archived

/-- **A program that was just opened can be built again**: its first root can.  There is no
snapshot yet, and no other root. -/
theorem start {root : Root} (h : root.Rebuildable schemas) (stored : Option SnapshotEnvelope) :
    (Runtime.start options root stored).Archived options schemas :=
  ⟨.start h.invariant h.declares stored, fun _ ht => (by cases ht), .start h stored⟩

/-- The current root can be built again. -/
theorem root (h : r.Archived options schemas) : r.database.root.Rebuildable schemas :=
  h.archive.published _ h.archive.current

/-- **Every step keeps it.**  Documents are validated before they are written, and what is
stored is of a published root. -/
theorem step (h : r.Archived options schemas) {label : Label}
    (hs : r.step options label = some r') : r'.Archived options schemas := by
  refine ⟨h.declared.step hs, fun t' ht' => ?_, h.archive.step rfl ?_ (step_storage hs)⟩
  · cases step_transactions hs t' ht' with
    | new id now => exact .new _ id now options.transactionLimits
    | old ht => exact h.transactions _ ht
    | called ht now c =>
        exact Transaction.records_call now h.root.invariant h.root.records (h.transactions _ ht)
          (writes_isValid c)
    | rolledBack ht => exact (h.transactions _ ht).rollback
    | finished ht status => exact (h.transactions _ ht).of_working rfl
    | published ht => exact (h.transactions _ ht).sealWorking fun _ _ hw => ⟨hw.1.seal, hw.2⟩
  · intro t ht committed hc
    exact h.root.commit (h.declared.transactions t ht) (h.transactions t ht) hc

end Archived

/-- **In every run** documents are valid, and the history has what can be built again.  By
induction on the run, from the invariant of the archive and from the records of the collections,
which every write validated. -/
theorem archived_of_run {root : Root} (h : root.Rebuildable schemas) (stored : Option SnapshotEnvelope)
    {allowed : Runtime → Label → Prop} {labels : List Label}
    (hrun : Transition.Run (Runtime.step options) allowed (start options root stored) labels r) :
    r.Archived options schemas :=
  hrun.invariant (P := Archived options schemas) (.start h stored) fun _ _ _ h _ hs => h.step hs

end Runtime

end NewtonDB
