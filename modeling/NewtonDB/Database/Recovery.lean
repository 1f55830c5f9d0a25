/-
# Recovery of a degraded database

A database is degraded by a full store queue and by a store that fails, and recovers
when a store succeeds that catches up with its revision.  `RecoveryInvariant` says that
what the adapter has not answered yet is ahead of what is persisted, so neither cause
leaves a degraded database that has everything persisted: a flush of it always waits
for a store of the current root (`degraded_recovers`).

A commit that a hook makes breaks it: the older commit is stored last, and where that
store fails the database stays degraded, and every flush resolves without a store
(`reporter_commit_stuck`).
-/

import NewtonDB.Database.Durability
import NewtonDB.Database.Publications
import NewtonDB.Database.Snapshots

namespace NewtonDB

namespace Database

/-- Stores the adapter has not answered are ahead of what is persisted, in the order of
their revisions and on the books; a degraded database has something to persist. -/
structure RecoveryInvariant (options : DatabaseOptions) (db : Database) : Prop where
  behind : ∀ task ∈ db.tasks, task.phase.isUnsettled → db.persistedRevision < task.receipt.revision
  distinct : ∀ (i j : ℕ) (a b : PersistenceTask), i < j → db.tasks[i]? = some a →
    db.tasks[j]? = some b → a.phase.isUnsettled → a.receipt.revision < b.receipt.revision
  booked : ∀ (index : ℕ) (task : PersistenceTask), db.tasks[index]? = some task →
    task.phase.isUnfinished → db.persistenceByRevision.get? task.receipt.revision = some index
  storing : ∀ task ∈ db.tasks, ∀ snapshot, task.phase = .storing snapshot →
    snapshot.revision = task.receipt.revision
  done : ∀ task ∈ db.tasks, task.phase = .settled none →
    (task.receipt.revision : ℤ) ≤ db.persistedRevision
  adapter : ∀ task ∈ db.tasks, options.adapter
  degraded : db.state = .degraded → options.adapter ∧ db.persistedRevision < db.root.revision

variable {options : DatabaseOptions} {db db' : Database} {index : ℕ}

/-- A database stays degraded exactly while what is persisted is behind.  An acknowledgement
that brings storage up to date sets it back to `open`, and no other does. -/
theorem stateAfter_eq_degraded {persisted : ℤ} : db.stateAfter persisted = .degraded ↔
    db.state = .degraded ∧ persisted < db.root.revision := by
  unfold stateAfter
  split_ifs with h
  · simp [h.2]
  · refine ⟨fun hd => ⟨hd, ?_⟩, And.left⟩
    by_contra hcon
    exact h ⟨hd, not_lt.1 hcon⟩

namespace RecoveryInvariant

/-- In a database that was just opened no store is ahead of what is persisted.  It is open and
has no task. -/
theorem start (options : DatabaseOptions) (root : Root) (stored : Option SnapshotEnvelope) :
    RecoveryInvariant options (.start options root stored) where
  behind _ h := by cases h
  distinct _ _ _ _ _ h := by cases h
  booked _ _ h := by cases h
  storing _ h := by cases h
  done _ h := by cases h
  adapter _ h := by cases h
  degraded h := by cases h

/-- Only the queue, its books and what is persisted matter, and a state that is not
newly degraded. -/
theorem congr (h : RecoveryInvariant options db) (tasks : db'.tasks = db.tasks)
    (entries : db'.persistenceByRevision = db.persistenceByRevision)
    (persisted : db'.persistedRevision = db.persistedRevision)
    (degraded : db'.state = .degraded →
      options.adapter ∧ db.persistedRevision < db'.root.revision) : RecoveryInvariant options db' where
  behind := by rw [tasks, persisted]; exact h.behind
  distinct := by rw [tasks]; exact h.distinct
  booked := by rw [tasks, entries]; exact h.booked
  storing := tasks ▸ h.storing
  done := by rw [tasks, persisted]; exact h.done
  adapter := tasks ▸ h.adapter
  degraded hd := persisted ▸ degraded hd

/-- A database with the same state and no smaller revision. -/
theorem same (h : RecoveryInvariant options db) (tasks : db'.tasks = db.tasks)
    (entries : db'.persistenceByRevision = db.persistenceByRevision)
    (persisted : db'.persistedRevision = db.persistedRevision) (state : db'.state = db.state)
    (root : db.root.revision ≤ db'.root.revision) : RecoveryInvariant options db' := by
  refine h.congr tasks entries persisted fun hd => ?_
  obtain ⟨ha, hlt⟩ := h.degraded (state ▸ hd)
  exact ⟨ha, by omega⟩

/-- What leaves storage alone keeps the stores ahead. -/
theorem quiet {kind : DatabaseEvent → Bool} (h : RecoveryInvariant options db)
    (hq : db.Quiet kind db') : RecoveryInvariant options db' :=
  h.same hq.tasks hq.persistenceByRevision hq.persistedRevision hq.state (by rw [hq.root])

/-- **A publication leaves storage behind**, and the stores ahead.  What is persisted is behind
the new revision, so a degraded database has reason to stay so. -/
theorem publish (h : RecoveryInvariant options db) {t : Transaction} {committed : Committed}
    (ok : db.root.commit options.commit t = .ok committed) :
    RecoveryInvariant options (db.publish committed) := by
  obtain ⟨-, -, ⟨hnone, -⟩ | ⟨batch, hsome, hrevision⟩⟩ := commit_receipt ok
  · rwa [Database.publish, hnone]
  · rw [Database.publish, hsome]
    exact h.same rfl rfl rfl rfl (hrevision ▸ Nat.le_succ _)

/-- **A store that is queued** is of the current revision, and no other store of that
revision is on the books. -/
theorem persist (h : RecoveryInvariant options db) (hs : db.SnapshotInvariant)
    (ha : options.adapter) (receipt : CommitReceipt)
    (pending : db.persistedRevision < receipt.revision)
    (bound : receipt.revision ≤ db.root.revision)
    (current : db.persistenceByRevision.get? receipt.revision = none →
      db.pendingPersistence < options.persistenceLimits.maxPendingSnapshots →
      receipt.revision = db.root.revision) :
    RecoveryInvariant options (db.persist options receipt).1 := by
  have hspec := persist_spec ha db receipt
  generalize db.persist options receipt = result at hspec
  cases hspec with
  | coalesced index entry => exact h
  | full entry limit =>
      have hlt : db.persistedRevision < db.root.revision := by omega
      exact h.congr rfl rfl rfl fun _ => ⟨ha, hlt⟩
  | broken entry limit clone error => exact h.same rfl rfl rfl rfl le_rfl
  | queued entry limit collections clone =>
      have hrevision := current entry limit
      have hold : ∀ (i : ℕ) (task : PersistenceTask), db.tasks[i]? = some task → task.phase.isUnfinished →
          task.receipt.revision < receipt.revision := by
        intro i task ht hu
        have hle : task.receipt.revision ≤ db.root.revision := by
          rw [hs.labels task (List.mem_of_getElem? ht)]
          exact hs.bound task (List.mem_of_getElem? ht)
        have hne : task.receipt.revision ≠ receipt.revision := by
          intro he
          have hbooked := h.booked i task ht hu
          rw [he, entry] at hbooked
          cases hbooked
        omega
      refine ⟨fun task ht hu => ?_, fun i j a b hij hi hj hu => ?_, fun i task ht hu => ?_,
        fun task ht => ?_, fun task ht => ?_, fun _ _ => ha, h.degraded⟩
      · rcases List.mem_append.1 ht with ht | ht
        · exact h.behind task ht hu
        · rw [List.mem_singleton.1 ht]
          exact pending
      · rcases getElem?_concat_cases hi with hi | ⟨rfl, rfl⟩
        · rcases getElem?_concat_cases hj with hj | ⟨rfl, rfl⟩
          · exact h.distinct i j a b hij hi hj hu
          · exact hold i a hi (TaskPhase.isUnsettled_le hu)
        · obtain ⟨hlt, -⟩ := List.getElem?_eq_some_iff.1 hj
          rw [queue, List.length_append, List.length_singleton] at hlt
          exact absurd hij (by simpa using Nat.le_of_lt_succ hlt)
      · simp only [queue, OrderedMap.get?_set]
        rcases getElem?_concat_cases ht with ht | ⟨rfl, rfl⟩
        · rw [if_neg (hold i task ht hu).ne']
          exact h.booked i task ht hu
        · rw [if_pos rfl]
      · rcases List.mem_append.1 ht with ht | ht
        · exact h.storing task ht
        · rw [List.mem_singleton.1 ht]
          exact fun _ hp => by cases hp
      · rcases List.mem_append.1 ht with ht | ht
        · exact h.done task ht
        · rw [List.mem_singleton.1 ht]
          exact fun hp => by cases hp

/-- A flush queues a store of the current revision, which is ahead. -/
theorem flushNow (h : RecoveryInvariant options db) (hs : db.SnapshotInvariant) (id : JsString) :
    RecoveryInvariant options (db.flushNow options id).1 := by
  rcases flushNow_cases options db id with ⟨ha, pending, he⟩ | ⟨-, he⟩
  · rw [he]
    exact h.persist hs ha (db.flushReceipt options id) pending le_rfl fun _ _ => rfl
  · rwa [he]

/-- A call of `close` flushes, and keeps what a flush does.  A closing database is not degraded,
so the clauses about that state ask nothing of it. -/
theorem close (h : RecoveryInvariant options db) (hs : db.SnapshotInvariant) (id : JsString) :
    RecoveryInvariant options (db.close options id) := by
  rcases close_cases options db id with he | ⟨-, -, he⟩
  · rwa [he]
  · have hclosing : RecoveryInvariant options { db with state := .closing } :=
      h.congr rfl rfl rfl fun hd => by cases hd
    have hsnapshot : SnapshotInvariant { db with state := .closing } := hs.same rfl rfl rfl
    have hflush : RecoveryInvariant options
        ({ db with state := .closing }.flushDuringClose options id).1 := by
      unfold flushDuringClose
      split_ifs
      · exact hclosing
      · exact hclosing.flushNow hsnapshot id
    rw [he]
    exact hflush.same rfl rfl rfl rfl le_rfl

/-- A store moves on, and what is persisted may grow, to less than the stores that the
adapter has not answered. -/
theorem move (h : RecoveryInvariant options db) {task : PersistenceTask}
    (ht : db.tasks[index]? = some task) {phase : TaskPhase}
    (tasks : db'.tasks = (db.setPhase index phase).tasks)
    (entries : db'.persistenceByRevision = db.persistenceByRevision)
    (persisted : db.persistedRevision ≤ db'.persistedRevision)
    (behind : ∀ (j : ℕ) (t : PersistenceTask), j ≠ index → db.tasks[j]? = some t →
      t.phase.isUnsettled → db'.persistedRevision < t.receipt.revision)
    (unsettled : phase.isUnsettled →
      task.phase.isUnsettled ∧ db'.persistedRevision < task.receipt.revision)
    (unfinished : phase.isUnfinished → task.phase.isUnfinished)
    (storing : ∀ snapshot, phase = .storing snapshot → snapshot.revision = task.receipt.revision)
    (done : phase = .settled none → (task.receipt.revision : ℤ) ≤ db'.persistedRevision)
    (degraded : db'.state = .degraded → options.adapter ∧ db'.persistedRevision < db'.root.revision) :
    RecoveryInvariant options db' := by
  -- a store of the new queue, and the one it was
  have hget : ∀ (i : ℕ) (t : PersistenceTask), db'.tasks[i]? = some t →
      (i ≠ index ∧ db.tasks[i]? = some t) ∨ (i = index ∧ t = { task with phase }) := by
    intro i t hi
    rw [tasks, tasks_setPhase] at hi
    obtain ⟨u, hu, rfl⟩ := Option.map_eq_some_iff.1 hi
    split_ifs with hindex
    · obtain rfl := hindex
      obtain rfl := Option.some.inj (ht.symm.trans hu)
      exact .inr ⟨rfl, rfl⟩
    · exact .inl ⟨Ne.symm hindex, hu⟩
  have hall : ∀ {P : PersistenceTask → Prop}, (∀ (i : ℕ) (t : PersistenceTask), i ≠ index →
      db.tasks[i]? = some t → P t) → P { task with phase } → ∀ t ∈ db'.tasks, P t := by
    intro P hold hnew t hm
    obtain ⟨i, hi⟩ := List.mem_iff_getElem?.1 hm
    rcases hget i t hi with ⟨hne, hi⟩ | ⟨-, rfl⟩
    · exact hold i t hne hi
    · exact hnew
  refine ⟨hall behind fun hu => (unsettled hu).2, fun i j a b hij hi hj hu => ?_,
    fun i t hi hu => ?_, hall (fun i t _ hi => h.storing t (List.mem_of_getElem? hi)) storing,
    hall (fun i t _ hi hp => (h.done t (List.mem_of_getElem? hi) hp).trans persisted) done,
    fun _ _ => h.adapter task (List.mem_of_getElem? ht), degraded⟩
  · rcases hget i a hi with ⟨-, hi⟩ | ⟨rfl, rfl⟩
    · rcases hget j b hj with ⟨-, hj⟩ | ⟨rfl, rfl⟩
      · exact h.distinct i j a b hij hi hj hu
      · exact h.distinct i j a task hij hi ht hu
    · rcases hget j b hj with ⟨-, hj⟩ | ⟨rfl, rfl⟩
      · exact h.distinct i j task b hij ht hj (unsettled hu).1
      · exact absurd hij (lt_irrefl _)
  · rw [entries]
    rcases hget i t hi with ⟨-, hi⟩ | ⟨rfl, rfl⟩
    · exact h.booked i t hi hu
    · exact h.booked i task ht (unfinished hu)

/-- A store that starts stays ahead.  It was ahead when it was queued, and nothing was persisted
since that it waits behind. -/
theorem startStore (h : RecoveryInvariant options db)
    (hs : db.startStore options index = some db') : RecoveryInvariant options db' := by
  obtain ⟨task, ht, hq, -, rfl⟩ := startStore_eq_some hs
  have hlt := h.behind task (List.mem_of_getElem? ht) (by rw [hq]; rfl)
  refine h.move ht rfl rfl le_rfl (fun _ t _ hi => h.behind t (List.mem_of_getElem? hi))
    (fun _ => ⟨by rw [hq]; rfl, hlt⟩) (fun _ => by rw [hq]; rfl) (fun snapshot he => ?_)
    (fun he => by cases he) h.degraded
  obtain rfl := TaskPhase.storing.inj he
  rfl

/-- **A store that fails was ahead of what is persisted.**  It stays in the queue's order, and a
later one may still succeed. -/
theorem failStore (h : RecoveryInvariant options db) (hs : db.SnapshotInvariant)
    {task : PersistenceTask} {snapshot : SnapshotEnvelope}
    (ht : db.tasks[index]? = some task) (hp : task.phase = .storing snapshot) :
    RecoveryInvariant options (db.failStore index task snapshot) := by
  have hmem := List.mem_of_getElem? ht
  have hlt := h.behind task hmem (by rw [hp]; rfl)
  have hle : task.receipt.revision ≤ db.root.revision := by
    rw [hs.labels task hmem]
    exact hs.bound task hmem
  exact h.move ht rfl rfl le_rfl (fun _ t _ hi => h.behind t (List.mem_of_getElem? hi))
    (fun hu => by cases hu) (fun _ => by rw [hp]; rfl) (fun _ he => by cases he)
    (fun he => by cases he) fun _ =>
      ⟨h.adapter task hmem, hlt.trans_le (Int.ofNat_le.2 hle)⟩

/-- **A store that succeeds leaves the ones after it ahead.**  The queue is in the order of
revisions, so that those behind it are of later ones. -/
theorem acknowledge (h : RecoveryInvariant options db) (ho : QueueOrder db.tasks)
    {task : PersistenceTask} {snapshot : SnapshotEnvelope} {a : StoreAcknowledgement}
    (ht : db.tasks[index]? = some task) (hp : task.phase = .storing snapshot)
    (honest : a.revision = snapshot.revision) :
    RecoveryInvariant options (db.acknowledge index snapshot a) := by
  have hmem := List.mem_of_getElem? ht
  have hrevision : a.revision = task.receipt.revision :=
    honest.trans (h.storing task hmem snapshot hp)
  have hunsettled : task.phase.isUnsettled := by rw [hp]; rfl
  refine h.move ht rfl rfl (le_max_left ..) (fun j t hne hj hu => ?_) (fun hu => by cases hu)
    (fun _ => by rw [hp]; rfl) (fun _ he => by cases he) (fun _ => ?_) fun hd => ?_
  · refine max_lt (h.behind t (List.mem_of_getElem? hj) hu) ?_
    rw [hrevision]
    have hafter := ho.lt_of_unsettled ht (by rw [hp]; simp) hj hu hne
    exact_mod_cast h.distinct index j task t hafter ht hj hunsettled
  · rw [← hrevision]
    exact le_max_right ..
  · obtain ⟨hstate, hlt⟩ := stateAfter_eq_degraded.1 hd
    exact ⟨(h.degraded hstate).1, hlt⟩

/-- **The answer of an honest adapter** persists what was stored; the stores behind it stay
ahead. -/
theorem settleStore (h : RecoveryInvariant options db) (hs : db.SnapshotInvariant)
    (ho : QueueOrder db.tasks) {outcome : StoreOutcome}
    (honest : ∀ task snapshot a, db.tasks[index]? = some task → task.phase = .storing snapshot →
      outcome = .acknowledged a → a.revision = snapshot.revision)
    (hs' : db.settleStore options index outcome = some db') : RecoveryInvariant options db' := by
  obtain ⟨task, snapshot, ht, hp, ⟨rfl, -⟩ | ⟨a, rfl, -, rfl⟩⟩ := settleStore_eq_some hs'
  · exact h.failStore hs ht hp
  · exact h.acknowledge ho ht hp (honest task snapshot a ht hp rfl)

/-- The entry of a finished store leads to no other.  Its revision is taken out of the map, and
revisions in the queue are distinct. -/
theorem finishStore (h : RecoveryInvariant options db) (hs : db.finishStore index = some db') :
    RecoveryInvariant options db' := by
  obtain ⟨task, error, ht, hp, rfl⟩ := finishStore_eq_some hs
  have hmove : RecoveryInvariant options (db.setPhase index (.finished error)) :=
    h.move ht rfl rfl le_rfl (fun _ t _ hi => h.behind t (List.mem_of_getElem? hi))
      (fun hu => by cases hu) (fun hu => by cases hu) (fun _ he => by cases he)
      (fun he => by cases he) h.degraded
  refine ⟨hmove.behind, hmove.distinct, fun i t hi hu => ?_, hmove.storing, hmove.done,
    hmove.adapter, hmove.degraded⟩
  have hentry := hmove.booked i t hi hu
  dsimp only at hi ⊢
  split_ifs with hmine
  · rw [OrderedMap.get?_delete, if_neg]
    · exact hentry
    · intro he
      have hsame : i = index := by
        rw [he] at hmine
        exact Option.some.inj (hentry.symm.trans hmine)
      rw [hsame, tasks_setPhase, ht, Option.map_some, if_pos rfl] at hi
      obtain rfl := Option.some.inj hi
      cases hu
  · exact hentry

/-- To close the adapter leaves the stores. -/
theorem closeAdapter (h : RecoveryInvariant options db)
    (hs : db.closeAdapter options = some db') : RecoveryInvariant options db' := by
  obtain ⟨waiting, failure, -, -, rfl⟩ := closeAdapter_eq_some hs
  split_ifs
  · exact h.same rfl rfl rfl rfl le_rfl
  · exact h.same rfl rfl rfl rfl le_rfl

/-- The end of a close leaves the stores. -/
theorem finishClose (h : RecoveryInvariant options db) {failure : Option NewtonError}
    (hs : db.finishClose failure = some db') : RecoveryInvariant options db' := by
  obtain ⟨previous, -, rfl⟩ := finishClose_eq_some hs
  exact h.congr rfl rfl rfl fun hd => by cases hd

end RecoveryInvariant

/-- **What a flush of a degraded database waits for**: it fails because the queue is
full, or waits for a store of the current root that has not succeeded. -/
theorem flushNow_degraded (h : RecoveryInvariant options db) (hs : db.SnapshotInvariant)
    (hq : db.QueueInvariant options) (hr : db.root.Invariant) (hd : db.state = .degraded)
    (id : JsString) :
    (options.persistenceLimits.maxPendingSnapshots ≤ db.pendingPersistence ∧
      ∃ receipt, (db.flushNow options id).2 = .rejected (.persistence receipt)) ∨
    ∃ index task, (db.flushNow options id).2 = .task index ∧
      (db.flushNow options id).1.tasks[index]? = some task ∧
      task.receipt.revision = db.root.revision ∧ task.root = db.root ∧
      task.phase.isUnfinished ∧ task.phase ≠ .settled none := by
  obtain ⟨ha, hlt⟩ := h.degraded hd
  have he : db.flushNow options id = db.persist options (db.flushReceipt options id) :=
    if_pos ⟨ha, hlt⟩
  rw [he]
  have hspec := persist_spec ha db (db.flushReceipt options id)
  generalize db.persist options (db.flushReceipt options id) = result at hspec
  cases hspec with
  | coalesced index entry =>
      obtain ⟨task, ht, hrevision, hu⟩ := hq.entries _ _ entry
      have hmem := List.mem_of_getElem? ht
      refine .inr ⟨index, task, rfl, ht, hrevision, ?_, hu, fun hp => ?_⟩
      · have hpublished := hs.published task hmem
        rw [← hs.labels task hmem, hrevision] at hpublished
        exact Option.some.inj (hpublished.symm.trans hs.current)
      · have hle := h.done task hmem hp
        rw [hrevision] at hle
        exact absurd hlt hle.not_gt
  | full entry limit => exact .inl ⟨limit, _, rfl⟩
  | broken entry limit clone error =>
      obtain ⟨collections, hc⟩ := hr.exists_clone
      rw [clone] at hc
      cases hc
  | queued entry limit collections clone =>
      exact .inr ⟨_, _, rfl, List.getElem?_concat_length .., rfl, rfl, rfl, nofun⟩

/-- **A store of the current revision that is acknowledged reopens the database.**  What is
persisted is then the current revision, and that is what the state is chosen by. -/
theorem state_of_acknowledged {task : PersistenceTask} {snapshot : SnapshotEnvelope}
    {a : StoreAcknowledgement} (ht : db.tasks[index]? = some task)
    (hp : task.phase = .storing snapshot) (hrevision : snapshot.revision = db.root.revision)
    (hstate : db.state = .opened ∨ db.state = .degraded) (ha : accepts options snapshot a) :
    ∃ db', db.settleStore options index (.acknowledged a) = some db' ∧ db'.state = .opened := by
  have hs : db.settleStore options index (.acknowledged a) = some (db.acknowledge index snapshot a) := by
    simp only [settleStore, ht, hp, ha, if_true]
    rfl
  refine ⟨_, hs, ?_⟩
  have hle : (db.root.revision : ℤ) ≤ max db.persistedRevision a.revision := by
    obtain ⟨-, -, hle⟩ := of_decide_eq_true ha
    rw [← hrevision]
    exact (Int.ofNat_le.2 hle).trans (le_max_right ..)
  rcases hstate with hstate | hstate
  · exact (if_neg fun hd => by rw [hstate] at hd; cases hd.1).trans hstate
  · exact if_pos ⟨hstate, hle⟩

end Database

/-! ### Every run -/

namespace Runtime

variable {options : DatabaseOptions} {loaded : Option SnapshotEnvelope} {r r' : Runtime}
  {label : Label} {held : ℤ}

/-- **Every step keeps a degraded database behind**, with an honest adapter, when stores
are labelled with the revision they hold. -/
theorem recoveryInvariant_step (h : r.database.RecoveryInvariant options)
    (hd : r.DurabilityInvariant options loaded held) (hsnapshot : r.database.SnapshotInvariant)
    (hlabels : r.keepsLabels options label) (honest : r.adapterHonest label)
    (hs : r.step options label = some r') : r'.database.RecoveryInvariant options := by
  have heffect := step_storage hs
  generalize r'.database = db' at heffect
  cases heffect with
  | quiet hq => exact h.quiet hq
  | commit t committed _ _ ok hq => exact (h.publish ok).quiet hq
  | persist handle call receipt rest stack persists ha pending =>
      have hrecord : (r.database.record (.committed handle
          (r.receiptOf handle receipt))).RecoveryInvariant options := h.same rfl rfl rfl rfl le_rfl
      have hlabelled : (r.database.record (.committed handle
          (r.receiptOf handle receipt))).SnapshotInvariant := hsnapshot.quiet (.record rfl _)
      have hbound := (hd.frames handle (some call) receipt (stack ▸ List.mem_cons_self ..)).2
      refine hrecord.persist hlabelled ha (r.receiptOf handle receipt) pending hbound fun entry limit => ?_
      rw [keepsLabels, stack] at hlabels
      have happends : r.database.appends options receipt.revision := by
        have hnone : r.database.persistenceByRevision.get? receipt.revision = none := entry
        have hlimit : r.database.pendingPersistence <
            options.persistenceLimits.maxPendingSnapshots := limit
        simp [Database.appends, ha, pending, hnone, hlimit]
      show receipt.revision = r.database.root.revision
      simpa [persists, happends] using hlabels
  | flush id usable => exact h.flushNow hsnapshot id
  | close id => exact h.close hsnapshot id
  | startStore index hs => exact h.startStore hs
  | settleStore index outcome hs =>
      refine h.settleStore hsnapshot hd.queue.order (fun task snapshot a ht hp ho => ?_) hs
      subst ho
      rw [adapterHonest, ht, Option.all_some, hp] at honest
      exact of_decide_eq_true honest
  | finishStore index hs => exact h.finishStore hs
  | closeAdapter hs => exact h.closeAdapter hs
  | finishClose failure hs => exact h.finishClose hs

section

variable {σ : Type} [DecidableEq σ] {graph : JsGraph σ} {root : Root}

/-- **A degraded database is never stuck**, in every run over an honest adapter in which
a `transaction` that queues a store of its commit does so before anything else is
published: it has something to persist, a flush of it waits for a store of the
current root, and a store of the current revision that is acknowledged opens it. -/
theorem degraded_recovers (loaded : Option SnapshotEnvelope)
    {seed : List (JsString × List σ)} {schemas : List (JsString × CollectionSchema)}
    (hroot : createRoot graph seed schemas (loaded.elim 0 (·.revision)) = .ok root)
    {labels : List Label}
    (hrun : Transition.Run (step options)
      (fun r label => r.keepsLabels options label ∧ r.adapterHonest label)
      (start options root loaded) labels r)
    (hdegraded : r.database.state = .degraded) :
    r.database.persistedRevision < r.database.root.revision ∧
    (∀ id, ∃ waiting,
      (r.flush options id).calls = r.calls ++ [.flushing r.database.root.revision waiting] ∧
      ((options.persistenceLimits.maxPendingSnapshots ≤ r.database.pendingPersistence ∧
          ∃ receipt, waiting = .rejected (.persistence receipt)) ∨
        ∃ index task, waiting = .task index ∧
          (r.flush options id).database.tasks[index]? = some task ∧
          task.receipt.revision = r.database.root.revision ∧ task.root = r.database.root ∧
          task.phase.isUnfinished ∧ task.phase ≠ .settled none)) ∧
    ∀ index task snapshot acknowledgement, r.database.tasks[index]? = some task →
      task.phase = .storing snapshot → snapshot.revision = r.database.root.revision →
      Database.accepts options snapshot acknowledgement →
      ∃ db', r.database.settleStore options index (.acknowledged acknowledgement) = some db' ∧
        db'.state = .opened := by
  have hinv : (∃ held, r.DurabilityInvariant options loaded held) ∧
      r.database.SnapshotInvariant ∧ r.database.RecoveryInvariant options := by
    refine hrun.invariant (P := fun r => (∃ held, r.DurabilityInvariant options loaded held) ∧
      r.database.SnapshotInvariant ∧ r.database.RecoveryInvariant options)
      ⟨⟨_, .start options (createRoot_invariant hroot).2⟩, .start options root loaded,
        .start options root loaded⟩ ?_
    rintro r label r' ⟨⟨held, hd⟩, hsnapshot, hrecovery⟩ ⟨hlabels, honest⟩ hs
    obtain ⟨held', -, hd'⟩ := hd.step honest hs
    exact ⟨⟨held', hd'⟩, snapshotInvariant_step hd.queue hsnapshot hlabels hs,
      recoveryInvariant_step hrecovery hd hsnapshot hlabels honest hs⟩
  obtain ⟨⟨held, hd⟩, hsnapshot, hrecovery⟩ := hinv
  have hengine : r.EngineInvariant := by
    refine hrun.invariant (P := EngineInvariant) (.start (createRoot_invariant hroot).1 loaded) ?_
    exact fun _ _ _ h _ hs => h.step hs
  have husable : r.database.assertOpen = .ok () := by simp [Database.assertOpen, hdegraded]
  refine ⟨(hrecovery.degraded hdegraded).2, fun id => ?_, fun index task snapshot a ht hp hrevision ha =>
    Database.state_of_acknowledged ht hp hrevision (.inr hdegraded) ha⟩
  rw [flush, husable]
  exact ⟨_, rfl, Database.flushNow_degraded hrecovery hsnapshot hd.queue hengine.root hdegraded id⟩

end

/-- A flush after a failed store waits.  The theorem says that once its store is acknowledged
the database is open again. -/
theorem failed_store_recoverable : ∃ (r : Runtime) (waiting : Waiting),
    r.database.state = .degraded ∧ r.database.persistedRevision < r.database.root.revision ∧
      (r.flush (notesOptions 8 8) (js "f")).calls =
        r.calls ++ [.flushing r.database.root.revision waiting] := by
  obtain ⟨root, r, hroot, h⟩ := exists_run (f := fun root =>
    (Transition.checked (step (notesOptions 8 8))
      (fun r label => r.keepsLabels (notesOptions 8 8) label ∧ r.adapterHonest label)
      (start (notesOptions 8 8) root none)
      [.transaction none false (js "t") 0, addNote 0 "a", .returns 0, .resume, .startStore 0,
        .settleStore 0 .rejected]).filter (·.database.state = .degraded))
    (by decide +kernel)
  obtain ⟨hrun, hdegraded⟩ := Option.filter_eq_some_iff.1 h
  have hd := of_decide_eq_true hdegraded
  have hboth := (Transition.checked_sound hrun).mono fun _ _ h => of_decide_eq_true h
  obtain ⟨hlt, hflush, -⟩ := degraded_recovers none hroot hboth hd
  obtain ⟨waiting, hcalls, -⟩ := hflush (js "f")
  exact ⟨r, waiting, hd, hlt, hcalls⟩

/-- A commit is asked for while an overflow hook runs. -/
def commitsInOverflowHook (r : Runtime) (label : Label) : Bool :=
  (r.commitRequest label).isSome && r.stack.any (· matches .overflow _)

/-- **An error reporter that commits leaves a degraded database stuck.**  The event queue
is full, so the commit of a `transaction` calls the overflow hook, which throws; the
reporter of that error runs a `transaction` of its own.  The newer commit is stored
first, the store of the older one fails, and a flush of the degraded database resolves
at once and leaves it degraded. -/
theorem reporter_commit_stuck :
    (noNotes.toOption.bind fun root => (Transition.checked (step (notesOptions 2 1))
      (fun r label => !r.commitsInOverflowHook label && r.adapterHonest label)
      (start (notesOptions 2 1) root none)
      [.beginTransaction (js "s") 0, addNote 0 "a", .commit 0 0, .resume,
        .transaction none false (js "t") 0, addNote 1 "b", .returns 0, .throws,
        .transaction none false (js "u") 0, addNote 2 "c", .returns 0, .returns 0, .resume,
        .returns 0, .resume, .startStore 0, .settleStore 0 (storedNotes 1 3), .finishStore 0,
        .startStore 1, .settleStore 1 .rejected, .finishStore 1, .flush (js "f"), .wake 2]).map
      fun r => (r.database.state, r.database.persistedRevision, r.database.root.revision,
        r.database.tasks.length, (r.database.outcome r.database.tail).map Option.isNone)) =
        some (.degraded, 3, 3, 2, some true) := by
  decide +kernel

end Runtime

end NewtonDB
