/-
# What a closed database left in storage

Where closes are clean, labels are kept and the adapter is honest, a close that succeeds
leaves a snapshot of the current root in storage under its revision, and the database opened
from it is the one that was closed: the same options, the same documents and the same
outcome of every query (`OpenOptions.closed_database_reopens`).  Where nothing was committed
the snapshot is the one the database was opened from.
-/

import NewtonDB.Database.Closing
import NewtonDB.Database.Reopening
import NewtonDB.Database.Snapshots

namespace NewtonDB

/-- What storage holds: the snapshot acknowledged last, or, where there is none, the one the
database was loaded from. -/
def lastStored (loaded : Option SnapshotEnvelope) : List DatabaseEvent → Option SnapshotEnvelope
  | [] => loaded
  | .acknowledged snapshot _ :: _ => some snapshot
  | _ :: earlier => lastStored loaded earlier

variable {loaded : Option SnapshotEnvelope}

/-- Storage changes only when a store succeeds.  Any other event leaves what is in storage as it
was. -/
theorem lastStored_append {events history : List DatabaseEvent}
    (h : ∀ e ∈ events, e.isNoAcknowledgement) :
    lastStored loaded (events ++ history) = lastStored loaded history := by
  induction events with
  | nil => rfl
  | cons e events ih =>
      have hrest := ih fun e' he' => h e' (List.mem_cons_of_mem _ he')
      have he := h e (List.mem_cons_self ..)
      cases e <;> first | exact hrest | cases he

/-- The root at a revision was published, under that revision.  The search goes from the newest
event to the oldest and stops at the first root of that revision. -/
theorem rootAt_eq_some {revision : ℕ} {root : Root} {history : List DatabaseEvent}
    (h : rootAt revision history = some root) :
    .published root ∈ history ∧ root.revision = revision := by
  induction history with
  | nil => cases h
  | cons e history ih =>
      cases e with
      | published root' =>
          rw [rootAt] at h
          split_ifs at h with heq
          · obtain rfl := Option.some.inj h
            exact ⟨List.mem_cons_self .., heq⟩
          · obtain ⟨hm, hrev⟩ := ih h
            exact ⟨List.mem_cons_of_mem _ hm, hrev⟩
      | _ =>
          obtain ⟨hm, hrev⟩ := ih h
          exact ⟨List.mem_cons_of_mem _ hm, hrev⟩

/-- A labelled snapshot is one of the root published at its revision.  The label was checked
against the history before the store, and a root that was published stays on record. -/
theorem root_of_labelled {snapshot : SnapshotEnvelope} {expected : ℕ} {history : List DatabaseEvent}
    (h : labelled history) (hm : .store snapshot expected ∈ history) :
    ∃ root, .published root ∈ history ∧ root.revision = snapshot.revision ∧
      cloneSnapshotCollections root.collections = some snapshot.collections := by
  induction history with
  | nil => cases hm
  | cons e history ih =>
      have hrest : labelled history → .store snapshot expected ∈ history →
          ∃ root, .published root ∈ e :: history ∧ root.revision = snapshot.revision ∧
            cloneSnapshotCollections root.collections = some snapshot.collections := by
        intro hl hm
        obtain ⟨root, hp, hrev, hc⟩ := ih hl hm
        exact ⟨root, List.mem_cons_of_mem _ hp, hrev, hc⟩
      cases e with
      | store snapshot' expected' =>
          rw [labelled, Bool.and_eq_true, Bool.and_eq_true, decide_eq_true_iff] at h
          rcases List.mem_cons.1 hm with he | hm
          · obtain ⟨rfl, -⟩ := DatabaseEvent.store.inj he
            obtain ⟨root, hat, hc⟩ := Option.bind_eq_some_iff.1 h.1.2
            obtain ⟨hp, hrev⟩ := rootAt_eq_some hat
            exact ⟨root, List.mem_cons_of_mem _ hp, hrev, hc⟩
          · exact hrest h.1.1 hm
      | _ =>
          rcases List.mem_cons.1 hm with he | hm
          · cases he
          · exact hrest h hm

namespace Database

variable {options : DatabaseOptions} {db db' : Database} {index : ℕ}

/-- Storage and the books of a database with an adapter: what is persisted is what storage
holds, that was handed over, and stores that succeeded are persisted. -/
structure StorageInvariant (loaded : Option SnapshotEnvelope) (db : Database) : Prop where
  persisted : db.persistedRevision = heldAtStart (lastStored loaded db.history)
  known : lastStored loaded db.history = loaded ∨ ∃ snapshot expected,
    lastStored loaded db.history = some snapshot ∧ .store snapshot expected ∈ db.history
  storing : ∀ task ∈ db.tasks, ∀ snapshot, task.phase = .storing snapshot →
    ∃ expected, .store snapshot expected ∈ db.history
  done : ∀ task ∈ db.tasks, task.phase = .settled none ∨ task.phase = .finished none →
    task.receipt.revision ≤ db.persistedRevision

namespace StorageInvariant

/-- Storage and the books agree in a database that was just opened: what it was loaded from is
persisted. -/
theorem start (ha : options.adapter) (root : Root) (loaded : Option SnapshotEnvelope) :
    StorageInvariant loaded (.start options root loaded) where
  persisted := by
    show loaded.elim (if options.adapter then (-1 : ℤ) else 0) (·.revision) = heldAtStart loaded
    rw [if_pos ha, heldAtStart]
  known := .inl rfl
  storing _ ht := by cases ht
  done _ ht := by cases ht

/-- No store succeeded, and no store that is queued is under way or done.  The snapshots of
stores under way are still those on record, and what is known to be stored is stored still. -/
theorem kept (h : db.StorageInvariant loaded)
    (persistedRevision : db'.persistedRevision = db.persistedRevision)
    (tasks : ∀ task ∈ db'.tasks, task ∈ db.tasks ∨ task.phase = .queued)
    (history : ∃ events, db'.history = events ++ db.history ∧
      ∀ e ∈ events, e.isNoAcknowledgement) : db'.StorageInvariant loaded := by
  obtain ⟨events, hh, he⟩ := history
  have hlast : lastStored loaded db'.history = lastStored loaded db.history := by
    rw [hh, lastStored_append he]
  have hstore : ∀ {snapshot expected}, .store snapshot expected ∈ db.history →
      .store snapshot expected ∈ db'.history := fun hm => hh ▸ List.mem_append_right _ hm
  refine ⟨?_, ?_, fun task ht snapshot hp => ?_, fun task ht hd => ?_⟩
  · rw [persistedRevision, hlast]
    exact h.persisted
  · rw [hlast]
    refine h.known.imp_right ?_
    rintro ⟨snapshot, expected, hs, hm⟩
    exact ⟨snapshot, expected, hs, hstore hm⟩
  · rcases tasks task ht with ht | hq
    · obtain ⟨expected, hm⟩ := h.storing task ht snapshot hp
      exact ⟨expected, hstore hm⟩
    · rw [hp] at hq
      cases hq
  · rw [persistedRevision]
    rcases tasks task ht with ht | hq
    · exact h.done task ht hd
    · rw [hq] at hd
      rcases hd with hd | hd <;> cases hd

/-- The queue of stores as it was. -/
theorem same (h : db.StorageInvariant loaded)
    (persistedRevision : db'.persistedRevision = db.persistedRevision)
    (tasks : db'.tasks = db.tasks) (events : List DatabaseEvent)
    (history : db'.history = events ++ db.history) (he : ∀ e ∈ events, e.isNoAcknowledgement) :
    db'.StorageInvariant loaded :=
  h.kept persistedRevision (fun _ ht => .inl (tasks ▸ ht)) ⟨events, history, he⟩

/-- To queue a store leaves storage and the books together.  The new task is neither storing nor
done, so nothing is asked of it. -/
theorem persist (h : db.StorageInvariant loaded) (receipt : CommitReceipt) :
    (db.persist options receipt).1.StorageInvariant loaded := by
  by_cases ha : options.adapter
  · have hspec := persist_spec ha db receipt
    generalize db.persist options receipt = result at hspec
    cases hspec with
    | coalesced index entry => exact h
    | full entry limit => exact h.same rfl rfl [] rfl (by simp)
    | broken entry limit clone error => exact h.same rfl rfl [] rfl (by simp)
    | queued entry limit collections clone =>
        refine h.kept rfl (fun task ht => ?_) ⟨[.queued receipt], rfl, by
          simp [DatabaseEvent.isNoAcknowledgement]⟩
        rcases List.mem_append.1 ht with ht | ht
        · exact .inl ht
        · rw [List.mem_singleton.1 ht]
          exact .inr rfl
  · rwa [persist_of_no_adapter ha]

/-- A flush leaves storage and the books together. -/
theorem flushNow (h : db.StorageInvariant loaded) (id : JsString) :
    (db.flushNow options id).1.StorageInvariant loaded := by
  rcases flushNow_cases options db id with ⟨-, -, he⟩ | ⟨-, he⟩
  · rw [he]
    exact h.persist _
  · rwa [he]

/-- A call of `close` leaves storage and the books together.  The flush on its way is a
`#persist`, which the lemma above covers. -/
theorem close (h : db.StorageInvariant loaded) (id : JsString) :
    (db.close options id).StorageInvariant loaded := by
  rcases close_cases options db id with he | ⟨-, -, he⟩
  · rwa [he]
  · have hclosing : StorageInvariant loaded { db with state := .closing } :=
      h.same rfl rfl [] rfl (by simp)
    have hflush : StorageInvariant loaded
        ({ db with state := .closing }.flushDuringClose options id).1 := by
      unfold flushDuringClose
      split_ifs
      · exact hclosing
      · exact hclosing.flushNow id
    rw [he]
    exact hflush.same rfl rfl [] rfl (by simp)

/-- A store that starts was handed over, and its snapshot is on record.  From then on the
snapshot of the task is one that `store` was called with. -/
theorem startStore (h : db.StorageInvariant loaded)
    (hs : db.startStore options index = some db') : db'.StorageInvariant loaded := by
  obtain ⟨task, ht, -, -, rfl⟩ := startStore_eq_some hs
  have hevents : ∀ e ∈ [DatabaseEvent.store (db.snapshot options task) db.generation],
      e.isNoAcknowledgement := by simp [DatabaseEvent.isNoAcknowledgement]
  have hrecord : (db.record (.store (db.snapshot options task) db.generation)).StorageInvariant
      loaded := h.same rfl rfl _ rfl hevents
  refine ⟨hrecord.persisted, hrecord.known, ?_, ?_⟩
  · refine forall_setPhase hrecord.storing ht fun snapshot hp => ?_
    obtain rfl := TaskPhase.storing.inj hp
    exact ⟨db.generation, List.mem_cons_self ..⟩
  · refine forall_setPhase hrecord.done ht fun hd => ?_
    rcases hd with hd | hd <;> cases hd

/-- **What an honest adapter acknowledges** is persisted, and storage holds it: no store that
succeeded before was of a later revision. -/
theorem acknowledge (h : db.StorageInvariant loaded) {task : PersistenceTask}
    {snapshot : SnapshotEnvelope} (ht : db.tasks[index]? = some task)
    (hp : task.phase = .storing snapshot) (hlabel : snapshot.revision = task.receipt.revision)
    (hle : db.persistedRevision ≤ snapshot.revision) {a : StoreAcknowledgement}
    (hhonest : a.revision = snapshot.revision) :
    (db.acknowledge index snapshot a).StorageInvariant loaded := by
  have hpersisted : (db.acknowledge index snapshot a).persistedRevision = snapshot.revision := by
    show max db.persistedRevision (a.revision : ℤ) = snapshot.revision
    rw [hhonest, max_eq_right hle]
  obtain ⟨expected, hm⟩ := h.storing task (List.mem_of_getElem? ht) snapshot hp
  refine ⟨hpersisted, .inr ⟨snapshot, expected, rfl, List.mem_cons_of_mem _ hm⟩, ?_, ?_⟩
  · refine forall_setPhase (fun t hm snapshot' hp' => ?_) ht fun snapshot' hp' => by cases hp'
    obtain ⟨expected', hm'⟩ := h.storing t hm snapshot' hp'
    exact ⟨expected', List.mem_cons_of_mem _ hm'⟩
  · rw [hpersisted]
    refine forall_setPhase (fun t hm hd => (h.done t hm hd).trans hle) ht fun _ => ?_
    rw [hlabel]

/-- **The answer of an honest adapter** keeps storage and the books together: a store that
succeeds is of a revision that is no earlier than what is persisted. -/
theorem settleStore (h : db.StorageInvariant loaded) {held : ℤ} (ha : options.adapter)
    (hd : db.DurabilityInvariant options loaded held) (hs : db.SnapshotInvariant)
    {outcome : StoreOutcome}
    (hhonest : ∀ task snapshot a, db.tasks[index]? = some task → task.phase = .storing snapshot →
      outcome = .acknowledged a → a.revision = snapshot.revision)
    (hsettle : db.settleStore options index outcome = some db') : db'.StorageInvariant loaded := by
  obtain ⟨task, snapshot, ht, hp, ⟨rfl, -⟩ | ⟨a, hacknowledged, -, rfl⟩⟩ :=
    settleStore_eq_some hsettle
  · have hevents : ∀ e ∈ [DatabaseEvent.failed snapshot], e.isNoAcknowledgement := by
      simp [DatabaseEvent.isNoAcknowledgement]
    have hrecord : ({ db with state := .degraded }.record (.failed snapshot)).StorageInvariant
        loaded := h.same rfl rfl _ rfl hevents
    refine ⟨hrecord.persisted, hrecord.known, ?_, ?_⟩
    · exact forall_setPhase hrecord.storing ht fun _ hp' => by cases hp'
    · refine forall_setPhase hrecord.done ht fun hdone => ?_
      rcases hdone with hdone | hdone <;> cases hdone
  · have hmem := List.mem_of_getElem? ht
    have htask := hd.tasks task hmem
    obtain ⟨hlabel, -⟩ := htask.storing snapshot hp
    refine h.acknowledge ht hp hlabel ?_ (hhonest task snapshot a ht hp hacknowledged)
    -- storage is no further than the roots of the stores under way
    rw [hlabel, hs.labels task hmem]
    exact (hd.persisted ha).trans (htask.waiting (by rw [hp]; rfl))

/-- A store that ends without an error is persisted, as it was when it was answered.  Its task
was settled without an error, and the invariant has kept since then that its revision is
persisted. -/
theorem finishStore (h : db.StorageInvariant loaded) (hs : db.finishStore index = some db') :
    db'.StorageInvariant loaded := by
  obtain ⟨task, error, ht, hp, rfl⟩ := finishStore_eq_some hs
  refine ⟨h.persisted, h.known, ?_, ?_⟩
  · exact forall_setPhase h.storing ht fun _ hp' => by cases hp'
  · refine forall_setPhase h.done ht fun hd => h.done task (List.mem_of_getElem? ht) (.inl ?_)
    rcases hd with hd | hd
    · cases hd
    · rw [hp, TaskPhase.finished.inj hd]

end StorageInvariant

/-- A wait that ended without an error waited for what is persisted.  A wait of this kind ends
with the store of its revision or with nothing left to store. -/
theorem Promises.le_persisted {revision : ℕ} {waiting : Waiting}
    (h : Promises db.persistedRevision db revision waiting) (hs : db.StorageInvariant loaded)
    (ho : db.outcome waiting = some none) : revision ≤ db.persistedRevision := by
  cases waiting with
  | rejected error => cases ho
  | task index =>
      obtain ⟨task, ht, rfl⟩ := h
      obtain ⟨task', ht', hphase⟩ := finished_eq_some.1 ho
      obtain rfl := Option.some.inj (ht.symm.trans ht')
      exact hs.done task (List.mem_of_getElem? ht) (.inr hphase)
  | resolved | tail index => exact h

/-- To queue a store persists nothing yet. -/
@[simp]
theorem persistedRevision_persist (db : Database) (receipt : CommitReceipt) :
    (db.persist options receipt).1.persistedRevision = db.persistedRevision := by
  by_cases ha : options.adapter
  · have hspec := persist_spec ha db receipt
    generalize db.persist options receipt = result at hspec
    cases hspec <;> rfl
  · rw [persist_of_no_adapter ha]

/-- A flush persists nothing yet. -/
@[simp]
theorem persistedRevision_flushNow (db : Database) (id : JsString) :
    (db.flushNow options id).1.persistedRevision = db.persistedRevision := by
  rcases flushNow_cases options db id with ⟨-, -, he⟩ | ⟨-, he⟩
  · rw [he, persistedRevision_persist]
  · rw [he]

/-- A call of `close` persists nothing yet.  It sets the state and may queue a store; only an
acknowledgement moves the persisted revision. -/
theorem persistedRevision_close (db : Database) (id : JsString) :
    (db.close options id).persistedRevision = db.persistedRevision := by
  rcases close_cases options db id with he | ⟨-, -, he⟩
  · rw [he]
  · rw [he]
    show ({ db with state := .closing }.flushDuringClose options id).1.persistedRevision = _
    unfold flushDuringClose
    split_ifs
    · rfl
    · exact persistedRevision_flushNow _ id

end Database

namespace Runtime

variable {options : DatabaseOptions} {r r' : Runtime} {label : Label}

/-- **A step keeps storage and the books together**, and nothing persisted is lost.  Only a
store that succeeds moves what is persisted; by durability it is no later than what storage
holds, and by the labels it moves on with it. -/
theorem storageInvariant_step (h : r.database.StorageInvariant loaded) (ha : options.adapter)
    {held : ℤ} (hd : r.database.DurabilityInvariant options loaded held)
    (hsnapshot : r.database.SnapshotInvariant) (hc : r.adapterHonest label)
    (hs : r.step options label = some r') :
    r'.database.StorageInvariant loaded ∧
      r.database.persistedRevision ≤ r'.database.persistedRevision := by
  have heffect := step_storage hs
  generalize r'.database = db' at heffect
  cases heffect with
  | quiet hq =>
      obtain ⟨events, hh, he⟩ := hq.history
      refine ⟨h.same hq.persistedRevision hq.tasks events hh fun e hm => ?_,
        hq.persistedRevision.ge⟩
      have hquiet := he e hm
      cases e <;> first | rfl | cases hquiet
  | commit t committed _ _ _ hq =>
      have hpublish : (r.database.publish committed).StorageInvariant loaded ∧
          (r.database.publish committed).persistedRevision = r.database.persistedRevision := by
        unfold Database.publish
        cases committed.batch with
        | none => exact ⟨h, rfl⟩
        | some batch => exact ⟨h.same rfl rfl [.published committed.root] rfl (by
            simp [DatabaseEvent.isNoAcknowledgement]), rfl⟩
      obtain ⟨events, hh, he⟩ := hq.history
      refine ⟨hpublish.1.same hq.persistedRevision hq.tasks events hh fun e hm => ?_,
        (hq.persistedRevision.trans hpublish.2).ge⟩
      have hquiet := he e hm
      cases e <;> first | rfl | cases hquiet
  | persist handle call receipt rest _ _ _ _ =>
      have hrecord : (r.database.record (.committed handle
          (r.receiptOf handle receipt))).StorageInvariant loaded :=
        h.same rfl rfl [_] rfl (by simp [DatabaseEvent.isNoAcknowledgement])
      exact ⟨hrecord.persist _, (Database.persistedRevision_persist _ _).ge⟩
  | flush id _ => exact ⟨h.flushNow id, (Database.persistedRevision_flushNow _ id).ge⟩
  | close id => exact ⟨h.close id, (Database.persistedRevision_close _ id).ge⟩
  | startStore index hs =>
      refine ⟨h.startStore hs, ?_⟩
      obtain ⟨task, -, -, -, rfl⟩ := Database.startStore_eq_some hs
      exact le_rfl
  | settleStore index outcome hs =>
      refine ⟨h.settleStore ha hd hsnapshot ?_ hs, ?_⟩
      · rintro task snapshot a ht hp rfl
        rw [adapterHonest, ht, Option.all_some, hp] at hc
        exact of_decide_eq_true hc
      · obtain ⟨task, snapshot, -, -, ⟨rfl, -⟩ | ⟨a, -, -, rfl⟩⟩ := Database.settleStore_eq_some hs
        · exact le_rfl
        · exact le_max_left ..
  | finishStore index hs =>
      refine ⟨h.finishStore hs, ?_⟩
      obtain ⟨task, error, -, -, rfl⟩ := Database.finishStore_eq_some hs
      exact le_rfl
  | closeAdapter hs =>
      obtain ⟨waiting, failure, -, -, rfl⟩ := Database.closeAdapter_eq_some hs
      rw [if_pos ha]
      exact ⟨h.same rfl rfl [.adapterClose] rfl (by simp [DatabaseEvent.isNoAcknowledgement]),
        le_rfl⟩
  | finishClose failure hs =>
      obtain ⟨previous, -, rfl⟩ := Database.finishClose_eq_some hs
      exact ⟨h.same rfl rfl [.close _] rfl (by simp [DatabaseEvent.isNoAcknowledgement]), le_rfl⟩

/-- **A step keeps what the close waits for**: that the current revision is persisted.  The
close goes on to its adapter only when its wait has ended without an error, and what it waited
for is persisted by then. -/
theorem closePersisted_step
    (h : r.database.CloseInvariant options r.database.persistedRevision)
    (hq : r.database.QueueInvariant options) (hstorage : r.database.StorageInvariant loaded)
    (hle : r.database.persistedRevision ≤ r'.database.persistedRevision)
    (hstays : r.database.StaysClosing r'.database) (hs : r.step options label = some r') :
    r'.database.CloseInvariant options r'.database.persistedRevision := by
  have heffect := step_storage hs
  have hlater := heffect.later
  generalize r'.database = db' at heffect hstays hlater hle
  have hsame : db'.closePromise = r.database.closePromise →
      db'.CloseInvariant options db'.persistedRevision := fun hp => h.later hp hstays hlater hle
  cases heffect with
  | quiet hq => exact hsame hq.closePromise
  | commit t committed _ _ _ hq =>
      refine hsame (hq.closePromise.trans ?_)
      unfold Database.publish
      split <;> rfl
  | persist handle call receipt rest stack persists ha pending =>
      exact hsame (Database.closePromise_persist _ (r.receiptOf handle receipt))
  | flush id usable => exact hsame (Database.closePromise_flushNow _ id)
  | close id =>
      rw [Database.persistedRevision_close]
      exact h.close hq (fun _ => le_rfl) id
  | startStore index hs =>
      obtain ⟨task, -, -, -, rfl⟩ := Database.startStore_eq_some hs
      exact hsame rfl
  | settleStore index outcome hs =>
      obtain ⟨task, snapshot, -, -, ⟨rfl, -⟩ | ⟨a, -, -, rfl⟩⟩ := Database.settleStore_eq_some hs
      · exact hsame rfl
      · exact hsame rfl
  | finishStore index hs =>
      obtain ⟨task, error, -, -, rfl⟩ := Database.finishStore_eq_some hs
      exact hsame rfl
  | closeAdapter hs =>
      obtain ⟨waiting, failure, hw, ho, rfl⟩ := Database.closeAdapter_eq_some hs
      have hphase : Database.CloseInvariant options r.database.persistedRevision
          { r.database with closePromise := some (.closingAdapter failure) } := by
        refine ⟨fun _ hw' => (by cases hw'), fun phase hp hnone ha => ?_⟩
        obtain rfl := Option.some.inj hp
        rcases hnone with hnone | hnone
        · rw [ClosePhase.closingAdapter.inj hnone] at ho
          exact (h.flushing waiting hw ha).le_persisted hstorage ho
        · cases hnone
      split_ifs
      · exact hphase.later rfl (.of_same rfl rfl) (.of_same rfl [_] rfl) le_rfl
      · exact hphase
  | finishClose failure hs =>
      have hclosed := h.finishClose hs
      obtain ⟨previous, -, rfl⟩ := Database.finishClose_eq_some hs
      exact hclosed

/-- A clean step over an honest adapter that keeps labels and content together. -/
def closesSafely (options : DatabaseOptions) (r : Runtime) (label : Label) : Bool :=
  r.closesHonestly options label && r.keepsLabels options label

/-- **A close that succeeds leaves the current revision persisted**, and storage holds a
snapshot of it. -/
theorem stored_of_closed {root : Root} (ha : options.adapter)
    (hroot : root.revision = loaded.elim 0 (·.revision)) {labels : List Label}
    (hrun : Transition.Run (step options) (fun r label => r.closesSafely options label)
      (start options root loaded) labels r)
    (hdone : r.database.closePromise = some (.done none)) :
    ∃ snapshot, lastStored loaded r.database.history = some snapshot ∧
      r.database.root.revision ≤ snapshot.revision ∧
      (loaded = some snapshot ∧ .published root ∈ r.database.history ∨
        ∃ stored, .published stored ∈ r.database.history ∧
          stored.revision = snapshot.revision ∧
          cloneSnapshotCollections stored.collections = some snapshot.collections ∧
          ∃ expected, .store snapshot expected ∈ r.database.history) := by
  have hinv : r.database.LifecycleInvariant ∧ (∃ held, r.DurabilityInvariant options loaded held) ∧
      r.database.SnapshotInvariant ∧ r.database.StorageInvariant loaded ∧
      r.database.CloseInvariant options r.database.persistedRevision ∧
      .published root ∈ r.database.history := by
    refine hrun.invariant (P := fun r => r.database.LifecycleInvariant ∧
      (∃ held, r.DurabilityInvariant options loaded held) ∧ r.database.SnapshotInvariant ∧
      r.database.StorageInvariant loaded ∧
      r.database.CloseInvariant options r.database.persistedRevision ∧
      .published root ∈ r.database.history)
      ⟨lifecycleInvariant_start options root loaded, ⟨_, .start options hroot⟩,
        .start options root loaded, .start ha root loaded, .of_none rfl,
        List.mem_singleton.2 rfl⟩ ?_
    rintro r label r' ⟨hl, ⟨held, hd⟩, hsnapshot, hstorage, hclose, hfirst⟩ hc hs
    obtain ⟨hboth, hlabels⟩ := Bool.and_eq_true_iff.1 hc
    obtain ⟨hclean, hhonest⟩ := Bool.and_eq_true_iff.1 hboth
    obtain ⟨hl', hstays⟩ := staysClosing_step hl hclean hs
    obtain ⟨held', -, hd'⟩ := hd.step hhonest hs
    obtain ⟨hstorage', hle⟩ := storageInvariant_step hstorage ha hd.database hsnapshot hhonest hs
    obtain ⟨events, hh⟩ := (step_storage hs).later.history
    exact ⟨hl', ⟨held', hd'⟩, snapshotInvariant_step hd.queue hsnapshot hlabels hs, hstorage',
      closePersisted_step hclose hd.queue hstorage hle hstays hs,
      hh ▸ List.mem_append_right _ hfirst⟩
  obtain ⟨-, -, hsnapshot, hstorage, hclose, hfirst⟩ := hinv
  have hle := hclose.closed _ hdone (.inr rfl) ha
  rw [hstorage.persisted] at hle
  cases hlast : lastStored loaded r.database.history with
  | none =>
      rw [hlast, Database.heldAtStart, Option.elim_none] at hle
      omega
  | some snapshot =>
      rw [hlast, Database.heldAtStart, Option.elim_some, Nat.cast_le] at hle
      refine ⟨snapshot, rfl, hle, ?_⟩
      rcases hstorage.known with hloaded | ⟨snapshot', expected, hs, hm⟩
      · exact .inl ⟨hloaded.symm.trans hlast, hfirst⟩
      · obtain rfl := Option.some.inj (hlast.symm.trans hs)
        obtain ⟨stored, hp, hrev, hc⟩ := root_of_labelled hsnapshot.labelled hm
        exact .inr ⟨stored, hp, hrev, hc, expected, hm⟩

end Runtime

namespace OpenOptions

variable {o : OpenOptions} {collate : JsString → JsString → Bool} {randomId : JsString}
  {options : DatabaseOptions}

/-- **A database that was closed is opened again as it was**: after a close that succeeds,
in every run whose closes are clean, over an honest adapter and with labels kept, storage
holds a snapshot under the revision of the current root: of its collections, or the one the
database was loaded from when the current root is still the first.  What opens from it has
the same options, the same documents and the same outcome of every query, and it opens
exactly when the snapshot passes the check of an envelope. -/
theorem closed_database_reopens (hnames : (o.schema.map Prod.fst).Nodup) {first r : Runtime}
    (hopen : o.opened collate randomId loaded = .ok (options, first)) {labels : List Label}
    (hrun : Transition.Run (Runtime.step options) (fun r label => r.closesSafely options label)
      first labels r)
    (hdone : r.database.closePromise = some (.done none)) (randomId' : JsString) :
    ∃ snapshot root', lastStored loaded r.database.history = some snapshot ∧
      snapshot.revision = r.database.root.revision ∧
      (cloneSnapshotCollections r.database.root.collections = some snapshot.collections ∨
        loaded = some snapshot ∧ r.database.root = first.database.root) ∧
      r.database.root.Rebuilt root' ∧ root'.revision = r.database.root.revision ∧
      (∀ name condition q,
        root'.query name condition q = r.database.root.query name condition q) ∧
      ∀ result, o.opened collate randomId' (some snapshot) = .ok result ↔
        result = (options, .start options root' (some snapshot)) ∧
          isSnapshotEnvelope snapshot := by
  obtain ⟨hschemas, harchived⟩ := archived_of_opened hnames hopen hrun
  obtain ⟨σ, _, graph, seed, root, hconstruct, rfl⟩ := construct_of_opened hopen
  obtain ⟨ha, -, -, hroot⟩ := construct_eq_ok hconstruct
  obtain ⟨snapshot, hlast, hle, hstored⟩ :=
    Runtime.stored_of_closed ha (createRoot_invariant hroot).2 hrun hdone
  -- a published root of a revision that is no smaller is the current one
  have hcurrent : ∀ stored : Root, .published stored ∈ r.database.history →
      stored.revision = snapshot.revision → stored = r.database.root := by
    intro stored hp hrev
    rcases harchived.archive.latest stored hp with he | hlt
    · exact he
    · omega
  rcases hstored with ⟨rfl, hfirst⟩ | ⟨stored, hp, hrev, hc, expected, hm⟩
  · obtain rfl := hcurrent root hfirst (createRoot_invariant hroot).2
    have hrevision := (createRoot_invariant hroot).2.symm
    have henvelope := isSnapshotEnvelope_of_opened hopen
    refine ⟨snapshot, _, hlast, hrevision, .inr ⟨rfl, rfl⟩, .refl _, rfl, fun _ _ _ => rfl,
      fun result => ?_⟩
    -- a snapshot brings its identity with it, so the random one plays no part
    have hagain : o.opened collate randomId' (some snapshot) = _ := hopen
    rw [hagain, Except.ok.injEq]
    exact ⟨fun h => ⟨h.symm, henvelope⟩, fun h => h.1.symm⟩
  · obtain rfl := hcurrent stored hp hrev
    have hof := harchived.archive.stored snapshot expected hm
    obtain ⟨root', hrebuilt, hrevision, hquery, hiff⟩ := opened_snapshot_iff hopen randomId'
      hschemas hof harchived.archive.published hp hc
    exact ⟨snapshot, root', hlast, hrev.symm, .inl hc, hrebuilt, hrevision.trans hrev.symm,
      hquery, hiff⟩

/-- A database that is closed while the store of a note is under way opens again.  The theorem
applies to the run, and its snapshot passes the check of an envelope. -/
theorem closed_note_reopens : ∃ (r : Runtime) (options : DatabaseOptions)
    (snapshot : SnapshotEnvelope) (root' : Root), r.database.root.revision = 1 ∧
      r.database.root.Rebuilt root' ∧ root'.revision = 1 ∧
      SharedStorage.openNotes.opened leUnits (js "b") (some snapshot) =
        .ok (options, .start options root' (some snapshot)) := by
  obtain ⟨⟨options, first, r⟩, h⟩ := Option.isSome_iff_exists.1 (show
    (((SharedStorage.openNotes.opened leUnits (js "a") none).toOption.bind fun opened =>
      (Transition.checked (Runtime.step opened.1) (Runtime.closesSafely opened.1) opened.2
        [.transaction none false (js "t") 0, Runtime.addNote 0 "x", .returns 0, .resume,
          .startStore 0, .close (js "c"), .settleStore 0 (.acknowledged ⟨js "a", 1, 1⟩),
          .finishStore 0, .wake 0, .closeAdapter, .finishClose none]).map fun r =>
            (opened.1, opened.2, r)).filter fun s =>
        decide (s.2.2.database.closePromise = some (.done none) ∧
          s.2.2.database.root.revision = 1) &&
          (lastStored none s.2.2.database.history).any isSnapshotEnvelope).isSome by
        decide +kernel)
  obtain ⟨hall, hseen⟩ := Option.filter_eq_some_iff.1 h
  obtain ⟨opened, hopened, hmap⟩ := Option.bind_eq_some_iff.1 hall
  obtain ⟨r', hrun, he⟩ := Option.map_eq_some_iff.1 hmap
  obtain ⟨rfl, hrest⟩ := Prod.mk.inj he
  obtain ⟨rfl, rfl⟩ := Prod.mk.inj hrest
  obtain ⟨hclosed, henvelope⟩ := Bool.and_eq_true_iff.1 hseen
  obtain ⟨hdone, hrevision⟩ := of_decide_eq_true hclosed
  obtain ⟨snapshot, root', hlast, -, -, hrebuilt, hrev, -, hreopens⟩ := closed_database_reopens
    (by decide) (eq_ok_of_toOption hopened) (Transition.checked_sound hrun) hdone (js "b")
  rw [hlast] at henvelope
  exact ⟨r', opened.1, snapshot, root', hrevision, hrebuilt, hrev.trans hrevision,
    (hreopens _).2 ⟨rfl, henvelope⟩⟩

end OpenOptions

end NewtonDB
