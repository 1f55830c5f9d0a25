/-
# What the snapshots hold

A snapshot takes its revision from a receipt and its documents from the root that
is current when `#persist` runs.  `labelled` says of a history that the two
belong together, and that the revisions handed to the adapter never decrease.

A hook that commits while a commit of `transaction` is under way breaks both
(`overflow_hook_commits`).  Where the receipt that is persisted is of the current
revision whenever a store is queued, every run is labelled
(`snapshots_labelled`).
-/

import NewtonDB.Database.Programs
import NewtonDB.Database.Queue
import NewtonDB.Store.Scripts

namespace NewtonDB

/-- The root published at a revision. -/
def rootAt (revision : ℕ) : List DatabaseEvent → Option Root
  | [] => none
  | .published root :: earlier =>
      if root.revision = revision then some root else rootAt revision earlier
  | _ :: earlier => rootAt revision earlier

/-- The revisions of the snapshots handed to the adapter. -/
def storeRevisions : List DatabaseEvent → List ℕ
  | [] => []
  | .store snapshot _ :: earlier => snapshot.revision :: storeRevisions earlier
  | _ :: earlier => storeRevisions earlier

/-- **Snapshots carry the revision of their content**: the collections of every
snapshot handed to the adapter are those of the root published at its revision,
and no earlier one had a larger revision. -/
def labelled : List DatabaseEvent → Bool
  | [] => true
  | .store snapshot _ :: earlier =>
      labelled earlier &&
        (rootAt snapshot.revision earlier).bind (fun root =>
          cloneSnapshotCollections root.collections) = some snapshot.collections &&
        (storeRevisions earlier).all (· ≤ snapshot.revision)
  | _ :: earlier => labelled earlier

section

variable {events history : List DatabaseEvent} (h : ∀ e ∈ events, e.isQuiet)

include h

/-- Events that publish nothing leave the root at a revision.  The search passes over them. -/
theorem rootAt_append (revision : ℕ) :
    rootAt revision (events ++ history) = rootAt revision history := by
  induction events with
  | nil => rfl
  | cons e events ih =>
      have hrest := ih fun e' he' => h e' (List.mem_cons_of_mem _ he')
      have he := h e (List.mem_cons_self ..)
      cases e <;> first | exact hrest | cases he

/-- Events that store nothing leave the revisions that were stored. -/
theorem storeRevisions_append : storeRevisions (events ++ history) = storeRevisions history := by
  induction events with
  | nil => rfl
  | cons e events ih =>
      have hrest := ih fun e' he' => h e' (List.mem_cons_of_mem _ he')
      have he := h e (List.mem_cons_self ..)
      cases e <;> first | exact hrest | cases he

/-- Events that neither publish nor store leave the snapshots labelled. -/
theorem labelled_append : labelled (events ++ history) = labelled history := by
  induction events with
  | nil => rfl
  | cons e events ih =>
      have hrest := ih fun e' he' => h e' (List.mem_cons_of_mem _ he')
      have he := h e (List.mem_cons_self ..)
      cases e <;> first | exact hrest | cases he

end

/-- A step that keeps labels and content together: a `transaction` that queues a
store of its commit does so before anything else is published. -/
def Runtime.keepsLabels (options : DatabaseOptions) (r : Runtime) : Label → Bool
  | .resume =>
      match r.stack with
      | .committed _ (some call) receipt :: _ =>
          !r.persists call || !r.database.appends options receipt.revision ||
            receipt.revision = r.database.root.revision
      | _ => true
  | _ => true

namespace Database

/-- The queued stores and the history, as `labelled` needs them. -/
structure SnapshotInvariant (db : Database) : Prop where
  labels : ∀ task ∈ db.tasks, task.receipt.revision = task.root.revision
  published : ∀ task ∈ db.tasks, rootAt task.root.revision db.history = some task.root
  current : rootAt db.root.revision db.history = some db.root
  bound : ∀ task ∈ db.tasks, task.root.revision ≤ db.root.revision
  sorted : (db.tasks.map (·.receipt.revision)).Pairwise (· ≤ ·)
  stored : ∀ revision ∈ storeRevisions db.history, revision ≤ db.root.revision ∧
    ∀ task ∈ db.tasks, task.phase = .queued → revision ≤ task.receipt.revision
  labelled : labelled db.history

variable {options : DatabaseOptions} {db db' : Database} {index : ℕ}

namespace SnapshotInvariant

/-- Nothing was stored by a database that was just opened.  The loaded snapshot is labelled with
the revision of the root that was made from it. -/
theorem start (options : DatabaseOptions) (root : Root) (stored : Option SnapshotEnvelope) :
    SnapshotInvariant (.start options root stored) where
  labels _ h := by cases h
  published _ h := by cases h
  current := if_pos rfl
  bound _ h := by cases h
  sorted := .nil
  stored _ h := by cases h
  labelled := rfl

/-- Only the root, the queue and the history matter.  Events that are no publication and no
store keep every label that was right. -/
theorem congr (h : SnapshotInvariant db) (root : db'.root = db.root) (tasks : db'.tasks = db.tasks)
    (history : ∃ events, db'.history = events ++ db.history ∧ ∀ e ∈ events, e.isQuiet) :
    SnapshotInvariant db' := by
  obtain ⟨events, hh, he⟩ := history
  refine ⟨?_, ?_, ?_, ?_, ?_, ?_, ?_⟩
  · rw [tasks]; exact h.labels
  · rw [tasks, hh]
    exact fun task ht => (rootAt_append he _).trans (h.published task ht)
  · rw [root, hh, rootAt_append he]; exact h.current
  · rw [tasks, root]; exact h.bound
  · rw [tasks]; exact h.sorted
  · rw [tasks, root, hh, storeRevisions_append he]; exact h.stored
  · rw [hh, labelled_append he]; exact h.labelled

/-- What leaves storage alone leaves the snapshots labelled. -/
theorem quiet (h : SnapshotInvariant db) (hq : db.Quiet DatabaseEvent.isQuiet db') :
    SnapshotInvariant db' :=
  h.congr hq.root hq.tasks hq.history

/-- The books and the lifecycle do not matter. -/
theorem same (h : SnapshotInvariant db) (root : db'.root = db.root) (tasks : db'.tasks = db.tasks)
    (history : db'.history = db.history) : SnapshotInvariant db' :=
  h.congr root tasks ⟨[], history, by simp⟩

/-- **A published root takes the next revision**, so the roots already published keep
theirs. -/
theorem publish (h : SnapshotInvariant db) {t : Transaction} {committed : Committed}
    (hc : db.root.commit options.commit t = .ok committed) :
    SnapshotInvariant (db.publish committed) := by
  unfold Database.publish
  obtain ⟨-, -, ⟨hb, -⟩ | ⟨batch, hb, hrev⟩⟩ := commit_receipt hc
  · rw [hb]; exact h
  · rw [hb]
    have hle : db.root.revision ≤ committed.root.revision := by rw [hrev]; exact Nat.le_succ _
    refine ⟨h.labels, fun task ht => ?_, if_pos rfl, fun task ht => (h.bound task ht).trans hle,
      h.sorted, fun revision hr => ⟨(h.stored revision hr).1.trans hle, (h.stored revision hr).2⟩,
      h.labelled⟩
    have hne : committed.root.revision ≠ task.root.revision := by
      have := h.bound task ht
      omega
    exact (if_neg hne).trans (h.published task ht)

/-- **A store queued for the current revision is labelled with it.**  One that joins another
store, or is refused, is not queued and needs no label. -/
theorem persist (h : SnapshotInvariant db) (ha : options.adapter) (receipt : CommitReceipt)
    (hlabel : ((db.persistenceByRevision.get? receipt.revision).isSome ∨
      options.persistenceLimits.maxPendingSnapshots ≤ db.pendingPersistence) ∨
        receipt.revision = db.root.revision) :
    SnapshotInvariant (db.persist options receipt).1 := by
  have hspec := persist_spec ha db receipt
  generalize db.persist options receipt = result at hspec
  cases hspec with
  | coalesced index entry => exact h
  | full entry limit => exact h.same rfl rfl rfl
  | broken entry limit clone error => exact h.same rfl rfl rfl
  | queued entry limit collections clone =>
      have hrev : receipt.revision = db.root.revision := by
        rcases hlabel with (hl | hl) | hl
        · rw [entry] at hl; cases hl
        · omega
        · exact hl
      refine ⟨fun task ht => ?_, fun task ht => ?_, h.current, fun task ht => ?_, ?_,
        fun revision hr => ⟨(h.stored revision hr).1, fun task ht hq => ?_⟩, h.labelled⟩
      · rcases List.mem_append.1 ht with ht | ht
        · exact h.labels task ht
        · rw [List.mem_singleton.1 ht]; exact hrev
      · rcases List.mem_append.1 ht with ht | ht
        · exact h.published task ht
        · rw [List.mem_singleton.1 ht]; exact h.current
      · rcases List.mem_append.1 ht with ht | ht
        · exact h.bound task ht
        · rw [List.mem_singleton.1 ht]
          exact le_rfl
      · show ((db.tasks ++ [_]).map _).Pairwise _
        rw [List.map_append, List.map_singleton]
        refine List.pairwise_append.2 ⟨h.sorted, List.pairwise_singleton .., fun a hm b hb => ?_⟩
        obtain ⟨task, ht, rfl⟩ := List.mem_map.1 hm
        rw [List.mem_singleton.1 hb, h.labels task ht]
        exact (h.bound task ht).trans hrev.ge
      · rcases List.mem_append.1 ht with ht | ht
        · exact (h.stored revision hr).2 task ht hq
        · rw [List.mem_singleton.1 ht]
          exact (h.stored revision hr).1.trans hrev.ge

/-- A flush labels the store it queues with the current revision. -/
theorem flushNow (h : SnapshotInvariant db) (id : JsString) :
    SnapshotInvariant (db.flushNow options id).1 := by
  rcases flushNow_cases options db id with ⟨ha, -, he⟩ | ⟨-, he⟩
  · rw [he]
    exact h.persist ha _ (.inr rfl)
  · rwa [he]

/-- A call of `close` labels the store it queues with the current revision.  The root of a
database does not move between the call and the store it queues. -/
theorem close (h : SnapshotInvariant db) (id : JsString) :
    SnapshotInvariant (db.close options id) := by
  rcases close_cases options db id with he | ⟨-, -, he⟩
  · rwa [he]
  · have hclosing : SnapshotInvariant { db with state := .closing } := h.same rfl rfl rfl
    have hflush : SnapshotInvariant ({ db with state := .closing }.flushDuringClose options id).1 := by
      unfold flushDuringClose
      split_ifs
      · exact hclosing
      · exact hclosing.flushNow id
    rw [he]
    exact hflush.same rfl rfl rfl

/-- Moving on a store that is not put back.  The clauses about stores that wait ask less of it
then, and labels are not changed. -/
theorem setPhase (h : SnapshotInvariant db) (index : ℕ) (phase : TaskPhase)
    (hp : phase ≠ .queued) : SnapshotInvariant (db.setPhase index phase) := by
  refine ⟨fun task ht => ?_, fun task ht => ?_, h.current, fun task ht => ?_, ?_,
    fun revision hr => ⟨(h.stored revision hr).1, fun task ht hq => ?_⟩, h.labelled⟩
  · obtain ⟨t, hm, rfl | rfl⟩ := mem_setPhase ht
    · exact h.labels _ hm
    · exact h.labels t hm
  · obtain ⟨t, hm, rfl | rfl⟩ := mem_setPhase ht
    · exact h.published _ hm
    · exact h.published t hm
  · obtain ⟨t, hm, rfl | rfl⟩ := mem_setPhase ht
    · exact h.bound _ hm
    · exact h.bound t hm
  · rw [map_setPhase _ fun _ _ => rfl]
    exact h.sorted
  · obtain ⟨t, hm, rfl | rfl⟩ := mem_setPhase ht
    · exact (h.stored revision hr).2 _ hm hq
    · exact absurd hq hp

/-- The stores that are still queued have no smaller label than one that starts.  Labels grow
along the queue, and what is still queued is behind the one that starts. -/
theorem label_le (h : SnapshotInvariant db) (ho : QueueOrder db.tasks) {task t : PersistenceTask}
    (ht : db.tasks[index]? = some task) (hready : db.isReady index) {phase : TaskPhase}
    (hp : phase ≠ .queued) (hm : t ∈ (db.setPhase index phase).tasks) (hq : t.phase = .queued) :
    task.receipt.revision ≤ t.receipt.revision := by
  obtain ⟨pre, post, hsplit, rfl, hmodify⟩ := exists_split ht
  have hsorted := h.sorted
  rw [hsplit, List.map_append, List.map_cons] at hsorted
  rw [Database.setPhase, hmodify] at hm
  rcases List.mem_append.1 hm with hm | hm
  · have hf := finished_of_isReady ho hsplit hready t hm
    rw [hq] at hf
    cases hf
  · rcases List.mem_cons.1 hm with rfl | hm
    · exact absurd hq hp
    · exact (List.pairwise_cons.1 (List.pairwise_append.1 hsorted).2.1).1 _
        (List.mem_map_of_mem hm)

/-- **A store hands over the root of its label**, and a revision not below those handed
over before. -/
theorem startStore (h : SnapshotInvariant db) (ho : QueueOrder db.tasks)
    (hs : db.startStore options index = some db') : SnapshotInvariant db' := by
  obtain ⟨task, ht, hq, hready, rfl⟩ := startStore_eq_some hs
  have hmem := List.mem_of_getElem? ht
  have hlabel := h.labels task hmem
  have hset := h.setPhase index (.storing (db.snapshot options task)) (by simp)
  refine ⟨hset.labels, hset.published, hset.current, hset.bound, hset.sorted,
    fun revision hr => ?_, ?_⟩
  · rcases List.mem_cons.1 hr with rfl | hr
    · exact ⟨hlabel.trans_le (h.bound task hmem),
        fun t hm hqueued => h.label_le ho ht hready (by simp) hm hqueued⟩
    · exact hset.stored revision hr
  · have hcontent : (rootAt task.receipt.revision db.history).bind (fun root =>
        cloneSnapshotCollections root.collections) = some task.collections := by
      rw [hlabel, h.published task hmem]
      exact task.cloned
    have hle : (storeRevisions db.history).all (· ≤ task.receipt.revision) :=
      List.all_eq_true.2 fun revision hr => decide_eq_true ((h.stored revision hr).2 task hmem hq)
    exact Bool.and_eq_true_iff.2
      ⟨Bool.and_eq_true_iff.2 ⟨h.labelled, decide_eq_true hcontent⟩, hle⟩

/-- The answer of the adapter leaves the labels. -/
theorem settleStore (h : SnapshotInvariant db) {outcome : StoreOutcome}
    (hs : db.settleStore options index outcome = some db') : SnapshotInvariant db' := by
  obtain ⟨task, snapshot, -, -, ⟨rfl, -⟩ | ⟨a, -, -, rfl⟩⟩ := settleStore_eq_some hs
  · have hset := h.setPhase index (.settled (some (.persistence task.receipt))) (by simp)
    exact ⟨hset.labels, hset.published, h.current, hset.bound, hset.sorted, hset.stored, h.labelled⟩
  · have hset := h.setPhase index (.settled none) (by simp)
    exact ⟨hset.labels, hset.published, h.current, hset.bound, hset.sorted, hset.stored, h.labelled⟩

/-- A store that ends leaves the labels. -/
theorem finishStore (h : SnapshotInvariant db) (hs : db.finishStore index = some db') :
    SnapshotInvariant db' := by
  obtain ⟨task, error, -, -, rfl⟩ := finishStore_eq_some hs
  exact (h.setPhase index _ (by simp)).same rfl rfl rfl

/-- To close the adapter leaves the labels. -/
theorem closeAdapter (h : SnapshotInvariant db) (hs : db.closeAdapter options = some db') :
    SnapshotInvariant db' := by
  obtain ⟨waiting, failure, -, -, rfl⟩ := closeAdapter_eq_some hs
  split_ifs
  · exact ⟨h.labels, h.published, h.current, h.bound, h.sorted, h.stored, h.labelled⟩
  · exact h.same rfl rfl rfl

/-- The end of a close leaves the labels. -/
theorem finishClose (h : SnapshotInvariant db) {failure : Option NewtonError}
    (hs : db.finishClose failure = some db') : SnapshotInvariant db' := by
  obtain ⟨previous, -, rfl⟩ := finishClose_eq_some hs
  exact ⟨h.labels, h.published, h.current, h.bound, h.sorted, h.stored, h.labelled⟩

end SnapshotInvariant

end Database

/-! ### Every run -/

namespace Runtime

variable {options : DatabaseOptions} {r r' : Runtime} {label : Label}

/-- **A step that keeps labels and content together keeps the invariant.**  A commit that
returns to its call queues its store at once, unless something else was published before. -/
theorem snapshotInvariant_step (hq : r.database.QueueInvariant options)
    (h : r.database.SnapshotInvariant) (hc : r.keepsLabels options label)
    (hs : r.step options label = some r') : r'.database.SnapshotInvariant := by
  have heffect := step_storage hs
  generalize r'.database = db' at heffect
  cases heffect with
  | quiet hquiet => exact h.quiet hquiet
  | commit t committed _ _ ok hquiet => exact (h.publish ok).quiet hquiet
  | persist handle call receipt rest stack persists ha pending =>
      have hrecord : (r.database.record (.committed handle
          (r.receiptOf handle receipt))).SnapshotInvariant := h.quiet (.record rfl _)
      refine hrecord.persist ha (r.receiptOf handle receipt) ?_
      rw [keepsLabels, stack] at hc
      simp only [persists, Bool.not_true, Bool.false_or, Bool.or_eq_true, Bool.not_eq_true',
        decide_eq_true_eq] at hc
      exact hc.imp_left (Database.appends_eq_false ha pending)
  | flush id usable => exact h.flushNow id
  | close id => exact h.close id
  | startStore index hs => exact h.startStore hq.order hs
  | settleStore index outcome hs => exact h.settleStore hs
  | finishStore index hs => exact h.finishStore hs
  | closeAdapter hs => exact h.closeAdapter hs
  | finishClose failure hs => exact h.finishClose hs

/-- **Snapshots carry the revision of their content**, in every run in which a
`transaction` that queues a store of its commit does so before anything else is
published: all stores hold the root published at their revision, and the
revisions never decrease. -/
theorem snapshots_labelled (root : Root) (stored : Option SnapshotEnvelope) {labels : List Label}
    (hrun : Transition.Run (step options) (fun r label => r.keepsLabels options label)
      (start options root stored) labels r) : labelled r.database.history := by
  have hinv : r.database.QueueInvariant options ∧ r.database.SnapshotInvariant := by
    refine hrun.invariant (P := fun r => r.database.QueueInvariant options ∧
      r.database.SnapshotInvariant) ⟨.start options root stored, .start options root stored⟩ ?_
    rintro r label r' ⟨hqueue, hsnapshot⟩ hc hs
    exact ⟨(step_storage hs).queueInvariant hqueue, snapshotInvariant_step hqueue hsnapshot hc hs⟩
  exact hinv.2.labelled

/-- Two commits are stored one after the other.  Each snapshot has the revision and the
documents of its own commit. -/
theorem two_commits_labelled : ∃ r : Runtime,
    storeRevisions r.database.history = [2, 1] ∧ labelled r.database.history := by
  obtain ⟨root, r, -, hr⟩ := exists_run (f := fun root =>
    (Transition.checked (step (notesOptions 2 8)) (keepsLabels (notesOptions 2 8))
      (start (notesOptions 2 8) root none)
      [.transaction none false (js "t") 0, addNote 0 "a", .returns 0, .resume,
        .transaction none false (js "u") 0, addNote 1 "b", .returns 0, .resume, .startStore 0,
        .settleStore 0 (storedNotes 1 1), .finishStore 0, .startStore 1]).filter
          (storeRevisions ·.database.history = [2, 1])) (by decide +kernel)
  obtain ⟨hrun, hrevisions⟩ := Option.filter_eq_some_iff.1 hr
  exact ⟨r, of_decide_eq_true hrevisions,
    snapshots_labelled root none (Transition.checked_sound hrun)⟩

/-- **A hook that commits mislabels a snapshot.**  The event queue is full, so the
commit of a `transaction` calls the overflow hook, which runs a `transaction` of
its own; that one is stored first, under the revision that comes last. -/
theorem overflow_hook_commits :
    (noNotes.toOption.bind fun root => Transition.run (step (notesOptions 2 1))
      (start (notesOptions 2 1) root none)
      [.beginTransaction (js "s") 0, addNote 0 "a", .commit 0 0, .resume,
        .transaction none false (js "t") 0, addNote 1 "b", .returns 0,
        .transaction none false (js "u") 0, addNote 2 "c", .returns 0, .returns 0, .resume,
        .returns 0, .resume, .startStore 0, .settleStore 0 (storedNotes 1 3), .finishStore 0,
        .startStore 1]).map
      (fun r => (storeRevisions r.database.history, labelled r.database.history)) =
        some ([2, 3], false) := by
  decide +kernel

end Runtime

end NewtonDB
