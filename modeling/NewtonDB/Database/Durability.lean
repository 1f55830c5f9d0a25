/-
# Acknowledgements of durability

A `transaction` that resolves as persisted, and a `flush` that resolves, promise
that storage holds every commit up to a revision.  `durable` says of a history
that each such promise was true when it was made: the snapshot acknowledged last,
or the one the database was loaded from, has the documents of a root of that
revision or a later one.  With an adapter that acknowledges the revision it was
given, every history is durable (`acknowledgements_honest`), whichever way the
promise was kept: by what is persisted already, by a store of its own, or by a
store another caller waits for as well.

The invariant says how far storage is (`held`): all that is persisted is held,
stores that succeeded held their label, and stores still waiting hold more.
-/

import NewtonDB.Database.Programs
import NewtonDB.Database.Queue
import NewtonDB.Store.Scripts

namespace NewtonDB

/-- A snapshot holds every commit up to a revision: it has the documents of a root
published at that revision or later. -/
def SnapshotEnvelope.holds (snapshot : SnapshotEnvelope) (revision : ℕ) :
    List DatabaseEvent → Bool
  | [] => false
  | .published root :: earlier =>
      (revision ≤ root.revision &&
        cloneSnapshotCollections root.collections = some snapshot.collections) ||
        snapshot.holds revision earlier
  | _ :: earlier => snapshot.holds revision earlier

/-- Storage holds every commit up to a revision: the snapshot the adapter acknowledged
last does, or, where it acknowledged none, the one the database was loaded from. -/
def installed (loaded : Option SnapshotEnvelope) (revision : ℕ) : List DatabaseEvent → Bool
  | [] => loaded.any (revision ≤ ·.revision)
  | .acknowledged snapshot _ :: earlier => snapshot.holds revision earlier
  | _ :: earlier => installed loaded revision earlier

/-- **Acknowledgements of durability are honest**: whenever a `transaction` resolved as
persisted, or a `flush` of a persistent database resolved, storage held every commit
up to its revision. -/
def durable (options : DatabaseOptions) (loaded : Option SnapshotEnvelope) :
    List DatabaseEvent → Bool
  | [] => true
  | .transaction _ (.ok receipt) :: earlier =>
      durable options loaded earlier &&
        (receipt.durability = .memory || installed loaded receipt.revision earlier)
  | .flush _ (.ok target) :: earlier =>
      durable options loaded earlier && (!options.adapter || installed loaded target earlier)
  | _ :: earlier => durable options loaded earlier

variable {options : DatabaseOptions} {loaded : Option SnapshotEnvelope} {revision revision' : ℕ}
  {snapshot : SnapshotEnvelope}

/-- A snapshot of a root that was published holds the commits up to its revision.  Only the
publication itself counts, so later events of the history do no harm. -/
theorem SnapshotEnvelope.holds_of_mem {root : Root} {history : List DatabaseEvent}
    (h : .published root ∈ history) (hle : revision ≤ root.revision)
    (hc : cloneSnapshotCollections root.collections = some snapshot.collections) :
    snapshot.holds revision history := by
  induction history with
  | nil => cases h
  | cons e history ih =>
      rcases List.mem_cons.1 h with rfl | hm
      · rw [holds, decide_eq_true hle, decide_eq_true hc]
        rfl
      · cases e <;> first | exact ih hm | exact Bool.or_eq_true_iff.2 (.inr (ih hm))

/-- No store succeeded. -/
def DatabaseEvent.isNoAcknowledgement : DatabaseEvent → Bool
  | .acknowledged .. => false
  | _ => true

/-- An event that promises nothing is no acknowledgement. -/
theorem DatabaseEvent.isNoAcknowledgement_of_isSilent {e : DatabaseEvent} (h : e.isSilent) :
    e.isNoAcknowledgement := by
  cases e <;> first | rfl | cases h

/-- Storage changes only when a store succeeds.  Any other event leaves the revision that is
installed as it was. -/
theorem installed_append {events history : List DatabaseEvent}
    (h : ∀ e ∈ events, e.isNoAcknowledgement) :
    installed loaded revision (events ++ history) = installed loaded revision history := by
  induction events with
  | nil => rfl
  | cons e events ih =>
      have hrest := ih fun e' he' => h e' (List.mem_cons_of_mem _ he')
      have he := h e (List.mem_cons_self ..)
      cases e <;> first | exact hrest | cases he

/-- Events that promise nothing leave every promise kept.  A silent event settles no call, so no
promise is looked at. -/
theorem durable_append {events history : List DatabaseEvent} (h : ∀ e ∈ events, e.isSilent)
    (hd : durable options loaded history) : durable options loaded (events ++ history) := by
  induction events with
  | nil => exact hd
  | cons e events ih =>
      have hrest := ih fun e' he' => h e' (List.mem_cons_of_mem _ he')
      have he := h e (List.mem_cons_self ..)
      cases e with
      | transaction call outcome | flush call outcome =>
          cases outcome <;> first | exact hrest | cases he
      | _ => exact hrest

/-- The adapter reports the revision of the snapshot it was given. -/
def Runtime.adapterHonest (r : Runtime) : Label → Bool
  | .settleStore index (.acknowledged acknowledgement) =>
      r.database.tasks[index]?.all fun task =>
        match task.phase with
        | .storing snapshot => acknowledgement.revision = snapshot.revision
        | _ => true
  | _ => true

namespace Database

variable {db db' : Database} {index : ℕ}

/-- A store whose content is at least that of its label, and the snapshot made of it,
where storage holds the commits up to `held`. -/
structure TaskInvariant (held : ℤ) (history : List DatabaseEvent) (task : PersistenceTask) :
    Prop where
  label : task.receipt.revision ≤ task.root.revision
  published : .published task.root ∈ history
  storing : ∀ snapshot, task.phase = .storing snapshot →
    snapshot.revision = task.receipt.revision ∧ snapshot.collections = task.collections
  done : task.phase = .settled none ∨ task.phase = .finished none → task.receipt.revision ≤ held
  waiting : task.phase.isUnsettled → held ≤ task.root.revision

/-- What is persisted, queued and published, where storage holds the commits up to
`held`. -/
structure DurabilityInvariant (options : DatabaseOptions) (loaded : Option SnapshotEnvelope)
    (held : ℤ) (db : Database) : Prop where
  installed : ∀ revision : ℕ, revision ≤ held → installed loaded revision db.history
  current : .published db.root ∈ db.history
  bound : held ≤ db.root.revision
  persisted : options.adapter → db.persistedRevision ≤ held
  contents : (db.tasks.map (·.root.revision)).Pairwise (· ≤ ·)
  contents_le : ∀ task ∈ db.tasks, task.root.revision ≤ db.root.revision
  tasks : ∀ task ∈ db.tasks, TaskInvariant held db.history task
  durable : durable options loaded db.history

/-- A wait that ends without an error only when storage holds every commit up to a
revision. -/
def Promises (held : ℤ) (db : Database) (revision : ℕ) : Waiting → Prop
  | .rejected _ => True
  | .task index => ∃ task, db.tasks[index]? = some task ∧ task.receipt.revision = revision
  | .resolved | .tail _ => revision ≤ held

variable {held held' : ℤ}

/-- What is known of a store stays known when more happened. -/
theorem TaskInvariant.append {task : PersistenceTask} {history : List DatabaseEvent}
    (h : TaskInvariant held history task) (events : List DatabaseEvent) :
    TaskInvariant held (events ++ history) task :=
  ⟨h.label, List.mem_append_right _ h.published, h.storing, h.done, h.waiting⟩

/-- **What a wait promises it promises later**: the queue only grows, and storage holds no
less. -/
theorem Promises.later {waiting : Waiting} (h : Promises held db revision waiting)
    (hl : db.Later db') (hle : held ≤ held') : Promises held' db' revision waiting := by
  cases waiting with
  | rejected error => trivial
  | task index =>
      obtain ⟨task, ht, hrev⟩ := h
      obtain ⟨task', ht', hreceipt⟩ := hl.tasks index task ht
      exact ⟨task', ht', by rw [hreceipt, hrev]⟩
  | resolved | tail index => exact le_trans h hle

/-- **A wait that ended without an error kept its promise.**  A store that was acknowledged
moved what storage holds up to its snapshot, and this is no earlier than the label. -/
theorem Promises.le_held {waiting : Waiting} (h : Promises held db revision waiting)
    (hi : db.DurabilityInvariant options loaded held) (ho : db.outcome waiting = some none) :
    revision ≤ held := by
  cases waiting with
  | rejected error => cases ho
  | task index =>
      obtain ⟨task, ht, rfl⟩ := h
      obtain ⟨task', ht', hphase⟩ := finished_eq_some.1 ho
      obtain rfl := Option.some.inj (ht.symm.trans ht')
      exact (hi.tasks task (List.mem_of_getElem? ht)).done (.inr hphase)
  | resolved | tail index => exact h

/-- What storage holds at the start. -/
def heldAtStart (loaded : Option SnapshotEnvelope) : ℤ := loaded.elim (-1) (·.revision)

namespace DurabilityInvariant

/-- Nothing was promised by a database that was just opened.  What was loaded is the current
root, and everything up to its revision is held. -/
theorem start (options : DatabaseOptions) {root : Root} {loaded : Option SnapshotEnvelope}
    (hroot : root.revision = loaded.elim 0 (·.revision)) :
    DurabilityInvariant options loaded (heldAtStart loaded) (.start options root loaded) where
  installed revision hle := by
    cases loaded with
    | none =>
        simp only [heldAtStart, Option.elim_none] at hle
        omega
    | some stored =>
        simp only [heldAtStart, Option.elim_some, Nat.cast_le] at hle
        exact decide_eq_true hle
  current := List.mem_singleton.2 rfl
  bound := by
    show heldAtStart loaded ≤ root.revision
    rw [hroot]
    cases loaded <;> simp [heldAtStart]
  persisted ha := by
    simp only [Database.start, ha, if_true]
    exact le_rfl
  contents := .nil
  contents_le _ h := by cases h
  tasks _ h := by cases h
  durable := rfl

/-- Nothing was queued, persisted or published.  The events on record are no answers of the
adapter, so what is installed is the same as before. -/
theorem congr (h : DurabilityInvariant options loaded held db) (root : db'.root = db.root)
    (persistedRevision : db'.persistedRevision = db.persistedRevision)
    (tasks : db'.tasks = db.tasks) (events : List DatabaseEvent)
    (history : db'.history = events ++ db.history) (he : ∀ e ∈ events, e.isNoAcknowledgement)
    (hd : NewtonDB.durable options loaded (events ++ db.history)) :
    DurabilityInvariant options loaded held db' := by
  refine ⟨fun revision hle => ?_, ?_, root ▸ h.bound, fun ha => persistedRevision ▸ h.persisted ha,
    tasks ▸ h.contents, ?_, fun task ht => ?_, history ▸ hd⟩
  · rw [history, installed_append he]
    exact h.installed revision hle
  · rw [root, history]
    exact List.mem_append_right _ h.current
  · rw [tasks, root]
    exact h.contents_le
  · rw [history]
    exact (h.tasks task (tasks ▸ ht)).append events

/-- The lifecycle and the books do not matter. -/
theorem same (h : DurabilityInvariant options loaded held db) (root : db'.root = db.root)
    (persistedRevision : db'.persistedRevision = db.persistedRevision)
    (tasks : db'.tasks = db.tasks) (history : db'.history = db.history) :
    DurabilityInvariant options loaded held db' :=
  h.congr root persistedRevision tasks [] history (by simp) h.durable

/-- What leaves storage and its promises alone keeps the invariant. -/
theorem quiet (h : DurabilityInvariant options loaded held db)
    (hq : db.Quiet DatabaseEvent.isSilent db') : DurabilityInvariant options loaded held db' := by
  obtain ⟨events, hh, he⟩ := hq.history
  exact h.congr hq.root hq.persistedRevision hq.tasks events hh
    (fun e hm => DatabaseEvent.isNoAcknowledgement_of_isSilent (he e hm))
    (durable_append he h.durable)

/-- Something else is put on record. -/
theorem record (h : DurabilityInvariant options loaded held db) {event : DatabaseEvent}
    (he : event.isNoAcknowledgement)
    (hd : NewtonDB.durable options loaded (event :: db.history)) :
    DurabilityInvariant options loaded held (db.record event) :=
  h.congr rfl rfl rfl [event] rfl (by simpa using he) hd

/-- **A publication raises the current revision**, and the stores that are queued hold the roots
they held. -/
theorem publish (h : DurabilityInvariant options loaded held db) {t : Transaction}
    {committed : Committed} (hc : db.root.commit options.commit t = .ok committed) :
    DurabilityInvariant options loaded held (db.publish committed) := by
  unfold Database.publish
  obtain ⟨-, -, ⟨hb, -⟩ | ⟨batch, hb, hrev⟩⟩ := commit_receipt hc
  · rw [hb]; exact h
  · rw [hb]
    have hle : db.root.revision ≤ committed.root.revision := by rw [hrev]; exact Nat.le_succ _
    exact ⟨h.installed, List.mem_cons_self .., h.bound.trans (by exact_mod_cast hle), h.persisted,
      h.contents, fun task ht => (h.contents_le task ht).trans hle,
      fun task ht => (h.tasks task ht).append [_], h.durable⟩

/-- **A queued store holds at least the commits of its label.**  Its snapshot is taken when it
starts, of the root there is then, and revisions do not go down. -/
theorem persist (h : DurabilityInvariant options loaded held db) (ha : options.adapter)
    (receipt : CommitReceipt) (hle : receipt.revision ≤ db.root.revision) :
    DurabilityInvariant options loaded held (db.persist options receipt).1 := by
  have hspec := persist_spec ha db receipt
  generalize db.persist options receipt = result at hspec
  cases hspec with
  | coalesced index entry => exact h
  | full entry limit => exact h.same rfl rfl rfl rfl
  | broken entry limit clone error => exact h.same rfl rfl rfl rfl
  | queued entry limit collections clone =>
      refine ⟨h.installed, List.mem_cons_of_mem _ h.current, h.bound, h.persisted, ?_,
        fun task ht => ?_, fun task ht => ?_, h.durable⟩
      · show ((db.tasks ++ [_]).map _).Pairwise _
        rw [List.map_append, List.map_singleton]
        refine List.pairwise_append.2 ⟨h.contents, List.pairwise_singleton .., fun a hm b hb => ?_⟩
        obtain ⟨task, ht, rfl⟩ := List.mem_map.1 hm
        rw [List.mem_singleton.1 hb]
        exact h.contents_le task ht
      · rcases List.mem_append.1 ht with ht | ht
        · exact h.contents_le task ht
        · rw [List.mem_singleton.1 ht]
          exact le_rfl
      · rcases List.mem_append.1 ht with ht | ht
        · exact (h.tasks task ht).append [_]
        · rw [List.mem_singleton.1 ht]
          exact ⟨hle, List.mem_cons_of_mem _ h.current, fun _ hp => (by cases hp),
            fun hp => (by rcases hp with hp | hp <;> cases hp), fun _ => h.bound⟩

/-- A flush queues a store of the current root, or waits for one that is queued. -/
theorem flushNow (h : DurabilityInvariant options loaded held db) (id : JsString) :
    DurabilityInvariant options loaded held (db.flushNow options id).1 := by
  rcases flushNow_cases options db id with ⟨ha, -, he⟩ | ⟨-, he⟩
  · rw [he]
    exact h.persist ha _ le_rfl
  · rwa [he]

/-- A call of `close` flushes, and keeps what a flush does.  A database that is closing already
is left as it is. -/
theorem close (h : DurabilityInvariant options loaded held db) (id : JsString) :
    DurabilityInvariant options loaded held (db.close options id) := by
  rcases close_cases options db id with he | ⟨-, -, he⟩
  · rwa [he]
  · have hclosing : DurabilityInvariant options loaded held { db with state := .closing } :=
      h.same rfl rfl rfl rfl
    have hflush : DurabilityInvariant options loaded held
        ({ db with state := .closing }.flushDuringClose options id).1 := by
      unfold flushDuringClose
      split_ifs
      · exact hclosing
      · exact hclosing.flushNow id
    rw [he]
    exact hflush.same rfl rfl rfl rfl

/-- A store moves on and something is put on record.  What the task says about its snapshot and
about what is held has to be true in the new phase as well. -/
theorem setPhase (h : DurabilityInvariant options loaded held db) {task : PersistenceTask}
    (ht : db.tasks[index]? = some task) (phase : TaskPhase)
    (hstoring : ∀ snapshot, phase = .storing snapshot →
      snapshot.revision = task.receipt.revision ∧ snapshot.collections = task.collections)
    (hdone : phase = .settled none ∨ phase = .finished none → task.receipt.revision ≤ held)
    (hwaiting : phase.isUnsettled → task.phase.isUnsettled) :
    DurabilityInvariant options loaded held (db.setPhase index phase) := by
  have htask := h.tasks task (List.mem_of_getElem? ht)
  refine ⟨h.installed, h.current, h.bound, h.persisted, ?_, ?_, forall_setPhase h.tasks ht ?_,
    h.durable⟩
  · rw [map_setPhase _ fun _ _ => rfl]
    exact h.contents
  · exact forall_setPhase h.contents_le ht (h.contents_le task (List.mem_of_getElem? ht))
  · exact ⟨htask.label, htask.published, hstoring, hdone, fun hu => htask.waiting (hwaiting hu)⟩

/-- A store that starts takes a snapshot of the current root, which is no older than its
label. -/
theorem startStore (h : DurabilityInvariant options loaded held db)
    (hs : db.startStore options index = some db') :
    DurabilityInvariant options loaded held db' := by
  obtain ⟨task, ht, hq, -, rfl⟩ := startStore_eq_some hs
  refine (h.setPhase ht (.storing (db.snapshot options task)) (fun snapshot hp => ?_)
    (fun hp => ?_) fun _ => ?_).record rfl h.durable
  · rw [← TaskPhase.storing.inj hp]
    exact ⟨rfl, rfl⟩
  · rcases hp with hp | hp <;> cases hp
  · rw [hq]; rfl

/-- **What an honest adapter acknowledges is in storage**: the snapshot holds all that
storage held, since stores succeed in the order in which they were queued. -/
theorem acknowledge (h : DurabilityInvariant options loaded held db) (ho : QueueOrder db.tasks)
    {task : PersistenceTask} {snapshot : SnapshotEnvelope} (ht : db.tasks[index]? = some task)
    (hp : task.phase = .storing snapshot) {a : StoreAcknowledgement}
    (hhonest : a.revision = snapshot.revision) :
    held ≤ task.root.revision ∧ DurabilityInvariant options loaded task.root.revision
      (db.acknowledge index snapshot a) := by
  have hmem := List.mem_of_getElem? ht
  have htask := h.tasks task hmem
  obtain ⟨hrev, hcollections⟩ := htask.storing snapshot hp
  have hheld : held ≤ task.root.revision := htask.waiting (by rw [hp]; rfl)
  have hlabel : (task.receipt.revision : ℤ) ≤ task.root.revision := by exact_mod_cast htask.label
  refine ⟨hheld, ⟨fun revision hle => ?_, List.mem_cons_of_mem _ h.current, ?_, fun ha => ?_, ?_,
    ?_, ?_, h.durable⟩⟩
  · exact SnapshotEnvelope.holds_of_mem htask.published (by exact_mod_cast hle)
      (hcollections ▸ task.cloned)
  · exact_mod_cast h.contents_le task hmem
  · refine max_le ((h.persisted ha).trans hheld) ?_
    rw [hhonest, hrev]
    exact hlabel
  · show ((db.setPhase index _).tasks.map _).Pairwise _
    rw [map_setPhase _ fun _ _ => rfl]
    exact h.contents
  · exact forall_setPhase h.contents_le ht (h.contents_le task hmem)
  · -- the stores still waiting were queued later, so their roots are no older
    obtain ⟨pre, post, hsplit, rfl, hm⟩ := exists_split ht
    have hcontents := h.contents
    rw [hsplit, List.map_append, List.map_cons] at hcontents
    rw [hsplit] at ho
    have hpre := ho.finished_before (by rw [hp]; simp)
    show ∀ t ∈ (db.setPhase pre.length _).tasks, _
    rw [Database.setPhase, hm]
    intro t hmt
    rcases List.mem_append.1 hmt with hmt | hmt
    · have hold := h.tasks t (hsplit ▸ List.mem_append_left _ hmt)
      refine ⟨hold.label, List.mem_cons_of_mem _ hold.published, hold.storing,
        fun hd => (hold.done hd).trans hheld, fun hu => ?_⟩
      rw [TaskPhase.isUnsettled_of_finished (hpre t hmt)] at hu
      cases hu
    · rcases List.mem_cons.1 hmt with rfl | hmt
      · exact ⟨htask.label, List.mem_cons_of_mem _ htask.published, fun _ hs => (by cases hs),
          fun _ => hlabel, fun hu => (by cases hu)⟩
      · have hold := h.tasks t (hsplit ▸ List.mem_append_right _ (List.mem_cons_of_mem _ hmt))
        refine ⟨hold.label, List.mem_cons_of_mem _ hold.published, hold.storing,
          fun hd => (hold.done hd).trans hheld, fun _ => ?_⟩
        exact_mod_cast (List.pairwise_cons.1 (List.pairwise_append.1 hcontents).2.1).1 _
          (List.mem_map_of_mem hmt)

/-- **The answer of an honest adapter** moves what storage holds up to the snapshot that was
stored, or leaves it. -/
theorem settleStore (h : DurabilityInvariant options loaded held db) (ho : QueueOrder db.tasks)
    {outcome : StoreOutcome}
    (hhonest : ∀ task snapshot a, db.tasks[index]? = some task → task.phase = .storing snapshot →
      outcome = .acknowledged a → a.revision = snapshot.revision)
    (hs : db.settleStore options index outcome = some db') :
    ∃ held', held ≤ held' ∧ DurabilityInvariant options loaded held' db' := by
  obtain ⟨task, snapshot, ht, hp, ⟨rfl, -⟩ | ⟨a, ha, -, rfl⟩⟩ := settleStore_eq_some hs
  · have hset := h.setPhase ht (.settled (some (.persistence task.receipt)))
      (fun _ hp => (by cases hp)) (fun hp => (by rcases hp with hp | hp <;> cases hp))
      (fun hu => (by cases hu))
    exact ⟨held, le_rfl, hset.congr rfl rfl rfl [_] rfl (by simp [DatabaseEvent.isNoAcknowledgement])
      h.durable⟩
  · exact ⟨_, h.acknowledge ho ht hp (hhonest task snapshot a ht hp ha)⟩

/-- A store that ends promises what its answer said.  The revision was held since the answer;
the end of the task makes it known to those who wait for it. -/
theorem finishStore (h : DurabilityInvariant options loaded held db)
    (hs : db.finishStore index = some db') : DurabilityInvariant options loaded held db' := by
  obtain ⟨task, error, ht, hp, rfl⟩ := finishStore_eq_some hs
  have hset := h.setPhase ht (.finished error) (fun _ hp => (by cases hp)) (fun hd => ?_)
    (fun hu => (by cases hu))
  · exact hset.same rfl rfl rfl rfl
  · refine (h.tasks task (List.mem_of_getElem? ht)).done (.inl ?_)
    rcases hd with hd | hd
    · cases hd
    · rw [hp, TaskPhase.finished.inj hd]

/-- To close the adapter promises nothing.  The close goes to its next phase, and a call of the
adapter is put on record when there is one. -/
theorem closeAdapter (h : DurabilityInvariant options loaded held db)
    (hs : db.closeAdapter options = some db') :
    DurabilityInvariant options loaded held db' := by
  obtain ⟨waiting, failure, -, -, rfl⟩ := closeAdapter_eq_some hs
  have hphase : DurabilityInvariant options loaded held
      { db with closePromise := some (.closingAdapter failure) } := h.same rfl rfl rfl rfl
  split_ifs
  · exact hphase.record rfl h.durable
  · exact hphase

/-- The end of a close promises what its flush did. -/
theorem finishClose (h : DurabilityInvariant options loaded held db)
    {failure : Option NewtonError} (hs : db.finishClose failure = some db') :
    DurabilityInvariant options loaded held db' := by
  obtain ⟨previous, -, rfl⟩ := finishClose_eq_some hs
  exact h.congr rfl rfl rfl [.close _] rfl (by simp [DatabaseEvent.isNoAcknowledgement]) h.durable

end DurabilityInvariant

/-- A `#persist` waits for a store of its label.  A full queue or a snapshot that cannot be
cloned rejects instead, and a rejection promises nothing. -/
theorem promises_persist (hq : db.QueueInvariant options) (ha : options.adapter)
    (receipt : CommitReceipt) :
    Promises held (db.persist options receipt).1 receipt.revision
      (db.persist options receipt).2 := by
  have hspec := persist_spec ha db receipt
  generalize db.persist options receipt = result at hspec
  cases hspec with
  | coalesced index entry =>
      obtain ⟨task, ht, hrev, -⟩ := hq.entries _ _ entry
      exact ⟨task, ht, hrev⟩
  | full entry limit => trivial
  | broken entry limit clone error => trivial
  | queued entry limit collections clone => exact ⟨_, List.getElem?_concat_length .., rfl⟩

/-- A flush waits for a store of the current revision, unless that is persisted.  In that case
the flush waits for the end of the queue, and its promise is kept from the start. -/
theorem promises_flushNow (hq : db.QueueInvariant options)
    (hpersisted : db.persistedRevision ≤ held) (ha : options.adapter) (id : JsString) :
    Promises held (db.flushNow options id).1 db.root.revision (db.flushNow options id).2 := by
  rcases flushNow_cases options db id with ⟨-, -, he⟩ | ⟨hle, he⟩
  · rw [he]
    exact promises_persist hq ha _
  · rw [he]
    have hheld := (hle ha).trans hpersisted
    unfold tail
    cases db.tasks.length <;> exact hheld

end Database

/-! ### Every run -/

namespace Runtime

variable {r r' : Runtime} {label : Label} {held held' : ℤ}

/-- The database, and what the calls that wait and the commits under way will
promise, where storage holds the commits up to `held`. -/
structure DurabilityInvariant (options : DatabaseOptions) (loaded : Option SnapshotEnvelope)
    (held : ℤ) (r : Runtime) : Prop where
  queue : r.database.QueueInvariant options
  database : r.database.DurabilityInvariant options loaded held
  transactions : ∀ (i : ℕ) receipt waiting, r.calls[i]? = some (.persisting receipt waiting) →
    r.database.Promises held receipt.revision waiting
  flushes : ∀ (i : ℕ) target waiting, r.calls[i]? = some (.flushing target waiting) →
    options.adapter → r.database.Promises held target waiting
  frames : ∀ handle caller receipt, Frame.committed handle caller receipt ∈ r.stack →
    receipt.durability = .memory ∧ receipt.revision ≤ r.database.root.revision

namespace DurabilityInvariant

/-- Nothing was promised by a program that was just opened, and no call waits.  All its parts
speak about tasks, calls and frames, of which there are none. -/
theorem start (options : DatabaseOptions) {root : Root} {loaded : Option SnapshotEnvelope}
    (hroot : root.revision = loaded.elim 0 (·.revision)) :
    DurabilityInvariant options loaded (Database.heldAtStart loaded)
      (.start options root loaded) where
  queue := .start options root loaded
  database := .start options hroot
  transactions _ _ _ h := by cases h
  flushes _ _ _ h := by cases h
  frames _ _ _ h := by cases h

/-- Calls that wait and commits under way keep waiting for the same.  What was promised to them
stays promised, since the queue only grows and what is held does not shrink. -/
theorem kept (h : DurabilityInvariant options loaded held r)
    (hs : r.step options label = some r') (hk : r.Kept r') (hle : held ≤ held')
    (hd : r'.database.DurabilityInvariant options loaded held') :
    DurabilityInvariant options loaded held' r' := by
  have hstorage := step_storage hs
  have hlater := hstorage.later
  refine ⟨hstorage.queueInvariant h.queue, hd, fun i receipt waiting hi => ?_,
    fun i target waiting hi ha => ?_, fun handle caller receipt hm => ?_⟩
  · exact (h.transactions i receipt waiting (hk.calls i _ hi rfl)).later hlater hle
  · exact (h.flushes i target waiting (hk.calls i _ hi rfl) ha).later hlater hle
  · obtain ⟨hmemory, hle⟩ := h.frames handle caller receipt (hk.frames handle caller receipt hm)
    exact ⟨hmemory, hle.trans hstorage.revision_le⟩

/-- A commit returns a receipt of a root that is published.  Its receipt says `memory`, which
promises nothing about storage; the revision it names is that of the new root. -/
theorem commit (h : DurabilityInvariant options loaded held r)
    (hs : r.step options label = some r') {t : Transaction} {committed : Committed}
    (ok : r.database.root.commit options.commit t = .ok committed)
    (database : (r.database.publish committed).Quiet DatabaseEvent.isSilent r'.database)
    (calls : r'.calls = r.calls)
    (frames : ∀ handle caller receipt, Frame.committed handle caller receipt ∈ r'.stack →
      Frame.committed handle caller receipt ∈ r.stack ∨ receipt = committed.receipt) :
    DurabilityInvariant options loaded held r' := by
  have hstorage := step_storage hs
  have hlater := hstorage.later
  refine ⟨hstorage.queueInvariant h.queue, (h.database.publish ok).quiet database,
    fun i receipt waiting hi => ?_, fun i target waiting hi ha => ?_,
    fun handle caller receipt hm => ?_⟩
  · exact (h.transactions i receipt waiting (calls ▸ hi)).later hlater le_rfl
  · exact (h.flushes i target waiting (calls ▸ hi) ha).later hlater le_rfl
  · rcases frames handle caller receipt hm with hold | rfl
    · obtain ⟨hmemory, hold⟩ := h.frames handle caller receipt hold
      exact ⟨hmemory, hold.trans hstorage.revision_le⟩
    · obtain ⟨hrev, hmemory, hroot⟩ := Database.commit_receipt ok
      refine ⟨hmemory, ?_⟩
      rw [database.root, Database.publish, hrev]
      rcases hroot with ⟨hnone, hsame⟩ | ⟨batch, hsome, -⟩
      · rw [hnone, hsame]
      · rw [hsome]
        exact le_rfl

/-- A `transaction` starts to wait for a store of its revision.  The receipt of the commit gives
the label, and the wait is for a task of that label. -/
theorem persist (h : DurabilityInvariant options loaded held r)
    (hs : r.step options .resume = some r') {handle call : ℕ} {receipt : CommitReceipt}
    {rest : List Frame} (stack : r.stack = .committed handle (some call) receipt :: rest)
    (ha : options.adapter)
    (database : r'.database =
      ((r.database.record (.committed handle (r.receiptOf handle receipt))).persist options
        (r.receiptOf handle receipt)).1)
    (calls : r'.calls = r.calls.set call (.persisting (r.receiptOf handle receipt)
      ((r.database.record (.committed handle (r.receiptOf handle receipt))).persist options
        (r.receiptOf handle receipt)).2))
    (hrest : r'.stack = rest) : DurabilityInvariant options loaded held r' := by
  have hstorage := step_storage hs
  have hlater := hstorage.later
  have hrecord : (r.database.record (.committed handle
      (r.receiptOf handle receipt))).DurabilityInvariant options loaded held :=
    h.database.record rfl h.database.durable
  have hframe := h.frames handle (some call) receipt (stack ▸ List.mem_cons_self ..)
  refine ⟨hstorage.queueInvariant h.queue, ?_, fun i receipt' waiting hi => ?_,
    fun i target waiting hi ha => ?_, fun handle' caller receipt' hm => ?_⟩
  · rw [database]
    exact hrecord.persist ha (r.receiptOf handle receipt) hframe.2
  · rw [calls, List.getElem?_set] at hi
    split_ifs at hi with hcall hlt
    · obtain ⟨rfl, rfl⟩ := AsyncCall.persisting.inj (Option.some.inj hi)
      have hrecorded : (r.database.record (.committed handle
          (r.receiptOf handle receipt))).QueueInvariant options := h.queue.congr rfl rfl rfl
      rw [database]
      exact Database.promises_persist hrecorded ha (r.receiptOf handle receipt)
    · exact (h.transactions i receipt' waiting hi).later hlater le_rfl
  · rw [calls, List.getElem?_set] at hi
    split_ifs at hi with hcall hlt
    · cases Option.some.inj hi
    · exact (h.flushes i target waiting hi ha).later hlater le_rfl
  · rw [hrest] at hm
    obtain ⟨hmemory, hold⟩ := h.frames handle' caller receipt' (stack ▸ List.mem_cons_of_mem _ hm)
    exact ⟨hmemory, hold.trans hstorage.revision_le⟩

/-- A `flush` starts to wait for a store of the current revision.  The receipt under which it
queues has the revision of the current root. -/
theorem flush (h : DurabilityInvariant options loaded held r) {id : JsString}
    (hs : r.step options (.flush id) = some r')
    (database : r'.database = (r.database.flushNow options id).1)
    (calls : r'.calls = r.calls ++ [.flushing r.database.root.revision
      (r.database.flushNow options id).2])
    (stack : r'.stack = r.stack) : DurabilityInvariant options loaded held r' := by
  have hstorage := step_storage hs
  have hlater := hstorage.later
  refine ⟨hstorage.queueInvariant h.queue, ?_, fun i receipt waiting hi => ?_,
    fun i target waiting hi ha => ?_, fun handle caller receipt hm => ?_⟩
  · rw [database]
    exact h.database.flushNow id
  · rw [calls] at hi
    rcases getElem?_concat_eq_some hi with hi | hi
    · exact (h.transactions i receipt waiting hi).later hlater le_rfl
    · cases hi
  · rw [calls] at hi
    rcases getElem?_concat_eq_some hi with hi | hi
    · exact (h.flushes i target waiting hi ha).later hlater le_rfl
    · obtain ⟨rfl, rfl⟩ := AsyncCall.flushing.inj hi
      rw [database]
      exact Database.promises_flushNow h.queue (h.database.persisted ha) ha id
  · obtain ⟨hmemory, hold⟩ := h.frames handle caller receipt (stack ▸ hm)
    exact ⟨hmemory, hold.trans hstorage.revision_le⟩

/-- **Every step keeps the promises**, with an honest adapter.  What storage holds can only move
up; what is promised in the step is looked up in the invariant of the state before it. -/
theorem step (h : DurabilityInvariant options loaded held r) (hc : r.adapterHonest label)
    (hs : r.step options label = some r') :
    ∃ held', held ≤ held' ∧ DurabilityInvariant options loaded held' r' := by
  have hrecord : ∀ handle receipt, (r.database.record (.committed handle receipt)).DurabilityInvariant
      options loaded held := fun _ _ => h.database.record rfl h.database.durable
  have hkept : ∀ {db : Database}, r'.database = db → r.Kept r' →
      db.DurabilityInvariant options loaded held →
      ∃ held', held ≤ held' ∧ DurabilityInvariant options loaded held' r' := fun he hk hd =>
    ⟨held, le_rfl, h.kept hs hk le_rfl (he ▸ hd)⟩
  cases step_effect hs with
  | quiet database kept => exact hkept rfl kept (h.database.quiet database)
  | commit t committed known usable ok database calls frames =>
      exact ⟨held, le_rfl, h.commit hs ok database calls frames⟩
  | resolveMemory handle call receipt frame database kept =>
      have hcommitted := hrecord handle (r.receiptOf handle receipt)
      refine hkept database kept (hcommitted.record rfl ?_)
      refine Bool.and_eq_true_iff.2 ⟨hcommitted.durable, Bool.or_eq_true_iff.2 (.inl ?_)⟩
      exact decide_eq_true (h.frames handle _ receipt frame).1
  | resolvePersisted handle call receipt frame adapter persisted database kept =>
      have hcommitted := hrecord handle (r.receiptOf handle receipt)
      refine hkept database kept (hcommitted.record rfl ?_)
      have hle := persisted.trans (h.database.persisted adapter)
      exact Bool.and_eq_true_iff.2 ⟨hcommitted.durable,
        Bool.or_eq_true_iff.2 (.inr (hcommitted.installed _ hle))⟩
  | persist handle call receipt rest stack persists adapter pending database calls hrest =>
      exact ⟨held, le_rfl, h.persist hs stack adapter database calls hrest⟩
  | flush id usable database calls stack =>
      exact ⟨held, le_rfl, h.flush hs database calls stack⟩
  | wakeTransaction call receipt waiting waits ended database kept =>
      have hle := (h.transactions call receipt waiting waits).le_held h.database ended
      refine hkept database kept (h.database.record rfl ?_)
      exact Bool.and_eq_true_iff.2 ⟨h.database.durable,
        Bool.or_eq_true_iff.2 (.inr (h.database.installed _ hle))⟩
  | wakeFlush call target waiting waits ended database kept =>
      refine hkept database kept (h.database.record rfl ?_)
      refine Bool.and_eq_true_iff.2 ⟨h.database.durable, ?_⟩
      by_cases ha : options.adapter
      · have hle := (h.flushes call target waiting waits ha).le_held h.database ended
        exact Bool.or_eq_true_iff.2 (.inr (h.database.installed _ hle))
      · exact Bool.or_eq_true_iff.2 (.inl (by simpa using ha))
  | close id database kept => exact hkept database kept (h.database.close id)
  | startStore index database kept => exact hkept rfl kept (h.database.startStore database)
  | settleStore index outcome database kept =>
      have hhonest : ∀ task snapshot a, r.database.tasks[index]? = some task →
          task.phase = .storing snapshot → outcome = .acknowledged a →
          a.revision = snapshot.revision := by
        rintro task snapshot a ht hp rfl
        rw [adapterHonest, ht, Option.all_some, hp] at hc
        exact of_decide_eq_true hc
      obtain ⟨held', hle, hd⟩ := h.database.settleStore h.queue.order hhonest database
      exact ⟨held', hle, h.kept hs kept hle hd⟩
  | finishStore index database kept => exact hkept rfl kept (h.database.finishStore database)
  | closeAdapter database kept => exact hkept rfl kept (h.database.closeAdapter database)
  | finishClose failure database kept => exact hkept rfl kept (h.database.finishClose database)

end DurabilityInvariant

section

variable {σ : Type} [DecidableEq σ] {graph : JsGraph σ}

/-- **Acknowledgements of durability are honest**, in every run over an adapter that
acknowledges what it installed: whenever a `transaction` resolved as persisted, or a
`flush` resolved, storage held every commit up to its revision. -/
theorem acknowledgements_honest {seed : List (JsString × List σ)}
    {schemas : List (JsString × CollectionSchema)} (loaded : Option SnapshotEnvelope) {root : Root}
    (hroot : createRoot graph seed schemas (loaded.elim 0 (·.revision)) = .ok root)
    {labels : List Label}
    (hrun : Transition.Run (step options) (fun r label => r.adapterHonest label)
      (start options root loaded) labels r) : durable options loaded r.database.history := by
  have hinv : ∃ held, r.DurabilityInvariant options loaded held := by
    refine hrun.invariant (P := fun r => ∃ held, r.DurabilityInvariant options loaded held)
      ⟨_, .start options (createRoot_invariant hroot).2⟩ ?_
    rintro r label r' ⟨held, h⟩ hc hs
    obtain ⟨held', -, h'⟩ := h.step hc hs
    exact ⟨held', h'⟩
  obtain ⟨held, h⟩ := hinv
  exact h.database.durable

end

/-- The store two transactions wait for fails, and a flush stores their commits again.  Both
calls fail with the first store; after the flush, storage holds what both committed. -/
theorem second_store_honest : ∃ r : Runtime,
    r.database.persistedRevision = 1 ∧ durable (notesOptions 2 8) none r.database.history := by
  obtain ⟨root, r, hroot, hr⟩ := exists_run (f := fun root =>
    (Transition.checked (step (notesOptions 2 8)) adapterHonest
      (start (notesOptions 2 8) root none)
      [.transaction none false (js "t") 0, addNote 0 "a", .returns 0, .resume, .startStore 0,
        .transaction none false (js "u") 0, .returns 0, .resume, .settleStore 0 .rejected,
        .finishStore 0, .flush (js "f"), .startStore 1, .settleStore 1 (storedNotes 1 1),
        .finishStore 1, .wake 0, .wake 1, .wake 2]).filter
          (·.database.persistedRevision = 1)) (by decide +kernel)
  obtain ⟨hrun, hpersisted⟩ := Option.filter_eq_some_iff.1 hr
  exact ⟨r, of_decide_eq_true hpersisted,
    acknowledgements_honest none hroot (Transition.checked_sound hrun)⟩

end Runtime

end NewtonDB
