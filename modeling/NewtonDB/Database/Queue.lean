/-
# The store queue in every run

`QueueInvariant`: a store starts only after every earlier one is off the books,
so at most one is with the adapter; the stores not off the books are counted by
`#pendingPersistence`, which the limit bounds; and the entries by revision lead
to such stores, queued for that revision.  It holds in every run, whatever the
adapter answers and whatever the hooks do.  `Later`: no store leaves the queue or
changes its receipt.
-/

import NewtonDB.Database.Specs

namespace NewtonDB

namespace TaskPhase

/-- The adapter has it. -/
def isStoring : TaskPhase → Bool
  | .storing _ => true
  | _ => false

/-- The adapter has not answered. -/
def isUnsettled : TaskPhase → Bool
  | .queued | .storing _ => true
  | _ => false

/-- It is on the books. -/
def isUnfinished (phase : TaskPhase) : Bool := phase.outcome.isNone

/-- A store that has not been answered is not finished. -/
theorem isUnsettled_le {phase : TaskPhase} (h : phase.isUnsettled) : phase.isUnfinished := by
  cases phase <;> first | rfl | cases h

/-- A store under way has not been answered. -/
theorem isStoring_le {phase : TaskPhase} (h : phase.isStoring) : phase.isUnsettled := by
  cases phase <;> first | rfl | cases h

/-- A store that is finished has been answered. -/
theorem isUnsettled_of_finished {phase : TaskPhase} (h : phase.outcome.isSome) :
    phase.isUnsettled = false := by
  cases phase <;> first | rfl | cases h

/-- A store that is finished is not under way. -/
theorem isStoring_of_finished {phase : TaskPhase} (h : phase.outcome.isSome) :
    phase.isStoring = false := by
  cases phase <;> first | rfl | cases h

end TaskPhase

/-- A store that is not queued any more has only finished ones before it. -/
def QueueOrder (tasks : List PersistenceTask) : Prop :=
  tasks.Pairwise fun a b => b.phase ≠ .queued → a.phase.outcome.isSome

namespace QueueOrder

variable {tasks pre post : List PersistenceTask} {task task' : PersistenceTask}

/-- A store that is queued comes last. -/
theorem concat (h : QueueOrder tasks) (hq : task.phase = .queued) :
    QueueOrder (tasks ++ [task]) := by
  refine List.pairwise_append.2 ⟨h, List.pairwise_singleton .., fun a _ b hb hne => ?_⟩
  rw [List.mem_singleton.1 hb] at hne
  exact absurd hq hne

/-- **One store moves on and the queue stays in order**: it starts when those before it are
finished, and does not go back. -/
theorem replace (h : QueueOrder (pre ++ task :: post))
    (hpre : task'.phase ≠ .queued → task.phase = .queued → ∀ a ∈ pre, a.phase.outcome.isSome)
    (hpost : task.phase.outcome.isSome → task'.phase.outcome.isSome) :
    QueueOrder (pre ++ task' :: post) := by
  obtain ⟨hl, hr, hcross⟩ := List.pairwise_append.1 h
  obtain ⟨hhead, htail⟩ := List.pairwise_cons.1 hr
  refine List.pairwise_append.2 ⟨hl, List.pairwise_cons.2 ⟨fun b hb hne => ?_, htail⟩,
    fun a ha b hb hne => ?_⟩
  · exact hpost (hhead b hb hne)
  · rcases List.mem_cons.1 hb with rfl | hb
    · by_cases hq : task.phase = .queued
      · exact hpre hne hq a ha
      · exact hcross a ha task (List.mem_cons_self ..) hq
    · exact hcross a ha b (List.mem_cons_of_mem _ hb) hne

/-- Before a store that is with the adapter or past it, all are off the books. -/
theorem finished_before (h : QueueOrder (pre ++ task :: post)) (hne : task.phase ≠ .queued) :
    ∀ a ∈ pre, a.phase.outcome.isSome := fun a ha =>
  (List.pairwise_append.1 h).2.2 a ha task (List.mem_cons_self ..) hne

/-- After a store that is on the books, all are still queued.  A store leaves that phase only
when the one before it is off the books. -/
theorem queued_after (h : QueueOrder (pre ++ task :: post)) (hn : task.phase.isUnfinished) :
    ∀ b ∈ post, b.phase = .queued := by
  intro b hb
  by_contra hne
  have hf := (List.pairwise_cons.1 (List.pairwise_append.1 h).2.1).1 b hb hne
  rw [TaskPhase.isUnfinished, Option.isNone_iff_eq_none] at hn
  rw [hn] at hf
  cases hf

/-- What the adapter has not answered comes after a store that it has.  The order is one of
phases along the queue: finished, then at most one under way, then queued. -/
theorem lt_of_unsettled (h : QueueOrder tasks) {index j : ℕ} (ht : tasks[index]? = some task)
    (hne : task.phase ≠ .queued) (hj : tasks[j]? = some task') (hu : task'.phase.isUnsettled)
    (hother : j ≠ index) : index < j := by
  by_contra hcon
  obtain ⟨hi, rfl⟩ := List.getElem?_eq_some_iff.1 ht
  obtain ⟨hlt, rfl⟩ := List.getElem?_eq_some_iff.1 hj
  have hfinished := List.pairwise_iff_getElem.1 h j index hlt hi (by omega) hne
  rw [TaskPhase.isUnsettled_of_finished hfinished] at hu
  cases hu

/-- When the last store is off the books, all are.  What is before a task that is no longer
queued is finished, and nothing is behind the last one. -/
theorem all_finished (h : QueueOrder tasks) {index : ℕ} (ht : tasks[index]? = some task)
    (hlast : index + 1 = tasks.length) (hf : task.phase.outcome.isSome) :
    ∀ a ∈ tasks, a.phase.outcome.isSome := by
  obtain ⟨pre, post, rfl, rfl, -⟩ := exists_split ht
  rw [List.length_append, List.length_cons] at hlast
  obtain rfl : post = [] := List.length_eq_zero_iff.1 (by omega)
  have hne : task.phase ≠ .queued := fun hq => by rw [hq] at hf; cases hf
  intro a ha
  rcases List.mem_append.1 ha with ha | ha
  · exact h.finished_before hne a ha
  · rwa [List.mem_singleton.1 ha]

end QueueOrder

namespace Database

/-- The queue of stores is in order and on the books. -/
structure QueueInvariant (options : DatabaseOptions) (db : Database) : Prop where
  order : QueueOrder db.tasks
  pending : db.tasks.countP (·.phase.isUnfinished) ≤ db.pendingPersistence
  limit : db.pendingPersistence ≤ options.persistenceLimits.maxPendingSnapshots
  entries : ∀ revision index, db.persistenceByRevision.get? revision = some index →
    ∃ task, db.tasks[index]? = some task ∧ task.receipt.revision = revision ∧
      task.phase.isUnfinished

variable {options : DatabaseOptions} {db db' : Database} {index : ℕ} {task : PersistenceTask}

/-- To move one store on leaves the others. -/
@[simp]
theorem tasks_setPhase (db : Database) (index : ℕ) (phase : TaskPhase) (j : ℕ) :
    (db.setPhase index phase).tasks[j]? =
      (db.tasks[j]?).map fun t => if index = j then { t with phase } else t := by
  rw [setPhase, List.getElem?_modify]
  rcases db.tasks[j]? with _ | t
  · rfl
  · split_ifs <;> rfl

/-- Moving a store on changes its phase only.  Its receipt, its root and its snapshot are those
it was queued with. -/
theorem mem_setPhase {phase : TaskPhase} (h : task ∈ (db.setPhase index phase).tasks) :
    ∃ t ∈ db.tasks, task = t ∨ task = { t with phase } := by
  obtain ⟨j, hj⟩ := List.mem_iff_getElem?.1 h
  rw [tasks_setPhase] at hj
  obtain ⟨t, ht, rfl⟩ := Option.map_eq_some_iff.1 hj
  refine ⟨t, List.mem_of_getElem? ht, ?_⟩
  split_ifs
  · exact .inr rfl
  · exact .inl rfl

/-- What held of every store, and holds of one that moved on, holds of all.  The queue is the
same before and behind it. -/
theorem forall_setPhase {P : PersistenceTask → Prop} (h : ∀ t ∈ db.tasks, P t)
    (ht : db.tasks[index]? = some task) {phase : TaskPhase} (hnew : P { task with phase }) :
    ∀ t ∈ (db.setPhase index phase).tasks, P t := by
  obtain ⟨pre, post, hs, -, hm⟩ := exists_split ht
  rw [setPhase, hm]
  intro t hmem
  rcases List.mem_append.1 hmem with hmem | hmem
  · exact h t (hs ▸ List.mem_append_left _ hmem)
  · rcases List.mem_cons.1 hmem with rfl | hmem
    · exact hnew
    · exact h t (hs ▸ List.mem_append_right _ (List.mem_cons_of_mem _ hmem))

/-- What does not depend on the phase of a store is the same for the whole queue.  It is used
for the revisions and for the roots of the tasks. -/
theorem map_setPhase {α : Type} (f : PersistenceTask → α) (hf : ∀ t phase, f { t with phase } = f t)
    (db : Database) (index : ℕ) (phase : TaskPhase) :
    (db.setPhase index phase).tasks.map f = db.tasks.map f := by
  refine List.ext_getElem? fun j => ?_
  rw [List.getElem?_map, tasks_setPhase, List.getElem?_map, Option.map_map]
  congr 1
  funext t
  dsimp only [Function.comp_apply]
  split_ifs
  · exact hf t phase
  · rfl

/-- A task that can start has only finished ones before it.  The one directly before it is
finished by the check, and the others by the order. -/
theorem finished_of_isReady {pre post : List PersistenceTask} (ho : QueueOrder db.tasks)
    (hs : db.tasks = pre ++ task :: post) (hr : db.isReady pre.length) :
    ∀ a ∈ pre, a.phase.outcome.isSome := by
  rcases List.eq_nil_or_concat pre with rfl | ⟨init, last, rfl⟩
  · simp
  · have hlast : last.phase.outcome.isSome := by
      have hget : db.tasks[init.length]? = some last := by simp [hs]
      rw [List.length_concat] at hr
      simpa [isReady, finished, hget] using hr
    have hne : last.phase ≠ .queued := fun hq => by rw [hq] at hlast; cases hlast
    rw [List.concat_eq_append] at hs ⊢
    rw [hs, List.append_assoc] at ho
    intro a ha
    rcases List.mem_append.1 ha with ha | ha
    · exact ho.finished_before hne a ha
    · rwa [List.mem_singleton.1 ha]

namespace QueueInvariant

/-- The queue of a database that was just opened is empty. -/
theorem start (options : DatabaseOptions) (root : Root) (stored : Option SnapshotEnvelope) :
    QueueInvariant options (.start options root stored) where
  order := .nil
  pending := le_rfl
  limit := Nat.zero_le _
  entries _ _ h := by cases h

/-- Only the queue and its books matter.  The lifecycle state, the history and the events are
free to change. -/
theorem congr (h : QueueInvariant options db) (tasks : db'.tasks = db.tasks)
    (pending : db'.pendingPersistence = db.pendingPersistence)
    (entries : db'.persistenceByRevision = db.persistenceByRevision) :
    QueueInvariant options db' where
  order := tasks ▸ h.order
  pending := by rw [tasks, pending]; exact h.pending
  limit := pending ▸ h.limit
  entries := by rw [tasks, entries]; exact h.entries

/-- What leaves storage alone leaves the queue. -/
theorem quiet {kind : DatabaseEvent → Bool} (h : QueueInvariant options db)
    (hq : db.Quiet kind db') : QueueInvariant options db' :=
  h.congr hq.tasks hq.pendingPersistence hq.persistenceByRevision

/-- A publication leaves the queue. -/
theorem publish (h : QueueInvariant options db) (committed : Committed) :
    QueueInvariant options (db.publish committed) := by
  unfold Database.publish
  split
  · exact h
  · exact h.congr rfl rfl rfl

/-- **A store that is queued comes last and is on the books**; where the queue is full, nothing
is queued. -/
theorem persist (h : QueueInvariant options db) (ha : options.adapter) (receipt : CommitReceipt) :
    QueueInvariant options (db.persist options receipt).1 := by
  have hspec := persist_spec ha db receipt
  generalize db.persist options receipt = result at hspec
  cases hspec with
  | coalesced index entry => exact h
  | full entry limit => exact h.congr rfl rfl rfl
  | broken entry limit clone error =>
      exact ⟨h.order, Nat.le_succ_of_le h.pending, limit, h.entries⟩
  | queued entry limit collections clone =>
      refine ⟨h.order.concat rfl, ?_, limit, fun revision index hi => ?_⟩
      · have := h.pending
        simp only [queue, List.countP_append, List.countP_singleton]
        split_ifs <;> omega
      · simp only [queue] at hi ⊢
        rw [OrderedMap.get?_set] at hi
        split_ifs at hi with hrev
        · obtain rfl := Option.some.inj hi
          exact ⟨_, List.getElem?_concat_length .., hrev, rfl⟩
        · obtain ⟨task, ht, hrest⟩ := h.entries revision index hi
          refine ⟨task, ?_, hrest⟩
          rw [List.getElem?_append_left (List.getElem?_eq_some_iff.1 ht).1]
          exact ht

/-- A flush keeps the queue in order. -/
theorem flushNow (h : QueueInvariant options db) (id : JsString) :
    QueueInvariant options (db.flushNow options id).1 := by
  rcases flushNow_cases options db id with ⟨ha, -, he⟩ | ⟨-, he⟩
  · rw [he]
    exact h.persist ha _
  · rwa [he]

/-- A call of `close` keeps the queue in order.  It queues one store at most, as a flush
does. -/
theorem close (h : QueueInvariant options db) (id : JsString) :
    QueueInvariant options (db.close options id) := by
  rcases close_cases options db id with he | ⟨-, -, he⟩
  · rwa [he]
  · have hclosing : QueueInvariant options { db with state := .closing } := h.congr rfl rfl rfl
    have hflush : QueueInvariant options
        ({ db with state := .closing }.flushDuringClose options id).1 := by
      unfold flushDuringClose
      split_ifs
      · exact hclosing
      · exact hclosing.flushNow id
    rw [he]
    exact hflush.congr rfl rfl rfl

/-- Moving on a store that stays on the books.  A queued task may be moved only when it is
ready; the count and the entries do not see the phase. -/
theorem setPhase (h : QueueInvariant options db) (ht : db.tasks[index]? = some task)
    (phase : TaskPhase) (hold : task.phase.isUnfinished) (hnew : phase.isUnfinished)
    (hready : task.phase = .queued → db.isReady index) :
    QueueInvariant options (db.setPhase index phase) := by
  refine ⟨?_, ?_, h.limit, fun revision i hi => ?_⟩
  · obtain ⟨pre, post, hs, rfl, hm⟩ := exists_split ht
    have ho := h.order
    rw [Database.setPhase, hm]
    rw [hs] at ho
    refine ho.replace (fun _ hq => ?_) fun hsome => ?_
    · exact finished_of_isReady h.order hs (hready hq)
    · rw [TaskPhase.isUnfinished, Option.isNone_iff_eq_none] at hold
      rw [hold] at hsome
      cases hsome
  · obtain ⟨pre, post, hs, -, hm⟩ := exists_split ht
    have hp := h.pending
    rw [hs] at hp
    rw [Database.setPhase, hm]
    simpa [List.countP_append, List.countP_cons, hold, hnew] using hp
  · obtain ⟨t, hti, hrev, hun⟩ := h.entries revision i hi
    rw [tasks_setPhase, hti]
    refine ⟨_, rfl, ?_⟩
    split_ifs
    · exact ⟨hrev, hnew⟩
    · exact ⟨hrev, hun⟩

/-- A store that starts keeps the queue in order: those before it are finished. -/
theorem startStore (h : QueueInvariant options db)
    (hs : db.startStore options index = some db') : QueueInvariant options db' := by
  obtain ⟨task, ht, hq, hready, rfl⟩ := startStore_eq_some hs
  refine (h.setPhase ht (.storing _) ?_ rfl fun _ => hready).congr rfl rfl rfl
  rw [hq]; rfl

/-- A store that is answered keeps the queue in order.  Its task stays on the books until its
last turn, so nothing is counted yet. -/
theorem settleStore (h : QueueInvariant options db) {outcome : StoreOutcome}
    (hs : db.settleStore options index outcome = some db') : QueueInvariant options db' := by
  obtain ⟨task, snapshot, ht, hp, hcases⟩ := settleStore_eq_some hs
  have hold : task.phase.isUnfinished := by rw [hp]; rfl
  have hready : task.phase = .queued → db.isReady index := fun hq => by rw [hp] at hq; cases hq
  rcases hcases with ⟨rfl, -⟩ | ⟨a, -, -, rfl⟩
  · exact (h.setPhase ht (.settled _) hold rfl hready).congr rfl rfl rfl
  · exact (h.setPhase ht (.settled _) hold rfl hready).congr rfl rfl rfl

/-- **A store that ends leaves the books**, and the queue in order.  The counter goes down with
it, and what waited behind it may start. -/
theorem finishStore (h : QueueInvariant options db)
    (hs : db.finishStore index = some db') : QueueInvariant options db' := by
  obtain ⟨task, error, ht, hp, rfl⟩ := finishStore_eq_some hs
  obtain ⟨pre, post, hsplit, -, hm⟩ := exists_split ht
  have hpending := h.pending
  have ho := h.order
  rw [hsplit] at hpending ho
  refine ⟨?_, ?_, (Nat.sub_le ..).trans h.limit, fun revision i hi => ?_⟩
  · show QueueOrder (db.tasks.modify index _)
    rw [hm]
    exact ho.replace (fun _ hq => by rw [hp] at hq; cases hq) fun _ => rfl
  · show List.countP _ (db.tasks.modify index _) ≤ _
    rw [hm]
    simp only [List.countP_append, List.countP_cons, hp, TaskPhase.isUnfinished,
      TaskPhase.outcome, Option.isNone_none, Option.isNone_some, if_true, Bool.false_eq_true,
      if_false, Nat.add_zero] at hpending ⊢
    omega
  · -- the entry of the finished store is gone, so the others lead elsewhere
    have hentry : db.persistenceByRevision.get? revision = some i ∧ index ≠ i := by
      dsimp only at hi
      split_ifs at hi with hmine
      · rw [OrderedMap.get?_delete] at hi
        split_ifs at hi with hrev
        refine ⟨hi, ?_⟩
        rintro rfl
        obtain ⟨t, hti, htr, -⟩ := h.entries revision index hi
        rw [ht] at hti
        obtain rfl := Option.some.inj hti
        exact hrev htr
      · refine ⟨hi, ?_⟩
        rintro rfl
        obtain ⟨t, hti, htr, -⟩ := h.entries revision index hi
        rw [ht] at hti
        obtain rfl := Option.some.inj hti
        rw [htr] at hmine
        exact hmine hi
    obtain ⟨hget, hne⟩ := hentry
    obtain ⟨t, hti, hrest⟩ := h.entries revision i hget
    refine ⟨t, ?_, hrest⟩
    show (db.setPhase index (.finished error)).tasks[i]? = some t
    rw [tasks_setPhase, hti, Option.map_some, if_neg hne]

end QueueInvariant

/-! ### What only grows -/

/-- A later database: the queue only grew and stores keep their labels, and so did
the history. -/
structure Later (db db' : Database) : Prop where
  tasks : ∀ (index : ℕ) (task : PersistenceTask), db.tasks[index]? = some task →
    ∃ task', db'.tasks[index]? = some task' ∧ task'.receipt = task.receipt
  history : ∃ events, db'.history = events ++ db.history

namespace Later

/-- A database is a later one of itself. -/
theorem refl (db : Database) : db.Later db :=
  ⟨fun _ task ht => ⟨task, ht, rfl⟩, [], rfl⟩

/-- With the same queue and more events a database is later. -/
theorem of_same (tasks : db'.tasks = db.tasks) (events : List DatabaseEvent)
    (history : db'.history = events ++ db.history) : db.Later db' :=
  ⟨fun _ task ht => ⟨task, tasks ▸ ht, rfl⟩, events, history⟩

/-- Later than later is later. -/
theorem trans {db'' : Database} (h : db.Later db') (h' : db'.Later db'') : db.Later db'' := by
  obtain ⟨events, he⟩ := h.history
  obtain ⟨events', he'⟩ := h'.history
  refine ⟨fun i task ht => ?_, events' ++ events, by rw [he', he, List.append_assoc]⟩
  obtain ⟨task', ht', hr⟩ := h.tasks i task ht
  obtain ⟨task'', ht'', hr'⟩ := h'.tasks i task' ht'
  exact ⟨task'', ht'', hr'.trans hr⟩

/-- What leaves storage alone leads to a later database. -/
theorem quiet {kind : DatabaseEvent → Bool} (h : db.Quiet kind db') : db.Later db' := by
  obtain ⟨events, he, -⟩ := h.history
  exact of_same h.tasks events he

/-- A publication leads to a later database. -/
theorem publish (db : Database) (committed : Committed) : db.Later (db.publish committed) := by
  unfold Database.publish
  split
  · exact refl db
  · exact of_same rfl [_] rfl

/-- To queue a store leads to a later database.  It puts a task behind the others, or finds that
it need not or may not. -/
theorem persist (ha : options.adapter) (db : Database) (receipt : CommitReceipt) :
    db.Later (db.persist options receipt).1 := by
  have hspec := persist_spec ha db receipt
  generalize db.persist options receipt = result at hspec
  cases hspec with
  | coalesced index entry => exact refl db
  | full entry limit => exact of_same rfl [] rfl
  | broken entry limit clone error => exact of_same rfl [] rfl
  | queued entry limit collections clone =>
      refine ⟨fun i task ht => ⟨task, ?_, rfl⟩, [_], rfl⟩
      exact (List.getElem?_append_left (List.getElem?_eq_some_iff.1 ht).1).trans ht

/-- A flush leads to a later database. -/
theorem flushNow (db : Database) (id : JsString) : db.Later (db.flushNow options id).1 := by
  rcases flushNow_cases options db id with ⟨ha, -, he⟩ | ⟨-, he⟩
  · rw [he]; exact persist ha db _
  · rw [he]; exact refl db

/-- A call of `close` leads to a later database.  Its flush queues a store at most, and the
state is none of what is compared. -/
theorem close (db : Database) (id : JsString) : db.Later (db.close options id) := by
  rcases close_cases options db id with he | ⟨-, -, he⟩
  · rw [he]; exact refl db
  · rw [he]
    have hclosing : db.Later { db with state := .closing } := of_same rfl [] rfl
    have hflush : Later { db with state := .closing }
        ({ db with state := .closing }.flushDuringClose options id).1 := by
      unfold flushDuringClose
      split_ifs
      · exact refl _
      · exact flushNow _ id
    exact (hclosing.trans hflush).trans (of_same rfl [] rfl)

/-- To move a store on leads to a later database. -/
theorem setPhase (db : Database) (index : ℕ) (phase : TaskPhase) :
    db.Later (db.setPhase index phase) := by
  refine ⟨fun i task ht => ?_, [], rfl⟩
  rw [tasks_setPhase, ht]
  refine ⟨_, rfl, ?_⟩
  split_ifs <;> rfl

/-- A store that starts leads to a later database. -/
theorem startStore (h : db.startStore options index = some db') : db.Later db' := by
  obtain ⟨task, -, -, -, rfl⟩ := startStore_eq_some h
  exact (setPhase db index _).trans (of_same rfl [_] rfl)

/-- A store that is answered leads to a later database. -/
theorem settleStore {outcome : StoreOutcome}
    (h : db.settleStore options index outcome = some db') : db.Later db' := by
  obtain ⟨task, snapshot, -, -, ⟨rfl, -⟩ | ⟨a, -, -, rfl⟩⟩ := settleStore_eq_some h
  · exact (setPhase db index _).trans (of_same rfl [_] rfl)
  · exact (setPhase db index _).trans (of_same rfl [_] rfl)

/-- A store that ends leads to a later database. -/
theorem finishStore (h : db.finishStore index = some db') : db.Later db' := by
  obtain ⟨task, error, -, -, rfl⟩ := finishStore_eq_some h
  exact (setPhase db index _).trans (of_same rfl [] rfl)

/-- To close the adapter leads to a later database. -/
theorem closeAdapter (h : db.closeAdapter options = some db') : db.Later db' := by
  obtain ⟨waiting, failure, -, -, rfl⟩ := closeAdapter_eq_some h
  split_ifs
  · exact of_same rfl [_] rfl
  · exact of_same rfl [] rfl

/-- The end of a close leads to a later database. -/
theorem finishClose {failure : Option NewtonError} (h : db.finishClose failure = some db') :
    db.Later db' := by
  obtain ⟨previous, -, rfl⟩ := finishClose_eq_some h
  exact of_same rfl [_] rfl

end Later

end Database

/-- **The queue of stores is in order in every step.**  One case for each effect: a store is
queued, starts, is answered or ends, or the queue is left as it is. -/
theorem Runtime.StorageEffect.queueInvariant {options : DatabaseOptions} {r : Runtime}
    {label : Label} {db : Database} (he : r.StorageEffect options label db)
    (h : r.database.QueueInvariant options) : db.QueueInvariant options := by
  cases he with
  | quiet hq => exact h.quiet hq
  | commit t committed _ _ _ hq => exact (h.publish committed).quiet hq
  | persist handle call receipt rest _ _ ha _ =>
      have hrecord : (r.database.record (.committed handle
          (r.receiptOf handle receipt))).QueueInvariant options := h.congr rfl rfl rfl
      exact hrecord.persist ha (r.receiptOf handle receipt)
  | flush id _ => exact h.flushNow id
  | close id => exact h.close id
  | startStore index hs => exact h.startStore hs
  | settleStore index outcome hs => exact h.settleStore hs
  | finishStore index hs => exact h.finishStore hs
  | closeAdapter hs =>
      obtain ⟨waiting, failure, -, -, rfl⟩ := Database.closeAdapter_eq_some hs
      split_ifs
      · exact h.congr rfl rfl rfl
      · exact h.congr rfl rfl rfl
  | finishClose failure hs =>
      obtain ⟨_, -, rfl⟩ := Database.finishClose_eq_some hs
      exact h.congr rfl rfl rfl

/-- **Every step only adds to the queue and to the history.**  Labels stay, roots do not go
back, and nothing is taken off the record; what waits relies on that. -/
theorem Runtime.StorageEffect.later {options : DatabaseOptions} {r : Runtime} {label : Label}
    {db : Database}
    (h : r.StorageEffect options label db) : r.database.Later db := by
  cases h with
  | quiet hq => exact .quiet hq
  | commit t committed _ _ _ hq => exact (Database.Later.publish _ committed).trans (.quiet hq)
  | persist handle call receipt rest _ _ ha _ =>
      have hrecord : r.database.Later (r.database.record (.committed handle
          (r.receiptOf handle receipt))) := .of_same rfl [_] rfl
      exact hrecord.trans (.persist ha _ (r.receiptOf handle receipt))
  | flush id _ => exact .flushNow _ id
  | close id => exact .close _ id
  | startStore index hs => exact .startStore hs
  | settleStore index outcome hs => exact .settleStore hs
  | finishStore index hs => exact .finishStore hs
  | closeAdapter hs => exact .closeAdapter hs
  | finishClose failure hs => exact .finishClose hs

end NewtonDB
