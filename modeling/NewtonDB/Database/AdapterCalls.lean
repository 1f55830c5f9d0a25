/-
# The calls to the adapter

What an adapter may rely on, read off the history of its database: one store at a
time, each on top of the generation acknowledged last, no more stores waiting
than the limit allows, and one close at the end, when nothing waits or is under
way.  `disciplined` says it of a history.

Closing can break it.  When the queue is full, `close` does not wait for it, and
a store queued after `close` was called is not waited for either
(`close_over_full_queue`).  Otherwise the discipline holds in every run
(`adapter_calls_disciplined`).
-/

import NewtonDB.Database.Programs
import NewtonDB.Database.Queue
import NewtonDB.Store.Scripts

namespace NewtonDB

/-! ### The discipline -/

/-- What the calls to an adapter so far amount to: the stores it has not answered,
the stores queued and not answered, the generation acknowledged last, and how
often it was closed. -/
@[ext]
structure Ledger where
  inFlight : ℕ
  unfinished : ℕ
  generation : ℕ
  closes : ℕ
  deriving DecidableEq

namespace Ledger

/-- One more event. -/
def after (l : Ledger) : DatabaseEvent → Ledger
  | .queued _ => { l with unfinished := l.unfinished + 1 }
  | .store .. => { l with inFlight := l.inFlight + 1 }
  | .acknowledged _ a =>
      { l with
        inFlight := l.inFlight - 1
        unfinished := l.unfinished - 1
        generation := a.generation }
  | .failed _ => { l with inFlight := l.inFlight - 1, unfinished := l.unfinished - 1 }
  | .adapterClose => { l with closes := l.closes + 1 }
  | _ => l

/-- The events an adapter can accept next. -/
def permits (limit : ℕ) (l : Ledger) : DatabaseEvent → Bool
  | .queued _ => l.unfinished < limit
  | .store snapshot expectedGeneration =>
      l.inFlight = 0 && l.closes = 0 && expectedGeneration = l.generation &&
        snapshot.generation = l.generation + 1
  | .adapterClose => l.closes = 0 && l.inFlight = 0 && l.unfinished = 0
  | _ => true

/-- An event that leaves storage alone leaves the books of its calls. -/
theorem after_quiet {e : DatabaseEvent} (h : e.isQuiet) (l : Ledger) : l.after e = l := by
  cases e <;> first | rfl | cases h

/-- An event that leaves storage alone is always permitted. -/
theorem permits_quiet {e : DatabaseEvent} (h : e.isQuiet) (limit : ℕ) (l : Ledger) :
    l.permits limit e := by
  cases e <;> first | rfl | cases h

end Ledger

/-- The ledger of a history, over the generation the database was loaded with. -/
def ledger (loaded : ℕ) : List DatabaseEvent → Ledger
  | [] => ⟨0, 0, loaded, 0⟩
  | e :: earlier => (ledger loaded earlier).after e

/-- **The adapter was called as it can rely on**: every event was permitted by those
before it. -/
def disciplined (limit loaded : ℕ) : List DatabaseEvent → Bool
  | [] => true
  | e :: earlier => disciplined limit loaded earlier && (ledger loaded earlier).permits limit e

/-- Events that leave storage alone leave the books as they were. -/
theorem ledger_append {events history : List DatabaseEvent} (h : ∀ e ∈ events, e.isQuiet)
    (loaded : ℕ) : ledger loaded (events ++ history) = ledger loaded history := by
  induction events with
  | nil => rfl
  | cons e events ih =>
      rw [List.cons_append, ledger, Ledger.after_quiet (h e (List.mem_cons_self ..))]
      exact ih fun e' he' => h e' (List.mem_cons_of_mem _ he')

/-- Events that leave storage alone break no discipline.  A quiet event is neither a call of the
adapter nor an answer of it, so the ledger permits it as it stands. -/
theorem disciplined_append {events history : List DatabaseEvent} (h : ∀ e ∈ events, e.isQuiet)
    {limit loaded : ℕ} (hd : disciplined limit loaded history) :
    disciplined limit loaded (events ++ history) := by
  induction events with
  | nil => exact hd
  | cons e events ih =>
      rw [List.cons_append, disciplined, Bool.and_eq_true]
      exact ⟨ih fun e' he' => h e' (List.mem_cons_of_mem _ he'),
        Ledger.permits_quiet (h e (List.mem_cons_self ..)) ..⟩

/-! ### The condition -/

/-- Closing waits for the last store of the queue: if storage is behind, a store of
the current revision is last in the queue or can be queued. -/
def Database.closesBehindQueue (options : DatabaseOptions) (db : Database) : Bool :=
  !options.adapter || db.root.revision ≤ db.persistedRevision ||
    match db.persistenceByRevision.get? db.root.revision with
    | some index => index + 1 = db.tasks.length
    | none => db.pendingPersistence < options.persistenceLimits.maxPendingSnapshots

/-- A step that keeps the discipline: `close` waits for the last store, and after it
nothing is queued any more. -/
def Runtime.keepsDiscipline (options : DatabaseOptions) (r : Runtime) : Label → Bool
  | .close _ => r.database.closePromise.isSome || r.database.closesBehindQueue options
  | .flush _ =>
      r.database.closePromise.isNone || !r.database.assertOpen.isOk ||
        !r.database.appends options r.database.root.revision
  | .resume =>
      match r.stack with
      | .committed _ (some call) receipt :: _ =>
          r.database.closePromise.isNone || !r.persists call ||
            !r.database.appends options receipt.revision
      | _ => true
  | _ => true

/-! ### The invariant -/

namespace Database

/-- `adapter.close` was called. -/
def adapterClosed (options : DatabaseOptions) (db : Database) : Bool :=
  options.adapter &&
    match db.closePromise with
    | some (.closingAdapter _) | some (.done _) => true
    | _ => false

/-- The ledger as the state of the database has it. -/
def ledger (options : DatabaseOptions) (db : Database) : Ledger where
  inFlight := db.tasks.countP (·.phase.isStoring)
  unfinished := db.tasks.countP (·.phase.isUnsettled)
  generation := db.generation
  closes := if db.adapterClosed options then 1 else 0

/-- A wait that ends only when the whole queue is off the books. -/
def Covers (db : Database) : Waiting → Prop
  | .resolved => db.tasks.length = 0
  | .rejected _ => False
  | .task index | .tail index => index + 1 = db.tasks.length

/-- The discipline with what keeps it. -/
structure AdapterInvariant (options : DatabaseOptions) (loaded : ℕ) (db : Database) : Prop where
  queue : db.QueueInvariant options
  ledger : NewtonDB.ledger loaded db.history = db.ledger options
  disciplined : disciplined options.persistenceLimits.maxPendingSnapshots loaded db.history
  covers : ∀ waiting, db.closePromise = some (.flushing waiting) → options.adapter →
    db.Covers waiting
  closed : db.adapterClosed options → ∀ task ∈ db.tasks, task.phase.outcome.isSome

variable {options : DatabaseOptions} {loaded : ℕ} {db db' : Database} {index : ℕ}
  {task : PersistenceTask}

/-- Moving one store on changes a count by that store.  It is stated without a subtraction, so
that the counts of stores in flight and of stores that wait are both instances of it. -/
theorem countP_setPhase (ht : db.tasks[index]? = some task) (phase : TaskPhase)
    (p : TaskPhase → Bool) :
    (db.setPhase index phase).tasks.countP (fun t => p t.phase) + (if p task.phase then 1 else 0) =
      db.tasks.countP (fun t => p t.phase) + (if p phase then 1 else 0) := by
  obtain ⟨pre, post, hs, -, hm⟩ := exists_split ht
  rw [setPhase, hm, hs]
  simp only [List.countP_append, List.countP_cons]
  omega

/-- Whether a wait covers the queue depends on the length of the queue. -/
theorem Covers.congr {waiting : Waiting} (h : db.Covers waiting)
    (hl : db'.tasks.length = db.tasks.length) : db'.Covers waiting := by
  unfold Covers at h ⊢
  rwa [hl]

/-- When the wait of `#performClose` is over, the whole queue is off the books.  The close waits
for the last store that was queued, and a store starts only when the one before it is off the
books. -/
theorem Covers.all_finished {waiting : Waiting} (h : db.Covers waiting)
    (ho : QueueOrder db.tasks) {failure : Option NewtonError}
    (hw : db.outcome waiting = some failure) : ∀ task ∈ db.tasks, task.phase.outcome.isSome := by
  have hindex : ∀ index, index + 1 = db.tasks.length → (db.finished index).isSome →
      ∀ task ∈ db.tasks, task.phase.outcome.isSome := by
    intro index hlast hf
    obtain ⟨error, hf⟩ := Option.isSome_iff_exists.1 hf
    obtain ⟨task, ht, he⟩ := Option.bind_eq_some_iff.1 hf
    exact ho.all_finished ht hlast (by rw [he]; rfl)
  cases waiting with
  | resolved =>
      rw [List.length_eq_zero_iff.1 h]
      simp
  | rejected error => exact h.elim
  | task index => exact hindex index h (by rw [show db.finished index = some failure from hw]; rfl)
  | tail index =>
      obtain ⟨error, he, -⟩ := Option.map_eq_some_iff.1 hw
      exact hindex index h (by rw [he]; rfl)

namespace AdapterInvariant

/-- The discipline holds of a database that was just opened: no call was made yet. -/
theorem start (options : DatabaseOptions) (root : Root) (stored : Option SnapshotEnvelope) :
    AdapterInvariant options (stored.elim 0 (·.generation)) (.start options root stored) where
  queue := .start options root stored
  ledger := by simp [NewtonDB.ledger, Ledger.after, Database.ledger, adapterClosed, Database.start]
  disciplined := rfl
  covers _ h := by cases h
  closed h := by simp [adapterClosed, Database.start] at h

/-- Only storage matters.  The queue, the generation and the phase of the close are as they
were, and what was put on record is no call of the adapter. -/
theorem quiet (h : AdapterInvariant options loaded db)
    (hq : db.Quiet DatabaseEvent.isQuiet db') : AdapterInvariant options loaded db' := by
  obtain ⟨events, hh, he⟩ := hq.history
  have hclosed : db'.adapterClosed options = db.adapterClosed options := by
    rw [adapterClosed, hq.closePromise]; rfl
  refine ⟨h.queue.quiet hq, ?_, ?_, fun waiting hw ha => ?_, fun hc task ht => ?_⟩
  · rw [hh, ledger_append he, h.ledger, Database.ledger, Database.ledger, hq.tasks, hq.generation,
      hclosed]
  · rw [hh]
    exact disciplined_append he h.disciplined
  · exact (h.covers waiting (hq.closePromise ▸ hw) ha).congr (by rw [hq.tasks])
  · exact h.closed (hclosed ▸ hc) task (hq.tasks ▸ ht)

/-- The lifecycle state and the root do not matter either. -/
theorem withState (h : AdapterInvariant options loaded db) (state : DatabaseState) :
    AdapterInvariant options loaded { db with state } :=
  ⟨h.queue.congr rfl rfl rfl, h.ledger, h.disciplined, h.covers, h.closed⟩

/-- A publication makes no call. -/
theorem publish (h : AdapterInvariant options loaded db) (committed : Committed) :
    AdapterInvariant options loaded (db.publish committed) := by
  unfold Database.publish
  split
  · exact h
  · refine ⟨h.queue.congr rfl rfl rfl, h.ledger, ?_, h.covers, h.closed⟩
    exact Bool.and_eq_true_iff.2 ⟨h.disciplined, rfl⟩

/-- A database that is not closing queues a store, or does not.  A closing database must not:
the store would end up behind the one that the close waits for. -/
theorem persist (h : AdapterInvariant options loaded db) (ha : options.adapter)
    (receipt : CommitReceipt) (hopen : db.closePromise = none ∨
      ((db.persistenceByRevision.get? receipt.revision).isSome ∨
        options.persistenceLimits.maxPendingSnapshots ≤ db.pendingPersistence)) :
    AdapterInvariant options loaded (db.persist options receipt).1 := by
  have hqueue := h.queue.persist ha receipt
  have hspec := persist_spec ha db receipt
  generalize db.persist options receipt = result at hspec hqueue
  cases hspec with
  | coalesced index entry => exact h
  | full entry limit => exact h.withState _
  | broken entry limit clone error => exact ⟨hqueue, h.ledger, h.disciplined, h.covers, h.closed⟩
  | queued entry limit collections clone =>
      have hnone : db.closePromise = none := by
        rcases hopen with hopen | hopen | hopen
        · exact hopen
        · rw [entry] at hopen; cases hopen
        · omega
      have hclosed : db.adapterClosed options = false := by
        rw [adapterClosed, hnone, Bool.and_false]
      refine ⟨hqueue, ?_, ?_, fun waiting hw => ?_, fun hc => ?_⟩
      · show (NewtonDB.ledger loaded db.history).after (.queued receipt) = _
        rw [h.ledger]
        refine Ledger.ext ?_ ?_ rfl rfl
        · show db.tasks.countP _ = (db.tasks ++ [_]).countP _
          rw [List.countP_append]; rfl
        · show db.tasks.countP _ + 1 = (db.tasks ++ [_]).countP _
          rw [List.countP_append]; rfl
      · have hle : db.tasks.countP (·.phase.isUnsettled) ≤ db.pendingPersistence :=
          (List.countP_mono_left fun _ _ => TaskPhase.isUnsettled_le).trans h.queue.pending
        refine Bool.and_eq_true_iff.2 ⟨h.disciplined, ?_⟩
        show (NewtonDB.ledger loaded db.history).permits _ _
        rw [h.ledger]
        exact decide_eq_true (hle.trans_lt limit)
      · cases (show db.closePromise = _ from hw).symm.trans hnone
      · have : db.adapterClosed options := hc
        rw [hclosed] at this
        cases this

/-- **A store that starts is permitted**: the one before it is off the books, it stands on the
generation acknowledged last, and the adapter was not closed. -/
theorem startStore (h : AdapterInvariant options loaded db)
    (hs : db.startStore options index = some db') : AdapterInvariant options loaded db' := by
  have hqueue := h.queue.startStore hs
  obtain ⟨task, ht, hq, hready, rfl⟩ := startStore_eq_some hs
  have hmem := List.mem_of_getElem? ht
  have hclosed : db.adapterClosed options = false := by
    by_contra hc
    have hf := h.closed (Bool.not_eq_false _ ▸ hc) task hmem
    rw [hq] at hf
    cases hf
  -- the earlier stores are off the books and the later ones still queued
  have hidle : db.tasks.countP (·.phase.isStoring) = 0 := by
    obtain ⟨pre, post, hsplit, rfl, -⟩ := exists_split ht
    have ho := h.queue.order
    have hpre := finished_of_isReady ho hsplit hready
    rw [hsplit] at ho ⊢
    have hpost := ho.queued_after (by rw [hq]; rfl)
    refine List.countP_eq_zero.2 fun t hm hstoring => ?_
    rcases List.mem_append.1 hm with hm | hm
    · rw [TaskPhase.isStoring_of_finished (hpre t hm)] at hstoring
      cases hstoring
    · rcases List.mem_cons.1 hm with rfl | hm
      · rw [hq] at hstoring; cases hstoring
      · rw [hpost t hm] at hstoring; cases hstoring
  have hstoring := countP_setPhase ht (.storing (db.snapshot options task)) TaskPhase.isStoring
  have hunsettled := countP_setPhase ht (.storing (db.snapshot options task)) TaskPhase.isUnsettled
  rw [hq] at hstoring hunsettled
  refine ⟨hqueue, ?_, ?_, fun waiting hw ha => ?_, fun hc => ?_⟩
  · show (NewtonDB.ledger loaded db.history).after (.store _ db.generation) = _
    rw [h.ledger]
    refine Ledger.ext ?_ ?_ rfl rfl
    · exact hstoring.symm
    · exact (Nat.add_right_cancel hunsettled).symm
  · refine Bool.and_eq_true_iff.2 ⟨h.disciplined, ?_⟩
    show (NewtonDB.ledger loaded db.history).permits _ _
    rw [h.ledger]
    simp [Ledger.permits, Database.ledger, hidle, hclosed, snapshot]
  · exact (h.covers waiting hw ha).congr (List.length_modify ..)
  · have : db.adapterClosed options := hc
    rw [hclosed] at this
    cases this

/-- The answer of the adapter takes its store out of the books, and may raise the generation.
There is a task in flight, so the adapter was not closed before; this is what `closed` of the
invariant is for. -/
theorem settleStore (h : AdapterInvariant options loaded db) {outcome : StoreOutcome}
    (hs : db.settleStore options index outcome = some db') :
    AdapterInvariant options loaded db' := by
  have hqueue := h.queue.settleStore hs
  obtain ⟨task, snapshot, ht, hp, hcases⟩ := settleStore_eq_some hs
  have hclosed : db.adapterClosed options = false := by
    by_contra hc
    have hf := h.closed (Bool.not_eq_false _ ▸ hc) task (List.mem_of_getElem? ht)
    rw [hp] at hf
    cases hf
  have hnot : ∀ {P : Prop}, db.adapterClosed options → P := fun hc => by
    rw [hclosed] at hc
    cases hc
  have hcounts : ∀ error, (db.setPhase index (.settled error)).tasks.countP (·.phase.isStoring) =
        db.tasks.countP (·.phase.isStoring) - 1 ∧
      (db.setPhase index (.settled error)).tasks.countP (·.phase.isUnsettled) =
        db.tasks.countP (·.phase.isUnsettled) - 1 := by
    intro error
    have hstoring := countP_setPhase ht (.settled error) TaskPhase.isStoring
    have hunsettled := countP_setPhase ht (.settled error) TaskPhase.isUnsettled
    rw [hp] at hstoring hunsettled
    exact ⟨Nat.eq_sub_of_add_eq hstoring, Nat.eq_sub_of_add_eq hunsettled⟩
  rcases hcases with ⟨rfl, -⟩ | ⟨a, -, -, rfl⟩
  · refine ⟨hqueue, ?_, ?_, fun waiting hw ha => ?_, fun hc => hnot hc⟩
    · show (NewtonDB.ledger loaded db.history).after (.failed snapshot) = _
      rw [h.ledger]
      exact Ledger.ext (hcounts _).1.symm (hcounts _).2.symm rfl rfl
    · exact Bool.and_eq_true_iff.2 ⟨h.disciplined, rfl⟩
    · exact (h.covers waiting hw ha).congr (List.length_modify ..)
  · refine ⟨hqueue, ?_, ?_, fun waiting hw ha => ?_, fun hc => hnot hc⟩
    · show (NewtonDB.ledger loaded db.history).after (.acknowledged snapshot a) = _
      rw [h.ledger]
      exact Ledger.ext (hcounts _).1.symm (hcounts _).2.symm rfl rfl
    · exact Bool.and_eq_true_iff.2 ⟨h.disciplined, rfl⟩
    · exact (h.covers waiting hw ha).congr (List.length_modify ..)

/-- A store that ends makes no call, and makes room in the queue.  The counts of the ledger are
those of the queue without the task, by `countP_setPhase`. -/
theorem finishStore (h : AdapterInvariant options loaded db)
    (hs : db.finishStore index = some db') : AdapterInvariant options loaded db' := by
  have hqueue := h.queue.finishStore hs
  obtain ⟨task, error, ht, hp, rfl⟩ := finishStore_eq_some hs
  have hstoring := countP_setPhase ht (.finished error) TaskPhase.isStoring
  have hunsettled := countP_setPhase ht (.finished error) TaskPhase.isUnsettled
  rw [hp] at hstoring hunsettled
  refine ⟨hqueue, ?_, h.disciplined, fun waiting hw ha => ?_, fun hc t hm => ?_⟩
  · show NewtonDB.ledger loaded db.history = _
    rw [h.ledger]
    exact Ledger.ext hstoring.symm hunsettled.symm rfl rfl
  · exact (h.covers waiting hw ha).congr (List.length_modify ..)
  · have hf := h.closed hc task (List.mem_of_getElem? ht)
    rw [hp] at hf
    cases hf

/-- **The adapter is closed once**, when the wait that covers the queue is over.  Nothing is in
flight or queued then, and a second call finds the close in a later phase. -/
theorem closeAdapter (h : AdapterInvariant options loaded db)
    (hs : db.closeAdapter options = some db') : AdapterInvariant options loaded db' := by
  obtain ⟨waiting, failure, hw, ho, rfl⟩ := closeAdapter_eq_some hs
  have hclosed : db.adapterClosed options = false := by rw [adapterClosed, hw, Bool.and_false]
  split_ifs with ha
  · have hall := (h.covers waiting hw ha).all_finished h.queue.order ho
    refine ⟨h.queue.congr rfl rfl rfl, ?_, ?_, fun _ hw' => ?_, fun _ => hall⟩
    · show (NewtonDB.ledger loaded db.history).after .adapterClose = _
      rw [h.ledger]
      refine Ledger.ext rfl rfl rfl ?_
      show (if db.adapterClosed options then 1 else 0) + 1 =
        if adapterClosed options { db with closePromise := some (.closingAdapter failure) } then 1
        else 0
      rw [hclosed, adapterClosed, ha]
      rfl
    · refine Bool.and_eq_true_iff.2 ⟨h.disciplined, ?_⟩
      show (NewtonDB.ledger loaded db.history).permits _ _
      have hstoring : db.tasks.countP (·.phase.isStoring) = 0 :=
        List.countP_eq_zero.2 fun t ht => by
          simp [TaskPhase.isStoring_of_finished (hall t ht)]
      have hunsettled : db.tasks.countP (·.phase.isUnsettled) = 0 :=
        List.countP_eq_zero.2 fun t ht => by
          simp [TaskPhase.isUnsettled_of_finished (hall t ht)]
      rw [h.ledger]
      simp [Ledger.permits, Database.ledger, hclosed, hstoring, hunsettled]
    · cases hw'
  · refine ⟨h.queue.congr rfl rfl rfl, ?_, h.disciplined, fun _ hw' => (by cases hw'),
      fun hc => ?_⟩
    · rw [h.ledger]
      exact Ledger.ext rfl rfl rfl (by simp [Database.ledger, adapterClosed, ha])
    · simp [adapterClosed, ha] at hc

/-- When the adapter was closed no further call is made.  The ledger has the close already, so
the end of `close` is not a call of its own. -/
theorem finishClose (h : AdapterInvariant options loaded db) {failure : Option NewtonError}
    (hs : db.finishClose failure = some db') : AdapterInvariant options loaded db' := by
  obtain ⟨previous, hp, rfl⟩ := finishClose_eq_some hs
  have hclosed : adapterClosed options
      { db with closePromise := some (.done (previous.or failure)) } = db.adapterClosed options := by
    rw [adapterClosed, adapterClosed, hp]
  refine ⟨h.queue.congr rfl rfl rfl, ?_, Bool.and_eq_true_iff.2 ⟨h.disciplined, rfl⟩,
    fun _ hw => (by cases hw), fun hc => h.closed ?_⟩
  · show (NewtonDB.ledger loaded db.history).after (.close _) = _
    rw [h.ledger]
    refine Ledger.ext rfl rfl rfl ?_
    show (if db.adapterClosed options then 1 else 0) = if adapterClosed options _ then 1 else 0
    rw [← hclosed]
    rfl
  · exact hclosed.symm.trans hc

/-- A flush of a database that is not closing, or that queues nothing. -/
theorem flushNow (h : AdapterInvariant options loaded db) (id : JsString)
    (hopen : db.closePromise = none ∨ db.appends options db.root.revision = false) :
    AdapterInvariant options loaded (db.flushNow options id).1 := by
  rcases flushNow_cases options db id with ⟨ha, hlt, he⟩ | ⟨-, he⟩
  · rw [he]
    exact h.persist ha _ (hopen.imp_right (appends_eq_false ha hlt))
  · rwa [he]

/-- **The flush of a close waits for the store that is last then**, where the condition
holds. -/
theorem flushDuringClose (h : AdapterInvariant options loaded db) (hnone : db.closePromise = none)
    (hroot : db.root.Invariant) (id : JsString) (hc : db.closesBehindQueue options) :
    AdapterInvariant options loaded (db.flushDuringClose options id).1 ∧
      (db.flushDuringClose options id).1.closePromise = none ∧
      (options.adapter →
        (db.flushDuringClose options id).1.Covers (db.flushDuringClose options id).2) := by
  unfold Database.flushDuringClose
  by_cases ha : options.adapter
  · rw [if_neg (by simpa using ha)]
    have hinv := h.flushNow id (.inl hnone)
    rcases flushNow_cases options db id with ⟨-, hlt, he⟩ | ⟨-, he⟩
    · have hspec := persist_spec ha db (db.flushReceipt options id)
      rw [he] at hinv ⊢
      generalize db.persist options (db.flushReceipt options id) = result at hspec hinv ⊢
      simp only [closesBehindQueue, ha, Bool.not_true, Bool.false_or, Bool.or_eq_true,
        decide_eq_true_eq, not_le.2 hlt, false_or] at hc
      cases hspec with
      | coalesced index entry =>
          rw [show db.persistenceByRevision.get? db.root.revision = _ from entry] at hc
          have hlast : index + 1 = db.tasks.length := of_decide_eq_true hc
          exact ⟨hinv, hnone, fun _ => hlast⟩
      | full entry limit =>
          rw [show db.persistenceByRevision.get? db.root.revision = _ from entry] at hc
          exact absurd (by simpa using hc) (not_lt.2 limit)
      | broken entry limit clone error =>
          obtain ⟨collections, hcl⟩ := hroot.exists_clone
          rw [clone] at hcl
          cases hcl
      | queued entry limit collections clone =>
          refine ⟨hinv, hnone, fun _ => ?_⟩
          show db.tasks.length + 1 = (db.tasks ++ [_]).length
          rw [List.length_append, List.length_singleton]
    · rw [he]
      refine ⟨h, hnone, fun _ => ?_⟩
      show db.Covers db.tail
      unfold tail Covers
      cases hl : db.tasks.length <;> rfl
  · rw [if_pos (by simpa using ha)]
    exact ⟨h, hnone, fun ha' => absurd ha' ha⟩

/-- **Closing waits for the whole queue**, where the condition holds.  The first call flushes,
and the store it waits for is the last one in the queue: so all that is queued is done when the
wait is over. -/
theorem close (h : AdapterInvariant options loaded db) (hroot : db.root.Invariant) (id : JsString)
    (hc : db.closePromise.isSome || db.closesBehindQueue options) :
    AdapterInvariant options loaded (db.close options id) := by
  rcases close_cases options db id with he | ⟨-, hnone, he⟩
  · rwa [he]
  rw [hnone, Option.isSome_none, Bool.false_or] at hc
  obtain ⟨hinv, hnone', hcovers⟩ := (h.withState .closing).flushDuringClose hnone hroot id hc
  rw [he]
  generalize { db with state := DatabaseState.closing }.flushDuringClose options id = result
    at hinv hnone' hcovers ⊢
  have hclosed : ∀ waiting, adapterClosed options
      { result.1 with closePromise := some (.flushing waiting) } = false := fun _ => Bool.and_false _
  refine ⟨hinv.queue.congr rfl rfl rfl, ?_, hinv.disciplined, fun waiting hw ha => ?_, fun hc => ?_⟩
  · show NewtonDB.ledger loaded result.1.history = _
    rw [hinv.ledger]
    refine Ledger.ext rfl rfl rfl ?_
    show (if result.1.adapterClosed options then 1 else 0) = if adapterClosed options _ then 1 else 0
    rw [hclosed, adapterClosed, hnone', Bool.and_false]
  · obtain rfl := ClosePhase.flushing.inj (Option.some.inj hw)
    exact (hcovers ha).congr rfl
  · rw [hclosed] at hc
    cases hc

end AdapterInvariant

end Database

/-! ### Every run -/

namespace Runtime

variable {options : DatabaseOptions} {loaded : ℕ} {r r' : Runtime} {label : Label}

/-- **A step that keeps the discipline keeps the invariant.**  The step is taken by its effect
on storage; only a first `close`, and what queues a store behind one, needs the condition. -/
theorem adapterInvariant_step (he : r.EngineInvariant)
    (h : r.database.AdapterInvariant options loaded) (hc : r.keepsDiscipline options label)
    (hs : r.step options label = some r') : r'.database.AdapterInvariant options loaded := by
  have heffect := step_storage hs
  generalize r'.database = db' at heffect
  cases heffect with
  | quiet hq => exact h.quiet hq
  | commit t committed _ _ _ hq => exact (h.publish committed).quiet hq
  | persist handle call receipt rest stack persists ha pending =>
      have hrecord : (r.database.record (.committed handle
          (r.receiptOf handle receipt))).AdapterInvariant options loaded := h.quiet (.record rfl _)
      refine hrecord.persist ha (r.receiptOf handle receipt) ?_
      rw [keepsDiscipline, stack] at hc
      simp only [persists, Bool.not_true, Bool.or_false, Bool.or_eq_true, Option.isNone_iff_eq_none,
        Bool.not_eq_true'] at hc
      exact hc.imp_right (Database.appends_eq_false ha pending)
  | flush id usable =>
      refine h.flushNow id ?_
      rw [keepsDiscipline, usable] at hc
      simpa [Except.isOk, Except.toBool] using hc
  | close id => exact h.close he.root id hc
  | startStore index hs => exact h.startStore hs
  | settleStore index outcome hs => exact h.settleStore hs
  | finishStore index hs => exact h.finishStore hs
  | closeAdapter hs => exact h.closeAdapter hs
  | finishClose failure hs => exact h.finishClose hs

section

variable {σ : Type} [DecidableEq σ] {graph : JsGraph σ}

/-- **The adapter is called as it can rely on**, in every run in which closing waits
for the last store of the queue and nothing is queued after it: one store at a
time, each on the generation acknowledged last, never more waiting than the limit,
and one close, when nothing is under way or waits, with no store after it. -/
theorem adapter_calls_disciplined {seed : List (JsString × List σ)}
    {schemas : List (JsString × CollectionSchema)} (stored : Option SnapshotEnvelope) {root : Root}
    (hroot : createRoot graph seed schemas (stored.elim 0 (·.revision)) = .ok root)
    {labels : List Label}
    (hrun : Transition.Run (step options) (fun r label => r.keepsDiscipline options label)
      (start options root stored) labels r) :
    disciplined options.persistenceLimits.maxPendingSnapshots (stored.elim 0 (·.generation))
      r.database.history := by
  have hinv : r.EngineInvariant ∧
      r.database.AdapterInvariant options (stored.elim 0 (·.generation)) := by
    refine hrun.invariant (P := fun r => r.EngineInvariant ∧
      r.database.AdapterInvariant options (stored.elim 0 (·.generation)))
      ⟨.start (createRoot_invariant hroot).1 stored, .start options root stored⟩ ?_
    rintro r label r' ⟨hengine, hadapter⟩ hc hs
    exact ⟨hengine.step hs, adapterInvariant_step hengine hadapter hc hs⟩
  exact hinv.2.disciplined

end

/-- A commit is stored while the database closes.  The run keeps the discipline, so the theorem
applies to it: the adapter is closed when its one store is done. -/
theorem commit_and_close_disciplined : ∃ r : Runtime,
    r.database.state = .closed ∧ disciplined 1 0 r.database.history := by
  obtain ⟨root, r, hroot, hr⟩ := exists_run (f := fun root =>
    (Transition.checked (step (notesOptions 1 8)) (keepsDiscipline (notesOptions 1 8))
      (start (notesOptions 1 8) root none)
      [.transaction none false (js "t") 0, addNote 0 "a", .returns 0, .resume, .startStore 0,
        .close (js "c"), .settleStore 0 (storedNotes 1 1), .finishStore 0, .wake 0, .closeAdapter,
        .finishClose none]).filter (·.database.state = .closed)) (by decide +kernel)
  obtain ⟨hrun, hclosed⟩ := Option.filter_eq_some_iff.1 hr
  exact ⟨r, of_decide_eq_true hclosed,
    adapter_calls_disciplined none hroot (Transition.checked_sound hrun)⟩

/-- **Closing over a full queue closes the adapter during a store.**  The queue holds one store,
a later commit is not persisted, and `close` cannot queue it.  `close` goes straight on to the
adapter, whose store is still in flight. -/
theorem close_over_full_queue :
    (noNotes.toOption.bind fun root => Transition.run (step (notesOptions 1 8))
      (start (notesOptions 1 8) root none)
      [.transaction none false (js "t") 0, addNote 0 "a", .returns 0, .resume, .startStore 0,
        .beginTransaction (js "u") 0, addNote 1 "b", .commit 1 0, .resume,
        .close (js "c"), .closeAdapter]).map
      (fun r => disciplined 1 0 r.database.history) = some false := by
  decide +kernel

end Runtime

end NewtonDB
