/-
# What a step does to the program

`Effect` lists what a step does to storage; `Move` lists what it does to all the
rest: the call stack, the calls that are under way, the transactions and the event
queue.  It is `Runtime.step` case by case, with the guards of each case and the
state it leads to (`Runtime.step_move`).
-/

import NewtonDB.Database.Programs

namespace NewtonDB

/-- A hook of the user: it returns to the code below it. -/
def Frame.isHook : Frame → Bool
  | .overflow _ | .reporter => true
  | _ => false

/-- An event that is not about batches. -/
def DatabaseEvent.isUnbatched : DatabaseEvent → Bool
  | .published _ | .overflow _ | .dispatched .. | .delivered .. => false
  | _ => true

/-- An event that is neither about batches nor about the promise of a `transaction`. -/
def DatabaseEvent.isPlain : DatabaseEvent → Bool
  | .transaction .. => false
  | e => e.isUnbatched

/-- An event that settles no call is about no batch. -/
theorem DatabaseEvent.isUnbatched_of_isPlain {e : DatabaseEvent} (h : e.isPlain) :
    e.isUnbatched := by
  cases e <;> first | rfl | cases h

namespace Database

/-- The event queue and the listeners are as they were, and there are only events of a
kind. -/
structure SameEvents (kind : DatabaseEvent → Bool) (db db' : Database) : Prop where
  eventQueue : db'.eventQueue = db.eventQueue
  eventQueueChanges : db'.eventQueueChanges = db.eventQueueChanges
  dispatchScheduled : db'.dispatchScheduled = db.dispatchScheduled
  listenerId : db'.listenerId = db.listenerId
  listeners : db'.listeners = db.listeners
  history : ∃ events, db'.history = events ++ db.history ∧ ∀ e ∈ events, kind e

variable {options : DatabaseOptions} {db db' db'' : Database} {kind kind' : DatabaseEvent → Bool}

namespace SameEvents

/-- To do nothing leaves the events. -/
theorem refl (db : Database) : db.SameEvents kind db :=
  ⟨rfl, rfl, rfl, rfl, rfl, [], rfl, by simp⟩

/-- To put an event of a kind on record leaves the queue of events. -/
theorem record {event : DatabaseEvent} (h : kind event) (db : Database) :
    db.SameEvents kind (db.record event) := ⟨rfl, rfl, rfl, rfl, rfl, [event], rfl, by simpa using h⟩

/-- One event, and nothing else that matters here.  The fields that matter are those that
`SameEvents` compares. -/
theorem of_event {event : DatabaseEvent} (h : kind event)
    (eventQueue : db'.eventQueue = db.eventQueue)
    (eventQueueChanges : db'.eventQueueChanges = db.eventQueueChanges)
    (dispatchScheduled : db'.dispatchScheduled = db.dispatchScheduled)
    (listenerId : db'.listenerId = db.listenerId) (listeners : db'.listeners = db.listeners)
    (history : db'.history = event :: db.history) : db.SameEvents kind db' :=
  ⟨eventQueue, eventQueueChanges, dispatchScheduled, listenerId, listeners, [event], history,
    by simpa using h⟩

/-- What leaves the events, but for some kinds, does so for more of them. -/
theorem mono (h : db.SameEvents kind db') (hle : ∀ e, kind e → kind' e) :
    db.SameEvents kind' db' := by
  obtain ⟨events, hh, he⟩ := h.history
  exact ⟨h.eventQueue, h.eventQueueChanges, h.dispatchScheduled, h.listenerId, h.listeners, events,
    hh, fun e hm => hle e (he e hm)⟩

/-- What leaves the events twice leaves them.  The events of the second are on record above
those of the first. -/
theorem trans (h : db.SameEvents kind db') (h' : db'.SameEvents kind db'') :
    db.SameEvents kind db'' := by
  obtain ⟨events, hh, he⟩ := h.history
  obtain ⟨events', hh', he'⟩ := h'.history
  refine ⟨h'.eventQueue.trans h.eventQueue, h'.eventQueueChanges.trans h.eventQueueChanges,
    h'.dispatchScheduled.trans h.dispatchScheduled, h'.listenerId.trans h.listenerId,
    h'.listeners.trans h.listeners, events' ++ events, by rw [hh', hh, List.append_assoc],
    fun e hm => ?_⟩
  exact (List.mem_append.1 hm).elim (he' e) (he e)

/-- To queue a store leaves the queue of events.  At most it puts on record that a store was
queued. -/
theorem persist (db : Database) (receipt : CommitReceipt) :
    db.SameEvents DatabaseEvent.isPlain (db.persist options receipt).1 := by
  by_cases ha : options.adapter
  · have hspec := persist_spec ha db receipt
    generalize db.persist options receipt = result at hspec
    cases hspec with
    | coalesced | full | broken => exact ⟨rfl, rfl, rfl, rfl, rfl, [], rfl, by simp⟩
    | queued => exact of_event rfl rfl rfl rfl rfl rfl rfl
  · rw [persist_of_no_adapter ha]
    exact refl db

/-- A flush leaves the queue of events. -/
theorem flushNow (db : Database) (id : JsString) :
    db.SameEvents DatabaseEvent.isPlain (db.flushNow options id).1 := by
  rcases flushNow_cases options db id with ⟨-, -, he⟩ | ⟨-, he⟩
  · rw [he]
    exact persist db _
  · rw [he]
    exact refl db

/-- A call of `close` leaves the queue of events.  Its flush may queue a store, and the event
queue is dispatched after a close as before. -/
theorem close (db : Database) (id : JsString) :
    db.SameEvents DatabaseEvent.isPlain (db.close options id) := by
  rcases close_cases options db id with he | ⟨-, -, he⟩
  · rw [he]
    exact refl db
  · have hclosing : db.SameEvents DatabaseEvent.isPlain { db with state := .closing } :=
      ⟨rfl, rfl, rfl, rfl, rfl, [], rfl, by simp⟩
    have hflush : db.SameEvents DatabaseEvent.isPlain
        ({ db with state := .closing }.flushDuringClose options id).1 := by
      refine hclosing.trans ?_
      unfold flushDuringClose
      split_ifs
      · exact refl _
      · exact flushNow _ id
    rw [he]
    exact hflush.trans ⟨rfl, rfl, rfl, rfl, rfl, [], rfl, by simp⟩

end SameEvents

end Database

namespace Runtime

/-- **How a commit goes**: it is refused, it fails, or it succeeds. -/
inductive Committing (options : DatabaseOptions) (r : Runtime) (handle now : ℕ)
    (caller : Option ℕ) : Runtime → Prop
  | refused (t : Transaction) (error : NewtonError) (known : r.transactions[handle]? = some t)
      (refusal : (t.assertActive >>= fun _ => t.assertWithinLimits now) = .error error) :
      Committing options r handle now caller (r.throwFromCommit caller error)
  | failed (t : Transaction) (error : NewtonError) (known : r.transactions[handle]? = some t)
      (admitted : (t.assertActive >>= fun _ => t.assertWithinLimits now) = .ok ())
      (failure : (r.database.assertOpen >>= fun _ => r.database.root.commit options.commit t) =
        .error error) :
      Committing options r handle now caller
        ({ r with transactions := r.transactions.set handle { t with status := .rolledBack } }
          |>.throwFromCommit caller error)
  | succeeded (t : Transaction) (committed : Committed) (known : r.transactions[handle]? = some t)
      (admitted : (t.assertActive >>= fun _ => t.assertWithinLimits now) = .ok ())
      (usable : r.database.assertOpen = .ok ())
      (ok : r.database.root.commit options.commit t = .ok committed) :
      Committing options r handle now caller (r.publish options handle caller committed)

/-- A commit after its hooks: the transaction is committed. -/
def afterHooks (r : Runtime) (handle : ℕ) (receipt : CommitReceipt) : Runtime :=
  { r with
    transactions := r.transactions.modify handle ({ · with status := .committed })
    database := r.database.record (.committed handle (r.receiptOf handle receipt)) }

/-- The callback of a `transaction` is off the stack. -/
def endCallback (r : Runtime) (rest : List Frame) : Runtime :=
  { r with stack := rest, database := { r.database with transactionCallbackActive := false } }

/-- A step of the store queue, or of the end of `close`. -/
inductive StorageStep (options : DatabaseOptions) (db : Database) : Label → Database → Prop
  | startStore (index : ℕ) {db' : Database} (h : db.startStore options index = some db') :
      StorageStep options db (.startStore index) db'
  | settleStore (index : ℕ) (outcome : StoreOutcome) {db' : Database}
      (h : db.settleStore options index outcome = some db') :
      StorageStep options db (.settleStore index outcome) db'
  | finishStore (index : ℕ) {db' : Database} (h : db.finishStore index = some db') :
      StorageStep options db (.finishStore index) db'
  | closeAdapter {db' : Database} (h : db.closeAdapter options = some db') :
      StorageStep options db .closeAdapter db'
  | finishClose (failure : Option NewtonError) {db' : Database}
      (h : db.finishClose failure = some db') : StorageStep options db (.finishClose failure) db'

/-- **What a step can do.** -/
inductive Move (options : DatabaseOptions) (r : Runtime) : Label → Runtime → Prop
  | began (id : JsString) (now : ℕ) (usable : r.database.assertOpen = .ok ()) :
      Move options r (.beginTransaction id now)
        { r with transactions := r.transactions ++ [.new id now options.transactionLimits] }
  | notBegun (id : JsString) (now : ℕ) (error : NewtonError)
      (refusal : r.database.assertOpen = .error error) : Move options r (.beginTransaction id now) r
  | operated (handle now : ℕ) (call : TransactionCall) (t : Transaction)
      (known : r.transactions[handle]? = some t) :
      Move options r (.operate handle now call)
        { r with transactions := r.transactions.set handle (t.call r.database.root now call).1 }
  | rolledBack (handle : ℕ) : Move options r (.rollback handle)
      { r with transactions := r.transactions.modify handle Transaction.rollback }
  | committing (handle now : ℕ) {r' : Runtime} (h : Committing options r handle now none r') :
      Move options r (.commit handle now) r'
  | rejected (durability : Option Durability) (allow : Bool) (id : JsString) (now : ℕ)
      (error : NewtonError) : Move options r (.transaction durability allow id now)
        ({ r with calls := r.calls ++ [AsyncCall.settled] }.settleTransaction r.calls.length
          (.error error))
  | started (durability : Option Durability) (allow : Bool) (id : JsString) (now : ℕ)
      (usable : r.database.assertOpen = .ok ())
      (admitted : ¬(r.database.state = .degraded ∧
        (durability.getD (if options.adapter then .persisted else .memory) = .persisted ∨ !allow)))
      (alone : r.database.transactionCallbackActive = false) :
      Move options r (.transaction durability allow id now)
        { r with
          database := { r.database with transactionCallbackActive := true }
          stack := .callback r.calls.length :: r.stack
          calls := r.calls ++ [.running (durability.getD
            (if options.adapter then .persisted else .memory)) r.transactions.length]
          transactions := r.transactions ++ [.new id now options.transactionLimits] }
  | notFlushed (id : JsString) (error : NewtonError) (refusal : r.database.assertOpen = .error error) :
      Move options r (.flush id)
        ({ r with calls := r.calls ++ [AsyncCall.settled] }.settleFlush r.calls.length
          (.error error))
  | flushed (id : JsString) (usable : r.database.assertOpen = .ok ()) :
      Move options r (.flush id)
        { r with
          database := (r.database.flushNow options id).1
          calls := r.calls ++
            [.flushing r.database.root.revision (r.database.flushNow options id).2] }
  | closed (id : JsString) :
      Move options r (.close id) { r with database := r.database.close options id }
  | subscribed : Move options r .subscribe { r with database := r.database.subscribe }
  | unsubscribed (id : ℕ) :
      Move options r (.unsubscribe id) { r with database := r.database.unsubscribe id }
  | callbackReturned (now call : ℕ) (durability : Durability) (handle : ℕ) (rest : List Frame)
      (stack : r.stack = .callback call :: rest)
      (running : r.calls[call]? = some (.running durability handle)) {r' : Runtime}
      (h : Committing options (r.endCallback rest) handle now (some call) r') :
      Move options r (.returns now) r'
  | callbackFailed (label : Label) (call : ℕ) (error : NewtonError) (durability : Durability)
      (handle : ℕ) (rest : List Frame) (failed : label = .throws ∨ label = .returnsPromise)
      (stack : r.stack = .callback call :: rest)
      (running : r.calls[call]? = some (.running durability handle))
      (unpersisted : ∀ receipt, error ≠ .persistence receipt) :
      Move options r label
        ({ r.endCallback rest with
          transactions := r.transactions.modify handle Transaction.rollback }.settleTransaction call
            (.error error))
  | hookReturned (label : Label) (frame : Frame) (rest : List Frame)
      (ended : label = .throws ∨ ∃ now, label = .returns now) (stack : r.stack = frame :: rest)
      (hook : frame.isHook) : Move options r label { r with stack := rest }
  | overflowThrew (batch : ChangeBatch) (rest : List Frame)
      (stack : r.stack = .overflow batch :: rest) : Move options r .throws (r.report options rest)
  | listenerReturned (now : ℕ) (batch : ChangeBatch) (listeners : List ℕ) (rest : List Frame)
      (stack : r.stack = .listener batch listeners :: rest) :
      Move options r (.returns now) { r with stack := .dispatching batch listeners :: rest }
  | listenerThrew (batch : ChangeBatch) (listeners : List ℕ) (rest : List Frame)
      (stack : r.stack = .listener batch listeners :: rest) :
      Move options r .throws (r.report options (.dispatching batch listeners :: rest))
  | commitReturned (handle : ℕ) (receipt : CommitReceipt) (rest : List Frame)
      (stack : r.stack = .committed handle none receipt :: rest) :
      Move options r .resume { r.afterHooks handle receipt with stack := rest }
  | commitResolved (handle call : ℕ) (receipt : CommitReceipt) (rest : List Frame)
      (stack : r.stack = .committed handle (some call) receipt :: rest) {r' : Runtime}
      (h : { r.afterHooks handle receipt with stack := rest }.afterCommit options call
        (r.receiptOf handle receipt) = some r') : Move options r .resume r'
  | delivered (batch : ChangeBatch) (listener : ℕ) (listeners : List ℕ) (rest : List Frame)
      (stack : r.stack = .dispatching batch (listener :: listeners) :: rest) :
      Move options r .resume
        { r with
          database := r.database.record (.delivered listener batch)
          stack := .listener batch listeners :: rest }
  | batchDone (batch : ChangeBatch) (rest : List Frame)
      (stack : r.stack = .dispatching batch [] :: rest) :
      Move options r .resume (r.nextBatch rest)
  | dispatched (idle : r.stack = []) (scheduled : r.database.dispatchScheduled) :
      Move options r .dispatch (r.nextBatch [])
  | storage (label : Label) (db : Database) (idle : r.stack = [])
      (h : StorageStep options r.database label db) : Move options r label { r with database := db }
  | wokeTransaction (call : ℕ) (receipt : CommitReceipt) (waiting : Waiting)
      (result : Option NewtonError) (idle : r.stack = [])
      (waits : r.calls[call]? = some (.persisting receipt waiting))
      (ended : r.database.outcome waiting = some result) :
      Move options r (.wake call) (r.settleTransaction call
        (result.elim (.ok { receipt with durability := .persisted }) .error))
  | wokeFlush (call target : ℕ) (waiting : Waiting) (result : Option NewtonError)
      (idle : r.stack = []) (waits : r.calls[call]? = some (.flushing target waiting))
      (ended : r.database.outcome waiting = some result) :
      Move options r (.wake call) (r.settleFlush call (result.elim (.ok target) .error))

variable {options : DatabaseOptions} {r r' : Runtime} {label : Label}

/-- A step of storage does not touch the event queue, except at the end of `close`.  At that end
the batches that wait are dropped and the listeners are forgotten. -/
theorem StorageStep.sameEvents {db db' : Database} (h : StorageStep options db label db') :
    db.SameEvents DatabaseEvent.isPlain db' ∨ ∃ failure, label = .finishClose failure ∧
      db.finishClose failure = some db' := by
  cases h with
  | startStore index h =>
      obtain ⟨task, -, -, -, rfl⟩ := Database.startStore_eq_some h
      exact .inl (.of_event rfl rfl rfl rfl rfl rfl rfl)
  | settleStore index outcome h =>
      obtain ⟨task, snapshot, -, -, ⟨rfl, -⟩ | ⟨a, -, -, rfl⟩⟩ := Database.settleStore_eq_some h
      · exact .inl (.of_event rfl rfl rfl rfl rfl rfl rfl)
      · exact .inl (.of_event rfl rfl rfl rfl rfl rfl rfl)
  | finishStore index h =>
      obtain ⟨task, error, -, -, rfl⟩ := Database.finishStore_eq_some h
      exact .inl ⟨rfl, rfl, rfl, rfl, rfl, [], rfl, by simp⟩
  | closeAdapter h =>
      obtain ⟨waiting, failure, -, -, rfl⟩ := Database.closeAdapter_eq_some h
      split_ifs
      · exact .inl (.of_event rfl rfl rfl rfl rfl rfl rfl)
      · exact .inl ⟨rfl, rfl, rfl, rfl, rfl, [], rfl, by simp⟩
  | finishClose failure h => exact .inr ⟨failure, rfl, h⟩

/-- A step of storage leaves the root alone.  It works on copies that were made when the stores
were queued. -/
theorem StorageStep.root {db db' : Database} (h : StorageStep options db label db') :
    db'.root = db.root := by
  cases h with
  | startStore index h =>
      obtain ⟨task, -, -, -, rfl⟩ := Database.startStore_eq_some h
      rfl
  | settleStore index outcome h =>
      obtain ⟨task, snapshot, -, -, ⟨rfl, -⟩ | ⟨a, -, -, rfl⟩⟩ := Database.settleStore_eq_some h
      · rfl
      · rfl
  | finishStore index h =>
      obtain ⟨task, error, -, -, rfl⟩ := Database.finishStore_eq_some h
      rfl
  | closeAdapter h =>
      obtain ⟨waiting, failure, -, -, rfl⟩ := Database.closeAdapter_eq_some h
      split_ifs <;> rfl
  | finishClose failure h =>
      obtain ⟨_, -, rfl⟩ := Database.finishClose_eq_some h
      rfl

/-- The loop over the event queue ends, or takes a batch.  A batch that is taken is put on
record with the listeners of that moment. -/
theorem nextBatch_cases (r : Runtime) (rest : List Frame) :
    (r.database.eventQueue = [] ∧ r.nextBatch rest =
      { r with database := { r.database with dispatchScheduled := false }, stack := rest }) ∨
    ∃ batch queue, r.database.eventQueue = batch :: queue ∧ r.nextBatch rest =
      { r with
        database := { r.database with
          eventQueue := queue
          eventQueueChanges := r.database.eventQueueChanges - batch.changes.length }
          |>.record (.dispatched batch r.database.listeners)
        stack := .dispatching batch r.database.listeners :: rest } := by
  unfold nextBatch
  split
  · next hq => exact .inl ⟨hq, rfl⟩
  · next batch queue hq => exact .inr ⟨batch, queue, hq, rfl⟩

/-- **How a `transaction` goes on after its commit**: it resolves, or it waits for a
store. -/
theorem afterCommit_eq_some {call : ℕ} {receipt : CommitReceipt}
    (h : r.afterCommit options call receipt = some r') :
    ∃ durability handle, r.calls[call]? = some (.running durability handle) ∧
      ((∃ resolved : CommitReceipt, r' = r.settleTransaction call (.ok resolved)) ∨
        r' = { r with
          database := (r.database.persist options receipt).1
          calls := r.calls.set call
            (.persisting receipt (r.database.persist options receipt).2) }) := by
  unfold afterCommit at h
  split at h
  · next durability handle running =>
      refine ⟨durability, handle, running, ?_⟩
      split_ifs at h
      · exact .inl ⟨receipt, (Option.some.inj h).symm⟩
      · exact .inr (Option.some.inj h).symm
      · exact .inl ⟨_, (Option.some.inj h).symm⟩
  · cases h

/-- Every commit is one of the three.  It is refused before anything is looked at, it fails, or
it goes through. -/
theorem commit_committing {handle now : ℕ} {caller : Option ℕ}
    (h : r.commit options handle now caller = some r') :
    Committing options r handle now caller r' := by
  obtain ⟨t, ht, rfl⟩ := Option.map_eq_some_iff.1 h
  cases hadmit : t.assertActive >>= fun _ => t.assertWithinLimits now with
  | error error => exact .refused t error ht hadmit
  | ok _ =>
      dsimp only
      cases hcommit : r.database.assertOpen >>= fun _ => r.database.root.commit options.commit t with
      | error error => exact .failed t error ht hadmit hcommit
      | ok committed =>
          obtain ⟨⟨⟩, husable, hok⟩ := bind_eq_ok.1 hcommit
          exact .succeeded t committed ht hadmit husable hok

/-- A call of `transaction` moves the program to its callback, or refuses.  It is refused in
another callback, in a closing or degraded database, or with a durability there is no storage
for. -/
theorem transaction_move (durability : Option Durability) (allow : Bool) (id : JsString)
    (now : ℕ) : Move options r (.transaction durability allow id now)
      (r.transaction options durability allow id now) := by
  unfold transaction
  dsimp only
  split
  · exact .rejected durability allow id now _
  · next usable =>
      by_cases hdegraded : r.database.state = .degraded ∧
          (durability.getD (if options.adapter then .persisted else .memory) = .persisted ∨ !allow)
      · rw [if_pos hdegraded]
        exact .rejected durability allow id now _
      · rw [if_neg hdegraded]
        split
        · exact .rejected durability allow id now _
        · next hactive =>
            exact .started durability allow id now usable hdegraded (Bool.not_eq_true _ ▸ hactive)

/-- **A callback that failed** ends its call with the failure, and its transaction is rolled
back. -/
theorem abandon_move {call : ℕ} {error : NewtonError} {rest : List Frame}
    (failed : label = .throws ∨ label = .returnsPromise) (stack : r.stack = .callback call :: rest)
    (unpersisted : ∀ receipt, error ≠ .persistence receipt)
    (h : { r with stack := rest }.abandon call error = some r') : Move options r label r' := by
  unfold abandon at h
  split at h
  · next durability handle running =>
      obtain rfl := Option.some.inj h
      exact .callbackFailed label call error durability handle rest failed stack running
        unpersisted
  · cases h

/-- **A callback that returns** commits, and its call waits or ends; where the commit throws,
the call ends with that. -/
theorem returns_move {now : ℕ} (h : r.returns options now = some r') :
    Move options r (.returns now) r' := by
  unfold returns at h
  split at h
  · next call rest stack =>
      unfold commitCallback at h
      split at h
      · next durability handle running =>
          exact .callbackReturned now call durability handle rest stack running
            (commit_committing h)
      · cases h
  · next batch rest stack =>
      obtain rfl := Option.some.inj h
      exact .hookReturned _ _ rest (.inr ⟨now, rfl⟩) stack rfl
  · next rest stack =>
      obtain rfl := Option.some.inj h
      exact .hookReturned _ _ rest (.inr ⟨now, rfl⟩) stack rfl
  · next batch listeners rest stack =>
      obtain rfl := Option.some.inj h
      exact .listenerReturned now batch listeners rest stack
  · cases h

/-- A callback that throws ends its call with what it threw.  A hook or a listener that throws
is passed to the reporter instead. -/
theorem throws_move (h : r.throws options = some r') : Move options r .throws r' := by
  unfold throws at h
  split at h
  · next call rest stack => exact abandon_move (.inl rfl) stack (fun _ he => by cases he) h
  · next batch rest stack =>
      obtain rfl := Option.some.inj h
      exact .overflowThrew batch rest stack
  · next rest stack =>
      obtain rfl := Option.some.inj h
      exact .hookReturned _ _ rest (.inl rfl) stack rfl
  · next batch listeners rest stack =>
      obtain rfl := Option.some.inj h
      exact .listenerThrew batch listeners rest stack
  · cases h

/-- A callback that returns a promise ends its call with an error. -/
theorem returnsPromise_move (h : r.returnsPromise = some r') :
    Move options r .returnsPromise r' := by
  unfold returnsPromise at h
  split at h
  · next call rest stack => exact abandon_move (.inr rfl) stack (fun _ he => by cases he) h
  · cases h

/-- A call of a method moves the program, one case for each method.  All of them ask for user
code to be running, which the stack shows. -/
theorem call_move (h : r.call options label = some r') : Move options r label r' := by
  cases label with
  | beginTransaction id now =>
      obtain rfl := Option.some.inj h
      unfold beginTransaction
      split
      · next error refusal => exact .notBegun id now error refusal
      · next usable => exact .began id now usable
  | operate handle now c =>
      obtain ⟨t, ht, rfl⟩ := Option.map_eq_some_iff.1 h
      exact .operated handle now c t ht
  | rollback handle =>
      obtain rfl := Option.some.inj h
      exact .rolledBack handle
  | commit handle now => exact .committing handle now (commit_committing h)
  | transaction durability allow id now =>
      obtain rfl := Option.some.inj h
      exact transaction_move durability allow id now
  | flush id =>
      obtain rfl := Option.some.inj h
      unfold flush
      dsimp only
      split
      · next error refusal => exact .notFlushed id error refusal
      · next usable => exact .flushed id usable
  | close id =>
      obtain rfl := Option.some.inj h
      exact .closed id
  | subscribe =>
      obtain rfl := Option.some.inj h
      exact .subscribed
  | unsubscribe id =>
      obtain rfl := Option.some.inj h
      exact .unsubscribed id
  | returns now => exact returns_move h
  | throws => exact throws_move h
  | returnsPromise => exact returnsPromise_move h
  | _ => cases h

/-- A call that wakes moves the program to its end.  Its wait must be over, which the books of
the store queue show. -/
theorem wake_move {call : ℕ} (idle : r.stack = []) (h : r.wake call = some r') :
    Move options r (.wake call) r' := by
  unfold wake at h
  split at h
  · next receipt waiting waits =>
      obtain ⟨result, ended, rfl⟩ := Option.map_eq_some_iff.1 h
      have hmove : Move options r (.wake call) (r.settleTransaction call
          (result.elim (.ok { receipt with durability := .persisted }) .error)) :=
        .wokeTransaction call receipt waiting result idle waits ended
      cases result <;> exact hmove
  · next target waiting waits =>
      obtain ⟨result, ended, rfl⟩ := Option.map_eq_some_iff.1 h
      have hmove : Move options r (.wake call)
          (r.settleFlush call (result.elim (.ok target) .error)) :=
        .wokeFlush call target waiting result idle waits ended
      cases result <;> exact hmove
  · cases h

/-- A step while no call runs moves the program, one case for each of them.  The stack is empty
then, which each of the cases passes on. -/
theorem idle_move (idle : r.stack = []) (h : r.idle options label = some r') :
    Move options r label r' := by
  cases label with
  | startStore index =>
      obtain ⟨db, hdb, rfl⟩ := Option.map_eq_some_iff.1 h
      exact .storage _ db idle (.startStore index hdb)
  | settleStore index outcome =>
      obtain ⟨db, hdb, rfl⟩ := Option.map_eq_some_iff.1 h
      exact .storage _ db idle (.settleStore index outcome hdb)
  | finishStore index =>
      obtain ⟨db, hdb, rfl⟩ := Option.map_eq_some_iff.1 h
      exact .storage _ db idle (.finishStore index hdb)
  | wake call => exact wake_move idle h
  | closeAdapter =>
      obtain ⟨db, hdb, rfl⟩ := Option.map_eq_some_iff.1 h
      exact .storage _ db idle (.closeAdapter hdb)
  | finishClose failure =>
      obtain ⟨db, hdb, rfl⟩ := Option.map_eq_some_iff.1 h
      exact .storage _ db idle (.finishClose failure hdb)
  | dispatch =>
      unfold NewtonDB.Runtime.idle at h
      dsimp only at h
      split_ifs at h with scheduled
      obtain rfl := Option.some.inj h
      exact .dispatched idle scheduled
  | _ => cases h

/-- A hook that ends moves the program back to the commit it interrupted.  The loop over
listeners and the loop over batches are its other two cases. -/
theorem resume_move (h : r.resume options = some r') : Move options r .resume r' := by
  unfold resume at h
  split at h
  · next handle caller receipt rest stack =>
      cases caller with
      | none =>
          obtain rfl := Option.some.inj h
          exact .commitReturned handle receipt rest stack
      | some call => exact .commitResolved handle call receipt rest stack h
  · next batch listener listeners rest stack =>
      obtain rfl := Option.some.inj h
      exact .delivered batch listener listeners rest stack
  · next batch rest stack =>
      obtain rfl := Option.some.inj h
      exact .batchDone batch rest stack
  · cases h

/-- **Every step is one of the moves.**  The moves name what a step does to the stack, the calls
and the events, so that the invariants of frames, receipts and batches need no look at the step
function. -/
theorem step_move (h : r.step options label = some r') : Move options r label r' := by
  unfold step at h
  split_ifs at h with huser hempty hresume
  · rcases Option.or_eq_some_iff.1 h with hc | ⟨-, hi⟩
    · exact call_move hc
    · exact idle_move (List.isEmpty_iff.1 hempty) hi
  · rw [Option.or_none] at h
    exact call_move h
  · cases label with
    | resume => exact resume_move h
    | _ => cases hresume

end Runtime

end NewtonDB
