/-
# A program around a database

The methods of `Database` and `Transaction` that run code of the user, or wait,
as steps of a machine.  User code runs at the bottom of the call stack, in the
callback of `transaction`, in the two hooks and in listeners, and may call the
database from all of them; what a method still has to do after such a call is a
frame below it.  An `async` method that waits leaves the stack and goes on at
some later time when nothing else runs, as do the tasks of the store queue,
the end of `close` and the dispatch of events.

A label says which call the user code makes, how it ends, or which of the
waiting things goes on; the clock, random identifiers and the answers of the
adapter are in the labels.
-/

import NewtonDB.Database.State
import NewtonDB.Lib.Transition

namespace NewtonDB

/-- A call on the stack.  In `callback`, `overflow`, `reporter` and `listener` the
user's code runs; `committed` is a commit after its hooks, `dispatching` the loop
over the event queue. -/
inductive Frame where
  | callback (call : ℕ)
  | overflow (batch : ChangeBatch)
  | reporter
  | listener (batch : ChangeBatch) (rest : List ℕ)
  | committed (handle : ℕ) (caller : Option ℕ) (receipt : CommitReceipt)
  | dispatching (batch : ChangeBatch) (rest : List ℕ)

/-- A call of `transaction` or `flush`, by where it stands. -/
inductive AsyncCall where
  | running (durability : Durability) (handle : ℕ)
  | persisting (receipt : CommitReceipt) (waiting : Waiting)
  | flushing (target : ℕ) (waiting : Waiting)
  | settled

/-- A database, the program that uses it, and what is under way. -/
structure Runtime where
  database : Database
  stack : List Frame
  calls : List AsyncCall
  transactions : List Transaction

/-- A step of the program: a call or the end of user code, the code of the
database going on, or something that waited. -/
inductive Label where
  | beginTransaction (id : JsString) (now : ℕ)
  | operate (handle now : ℕ) (call : TransactionCall)
  | rollback (handle : ℕ)
  | commit (handle now : ℕ)
  | transaction (durability : Option Durability) (allowVolatileWhenDegraded : Bool) (id : JsString)
      (now : ℕ)
  | flush (id : JsString)
  | close (id : JsString)
  | subscribe
  | unsubscribe (id : ℕ)
  | returns (now : ℕ)
  | throws
  | returnsPromise
  | resume
  | startStore (index : ℕ)
  | settleStore (index : ℕ) (outcome : StoreOutcome)
  | finishStore (index : ℕ)
  | wake (call : ℕ)
  | closeAdapter
  | finishClose (failure : Option NewtonError)
  | dispatch

namespace Runtime

/-- A program that just opened its database. -/
def start (options : DatabaseOptions) (root : Root) (stored : Option SnapshotEnvelope) :
    Runtime where
  database := .start options root stored
  stack := []
  calls := []
  transactions := []

/-- Code of the user runs, or nothing does. -/
def inUserCode (r : Runtime) : Bool :=
  match r.stack with
  | .committed .. :: _ | .dispatching .. :: _ => false
  | _ => true

variable (options : DatabaseOptions)

/-- The promise of a `transaction` settles. -/
def settleTransaction (r : Runtime) (call : ℕ) (outcome : Except NewtonError CommitReceipt) :
    Runtime :=
  { r with
    calls := r.calls.set call .settled
    database := r.database.record (.transaction call outcome) }

/-- The promise of a `flush` settles. -/
def settleFlush (r : Runtime) (call : ℕ) (outcome : Except NewtonError ℕ) : Runtime :=
  { r with
    calls := r.calls.set call .settled
    database := r.database.record (.flush call outcome) }

/-! ### Transactions -/

/-- `beginTransaction`; the transaction is known by its number. -/
def beginTransaction (r : Runtime) (id : JsString) (now : ℕ) : Runtime :=
  match r.database.assertOpen with
  | .error _ => r
  | .ok () =>
      { r with transactions := r.transactions ++ [.new id now options.transactionLimits] }

/-- `_commit` from its publication on, up to a hook it calls. -/
def publish (r : Runtime) (handle : ℕ) (caller : Option ℕ) (committed : Committed) : Runtime :=
  let frame := Frame.committed handle caller committed.receipt
  match committed.batch with
  | none => { r with stack := frame :: r.stack }
  | some batch =>
      let published := { r.database with root := committed.root }.record (.published committed.root)
      let (database, overflowed) := published.enqueue options batch
      { r with
        database
        transactions := r.transactions.modify handle Transaction.sealWorking
        stack := if overflowed && options.onEventOverflow then .overflow batch :: frame :: r.stack
          else frame :: r.stack }

/-- A commit throws: the user's code goes on, or the `transaction` that called
it rejects. -/
def throwFromCommit (r : Runtime) (caller : Option ℕ) (error : NewtonError) : Runtime :=
  match caller with
  | none => r
  | some call => r.settleTransaction call (.error error)

/-- `commit` of a transaction, up to a hook it calls. -/
def commit (r : Runtime) (handle now : ℕ) (caller : Option ℕ) : Option Runtime :=
  r.transactions[handle]?.map fun t =>
    match t.assertActive >>= fun _ => t.assertWithinLimits now with
    | .error error => r.throwFromCommit caller error
    | .ok () =>
        match r.database.assertOpen >>= fun _ => r.database.root.commit options.commit t with
        | .error error =>
            { r with transactions := r.transactions.set handle { t with status := .rolledBack } }
              |>.throwFromCommit caller error
        | .ok committed => r.publish options handle caller committed

/-- `transaction` after its commit. -/
def afterCommit (r : Runtime) (call : ℕ) (receipt : CommitReceipt) : Option Runtime :=
  match r.calls[call]? with
  | some (.running durability _) =>
      if durability = .memory ∨ !options.adapter then some (r.settleTransaction call (.ok receipt))
      else if r.database.persistedRevision < receipt.revision then
        let (database, waiting) := r.database.persist options receipt
        some { r with database, calls := r.calls.set call (.persisting receipt waiting) }
      else some (r.settleTransaction call (.ok { receipt with durability := .persisted }))
  | _ => none

/-- The receipt of a commit after its hooks, with the keys generated until then. -/
def receiptOf (r : Runtime) (handle : ℕ) (receipt : CommitReceipt) : CommitReceipt :=
  { receipt with
    generatedKeys := r.transactions[handle]?.elim receipt.generatedKeys (·.generatedKeys) }

/-- `commit` after its hooks: it returns to the user's code, or `transaction` goes
on. -/
def resumeCommit (r : Runtime) (handle : ℕ) (caller : Option ℕ) (receipt : CommitReceipt) :
    Option Runtime :=
  let receipt := r.receiptOf handle receipt
  let r := { r with
    transactions := r.transactions.modify handle ({ · with status := .committed })
    database := r.database.record (.committed handle receipt) }
  match caller with
  | none => some r
  | some call => r.afterCommit options call receipt

/-- `transaction` up to its callback. -/
def transaction (r : Runtime) (durability : Option Durability) (allowVolatileWhenDegraded : Bool)
    (id : JsString) (now : ℕ) : Runtime :=
  let call := r.calls.length
  let reject := fun error =>
    { r with calls := r.calls ++ [AsyncCall.settled] }.settleTransaction call (.error error)
  match r.database.assertOpen with
  | .error error => reject error
  | .ok () =>
      let durability := durability.getD (if options.adapter then .persisted else .memory)
      if r.database.state = .degraded ∧ (durability = .persisted ∨ !allowVolatileWhenDegraded) then
        reject (.persistence (r.database.flushReceipt options id))
      else if r.database.transactionCallbackActive then
        reject (.transactionState (js "Nested transaction callbacks are not supported"))
      else
        { r with
          database := { r.database with transactionCallbackActive := true }
          stack := .callback call :: r.stack
          calls := r.calls ++ [.running durability r.transactions.length]
          transactions := r.transactions ++ [.new id now options.transactionLimits] }

/-- The callback of `transaction` ended without a result to commit. -/
def abandon (r : Runtime) (call : ℕ) (error : NewtonError) : Option Runtime :=
  match r.calls[call]? with
  | some (.running _ handle) =>
      some <| { r with
        database := { r.database with transactionCallbackActive := false }
        transactions := r.transactions.modify handle Transaction.rollback }
        |>.settleTransaction call (.error error)
  | _ => none

/-- The callback of `transaction` returned. -/
def commitCallback (r : Runtime) (call now : ℕ) : Option Runtime :=
  match r.calls[call]? with
  | some (.running _ handle) =>
      { r with database := { r.database with transactionCallbackActive := false } }.commit options
        handle now (some call)
  | _ => none

/-- `flush`. -/
def flush (r : Runtime) (id : JsString) : Runtime :=
  let call := r.calls.length
  match r.database.assertOpen with
  | .error error =>
      { r with calls := r.calls ++ [AsyncCall.settled] }.settleFlush call (.error error)
  | .ok () =>
      let (database, waiting) := r.database.flushNow options id
      { r with database, calls := r.calls ++ [.flushing r.database.root.revision waiting] }

/-- A call that waited goes on when its wait is over. -/
def wake (r : Runtime) (call : ℕ) : Option Runtime :=
  match r.calls[call]? with
  | some (.persisting receipt waiting) =>
      (r.database.outcome waiting).map fun
        | none => r.settleTransaction call (.ok { receipt with durability := .persisted })
        | some error => r.settleTransaction call (.error error)
  | some (.flushing target waiting) =>
      (r.database.outcome waiting).map fun
        | none => r.settleFlush call (.ok target)
        | some error => r.settleFlush call (.error error)
  | _ => none

/-! ### Hooks and listeners -/

/-- `#reportListenerError`: the code below goes on, under the hook if there is one. -/
def report (r : Runtime) (rest : List Frame) : Runtime :=
  { r with stack := if options.onListenerError then .reporter :: rest else rest }

/-- The loop over the event queue takes the next batch, or ends. -/
def nextBatch (r : Runtime) (rest : List Frame) : Runtime :=
  match r.database.eventQueue with
  | [] => { r with database := { r.database with dispatchScheduled := false }, stack := rest }
  | batch :: queue =>
      { r with
        database := { r.database with
          eventQueue := queue
          eventQueueChanges := r.database.eventQueueChanges - batch.changes.length }
          |>.record (.dispatched batch r.database.listeners)
        stack := .dispatching batch r.database.listeners :: rest }

/-- The code below the user's code goes on. -/
def resume (r : Runtime) : Option Runtime :=
  match r.stack with
  | .committed handle caller receipt :: rest =>
      { r with stack := rest }.resumeCommit options handle caller receipt
  | .dispatching batch (listener :: listeners) :: rest =>
      some { r with
        database := r.database.record (.delivered listener batch)
        stack := .listener batch listeners :: rest }
  | .dispatching _ [] :: rest => some (r.nextBatch rest)
  | _ => none

/-- The user's code returns. -/
def returns (r : Runtime) (now : ℕ) : Option Runtime :=
  match r.stack with
  | .callback call :: rest => { r with stack := rest }.commitCallback options call now
  | .overflow _ :: rest | .reporter :: rest => some { r with stack := rest }
  | .listener batch listeners :: rest =>
      some { r with stack := .dispatching batch listeners :: rest }
  | _ => none

/-- The user's code throws. -/
def throws (r : Runtime) : Option Runtime :=
  match r.stack with
  | .callback call :: rest => { r with stack := rest }.abandon call .callback
  | .overflow _ :: rest => some (r.report options rest)
  | .reporter :: rest => some { r with stack := rest }
  | .listener batch listeners :: rest =>
      some (r.report options (.dispatching batch listeners :: rest))
  | _ => none

/-- The callback of `transaction` returns a promise. -/
def returnsPromise (r : Runtime) : Option Runtime :=
  match r.stack with
  | .callback call :: rest =>
      { r with stack := rest }.abandon call
        (.transactionCallback (js "Transaction callbacks must be synchronous"))
  | _ => none

/-! ### Steps -/

/-- A change of the database alone. -/
def withDatabase (r : Runtime) (database : Option Database) : Option Runtime :=
  database.map fun database => { r with database }

/-- What the user's code calls. -/
def call (r : Runtime) : Label → Option Runtime
  | .beginTransaction id now => some (r.beginTransaction options id now)
  | .operate handle now call => r.transactions[handle]?.map fun t =>
      { r with transactions := r.transactions.set handle (t.call r.database.root now call).1 }
  | .rollback handle =>
      some { r with transactions := r.transactions.modify handle Transaction.rollback }
  | .commit handle now => r.commit options handle now none
  | .transaction durability allowVolatileWhenDegraded id now =>
      some (r.transaction options durability allowVolatileWhenDegraded id now)
  | .flush id => some (r.flush options id)
  | .close id => some { r with database := r.database.close options id }
  | .subscribe => some { r with database := r.database.subscribe }
  | .unsubscribe id => some { r with database := r.database.unsubscribe id }
  | .returns now => r.returns options now
  | .throws => r.throws options
  | .returnsPromise => r.returnsPromise
  | _ => none

/-- What goes on when no code runs. -/
def idle (r : Runtime) : Label → Option Runtime
  | .startStore index => r.withDatabase (r.database.startStore options index)
  | .settleStore index outcome => r.withDatabase (r.database.settleStore options index outcome)
  | .finishStore index => r.withDatabase (r.database.finishStore index)
  | .wake call => r.wake call
  | .closeAdapter => r.withDatabase (r.database.closeAdapter options)
  | .finishClose failure => r.withDatabase (r.database.finishClose failure)
  | .dispatch => if r.database.dispatchScheduled then some (r.nextBatch []) else none
  | _ => none

/-- One step of the program. -/
def step (r : Runtime) (label : Label) : Option Runtime :=
  if r.inUserCode then
    (r.call options label).or (if r.stack.isEmpty then r.idle options label else none)
  else if label matches .resume then r.resume options
  else none

end Runtime

end NewtonDB
