/-
# Handles after a close

A program holds more than the database: collections, queries and transactions, which
reach the database through its methods or straight through its committed root.
`Runtime.perform` is one call on any of them.  After `close` a call is refused where
the method checks the lifecycle state (`HandleCall.isGuarded`) and that state is the
one of a closing database (`refused_after_close_iff`); a collection and the methods of
a transaction read the committed root without the check (`closed_collection_read`).
-/

import NewtonDB.Database.Closing
import NewtonDB.Database.Queries
import NewtonDB.Database.Publications
import NewtonDB.Engine.Failures

namespace NewtonDB

/-- A call on a handle: of `Database`, `Collection`, `Query`, `Transaction` or
`TransactionCollection`.  A collection or a query is known by what it was made of, a
transaction by its number.  `write` stands for the four methods of a collection that
run a transaction of their own. -/
inductive HandleCall where
  | verify
  | collection (name : JsString)
  | subscribe
  | beginTransaction (id : JsString) (now : ℕ)
  | transaction (durability : Option Durability) (allowVolatileWhenDegraded : Bool)
      (id : JsString) (now : ℕ)
  | flush (id : JsString)
  | count (name : JsString)
  | get (name : JsString) (primaryKey : PrimaryKey)
  | getOrThrow (name : JsString) (primaryKey : PrimaryKey)
  | has (name : JsString) (primaryKey : PrimaryKey)
  | toArray (name : JsString)
  | filter (name : JsString) (predicate : Option JsonObject → Option Bool)
  | findMany (name : JsString) (condition : JsInput)
  | write (id : JsString) (now : ℕ)
  | query (name : JsString) (condition : JsInput) (options : QueryOptions)
  | explain (name : JsString) (condition : JsInput) (options : QueryOptions)
  | operate (handle now : ℕ) (call : TransactionCall)
  | commit (handle now : ℕ)

/-- What a call gives. -/
inductive HandleResult where
  | done
  | number (value : ℕ)
  | flag (value : Bool)
  | document (value : Option JsonObject)
  | documents (values : List (Option JsonObject))
  | plan (value : QueryPlan)
  | called (result : CallResult)
  | committed (receipt : CommitReceipt)
  deriving DecidableEq

/-! ### Reads of the committed root -/

namespace Root

/-- `get` of a collection. -/
def get (root : Root) (name : JsString) (primaryKey : PrimaryKey) :
    Except NewtonError (Option JsonObject) := do
  let collection ← root.stored name
  let encoded ← encodeKey primaryKey
  return collection.records.get encoded

/-- `getOrThrow` of a collection. -/
def getOrThrow (root : Root) (name : JsString) (primaryKey : PrimaryKey) :
    Except NewtonError JsonObject := do
  match ← root.get name primaryKey with
  | none => .error (.notFound name primaryKey)
  | some document => .ok document

/-- `toArray` of a collection. -/
def toArray (root : Root) (name : JsString) : Except NewtonError (List (Option JsonObject)) :=
  (root.stored name).map fun collection => collection.order.map collection.records.get

/-- The test of `filter` on one document, `none` where the predicate throws. -/
def runPredicate (predicate : Option JsonObject → Option Bool) (document : Option JsonObject) :
    Except NewtonError (List (Option JsonObject)) :=
  match predicate document with
  | none => .error .callback
  | some true => .ok [document]
  | some false => .ok []

/-- `filter` of a collection. -/
def filter (root : Root) (name : JsString) (predicate : Option JsonObject → Option Bool) :
    Except NewtonError (List (Option JsonObject)) := do
  let documents ← root.toArray name
  return (← documents.mapM (runPredicate predicate)).flatten

end Root

/-- The options of a new query. -/
def QueryOptions.initial : QueryOptions where
  limit := none
  offset := 0
  order := none

/-! ### Calls -/

namespace Runtime

/-- How the promise of a call stands when the method has returned it. -/
def promise (r : Runtime) (call : ℕ) : Except NewtonError HandleResult :=
  match r.calls[call]?, r.database.history with
  | some .settled, .transaction _ (.error error) :: _ => .error error
  | some .settled, .flush _ (.error error) :: _ => .error error
  | _, _ => .ok .done

/-- **A call on a handle**: the state it leaves and what it gives.  A commit is followed
up to the hook it calls, and a promise until the method returns it. -/
def perform (options : DatabaseOptions) (r : Runtime) :
    HandleCall → Option (Runtime × Except NewtonError HandleResult)
  | .verify => some (r, do
      r.database.assertOpen
      verifyCollections r.database.root.collections
      return .done)
  | .collection name => some (r, do
      r.database.assertOpen
      (r.database.root.stored name).map fun _ => .done)
  | .subscribe =>
      some ({ r with database := r.database.subscribe }, r.database.assertOpen.map fun _ => .done)
  | .beginTransaction id now =>
      some (r.beginTransaction options id now, r.database.assertOpen.map fun _ => .done)
  | .transaction durability allowVolatileWhenDegraded id now =>
      let r' := r.transaction options durability allowVolatileWhenDegraded id now
      some (r', r'.promise r.calls.length)
  | .flush id =>
      let r' := r.flush options id
      some (r', r'.promise r.calls.length)
  | .count name =>
      some (r, (r.database.root.stored name).map fun collection => .number collection.records.size)
  | .get name primaryKey => some (r, (r.database.root.get name primaryKey).map .document)
  | .getOrThrow name primaryKey =>
      some (r, (r.database.root.getOrThrow name primaryKey).map fun document =>
        .document (some document))
  | .has name primaryKey =>
      some (r, (r.database.root.get name primaryKey).map fun document => .flag document.isSome)
  | .toArray name => some (r, (r.database.root.toArray name).map .documents)
  | .filter name predicate => some (r, (r.database.root.filter name predicate).map .documents)
  | .findMany name condition =>
      some (r, (r.database.query name condition .initial).map fun execution =>
        .documents (execution.documents.map some))
  | .write id now =>
      let r' := r.transaction options none false id now
      some (r', r'.promise r.calls.length)
  | .query name condition queryOptions =>
      some (r, (r.database.query name condition queryOptions).map fun execution =>
        .documents (execution.documents.map some))
  | .explain name condition queryOptions =>
      some (r, (r.database.query name condition { queryOptions with limit := some 0 }).map
        fun execution => .plan execution.plan)
  | .operate handle now call => r.transactions[handle]?.map fun t =>
      ({ r with transactions := r.transactions.set handle (t.call r.database.root now call).1 },
        (t.call r.database.root now call).2.map .called)
  | .commit handle now => r.transactions[handle]?.bind fun t =>
      (r.commit options handle now none).map fun r' =>
        (r', (r.commitResult options now t).map fun committed => .committed committed.receipt)

/-- **A call is refused**: it fails with a `ClosedError`, and nothing is accepted: no code
of the user runs, no transaction starts, and the database stays as it was, down to what
its surroundings saw. -/
structure Refused (r r' : Runtime) (outcome : Except NewtonError HandleResult) : Prop where
  closed : outcome = .error .closed
  database : { r'.database with history := r.database.history } = r.database
  stack : r'.stack = r.stack
  transactions : r'.transactions.length = r.transactions.length

end Runtime

/-- The method checks the lifecycle state, and nothing else before it. -/
def HandleCall.isGuarded (r : Runtime) : HandleCall → Bool
  | .count .. | .get .. | .getOrThrow .. | .has .. | .toArray .. | .filter .. | .operate .. => false
  | .commit handle now =>
      r.transactions[handle]?.any fun t =>
        t.assertActive.isOk && (t.assertWithinLimits now).isOk
  | _ => true

/-! ### When a call is refused -/

/-- A check that is made first decides. -/
theorem Database.guard_iff {α : Type} {db : Database} {x : Except NewtonError α}
    (hx : FailsWith NewtonError.IsOpen x) :
    (db.assertOpen >>= fun _ => x) = .error .closed ↔ db.assertOpen = .error .closed := by
  unfold assertOpen
  split
  · exact iff_of_true rfl rfl
  · exact iff_of_false (fun h => hx _ h rfl) (by simp)

/-- The lifecycle check throws a `ClosedError`, in a database that is neither open nor
degraded. -/
theorem Database.assertOpen_eq_error {db : Database} {error : NewtonError} :
    db.assertOpen = .error error ↔
      error = .closed ∧ db.state ≠ .opened ∧ db.state ≠ .degraded := by
  unfold assertOpen
  split_ifs with h
  · simp [h, eq_comm]
  · simp [h]

namespace Runtime

variable {options : DatabaseOptions} {r r' : Runtime} {call : HandleCall}
  {outcome : Except NewtonError HandleResult}

/-- What changes nothing is refused when it ends in a `ClosedError`. -/
theorem refused_same : Refused r r outcome ↔ outcome = .error .closed :=
  ⟨fun h => h.closed, fun h => ⟨h, rfl, rfl, rfl⟩⟩

/-- Reads of the committed root are never refused. -/
theorem not_refused {α : Type} {x : Except NewtonError α} {f : α → HandleResult}
    (hx : FailsWith NewtonError.IsOpen x) : ¬Refused r r' (x.map f) := fun h =>
  hx _ (map_eq_error.1 h.closed) rfl

/-- A read of a root throws no `ClosedError`. -/
theorem get_failsWith {root : Root} {name : JsString} {primaryKey : PrimaryKey} :
    FailsWith NewtonError.IsOpen (root.get name primaryKey) :=
  .bind Root.stored_failsWith fun _ _ => .bind (encodeKey_failsWith _) fun _ _ => .ok _

/-- A read that insists on a document throws no `ClosedError`. -/
theorem getOrThrow_failsWith {root : Root} {name : JsString} {primaryKey : PrimaryKey} :
    FailsWith NewtonError.IsOpen (root.getOrThrow name primaryKey) := by
  refine .bind get_failsWith fun document _ => ?_
  cases document with
  | none => exact .error nofun
  | some document => exact .ok _

/-- A filter of a root throws no `ClosedError`.  A collection that is not there and a predicate
that throws are its errors, and neither is about the lifecycle. -/
theorem filter_failsWith {root : Root} {name : JsString}
    {predicate : Option JsonObject → Option Bool} :
    FailsWith NewtonError.IsOpen (root.filter name predicate) := by
  refine .bind (.map Root.stored_failsWith _) fun documents _ =>
    .bind (.mapM fun document _ => ?_) fun _ _ => .ok _
  unfold Root.runPredicate
  split
  · exact .error nofun
  · exact .ok _
  · exact .ok _

/-- A promise that has not settled is no refusal. -/
theorem promise_of_not_settled {call : ℕ} (h : r.calls[call]? ≠ some .settled) :
    r.promise call = .ok .done := by
  unfold promise
  split
  · next hs _ => exact absurd hs h
  · next hs _ => exact absurd hs h
  · rfl

/-- The promise of a call that rejects at once. -/
theorem promise_rejected (error : NewtonError) :
    ({ r with calls := r.calls ++ [AsyncCall.settled] }.settleTransaction r.calls.length
      (.error error)).promise r.calls.length = .error error := by
  simp [promise, settleTransaction, Database.record]

/-- **A call of `transaction` is refused exactly when the lifecycle check throws.**  No other
error is a `ClosedError`, so that a degraded database that rejects the call does not count. -/
theorem transaction_refused (durability : Option Durability) (allow : Bool) (id : JsString)
    (now : ℕ) :
    Refused r (r.transaction options durability allow id now)
        ((r.transaction options durability allow id now).promise r.calls.length) ↔
      r.database.assertOpen = .error .closed := by
  unfold transaction
  cases ho : r.database.assertOpen with
  | error error =>
      obtain ⟨rfl, -⟩ := Database.assertOpen_eq_error.1 ho
      exact iff_of_true ⟨promise_rejected _, rfl, rfl, rfl⟩ rfl
  | ok _ =>
      refine iff_of_false (fun h => ?_) (by simp)
      have hclosed := h.closed
      dsimp only at hclosed
      generalize durability.getD _ = durability at hclosed
      split_ifs at hclosed
      · rw [promise_rejected] at hclosed
        cases hclosed
      · rw [promise_rejected] at hclosed
        cases hclosed
      · rw [promise_of_not_settled (by simp)] at hclosed
        cases hclosed

/-- **A call of `flush` is refused exactly when the lifecycle check throws.**  What a flush
rejects with otherwise is an error of storage. -/
theorem flush_refused (id : JsString) :
    Refused r (r.flush options id) ((r.flush options id).promise r.calls.length) ↔
      r.database.assertOpen = .error .closed := by
  unfold flush
  cases ho : r.database.assertOpen with
  | error error =>
      obtain ⟨rfl, -⟩ := Database.assertOpen_eq_error.1 ho
      exact iff_of_true ⟨by simp [promise, settleFlush, Database.record], rfl, rfl, rfl⟩ rfl
  | ok _ =>
      refine iff_of_false (fun h => ?_) (by simp)
      have hclosed := h.closed
      dsimp only at hclosed
      rw [promise_of_not_settled (by simp)] at hclosed
      cases hclosed

/-- **A commit by hand is refused exactly when** the transaction could go on and the lifecycle
check throws: what is wrong with the transaction is said first. -/
theorem commit_refused {handle now : ℕ} {t : Transaction} (ht : r.transactions[handle]? = some t)
    (h : r.commit options handle now none = some r') :
    Refused r r' ((r.commitResult options now t).map fun committed =>
        .committed committed.receipt) ↔
      (t.assertActive.isOk ∧ (t.assertWithinLimits now).isOk) ∧
        r.database.assertOpen = .error .closed := by
  unfold commit at h
  rw [ht, Option.map_some, Option.some_inj] at h
  rw [commitResult_eq]
  cases hcheck : t.assertActive >>= fun _ => t.assertWithinLimits now with
  | error error =>
      refine iff_of_false (fun hr => ?_) fun ⟨⟨hactive, hage⟩, _⟩ => ?_
      · obtain rfl : error = .closed := Except.error.inj (map_eq_error.1 hr.closed)
        exact FailsWith.bind Transaction.assertActive_failsWith
          (fun _ _ => Transaction.assertWithinLimits_failsWith) _ hcheck rfl
      · obtain ⟨_, hactive⟩ := exists_of_isOk hactive
        obtain ⟨_, hage⟩ := exists_of_isOk hage
        rw [hactive] at hcheck
        cases hage.symm.trans hcheck
  | ok _ =>
      rw [hcheck] at h
      obtain ⟨_, hactive, hage⟩ := bind_eq_ok.1 hcheck
      rw [hactive, hage, and_iff_right ⟨rfl, rfl⟩]
      have hguard : (r.database.assertOpen >>= fun _ => r.database.root.commit options.commit t) =
          .error .closed ↔ r.database.assertOpen = .error .closed :=
        Database.guard_iff Root.commit_failsWith
      refine ⟨fun hr => hguard.1 (map_eq_error.1 hr.closed), fun ho => ?_⟩
      have herror := hguard.2 ho
      dsimp only at h
      rw [herror] at h
      obtain rfl := h
      exact ⟨map_eq_error.2 herror, rfl, rfl, by simp [throwFromCommit]⟩

/-- **When a call is refused**: its method checks the lifecycle state, and that is
neither `opened` nor `degraded`. -/
theorem refused_iff (h : r.perform options call = some (r', outcome)) :
    Refused r r' outcome ↔
      call.isGuarded r ∧ r.database.state ≠ .opened ∧ r.database.state ≠ .degraded := by
  rw [show (r.database.state ≠ .opened ∧ r.database.state ≠ .degraded) ↔
    r.database.assertOpen = .error .closed by simp [Database.assertOpen_eq_error]]
  have hread : ∀ {α : Type} {x : Except NewtonError α} {f : α → HandleResult},
      FailsWith NewtonError.IsOpen x → some (r, x.map f) = some (r', outcome) →
      call.isGuarded r = false → (Refused r r' outcome ↔
        call.isGuarded r ∧ r.database.assertOpen = .error .closed) := by
    intro α x f hx he hg
    obtain ⟨rfl, rfl⟩ := Prod.mk.inj (Option.some.inj he)
    exact iff_of_false (not_refused hx) (by simp [hg])
  have hquery : ∀ {name condition queryOptions} {f : QueryExecution → HandleResult},
      some (r, (r.database.query name condition queryOptions).map f) = some (r', outcome) →
      (Refused r r' outcome ↔ r.database.assertOpen = .error .closed) := by
    intro name condition queryOptions f he
    obtain ⟨rfl, rfl⟩ := Prod.mk.inj (Option.some.inj he)
    rw [refused_same, map_eq_error]
    exact Database.guard_iff Root.query_failsWith
  have hcheck : call.isGuarded r = true →
      (Refused r r' outcome ↔ r.database.assertOpen = .error .closed) →
      (Refused r r' outcome ↔ call.isGuarded r ∧ r.database.assertOpen = .error .closed) :=
    fun hg hiff => hiff.trans (and_iff_right hg).symm
  cases call with
  | verify =>
      refine hcheck rfl ?_
      obtain ⟨rfl, rfl⟩ := Prod.mk.inj (Option.some.inj h)
      rw [refused_same]
      exact Database.guard_iff (.bind verifyCollections_failsWith fun _ _ => .ok _)
  | collection name =>
      refine hcheck rfl ?_
      obtain ⟨rfl, rfl⟩ := Prod.mk.inj (Option.some.inj h)
      rw [refused_same]
      exact Database.guard_iff (.map Root.stored_failsWith _)
  | subscribe =>
      refine hcheck rfl ?_
      obtain ⟨rfl, rfl⟩ := Prod.mk.inj (Option.some.inj h)
      refine ⟨fun hr => map_eq_error.1 hr.closed, fun ho => ⟨map_eq_error.2 ho, ?_, rfl, rfl⟩⟩
      simp [Database.subscribe, ho]
  | beginTransaction id now =>
      refine hcheck rfl ?_
      obtain ⟨rfl, rfl⟩ := Prod.mk.inj (Option.some.inj h)
      refine ⟨fun hr => map_eq_error.1 hr.closed, fun ho => ?_⟩
      rw [beginTransaction, ho]
      exact refused_same.2 rfl
  | transaction durability allow id now =>
      refine hcheck rfl ?_
      obtain ⟨rfl, rfl⟩ := Prod.mk.inj (Option.some.inj h)
      exact transaction_refused durability allow id now
  | flush id =>
      refine hcheck rfl ?_
      obtain ⟨rfl, rfl⟩ := Prod.mk.inj (Option.some.inj h)
      exact flush_refused id
  | count name => exact hread Root.stored_failsWith h rfl
  | get name primaryKey => exact hread get_failsWith h rfl
  | getOrThrow name primaryKey => exact hread getOrThrow_failsWith h rfl
  | has name primaryKey => exact hread get_failsWith h rfl
  | toArray name => exact hread (.map Root.stored_failsWith _) h rfl
  | filter name predicate => exact hread filter_failsWith h rfl
  | findMany name condition => exact hcheck rfl (hquery h)
  | write id now =>
      refine hcheck rfl ?_
      obtain ⟨rfl, rfl⟩ := Prod.mk.inj (Option.some.inj h)
      exact transaction_refused none false id now
  | query name condition queryOptions => exact hcheck rfl (hquery h)
  | explain name condition queryOptions => exact hcheck rfl (hquery h)
  | operate handle now call =>
      obtain ⟨t, ht, he⟩ := Option.map_eq_some_iff.1 h
      obtain ⟨rfl, rfl⟩ := Prod.mk.inj he
      exact iff_of_false (not_refused Transaction.call_failsWith) (by simp [HandleCall.isGuarded])
  | commit handle now =>
      obtain ⟨t, ht, h⟩ := Option.bind_eq_some_iff.1 h
      obtain ⟨next, hnext, he⟩ := Option.map_eq_some_iff.1 h
      obtain ⟨rfl, rfl⟩ := Prod.mk.inj he
      rw [commit_refused ht hnext]
      simp [HandleCall.isGuarded, ht]

/-- **What is refused after `close`**: exactly the calls whose methods check the lifecycle
state, while it is neither `opened` nor `degraded`; and in every run in which no store
fails and no `#persist` finds the queue full once `close` was called, that is all of
them, from the call of `close` on. -/
theorem refused_after_close_iff (hclosed : r.database.closePromise.isSome)
    (h : r.perform options call = some (r', outcome)) :
    (Refused r r' outcome ↔
      call.isGuarded r ∧ r.database.state ≠ .opened ∧ r.database.state ≠ .degraded) ∧
    ∀ (root : Root) (loaded : Option SnapshotEnvelope) (labels : List Label),
      Transition.Run (step options) (fun r label => r.closesCleanly options label)
          (start options root loaded) labels r →
        (Refused r r' outcome ↔ call.isGuarded r) := by
  refine ⟨refused_iff h, fun root loaded labels hrun => ?_⟩
  obtain ⟨phase, hp⟩ := Option.isSome_iff_exists.1 hclosed
  have hstate := (staysClosing_run (lifecycleInvariant_start options root loaded) hrun).1 phase hp
  rw [refused_iff h, hstate]
  cases phase <;> simp [ClosePhase.state]

/-- A closed database does not verify.  The equivalence applies: `verify` makes its lifecycle
check first. -/
theorem closed_verify_refused : ∃ (r r' : Runtime) (outcome : Except NewtonError HandleResult),
    r.database.state = .closed ∧ r.perform (notesOptions 8 8) .verify = some (r', outcome) ∧
      Refused r r' outcome := by
  obtain ⟨root, r, hroot, h⟩ := exists_run (f := fun root =>
    (Transition.checked (step (notesOptions 8 8)) (closesCleanly (notesOptions 8 8))
      (start (notesOptions 8 8) root none)
      [.transaction none false (js "t") 0, addNote 0 "a", .returns 0, .resume, .startStore 0,
        .settleStore 0 (storedNotes 1 1), .finishStore 0, .wake 0, .close (js "c"), .closeAdapter,
        .finishClose none]).filter fun r =>
          r.database.closePromise.isSome ∧ r.database.state = .closed)
    (by decide +kernel)
  obtain ⟨hrun, hfinal⟩ := Option.filter_eq_some_iff.1 h
  obtain ⟨hclosed, hstate⟩ := of_decide_eq_true hfinal
  have hcall : r.perform (notesOptions 8 8) .verify = some (r, _) := rfl
  obtain ⟨-, hclean⟩ := refused_after_close_iff hclosed hcall
  exact ⟨r, r, _, hstate, hcall, (hclean root none _ (Transition.checked_sound hrun)).2 rfl⟩

/-- **A closed database is read through a collection, and written to in a transaction.**  The
reads of a collection make no lifecycle check, and a transaction that was begun before takes its
writes. -/
theorem closed_collection_read :
    (noNotes.toOption.bind fun root =>
      (Transition.run (step (notesOptions 8 8)) (start (notesOptions 8 8) root none)
        [.transaction none false (js "t") 0, addNote 0 "a", .returns 0, .resume, .startStore 0,
          .settleStore 0 (storedNotes 1 1), .finishStore 0, .wake 0, .beginTransaction (js "u") 0,
          .close (js "c"), .closeAdapter, .finishClose none]).bind fun r =>
      (r.perform (notesOptions 8 8) (.count (js "notes"))).bind fun count =>
      (r.perform (notesOptions 8 8) (.operate 1 0 (.delete (js "notes") (.string (js "a"))))).map
        fun deletion => (r.database.state, count.2.toOption, deletion.2.toOption)) =
      some (.closed, some (.number 1), some (.called .done)) := by
  decide +kernel

end Runtime

end NewtonDB
