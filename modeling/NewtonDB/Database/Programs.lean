/-
# The transactions of a program

A step of a program leaves every transaction alone or does one thing to it
(`Runtime.step_transactions`), so the transactions of a program and the root of
its database keep their invariants (`Runtime.EngineInvariant.step`).
-/

import NewtonDB.Database.Specs
import NewtonDB.Engine.Declarations
import NewtonDB.Store.Scripts

namespace NewtonDB

namespace Runtime

/-- Where a transaction comes from: it is new, it was there, or one that was there
was called, rolled back, finished or published. -/
inductive Derived (options : DatabaseOptions) (r : Runtime) : Transaction → Prop
  | new (id : JsString) (now : ℕ) : Derived options r (.new id now options.transactionLimits)
  | old {t : Transaction} (h : t ∈ r.transactions) : Derived options r t
  | called {t : Transaction} (h : t ∈ r.transactions) (now : ℕ) (c : TransactionCall) :
      Derived options r (t.call r.database.root now c).1
  | rolledBack {t : Transaction} (h : t ∈ r.transactions) : Derived options r t.rollback
  | finished {t : Transaction} (h : t ∈ r.transactions) (status : TransactionStatus) :
      Derived options r { t with status }
  | published {t : Transaction} (h : t ∈ r.transactions) : Derived options r t.sealWorking

/-- All transactions come from those of another program. -/
def AllDerived (options : DatabaseOptions) (r r' : Runtime) : Prop :=
  ∀ t ∈ r'.transactions, Derived options r t

variable {options : DatabaseOptions} {r r' r₁ : Runtime} {label : Label}

namespace AllDerived

/-- Transactions that are as they were were derived from themselves. -/
theorem same (h : r'.transactions = r.transactions) : AllDerived options r r' := fun _ ht =>
  .old (h ▸ ht)

/-- One transaction more begins.  It is a new one, and the others are kept. -/
theorem concat (id : JsString) (now : ℕ)
    (h : r'.transactions = r.transactions ++ [.new id now options.transactionLimits]) :
    AllDerived options r r' := by
  intro t ht
  rw [h] at ht
  rcases List.mem_append.1 ht with ht | ht
  · exact .old ht
  · rw [List.mem_singleton.1 ht]
    exact .new id now

/-- One transaction is set to what was derived from it. -/
theorem set {handle : ℕ} {t : Transaction} (ht : Derived options r t)
    (h : r'.transactions = r.transactions.set handle t) : AllDerived options r r' := by
  intro t' hm
  rw [h] at hm
  rcases List.mem_or_eq_of_mem_set hm with hm | rfl
  · exact .old hm
  · exact ht

/-- One transaction is changed to what is derived from it.  All the others are kept. -/
theorem modify {handle : ℕ} {f : Transaction → Transaction}
    (hf : ∀ t ∈ r.transactions, Derived options r (f t))
    (h : r'.transactions = r.transactions.modify handle f) : AllDerived options r r' := by
  intro t' hm
  rw [h] at hm
  obtain ⟨i, hi⟩ := List.mem_iff_getElem?.1 hm
  rw [List.getElem?_modify] at hi
  obtain ⟨t, ht, rfl⟩ := Option.map_eq_some_iff.1 hi
  have hmem := List.mem_of_getElem? ht
  split_ifs
  · exact hf t hmem
  · exact .old hmem

end AllDerived

/-- A commit that throws leaves the transactions. -/
theorem transactions_throwFromCommit (r : Runtime) (caller : Option ℕ) (error : NewtonError) :
    (r.throwFromCommit caller error).transactions = r.transactions := by
  cases caller <;> rfl

/-- A publication leaves the transactions but for the one it finishes.  The root and the event
queue change besides, which no transaction reads before its next call. -/
theorem publish_transactions (handle : ℕ) (caller : Option ℕ) (committed : Committed)
    (ht : r₁.transactions = r.transactions) :
    AllDerived options r (r₁.publish options handle caller committed) := by
  unfold Runtime.publish
  cases committed.batch with
  | none => exact .same ht
  | some batch =>
      have hmodify : r₁.transactions.modify handle Transaction.sealWorking =
          r.transactions.modify handle Transaction.sealWorking := by rw [ht]
      exact .modify (fun t h => .published h) hmodify

/-- **A commit finishes its transaction**, or leaves it when it is refused, and leaves all the
others. -/
theorem commit_transactions {handle now : ℕ} {caller : Option ℕ}
    (hc : r₁.commit options handle now caller = some r')
    (ht : r₁.transactions = r.transactions) : AllDerived options r r' := by
  obtain ⟨t, hmem, rfl⟩ := Option.map_eq_some_iff.1 hc
  have hknown : t ∈ r.transactions := ht ▸ List.mem_of_getElem? hmem
  split
  · exact .same ((transactions_throwFromCommit ..).trans ht)
  · split
    · have hset : r₁.transactions.set handle { t with status := .rolledBack } =
          r.transactions.set handle { t with status := .rolledBack } := by rw [ht]
      exact .set (.finished hknown .rolledBack) ((transactions_throwFromCommit ..).trans hset)
    · exact publish_transactions handle caller _ ht

/-- What follows a commit leaves the transactions.  What is left is to settle a call or to make
it wait for its store. -/
theorem afterCommit_transactions {call : ℕ} {receipt : CommitReceipt}
    (h : r₁.afterCommit options call receipt = some r') : r'.transactions = r₁.transactions := by
  unfold afterCommit at h
  split at h
  · split_ifs at h
    · rw [← Option.some.inj h]; rfl
    · rw [← Option.some.inj h]
    · rw [← Option.some.inj h]; rfl
  · cases h

/-- A hook that ends leaves the transactions but for the one that is committed.  Its status is
set to committed when the commit returns its receipt. -/
theorem resume_transactions (h : r.resume options = some r') : AllDerived options r r' := by
  unfold resume at h
  split at h
  · next handle caller receipt rest _ =>
      have hmodify : r'.transactions =
          r.transactions.modify handle ({ · with status := .committed }) := by
        cases caller with
        | none => rw [← Option.some.inj h]
        | some call => exact afterCommit_transactions h
      exact .modify (fun t ht => .finished ht .committed) hmodify
  · rw [← Option.some.inj h]
    exact .same rfl
  · rw [← Option.some.inj h]
    refine .same ?_
    unfold nextBatch
    split <;> rfl
  · cases h

/-- A callback that failed rolls its transaction back.  A transaction that the callback had
committed or rolled back itself stays as it is. -/
theorem abandon_transactions {call : ℕ} {error : NewtonError}
    (h : r₁.abandon call error = some r') (ht : r₁.transactions = r.transactions) :
    AllDerived options r r' := by
  unfold abandon at h
  split at h
  · next durability handle _ =>
      rw [← Option.some.inj h]
      have hmodify : r₁.transactions.modify handle Transaction.rollback =
          r.transactions.modify handle Transaction.rollback := by rw [ht]
      exact .modify (fun t ht => .rolledBack ht) hmodify
  · cases h

/-- A callback that returned finishes its transaction. -/
theorem commitCallback_transactions {call now : ℕ}
    (h : r₁.commitCallback options call now = some r')
    (ht : r₁.transactions = r.transactions) : AllDerived options r r' := by
  unfold commitCallback at h
  split at h
  · exact commit_transactions h ht
  · cases h

/-- **What a call of a method does to the transactions**, one case for each method.  A method of
a handle changes the transaction of that handle, and `beginTransaction` adds one. -/
theorem call_transactions (h : r.call options label = some r') : AllDerived options r r' := by
  cases label with
  | beginTransaction id now =>
      rw [← Option.some.inj h]
      unfold beginTransaction
      split
      · exact .same rfl
      · exact .concat id now rfl
  | operate handle now c =>
      obtain ⟨t, ht, rfl⟩ := Option.map_eq_some_iff.1 h
      exact .set (.called (List.mem_of_getElem? ht) now c) rfl
  | rollback handle =>
      rw [← Option.some.inj h]
      exact .modify (fun t ht => .rolledBack ht) rfl
  | commit handle now => exact commit_transactions h rfl
  | transaction durability allow id now =>
      rw [← Option.some.inj h]
      unfold transaction
      dsimp only
      split
      · exact .same rfl
      · generalize durability.getD _ = durability
        split_ifs
        · exact .same rfl
        · exact .same rfl
        · exact .concat id now rfl
  | flush id =>
      rw [← Option.some.inj h]
      refine .same ?_
      unfold flush
      dsimp only
      split <;> rfl
  | close id | subscribe | unsubscribe id =>
      rw [← Option.some.inj h]
      exact .same rfl
  | returns now =>
      unfold call returns at h
      dsimp only at h
      split at h
      · exact commitCallback_transactions h rfl
      · rw [← Option.some.inj h]; exact .same rfl
      · rw [← Option.some.inj h]; exact .same rfl
      · rw [← Option.some.inj h]; exact .same rfl
      · cases h
  | throws =>
      unfold call throws at h
      dsimp only at h
      split at h
      · exact abandon_transactions h rfl
      · rw [← Option.some.inj h]; exact .same rfl
      · rw [← Option.some.inj h]; exact .same rfl
      · rw [← Option.some.inj h]; exact .same rfl
      · cases h
  | returnsPromise =>
      unfold call returnsPromise at h
      dsimp only at h
      split at h
      · exact abandon_transactions h rfl
      · cases h
  | _ => cases h

/-- A step of the database alone leaves the transactions. -/
theorem withDatabase_transactions {db : Option Database} (h : r.withDatabase db = some r') :
    AllDerived options r r' := by
  obtain ⟨db', -, rfl⟩ := Option.map_eq_some_iff.1 h
  exact .same rfl

/-- A step while no call runs leaves the transactions, or rolls one back.  The roll back is that
of a `transaction` whose promise-like result settles; the other steps are those of storage and
of the queues. -/
theorem idle_transactions (h : r.idle options label = some r') : AllDerived options r r' := by
  cases label with
  | wake call =>
      unfold idle wake at h
      dsimp only at h
      split at h
      · obtain ⟨result, -, rfl⟩ := Option.map_eq_some_iff.1 h
        cases result <;> exact .same rfl
      · obtain ⟨result, -, rfl⟩ := Option.map_eq_some_iff.1 h
        cases result <;> exact .same rfl
      · cases h
  | dispatch =>
      unfold idle at h
      dsimp only at h
      split_ifs at h
      rw [← Option.some.inj h]
      refine .same ?_
      unfold nextBatch
      split <;> rfl
  | startStore | settleStore | finishStore | closeAdapter | finishClose =>
      exact withDatabase_transactions h
  | _ => cases h

/-- **A step does at most one thing to each transaction.**  It stays as it was, it is called
once, finished once or rolled back; so what these keep, every step keeps. -/
theorem step_transactions (h : r.step options label = some r') : AllDerived options r r' := by
  unfold step at h
  split_ifs at h
  · rcases Option.or_eq_some_iff.1 h with hc | ⟨-, hi⟩
    · exact call_transactions hc
    · exact idle_transactions hi
  · rw [Option.or_none] at h
    exact call_transactions h
  · exact resume_transactions h

/-! ### The invariants of the engine -/

/-- The root and all transactions have their invariants. -/
structure EngineInvariant (r : Runtime) : Prop where
  root : r.database.root.Invariant
  transactions : ∀ t ∈ r.transactions, t.Invariant

namespace EngineInvariant

/-- The invariants of the engine hold of a program that was just opened. -/
theorem start {root : Root} (h : root.Invariant) (stored : Option SnapshotEnvelope) :
    (Runtime.start options root stored).EngineInvariant :=
  ⟨h, fun _ ht => by cases ht⟩

/-- **Every step keeps the invariants of the engine.**  A transaction changes by a call, a
commit or a rollback, and the root by a commit: each of these keeps its invariant. -/
theorem step (h : r.EngineInvariant) (hs : r.step options label = some r') :
    r'.EngineInvariant := by
  refine ⟨?_, fun t' ht' => ?_⟩
  · rcases (step_storage hs).root with he | ⟨t, ht, committed, -, hc, he⟩
    · rw [he]; exact h.root
    · rw [he]; exact h.root.commit (h.transactions t ht) hc
  · cases step_transactions hs t' ht' with
    | new id now => exact Transaction.Invariant.new id now options.transactionLimits
    | old ht => exact h.transactions _ ht
    | called ht now c => exact (h.transactions _ ht).call h.root c
    | rolledBack ht =>
        exact Transaction.All.rollback (P := fun _ w => w.Invariant) (h.transactions _ ht)
    | finished ht status => exact (h.transactions _ ht).of_working rfl
    | published ht =>
        exact Transaction.All.sealWorking (P := fun _ w => w.Invariant) (h.transactions _ ht)
          fun _ _ hw => hw.seal

end EngineInvariant

/-- The invariants of the engine hold, and every collection is as declared. -/
structure Declared (schemas : List (JsString × CollectionSchema)) (r : Runtime) : Prop where
  engine : r.EngineInvariant
  root : r.database.root.Declares schemas
  transactions : ∀ t ∈ r.transactions, t.All (WorkingCollection.Declared schemas)

namespace Declared

variable {schemas : List (JsString × CollectionSchema)}

/-- In a program that was just opened every collection is declared. -/
theorem start {root : Root} (h : root.Invariant) (hd : root.Declares schemas)
    (stored : Option SnapshotEnvelope) : (Runtime.start options root stored).Declared schemas :=
  ⟨.start h stored, hd, fun _ ht => by cases ht⟩

/-- **Every step keeps what is declared.**  The schemas and the definitions of the indexes stay
those of the first root. -/
theorem step (h : r.Declared schemas) (hs : r.step options label = some r') :
    r'.Declared schemas := by
  refine ⟨h.engine.step hs, ?_, fun t' ht' => ?_⟩
  · rcases (step_storage hs).root with he | ⟨t, ht, committed, -, hc, he⟩
    · rw [he]; exact h.root
    · rw [he]; exact h.root.commit (h.transactions t ht) hc
  · cases step_transactions hs t' ht' with
    | new id now => exact .new _ id now options.transactionLimits
    | old ht => exact h.transactions _ ht
    | called ht now c => exact (h.transactions _ ht).call (kept_declared h.engine.root h.root) c
    | rolledBack ht => exact (h.transactions _ ht).rollback
    | finished ht status => exact (h.transactions _ ht).of_working rfl
    | published ht =>
        exact (h.transactions _ ht).sealWorking fun _ _ hw => ⟨hw.1.seal, hw.2⟩

end Declared

/-- **A program that got somewhere**: some first root was made of a seed, or of the
documents of a snapshot, and some run from there led to it. -/
def Reached (options : DatabaseOptions) (schemas : List (JsString × CollectionSchema))
    (r : Runtime) : Prop :=
  ∃ (σ : Type) (_ : DecidableEq σ) (graph : JsGraph σ) (seed : List (JsString × List σ))
    (revision : ℕ) (root : Root) (stored : Option SnapshotEnvelope) (labels : List Label),
    createRoot graph seed schemas revision = .ok root ∧
      Transition.Run (step options) (fun _ _ => True) (.start options root stored) labels r

/-- **In every program that is reached every collection is declared.**  It holds of the first
root, and every step keeps it. -/
theorem Reached.declared {schemas : List (JsString × CollectionSchema)}
    (h : r.Reached options schemas) : r.Declared schemas := by
  obtain ⟨σ, _, graph, seed, revision, root, stored, labels, hroot, hrun⟩ := h
  exact hrun.invariant (P := Declared schemas)
    (.start (createRoot_invariant hroot).1 (createRoot_declares hroot) stored)
    fun _ _ _ h _ hs => h.step hs

/-! ### A small database -/

/-- The schema of a collection of notes. -/
def notes : CollectionSchema where
  generatePrimaryKey := none
  indexes := []
  primaryKey := js "id"
  validate := none
  limits := .none

/-- The first root of a database of notes without any. -/
def noNotes : Except NewtonError Root :=
  createRoot Json.graph [(js "notes", [])] [(js "notes", notes)] 0

/-- A database of notes on an adapter, with both hooks. -/
def notesOptions (maxPendingSnapshots maxQueuedBatches : ℕ) : DatabaseOptions where
  adapter := true
  catalog := createCatalog leUnits [(js "notes", notes)]
  commit := { databaseId := js "db", includeDocuments := false, verifyInvariants := true }
  eventLimits := { maxQueuedBatches, maxQueuedChanges := defaultEventLimits.maxQueuedChanges }
  onEventOverflow := true
  onListenerError := true
  persistenceLimits := { maxPendingSnapshots }
  transactionLimits := defaultTransactionLimits

/-- A transaction writes a note. -/
def addNote (handle : ℕ) (id : String) : Label :=
  .operate handle 0 (.insert (js "notes") (.plain [(js "id", .string (js id))]) .other)

/-- The adapter stored what it was given. -/
def storedNotes (generation revision : ℕ) : StoreOutcome :=
  .acknowledged { databaseId := js "db", generation, revision }

/-- What a run from some first root shows. -/
theorem exists_run_from {α : Type} (first : Except NewtonError Root) {f : Root → Option α}
    (h : (first.toOption.bind f).isSome) : ∃ root a, first = .ok root ∧ f root = some a := by
  obtain ⟨a, ha⟩ := Option.isSome_iff_exists.1 h
  obtain ⟨root, hroot, hf⟩ := Option.bind_eq_some_iff.1 ha
  exact ⟨root, a, eq_ok_of_toOption hroot, hf⟩

/-- What a run over the database of notes shows. -/
theorem exists_run {α : Type} {f : Root → Option α} (h : (noNotes.toOption.bind f).isSome) :
    ∃ root a, noNotes = .ok root ∧ f root = some a :=
  exists_run_from noNotes h

/-- The program starts somewhere. -/
theorem Reached.start {root : Root} (h : noNotes = .ok root) (options : DatabaseOptions)
    (stored : Option SnapshotEnvelope) :
    (Runtime.start options root stored).Reached options [(js "notes", notes)] :=
  ⟨Json, _, _, _, _, _, _, [], h, .start⟩

end Runtime

end NewtonDB
