/-
# What a step does to the database

Most steps of a program leave the part of the database alone that storage
depends on: its root, its lifecycle and its queue of stores.  `Effect` lists the
steps that do not, with all they need and all they change, and
`Runtime.step_effect` says that the list is complete.  Whatever holds in every
run is proved from this list, and no later proof opens `Runtime.step`.
-/

import NewtonDB.Database.Runtime

namespace NewtonDB

/-- An event that concerns the root or the storage adapter. -/
def DatabaseEvent.isStorage : DatabaseEvent → Bool
  | .published _ | .queued _ | .store .. | .acknowledged .. | .failed _ => true
  | .adapterClose | .close _ => true
  | _ => false

/-- Neither such an event nor a promise that resolves. -/
def DatabaseEvent.isSilent : DatabaseEvent → Bool
  | .transaction _ (.ok _) | .flush _ (.ok _) => false
  | e => !e.isStorage

/-- An event that leaves storage alone. -/
def DatabaseEvent.isQuiet (e : DatabaseEvent) : Bool := !e.isStorage

/-- An event that promises nothing leaves storage alone. -/
theorem DatabaseEvent.isQuiet_of_isSilent {e : DatabaseEvent} (h : e.isSilent) : e.isQuiet := by
  unfold DatabaseEvent.isSilent at h
  split at h
  · cases h
  · cases h
  · exact h

/-- The part of a database that storage depends on is the same, and only events of
one kind happened. -/
structure Database.Quiet (kind : DatabaseEvent → Bool) (db db' : Database) : Prop where
  root : db'.root = db.root
  state : db'.state = db.state
  closePromise : db'.closePromise = db.closePromise
  generation : db'.generation = db.generation
  persistedRevision : db'.persistedRevision = db.persistedRevision
  pendingPersistence : db'.pendingPersistence = db.pendingPersistence
  persistenceByRevision : db'.persistenceByRevision = db.persistenceByRevision
  tasks : db'.tasks = db.tasks
  history : ∃ events, db'.history = events ++ db.history ∧ ∀ e ∈ events, kind e

namespace Database.Quiet

variable {kind kind' : DatabaseEvent → Bool} {db db' db'' : Database}

/-- To do nothing is quiet. -/
theorem refl (db : Database) : db.Quiet kind db :=
  ⟨rfl, rfl, rfl, rfl, rfl, rfl, rfl, rfl, [], rfl, by simp⟩

/-- To put an event of a kind on record is quiet. -/
theorem record {event : DatabaseEvent} (h : kind event) (db : Database) :
    db.Quiet kind (db.record event) :=
  ⟨rfl, rfl, rfl, rfl, rfl, rfl, rfl, rfl, [event], rfl, by simpa using h⟩

/-- Two quiet changes are a quiet one.  What is on record of the second comes after that of the
first, and all of it is of the kind. -/
theorem trans (h : db.Quiet kind db') (h' : db'.Quiet kind db'') : db.Quiet kind db'' := by
  obtain ⟨events, hh, he⟩ := h.history
  obtain ⟨events', hh', he'⟩ := h'.history
  refine ⟨h'.root.trans h.root, h'.state.trans h.state, h'.closePromise.trans h.closePromise,
    h'.generation.trans h.generation, h'.persistedRevision.trans h.persistedRevision,
    h'.pendingPersistence.trans h.pendingPersistence,
    h'.persistenceByRevision.trans h.persistenceByRevision, h'.tasks.trans h.tasks,
    events' ++ events, by rw [hh', hh, List.append_assoc], fun e hm => ?_⟩
  exact (List.mem_append.1 hm).elim (he' e) (he e)

/-- What is quiet with some events is quiet with more of them. -/
theorem mono (h : db.Quiet kind db') (hle : ∀ e, kind e → kind' e) : db.Quiet kind' db' := by
  obtain ⟨events, hh, he⟩ := h.history
  exact ⟨h.root, h.state, h.closePromise, h.generation, h.persistedRevision,
    h.pendingPersistence, h.persistenceByRevision, h.tasks, events, hh,
    fun e hm => hle e (he e hm)⟩

/-- To mark a callback is quiet. -/
theorem setCallbackActive (db : Database) (b : Bool) :
    db.Quiet kind { db with transactionCallbackActive := b } :=
  ⟨rfl, rfl, rfl, rfl, rfl, rfl, rfl, rfl, [], rfl, by simp⟩

/-- To subscribe is quiet. -/
theorem subscribe (db : Database) : db.Quiet kind db.subscribe := by
  unfold Database.subscribe
  split
  · exact .refl db
  · exact ⟨rfl, rfl, rfl, rfl, rfl, rfl, rfl, rfl, [], rfl, by simp⟩

/-- To unsubscribe is quiet. -/
theorem unsubscribe (db : Database) (id : ℕ) : db.Quiet kind (db.unsubscribe id) :=
  ⟨rfl, rfl, rfl, rfl, rfl, rfl, rfl, rfl, [], rfl, by simp⟩

/-- To queue a batch is quiet: what is put on record promises nothing. -/
theorem enqueue (options : DatabaseOptions) (db : Database) (batch : ChangeBatch) :
    db.Quiet DatabaseEvent.isSilent (db.enqueue options batch).1 := by
  unfold Database.enqueue
  split_ifs
  · exact .record rfl db
  · exact ⟨rfl, rfl, rfl, rfl, rfl, rfl, rfl, rfl, [], rfl, by simp⟩

end Database.Quiet

/-- A call that waits. -/
def AsyncCall.isWaiting : AsyncCall → Bool
  | .persisting .. | .flushing .. => true
  | _ => false

/-- No call started to wait and no commit is under way that was not before. -/
structure Runtime.Kept (r r' : Runtime) : Prop where
  calls : ∀ (i : ℕ) (c : AsyncCall), r'.calls[i]? = some c → c.isWaiting → r.calls[i]? = some c
  frames : ∀ handle caller receipt, Frame.committed handle caller receipt ∈ r'.stack →
    Frame.committed handle caller receipt ∈ r.stack

/-- A `transaction` that is to persist its commit. -/
def Runtime.persists (r : Runtime) (call : ℕ) : Bool :=
  match r.calls[call]? with
  | some (.running durability _) => durability = .persisted
  | _ => false

/-- The root of a commit is published, if it changed anything. -/
def Database.publish (db : Database) (committed : Committed) : Database :=
  match committed.batch with
  | none => db
  | some _ => { db with root := committed.root }.record (.published committed.root)

/-- **What a step can do to the part of the database that storage depends on.** -/
inductive Runtime.Effect (options : DatabaseOptions) (r : Runtime) : Label → Runtime → Prop
  | quiet {label : Label} {r' : Runtime} (database : r.database.Quiet DatabaseEvent.isSilent r'.database)
      (kept : r.Kept r') : Effect options r label r'
  | commit {label : Label} {r' : Runtime} (t : Transaction) (committed : Committed)
      (known : t ∈ r.transactions) (usable : r.database.assertOpen = .ok ())
      (ok : r.database.root.commit options.commit t = .ok committed)
      (database : (r.database.publish committed).Quiet DatabaseEvent.isSilent r'.database)
      (calls : r'.calls = r.calls)
      (frames : ∀ handle caller receipt, Frame.committed handle caller receipt ∈ r'.stack →
        Frame.committed handle caller receipt ∈ r.stack ∨ receipt = committed.receipt) :
      Effect options r label r'
  | resolveMemory {r' : Runtime} (handle call : ℕ) (receipt : CommitReceipt)
      (frame : .committed handle (some call) receipt ∈ r.stack)
      (database : r'.database = (r.database.record (.committed handle
        (r.receiptOf handle receipt))).record (.transaction call (.ok (r.receiptOf handle receipt))))
      (kept : r.Kept r') : Effect options r .resume r'
  | resolvePersisted {r' : Runtime} (handle call : ℕ) (receipt : CommitReceipt)
      (frame : .committed handle (some call) receipt ∈ r.stack)
      (adapter : options.adapter)
      (persisted : receipt.revision ≤ r.database.persistedRevision)
      (database : r'.database = (r.database.record (.committed handle
        (r.receiptOf handle receipt))).record (.transaction call
          (.ok { r.receiptOf handle receipt with durability := .persisted })))
      (kept : r.Kept r') : Effect options r .resume r'
  | persist {r' : Runtime} (handle call : ℕ) (receipt : CommitReceipt) (rest : List Frame)
      (stack : r.stack = .committed handle (some call) receipt :: rest)
      (persists : r.persists call) (adapter : options.adapter)
      (pending : r.database.persistedRevision < receipt.revision)
      (database : r'.database = ((r.database.record (.committed handle
        (r.receiptOf handle receipt))).persist options (r.receiptOf handle receipt)).1)
      (calls : r'.calls = r.calls.set call (.persisting (r.receiptOf handle receipt)
        ((r.database.record (.committed handle (r.receiptOf handle receipt))).persist options
          (r.receiptOf handle receipt)).2))
      (rest : r'.stack = rest) : Effect options r .resume r'
  | flush {r' : Runtime} (id : JsString) (usable : r.database.assertOpen = .ok ())
      (database : r'.database = (r.database.flushNow options id).1)
      (calls : r'.calls = r.calls ++ [.flushing r.database.root.revision
        (r.database.flushNow options id).2])
      (stack : r'.stack = r.stack) : Effect options r (.flush id) r'
  | wakeTransaction {r' : Runtime} (call : ℕ) (receipt : CommitReceipt) (waiting : Waiting)
      (waits : r.calls[call]? = some (.persisting receipt waiting))
      (ended : r.database.outcome waiting = some none)
      (database : r'.database = r.database.record
        (.transaction call (.ok { receipt with durability := .persisted })))
      (kept : r.Kept r') : Effect options r (.wake call) r'
  | wakeFlush {r' : Runtime} (call target : ℕ) (waiting : Waiting)
      (waits : r.calls[call]? = some (.flushing target waiting))
      (ended : r.database.outcome waiting = some none)
      (database : r'.database = r.database.record (.flush call (.ok target)))
      (kept : r.Kept r') : Effect options r (.wake call) r'
  | close {r' : Runtime} (id : JsString) (database : r'.database = r.database.close options id)
      (kept : r.Kept r') : Effect options r (.close id) r'
  | startStore {r' : Runtime} (index : ℕ)
      (database : r.database.startStore options index = some r'.database)
      (kept : r.Kept r') : Effect options r (.startStore index) r'
  | settleStore {r' : Runtime} (index : ℕ) (outcome : StoreOutcome)
      (database : r.database.settleStore options index outcome = some r'.database)
      (kept : r.Kept r') : Effect options r (.settleStore index outcome) r'
  | finishStore {r' : Runtime} (index : ℕ)
      (database : r.database.finishStore index = some r'.database)
      (kept : r.Kept r') : Effect options r (.finishStore index) r'
  | closeAdapter {r' : Runtime} (database : r.database.closeAdapter options = some r'.database)
      (kept : r.Kept r') : Effect options r .closeAdapter r'
  | finishClose {r' : Runtime} (failure : Option NewtonError)
      (database : r.database.finishClose failure = some r'.database)
      (kept : r.Kept r') : Effect options r (.finishClose failure) r'

namespace Runtime

variable {options : DatabaseOptions} {r r' : Runtime} {label : Label}

/-! ### Nothing new waits -/

namespace Kept

/-- Calls and frames are kept when no call changes and no frame is new. -/
theorem of_subset (calls : r'.calls = r.calls) (stack : r'.stack ⊆ r.stack) : r.Kept r' :=
  ⟨fun _ _ h _ => calls ▸ h, fun _ _ _ h => stack h⟩

/-- Calls and frames are kept when one call settles.  Another call stays where it is, and the
one that settles waits no longer. -/
theorem settled {call : ℕ} (calls : r'.calls = r.calls.set call .settled)
    (stack : r'.stack ⊆ r.stack) : r.Kept r' := by
  refine ⟨fun i c h hc => ?_, fun _ _ _ h => stack h⟩
  rw [calls, List.getElem?_set] at h
  split_ifs at h with hi hlt
  · obtain rfl := Option.some.inj h
    cases hc
  · exact h

/-- Calls and frames are kept when a call is added that does not wait.  The calls before it keep
their numbers. -/
theorem concat {c : AsyncCall} (hc : c.isWaiting = false) (calls : r'.calls = r.calls ++ [c])
    (stack : ∀ handle caller receipt, Frame.committed handle caller receipt ∈ r'.stack →
      Frame.committed handle caller receipt ∈ r.stack) : r.Kept r' := by
  refine ⟨fun i d h hd => ?_, stack⟩
  rw [calls, List.getElem?_append] at h
  split_ifs at h with hi
  · exact h
  · obtain ⟨_, hdc⟩ := List.getElem?_eq_some_iff.1 h
    rw [List.getElem_singleton] at hdc
    rw [hdc, hd] at hc
    cases hc

end Kept

/-! ### Each kind of step -/

/-- A runtime in the middle of a step that did nothing of note so far. -/
structure Near (r r₁ : Runtime) : Prop where
  database : r.database.Quiet DatabaseEvent.isSilent r₁.database
  history : r₁.database.history = r.database.history
  calls : r₁.calls = r.calls
  stack : r₁.stack ⊆ r.stack

variable {r₁ : Runtime}

/-- A step that did nothing of note has the effect of none. -/
theorem Near.effect (h : r.Near r₁) : Effect options r label r₁ :=
  .quiet h.database (.of_subset h.calls h.stack)

/-- The promise of a `transaction` rejects. -/
theorem Near.reject (h : r.Near r₁) (call : ℕ) (error : NewtonError) :
    Effect options r label (r₁.settleTransaction call (.error error)) :=
  .quiet (h.database.trans (.record rfl _))
    (.settled (by rw [← h.calls]; rfl) h.stack)

/-- A commit that throws has the effect of nothing of note. -/
theorem Near.throwFromCommit (h : r.Near r₁) (caller : Option ℕ) (error : NewtonError) :
    Effect options r label (r₁.throwFromCommit caller error) := by
  cases caller with
  | none => exact h.effect
  | some call => exact h.reject call error

/-- A commit of the user's code, or of a `transaction` whose callback returned.  A commit that
is refused or fails changes no storage; one that goes through publishes its root and is put on
record. -/
theorem Near.commit (h : r.Near r₁) (ht : r₁.transactions = r.transactions) {handle now : ℕ}
    {caller : Option ℕ} (hc : r₁.commit options handle now caller = some r') :
    Effect options r label r' := by
  obtain ⟨t, hmem, rfl⟩ := Option.map_eq_some_iff.1 hc
  have hknown : t ∈ r.transactions := ht ▸ List.mem_of_getElem? hmem
  have hopen : r₁.database.assertOpen = r.database.assertOpen := by
    rw [Database.assertOpen, h.database.state]; rfl
  split
  · exact h.throwFromCommit caller _
  · rw [hopen, h.database.root]
    split
    · next error _ =>
        have hnear : r.Near { r₁ with
            transactions := r₁.transactions.set handle { t with status := .rolledBack } } :=
          ⟨h.database, h.history, h.calls, h.stack⟩
        exact hnear.throwFromCommit caller error
    · next committed hok =>
        obtain ⟨_, husable, hok⟩ := bind_eq_ok.1 hok
        refine .commit t committed hknown husable hok ?_ ?_ ?_
        · unfold Runtime.publish Database.publish
          cases committed.batch with
          | none => exact h.database
          | some batch =>
              refine Database.Quiet.trans ?_ (.enqueue options _ batch)
              exact ⟨rfl, h.database.state, h.database.closePromise, h.database.generation,
                h.database.persistedRevision, h.database.pendingPersistence,
                h.database.persistenceByRevision, h.database.tasks, [],
                congrArg (_ :: ·) h.history, by simp⟩
        · unfold Runtime.publish
          cases committed.batch with
          | none => exact h.calls
          | some batch => exact h.calls
        · intro handle' caller' receipt hm
          have hnew : Frame.committed handle' caller' receipt ∈
              Frame.committed handle caller committed.receipt :: r₁.stack := by
            unfold Runtime.publish at hm
            cases hb : committed.batch with
            | none => rwa [hb] at hm
            | some batch =>
                rw [hb] at hm
                dsimp only at hm
                split_ifs at hm
                · simpa using hm
                · exact hm
          rcases List.mem_cons.1 hnew with heq | hold
          · exact .inr (Frame.committed.inj heq).2.2
          · exact .inl (h.stack hold)

/-- A `transaction` after its commit.  It returns the receipt, or, when the commit is to be
persisted, queues a store and starts to wait. -/
theorem resumeCommit_effect {handle : ℕ} {caller : Option ℕ} {receipt : CommitReceipt}
    {rest : List Frame} (hs : r.stack = .committed handle caller receipt :: rest)
    (h : { r with stack := rest }.resumeCommit options handle caller receipt = some r') :
    Effect options r .resume r' := by
  have hquiet : r.database.Quiet DatabaseEvent.isSilent
      (r.database.record (.committed handle (r.receiptOf handle receipt))) := .record rfl _
  have hrest : rest ⊆ r.stack := hs ▸ List.subset_cons_self ..
  cases caller with
  | none =>
      obtain rfl := Option.some.inj h
      exact .quiet hquiet (.of_subset rfl hrest)
  | some call =>
      have hmem : Frame.committed handle (some call) receipt ∈ r.stack :=
        hs ▸ List.mem_cons_self ..
      unfold resumeCommit afterCommit at h
      dsimp only at h
      split at h
      · next durability _ hrun =>
          split_ifs at h with hmemory hpending
          · obtain rfl := Option.some.inj h
            exact .resolveMemory handle call receipt hmem rfl (.settled rfl hrest)
          · obtain rfl := Option.some.inj h
            obtain ⟨hdurability, hadapter⟩ := not_or.1 hmemory
            have hpersists : r.persists call := by
              rw [persists, hrun]
              cases durability with
              | memory => exact absurd rfl hdurability
              | persisted => rfl
            exact .persist handle call receipt rest hs hpersists (by simpa using hadapter) hpending
              rfl rfl rfl
          · obtain rfl := Option.some.inj h
            obtain ⟨-, hadapter⟩ := not_or.1 hmemory
            exact .resolvePersisted handle call receipt hmem (by simpa using hadapter)
              (not_lt.1 hpending) rfl (.settled rfl hrest)
      · cases h

/-- The loop over the event queue.  It takes a batch off the queue and puts that on record;
storage has no part in it. -/
theorem nextBatch_effect {rest : List Frame} (h : rest ⊆ r.stack) :
    Effect options r label (r.nextBatch rest) := by
  unfold nextBatch
  split
  · exact .quiet ⟨rfl, rfl, rfl, rfl, rfl, rfl, rfl, rfl, [], rfl, by simp⟩ (.of_subset rfl h)
  · refine .quiet ⟨rfl, rfl, rfl, rfl, rfl, rfl, rfl, rfl, [_], rfl, ?_⟩
      ⟨fun _ _ hc _ => hc, fun handle caller receipt hm => h ?_⟩
    · simp [DatabaseEvent.isSilent, DatabaseEvent.isStorage]
    · simpa using hm

/-- The database goes on after the user's code.  What goes on is the frame that is now on top:
the rest of a commit, or a loop over listeners. -/
theorem resume_effect (h : r.resume options = some r') : Effect options r .resume r' := by
  unfold resume at h
  split at h
  · next handle caller receipt rest hs => exact resumeCommit_effect hs h
  · next batch listener listeners rest hs =>
      obtain rfl := Option.some.inj h
      refine .quiet (.record rfl _) ⟨fun _ _ hc _ => hc, fun _ _ _ hm => ?_⟩
      rw [hs]
      simpa using hm
  · next batch rest hs =>
      obtain rfl := Option.some.inj h
      exact nextBatch_effect (hs ▸ List.subset_cons_self ..)
  · cases h

/-- The callback of a `transaction` ended without a result to commit.  Its call settles with the
error, and its transaction is rolled back. -/
theorem Near.abandon (h : r.Near r₁) {call : ℕ} {error : NewtonError}
    (ha : r₁.abandon call error = some r') : Effect options r label r' := by
  unfold Runtime.abandon at ha
  split at ha
  · next durability handle _ =>
      obtain rfl := Option.some.inj ha
      have hnear : r.Near { r₁ with
          database := { r₁.database with transactionCallbackActive := false }
          transactions := r₁.transactions.modify handle Transaction.rollback } :=
        ⟨h.database.trans (.setCallbackActive _ _), h.history, h.calls, h.stack⟩
      exact hnear.reject call error
  · cases ha

/-- The callback of a `transaction` returned.  The mark of a callback is taken off before the
commit, which is near enough for the commit's own lemma. -/
theorem Near.commitCallback (h : r.Near r₁) (ht : r₁.transactions = r.transactions)
    {call now : ℕ} (hc : r₁.commitCallback options call now = some r') : Effect options r label r' := by
  unfold Runtime.commitCallback at hc
  split at hc
  · have hnear : r.Near { r₁ with
        database := { r₁.database with transactionCallbackActive := false } } :=
      ⟨h.database.trans (.setCallbackActive _ _), h.history, h.calls, h.stack⟩
    exact hnear.commit ht hc
  · cases hc

/-- The stack lost its top. -/
theorem near_pop {frame : Frame} {rest : List Frame} (h : r.stack = frame :: rest) :
    r.Near { r with stack := rest } :=
  ⟨.refl _, rfl, rfl, h ▸ List.subset_cons_self ..⟩

/-- The user's code ended in a hook or a listener: no commit is under way that was
not. -/
theorem swap_effect {frame : Frame} {rest stack : List Frame} (h : r.stack = frame :: rest)
    (hs : ∀ handle caller receipt, Frame.committed handle caller receipt ∈ stack →
      Frame.committed handle caller receipt ∈ rest) :
    Effect options r label { r with stack } :=
  .quiet (.refl _) ⟨fun _ _ hc _ => hc, fun handle caller receipt hm =>
    h ▸ List.mem_cons_of_mem _ (hs handle caller receipt hm)⟩

/-- To report from a hook has no effect on storage.  The frames below it are as they were, and
the hook itself has none of storage. -/
theorem report_effect {frame : Frame} {rest stack : List Frame} (h : r.stack = frame :: rest)
    (hs : ∀ handle caller receipt, Frame.committed handle caller receipt ∈ stack →
      Frame.committed handle caller receipt ∈ rest) :
    Effect options r label (r.report options stack) := by
  unfold report
  refine swap_effect h fun handle caller receipt hm => hs handle caller receipt ?_
  split_ifs at hm
  · simpa using hm
  · exact hm

/-- **The effect of a callback that returns**: that of its commit, or of its failure.  In the
first case the commit publishes, and what it persists comes later; in the second nothing of note
is done. -/
theorem returns_effect {now : ℕ} (h : r.returns options now = some r') :
    Effect options r label r' := by
  unfold returns at h
  split at h
  · next call rest hs => exact (near_pop hs).commitCallback rfl h
  · next batch rest hs =>
      obtain rfl := Option.some.inj h
      exact (near_pop hs).effect
  · next rest hs =>
      obtain rfl := Option.some.inj h
      exact (near_pop hs).effect
  · next batch listeners rest hs =>
      obtain rfl := Option.some.inj h
      exact swap_effect hs fun _ _ _ hm => by simpa using hm
  · cases h

/-- A callback that throws has no effect on storage.  What a callback throws settles its call;
what a hook or a listener throws is reported. -/
theorem throws_effect (h : r.throws options = some r') : Effect options r label r' := by
  unfold throws at h
  split at h
  · next call rest hs => exact (near_pop hs).abandon h
  · next batch rest hs =>
      obtain rfl := Option.some.inj h
      exact report_effect hs fun _ _ _ hm => hm
  · next rest hs =>
      obtain rfl := Option.some.inj h
      exact (near_pop hs).effect
  · next batch listeners rest hs =>
      obtain rfl := Option.some.inj h
      exact report_effect hs fun _ _ _ hm => by simpa using hm
  · cases h

/-- A callback that returns a promise has no effect on storage. -/
theorem returnsPromise_effect (h : r.returnsPromise = some r') : Effect options r label r' := by
  unfold returnsPromise at h
  split at h
  · next call rest hs => exact (near_pop hs).abandon h
  · cases h

/-- A call of `transaction` begins one, and has no effect on storage.  When it may not begin its
call settles at once. -/
theorem transaction_effect (durability : Option Durability) (allow : Bool) (id : JsString)
    (now : ℕ) : Effect options r label (r.transaction options durability allow id now) := by
  have hreject : ∀ error, Effect options r label
      ({ r with calls := r.calls ++ [AsyncCall.settled] }.settleTransaction r.calls.length
        (.error error)) := fun error =>
    .quiet (.record rfl _) (.concat (c := .settled) rfl (by simp [settleTransaction])
      fun _ _ _ hm => hm)
  unfold transaction
  dsimp only
  split
  · exact hreject _
  · generalize durability.getD _ = durability
    split_ifs
    · exact hreject _
    · exact hreject _
    · exact .quiet (.setCallbackActive _ _) (.concat (c := .running _ _) rfl rfl
        fun _ _ _ hm => by simpa using hm)

/-- **The effect of a flush** is to persist the current revision, or nothing where it is
refused. -/
theorem flush_effect (id : JsString) : Effect options r (.flush id) (r.flush options id) := by
  unfold flush
  dsimp only
  split
  · exact .quiet (.record rfl _) (.concat (c := .settled) rfl (by simp [settleFlush])
      fun _ _ _ hm => hm)
  · next h => exact .flush id h rfl rfl rfl

/-- A call that wakes settles, with what it waited for.  The wait names the store, and the
outcome of the store decides what the call settles with. -/
theorem wake_effect {call : ℕ} (h : r.wake call = some r') : Effect options r (.wake call) r' := by
  unfold wake at h
  split at h
  · next receipt waiting hc =>
      obtain ⟨result, hr, rfl⟩ := Option.map_eq_some_iff.1 h
      cases result with
      | none => exact .wakeTransaction call receipt waiting hc hr rfl (.settled rfl fun _ hm => hm)
      | some error =>
          exact Near.reject ⟨.refl _, rfl, rfl, fun _ hm => hm⟩ call error
  · next target waiting hc =>
      obtain ⟨result, hr, rfl⟩ := Option.map_eq_some_iff.1 h
      cases result with
      | none => exact .wakeFlush call target waiting hc hr rfl (.settled rfl fun _ hm => hm)
      | some error => exact .quiet (.record rfl _) (.settled rfl fun _ hm => hm)
  · cases h

/-- Nothing but the database changed. -/
theorem kept_withDatabase {db : Option Database} (h : r.withDatabase db = some r') :
    db = some r'.database ∧ r.Kept r' := by
  obtain ⟨db', hdb, rfl⟩ := Option.map_eq_some_iff.1 h
  exact ⟨hdb, .of_subset rfl fun _ hm => hm⟩

/-- **The effect of a call**, one case for each method.  Reads, writes, rollbacks and
subscriptions have none on storage. -/
theorem call_effect (h : r.call options label = some r') : Effect options r label r' := by
  have hnear : ∀ transactions, r.Near { r with transactions } := fun _ =>
    ⟨.refl _, rfl, rfl, fun _ hm => hm⟩
  cases label with
  | beginTransaction id now =>
      obtain rfl := Option.some.inj h
      unfold beginTransaction
      split
      · exact (hnear _).effect
      · exact (hnear _).effect
  | operate handle now c =>
      obtain ⟨t, -, rfl⟩ := Option.map_eq_some_iff.1 h
      exact (hnear _).effect
  | rollback handle =>
      obtain rfl := Option.some.inj h
      exact (hnear _).effect
  | commit handle now => exact (hnear r.transactions).commit rfl h
  | transaction durability allow id now =>
      obtain rfl := Option.some.inj h
      exact transaction_effect durability allow id now
  | flush id =>
      obtain rfl := Option.some.inj h
      exact flush_effect id
  | close id =>
      obtain rfl := Option.some.inj h
      exact .close id rfl (.of_subset rfl fun _ hm => hm)
  | subscribe =>
      obtain rfl := Option.some.inj h
      exact .quiet (.subscribe _) (.of_subset rfl fun _ hm => hm)
  | unsubscribe id =>
      obtain rfl := Option.some.inj h
      exact .quiet (.unsubscribe _ _) (.of_subset rfl fun _ hm => hm)
  | returns now => exact returns_effect h
  | throws => exact throws_effect h
  | returnsPromise => exact returnsPromise_effect h
  | _ => cases h

/-- **The effect of a step while no call runs**: a turn of the queue of stores, of the events or
of a call that waits. -/
theorem idle_effect (h : r.idle options label = some r') : Effect options r label r' := by
  cases label with
  | startStore index =>
      obtain ⟨hdb, hk⟩ := kept_withDatabase h
      exact .startStore index hdb hk
  | settleStore index outcome =>
      obtain ⟨hdb, hk⟩ := kept_withDatabase h
      exact .settleStore index outcome hdb hk
  | finishStore index =>
      obtain ⟨hdb, hk⟩ := kept_withDatabase h
      exact .finishStore index hdb hk
  | wake call => exact wake_effect h
  | closeAdapter =>
      obtain ⟨hdb, hk⟩ := kept_withDatabase h
      exact .closeAdapter hdb hk
  | finishClose failure =>
      obtain ⟨hdb, hk⟩ := kept_withDatabase h
      exact .finishClose failure hdb hk
  | dispatch =>
      unfold idle at h
      dsimp only at h
      split_ifs at h
      obtain rfl := Option.some.inj h
      exact nextBatch_effect (List.nil_subset _)
  | _ => cases h

/-- **Every step has one of the effects.**  This is where the step function is taken apart,
once.  What an invariant needs of a step it takes from here. -/
theorem step_effect (h : r.step options label = some r') : Effect options r label r' := by
  unfold step at h
  split_ifs at h with huser hempty hresume
  · rcases Option.or_eq_some_iff.1 h with hc | ⟨-, hi⟩
    · exact call_effect hc
    · exact idle_effect hi
  · rw [Option.or_none] at h
    exact call_effect h
  · cases label with
    | resume => exact resume_effect h
    | _ => cases hresume

/-! ### Storage alone -/

/-- **What a step can do to storage**, promises aside. -/
inductive StorageEffect (options : DatabaseOptions) (r : Runtime) : Label → Database → Prop
  | quiet {label : Label} {db : Database}
      (database : r.database.Quiet DatabaseEvent.isQuiet db) : StorageEffect options r label db
  | commit {label : Label} {db : Database} (t : Transaction) (committed : Committed)
      (known : t ∈ r.transactions) (usable : r.database.assertOpen = .ok ())
      (ok : r.database.root.commit options.commit t = .ok committed)
      (database : (r.database.publish committed).Quiet DatabaseEvent.isQuiet db) :
      StorageEffect options r label db
  | persist (handle call : ℕ) (receipt : CommitReceipt) (rest : List Frame)
      (stack : r.stack = .committed handle (some call) receipt :: rest)
      (persists : r.persists call) (adapter : options.adapter)
      (pending : r.database.persistedRevision < receipt.revision) :
      StorageEffect options r .resume ((r.database.record (.committed handle
        (r.receiptOf handle receipt))).persist options (r.receiptOf handle receipt)).1
  | flush (id : JsString) (usable : r.database.assertOpen = .ok ()) :
      StorageEffect options r (.flush id) (r.database.flushNow options id).1
  | close (id : JsString) : StorageEffect options r (.close id) (r.database.close options id)
  | startStore {db : Database} (index : ℕ)
      (database : r.database.startStore options index = some db) :
      StorageEffect options r (.startStore index) db
  | settleStore {db : Database} (index : ℕ) (outcome : StoreOutcome)
      (database : r.database.settleStore options index outcome = some db) :
      StorageEffect options r (.settleStore index outcome) db
  | finishStore {db : Database} (index : ℕ) (database : r.database.finishStore index = some db) :
      StorageEffect options r (.finishStore index) db
  | closeAdapter {db : Database} (database : r.database.closeAdapter options = some db) :
      StorageEffect options r .closeAdapter db
  | finishClose {db : Database} (failure : Option NewtonError)
      (database : r.database.finishClose failure = some db) :
      StorageEffect options r (.finishClose failure) db

/-- **Every step has one of the effects on storage.**  It forgets what a step does to calls,
frames and transactions, and is what the invariants of the queue, the snapshots and the
durability are proved from. -/
theorem step_storage (h : r.step options label = some r') :
    StorageEffect options r label r'.database := by
  have hmono : ∀ {db db' : Database}, db.Quiet DatabaseEvent.isSilent db' →
      db.Quiet DatabaseEvent.isQuiet db' := fun hq => hq.mono fun _ => DatabaseEvent.isQuiet_of_isSilent
  cases step_effect h with
  | quiet database _ => exact .quiet (hmono database)
  | commit t committed known usable ok database =>
      exact .commit t committed known usable ok (hmono database)
  | resolveMemory handle call receipt _ database =>
      rw [database]
      exact .quiet (.trans (.record rfl _) (.record rfl _))
  | resolvePersisted handle call receipt _ _ _ database =>
      rw [database]
      exact .quiet (.trans (.record rfl _) (.record rfl _))
  | persist handle call receipt rest stack persists adapter pending database =>
      rw [database]
      exact .persist handle call receipt rest stack persists adapter pending
  | flush id usable database =>
      rw [database]
      exact .flush id usable
  | wakeTransaction call receipt waiting _ _ database =>
      rw [database]
      exact .quiet (.record rfl _)
  | wakeFlush call target waiting _ _ database =>
      rw [database]
      exact .quiet (.record rfl _)
  | close id database =>
      rw [database]
      exact .close id
  | startStore index database => exact .startStore index database
  | settleStore index outcome database => exact .settleStore index outcome database
  | finishStore index database => exact .finishStore index database
  | closeAdapter database => exact .closeAdapter database
  | finishClose failure database => exact .finishClose failure database

end Runtime

end NewtonDB
