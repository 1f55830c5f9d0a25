/-
# The receipt of a persistence failure

A `transaction` that rejects after its own commit does so with a `PersistenceError`,
whose receipt is to tell which commit is published already.  The error is made for the
call whose store was queued; a call that joins a pending store of the same revision gets
the same error, with a receipt of another transaction (`coalesced_error_names_another`).
In every run in which no store fails for a call that joined it, the error names the
commit of its own call (`persistence_error_names_commit`).
-/

import NewtonDB.Database.Closing
import NewtonDB.Database.Rejections

namespace NewtonDB

/-- What the task of a store failed with. -/
def TaskPhase.failure : TaskPhase → Option NewtonError
  | .settled (some error) | .finished (some error) => some error
  | _ => none

namespace Database

variable {options : DatabaseOptions} {db db' : Database}

/-- The stores are as they were, or one joined the queue. -/
def Enlists (db db' : Database) : Prop :=
  db'.tasks = db.tasks ∨ ∃ task : PersistenceTask, task.phase = .queued ∧
    db'.tasks = db.tasks ++ [task]

namespace Enlists

/-- To queue a store enlists it, or leaves the queue.  The new task carries the receipt that
`#persist` was called with. -/
theorem persist (db : Database) (receipt : CommitReceipt) :
    db.Enlists (db.persist options receipt).1 := by
  by_cases ha : options.adapter
  · have hspec := persist_spec ha db receipt
    generalize db.persist options receipt = result at hspec
    cases hspec with
    | coalesced | full | broken => exact .inl rfl
    | queued => exact .inr ⟨_, rfl, rfl⟩
  · rw [persist_of_no_adapter ha]
    exact .inl rfl

/-- A flush enlists a store, or leaves the queue. -/
theorem flushNow (db : Database) (id : JsString) : db.Enlists (db.flushNow options id).1 := by
  rcases flushNow_cases options db id with ⟨-, -, he⟩ | ⟨-, he⟩
  · rw [he]
    exact persist db _
  · rw [he]
    exact .inl rfl

/-- A call of `close` enlists a store, or leaves the queue.  The receipt is that of a flush, so
a failure of it names no commit of a call. -/
theorem close (db : Database) (id : JsString) : db.Enlists (db.close options id) := by
  rcases close_cases options db id with he | ⟨-, -, he⟩
  · rw [he]
    exact .inl rfl
  · rw [he]
    unfold flushDuringClose
    split_ifs
    · exact .inl rfl
    · exact flushNow { db with state := .closing } id

/-- A store that has failed did so before.  A new task is queued and has not failed. -/
theorem failure (h : db.Enlists db') {index : ℕ} {task : PersistenceTask} {error : NewtonError}
    (ht : db'.tasks[index]? = some task) (hf : task.phase.failure = some error) :
    db.tasks[index]? = some task := by
  rcases h with he | ⟨new, hnew, he⟩
  · rwa [← he]
  · rw [he] at ht
    refine (getElem?_concat_eq_some ht).resolve_right fun hlast => ?_
    rw [hlast, hnew] at hf
    cases hf

end Enlists

end Database

/-- A `transaction` rejects with a `PersistenceError`: the call and the receipt. -/
def DatabaseEvent.persistenceError? : DatabaseEvent → Option (ℕ × CommitReceipt)
  | .transaction call (.error (.persistence receipt)) => some (call, receipt)
  | _ => none

/-- A `PersistenceError` is the rejection of a call, with its receipt.  The event is the one by
which the promise of the call is rejected. -/
theorem DatabaseEvent.persistenceError_eq_some {event : DatabaseEvent} {call : ℕ}
    {receipt : CommitReceipt} (h : event.persistenceError? = some (call, receipt)) :
    event = .transaction call (.error (.persistence receipt)) := by
  unfold DatabaseEvent.persistenceError? at h
  split at h
  · cases h
    rfl
  · cases h

namespace Runtime

/-- The commit that returns in a step to the `transaction` that made it, with its
receipt. -/
def ownCommits (_ : DatabaseOptions) (r : Runtime) : Label → List (ℕ × CommitReceipt)
  | .resume =>
      match r.stack with
      | .committed handle (some call) receipt :: _ => [(call, r.receiptOf handle receipt)]
      | _ => []
  | _ => []

/-- The steps of a program, with the commits that returned to their calls. -/
abbrev committedIn (options : DatabaseOptions) :
    Runtime × List (ℕ × CommitReceipt) → Label → Option (Runtime × List (ℕ × CommitReceipt)) :=
  Transition.observed (step options) (ownCommits options)

/-- Every call that waits for a store is the one it was queued for. -/
def waitersOwn (r : Runtime) (index : ℕ) : Bool :=
  r.calls.all fun
    | .persisting receipt (.task i) =>
        i ≠ index || r.database.tasks[index]?.all (·.receipt = receipt)
    | _ => true

/-- A step in which no store fails for a call that joined it: a store that others wait
for does not fail, and no call joins a store that has failed. -/
def failsOwn (options : DatabaseOptions) (r : Runtime) : Label → Bool
  | .settleStore index outcome => r.database.succeeds options index outcome || r.waitersOwn index
  | .resume =>
      match r.stack with
      | .committed _ (some call) receipt :: _ =>
          !r.persists call || receipt.revision ≤ r.database.persistedRevision ||
            (r.database.persistenceByRevision.get? receipt.revision).all fun index =>
              r.database.tasks[index]?.all (·.phase.failure.isNone)
      | _ => true
  | _ => true

variable {options : DatabaseOptions} {r r' : Runtime} {label : Label}

/-! ### What a step does to waiting calls and to failed stores -/

/-- **A call that waits for a store did so before, or its commit just returned.**  In the second
case it waits under the receipt of that commit, for the store of it. -/
theorem step_waiting (hs : r.step options label = some r') {call : ℕ} {receipt : CommitReceipt}
    {waiting : Waiting} (hc : r'.calls[call]? = some (.persisting receipt waiting)) :
    r.calls[call]? = some (.persisting receipt waiting) ∨
    ∃ handle raw rest, label = .resume ∧ r.stack = .committed handle (some call) raw :: rest ∧
      r.persists call ∧ r.database.persistedRevision < raw.revision ∧
      receipt = r.receiptOf handle raw ∧
      waiting = ((r.database.record (.committed handle receipt)).persist options receipt).2 := by
  have hkept : r.Kept r' → r.calls[call]? = some (.persisting receipt waiting) := fun hk =>
    hk.calls call _ hc rfl
  cases step_effect hs with
  | quiet _ kept | resolveMemory _ _ _ _ _ kept | resolvePersisted _ _ _ _ _ _ _ kept
  | wakeTransaction _ _ _ _ _ _ kept | wakeFlush _ _ _ _ _ _ kept | close _ _ kept
  | startStore _ _ kept | settleStore _ _ _ kept | finishStore _ _ kept | closeAdapter _ kept
  | finishClose _ _ kept => exact .inl (hkept kept)
  | commit t committed known usable ok database calls => exact .inl (calls ▸ hc)
  | persist handle call' raw rest stack persists adapter pending database calls =>
      rw [calls, List.getElem?_set] at hc
      split_ifs at hc with he hlt
      · obtain ⟨rfl, rfl⟩ := AsyncCall.persisting.inj (Option.some.inj hc)
        subst he
        exact .inr ⟨handle, raw, rest, rfl, stack, persists, pending, rfl, rfl⟩
      · exact .inl hc
  | flush id usable database calls =>
      rw [calls] at hc
      exact .inl ((getElem?_concat_eq_some hc).resolve_right fun he => by cases he)

/-- What `#persist` rejects with at once names the receipt it was called with.  That happens
when the queue is full or the snapshot cannot be cloned, and the error is made on the spot. -/
theorem persist_rejected {db : Database} {receipt receipt' : CommitReceipt}
    (h : (db.persist options receipt).2 = .rejected (.persistence receipt')) :
    receipt' = receipt := by
  unfold Database.persist at h
  by_cases ha : (!options.adapter) = true
  · rw [if_pos ha] at h
    cases h
  · rw [if_neg ha] at h
    cases hentry : db.persistenceByRevision.get? receipt.revision with
    | some index =>
        rw [hentry] at h
        cases h
    | none =>
        rw [hentry] at h
        dsimp only at h
        by_cases hfull : options.persistenceLimits.maxPendingSnapshots ≤ db.pendingPersistence
        · rw [if_pos hfull] at h
          cases h
          rfl
        · rw [if_neg hfull] at h
          split at h <;> cases h

/-- A store that `#persist` lets a call wait for is pending, or new.  A pending one is shared by
all the calls for its revision, whoever asked first. -/
theorem persist_task {db : Database} {receipt : CommitReceipt} {index : ℕ}
    (h : (db.persist options receipt).2 = .task index) :
    db.persistenceByRevision.get? receipt.revision = some index ∨ index = db.tasks.length := by
  by_cases ha : options.adapter
  · have hspec := Database.persist_spec ha db receipt
    generalize db.persist options receipt = result at hspec h
    cases hspec with
    | coalesced i entry =>
        cases h
        exact .inl entry
    | full | broken => cases h
    | queued =>
        cases h
        exact .inr rfl
  · rw [Database.persist_of_no_adapter ha] at h
    cases h

/-- **A store that has failed did so before, or it fails in this step**, with the receipt it
was queued for. -/
theorem step_failure (hs : r.step options label = some r') {index : ℕ} {task : PersistenceTask}
    {error : NewtonError} (ht : r'.database.tasks[index]? = some task)
    (hf : task.phase.failure = some error) :
    (∃ task, r.database.tasks[index]? = some task ∧ task.phase.failure = some error) ∨
    ∃ outcome task, label = .settleStore index outcome ∧
      r.database.succeeds options index outcome = false ∧ r.database.tasks[index]? = some task ∧
      error = .persistence task.receipt := by
  have hold : r.database.tasks[index]? = some task →
      (∃ task, r.database.tasks[index]? = some task ∧ task.phase.failure = some error) ∨
      ∃ outcome task, label = .settleStore index outcome ∧
        r.database.succeeds options index outcome = false ∧ r.database.tasks[index]? = some task ∧
        error = .persistence task.receipt := fun hold => .inl ⟨task, hold, hf⟩
  have henlists : r.database.Enlists r'.database → _ := fun h => hold (h.failure ht hf)
  have heffect := step_storage hs
  generalize r'.database = db at heffect ht henlists
  cases heffect with
  | quiet hq => exact hold (hq.tasks ▸ ht)
  | commit t committed known usable ok hq =>
      rw [hq.tasks] at ht
      unfold Database.publish at ht
      split at ht <;> exact hold ht
  | persist handle call receipt rest => exact henlists (.persist (r.database.record _) _)
  | flush id usable => exact henlists (.flushNow _ id)
  | close id => exact henlists (.close _ id)
  | startStore i hdb =>
      obtain ⟨t, -, -, -, rfl⟩ := Database.startStore_eq_some hdb
      change (Database.setPhase _ _ _).tasks[index]? = _ at ht
      rw [Database.tasks_setPhase] at ht
      obtain ⟨old, hget, rfl⟩ := Option.map_eq_some_iff.1 ht
      split_ifs at hf
      · cases hf
      · exact .inl ⟨old, hget, hf⟩
  | settleStore i outcome hdb =>
      obtain ⟨t, snapshot, hget', hstoring, hcase⟩ := Database.settleStore_eq_some hdb
      rcases hcase with ⟨rfl, hrefused⟩ | ⟨a, -, -, rfl⟩
      · change (Database.setPhase _ _ _).tasks[index]? = _ at ht
        rw [Database.tasks_setPhase] at ht
        obtain ⟨old, hget, rfl⟩ := Option.map_eq_some_iff.1 ht
        split_ifs at hf with hi
        · subst hi
          cases hf
          refine .inr ⟨outcome, t, rfl, ?_, hget', rfl⟩
          cases outcome with
          | rejected => rfl
          | acknowledged a =>
              rw [Database.succeeds, hget', Option.all_some, hstoring]
              exact hrefused a rfl
        · exact .inl ⟨old, hget, hf⟩
      · change (Database.setPhase _ _ _).tasks[index]? = _ at ht
        rw [Database.tasks_setPhase] at ht
        obtain ⟨old, hget, rfl⟩ := Option.map_eq_some_iff.1 ht
        split_ifs at hf
        · cases hf
        · exact .inl ⟨old, hget, hf⟩
  | finishStore i hdb =>
      obtain ⟨t, error', hget', hsettled, rfl⟩ := Database.finishStore_eq_some hdb
      change (Database.setPhase _ _ _).tasks[index]? = _ at ht
      rw [Database.tasks_setPhase] at ht
      obtain ⟨old, hget, rfl⟩ := Option.map_eq_some_iff.1 ht
      split_ifs at hf with hi
      · subst hi
        refine .inl ⟨t, hget', ?_⟩
        rw [hsettled]
        cases error' with
        | none => cases hf
        | some e => exact hf
      · exact .inl ⟨old, hget, hf⟩
  | closeAdapter hdb =>
      obtain ⟨waiting, failure, -, -, rfl⟩ := Database.closeAdapter_eq_some hdb
      split_ifs at ht <;> exact hold ht
  | finishClose failure hdb =>
      obtain ⟨_, -, rfl⟩ := Database.finishClose_eq_some hdb
      exact hold ht

/-- The commit that returns to a call: the call goes on with that receipt.  The receipt is what
`commit()` returned to the code of the call. -/
theorem mem_ownCommits {call : ℕ} {own : CommitReceipt} (h : (call, own) ∈ r.ownCommits options label) :
    label = .resume ∧ ∃ handle receipt rest,
      r.stack = .committed handle (some call) receipt :: rest ∧ own = r.receiptOf handle receipt := by
  unfold ownCommits at h
  split at h
  · split at h
    · next handle call' receipt rest stack =>
        obtain ⟨rfl, rfl⟩ := Prod.mk.inj (List.mem_singleton.1 h)
        exact ⟨rfl, handle, receipt, rest, stack, rfl⟩
    · cases h
  · cases h

/-- **A commit returns to its call**: the call resolves, or it waits under the receipt.  Between
the commit and its return only hooks run, and the frame of the commit holds the receipt
meanwhile. -/
theorem ownCommits_step (hs : r.step options label = some r') {call : ℕ} {own : CommitReceipt}
    (h : (call, own) ∈ r.ownCommits options label) :
    (∃ durability handle, r.Runs call durability handle) ∧
      (r'.calls[call]? = some .settled ∨ ∃ w, r'.calls[call]? = some (.persisting own w)) ∧
      ∃ events, r'.database.history = events ++ r.database.history ∧
        ∀ error, .transaction call (.error error) ∉ events := by
  obtain ⟨rfl, handle, receipt, rest, stack, rfl⟩ := mem_ownCommits h
  have hmove := step_move hs
  generalize hl : Label.resume = label at hmove
  cases hmove with
  | commitResolved handle' call' receipt' rest' stack' hc =>
      rw [stack] at stack'
      obtain ⟨hframe, rfl⟩ := List.cons.inj stack'
      obtain ⟨rfl, hcall, rfl⟩ := Frame.committed.inj hframe
      obtain rfl := Option.some.inj hcall
      obtain ⟨durability, handle', running, ⟨resolved, rfl⟩ | rfl⟩ := afterCommit_eq_some hc
      · exact ⟨⟨_, _, running⟩, .inl (getElem?_settle running _), [_, _], rfl, by simp⟩
      · have hevents : (r.database.record (.committed handle (r.receiptOf handle receipt))).SameEvents
            DatabaseEvent.isPlain ((r.database.record (.committed handle
              (r.receiptOf handle receipt))).persist options (r.receiptOf handle receipt)).1 := .persist ..
        obtain ⟨events, hh, hplain⟩ := hevents.history
        refine ⟨⟨_, _, running⟩, .inr ⟨_, getElem?_settle running _⟩,
          events ++ [.committed handle (r.receiptOf handle receipt)], ?_, fun error hm => ?_⟩
        · rw [List.append_assoc]
          exact hh
        · rcases List.mem_append.1 hm with hm | hm
          · cases hplain _ hm
          · cases List.mem_singleton.1 hm
  | commitReturned _ _ _ stack' | delivered _ _ _ _ stack' | batchDone _ _ stack' =>
      rw [stack] at stack'
      cases (List.cons.inj stack').1
  | callbackFailed _ _ _ _ _ _ failed =>
      rcases failed with rfl | rfl <;> cases hl
  | hookReturned _ _ _ ended => rcases ended with rfl | ⟨_, rfl⟩ <;> cases hl
  | storage _ _ _ hstorage => cases hstorage <;> cases hl
  | _ => cases hl

/-- **Errors name the commits of their calls.** -/
structure NamedInvariant (s : Runtime × List (ℕ × CommitReceipt)) : Prop where
  frames : s.1.FrameInvariant
  ended : ∀ call outcome, .transaction call outcome ∈ s.1.database.history →
    s.1.calls[call]? = some .settled
  own : ∀ call own, (call, own) ∈ s.2 → s.1.calls[call]? = some .settled ∨
    ∃ waiting, s.1.calls[call]? = some (.persisting own waiting)
  rejected : ∀ (call : ℕ) receipt receipt',
    s.1.calls[call]? = some (.persisting receipt (.rejected (.persistence receipt'))) →
      receipt' = receipt
  stores : ∀ (call index : ℕ) receipt task receipt',
    s.1.calls[call]? = some (.persisting receipt (.task index)) →
      s.1.database.tasks[index]? = some task →
      task.phase.failure = some (.persistence receipt') → receipt' = receipt
  named : ∀ call own receipt, (call, own) ∈ s.2 →
    .transaction call (.error (.persistence receipt)) ∈ s.1.database.history → receipt = own

namespace NamedInvariant

variable {s s' : Runtime × List (ℕ × CommitReceipt)}

/-- In a program that was just opened no call was given a receipt.  No call was made, so each
clause is about nothing. -/
theorem start (root : Root) (stored : Option SnapshotEnvelope) :
    NamedInvariant (Runtime.start options root stored, []) where
  frames := .start root stored
  ended _ _ h := by cases List.mem_singleton.1 h
  own _ _ h := by cases h
  rejected _ _ _ h := by cases h
  stores _ _ _ _ _ h := by cases h
  named _ _ _ h := by cases h

/-- No call that runs or is new has ended. -/
theorem not_ended (h : NamedInvariant s) {call : ℕ} {outcome : Except NewtonError CommitReceipt}
    (hcall : call = s.1.calls.length ∨ ∃ durability handle, s.1.Runs call durability handle) :
    .transaction call outcome ∉ s.1.database.history := fun hm => by
  have hended := h.ended call outcome hm
  rcases hcall with rfl | ⟨durability, handle, hr⟩
  · exact absurd (List.getElem?_eq_some_iff.1 hended).1 (Nat.lt_irrefl _)
  · cases Option.some.inj (hr.symm.trans hended)

/-- No call that runs or is new has its commit back.  A commit that has come back leaves its
call waiting or settled. -/
theorem not_own (h : NamedInvariant s) {call : ℕ} {own : CommitReceipt}
    (hcall : call = s.1.calls.length ∨ ∃ durability handle, s.1.Runs call durability handle) :
    (call, own) ∉ s.2 := fun hm => by
  have hown := h.own call own hm
  rcases hcall with rfl | ⟨durability, handle, hr⟩
  · rcases hown with he | ⟨_, he⟩ <;>
      exact absurd (List.getElem?_eq_some_iff.1 he).1 (Nat.lt_irrefl _)
  · rcases hown with he | ⟨_, he⟩ <;> cases Option.some.inj (hr.symm.trans he)

/-- **What a waiting call fails with names its commit.**  The store it waits for was queued
under the receipt of this call, or no store that it joined has failed. -/
theorem outcome (h : NamedInvariant s) {call : ℕ} {receipt receipt' : CommitReceipt}
    {waiting : Waiting} (hc : s.1.calls[call]? = some (.persisting receipt waiting))
    (ho : s.1.database.outcome waiting = some (some (.persistence receipt'))) : receipt' = receipt := by
  cases waiting with
  | resolved => cases ho
  | rejected error =>
      cases ho
      exact h.rejected call receipt receipt' hc
  | task index =>
      obtain ⟨task, ht, hp⟩ := Database.finished_eq_some.1 ho
      refine h.stores call index receipt task receipt' hc ht ?_
      rw [hp]
      rfl
  | tail index =>
      obtain ⟨_, -, he⟩ := Option.map_eq_some_iff.1 ho
      cases he

/-- **Every step in which no store fails for a call that joined it keeps this.**  A call joins a
store when its own commit changed nothing; the error of that store names the commit it was
queued for. -/
theorem step (h : NamedInvariant s) (hfails : s.1.failsOwn options label)
    (hs : committedIn options s label = some s') : NamedInvariant s' := by
  obtain ⟨r, seen⟩ := s
  obtain ⟨r', seen'⟩ := s'
  obtain ⟨hstep, rfl⟩ := Transition.observed_eq_some hs
  dsimp only at hstep hfails
  refine ⟨h.frames.step hstep, ?_, ?_, ?_, ?_, ?_⟩
  · intro call outcome hm
    cases step_fate h.frames hstep call with
    | same calls _ silent =>
        obtain ⟨events, hh, he⟩ := silent
        rw [hh] at hm
        rw [calls]
        exact h.ended call outcome ((List.mem_append.1 hm).resolve_left (he outcome))
    | made new _ silent =>
        obtain ⟨events, hh, he⟩ := silent
        rw [hh] at hm
        exact absurd ((List.mem_append.1 hm).resolve_left (he outcome)) (h.not_ended (.inl new))
    | refused _ _ calls | resolved _ _ _ _ _ calls | woke _ _ _ _ _ calls | flushed _ _ _ calls =>
        exact calls
    | waits durability handle receipt running calls database =>
        have hevents : (r.database.record (.committed handle receipt)).SameEvents
            DatabaseEvent.isPlain r'.database := database ▸ .persist _ receipt
        obtain ⟨events, hh, hplain⟩ := hevents.history
        rw [hh] at hm
        rcases List.mem_append.1 hm with hm | hm
        · cases hplain _ hm
        · exact absurd ((List.mem_cons.1 hm).resolve_left fun he => by cases he)
            (h.not_ended (.inr ⟨durability, handle, running⟩))
  · intro call own hm
    rcases List.mem_append.1 hm with hm | hm
    · cases step_fate h.frames hstep call with
      | same calls =>
          rw [calls]
          exact h.own call own hm
      | made new => exact absurd hm (h.not_own (.inl new))
      | refused _ _ calls | resolved _ _ _ _ _ calls | woke _ _ _ _ _ calls | flushed _ _ _ calls =>
          exact .inl calls
      | waits durability handle _ running =>
          exact absurd hm (h.not_own (.inr ⟨durability, handle, running⟩))
    · exact (ownCommits_step hstep hm).2.1
  · intro call receipt receipt' hc
    rcases step_waiting hstep hc with hc | ⟨handle, raw, rest, -, -, -, -, -, hw⟩
    · exact h.rejected call receipt receipt' hc
    · exact persist_rejected hw.symm
  · intro call index receipt task receipt' hc ht hf
    rcases step_waiting hstep hc with
      hwaits | ⟨handle, raw, rest, rfl, stack, hpersists, hpending, rfl, hw⟩
    · rcases step_failure hstep ht hf with ⟨old, hold, hfold⟩ | ⟨outcome, old, rfl, hno, hold, he⟩
      · exact h.stores call index receipt old receipt' hwaits hold hfold
      · rw [failsOwn, hno, Bool.false_or] at hfails
        have hwaiter := List.all_eq_true.1 hfails _ (List.mem_of_getElem? hwaits)
        obtain rfl := NewtonError.persistence.inj he
        simpa [hold] using hwaiter.symm
    · rcases step_failure hstep ht hf with ⟨old, hold, hfold⟩ | ⟨_, _, hl, -⟩
      · rcases persist_task hw.symm with hentry | hnew
        · rw [failsOwn, stack] at hfails
          have hnone : r.database.tasks[index]?.all (·.phase.failure.isNone) := by
            have hentry' : r.database.persistenceByRevision.get? raw.revision = some index := hentry
            simpa [hpersists, hentry', not_le.2 hpending] using hfails
          rw [hold, Option.all_some, hfold] at hnone
          cases hnone
        · rw [hnew] at hold
          exact absurd (List.getElem?_eq_some_iff.1 hold).1 (Nat.lt_irrefl _)
      · cases hl
  · intro call own receipt hm herr
    rcases List.mem_append.1 hm with hm | hm
    · cases step_fate h.frames hstep call with
      | same _ _ silent =>
          obtain ⟨events, hh, he⟩ := silent
          rw [hh] at herr
          exact h.named call own receipt hm ((List.mem_append.1 herr).resolve_left (he _))
      | made new => exact absurd hm (h.not_own (.inl new))
      | refused _ pending =>
          refine absurd hm (h.not_own (pending.imp_right ?_))
          rintro ⟨durability, handle, running, -⟩
          exact ⟨durability, handle, running⟩
      | resolved durability handle _ _ running | waits durability handle _ running =>
          exact absurd hm (h.not_own (.inr ⟨durability, handle, running⟩))
      | woke receipt' waiting result waits ended calls history =>
          rw [history] at herr
          rcases List.mem_cons.1 herr with he | hold
          · cases result with
            | none => cases he
            | some error =>
                obtain rfl := (Except.error.inj (DatabaseEvent.transaction.inj he).2)
                rcases h.own call own hm with hsettled | ⟨w, hw⟩
                · cases Option.some.inj (waits.symm.trans hsettled)
                · obtain ⟨rfl, rfl⟩ := AsyncCall.persisting.inj (Option.some.inj (waits.symm.trans hw))
                  exact h.outcome waits ended
          · cases Option.some.inj (waits.symm.trans (h.ended call _ hold))
      | flushed target waiting waits calls outcome history =>
          rw [history] at herr
          have hold := (List.mem_cons.1 herr).resolve_left fun he => by cases he
          cases Option.some.inj (waits.symm.trans (h.ended call _ hold))
    · obtain ⟨hruns, -, events, hh, he⟩ := ownCommits_step hstep hm
      rw [hh] at herr
      exact absurd ((List.mem_append.1 herr).resolve_left (he _)) (h.not_ended (.inr hruns))

end NamedInvariant

/-- **A `PersistenceError` names the commit of its call**, in every run in which no store
fails for a call that joined it: where the commit of a `transaction` returned to it and it
rejects with such an error, the error has the receipt of that commit. -/
theorem persistence_error_names_commit {root : Root} {stored : Option SnapshotEnvelope}
    {labels : List Label} {s : Runtime × List (ℕ × CommitReceipt)}
    (hrun : Transition.Run (committedIn options) (fun s label => s.1.failsOwn options label)
      (start options root stored, []) labels s)
    {call : ℕ} {own receipt : CommitReceipt} (hown : (call, own) ∈ s.2)
    (hrejected : .transaction call (.error (.persistence receipt)) ∈ s.1.database.history) :
    receipt = own := by
  have hinv : NamedInvariant s := hrun.invariant (.start root stored) fun _ _ _ h hfails hs =>
    h.step hfails hs
  exact hinv.named call own receipt hown hrejected

/-- A store fails; the call it was queued for rejects with its own receipt.  The theorem
applies, since the call was alone in waiting for its store. -/
theorem failed_store_names_commit : ∃ (s : Runtime × List (ℕ × CommitReceipt))
    (own receipt : CommitReceipt), s.2 = [(0, own)] ∧ own.affected = 1 ∧
      .transaction 0 (.error (.persistence receipt)) ∈ s.1.database.history ∧ receipt = own := by
  obtain ⟨root, s, -, h⟩ := exists_run (f := fun root =>
    (Transition.checked (committedIn (notesOptions 8 8))
      (fun s label => s.1.failsOwn (notesOptions 8 8) label)
      (start (notesOptions 8 8) root none, [])
      [.transaction none false (js "t") 0, addNote 0 "a", .returns 0, .resume, .startStore 0,
        .settleStore 0 .rejected, .finishStore 0, .wake 0]).filter fun s =>
          s.2.map (fun commit => (commit.1, commit.2.affected)) = [(0, 1)] ∧
            (s.1.database.history.head?.bind DatabaseEvent.persistenceError?).map Prod.fst = some 0)
    (by decide +kernel)
  obtain ⟨hrun, hfinal⟩ := Option.filter_eq_some_iff.1 h
  obtain ⟨hseen, hlast⟩ := of_decide_eq_true hfinal
  obtain ⟨⟨call, own⟩, hs, hpair⟩ := List.map_eq_singleton_iff.1 hseen
  obtain ⟨rfl, haffected⟩ := Prod.mk.inj hpair
  obtain ⟨⟨call', receipt⟩, hlast, rfl⟩ := Option.map_eq_some_iff.1 hlast
  obtain ⟨event, hhead, he⟩ := Option.bind_eq_some_iff.1 hlast
  obtain rfl := DatabaseEvent.persistenceError_eq_some he
  have hmem := List.mem_of_head? hhead
  exact ⟨s, own, receipt, hs, haffected, hmem, persistence_error_names_commit
    (Transition.checked_sound hrun) (hs ▸ List.mem_singleton.2 rfl) hmem⟩

/-- **An error that names another transaction.**  A transaction with a change queues a store;
one without changes has the same revision and joins it; the store fails.  The promise of the
second call rejects with the receipt of the first. -/
theorem coalesced_error_names_another :
    (noNotes.toOption.bind fun root =>
      (Transition.run (committedIn (notesOptions 8 8)) (start (notesOptions 8 8) root none, [])
        [.transaction none false (js "t") 0, addNote 0 "a", .returns 0, .resume,
          .transaction none false (js "u") 0, .returns 0, .resume,
          .startStore 0, .settleStore 0 .rejected, .finishStore 0, .wake 1]).map fun s =>
        (s.2.map fun commit => (commit.1, commit.2.transactionId, commit.2.affected),
          (s.1.database.history.head?.bind DatabaseEvent.persistenceError?).map fun error =>
            (error.1, error.2.transactionId, error.2.affected))) =
      some ([(0, js "t", 1), (1, js "u", 0)], some (1, js "t", 1)) := by
  decide +kernel

end Runtime

end NewtonDB
