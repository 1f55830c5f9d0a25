/-
# Commits of a degraded database

A degraded database is meant to publish only what a `transaction` asked for with
durability `memory` and `allowVolatileWhenDegraded`.  The check is in `transaction`
alone: a transaction begun by hand commits in any case
(`degraded_commit_by_hand`), and a callback that overfills the persistence queue makes
the database degraded before its own commit.  In every run without these two, what a
degraded database publishes was opted in (`degraded_publications_opted_in`).
-/

import NewtonDB.Database.Closing
import NewtonDB.Database.Frames

namespace NewtonDB

/-- What a call of `transaction` asked for. -/
structure Request where
  durability : Durability
  allowVolatileWhenDegraded : Bool
  deriving DecidableEq

/-- The callback of a `transaction`. -/
def Frame.isCallback : Frame → Bool
  | .callback _ => true
  | _ => false

/-- A transaction that a commit does not refuse, with changes to publish. -/
def Transaction.publishes (t : Transaction) (root : Root) (now : ℕ) : Bool :=
  t.status = .active && (t.assertWithinLimits now).isOk &&
    (conflictsOf root t.baseRevisions.entries).toOption = some [] && t.changes ≠ []

namespace Runtime

/-- What the call that a step makes asks for; a `flush` asks for nothing. -/
def requested (options : DatabaseOptions) (_ : Runtime) : Label → List (Option Request)
  | .transaction durability allow _ _ =>
      [some ⟨durability.getD (if options.adapter then .persisted else .memory), allow⟩]
  | .flush _ => [none]
  | _ => []

/-- The steps of a program, with what its calls asked for. -/
abbrev requestedIn (options : DatabaseOptions) :
    Runtime × List (Option Request) → Label → Option (Runtime × List (Option Request)) :=
  Transition.observed (step options) (requested options)

/-- The call asked for a commit in memory, also of a degraded database. -/
def optedIn (requests : List (Option Request)) (call : ℕ) : Bool :=
  requests[call]? = some (some ⟨.memory, true⟩)

/-- A step that leaves nothing to publish past the check of `transaction`: no commit by
hand while the database is degraded, and no `flush` or `close` that finds the queue
full while the callback of a call runs that did not opt in. -/
def leavesToCheck (options : DatabaseOptions) (s : Runtime × List (Option Request)) : Label → Bool
  | .commit handle now =>
      s.1.database.state ≠ .degraded ||
        s.1.transactions[handle]?.all fun t => !t.publishes s.1.database.root now
  | .flush _ | .close _ =>
      !s.1.database.refuses options s.1.database.root.revision ||
        (onStack (s.1.stack.filter Frame.isCallback)).all (optedIn s.2)
  | _ => true

/-! ### Callbacks -/

/-- No call waits above a callback. -/
def Lone (stack : List Frame) : Prop :=
  stack.Pairwise fun above below => above.call? = none ∨ below.isCallback = false

/-- A frame that is not about a call goes on the stack. -/
theorem Lone.push {stack : List Frame} (h : Lone stack) {frame : Frame} (hf : frame.call? = none) :
    Lone (frame :: stack) :=
  List.pairwise_cons.2 ⟨fun _ _ => .inl hf, h⟩

/-- Hooks above a stack without a call over a callback leave it so. -/
theorem Lone.pushAll {above stack : List Frame} (h : Lone stack)
    (hooks : ∀ frame ∈ above, frame.call? = none) : Lone (above ++ stack) := by
  induction above with
  | nil => exact h
  | cons frame above ih =>
      exact (ih fun f hf => hooks f (List.mem_cons_of_mem _ hf)).push (hooks frame (List.mem_cons_self ..))

/-- Under the frame of a call there is no callback. -/
theorem Lone.no_callback {frame : Frame} {rest : List Frame} (h : Lone (frame :: rest))
    (hf : frame.call?.isSome) : ∀ call, .callback call ∉ rest := fun call hm => by
  rcases (List.pairwise_cons.1 h).1 _ hm with he | he
  · rw [he] at hf
    cases hf
  · cases he

/-- Any frame may go on a stack without callbacks. -/
theorem Lone.cons {stack : List Frame} (h : Lone stack) (hnone : ∀ call, .callback call ∉ stack)
    (frame : Frame) : Lone (frame :: stack) := by
  refine List.pairwise_cons.2 ⟨fun below hm => .inr ?_, h⟩
  cases below with
  | callback call => exact absurd hm (hnone call)
  | _ => rfl

variable {options : DatabaseOptions} {r r' : Runtime} {label : Label}

/-- A publication is no matter of the lifecycle.  It changes the root and the event queue, so
neither the state nor the mark of a callback. -/
theorem publish_lifecycle (options : DatabaseOptions) (r : Runtime) (handle : ℕ)
    (caller : Option ℕ) (committed : Committed) :
    (r.publish options handle caller committed).database.state = r.database.state ∧
      (r.publish options handle caller committed).database.transactionCallbackActive =
        r.database.transactionCallbackActive := by
  unfold publish
  cases committed.batch with
  | none => exact ⟨rfl, rfl⟩
  | some batch =>
      dsimp only
      unfold Database.enqueue
      split_ifs <;> exact ⟨rfl, rfl⟩

/-- A flush leaves the mark of a callback.  It queues a store or finds nothing to store, and
neither sets the mark. -/
@[simp]
theorem active_flushNow (db : Database) (id : JsString) :
    (db.flushNow options id).1.transactionCallbackActive = db.transactionCallbackActive := by
  rcases Database.flushNow_cases options db id with ⟨ha, -, he⟩ | ⟨-, he⟩
  · rw [he]
    have hspec := Database.persist_spec ha db (db.flushReceipt options id)
    generalize db.persist options (db.flushReceipt options id) = result at hspec
    cases hspec <;> rfl
  · rw [he]

/-- A call of `close` leaves the mark of a callback.  It changes the state and queues a store,
and does not set the mark. -/
@[simp]
theorem active_close (db : Database) (id : JsString) :
    (db.close options id).transactionCallbackActive = db.transactionCallbackActive := by
  rcases Database.close_cases options db id with he | ⟨-, -, he⟩
  · rw [he]
  · rw [he]
    show (Database.flushDuringClose options _ id).1.transactionCallbackActive = _
    unfold Database.flushDuringClose
    split_ifs
    · rfl
    · exact active_flushNow { db with state := .closing } id

/-- **At most one callback runs**, and in a degraded database its call opted in. -/
structure CallbackInvariant (s : Runtime × List (Option Request)) : Prop where
  length : s.2.length = s.1.calls.length
  alone : Lone s.1.stack
  active : ∀ call, .callback call ∈ s.1.stack → s.1.database.transactionCallbackActive
  opted : ∀ call, .callback call ∈ s.1.stack → s.1.database.state = .degraded → optedIn s.2 call

namespace CallbackInvariant

variable {s s' : Runtime × List (Option Request)}

/-- In a program that was just opened no callback runs. -/
theorem start (root : Root) (stored : Option SnapshotEnvelope) :
    CallbackInvariant (Runtime.start options root stored, []) where
  length := rfl
  alone := List.Pairwise.nil
  active _ h := by cases h
  opted _ h := by cases h

/-- No callback comes, and the database does not become degraded while one runs.  The requests
may grow by the calls that are added; those that are there keep their place. -/
theorem keep (h : CallbackInvariant s) (alone : Lone s'.1.stack)
    (frames : ∀ call, .callback call ∈ s'.1.stack → .callback call ∈ s.1.stack ∧
      s'.1.database.transactionCallbackActive = s.1.database.transactionCallbackActive ∧
      (s'.1.database.state = .degraded → s.1.database.state = .degraded ∨ optedIn s.2 call))
    {seen : List (Option Request)} (requests : s'.2 = s.2 ++ seen)
    (calls : s'.1.calls.length = s.1.calls.length + seen.length) : CallbackInvariant s' := by
  refine ⟨?_, alone, fun call hm => ?_, fun call hm hd => ?_⟩
  · rw [requests, List.length_append, h.length, calls]
  · obtain ⟨hold, hactive, -⟩ := frames call hm
    rw [hactive]
    exact h.active call hold
  · obtain ⟨hold, -, hstate⟩ := frames call hm
    have hopted : optedIn s.2 call := (hstate hd).elim (h.opted call hold) id
    have hsome := of_decide_eq_true hopted
    obtain ⟨hlt, -⟩ := List.getElem?_eq_some_iff.1 hsome
    rw [optedIn, requests, List.getElem?_append_left hlt, hsome]
    rfl

/-- Only the database changes. -/
theorem ofDatabase (h : CallbackInvariant s) {database : Database} {transactions : List Transaction}
    (active : database.transactionCallbackActive = s.1.database.transactionCallbackActive)
    (state : database.state = s.1.database.state) :
    CallbackInvariant ({ s.1 with database, transactions }, s.2) :=
  h.keep h.alone (fun _ hm => ⟨hm, active, fun hd => .inl (state ▸ hd)⟩)
    (List.append_nil _).symm rfl

/-- The stack loses a frame, and may get others that are not of calls.  The frames that come
instead are hooks or the rest of a commit, which are no callbacks of a call. -/
theorem ofPop (h : CallbackInvariant s) {frame : Frame} {rest stack : List Frame}
    (hstack : s.1.stack = frame :: rest) (alone : Lone rest → Lone stack)
    (frames : ∀ call, .callback call ∈ stack → .callback call ∈ rest) {database : Database}
    {transactions : List Transaction} {calls : List AsyncCall}
    (length : calls.length = s.1.calls.length)
    (kept : ∀ call, .callback call ∈ rest →
      database.transactionCallbackActive = s.1.database.transactionCallbackActive ∧
      database.state = s.1.database.state) :
    CallbackInvariant (⟨database, stack, calls, transactions⟩, s.2) := by
  have halone := h.alone
  rw [hstack] at halone
  refine h.keep (alone (List.pairwise_cons.1 halone).2) (fun call hm => ?_)
    (List.append_nil _).symm length
  have hrest := frames call hm
  obtain ⟨hactive, hstate⟩ := kept call hrest
  exact ⟨hstack ▸ List.mem_cons_of_mem _ hrest, hactive, fun hd => .inl (hstate ▸ hd)⟩

/-- No callback runs. -/
theorem ofIdle (h : CallbackInvariant s) (alone : Lone r'.stack)
    (hnone : ∀ call, .callback call ∉ r'.stack) (length : r'.calls.length = s.1.calls.length) :
    CallbackInvariant (r', s.2) :=
  h.keep alone (fun call hm => absurd hm (hnone call)) (List.append_nil _).symm length

/-- A commit by hand: its frame goes on the stack, with a hook over it.  The hooks above it are
not callbacks, and the callback it was called from, if there is one, is below. -/
theorem ofCommit (h : CallbackInvariant s) {handle now : ℕ}
    (hc : Committing options s.1 handle now none r') : CallbackInvariant (r', s.2) := by
  cases hc with
  | refused t error known refusal => exact h
  | failed t error known admitted failure => exact h.ofDatabase rfl rfl
  | succeeded t committed known admitted usable ok =>
      obtain ⟨above, hstack, hooks⟩ := publish_stack options s.1 handle none committed
      obtain ⟨hstate, hactive⟩ := publish_lifecycle options s.1 handle none committed
      refine h.keep ?_ (fun call hm => ⟨?_, hactive, fun hd => .inl (hstate ▸ hd)⟩)
        (List.append_nil _).symm (by rw [publish_calls]; rfl)
      · rw [hstack]
        exact Lone.pushAll (h.alone.push rfl) hooks
      · rw [hstack] at hm
        rcases List.mem_append.1 hm with hm | hm
        · cases hooks _ hm
        · exact (List.mem_cons.1 hm).resolve_left fun he => by cases he

/-- The callback is over, and its commit may be on the stack instead.  With the callback gone no
frame of the stack is one, so the mark and the state are free to change. -/
theorem ofCallback (h : CallbackInvariant s) {call : ℕ} {rest : List Frame}
    (hstack : s.1.stack = .callback call :: rest) (above : List Frame) {frames : List Frame}
    (stack : r'.stack = above ++ frames ++ rest) (hooks : ∀ frame ∈ above, frame.call? = none)
    (single : frames = [] ∨ ∃ handle receipt, frames = [.committed handle (some call) receipt])
    (length : r'.calls.length = s.1.calls.length) : CallbackInvariant (r', s.2) := by
  have halone := h.alone
  rw [hstack] at halone
  have hnone := halone.no_callback rfl
  have hrest : Lone rest := (List.pairwise_cons.1 halone).2
  have hframes : Lone (frames ++ rest) ∧ ∀ call, .callback call ∉ frames ++ rest := by
    rcases single with rfl | ⟨handle, receipt, rfl⟩
    · exact ⟨hrest, hnone⟩
    · refine ⟨hrest.cons hnone _, fun other hm => ?_⟩
      exact hnone other ((List.mem_cons.1 hm).resolve_left fun he => by cases he)
  refine h.keep ?_ (fun other hm => absurd hm ?_) (List.append_nil _).symm length
  · rw [stack, List.append_assoc]
    exact hframes.1.pushAll hooks
  · rw [stack, List.append_assoc]
    intro hm
    rcases List.mem_append.1 hm with hm | hm
    · cases hooks _ hm
    · exact hframes.2 other hm

/-- **Every step that leaves nothing past the check** keeps the callbacks so.  A callback begins
when its call opted in or the database is open, and what may degrade the database while it runs
is excluded by the condition. -/
theorem step (h : CallbackInvariant s) (hallowed : leavesToCheck options s label)
    (hs : requestedIn options s label = some s') : CallbackInvariant s' := by
  obtain ⟨hstep, hseen⟩ := Transition.observed_eq_some hs
  obtain ⟨r', requests⟩ := s'
  dsimp only at hstep hseen
  subst hseen
  have hquiet : requested options s.1 label = [] → CallbackInvariant (r', s.2) →
      CallbackInvariant (r', s.2 ++ requested options s.1 label) := fun hnil hkept => by
    rwa [hnil, List.append_nil]
  have hreport : ∀ {frame rest stack}, s.1.stack = frame :: rest → (Lone rest → Lone stack) →
      (∀ call, .callback call ∈ stack → .callback call ∈ rest) →
      CallbackInvariant (s.1.report options stack, s.2) := fun hstack halone hframes => by
    unfold report
    split_ifs
    · refine h.ofPop hstack (fun hl => (halone hl).push rfl) (fun call hm => hframes call ?_) rfl
        fun _ _ => ⟨rfl, rfl⟩
      exact (List.mem_cons.1 hm).resolve_left fun he => by cases he
    · exact h.ofPop hstack halone hframes rfl fun _ _ => ⟨rfl, rfl⟩
  have hrefuses : ∀ call, .callback call ∈ s.1.stack →
      (!s.1.database.refuses options s.1.database.root.revision ||
        (onStack (s.1.stack.filter Frame.isCallback)).all (optedIn s.2)) →
      s.1.database.refuses options s.1.database.root.revision = false ∨ optedIn s.2 call := by
    intro call hm hor
    rcases Bool.or_eq_true_iff.1 hor with hnot | hall
    · exact .inl (by simpa using hnot)
    · refine .inr (List.all_eq_true.1 hall call (mem_onStack.2 ⟨.callback call, ?_, rfl⟩))
      exact List.mem_filter.2 ⟨hm, rfl⟩
  cases step_move hstep with
  | began | operated | rolledBack => exact hquiet rfl (h.ofDatabase rfl rfl)
  | notBegun => exact hquiet rfl h
  | committing handle now hc => exact hquiet rfl (h.ofCommit hc)
  | rejected durability allow id now error =>
      refine h.keep h.alone (fun _ hm => ⟨hm, rfl, .inl⟩) rfl ?_
      show ((s.1.calls ++ [AsyncCall.settled]).set _ _).length = _
      rw [settle_concat, List.length_append]
      rfl
  | started durability allow id now usable admitted alone =>
      have hnone : ∀ call, .callback call ∉ s.1.stack := fun call hm => by
        have hactive := h.active call hm
        rw [alone] at hactive
        cases hactive
      refine ⟨?_, h.alone.cons hnone _, fun _ _ => rfl, fun call hm hd => ?_⟩
      · rw [List.length_append, List.length_append, h.length]
        rfl
      · obtain he := (List.mem_cons.1 hm).resolve_right (hnone call)
        obtain rfl := Frame.callback.inj he
        have hopted : durability.getD (if options.adapter then .persisted else .memory) = .memory ∧
            allow = true := by
          obtain ⟨hmemory, hallow⟩ := not_or.1 fun hor => admitted ⟨hd, hor⟩
          refine ⟨?_, by simpa using hallow⟩
          cases hdur : durability.getD (if options.adapter then .persisted else .memory) with
          | memory => rfl
          | persisted => exact absurd hdur hmemory
        rw [optedIn, requested, ← h.length, List.getElem?_concat_length, hopted.1, hopted.2]
        rfl
  | notFlushed id error refusal =>
      refine h.keep h.alone (fun _ hm => ⟨hm, rfl, .inl⟩) rfl ?_
      show ((s.1.calls ++ [AsyncCall.settled]).set _ _).length = _
      rw [settle_concat, List.length_append]
      rfl
  | flushed id usable =>
      refine h.keep h.alone (fun call hm => ⟨hm, active_flushNow .., fun hd => ?_⟩) rfl
        (List.length_append ..)
      rcases hrefuses call hm hallowed with hr | hopted
      · rw [Database.state_flushNow _ hr] at hd
        exact .inl hd
      · exact .inr hopted
  | closed id =>
      refine hquiet rfl (h.keep h.alone (fun call hm => ⟨hm, active_close .., fun hd => ?_⟩)
        (List.append_nil _).symm rfl)
      rcases Database.close_cases options s.1.database id with he | ⟨-, -, he⟩
      · rw [he] at hd
        exact .inl hd
      · rcases hrefuses call hm hallowed with hr | hopted
        · rw [he] at hd
          have hstate := Database.state_flushDuringClose { s.1.database with state := .closing } hr id
          cases hstate.symm.trans hd
        · exact .inr hopted
  | subscribed =>
      unfold Database.subscribe at hquiet ⊢
      split at hquiet <;> exact hquiet rfl (h.ofDatabase rfl rfl)
  | unsubscribed => exact hquiet rfl (h.ofDatabase rfl rfl)
  | callbackReturned now call durability handle rest stack running hc =>
      refine hquiet rfl ?_
      cases hc with
      | refused | failed =>
          exact h.ofCallback stack [] rfl (by simp) (.inl rfl) (List.length_set ..)
      | succeeded t committed known admitted usable ok =>
          obtain ⟨above, hstack, hooks⟩ :=
            publish_stack options (s.1.endCallback rest) handle (some call) committed
          refine h.ofCallback stack above ?_ hooks (.inr ⟨handle, committed.receipt, rfl⟩) ?_
          · rw [hstack, List.append_assoc]
            rfl
          · rw [publish_calls]
            rfl
  | callbackFailed label call error durability handle rest failed stack running unpersisted =>
      refine hquiet ?_ (h.ofCallback stack [] rfl (by simp) (.inl rfl) (List.length_set ..))
      rcases failed with rfl | rfl <;> rfl
  | hookReturned label frame rest ended stack hook =>
      refine hquiet ?_ (h.ofPop stack id (fun _ hm => hm) rfl fun _ _ => ⟨rfl, rfl⟩)
      rcases ended with rfl | ⟨_, rfl⟩ <;> rfl
  | overflowThrew batch rest stack => exact hquiet rfl (hreport stack id fun _ hm => hm)
  | listenerReturned now batch listeners rest stack =>
      refine hquiet rfl (h.ofPop stack (·.push rfl) (fun call hm => ?_) rfl fun _ _ => ⟨rfl, rfl⟩)
      exact (List.mem_cons.1 hm).resolve_left fun he => by cases he
  | listenerThrew batch listeners rest stack =>
      refine hquiet rfl (hreport stack (·.push rfl) fun call hm => ?_)
      exact (List.mem_cons.1 hm).resolve_left fun he => by cases he
  | commitReturned handle receipt rest stack =>
      exact hquiet rfl (h.ofPop stack id (fun _ hm => hm) rfl fun _ _ => ⟨rfl, rfl⟩)
  | commitResolved handle call receipt rest stack hc =>
      have halone := h.alone
      rw [stack] at halone
      have hnone := halone.no_callback rfl
      obtain ⟨_, _, -, ⟨resolved, rfl⟩ | rfl⟩ := afterCommit_eq_some hc
      · exact hquiet rfl (h.ofPop stack id (fun _ hm => hm) (List.length_set ..) fun call hm =>
          absurd hm (hnone call))
      · exact hquiet rfl (h.ofPop stack id (fun _ hm => hm) (List.length_set ..) fun call hm =>
          absurd hm (hnone call))
  | delivered batch listener listeners rest stack =>
      refine hquiet rfl (h.ofPop stack (·.push rfl) (fun call hm => ?_) rfl fun _ _ => ⟨rfl, rfl⟩)
      exact (List.mem_cons.1 hm).resolve_left fun he => by cases he
  | batchDone batch rest stack =>
      rcases s.1.nextBatch_cases rest with ⟨-, he⟩ | ⟨next, queue, -, he⟩
      · rw [he] at hquiet ⊢
        exact hquiet rfl (h.ofPop stack id (fun _ hm => hm) rfl fun _ _ => ⟨rfl, rfl⟩)
      · rw [he] at hquiet ⊢
        refine hquiet rfl (h.ofPop stack (·.push rfl) (fun call hm => ?_) rfl fun _ _ => ⟨rfl, rfl⟩)
        exact (List.mem_cons.1 hm).resolve_left fun he => by cases he
  | dispatched idle scheduled =>
      rcases s.1.nextBatch_cases [] with ⟨-, he⟩ | ⟨next, queue, -, he⟩
      · rw [he] at hquiet ⊢
        exact hquiet rfl (h.ofIdle List.Pairwise.nil (by simp) rfl)
      · rw [he] at hquiet ⊢
        exact hquiet rfl (h.ofIdle (List.pairwise_singleton ..) (by simp) rfl)
  | storage label db idle hstorage =>
      refine hquiet (by cases hstorage <;> rfl) (h.ofIdle ?_ (by simp [idle]) rfl)
      rw [idle]
      exact List.Pairwise.nil
  | wokeTransaction call receipt waiting result idle waits ended =>
      refine hquiet rfl (h.ofIdle ?_ (fun call => ?_) (List.length_set ..))
      · show Lone s.1.stack
        rw [idle]
        exact List.Pairwise.nil
      · show _ ∉ s.1.stack
        rw [idle]
        exact List.not_mem_nil
  | wokeFlush call target waiting result idle waits ended =>
      refine hquiet rfl (h.ofIdle ?_ (fun call => ?_) (List.length_set ..))
      · show Lone s.1.stack
        rw [idle]
        exact List.Pairwise.nil
      · show _ ∉ s.1.stack
        rw [idle]
        exact List.not_mem_nil

end CallbackInvariant

/-- A commit that no call asked for is one by hand.  The other two ways to a commit, the end of
a callback and a call to `transaction`, name their call. -/
theorem commitRequest_by_hand {handle now : ℕ}
    (h : r.commitRequest label = some (handle, now, none)) : label = .commit handle now := by
  unfold commitRequest at h
  split at h
  · cases h
    rfl
  · split at h
    · split at h <;> cases h
    · cases h
  · cases h

/-- A commit that goes through and has a batch was not refused and had changes.  A commit
without a change returns a receipt and no batch, which is how the two are told apart. -/
theorem publishes_of_commitResult {now : ℕ} {t : Transaction} {committed : Committed}
    (h : r.commitResult options now t = .ok committed) (hbatch : committed.batch.isSome) :
    t.publishes r.database.root now := by
  obtain ⟨⟨⟩, hactive, h⟩ := bind_eq_ok.1 h
  obtain ⟨⟨⟩, hlimits, h⟩ := bind_eq_ok.1 h
  obtain ⟨⟨⟩, -, h⟩ := bind_eq_ok.1 h
  obtain ⟨conflicts, hconflicts, h⟩ := bind_eq_ok.1 h
  have hstatus : t.status = .active := by
    unfold Transaction.assertActive at hactive
    split_ifs at hactive with hs
    exact hs
  cases conflicts with
  | cons name rest => cases h
  | nil =>
      have hchanges : t.changes ≠ [] := fun he => by
        dsimp only at h
        rw [if_pos he] at h
        rw [← Except.ok.inj h] at hbatch
        cases hbatch
      rw [Transaction.publishes, hstatus, hlimits, hconflicts]
      simpa [Except.toOption, Except.isOk, Except.toBool] using hchanges

/-- **What a degraded database publishes was opted in**, in every run whose steps leave nothing
to publish past the check of `transaction`.  A step publishes by a commit; the invariant says
which call runs it, and that the call opted in to volatile work. -/
theorem degraded_publications_opted_in {root : Root} {stored : Option SnapshotEnvelope}
    {labels : List Label} {s : Runtime × List (Option Request)}
    (hrun : Transition.Run (requestedIn options) (fun s label => leavesToCheck options s label)
      (start options root stored, []) labels s)
    (hallowed : leavesToCheck options s label) (hdegraded : s.1.database.state = .degraded)
    {p : Publication} (hp : p ∈ s.1.published options label) :
    ∃ call, p.caller = some call ∧ s.2[call]? = some (some ⟨.memory, true⟩) := by
  have hinv : CallbackInvariant s := hrun.invariant (.start root stored) fun _ _ _ h ha hs =>
    h.step ha hs
  obtain ⟨now, hrequest, hknown, hok, hbatch, -⟩ := mem_published.1 hp
  cases hcaller : p.caller with
  | some call =>
      rw [hcaller] at hrequest
      obtain ⟨-, rest, durability, hstack, -⟩ := commitRequest_caller hrequest
      have hopted := hinv.opted call (hstack ▸ List.mem_cons_self ..) hdegraded
      exact ⟨call, rfl, of_decide_eq_true hopted⟩
  | none =>
      rw [hcaller] at hrequest
      obtain rfl := commitRequest_by_hand hrequest
      rw [leavesToCheck, hdegraded, hknown, Option.all_some, publishes_of_commitResult hok hbatch]
        at hallowed
      cases hallowed

/-- A database is degraded by a store that fails; then a commit is opted in.  The second call
asked for `memory` and for volatile commits, so the theorem says of its commit that it was. -/
theorem degraded_commit_opted_in : ∃ (s : Runtime × List (Option Request)) (p : Publication),
    s.1.database.state = .degraded ∧ p ∈ s.1.published (notesOptions 8 8) (.returns 0) ∧
      ∃ call, p.caller = some call ∧ s.2[call]? = some (some ⟨.memory, true⟩) := by
  obtain ⟨root, s, -, h⟩ := exists_run (f := fun root =>
    (Transition.checked (requestedIn (notesOptions 8 8)) (leavesToCheck (notesOptions 8 8))
      (start (notesOptions 8 8) root none, [])
      [.transaction none false (js "t") 0, addNote 0 "a", .returns 0, .resume, .startStore 0,
        .settleStore 0 .rejected, .finishStore 0, .wake 0,
        .transaction (some .memory) true (js "u") 0, addNote 1 "b"]).filter fun s =>
          s.1.database.state = .degraded ∧ (s.1.published (notesOptions 8 8) (.returns 0)).length = 1)
    (by decide +kernel)
  obtain ⟨hrun, hfinal⟩ := Option.filter_eq_some_iff.1 h
  obtain ⟨hdegraded, hone⟩ := of_decide_eq_true hfinal
  obtain ⟨p, hp⟩ := List.length_eq_one_iff.1 hone
  have hmem : p ∈ s.1.published (notesOptions 8 8) (.returns 0) := hp ▸ List.mem_singleton.2 rfl
  exact ⟨s, p, hdegraded, hmem,
    degraded_publications_opted_in (Transition.checked_sound hrun) rfl hdegraded hmem⟩

/-- **A commit by hand publishes in a degraded database.**  The first store is rejected, so the
database is degraded; no check stands between that and the commit of the second transaction. -/
theorem degraded_commit_by_hand :
    (noNotes.toOption.bind fun root =>
      (Transition.run (step (notesOptions 8 8)) (start (notesOptions 8 8) root none)
        [.transaction none false (js "t") 0, addNote 0 "a", .returns 0, .resume, .startStore 0,
          .settleStore 0 .rejected, .beginTransaction (js "u") 0, addNote 1 "b"]).bind fun r =>
      (r.step (notesOptions 8 8) (.commit 1 0)).map fun r' =>
        (r.database.state, r.database.root.revision, r'.database.root.revision,
          (r.published (notesOptions 8 8) (.commit 1 0)).map (·.caller))) =
      some (.degraded, 1, 2, [none]) := by
  decide +kernel

end Runtime

end NewtonDB
