/-
# Calls under way and their frames

Every frame that a `transaction` waits for belongs to a call that is running, no call
has two such frames, and no two running calls have one transaction
(`Runtime.FrameInvariant`).  So there is little a step can do to any one call
(`Runtime.step_fate`).
-/

import NewtonDB.Database.Publications

namespace NewtonDB

/-- The `transaction` call that goes on when the frame is done. -/
def Frame.call? : Frame → Option ℕ
  | .callback call => some call
  | .committed _ caller _ => caller
  | _ => none

namespace Runtime

/-- The call runs, with this durability and this transaction. -/
def Runs (r : Runtime) (call : ℕ) (durability : Durability) (handle : ℕ) : Prop :=
  r.calls[call]? = some (.running durability handle)

/-- The calls whose frames are on the stack. -/
def onStack (stack : List Frame) : List ℕ := stack.filterMap Frame.call?

/-- A call is on the stack when a frame of it is. -/
theorem mem_onStack {stack : List Frame} {call : ℕ} :
    call ∈ onStack stack ↔ ∃ frame ∈ stack, frame.call? = some call := List.mem_filterMap

/-- **The frames of a program belong to its calls.** -/
structure FrameInvariant (r : Runtime) : Prop where
  distinct : (onStack r.stack).Nodup
  callbacks : ∀ call, .callback call ∈ r.stack → ∃ durability handle, r.Runs call durability handle
  commits : ∀ handle call receipt, .committed handle (some call) receipt ∈ r.stack →
    ∃ durability, r.Runs call durability handle
  handles : ∀ call durability handle, r.Runs call durability handle → handle < r.transactions.length
  unique : ∀ call call' durability durability' handle, r.Runs call durability handle →
    r.Runs call' durability' handle → call = call'

variable {options : DatabaseOptions} {r r' : Runtime} {label : Label}

/-- A publication leaves the calls as they are. -/
theorem publish_calls (options : DatabaseOptions) (r : Runtime) (handle : ℕ) (caller : Option ℕ)
    (committed : Committed) : (r.publish options handle caller committed).calls = r.calls := by
  unfold publish
  cases committed.batch <;> rfl

/-- A publication begins no transaction. -/
theorem publish_transactions_length (options : DatabaseOptions) (r : Runtime) (handle : ℕ)
    (caller : Option ℕ) (committed : Committed) :
    (r.publish options handle caller committed).transactions.length = r.transactions.length := by
  unfold publish
  cases committed.batch with
  | none => rfl
  | some batch => exact List.length_modify ..

/-- A commit puts its frame on the stack, and a hook over it.  The hook belongs to no call, so
the frames of calls are those from before and the new one. -/
theorem publish_stack (options : DatabaseOptions) (r : Runtime) (handle : ℕ) (caller : Option ℕ)
    (committed : Committed) : ∃ above, (r.publish options handle caller committed).stack =
      above ++ .committed handle caller committed.receipt :: r.stack ∧
      ∀ frame ∈ above, frame.call? = none := by
  unfold publish
  cases committed.batch with
  | none => exact ⟨[], rfl, by simp⟩
  | some batch =>
      dsimp only
      split_ifs
      · exact ⟨[.overflow batch], rfl, by simp [Frame.call?]⟩
      · exact ⟨[], rfl, by simp⟩

/-- A call that was just made can settle at once. -/
theorem settle_concat {calls : List AsyncCall} :
    (calls ++ [AsyncCall.settled]).set calls.length .settled = calls ++ [.settled] := by
  rw [List.set_append_right _ _ le_rfl, Nat.sub_self]
  rfl

/-- The commit at the end of a callback.  Its call is the one whose callback is on top, and it
still runs. -/
theorem commitRequest_caller {handle now call : ℕ}
    (h : r.commitRequest label = some (handle, now, some call)) :
    label = .returns now ∧ ∃ rest durability, r.stack = .callback call :: rest ∧
      r.Runs call durability handle := by
  unfold commitRequest at h
  split at h
  · cases h
  · split at h
    · next now' _ call' rest hstack =>
        split at h
        · next durability handle' hr =>
            cases h
            exact ⟨rfl, rest, durability, hstack, hr⟩
        · cases h
    · cases h
  · cases h

namespace FrameInvariant

/-- No frame is on the stack of a program that was just opened. -/
theorem start (root : Root) (stored : Option SnapshotEnvelope) :
    (Runtime.start options root stored).FrameInvariant where
  distinct := List.nodup_nil
  callbacks _ h := by cases h
  commits _ _ _ h := by cases h
  handles _ _ _ h := by cases h
  unique _ _ _ _ _ h := by cases h

/-- A call on the stack runs.  Its frame is that of its callback or of its commit, and the
invariant has a clause for each. -/
theorem runs (h : r.FrameInvariant) {call : ℕ} (hm : call ∈ onStack r.stack) :
    ∃ durability handle, r.Runs call durability handle := by
  obtain ⟨frame, hf, hcall⟩ := mem_onStack.1 hm
  cases frame with
  | callback k =>
      obtain rfl := Option.some.inj hcall
      exact h.callbacks k hf
  | committed handle caller receipt =>
      obtain rfl : caller = some call := hcall
      obtain ⟨durability, hr⟩ := h.commits handle call receipt hf
      exact ⟨durability, handle, hr⟩
  | overflow | reporter | listener | dispatching => cases hcall

/-- No new frame of a call, and no new call that runs.  The stack may lose frames of calls, and
transactions may be added. -/
theorem keep (h : r.FrameInvariant) (stack : (onStack r'.stack).Sublist (onStack r.stack))
    (frames : ∀ frame ∈ r'.stack, frame.call?.isSome → frame ∈ r.stack)
    (calls : ∀ call ∈ onStack r'.stack, r'.calls[call]? = r.calls[call]?)
    (runs : ∀ call durability handle, r'.Runs call durability handle →
      r.Runs call durability handle)
    (length : r.transactions.length ≤ r'.transactions.length) : r'.FrameInvariant where
  distinct := h.distinct.sublist stack
  callbacks call hm := by
    obtain ⟨durability, handle, hr⟩ := h.callbacks call (frames _ hm rfl)
    exact ⟨durability, handle, (calls call (mem_onStack.2 ⟨_, hm, rfl⟩)).trans hr⟩
  commits handle call receipt hm := by
    obtain ⟨durability, hr⟩ := h.commits handle call receipt (frames _ hm rfl)
    exact ⟨durability, (calls call (mem_onStack.2 ⟨_, hm, rfl⟩)).trans hr⟩
  handles call durability handle hr := (h.handles call durability handle (runs _ _ _ hr)).trans_le length
  unique call call' durability durability' handle hr hr' :=
    h.unique call call' durability durability' handle (runs _ _ _ hr) (runs _ _ _ hr')

/-- The calls stay, and the stack has no new frame of a call. -/
theorem keepCalls (h : r.FrameInvariant) (calls : r'.calls = r.calls)
    (stack : (onStack r'.stack).Sublist (onStack r.stack))
    (frames : ∀ frame ∈ r'.stack, frame.call?.isSome → frame ∈ r.stack)
    (length : r.transactions.length ≤ r'.transactions.length) : r'.FrameInvariant :=
  h.keep stack frames (fun _ _ => by rw [calls]) (fun _ _ _ hr => by rwa [Runs, ← calls]) length

/-- A call is added that does not run.  It is behind the ones that run, so those keep their
numbers. -/
theorem concat (h : r.FrameInvariant) {c : AsyncCall} (calls : r'.calls = r.calls ++ [c])
    (idle : ∀ durability handle, c ≠ .running durability handle) (stack : r'.stack = r.stack)
    (transactions : r'.transactions = r.transactions) : r'.FrameInvariant := by
  refine h.keep (by rw [stack]) (fun _ hf _ => stack ▸ hf) (fun call hm => ?_)
    (fun call durability handle hr => ?_) (by rw [transactions])
  · obtain ⟨durability, handle, hr⟩ := h.runs (stack ▸ hm)
    obtain ⟨hlt, -⟩ := List.getElem?_eq_some_iff.1 hr
    rw [calls, List.getElem?_append_left hlt]
  · rw [Runs, calls] at hr
    exact (getElem?_concat_eq_some hr).resolve_right fun he => idle durability handle he.symm

/-- A call ends, with its frame.  The call is the one on top of the stack and is on it once, so
no other call is touched. -/
theorem finish (h : r.FrameInvariant) {call : ℕ} {c : AsyncCall}
    (calls : r'.calls = r.calls.set call c)
    (idle : ∀ durability handle, c ≠ .running durability handle)
    (stack : onStack r.stack = call :: onStack r'.stack)
    (frames : ∀ frame ∈ r'.stack, frame.call?.isSome → frame ∈ r.stack)
    (length : r.transactions.length ≤ r'.transactions.length) : r'.FrameInvariant := by
  have hdistinct := h.distinct
  rw [stack] at hdistinct
  refine h.keep (by rw [stack]; exact List.sublist_cons_self ..) frames (fun other hm => ?_)
    (fun other durability handle hr => ?_) length
  · rw [calls, List.getElem?_set_ne fun he : call = other => (List.nodup_cons.1 hdistinct).1 (he ▸ hm)]
  · rw [Runs, calls, List.getElem?_set] at hr
    split_ifs at hr with he hlt
    · exact absurd (Option.some.inj hr) (idle durability handle)
    · exact hr

/-- A call starts, with its frame and its transaction.  Its number is that of the calls so far
and its handle that of the transactions so far, so neither is taken. -/
theorem begin (h : r.FrameInvariant) {durability : Durability} {t : Transaction}
    (calls : r'.calls = r.calls ++ [.running durability r.transactions.length])
    (stack : r'.stack = .callback r.calls.length :: r.stack)
    (transactions : r'.transactions = r.transactions ++ [t]) : r'.FrameInvariant := by
  have hold : ∀ {call durability handle}, r.Runs call durability handle →
      r'.Runs call durability handle := fun hr => by
    obtain ⟨hlt, -⟩ := List.getElem?_eq_some_iff.1 hr
    rw [Runs, calls, List.getElem?_append_left hlt]
    exact hr
  have hnew : r'.Runs r.calls.length durability r.transactions.length := by
    rw [Runs, calls]
    exact List.getElem?_concat_length ..
  have hruns : ∀ {call d handle}, r'.Runs call d handle → r.Runs call d handle ∨
      call = r.calls.length ∧ handle = r.transactions.length := fun {call d handle} hr => by
    rw [Runs, calls] at hr
    rcases Nat.lt_or_ge call r.calls.length with hlt | hge
    · rw [List.getElem?_append_left hlt] at hr
      exact .inl hr
    · obtain ⟨hlt, -⟩ := List.getElem?_eq_some_iff.1 hr
      rw [List.length_append, List.length_singleton] at hlt
      obtain rfl : call = r.calls.length := by omega
      rw [List.getElem?_concat_length] at hr
      cases Option.some.inj hr
      exact .inr ⟨rfl, rfl⟩
  refine ⟨?_, fun call hm => ?_, fun handle call receipt hm => ?_, fun call d handle hr => ?_,
    fun call call' d d' handle hr hr' => ?_⟩
  · rw [stack]
    refine List.nodup_cons.2 ⟨fun hm => ?_, h.distinct⟩
    obtain ⟨_, _, hr⟩ := h.runs hm
    exact absurd (List.getElem?_eq_some_iff.1 hr).1 (Nat.lt_irrefl _)
  · rw [stack] at hm
    rcases List.mem_cons.1 hm with he | hm
    · cases he
      exact ⟨_, _, hnew⟩
    · obtain ⟨_, _, hr⟩ := h.callbacks call hm
      exact ⟨_, _, hold hr⟩
  · rw [stack] at hm
    obtain ⟨_, hr⟩ := h.commits handle call receipt
      ((List.mem_cons.1 hm).resolve_left fun he => by cases he)
    exact ⟨_, hold hr⟩
  · rw [transactions, List.length_append, List.length_singleton]
    rcases hruns hr with hr | ⟨-, rfl⟩
    · exact (h.handles _ _ _ hr).trans (Nat.lt_succ_self _)
    · exact Nat.lt_succ_self _
  · rcases hruns hr with hr | ⟨rfl, rfl⟩ <;> rcases hruns hr' with hr' | ⟨rfl, he⟩
    · exact h.unique _ _ _ _ _ hr hr'
    · exact absurd (h.handles _ _ _ hr) (he ▸ Nat.lt_irrefl _)
    · exact absurd (h.handles _ _ _ hr') (Nat.lt_irrefl _)
    · rfl

/-- The callback of a call makes place for its commit.  The call stays on the stack once and
keeps its handle; what is put over it belongs to no call. -/
theorem replace (h : r.FrameInvariant) {call : ℕ} {durability : Durability} {handle : ℕ}
    {receipt : CommitReceipt} {rest above : List Frame} (hstack : r.stack = .callback call :: rest)
    (running : r.Runs call durability handle) (calls : r'.calls = r.calls)
    (stack : r'.stack = above ++ .committed handle (some call) receipt :: rest)
    (hooks : ∀ frame ∈ above, frame.call? = none)
    (length : r'.transactions.length = r.transactions.length) : r'.FrameInvariant := by
  have hnil : onStack above = [] := List.filterMap_eq_nil_iff.2 hooks
  have hmem : ∀ frame ∈ r'.stack, frame.call?.isSome →
      frame = .committed handle (some call) receipt ∨ frame ∈ r.stack := fun frame hf hc => by
    rw [stack] at hf
    rcases List.mem_append.1 hf with hf | hf
    · rw [hooks frame hf] at hc
      cases hc
    · exact (List.mem_cons.1 hf).imp_right fun hf => hstack ▸ List.mem_cons_of_mem _ hf
  have hruns : ∀ {call d handle}, r'.Runs call d handle ↔ r.Runs call d handle := by
    intro call d handle
    rw [Runs, Runs, calls]
  refine ⟨?_, fun other hm => ?_, fun handle' other receipt' hm => ?_, fun other d handle' hr => ?_,
    fun call call' d d' handle hr hr' => ?_⟩
  · have hd := h.distinct
    rw [hstack] at hd
    rw [stack, onStack, List.filterMap_append, ← onStack, hnil]
    exact hd
  · obtain ⟨_, _, hr⟩ := h.callbacks other ((hmem _ hm rfl).resolve_left fun he => by cases he)
    exact ⟨_, _, hruns.2 hr⟩
  · rcases hmem _ hm rfl with he | hm
    · cases he
      exact ⟨_, hruns.2 running⟩
    · obtain ⟨_, hr⟩ := h.commits handle' other receipt' hm
      exact ⟨_, hruns.2 hr⟩
  · rw [length]
    exact h.handles _ _ _ (hruns.1 hr)
  · exact h.unique _ _ _ _ _ (hruns.1 hr) (hruns.1 hr')

/-- A commit by hand.  Its frame names no call, so the frames of calls stay as they were. -/
theorem commit (h : r.FrameInvariant) {handle now : ℕ}
    (hc : Committing options r handle now none r') : r'.FrameInvariant := by
  cases hc with
  | refused t error known refusal => exact h
  | failed t error known admitted failure =>
      refine h.keepCalls rfl (List.Sublist.refl _) (fun _ hf _ => hf) ?_
      exact (List.length_set ..).ge
  | succeeded t committed known admitted usable ok =>
      obtain ⟨above, hstack, hooks⟩ := publish_stack options r handle none committed
      have hnil : onStack above = [] := List.filterMap_eq_nil_iff.2 hooks
      refine h.keepCalls (publish_calls ..) ?_ (fun frame hf hcall => ?_)
        (publish_transactions_length ..).ge
      · rw [hstack, onStack, List.filterMap_append, ← onStack, hnil]
        exact List.Sublist.refl _
      · rw [hstack] at hf
        rcases List.mem_append.1 hf with hf | hf
        · rw [hooks frame hf] at hcall
          cases hcall
        · rcases List.mem_cons.1 hf with rfl | hf
          · cases hcall
          · exact hf

/-- The commit at the end of a callback.  It is refused or fails, and the call settles, or it is
published, and the call goes on with its commit. -/
theorem commitCallback (h : r.FrameInvariant) {call now : ℕ} {durability : Durability} {handle : ℕ}
    {rest : List Frame} (stack : r.stack = .callback call :: rest)
    (running : r.Runs call durability handle)
    (hc : Committing options (r.endCallback rest) handle now (some call) r') :
    r'.FrameInvariant := by
  have hframes : ∀ frame ∈ rest, frame.call?.isSome → frame ∈ r.stack := fun _ hf _ =>
    stack ▸ List.mem_cons_of_mem _ hf
  have honstack : onStack r.stack = call :: onStack rest := by rw [stack]; rfl
  cases hc with
  | refused t error known refusal =>
      exact h.finish rfl (fun _ _ he => by cases he) honstack hframes le_rfl
  | failed t error known admitted failure =>
      exact h.finish rfl (fun _ _ he => by cases he) honstack hframes (List.length_set ..).ge
  | succeeded t committed known admitted usable ok =>
      obtain ⟨above, hstack, hooks⟩ :=
        publish_stack options (r.endCallback rest) handle (some call) committed
      exact h.replace stack running (publish_calls ..) hstack hooks (publish_transactions_length ..)

/-- **Every step keeps the frames and the calls together.**  The frames on the stack are those
of calls that run, each once, and a call that waits has no frame. -/
theorem step (h : r.FrameInvariant) (hs : r.step options label = some r') :
    r'.FrameInvariant := by
  have hsame : ∀ {database transactions}, r.transactions.length ≤ transactions.length →
      FrameInvariant { r with database, transactions } := fun hle =>
    h.keepCalls rfl (List.Sublist.refl _) (fun _ hf _ => hf) hle
  have hpop : ∀ {frame rest stack database}, r.stack = frame :: rest → frame.call? = none →
      onStack stack = onStack rest → (∀ f ∈ stack, f.call?.isSome → f ∈ rest) →
      FrameInvariant { r with stack, database } := fun hstack hnone hon hframes => by
    refine h.keepCalls rfl ?_ (fun f hf hc => ?_) le_rfl
    · rw [hstack]
      exact hon ▸ (List.sublist_cons_self ..).filterMap _
    · rw [hstack]
      exact List.mem_cons_of_mem _ (hframes f hf hc)
  have hreport : ∀ {frame rest stack}, r.stack = frame :: rest → frame.call? = none →
      onStack stack = onStack rest → (∀ f ∈ stack, f.call?.isSome → f ∈ rest) →
      (r.report options stack).FrameInvariant := fun hstack hnone hon hframes => by
    unfold report
    split_ifs
    · refine hpop hstack hnone hon fun f hf hc => ?_
      rcases List.mem_cons.1 hf with rfl | hf
      · cases hc
      · exact hframes f hf hc
    · exact hpop hstack hnone hon hframes
  have hidle : ∀ {call c outcome}, r.stack = [] → (∀ durability handle, c ≠ .running durability handle) →
      FrameInvariant { r with calls := r.calls.set call c, database := outcome } :=
    fun {call c _} hstack hc => by
      refine h.keep (List.Sublist.refl _) (fun _ hf _ => hf) (fun other hm => ?_)
        (fun other d handle hr => ?_) le_rfl
      · rw [hstack] at hm
        cases hm
      · rw [Runs, List.getElem?_set] at hr
        split_ifs at hr
        · exact absurd (Option.some.inj hr) (hc d handle)
        · exact hr
  cases step_move hs with
  | began id now usable => exact hsame (by simp)
  | notBegun id now error refusal => exact h
  | operated handle now c t known => exact hsame (List.length_set ..).ge
  | rolledBack handle => exact hsame (List.length_modify ..).ge
  | committing handle now hc => exact h.commit hc
  | rejected durability allow id now error =>
      exact h.concat settle_concat (fun _ _ he => by cases he) rfl rfl
  | started durability allow id now usable admitted alone => exact h.begin rfl rfl rfl
  | notFlushed id error refusal => exact h.concat settle_concat (fun _ _ he => by cases he) rfl rfl
  | flushed id usable => exact h.concat rfl (fun _ _ he => by cases he) rfl rfl
  | closed id => exact hsame le_rfl
  | subscribed => exact hsame le_rfl
  | unsubscribed id => exact hsame le_rfl
  | callbackReturned now call durability handle rest stack running hc =>
      exact h.commitCallback stack running hc
  | callbackFailed label call error durability handle rest failed stack running unpersisted =>
      refine h.finish rfl (fun _ _ he => by cases he) ?_ (fun frame hf _ => ?_)
        (List.length_modify ..).ge
      · rw [stack]
        rfl
      · rw [stack]
        exact List.mem_cons_of_mem _ hf
  | hookReturned label frame rest ended stack hook =>
      refine hpop stack ?_ rfl fun _ hf _ => hf
      cases frame <;> first | rfl | cases hook
  | overflowThrew batch rest stack => exact hreport stack rfl rfl fun _ hf _ => hf
  | listenerReturned now batch listeners rest stack =>
      refine hpop stack rfl rfl fun f hf hc => ?_
      exact (List.mem_cons.1 hf).resolve_left fun he => by rw [he] at hc; cases hc
  | listenerThrew batch listeners rest stack =>
      refine hreport stack rfl rfl fun f hf hc => ?_
      exact (List.mem_cons.1 hf).resolve_left fun he => by rw [he] at hc; cases hc
  | commitReturned handle receipt rest stack =>
      refine h.keepCalls rfl ?_ (fun f hf _ => ?_) (List.length_modify ..).ge
      · rw [stack]
        exact (List.sublist_cons_self ..).filterMap _
      · rw [stack]
        exact List.mem_cons_of_mem _ hf
  | commitResolved handle call receipt rest stack hc =>
      obtain ⟨durability, handle', -, hcase⟩ := afterCommit_eq_some hc
      have hon : onStack r.stack = call :: onStack rest := by rw [stack]; rfl
      have hframes : ∀ f ∈ rest, f.call?.isSome → f ∈ r.stack := fun f hf _ =>
        stack ▸ List.mem_cons_of_mem _ hf
      rcases hcase with ⟨resolved, rfl⟩ | rfl
      · exact h.finish rfl (fun _ _ he => by cases he) hon hframes (List.length_modify ..).ge
      · exact h.finish rfl (fun _ _ he => by cases he) hon hframes (List.length_modify ..).ge
  | delivered batch listener listeners rest stack =>
      refine hpop stack rfl rfl fun f hf hc => ?_
      exact (List.mem_cons.1 hf).resolve_left fun he => by rw [he] at hc; cases hc
  | batchDone batch rest stack =>
      rcases r.nextBatch_cases rest with ⟨-, he⟩ | ⟨next, queue, -, he⟩
      · rw [he]
        exact hpop stack rfl rfl fun _ hf _ => hf
      · rw [he]
        refine hpop stack rfl rfl fun f hf hc => ?_
        exact (List.mem_cons.1 hf).resolve_left fun he => by rw [he] at hc; cases hc
  | dispatched idle scheduled =>
      rcases r.nextBatch_cases [] with ⟨-, he⟩ | ⟨next, queue, -, he⟩
      · rw [he, ← idle]
        exact hsame le_rfl
      · rw [he]
        refine h.keepCalls rfl (List.nil_sublist _) (fun f hf hc => ?_) le_rfl
        obtain rfl := List.mem_singleton.1 hf
        cases hc
  | storage label db idle hstorage => exact hsame le_rfl
  | wokeTransaction call receipt waiting result idle waits ended =>
      exact hidle idle fun _ _ he => by cases he
  | wokeFlush call target waiting result idle waits ended =>
      exact hidle idle fun _ _ he => by cases he

end FrameInvariant

/-! ### What becomes of a call -/

/-- Events are added, none of which settles the promise of a call. -/
def Silent (call : ℕ) (db db' : Database) : Prop :=
  ∃ events, db'.history = events ++ db.history ∧ ∀ outcome, .transaction call outcome ∉ events

/-- Where nothing was put on record, nothing was said to the call. -/
theorem Silent.of_history {call : ℕ} {db db' : Database} (h : db'.history = db.history) :
    Silent call db db' := ⟨[], h, fun _ => List.not_mem_nil⟩

/-- Events that settle no call say nothing to the call. -/
theorem Silent.of_plain {call : ℕ} {db db' : Database}
    (h : db.SameEvents DatabaseEvent.isPlain db') : Silent call db db' := by
  obtain ⟨events, hh, he⟩ := h.history
  exact ⟨events, hh, fun outcome hm => absurd (he _ hm) (by simp [DatabaseEvent.isPlain])⟩

/-- An event that settles another call says nothing to this one. -/
theorem Silent.of_cons {call : ℕ} {db db' : Database} {event : DatabaseEvent}
    (h : db'.history = event :: db.history) (he : ∀ outcome, event ≠ .transaction call outcome) :
    Silent call db db' :=
  ⟨[event], h, fun outcome hm => he outcome (List.mem_singleton.1 hm).symm⟩

/-- **What a step does to a call**: nothing, or it makes the call, refuses it, ends it or
lets it wait. -/
inductive Fate (options : DatabaseOptions) (r : Runtime) (label : Label) (call : ℕ) (r' : Runtime) :
    Prop
  | same (calls : r'.calls[call]? = r.calls[call]?)
      (frame : .callback call ∈ r'.stack → .callback call ∈ r.stack)
      (silent : Silent call r.database r'.database)
  | made (new : call = r.calls.length)
      (calls : ∀ receipt waiting, r'.calls[call]? ≠ some (.persisting receipt waiting))
      (silent : Silent call r.database r'.database)
  | refused (error : NewtonError)
      (pending : call = r.calls.length ∨
        ∃ durability handle, r.Runs call durability handle ∧ .callback call ∈ r.stack)
      (calls : r'.calls[call]? = some .settled)
      (history : r'.database.history = .transaction call (.error error) :: r.database.history)
      (published : r.published options label = [])
  | resolved (durability : Durability) (handle : ℕ) (receipt resolved : CommitReceipt)
      (running : r.Runs call durability handle) (calls : r'.calls[call]? = some .settled)
      (history : r'.database.history = .transaction call (.ok resolved) ::
        .committed handle receipt :: r.database.history)
  | waits (durability : Durability) (handle : ℕ) (receipt : CommitReceipt)
      (running : r.Runs call durability handle)
      (calls : r'.calls[call]? = some (.persisting receipt
        ((r.database.record (.committed handle receipt)).persist options receipt).2))
      (database : r'.database =
        ((r.database.record (.committed handle receipt)).persist options receipt).1)
  | woke (receipt : CommitReceipt) (waiting : Waiting) (result : Option NewtonError)
      (waits : r.calls[call]? = some (.persisting receipt waiting))
      (ended : r.database.outcome waiting = some result)
      (calls : r'.calls[call]? = some .settled)
      (history : r'.database.history = .transaction call
        (result.elim (.ok { receipt with durability := .persisted }) .error) :: r.database.history)
  | flushed (target : ℕ) (waiting : Waiting)
      (waits : r.calls[call]? = some (.flushing target waiting))
      (calls : r'.calls[call]? = some .settled) (outcome : Except NewtonError ℕ)
      (history : r'.database.history = .flush call outcome :: r.database.history)

/-- A call that is settled is the settled one. -/
theorem getElem?_settle {calls : List AsyncCall} {call : ℕ} {c : AsyncCall}
    (h : calls[call]? = some c) (d : AsyncCall) : (calls.set call d)[call]? = some d :=
  List.getElem?_set_self (List.getElem?_eq_some_iff.1 h).1

/-- A new call leaves the others as they are. -/
theorem getElem?_concat_ne {calls : List AsyncCall} {c : AsyncCall} {call : ℕ}
    (h : call ≠ calls.length) : (calls ++ [c])[call]? = calls[call]? := by
  rcases Nat.lt_or_gt_of_ne h with hlt | hgt
  · exact List.getElem?_append_left hlt
  · rw [List.getElem?_eq_none hgt.le, List.getElem?_eq_none]
    rw [List.length_append, List.length_singleton]
    exact hgt

/-- The report of an error puts no frame of a call on the stack. -/
theorem mem_of_report {stack : List Frame} {call : ℕ}
    (h : .callback call ∈ (r.report options stack).stack) : .callback call ∈ stack := by
  unfold report at h
  split_ifs at h
  · exact (List.mem_cons.1 h).resolve_left fun he => by cases he
  · exact h

/-- A publication says nothing to any call: it settles later.  The batch may overflow, but
neither that nor the new root is an answer to a call. -/
theorem publish_silent (call : ℕ) (handle : ℕ) (caller : Option ℕ) (committed : Committed) :
    Silent call r.database (r.publish options handle caller committed).database := by
  cases hb : committed.batch with
  | none =>
      refine .of_history ?_
      rw [publish, hb]
  | some batch =>
      let p : Publication := ⟨r, handle, caller, .new [] 0 options.transactionLimits, committed⟩
      have hleads : p.Leads r.database (r.publish options handle caller committed).database :=
        publish_leads (by rw [hb]; rfl)
      obtain ⟨events, hh, he⟩ := hleads.history
      refine ⟨events ++ [.published committed.root], ?_, fun outcome hm => ?_⟩
      · rw [hh, List.append_assoc]
        rfl
      · rcases List.mem_append.1 hm with hm | hm
        · obtain ⟨_, he⟩ := he _ hm
          cases he
        · cases List.mem_singleton.1 hm

/-- A step whose events publish no root publishes nothing.  The one kind of step that publishes
puts its root on record. -/
theorem published_of_history (hs : r.step options label = some r') {events : List DatabaseEvent}
    (h : r'.database.history = events ++ r.database.history)
    (he : ∀ root, .published root ∉ events) : r.published options label = [] := by
  rcases step_published hs with hu | ⟨p, -, hleads⟩
  · exact hu.published
  · obtain ⟨events', hh, -⟩ := hleads.history
    rw [hh, List.append_cons] at h
    rw [← List.append_cancel_right h] at he
    exact absurd (List.mem_append_right _ (List.mem_singleton.2 rfl)) (he _)

/-- **What becomes of a call in a step.**  It goes on as it was, it settles and this is put on
record, or it now waits for its store. -/
theorem step_fate (h : r.FrameInvariant) (hs : r.step options label = some r') (call : ℕ) :
    Fate options r label call r' := by
  have hrefused : ∀ {error}, (call = r.calls.length ∨
      ∃ durability handle, r.Runs call durability handle ∧ Frame.callback call ∈ r.stack) →
      r'.calls[call]? = some .settled →
      r'.database.history = .transaction call (.error error) :: r.database.history →
      Fate options r label call r' := fun {error} hp hc hh => by
    have hevents : r'.database.history = [.transaction call (.error error)] ++ r.database.history := hh
    exact .refused _ hp hc hh (published_of_history hs hevents (by simp))
  cases step_move hs with
  | began id now usable => exact .same rfl (fun hm => hm) (.of_history rfl)
  | notBegun id now error refusal => exact .same rfl (fun hm => hm) (.of_history rfl)
  | operated handle now c t known => exact .same rfl (fun hm => hm) (.of_history rfl)
  | rolledBack handle => exact .same rfl (fun hm => hm) (.of_history rfl)
  | committing handle now hc =>
      cases hc with
      | refused t error known refusal => exact .same rfl (fun hm => hm) (.of_history rfl)
      | failed t error known admitted failure => exact .same rfl (fun hm => hm) (.of_history rfl)
      | succeeded t committed known admitted usable ok =>
          obtain ⟨above, hstack, hooks⟩ := publish_stack options r handle none committed
          refine .same (by rw [publish_calls]) (fun hm => ?_) (publish_silent ..)
          rw [hstack] at hm
          rcases List.mem_append.1 hm with hm | hm
          · cases hooks _ hm
          · exact (List.mem_cons.1 hm).resolve_left fun he => by cases he
  | rejected durability allow id now error =>
      by_cases hcall : call = r.calls.length
      · subst hcall
        refine hrefused (.inl rfl) ?_ rfl
        show ((r.calls ++ [AsyncCall.settled]).set _ _)[_]? = _
        rw [settle_concat, List.getElem?_concat_length]
      · refine .same ?_ (fun hm => hm) (.of_cons rfl fun _ he => ?_)
        · show ((r.calls ++ [AsyncCall.settled]).set _ _)[_]? = _
          rw [settle_concat, getElem?_concat_ne hcall]
        · exact hcall (DatabaseEvent.transaction.inj he).1.symm
  | started durability allow id now usable admitted alone =>
      by_cases hcall : call = r.calls.length
      · refine .made hcall (fun _ _ he => ?_) (.of_history rfl)
        rw [hcall, List.getElem?_concat_length] at he
        cases he
      · refine .same (getElem?_concat_ne hcall) (fun hm => ?_) (.of_history rfl)
        exact (List.mem_cons.1 hm).resolve_left fun he => hcall (Frame.callback.inj he)
  | notFlushed id error refusal =>
      by_cases hcall : call = r.calls.length
      · refine .made hcall (fun _ _ he => ?_) (.of_cons rfl fun _ he => by cases he)
        change ((r.calls ++ [AsyncCall.settled]).set _ _)[_]? = _ at he
        rw [settle_concat, hcall, List.getElem?_concat_length] at he
        cases he
      · refine .same ?_ (fun hm => hm) (.of_cons rfl fun _ he => by cases he)
        show ((r.calls ++ [AsyncCall.settled]).set _ _)[_]? = _
        rw [settle_concat, getElem?_concat_ne hcall]
  | flushed id usable =>
      have hsilent : Silent call r.database (r.database.flushNow options id).1 :=
        .of_plain (.flushNow _ id)
      by_cases hcall : call = r.calls.length
      · refine .made hcall (fun _ _ he => ?_) hsilent
        rw [hcall, List.getElem?_concat_length] at he
        cases he
      · exact .same (getElem?_concat_ne hcall) (fun hm => hm) hsilent
  | closed id => exact .same rfl (fun hm => hm) (.of_plain (.close _ id))
  | subscribed =>
      refine .same rfl (fun hm => hm) (.of_history ?_)
      show r.database.subscribe.history = _
      unfold Database.subscribe
      split <;> rfl
  | unsubscribed id => exact .same rfl (fun hm => hm) (.of_history rfl)
  | callbackReturned now c durability handle rest stack running hc =>
      have hmem : Frame.callback c ∈ r.stack := stack ▸ List.mem_cons_self ..
      have hrest : Frame.callback call ∈ rest → Frame.callback call ∈ r.stack := fun hm =>
        stack ▸ List.mem_cons_of_mem _ hm
      have hended : ∀ {error transactions}, r' =
          settleTransaction { r.endCallback rest with transactions } c (.error error) →
          Fate options r (.returns now) call r' := fun he => by
        by_cases hcall : c = call
        · subst hcall
          refine hrefused (.inr ⟨durability, handle, running, hmem⟩) ?_ (by rw [he]; rfl)
          rw [he]
          exact getElem?_settle running _
        · rw [he]
          refine .same (List.getElem?_set_ne hcall) hrest (.of_cons rfl fun _ hne => ?_)
          exact hcall (DatabaseEvent.transaction.inj hne).1
      cases hc with
      | refused t error known refusal => exact hended rfl
      | failed t error known admitted failure => exact hended rfl
      | succeeded t committed known admitted usable ok =>
          obtain ⟨above, hstack, hooks⟩ :=
            publish_stack options (r.endCallback rest) handle (some c) committed
          obtain ⟨events, hh, he⟩ :=
            publish_silent (r := r.endCallback rest) call handle (some c) committed
          refine .same (by rw [publish_calls]; rfl) (fun hm => ?_) ⟨events, hh, he⟩
          rw [hstack] at hm
          rcases List.mem_append.1 hm with hm | hm
          · cases hooks _ hm
          · exact hrest ((List.mem_cons.1 hm).resolve_left fun he => by cases he)
  | callbackFailed label c error durability handle rest failed stack running unpersisted =>
      by_cases hcall : c = call
      · subst hcall
        have hmem : Frame.callback c ∈ r.stack := stack ▸ List.mem_cons_self ..
        exact hrefused (.inr ⟨durability, handle, running, hmem⟩) (getElem?_settle running _) rfl
      · refine .same (List.getElem?_set_ne hcall) (fun hm => stack ▸ List.mem_cons_of_mem _ hm)
          (.of_cons rfl fun _ hne => hcall (DatabaseEvent.transaction.inj hne).1)
  | hookReturned label frame rest ended stack hook =>
      exact .same rfl (fun hm => stack ▸ List.mem_cons_of_mem _ hm) (.of_history rfl)
  | overflowThrew batch rest stack =>
      exact .same rfl (fun hm => stack ▸ List.mem_cons_of_mem _ (mem_of_report hm)) (.of_history rfl)
  | listenerReturned now batch listeners rest stack =>
      refine .same rfl (fun hm => stack ▸ List.mem_cons_of_mem _ ?_) (.of_history rfl)
      exact (List.mem_cons.1 hm).resolve_left fun he => by cases he
  | listenerThrew batch listeners rest stack =>
      refine .same rfl (fun hm => stack ▸ List.mem_cons_of_mem _ ?_) (.of_history rfl)
      exact (List.mem_cons.1 (mem_of_report hm)).resolve_left fun he => by cases he
  | commitReturned handle receipt rest stack =>
      exact .same rfl (fun hm => stack ▸ List.mem_cons_of_mem _ hm)
        (.of_cons rfl fun _ he => by cases he)
  | commitResolved handle c receipt rest stack hc =>
      obtain ⟨durability, handle', running, hcase⟩ := afterCommit_eq_some hc
      have hrest : Frame.callback call ∈ rest → Frame.callback call ∈ r.stack := fun hm =>
        stack ▸ List.mem_cons_of_mem _ hm
      by_cases hcall : c = call
      · subst hcall
        obtain ⟨d, hruns⟩ := h.commits handle c receipt (stack ▸ List.mem_cons_self ..)
        rcases hcase with ⟨resolved, rfl⟩ | rfl
        · exact .resolved d handle _ resolved hruns (getElem?_settle running _) rfl
        · exact .waits d handle _ hruns (getElem?_settle running _) rfl
      · rcases hcase with ⟨resolved, rfl⟩ | rfl
        · refine .same (List.getElem?_set_ne hcall) hrest ⟨[_, _], rfl, fun outcome hm => ?_⟩
          rcases List.mem_pair.1 hm with he | he
          · exact hcall (DatabaseEvent.transaction.inj he).1.symm
          · cases he
        · refine .same (List.getElem?_set_ne hcall) hrest (.of_plain ?_)
          exact (Database.SameEvents.record rfl r.database).trans (.persist _ _)
  | delivered batch listener listeners rest stack =>
      refine .same rfl (fun hm => stack ▸ List.mem_cons_of_mem _ ?_)
        (.of_cons rfl fun _ he => by cases he)
      exact (List.mem_cons.1 hm).resolve_left fun he => by cases he
  | batchDone batch rest stack =>
      rcases r.nextBatch_cases rest with ⟨-, he⟩ | ⟨next, queue, -, he⟩
      · rw [he]
        exact .same rfl (fun hm => stack ▸ List.mem_cons_of_mem _ hm) (.of_history rfl)
      · rw [he]
        refine .same rfl (fun hm => stack ▸ List.mem_cons_of_mem _ ?_)
          (.of_cons rfl fun _ he => by cases he)
        exact (List.mem_cons.1 hm).resolve_left fun he => by cases he
  | dispatched idle scheduled =>
      rcases r.nextBatch_cases [] with ⟨-, he⟩ | ⟨next, queue, -, he⟩
      · rw [he]
        exact .same rfl (fun hm => by cases hm) (.of_history rfl)
      · rw [he]
        refine .same rfl (fun hm => ?_) (.of_cons rfl fun _ he => by cases he)
        cases List.mem_singleton.1 hm
  | storage label db idle hstorage =>
      rcases hstorage.sameEvents with hsame | ⟨failure, -, hf⟩
      · exact .same rfl (fun hm => hm) (.of_plain hsame)
      · obtain ⟨_, -, rfl⟩ := Database.finishClose_eq_some hf
        exact .same rfl (fun hm => hm) (.of_cons rfl fun _ he => by cases he)
  | wokeTransaction c receipt waiting result idle waits ended =>
      by_cases hcall : c = call
      · subst hcall
        exact .woke receipt waiting result waits ended (getElem?_settle waits _) rfl
      · exact .same (List.getElem?_set_ne hcall) (fun hm => hm)
          (.of_cons rfl fun _ hne => hcall (DatabaseEvent.transaction.inj hne).1)
  | wokeFlush c target waiting result idle waits ended =>
      by_cases hcall : c = call
      · subst hcall
        exact .flushed target waiting waits (getElem?_settle waits _) _ rfl
      · exact .same (List.getElem?_set_ne hcall) (fun hm => hm)
          (.of_cons rfl fun _ he => by cases he)

end Runtime

end NewtonDB
