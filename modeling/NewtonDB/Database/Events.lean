/-
# Events

What becomes of the batches of a database.  A batch is queued when its commit
publishes, or overflows and goes to the hook; a dispatch brings the queued ones to
the listeners, one batch after another; and the end of `close` discards what is still
queued.  All this is a mailbox (`Runtime.mailbox`, `Runtime.mailbox_step`), so every
published batch is in exactly one place and every listener receives batches with
increasing revisions.

`finishClose` empties the queue but leaves the count of its changes.  It matters when a
store that fails later makes the closed database degraded: it takes commits again, under
a count that is too large (`discarded_batches_counted`).  In every run in which no store
fails after queued batches were discarded, the books of a database are in order
(`events_accounted`).
-/

import NewtonDB.Database.Closing
import NewtonDB.Database.Frames
import NewtonDB.Lib.Mailbox

namespace NewtonDB

/-- What the surroundings see of a step: a batch is published, the overflow hook is called
with one, or the end of `close` discards one. -/
inductive Sighting where
  | published (batch : ChangeBatch)
  | handed (batch : ChangeBatch)
  | discarded (batch : ChangeBatch)

namespace Sighting

def published? : Sighting → Option ChangeBatch
  | .published batch => some batch
  | _ => none

def handed? : Sighting → Option ChangeBatch
  | .handed batch => some batch
  | _ => none

def discarded? : Sighting → Option ChangeBatch
  | .discarded batch => some batch
  | _ => none

end Sighting

namespace DatabaseEvent

/-- The batch that overflowed. -/
def overflow? : DatabaseEvent → Option ChangeBatch
  | .overflow batch => some batch
  | _ => none

/-- The batch whose dispatch started, and the listeners then. -/
def dispatched? : DatabaseEvent → Option (ChangeBatch × List ℕ)
  | .dispatched batch listeners => some (batch, listeners)
  | _ => none

/-- An event that is not about a batch after its commit. -/
def isBeside : DatabaseEvent → Bool
  | .overflow _ | .dispatched .. | .delivered .. => false
  | _ => true

/-- An event that is about no batch is beside the batches. -/
theorem isBeside_of_isUnbatched {e : DatabaseEvent} (h : e.isUnbatched) : e.isBeside := by
  cases e <;> first | rfl | cases h

/-- The listener that was called, and the batch. -/
def delivered? : DatabaseEvent → Option (ℕ × ChangeBatch)
  | .delivered listener batch => some (listener, batch)
  | _ => none

end DatabaseEvent

/-- Some of a history, oldest first. -/
def inOrder {α : Type} (f : DatabaseEvent → Option α) (history : List DatabaseEvent) : List α :=
  (history.filterMap f).reverse

section

variable {α : Type} {f : DatabaseEvent → Option α}

/-- What was seen in the order of time: the last event comes last. -/
theorem inOrder_cons (event : DatabaseEvent) (history : List DatabaseEvent) :
    inOrder f (event :: history) = inOrder f history ++ (f event).toList := by
  unfold inOrder
  cases h : f event with
  | none => simp [h]
  | some a => simp [h]

/-- What is not asked for does not count. -/
theorem inOrder_append {events : List DatabaseEvent} (h : ∀ e ∈ events, f e = none)
    (history : List DatabaseEvent) : inOrder f (events ++ history) = inOrder f history := by
  unfold inOrder
  rw [List.filterMap_append, List.filterMap_eq_nil_iff.2 h, List.nil_append]

end

/-- The batch a hook was called with. -/
def Frame.overflow? : Frame → Option ChangeBatch
  | .overflow batch => some batch
  | _ => none

/-- The batch under way and the listeners that still wait for it. -/
def Frame.round? : Frame → Option (ChangeBatch × List ℕ)
  | .listener batch rest | .dispatching batch rest => some (batch, rest)
  | _ => none

/-- The batches under way. -/
def roundsOn (stack : List Frame) : List (ChangeBatch × List ℕ) := stack.filterMap Frame.round?

/-- The hooks that are on the stack now and were not. -/
def newOverflows (before after : List Frame) : List ChangeBatch :=
  (after.take (after.length - before.length)).filterMap Frame.overflow?

/-- The changes of some batches. -/
def changesIn (batches : List ChangeBatch) : ℕ := (batches.map (·.changes.length)).sum

/-- The changes of one batch more are added to those of the others. -/
theorem changesIn_concat (batches : List ChangeBatch) (batch : ChangeBatch) :
    changesIn (batches ++ [batch]) = changesIn batches + batch.changes.length := by
  simp [changesIn]

/-- The changes of a first batch are added to those of the others. -/
theorem changesIn_cons (batch : ChangeBatch) (batches : List ChangeBatch) :
    changesIn (batch :: batches) = batch.changes.length + changesIn batches := by
  simp [changesIn]

namespace Database

/-- **The event queue within its limits**: what is queued is counted and has a dispatch
scheduled, and every subscription has its own number. -/
structure EventBounds (options : DatabaseOptions) (db : Database) : Prop where
  scheduled : db.eventQueue ≠ [] → db.dispatchScheduled
  listeners : db.listeners.Nodup
  listenerId : ∀ id ∈ db.listeners, id ≤ db.listenerId
  length : db.eventQueue.length ≤ options.eventLimits.maxQueuedBatches
  changes : db.eventQueueChanges ≤ options.eventLimits.maxQueuedChanges
  covered : changesIn db.eventQueue ≤ db.eventQueueChanges

variable {options : DatabaseOptions} {db db' : Database} {batch : ChangeBatch}

/-- Queueing a batch: it overflows, or there is room.  A batch that overflows is put on record
and dropped; the caller is told, and calls the hook. -/
theorem enqueue_cases (options : DatabaseOptions) (db : Database) (batch : ChangeBatch) :
    db.enqueue options batch = (db.record (.overflow batch), true) ∨
    (db.eventQueue.length < options.eventLimits.maxQueuedBatches ∧
      db.eventQueueChanges + batch.changes.length ≤ options.eventLimits.maxQueuedChanges ∧
      db.enqueue options batch = ({ db with
        eventQueue := db.eventQueue ++ [batch]
        eventQueueChanges := db.eventQueueChanges + batch.changes.length
        dispatchScheduled := true }, false)) := by
  unfold enqueue
  split_ifs with hfull
  · exact .inl rfl
  · obtain ⟨hlength, hchanges⟩ := not_or.1 hfull
    exact .inr ⟨not_le.1 hlength, not_lt.1 hchanges, rfl⟩

namespace EventBounds

/-- The event queue of a database that was just opened is empty.  No batch was queued and nobody
listens, so every bound is one of zero. -/
theorem start (options : DatabaseOptions) (root : Root) (stored : Option SnapshotEnvelope) :
    (Database.start options root stored).EventBounds options where
  scheduled := fun h => absurd rfl h
  listeners := List.nodup_nil
  listenerId := by simp [Database.start]
  length := Nat.zero_le _
  changes := Nat.zero_le _
  covered := le_rfl

/-- What leaves the event queue alone leaves it within its limits.  Each of its clauses reads
only what is the same. -/
theorem same (h : db.EventBounds options) {kind : DatabaseEvent → Bool}
    (hs : db.SameEvents kind db') : db'.EventBounds options := by
  refine ⟨?_, ?_, ?_, ?_, ?_, ?_⟩
  · rw [hs.eventQueue, hs.dispatchScheduled]
    exact h.scheduled
  · rw [hs.listeners]
    exact h.listeners
  · rw [hs.listeners, hs.listenerId]
    exact h.listenerId
  · rw [hs.eventQueue]
    exact h.length
  · rw [hs.eventQueueChanges]
    exact h.changes
  · rw [hs.eventQueue, hs.eventQueueChanges]
    exact h.covered

/-- **A batch that is queued leaves the queue within its limits**: it is queued where there is
room, and otherwise the batch is dropped. -/
theorem enqueue (h : db.EventBounds options) (batch : ChangeBatch) :
    (db.enqueue options batch).1.EventBounds options := by
  rcases enqueue_cases options db batch with he | ⟨hlength, hchanges, he⟩
  · rw [he]
    exact ⟨h.scheduled, h.listeners, h.listenerId, h.length, h.changes, h.covered⟩
  · rw [he]
    refine ⟨fun _ => rfl, h.listeners, h.listenerId, ?_, hchanges, ?_⟩
    · rw [List.length_append]
      exact hlength
    · rw [changesIn_concat]
      exact Nat.add_le_add_right h.covered _

/-- A new listener leaves the queue within its limits.  Its number is the next one, and so
larger than that of every listener before. -/
theorem subscribe (h : db.EventBounds options) : db.subscribe.EventBounds options := by
  unfold Database.subscribe
  split
  · exact h
  · have hfresh : db.listenerId + 1 ∉ db.listeners := fun hm =>
      absurd (h.listenerId _ hm) (Nat.not_succ_le_self _)
    refine ⟨h.scheduled, ?_, fun id hm => ?_, h.length, h.changes, h.covered⟩
    · exact List.nodup_append.2 ⟨h.listeners, List.nodup_singleton _, fun a ha b hb hab =>
        hfresh (List.mem_singleton.1 hb ▸ hab ▸ ha)⟩
    · rcases List.mem_append.1 hm with hm | hm
      · exact Nat.le_succ_of_le (h.listenerId id hm)
      · exact (List.mem_singleton.1 hm).le

/-- A listener that leaves keeps the queue within its limits: it is as it was. -/
theorem unsubscribe (h : db.EventBounds options) (id : ℕ) :
    (db.unsubscribe id).EventBounds options :=
  ⟨h.scheduled, h.listeners.filter _, fun _ hm => h.listenerId _ (List.mem_filter.1 hm).1, h.length,
    h.changes, h.covered⟩

/-- The end of a close empties the queue. -/
theorem finishClose (h : db.EventBounds options) {failure : Option NewtonError}
    (hf : db.finishClose failure = some db') : db'.EventBounds options := by
  obtain ⟨_, -, rfl⟩ := Database.finishClose_eq_some hf
  exact ⟨fun hne => absurd rfl hne, List.nodup_nil, by simp [record], Nat.zero_le _, h.changes,
    Nat.zero_le _⟩

end EventBounds

end Database

namespace Runtime

/-- The batch a step calls the overflow hook with. -/
def handed (options : DatabaseOptions) (r : Runtime) (label : Label) : List ChangeBatch :=
  (r.step options label).elim [] fun r' => newOverflows r.stack r'.stack

/-- The batches a step discards. -/
def discarded (r : Runtime) : Label → List ChangeBatch
  | .finishClose _ => r.database.eventQueue
  | _ => []

/-- **What a step shows of batches.** -/
def sightings (options : DatabaseOptions) (r : Runtime) (label : Label) : List Sighting :=
  ((r.published options label).filterMap (·.committed.batch)).map .published ++
    (r.handed options label).map .handed ++ (r.discarded label).map .discarded

/-- The steps of a program, with what they showed of batches. -/
abbrev sightedIn (options : DatabaseOptions) :
    Runtime × List Sighting → Label → Option (Runtime × List Sighting) :=
  Transition.observed (step options) (sightings options)

/-- The batches of a database as a mailbox. -/
def mailbox (s : Runtime × List Sighting) : Mailbox ChangeBatch ℕ where
  queue := s.1.database.eventQueue
  round := (roundsOn s.1.stack).head?
  rounds := inOrder DatabaseEvent.dispatched? s.1.database.history
  received := inOrder DatabaseEvent.delivered? s.1.database.history
  refused := inOrder DatabaseEvent.overflow? s.1.database.history
  dropped := s.2.filterMap Sighting.discarded?
  sent := s.2.filterMap Sighting.published?

/-- **The books of a database**: each listener receives batches of increasing revisions;
every published batch was dispatched to the listeners of that time, overflowed, is
queued or was discarded; the hook is called for the overflowed ones; where something is
queued a dispatch is scheduled or runs; and while the database is open the queue keeps
its limits and its changes are counted. -/
structure Accounted (options : DatabaseOptions) (s : Runtime × List Sighting) : Prop where
  increasing : (inOrder DatabaseEvent.delivered? s.1.database.history).Pairwise
    fun a b => a.1 = b.1 → a.2.revision < b.2.revision
  distinct : (s.2.filterMap Sighting.published?).Pairwise (·.revision < ·.revision)
  published : (s.2.filterMap Sighting.published?).Perm
    ((inOrder DatabaseEvent.dispatched? s.1.database.history).map Prod.fst ++
      inOrder DatabaseEvent.overflow? s.1.database.history ++ s.1.database.eventQueue ++
      s.2.filterMap Sighting.discarded?)
  delivered : inOrder DatabaseEvent.delivered? s.1.database.history ++
      (roundsOn s.1.stack).flatMap Mailbox.copies =
    (inOrder DatabaseEvent.dispatched? s.1.database.history).flatMap Mailbox.copies
  handed : s.2.filterMap Sighting.handed? =
    if options.onEventOverflow then inOrder DatabaseEvent.overflow? s.1.database.history else []
  running : (roundsOn s.1.stack).length ≤ 1
  scheduled : s.1.database.eventQueue ≠ [] → s.1.database.dispatchScheduled ∧
    (s.1.stack = [] → (s.1.step options .dispatch).isSome)
  counted : s.1.database.assertOpen = .ok () →
    s.1.database.eventQueue.length ≤ options.eventLimits.maxQueuedBatches ∧
    changesIn s.1.database.eventQueue ≤ options.eventLimits.maxQueuedChanges ∧
    s.1.database.eventQueueChanges = changesIn s.1.database.eventQueue

/-- A step that does not make a closed database degraded after queued batches were
discarded: no store fails then. -/
def keepsCount (options : DatabaseOptions) (s : Runtime × List Sighting) : Label → Bool
  | .settleStore index outcome =>
      (s.2.filterMap Sighting.discarded?).isEmpty || s.1.database.succeeds options index outcome
  | _ => true

variable {options : DatabaseOptions} {r r' : Runtime} {label : Label}

/-! ### What a step does to events -/

/-- The effect of a step on the batches: `queued` is the database a batch joins. -/
inductive EventEffect (options : DatabaseOptions) (r : Runtime) (label : Label) (r' : Runtime) :
    Prop
  | quiet (events : r.database.SameEvents DatabaseEvent.isBeside r'.database)
      (root : r'.database.root = r.database.root) (rounds : roundsOn r'.stack = roundsOn r.stack)
      (seen : r.sightings options label = [])
  | committed (batch : ChangeBatch) (queued : Database)
      (usable : r.database.assertOpen = .ok ())
      (events : r.database.SameEvents DatabaseEvent.isBeside queued)
      (revision : batch.revision = r.database.root.revision + 1)
      (root : queued.root.revision = batch.revision)
      (database : r'.database = (queued.enqueue options batch).1)
      (rounds : roundsOn r'.stack = roundsOn r.stack)
      (seen : r.sightings options label = .published batch ::
        if (queued.enqueue options batch).2 && options.onEventOverflow then [.handed batch] else [])
  | subscribed (database : r'.database = r.database.subscribe) (stack : r'.stack = r.stack)
      (seen : r.sightings options label = [])
  | unsubscribed (id : ℕ) (database : r'.database = r.database.unsubscribe id)
      (stack : r'.stack = r.stack) (seen : r.sightings options label = [])
  | delivered (batch : ChangeBatch) (listener : ℕ) (listeners : List ℕ) (rest : List Frame)
      (stack : r.stack = .dispatching batch (listener :: listeners) :: rest)
      (database : r'.database = r.database.record (.delivered listener batch))
      (stack' : r'.stack = .listener batch listeners :: rest)
      (seen : r.sightings options label = [])
  | turned (rest : List Frame)
      (stack : r.stack = [] ∧ rest = [] ∧ r.database.dispatchScheduled ∨
        ∃ batch, r.stack = .dispatching batch [] :: rest)
      (next : r' = r.nextBatch rest) (seen : r.sightings options label = [])
  | discarded (failure : Option NewtonError) (idle : r.stack = [])
      (database : r.database.finishClose failure = some r'.database) (stack : r'.stack = r.stack)
      (seen : r.sightings options label = r.database.eventQueue.map .discarded)

/-- The batch of a commit has the revision of its root.  The revision is one more than before,
and the change records are those of the transaction. -/
theorem commit_batch {commitOptions : CommitOptions} {root : Root} {t : Transaction}
    {committed : Committed} {batch : ChangeBatch} (h : root.commit commitOptions t = .ok committed)
    (hb : committed.batch = some batch) :
    batch.revision = root.revision + 1 ∧ committed.root.revision = batch.revision := by
  unfold Root.commit at h
  obtain ⟨conflicts, -, h⟩ := bind_eq_ok.1 h
  cases conflicts with
  | cons name rest => cases h
  | nil =>
      dsimp only at h
      split_ifs at h
      · rw [← Except.ok.inj h] at hb
        cases hb
      · unfold Root.publish at h
        dsimp only at h
        split at h
        · cases h
        · rw [← Except.ok.inj h] at hb ⊢
          obtain rfl := Option.some.inj hb
          exact ⟨rfl, rfl⟩

/-- A stack that did not grow has no new hook. -/
theorem newOverflows_of_le {before after : List Frame} (h : after.length ≤ before.length) :
    newOverflows before after = [] := by
  unfold newOverflows
  rw [Nat.sub_eq_zero_of_le h]
  rfl

/-- What is below does not matter. -/
theorem newOverflows_append (popped above stack : List Frame) :
    newOverflows (popped ++ stack) (above ++ stack) = newOverflows popped above := by
  unfold newOverflows
  have hle : above.length - popped.length ≤ above.length := Nat.sub_le ..
  rw [List.length_append, List.length_append, Nat.add_sub_add_right,
    List.take_append_of_le_length hle]

/-- A step that publishes nothing and calls no hook shows what it discards. -/
theorem sightings_of_nil (h : r.step options label = some r')
    (published : r.published options label = [])
    (overflows : newOverflows r.stack r'.stack = []) :
    r.sightings options label = (r.discarded label).map .discarded := by
  unfold sightings handed
  rw [published, h, Option.elim_some, overflows]
  rfl

/-- **A commit, and the batches.**  A commit with changes has one batch, which is queued or
overflows; one without changes leaves the batches. -/
theorem Committing.eventEffect {r₁ : Runtime} {handle now : ℕ} {caller : Option ℕ}
    (hc : Committing options r₁ handle now caller r') (popped : List Frame)
    (hs : r.step options label = some r')
    (hr : r.commitRequest label = some (handle, now, caller))
    (hdiscarded : r.discarded label = []) (ht : r₁.transactions = r.transactions)
    (hdb : ∃ active, r₁.database = { r.database with transactionCallbackActive := active })
    (hstack : r.stack = popped ++ r₁.stack)
    (hpopped : popped = [] ∨ ∃ call, popped = [.callback call]) :
    EventEffect options r label r' := by
  obtain ⟨active, hdb⟩ := hdb
  have hrounds : roundsOn r.stack = roundsOn r₁.stack := by
    rw [hstack, roundsOn, List.filterMap_append]
    obtain rfl | ⟨call, rfl⟩ := hpopped <;> rfl
  have hpush : ∀ receipt, newOverflows popped [.committed handle caller receipt] = [] := by
    obtain rfl | ⟨call, rfl⟩ := hpopped <;> exact fun _ => rfl
  rcases hc.published hr ht (by rw [hdb]) (by rw [hdb]) with
    ⟨hnil, hwithheld⟩ | ⟨t, committed, -, hbatch, hp, rfl⟩
  · have hquiet : roundsOn r'.stack = roundsOn r.stack ∧ newOverflows r.stack r'.stack = [] := by
      rw [hrounds, hstack]
      rcases hwithheld.stack with he | ⟨receipt, he⟩
      · rw [he]
        exact ⟨rfl, newOverflows_of_le (by simp)⟩
      · rw [he]
        exact ⟨rfl, (newOverflows_append popped [_] r₁.stack).trans (hpush receipt)⟩
    have hevents := hwithheld.events
    have hroot := hwithheld.root
    rw [hdb] at hevents hroot
    have hsame : r.database.SameEvents DatabaseEvent.isUnbatched r'.database :=
      ⟨hevents.eventQueue, hevents.eventQueueChanges, hevents.dispatchScheduled, hevents.listenerId,
        hevents.listeners, hevents.history⟩
    refine .quiet (hsame.mono fun _ => DatabaseEvent.isBeside_of_isUnbatched) hroot hquiet.1 ?_
    rw [sightings_of_nil hs hnil hquiet.2, hdiscarded]
    rfl
  · obtain ⟨now', -, -, hok, -, -⟩ := mem_published.1 (hp ▸ List.mem_singleton.2 rfl)
    obtain ⟨⟨⟩, -, hok⟩ := bind_eq_ok.1 hok
    obtain ⟨⟨⟩, -, hok⟩ := bind_eq_ok.1 hok
    obtain ⟨⟨⟩, usable, hok⟩ := bind_eq_ok.1 hok
    obtain ⟨batch, hb⟩ := Option.isSome_iff_exists.1 hbatch
    obtain ⟨hrevision, hroot⟩ := commit_batch hok hb
    have hhanded : ∀ receipt, newOverflows popped [.overflow batch, .committed handle caller receipt] =
        [batch] := by
      obtain rfl | ⟨call, rfl⟩ := hpopped <;> exact fun _ => rfl
    have hshown : ∀ receipt (b : Bool), newOverflows (popped ++ r₁.stack)
        (if b then .overflow batch :: .committed handle caller receipt :: r₁.stack
          else .committed handle caller receipt :: r₁.stack) = if b then [batch] else [] := by
      rintro receipt (_ | _)
      · exact (newOverflows_append popped [_] r₁.stack).trans (hpush receipt)
      · exact (newOverflows_append popped [_, _] r₁.stack).trans (hhanded receipt)
    refine .committed batch ({ r₁.database with root := committed.root }.record
      (.published committed.root)) usable ?_ hrevision hroot ?_ ?_ ?_
    · rw [hdb]
      exact ⟨rfl, rfl, rfl, rfl, rfl, [_], rfl, by simp [DatabaseEvent.isBeside]⟩
    · rw [publish, hb]
    · rw [hrounds, publish, hb]
      dsimp only
      split_ifs <;> rfl
    · rw [sightings, handed, hs, hp, hdiscarded, publish, hb]
      dsimp only
      rw [Option.elim_some, hstack, hshown]
      simp only [List.filterMap_cons, hb, List.filterMap_nil, List.map_nil, List.append_nil]
      split_ifs <;> rfl

/-- A hook or a listener that ends below the reporter, or below nothing.  The frame that ended
is replaced by the reporter when there is one, and is gone otherwise. -/
theorem report_rounds (options : DatabaseOptions) (r : Runtime) (frame : Frame)
    (rest stack : List Frame) (hle : stack.length ≤ rest.length + 1) :
    roundsOn (r.report options stack).stack = roundsOn stack ∧
      newOverflows (frame :: rest) (r.report options stack).stack =
        if options.onListenerError then newOverflows (frame :: rest) (.reporter :: stack) else [] := by
  unfold report
  dsimp only
  split_ifs
  · exact ⟨rfl, rfl⟩
  · exact ⟨rfl, newOverflows_of_le hle⟩

/-- **What a step does to events.**  The moves of the program are grouped by what they do to
batches: commit one, let a listener come or go, deliver one, discard what is queued, or leave
all as it is. -/
theorem step_events (h : r.step options label = some r') : EventEffect options r label r' := by
  have hquiet : r.commitRequest label = none → r.discarded label = [] →
      r.database.SameEvents DatabaseEvent.isUnbatched r'.database →
      r'.database.root = r.database.root → roundsOn r'.stack = roundsOn r.stack →
      newOverflows r.stack r'.stack = [] → EventEffect options r label r' :=
    fun hr hd hs hroot hrounds hover => .quiet
        (hs.mono fun _ => DatabaseEvent.isBeside_of_isUnbatched) hroot hrounds <| by
      rw [sightings_of_nil h (published_of_request hr) hover, hd]
      rfl
  have hsame : r.commitRequest label = none → r.discarded label = [] →
      r.database.SameEvents DatabaseEvent.isUnbatched r'.database →
      r'.database.root = r.database.root → r'.stack = r.stack → EventEffect options r label r' :=
    fun hr hd hs hroot hstack => hquiet hr hd hs hroot (by rw [hstack])
      (newOverflows_of_le (by rw [hstack]))
  have hseen : r.commitRequest label = none → r.discarded label = [] →
      newOverflows r.stack r'.stack = [] → r.sightings options label = [] := fun hr hd hover => by
    rw [sightings_of_nil h (published_of_request hr) hover, hd]
    rfl
  have hplain : ∀ {db : Database}, r.database.SameEvents DatabaseEvent.isPlain db →
      r.database.SameEvents DatabaseEvent.isUnbatched db := fun hs =>
    hs.mono fun _ => DatabaseEvent.isUnbatched_of_isPlain
  cases step_move h with
  | committing handle now hc =>
      exact hc.eventEffect [] h rfl rfl rfl ⟨_, rfl⟩ rfl (.inl rfl)
  | callbackReturned now call durability handle rest stack running hc =>
      refine hc.eventEffect [.callback call] h ?_ rfl rfl ⟨false, rfl⟩ stack
        (.inr ⟨call, rfl⟩)
      rw [commitRequest, stack]
      simp only [running]
  | began | notBegun | operated | rolledBack =>
      exact hsame rfl rfl (.refl _) rfl rfl
  | started durability allow id now usable admitted alone =>
      refine hquiet rfl rfl ⟨rfl, rfl, rfl, rfl, rfl, [], rfl, by simp⟩ rfl rfl ?_
      exact newOverflows_append [] [_] r.stack
  | rejected | notFlushed => exact hsame rfl rfl (.record rfl _) rfl rfl
  | flushed id => exact hsame rfl rfl (hplain (.flushNow _ id)) (Database.root_flushNow _ id) rfl
  | closed id => exact hsame rfl rfl (hplain (.close _ id)) (Database.root_close _ id) rfl
  | subscribed => exact .subscribed rfl rfl (hseen rfl rfl (newOverflows_of_le le_rfl))
  | unsubscribed id => exact .unsubscribed id rfl rfl (hseen rfl rfl (newOverflows_of_le le_rfl))
  | callbackFailed label call error durability handle rest failed stack =>
      have hrest : roundsOn rest = roundsOn r.stack ∧ newOverflows r.stack rest = [] := by
        rw [stack]
        exact ⟨rfl, newOverflows_of_le (by simp)⟩
      rcases failed with rfl | rfl
      · exact hquiet rfl rfl ⟨rfl, rfl, rfl, rfl, rfl, [_], rfl, by simp [DatabaseEvent.isUnbatched]⟩
          rfl hrest.1 hrest.2
      · exact hquiet rfl rfl ⟨rfl, rfl, rfl, rfl, rfl, [_], rfl, by simp [DatabaseEvent.isUnbatched]⟩
          rfl hrest.1 hrest.2
  | hookReturned label frame rest ended stack hook =>
      have hrest : roundsOn rest = roundsOn r.stack ∧ newOverflows r.stack rest = [] := by
        rw [stack]
        refine ⟨?_, newOverflows_of_le (by simp)⟩
        cases frame <;> first | rfl | cases hook
      have hlabel : r.commitRequest label = none ∧ r.discarded label = [] := by
        rcases ended with rfl | ⟨now, rfl⟩
        · exact ⟨rfl, rfl⟩
        · refine ⟨?_, rfl⟩
          rw [commitRequest, stack]
          cases frame <;> first | rfl | cases hook
      exact hquiet hlabel.1 hlabel.2 (.refl _) rfl hrest.1 hrest.2
  | overflowThrew batch rest stack =>
      obtain ⟨hrounds, hover⟩ := report_rounds options r (.overflow batch) rest rest (Nat.le_succ _)
      refine hquiet rfl rfl (.refl _) rfl ?_ ?_
      · rw [hrounds, stack]
        rfl
      · rw [stack, hover]
        split_ifs
        · exact newOverflows_append [_] [_] rest
        · rfl
  | listenerReturned now batch listeners rest stack =>
      refine hquiet ?_ rfl (.refl _) rfl ?_ ?_
      · rw [commitRequest, stack]
      · rw [stack]
        rfl
      · rw [stack]
        exact newOverflows_of_le (by simp)
  | listenerThrew batch listeners rest stack =>
      obtain ⟨hrounds, hover⟩ := report_rounds options r (.listener batch listeners) rest
        (.dispatching batch listeners :: rest) le_rfl
      refine hquiet rfl rfl (.refl _) rfl ?_ ?_
      · rw [hrounds, stack]
        rfl
      · rw [stack, hover]
        split_ifs
        · exact newOverflows_append [_] [_, _] rest
        · rfl
  | commitReturned handle receipt rest stack =>
      refine hquiet rfl rfl (.record rfl _) rfl ?_ ?_
      · rw [stack]
        rfl
      · rw [stack]
        exact newOverflows_of_le (by simp)
  | commitResolved handle call receipt rest stack hc =>
      have hrest : roundsOn rest = roundsOn r.stack ∧ newOverflows r.stack rest = [] := by
        rw [stack]
        exact ⟨rfl, newOverflows_of_le (by simp)⟩
      obtain ⟨_, _, -, ⟨resolved, rfl⟩ | rfl⟩ := afterCommit_eq_some hc
      · exact hquiet rfl rfl ⟨rfl, rfl, rfl, rfl, rfl, [_, _], rfl,
          by simp [DatabaseEvent.isUnbatched]⟩ rfl hrest.1 hrest.2
      · refine hquiet rfl rfl (hplain ?_) (Database.root_persist _ _) hrest.1 hrest.2
        exact (Database.SameEvents.record rfl r.database).trans (.persist _ _)
  | delivered batch listener listeners rest stack =>
      exact .delivered batch listener listeners rest stack rfl rfl
        (hseen rfl rfl (newOverflows_of_le (stack ▸ le_rfl)))
  | batchDone batch rest stack =>
      refine .turned rest (.inr ⟨batch, stack⟩) rfl (hseen rfl rfl (newOverflows_of_le ?_))
      rw [stack]
      rcases r.nextBatch_cases rest with ⟨-, he⟩ | ⟨next, queue, -, he⟩
      · rw [he]
        exact Nat.le_succ _
      · rw [he]
        exact le_rfl
  | dispatched idle scheduled =>
      refine .turned [] (.inl ⟨idle, rfl, scheduled⟩) rfl (hseen rfl rfl ?_)
      rw [idle]
      rcases r.nextBatch_cases [] with ⟨-, he⟩ | ⟨next, queue, -, he⟩
      · rw [he]
        rfl
      · rw [he]
        rfl
  | storage label db idle hstorage =>
      have hevents := hstorage.sameEvents
      have hroot := hstorage.root
      cases hstorage with
      | finishClose failure hf =>
          refine .discarded failure idle hf rfl ?_
          rw [sightings_of_nil h rfl (newOverflows_of_le le_rfl)]
          rfl
      | startStore | settleStore | finishStore | closeAdapter =>
          refine hsame rfl rfl (hplain (hevents.resolve_right ?_)) hroot rfl
          rintro ⟨_, ⟨⟩, -⟩
  | wokeTransaction | wokeFlush => exact hsame rfl rfl (.record rfl _) rfl rfl

/-! ### The books -/

/-- A database whose close is done: nothing runs and nothing is queued. -/
structure Sealed (r : Runtime) : Prop where
  closePromise : ∃ failure, r.database.closePromise = some (.done failure)
  state : r.database.state = .closed
  stack : r.stack = []
  eventQueue : r.database.eventQueue = []

/-- The invariant of the books. -/
structure EventInvariant (options : DatabaseOptions) (s : Runtime × List Sighting) : Prop where
  box : (mailbox s).Valid ChangeBatch.revision
  queue : s.1.database.EventBounds options
  running : (roundsOn s.1.stack).length ≤ 1
  bound : ∀ batch ∈ (mailbox s).sent, batch.revision ≤ s.1.database.root.revision
  handed : s.2.filterMap Sighting.handed? = if options.onEventOverflow then (mailbox s).refused else []
  counted : s.1.database.eventQueueChanges = changesIn s.1.database.eventQueue ∨
    (mailbox s).dropped ≠ [] ∧ s.1.Sealed

variable {s s' : Runtime × List Sighting}

/-- Events of other kinds do not change what the mailbox is read from.  Each of the three lists
is a filter of the history, and a beside event is in none of them. -/
theorem inOrder_beside {events history : List DatabaseEvent} (h : ∀ e ∈ events, e.isBeside) :
    inOrder DatabaseEvent.dispatched? (events ++ history) =
        inOrder DatabaseEvent.dispatched? history ∧
      inOrder DatabaseEvent.delivered? (events ++ history) =
        inOrder DatabaseEvent.delivered? history ∧
      inOrder DatabaseEvent.overflow? (events ++ history) =
        inOrder DatabaseEvent.overflow? history := by
  have hnone : ∀ e ∈ events, e.dispatched? = none ∧ e.delivered? = none ∧ e.overflow? = none := by
    intro e he
    have hkind := h e he
    cases e <;> first | exact ⟨rfl, rfl, rfl⟩ | cases hkind
  exact ⟨inOrder_append (fun e he => (hnone e he).1) _,
    inOrder_append (fun e he => (hnone e he).2.1) _,
    inOrder_append (fun e he => (hnone e he).2.2) _⟩

/-- What other events leave of the mailbox.  What was sent, what waits and what was received is
read from the queue, the rounds on the stack and the history. -/
theorem mailbox_eq {r r' : Runtime} {seen : List Sighting}
    (h : r.database.SameEvents DatabaseEvent.isBeside r'.database)
    (rounds : roundsOn r'.stack = roundsOn r.stack) : mailbox (r', seen) = mailbox (r, seen) := by
  obtain ⟨events, hhistory, hkind⟩ := h.history
  obtain ⟨hdispatched, hdelivered, hoverflow⟩ := inOrder_beside hkind
  ext1
  · exact h.eventQueue
  · exact congrArg List.head? rounds
  · exact (congrArg _ hhistory).trans hdispatched
  · exact (congrArg _ hhistory).trans hdelivered
  · exact (congrArg _ hhistory).trans hoverflow
  · rfl
  · rfl

/-- A batch is sent, or refused.  It is sent when there is room; when there is none it is
refused, and the hook is handed it if there is one. -/
theorem mailbox_committed {r r' : Runtime} {seen : List Sighting} {batch : ChangeBatch}
    {queued : Database} (events : r.database.SameEvents DatabaseEvent.isBeside queued)
    (database : r'.database = (queued.enqueue options batch).1)
    (rounds : roundsOn r'.stack = roundsOn r.stack)
    (fresh : ∀ b ∈ (mailbox (r, seen)).sent, b.revision < batch.revision) :
    (mailbox (r, seen)).Step ChangeBatch.revision (mailbox (r', seen ++ .published batch ::
      if (queued.enqueue options batch).2 && options.onEventOverflow then [.handed batch] else [])) := by
  have hqueued : mailbox ({ r' with database := queued }, seen) = mailbox (r, seen) :=
    mailbox_eq events rounds
  rw [← hqueued] at fresh ⊢
  rcases Database.enqueue_cases options queued batch with he | ⟨-, -, he⟩
  · rw [he] at database ⊢
    have hbox : mailbox (r', seen ++ .published batch ::
        if true && options.onEventOverflow then [.handed batch] else []) =
        { mailbox ({ r' with database := queued }, seen) with
          refused := (mailbox ({ r' with database := queued }, seen)).refused ++ [batch]
          sent := (mailbox ({ r' with database := queued }, seen)).sent ++ [batch] } := by
      cases options.onEventOverflow <;>
        simp [mailbox, database, Database.record, inOrder_cons, DatabaseEvent.dispatched?,
          DatabaseEvent.delivered?, DatabaseEvent.overflow?, Sighting.discarded?, Sighting.published?]
    rw [hbox]
    exact .refuse batch fresh
  · rw [he] at database ⊢
    have hbox : mailbox (r', seen ++ [.published batch]) =
        { mailbox ({ r' with database := queued }, seen) with
          queue := queued.eventQueue ++ [batch]
          sent := (mailbox ({ r' with database := queued }, seen)).sent ++ [batch] } := by
      simp [mailbox, database, Sighting.discarded?, Sighting.published?]
    exact hbox ▸ .send batch fresh

/-- What a commit adds to the batches sent. -/
theorem mailbox_sent_committed {r : Runtime} {seen : List Sighting} {batch : ChangeBatch}
    (overflows : Bool) : (mailbox (r, seen ++ .published batch ::
      if overflows then [.handed batch] else [])).sent = (mailbox (r, seen)).sent ++ [batch] := by
  cases overflows <;> simp [mailbox, Sighting.published?]

/-- **The batches of a database are a mailbox.**  Seen from its batches a database is a mailbox
with bounded room, whose readers join and leave. -/
theorem mailbox_step (h : EventInvariant options s) (hs : sightedIn options s label = some s') :
    mailbox s' = mailbox s ∨ (mailbox s).Step ChangeBatch.revision (mailbox s') := by
  obtain ⟨r, seen⟩ := s
  obtain ⟨r', seen'⟩ := s'
  obtain ⟨hstep, rfl⟩ := Transition.observed_eq_some hs
  dsimp only at hstep ⊢
  cases step_events hstep with
  | quiet events root rounds hseen =>
      rw [hseen, List.append_nil]
      exact .inl (mailbox_eq events rounds)
  | committed batch queued usable events revision root database rounds hseen =>
      rw [hseen]
      refine .inr (mailbox_committed events database rounds fun b hb => ?_)
      exact (h.bound b hb).trans_lt (by rw [revision]; exact Nat.lt_succ_self _)
  | subscribed database stack hseen =>
      rw [hseen, List.append_nil]
      refine .inl ?_
      unfold mailbox Database.subscribe at *
      dsimp only
      rw [database, stack]
      split <;> rfl
  | unsubscribed id database stack hseen =>
      rw [hseen, List.append_nil]
      refine .inl ?_
      unfold mailbox
      dsimp only
      rw [database, stack]
      rfl
  | delivered batch listener listeners rest stack database stack' hseen =>
      rw [hseen, List.append_nil]
      have hround : (mailbox (r, seen)).round = some (batch, listener :: listeners) := by
        rw [mailbox, stack]
        rfl
      have hbox : mailbox (r', seen) = { mailbox (r, seen) with
          round := some (batch, listeners)
          received := (mailbox (r, seen)).received ++ [(listener, batch)] } := by
        simp [mailbox, database, stack', Database.record, inOrder_cons, roundsOn, Frame.round?,
          DatabaseEvent.dispatched?, DatabaseEvent.delivered?, DatabaseEvent.overflow?]
      rw [hbox]
      exact .inr (.deliver batch listener listeners hround)
  | turned rest stack next hseen =>
      rw [hseen, List.append_nil]
      right
      have hfree : (mailbox (r, seen)).outstanding = [] := by
        rcases stack with ⟨hstack, -, -⟩ | ⟨batch, hstack⟩
        · simp [mailbox, Mailbox.outstanding, hstack, roundsOn]
        · simp [mailbox, Mailbox.outstanding, hstack, roundsOn, Frame.round?, Mailbox.copies]
      have hrest : roundsOn rest = [] := by
        rcases stack with ⟨-, rfl, -⟩ | ⟨batch, hstack⟩
        · rfl
        · have hrunning := h.running
          simpa [hstack, roundsOn, Frame.round?] using hrunning
      rcases r.nextBatch_cases rest with ⟨hqueue, he⟩ | ⟨batch, queue, hqueue, he⟩
      · have hbox : mailbox (r', seen) = { mailbox (r, seen) with round := none } := by
          rw [next, he]
          simp [mailbox, hrest]
        rw [hbox]
        exact .finish hfree
      · have hbox : mailbox (r', seen) = { mailbox (r, seen) with
            queue
            round := some (batch, r.database.listeners)
            rounds := (mailbox (r, seen)).rounds ++ [(batch, r.database.listeners)] } := by
          rw [next, he]
          simp [mailbox, Database.record, inOrder_cons, roundsOn, Frame.round?,
            DatabaseEvent.dispatched?, DatabaseEvent.delivered?, DatabaseEvent.overflow?]
        rw [hbox]
        exact .begin batch queue r.database.listeners hqueue hfree h.queue.listeners
  | discarded failure idle database stack hseen =>
      rw [hseen]
      obtain ⟨_, -, hdb⟩ := Database.finishClose_eq_some database
      have hbox : mailbox (r', seen ++ r.database.eventQueue.map .discarded) =
          { mailbox (r, seen) with
            queue := []
            dropped := (mailbox (r, seen)).dropped ++ (mailbox (r, seen)).queue } := by
        simp [mailbox, hdb, stack, Database.record, inOrder_cons, DatabaseEvent.dispatched?,
          DatabaseEvent.delivered?, DatabaseEvent.overflow?, List.filterMap_map, Function.comp_def,
          Sighting.discarded?, Sighting.published?]
      rw [hbox]
      exact .inr .drop

/-- A database that is sealed refuses its calls. -/
theorem Sealed.not_usable (h : r.Sealed) : r.database.assertOpen ≠ .ok () := by
  rw [Database.assertOpen, h.state]
  exact fun he => by cases he

/-- Nothing starts to run in a database whose close is done, and nothing is queued.  The stack
is empty and stays so, because every way to start user code asks for an open database or for a
batch. -/
theorem Sealed.idle (h : r.Sealed) (hs : r.step options label = some r') :
    r'.stack = [] ∧ r'.database.eventQueue = [] := by
  have hsame : ∀ {db : Database} {kind : DatabaseEvent → Bool}, r.database.SameEvents kind db →
      db.eventQueue = [] := fun hsame => hsame.eventQueue.trans h.eventQueue
  have hnil : ∀ {frame : Frame} {rest : List Frame}, r.stack ≠ frame :: rest := by
    rw [h.stack]
    exact fun he => by cases he
  cases step_move hs with
  | committing handle now hc =>
      cases hc with
      | refused | failed => exact ⟨h.stack, h.eventQueue⟩
      | succeeded t committed known admitted usable => exact absurd usable h.not_usable
  | started durability allow id now usable => exact absurd usable h.not_usable
  | flushed id usable => exact absurd usable h.not_usable
  | began | notBegun | operated | rolledBack | rejected | notFlushed | wokeTransaction | wokeFlush
  | unsubscribed => exact ⟨h.stack, h.eventQueue⟩
  | closed id => exact ⟨h.stack, hsame (.close _ id)⟩
  | subscribed =>
      refine ⟨h.stack, ?_⟩
      unfold Database.subscribe
      split <;> exact h.eventQueue
  | callbackReturned _ _ _ _ _ stack | callbackFailed _ _ _ _ _ _ _ stack
  | hookReturned _ _ _ _ stack | overflowThrew _ _ stack | listenerReturned _ _ _ _ stack
  | listenerThrew _ _ _ stack | commitReturned _ _ _ stack | commitResolved _ _ _ _ stack
  | delivered _ _ _ _ stack | batchDone _ _ stack => exact absurd stack hnil
  | dispatched =>
      rcases r.nextBatch_cases [] with ⟨-, he⟩ | ⟨next, queue, hq, -⟩
      · rw [he]
        exact ⟨rfl, h.eventQueue⟩
      · rw [h.eventQueue] at hq
        cases hq
  | storage label db idle hstorage =>
      refine ⟨idle, ?_⟩
      rcases hstorage.sameEvents with hsame' | ⟨failure, -, hf⟩
      · exact hsame hsame'
      · obtain ⟨_, -, rfl⟩ := Database.finishClose_eq_some hf
        rfl

/-- **A database whose close is done stays closed**, unless a store fails.  The state is closed,
and only a failed store writes to the state without a look at it. -/
theorem Sealed.step (h : r.Sealed) (hs : r.step options label = some r')
    (hok : ∀ index outcome, label = .settleStore index outcome →
      r.database.succeeds options index outcome) : r'.Sealed := by
  obtain ⟨failure, hdone⟩ := h.closePromise
  have hlife : r.database.LifecycleInvariant := fun phase hp => by
    obtain rfl := Option.some.inj (hdone.symm.trans hp)
    exact h.state
  have hclean : r.closesCleanly options label := by
    cases label with
    | close id =>
        rw [closesCleanly, hdone]
        rfl
    | resume =>
        rw [closesCleanly, h.stack]
    | settleStore index outcome =>
        rw [closesCleanly, hok index outcome rfl, Bool.or_true]
    | _ => rfl
  obtain ⟨hlife', hstays⟩ := staysClosing_step hlife hclean hs
  obtain ⟨-, phase, hp, hclosed⟩ := hstays _ hdone
  obtain ⟨hstack, hqueue⟩ := h.idle hs
  refine ⟨?_, (hlife' phase hp).trans (hclosed rfl), hstack, hqueue⟩
  cases phase with
  | flushing | closingAdapter => cases hclosed rfl
  | done failure => exact ⟨failure, hp⟩

/-- In a program that was just opened nothing was queued and nothing was received.  Its mailbox
is the empty one. -/
theorem EventInvariant.start (options : DatabaseOptions) (root : Root)
    (stored : Option SnapshotEnvelope) :
    EventInvariant options (start options root stored, []) where
  box := Mailbox.Valid.empty
  queue := .start options root stored
  running := Nat.zero_le 1
  bound := by simp [mailbox]
  handed := (ite_self _).symm
  counted := .inl rfl

/-- The loop over the event queue and the bounds of the queue.  A batch that is taken off takes
its changes out of the count, which is therefore still a sum over the queue. -/
theorem bounds_nextBatch (h : r.database.EventBounds options) (rest : List Frame) :
    (r.nextBatch rest).database.EventBounds options := by
  rcases r.nextBatch_cases rest with ⟨hqueue, he⟩ | ⟨batch, queue, hqueue, he⟩
  · rw [he]
    exact ⟨fun hne => absurd hqueue hne, h.listeners, h.listenerId, h.length, h.changes, h.covered⟩
  · have hlength := h.length
    have hcovered := h.covered
    rw [hqueue, List.length_cons] at hlength
    rw [hqueue, changesIn_cons] at hcovered
    rw [he]
    refine ⟨fun _ => h.scheduled (hqueue ▸ List.cons_ne_nil batch queue), h.listeners,
      h.listenerId, Nat.le_of_succ_le hlength, (Nat.sub_le ..).trans h.changes, ?_⟩
    exact Nat.le_sub_of_add_le (by rwa [Nat.add_comm])

/-- **The books are kept.**  The mailbox takes a step of its own, and the counters move with
it. -/
theorem EventInvariant.step (h : EventInvariant options s) (hkeeps : keepsCount options s label)
    (hs : sightedIn options s label = some s') : EventInvariant options s' := by
  have hbox : (mailbox s').Valid ChangeBatch.revision := by
    rcases mailbox_step h hs with he | hstep
    · rw [he]
      exact h.box
    · exact h.box.step hstep
  obtain ⟨r, seen⟩ := s
  obtain ⟨r', seen'⟩ := s'
  obtain ⟨hstep, rfl⟩ := Transition.observed_eq_some hs
  dsimp only at hstep hbox ⊢
  have hdropped : (mailbox (r, seen)).dropped ≠ [] ∧ r.Sealed →
      (mailbox (r', seen ++ r.sightings options label)).dropped ≠ [] ∧ r'.Sealed := by
    rintro ⟨hne, hsealed⟩
    refine ⟨?_, hsealed.step hstep fun index outcome he => ?_⟩
    · show List.filterMap _ _ ≠ []
      rw [List.filterMap_append]
      exact fun he => hne (List.append_eq_nil_iff.1 he).1
    · rw [he, keepsCount, Bool.or_eq_true_iff, List.isEmpty_iff] at hkeeps
      exact hkeeps.resolve_left hne
  have hqueue := h.queue
  cases step_events hstep with
  | quiet events root rounds hseen =>
      rw [hseen, List.append_nil] at hbox hdropped ⊢
      have he : mailbox (r', seen) = mailbox (r, seen) := mailbox_eq events rounds
      refine ⟨hbox, hqueue.same events, (congrArg List.length rounds).trans_le h.running, ?_, ?_, ?_⟩
      · rw [he, root]
        exact h.bound
      · rw [he]
        exact h.handed
      · rw [events.eventQueue, events.eventQueueChanges]
        exact h.counted.imp_right hdropped
  | committed batch queued usable events revision root database rounds hseen =>
      rw [hseen] at hbox hdropped ⊢
      obtain ⟨events', hhistory, hkind⟩ := events.history
      have hrefused : inOrder DatabaseEvent.overflow? queued.history = (mailbox (r, seen)).refused := by
        rw [hhistory]
        exact (inOrder_beside hkind).2.2
      have hbounds : queued.EventBounds options := hqueue.same events
      have hroot : (queued.enqueue options batch).1.root = queued.root :=
        (Database.Quiet.enqueue options queued batch).root
      refine ⟨hbox, database ▸ hbounds.enqueue batch, (congrArg List.length rounds).trans_le h.running,
        fun b hb => ?_, ?_, ?_⟩
      · rw [database, hroot, root, revision]
        rw [mailbox_sent_committed] at hb
        rcases List.mem_append.1 hb with hb | hb
        · exact Nat.le_succ_of_le (h.bound b hb)
        · rw [List.mem_singleton.1 hb, revision]
      · rw [mailbox, database, List.filterMap_append, h.handed]
        rcases Database.enqueue_cases options queued batch with he | ⟨-, -, he⟩
        · rw [he]
          cases options.onEventOverflow with
          | false => rfl
          | true =>
              show _ ++ [batch] = inOrder DatabaseEvent.overflow? (.overflow batch :: queued.history)
              rw [inOrder_cons, hrefused]
              rfl
        · rw [he]
          simp [hrefused, Sighting.handed?]
      · refine .inl ?_
        have hcount : r.database.eventQueueChanges = changesIn r.database.eventQueue :=
          h.counted.resolve_right fun hs => hs.2.not_usable usable
        rcases Database.enqueue_cases options queued batch with he | ⟨-, -, he⟩
        · rw [database, he]
          show queued.eventQueueChanges = changesIn queued.eventQueue
          rw [events.eventQueue, events.eventQueueChanges, hcount]
        · rw [database, he]
          show _ = changesIn (queued.eventQueue ++ [batch])
          rw [changesIn_concat, events.eventQueue, events.eventQueueChanges, hcount]
  | subscribed database stack hseen =>
      rw [hseen, List.append_nil] at hbox hdropped ⊢
      have hrest : r.database.subscribe.root = r.database.root ∧
          r.database.subscribe.history = r.database.history ∧
          r.database.subscribe.eventQueue = r.database.eventQueue ∧
          r.database.subscribe.eventQueueChanges = r.database.eventQueueChanges := by
        unfold Database.subscribe
        split <;> exact ⟨rfl, rfl, rfl, rfl⟩
      refine ⟨hbox, database ▸ hqueue.subscribe, stack ▸ h.running, ?_, ?_, ?_⟩
      · rw [database, hrest.1]
        exact h.bound
      · refine h.handed.trans ?_
        rw [mailbox, mailbox, database, hrest.2.1]
      · rw [database, hrest.2.2.1, hrest.2.2.2]
        exact h.counted.imp_right hdropped
  | unsubscribed id database stack hseen =>
      rw [hseen, List.append_nil] at hbox hdropped ⊢
      refine ⟨hbox, database ▸ hqueue.unsubscribe id, stack ▸ h.running, ?_, ?_, ?_⟩
      · rw [database]
        exact h.bound
      · rw [mailbox, database]
        exact h.handed
      · rw [database]
        exact h.counted.imp_right hdropped
  | delivered batch listener listeners rest stack database stack' hseen =>
      rw [hseen, List.append_nil] at hbox hdropped ⊢
      refine ⟨hbox, ?_, ?_, ?_, ?_, ?_⟩
      · rw [database]
        exact ⟨hqueue.scheduled, hqueue.listeners, hqueue.listenerId, hqueue.length, hqueue.changes,
          hqueue.covered⟩
      · have hrunning := h.running
        rw [stack] at hrunning
        rw [stack']
        exact hrunning
      · rw [database]
        exact h.bound
      · refine h.handed.trans ?_
        simp [mailbox, database, Database.record, inOrder_cons, DatabaseEvent.overflow?]
      · rw [database]
        exact h.counted.imp_right hdropped
  | turned rest stack next hseen =>
      rw [hseen, List.append_nil] at hbox hdropped ⊢
      have hrest : roundsOn rest = [] := by
        rcases stack with ⟨-, rfl, -⟩ | ⟨batch, hstack⟩
        · rfl
        · have hrunning := h.running
          simpa [hstack, roundsOn, Frame.round?] using hrunning
      have hbounds := bounds_nextBatch hqueue rest
      rw [next] at hbox hdropped ⊢
      rcases r.nextBatch_cases rest with ⟨hnil, he⟩ | ⟨batch, queue, hcons, he⟩
      · rw [he] at hbox hbounds hdropped ⊢
        refine ⟨hbox, hbounds, hrest ▸ Nat.zero_le 1, h.bound, h.handed, ?_⟩
        exact h.counted.imp_right hdropped
      · rw [he] at hbox hbounds hdropped ⊢
        refine ⟨hbox, hbounds, ?_, h.bound, ?_, ?_⟩
        · show (_ :: roundsOn rest).length ≤ 1
          rw [hrest, List.length_singleton]
        · refine h.handed.trans ?_
          simp [mailbox, Database.record, inOrder_cons, DatabaseEvent.overflow?]
        · have hcount : r.database.eventQueueChanges = changesIn r.database.eventQueue :=
            h.counted.resolve_right fun hs => by
              have hempty := hs.2.eventQueue
              rw [hcons] at hempty
              cases hempty
          rw [hcons, changesIn_cons] at hcount
          exact .inl (Nat.sub_eq_of_eq_add' hcount)
  | discarded failure idle database stack hseen =>
      rw [hseen] at hbox hdropped ⊢
      have hbounds := hqueue.finishClose database
      obtain ⟨closing, -, hdb⟩ := Database.finishClose_eq_some database
      refine ⟨hbox, hbounds, stack ▸ h.running, ?_, ?_, ?_⟩
      · rw [hdb]
        refine fun b hb => h.bound b ?_
        simpa [mailbox, List.filterMap_map, Function.comp_def, Sighting.published?] using hb
      · rw [mailbox, hdb, List.filterMap_append, h.handed]
        simp [mailbox, Database.record, inOrder_cons, DatabaseEvent.overflow?, List.filterMap_map,
          Function.comp_def, Sighting.handed?]
      · cases hqueue : r.database.eventQueue with
        | nil =>
            refine h.counted.imp (fun hcount => ?_) (hqueue ▸ hdropped)
            rw [hdb]
            exact hcount.trans (congrArg changesIn hqueue)
        | cons batch queue =>
            refine .inr ⟨?_, ?_⟩
            · simp [mailbox, List.filterMap_map, Function.comp_def, Sighting.discarded?]
            · exact ⟨⟨_, congrArg Database.closePromise hdb⟩, congrArg Database.state hdb,
                stack.trans idle, congrArg Database.eventQueue hdb⟩

/-- **What the invariant says of a run**: every batch is accounted for, and listeners hear of
revisions that go up. -/
theorem EventInvariant.accounted (h : EventInvariant options s) : Accounted options s where
  increasing := h.box.received_increasing
  distinct := h.box.sent
  published := h.box.accounted
  delivered := by
    have hdelivered := h.box.delivered
    have hround : (mailbox s).outstanding = (roundsOn s.1.stack).flatMap Mailbox.copies := by
      have hrunning := h.running
      unfold Mailbox.outstanding mailbox
      cases hrounds : roundsOn s.1.stack with
      | nil => rfl
      | cons round rest =>
          rw [hrounds, List.length_cons] at hrunning
          obtain rfl := List.eq_nil_of_length_eq_zero (Nat.le_zero.1 (Nat.le_of_succ_le_succ hrunning))
          exact (List.flatMap_singleton ..).symm
    rwa [hround] at hdelivered
  handed := h.handed
  running := h.running
  scheduled := fun hne => by
    refine ⟨h.queue.scheduled hne, fun hidle => ?_⟩
    have hdispatch : s.1.idle options .dispatch = some (s.1.nextBatch []) :=
      if_pos (h.queue.scheduled hne)
    simp [Runtime.step, inUserCode, hidle, hdispatch]
  counted := fun usable => by
    have hcount : s.1.database.eventQueueChanges = changesIn s.1.database.eventQueue :=
      h.counted.resolve_right fun hs => hs.2.not_usable usable
    exact ⟨h.queue.length, hcount ▸ h.queue.changes, hcount⟩

/-- **The books of a database are in order**, in every run in which no store fails after `close`
has discarded queued batches.  It holds by induction on the run: no batch is lost but by an
overflow that is counted, and each listener hears of revisions that increase. -/
theorem events_accounted {root : Root} {stored : Option SnapshotEnvelope} {labels : List Label}
    (hrun : Transition.Run (sightedIn options) (fun s label => keepsCount options s label)
      (start options root stored, []) labels s) : Accounted options s :=
  EventInvariant.accounted <| hrun.invariant (.start options root stored)
    fun _ _ _ h hkeeps hs => h.step hkeeps hs

/-- Two listeners get a batch, a third batch overflows, and the second is queued.  There is room
for one batch only; the theorem accounts for all three. -/
theorem overflow_accounted : ∃ s : Runtime × List Sighting,
    s.1.database.eventQueue.length = 1 ∧ s.2.length = 4 ∧ Accounted (notesOptions 8 1) s := by
  obtain ⟨root, s, -, h⟩ := exists_run (f := fun root =>
    (Transition.checked (sightedIn (notesOptions 8 1)) (keepsCount (notesOptions 8 1))
      (start (notesOptions 8 1) root none, [])
      [.subscribe, .subscribe, .beginTransaction (js "t") 0, addNote 0 "a", .commit 0 0, .resume,
        .dispatch, .resume, .beginTransaction (js "u") 0, addNote 1 "b", .commit 1 0, .resume,
        .beginTransaction (js "v") 0, addNote 2 "c", .commit 2 0, .throws, .throws, .resume,
        .throws]).filter fun s => s.1.database.eventQueue.length = 1 ∧ s.2.length = 4)
    (by decide +kernel)
  obtain ⟨hrun, hfinal⟩ := Option.filter_eq_some_iff.1 h
  obtain ⟨hqueue, hseen⟩ := of_decide_eq_true hfinal
  exact ⟨s, hqueue, hseen, events_accounted (Transition.checked_sound hrun)⟩

/-- **Discarded batches stay counted.**  The end of `close` discards a batch that was
published while the database was degraded; a store that fails and one that
succeeds open the database again, with nothing queued and one change counted. -/
theorem discarded_batches_counted :
    (noNotes.toOption.bind fun root =>
      (Transition.run (step (notesOptions 2 8)) (start (notesOptions 2 8) root none)
        [.transaction none false (js "t") 0, addNote 0 "a", .returns 0, .resume,
          .transaction none false (js "u") 0, addNote 1 "b", .returns 0, .resume,
          .transaction (some .memory) false (js "v") 0, addNote 2 "c", .returns 0, .resume,
          .dispatch, .resume, .resume, .resume, .close (js "d"), .closeAdapter,
          .startStore 0, .settleStore 0 .rejected, .finishStore 0,
          .transaction (some .memory) true (js "w") 0, addNote 3 "e", .returns 0, .resume,
          .flush (js "x"), .finishClose none,
          .startStore 1, .settleStore 1 .rejected, .finishStore 1,
          .startStore 2, .settleStore 2 (storedNotes 1 4), .finishStore 2]).map fun r =>
        (r.database.state, r.database.eventQueue.length, r.database.eventQueueChanges)) =
      some (.opened, 0, 1) := by
  decide +kernel

end Runtime

end NewtonDB
