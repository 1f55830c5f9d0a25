/-
# What a database hears of its adapter

A database knows of its stores what the adapter told it, one answer at a time, and
nothing else it does changes that (`Runtime.StorageEffect.unanswered`).  For a database
over a shared storage, `Instance.Invariant` ties what it was told to what happened:
its stores in the log of the storage are those it was told of, and one more while the
adapter's answer is under way.  All that it promised to be persisted is held.
-/

import NewtonDB.Database.Durability
import NewtonDB.Database.Instances

namespace NewtonDB

/-- The snapshots whose stores a database was told of, newest first. -/
def acknowledgedSnapshots : List DatabaseEvent → List SnapshotEnvelope
  | [] => []
  | .acknowledged snapshot _ :: earlier => snapshot :: acknowledgedSnapshots earlier
  | _ :: earlier => acknowledgedSnapshots earlier

/-- The revision an event promises to be persisted. -/
def DatabaseEvent.persisted? : DatabaseEvent → Option ℕ
  | .transaction _ (.ok receipt) =>
      if receipt.durability = .persisted then some receipt.revision else none
  | .flush _ (.ok target) => some target
  | _ => none

/-- The latest of some snapshots, newest first, over the one loaded. -/
def latest (loaded : Option SnapshotEnvelope) (snapshots : List SnapshotEnvelope) :
    Option SnapshotEnvelope := snapshots.head?.or loaded

variable {options : DatabaseOptions} {loaded : Option SnapshotEnvelope}

/-- Events without an acknowledgement leave what was acknowledged.  The list is a filter of the
history, newest first. -/
theorem acknowledgedSnapshots_append {events history : List DatabaseEvent}
    (h : ∀ e ∈ events, e.isNoAcknowledgement) :
    acknowledgedSnapshots (events ++ history) = acknowledgedSnapshots history := by
  induction events with
  | nil => rfl
  | cons e events ih =>
      have hrest := ih fun e' he' => h e' (List.mem_cons_of_mem _ he')
      have he := h e (List.mem_cons_self ..)
      cases e <;> first | exact hrest | cases he

/-- An event that leaves storage alone is no acknowledgement. -/
theorem DatabaseEvent.isNoAcknowledgement_of_isQuiet {e : DatabaseEvent} (h : e.isQuiet) :
    e.isNoAcknowledgement := by
  cases e <;> first | rfl | cases h

/-- A silent event promises nothing. -/
theorem DatabaseEvent.persisted?_of_isSilent {e : DatabaseEvent} (h : e.isSilent) :
    e.persisted? = none := by
  cases e with
  | transaction call outcome | flush call outcome =>
      cases outcome <;> first | rfl | cases h
  | _ => rfl

/-- A snapshot holds the commits up to a revision also when more happened. -/
theorem SnapshotEnvelope.holds_append {snapshot : SnapshotEnvelope} {revision : ℕ}
    {history : List DatabaseEvent} (h : snapshot.holds revision history)
    (events : List DatabaseEvent) : snapshot.holds revision (events ++ history) := by
  induction events with
  | nil => exact h
  | cons e events ih => cases e <;> first | exact ih | exact Bool.or_eq_true_iff.2 (.inr ih)

/-- **What storage holds is in the latest snapshot**: the last one acknowledged, or the
one loaded. -/
theorem holds_of_installed {revision : ℕ} : ∀ {history : List DatabaseEvent},
    installed loaded revision history →
      ∃ snapshot, latest loaded (acknowledgedSnapshots history) = some snapshot ∧
        (acknowledgedSnapshots history ≠ [] ∧ snapshot.holds revision history ∨
          acknowledgedSnapshots history = [] ∧ revision ≤ snapshot.revision)
  | [], h => by
      cases loaded with
      | none => cases h
      | some snapshot => exact ⟨snapshot, rfl, .inr ⟨rfl, of_decide_eq_true h⟩⟩
  | e :: earlier, h => by
      cases e with
      | acknowledged snapshot a =>
          exact ⟨snapshot, rfl, .inl ⟨List.cons_ne_nil _ _, SnapshotEnvelope.holds_append h [_]⟩⟩
      | _ =>
          have hinstalled : installed loaded revision earlier := h
          obtain ⟨snapshot, hs, hh⟩ := holds_of_installed hinstalled
          exact ⟨snapshot, hs, hh.imp_left fun ⟨hne, hh⟩ =>
            ⟨hne, SnapshotEnvelope.holds_append hh [_]⟩⟩

namespace Database

variable {db db' : Database} {index : ℕ}

/-- Nothing the adapter told the database was heard. -/
structure Unanswered (db db' : Database) : Prop where
  generation : db'.generation = db.generation
  persistedRevision : db'.persistedRevision = db.persistedRevision
  history : ∃ events, db'.history = events ++ db.history ∧ ∀ e ∈ events, e.isNoAcknowledgement
  storing : ∀ task ∈ db.tasks, task.phase.isStoring → task ∈ db'.tasks

namespace Unanswered

/-- Nothing was heard where the generation, what is persisted and the stores are as they
were. -/
theorem of_same (generation : db'.generation = db.generation)
    (persistedRevision : db'.persistedRevision = db.persistedRevision)
    (tasks : db.tasks ⊆ db'.tasks) (events : List DatabaseEvent)
    (history : db'.history = events ++ db.history) (he : ∀ e ∈ events, e.isNoAcknowledgement) :
    db.Unanswered db' :=
  ⟨generation, persistedRevision, ⟨events, history, he⟩, fun _ ht _ => tasks ht⟩

/-- Nothing was heard when nothing happened. -/
theorem refl (db : Database) : db.Unanswered db :=
  .of_same rfl rfl (fun _ ht => ht) [] rfl (by simp)

/-- Nothing was heard in two steps when nothing was in each.  What is on record of both is no
acknowledgement either. -/
theorem trans {db'' : Database} (h : db.Unanswered db') (h' : db'.Unanswered db'') :
    db.Unanswered db'' := by
  obtain ⟨events, hh, he⟩ := h.history
  obtain ⟨events', hh', he'⟩ := h'.history
  refine ⟨h'.generation.trans h.generation, h'.persistedRevision.trans h.persistedRevision,
    ⟨events' ++ events, by rw [hh', hh, List.append_assoc], fun e hm => ?_⟩,
    fun task ht hs => h'.storing task (h.storing task ht hs) hs⟩
  exact (List.mem_append.1 hm).elim (he' e) (he e)

/-- What leaves storage alone hears nothing. -/
theorem quiet (hq : db.Quiet DatabaseEvent.isQuiet db') : db.Unanswered db' := by
  obtain ⟨events, hh, he⟩ := hq.history
  exact .of_same hq.generation hq.persistedRevision (fun _ ht => hq.tasks ▸ ht) events hh
    fun e hm => DatabaseEvent.isNoAcknowledgement_of_isQuiet (he e hm)

/-- To put an event that is no acknowledgement on record hears nothing. -/
theorem record (db : Database) {event : DatabaseEvent} (he : event.isNoAcknowledgement) :
    db.Unanswered (db.record event) :=
  .of_same rfl rfl (fun _ ht => ht) [event] rfl (by simpa using he)

/-- A publication hears nothing. -/
theorem publish (db : Database) (committed : Committed) :
    db.Unanswered (db.publish committed) := by
  unfold Database.publish
  split
  · exact refl db
  · exact .of_same rfl rfl (fun _ ht => ht) [_] rfl (by simp [DatabaseEvent.isNoAcknowledgement])

/-- To queue a store hears nothing.  A queued store has not been handed to the adapter yet. -/
theorem persist (ha : options.adapter) (db : Database) (receipt : CommitReceipt) :
    db.Unanswered (db.persist options receipt).1 := by
  have hspec := persist_spec ha db receipt
  generalize db.persist options receipt = result at hspec
  cases hspec with
  | coalesced index entry => exact refl db
  | full entry limit => exact .of_same rfl rfl (fun _ ht => ht) [] rfl (by simp)
  | broken entry limit clone error => exact .of_same rfl rfl (fun _ ht => ht) [] rfl (by simp)
  | queued entry limit collections clone =>
      exact .of_same rfl rfl (fun _ ht => List.mem_append_left _ ht) [_] rfl
        (by simp [DatabaseEvent.isNoAcknowledgement])

/-- A flush hears nothing. -/
theorem flushNow (db : Database) (id : JsString) :
    db.Unanswered (db.flushNow options id).1 := by
  rcases flushNow_cases options db id with ⟨ha, -, he⟩ | ⟨-, he⟩
  · rw [he]
    exact persist ha db _
  · rw [he]
    exact refl db

/-- A call of `close` hears nothing.  Its flush queues a store at most, and the adapter is
closed in a later step. -/
theorem close (db : Database) (id : JsString) : db.Unanswered (db.close options id) := by
  rcases close_cases options db id with he | ⟨-, -, he⟩
  · rw [he]
    exact refl db
  · have hclosing : db.Unanswered { db with state := .closing } :=
      .of_same rfl rfl (fun _ ht => ht) [] rfl (by simp)
    have hflush : Unanswered { db with state := .closing }
        ({ db with state := .closing }.flushDuringClose options id).1 := by
      unfold flushDuringClose
      split_ifs
      · exact refl _
      · exact flushNow _ id
    rw [he]
    exact (hclosing.trans hflush).trans (.of_same rfl rfl (fun _ ht => ht) [] rfl (by simp))

/-- Another store than the one with the adapter moves on.  The one with the adapter keeps its
place and its snapshot. -/
theorem setPhase {task : PersistenceTask} (ht : db.tasks[index]? = some task)
    (hs : task.phase.isStoring = false) (phase : TaskPhase) :
    db.Unanswered (db.setPhase index phase) := by
  refine ⟨rfl, rfl, ⟨[], rfl, by simp⟩, fun other hm hother => ?_⟩
  obtain ⟨j, hj⟩ := List.mem_iff_getElem?.1 hm
  have hne : index ≠ j := by
    rintro rfl
    obtain rfl := Option.some.inj (ht.symm.trans hj)
    rw [hs] at hother
    cases hother
  refine List.mem_of_getElem? (i := j) ?_
  rw [tasks_setPhase, hj, Option.map_some, if_neg hne]

end Unanswered

/-- At most one store is with the adapter.  What is not queued and not finished is at one place
of the queue, by its order. -/
theorem storing_unique (ho : QueueOrder db.tasks) {i j : ℕ} {a b : PersistenceTask}
    (hi : db.tasks[i]? = some a) (hj : db.tasks[j]? = some b) (ha : a.phase.isStoring)
    (hb : b.phase.isStoring) : i = j := by
  have hne : ∀ {t : PersistenceTask}, t.phase.isStoring → t.phase ≠ .queued := fun ht hq => by
    rw [hq] at ht
    cases ht
  by_contra hij
  have hlt := ho.lt_of_unsettled hi (hne ha) hj (TaskPhase.isStoring_le hb) (Ne.symm hij)
  have hgt := ho.lt_of_unsettled hj (hne hb) hi (TaskPhase.isStoring_le ha) hij
  omega

end Database

/-- **Only the end of a store is heard of the adapter.**  Generation and persisted revision
change when the adapter acknowledges, and at no other time. -/
theorem Runtime.StorageEffect.unanswered {r : Runtime} {label : Label} {db : Database}
    (h : r.StorageEffect options label db)
    (hl : ∀ index outcome, label ≠ .settleStore index outcome) : r.database.Unanswered db := by
  cases h with
  | quiet hq => exact .quiet hq
  | commit t committed _ _ _ hq => exact (Database.Unanswered.publish _ committed).trans (.quiet hq)
  | persist handle call receipt rest _ _ ha _ =>
      exact (Database.Unanswered.record r.database rfl).trans
        (.persist ha _ (r.receiptOf handle receipt))
  | flush id _ => exact .flushNow _ id
  | close id => exact .close _ id
  | startStore index hs =>
      obtain ⟨task, ht, hq, -, rfl⟩ := Database.startStore_eq_some hs
      exact (Database.Unanswered.setPhase ht (by rw [hq]; rfl) _).trans (.record _ rfl)
  | settleStore index outcome hs => exact absurd rfl (hl index outcome)
  | finishStore index hs =>
      obtain ⟨task, error, ht, hp, rfl⟩ := Database.finishStore_eq_some hs
      exact (Database.Unanswered.setPhase ht (by rw [hp]; rfl) _).trans
        (.of_same rfl rfl (fun _ ht => ht) [] rfl (by simp))
  | closeAdapter hs =>
      obtain ⟨waiting, failure, -, -, rfl⟩ := Database.closeAdapter_eq_some hs
      split_ifs
      · exact .of_same rfl rfl (fun _ ht => ht) [_] rfl
          (by simp [DatabaseEvent.isNoAcknowledgement])
      · exact .of_same rfl rfl (fun _ ht => ht) [] rfl (by simp)
  | finishClose failure hs =>
      obtain ⟨previous, -, rfl⟩ := Database.finishClose_eq_some hs
      exact .of_same rfl rfl (fun _ ht => ht) [_] rfl
        (by simp [DatabaseEvent.isNoAcknowledgement])

/-! ### What is promised -/

namespace Database

variable {db db' : Database} {index : ℕ}

/-- Only events of storage were put on record. -/
def AddsStorage (db db' : Database) : Prop :=
  ∃ events, db'.history = events ++ db.history ∧ ∀ e ∈ events, e.isStorage

namespace AddsStorage

/-- Where nothing was put on record, only events of storage were. -/
theorem nothing (h : db'.history = db.history) : db.AddsStorage db' := ⟨[], h, by simp⟩

/-- One event of storage was put on record. -/
theorem one {event : DatabaseEvent} (he : event.isStorage) (h : db'.history = event :: db.history) :
    db.AddsStorage db' := ⟨[event], h, by simpa using he⟩

/-- To queue a store puts events of storage on record.  At most it is one event, which says that
the store was queued. -/
theorem persist (ha : options.adapter) (db : Database) (receipt : CommitReceipt) :
    db.AddsStorage (db.persist options receipt).1 := by
  have hspec := persist_spec ha db receipt
  generalize db.persist options receipt = result at hspec
  cases hspec with
  | coalesced index entry => exact nothing rfl
  | full entry limit => exact nothing rfl
  | broken entry limit clone error => exact nothing rfl
  | queued entry limit collections clone => exact one rfl rfl

/-- A flush puts events of storage on record. -/
theorem flushNow (db : Database) (id : JsString) :
    db.AddsStorage (db.flushNow options id).1 := by
  rcases flushNow_cases options db id with ⟨ha, -, he⟩ | ⟨-, he⟩
  · rw [he]
    exact persist ha db _
  · rw [he]
    exact nothing rfl

/-- A call of `close` puts events of storage on record.  Those of its flush, and none of its
own. -/
theorem close (db : Database) (id : JsString) : db.AddsStorage (db.close options id) := by
  rcases close_cases options db id with he | ⟨-, -, he⟩
  · rw [he]
    exact nothing rfl
  · rw [he]
    unfold flushDuringClose
    split_ifs
    · exact nothing rfl
    · exact flushNow { db with state := .closing } id

end AddsStorage

/-- All that the events after `before` promise is held. -/
def PromisesHeld (held : ℤ) (before : List DatabaseEvent) (db : Database) : Prop :=
  ∀ e ∈ db.history, ∀ revision ∈ e.persisted?, e ∈ before ∨ (revision : ℤ) ≤ held

namespace PromisesHeld

variable {held : ℤ} {before : List DatabaseEvent}

/-- Where nothing happened, nothing was promised. -/
theorem same (held : ℤ) (db : Database) : PromisesHeld held db.history db :=
  fun _ hm _ _ => .inl hm

/-- Events that promise nothing.  What was promised before is as good as it was. -/
theorem append (h : PromisesHeld held before db) {events : List DatabaseEvent}
    (hh : db'.history = events ++ db.history) (he : ∀ e ∈ events, e.persisted? = none) :
    PromisesHeld held before db' := by
  intro e hm revision hrevision
  rcases List.mem_append.1 (hh ▸ hm) with hm | hm
  · rw [he e hm] at hrevision
    cases hrevision
  · exact h e hm revision hrevision

/-- What leaves storage and its promises alone promises nothing more. -/
theorem quiet (h : PromisesHeld held before db) (hq : db.Quiet DatabaseEvent.isSilent db') :
    PromisesHeld held before db' := by
  obtain ⟨events, hh, he⟩ := hq.history
  exact h.append hh fun e hm => DatabaseEvent.persisted?_of_isSilent (he e hm)

/-- Events of storage promise nothing more. -/
theorem storage (h : PromisesHeld held before db) (hs : db.AddsStorage db') :
    PromisesHeld held before db' := by
  obtain ⟨events, hh, he⟩ := hs
  refine h.append hh fun e hm => ?_
  have hstorage := he e hm
  cases e <;> first | rfl | cases hstorage

/-- An event may promise what is held. -/
theorem record (h : PromisesHeld held before db) {event : DatabaseEvent}
    (he : ∀ revision ∈ event.persisted?, (revision : ℤ) ≤ held) :
    PromisesHeld held before (db.record event) := by
  intro e hm revision hrevision
  rcases List.mem_cons.1 hm with rfl | hm
  · exact .inr (he revision hrevision)
  · exact h e hm revision hrevision

/-- Something is put on record that promises nothing. -/
theorem recordNothing (h : PromisesHeld held before db) {event : DatabaseEvent}
    (he : event.persisted? = none) : PromisesHeld held before (db.record event) :=
  h.record fun revision hrevision => by
    rw [he] at hrevision
    cases hrevision

end PromisesHeld

end Database

namespace Runtime

variable {r r' : Runtime} {label : Label} {held : ℤ}

/-- **What a step promises is held.**  What resolves in the step waited for a store that the
invariant says is held. -/
theorem DurabilityInvariant.promisesHeld (h : DurabilityInvariant options loaded held r)
    (ha : options.adapter) (hs : r.step options label = some r') :
    r'.database.PromisesHeld held r.database.history := by
  have hsame := Database.PromisesHeld.same held r.database
  have hcommitted : ∀ handle receipt,
      (r.database.record (.committed handle receipt)).PromisesHeld held r.database.history :=
    fun _ _ => hsame.recordNothing rfl
  cases step_effect hs with
  | quiet database kept => exact hsame.quiet database
  | commit t committed known usable ok database calls frames =>
      refine Database.PromisesHeld.quiet (hsame.storage ?_) database
      unfold Database.publish
      split
      · exact .nothing rfl
      · exact .one rfl rfl
  | resolveMemory handle call receipt frame database kept =>
      rw [database]
      refine (hcommitted handle _).recordNothing (if_neg ?_)
      rw [receiptOf, (h.frames handle _ receipt frame).1]
      simp
  | resolvePersisted handle call receipt frame adapter persisted database kept =>
      rw [database]
      refine (hcommitted handle _).record fun revision hrevision => ?_
      obtain rfl := Option.some.inj hrevision
      exact persisted.trans (h.database.persisted adapter)
  | persist handle call receipt rest stack persists adapter pending database calls hrest =>
      rw [database]
      exact (hcommitted handle _).storage (.persist adapter _ _)
  | flush id usable database calls stack =>
      rw [database]
      exact hsame.storage (.flushNow _ id)
  | wakeTransaction call receipt waiting waits ended database kept =>
      rw [database]
      refine hsame.record fun revision hrevision => ?_
      obtain rfl := Option.some.inj hrevision
      exact (h.transactions call receipt waiting waits).le_held h.database ended
  | wakeFlush call target waiting waits ended database kept =>
      rw [database]
      refine hsame.record fun revision hrevision => ?_
      obtain rfl := Option.some.inj hrevision
      exact (h.flushes call target waiting waits ha).le_held h.database ended
  | close id database kept =>
      rw [database]
      exact hsame.storage (.close _ id)
  | startStore index database kept =>
      obtain ⟨task, -, -, -, he⟩ := Database.startStore_eq_some database
      rw [he]
      exact hsame.recordNothing rfl
  | settleStore index outcome database kept =>
      obtain ⟨task, snapshot, -, -, ⟨he, -⟩ | ⟨a, -, -, he⟩⟩ :=
        Database.settleStore_eq_some database
      · rw [he]
        exact hsame.recordNothing rfl
      · rw [he]
        exact hsame.recordNothing rfl
  | finishStore index database kept =>
      obtain ⟨task, error, -, -, he⟩ := Database.finishStore_eq_some database
      rw [he]
      exact hsame
  | closeAdapter database kept =>
      obtain ⟨waiting, failure, -, -, he⟩ := Database.closeAdapter_eq_some database
      rw [he, if_pos ha]
      exact hsame.recordNothing rfl
  | finishClose failure database kept =>
      obtain ⟨previous, -, he⟩ := Database.finishClose_eq_some database
      rw [he]
      exact hsame.recordNothing rfl

/-- A step that is not a call of the user's code is one of a database nothing runs in.  The
label is one of the waiting things, and they go on with an empty stack. -/
theorem idle_of_step (hs : r.step options label = some r') (hcall : r.call options label = none)
    (hresume : label ≠ .resume) : r.idle options label = some r' := by
  unfold step at hs
  rw [hcall, Option.none_or] at hs
  split_ifs at hs with _ _ hlabel
  · exact hs
  · cases label with
    | resume => exact absurd rfl hresume
    | _ => cases hlabel

/-- The answer of the adapter is a step of the database alone. -/
theorem step_settleStore {index : ℕ} {outcome : StoreOutcome}
    (hs : r.step options (.settleStore index outcome) = some r') :
    r.database.settleStore options index outcome = some r'.database :=
  (kept_withDatabase (idle_of_step hs rfl (by simp))).1

/-- The start of a store is a step of the database alone. -/
theorem step_startStore {index : ℕ} (hs : r.step options (.startStore index) = some r') :
    r.database.startStore options index = some r'.database :=
  (kept_withDatabase (idle_of_step hs rfl (by simp))).1

end Runtime

/-! ### One database over the storage -/

namespace Instance

variable {own : List SnapshotEnvelope} {inst inst' : Instance} {r r' : Runtime} {label : Label}

/-- What the program around a database knows agrees with `own`, its stores in the log of
the storage: it was told of all, or of all but the last, whose answer is under way. -/
structure Invariant (own : List SnapshotEnvelope) (inst : Instance) (options : DatabaseOptions)
    (r : Runtime) : Prop where
  adapter : options.adapter
  identity : ∀ snapshot, snapshot ∈ own ∨ inst.loaded = some snapshot →
    snapshot.databaseId = options.commit.databaseId
  generation : r.database.generation =
    (latest inst.loaded (acknowledgedSnapshots r.database.history)).elim 0 (·.generation)
  told : inst.answer = none → own = acknowledgedSnapshots r.database.history
  untold : ∀ outcome, inst.answer = some outcome → ∃ task ∈ r.database.tasks, ∃ snapshot,
    task.phase = .storing snapshot ∧
      (outcome = .rejected ∧ own = acknowledgedSnapshots r.database.history ∨
        outcome = .acknowledged ⟨snapshot.databaseId, snapshot.generation, snapshot.revision⟩ ∧
          own = snapshot :: acknowledgedSnapshots r.database.history)
  persisted : ∀ snapshot ∈ acknowledgedSnapshots r.database.history,
    (snapshot.revision : ℤ) ≤ r.database.persistedRevision
  durability : ∃ held, r.DurabilityInvariant options inst.loaded held ∧
    r.database.PromisesHeld held []

namespace Invariant

/-- **A database that just opened.**  Nothing was stored, and what storage held is what it was
loaded from. -/
theorem opened {collate : JsString → JsString → Bool} {randomId : JsString}
    (h : inst.opening.opened collate randomId inst.loaded = .ok (options, r))
    (hanswer : inst.answer = none) : Invariant [] inst options r := by
  obtain ⟨ha, -, hid, σ, _, graph, seed, root, hroot, rfl⟩ := OpenOptions.opened_eq_ok h
  refine ⟨ha, fun snapshot hs => ?_, rfl, fun _ => rfl, fun outcome ho => ?_,
    fun snapshot hs => (by cases hs), _, .start options (createRoot_invariant hroot).2, ?_⟩
  · rcases hs with hs | hs
    · cases hs
    · rw [hid, hs]
      rfl
  · rw [hanswer] at ho
    cases ho
  · intro e hm revision hrevision
    rw [List.mem_singleton.1 hm] at hrevision
    cases hrevision

/-- The task the adapter's answer is for.  The books of the instance know one answer at a time,
and it is about the store in flight. -/
theorem answered (h : Invariant own inst options r) {index : ℕ} {outcome : StoreOutcome}
    (ho : inst.answer = some outcome) {task : PersistenceTask} {snapshot : SnapshotEnvelope}
    (ht : r.database.tasks[index]? = some task) (hp : task.phase = .storing snapshot) :
    outcome = .rejected ∧ own = acknowledgedSnapshots r.database.history ∨
      outcome = .acknowledged ⟨snapshot.databaseId, snapshot.generation, snapshot.revision⟩ ∧
        own = snapshot :: acknowledgedSnapshots r.database.history := by
  obtain ⟨held, hd, -⟩ := h.durability
  obtain ⟨task', hm, snapshot', hp', hcases⟩ := h.untold outcome ho
  obtain ⟨j, hj⟩ := List.mem_iff_getElem?.1 hm
  obtain rfl := Database.storing_unique hd.queue.order ht hj (by rw [hp]; rfl) (by rw [hp']; rfl)
  obtain rfl := Option.some.inj (ht.symm.trans hj)
  obtain rfl := TaskPhase.storing.inj (hp.symm.trans hp')
  exact hcases

/-- An instance tells its database what its adapter answered.  The answer it tells is the one on
its books, and any other label asks nothing of an adapter. -/
theorem adapterHonest (h : Invariant own inst options r)
    (hs : inst.after (options, r') label = some inst') : r.adapterHonest label := by
  cases label with
  | settleStore index outcome =>
      obtain ⟨ho, -⟩ := Option.ite_none_right_eq_some.1 hs
      cases outcome with
      | rejected => rfl
      | acknowledged a =>
          rw [Runtime.adapterHonest]
          cases ht : r.database.tasks[index]? with
          | none => rfl
          | some task =>
              rw [Option.all_some]
              cases hp : task.phase with
              | storing snapshot =>
                  rcases h.answered ho ht hp with ⟨ha, -⟩ | ⟨ha, -⟩
                  · cases ha
                  · rw [StoreOutcome.acknowledged.inj ha]
                    exact decide_eq_true rfl
              | _ => rfl
  | _ => rfl

/-- What holds of durability after a step.  What is held may grow by the step, and everything
promised before is held still. -/
theorem durability_step (h : Invariant own inst options r) (hc : r.adapterHonest label)
    (hs : r.step options label = some r') :
    ∃ held, r'.DurabilityInvariant options inst.loaded held ∧ r'.database.PromisesHeld held [] := by
  obtain ⟨held, hd, hp⟩ := h.durability
  obtain ⟨held', hle, hd'⟩ := hd.step hc hs
  refine ⟨held', hd', fun e hm revision hrevision => .inr ?_⟩
  rcases hd.promisesHeld h.adapter hs e hm revision hrevision with hold | hnew
  · rcases hp e hold revision hrevision with hnone | hle'
    · cases hnone
    · exact hle'.trans hle
  · exact hnew.trans hle

/-- A step in which the adapter neither is called nor answers.  The acknowledged snapshots and
the answer on the books are as they were. -/
theorem unanswered (h : Invariant own inst options r) (hs : r.step options label = some r')
    (hc : r.adapterHonest label) (hl : ∀ index outcome, label ≠ .settleStore index outcome)
    (hloaded : inst'.loaded = inst.loaded) (hanswer : inst'.answer = inst.answer) :
    Invariant own inst' options r' := by
  have hun := (Runtime.step_storage hs).unanswered hl
  obtain ⟨events, hh, he⟩ := hun.history
  have hacks : acknowledgedSnapshots r'.database.history =
      acknowledgedSnapshots r.database.history := by
    rw [hh]
    exact acknowledgedSnapshots_append he
  refine ⟨h.adapter, ?_, ?_, ?_, fun outcome ho => ?_, ?_, ?_⟩
  · rw [hloaded]
    exact h.identity
  · rw [hun.generation, hacks, hloaded]
    exact h.generation
  · rw [hanswer, hacks]
    exact h.told
  · obtain ⟨task, hm, snapshot, hp, hcases⟩ := h.untold outcome (hanswer ▸ ho)
    rw [hacks]
    exact ⟨task, hun.storing task hm (by rw [hp]; rfl), snapshot, hp, hcases⟩
  · rw [hacks, hun.persistedRevision]
    exact h.persisted
  · rw [hloaded]
    exact h.durability_step hc hs

/-- **The database is told how its store ended.**  What it is told is the answer storage gave,
so that the books of both agree again. -/
theorem settleStore (h : Invariant own inst options r) {index : ℕ} {outcome : StoreOutcome}
    (hs : r.step options (.settleStore index outcome) = some r')
    (ho : inst.answer = some outcome) (hc : r.adapterHonest (.settleStore index outcome)) :
    Invariant own { inst with answer := none, database := some (options, r') } options r' := by
  have hd := h.durability_step hc hs
  obtain ⟨task, snapshot, ht, hp, hcases⟩ :=
    Database.settleStore_eq_some (Runtime.step_settleStore hs)
  rcases h.answered ho ht hp with ⟨rfl, hown⟩ | ⟨rfl, hown⟩
  · rcases hcases with ⟨he, -⟩ | ⟨a, ha, -⟩
    · refine ⟨h.adapter, h.identity, ?_, fun _ => ?_, fun _ hn => (by cases hn), ?_, hd⟩
      · rw [he]
        exact h.generation
      · rw [he]
        exact hown
      · rw [he]
        exact h.persisted
    · cases ha
  · have haccepts : Database.accepts options snapshot
        ⟨snapshot.databaseId, snapshot.generation, snapshot.revision⟩ :=
      decide_eq_true ⟨h.identity snapshot (.inl (hown ▸ List.mem_cons_self ..)), rfl, le_rfl⟩
    rcases hcases with ⟨-, hfail⟩ | ⟨a, ha, -, he⟩
    · rw [hfail _ rfl] at haccepts
      cases haccepts
    · obtain rfl := StoreOutcome.acknowledged.inj ha
      refine ⟨h.adapter, h.identity, ?_, fun _ => ?_, fun _ hn => (by cases hn), fun s hm => ?_, hd⟩
      · rw [he]
        rfl
      · rw [he]
        exact hown
      · rw [he] at hm ⊢
        rcases List.mem_cons.1 hm with rfl | hm
        · exact le_max_right _ _
        · exact (h.persisted s hm).trans (le_max_left _ _)

/-- **A step that stores nothing.**  The instance keeps what it was loaded from, and its adapter
has nothing to answer. -/
theorem after (h : Invariant own inst options r) (hs : r.step options label = some r')
    (hafter : inst.after (options, r') label = some inst') :
    inst'.database = some (options, r') ∧ inst'.loaded = inst.loaded ∧
      Invariant own inst' options r' := by
  have hc := h.adapterHonest hafter
  cases label with
  | settleStore index outcome =>
      obtain ⟨ho, he⟩ := Option.ite_none_right_eq_some.1 hafter
      obtain rfl := Option.some.inj he
      exact ⟨rfl, rfl, h.settleStore hs ho hc⟩
  | finishClose failure =>
      obtain ⟨-, he⟩ := Option.ite_none_right_eq_some.1 hafter
      obtain rfl := Option.some.inj he
      exact ⟨rfl, rfl, h.unanswered hs hc (fun _ _ hl => by cases hl) rfl rfl⟩
  | _ =>
      obtain rfl := Option.some.inj hafter
      exact ⟨rfl, rfl, h.unanswered hs hc (fun _ _ hl => by cases hl) rfl rfl⟩

/-- A store starts only when the adapter has no answer under way.  An answer would be about a
store in flight, and with one in flight no other is ready. -/
theorem answer_of_startStore (h : Invariant own inst options r) {index : ℕ}
    (hs : r.step options (.startStore index) = some r') : inst.answer = none := by
  by_contra hne
  obtain ⟨outcome, ho⟩ := Option.ne_none_iff_exists'.1 hne
  obtain ⟨other, hm, snapshot, hp, -⟩ := h.untold outcome ho
  obtain ⟨held, hd, -⟩ := h.durability
  have hdb := Runtime.step_startStore hs
  have hqueue := (hd.queue.startStore hdb).order
  obtain ⟨task, ht, hq, -, he⟩ := Database.startStore_eq_some hdb
  obtain ⟨j, hj⟩ := List.mem_iff_getElem?.1 hm
  have hij : index ≠ j := by
    rintro rfl
    obtain rfl := Option.some.inj (ht.symm.trans hj)
    rw [hq] at hp
    cases hp
  have hj' : r'.database.tasks[j]? = some other := by
    rw [he]
    exact (Database.tasks_setPhase ..).trans (by rw [hj, Option.map_some, if_neg hij])
  have hi' : r'.database.tasks[index]? =
      some { task with phase := .storing (r.database.snapshot options task) } := by
    rw [he]
    exact (Database.tasks_setPhase ..).trans (by rw [ht, Option.map_some, if_pos rfl])
  exact hij (Database.storing_unique hqueue hi' hj' rfl (by rw [hp]; rfl))

/-- **A store is handed over**: the adapter refused it, or took it as one more store of
this database. -/
theorem startStore (h : Invariant own inst options r) {index : ℕ}
    (hs : r.step options (.startStore index) = some r') {offered : SnapshotEnvelope}
    (hoffers : r.offers options (.startStore index) = some offered) {outcome : StoreOutcome}
    {own' : List SnapshotEnvelope}
    (houtcome : outcome = .rejected ∧ own' = own ∨
      outcome = .acknowledged ⟨offered.databaseId, offered.generation, offered.revision⟩ ∧
        own' = offered :: own) :
    Invariant own' { inst with answer := some outcome, database := some (options, r') }
      options r' := by
  have hanswer := h.answer_of_startStore hs
  have hun := (Runtime.step_storage hs).unanswered fun _ _ hl => by cases hl
  obtain ⟨task, ht, hq, -, he⟩ := Database.startStore_eq_some (Runtime.step_startStore hs)
  obtain rfl : r.database.snapshot options task = offered := by
    rw [Runtime.offers, ht] at hoffers
    exact Option.some.inj hoffers
  have hacks : acknowledgedSnapshots r'.database.history =
      acknowledgedSnapshots r.database.history := by
    rw [he]
    rfl
  have hmem : ({ task with phase := .storing (r.database.snapshot options task) } :
      PersistenceTask) ∈ r'.database.tasks := by
    rw [he]
    refine List.mem_of_getElem? (i := index) ((Database.tasks_setPhase ..).trans ?_)
    rw [ht, Option.map_some, if_pos rfl]
  refine ⟨h.adapter, fun snapshot hsnapshot => ?_, ?_, fun hn => (by cases hn), fun o ho => ?_, ?_,
    h.durability_step rfl hs⟩
  · rcases houtcome with ⟨-, rfl⟩ | ⟨-, rfl⟩
    · exact h.identity snapshot hsnapshot
    · rcases hsnapshot with hsnapshot | hsnapshot
      · rcases List.mem_cons.1 hsnapshot with rfl | hsnapshot
        · rfl
        · exact h.identity snapshot (.inl hsnapshot)
      · exact h.identity snapshot (.inr hsnapshot)
  · rw [hun.generation, hacks]
    exact h.generation
  · obtain rfl := Option.some.inj ho
    refine ⟨_, hmem, _, rfl, ?_⟩
    rw [hacks, ← h.told hanswer]
    exact houtcome
  · rw [hacks, hun.persistedRevision]
    exact h.persisted

/-- **What a database promised or stored is in the latest snapshot it stored**, or, where
it stored none, in the one it loaded. -/
theorem holds_latest (h : Invariant own inst options r) {revision : ℕ}
    (hrevision : (∃ e ∈ r.database.history, e.persisted? = some revision) ∨
      ∃ snapshot ∈ own, revision ≤ snapshot.revision) :
    ∃ snapshot, latest inst.loaded own = some snapshot ∧
      (own ≠ [] ∧ snapshot.holds revision r.database.history ∨
        own = [] ∧ revision ≤ snapshot.revision) := by
  obtain ⟨held, hd, hp⟩ := h.durability
  have hpromised : (∃ e ∈ r.database.history, e.persisted? = some revision) →
      (revision : ℤ) ≤ held := by
    rintro ⟨e, hm, he⟩
    exact (hp e hm revision he).resolve_left (List.not_mem_nil)
  have hacks : ∀ snapshot ∈ acknowledgedSnapshots r.database.history,
      revision ≤ snapshot.revision → (revision : ℤ) ≤ held := fun snapshot hm hle => by
    have hpersisted := (h.persisted snapshot hm).trans (hd.database.persisted h.adapter)
    omega
  have htold : own = acknowledgedSnapshots r.database.history →
      ∃ snapshot, latest inst.loaded own = some snapshot ∧
        (own ≠ [] ∧ snapshot.holds revision r.database.history ∨
          own = [] ∧ revision ≤ snapshot.revision) := by
    rintro rfl
    refine holds_of_installed (hd.database.installed revision ?_)
    rcases hrevision with hrevision | ⟨snapshot, hm, hle⟩
    · exact hpromised hrevision
    · exact hacks snapshot hm hle
  cases hanswer : inst.answer with
  | none => exact htold (h.told hanswer)
  | some outcome =>
      obtain ⟨task, hm, snapshot, hphase, ⟨-, hown⟩ | ⟨-, hown⟩⟩ := h.untold outcome hanswer
      · exact htold hown
      · have htask := hd.database.tasks task hm
        obtain ⟨hlabel, hcollections⟩ := htask.storing snapshot hphase
        have hheld : held ≤ task.root.revision := htask.waiting (by rw [hphase]; rfl)
        have hle : revision ≤ task.root.revision := by
          have hreceipt := htask.label
          rcases hrevision with hrevision | ⟨other, hother, hle⟩
          · have := hpromised hrevision
            omega
          · rw [hown] at hother
            rcases List.mem_cons.1 hother with rfl | hother
            · omega
            · have := hacks other hother hle
              omega
        rw [hown]
        exact ⟨snapshot, rfl, .inl ⟨List.cons_ne_nil _ _, SnapshotEnvelope.holds_of_mem
          htask.published hle (hcollections ▸ task.cloned)⟩⟩

end Invariant

end Instance

end NewtonDB
