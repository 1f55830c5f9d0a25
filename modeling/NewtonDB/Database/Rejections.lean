/-
# What a rejected transaction publishes

A `transaction` that rejects for another reason than storage has published nothing,
unless its callback committed the transaction itself (`Runtime.rejected_untouched_iff`).
The call cannot fail after its own commit: what `#persist` rejects with is always a
`PersistenceError` (`Runtime.PersistenceErrors`).
-/

import NewtonDB.Database.Frames
import NewtonDB.Database.Queue

namespace NewtonDB

/-- A failure of `#persist`. -/
def NewtonError.IsPersistence (error : NewtonError) : Prop := ∃ receipt, error = .persistence receipt

namespace Database

variable {options : DatabaseOptions} {db db' : Database}

/-- The promise the newest event rejects, and why. -/
def lastRejection (db : Database) : Option (ℕ × NewtonError) :=
  match db.history with
  | .transaction call (.error error) :: _ => some (call, error)
  | _ => none

/-- The last rejection is the last event on record.  A promise is settled once, so what is read
there is what the last step did. -/
theorem lastRejection_eq_some {call : ℕ} {error : NewtonError} (h : db.lastRejection = some (call, error)) :
    ∃ earlier, db.history = .transaction call (.error error) :: earlier := by
  unfold lastRejection at h
  split at h
  · next earlier he =>
      cases h
      exact ⟨earlier, he⟩
  · cases h

/-- Where a task comes from: it is new, it was there, or one that was there moved on. -/
inductive TaskFrom (tasks : List PersistenceTask) : PersistenceTask → Prop
  | old {task : PersistenceTask} (h : task ∈ tasks) : TaskFrom tasks task
  | queued {task : PersistenceTask} (h : task.phase = .queued) : TaskFrom tasks task
  | storing (task : PersistenceTask) (snapshot : SnapshotEnvelope) :
      TaskFrom tasks { task with phase := .storing snapshot }
  | failed (task : PersistenceTask) :
      TaskFrom tasks { task with phase := .settled (some (.persistence task.receipt)) }
  | stored (task : PersistenceTask) : TaskFrom tasks { task with phase := .settled none }
  | finished {task : PersistenceTask} (h : task ∈ tasks) (error : Option NewtonError)
      (settled : task.phase = .settled error) : TaskFrom tasks { task with phase := .finished error }

/-- A store that is queued is new, and the others were there.  A new task has the current root,
at the revision it is labelled with or not. -/
theorem TaskFrom.persist (db : Database) (receipt : CommitReceipt) :
    ∀ task ∈ (db.persist options receipt).1.tasks, TaskFrom db.tasks task := by
  by_cases ha : options.adapter
  · have hspec := persist_spec ha db receipt
    generalize db.persist options receipt = result at hspec
    cases hspec with
    | coalesced | full | broken => exact fun task ht => .old ht
    | queued entry limit collections clone =>
        intro task ht
        rcases List.mem_append.1 ht with ht | ht
        · exact .old ht
        · rw [List.mem_singleton.1 ht]
          exact .queued rfl
  · rw [persist_of_no_adapter ha]
    exact fun task ht => .old ht

/-- A flush queues one store at most. -/
theorem TaskFrom.flushNow (db : Database) (id : JsString) :
    ∀ task ∈ (db.flushNow options id).1.tasks, TaskFrom db.tasks task := by
  rcases flushNow_cases options db id with ⟨-, -, he⟩ | ⟨-, he⟩
  · rw [he]
    exact .persist db _
  · rw [he]
    exact fun task ht => .old ht

/-- A call of `close` queues one store at most.  It is the one of its flush. -/
theorem TaskFrom.close (db : Database) (id : JsString) :
    ∀ task ∈ (db.close options id).tasks, TaskFrom db.tasks task := by
  rcases close_cases options db id with he | ⟨-, -, he⟩
  · rw [he]
    exact fun task ht => .old ht
  · rw [he]
    unfold flushDuringClose
    split_ifs
    · exact fun task ht => .old ht
    · exact .flushNow { db with state := .closing } id

/-- A store that moved on is the only one that did. -/
theorem TaskFrom.setPhase {index : ℕ} {task : PersistenceTask} (ht : db.tasks[index]? = some task)
    {phase : TaskPhase} (hnew : TaskFrom db.tasks { task with phase }) :
    ∀ t ∈ (db.setPhase index phase).tasks, TaskFrom db.tasks t :=
  forall_setPhase (fun _ h => .old h) ht hnew

end Database

/-- **Where the tasks come from after a step.**  It was there, or it was queued just now, or it
is one that was there in its next phase. -/
theorem Runtime.StorageEffect.tasks {options : DatabaseOptions} {r : Runtime} {label : Label}
    {db : Database} (h : r.StorageEffect options label db) :
    ∀ task ∈ db.tasks, Database.TaskFrom r.database.tasks task := by
  cases h with
  | quiet hq => exact fun task ht => .old (hq.tasks ▸ ht)
  | commit t committed _ _ _ hq =>
      intro task ht
      rw [hq.tasks] at ht
      unfold Database.publish at ht
      split at ht <;> exact .old ht
  | persist handle call receipt rest _ _ _ _ => exact .persist _ (r.receiptOf handle receipt)
  | flush id _ => exact .flushNow _ id
  | close id => exact .close _ id
  | startStore index hs =>
      obtain ⟨task, ht, -, -, rfl⟩ := Database.startStore_eq_some hs
      exact .setPhase ht (.storing task _)
  | settleStore index outcome hs =>
      obtain ⟨task, snapshot, ht, -, ⟨rfl, -⟩ | ⟨a, -, -, rfl⟩⟩ := Database.settleStore_eq_some hs
      · exact .setPhase ht (.failed task)
      · exact .setPhase ht (.stored task)
  | finishStore index hs =>
      obtain ⟨task, error, ht, hp, rfl⟩ := Database.finishStore_eq_some hs
      exact .setPhase ht (.finished (List.mem_of_getElem? ht) error hp)
  | closeAdapter hs =>
      obtain ⟨waiting, failure, -, -, rfl⟩ := Database.closeAdapter_eq_some hs
      split_ifs <;> exact fun task ht => .old ht
  | finishClose failure hs =>
      obtain ⟨_, -, rfl⟩ := Database.finishClose_eq_some hs
      exact fun task ht => .old ht

/-- A publication by a call of `commit` while the callback of a `transaction` runs.  What runs
until the value the callback returned is taken belongs to the callback: a getter `then` of that
value, which `await` reads, is a part of it, so that a commit such a getter makes counts. -/
def Publication.ByHand (p : Publication) (call : ℕ) : Prop :=
  p.caller = none ∧ .callback call ∈ p.before.stack

namespace Runtime

variable {options : DatabaseOptions} {r r' : Runtime} {label : Label}

/-- **What rejects after a commit is a `PersistenceError`**: the failures of the tasks,
and those a call waits for. -/
structure PersistenceErrors (r : Runtime) : Prop where
  tasks : ∀ task ∈ r.database.tasks, ∀ error, task.phase = .settled (some error) ∨
    task.phase = .finished (some error) → error.IsPersistence
  calls : ∀ (call : ℕ) receipt error,
    r.calls[call]? = some (.persisting receipt (.rejected error)) → error.IsPersistence

namespace PersistenceErrors

/-- In a program that was just opened nothing has failed. -/
theorem start (root : Root) (stored : Option SnapshotEnvelope) :
    (Runtime.start options root stored).PersistenceErrors where
  tasks _ ht := by cases ht
  calls _ _ _ h := by cases h

/-- A wait of a call that fails.  It waits for a task, which fails with a `PersistenceError`, or
was rejected by `#persist` with one. -/
theorem outcome (h : r.PersistenceErrors) {call : ℕ} {receipt : CommitReceipt} {waiting : Waiting}
    {error : NewtonError} (hc : r.calls[call]? = some (.persisting receipt waiting))
    (ho : r.database.outcome waiting = some (some error)) : error.IsPersistence := by
  cases waiting with
  | resolved => cases ho
  | rejected e =>
      cases ho
      exact h.calls call receipt _ hc
  | task index =>
      obtain ⟨task, ht, hp⟩ := Database.finished_eq_some.1 ho
      exact h.tasks task (List.mem_of_getElem? ht) error (.inr hp)
  | tail index =>
      obtain ⟨_, -, he⟩ := Option.map_eq_some_iff.1 ho
      cases he

/-- What `#persist` of a sound root rejects with.  Its documents can be cloned, so the queue
being full is all that is left. -/
theorem persist {db : Database} (hr : db.root.Invariant) {receipt : CommitReceipt}
    {error : NewtonError} (h : (db.persist options receipt).2 = .rejected error) :
    error.IsPersistence := by
  by_cases ha : options.adapter
  · have hspec := Database.persist_spec ha db receipt
    generalize db.persist options receipt = result at hspec h
    cases hspec with
    | coalesced | queued => cases h
    | full =>
        cases h
        exact ⟨receipt, rfl⟩
    | broken _ _ clone =>
        obtain ⟨collections, hc⟩ := hr.exists_clone
        rw [clone] at hc
        cases hc
  · rw [Database.persist_of_no_adapter ha] at h
    cases h

/-- **Every step keeps it so.**  A task is rejected by a failed store, and what waits for one
fails with its error; each is a `PersistenceError`. -/
theorem step (h : r.PersistenceErrors) (hf : r.FrameInvariant) (hr : r.database.root.Invariant)
    (hs : r.step options label = some r') : r'.PersistenceErrors := by
  refine ⟨fun task ht error he => ?_, fun call receipt error hc => ?_⟩
  · cases (step_storage hs).tasks task ht with
    | old ht => exact h.tasks task ht error he
    | queued hq =>
        rw [hq] at he
        rcases he with he | he <;> cases he
    | storing => rcases he with he | he <;> cases he
    | failed t =>
        rcases he with he | he
        · cases he
          exact ⟨_, rfl⟩
        · cases he
    | stored => rcases he with he | he <;> cases he
    | finished hmem error' hp =>
        rcases he with he | he
        · cases he
        · cases he
          exact h.tasks _ hmem error (.inl hp)
  · cases step_fate hf hs call with
    | same calls =>
        rw [calls] at hc
        exact h.calls call receipt error hc
    | made new calls => exact absurd hc (calls receipt _)
    | waits durability handle receipt running calls =>
        rw [calls] at hc
        obtain ⟨rfl, hw⟩ := AsyncCall.persisting.inj (Option.some.inj hc)
        refine persist ?_ hw
        exact hr
    | refused error _ calls | resolved _ _ _ _ _ calls | woke _ _ _ _ _ calls | flushed _ _ _ calls =>
        rw [calls] at hc
        cases hc

end PersistenceErrors

/-! ### What a call publishes -/

/-- A callback that returned has left the stack.  Its call is on the stack once, and the frames
a commit adds are not callbacks. -/
theorem callback_gone (h : r.FrameInvariant) {now call : ℕ} {rest : List Frame}
    (hstack : r.stack = .callback call :: rest) (hs : r.step options (.returns now) = some r') :
    .callback call ∉ r'.stack := by
  have hd := h.distinct
  rw [hstack] at hd
  have hrest : .callback call ∉ rest := fun hm =>
    (List.nodup_cons.1 hd).1 (mem_onStack.2 ⟨_, hm, rfl⟩)
  have hmove := step_move hs
  generalize hl : Label.returns now = label at hmove
  cases hmove with
  | callbackReturned now' call' durability handle rest' stack running hc =>
      rw [hstack] at stack
      obtain ⟨hcall, rfl⟩ := List.cons.inj stack
      obtain rfl := Frame.callback.inj hcall
      cases hc with
      | refused | failed => exact hrest
      | succeeded t committed known admitted usable ok =>
          obtain ⟨above, hs', hooks⟩ :=
            publish_stack options (r.endCallback rest) handle (some call) committed
          rw [hs']
          intro hm
          rcases List.mem_append.1 hm with hm | hm
          · cases hooks _ hm
          · exact hrest ((List.mem_cons.1 hm).resolve_left fun he => by cases he)
  | callbackFailed label call' error durability handle rest' failed =>
      rcases failed with rfl | rfl <;> cases hl
  | hookReturned label frame rest' ended stack hook =>
      rw [hstack] at stack
      obtain ⟨rfl, -⟩ := List.cons.inj stack
      cases hook
  | listenerReturned now' batch listeners rest' stack =>
      rw [hstack] at stack
      cases (List.cons.inj stack).1
  | storage label db idle => rw [hstack] at idle; cases idle
  | _ => cases hl

/-- **What a running call has published**: with its callback on the stack, only what the
callback committed by hand; and if it rejects, no more than that. -/
structure HandInvariant (call handle : ℕ) (s : Runtime × List Publication) : Prop where
  made : s.1.calls[call]?.isSome
  running : ∀ durability handle', s.1.Runs call durability handle' → handle' = handle
  callback : .callback call ∈ s.1.stack → ∀ p ∈ s.2, p.handle = handle → p.ByHand call
  rejected : ∀ error, s.1.database.lastRejection = some (call, error) → ¬error.IsPersistence →
    ∀ p ∈ s.2, p.handle = handle → p.ByHand call

namespace HandInvariant

variable {call handle : ℕ} {s s' : Runtime × List Publication}

/-- A publication while the callback runs, and goes on running.  Its commit was not asked for by
a call, since the only call that could is still in its callback. -/
theorem published (h : HandInvariant call handle s) (hf : s.1.FrameInvariant)
    (hs : s.1.step options label = some r') (hbefore : .callback call ∈ s.1.stack)
    (hafter : .callback call ∈ r'.stack) {p : Publication} (hp : p ∈ s.1.published options label)
    (hhandle : p.handle = handle) : p.ByHand call := by
  obtain ⟨now, hrequest, -, -, -, hp⟩ := mem_published.1 hp
  refine ⟨?_, hp ▸ hbefore⟩
  cases hcaller : p.caller with
  | none => rfl
  | some other =>
      rw [hcaller] at hrequest
      obtain ⟨rfl, rest, durability, hstack, hruns⟩ := commitRequest_caller hrequest
      obtain ⟨durability', handle', hcall⟩ := hf.callbacks call hbefore
      obtain rfl := h.running _ _ hcall
      rw [hhandle] at hruns
      obtain rfl := hf.unique _ _ _ _ _ hruns hcall
      exact absurd hafter (callback_gone hf hstack hs)

/-- The call is as it was.  Whatever the step publishes is of another call, or by hand while the
callback runs. -/
theorem same (h : HandInvariant call handle s) (hf : s.1.FrameInvariant)
    (hs : publishedIn options s label = some s') (calls : s'.1.calls[call]? = s.1.calls[call]?)
    (frame : .callback call ∈ s'.1.stack → .callback call ∈ s.1.stack)
    (silent : Silent call s.1.database s'.1.database) : HandInvariant call handle s' := by
  obtain ⟨hstep, hseen⟩ := Transition.observed_eq_some hs
  refine ⟨by rw [calls]; exact h.made, fun d handle' hr => ?_, fun hafter p hp hhandle => ?_,
    fun error hlast he => ?_⟩
  · rw [Runs, calls] at hr
    exact h.running d handle' hr
  · rw [hseen] at hp
    rcases List.mem_append.1 hp with hp | hp
    · exact h.callback (frame hafter) p hp hhandle
    · exact h.published hf hstep (frame hafter) hafter hp hhandle
  · obtain ⟨earlier, hlast'⟩ := Database.lastRejection_eq_some hlast
    obtain ⟨events, hh, hsilent⟩ := silent
    cases events with
    | nil =>
        have hnone := published_of_history (r := s.1) hstep hh fun _ => List.not_mem_nil
        rw [hseen, hnone, List.append_nil]
        refine h.rejected error ?_ he
        rw [← hlast, Database.lastRejection, Database.lastRejection, hh]
        rfl
    | cons event events =>
        rw [hlast', List.cons_append] at hh
        obtain ⟨rfl, -⟩ := List.cons.inj hh
        exact absurd (List.mem_cons_self ..) (hsilent _)

/-- The call goes on, or is over, and has not been rejected.  It does not run any more, so its
transaction publishes nothing further. -/
theorem leave (hf : s'.1.FrameInvariant) {c : AsyncCall}
    (calls : s'.1.calls[call]? = some c) (hc : ∀ durability handle, c ≠ .running durability handle)
    (hrejected : ∀ error, s'.1.database.lastRejection = some (call, error) → ¬error.IsPersistence →
      ∀ p ∈ s'.2, p.handle = handle → p.ByHand call) : HandInvariant call handle s' := by
  have hidle : ∀ durability handle', ¬s'.1.Runs call durability handle' := fun d handle' hr =>
    hc d handle' (Option.some.inj (calls.symm.trans hr))
  refine ⟨by rw [calls]; rfl, fun d handle' hr => absurd hr (hidle d handle'), fun hm => ?_,
    hrejected⟩
  obtain ⟨d, handle', hr⟩ := hf.callbacks call hm
  exact absurd hr (hidle d handle')

/-- **Every step keeps what a call may have published.**  Its own commit publishes last, and
then the call rejects with a `PersistenceError` only. -/
theorem step (h : HandInvariant call handle s) (hf : s.1.FrameInvariant)
    (he : s.1.PersistenceErrors) (hs : publishedIn options s label = some s') :
    HandInvariant call handle s' := by
  obtain ⟨hstep, hseen⟩ := Transition.observed_eq_some hs
  have hf' := hf.step hstep
  have hold : call ≠ s.1.calls.length := fun hcall => by
    have hmade := h.made
    rw [hcall, List.getElem?_eq_none le_rfl] at hmade
    cases hmade
  cases step_fate hf hstep call with
  | same calls frame silent => exact h.same hf hs calls frame silent
  | made new => exact absurd new hold
  | refused error pending calls history published =>
      refine leave hf' calls (fun _ _ hc => by cases hc) fun _ _ _ => ?_
      obtain ⟨_, _, -, hm⟩ := pending.resolve_left hold
      rw [hseen, published, List.append_nil]
      exact h.callback hm
  | resolved durability handle receipt resolved running calls history =>
      refine leave hf' calls (fun _ _ hc => by cases hc) fun error hlast => ?_
      obtain ⟨earlier, hlast⟩ := Database.lastRejection_eq_some hlast
      rw [history] at hlast
      cases (List.cons.inj hlast).1
  | waits durability handle receipt running calls database =>
      refine leave hf' calls (fun _ _ hc => by cases hc) fun error hlast => ?_
      obtain ⟨earlier, hlast⟩ := Database.lastRejection_eq_some hlast
      have hevents : (s.1.database.record (.committed handle receipt)).SameEvents
          DatabaseEvent.isPlain s'.1.database := database ▸ .persist _ receipt
      obtain ⟨events, hh, hplain⟩ := hevents.history
      rw [hh] at hlast
      cases events with
      | nil => cases (List.cons.inj hlast).1
      | cons event events =>
          obtain ⟨rfl, -⟩ := List.cons.inj hlast
          cases hplain _ (List.mem_cons_self ..)
  | woke receipt waiting result waits ended calls history =>
      refine leave hf' calls (fun _ _ hc => by cases hc) fun error hlast hother => ?_
      obtain ⟨earlier, hlast⟩ := Database.lastRejection_eq_some hlast
      rw [history] at hlast
      cases result with
      | none => cases (List.cons.inj hlast).1
      | some error' =>
          cases (List.cons.inj hlast).1
          exact absurd (he.outcome waits ended) hother
  | flushed target waiting waits calls outcome history =>
      refine leave hf' calls (fun _ _ hc => by cases hc) fun error hlast => ?_
      obtain ⟨earlier, hlast⟩ := Database.lastRejection_eq_some hlast
      rw [history] at hlast
      cases (List.cons.inj hlast).1

/-- A call of `transaction` has published nothing yet.  Its transaction is new, and the list of
publications starts empty. -/
theorem start {durability : Option Durability} {allow : Bool} {id : JsString} {now : ℕ}
    (hs : r.step options (.transaction durability allow id now) = some r') :
    HandInvariant r.calls.length r.transactions.length (r', []) := by
  have hnone : ∀ p ∈ ([] : List Publication), p.handle = r.transactions.length →
      p.ByHand r.calls.length := fun _ hp => by cases hp
  have hmove := step_move hs
  generalize hl : Label.transaction durability allow id now = label at hmove
  cases hmove with
  | rejected durability' allow' id' now' error =>
      have hcalls : ((r.calls ++ [AsyncCall.settled]).set r.calls.length .settled)[r.calls.length]? =
          some .settled := by rw [settle_concat, List.getElem?_concat_length]
      refine ⟨Option.isSome_iff_exists.2 ⟨_, hcalls⟩, fun d handle' hr => ?_, fun _ => hnone,
        fun _ _ _ => hnone⟩
      cases Option.some.inj (hcalls.symm.trans hr)
  | started durability' allow' id' now' usable admitted alone =>
      refine ⟨?_, fun d handle' hr => ?_, fun _ => hnone, fun _ _ _ => hnone⟩
      · dsimp only
        rw [List.getElem?_concat_length]
        rfl
      · dsimp only [Runs] at hr
        rw [List.getElem?_concat_length] at hr
        cases hr
        rfl
  | callbackFailed label call' error durability handle rest' failed =>
      rcases failed with rfl | rfl <;> cases hl
  | hookReturned label frame rest ended => rcases ended with rfl | ⟨_, rfl⟩ <;> cases hl
  | storage label db idle hstorage => cases hstorage <;> cases hl
  | _ => cases hl

end HandInvariant

/-- **Only others changed the root and the event queue**: the root is the one they
published last, only their batches joined the queue, and the transaction published
nothing. -/
structure Untouched (r : Runtime) (handle : ℕ) (r' : Runtime) (publications : List Publication) :
    Prop where
  told : r.Told (r', publications)
  others : ∀ p ∈ publications, p.handle ≠ handle

/-- **What holds of a program wherever it got.** -/
structure Sound (r : Runtime) : Prop where
  engine : r.EngineInvariant
  frames : r.FrameInvariant
  errors : r.PersistenceErrors

/-- **A step keeps what holds of a program**: the invariants of the engine, of the frames and of
the errors. -/
theorem Sound.step (h : r.Sound) (hs : r.step options label = some r') : r'.Sound :=
  ⟨h.engine.step hs, h.frames.step hs, h.errors.step h.frames h.engine.root hs⟩

/-- What holds of a program holds wherever it got, by induction on the run. -/
theorem Reached.sound {schemas : List (JsString × CollectionSchema)}
    (h : r.Reached options schemas) : r.Sound := by
  obtain ⟨σ, _, graph, seed, revision, root, stored, labels, hroot, hrun⟩ := h
  exact hrun.invariant (P := Sound)
    ⟨.start (createRoot_invariant hroot).1 stored, .start root stored, .start root stored⟩
    fun _ _ _ h _ hs => h.step hs

/-- **A `transaction` that rejects for another reason than storage** has published nothing,
exactly if its callback did not commit the transaction itself.  In one direction the invariant
says what else could have published; in the other a commit by hand in the callback is a
publication of its own. -/
theorem rejected_untouched_iff {schemas : List (JsString × CollectionSchema)}
    (h : r.Reached options schemas) {durability : Option Durability} {allow : Bool}
    {id : JsString} {now : ℕ} {r₁ : Runtime}
    (hcall : r.step options (.transaction durability allow id now) = some r₁)
    {labels : List Label} {publications : List Publication}
    (hrun : Transition.Run (publishedIn options) (fun _ _ => True) (r₁, []) labels
      (r', publications))
    {error : NewtonError} (hrejected : r'.database.lastRejection = some (r.calls.length, error))
    (hother : ¬error.IsPersistence) :
    r.Untouched r.transactions.length r' publications ↔
      ∀ p ∈ publications, p.handle = r.transactions.length → ¬p.ByHand r.calls.length := by
  have hsound := h.sound
  have hbegan : publishedIn options (r, []) (.transaction durability allow id now) =
      some (r₁, []) := by
    rw [publishedIn, Transition.observed, hcall]
    rfl
  have hinv : r.Told (r', publications) ∧ r'.Sound ∧
      HandInvariant r.calls.length r.transactions.length (r', publications) := by
    refine hrun.invariant (P := fun s => r.Told s ∧ s.1.Sound ∧
      HandInvariant r.calls.length r.transactions.length s) ⟨?_, hsound.step hcall, .start hcall⟩ ?_
    · exact Told.step ⟨rfl, by simp⟩ hbegan
    · rintro s label s' ⟨htold, hsound, hhand⟩ - hs
      obtain ⟨hstep, -⟩ := Transition.observed_eq_some hs
      exact ⟨htold.step hs, hsound.step hstep, hhand.step hsound.frames hsound.errors hs⟩
  obtain ⟨htold, -, hhand⟩ := hinv
  constructor
  · exact fun huntouched p hp hhandle => absurd hhandle (huntouched.others p hp)
  · exact fun hnot => ⟨htold, fun p hp hhandle =>
      hnot p hp hhandle (hhand.rejected error hrejected hother p hp hhandle)⟩

/-- A callback that throws publishes nothing, whatever another transaction does.  The other
transaction commits while the callback runs, and that is all that was published. -/
theorem throwing_callback_untouched : ∃ (r r' : Runtime) (publications : List Publication),
    r'.database.lastRejection = some (0, .callback) ∧ publications.map (·.handle) = [1] ∧
      r.Untouched 0 r' publications := by
  obtain ⟨root, ⟨r', publications⟩, hroot, h⟩ := exists_run (f := fun root =>
    ((step (notesOptions 8 8) (start (notesOptions 8 8) root none)
      (.transaction none false (js "t") 0)).bind fun r =>
        Transition.run (publishedIn (notesOptions 8 8)) (r, [])
          [addNote 0 "a", .beginTransaction (js "u") 0, addNote 1 "b", .commit 1 0, .resume,
            .throws]).filter fun s =>
              s.1.database.lastRejection = some (0, .callback) ∧ s.2.map (·.handle) = [1])
    (by decide +kernel)
  obtain ⟨hrun, hseen⟩ := Option.filter_eq_some_iff.1 h
  obtain ⟨r₁, hcall, hrun⟩ := Option.bind_eq_some_iff.1 hrun
  obtain ⟨hrejected, hhandles⟩ := of_decide_eq_true hseen
  have hothers : ∀ p ∈ publications, p.handle = 0 → ¬p.ByHand 0 := fun p hp hhandle => by
    have hmem : p.handle ∈ publications.map (·.handle) := List.mem_map_of_mem hp
    rw [hhandles, hhandle] at hmem
    cases List.mem_singleton.1 hmem
  exact ⟨_, r', publications, hrejected, hhandles,
    (rejected_untouched_iff (.start hroot _ none) hcall (Transition.run_sound hrun) hrejected
      fun ⟨_, he⟩ => by cases he).2 hothers⟩

/-- **A callback that commits its own transaction publishes it, and the call rejects.**  The
second commit, that of the call, finds the transaction committed and throws. -/
theorem committing_callback_published :
    (noNotes.toOption.bind fun root =>
      (Transition.run (publishedIn (notesOptions 8 8)) (start (notesOptions 8 8) root none, [])
        [.transaction none false (js "t") 0, addNote 0 "a", .commit 0 0, .resume, .returns 0]).map
          fun s => (root.revision, s.1.database.lastRejection, s.1.database.root.revision,
            s.1.database.eventQueue.map (·.revision), s.2.map (·.handle))) =
      some (0, some (0, .transactionState (js "Transaction is committed")), 1, [1], [0]) := by
  decide +kernel

end Runtime

end NewtonDB
