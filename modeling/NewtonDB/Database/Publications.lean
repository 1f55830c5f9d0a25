/-
# What a program publishes

Every change of the committed root is a commit with changes, by a call of `commit` or
at the end of the callback of a `transaction`.  `published` says of a step which
transaction it publishes, and `publishedIn` observes whole runs; a step that publishes
nothing leaves the root alone and adds nothing to the event queue (`step_published`).
-/

import NewtonDB.Database.Moves

namespace NewtonDB

/-- **A commit with changes**: the state before it, the transaction, the `transaction`
call that made it, if one did, and what was committed. -/
structure Publication where
  before : Runtime
  handle : ℕ
  caller : Option ℕ
  transaction : Transaction
  committed : Committed

/-- The database a publication leads to. -/
structure Publication.Leads (p : Publication) (db db' : Database) : Prop where
  root : db'.root = p.committed.root
  eventQueue : db'.eventQueue = db.eventQueue ∨
    ∃ batch, p.committed.batch = some batch ∧ db'.eventQueue = db.eventQueue ++ [batch]
  history : ∃ events, db'.history = events ++ .published p.committed.root :: db.history ∧
    ∀ e ∈ events, ∃ batch, e = .overflow batch

namespace Runtime

/-- The commit a step asks for: the transaction, the time, and the `transaction` call
whose callback returns. -/
def commitRequest (r : Runtime) : Label → Option (ℕ × ℕ × Option ℕ)
  | .commit handle now => some (handle, now, none)
  | .returns now =>
      match r.stack with
      | .callback call :: _ =>
          match r.calls[call]? with
          | some (.running _ handle) => some (handle, now, some call)
          | _ => none
      | _ => none
  | _ => none

/-- What `commit` of a transaction gives. -/
def commitResult (options : DatabaseOptions) (r : Runtime) (now : ℕ) (t : Transaction) :
    Except NewtonError Committed := do
  t.assertActive
  t.assertWithinLimits now
  r.database.assertOpen
  r.database.root.commit options.commit t

/-- **What a step publishes**, if anything. -/
def published (options : DatabaseOptions) (r : Runtime) (label : Label) : List Publication :=
  ((r.commitRequest label).bind fun request =>
    r.transactions[request.1]?.bind fun t =>
      ((r.commitResult options request.2.1 t).toOption.filter (·.batch.isSome)).map fun committed =>
        { before := r, handle := request.1, caller := request.2.2, transaction := t,
          committed }).toList

/-- The steps of a program, with all it published. -/
abbrev publishedIn (options : DatabaseOptions) :
    Runtime × List Publication → Label → Option (Runtime × List Publication) :=
  Transition.observed (step options) (published options)

variable {options : DatabaseOptions} {r r' : Runtime} {label : Label} {p : Publication}

/-- What a step publishes is the commit it asks for, where that succeeds with changes.  The
publication names the handle and the call of the commit, and what it was made of. -/
theorem mem_published : p ∈ r.published options label ↔
    ∃ now, r.commitRequest label = some (p.handle, now, p.caller) ∧
      r.transactions[p.handle]? = some p.transaction ∧
      r.commitResult options now p.transaction = .ok p.committed ∧ p.committed.batch.isSome ∧
      p.before = r := by
  unfold published
  rw [Option.mem_toList, Option.bind_eq_some_iff]
  constructor
  · rintro ⟨⟨handle, now, caller⟩, hrequest, h⟩
    obtain ⟨t, ht, h⟩ := Option.bind_eq_some_iff.1 h
    obtain ⟨committed, hc, rfl⟩ := Option.map_eq_some_iff.1 h
    obtain ⟨hc, hbatch⟩ := Option.filter_eq_some_iff.1 hc
    exact ⟨now, hrequest, ht, eq_ok_of_toOption hc, hbatch, rfl⟩
  · rintro ⟨now, hrequest, ht, hc, hbatch, rfl⟩
    refine ⟨_, hrequest, Option.bind_eq_some_iff.2 ⟨p.transaction, ht, ?_⟩⟩
    exact Option.map_eq_some_iff.2 ⟨p.committed,
      Option.filter_eq_some_iff.2 ⟨by rw [hc]; rfl, hbatch⟩, rfl⟩

/-- A step that asks for no commit publishes nothing. -/
theorem published_of_request (h : r.commitRequest label = none) :
    r.published options label = [] := by
  rw [published, h]
  rfl

/-- **The result of a commit**: the checks of the transaction, that of the database, and the
commit on the root, in this order. -/
theorem commitResult_eq (now : ℕ) (t : Transaction) : r.commitResult options now t =
    (t.assertActive >>= fun _ => t.assertWithinLimits now) >>= fun _ =>
      r.database.assertOpen >>= fun _ => r.database.root.commit options.commit t := by
  unfold commitResult
  cases t.assertActive <;> rfl

/-- A step that asks for a commit publishes its result, if that has a batch. -/
theorem published_eq {handle now : ℕ} {caller : Option ℕ} {t : Transaction}
    (hr : r.commitRequest label = some (handle, now, caller))
    (ht : r.transactions[handle]? = some t) : r.published options label =
      (((r.commitResult options now t).toOption.filter (·.batch.isSome)).map fun committed =>
        { before := r, handle, caller, transaction := t, committed }).toList := by
  rw [published, hr, Option.bind_some, ht, Option.bind_some]

/-- A commit that publishes nothing: what it leaves. -/
structure Withheld (r₁ : Runtime) (handle : ℕ) (caller : Option ℕ) (r' : Runtime) : Prop where
  root : r'.database.root = r₁.database.root
  events : r₁.database.SameEvents DatabaseEvent.isUnbatched r'.database
  stack : r'.stack = r₁.stack ∨ ∃ receipt, r'.stack = .committed handle caller receipt :: r₁.stack

/-- A commit that throws publishes nothing. -/
theorem Withheld.throwFromCommit (handle : ℕ) (caller : Option ℕ) (error : NewtonError) :
    Withheld r handle caller (r.throwFromCommit caller error) := by
  cases caller with
  | none => exact ⟨rfl, .refl _, .inl rfl⟩
  | some call => exact ⟨rfl, .record rfl _, .inl rfl⟩

/-- **What a commit publishes**: nothing, and the root and the events stay; or the
transaction. -/
theorem Committing.published {r₁ : Runtime} {handle now : ℕ} {caller : Option ℕ}
    (h : Committing options r₁ handle now caller r')
    (hr : r.commitRequest label = some (handle, now, caller))
    (ht : r₁.transactions = r.transactions) (hroot : r₁.database.root = r.database.root)
    (hstate : r₁.database.state = r.database.state) :
    (r.published options label = [] ∧ Withheld r₁ handle caller r') ∨
    ∃ t committed, r.transactions[handle]? = some t ∧ committed.batch.isSome ∧
      r.published options label = [{ before := r, handle, caller, transaction := t, committed }] ∧
      r' = r₁.publish options handle caller committed := by
  have hopen : r₁.database.assertOpen = r.database.assertOpen := by
    rw [Database.assertOpen, hstate]
    rfl
  cases h with
  | refused t error known refusal =>
      rw [ht] at known
      have hresult : r.commitResult options now t = .error error := by
        rw [commitResult_eq, refusal]
        rfl
      refine .inl ⟨?_, .throwFromCommit ..⟩
      rw [published_eq hr known, hresult]
      rfl
  | failed t error known admitted failure =>
      rw [ht] at known
      rw [hopen, hroot] at failure
      have hresult : r.commitResult options now t = .error error := by
        rw [commitResult_eq, admitted]
        exact failure
      have hwithheld : Withheld { r₁ with
          transactions := r₁.transactions.set handle { t with status := .rolledBack } } handle caller
          (Runtime.throwFromCommit _ caller error) := .throwFromCommit ..
      refine .inl ⟨?_, hwithheld.root, hwithheld.events, hwithheld.stack⟩
      rw [published_eq hr known, hresult]
      rfl
  | succeeded t committed known admitted usable ok =>
      rw [ht] at known
      rw [hopen] at usable
      rw [hroot] at ok
      have hresult : r.commitResult options now t = .ok committed := by
        rw [commitResult_eq, admitted]
        show (r.database.assertOpen >>= fun _ => _) = _
        rw [usable]
        exact ok
      have hpublished : r.published options label = _ := published_eq hr known
      rw [hresult] at hpublished
      cases hbatch : committed.batch with
      | none =>
          refine .inl ⟨?_, ?_⟩
          · rw [hpublished]
            simp [Except.toOption, hbatch]
          · rw [publish, hbatch]
            exact ⟨rfl, .refl _, .inr ⟨_, rfl⟩⟩
      | some batch =>
          refine .inr ⟨t, committed, known, by rw [hbatch]; rfl, ?_, rfl⟩
          rw [hpublished]
          simp [Except.toOption, hbatch]

/-- A publication leads from the root it was made on to the one it published.  The new root is
the first thing on record of it; an overflow may come after. -/
theorem publish_leads {caller : Option ℕ} {r₁ : Runtime} (hbatch : p.committed.batch.isSome) :
    p.Leads r₁.database (r₁.publish options p.handle caller p.committed).database := by
  obtain ⟨batch, hb⟩ := Option.isSome_iff_exists.1 hbatch
  rw [publish, hb]
  dsimp only
  unfold Database.enqueue
  split_ifs
  · exact ⟨rfl, .inl rfl, [.overflow batch], rfl, by simp⟩
  · exact ⟨rfl, .inr ⟨batch, hb, rfl⟩, [], rfl, by simp⟩

/-- A step that publishes nothing, and what it leaves. -/
structure Unpublished (options : DatabaseOptions) (r : Runtime) (label : Label) (r' : Runtime) :
    Prop where
  published : r.published options label = []
  root : r'.database.root = r.database.root
  eventQueue : r'.database.eventQueue <:+ r.database.eventQueue

/-- **A step publishes nothing and leaves the root alone, or it publishes one
transaction.** -/
theorem step_published (h : r.step options label = some r') :
    Unpublished options r label r' ∨
      ∃ p, r.published options label = [p] ∧ p.Leads r.database r'.database := by
  have hpublished : ∀ {r₁ : Runtime} {handle now : ℕ} {caller : Option ℕ},
      Committing options r₁ handle now caller r' →
      r.commitRequest label = some (handle, now, caller) → r₁.transactions = r.transactions →
      r₁.database.root = r.database.root → r₁.database.state = r.database.state →
      r₁.database.eventQueue = r.database.eventQueue → r₁.database.history = r.database.history →
      Unpublished options r label r' ∨
        ∃ p, r.published options label = [p] ∧ p.Leads r.database r'.database := by
    intro r₁ handle now caller hc hr ht hroot hstate hqueue hhistory
    rcases hc.published hr ht hroot hstate with
      ⟨hnil, hwithheld⟩ | ⟨t, committed, -, hbatch, hp, rfl⟩
    · exact .inl ⟨hnil, hwithheld.root.trans hroot, by rw [hwithheld.events.eventQueue, hqueue]⟩
    · let p : Publication := ⟨r, handle, caller, t, committed⟩
      have hleads : p.Leads r₁.database (r₁.publish options handle caller committed).database :=
        publish_leads hbatch
      refine .inr ⟨_, hp, hleads.root, ?_, ?_⟩
      · rw [← hqueue]
        exact hleads.eventQueue
      · rw [← hhistory]
        exact hleads.history
  have hquiet : r.commitRequest label = none → r'.database.root = r.database.root →
      r'.database.eventQueue <:+ r.database.eventQueue →
      Unpublished options r label r' ∨
        ∃ p, r.published options label = [p] ∧ p.Leads r.database r'.database :=
    fun hr hroot hqueue => .inl ⟨published_of_request hr, hroot, hqueue⟩
  have hsame : r.commitRequest label = none →
      r.database.SameEvents DatabaseEvent.isPlain r'.database →
      r'.database.root = r.database.root → _ := fun hr hs hroot =>
    hquiet hr hroot (by rw [hs.eventQueue])
  cases step_move h with
  | committing handle now hc => exact hpublished hc rfl rfl rfl rfl rfl rfl
  | callbackReturned now call durability handle rest stack running hc =>
      refine hpublished hc ?_ rfl rfl rfl rfl rfl
      rw [commitRequest, stack]
      simp only [running]
  | began | notBegun | operated | rolledBack | started =>
      exact hquiet rfl rfl (List.suffix_refl _)
  | rejected | notFlushed => exact hquiet rfl rfl (List.suffix_refl _)
  | flushed id => exact hsame rfl (.flushNow _ id) (Database.root_flushNow _ id)
  | closed id => exact hsame rfl (.close _ id) (Database.root_close _ id)
  | subscribed =>
      unfold Database.subscribe at hquiet ⊢
      split at hquiet <;> exact hquiet rfl rfl (List.suffix_refl _)
  | unsubscribed id => exact hquiet rfl rfl (List.suffix_refl _)
  | callbackFailed label call error durability handle rest failed =>
      rcases failed with rfl | rfl <;> exact hquiet rfl rfl (List.suffix_refl _)
  | hookReturned label frame rest ended stack hook =>
      refine hquiet ?_ rfl (List.suffix_refl _)
      rcases ended with rfl | ⟨now, rfl⟩
      · rfl
      · rw [commitRequest, stack]
        cases frame <;> first | rfl | cases hook
  | overflowThrew batch rest stack => exact hquiet rfl rfl (List.suffix_refl _)
  | listenerReturned now batch listeners rest stack =>
      refine hquiet ?_ rfl (List.suffix_refl _)
      rw [commitRequest, stack]
  | listenerThrew batch listeners rest stack => exact hquiet rfl rfl (List.suffix_refl _)
  | commitReturned | delivered => exact hquiet rfl rfl (List.suffix_refl _)
  | commitResolved handle call receipt rest stack hc =>
      obtain ⟨_, _, -, ⟨resolved, rfl⟩ | rfl⟩ := afterCommit_eq_some hc
      · exact hquiet rfl rfl (List.suffix_refl _)
      · refine hsame rfl ?_ (Database.root_persist _ _)
        exact (Database.SameEvents.record rfl r.database).trans (.persist _ _)
  | batchDone batch rest stack =>
      rcases r.nextBatch_cases rest with ⟨-, he⟩ | ⟨next, queue, hq, he⟩
      · rw [he] at hquiet ⊢
        exact hquiet rfl rfl (List.suffix_refl _)
      · rw [he] at hquiet ⊢
        exact hquiet rfl rfl (hq ▸ List.suffix_cons ..)
  | dispatched =>
      rcases r.nextBatch_cases [] with ⟨-, he⟩ | ⟨next, queue, hq, he⟩
      · rw [he] at hquiet ⊢
        exact hquiet rfl rfl (List.suffix_refl _)
      · rw [he] at hquiet ⊢
        exact hquiet rfl rfl (hq ▸ List.suffix_cons ..)
  | storage label db idle hstorage =>
      have hr : r.commitRequest label = none := by cases hstorage <;> rfl
      rcases hstorage.sameEvents with hs | ⟨failure, -, hf⟩
      · exact hsame hr hs hstorage.root
      · obtain ⟨_, -, rfl⟩ := Database.finishClose_eq_some hf
        exact hquiet hr rfl (List.nil_suffix)
  | wokeTransaction | wokeFlush => exact hquiet rfl rfl (List.suffix_refl _)

/-- **A run as its publications tell it**: the root is the one published last, and only
their batches joined the event queue. -/
structure Told (r : Runtime) (s : Runtime × List Publication) : Prop where
  root : s.1.database.root = s.2.getLast?.elim r.database.root (·.committed.root)
  eventQueue : s.1.database.eventQueue.Sublist
    (r.database.eventQueue ++ s.2.filterMap (·.committed.batch))

/-- **A step goes on with what the publications tell.**  A step that publishes adds what it
published last; any other leaves the root and adds no batch. -/
theorem Told.step {s s' : Runtime × List Publication} (h : r.Told s)
    (hs : publishedIn options s label = some s') : r.Told s' := by
  obtain ⟨hstep, hseen⟩ := Transition.observed_eq_some hs
  rcases step_published hstep with hu | ⟨p, hp, hleads⟩
  · rw [hu.published, List.append_nil] at hseen
    refine ⟨?_, ?_⟩
    · rw [hseen, hu.root, h.root]
    · rw [hseen]
      exact hu.eventQueue.sublist.trans h.eventQueue
  · rw [hp] at hseen
    refine ⟨?_, ?_⟩
    · rw [hseen, hleads.root, List.getLast?_concat]
      rfl
    · rw [hseen, List.filterMap_append, ← List.append_assoc]
      rcases hleads.eventQueue with he | ⟨batch, hb, he⟩
      · rw [he]
        exact h.eventQueue.trans (List.sublist_append_left ..)
      · have hone : [p].filterMap (·.committed.batch) = [batch] := by simp [hb]
        rw [he, hone]
        exact h.eventQueue.append (List.Sublist.refl _)

/-- **Every run is as its publications tell it.**  By induction on the run.  So what a run did
to the root and to the event queue can be read off the list of its publications. -/
theorem told {labels : List Label} {allowed : Runtime × List Publication → Label → Prop}
    {s : Runtime × List Publication}
    (h : Transition.Run (publishedIn options) allowed (r, []) labels s) : r.Told s :=
  h.invariant (P := r.Told) ⟨rfl, by simp⟩ fun _ _ _ h _ hs => h.step hs

end Runtime

end NewtonDB
