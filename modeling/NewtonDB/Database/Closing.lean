/-
# Closing a database

Once `close` was called the database is `closing` until the close is done and
`closed` from then on, nothing is published any more, and a close that succeeds
over an honest adapter leaves the last revision in storage.

The store queue can break it: a store that fails, and a `#persist` that finds the
queue full, make the database `degraded` whatever its state was, and a degraded
database takes commits (`failed_store_reopens`).  Where neither happens after
`close` was called, closing is irreversible (`closing_irreversible`).
-/

import NewtonDB.Database.Durability

namespace NewtonDB

/-- The state of a database by where its close stands. -/
def ClosePhase.state : ClosePhase → DatabaseState
  | .flushing _ | .closingAdapter _ => .closing
  | .done _ => .closed

/-- `#persist` of a revision would find the queue full. -/
def Database.refuses (options : DatabaseOptions) (db : Database) (revision : ℕ) : Bool :=
  options.adapter && db.persistedRevision < revision &&
    (db.persistenceByRevision.get? revision).isNone &&
    options.persistenceLimits.maxPendingSnapshots ≤ db.pendingPersistence

/-- The adapter acknowledges a store as the database expects it. -/
def Database.succeeds (options : DatabaseOptions) (db : Database) (index : ℕ) :
    StoreOutcome → Bool
  | .rejected => false
  | .acknowledged acknowledgement =>
      db.tasks[index]?.all fun task =>
        match task.phase with
        | .storing snapshot => accepts options snapshot acknowledgement
        | _ => true

/-- A step that keeps a closing database from becoming degraded: no `#persist` finds
the queue full, and no store fails. -/
def Runtime.closesCleanly (options : DatabaseOptions) (r : Runtime) : Label → Bool
  | .close _ =>
      r.database.closePromise.isSome || !r.database.refuses options r.database.root.revision
  | .resume =>
      match r.stack with
      | .committed _ (some call) receipt :: _ =>
          r.database.closePromise.isNone || !r.persists call ||
            !r.database.refuses options receipt.revision
      | _ => true
  | .settleStore index outcome =>
      r.database.closePromise.isNone || r.database.succeeds options index outcome
  | _ => true

namespace Database

variable {options : DatabaseOptions} {loaded : Option SnapshotEnvelope} {db db' : Database}
  {index : ℕ} {held held' : ℤ}

/-- The lifecycle state agrees with where the close stands. -/
def LifecycleInvariant (db : Database) : Prop :=
  ∀ phase, db.closePromise = some phase → db.state = phase.state

/-- A later database: if it was closing it is, with the same root; if it was closed it
is. -/
def StaysClosing (db db' : Database) : Prop :=
  ∀ phase, db.closePromise = some phase → db'.root = db.root ∧
    ∃ phase', db'.closePromise = some phase' ∧ (phase.state = .closed → phase'.state = .closed)

/-- A close stays under way when nothing happens. -/
theorem StaysClosing.refl (db : Database) : db.StaysClosing db :=
  fun phase hp => ⟨rfl, phase, hp, id⟩

/-- A close that stays under way through two steps does so through both. -/
theorem StaysClosing.trans {db'' : Database} (h : db.StaysClosing db')
    (h' : db'.StaysClosing db'') : db.StaysClosing db'' := by
  intro phase hp
  obtain ⟨hroot, phase', hp', hle⟩ := h phase hp
  obtain ⟨hroot', phase'', hp'', hle'⟩ := h' phase' hp'
  exact ⟨hroot'.trans hroot, phase'', hp'', fun hc => hle' (hle hc)⟩

/-- What leaves the root and the close alone leaves the close under way. -/
theorem StaysClosing.of_same (root : db'.root = db.root)
    (closePromise : db'.closePromise = db.closePromise) : db.StaysClosing db' :=
  fun phase hp => ⟨root, phase, closePromise.trans hp, id⟩

/-- A database that is not closing. -/
theorem StaysClosing.of_none (hnone : db.closePromise = none) : db.StaysClosing db' :=
  fun phase hp => by rw [hnone] at hp; cases hp

/-- The lifecycle depends on the state and on the close only. -/
theorem LifecycleInvariant.congr (h : db.LifecycleInvariant) (state : db'.state = db.state)
    (closePromise : db'.closePromise = db.closePromise) : db'.LifecycleInvariant :=
  fun phase hp => state.trans (h phase (closePromise ▸ hp))

/-- Before a close, nothing is asked of the state. -/
theorem LifecycleInvariant.of_none (hnone : db.closePromise = none) : db.LifecycleInvariant :=
  fun phase hp => by rw [hnone] at hp; cases hp

/-- **A database that can be used is not closing.**  So a step that needs an open database, as a
commit does, is none of a closing one. -/
theorem LifecycleInvariant.of_usable (h : db.LifecycleInvariant) (hu : db.assertOpen = .ok ()) :
    db.closePromise = none := by
  cases hp : db.closePromise with
  | none => rfl
  | some phase =>
      rw [assertOpen, h phase hp] at hu
      cases phase <;> cases hu

/-- To queue a store leaves the close as it is. -/
@[simp]
theorem closePromise_persist (db : Database) (receipt : CommitReceipt) :
    (db.persist options receipt).1.closePromise = db.closePromise := by
  by_cases ha : options.adapter
  · have hspec := persist_spec ha db receipt
    generalize db.persist options receipt = result at hspec
    cases hspec <;> rfl
  · rw [persist_of_no_adapter ha]

/-- A flush leaves the close as it is. -/
@[simp]
theorem closePromise_flushNow (db : Database) (id : JsString) :
    (db.flushNow options id).1.closePromise = db.closePromise := by
  rcases flushNow_cases options db id with ⟨-, -, he⟩ | ⟨-, he⟩
  · rw [he, closePromise_persist]
  · rw [he]

/-- Unless it finds the queue full, `#persist` does not change the lifecycle state.  A full
queue is the one case in which `#persist` itself makes the database degraded. -/
theorem state_persist (ha : options.adapter) {receipt : CommitReceipt}
    (hlt : db.persistedRevision < receipt.revision)
    (h : db.refuses options receipt.revision = false) :
    (db.persist options receipt).1.state = db.state := by
  have hspec := persist_spec ha db receipt
  generalize db.persist options receipt = result at hspec
  cases hspec with
  | full entry limit =>
      rw [refuses, ha, decide_eq_true hlt, entry, decide_eq_true limit] at h
      cases h
  | _ => rfl

/-- A flush that finds room in the queue leaves the state. -/
theorem state_flushNow (db : Database) (h : db.refuses options db.root.revision = false)
    (id : JsString) : (db.flushNow options id).1.state = db.state := by
  rcases flushNow_cases options db id with ⟨ha, hlt, he⟩ | ⟨-, he⟩
  · rw [he]
    exact state_persist ha hlt h
  · rw [he]

/-- The flush of a close that finds room in the queue leaves the state. -/
theorem state_flushDuringClose (db : Database) (h : db.refuses options db.root.revision = false)
    (id : JsString) : (db.flushDuringClose options id).1.state = db.state := by
  unfold flushDuringClose
  split_ifs
  · rfl
  · exact state_flushNow db h id

/-- A store that succeeds is acknowledged.  The acknowledgement is accepted, so the other branch
of the answer is impossible. -/
theorem settleStore_of_succeeds {outcome : StoreOutcome}
    (h : db.succeeds options index outcome)
    (hs : db.settleStore options index outcome = some db') :
    ∃ snapshot a, db' = db.acknowledge index snapshot a := by
  obtain ⟨task, snapshot, ht, hp, ⟨-, hfail⟩ | ⟨a, -, -, rfl⟩⟩ := settleStore_eq_some hs
  · cases outcome with
    | rejected => cases h
    | acknowledged a =>
        rw [succeeds, ht, Option.all_some, hp] at h
        exact absurd h (by simp [hfail a rfl])
  · exact ⟨snapshot, a, rfl⟩

end Database

namespace Runtime

variable {options : DatabaseOptions} {loaded : Option SnapshotEnvelope} {r r' : Runtime}
  {label : Label} {held : ℤ}

/-- **A clean step keeps a closing database closing.**  The cases are those of the effects on
storage.  Only a store that fails, or a queue found full, would make it degraded. -/
theorem staysClosing_step (h : r.database.LifecycleInvariant) (hc : r.closesCleanly options label)
    (hs : r.step options label = some r') :
    r'.database.LifecycleInvariant ∧ r.database.StaysClosing r'.database := by
  have heffect := step_storage hs
  generalize r'.database = db' at heffect
  cases heffect with
  | quiet hq => exact ⟨h.congr hq.state hq.closePromise, .of_same hq.root hq.closePromise⟩
  | commit t committed _ usable _ hq =>
      have hnone := h.of_usable usable
      refine ⟨.of_none (hq.closePromise.trans ?_), .of_none hnone⟩
      unfold Database.publish
      split <;> exact hnone
  | persist handle call receipt rest stack persists ha pending =>
      have hpromise : ((r.database.record (.committed handle (r.receiptOf handle receipt))).persist
          options (r.receiptOf handle receipt)).1.closePromise = r.database.closePromise :=
        Database.closePromise_persist _ (r.receiptOf handle receipt)
      refine ⟨?_, .of_same (Database.root_persist _ (r.receiptOf handle receipt)) hpromise⟩
      cases hp : r.database.closePromise with
      | none => exact .of_none (hpromise.trans hp)
      | some phase =>
          have hrefuses : r.database.refuses options receipt.revision = false := by
            rw [closesCleanly, stack] at hc
            simpa [hp, persists] using hc
          exact h.congr (Database.state_persist ha pending hrefuses) hpromise
  | flush id usable =>
      have hnone := h.of_usable usable
      exact ⟨.of_none ((Database.closePromise_flushNow _ id).trans hnone), .of_none hnone⟩
  | close id =>
      rcases Database.close_cases options r.database id with he | ⟨-, hnone, he⟩
      · rw [he]
        exact ⟨h, .refl _⟩
      · refine ⟨fun phase hp => ?_, .of_none hnone⟩
        have hrefuses : r.database.refuses options r.database.root.revision = false := by
          simpa [closesCleanly, hnone] using hc
        rw [he] at hp ⊢
        obtain rfl := Option.some.inj hp
        exact Database.state_flushDuringClose { r.database with state := .closing } hrefuses id
  | startStore index hs =>
      obtain ⟨task, -, -, -, rfl⟩ := Database.startStore_eq_some hs
      exact ⟨h.congr rfl rfl, .of_same rfl rfl⟩
  | settleStore index outcome hs =>
      cases hp : r.database.closePromise with
      | none =>
          refine ⟨.of_none ?_, .of_none hp⟩
          obtain ⟨task, snapshot, -, -, ⟨rfl, -⟩ | ⟨a, -, -, rfl⟩⟩ := Database.settleStore_eq_some hs
          · exact hp
          · exact hp
      | some phase =>
          have hsucceeds : r.database.succeeds options index outcome := by
            simpa [closesCleanly, hp] using hc
          obtain ⟨snapshot, a, rfl⟩ := Database.settleStore_of_succeeds hsucceeds hs
          refine ⟨h.congr ?_ rfl, .of_same rfl rfl⟩
          -- only a degraded database recovers
          have hstate : r.database.state ≠ .degraded := by
            rw [h phase hp]
            cases phase <;> simp [ClosePhase.state]
          exact if_neg fun hd => hstate hd.1
  | finishStore index hs =>
      obtain ⟨task, error, -, -, rfl⟩ := Database.finishStore_eq_some hs
      exact ⟨h.congr rfl rfl, .of_same rfl rfl⟩
  | closeAdapter hs =>
      obtain ⟨waiting, failure, hw, -, rfl⟩ := Database.closeAdapter_eq_some hs
      have hstays : r.database.StaysClosing
          { r.database with closePromise := some (.closingAdapter failure) } := by
        intro phase hp
        obtain rfl := Option.some.inj (hw.symm.trans hp)
        exact ⟨rfl, _, rfl, fun hc => by cases hc⟩
      have hstate : Database.LifecycleInvariant
          { r.database with closePromise := some (.closingAdapter failure) } := by
        intro phase hp
        obtain rfl := Option.some.inj hp
        exact h (.flushing waiting) hw
      split_ifs
      · exact ⟨hstate.congr rfl rfl, hstays.trans (.of_same rfl rfl)⟩
      · exact ⟨hstate, hstays⟩
  | finishClose failure hs =>
      obtain ⟨previous, hp, rfl⟩ := Database.finishClose_eq_some hs
      refine ⟨fun phase hp' => ?_, fun phase hp' => ⟨rfl, _, rfl, fun _ => rfl⟩⟩
      obtain rfl := Option.some.inj hp'
      rfl

end Runtime

/-! ### What a close leaves in storage -/

namespace Database

/-- What the close waits for, where storage holds the commits up to `held`. -/
structure CloseInvariant (options : DatabaseOptions) (held : ℤ) (db : Database) : Prop where
  flushing : ∀ waiting, db.closePromise = some (.flushing waiting) → options.adapter →
    db.Promises held db.root.revision waiting
  closed : ∀ phase, db.closePromise = some phase →
    phase = .closingAdapter none ∨ phase = .done none → options.adapter → db.root.revision ≤ held

namespace CloseInvariant

/-- Before a close, it waits for nothing. -/
theorem of_none (hnone : db.closePromise = none) : CloseInvariant options held db where
  flushing _ hw := by rw [hnone] at hw; cases hw
  closed _ hp := by rw [hnone] at hp; cases hp

/-- A close that is under way waits for the same.  The root of a closing database does not
change, and a promise about it keeps under every later step. -/
theorem later (h : CloseInvariant options held db) (closePromise : db'.closePromise = db.closePromise)
    (hstays : db.StaysClosing db') (hlater : db.Later db') (hle : held ≤ held') :
    CloseInvariant options held' db' := by
  refine ⟨fun waiting hw ha => ?_, fun phase hp hd ha => ?_⟩
  · rw [closePromise] at hw
    obtain ⟨hroot, -⟩ := hstays _ hw
    rw [hroot]
    exact (h.flushing waiting hw ha).later hlater hle
  · rw [closePromise] at hp
    obtain ⟨hroot, -⟩ := hstays _ hp
    rw [hroot]
    exact (h.closed phase hp hd ha).trans hle

/-- **A close waits until storage holds the last revision.**  With a store of the last revision
in the queue the close waits for that store; without one, storage is up to date. -/
theorem close (h : CloseInvariant options held db) (hq : db.QueueInvariant options)
    (hpersisted : options.adapter → db.persistedRevision ≤ held) (id : JsString) :
    CloseInvariant options held (db.close options id) := by
  rcases close_cases options db id with he | ⟨-, -, he⟩
  · rwa [he]
  · rw [he]
    refine ⟨fun waiting hw ha => ?_, fun phase hp hd => ?_⟩
    · obtain rfl := ClosePhase.flushing.inj (Option.some.inj hw)
      have hclosing : QueueInvariant options { db with state := .closing } := hq.congr rfl rfl rfl
      have hpromise := promises_flushNow hclosing (hpersisted ha) ha id
      have hflush : { db with state := .closing }.flushDuringClose options id =
          { db with state := .closing }.flushNow options id := if_neg (by simpa using ha)
      rw [hflush, root_flushNow]
      exact hpromise.later (.of_same rfl [] rfl) le_rfl
    · obtain rfl := Option.some.inj hp
      rcases hd with hd | hd <;> cases hd

/-- **When the wait of a close is over** without an error, what it waited for is stored.  Where
the wait ended in an error the close will end in it, and nothing is said of storage. -/
theorem closeAdapter (h : CloseInvariant options held db)
    (hd : db.DurabilityInvariant options loaded held)
    (hs : db.closeAdapter options = some db') : CloseInvariant options held db' := by
  obtain ⟨waiting, failure, hw, ho, rfl⟩ := closeAdapter_eq_some hs
  have hphase : CloseInvariant options held
      { db with closePromise := some (.closingAdapter failure) } := by
    refine ⟨fun _ hw' => (by cases hw'), fun phase hp hnone ha => ?_⟩
    obtain rfl := Option.some.inj hp
    rcases hnone with hnone | hnone
    · rw [ClosePhase.closingAdapter.inj hnone] at ho
      exact (h.flushing waiting hw ha).le_held hd ho
    · cases hnone
  split_ifs
  · exact hphase.later rfl (.of_same rfl rfl) (.of_same rfl [_] rfl) le_rfl
  · exact hphase

/-- When the adapter was closed the close ends with what was stored before.  The phase is final
after that and holds its failure, if there was one. -/
theorem finishClose (h : CloseInvariant options held db) {failure : Option NewtonError}
    (hs : db.finishClose failure = some db') : CloseInvariant options held db' := by
  obtain ⟨previous, hp, rfl⟩ := finishClose_eq_some hs
  refine ⟨fun _ hw => (by cases hw), fun phase hp' hnone ha => ?_⟩
  obtain rfl := Option.some.inj hp'
  rcases hnone with hnone | hnone
  · cases hnone
  · obtain ⟨rfl, -⟩ := Option.or_eq_none_iff.1 (ClosePhase.done.inj hnone)
    exact h.closed _ hp (.inl rfl) ha

end CloseInvariant

end Database

namespace Runtime

variable {options : DatabaseOptions} {loaded : Option SnapshotEnvelope} {r r' : Runtime}
  {label : Label} {held : ℤ}

/-- **A step keeps what the close waits for**, while the database stays closing.  The current
root does not change while the database closes, so that what the close waits for stays the last
revision. -/
theorem closeInvariant_step (h : r.database.CloseInvariant options held)
    (hd : r.DurabilityInvariant options loaded held) {held' : ℤ} (hle : held ≤ held')
    (hstays : r.database.StaysClosing r'.database) (hs : r.step options label = some r') :
    r'.database.CloseInvariant options held' := by
  have heffect := step_storage hs
  have hlater := heffect.later
  generalize r'.database = db' at heffect hstays hlater
  -- most steps leave the close where it stands
  have hsame : db'.closePromise = r.database.closePromise → db'.CloseInvariant options held' :=
    fun hp => h.later hp hstays hlater hle
  have hmono : ∀ {db : Database}, db.CloseInvariant options held →
      db.CloseInvariant options held' := fun h => h.later rfl (.refl _) (.refl _) hle
  cases heffect with
  | quiet hq => exact hsame hq.closePromise
  | commit t committed _ _ _ hq =>
      refine hsame (hq.closePromise.trans ?_)
      unfold Database.publish
      split <;> rfl
  | persist handle call receipt rest stack persists ha pending =>
      exact hsame (Database.closePromise_persist _ (r.receiptOf handle receipt))
  | flush id usable => exact hsame (Database.closePromise_flushNow _ id)
  | close id => exact hmono (h.close hd.queue hd.database.persisted id)
  | startStore index hs =>
      obtain ⟨task, -, -, -, rfl⟩ := Database.startStore_eq_some hs
      exact hsame rfl
  | settleStore index outcome hs =>
      obtain ⟨task, snapshot, -, -, ⟨rfl, -⟩ | ⟨a, -, -, rfl⟩⟩ := Database.settleStore_eq_some hs
      · exact hsame rfl
      · exact hsame rfl
  | finishStore index hs =>
      obtain ⟨task, error, -, -, rfl⟩ := Database.finishStore_eq_some hs
      exact hsame rfl
  | closeAdapter hs => exact hmono (h.closeAdapter hd.database hs)
  | finishClose failure hs => exact hmono (h.finishClose hs)

section

variable {σ : Type} [DecidableEq σ] {graph : JsGraph σ} {root : Root}

/-- A clean run keeps a closing database closing.  By induction on the run, with
`staysClosing_step` for a step of it. -/
theorem staysClosing_run {labels : List Label} (h : r.database.LifecycleInvariant)
    (hrun : Transition.Run (step options) (fun r label => r.closesCleanly options label) r labels
      r') : r'.database.LifecycleInvariant ∧ r.database.StaysClosing r'.database := by
  refine hrun.invariant (P := fun r' => r'.database.LifecycleInvariant ∧
    r.database.StaysClosing r'.database) ⟨h, .refl _⟩ ?_
  rintro t label u ⟨ht, hstays⟩ hc hs
  obtain ⟨hu, hstep⟩ := staysClosing_step ht hc hs
  exact ⟨hu, hstays.trans hstep⟩

/-- A database that was just opened is not closing. -/
theorem lifecycleInvariant_start (options : DatabaseOptions) (root : Root)
    (loaded : Option SnapshotEnvelope) :
    (start options root loaded).database.LifecycleInvariant := .of_none rfl

/-- **A close that succeeds leaves the last revision in storage**, in clean runs over an
honest adapter. -/
theorem installed_of_closed (hroot : root.revision = loaded.elim 0 (·.revision))
    {labels : List Label}
    (hrun : Transition.Run (step options)
      (fun r label => r.closesCleanly options label ∧ r.adapterHonest label)
      (start options root loaded) labels r)
    (ha : options.adapter) (hdone : r.database.closePromise = some (.done none)) :
    installed loaded r.database.root.revision r.database.history := by
  have hinv : r.database.LifecycleInvariant ∧ ∃ held, r.DurabilityInvariant options loaded held ∧
      r.database.CloseInvariant options held := by
    refine hrun.invariant (P := fun r => r.database.LifecycleInvariant ∧
      ∃ held, r.DurabilityInvariant options loaded held ∧ r.database.CloseInvariant options held)
      ⟨lifecycleInvariant_start options root loaded, _, .start options hroot, .of_none rfl⟩ ?_
    rintro r label r' ⟨hl, held, hd, hclose⟩ ⟨hclean, hhonest⟩ hs
    obtain ⟨hl', hstays⟩ := staysClosing_step hl hclean hs
    obtain ⟨held', hle, hd'⟩ := hd.step hhonest hs
    exact ⟨hl', held', hd', closeInvariant_step hclose hd hle hstays hs⟩
  obtain ⟨-, held, hd, hclose⟩ := hinv
  exact hd.database.installed _ (hclose.closed _ hdone (.inr rfl) ha)

/-- **Closing is irreversible**, in every run in which no store fails and no `#persist`
finds the queue full once `close` was called: from then on the database is closing and
then closed, its root stays, and a close that succeeds over an honest adapter leaves
the last revision in storage. -/
theorem closing_irreversible (loaded : Option SnapshotEnvelope)
    {seed : List (JsString × List σ)} {schemas : List (JsString × CollectionSchema)}
    (hroot : createRoot graph seed schemas (loaded.elim 0 (·.revision)) = .ok root)
    {labels labels' : List Label}
    (hrun : Transition.Run (step options) (fun r label => r.closesCleanly options label)
      (start options root loaded) labels r)
    (hcalled : r.database.closePromise.isSome)
    (hrun' : Transition.Run (step options) (fun r label => r.closesCleanly options label)
      r labels' r') :
    (r'.database.state = .closed ∨
      r'.database.state = .closing ∧ r.database.state = .closing) ∧
    r'.database.root = r.database.root ∧
    (Transition.Run (step options) (fun r label => r.adapterHonest label)
        (start options root loaded) (labels ++ labels') r' →
      options.adapter → r'.database.closePromise = some (.done none) →
      installed loaded r'.database.root.revision r'.database.history) := by
  have hl := (staysClosing_run (lifecycleInvariant_start options root loaded) hrun).1
  obtain ⟨hl', hstays⟩ := staysClosing_run hl hrun'
  obtain ⟨phase, hp⟩ := Option.isSome_iff_exists.1 hcalled
  obtain ⟨hsame, phase', hp', hclosed⟩ := hstays phase hp
  refine ⟨?_, hsame, fun hhonest ha hdone => ?_⟩
  · rw [hl phase hp, hl' phase' hp']
    cases phase' with
    | done failure => exact .inl rfl
    | flushing waiting | closingAdapter failure =>
        cases phase with
        | done failure => cases hclosed rfl
        | flushing waiting | closingAdapter failure => exact .inr ⟨rfl, rfl⟩
  · obtain ⟨-, hboth⟩ := (hrun.trans hrun').and hhonest
    exact installed_of_closed (createRoot_invariant hroot).2 hboth ha hdone

end

/-- A clean step over an honest adapter. -/
def closesHonestly (options : DatabaseOptions) (r : Runtime) (label : Label) : Bool :=
  r.closesCleanly options label && r.adapterHonest label

/-- A close waits for the store of a commit.  The store under way is acknowledged after `close`
was called, and the close ends when it is. -/
theorem close_during_store_installed : ∃ r : Runtime, r.database.root.revision = 1 ∧
    r.database.closePromise = some (.done none) ∧
    installed none r.database.root.revision r.database.history := by
  obtain ⟨root, r', hroot, h⟩ := exists_run (f := fun root =>
    ((Transition.checked (step (notesOptions 1 8)) (closesHonestly (notesOptions 1 8))
      (start (notesOptions 1 8) root none)
      [.transaction none false (js "t") 0, addNote 0 "a", .returns 0, .resume, .startStore 0,
        .close (js "c")]).filter (·.database.closePromise.isSome)).bind fun r =>
    (Transition.checked (step (notesOptions 1 8)) (closesHonestly (notesOptions 1 8)) r
      [.settleStore 0 (storedNotes 1 1), .finishStore 0, .wake 0, .closeAdapter,
        .finishClose none]).filter fun r' =>
          r'.database.closePromise = some (.done none) ∧ r'.database.root.revision = 1)
    (by decide +kernel)
  obtain ⟨r, hr, hr'⟩ := Option.bind_eq_some_iff.1 h
  obtain ⟨hrun, hcalled⟩ := Option.filter_eq_some_iff.1 hr
  obtain ⟨hrun', hfinal⟩ := Option.filter_eq_some_iff.1 hr'
  obtain ⟨hdone, hrevision⟩ := of_decide_eq_true hfinal
  have hboth := Transition.checked_sound hrun
  have hboth' := Transition.checked_sound hrun'
  have hclean : ∀ (r : Runtime) label, r.closesHonestly (notesOptions 1 8) label →
      r.closesCleanly (notesOptions 1 8) label := fun _ _ h => (Bool.and_eq_true_iff.1 h).1
  have hhonest : ∀ (r : Runtime) label, r.closesHonestly (notesOptions 1 8) label →
      r.adapterHonest label := fun _ _ h => (Bool.and_eq_true_iff.1 h).2
  exact ⟨r', hrevision, hdone, (closing_irreversible none hroot (hboth.mono hclean) hcalled
    (hboth'.mono hclean)).2.2 ((hboth.trans hboth').mono hhonest) rfl hdone⟩

/-- **A store that fails reopens a closing database.**  The database is degraded, and a commit
publishes a root.  The transaction was begun before the close, and its commit finds the database
degraded, not closing. -/
theorem failed_store_reopens :
    (noNotes.toOption.bind fun root =>
      (Transition.run (step (notesOptions 8 8)) (start (notesOptions 8 8) root none)
        [.transaction none false (js "t") 0, addNote 0 "a", .returns 0, .resume, .startStore 0,
          .beginTransaction (js "u") 0, addNote 1 "b", .close (js "c")]).bind fun r =>
      (Transition.run (step (notesOptions 8 8)) r
        [.settleStore 0 .rejected, .commit 1 0, .resume]).map fun r' =>
          (r.database.state, r.database.root.revision, r'.database.state,
            r'.database.root.revision)) = some (.closing, 1, .degraded, 2) := by
  decide +kernel

end Runtime

end NewtonDB
