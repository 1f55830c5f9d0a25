/-
# Replicas

A replica keeps the documents of every collection and makes the changes again that a
database publishes.  The transactions of a program record what they do
(`Runtime.Logging`), so a replica that gets every batch has the documents of the
database after each of them (`Runtime.published_changes_replayed`).

A listener may miss batches: it subscribed late, or a batch overflowed.  Revisions show
it: each batch has the next revision, and roots of one revision are one root.  So a
replica that had the documents of some revision and got batches whose revisions go on
from it without a gap has the documents of the last one
(`Runtime.received_batches_replayed`).
-/

import NewtonDB.Engine.EventLog
import NewtonDB.Database.Events

namespace NewtonDB

/-- The batches a listener was called with, oldest first. -/
def Database.received (db : Database) (listener : ℕ) : List ChangeBatch :=
  ((inOrder DatabaseEvent.delivered? db.history).filter (·.1 = listener)).map Prod.snd

/-- All changes of some batches, in order. -/
def changesOf (batches : List ChangeBatch) : List Change := batches.flatMap (·.changes)

namespace Runtime

variable {options : DatabaseOptions} {r r' : Runtime} {label : Label}

/-! ### The logs of the transactions -/

/-- **Every transaction of a program recorded what it did.** -/
structure Logging (r : Runtime) : Prop where
  root : r.database.root.Invariant
  sound : r.database.root.Sound
  transactions : ∀ t ∈ r.transactions, t.Logged r.database.root

namespace Logging

/-- In a program that was just opened no transaction has begun. -/
theorem start {root : Root} (h : root.Invariant) (hs : root.Sound)
    (stored : Option SnapshotEnvelope) : (Runtime.start options root stored).Logging :=
  ⟨h, hs, fun _ ht => by cases ht⟩

/-- What a step does to a transaction keeps its log.  It begins, is called, is finished or stays
as it was, and each of these keeps the log. -/
theorem derived (h : r.Logging) {t : Transaction} (hd : Derived options r t) :
    t.Logged r.database.root := by
  cases hd with
  | new id now => exact .new _ id now options.transactionLimits
  | old ht => exact h.transactions _ ht
  | called ht now c => exact (h.transactions _ ht).call h.root now c
  | rolledBack ht => exact (h.transactions _ ht).rollback
  | finished ht status =>
      have hlogged := h.transactions _ ht
      exact hlogged.of_extends ⟨hlogged.known.base_le, hlogged.known.working_mem⟩ rfl rfl
        fun _ _ hb => hb
  | published ht => exact (h.transactions _ ht).sealWorking

/-- **Every step keeps the logs.**  Every call adds to the log of its transaction what it did,
and a commit begins none. -/
theorem step (h : r.Logging) (hs : r.step options label = some r') : r'.Logging := by
  have hderived : ∀ t ∈ r'.transactions, t.Logged r.database.root :=
    fun t ht => h.derived (step_transactions hs t ht)
  rcases (step_storage hs).root with he | ⟨t, ht, committed, -, hc, he⟩
  · refine ⟨he ▸ h.root, he ▸ h.sound, fun t ht => ?_⟩
    rw [he]
    exact hderived t ht
  · have hlogged := h.transactions t ht
    refine ⟨?_, ?_, fun t' ht' => ?_⟩
    · rw [he]
      exact h.root.commit hlogged.invariant hc
    · rw [he]
      exact Root.sound_commit h.sound hc
    · rw [he]
      exact (hderived t' ht').later (Root.later_commit h.sound hlogged.known hc)

end Logging

/-! ### The roots of a run -/

/-- The first root of a run and all that were published. -/
def rootsOf (root : Root) (publications : List Publication) : List Root :=
  root :: publications.map (·.committed.root)

/-- A publication, what it replaced and what it says. -/
structure Replayed (options : DatabaseOptions) (roots : List Root) (p : Publication)
    (batch : ChangeBatch) : Prop where
  published : p.committed.batch = some batch
  before : p.before.database.root ∈ roots
  revision : batch.revision = p.before.database.root.revision + 1
  committed : p.committed.root.revision = batch.revision
  changes : options.commit.includeDocuments →
    replayChanges batch.changes p.before.database.root.documents = some p.committed.root.documents

/-- **A run and its replica**: the roots have increasing revisions, up to the current one;
each publication can be made again on the root it replaced, and all of them on the first. -/
structure Replicated (options : DatabaseOptions) (root : Root)
    (s : Runtime × List Publication) : Prop where
  logging : s.1.Logging
  increasing : (rootsOf root s.2).Pairwise (·.revision < ·.revision)
  current : s.1.database.root ∈ rootsOf root s.2
  bound : ∀ a ∈ rootsOf root s.2, a.revision ≤ s.1.database.root.revision
  publications : ∀ p ∈ s.2, ∃ batch, Replayed options (rootsOf root s.2) p batch
  changes : options.commit.includeDocuments →
    replayChanges (changesOf (s.2.filterMap (·.committed.batch))) root.documents =
      some s.1.database.root.documents

variable {root : Root} {s s' : Runtime × List Publication}

/-- A publication that is replayed between some roots is so between more of them. -/
theorem Replayed.mono {roots roots' : List Root} {p : Publication} {batch : ChangeBatch}
    (h : Replayed options roots p batch) (hsub : roots ⊆ roots') :
    Replayed options roots' p batch :=
  ⟨h.published, hsub h.before, h.revision, h.committed, h.changes⟩

/-- The replica of a program that was just opened is its first root.  No batch was published, so
every replica is at the first root. -/
theorem Replicated.start (h : root.Invariant) (hs : root.Sound)
    (stored : Option SnapshotEnvelope) :
    Replicated options root (Runtime.start options root stored, []) where
  logging := .start h hs stored
  increasing := List.pairwise_singleton ..
  current := List.mem_singleton_self root
  bound a ha := by
    rw [List.mem_singleton.1 ha]
    exact le_rfl
  publications p hp := by cases hp
  changes _ := rfl

/-- **Every step keeps the replica.**  A publication takes the root before it to the one it
published, and its batch is the log of the transaction. -/
theorem Replicated.step (h : Replicated options root s)
    (hs : publishedIn options s label = some s') : Replicated options root s' := by
  obtain ⟨r, publications⟩ := s
  obtain ⟨r', publications'⟩ := s'
  obtain ⟨hstep, hseen⟩ := Transition.observed_eq_some hs
  dsimp only at hstep hseen
  have hlogging := h.logging.step hstep
  rcases step_published hstep with hu | ⟨p, hp, hleads⟩
  · rw [hu.published, List.append_nil] at hseen
    subst hseen
    have hroot := hu.root
    refine ⟨hlogging, h.increasing, ?_, ?_, h.publications, ?_⟩
    · rw [hroot]
      exact h.current
    · rw [hroot]
      exact h.bound
    · rw [hroot]
      exact h.changes
  · rw [hp] at hseen
    subst hseen
    obtain ⟨now, -, ht, hresult, hbatch, hbefore⟩ :=
      mem_published.1 (hp ▸ List.mem_singleton_self p : p ∈ r.published options label)
    obtain ⟨_, -, hresult⟩ := bind_eq_ok.1 hresult
    obtain ⟨_, -, hresult⟩ := bind_eq_ok.1 hresult
    obtain ⟨_, -, hcommit⟩ := bind_eq_ok.1 hresult
    obtain ⟨batch, hbatch⟩ := Option.isSome_iff_exists.1 hbatch
    obtain ⟨hrevision, hcommitted⟩ := commit_batch hcommit hbatch
    have hroots : rootsOf root (publications ++ [p]) =
        rootsOf root publications ++ [p.committed.root] := by simp [rootsOf]
    have hreplay : options.commit.includeDocuments →
        replayChanges batch.changes r.database.root.documents = some p.committed.root.documents :=
      (h.logging.transactions _ (List.mem_of_getElem? ht)).replayChanges_commit hcommit hbatch
    have hone : Replayed options (rootsOf root publications) p batch :=
      ⟨hbatch, hbefore ▸ h.current, hbefore ▸ hrevision, hcommitted, hbefore ▸ hreplay⟩
    have hsub : rootsOf root publications ⊆ rootsOf root (publications ++ [p]) :=
      hroots ▸ List.subset_append_left ..
    have hlt : r.database.root.revision < p.committed.root.revision := by
      rw [hcommitted, hrevision]
      exact Nat.lt_succ_self _
    refine ⟨hlogging, ?_, ?_, fun a ha => ?_, fun q hq => ?_, fun hdocuments => ?_⟩
    · rw [hroots]
      refine List.pairwise_append.2 ⟨h.increasing, List.pairwise_singleton .., fun a ha b hb => ?_⟩
      rw [List.mem_singleton.1 hb]
      exact (h.bound a ha).trans_lt hlt
    · rw [hroots, hleads.root]
      exact List.mem_append_right _ (List.mem_singleton_self _)
    · rw [hroots] at ha
      rw [hleads.root]
      rcases List.mem_append.1 ha with ha | ha
      · exact (h.bound a ha).trans hlt.le
      · rw [List.mem_singleton.1 ha]
    · rcases List.mem_append.1 hq with hq | hq
      · obtain ⟨batch', hreplayed⟩ := h.publications q hq
        exact ⟨batch', hreplayed.mono hsub⟩
      · rw [List.mem_singleton.1 hq]
        exact ⟨batch, hone.mono hsub⟩
    · have hbatches : (publications ++ [p]).filterMap (·.committed.batch) =
          publications.filterMap (·.committed.batch) ++ [batch] := by simp [hbatch]
      rw [hbatches, changesOf, List.flatMap_append, List.flatMap_singleton, hleads.root]
      exact replayChanges_append (h.changes hdocuments) (hreplay hdocuments)

/-! ### What listeners receive -/

/-- **Nothing reaches a listener that was not published**: not from the queue, not from a
round under way. -/
structure Relayed (batches : List ChangeBatch) (r : Runtime) : Prop where
  queue : ∀ batch ∈ r.database.eventQueue, batch ∈ batches
  rounds : ∀ round ∈ roundsOn r.stack, round.1 ∈ batches
  delivered : ∀ receipt ∈ inOrder DatabaseEvent.delivered? r.database.history, receipt.2 ∈ batches

/-- In a program that was just opened nothing is on its way to a listener. -/
theorem Relayed.start (batches : List ChangeBatch) (root : Root)
    (stored : Option SnapshotEnvelope) : Relayed batches (start options root stored) where
  queue _ hm := by cases hm
  rounds _ hm := by cases hm
  delivered _ hm := by cases hm

/-- What was published stays published when more is. -/
theorem Relayed.mono {batches batches' : List ChangeBatch} (h : Relayed batches r)
    (hsub : batches ⊆ batches') : Relayed batches' r :=
  ⟨fun batch hm => hsub (h.queue batch hm), fun round hm => hsub (h.rounds round hm),
    fun receipt hm => hsub (h.delivered receipt hm)⟩

/-- What does not touch batches relays as before. -/
theorem Relayed.same {batches : List ChangeBatch} (h : Relayed batches r)
    (queue : ∀ batch ∈ r'.database.eventQueue, batch ∈ r.database.eventQueue)
    (rounds : roundsOn r'.stack = roundsOn r.stack)
    (delivered : inOrder DatabaseEvent.delivered? r'.database.history =
      inOrder DatabaseEvent.delivered? r.database.history) : Relayed batches r' :=
  ⟨fun batch hm => h.queue batch (queue batch hm), rounds ▸ h.rounds, delivered ▸ h.delivered⟩

/-- A batch a step shows as published is one.  The other sightings are of batches that were
handed over or delivered. -/
theorem mem_of_sightings {batch : ChangeBatch} {rest : List Sighting}
    (h : r.sightings options label = .published batch :: rest) :
    batch ∈ (r.published options label).filterMap (·.committed.batch) := by
  have hm : Sighting.published batch ∈ r.sightings options label := by
    rw [h]
    exact List.mem_cons_self ..
  unfold sightings at hm
  rcases List.mem_append.1 hm with hm | hm
  · rcases List.mem_append.1 hm with hm | hm
    · obtain ⟨b, hb, he⟩ := List.mem_map.1 hm
      exact Sighting.published.inj he ▸ hb
    · obtain ⟨b, -, he⟩ := List.mem_map.1 hm
      cases he
  · obtain ⟨b, -, he⟩ := List.mem_map.1 hm
    cases he

/-- **Every step relays what was published.**  What a step queues or delivers was published
before, or just now. -/
theorem Relayed.step {batches : List ChangeBatch} (h : Relayed batches r)
    (hs : r.step options label = some r') :
    Relayed (batches ++ (r.published options label).filterMap (·.committed.batch)) r' := by
  have hmono := h.mono (List.subset_append_left batches
    ((r.published options label).filterMap (·.committed.batch)))
  cases step_events hs with
  | quiet events root rounds seen =>
      obtain ⟨news, hhistory, hkind⟩ := events.history
      refine hmono.same (fun _ hm => events.eventQueue ▸ hm) rounds ?_
      rw [hhistory]
      exact (inOrder_beside hkind).2.1
  | committed batch queued usable events revision root database rounds seen =>
      obtain ⟨news, hhistory, hkind⟩ := events.history
      have hdelivered : inOrder DatabaseEvent.delivered? queued.history =
          inOrder DatabaseEvent.delivered? r.database.history := by
        rw [hhistory]
        exact (inOrder_beside hkind).2.1
      rcases Database.enqueue_cases options queued batch with he | ⟨-, -, he⟩
      · rw [he] at database
        refine hmono.same (fun b hm => ?_) rounds ?_
        · rw [database] at hm
          exact events.eventQueue ▸ hm
        · rw [database]
          show inOrder _ (.overflow batch :: queued.history) = _
          rw [inOrder_cons, hdelivered]
          exact List.append_nil _
      · rw [he] at database
        refine ⟨fun b hm => ?_, rounds ▸ hmono.rounds, ?_⟩
        · rw [database] at hm
          rcases List.mem_append.1 hm with hm | hm
          · exact hmono.queue b (events.eventQueue ▸ hm)
          · rw [List.mem_singleton.1 hm]
            exact List.mem_append_right _ (mem_of_sightings seen)
        · rw [database]
          exact hdelivered ▸ hmono.delivered
  | subscribed database stack seen =>
      have hrest : r.database.subscribe.eventQueue = r.database.eventQueue ∧
          r.database.subscribe.history = r.database.history := by
        unfold Database.subscribe
        split <;> exact ⟨rfl, rfl⟩
      exact hmono.same (by rw [database, hrest.1]; exact fun _ hm => hm) (by rw [stack])
        (by rw [database, hrest.2])
  | unsubscribed id database stack seen =>
      exact hmono.same (by rw [database]; exact fun _ hm => hm) (by rw [stack])
        (by rw [database]; rfl)
  | delivered batch listener listeners rest stack database stack' seen =>
      have hbatch : ∀ round ∈ roundsOn r'.stack, round.1 = batch ∨ round ∈ roundsOn r.stack := by
        intro round hm
        rw [stack'] at hm
        rcases List.mem_cons.1 hm with rfl | hm
        · exact .inl rfl
        · rw [stack]
          exact .inr (List.mem_cons_of_mem _ hm)
      have hmem := hmono.rounds (batch, listener :: listeners)
        (by rw [stack]; exact List.mem_cons_self ..)
      refine ⟨by rw [database]; exact hmono.queue, fun round hm => ?_, fun receipt hm => ?_⟩
      · rcases hbatch round hm with he | hm
        · rw [he]
          exact hmem
        · exact hmono.rounds round hm
      · rw [database] at hm
        rcases List.mem_append.1 (inOrder_cons _ r.database.history ▸ hm) with hm | hm
        · exact hmono.delivered receipt hm
        · obtain rfl := List.mem_singleton.1 hm
          exact hmem
  | turned rest stack next seen =>
      have hrest : ∀ round ∈ roundsOn rest, round ∈ roundsOn r.stack := by
        rcases stack with ⟨-, rfl, -⟩ | ⟨batch, hstack⟩
        · exact fun _ hm => (List.not_mem_nil hm).elim
        · rw [hstack]
          exact fun _ hm => List.mem_cons_of_mem _ hm
      rw [next]
      rcases r.nextBatch_cases rest with ⟨-, he⟩ | ⟨batch, queue, hqueue, he⟩
      · rw [he]
        exact ⟨hmono.queue, fun round hm => hmono.rounds round (hrest round hm), hmono.delivered⟩
      · have hsub := hmono.queue
        rw [hqueue] at hsub
        rw [he]
        refine ⟨fun b hm => hsub b (List.mem_cons_of_mem _ hm), fun round hm => ?_, ?_⟩
        · rcases List.mem_cons.1 hm with rfl | hm
          · exact hsub batch (List.mem_cons_self ..)
          · exact hmono.rounds round (hrest round hm)
        · have hdelivered : inOrder DatabaseEvent.delivered?
              ([.dispatched batch r.database.listeners] ++ r.database.history) =
                inOrder DatabaseEvent.delivered? r.database.history :=
            inOrder_append (fun e he => by rw [List.mem_singleton.1 he]; rfl) _
          exact hdelivered ▸ hmono.delivered
  | discarded failure idle database stack seen =>
      obtain ⟨_, -, hdb⟩ := Database.finishClose_eq_some database
      refine hmono.same (fun b hm => ?_) (by rw [stack]) ?_
      · rw [hdb] at hm
        exact (List.not_mem_nil hm).elim
      · rw [hdb]
        show inOrder _ (.close _ :: r.database.history) = _
        rw [inOrder_cons]
        exact List.append_nil _

/-! ### Replicas -/

/-- Roots of one revision are one root. -/
theorem Replicated.eq_of_revision (h : Replicated options root s) {a b : Root}
    (ha : a ∈ rootsOf root s.2) (hb : b ∈ rootsOf root s.2) (he : a.revision = b.revision) :
    a = b :=
  List.inj_on_of_nodup_map (List.pairwise_map.2 (h.increasing.imp fun hlt => hlt.ne)) ha hb he

/-- **Published batches without a gap between them** lead from one root to another.  By
induction on the batches: revisions are those of the roots, and there is one root to a
revision. -/
theorem Replicated.stretch (h : Replicated options root s)
    (hdocuments : options.commit.includeDocuments) :
    ∀ {rest : List ChangeBatch} {first : ChangeBatch},
      (∀ batch ∈ first :: rest, batch ∈ s.2.filterMap (·.committed.batch)) →
      (first :: rest).IsChain (fun a b => b.revision = a.revision + 1) →
      ∃ a ∈ rootsOf root s.2, ∃ b ∈ rootsOf root s.2, a.revision + 1 = first.revision ∧
        b.revision = ((first :: rest).getLast (List.cons_ne_nil first rest)).revision ∧
        replayChanges (changesOf (first :: rest)) a.documents = some b.documents
  | rest, first, hpublished, hchain => by
      obtain ⟨p, hp, hbatch⟩ := List.mem_filterMap.1 (hpublished first (List.mem_cons_self ..))
      obtain ⟨batch, hreplayed⟩ := h.publications p hp
      obtain rfl := Option.some.inj (hreplayed.published.symm.trans hbatch)
      have hcommitted : p.committed.root ∈ rootsOf root s.2 :=
        List.mem_cons_of_mem _ (List.mem_map_of_mem hp)
      have hfirst := hreplayed.changes hdocuments
      cases rest with
      | nil =>
          refine ⟨_, hreplayed.before, _, hcommitted, hreplayed.revision.symm,
            hreplayed.committed, ?_⟩
          rw [changesOf, List.flatMap_singleton]
          exact hfirst
      | cons second rest =>
          obtain ⟨hnext, hchain⟩ := List.isChain_cons_cons.1 hchain
          obtain ⟨a, ha, b, hb, hsecond, hlast, hrest⟩ := h.stretch hdocuments
            (fun batch hm => hpublished batch (List.mem_cons_of_mem _ hm)) hchain
          -- the second batch goes on from the root the first one led to
          obtain rfl : p.committed.root = a := h.eq_of_revision hcommitted ha (by
            have := hreplayed.committed
            omega)
          refine ⟨_, hreplayed.before, b, hb, hreplayed.revision.symm, hlast, ?_⟩
          rw [changesOf, List.flatMap_cons]
          exact replayChanges_append hfirst hrest

section

variable {σ : Type} [DecidableEq σ] {graph : JsGraph σ} {seed : List (JsString × List σ)}
  {schemas : List (JsString × CollectionSchema)} {revision : ℕ}
  {stored : Option SnapshotEnvelope} {labels : List Label}

/-- **Every run has its replica**, by induction on the run.  So replaying its publications gives
the documents of its roots. -/
theorem replicated_of_run (h : createRoot graph seed schemas revision = .ok root)
    (hrun : Transition.Run (publishedIn options) (fun _ _ => True)
      (start options root stored, []) labels s) : Replicated options root s :=
  hrun.invariant (.start (createRoot_invariant h).1 (sound_createRoot h) stored)
    fun _ _ _ h _ hs => h.step hs

/-- **A replica that gets every batch has the documents of the database.**  Whatever a
program does, with any number of transactions open at once and from inside any hook, the
changes of all published batches, made again in order on the documents of the first root,
never meet a mismatch, and give the documents of every collection of the current root. -/
theorem published_changes_replayed (h : createRoot graph seed schemas revision = .ok root)
    (hdocuments : options.commit.includeDocuments)
    (hrun : Transition.Run (publishedIn options) (fun _ _ => True)
      (start options root stored, []) labels s) :
    replayChanges (changesOf (s.2.filterMap (·.committed.batch))) root.documents =
      some s.1.database.root.documents :=
  (replicated_of_run h hrun).changes hdocuments

end

/-- A database of notes whose batches hold the documents. -/
def toldNotes : DatabaseOptions :=
  { notesOptions 8 8 with
    commit := { databaseId := js "db", includeDocuments := true, verifyInvariants := true } }

/-- A note is added before anyone listens; a listener is told of the next two commits, the
first of which adds a note and changes one, and the second deletes one. -/
def lateListener (root : Root) : Option (Runtime × List Publication) :=
  let noteA := PrimaryKey.string (js "a")
  Transition.run (publishedIn toldNotes) (start toldNotes root none, [])
    [.beginTransaction (js "t") 0, addNote 0 "a", .commit 0 0, .resume, .dispatch, .resume,
      .subscribe, .beginTransaction (js "u") 0, addNote 1 "b",
      .operate 1 0 (.update (js "notes") noteA (.plain [(js "n", .string (js "x"))])),
      .commit 1 0, .resume, .dispatch, .resume, .returns 0, .resume,
      .beginTransaction (js "v") 0, .operate 2 0 (.delete (js "notes") noteA), .commit 2 0,
      .resume, .dispatch, .resume, .returns 0, .resume]

/-- The three commits lead to the note that is left.  The note is inserted, updated and deleted,
another one is left; the theorem replays the three. -/
theorem three_batches_replayed : ∃ (root : Root) (s : Runtime × List Publication),
    s.2.length = 3 ∧ (s.1.database.root.documents (js "notes")).length = 1 ∧
      replayChanges (changesOf (s.2.filterMap (·.committed.batch))) root.documents =
        some s.1.database.root.documents := by
  obtain ⟨root, s, hroot, h⟩ := exists_run (f := fun root => (lateListener root).filter fun s =>
    s.2.length = 3 ∧ (s.1.database.root.documents (js "notes")).length = 1) (by decide +kernel)
  obtain ⟨hrun, hfinal⟩ := Option.filter_eq_some_iff.1 h
  obtain ⟨hthree, hone⟩ := of_decide_eq_true hfinal
  exact ⟨root, s, hthree, hone,
    published_changes_replayed hroot rfl (Transition.run_sound hrun)⟩

section

variable {σ : Type} [DecidableEq σ] {graph : JsGraph σ} {seed : List (JsString × List σ)}
  {schemas : List (JsString × CollectionSchema)} {revision : ℕ}
  {stored : Option SnapshotEnvelope} {labels : List Label}

/-- **A listener can tell by the revisions whether its replica is right.**  Whenever batches
a listener was called with have revisions that go on without a gap, there is one root with
the revision before the first and one with the revision of the last, and the changes of the
batches, made again on the documents of the first root, give those of the last; whichever
batches overflowed, were discarded or came before the listener subscribed. -/
theorem received_batches_replayed (h : createRoot graph seed schemas revision = .ok root)
    (hdocuments : options.commit.includeDocuments)
    (hrun : Transition.Run (publishedIn options) (fun _ _ => True)
      (start options root stored, []) labels s) {listener : ℕ} {first : ChangeBatch}
    {rest : List ChangeBatch}
    (hreceived : ∀ batch ∈ first :: rest, batch ∈ s.1.database.received listener)
    (hgapless : (first :: rest).IsChain fun a b => b.revision = a.revision + 1) :
    (rootsOf root s.2).Pairwise (·.revision < ·.revision) ∧
      ∃ a ∈ rootsOf root s.2, ∃ b ∈ rootsOf root s.2, a.revision + 1 = first.revision ∧
        b.revision = ((first :: rest).getLast (List.cons_ne_nil first rest)).revision ∧
        replayChanges (changesOf (first :: rest)) a.documents = some b.documents := by
  have hreplicated := replicated_of_run h hrun
  have hrelayed : Relayed (s.2.filterMap (·.committed.batch)) s.1 := by
    refine hrun.invariant (P := fun s => Relayed (s.2.filterMap (·.committed.batch)) s.1)
      (.start [] root stored) ?_
    intro t label u ht _ hu
    obtain ⟨hstep, hseen⟩ := Transition.observed_eq_some hu
    rw [hseen, List.filterMap_append]
    exact ht.step hstep
  refine ⟨hreplicated.increasing, hreplicated.stretch hdocuments (fun batch hm => ?_) hgapless⟩
  obtain ⟨receipt, hreceipt, rfl⟩ := List.mem_map.1 (hreceived batch hm)
  exact hrelayed.delivered receipt (List.mem_filter.1 hreceipt).1

end

/-- The listener has the note that is left, if it had the note there was.  It subscribed after
the first commit, and the theorem applies to the batches it received. -/
theorem late_listener_replayed : ∃ (root : Root) (s : Runtime × List Publication)
    (second third : ChangeBatch), s.1.database.received 1 = [second, third] ∧ s.2.length = 3 ∧
      ∃ a ∈ rootsOf root s.2, ∃ b ∈ rootsOf root s.2, a.revision + 1 = second.revision ∧
        b.revision = third.revision ∧
        replayChanges (changesOf [second, third]) a.documents = some b.documents := by
  obtain ⟨root, s, hroot, h⟩ := exists_run (f := fun root => (lateListener root).filter fun s =>
    s.2.length = 3 ∧ (s.1.database.received 1).map (·.revision) = [2, 3]) (by decide +kernel)
  obtain ⟨hrun, hfinal⟩ := Option.filter_eq_some_iff.1 h
  obtain ⟨hthree, hrevisions⟩ := of_decide_eq_true hfinal
  obtain ⟨second, rest, hreceived, hsecond, hrest⟩ := List.map_eq_cons_iff.1 hrevisions
  obtain ⟨third, rest, rfl, hthird, hnil⟩ := List.map_eq_cons_iff.1 hrest
  obtain rfl := List.map_eq_nil_iff.1 hnil
  have hgapless : [second, third].IsChain fun a b => b.revision = a.revision + 1 := by
    simp [hsecond, hthird]
  obtain ⟨-, hstretch⟩ := received_batches_replayed hroot rfl (Transition.run_sound hrun)
    (fun batch hm => hreceived ▸ hm) hgapless
  exact ⟨root, s, second, third, hreceived, hthree, hstretch⟩

end Runtime

end NewtonDB
