/-
# The log of a transaction

A change says what one write did to the documents of its collection: one was added at
the end, one gave way to a new version, or one was removed (`Change.edit?`).

`Transaction.Logged` ties what a transaction recorded to what it did: the edits of each
working collection, made again on the collection that was cloned, give its documents.
Every call keeps this, whether it completes or throws (`Logged.call`), and so does
every later root (`Logged.later`).  A commit publishes only where each clone is still
the committed collection, so **the changes of a transaction that commits, made again on
the documents of the root, give the documents of the root it publishes**
(`Transaction.Logged.replayChanges_commit`).
-/

import NewtonDB.Lib.EditLog
import NewtonDB.Engine.FailedWrites

namespace NewtonDB

open EditLog

/-! ### Changes as edits -/

/-- What a change says happened, and to which collection, when it holds the documents. -/
def Change.edit? (change : Change) : Option (JsString × Edit JsonObject) :=
  match change.operation, change.before, change.after with
  | .insert, none, some after => some (change.collection, .append after)
  | .update, some before, some after => some (change.collection, .replace before after)
  | .delete, some before, none => some (change.collection, .remove before)
  | _, _, _ => none

/-- The documents of every collection, in order. -/
def Root.documents (root : Root) (name : JsString) : List JsonObject :=
  (root.collections.get? name).elim [] StoredCollection.documents

/-- **The changes made again** on the documents of every collection, unless one says too
little or does not fit. -/
def replayChanges (changes : List Change) (documents : JsString → List JsonObject) :
    Option (JsString → List JsonObject) :=
  (changes.mapM Change.edit?).bind fun log => replay log documents

/-- To replay changes is to replay the log of the edits they stand for. -/
theorem replayChanges_eq_some_iff {changes : List Change}
    {documents documents' : JsString → List JsonObject} :
    replayChanges changes documents = some documents' ↔
      ∃ log, changes.mapM Change.edit? = some log ∧ replay log documents = some documents' :=
  Option.bind_eq_some_iff

/-- The batch of a commit lists the changes of the transaction, and the root has its
working collections. -/
theorem commit_published {root : Root} {options : CommitOptions} {t : Transaction}
    {committed : Committed} {batch : ChangeBatch} (h : root.commit options t = .ok committed)
    (hb : committed.batch = some batch) :
    batch.changes = t.changes.map (·.published options.includeDocuments) ∧
      committed.root = { collections := publishAll root.collections (root.revision + 1) t.working,
                         revision := root.revision + 1 } := by
  unfold Root.commit at h
  obtain ⟨conflicts, -, h⟩ := bind_eq_ok.1 h
  cases conflicts with
  | cons name rest => cases h
  | nil =>
      dsimp only at h
      split_ifs at h
      · rw [← Except.ok.inj h] at hb
        cases hb
      · unfold Root.publish at h
        dsimp only at h
        split at h
        · cases h
        · rw [← Except.ok.inj h] at hb ⊢
          obtain rfl := Option.some.inj hb
          exact ⟨rfl, rfl⟩

/-- One list of changes after another.  The logs that stand for them are replayed one after the
other. -/
theorem replayChanges_append {changes changes' : List Change}
    {a b c : JsString → List JsonObject} (h : replayChanges changes a = some b)
    (h' : replayChanges changes' b = some c) : replayChanges (changes ++ changes') a = some c := by
  obtain ⟨log, hlog, hreplay⟩ := replayChanges_eq_some_iff.1 h
  obtain ⟨log', hlog', hreplay'⟩ := replayChanges_eq_some_iff.1 h'
  refine replayChanges_eq_some_iff.2 ⟨log ++ log', ?_, (replay_append hreplay).trans hreplay'⟩
  rw [List.mapM_append, hlog, hlog']
  rfl

/-- With its documents a change is published as it is. -/
theorem map_published (changes : List Change) : changes.map (·.published true) = changes :=
  List.map_id' changes

/-! ### What a write says -/

namespace WorkingCollection

variable {c c' : WorkingCollection} {name : JsString}

/-- **A write and its account**: one that throws leaves the documents as they were, one
that completes says what it did to them. -/
structure Tells (name : JsString) (c : WorkingCollection)
    (result : WorkingCollection × Except NewtonError Written) : Prop where
  thrown : ∀ error, result.2 = .error error → result.1.documents = c.documents
  told : ∀ written, result.2 = .ok written → ∃ e, written.change.edit? = some (name, e) ∧
    e.apply c.documents = some result.1.documents

/-- An unchanged collection has the same documents. -/
theorem Unchanged.documents (h : Unchanged c c') : c'.documents = c.documents := by
  rw [WorkingCollection.documents, h.records, h.order]
  rfl

/-- A write that throws and changes nothing gives a true account. -/
theorem Tells.of_unchanged {result : WorkingCollection × Except NewtonError Written}
    {error : NewtonError} (he : result.2 = .error error) (h : Unchanged c result.1) :
    Tells name c result :=
  ⟨fun _ _ => h.documents, fun written hw => by rw [he] at hw; cases hw⟩

/-- A write that completes gives a true account when its change is the edit it made.  A write
that fails has no change, so there is nothing else to show. -/
theorem Tells.of_ok {result : WorkingCollection × Except NewtonError Written} {written : Written}
    {e : Edit JsonObject} (hok : result.2 = .ok written)
    (he : written.change.edit? = some (name, e))
    (happly : e.apply c.documents = some result.1.documents) : Tells name c result := by
  refine ⟨fun error herror => ?_, fun other hother => ?_⟩
  · rw [hok] at herror
    cases herror
  · obtain rfl := Except.ok.inj (hok.symm.trans hother)
    exact ⟨e, he, happly⟩

/-- No document is stored under two keys. -/
theorem Invariant.key_unique (h : c.Invariant) {key key' : JsString} {document : JsonObject}
    (hk : c.records.get key = some document) (hk' : c.records.get key' = some document) :
    key' = key := by
  obtain ⟨k, hdocument, hencoded⟩ := h.consistent.keyed key document hk
  obtain ⟨k', hdocument', hencoded'⟩ := h.consistent.keyed key' document hk'
  obtain rfl := Except.ok.inj (hdocument.symm.trans hdocument')
  exact Except.ok.inj (hencoded'.symm.trans hencoded)

/-- A key that has a document is in the order. -/
theorem Invariant.mem_order (h : c.Invariant) {key : JsString} {document : JsonObject}
    (hk : c.records.get key = some document) : key ∈ c.order :=
  (h.consistent.mem_order key).2 (by rw [hk]; rfl)

/-- A new document is added at the end.  Its key is new, so the order grows by it at the end. -/
theorem Put.append (h : c.Invariant) {key : JsString} {document : JsonObject}
    (hput : Put key document c c') (hk : c.records.get key = none) :
    (Edit.append document).apply c.documents = some c'.documents := by
  have hnot : key ∉ c.order := fun hm => by
    have := (h.consistent.mem_order key).1 hm
    rw [hk] at this
    cases this
  have happly : (Edit.append document).apply (c.order.filterMap c.records.get) = _ :=
    apply_append_keyed hnot
  rw [WorkingCollection.documents, happly, WorkingCollection.documents, hput.records, hput.order,
    hk]
  rfl

/-- A new version takes the place of the old one.  Keys are unique, so the edit finds the place
of this document and no other. -/
theorem Put.replace (h : c.Invariant) {key : JsString} {before document : JsonObject}
    (hput : Put key document c c') (hk : c.records.get key = some before) :
    (Edit.replace before document).apply c.documents = some c'.documents := by
  have happly : (Edit.replace before document).apply (c.order.filterMap c.records.get) = _ :=
    apply_replace_keyed h.consistent.nodup (h.mem_order hk) hk fun _ _ hk' => h.key_unique hk hk'
  rw [WorkingCollection.documents, happly, WorkingCollection.documents, hput.records, hput.order,
    hk]
  rfl

/-- A deleted document is removed. -/
theorem Dropped.remove (h : c.Invariant) {key : JsString} {before : JsonObject}
    (hdrop : Dropped key c c') (hk : c.records.get key = some before) :
    (Edit.remove before).apply c.documents = some c'.documents := by
  have happly : (Edit.remove before).apply (c.order.filterMap c.records.get) = _ :=
    apply_remove_keyed h.consistent.nodup (h.mem_order hk) hk fun _ _ hk' => h.key_unique hk hk'
  rw [WorkingCollection.documents, happly, WorkingCollection.documents, hdrop.records, hdrop.order]

/-- **An insert gives a true account of itself**: its change appends the document, or replaces
the one with the same key. -/
theorem tells_insert (h : c.Invariant) (name : JsString) (input : JsInput) (upsert : Bool)
    (generated : GeneratorOutcome) : Tells name c (c.insert name input upsert generated) := by
  rcases insert_spec h name input upsert generated with
    ⟨error, he, hu, -⟩ | ⟨p, -, -, -, -, hput, hok⟩
  · exact .of_unchanged he hu
  · cases hk : c.records.get p.encoded with
    | none =>
        rw [hk] at hok
        exact .of_ok hok rfl (hput.append h hk)
    | some before =>
        rw [hk] at hok
        exact .of_ok hok rfl (hput.replace h hk)

/-- **An update gives a true account of itself**: its change replaces the document.  The key
stays that of the document, so that its place in the order does too. -/
theorem tells_update (h : c.Invariant) (name : JsString) (primaryKey : PrimaryKey)
    (patch : JsInput) : Tells name c (c.update name primaryKey patch) := by
  rcases update_spec h name primaryKey patch with
    ⟨error, he, hu, -⟩ | ⟨key, before, after, -, hk, -, -, -, hput, hok⟩
  · exact .of_unchanged he hu
  · exact .of_ok hok rfl (hput.replace h hk)

/-- **A delete gives a true account of itself**: its change removes the document.  The change
holds the document that was there, which is what erases it. -/
theorem tells_delete (h : c.Invariant) (name : JsString) (primaryKey : PrimaryKey) :
    Tells name c (c.delete name primaryKey) := by
  rcases delete_spec h name primaryKey with
    ⟨error, he, hu, -⟩ | ⟨key, before, -, hk, -, hdrop, hok⟩
  · exact .of_unchanged he hu
  · exact .of_ok hok rfl (hdrop.remove h hk)

end WorkingCollection

/-! ### What a transaction recorded -/

namespace Transaction

variable {t t' : Transaction} {root next : Root} {now : ℕ} {name : JsString}

/-- **A working collection and its log**: it was cloned from a collection not older than
the base revision and not newer than the root, and the edits lead from that one to it. -/
def Traced (root : Root) (t : Transaction) (name : JsString) (edits : List (Edit JsonObject))
    (w : WorkingCollection) : Prop :=
  ∃ base cloned current, t.baseRevisions.get? name = some base ∧ base ≤ cloned.revision ∧
    root.collections.get? name = some current ∧ cloned.revision ≤ current.revision ∧
    (cloned.revision = current.revision → cloned = current) ∧
    run edits cloned.documents = some w.documents

/-- **What a transaction recorded is what it did**: its changes are edits of working
collections, and lead from the clones to them. -/
structure Logged (root : Root) (t : Transaction) : Prop where
  invariant : t.Invariant
  known : t.Known root
  log : ∃ log, t.changes.mapM Change.edit? = some log ∧
    (∀ e ∈ log, (t.working.get? e.1).isSome) ∧
    ∀ name w, t.working.get? name = some w → Traced root t name (editsOf name log) w

/-- A working collection stays traced while its base revision stays. -/
theorem Traced.mono {edits : List (Edit JsonObject)} {w : WorkingCollection}
    (h : Traced root t name edits w) (hb : ∀ base, t.baseRevisions.get? name = some base →
      t'.baseRevisions.get? name = some base) : Traced root t' name edits w := by
  obtain ⟨base, cloned, current, hbase, h⟩ := h
  exact ⟨base, cloned, current, hb base hbase, h⟩

/-- A new transaction has recorded nothing and done nothing. -/
theorem Logged.new (root : Root) (id : JsString) (createdAt : ℕ) (limits : TransactionLimits) :
    Logged root (.new id createdAt limits) where
  invariant := .new id createdAt limits
  known := known_new id createdAt limits
  log := ⟨[], rfl, fun _ he => (List.not_mem_nil he).elim, fun _ _ hw => by cases hw⟩

/-- What leaves the collections and the changes alone keeps the log.  The same log stands for
the same changes, and the base revisions are those of the collections it names. -/
theorem Logged.of_extends (h : Logged root t) (known : t'.Known root)
    (changes : t'.changes = t.changes) (working : t'.working = t.working)
    (base : ∀ name base, t.baseRevisions.get? name = some base →
      t'.baseRevisions.get? name = some base) : Logged root t' := by
  obtain ⟨log, hlog, hnamed, htraced⟩ := h.log
  refine ⟨h.invariant.of_working working, known, log, ?_, ?_, ?_⟩
  · rw [changes, hlog]
  · rw [working]
    exact hnamed
  · rw [working]
    exact fun name w hw => (htraced name w hw).mono (base name)

/-- **The log stays right when others commit.**  What was cloned from may be older than the
collection there is now, but it is the same one as long as the revision is. -/
theorem Logged.later (h : Logged root t) (hl : root.Later next) : Logged next t := by
  obtain ⟨log, hlog, hnamed, htraced⟩ := h.log
  refine ⟨h.invariant, h.known.later hl, log, hlog, hnamed, fun name w hw => ?_⟩
  obtain ⟨base, cloned, current, hbase, hle, hc, hcurrent, hsame, hrun⟩ := htraced name w hw
  obtain ⟨current', hc'⟩ := hl.exists_of hc
  have hlater := hl.revision_le name current current' hc hc'
  refine ⟨base, cloned, current', hbase, hle, hc', hcurrent.trans hlater, fun he => ?_, hrun⟩
  rw [hsame (by omega)]
  exact hl.eq_of_revision name current current' hc hc' (by omega)

/-- A rollback forgets what was recorded together with what was done.  A transaction that is
finished already is left as it is. -/
theorem Logged.rollback (h : Logged root t) : Logged root t.rollback := by
  unfold Transaction.rollback
  split_ifs
  · have hempty : ∀ name w,
        (OrderedMap.empty : OrderedMap JsString WorkingCollection).get? name ≠ some w :=
      fun _ _ hw => by cases hw
    exact ⟨fun name w hw => (hempty name w hw).elim,
      ⟨h.known.base_le, fun name w hw => (hempty name w hw).elim⟩, [], rfl,
      fun _ he => (List.not_mem_nil he).elim, fun name w hw => (hempty name w hw).elim⟩
  · exact h

/-- A sealed collection has the documents it had.  Sealing sets a flag, and documents are read
past it. -/
theorem Logged.sealWorking (h : Logged root t) : Logged root t.sealWorking := by
  have hworking : ∀ name w, t.sealWorking.working.get? name = some w →
      ∃ w', t.working.get? name = some w' ∧ w = { w' with isSealed := true } := by
    intro name w hw
    rw [Transaction.sealWorking, OrderedMap.get?_mapVals] at hw
    obtain ⟨w', hw', rfl⟩ := Option.map_eq_some_iff.1 hw
    exact ⟨w', hw', rfl⟩
  obtain ⟨log, hlog, hnamed, htraced⟩ := h.log
  refine ⟨All.sealWorking (P := fun _ w => w.Invariant) h.invariant fun _ _ hw => hw.seal,
    ⟨h.known.base_le, fun name w hw => ?_⟩, log, hlog, fun e he => ?_, fun name w hw => ?_⟩
  · obtain ⟨w', hw', -⟩ := hworking name w hw
    exact h.known.working_mem name w' hw'
  · rw [Transaction.sealWorking, OrderedMap.get?_mapVals, Option.isSome_map]
    exact hnamed e he
  · obtain ⟨w', hw', rfl⟩ := hworking name w hw
    exact htraced name w' hw'

/-- To touch a collection records nothing and does nothing. -/
theorem Logged.touchCollection (h : Logged root t) (now : ℕ) (name : JsString) :
    Logged root (t.touchCollection root now name).1 :=
  h.of_extends (touchCollection_known now name h.known)
    (touchCollection_spares t root now name).changes (touchCollection_working ..)
    (touchCollection_extends ..).base

/-- To count an operation records nothing and does nothing. -/
theorem Logged.recordOperation (h : Logged root t) (now : ℕ) :
    Logged root (t.recordOperation now).1 := by
  unfold Transaction.recordOperation
  split <;> exact h.of_extends ⟨h.known.base_le, h.known.working_mem⟩ rfl rfl fun _ _ hb => hb

/-- **A collection made writable** is the clone of the committed one, without edits.  It is
touched first, so that its base revision is that of the root. -/
theorem Logged.writable (hr : root.Invariant) (h : Logged root t) (now : ℕ) (name : JsString) :
    Logged root (t.writable root now name).1 := by
  have hinvariant := (All.writable (P := fun _ w => w.Invariant)
    (fun _ s hs => (hr _ s hs).clone) h.invariant now name).1
  have hknown := writable_known now name h.known
  unfold Transaction.writable at hinvariant hknown ⊢
  split
  · exact h
  · next ha =>
    simp only [ha] at hinvariant hknown
    cases hw : t.working.get? name with
    | some existing => exact h
    | none =>
        simp only [hw] at hinvariant hknown ⊢
        have htouch := h.touchCollection now name
        have hworking := touchCollection_working t root now name
        have hcases := touchCollection_cases t root now name
        generalize t.touchCollection root now name = r at hinvariant hknown htouch hworking hcases ⊢
        obtain ⟨t₁, r⟩ := r
        rcases hcases with ⟨error, he⟩ | ⟨stored, base, hc, he, hbase⟩
        · obtain ⟨rfl, rfl⟩ := Prod.mk.inj he
          exact h
        · obtain rfl : r = .ok stored := he
          dsimp only at hworking hbase htouch ⊢
          obtain ⟨log, hlog, hnamed, htraced⟩ := htouch.log
          have hhas : t₁.baseRevisions.get? name = some base := by
            rcases hbase with ⟨hb, he⟩ | ⟨-, -, he⟩
            · rw [he, hb]
            · rw [he]
              exact OrderedMap.get?_set_self ..
          have hle : base ≤ stored.revision := by
            obtain ⟨c, hc', hle⟩ := htouch.known.base_le name base hhas
            obtain rfl := Option.some.inj (hc.symm.trans hc')
            exact hle
          refine ⟨hinvariant, hknown, log, hlog, fun e he => ?_, fun n w hn => ?_⟩
          · rw [OrderedMap.get?_set]
            split_ifs
            · rfl
            · exact hnamed e he
          · dsimp only at hn
            rw [OrderedMap.get?_set] at hn
            split_ifs at hn with hne
            · subst hne
              obtain rfl := Option.some.inj hn
              have hnone : editsOf name log = [] := editsOf_eq_nil fun e he heq => by
                have := hnamed e he
                rw [heq, hworking, hw] at this
                cases this
              rw [hnone]
              have hclone : stored.clone.documents = stored.documents :=
                congrArg stored.order.filterMap (funext fun k => OverlayMap.get_new ..)
              exact ⟨base, stored, stored, hhas, hle, hc, le_rfl, fun _ => rfl, hclone ▸ rfl⟩
            · exact htraced n w hn

/-- **A write adds its edit to the log, if it completes.**  A write that throws leaves the
documents and records nothing, so that the log stays that of what was done. -/
theorem Logged.write (hr : root.Invariant) (h : Logged root t) (now : ℕ) (name : JsString)
    {body : WorkingCollection → WorkingCollection × Except NewtonError Written}
    (hinvariant : (t.write root now name body).1.Invariant)
    (hbody : ∀ w : WorkingCollection, w.Invariant → WorkingCollection.Tells name w (body w)) :
    Logged root (t.write root now name body).1 := by
  have hknown : (t.write root now name body).1.Known root := write_known h.known
  have hrecord := h.recordOperation now
  unfold Transaction.write at hinvariant hknown ⊢
  generalize t.recordOperation now = r at hinvariant hknown hrecord ⊢
  obtain ⟨t₁, r⟩ := r
  cases r with
  | error e => exact hrecord
  | ok _ =>
      dsimp only at hinvariant hknown hrecord ⊢
      have hwritable := hrecord.writable hr now name
      have hmem : ∀ w, (t₁.writable root now name).2 = .ok w →
          (t₁.writable root now name).1.working.get? name = some w := fun _ => get?_writable
      generalize t₁.writable root now name = r at hinvariant hknown hwritable hmem ⊢
      obtain ⟨t₂, r⟩ := r
      cases r with
      | error e => exact hwritable
      | ok w =>
          dsimp only at hinvariant hknown hwritable hmem ⊢
          obtain ⟨log, hlog, hnamed, htraced⟩ := hwritable.log
          have hw := hmem w rfl
          have htells := hbody w (hwritable.invariant name w hw)
          have hsome : ∀ n, (t₂.working.get? n).isSome →
              ((t₂.working.set name (body w).1).get? n).isSome := by
            intro n hn
            rw [OrderedMap.get?_set]
            split_ifs
            · rfl
            · exact hn
          cases hresult : (body w).2 with
          | error e =>
              simp only [hresult] at hinvariant hknown ⊢
              refine ⟨hinvariant, hknown, log, hlog, fun e he => hsome e.1 (hnamed e he),
                fun n w' hn => ?_⟩
              dsimp only at hn
              rw [OrderedMap.get?_set] at hn
              split_ifs at hn with hne
              · subst hne
                obtain rfl := Option.some.inj hn
                have htrace := htraced name w hw
                unfold Traced at htrace ⊢
                rwa [htells.thrown e hresult]
              · exact htraced n w' hn
          | ok written =>
              simp only [hresult] at hinvariant hknown ⊢
              obtain ⟨e, hedit, happly⟩ := htells.told written hresult
              refine ⟨hinvariant, hknown, log ++ [(name, e)], ?_, fun e' he' => ?_,
                fun n w' hn => ?_⟩
              · rw [List.mapM_append, hlog, List.mapM_cons, hedit]
                rfl
              · rcases List.mem_append.1 he' with he' | he'
                · exact hsome e'.1 (hnamed e' he')
                · rw [List.mem_singleton.1 he']
                  exact hsome name (by rw [hw]; rfl)
              · dsimp only at hn
                rw [OrderedMap.get?_set] at hn
                rw [editsOf_append]
                split_ifs at hn with hne
                · subst hne
                  obtain rfl := Option.some.inj hn
                  rw [editsOf_singleton_self]
                  obtain ⟨base, cloned, current, hb, hle, hc, hlt, hsame, hrun⟩ := htraced name w hw
                  exact ⟨base, cloned, current, hb, hle, hc, hlt, hsame, run_concat hrun happly⟩
                · rw [editsOf_singleton_ne hne, List.append_nil]
                  exact htraced n w' hn

/-- **Every call keeps the log right.**  Reads record nothing; the writes are those of a
collection. -/
theorem Logged.call (hr : root.Invariant) (h : Logged root t) (now : ℕ) (c : TransactionCall) :
    Logged root (t.call root now c).1 := by
  have hinvariant : (t.call root now c).1.Invariant := h.invariant.call hr c
  cases c with
  | collection name => exact h
  | get name key =>
      rw [Transaction.call, read_fst]
      exact h.touchCollection now name
  | find name condition =>
      rw [Transaction.call, query_fst]
      exact h.touchCollection now name
  | insert name document generated =>
      exact h.write hr now name hinvariant fun w hw =>
        WorkingCollection.tells_insert hw name document false generated
  | upsert name document generated =>
      exact h.write hr now name hinvariant fun w hw =>
        WorkingCollection.tells_insert hw name document true generated
  | update name key patch =>
      exact h.write hr now name hinvariant fun w hw =>
        WorkingCollection.tells_update hw name key patch
  | delete name key =>
      exact h.write hr now name hinvariant fun w hw => WorkingCollection.tells_delete hw name key

/-! ### The commit -/

variable {options : CommitOptions} {committed : Committed} {batch : ChangeBatch}

/-- A published collection has the documents of the working one.  A collection without a working
one keeps the documents that are committed. -/
theorem documents_publishAll (h : t.Invariant) (revision : ℕ) (name : JsString) :
    Root.documents { collections := publishAll root.collections revision t.working, revision }
      name = (t.working.get? name).elim (root.documents name) WorkingCollection.documents := by
  rw [Root.documents, get?_publishAll]
  cases hw : t.working.get? name with
  | none => rfl
  | some w =>
      have hr : (w.publish revision).records.get = w.records.get :=
        funext fun k => OverlayMap.get_sealed (h name w hw).records_wf k
      exact congrArg w.order.filterMap hr

/-- **The changes of a commit, made again on the documents of the root, give those of the
root it publishes.** -/
theorem Logged.replayChanges_commit (h : Logged root t)
    (hc : root.commit options t = .ok committed) (hb : committed.batch = some batch)
    (hdocuments : options.includeDocuments) :
    replayChanges batch.changes root.documents = some committed.root.documents := by
  obtain ⟨hbase, hroot⟩ := Root.commit_ok hc
  obtain ⟨log, hlog, hnamed, htraced⟩ := h.log
  obtain ⟨hchanges, hpublished⟩ := commit_published hc hb
  rw [hchanges, hdocuments, map_published]
  refine replayChanges_eq_some_iff.2 ⟨log, hlog, replay_eq_some_iff.2 fun name => ?_⟩
  rw [hpublished, documents_publishAll h.invariant]
  cases hw : t.working.get? name with
  | none =>
      have hnone : editsOf name log = [] := editsOf_eq_nil fun e he heq => by
        have := hnamed e he
        rw [heq, hw] at this
        cases this
      rw [hnone]
      rfl
  | some w =>
      obtain ⟨base, cloned, current, hbase', hle, hcurrent, hle', hsame, hrun⟩ := htraced name w hw
      obtain ⟨current', hcurrent', hrevision⟩ := hbase name base hbase'
      obtain rfl := Option.some.inj (hcurrent.symm.trans hcurrent')
      -- the base revision is current, so the clone is of the committed collection
      obtain rfl := hsame (by omega)
      rw [Root.documents, hcurrent]
      exact hrun

end Transaction

end NewtonDB
