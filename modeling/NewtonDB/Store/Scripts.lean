/-
# Seeds, commits and scripts

The simulation from end to end: the constructor accepts exactly the seeds of the
store and builds a root that represents it; a commit publishes a root that
represents the store its transaction reached; and so any sequence of scripts has
the same outcomes on the engine as on the store, with roots that represent the
stores in between and pass the internal check.
-/

import NewtonDB.Store.Simulation
import NewtonDB.Engine.TransactionInvariant

namespace NewtonDB

/-! ### Commits -/

/-- Collections at the revisions they were touched at are no conflicts.  By induction on the
list; each of them is found and compared equal. -/
theorem conflictsOf_eq_nil {root : Root} : ∀ {l : List (JsString × ℕ)},
    (∀ e ∈ l, ∃ c, root.collections.get? e.1 = some c ∧ c.revision = e.2) →
      conflictsOf root l = .ok []
  | [], _ => rfl
  | e :: l, h => by
      obtain ⟨c, hc, he⟩ := h e (List.mem_cons_self ..)
      have ih := conflictsOf_eq_nil fun e' he' => h e' (List.mem_cons_of_mem _ he')
      simp [conflictsOf, Root.stored_eq_ok.2 hc, ih, he, bind, Except.bind, pure, Except.pure]

/-- Every collection of a root that represents a store has its invariant. -/
theorem Root.Represents.invariant {root : Root} {store : Store} (h : root.Represents store) :
    root.Invariant := by
  intro name s hs
  have hm : name ∈ store.keys := by
    rw [← h.keys, OrderedMap.mem_keys_iff, hs]; rfl
  obtain ⟨c, hc⟩ := Option.isSome_iff_exists.1 (OrderedMap.mem_keys_iff.1 hm)
  exact (h.collection name s c hs hc).invariant

namespace Simulates

variable {limits : TransactionLimits} {root : Root} {store : Store} {t : Transaction}
  {st : StoreTransaction}

/-- The published root represents the store the transaction reached.  The collections it wrote
to are published, and the others are those of the root. -/
theorem represents_publish (h : Simulates limits root store t st) (hr : root.Represents store) :
    Root.Represents { collections := publishAll root.collections (root.revision + 1) t.working,
                      revision := root.revision + 1 } st.store where
  keys := by
    rw [h.keys, ← hr.keys]
    refine OrderedMap.keys_foldl_set_of_mem
      (fun w : WorkingCollection => w.publish (root.revision + 1)) fun e he => ?_
    have hw : t.working.get? e.1 = some e.2 := OrderedMap.get?_eq_some_iff.2 he
    obtain ⟨-, c, hc, -⟩ := h.dirty e.1 e.2 hw
    rw [hr.keys, ← h.keys, OrderedMap.mem_keys_iff, hc]
    rfl
  collection name s c hs hc := by
    rw [get?_publishAll] at hs
    cases hw : t.working.get? name with
    | some w =>
        rw [hw] at hs
        obtain rfl := Option.some.inj hs
        obtain ⟨-, c', hc', hrep⟩ := h.dirty name w hw
        obtain rfl := Option.some.inj (hc.symm.trans hc')
        exact hrep.publish _
    | none =>
        rw [hw] at hs
        exact hr.collection name s c hs ((h.clean name hw).symm.trans hc)

/-- **A commit succeeds exactly while the transaction is not too old**, and then the
root represents the store the transaction reached. -/
theorem commit (h : Simulates limits root store t st) (hr : root.Represents store)
    (options : CommitOptions) (now : ℕ) :
    (∃ error, (t.commit now (root.commit options)).2 = .error error ∧
      st.alive limits now = false) ∨
    (∃ committed, (t.commit now (root.commit options)).2 = .ok committed ∧
      st.alive limits now = true ∧ committed.root.Represents st.store) := by
  unfold Transaction.commit
  rw [h.assertActive]
  cases ha : st.alive limits now with
  | false =>
      obtain ⟨e, he⟩ := h.assertWithinLimits_error ha
      rw [he]
      exact .inl ⟨e, rfl, rfl⟩
  | true =>
      have hconf : conflictsOf root t.baseRevisions.entries = .ok [] :=
        conflictsOf_eq_nil fun e he =>
          h.valid.base_eq e.1 e.2 (OrderedMap.get?_eq_some_iff.2 he)
      rw [h.assertWithinLimits_ok ha]
      unfold Root.commit
      rw [hconf]
      simp only [bind, Except.bind]
      by_cases hch : t.changes = []
      · rw [if_pos hch]
        -- nothing was written, so the store is the one of the root
        have hnone : ∀ name, t.working.get? name = none := fun name => by
          rw [OrderedMap.get?_eq_none_iff, h.changed hch]
          exact List.not_mem_nil
        refine .inr ⟨_, rfl, trivial, hr.keys.trans h.keys.symm, fun name s c hs hc => ?_⟩
        exact hr.collection name s c hs ((h.clean name (hnone name)).symm.trans hc)
      · rw [if_neg hch]
        have hrep := h.represents_publish hr
        have hverify : (if options.verifyInvariants then
            verifyCollections (publishAll root.collections (root.revision + 1) t.working)
            else .ok ()) = .ok () := by
          cases options.verifyInvariants with
          | true => exact hrep.invariant.verify_ok
          | false => rfl
        unfold Root.publish
        simp only [hverify]
        exact .inr ⟨_, rfl, trivial, hrep⟩

/-- **The calls of a script go the same way on both sides.**  By induction on the script: a call
that fails on one side fails on both, and the script ends there. -/
theorem calls (hr : root.Represents store) : ∀ (script : List (ℕ × TransactionCall))
    {t : Transaction} {st : StoreTransaction}, Simulates limits root store t st →
      (t.calls root script).1 = (st.calls limits script).1 ∧
        (((t.calls root script).2 = none ∧ (st.calls limits script).2 = none) ∨
          ∃ t' st', (t.calls root script).2 = some t' ∧ (st.calls limits script).2 = some st' ∧
            Simulates limits root store t' st')
  | [], t, st, h => ⟨rfl, .inr ⟨t, st, rfl, rfl, h⟩⟩
  | (now, c) :: rest, t, st, h => by
      unfold Transaction.calls StoreTransaction.calls
      rcases h.call hr now c with ⟨e, he, hn⟩ | ⟨result, st', hok, hst, hsim⟩
      · generalize t.call root now c = r at he
        obtain ⟨t', r⟩ := r
        obtain rfl : r = .error e := he
        rw [hn]
        exact ⟨rfl, .inl ⟨rfl, rfl⟩⟩
      · generalize t.call root now c = r at hok hsim
        obtain ⟨t', r⟩ := r
        obtain rfl : r = .ok result := hok
        rw [hst]
        obtain ⟨hres, hrest⟩ := calls hr rest hsim
        exact ⟨congrArg (result :: ·) hres, hrest⟩

end Simulates

/-- **A script has the same outcome on both sides**, and leaves a root that
represents the store. -/
theorem Root.Represents.runScript {root : Root} {store : Store} (h : root.Represents store)
    (limits : TransactionLimits) (options : CommitOptions) (script : TransactionScript) :
    (root.runScript limits options script).2 = (store.runScript limits script).2 ∧
      (root.runScript limits options script).1.Represents (store.runScript limits script).1 := by
  have hsim := Simulates.start limits root store script.id script.begun
  obtain ⟨hres, hcalls⟩ := Simulates.calls h script.calls hsim
  unfold Root.runScript Store.runScript
  dsimp only
  generalize (Transaction.new script.id script.begun limits).calls root script.calls = r
    at hres hcalls ⊢
  generalize StoreTransaction.calls limits _ script.calls = q at hres hcalls ⊢
  obtain ⟨results, r⟩ := r
  obtain ⟨results', q⟩ := q
  obtain rfl : results = results' := hres
  rcases hcalls with ⟨rfl, rfl⟩ | ⟨t, st, rfl, rfl, hsim'⟩
  · exact ⟨rfl, h⟩
  · dsimp only
    rcases hsim'.commit h options script.committed with
      ⟨e, he, ha⟩ | ⟨committed, hok, ha, hrep⟩
    · rw [he, ha]
      exact ⟨rfl, h⟩
    · rw [hok, ha]
      exact ⟨rfl, hrep⟩

/-! ### Seeds -/

section

variable {σ : Type} [DecidableEq σ]

/-- A collection under construction represents a collection of the store. -/
structure CollectionBuilder.Represents (b : CollectionBuilder) (c : StoreCollection) : Prop where
  invariant : b.Invariant c.schema
  definitions : definitions b.indexes = c.schema.indexes.map fun d => (d.name, d)
  models : Models b.order b.records.get? c.documents

/-- What is built represents what the builder did.  The revision is no part of what the store
knows. -/
theorem CollectionBuilder.Represents.build {b : CollectionBuilder} {c : StoreCollection}
    (h : b.Represents c) (revision : ℕ) : (b.build c.schema revision).Represents c where
  invariant := h.invariant.build revision
  schema := rfl
  definitions := by
    rw [← h.definitions]
    exact definitions_mapVals fun _ _ => rfl
  models := h.models

/-- A document of a seed of the store, with what the engine validates.  Its own check of
validity decides what `validateDocument` returns. -/
theorem StoreCollection.addSeed_eq (c : StoreCollection) (graph : JsGraph σ) (name : JsString)
    (input : σ) : c.addSeed graph input =
      ((validateDocument name graph input c.schema).toOption >>= fun document =>
        keyOf c.schema document >>= fun key =>
          if c.documents.has key then none
          else if c.accepts key document then some (c.put key document)
          else none) := by
  have hvalid : (graph.document? input).filter c.schema.isValid =
      (validateDocument name graph input c.schema).toOption := by
    refine Option.ext fun d => ?_
    rw [Option.filter_eq_some_iff, ← validateDocument_eq_ok_iff]
    exact ⟨fun h => by rw [h]; rfl, eq_ok_of_toOption⟩
  unfold StoreCollection.addSeed
  rw [hvalid]

/-- **A document of a seed goes the same way on both sides.**  It is validated, and must be
accepted by the indexes and be under a new key. -/
theorem CollectionBuilder.Represents.add {b : CollectionBuilder} {c : StoreCollection}
    (h : b.Represents c) (graph : JsGraph σ) (name : JsString) (input : σ) :
    (∃ error, b.add graph name c.schema input = .error error ∧ c.addSeed graph input = none) ∨
    (∃ b' c', b.add graph name c.schema input = .ok b' ∧ c.addSeed graph input = some c' ∧
      b'.Represents c' ∧ c'.schema = c.schema) := by
  have hadmits : ∀ (key : Key) (document : JsonObject), b.records.get? key.encode = none →
      (AdmitsAll b.records.get? (NewtonDB.definitions b.indexes) document ↔
        c.accepts key document = true) := by
    intro key document hfree
    have := admitsAll_iff_accepts h.models h.invariant.mem_order key document
    rwa [← hfree, Function.update_eq_self, ← h.definitions] at this
  rcases CollectionBuilder.add_spec h.invariant input with
    ⟨error, herr, hwhy⟩ | ⟨document, k, text, b', hv, hk, henc, hfree, hadm, hok, hinv, horder,
      hrec, hdef⟩
  · refine .inl ⟨error, herr, ?_⟩
    rw [StoreCollection.addSeed_eq c graph name]
    cases hv : validateDocument name graph input c.schema with
    | error e => rfl
    | ok document =>
        obtain ⟨k, hk⟩ := documentKey_of_validateDocument hv
        obtain ⟨text, henc⟩ := encodeKey_of_documentKey hk
        obtain ⟨key, hkey, rfl⟩ := encodeKey_eq_ok_iff.1 henc
        simp only [Except.toOption, bind, Option.bind, keyOf_of_documentKey hk, hkey]
        split_ifs with hhas hacc
        · rfl
        · have hfree : b.records.get? key.encode = none := by
            rw [h.models.content]
            exact Option.not_isSome_iff_eq_none.1 hhas
          rcases hwhy document k _ hv hk henc with hs | hn
          · rw [hfree] at hs
            cases hs
          · exact absurd ((hadmits key document hfree).2 hacc) hn
        · rfl
  · obtain ⟨key, hkey, rfl⟩ := encodeKey_eq_ok_iff.1 henc
    refine .inr ⟨b', c.put key document, hok, ?_, ⟨hinv, hdef.trans h.definitions, ?_⟩, rfl⟩
    · have hhas : ¬(c.documents.has key = true) := by
        rw [OrderedMap.has, ← h.models.content, hfree]
        exact Bool.false_ne_true
      rw [StoreCollection.addSeed_eq c graph name, hv]
      simp only [Except.toOption, bind, Option.bind, keyOf_of_documentKey hk, hkey]
      rw [if_neg hhas, if_pos ((hadmits key document hfree).1 hadm)]
    · have hput := h.models.put key document
      rw [hfree] at hput
      rw [horder, hrec]
      exact hput

/-- The documents of a seed go the same way on both sides.  They stop at the same document, if
they stop at all. -/
theorem CollectionBuilder.Represents.addAll (graph : JsGraph σ) (name : JsString) :
    ∀ (documents : List σ) {b : CollectionBuilder} {c : StoreCollection}, b.Represents c →
      (∃ error, documents.foldlM (CollectionBuilder.add graph name c.schema) b = .error error ∧
        documents.foldlM (StoreCollection.addSeed graph) c = none) ∨
      (∃ b' c', documents.foldlM (CollectionBuilder.add graph name c.schema) b = .ok b' ∧
        documents.foldlM (StoreCollection.addSeed graph) c = some c' ∧
        b'.Represents c' ∧ c'.schema = c.schema)
  | [], b, c, h => .inr ⟨b, c, rfl, rfl, h, rfl⟩
  | input :: rest, b, c, h => by
      rw [List.foldlM_cons, List.foldlM_cons]
      rcases h.add graph name input with ⟨e, he, hn⟩ | ⟨b', c', hok, hst, hrep, hschema⟩
      · rw [he, hn]
        exact .inl ⟨e, rfl, rfl⟩
      · rw [hok, hst]
        have := CollectionBuilder.Represents.addAll graph name rest hrep
        rw [hschema] at this
        exact this

/-- **A collection of a seed goes the same way on both sides.**  By induction on the documents,
from empty collections. -/
theorem createStoredCollection_represents (graph : JsGraph σ) (name : JsString) (documents : List σ)
    (schema : CollectionSchema) (revision : ℕ) :
    (∃ error, createStoredCollection graph name documents schema revision = .error error ∧
      ((createIndexes name schema).toOption = none ∨
        documents.foldlM (StoreCollection.addSeed graph) ⟨schema, .empty⟩ = none)) ∨
    (∃ s c, createStoredCollection graph name documents schema revision = .ok s ∧
      (createIndexes name schema).toOption.isSome ∧
      documents.foldlM (StoreCollection.addSeed graph) ⟨schema, .empty⟩ = some c ∧
      s.Represents c) := by
  unfold createStoredCollection
  cases hi : createIndexes name schema with
  | error e => exact .inl ⟨e, rfl, .inl rfl⟩
  | ok indexes =>
      have hfresh := createIndexes_ok hi
      have hstart : CollectionBuilder.Represents
          { indexes, order := [], positions := .empty, records := .empty }
          ⟨schema, .empty⟩ :=
        ⟨CollectionBuilder.invariant_start hfresh, hfresh.definitions, rfl, fun _ => rfl⟩
      rcases CollectionBuilder.Represents.addAll graph name documents hstart with
        ⟨e, he, hn⟩ | ⟨b', c', hok, hst, hrep, hschema⟩
      · refine .inl ⟨e, ?_, .inr hn⟩
        simp only [bind, Except.bind, he]
      · refine .inr ⟨b'.build schema revision, c', ?_, rfl, hst, ?_⟩
        · simp only [bind, Except.bind, hok]
          rfl
        · have hbuild := hrep.build revision
          rwa [hschema] at hbuild

/-- One more collection on both sides.  A name that is there is replaced at its place, on both
sides. -/
theorem Root.Represents.set {collections : OrderedMap JsString StoredCollection} {store : Store}
    {revision : ℕ} (h : Root.Represents { collections, revision } store) (name : JsString)
    {s : StoredCollection} {c : StoreCollection} (hrep : s.Represents c) :
    Root.Represents { collections := collections.set name s, revision } (store.set name c) where
  keys := by
    have hk : collections.keys = store.keys := h.keys
    show (collections.set name s).keys = (store.set name c).keys
    rw [OrderedMap.keys_set, OrderedMap.keys_set, hk]
  collection n s' c' hs hc := by
    change (collections.set name s).get? n = some s' at hs
    rw [OrderedMap.get?_set] at hs hc
    split_ifs at hs hc
    · obtain rfl := Option.some.inj hs
      obtain rfl := Option.some.inj hc
      exact hrep
    · exact h.collection n s' c' hs hc

/-- The collections of a seed go the same way on both sides.  By induction on the seed, with
what was created so far on both sides. -/
theorem seed_represents (graph : JsGraph σ) (schemas : List (JsString × CollectionSchema))
    {revision : ℕ} : ∀ (seed : List (JsString × List σ))
      {collections : OrderedMap JsString StoredCollection} {store : Store}, Root.Represents { collections, revision } store →
        (∃ error, seed.foldlM (seedCollection graph schemas revision) collections = .error error ∧
          seed.foldlM (Store.addSeed graph schemas) store = none) ∨
        (∃ collections' store',
          seed.foldlM (seedCollection graph schemas revision) collections = .ok collections' ∧
          seed.foldlM (Store.addSeed graph schemas) store = some store' ∧
          Root.Represents { collections := collections', revision } store')
  | [], collections, store, h => .inr ⟨collections, store, rfl, rfl, h⟩
  | (name, documents) :: rest, collections, store, h => by
      rw [List.foldlM_cons, List.foldlM_cons]
      unfold seedCollection Store.addSeed
      cases hs : Assoc.get? schemas name with
      | none => exact .inl ⟨_, rfl, rfl⟩
      | some schema =>
          simp only [bind, Option.bind, Except.bind]
          cases hl : resolvedLimits schema with
          | error e => exact .inl ⟨e, rfl, rfl⟩
          | ok _ =>
              simp only [Except.toOption]
              rcases createStoredCollection_represents graph name documents schema
                  revision with ⟨e, he, hn⟩ | ⟨s, c, hok, hidx, hst, hrep⟩
              · refine .inl ⟨e, by rw [he], ?_⟩
                rcases hn with hn | hn
                · cases hi : createIndexes name schema with
                  | error _ => rfl
                  | ok _ => rw [hi] at hn; cases hn
                · cases createIndexes name schema with
                  | error _ => rfl
                  | ok _ => rw [hn]
              · cases hi : createIndexes name schema with
                | error _ => rw [hi] at hidx; cases hidx
                | ok _ =>
                    rw [hok, hst]
                    exact seed_represents graph schemas rest (h.set name hrep)

/-- **The constructor accepts exactly the seeds of the store**, and builds a root that
represents it. -/
theorem createRoot_represents (graph : JsGraph σ) (seed : List (JsString × List σ))
    (schemas : List (JsString × CollectionSchema)) (revision : ℕ) :
    (∃ error, createRoot graph seed schemas revision = .error error ∧
      Store.ofSeed graph seed schemas = none) ∨
    (∃ root store, createRoot graph seed schemas revision = .ok root ∧
      Store.ofSeed graph seed schemas = some store ∧ root.Represents store) := by
  have hempty : Root.Represents { collections := .empty, revision } (.empty : Store) :=
    ⟨rfl, fun _ _ _ h => by cases h⟩
  unfold createRoot Store.ofSeed
  rcases seed_represents graph schemas seed hempty with
    ⟨e, he, hn⟩ | ⟨collections, store, hok, hst, hrep⟩
  · rw [he, hn]
    exact .inl ⟨e, rfl, rfl⟩
  · rw [hok, hst]
    simp only [bind, Option.bind, Except.bind]
    have hnames : (schemas.map Prod.fst).forM (checkSchemaNames seed) = .ok () ↔
        ((schemas.map Prod.fst).all fun name => hasOwn seed name) = true := by
      rw [forM_eq_ok, List.all_eq_true]
      refine forall₂_congr fun name _ => ?_
      unfold checkSchemaNames
      split_ifs with hh
      · exact ⟨fun _ => hh, fun _ => rfl⟩
      · exact ⟨False.elim, fun hc => absurd hc hh⟩
    cases hc : (schemas.map Prod.fst).forM (checkSchemaNames seed) with
    | error e =>
        rw [hc] at hnames
        rw [if_neg fun hall => by cases hnames.2 hall]
        exact .inl ⟨e, rfl, rfl⟩
    | ok _ =>
        rw [hc] at hnames
        have hverify := hrep.invariant.verify_ok
        rw [if_pos (hnames.1 rfl), hverify]
        exact .inr ⟨_, store, rfl, rfl, hrep⟩

/-- The first root has its invariant, and the revision it was built with.  That it has the
invariant is part of what it means to represent a store. -/
theorem createRoot_invariant {graph : JsGraph σ} {seed : List (JsString × List σ)}
    {schemas : List (JsString × CollectionSchema)} {revision : ℕ} {root : Root}
    (h : createRoot graph seed schemas revision = .ok root) :
    root.Invariant ∧ root.revision = revision := by
  refine ⟨?_, ?_⟩
  · rcases createRoot_represents graph seed schemas revision with
      ⟨error, he, -⟩ | ⟨root', store, hok, -, hrep⟩
    · rw [he] at h
      cases h
    · rw [hok] at h
      obtain rfl := Except.ok.inj h
      exact hrep.invariant
  · obtain ⟨collections, -, h⟩ := bind_eq_ok.1 h
    obtain ⟨-, -, h⟩ := bind_eq_ok.1 h
    obtain ⟨-, -, h⟩ := bind_eq_ok.1 h
    rw [← Except.ok.inj h]

/-- **The engine refines the store.**  For every seed and every schema the
constructor and the store accept or refuse together.  From there every sequence of
scripts has the same outcomes on both sides: each script shows the same results up
to the same refusal and commits on both sides or on neither.  After each script the
root represents the store, with its documents in order, and passes the internal
check. -/
theorem engine_refines_store (graph : JsGraph σ) (seed : List (JsString × List σ))
    (schemas : List (JsString × CollectionSchema)) (revision : ℕ) (limits : TransactionLimits)
    (options : CommitOptions) (scripts : List TransactionScript) :
    (∃ error, createRoot graph seed schemas revision = .error error ∧
      Store.ofSeed graph seed schemas = none) ∨
    (∃ root store, createRoot graph seed schemas revision = .ok root ∧
      Store.ofSeed graph seed schemas = some store ∧ root.Represents store ∧
      List.Forall₂ (fun engine abstract => engine.2 = abstract.2 ∧
          engine.1.Represents abstract.1 ∧
          verifyCollections engine.1.collections = .ok () ∧
          ∀ name s c, engine.1.collections.get? name = some s →
            abstract.1.get? name = some c → s.documents = c.documents.values)
        (root.runScripts limits options scripts) (store.runScripts limits scripts)) := by
  rcases createRoot_represents graph seed schemas revision with
    h | ⟨root, store, hok, hst, hrep⟩
  · exact .inl h
  · refine .inr ⟨root, store, hok, hst, hrep, ?_⟩
    clear hok hst
    induction scripts generalizing root store with
    | nil => exact .nil
    | cons script rest ih =>
        obtain ⟨hout, hnext⟩ := hrep.runScript limits options script
        refine .cons ⟨hout, hnext, hnext.invariant.verify_ok, fun name s c hs hc => ?_⟩ (ih _ _ hnext)
        exact (hnext.collection name s c hs hc).documents_eq

end

/-- **A transaction has limits of its own**: the second insert of a transaction with one
operation is refused by the engine, though the collections accept both.  The first insert is all
that was allowed. -/
theorem second_insert_over_maxOperations :
    let schema : CollectionSchema :=
      { generatePrimaryKey := none, indexes := [], primaryKey := js "id", validate := none,
        limits := .none }
    let items := js "items"
    let document (id : String) := JsInput.plain [(js "id", .string (js id))]
    let script : TransactionScript :=
      { id := js "t", begun := 0, committed := 0,
        calls := [(0, .insert items (document "a") .other),
          (0, .insert items (document "b") .other)] }
    let inserted := do
      let (_, c) ← StoreCollection.insert ⟨schema, .empty⟩ (document "a") false .other
      c.insert (document "b") false .other
    let limits := { defaultTransactionLimits with maxOperations := 1 }
    inserted.map (·.1) = some (.string (js "b")) ∧
      (createRoot Json.graph [(items, [])] [(items, schema)] 0).toOption.map
        (fun root => (root.runScript limits ⟨js "db", false, true⟩ script).2) =
          some { results := [.key (.string (js "a"))], committed := false } :=
  ⟨by decide +kernel, by decide +kernel⟩

end NewtonDB
