/-
# Roots built again of their snapshots

A snapshot has the documents of every collection of a root, in order and under the name of
the collection.  Where all documents are valid and every schema has its collection, the
constructor takes a snapshot as its seed and builds the root again
(`Root.Rebuildable.exists_rebuilt`).  A commit keeps what that takes
(`Root.Rebuildable.commit`), and a root that was built again answers every query as it did
(`Root.Rebuilt.query_eq`).
-/

import NewtonDB.Catalogs
import NewtonDB.Engine.QueryPlans
import NewtonDB.Store.Rebuild

namespace NewtonDB

/-! ### What a snapshot has -/

/-- **A snapshot of a root** has its collections in the order of property keys, and under
each name the documents in order. -/
theorem Root.Invariant.snapshot_get? {root : Root} (h : root.Invariant)
    {collections : SnapshotCollections}
    (hc : cloneSnapshotCollections root.collections = some collections) :
    PropertyOrder (collections.map Prod.fst) ∧ ∀ name,
      Assoc.get? collections name = (root.collections.get? name).map StoredCollection.documents := by
  have hfold : ∀ (l : List (JsString × StoredCollection)) (output : SnapshotCollections),
      (∀ e ∈ l, e.2.Invariant) → l.foldlM (fun output entry => do
        let documents ← snapshotDocuments entry.2
        return defineProperty output entry.1 documents) output =
          some (l.foldl (fun output e => defineProperty output e.1 e.2.documents) output) := by
    intro l
    induction l with
    | nil => exact fun output _ => rfl
    | cons e l ih =>
        intro output he
        rw [List.foldlM_cons, (he e (List.mem_cons_self ..)).snapshotDocuments_eq]
        exact ih _ fun e' he' => he e' (List.mem_cons_of_mem _ he')
  have hentries := hfold root.collections.entries [] fun e he =>
    h e.1 e.2 (OrderedMap.get?_eq_some_iff.2 he)
  obtain rfl := Option.some.inj (hc.symm.trans hentries)
  have hnone : PropertyOrder (([] : SnapshotCollections).map Prod.fst) := propertyOrder_nil
  refine ⟨PropertyOrder.foldl Prod.fst
    (fun e : JsString × StoredCollection => e.2.documents) hnone, fun name => ?_⟩
  have hnodup : ((root.collections.entries.map (Prod.map id StoredCollection.documents)).map
      Prod.fst).Nodup := by
    rw [List.map_map]
    exact root.collections.keys_nodup
  have hget := @get?_foldl_defineProperty _ name _ [] hnodup
  rw [List.foldl_map, get?_map, Assoc.get?, Option.or_none] at hget
  exact hget

/-- A property is there under its name. -/
theorem hasOwn_iff {α : Type*} {props : List (JsString × α)} {name : JsString} :
    hasOwn props name ↔ name ∈ props.map Prod.fst := by
  rw [hasOwn, Option.isSome_iff_ne_none, Ne, Assoc.get?_eq_none_iff, not_not]

/-! ### What can be built again -/

/-- A schema that collections can be created with. -/
structure CollectionSchema.Creates (schema : CollectionSchema) (name : JsString) : Prop where
  limits : (resolvedLimits schema).isOk = true
  indexes : (createIndexes name schema).isOk = true

/-- Schemas under distinct names that collections can be created with. -/
structure SchemasCreate (schemas : List (JsString × CollectionSchema)) : Prop where
  nodup : (schemas.map Prod.fst).Nodup
  creates : ∀ e ∈ schemas, e.2.Creates e.1

/-- A root with valid documents and a collection for every schema. -/
structure Root.Rebuildable (schemas : List (JsString × CollectionSchema)) (root : Root) :
    Prop where
  invariant : root.Invariant
  declares : root.Declares schemas
  records : root.Records IsValid
  complete : ∀ e ∈ schemas, (root.collections.get? e.1).isSome

/-- A root built again: the same collections, built again. -/
def Root.Rebuilt (root root' : Root) : Prop := ∀ name,
  Option.Rel StoredCollection.Rebuilt (root.collections.get? name) (root'.collections.get? name)

variable {schemas : List (JsString × CollectionSchema)} {root : Root}

/-- **A commit keeps what it takes to build the root again.**  Documents stay valid, schemas
stay those of the database, and no collection goes. -/
theorem Root.Rebuildable.commit {t : Transaction} {options : CommitOptions}
    {committed : Committed} (h : root.Rebuildable schemas)
    (hdeclared : t.All (WorkingCollection.Declared schemas))
    (hrecords : t.All (WorkingCollection.Records IsValid))
    (hc : root.commit options t = .ok committed) : committed.root.Rebuildable schemas := by
  refine ⟨h.invariant.commit (fun name w hw => (hdeclared name w hw).1) hc,
    h.declares.commit hdeclared hc, h.records.commit hrecords hc, fun e he => ?_⟩
  obtain ⟨-, heq | heq⟩ := commit_ok hc
  · rw [heq]
    exact h.complete e he
  · rw [heq]
    show ((publishAll root.collections _ t.working).get? e.1).isSome
    rw [get?_publishAll, Option.isSome_or, h.complete e he, Bool.or_true]

/-! ### The first root -/

section

variable {σ : Type} [DecidableEq σ] {graph : JsGraph σ} {seed : List (JsString × List σ)}
  {revision : ℕ}

/-- **Every entry of a seed** got its collection.  By induction on the seed; what was created
before stays. -/
theorem seeded : ∀ {seed : List (JsString × List σ)}
    {start collections : OrderedMap JsString StoredCollection},
    seed.foldlM (seedCollection graph schemas revision) start = .ok collections →
      (∀ name, (start.get? name).isSome → (collections.get? name).isSome) ∧
      ∀ e ∈ seed, (collections.get? e.1).isSome ∧
        ∀ schema, Assoc.get? schemas e.1 = some schema → schema.Creates e.1 := by
  intro seed
  induction seed with
  | nil =>
      intro start collections h
      rw [← Except.ok.inj h]
      exact ⟨fun _ hs => hs, fun e he => by cases he⟩
  | cons entry seed ih =>
      intro start collections h
      rw [List.foldlM_cons] at h
      obtain ⟨next, hn, h⟩ := bind_eq_ok.1 h
      obtain ⟨hkept, hrest⟩ := ih h
      unfold seedCollection at hn
      split at hn
      · cases hn
      · next schema hschema =>
          obtain ⟨limits, hlimits, hn⟩ := bind_eq_ok.1 hn
          obtain ⟨created, hcreated, hn⟩ := bind_eq_ok.1 hn
          obtain ⟨indexes, hindexes, -⟩ := bind_eq_ok.1 hcreated
          obtain rfl := Except.ok.inj hn
          refine ⟨fun name hs => hkept name ?_, fun e he => ?_⟩
          · rw [OrderedMap.get?_set]
            split_ifs
            · rfl
            · exact hs
          · rcases List.mem_cons.1 he with rfl | he
            · refine ⟨hkept e.1 ?_, fun schema' hs => ?_⟩
              · rw [OrderedMap.get?_set_self]
                rfl
              · obtain rfl := Option.some.inj (hschema.symm.trans hs)
                refine ⟨?_, ?_⟩
                · rw [hlimits]
                  rfl
                · rw [hindexes]
                  rfl
            · exact hrest e he

/-- **A first root has a collection for every schema**, and collections can be created with
all of them. -/
theorem schemasCreate_of_createRoot (hnodup : (schemas.map Prod.fst).Nodup)
    (h : createRoot graph seed schemas revision = .ok root) :
    SchemasCreate schemas ∧ ∀ e ∈ schemas, (root.collections.get? e.1).isSome := by
  obtain ⟨collections, hc, h⟩ := bind_eq_ok.1 h
  obtain ⟨_, hnames, h⟩ := bind_eq_ok.1 h
  obtain ⟨_, -, h⟩ := bind_eq_ok.1 h
  obtain rfl := Except.ok.inj h
  have hown : ∀ e ∈ schemas, ∃ documents, (e.1, documents) ∈ seed := by
    intro e he
    have hcheck := forM_eq_ok.1 hnames e.1 (List.mem_map_of_mem he)
    unfold checkSchemaNames at hcheck
    split_ifs at hcheck with hhas
    obtain ⟨p, hp, hname⟩ := List.mem_map.1 (hasOwn_iff.1 hhas)
    exact ⟨p.2, hname ▸ hp⟩
  refine ⟨⟨hnodup, fun e he => ?_⟩, fun e he => ?_⟩
  · obtain ⟨documents, hm⟩ := hown e he
    exact ((seeded hc).2 _ hm).2 e.2 ((Assoc.get?_eq_some_iff hnodup).2 he)
  · obtain ⟨documents, hm⟩ := hown e he
    exact ((seeded hc).2 _ hm).1

/-- **A first root can be built again.**  Its documents were validated, and its collections
created, under the schemas. -/
theorem createRoot_rebuildable (hnodup : (schemas.map Prod.fst).Nodup)
    (h : createRoot graph seed schemas revision = .ok root) : root.Rebuildable schemas where
  invariant := (createRoot_invariant h).1
  declares := createRoot_declares h
  records := createRoot_records (fun _ _ _ _ hv => validateDocument_self hv) h
  complete := (schemasCreate_of_createRoot hnodup h).2

end

/-! ### The second root -/

/-- A step that never fails. -/
theorem exists_foldlM_ok {ε α β : Type} {f : β → α → Except ε β} : ∀ {l : List α},
    (∀ a ∈ l, ∀ b, ∃ b', f b a = .ok b') → ∀ b, ∃ b', l.foldlM f b = .ok b'
  | [], _, b => ⟨b, rfl⟩
  | a :: l, h, b => by
      obtain ⟨next, hn⟩ := h a (List.mem_cons_self ..) b
      rw [List.foldlM_cons, hn]
      exact exists_foldlM_ok (fun a' ha' => h a' (List.mem_cons_of_mem _ ha')) next

namespace Root.Rebuildable

variable {collections : SnapshotCollections}

/-- **A collection of a snapshot is created again.**  Its documents are valid and do not clash,
so that no turn of the loop refuses one. -/
theorem exists_created (h : root.Rebuildable schemas) (hschemas : SchemasCreate schemas)
    {name : JsString} {s : StoredCollection} (hs : root.collections.get? name = some s)
    (revision : ℕ) :
    ∃ schema s', Assoc.get? schemas name = some schema ∧ schema.Creates name ∧
      createStoredCollection Json.graph name (s.documents.map Json.obj) schema revision = .ok s' ∧
      s.Rebuilt s' := by
  obtain ⟨schema, hschema, hdeclared⟩ := Option.map_eq_some_iff.1 (h.declares name s hs)
  obtain ⟨hdefinitions, hsame⟩ := Declaration.mk.inj hdeclared
  have hcreates := hschemas.creates _ ((Assoc.get?_eq_some_iff hschemas.nodup).1 hschema)
  obtain rfl : schema = s.schema := hsame
  obtain ⟨s', hcreated, hrebuilt⟩ := StoredCollection.exists_rebuilt (h.invariant name s hs)
    hdefinitions.symm (h.records name s hs) hcreates.indexes revision
  exact ⟨_, s', hschema, hcreates, hcreated, hrebuilt⟩

/-- **A root is built again of its snapshot.**  Each collection is created again, none is
missing, and the check of them all passes. -/
theorem exists_rebuilt (h : root.Rebuildable schemas) (hschemas : SchemasCreate schemas)
    (hc : cloneSnapshotCollections root.collections = some collections) (revision : ℕ) :
    ∃ root', createRoot Json.graph
        (collections.map fun entry => (entry.1, entry.2.map Json.obj)) schemas revision =
      .ok root' ∧ root.Rebuilt root' := by
  obtain ⟨horder, hget⟩ := h.invariant.snapshot_get? hc
  let seed := collections.map fun entry => (entry.1, entry.2.map Json.obj)
  -- each entry of the seed has the documents of its collection
  have hentry : ∀ e ∈ seed, ∃ s, root.collections.get? e.1 = some s ∧
      e.2 = s.documents.map Json.obj := by
    intro e he
    obtain ⟨entry, hm, rfl⟩ := List.mem_map.1 he
    have hread := (Assoc.get?_eq_some_iff horder.nodup).2 hm
    rw [hget] at hread
    obtain ⟨s, hs, hd⟩ := Option.map_eq_some_iff.1 hread
    exact ⟨s, hs, congrArg (List.map Json.obj) hd.symm⟩
  have hseeded : ∀ name s, root.collections.get? name = some s → ∃ e ∈ seed, e.1 = name := by
    intro name s hs
    have hread := hget name
    rw [hs] at hread
    exact ⟨_, List.mem_map_of_mem ((Assoc.get?_eq_some_iff horder.nodup).1 hread), rfl⟩
  obtain ⟨next, hnext⟩ := exists_foldlM_ok (f := seedCollection Json.graph schemas revision)
    (l := seed) (fun e he built => by
      obtain ⟨s, hs, hd⟩ := hentry e he
      obtain ⟨schema, s', hschema, hcreates, hcreated, -⟩ := h.exists_created hschemas hs revision
      obtain ⟨limits, hlimits⟩ := exists_of_isOk hcreates.limits
      refine ⟨built.set e.1 s', ?_⟩
      unfold seedCollection
      rw [hschema, hd]
      simp only [hlimits, hcreated, bind, Except.bind]
      rfl) .empty
  have hnames : (schemas.map Prod.fst).forM (checkSchemaNames seed) = .ok () := by
    refine forM_eq_ok.2 fun name hm => if_pos (hasOwn_iff.2 ?_)
    obtain ⟨e, he, rfl⟩ := List.mem_map.1 hm
    obtain ⟨s, hs⟩ := Option.isSome_iff_exists.1 (h.complete e he)
    obtain ⟨entry, hm, hname⟩ := hseeded e.1 s hs
    exact hname ▸ List.mem_map_of_mem hm
  -- what was created comes of the collection of its name
  have hcreated : ∀ name s', next.get? name = some s' →
      ∃ s, root.collections.get? name = some s ∧ s.Rebuilt s' ∧ s'.Invariant := by
    intro name s' hs'
    rcases created_of_seed hnext name s' hs' with hstart | ⟨documents, schema, hm, hschema, hok⟩
    · cases hstart
    · obtain ⟨s, hs, hd⟩ := hentry _ hm
      obtain ⟨schema', t, hschema', -, hcreated, hrebuilt⟩ := h.exists_created hschemas hs revision
      obtain rfl := Option.some.inj (hschema.symm.trans hschema')
      dsimp only at hd
      rw [hd] at hok
      obtain rfl := Except.ok.inj (hok.symm.trans hcreated)
      refine ⟨s, hs, hrebuilt, ?_⟩
      rcases createStoredCollection_represents Json.graph name (s.documents.map Json.obj) schema
        revision with ⟨error, he, -⟩ | ⟨u, c, hu, -, -, hrep⟩
      · rw [he] at hok
        cases hok
      · obtain rfl := Except.ok.inj (hok.symm.trans hu)
        exact hrep.invariant
  have hinvariant : Root.Invariant { collections := next, revision } := by
    intro name s' hs'
    obtain ⟨s, -, -, hs⟩ := hcreated name s' hs'
    exact hs
  have hverify : verifyCollections next = .ok () := hinvariant.verify_ok
  refine ⟨{ collections := next, revision }, ?_, fun name => ?_⟩
  · show (seed.foldlM (seedCollection Json.graph schemas revision) .empty >>= _) = _
    rw [hnext]
    show ((schemas.map Prod.fst).forM (checkSchemaNames seed) >>= _) = _
    rw [hnames]
    show (verifyCollections next >>= _) = _
    rw [hverify]
    rfl
  · show Option.Rel _ _ (next.get? name)
    cases hs : root.collections.get? name with
    | none =>
        cases hs' : next.get? name with
        | none => exact .none
        | some s' =>
            obtain ⟨s, hfound, -, -⟩ := hcreated name s' hs'
            rw [hs] at hfound
            cases hfound
    | some s =>
        obtain ⟨e, he, rfl⟩ := hseeded name s hs
        obtain ⟨s', hs'⟩ := Option.isSome_iff_exists.1 ((seeded hnext).2 e he).1
        obtain ⟨t, ht, hrebuilt, -⟩ := hcreated e.1 s' hs'
        rw [hs']
        obtain rfl := Option.some.inj (hs.symm.trans ht)
        exact .some hrebuilt

end Root.Rebuildable

/-! ### The answers of a root that was built again -/

namespace StoredCollection.Rebuilt

variable {s s' : StoredCollection}

/-- A collection is a rebuilt one of itself. -/
theorem refl (s : StoredCollection) : s.Rebuilt s := ⟨rfl, rfl, rfl, rfl⟩

/-- The index of a name has the same keys in its buckets. -/
theorem contents_eq (h : s.Rebuilt s') (name : JsString) :
    (s'.indexes.get? name).map (fun index => (index.definition, index.contents)) =
      (s.indexes.get? name).map fun index => (index.definition, index.contents) := by
  have hread := fun t : StoredCollection => get?_map (fun index : SecondaryIndexState StoredBuckets =>
    (index.definition, index.contents)) t.indexes.entries name
  exact (hread s').symm.trans ((congrArg (Assoc.get? · name) h.indexes).trans (hread s))

/-- The same plan is chosen.  It is chosen by the declarations of the indexes, in their
order. -/
theorem choosePlan_eq (h : s.Rebuilt s') (ast : Where) : s'.choosePlan ast = s.choosePlan ast := by
  have hfind : ∀ (t : StoredCollection) (path : PropertyPath),
      (t.indexes.values.find? fun index => samePath path index.path).map (·.name) =
        ((indexContents t.indexes).find? fun e => samePath path e.2.1.path).map (·.2.1.name) := by
    intro t path
    rw [indexContents, OrderedMap.values, List.find?_map, List.find?_map, Option.map_map,
      Option.map_map]
    rfl
  unfold choosePlan
  split
  · next path value =>
      rw [h.schema]
      split_ifs
      · rfl
      · have heq := hfind s' path
        rw [h.indexes, ← hfind s path] at heq
        cases hs : s.indexes.values.find? fun index => samePath path index.path with
        | none =>
            rw [hs, Option.map_none, Option.map_eq_none_iff] at heq
            rw [heq]
        | some index =>
            rw [hs, Option.map_some] at heq
            obtain ⟨index', hs', hname⟩ := Option.map_eq_some_iff.1 heq
            rw [hs']
            exact congrArg QueryPlan.secondary hname
  · rfl

/-- **The same candidates**, in the order of the collection.  The buckets hold the same keys,
and the positions sort them alike, though they may be other numbers. -/
theorem candidateKeys_eq (h : s.Rebuilt s') (hs : s.Invariant) (hs' : s'.Invariant)
    (plan : QueryPlan) (ast : Where) : s'.candidateKeys plan ast = s.candidateKeys plan ast := by
  -- sorted by position, the keys of a bucket are those of the order
  have hbucket : ∀ {t : StoredCollection}, t.Invariant → ∀ {name value bucket},
      (t.indexes.get? name).bind (·.buckets.get value) = some bucket →
      bucket.keys.mergeSort (fun left right => t.position left ≤ t.position right) =
        t.order.filter (bucket.keys.contains ·) := by
    intro t ht name value bucket hb
    obtain ⟨index, hi, hb⟩ := Option.bind_eq_some_iff.1 hb
    have hindex : IndexInvariant t.records.get index :=
      ht.consistent.indexed index (List.mem_map_of_mem (OrderedMap.get?_eq_some_iff.1 hi))
    refine sorted_by_position ht bucket.keys_nodup fun key hk => ?_
    obtain ⟨d, hd, -⟩ := (hindex.holds_iff value key).1 ⟨bucket, hb, OrderedMap.has_iff.2 hk⟩
    exact (ht.consistent.mem_order key).2 (by rw [hd]; rfl)
  have hkeys : ∀ name value,
      ((s'.indexes.get? name).bind (·.buckets.get value)).map (fun b => {key | b.has key}) =
        ((s.indexes.get? name).bind (·.buckets.get value)).map fun b => {key | b.has key} := by
    intro name value
    have heq := congrArg (fun o : Option (SecondaryIndex × BucketContents) =>
      o.bind fun e => e.2 value) (h.contents_eq name)
    simp only [Option.bind_map] at heq
    rw [Option.map_bind, Option.map_bind]
    exact heq
  unfold candidateKeys
  split
  · rfl
  · next name op path value =>
      have heq := hkeys name (encodeIndexValue value)
      cases hb : (s.indexes.get? name).bind (·.buckets.get (encodeIndexValue value)) with
      | none =>
          rw [hb, Option.map_none, Option.map_eq_none_iff] at heq
          rw [heq]
      | some bucket =>
          rw [hb, Option.map_some] at heq
          obtain ⟨bucket', hb', hsame⟩ := Option.map_eq_some_iff.1 heq
          rw [hb']
          dsimp only
          rw [hbucket hs' hb', hbucket hs hb, h.order]
          refine List.filter_congr fun key _ => ?_
          have hiff := Set.ext_iff.1 hsame key
          rw [Set.mem_ofPred_eq, Set.mem_ofPred_eq, OrderedMap.has_iff, OrderedMap.has_iff] at hiff
          rw [Bool.eq_iff_iff, List.contains_iff_mem, List.contains_iff_mem]
          exact hiff
  · exact h.order

/-- **Every query has the same outcome.**  It sees the candidates of its plan, the documents and
the order, and these are the same. -/
theorem query_eq (h : s.Rebuilt s') (hs : s.Invariant) (hs' : s'.Invariant) (ast : Where)
    (test : JsonObject → Bool) (options : QueryOptions) :
    s'.query ast test options = s.query ast test options := by
  have hcollect : ∀ (keys : List JsString) (matched : ℕ) (documents : List JsonObject),
      s'.collectDocuments test options keys matched documents =
        s.collectDocuments test options keys matched documents := by
    intro keys
    induction keys with
    | nil => exact fun _ _ => rfl
    | cons key rest ih =>
        intro matched documents
        rw [collectDocuments, collectDocuments, h.records]
        simp only [ih]
  have hordered : ∀ (order : List OrderField) (keys : List JsString),
      s'.orderedDocuments test options order keys = s.orderedDocuments test options order keys := by
    intro order keys
    rw [orderedDocuments, orderedDocuments, h.records, h.schema]
  unfold query
  simp only [h.choosePlan_eq, h.candidateKeys_eq hs hs', hcollect, hordered]

end StoredCollection.Rebuilt

namespace Root.Rebuilt

variable {root' : Root}

/-- A root is a rebuilt one of itself. -/
theorem refl (root : Root) : root.Rebuilt root := fun name => by
  cases root.collections.get? name with
  | none => exact .none
  | some s => exact .some (.refl s)

/-- **Every query has the same outcome**: the same documents and the same plan, or the same
error. -/
theorem query_eq (h : root.Rebuilt root') (hroot : root.Invariant) (hroot' : root'.Invariant)
    (name : JsString) (condition : JsInput) (options : QueryOptions) :
    root'.query name condition options = root.query name condition options := by
  have hname := h name
  unfold Root.query Root.stored
  cases hs : root.collections.get? name with
  | none =>
      rw [hs] at hname
      cases hs' : root'.collections.get? name with
      | none => rfl
      | some s' =>
          rw [hs'] at hname
          cases hname
  | some s =>
      rw [hs] at hname
      cases hs' : root'.collections.get? name with
      | none =>
          rw [hs'] at hname
          cases hname
      | some s' =>
          rw [hs'] at hname
          cases hname with
          | some hrebuilt =>
              refine congrArg (compileWhere condition >>= ·) (funext fun compiled => ?_)
              exact hrebuilt.query_eq (hroot name s hs) (hroot' name s' hs') compiled.1 compiled.2
                options

end Root.Rebuilt

end NewtonDB
