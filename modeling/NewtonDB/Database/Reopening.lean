/-
# Opening what was stored

Every snapshot a database hands to its adapter can be opened again, by whoever opens it with
the same options: it comes back with the documents of a root that was published
(`OpenOptions.stored_snapshot_reopens`).  Only the checks of an envelope stand in the way: an
empty name of a collection or of a key field, which the constructor accepts, counters that
are no safe integers, and an identity that is too long.
-/

import NewtonDB.Database.Archive
import NewtonDB.Database.LostUpdates

namespace NewtonDB

/-! ### Catalogs -/

section

variable {collate : JsString → JsString → Bool} {schemas : List (JsString × CollectionSchema)}

/-- **The entries of a catalog** are those of the schemas.  The names are sorted and defined one
after the other; since they are different, none replaces another. -/
theorem mem_createCatalog (h : (schemas.map Prod.fst).Nodup) {entry : JsString × CatalogCollection} :
    entry ∈ createCatalog collate schemas ↔
      ∃ e ∈ schemas, entry = (e.1, catalogCollection collate e.2) := by
  have hperm : (schemas.mergeSort fun a b => leUnits a.1 b.1).Perm schemas := List.mergeSort_perm ..
  have hcatalog : createCatalog collate schemas =
      ((schemas.mergeSort fun a b => leUnits a.1 b.1).map
        (Prod.map id (catalogCollection collate))).foldl
          (fun output p => defineProperty output p.1 p.2) [] := by
    rw [List.foldl_map]
    rfl
  have hnodup : (((schemas.mergeSort fun a b => leUnits a.1 b.1).map
      (Prod.map id (catalogCollection collate))).map Prod.fst).Nodup := by
    rw [List.map_map]
    exact (hperm.map _).nodup_iff.2 h
  have hnone : PropertyOrder (([] : DatabaseCatalog).map Prod.fst) := propertyOrder_nil
  have horder : PropertyOrder ((createCatalog collate schemas).map Prod.fst) :=
    PropertyOrder.foldl Prod.fst
      (fun e : JsString × CollectionSchema => catalogCollection collate e.2) hnone
  have hread := @get?_foldl_defineProperty _ entry.1 _ [] hnodup
  rw [← hcatalog, get?_map, Assoc.get?, Option.or_none, get?_perm h hperm] at hread
  rw [← Prod.mk.eta (p := entry), ← Assoc.get?_eq_some_iff horder.nodup, hread,
    Option.map_eq_some_iff]
  constructor
  · rintro ⟨schema, hs, hc⟩
    exact ⟨(entry.1, schema), (Assoc.get?_eq_some_iff h).1 hs, by rw [← hc]⟩
  · rintro ⟨e, he, hentry⟩
    obtain ⟨hname, hc⟩ := Prod.mk.inj hentry
    exact ⟨e.2, (Assoc.get?_eq_some_iff h).2 (hname ▸ he), hc.symm⟩

/-- The names of a catalog are those of the schemas.  The catalog is sorted, so only membership
is preserved and not the order. -/
theorem mem_names_createCatalog (h : (schemas.map Prod.fst).Nodup) {name : JsString} :
    name ∈ (createCatalog collate schemas).map Prod.fst ↔ name ∈ schemas.map Prod.fst := by
  constructor
  · intro hm
    obtain ⟨entry, he, rfl⟩ := List.mem_map.1 hm
    obtain ⟨e, hs, rfl⟩ := (mem_createCatalog h).1 he
    exact List.mem_map_of_mem hs
  · intro hm
    obtain ⟨e, hs, rfl⟩ := List.mem_map.1 hm
    have hmem : (e.1, catalogCollection collate e.2) ∈ createCatalog collate schemas :=
      (mem_createCatalog h).2 ⟨e, hs, rfl⟩
    exact List.mem_map_of_mem hmem

/-- An index that can be created passes the check of an envelope.  Creation asks for a name, for
a path with finite tokens and for names that differ, and the envelope asks for no more. -/
theorem isSnapshotIndex_of_createIndexes {collection : JsString} {l : List SecondaryIndex} :
    ∀ {start result : Indexes (OrderedMap JsString Bucket)},
      l.foldlM (createIndex collection) start = .ok result →
        ∀ d ∈ l, isSnapshotIndex d.entry := by
  induction l with
  | nil => exact fun _ d hd => by cases hd
  | cons first l ih =>
      intro start result h d hd
      rw [List.foldlM_cons] at h
      obtain ⟨next, hn, h⟩ := bind_eq_ok.1 h
      rcases List.mem_cons.1 hd with rfl | hd
      · unfold createIndex at hn
        split_ifs at hn with hname
        obtain ⟨path, hpath, -⟩ := bind_eq_ok.1 hn
        have hvalid := (validatePath_eq_ok.1 hpath).2
        rw [validatePath_view hpath] at hvalid
        obtain ⟨name, rest, hfirst⟩ := hvalid.head
        rw [Bool.or_eq_true, decide_eq_true_eq, not_or] at hname
        have hlength : d.path.length ≠ 0 := by
          rw [hfirst]
          exact Nat.succ_ne_zero _
        refine Bool.and_eq_true_iff.2 ⟨Bool.and_eq_true_iff.2
          ⟨decide_eq_true hname.1, decide_eq_true hlength⟩, List.all_eq_true.2 fun entry he => ?_⟩
        have hget := List.mem_zipIdx_iff_getElem?.1 he
        obtain ⟨token, i⟩ := entry
        cases token with
        | name s => rfl
        | index n =>
            have hpos : 0 < i := by
              refine Nat.pos_of_ne_zero fun hzero => ?_
              rw [hzero] at hget
              change d.path[0]? = _ at hget
              rw [hfirst] at hget
              cases hget
            exact Bool.and_eq_true_iff.2
              ⟨decide_eq_true hpos, hvalid.tokens _ (List.mem_of_getElem? hget)⟩
      · exact ih h d hd

/-- **The check of the collections** of a catalog, where collections can be created: neither
a collection nor a key field has an empty name. -/
theorem all_isSnapshotCollection_iff (h : SchemasCreate schemas) :
    (createCatalog collate schemas).all isSnapshotCollection ↔
      ∀ e ∈ schemas, e.1 ≠ [] ∧ e.2.primaryKey ≠ [] := by
  have hindexes : ∀ e ∈ schemas, (catalogCollection collate e.2).indexes.all isSnapshotIndex := by
    intro e he
    obtain ⟨indexes, hi⟩ := exists_of_isOk (h.creates e he).indexes
    rw [catalogCollection_indexes, List.all_map, List.all_eq_true]
    exact fun d hd => isSnapshotIndex_of_createIndexes hi d (mem_sortedIndexes.1 hd)
  have hcollection : ∀ e ∈ schemas, isSnapshotCollection (e.1, catalogCollection collate e.2) ↔
      e.1 ≠ [] ∧ e.2.primaryKey ≠ [] := by
    intro e he
    unfold isSnapshotCollection
    dsimp only
    rw [hindexes e he, Bool.and_true, Bool.and_eq_true, decide_eq_true_iff, decide_eq_true_iff,
      Ne, Ne, List.length_eq_zero_iff, List.length_eq_zero_iff]
    exact Iff.rfl
  rw [List.all_eq_true]
  constructor
  · exact fun hall e he => (hcollection e he).1 (hall _ ((mem_createCatalog h.nodup).2 ⟨e, he, rfl⟩))
  · intro hall entry hm
    obtain ⟨e, he, rfl⟩ := (mem_createCatalog h.nodup).1 hm
    exact (hcollection e he).2 (hall e he)

end

/-- Properties of the same names have the same sorted names.  Sorted lists without duplicates
are determined by what is in them. -/
theorem sortedNames_congr {α β : Type} {left : List (JsString × α)} {right : List (JsString × β)}
    (hleft : (left.map Prod.fst).Nodup) (hright : (right.map Prod.fst).Nodup)
    (h : ∀ name, name ∈ left.map Prod.fst ↔ name ∈ right.map Prod.fst) :
    sortedNames left = sortedNames right := by
  have hperm := (List.perm_ext_iff_of_nodup hleft hright).2 h
  have hsorted : ∀ names : List JsString, (names.mergeSort leUnits).Pairwise (· ≤ ·) := fun names =>
    (List.pairwise_mergeSort isComparison_leUnits.trans isComparison_leUnits.total names).imp
      leUnits_iff.1
  have hnames : (left.map Prod.fst).mergeSort leUnits = (right.map Prod.fst).mergeSort leUnits :=
    List.Perm.eq_of_pairwise (fun a b _ _ hab hba => List.le_antisymm hab hba) (hsorted _) (hsorted _)
      ((List.mergeSort_perm ..).trans (hperm.trans (List.mergeSort_perm ..).symm))
  rw [sortedNames, sortedNames, hnames]

/-! ### Envelopes -/

/-- The identity and the counters of a snapshot are in the range of the format. -/
structure SnapshotEnvelope.InRange (snapshot : SnapshotEnvelope) : Prop where
  identified : snapshot.databaseId ≠ []
  databaseId : snapshot.databaseId.length ≤ 256
  generation : snapshot.generation ≤ 2 ^ 53 - 1
  revision : snapshot.revision ≤ 2 ^ 53 - 1

section

variable {options : DatabaseOptions} {history : List DatabaseEvent} {snapshot : SnapshotEnvelope}
  {collate : JsString → JsString → Bool} {schemas : List (JsString × CollectionSchema)}

/-- **When a snapshot passes the check of an envelope.**  What a published root was created with
passes all other checks: its indexes have names and paths, and the collections are those of the
catalog. -/
theorem SnapshotEnvelope.IsOf.isSnapshotEnvelope_iff (h : snapshot.IsOf options history)
    (hschemas : SchemasCreate schemas) (hcatalog : options.catalog = createCatalog collate schemas)
    (hpublished : ∀ root, .published root ∈ history → root.Rebuildable schemas) :
    isSnapshotEnvelope snapshot ↔
      (∀ e ∈ schemas, e.1 ≠ [] ∧ e.2.primaryKey ≠ []) ∧ snapshot.InRange := by
  obtain ⟨root, hp, hc⟩ := h.root
  have hroot := hpublished root hp
  obtain ⟨horder, hget⟩ := hroot.invariant.snapshot_get? hc
  have hnames : (sortedNames snapshot.catalog).stringify =
      (sortedNames snapshot.collections).stringify := by
    have hnodup : (snapshot.catalog.map Prod.fst).Nodup := by
      rw [h.catalog, hcatalog]
      have hnone : PropertyOrder (([] : DatabaseCatalog).map Prod.fst) := propertyOrder_nil
      exact (PropertyOrder.foldl Prod.fst
        (fun e : JsString × CollectionSchema => catalogCollection collate e.2) hnone).nodup
    refine congrArg Json.stringify (sortedNames_congr hnodup horder.nodup fun name => ?_)
    rw [h.catalog, hcatalog, mem_names_createCatalog hschemas.nodup, ← not_iff_not,
      ← Assoc.get?_eq_none_iff, ← Assoc.get?_eq_none_iff, hget, Option.map_eq_none_iff]
    constructor
    · intro hnone
      refine Option.eq_none_iff_forall_not_mem.2 fun s hs => ?_
      have hdeclared := hroot.declares name s hs
      rw [hnone] at hdeclared
      cases hdeclared
    · intro hnone
      refine Assoc.get?_eq_none_iff.2 fun hm => ?_
      obtain ⟨e, he, rfl⟩ := List.mem_map.1 hm
      have hsome := hroot.complete e he
      rw [hnone] at hsome
      cases hsome
  unfold isSnapshotEnvelope
  rw [hnames, decide_eq_true rfl, Bool.and_true, h.catalog, hcatalog, Bool.and_eq_true,
    all_isSnapshotCollection_iff hschemas]
  simp only [Bool.and_eq_true, decide_eq_true_eq]
  constructor
  · rintro ⟨⟨⟨⟨hid, hlength⟩, hgeneration⟩, hrevision⟩, hempty⟩
    exact ⟨hempty, fun he => hid (by rw [he]; rfl), hlength, hgeneration, hrevision⟩
  · rintro ⟨hempty, hrange⟩
    exact ⟨⟨⟨⟨fun he => hrange.identified (List.length_eq_zero_iff.1 he), hrange.databaseId⟩,
      hrange.generation⟩, hrange.revision⟩, hempty⟩

end

namespace OpenOptions

variable {o : OpenOptions} {collate : JsString → JsString → Bool} {randomId : JsString}
  {options : DatabaseOptions} {loaded : Option SnapshotEnvelope} {snapshot : SnapshotEnvelope}

/-- **The constructor again**, with the same identity: it resolves the same options.  The limits
are those of the same options, and the root is given. -/
theorem construct_again {randomId' : JsString} {σ σ' : Type} [DecidableEq σ] [DecidableEq σ']
    {graph : JsGraph σ} {graph' : JsGraph σ'} {seed : List (JsString × List σ)}
    {seed' : List (JsString × List σ')}
    {stored stored' : Option SnapshotEnvelope} {root root' : Root}
    (h : o.construct collate randomId graph seed stored = .ok (options, root))
    (hid : stored'.elim randomId' (·.databaseId) = options.commit.databaseId)
    (hroot : createRoot graph' seed' o.schema (stored'.elim 0 (·.revision)) = .ok root') :
    o.construct collate randomId' graph' seed' stored' = .ok (options, root') := by
  obtain ⟨eventLimits, he, h⟩ := bind_eq_ok.1 h
  obtain ⟨persistenceLimits, hp, h⟩ := bind_eq_ok.1 h
  obtain ⟨transactionLimits, ht, h⟩ := bind_eq_ok.1 h
  obtain ⟨_, -, h⟩ := bind_eq_ok.1 h
  obtain ⟨rfl, -⟩ := Prod.mk.inj (Except.ok.inj h)
  unfold construct
  rw [he, hp, ht]
  simp only [bind, Except.bind, hroot]
  rw [hid]
  rfl

/-- A database that opened was constructed.  The seed is what was loaded, or the initial data
where nothing was. -/
theorem construct_of_opened {first : Runtime}
    (h : o.opened collate randomId loaded = .ok (options, first)) :
    ∃ (σ : Type) (_ : DecidableEq σ) (graph : JsGraph σ) (seed : List (JsString × List σ))
      (root : Root), o.construct collate randomId graph seed loaded = .ok (options, root) ∧
        first = .start options root loaded := by
  unfold opened at h
  cases hopen : o.openLoaded collate randomId loaded with
  | error error =>
      rw [hopen] at h
      cases h
  | ok result =>
      obtain ⟨options', root⟩ := result
      rw [hopen] at h
      obtain ⟨rfl, rfl⟩ := Prod.mk.inj (Except.ok.inj h)
      unfold openLoaded at hopen
      cases loaded with
      | none =>
          cases hinitial : o.initialData with
          | none =>
              rw [hinitial] at hopen
              cases hopen
          | some initial =>
              rw [hinitial] at hopen
              exact ⟨_, _, _, _, root, hopen, rfl⟩
      | some loaded =>
          dsimp only at hopen
          split_ifs at hopen
          exact ⟨_, _, _, _, root, hopen, rfl⟩

/-- **A program that was opened** has what can be built again, in every run.  Whichever of the
two ways it was opened, its first root was created from schemas and a seed. -/
theorem archived_of_opened (hnames : (o.schema.map Prod.fst).Nodup) {first r : Runtime}
    (hopen : o.opened collate randomId loaded = .ok (options, first))
    {allowed : Runtime → Label → Prop} {labels : List Label}
    (hrun : Transition.Run (Runtime.step options) allowed first labels r) :
    SchemasCreate o.schema ∧ r.Archived options o.schema := by
  obtain ⟨σ, _, graph, seed, root, hconstruct, rfl⟩ := construct_of_opened hopen
  obtain ⟨-, -, -, hroot⟩ := construct_eq_ok hconstruct
  exact ⟨(schemasCreate_of_createRoot hnames hroot).1,
    Runtime.archived_of_run (createRoot_rebuildable hnames hroot) loaded hrun⟩

/-- **Only an envelope opens**: a snapshot a database was opened from passed the check of an
envelope. -/
theorem isSnapshotEnvelope_of_opened {result : DatabaseOptions × Runtime}
    (h : o.opened collate randomId (some snapshot) = .ok result) :
    isSnapshotEnvelope snapshot = true := by
  unfold opened openLoaded at h
  dsimp only at h
  cases henvelope : isSnapshotEnvelope snapshot with
  | true => rfl
  | false =>
      rw [henvelope, Bool.not_false, if_pos rfl] at h
      cases h

/-- **A snapshot of a published root opens** when it passes the check of an envelope, and in
no other case: what it opens to is a database of the same options over a root that holds the
documents of the published one. -/
theorem opened_snapshot_iff {first : Runtime} {history : List DatabaseEvent}
    (hopen : o.opened collate randomId loaded = .ok (options, first)) (randomId' : JsString)
    (hschemas : SchemasCreate o.schema) (hof : snapshot.IsOf options history)
    (hpublished : ∀ root, .published root ∈ history → root.Rebuildable o.schema)
    {root : Root} (hroot : .published root ∈ history)
    (hc : cloneSnapshotCollections root.collections = some snapshot.collections) :
    ∃ root', root.Rebuilt root' ∧ root'.revision = snapshot.revision ∧
      (∀ name condition q, root'.query name condition q = root.query name condition q) ∧
      ∀ result, o.opened collate randomId' (some snapshot) = .ok result ↔
        result = (options, .start options root' (some snapshot)) ∧
          isSnapshotEnvelope snapshot := by
  obtain ⟨σ, _, graph, seed, root₀, hconstruct, -⟩ := construct_of_opened hopen
  obtain ⟨-, hcatalog, -, -⟩ := construct_eq_ok hconstruct
  obtain ⟨root', hcreated, hrebuilt⟩ :=
    (hpublished root hroot).exists_rebuilt hschemas hc snapshot.revision
  obtain ⟨hinvariant, hrevision⟩ := createRoot_invariant hcreated
  refine ⟨root', hrebuilt, hrevision, fun name condition q =>
    hrebuilt.query_eq (hpublished root hroot).invariant hinvariant name condition q,
    fun result => ?_⟩
  have hequal : catalogsEqual snapshot.catalog (createCatalog collate o.schema) = true := by
    rw [hof.catalog, hcatalog]
    exact decide_eq_true rfl
  have hagain : o.construct collate randomId' Json.graph (seedOf snapshot.collections)
      (some snapshot) = .ok (options, root') :=
    construct_again hconstruct hof.databaseId hcreated
  have hopens : isSnapshotEnvelope snapshot = true →
      o.opened collate randomId' (some snapshot) =
        .ok (options, .start options root' (some snapshot)) := by
    intro henvelope
    unfold opened openLoaded
    dsimp only
    rw [henvelope, hequal, if_neg (by decide), if_neg (by decide), hagain]
  constructor
  · intro h
    have henvelope := isSnapshotEnvelope_of_opened h
    exact ⟨(Except.ok.inj ((hopens henvelope).symm.trans h)).symm, henvelope⟩
  · rintro ⟨rfl, henvelope⟩
    exact hopens henvelope

/-- **Every stored snapshot opens again**: whatever a program did, a snapshot it handed to
its adapter is one of a root it published, and opening it with the same options gives the
same documents under the revision of the snapshot, so that every query has the same outcome.
Opening it has no other result, and has this one exactly when no collection and no key field
has an empty name and the identity and the counters are in range. -/
theorem stored_snapshots_reopen (hnames : (o.schema.map Prod.fst).Nodup) {first r : Runtime}
    (hopen : o.opened collate randomId loaded = .ok (options, first)) {labels : List Label}
    (hrun : Transition.Run (Runtime.step options) (fun _ _ => True) first labels r)
    {expected : ℕ} (hstored : .store snapshot expected ∈ r.database.history)
    (randomId' : JsString) : ∃ root root', .published root ∈ r.database.history ∧
      cloneSnapshotCollections root.collections = some snapshot.collections ∧
      root.Rebuilt root' ∧ root'.revision = snapshot.revision ∧
      (∀ name condition q, root'.query name condition q = root.query name condition q) ∧
      ∀ result, o.opened collate randomId' (some snapshot) = .ok result ↔
        result = (options, .start options root' (some snapshot)) ∧
          (∀ e ∈ o.schema, e.1 ≠ [] ∧ e.2.primaryKey ≠ []) ∧ snapshot.InRange := by
  obtain ⟨hschemas, harchived⟩ := archived_of_opened hnames hopen hrun
  have hof := harchived.archive.stored snapshot expected hstored
  obtain ⟨root, hroot, hc⟩ := hof.root
  obtain ⟨root', hrebuilt, hrevision, hquery, hiff⟩ := opened_snapshot_iff hopen randomId'
    hschemas hof harchived.archive.published hroot hc
  obtain ⟨σ, _, graph, seed, root₀, hconstruct, -⟩ := construct_of_opened hopen
  obtain ⟨-, hcatalog, -, -⟩ := construct_eq_ok hconstruct
  have henvelope :=
    hof.isSnapshotEnvelope_iff hschemas hcatalog harchived.archive.published
  exact ⟨root, root', hroot, hc, hrebuilt, hrevision, hquery, fun result =>
    (hiff result).trans (and_congr_right fun _ => henvelope)⟩

/-- The snapshot of a call of `adapter.store`. -/
def handedOver : DatabaseEvent → Option SnapshotEnvelope
  | .store snapshot _ => some snapshot
  | _ => none

/-- The snapshot of a note opens under another random identity.  The store of the note is under
way; its snapshot is in range, so the equivalence gives the opened database. -/
theorem stored_note_reopens : ∃ (snapshot : SnapshotEnvelope) (options : DatabaseOptions)
    (root' : Root), snapshot.revision = 1 ∧ root'.revision = 1 ∧
      SharedStorage.openNotes.opened leUnits (js "b") (some snapshot) =
        .ok (options, .start options root' (some snapshot)) := by
  obtain ⟨⟨options, first, r⟩, h⟩ := Option.isSome_iff_exists.1 (show
    (((SharedStorage.openNotes.opened leUnits (js "a") none).toOption.bind fun opened =>
      (Transition.run (Runtime.step opened.1) opened.2
        [.transaction none false (js "t") 0, Runtime.addNote 0 "x", .returns 0, .resume,
          .startStore 0]).map fun r => (opened.1, opened.2, r)).filter fun s =>
        (s.2.2.database.history.filterMap handedOver).any fun snapshot =>
          snapshot.revision = 1 && decide (snapshot.databaseId ≠ [] ∧
            snapshot.databaseId.length ≤ 256 ∧ snapshot.generation ≤ 2 ^ 53 - 1)).isSome by
        decide +kernel)
  obtain ⟨hall, hseen⟩ := Option.filter_eq_some_iff.1 h
  obtain ⟨opened, hopened, hmap⟩ := Option.bind_eq_some_iff.1 hall
  obtain ⟨r', hrun, he⟩ := Option.map_eq_some_iff.1 hmap
  obtain ⟨rfl, hrest⟩ := Prod.mk.inj he
  obtain ⟨rfl, rfl⟩ := Prod.mk.inj hrest
  obtain ⟨snapshot, hm, hsnapshot⟩ := List.any_eq_true.1 hseen
  obtain ⟨e, he, hstored⟩ := List.mem_filterMap.1 hm
  obtain ⟨hrevision, hrange⟩ := Bool.and_eq_true_iff.1 hsnapshot
  cases e with
  | store stored expected =>
      obtain rfl := Option.some.inj hstored
      obtain ⟨root, root', -, -, -, hrev, -, hiff⟩ := stored_snapshots_reopen (by decide)
        (eq_ok_of_toOption hopened) (Transition.run_sound hrun) he (js "b")
      have hrev1 := of_decide_eq_true hrevision
      obtain ⟨hid, hlength, hgeneration⟩ := of_decide_eq_true hrange
      exact ⟨stored, opened.1, root', hrev1, hrev.trans hrev1, (hiff _).2
        ⟨rfl, by decide, hid, hlength, hgeneration, by rw [hrev1]; decide⟩⟩
  | _ => cases hstored

end OpenOptions

end NewtonDB
