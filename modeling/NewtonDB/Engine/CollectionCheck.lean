/-
# Creating and checking a collection

A created collection satisfies the representation invariant, and a collection that
does passes `assertCollectionInvariant`.  The check rebuilds every index from the
records; a bucket it expects is what `addToIndex` makes of an empty index, so the
same invariant says what the rebuilt index holds.
-/

import NewtonDB.Engine.CollectionInvariant

namespace NewtonDB

/-! ### Creation -/

/-- What creating the indexes of a schema gives: one empty index for each
definition. -/
structure FreshIndexes (schema : CollectionSchema)
    (indexes : Indexes (OrderedMap JsString Bucket)) : Prop where
  definitions : definitions indexes = schema.indexes.map fun d => (d.name, d)
  empty : ∀ index ∈ indexes.values, index.buckets = .empty

/-- One more definition, and the index created for it.  Names must differ, so it is put behind
the others. -/
theorem createIndex_ok {collection : JsString} {definition : SecondaryIndex}
    {indexes indexes' : Indexes (OrderedMap JsString Bucket)}
    (h : createIndex collection indexes definition = .ok indexes') :
    indexes'.entries = indexes.entries ++ [(definition.name,
      { buckets := .empty, copyOnWrite := false, name := definition.name,
        path := definition.path, unique := definition.unique })] := by
  unfold createIndex at h
  split_ifs at h with hbad
  obtain ⟨path, hpath, h⟩ := bind_eq_ok.1 h
  rw [Bool.or_eq_true, not_or, OrderedMap.has_iff] at hbad
  rw [← Except.ok.inj h, validatePath_view hpath]
  exact OrderedMap.entries_set_of_not_mem hbad.2 _

/-- Indexes that were created are those of the schema, with nothing in them.  By induction on
the definitions, which may start from indexes that were created before. -/
theorem createIndexes_ok {collection : JsString} {schema : CollectionSchema}
    {indexes : Indexes (OrderedMap JsString Bucket)}
    (h : createIndexes collection schema = .ok indexes) : FreshIndexes schema indexes := by
  have aux : ∀ (l : List SecondaryIndex) (start result : Indexes (OrderedMap JsString Bucket)),
      l.foldlM (createIndex collection) start = .ok result →
        definitions result = definitions start ++ l.map (fun d => (d.name, d)) ∧
          ((∀ index ∈ start.values, index.buckets = .empty) →
            ∀ index ∈ result.values, index.buckets = .empty) := by
    intro l
    induction l with
    | nil =>
        intro start result h
        rw [← Except.ok.inj h]
        exact ⟨by simp, id⟩
    | cons d l ih =>
        intro start result h
        rw [List.foldlM_cons] at h
        obtain ⟨next, hn, h⟩ := bind_eq_ok.1 h
        obtain ⟨hdef, hempty⟩ := ih next result h
        have hent := createIndex_ok hn
        refine ⟨?_, fun hs => hempty fun index hi => ?_⟩
        · rw [hdef, definitions, hent, List.map_append, List.append_assoc]
          rfl
        · rw [OrderedMap.values, hent, List.map_append, List.mem_append] at hi
          rcases hi with hi | hi
          · exact hs index hi
          · rw [List.map_singleton, List.mem_singleton] at hi
            rw [hi]
  obtain ⟨hdef, hempty⟩ := aux schema.indexes .empty indexes h
  exact ⟨by rw [hdef]; rfl, hempty fun _ hi => by cases hi⟩

/-- The invariant of a collection under construction. -/
abbrev CollectionBuilder.Invariant (schema : CollectionSchema) (b : CollectionBuilder) : Prop :=
  Consistent b.order b.order.length b.positions.get? b.records.get? b.indexes schema

/-- Fresh indexes over nothing.  No document is there, so each of its clauses is about
nothing. -/
theorem CollectionBuilder.invariant_start {schema : CollectionSchema}
    {indexes : Indexes (OrderedMap JsString Bucket)} (h : FreshIndexes schema indexes) :
    CollectionBuilder.Invariant schema
      { indexes, order := [], positions := .empty, records := .empty } where
  nodup := List.nodup_nil
  mem_order key := by simp
  position_some key := by simp
  sorted := .nil
  bound key i h := by cases h
  keyed key d h := by cases h
  indexed index hi := indexInvariant_empty trivial fun value => by rw [h.empty index hi]; rfl

/-- `get` of a map after `set` is `get` before, updated at the key. -/
theorem OrderedMap.get?_set_eq_update {K V : Type} [DecidableEq K] (m : OrderedMap K V) (key : K)
    (value : V) : (m.set key value).get? = Function.update m.get? key (some value) := by
  funext k
  rw [OrderedMap.get?_set, Function.update_apply]
  simp [eq_comm]

section

variable {σ : Type} [DecidableEq σ] {graph : JsGraph σ} {name : JsString}
  {schema : CollectionSchema}

/-- **What one document of a seed does**: it is refused, because it is invalid, its
key is taken or the indexes refuse it; or it goes to the end. -/
theorem CollectionBuilder.add_spec {b : CollectionBuilder} (h : b.Invariant schema) (input : σ) :
    (∃ error, b.add graph name schema input = .error error ∧
      ∀ document key encoded, validateDocument name graph input schema = .ok document →
        documentKey document schema = .ok key → encodeKey key = .ok encoded →
          (b.records.get? encoded).isSome ∨
            ¬AdmitsAll b.records.get? (definitions b.indexes) document) ∨
    (∃ document key encoded b', validateDocument name graph input schema = .ok document ∧
      documentKey document schema = .ok key ∧ encodeKey key = .ok encoded ∧
      b.records.get? encoded = none ∧
      AdmitsAll b.records.get? (definitions b.indexes) document ∧
      b.add graph name schema input = .ok b' ∧ b'.Invariant schema ∧
      b'.order = b.order ++ [encoded] ∧
      b'.records.get? = Function.update b.records.get? encoded (some document) ∧
      definitions b'.indexes = definitions b.indexes) := by
  unfold add
  cases hv : validateDocument name graph input schema with
  | error e => exact .inl ⟨e, rfl, fun _ _ _ hv => by cases hv⟩
  | ok document =>
      obtain ⟨key, hkey⟩ := documentKey_of_validateDocument hv
      obtain ⟨encoded, henc⟩ := encodeKey_of_documentKey hkey
      simp only [bind, Except.bind, hkey, henc]
      by_cases hh : b.records.has encoded = true
      · rw [if_pos hh]
        refine .inl ⟨_, rfl, fun d k e hd hk he => .inl ?_⟩
        obtain rfl := Except.ok.inj hd
        obtain rfl := Except.ok.inj (hkey.symm.trans hk)
        obtain rfl := Except.ok.inj (henc.symm.trans he)
        exact hh
      · rw [if_neg hh]
        have hfree : b.records.get? encoded = none := Option.not_isSome_iff_eq_none.1 hh
        rcases addToIndexes_spec h.indexed hfree name document with
          ⟨error, hadd, hn⟩ | ⟨indexes', hadd, ha, hdef, hinv⟩
        · rw [hadd]
          refine .inl ⟨error, rfl, fun d k e hd hk he => .inr ?_⟩
          obtain rfl := Except.ok.inj hd
          exact hn
        · rw [hadd]
          refine .inr ⟨document, key, encoded, _, rfl, hkey, henc, hfree, ha, rfl, ?_, rfl,
            OrderedMap.get?_set_eq_update .., hdef⟩
          unfold Invariant
          rw [List.length_append, OrderedMap.get?_set_eq_update, OrderedMap.get?_set_eq_update]
          exact h.putNew hfree ⟨key, hkey, henc⟩ hinv

/-- Finishing a collection keeps what was built. -/
theorem CollectionBuilder.Invariant.build {b : CollectionBuilder} (h : b.Invariant schema)
    (revision : ℕ) : (b.build schema revision).Invariant := by
  refine ⟨trivial, trivial, ?_⟩
  refine h.withIndexes fun index' hi' => ?_
  obtain ⟨index, hi, rfl⟩ := mem_values_mapVals hi'
  exact (h.indexed index hi).congr rfl trivial fun _ => rfl

end

/-! ### The internal check -/

/-- A check whose condition holds passes. -/
theorem require_ok {condition : Prop} [Decidable condition] (h : condition) (message : JsString) :
    require condition message = .ok () := if_pos h

/-- A well-formed map with the keys of a list without repetitions is as long. -/
theorem size_eq_length {V : Type} {m : ReadonlyMap JsString V} (h : m.WF) {order : List JsString}
    (hn : order.Nodup) (hm : ∀ key, key ∈ order ↔ (m.get key).isSome) :
    order.length = m.size := by
  rw [ReadonlyMap.size_eq h]
  refine List.Perm.length_eq ((List.perm_ext_iff_of_nodup hn (ReadonlyMap.keys_nodup h)).2 ?_)
  intro key
  rw [hm, ← ReadonlyMap.has_iff_mem_keys h, ReadonlyMap.has_eq_isSome]

/-- Increasing positions pass the loop over the order.  The key before is carried along, since
each position is compared with the one before it. -/
theorem checkPositions_ok {name : JsString} {c : StoredCollection} :
    ∀ {order : List JsString} {previous : Option JsString},
      (∀ key ∈ order, (c.positions.get key).isSome) →
        (previous.toList ++ order).Pairwise
          (fun a b => ∀ i j, c.positions.get a = some i → c.positions.get b = some j → i < j) →
          checkPositions name c previous order = .ok ()
  | [], _, _, _ => rfl
  | key :: rest, previous, hs, hp => by
      have hrest : checkPositions name c (some key) rest = .ok () := by
        refine checkPositions_ok (fun k hk => hs k (List.mem_cons_of_mem _ hk)) ?_
        exact hp.sublist (List.sublist_append_right ..)
      have hhead : checkPosition name c previous key = .ok () := by
        obtain ⟨rank, hrank⟩ := Option.isSome_iff_exists.1 (hs key (List.mem_cons_self ..))
        unfold checkPosition
        rw [hrank]
        cases previous with
        | none => rfl
        | some p =>
            simp only [Option.bind_eq_bind, Option.bind_some]
            cases hprev : c.positions.get p with
            | none => rfl
            | some i =>
                refine require_ok ?_ _
                exact (List.pairwise_cons.1 hp).1 key (List.mem_cons_self ..) i rank hprev hrank
      rw [checkPositions, hhead]
      exact hrest

/-- An index of the check: the expected buckets, without uniqueness. -/
def SecondaryIndexState.expecting (index : SecondaryIndexState StoredBuckets)
    (expected : OrderedMap JsString Bucket) : SecondaryIndexState (OrderedMap JsString Bucket) :=
  { index.withBuckets expected with unique := false }

/-- Expecting one more record is adding it to the index.  The check has a loop of its own for
this, and where the path resolves the two agree. -/
theorem expectBucket_eq {name : JsString} {index : SecondaryIndexState StoredBuckets}
    {expected : OrderedMap JsString Bucket} {record : JsString × JsonObject}
    (h : Resolves index.path record.2) : expectBucket name index expected record =
      .ok (addToIndex name record.1 record.2 (index.expecting expected)).buckets := by
  have hv := indexValue_of_resolves h name index.name
  have hv' : indexValue name (index.expecting expected).name (index.expecting expected).path
      record.2 = .ok (indexText index.path record.2) := hv
  rw [expectBucket, addToIndex, hv, hv']
  cases indexText index.path record.2 <;> rfl

/-- **The rebuilt index holds the records.**  By induction on the records: each is added under a
key the index does not hold yet, so that the check compares like with like. -/
theorem expected_invariant (name : JsString) {index : SecondaryIndexState StoredBuckets} :
    ∀ (records : List (JsString × JsonObject)) {content : Content}
      {expected : OrderedMap JsString Bucket},
      IndexInvariant content (index.expecting expected) → (records.map Prod.fst).Nodup →
        (∀ e ∈ records, content e.1 = none ∧ Resolves index.path e.2) →
          ∃ final, records.foldlM (expectBucket name index) expected = .ok final ∧
            IndexInvariant (fun key => (Assoc.get? records key).or (content key))
              (index.expecting final)
  | [], content, expected, h, _, _ => ⟨expected, rfl, h⟩
  | record :: rest, content, expected, h, hn, hr => by
      obtain ⟨hfree, hres⟩ := hr record (List.mem_cons_self ..)
      obtain ⟨hne, hn⟩ := List.nodup_cons.1 hn
      have hadd := h.add hfree (⟨hres, fun hu => by cases hu⟩ : Admits content index.path false _) name
      have hsame : addToIndex name record.1 record.2 (index.expecting expected) =
          index.expecting (addToIndex name record.1 record.2 (index.expecting expected)).buckets := by
        unfold addToIndex
        split <;> rfl
      rw [hsame] at hadd
      obtain ⟨final, hfold, hfinal⟩ := expected_invariant name rest hadd hn fun e he => by
        have hne' : e.1 ≠ record.1 := fun heq => hne (heq ▸ List.mem_map_of_mem he)
        exact ⟨by rw [Function.update_of_ne hne']; exact (hr e (List.mem_cons_of_mem _ he)).1,
          (hr e (List.mem_cons_of_mem _ he)).2⟩
      refine ⟨final, by rw [List.foldlM_cons, expectBucket_eq hres]; exact hfold, ?_⟩
      have heq : (fun key => (Assoc.get? (record :: rest) key).or (content key)) =
          fun key => (Assoc.get? rest key).or
            (Function.update content record.1 (some record.2) key) := by
        funext key
        by_cases hk : record.1 = key
        · subst hk
          simp [Assoc.get?, Assoc.get?_eq_none_iff.2 hne]
        · simp [Assoc.get?, hk, Function.update_of_ne (Ne.symm hk)]
      rw [heq]
      exact hfinal

/-- The lookups of the listed entries are those of the map. -/
theorem get?_entries {V : Type} {m : ReadonlyMap JsString V} (h : m.WF) (key : JsString) :
    Assoc.get? m.entries key = m.get key := by
  refine Option.ext fun v => ?_
  rw [Assoc.get?_eq_some_iff (ReadonlyMap.keys_nodup h), ReadonlyMap.mem_entries_iff h]

/-- Two indexes that hold the same documents have the same buckets, up to their order. -/
theorem holds_congr {M N : Type} [MapView M JsString Bucket] [MapView N JsString Bucket]
    {content : Content} {index : SecondaryIndexState M} {index' : SecondaryIndexState N}
    (h : IndexInvariant content index) (h' : IndexInvariant content index')
    (hp : index'.path = index.path) (value key : JsString) :
    Holds index value key ↔ Holds index' value key := by
  rw [h.holds_iff, h'.holds_iff, hp]

/-- A bucket exists where somebody is in it. -/
theorem exists_bucket_iff {M : Type} [MapView M JsString Bucket] {index : SecondaryIndexState M}
    (h : BucketsWF index) (value : JsString) :
    (MapView.get index.buckets value).isSome ↔ ∃ key, Holds index value key := by
  refine ⟨fun hs => ?_, fun ⟨key, bucket, hb, _⟩ => by rw [hb]; rfl⟩
  obtain ⟨bucket, hb⟩ := Option.isSome_iff_exists.1 hs
  obtain ⟨key, hkey⟩ := List.exists_mem_of_ne_nil _ (h.nonempty value bucket hb)
  exact ⟨key, bucket, hb, OrderedMap.has_iff.2 hkey⟩

/-- An index that holds the records passes its check.  Expected and actual buckets hold the same
keys under the same values, and none of them is empty. -/
theorem checkIndexState_ok {name : JsString} {c : StoredCollection}
    {index : SecondaryIndexState StoredBuckets} (hwf : c.records.WF)
    (h : IndexInvariant c.records.get index) : checkIndexState name c index = .ok () := by
  have hempty : IndexInvariant (fun _ => none) (index.expecting .empty) :=
    indexInvariant_empty trivial fun _ => rfl
  obtain ⟨expected, hfold, hexp⟩ := expected_invariant name c.records.entries hempty
    (ReadonlyMap.keys_nodup hwf) fun e he =>
      ⟨rfl, h.resolves e.1 e.2 ((ReadonlyMap.mem_entries_iff hwf _ _).1 he)⟩
  have hcontent : (fun key => (Assoc.get? c.records.entries key).or none) = c.records.get := by
    funext key
    rw [Option.or_none, get?_entries hwf]
  rw [hcontent] at hexp
  have hsame := fun value key => holds_congr hexp h rfl value key
  have hsize : expected.size = index.buckets.size := by
    rw [OrderedMap.size_eq_keys]
    refine size_eq_length h.buckets.wf expected.keys_nodup fun value => ?_
    rw [OrderedMap.mem_keys_iff]
    have h₁ := exists_bucket_iff hexp.buckets value
    have h₂ := exists_bucket_iff h.buckets value
    exact h₁.trans ((exists_congr (hsame value)).trans h₂.symm)
  have hbuckets : expected.entries.forM (checkBucket name index) = .ok () := by
    rw [forM_eq_ok]
    rintro ⟨value, bucket⟩ he
    have hb : MapView.get (index.expecting expected).buckets value = some bucket :=
      OrderedMap.get?_eq_some_iff.2 he
    obtain ⟨actual, hact⟩ := Option.isSome_iff_exists.1 ((exists_bucket_iff h.buckets value).2 (by
      obtain ⟨key, hkey⟩ := (exists_bucket_iff hexp.buckets value).1 (by rw [hb]; rfl)
      exact ⟨key, (hsame value key).1 hkey⟩))
    have hhas : ∀ key, bucket.has key = true ↔ actual.has key = true := by
      intro key
      have := hsame value key
      unfold Holds at this
      rw [hb, hact] at this
      simpa using this
    have hlen : actual.size = bucket.size := by
      rw [OrderedMap.size_eq_keys, OrderedMap.size_eq_keys]
      refine List.Perm.length_eq ((List.perm_ext_iff_of_nodup actual.keys_nodup
        bucket.keys_nodup).2 fun key => ?_)
      rw [← OrderedMap.has_iff, ← OrderedMap.has_iff, hhas]
    have hact' : index.buckets.get value = some actual := hact
    have hcond : (decide (actual.size ≠ bucket.size) ||
        bucket.keys.any fun key => !actual.has key) = false := by
      rw [Bool.or_eq_false_iff]
      refine ⟨by simp [hlen], List.any_eq_false.2 fun key hk => ?_⟩
      simp [(hhas key).1 (OrderedMap.has_iff.2 hk)]
    simp only [checkBucket, hact', hcond]
    rfl
  rw [checkIndexState, hfold]
  show require _ _ >>= (fun _ => expected.entries.forM (checkBucket name index)) = _
  rw [require_ok hsize]
  exact hbuckets

/-- **A collection with the invariant passes the internal check.**  Each of its requirements is
one of the clauses of the invariant, in the order of the code. -/
theorem StoredCollection.Invariant.assert_ok {c : StoredCollection} (h : c.Invariant)
    (name : JsString) : assertCollectionInvariant name c = .ok () := by
  have hcons := h.consistent
  have hlen := size_eq_length h.records_wf hcons.nodup hcons.mem_order
  have hpos := size_eq_length h.positions_wf hcons.nodup fun key => (hcons.position_some key).symm
  have hrecords : c.records.entries.forM (checkRecord name c) = .ok () := by
    rw [forM_eq_ok]
    rintro ⟨key, document⟩ he
    have hget := (ReadonlyMap.mem_entries_iff h.records_wf key document).1 he
    obtain ⟨k, hk, henc⟩ := hcons.keyed key document hget
    have hm : key ∈ c.order := (hcons.mem_order key).2 (by rw [hget]; rfl)
    simp [checkRecord, hk, henc, hm, bind, Except.bind]
  have hindexes : c.indexes.values.forM (checkIndexState name c) = .ok () :=
    forM_eq_ok.2 fun index hi => checkIndexState_ok h.records_wf (hcons.indexed index hi)
  have hpositions : checkPositions name c none c.order = .ok () :=
    checkPositions_ok (fun key hk => (hcons.position_some key).2 hk) hcons.sorted
  unfold assertCollectionInvariant
  rw [require_ok hlen, require_ok (hpos.symm.trans hlen), require_ok hcons.nodup, hpositions,
    hrecords, hindexes]
  rfl

/-- Collections with the invariant pass the check of all. -/
theorem verifyCollections_ok {collections : OrderedMap JsString StoredCollection}
    (h : ∀ c ∈ collections.values, c.Invariant) :
    (collections.entries.forM fun e => assertCollectionInvariant e.1 e.2) = .ok () :=
  forM_eq_ok.2 fun e he => (h e.2 (List.mem_map_of_mem he)).assert_ok e.1

end NewtonDB
