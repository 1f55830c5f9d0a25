/-
# Collections built again of their documents

The documents of a collection, taken in order and as they are, are what the constructor
accepts: they are valid, their keys are distinct and the indexes accept them one after the
other.  What it builds of them has the same documents under the same keys in the same order,
and the same keys in the buckets of its indexes (`StoredCollection.exists_rebuilt`).

The argument runs on the store.  A collection represents one of the store
(`StoredCollection.Invariant.exists_represents`), and a collection of the store accepts its
own documents (`StoreCollection.addSeed_values`).
-/

import NewtonDB.Engine.Records
import NewtonDB.Engine.FailedWrites

namespace NewtonDB

/-! ### The documents by key -/

/-- The documents of a collection in order, by key. -/
def StoredCollection.keyedDocuments (s : StoredCollection) : List (Key × JsonObject) :=
  s.order.filterMap fun text => (s.records.get text).bind fun document =>
    (keyOf s.schema document).map fun key => (key, document)

/-- **A collection represents one of the store.**  Its documents, in order, under the keys they
are encoded from. -/
theorem StoredCollection.Invariant.exists_represents {s : StoredCollection} (h : s.Invariant)
    (hdefinitions : definitions s.indexes = s.schema.indexes.map fun d => (d.name, d)) :
    ∃ c, s.Represents c ∧ ∀ e ∈ c.documents.entries, keyOf c.schema e.2 = some e.1 := by
  have hkeyed : ∀ text document, s.records.get text = some document →
      ∃ key, keyOf s.schema document = some key ∧ key.encode = text := by
    intro text document hd
    obtain ⟨k, hk, henc⟩ := h.consistent.keyed text document hd
    obtain ⟨key, hkey, htext⟩ := encodeKey_eq_ok_iff.1 henc
    exact ⟨key, (keyOf_of_documentKey hk).trans hkey, htext⟩
  have hentries : ∀ {key document}, (key, document) ∈ s.keyedDocuments ↔
      s.records.get key.encode = some document ∧ keyOf s.schema document = some key := by
    intro key document
    rw [keyedDocuments, List.mem_filterMap]
    constructor
    · rintro ⟨text, -, hf⟩
      obtain ⟨d, hd, hf⟩ := Option.bind_eq_some_iff.1 hf
      obtain ⟨k, hk, he⟩ := Option.map_eq_some_iff.1 hf
      obtain ⟨rfl, rfl⟩ := Prod.mk.inj he
      obtain ⟨k', hk', htext⟩ := hkeyed text d hd
      obtain rfl := Option.some.inj (hk.symm.trans hk')
      exact ⟨htext.symm ▸ hd, hk⟩
    · rintro ⟨hd, hk⟩
      refine ⟨key.encode, (h.consistent.mem_order _).2 (by rw [hd]; rfl), ?_⟩
      rw [hd, Option.bind_some, hk]
      rfl
  have horder : s.keyedDocuments.map (fun e => e.1.encode) = s.order := by
    rw [keyedDocuments, List.map_filterMap]
    refine Eq.trans (List.filterMap_congr fun text hm => ?_) (List.filterMap_some)
    obtain ⟨document, hd⟩ := Option.isSome_iff_exists.1 ((h.consistent.mem_order text).1 hm)
    obtain ⟨key, hk, htext⟩ := hkeyed text document hd
    rw [hd, Option.bind_some, hk]
    exact congrArg some htext
  have hnodup : (s.keyedDocuments.map Prod.fst).Nodup := by
    refine List.Nodup.of_map Key.encode ?_
    rw [List.map_map]
    exact horder ▸ h.consistent.nodup
  let documents : Documents := ⟨s.keyedDocuments, hnodup⟩
  refine ⟨⟨s.schema, documents⟩, ⟨h, rfl, hdefinitions, ?_, fun key => ?_⟩,
    fun e he => (hentries.1 he).2⟩
  · rw [OrderedMap.keys, List.map_map]
    exact horder.symm
  · refine Option.ext fun document => ?_
    rw [OrderedMap.get?_eq_some_iff]
    refine ⟨fun hd => hentries.2 ⟨hd, ?_⟩, fun hm => (hentries.1 hm).1⟩
    obtain ⟨key', hk, htext⟩ := hkeyed _ document hd
    rwa [← Key.encode_injective htext]

/-! ### A collection of the store accepts its own documents -/

namespace StoreCollection

variable {c : StoreCollection}

/-- Where there are fewer documents, as much is accepted.  A document is compared with those
that are there, index by index. -/
theorem accepts_of_fewer {done : Documents} {key : Key} {document : JsonObject}
    (hfewer : ∀ e ∈ done.entries, e ∈ c.documents.entries)
    (h : c.accepts key document = true) :
    StoreCollection.accepts ⟨c.schema, done⟩ key document = true := by
  unfold accepts at h ⊢
  rw [List.all_eq_true] at h ⊢
  intro index hi
  have haccepts := h index hi
  unfold Documents.accepts at haccepts ⊢
  rw [Bool.and_eq_true, Bool.not_eq_true', Bool.and_eq_false_iff] at haccepts ⊢
  refine haccepts.imp_right fun hunique => hunique.imp_right fun hnone => ?_
  rw [List.any_eq_false] at hnone ⊢
  exact fun e he => hnone e (hfewer e he)

/-- **A collection of the store, built again of its documents.**  Each is accepted after those
before it, since all of them were accepted together. -/
theorem addSeed_values (hvalid : ∀ e ∈ c.documents.entries, c.schema.isValid e.2 = true)
    (hkey : ∀ e ∈ c.documents.entries, keyOf c.schema e.2 = some e.1)
    (haccepts : ∀ e ∈ c.documents.entries, c.accepts e.1 e.2 = true) :
    (c.documents.values.map Json.obj).foldlM (StoreCollection.addSeed Json.graph)
      ⟨c.schema, .empty⟩ = some c := by
  have hrest : ∀ (rest : List (Key × JsonObject)) (done : Documents),
      c.documents.entries = done.entries ++ rest →
        ((rest.map Prod.snd).map Json.obj).foldlM (StoreCollection.addSeed Json.graph)
          ⟨c.schema, done⟩ = some c := by
    intro rest
    induction rest with
    | nil =>
        rintro ⟨done, hnodup⟩ he
        obtain ⟨schema, entries, hn⟩ := c
        obtain rfl : entries = done := he.trans (List.append_nil _)
        rfl
    | cons e rest ih =>
        intro done he
        have hm : e ∈ c.documents.entries := he ▸ List.mem_append_right _ (List.mem_cons_self ..)
        have hfewer : ∀ d ∈ done.entries, d ∈ c.documents.entries :=
          fun d hd => he ▸ List.mem_append_left _ hd
        have hfree : e.1 ∉ done.keys := by
          have hnodup := c.documents.keys_nodup
          rw [OrderedMap.keys, he, List.map_append, List.map_cons] at hnodup
          exact fun hin => (List.nodup_append.1 hnodup).2.2 e.1 hin e.1 (List.mem_cons_self ..) rfl
        have hadd : StoreCollection.addSeed Json.graph ⟨c.schema, done⟩ (.obj e.2) =
            some ⟨c.schema, done.set e.1 e.2⟩ := by
          have hread : (Json.graph.document? (.obj e.2)).filter c.schema.isValid = some e.2 :=
            Option.filter_eq_some_iff.2
              ⟨CollectionSchema.document?_of_isValid (hvalid e hm), hvalid e hm⟩
          unfold StoreCollection.addSeed
          rw [hread]
          simp only [bind, Option.bind, hkey e hm]
          rw [if_neg (fun hhas => hfree (OrderedMap.has_iff.1 hhas)),
            if_pos (accepts_of_fewer hfewer (haccepts e hm))]
          rfl
        rw [List.map_cons, List.map_cons, List.foldlM_cons, hadd]
        refine ih _ ?_
        rw [OrderedMap.entries_set_of_not_mem hfree, he, List.append_assoc]
        rfl
  exact hrest c.documents.entries .empty rfl

end StoreCollection

/-! ### Collections of the engine -/

/-- **A collection built again**: the same documents under the same keys in the same order,
and the same keys in the buckets of the indexes. -/
structure StoredCollection.Rebuilt (s s' : StoredCollection) : Prop where
  schema : s'.schema = s.schema
  order : s'.order = s.order
  records : s'.records.get = s.records.get
  indexes : indexContents s'.indexes = indexContents s.indexes

/-- Collections that represent one collection of the store.  The store fixes the order, the
records and the declarations, and the rest follows from the invariant. -/
theorem StoredCollection.Represents.rebuilt {s s' : StoredCollection} {c : StoreCollection}
    (h : s.Represents c) (h' : s'.Represents c) : s.Rebuilt s' := by
  have horder : s'.order = s.order := h'.models.order.trans h.models.order.symm
  have hrecords : s'.records.get = s.records.get := by
    funext text
    by_cases hm : text ∈ s.order
    · have hkey := hm
      rw [h.models.order] at hkey
      obtain ⟨key, -, rfl⟩ := List.mem_map.1 hkey
      rw [h.models.content, h'.models.content]
    · have hnone : ∀ {t : StoredCollection}, t.Invariant → t.order = s.order →
          t.records.get text = none := fun ht he =>
        Option.not_isSome_iff_eq_none.1 fun hs =>
          hm (he ▸ (ht.consistent.mem_order text).2 hs)
      rw [hnone h.invariant rfl, hnone h'.invariant horder]
  have hindexes := h'.invariant.consistent.indexed
  rw [hrecords] at hindexes
  exact ⟨h'.schema.trans h.schema.symm, horder, hrecords,
    h.invariant.consistent.indexed.contents_eq hindexes
      (h'.definitions.trans h.definitions.symm)⟩

/-- **A collection of valid documents is built again of them.**  It may be built at another
revision; what it holds does not depend on that. -/
theorem StoredCollection.exists_rebuilt {s : StoredCollection} {name : JsString} (h : s.Invariant)
    (hdefinitions : definitions s.indexes = s.schema.indexes.map fun d => (d.name, d))
    (hvalid : s.Records IsValid name) (hindexes : (createIndexes name s.schema).isOk = true)
    (revision : ℕ) : ∃ s', createStoredCollection Json.graph name (s.documents.map Json.obj)
      s.schema revision = .ok s' ∧ s.Rebuilt s' := by
  obtain ⟨c, hrep, hkey⟩ := h.exists_represents hdefinitions
  have hstored : ∀ e ∈ c.documents.entries, s.records.get e.1.encode = some e.2 := fun e he =>
    (hrep.models.content e.1).trans (OrderedMap.get?_eq_some_iff.2 he)
  have hfold : (s.documents.map Json.obj).foldlM (StoreCollection.addSeed Json.graph)
      ⟨s.schema, .empty⟩ = some c := by
    rw [hrep.documents_eq, hrep.schema]
    refine StoreCollection.addSeed_values (fun e he => ?_) hkey fun e he => ?_
    · rw [← hrep.schema]
      exact ((validateDocument_graph_eq_ok_iff name).1 (hvalid _ _ (hstored e he))).2
    · refine (admitsAll_iff_accepts hrep.models h.consistent.mem_order e.1 e.2).1 ?_
      rw [← hrep.definitions]
      exact admitsAll_of_invariant h.consistent.indexed (hstored e he)
  rcases createStoredCollection_represents Json.graph name (s.documents.map Json.obj) s.schema
      revision with ⟨error, -, hfails⟩ | ⟨s', c', hok, -, hfold', hrep'⟩
  · rcases hfails with hfails | hfails
    · obtain ⟨indexes, hi⟩ := exists_of_isOk hindexes
      rw [hi] at hfails
      cases hfails
    · rw [hfold] at hfails
      cases hfails
  · obtain rfl := Option.some.inj (hfold.symm.trans hfold')
    exact ⟨s', hok, hrep.rebuilt hrep'⟩

end NewtonDB
