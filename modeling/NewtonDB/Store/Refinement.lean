/-
# The engine refines the store

The simulation.  A committed collection represents a collection of the store when
it satisfies its representation invariant and its order and records are those of
the documents; a transaction of the engine simulates one of the store when its
working collections represent the store's collections and everything it has not
written to is as in the root.  Every call, commit and script goes the same way on
both sides, and the internal check never throws on the way.
-/

import NewtonDB.Store.Store
import NewtonDB.Engine.CollectionCheck
import NewtonDB.Engine.Serializability

namespace NewtonDB

/-! ### Documents -/

/-- The order and the records are those of the documents. -/
structure Models (order : List JsString) (content : Content) (documents : Documents) : Prop where
  order : order = documents.keys.map Key.encode
  content : ∀ key : Key, content key.encode = documents.get? key

namespace Models

variable {order : List JsString} {content : Content} {documents : Documents} {key : Key}
  {document : JsonObject}

/-- Writing a document.  A key that is there keeps its place, and a new one goes to the end. -/
theorem put (h : Models order content documents) (key : Key) (document : JsonObject) :
    Models (if (content key.encode).isSome then order else order ++ [key.encode])
      (Function.update content key.encode (some document)) (documents.set key document) where
  order := by
    have hmem : key ∈ documents.keys ↔ (content key.encode).isSome := by
      rw [OrderedMap.mem_keys_iff, h.content]
    rw [OrderedMap.keys_set, h.order]
    by_cases hk : key ∈ documents.keys
    · rw [if_pos hk, if_pos (hmem.1 hk)]
    · rw [if_neg hk, if_neg (mt hmem.2 hk), List.map_append, List.map_singleton]
  content key' := by
    rw [OrderedMap.get?_set]
    by_cases hk : key = key'
    · rw [if_pos hk, hk, Function.update_self]
    · rw [if_neg hk, Function.update_of_ne fun e => hk (Key.encode_injective e).symm, h.content]

/-- Deleting a document.  The order loses the key, and the others keep their places. -/
theorem drop (h : Models order content documents) :
    Models (order.erase key.encode) (Function.update content key.encode none)
      (documents.delete key) where
  order := by
    rw [OrderedMap.keys_delete, h.order,
      ← List.map_erase fun _ _ => Key.encode_injective, documents.keys_nodup.erase_eq_filter]
    congr 1
    refine List.filter_congr fun k _ => ?_
    by_cases hk : k = key <;> simp [hk]
  content key' := by
    rw [OrderedMap.get?_delete]
    by_cases hk : key = key'
    · rw [if_pos hk, hk, Function.update_self]
    · rw [if_neg hk, Function.update_of_ne fun e => hk (Key.encode_injective e).symm, h.content]

/-- A stored document is a document of the store.  The text it is stored under is the encoding
of that key. -/
theorem exists_key (h : Models order content documents)
    (hm : ∀ text, text ∈ order ↔ (content text).isSome) {text : JsString}
    (ht : content text = some document) :
    ∃ key : Key, key.encode = text ∧ documents.get? key = some document := by
  have hin : text ∈ order := (hm text).2 (by rw [ht]; rfl)
  rw [h.order] at hin
  obtain ⟨key, -, rfl⟩ := List.mem_map.1 hin
  exact ⟨key, rfl, by rw [← h.content, ht]⟩

end Models

/-- The store decides whether a path resolves. -/
theorem resolvesAt_iff {path : PropertyPath} {document : JsonObject} :
    resolvesAt path document = true ↔ Resolves path document := by
  unfold resolvesAt Resolves
  cases readPath path (.obj document) <;> simp

/-- Strictly equal values have the same index text, and only they.  The index text is injective
up to `===`. -/
theorem sameAt_iff {path : PropertyPath} {a b : JsonObject} :
    sameAt path a b = true ↔ ∃ value, indexText path a = some value ∧ indexText path b = some value := by
  unfold sameAt indexText
  cases readPath path (.obj a) >>= Json.prim? with
  | none => simp
  | some p =>
      cases readPath path (.obj b) >>= Json.prim? with
      | none => simp
      | some q =>
          simp only [Option.map_some, Option.some.injEq, exists_eq_left']
          rw [← encodeIndexValue_eq_iff, eq_comm]

/-- **The indexes admit what the store accepts**: uniqueness read off the
documents. -/
theorem admitsAll_iff_accepts {c : StoreCollection} {order : List JsString} {content : Content}
    (h : Models order content c.documents) (hm : ∀ text, text ∈ order ↔ (content text).isSome)
    (key : Key) (document : JsonObject) :
    AdmitsAll (Function.update content key.encode none)
        (c.schema.indexes.map fun d => (d.name, d)) document ↔
      c.accepts key document = true := by
  unfold AdmitsAll StoreCollection.accepts
  rw [List.all_eq_true, List.forall_mem_map]
  refine forall₂_congr fun index _ => ?_
  unfold Admits Documents.accepts
  rw [Bool.and_eq_true, resolvesAt_iff]
  refine and_congr_right fun _ => ?_
  rw [Bool.not_eq_true', Bool.and_eq_false_iff]
  cases index.unique with
  | false => simp
  | true =>
      simp only [forall_const, Bool.true_eq_false, false_or]
      rw [List.any_eq_false]
      constructor
      · rintro hadm ⟨other, d⟩ he hand
        obtain ⟨hne, hsame⟩ := Bool.and_eq_true_iff.1 hand
        obtain ⟨value, hd, hv⟩ := sameAt_iff.1 hsame
        refine hadm other.encode d value ?_ hd hv
        rw [Function.update_of_ne fun e => of_decide_eq_true hne (Key.encode_injective e), h.content]
        exact OrderedMap.get?_eq_some_iff.2 he
      · intro hnone text other value ht hov hdv
        have hne : text ≠ key.encode := by
          rintro rfl
          rw [Function.update_self] at ht
          cases ht
        rw [Function.update_of_ne hne] at ht
        obtain ⟨k, rfl, hk⟩ := h.exists_key hm ht
        refine hnone (k, other) (OrderedMap.get?_eq_some_iff.1 hk) ?_
        rw [Bool.and_eq_true, decide_eq_true_iff]
        exact ⟨fun e : k = key => hne (by rw [e]), sameAt_iff.2 ⟨value, hov, hdv⟩⟩

/-! ### Collections -/

/-- A working collection that no commit has published represents a collection of the
store. -/
structure WorkingCollection.Represents (w : WorkingCollection) (c : StoreCollection) : Prop where
  invariant : w.Invariant
  unsealed : w.isSealed = false
  schema : w.schema = c.schema
  definitions : definitions w.indexes = c.schema.indexes.map fun d => (d.name, d)
  models : Models w.order w.records.get c.documents

/-- A committed collection represents a collection of the store. -/
structure StoredCollection.Represents (s : StoredCollection) (c : StoreCollection) : Prop where
  invariant : s.Invariant
  schema : s.schema = c.schema
  definitions : definitions s.indexes = c.schema.indexes.map fun d => (d.name, d)
  models : Models s.order s.records.get c.documents

/-- A clone represents what the collection does. -/
theorem StoredCollection.Represents.clone {s : StoredCollection} {c : StoreCollection}
    (h : s.Represents c) : s.clone.Represents c where
  invariant := h.invariant.clone
  unsealed := rfl
  schema := h.schema
  definitions := (definitions_cloneIndexes s.indexes).trans h.definitions
  models := ⟨h.models.order, fun key => (OverlayMap.get_new ..).trans (h.models.content key)⟩

/-- What is published represents what the working collection did. -/
theorem WorkingCollection.Represents.publish {w : WorkingCollection} {c : StoreCollection}
    (h : w.Represents c) (revision : ℕ) : (w.publish revision).Represents c where
  invariant := h.invariant.publish revision
  schema := h.schema
  definitions := (definitions_sealIndexes w.indexes).trans h.definitions
  models := ⟨h.models.order, fun key =>
    (OverlayMap.get_sealed h.invariant.records_wf _).trans (h.models.content key)⟩

/-- **The documents of a committed collection, in order, are those of the store.**  The
invariant has them in the order of the keys, and the store keeps that order. -/
theorem StoredCollection.Represents.documents_eq {s : StoredCollection} {c : StoreCollection}
    (h : s.Represents c) : s.documents = c.documents.values := by
  rw [StoredCollection.documents, h.models.order, List.filterMap_map, OrderedMap.keys,
    List.filterMap_map, OrderedMap.values, ← List.filterMap_eq_map]
  refine List.filterMap_congr fun e he => ?_
  show s.records.get e.1.encode = some e.2
  rw [h.models.content]
  exact OrderedMap.get?_eq_some_iff.2 he

namespace WorkingCollection.Represents

variable {w : WorkingCollection} {c : StoreCollection}

/-- **A collection in which a document was put** represents the store's, with the document put
under its key. -/
theorem put {w' : WorkingCollection} {key : Key} {document : JsonObject} (h : w.Represents c)
    (hp : Put key.encode document w w') : w'.Represents (c.put key document) where
  invariant := hp.invariant
  unsealed := hp.isSealed.trans h.unsealed
  schema := hp.schema.trans h.schema
  definitions := hp.definitions.trans h.definitions
  models := by rw [hp.order, hp.records]; exact h.models.put key document

/-- Admission by the indexes is acceptance by the store. -/
theorem admits_iff (h : w.Represents c) {key : Key} {document : JsonObject} :
    AdmitsAll (Function.update w.records.get key.encode none)
        (NewtonDB.definitions w.indexes) document ↔ c.accepts key document = true := by
  rw [h.definitions]
  exact admitsAll_iff_accepts h.models h.invariant.consistent.mem_order key document

/-- An insert of the store, with what the engine prepares.  What the store checks on its own is,
by `prepareInsert_eq_prepare`, what the engine prepares. -/
theorem insert_eq (c : StoreCollection) (name : JsString) (input : JsInput) (upsert : Bool)
    (generated : GeneratorOutcome) : c.insert input upsert generated =
      ((prepareInsert name input c.schema generated).toOption >>= fun p =>
        p.primaryKey.toKey? >>= fun key =>
          if c.documents.has key && !upsert then none
          else if c.accepts key p.document then some (p.primaryKey, c.put key p.document)
          else none) := by
  unfold StoreCollection.insert
  rw [← prepareInsert_eq_prepare name]
  cases (prepareInsert name input c.schema generated).toOption <;> rfl

/-- The prepared document is stored under the text of its key.  The key was encoded in the
preparation, so it has an encoding. -/
theorem exists_key_of_prepared {name : JsString} {input : JsInput} {schema : CollectionSchema}
    {generated : GeneratorOutcome} {p : Prepared}
    (hp : prepareInsert name input schema generated = .ok p) :
    ∃ key : Key, p.primaryKey.toKey? = some key ∧ key.encode = p.encoded := by
  unfold prepareInsert at hp
  obtain ⟨_, -, hp⟩ := bind_eq_ok.1 hp
  obtain ⟨document, -, hp⟩ := bind_eq_ok.1 hp
  obtain ⟨k, -, hp⟩ := bind_eq_ok.1 hp
  obtain ⟨encoded, henc, hp⟩ := bind_eq_ok.1 hp
  obtain rfl := Except.ok.inj hp
  exact encodeKey_eq_ok_iff.1 henc

/-- **An insert or upsert goes the same way on both sides.**  Either both refuse, or both write
the same document and the results represent each other again. -/
theorem insert (h : w.Represents c) (name : JsString) (input : JsInput) (upsert : Bool)
    (generated : GeneratorOutcome) :
    (∃ error, (w.insert name input upsert generated).2 = .error error ∧
      c.insert input upsert generated = none) ∨
    (∃ written c', (w.insert name input upsert generated).2 = .ok written ∧
      c.insert input upsert generated = some (written.change.primaryKey, c') ∧
      (w.insert name input upsert generated).1.Represents c') := by
  rcases insert_spec h.invariant name input upsert generated with
    ⟨error, herr, -, hwhy⟩ | ⟨p, hp, -, hfree, hadm, hput, hok⟩
  · refine .inl ⟨error, herr, ?_⟩
    rw [insert_eq c name, ← h.schema]
    cases hp : prepareInsert name input w.schema generated with
    | error e => rfl
    | ok p =>
        obtain ⟨key, hkey, henc⟩ := exists_key_of_prepared hp
        have hhas : c.documents.has key = (w.records.get p.encoded).isSome := by
          rw [← henc, h.models.content]; rfl
        simp only [Except.toOption, bind, Option.bind, hkey]
        rcases hwhy h.unsealed p hp with ⟨hs, hu⟩ | hn
        · rw [if_pos (by rw [hhas, hs, hu]; rfl)]
        · rw [← henc, h.admits_iff] at hn
          split_ifs
          · rfl
          · rfl
  · obtain ⟨key, hkey, henc⟩ := exists_key_of_prepared hp
    rw [← henc] at hput hadm hfree
    refine .inr ⟨_, c.put key p.document, hok, ?_, h.put hput⟩
    have hhas : c.documents.has key = (w.records.get key.encode).isSome := by
      rw [h.models.content]; rfl
    have hdup : ¬((c.documents.has key && !upsert) = true) := by
      rw [hhas, Bool.and_eq_true]
      rintro ⟨hs, hu⟩
      rw [hfree (by simpa using hu)] at hs
      cases hs
    rw [insert_eq c name, ← h.schema, hp]
    simp only [Except.toOption, bind, Option.bind, hkey]
    rw [if_neg hdup, if_pos (h.admits_iff.1 hadm)]

/-- The checks of an update are those of the store.  The new version must have the key of the
old one. -/
theorem prepareUpdate_ok_iff {name : JsString} {primaryKey : PrimaryKey} {key : Key}
    {before after : JsonObject} {patch : JsInput} {schema : CollectionSchema}
    (hkey : primaryKey.toKey? = some key) :
    prepareUpdate name primaryKey before patch schema = .ok after ↔
      patchDocument name before patch schema = .ok after ∧ keyOf schema after = some key := by
  unfold prepareUpdate checkSameKey
  cases hp : patchDocument name before patch schema with
  | error e => simp [bind, Except.bind]
  | ok document =>
      obtain ⟨k, hk⟩ : ∃ k, documentKey document schema = .ok k := by
        unfold patchDocument at hp
        obtain ⟨_, -, hp⟩ := bind_eq_ok.1 hp
        exact documentKey_of_validateDocument hp
      obtain ⟨text, htext⟩ := encodeKey_of_documentKey hk
      obtain ⟨key', hkey', -⟩ := encodeKey_eq_ok_iff.1 htext
      have hof := keyOf_of_documentKey hk
      have hsame := PrimaryKey.toKey?_eq_iff hkey' hkey
      simp only [bind, Except.bind, hk, Except.ok.injEq]
      constructor
      · intro hc
        split_ifs at hc with hs
        obtain rfl := Except.ok.inj hc
        exact ⟨rfl, by rw [hof, hkey', hsame.2 hs]⟩
      · rintro ⟨rfl, hc⟩
        rw [hof, hkey'] at hc
        rw [if_pos (hsame.1 (Option.some.inj hc))]
        rfl

/-- **An update goes the same way on both sides.**  Either both refuse, or both write the same
document and the results represent each other again. -/
theorem update (h : w.Represents c) (name : JsString) (primaryKey : PrimaryKey)
    (patch : JsInput) :
    (∃ error, (w.update name primaryKey patch).2 = .error error ∧
      c.update primaryKey patch = none) ∨
    (∃ written c', (w.update name primaryKey patch).2 = .ok written ∧
      c.update primaryKey patch = some c' ∧
      (w.update name primaryKey patch).1.Represents c') := by
  rcases update_spec h.invariant name primaryKey patch with
    ⟨error, herr, -, hwhy⟩ | ⟨text, before, after, henc, hget, -, hprep, hadm, hput, hok⟩
  · refine .inl ⟨error, herr, ?_⟩
    unfold StoreCollection.update
    simp only [← patchDocument_eq_overlay name]
    cases hkey : primaryKey.toKey? with
    | none => rfl
    | some key =>
        have henc := encodeKey_eq_ok_iff.2 ⟨key, hkey, rfl⟩
        cases hget : c.documents.get? key with
        | none => simp [bind, Option.bind, hget]
        | some before =>
            rw [← h.schema]
            cases hp : patchDocument name before patch w.schema with
            | error e => simp [bind, Option.bind, hget, hp, Except.toOption]
            | ok after =>
                simp only [bind, Option.bind, hget, hp, Except.toOption]
                split_ifs with hk hacc
                · rfl
                · have hprep := (prepareUpdate_ok_iff hkey).2 ⟨hp, not_not.1 hk⟩
                  rw [← h.models.content] at hget
                  exact absurd (h.admits_iff.2 hacc)
                    (hwhy h.unsealed _ before after henc hget hprep)
                · rfl
  · obtain ⟨key, hkey, rfl⟩ := encodeKey_eq_ok_iff.1 henc
    refine .inr ⟨_, c.put key after, hok, ?_, h.put hput⟩
    rw [h.models.content] at hget
    obtain ⟨hp, hk⟩ := (prepareUpdate_ok_iff hkey).1 hprep
    rw [h.schema] at hp hk
    unfold StoreCollection.update
    simp only [← patchDocument_eq_overlay name]
    simp only [bind, Option.bind, hkey, hget, hp, Except.toOption]
    rw [if_neg (not_not.2 hk), if_pos (h.admits_iff.1 hadm)]

/-- **A delete goes the same way on both sides.**  Either both refuse, or both remove the same
document and the results represent each other again. -/
theorem delete (h : w.Represents c) (name : JsString) (primaryKey : PrimaryKey) :
    (∃ error, (w.delete name primaryKey).2 = .error error ∧ c.delete primaryKey = none) ∨
    (∃ written c', (w.delete name primaryKey).2 = .ok written ∧
      c.delete primaryKey = some c' ∧ (w.delete name primaryKey).1.Represents c') := by
  rcases delete_spec h.invariant name primaryKey with
    ⟨error, herr, -, hwhy⟩ | ⟨text, before, henc, hget, -, hdrop, hok⟩
  · refine .inl ⟨error, herr, ?_⟩
    unfold StoreCollection.delete
    cases hkey : primaryKey.toKey? with
    | none => rfl
    | some key =>
        have hnone := hwhy h.unsealed _ (encodeKey_eq_ok_iff.2 ⟨key, hkey, rfl⟩)
        rw [h.models.content] at hnone
        simp [bind, Option.bind, OrderedMap.has, hnone]
  · obtain ⟨key, hkey, rfl⟩ := encodeKey_eq_ok_iff.1 henc
    have hsome := hget
    rw [h.models.content] at hsome
    refine .inr ⟨_, { c with documents := c.documents.delete key }, hok, ?_, ?_⟩
    · unfold StoreCollection.delete
      simp [bind, Option.bind, hkey, OrderedMap.has, hsome]
    · exact ⟨hdrop.invariant, hdrop.isSealed.trans h.unsealed, hdrop.schema.trans h.schema,
        hdrop.definitions.trans h.definitions,
        by rw [hdrop.order, hdrop.records]; exact h.models.drop⟩

end WorkingCollection.Represents

end NewtonDB
