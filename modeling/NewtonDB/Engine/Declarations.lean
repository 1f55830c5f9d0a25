/-
# What a schema declares

The schema of a collection and the names, paths and uniqueness of its indexes are
those it was created with, whatever is written and committed:
`Root.Declares.commit` for a root, `kept_declared` for the collections of a
transaction, `createRoot_declares` for the first root.
-/

import NewtonDB.Engine.TransactionInvariant

namespace NewtonDB

/-- What stays of a collection: the definitions of its indexes, and its schema. -/
structure Declaration where
  indexes : List (JsString × SecondaryIndex)
  schema : CollectionSchema

/-- What a schema declares. -/
def CollectionSchema.declaration (schema : CollectionSchema) : Declaration where
  indexes := schema.indexes.map fun d => (d.name, d)
  schema

/-- What stays of a committed collection. -/
def StoredCollection.declaration (c : StoredCollection) : Declaration :=
  ⟨definitions c.indexes, c.schema⟩

/-- What stays of a working collection. -/
def WorkingCollection.declaration (w : WorkingCollection) : Declaration :=
  ⟨definitions w.indexes, w.schema⟩

/-- The collections of a root are as declared. -/
def Root.Declares (schemas : List (JsString × CollectionSchema)) (root : Root) : Prop :=
  ∀ name c, root.collections.get? name = some c →
    (Assoc.get? schemas name).map CollectionSchema.declaration = some c.declaration

/-- A working collection has its invariant and is as declared. -/
def WorkingCollection.Declared (schemas : List (JsString × CollectionSchema)) (name : JsString)
    (w : WorkingCollection) : Prop :=
  w.Invariant ∧ (Assoc.get? schemas name).map CollectionSchema.declaration = some w.declaration

variable {schemas : List (JsString × CollectionSchema)} {root : Root}

/-- A collection with the invariant is declared when its schema and the definitions of its
indexes are those of one that is. -/
theorem WorkingCollection.Declared.of_same {name : JsString} {w w' : WorkingCollection}
    (h : w.Declared schemas name) (hi : w'.Invariant)
    (hd : definitions w'.indexes = definitions w.indexes) (hs : w'.schema = w.schema) :
    w'.Declared schemas name := by
  refine ⟨hi, h.2.trans (congrArg some ?_)⟩
  rw [WorkingCollection.declaration, WorkingCollection.declaration, hd, hs]

/-- **Clones are as declared and the writes keep it.**  A clone takes its schema and its indexes
over, and a write changes documents only. -/
theorem kept_declared (hr : root.Invariant) (hd : root.Declares schemas) :
    Transaction.Kept (WorkingCollection.Declared schemas) root where
  clone name s hs := by
    refine ⟨(hr name s hs).clone, (hd name s hs).trans (congrArg some ?_)⟩
    show Declaration.mk _ _ = Declaration.mk _ _
    rw [show definitions s.clone.indexes = definitions s.indexes from
      definitions_cloneIndexes s.indexes]
    rfl
  insert name w document upsert generated hw := by
    rcases WorkingCollection.insert_spec hw.1 name document upsert generated with
      ⟨error, -, hu, -⟩ | ⟨p, -, -, -, -, hput, -⟩
    · exact hw.of_same hu.invariant hu.definitions hu.schema
    · exact hw.of_same hput.invariant hput.definitions hput.schema
  update name w key patch hw := by
    rcases WorkingCollection.update_spec hw.1 name key patch with
      ⟨error, -, hu, -⟩ | ⟨_, before, after, -, -, -, -, -, hput, -⟩
    · exact hw.of_same hu.invariant hu.definitions hu.schema
    · exact hw.of_same hput.invariant hput.definitions hput.schema
  delete name w key hw := by
    rcases WorkingCollection.delete_spec hw.1 name key with
      ⟨error, -, hu, -⟩ | ⟨_, before, -, -, -, hdrop, -⟩
    · exact hw.of_same hu.invariant hu.definitions hu.schema
    · exact hw.of_same hdrop.invariant hdrop.definitions hdrop.schema

/-- **A commit keeps what is declared.**  What it publishes are working collections, and the
other collections are those of the root. -/
theorem Root.Declares.commit {t : Transaction} {options : CommitOptions} {committed : Committed}
    (hr : root.Declares schemas) (h : t.All (WorkingCollection.Declared schemas))
    (hc : root.commit options t = .ok committed) : committed.root.Declares schemas := by
  obtain ⟨-, he | he⟩ := commit_ok hc
  · rw [he]; exact hr
  · rw [he]
    intro name s hs
    rw [get?_publishAll] at hs
    cases hw : t.working.get? name with
    | some w =>
        rw [hw] at hs
        obtain rfl := Option.some.inj hs
        refine (h name w hw).2.trans (congrArg some ?_)
        show Declaration.mk _ _ = Declaration.mk _ _
        rw [show definitions (w.publish _).indexes = definitions w.indexes from
          definitions_sealIndexes w.indexes]
        rfl
    | none =>
        rw [hw] at hs
        exact hr name s hs

/-! ### The first root -/

section

variable {σ : Type} [DecidableEq σ] {graph : JsGraph σ}

/-- The documents of a seed leave the definitions alone.  A document changes what the buckets
hold, not what the indexes are. -/
theorem definitions_addAll {name : JsString} {schema : CollectionSchema} : ∀ {documents : List σ}
    {b b' : CollectionBuilder},
    documents.foldlM (CollectionBuilder.add graph name schema) b = .ok b' →
      definitions b'.indexes = definitions b.indexes
  | [], b, b', h => by rw [← Except.ok.inj h]
  | input :: rest, b, b', h => by
      rw [List.foldlM_cons] at h
      obtain ⟨next, hn, h⟩ := bind_eq_ok.1 h
      rw [definitions_addAll h]
      unfold CollectionBuilder.add at hn
      obtain ⟨document, -, hn⟩ := bind_eq_ok.1 hn
      obtain ⟨key, -, hn⟩ := bind_eq_ok.1 hn
      obtain ⟨encoded, -, hn⟩ := bind_eq_ok.1 hn
      split_ifs at hn
      obtain ⟨indexes, hadd, hn⟩ := bind_eq_ok.1 hn
      obtain ⟨-, -, hadd⟩ := bind_eq_ok.1 hadd
      rw [← Except.ok.inj hn, ← Except.ok.inj hadd]
      exact definitions_mapVals fun _ _ => definition_addToIndex

/-- A created collection is as its schema declares.  The indexes are created from the declared
ones, and the documents do not change them. -/
theorem declaration_of_createStoredCollection {name : JsString} {documents : List σ}
    {schema : CollectionSchema} {revision : ℕ} {c : StoredCollection}
    (h : createStoredCollection graph name documents schema revision = .ok c) :
    c.declaration = schema.declaration := by
  obtain ⟨indexes, hi, h⟩ := bind_eq_ok.1 h
  obtain ⟨builder, hb, h⟩ := bind_eq_ok.1 h
  have hdef := (definitions_addAll hb).trans (createIndexes_ok hi).definitions
  rw [← Except.ok.inj h, StoredCollection.declaration, CollectionSchema.declaration, ← hdef]
  show Declaration.mk _ _ = Declaration.mk _ _
  rw [show definitions (builder.build schema revision).indexes = definitions builder.indexes from
    definitions_mapVals fun _ _ => rfl]
  rfl

/-- **The collections of a first root are created from the seed.**  By induction on the seed: a
turn sets the collection of its own name, and keeps the others. -/
theorem created_of_seed {revision : ℕ} {seed : List (JsString × List σ)} :
    ∀ {start collections : OrderedMap JsString StoredCollection},
    seed.foldlM (seedCollection graph schemas revision) start = .ok collections →
      ∀ name c, collections.get? name = some c → start.get? name = some c ∨
        ∃ documents schema, (name, documents) ∈ seed ∧ Assoc.get? schemas name = some schema ∧
          createStoredCollection graph name documents schema revision = .ok c := by
  induction seed with
  | nil =>
      intro start collections h name c hc
      rw [← Except.ok.inj h] at hc
      exact .inl hc
  | cons entry seed ih =>
      intro start collections h name c hc
      rw [List.foldlM_cons] at h
      obtain ⟨next, hn, h⟩ := bind_eq_ok.1 h
      rcases ih h name c hc with hnext | ⟨documents, schema, hm, hcreated⟩
      · unfold seedCollection at hn
        split at hn
        · cases hn
        · next schema hschema =>
            obtain ⟨_, -, hn⟩ := bind_eq_ok.1 hn
            obtain ⟨created, hcr, hn⟩ := bind_eq_ok.1 hn
            rw [← Except.ok.inj hn, OrderedMap.get?_set] at hnext
            split_ifs at hnext with he
            · subst he
              obtain rfl := Option.some.inj hnext
              exact .inr ⟨entry.2, schema, List.mem_cons_self .., hschema, hcr⟩
            · exact .inl hnext
      · exact .inr ⟨documents, schema, List.mem_cons_of_mem _ hm, hcreated⟩

/-- **A first root is as declared.**  Each collection is created from the schema of its name,
and no schema is left without a collection. -/
theorem createRoot_declares {seed : List (JsString × List σ)} {revision : ℕ}
    (h : createRoot graph seed schemas revision = .ok root) : root.Declares schemas := by
  obtain ⟨collections, hc, h⟩ := bind_eq_ok.1 h
  obtain ⟨_, -, h⟩ := bind_eq_ok.1 h
  obtain ⟨_, -, h⟩ := bind_eq_ok.1 h
  rw [← Except.ok.inj h]
  intro name c hcol
  rcases created_of_seed hc name c hcol with hstart | ⟨_, schema, -, hschema, hcreated⟩
  · cases hstart
  · rw [hschema, declaration_of_createStoredCollection hcreated]
    rfl

end

end NewtonDB
