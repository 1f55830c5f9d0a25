/-
# The representation invariant of a collection

A collection keeps its documents in five redundant structures.  `Consistent` says
how they belong together: the order lists the keys of the records once each, the
positions are those keys and increase along the order, each document is stored
under its own encoded key, and the indexes hold what `IndexInvariant` says.

The three writes keep it, whether they complete or throw (`insert_spec`,
`update_spec`, `delete_spec`: each says in full what the write did); cloning,
publishing and creating a collection keep it; and it is what
`assertCollectionInvariant` checks, which therefore never throws
(`StoredCollection.Invariant.assert_ok`).
-/

import NewtonDB.Engine.IndexInvariant

namespace NewtonDB

section

variable {M : Type} [MapView M JsString Bucket]

/-- **The five structures of a collection belong together.** -/
structure Consistent (order : List JsString) (nextPosition : ℕ) (position : JsString → Option ℕ)
    (content : Content) (indexes : Indexes M) (schema : CollectionSchema) : Prop where
  nodup : order.Nodup
  mem_order : ∀ key, key ∈ order ↔ (content key).isSome
  position_some : ∀ key, (position key).isSome ↔ key ∈ order
  sorted : order.Pairwise fun a b => ∀ i j, position a = some i → position b = some j → i < j
  bound : ∀ key i, position key = some i → i < nextPosition
  keyed : ∀ key document, content key = some document →
    ∃ k, documentKey document schema = .ok k ∧ encodeKey k = .ok key
  indexed : IndexesInvariant content indexes

namespace Consistent

variable {order : List JsString} {nextPosition : ℕ} {position : JsString → Option ℕ}
  {content : Content} {indexes indexes' : Indexes M} {schema : CollectionSchema} {key : JsString}
  {document : JsonObject}

/-- A new document goes to the end.  Its position is the next one, which is larger than all of
those in use. -/
theorem putNew (h : Consistent order nextPosition position content indexes schema)
    (hk : content key = none)
    (hd : ∃ k, documentKey document schema = .ok k ∧ encodeKey k = .ok key)
    (hi : IndexesInvariant (Function.update content key (some document)) indexes') :
    Consistent (order ++ [key]) (nextPosition + 1) (Function.update position key (some nextPosition))
      (Function.update content key (some document)) indexes' schema := by
  have hnot : key ∉ order := fun hm => by
    have := (h.mem_order key).1 hm
    rw [hk] at this
    cases this
  have hpos : ∀ a ∈ order, Function.update position key (some nextPosition) a = position a :=
    fun a ha => Function.update_of_ne (fun e : a = key => hnot (e ▸ ha)) ..
  refine ⟨?_, fun a => ?_, fun a => ?_, ?_, fun a i ha => ?_, fun a d ha => ?_, hi⟩
  · exact List.nodup_append.2 ⟨h.nodup, List.nodup_singleton key, fun a ha b hb =>
      List.mem_singleton.1 hb ▸ fun e => hnot (e ▸ ha)⟩
  · rw [List.mem_append, List.mem_singleton, h.mem_order]
    by_cases hne : a = key
    · subst hne; simp
    · rw [Function.update_of_ne hne]; simp [hne]
  · rw [List.mem_append, List.mem_singleton, ← h.position_some]
    by_cases hne : a = key
    · subst hne; simp
    · rw [Function.update_of_ne hne]; simp [hne]
  · refine List.pairwise_append.2 ⟨?_, List.pairwise_singleton .., fun a ha b hb i j hi hj => ?_⟩
    · refine h.sorted.imp_of_mem fun {a b} ha hb hab => ?_
      rw [hpos a ha, hpos b hb]
      exact hab
    · rw [List.mem_singleton.1 hb, Function.update_self] at hj
      rw [hpos a ha] at hi
      obtain rfl := Option.some.inj hj
      exact h.bound a i hi
  · by_cases hne : a = key
    · rw [hne, Function.update_self] at ha
      obtain rfl := Option.some.inj ha
      exact Nat.lt_succ_self _
    · rw [Function.update_of_ne hne] at ha
      exact (h.bound a i ha).trans (Nat.lt_succ_self _)
  · by_cases hne : a = key
    · rw [hne, Function.update_self] at ha
      obtain rfl := Option.some.inj ha
      exact hne ▸ hd
    · rw [Function.update_of_ne hne] at ha
      exact h.keyed a d ha

/-- A new version of a document stays where the old one was.  The order and the positions do not
change, and only the entry of this document does in the content. -/
theorem putOld (h : Consistent order nextPosition position content indexes schema)
    (hk : (content key).isSome)
    (hd : ∃ k, documentKey document schema = .ok k ∧ encodeKey k = .ok key)
    (hi : IndexesInvariant (Function.update content key (some document)) indexes') :
    Consistent order nextPosition position (Function.update content key (some document)) indexes'
      schema := by
  refine ⟨h.nodup, fun a => ?_, h.position_some, h.sorted, h.bound, fun a d ha => ?_, hi⟩
  · rw [h.mem_order]
    by_cases hne : a = key
    · subst hne; simp [hk]
    · rw [Function.update_of_ne hne]
  · by_cases hne : a = key
    · rw [hne, Function.update_self] at ha
      obtain rfl := Option.some.inj ha
      exact hne ▸ hd
    · rw [Function.update_of_ne hne] at ha
      exact h.keyed a d ha

/-- A deleted document is gone from every structure.  The other keys keep their order and their
positions, so what was sorted is sorted still. -/
theorem drop (h : Consistent order nextPosition position content indexes schema)
    (hi : IndexesInvariant (Function.update content key none) indexes') :
    Consistent (order.erase key) nextPosition (Function.update position key none)
      (Function.update content key none) indexes' schema := by
  have hmem : ∀ a, a ∈ order.erase key ↔ a ≠ key ∧ a ∈ order := fun a => h.nodup.mem_erase_iff
  refine ⟨h.nodup.erase key, fun a => ?_, fun a => ?_, ?_, fun a i ha => ?_, fun a d ha => ?_, hi⟩
  · rw [hmem, h.mem_order]
    by_cases hne : a = key
    · subst hne; simp
    · rw [Function.update_of_ne hne]; simp [hne]
  · rw [hmem, ← h.position_some]
    by_cases hne : a = key
    · subst hne; simp
    · rw [Function.update_of_ne hne]; simp [hne]
  · refine (h.sorted.sublist List.erase_sublist).imp_of_mem fun {a b} ha hb hab => ?_
    rw [Function.update_of_ne ((hmem a).1 ha).1, Function.update_of_ne ((hmem b).1 hb).1]
    exact hab
  · by_cases hne : a = key
    · rw [hne, Function.update_self] at ha
      cases ha
    · rw [Function.update_of_ne hne] at ha
      exact h.bound a i ha
  · by_cases hne : a = key
    · rw [hne, Function.update_self] at ha
      cases ha
    · rw [Function.update_of_ne hne] at ha
      exact h.keyed a d ha

/-- The indexes may be exchanged for others that hold the same. -/
theorem withIndexes {N : Type} [MapView N JsString Bucket] {others : Indexes N}
    (h : Consistent order nextPosition position content indexes schema)
    (hi : IndexesInvariant content others) :
    Consistent order nextPosition position content others schema :=
  ⟨h.nodup, h.mem_order, h.position_some, h.sorted, h.bound, h.keyed, hi⟩

end Consistent

end

/-- The invariant of a collection a transaction writes to. -/
structure WorkingCollection.Invariant (c : WorkingCollection) : Prop where
  records_wf : c.records.WF
  positions_wf : c.positions.WF
  consistent : Consistent c.order c.nextPosition c.positions.get c.records.get c.indexes c.schema

/-- The invariant of a committed collection. -/
structure StoredCollection.Invariant (c : StoredCollection) : Prop where
  records_wf : c.records.WF
  positions_wf : c.positions.WF
  consistent : Consistent c.order c.nextPosition c.positions.get c.records.get c.indexes c.schema

/-! ### Writes -/

namespace WorkingCollection

variable {c : WorkingCollection}

/-- The other indexes, the rest unchanged. -/
theorem Invariant.withIndexes (h : c.Invariant) {indexes : Indexes WorkingBuckets}
    (hi : IndexesInvariant c.records.get indexes) : { c with indexes }.Invariant :=
  ⟨h.records_wf, h.positions_wf, h.consistent.withIndexes hi⟩

/-- A sealed collection reads as before. -/
theorem Invariant.seal (h : c.Invariant) : { c with isSealed := true }.Invariant :=
  ⟨h.records_wf, h.positions_wf, h.consistent⟩

/-- **Nothing was written**: the two collections read the same. -/
structure Unchanged (c c' : WorkingCollection) : Prop where
  invariant : c'.Invariant
  records : c'.records.get = c.records.get
  order : c'.order = c.order
  positions : c'.positions.get = c.positions.get
  nextPosition : c'.nextPosition = c.nextPosition
  definitions : definitions c'.indexes = definitions c.indexes
  schema : c'.schema = c.schema
  isSealed : c'.isSealed = c.isSealed

/-- A collection is unchanged against itself. -/
theorem Unchanged.refl (h : c.Invariant) : Unchanged c c :=
  ⟨h, rfl, rfl, rfl, rfl, rfl, rfl, rfl⟩

/-- **One document was written**, in place or at the end. -/
structure Put (key : JsString) (document : JsonObject) (c c' : WorkingCollection) : Prop where
  invariant : c'.Invariant
  records : c'.records.get = Function.update c.records.get key (some document)
  order : c'.order = if (c.records.get key).isSome then c.order else c.order ++ [key]
  definitions : definitions c'.indexes = definitions c.indexes
  schema : c'.schema = c.schema
  isSealed : c'.isSealed = c.isSealed

/-- **One document was deleted.** -/
structure Dropped (key : JsString) (c c' : WorkingCollection) : Prop where
  invariant : c'.Invariant
  records : c'.records.get = Function.update c.records.get key none
  order : c'.order = c.order.erase key
  definitions : definitions c'.indexes = definitions c.indexes
  schema : c'.schema = c.schema
  isSealed : c'.isSealed = c.isSealed

/-- `get` of an overlay after `set` is `get` before, updated at the key. -/
theorem get_set_eq_update {V : Type} (o : OverlayMap JsString V) (key : JsString) (value : V) :
    (o.set key value).get = Function.update o.get key (some value) := by
  funext k
  rw [OverlayMap.get_set, Function.update_apply]
  simp [eq_comm]

/-- `get` of an overlay after `delete` is `get` before, with nothing at the key. -/
theorem get_delete_eq_update {V : Type} (o : OverlayMap JsString V) (key : JsString) :
    (o.delete key).get = Function.update o.get key none := by
  funext k
  rw [OverlayMap.get_delete, Function.update_apply]
  simp [eq_comm]

/-- Writing the record after the indexes.  Whether the document is new is read off the records
before they are written. -/
theorem put_setRecord (h : c.Invariant) {key : JsString} {document : JsonObject}
    {indexes : Indexes WorkingBuckets}
    (hd : ∃ k, documentKey document c.schema = .ok k ∧ encodeKey k = .ok key)
    (hdef : NewtonDB.definitions indexes = NewtonDB.definitions c.indexes)
    (hi : IndexesInvariant (Function.update c.records.get key (some document)) indexes) :
    Put key document c
      ({ c with indexes }.setRecord key document (c.records.get key).isNone) := by
  cases hk : c.records.get key with
  | none =>
      refine ⟨⟨OverlayMap.wf_set h.records_wf .., OverlayMap.wf_set h.positions_wf .., ?_⟩,
        get_set_eq_update .., by rw [hk]; rfl, hdef, rfl, rfl⟩
      simp only [setRecord, Option.isNone_none, if_true, get_set_eq_update]
      exact h.consistent.putNew hk hd hi
  | some before =>
      refine ⟨⟨OverlayMap.wf_set h.records_wf .., h.positions_wf, ?_⟩,
        get_set_eq_update .., by rw [hk]; rfl, hdef, rfl, rfl⟩
      simp only [setRecord, Option.isNone_some, Bool.false_eq_true, if_false, get_set_eq_update]
      exact h.consistent.putOld (by rw [hk]; rfl) hd hi

/-- **What an insert or upsert does.**  It throws and writes nothing, because the
collection is sealed, the document is invalid, the key is taken or the indexes refuse
it; or it writes the prepared document. -/
theorem insert_spec (h : c.Invariant) (name : JsString) (input : JsInput) (upsert : Bool)
    (generated : GeneratorOutcome) :
    (∃ error, (c.insert name input upsert generated).2 = .error error ∧
      Unchanged c (c.insert name input upsert generated).1 ∧
      (c.isSealed = false → ∀ p, prepareInsert name input c.schema generated = .ok p →
        ((c.records.get p.encoded).isSome ∧ upsert = false) ∨
          ¬AdmitsAll (Function.update c.records.get p.encoded none)
            (NewtonDB.definitions c.indexes) p.document)) ∨
    (∃ p, prepareInsert name input c.schema generated = .ok p ∧ c.isSealed = false ∧
      (upsert = false → c.records.get p.encoded = none) ∧
      AdmitsAll (Function.update c.records.get p.encoded none)
        (NewtonDB.definitions c.indexes) p.document ∧
      Put p.encoded p.document c (c.insert name input upsert generated).1 ∧
      (c.insert name input upsert generated).2 = .ok {
        change := {
          after := some p.document
          before := c.records.get p.encoded
          collection := name
          operation := if (c.records.get p.encoded).isNone then .insert else .update
          primaryKey := p.primaryKey }
        generatedKey := p.generatedKey }) := by
  unfold insert
  cases hp : prepareInsert name input c.schema generated with
  | error e => exact .inl ⟨e, rfl, .refl h, fun _ p hp => by cases hp⟩
  | ok p =>
      dsimp only
      by_cases hdup : ((c.records.get p.encoded).isSome && !upsert) = true
      · rw [if_pos hdup]
        obtain ⟨hs, hu⟩ := Bool.and_eq_true_iff.1 hdup
        refine .inl ⟨_, rfl, .refl h, fun _ p' hp' => ?_⟩
        obtain rfl := Except.ok.inj hp'
        exact .inl ⟨hs, by simpa using hu⟩
      rw [if_neg hdup]
      by_cases hsealed : c.isSealed = true
      · rw [if_pos hsealed]
        exact .inl ⟨_, rfl, .refl h, fun hopen => by rw [hsealed] at hopen; cases hopen⟩
      · rw [if_neg hsealed]
        have hfree : upsert = false → c.records.get p.encoded = none := by
          rintro rfl
          simpa using hdup
        obtain ⟨indexes', hdef, ⟨error, hrep, hn, hinv⟩ | ⟨hrep, ha, hinv⟩⟩ :=
          replaceInIndexes_spec h.consistent.indexed name p.encoded p.document
        · rw [hrep]
          refine .inl ⟨error, rfl, ⟨h.withIndexes hinv, rfl, rfl, rfl, rfl, hdef, rfl, rfl⟩, ?_⟩
          intro _ p' hp'
          obtain rfl := Except.ok.inj hp'
          exact .inr hn
        · rw [hrep]
          have hkey : ∃ k, documentKey p.document c.schema = .ok k ∧
              encodeKey k = .ok p.encoded := by
            unfold prepareInsert at hp
            obtain ⟨_, -, hp⟩ := bind_eq_ok.1 hp
            obtain ⟨document, -, hp⟩ := bind_eq_ok.1 hp
            obtain ⟨key, hkey, hp⟩ := bind_eq_ok.1 hp
            obtain ⟨encoded, henc, hp⟩ := bind_eq_ok.1 hp
            obtain rfl := Except.ok.inj hp
            exact ⟨key, hkey, henc⟩
          exact .inr ⟨p, rfl, Bool.not_eq_true _ ▸ hsealed, hfree, ha, put_setRecord h hkey hdef hinv, rfl⟩

/-- **What an update does.**  It throws and writes nothing, because the collection is
sealed, the key is absent, the patch is invalid or the indexes refuse the result; or it
writes the patched document. -/
theorem update_spec (h : c.Invariant) (name : JsString) (primaryKey : PrimaryKey)
    (patch : JsInput) :
    (∃ error, (c.update name primaryKey patch).2 = .error error ∧
      Unchanged c (c.update name primaryKey patch).1 ∧
      (c.isSealed = false → ∀ key before after, encodeKey primaryKey = .ok key →
        c.records.get key = some before →
        prepareUpdate name primaryKey before patch c.schema = .ok after →
          ¬AdmitsAll (Function.update c.records.get key none)
            (NewtonDB.definitions c.indexes) after)) ∨
    (∃ key before after, encodeKey primaryKey = .ok key ∧ c.records.get key = some before ∧
      c.isSealed = false ∧ prepareUpdate name primaryKey before patch c.schema = .ok after ∧
      AdmitsAll (Function.update c.records.get key none) (NewtonDB.definitions c.indexes) after ∧
      Put key after c (c.update name primaryKey patch).1 ∧
      (c.update name primaryKey patch).2 = .ok {
        change := {
          after := some after
          before := some before
          collection := name
          operation := .update
          primaryKey }
        generatedKey := none }) := by
  unfold update
  cases henc : encodeKey primaryKey with
  | error e => exact .inl ⟨e, rfl, .refl h, fun _ _ _ _ he => by cases he⟩
  | ok key =>
      dsimp only
      cases hk : c.records.get key with
      | none =>
          refine .inl ⟨_, rfl, .refl h, fun _ key' before after he hb => ?_⟩
          obtain rfl := Except.ok.inj he
          rw [hk] at hb
          cases hb
      | some before =>
          dsimp only
          cases hp : prepareUpdate name primaryKey before patch c.schema with
          | error e =>
              refine .inl ⟨e, rfl, .refl h, fun _ key' before' after he hb hp' => ?_⟩
              obtain rfl := Except.ok.inj he
              obtain rfl := Option.some.inj (hk.symm.trans hb)
              rw [hp] at hp'
              cases hp'
          | ok after =>
              dsimp only
              by_cases hsealed : c.isSealed = true
              · rw [if_pos hsealed]
                exact .inl ⟨_, rfl, .refl h, fun hopen => by rw [hsealed] at hopen; cases hopen⟩
              rw [if_neg hsealed]
              obtain ⟨indexes', hdef, hrep⟩ := replaceInIndexes_spec h.consistent.indexed name
                key after
              rw [hk] at hrep
              rcases hrep with ⟨error, hrep, hn, hinv⟩ | ⟨hrep, ha, hinv⟩
              · rw [hrep]
                refine .inl ⟨error, rfl,
                  ⟨h.withIndexes hinv, rfl, rfl, rfl, rfl, hdef, rfl, rfl⟩, ?_⟩
                intro _ key' before' after' he hb hp'
                obtain rfl := Except.ok.inj he
                obtain rfl := Option.some.inj (hk.symm.trans hb)
                obtain rfl := Except.ok.inj (hp.symm.trans hp')
                exact hn
              · rw [hrep]
                have hkey : ∃ k, documentKey after c.schema = .ok k ∧ encodeKey k = .ok key := by
                  unfold prepareUpdate checkSameKey at hp
                  obtain ⟨document, -, hp⟩ := bind_eq_ok.1 hp
                  obtain ⟨_, hsame, hp⟩ := bind_eq_ok.1 hp
                  obtain rfl := Except.ok.inj hp
                  obtain ⟨k, hk', hsame⟩ := bind_eq_ok.1 hsame
                  split_ifs at hsame with hs
                  obtain ⟨encoded, hk''⟩ := encodeKey_of_documentKey hk'
                  rw [(encodeKey_eq_iff hk'' henc).2 hs] at hk''
                  exact ⟨k, hk', hk''⟩
                have hput := put_setRecord h hkey hdef hinv
                rw [hk] at hput
                exact .inr ⟨key, before, after, rfl, hk, Bool.not_eq_true _ ▸ hsealed, hp, ha,
                  hput, rfl⟩

/-- **What a delete does**: it throws when the collection is sealed or the key is
absent, and else removes the document. -/
theorem delete_spec (h : c.Invariant) (name : JsString) (primaryKey : PrimaryKey) :
    (∃ error, (c.delete name primaryKey).2 = .error error ∧
      Unchanged c (c.delete name primaryKey).1 ∧
      (c.isSealed = false → ∀ key, encodeKey primaryKey = .ok key → c.records.get key = none)) ∨
    (∃ key before, encodeKey primaryKey = .ok key ∧ c.records.get key = some before ∧
      c.isSealed = false ∧ Dropped key c (c.delete name primaryKey).1 ∧
      (c.delete name primaryKey).2 = .ok {
        change := {
          after := none
          before := some before
          collection := name
          operation := .delete
          primaryKey }
        generatedKey := none }) := by
  unfold delete
  cases henc : encodeKey primaryKey with
  | error e => exact .inl ⟨e, rfl, .refl h, fun _ key he => by cases he⟩
  | ok key =>
      dsimp only
      cases hk : c.records.get key with
      | none =>
          refine .inl ⟨_, rfl, .refl h, fun _ key' he => ?_⟩
          obtain rfl := Except.ok.inj he
          exact hk
      | some before =>
          dsimp only
          by_cases hsealed : c.isSealed = true
          · rw [if_pos hsealed]
            exact .inl ⟨_, rfl, .refl h, fun hopen => by rw [hsealed] at hopen; cases hopen⟩
          rw [if_neg hsealed]
          obtain ⟨indexes', hrem, hdef, hinv⟩ :=
            removeFromIndexes_spec h.consistent.indexed hk name
          rw [hrem]
          refine .inr ⟨key, before, rfl, hk, Bool.not_eq_true _ ▸ hsealed,
            ⟨⟨OverlayMap.wf_delete h.records_wf _, OverlayMap.wf_delete h.positions_wf _, ?_⟩,
              get_delete_eq_update .., rfl, hdef, rfl, rfl⟩, rfl⟩
          simp only [deleteRecord, get_delete_eq_update]
          exact h.consistent.drop hinv

end WorkingCollection

/-! ### Cloning and publishing -/

/-- To clone the indexes keeps their definitions. -/
theorem definitions_cloneIndexes (indexes : Indexes StoredBuckets) :
    definitions (cloneIndexes indexes) = definitions indexes :=
  definitions_mapVals fun _ _ => rfl

/-- To seal the indexes keeps their definitions. -/
theorem definitions_sealIndexes (indexes : Indexes WorkingBuckets) :
    definitions (sealIndexes indexes) = definitions indexes :=
  definitions_mapVals fun _ _ => rfl

/-- **A clone reads like its collection.**  Its overlays begin on the maps of the collection,
which stay as they are. -/
theorem StoredCollection.Invariant.clone {c : StoredCollection} (h : c.Invariant) :
    c.clone.Invariant := by
  refine ⟨OverlayMap.wf_new h.records_wf, OverlayMap.wf_new h.positions_wf, ?_⟩
  have hr : c.clone.records.get = c.records.get := funext fun k => OverlayMap.get_new ..
  have hp : c.clone.positions.get = c.positions.get := funext fun k => OverlayMap.get_new ..
  rw [hr, hp]
  refine h.consistent.withIndexes fun index' hi' => ?_
  obtain ⟨index, hi, rfl⟩ := mem_values_mapVals hi'
  have hinv := h.consistent.indexed index hi
  exact hinv.congr rfl (OverlayMap.wf_new hinv.buckets.wf) fun v => OverlayMap.get_new ..

/-- **A published collection reads like the working one.**  The overlays are sealed, and a
sealed overlay reads as before. -/
theorem WorkingCollection.Invariant.publish {c : WorkingCollection} (h : c.Invariant)
    (revision : ℕ) : (c.publish revision).Invariant := by
  refine ⟨OverlayMap.wf_sealed h.records_wf, OverlayMap.wf_sealed h.positions_wf, ?_⟩
  have hr : (c.publish revision).records.get = c.records.get :=
    funext fun k => OverlayMap.get_sealed h.records_wf k
  have hp : (c.publish revision).positions.get = c.positions.get :=
    funext fun k => OverlayMap.get_sealed h.positions_wf k
  rw [hr, hp]
  refine h.consistent.withIndexes fun index' hi' => ?_
  obtain ⟨index, hi, rfl⟩ := mem_values_mapVals hi'
  have hinv := h.consistent.indexed index hi
  exact hinv.congr rfl (OverlayMap.wf_sealed hinv.buckets.wf) fun v =>
    OverlayMap.get_sealed hinv.buckets.wf v

end NewtonDB
