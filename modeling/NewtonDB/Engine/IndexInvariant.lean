/-
# What the indexes hold

The buckets of an index are kept up to date one write at a time.  What they are
meant to hold is a function of the documents: `IndexInvariant content index` says
that the bucket under a value is the set of the keys of the documents with that
value, that no bucket is empty and that a unique value has one document, where
`content` gives the document of each encoded key.

`remove` and `add` say what the two loops do to the invariant, `checkIndex_iff`
that the buckets decide uniqueness as the documents would, and
`replaceInIndexes_spec` puts them together, the path that restores the old version
included.
-/

import NewtonDB.Engine.Write

namespace NewtonDB

/-- The path leads to a primitive or nowhere. -/
def Resolves (path : PropertyPath) (document : JsonObject) : Prop :=
  ∀ value, readPath path (.obj document) = some value → value.prim?.isSome

/-- The encoded value of a document at a path. -/
def indexText (path : PropertyPath) (document : JsonObject) : Option JsString :=
  (readPath path (.obj document) >>= Json.prim?).map encodeIndexValue

/-- Where the path of an index resolves, its value is the text of what is there.  Where the path
leads nowhere the document is not in the index. -/
theorem indexValue_of_resolves {path : PropertyPath} {document : JsonObject}
    (h : Resolves path document) (collection name : JsString) :
    indexValue collection name path document = .ok (indexText path document) := by
  unfold indexValue indexText
  cases hr : readPath path (.obj document) with
  | none => rfl
  | some value =>
      cases value with
      | prim p => rfl
      | arr | obj => cases h _ hr

/-- What an index reads without an error is the text of what its path resolves to.  An object or
an array at the end of the path is the error. -/
theorem indexValue_eq_ok {path : PropertyPath} {document : JsonObject} {collection name : JsString}
    {value : Option JsString} (h : indexValue collection name path document = .ok value) :
    Resolves path document ∧ indexText path document = value := by
  have hres : Resolves path document := by
    intro v hv
    rw [indexValue, hv] at h
    cases v with
    | prim p => rfl
    | arr | obj => cases h
  rw [indexValue_of_resolves hres] at h
  exact ⟨hres, Except.ok.inj h⟩

/-- The document of each encoded key. -/
abbrev Content := JsString → Option JsonObject

section

variable {M : Type} [MapView M JsString Bucket]

/-- The key is in the bucket under the value. -/
def Holds (index : SecondaryIndexState M) (value key : JsString) : Prop :=
  ∃ bucket, MapView.get index.buckets value = some bucket ∧ bucket.has key = true

/-- The bucket map is well formed and no bucket is empty. -/
structure BucketsWF (index : SecondaryIndexState M) : Prop where
  wf : MapView.WF index.buckets
  nonempty : ∀ value bucket, MapView.get index.buckets value = some bucket → bucket.keys ≠ []

/-- **What an index holds.** -/
structure IndexInvariant (content : Content) (index : SecondaryIndexState M) : Prop where
  buckets : BucketsWF index
  resolves : ∀ key document, content key = some document → Resolves index.path document
  holds_iff : ∀ value key, Holds index value key ↔
    ∃ document, content key = some document ∧ indexText index.path document = some value
  unique : index.unique → ∀ key key' document document' value,
    content key = some document → content key' = some document' →
      indexText index.path document = some value → indexText index.path document' = some value →
        key = key'

/-- The document may be added to the index: its path resolves, and no document has
its value where values are unique. -/
def Admits (content : Content) (path : PropertyPath) (unique : Bool) (document : JsonObject) :
    Prop :=
  Resolves path document ∧ (unique → ∀ key other value, content key = some other →
    indexText path other = some value → indexText path document ≠ some value)

/-- All indexes hold what they should. -/
def IndexesInvariant (content : Content) (indexes : Indexes M) : Prop :=
  ∀ index ∈ indexes.values, IndexInvariant content index

/-- What the definition of an index fixes. -/
def SecondaryIndexState.definition {M : Type} (index : SecondaryIndexState M) : SecondaryIndex :=
  { name := index.name, path := index.path, unique := index.unique }

/-- The definitions of the indexes, in order. -/
def definitions {M : Type} (indexes : Indexes M) : List (JsString × SecondaryIndex) :=
  indexes.entries.map fun e => (e.1, e.2.definition)

/-- The document may be added to all indexes with these definitions. -/
def AdmitsAll (content : Content) (definitions : List (JsString × SecondaryIndex))
    (document : JsonObject) : Prop :=
  ∀ d ∈ definitions, Admits content d.2.path d.2.unique document

/-- A document is admitted by all the indexes when it is by each. -/
theorem admitsAll_iff {M : Type} {content : Content} {indexes : Indexes M}
    {document : JsonObject} : AdmitsAll content (definitions indexes) document ↔
      ∀ index ∈ indexes.values, Admits content index.path index.unique document := by
  simp only [AdmitsAll, definitions, OrderedMap.values, List.forall_mem_map]
  rfl

/-- Buckets that read the same hold the same.  It is used to go from the plain map of a creation
to an overlay and to a read-only map. -/
theorem IndexInvariant.congr {N : Type} [MapView N JsString Bucket] {content : Content}
    {index : SecondaryIndexState M} {index' : SecondaryIndexState N}
    (h : IndexInvariant content index) (hd : index'.definition = index.definition)
    (hwf : MapView.WF index'.buckets)
    (hget : ∀ value, MapView.get index'.buckets value = MapView.get index.buckets value) :
    IndexInvariant content index' := by
  have hp : index'.path = index.path := congrArg SecondaryIndex.path hd
  have hu : index'.unique = index.unique := congrArg SecondaryIndex.unique hd
  refine ⟨⟨hwf, fun value bucket hb => ?_⟩, ?_, fun value key => ?_, ?_⟩
  · rw [hget] at hb
    exact h.buckets.nonempty value bucket hb
  · rw [hp]; exact h.resolves
  · rw [Holds, hget, hp]
    exact h.holds_iff value key
  · rw [hu, hp]; exact h.unique

/-- An index without buckets holds nothing. -/
theorem indexInvariant_empty {index : SecondaryIndexState M} (hwf : MapView.WF index.buckets)
    (h : ∀ value, MapView.get index.buckets value = none) :
    IndexInvariant (fun _ => none) index where
  buckets := ⟨hwf, fun value bucket hb => by rw [h] at hb; cases hb⟩
  resolves _ _ h := by cases h
  holds_iff value key := by simp [Holds, h]
  unique _ _ _ _ _ _ h := by cases h

end

section

variable {M : Type} [MutableMap M JsString Bucket] [LawfulMutableMap M JsString Bucket]
  {content : Content} {collection key : JsString} {document : JsonObject}
  {index : SecondaryIndexState M}

/-! ### What the loops do to the buckets -/

omit [LawfulMutableMap M JsString Bucket] in
/-- To add to an index keeps its definition. -/
theorem definition_addToIndex : (addToIndex collection key document index).definition =
    index.definition := by
  unfold addToIndex
  split <;> rfl

/-- After an addition the key is in one bucket more.  When the path does not resolve to a
primitive nothing is added. -/
theorem holds_addToIndex (hres : Resolves index.path document) (value key' : JsString) :
    Holds (addToIndex collection key document index) value key' ↔
      Holds index value key' ∨ (key = key' ∧ indexText index.path document = some value) := by
  unfold addToIndex
  rw [indexValue_of_resolves hres]
  cases hv : indexText index.path document with
  | none => simp
  | some own =>
      simp only [Holds, SecondaryIndexState.withBuckets_buckets, LawfulMutableMap.get_set,
        Option.some.injEq]
      by_cases hval : own = value
      · subst hval
        rw [if_pos rfl]
        simp only [Option.some.injEq, exists_eq_left', OrderedMap.has_set, Bool.or_eq_true,
          decide_eq_true_iff, and_true]
        cases MapView.get index.buckets own with
        | none => simp [OrderedMap.has]
        | some bucket => simp [or_comm]
      · simp [hval]

/-- To add to an index keeps its buckets well formed.  The bucket that grows is put back under
its value, and no other one changes. -/
theorem bucketsWF_addToIndex (h : BucketsWF index) :
    BucketsWF (addToIndex collection key document index) := by
  unfold addToIndex
  split
  · next encoded _ =>
    refine ⟨LawfulMutableMap.wf_set h.wf .., fun value bucket hb => ?_⟩
    rw [SecondaryIndexState.withBuckets_buckets, LawfulMutableMap.get_set] at hb
    split_ifs at hb
    · obtain rfl := Option.some.inj hb
      refine List.ne_nil_of_mem (OrderedMap.has_iff.1 (?_ : OrderedMap.has _ key = true))
      simp [OrderedMap.has_set]
    · exact h.nonempty value bucket hb
  · exact h

/-- **After a removal the key is in one bucket less**, and an emptied bucket is gone.  Every
other bucket is as it was, and the definition too. -/
theorem removeFromIndex_ok (h : BucketsWF index) (hres : Resolves index.path document) :
    ∃ index', removeFromIndex collection key document index = .ok index' ∧
      index'.definition = index.definition ∧ BucketsWF index' ∧
        ∀ value key', Holds index' value key' ↔ Holds index value key' ∧
          ¬(key = key' ∧ indexText index.path document = some value) := by
  unfold removeFromIndex
  rw [indexValue_of_resolves hres]
  cases hv : indexText index.path document with
  | none => exact ⟨index, rfl, rfl, h, by simp⟩
  | some own =>
      simp only [bind, Except.bind]
      cases hcur : MapView.get index.buckets own with
      | none =>
          refine ⟨index, rfl, rfl, h, fun value key' => (and_iff_left_of_imp ?_).symm⟩
          rintro ⟨bucket, hb, -⟩ ⟨-, hval⟩
          obtain rfl := Option.some.inj hval
          rw [hcur] at hb
          cases hb
      | some current =>
          refine ⟨_, rfl, rfl, ?_⟩
          have hdel : ∀ key', (current.delete key).has key' = true ↔
              current.has key' = true ∧ key ≠ key' := fun key' => by
            rw [OrderedMap.has_delete, Bool.and_eq_true, decide_eq_true_iff, and_comm]
          by_cases hz : (current.delete key).size = 0
          · -- the bucket held at most this key
            have hnone : ∀ key', ¬(current.has key' = true ∧ key ≠ key') := by
              intro key' hh
              have hm := OrderedMap.has_iff.1 ((hdel key').2 hh)
              rw [OrderedMap.size_eq_keys, List.length_eq_zero_iff] at hz
              rw [hz] at hm
              cases hm
            rw [if_pos hz]
            refine ⟨⟨LawfulMutableMap.wf_delete h.wf .., fun value bucket hb => ?_⟩,
              fun value key' => ?_⟩
            · rw [SecondaryIndexState.withBuckets_buckets, LawfulMutableMap.get_delete] at hb
              split_ifs at hb
              exact h.nonempty value bucket hb
            · simp only [Holds, SecondaryIndexState.withBuckets_buckets,
                LawfulMutableMap.get_delete, Option.some.injEq]
              by_cases hval : own = value
              · subst hval
                rw [hcur]
                have := hnone key'
                simp only [if_true, reduceCtorEq, false_and, exists_false, Option.some.injEq,
                  exists_eq_left', and_true, false_iff]
                exact this
              · simp [hval]
          · rw [if_neg hz]
            refine ⟨⟨LawfulMutableMap.wf_set h.wf .., fun value bucket hb => ?_⟩,
              fun value key' => ?_⟩
            · rw [SecondaryIndexState.withBuckets_buckets, LawfulMutableMap.get_set] at hb
              split_ifs at hb
              · obtain rfl := Option.some.inj hb
                rw [OrderedMap.size_eq_keys, List.length_eq_zero_iff] at hz
                exact hz
              · exact h.nonempty value bucket hb
            · simp only [Holds, SecondaryIndexState.withBuckets_buckets,
                LawfulMutableMap.get_set, Option.some.injEq]
              by_cases hval : own = value
              · subst hval
                simp [hcur, hdel]
              · simp [hval]

/-! ### One index -/

omit [LawfulMutableMap M JsString Bucket] in
/-- **The buckets decide uniqueness as the documents would.**  A unique index admits a document
when no bucket of its value holds another key. -/
theorem checkIndex_iff (h : IndexInvariant content index) (hk : content key = none) :
    checkIndex collection key document index = .ok () ↔
      Admits content index.path index.unique document := by
  by_cases hres : Resolves index.path document
  · rw [checkIndex, indexValue_of_resolves hres]
    cases hv : indexText index.path document with
    | none => exact ⟨fun _ => ⟨hres, fun _ _ _ _ _ _ => by simp [hv]⟩, fun _ => rfl⟩
    | some value =>
        simp only [bind, Except.bind]
        cases hb : MapView.get index.buckets value with
        | none =>
            refine ⟨fun _ => ⟨hres, fun _ key' other v ho hov hdv => ?_⟩, fun _ => rfl⟩
            obtain rfl := Option.some.inj (hv.symm.trans hdv)
            obtain ⟨bucket, hb', -⟩ := (h.holds_iff value key').2 ⟨other, ho, hov⟩
            rw [hb] at hb'
            cases hb'
        | some bucket =>
            -- the key is not in the bucket, and somebody is
            have hnot : bucket.has key = false := by
              rw [Bool.eq_false_iff]
              intro hh
              obtain ⟨d, hd, -⟩ := (h.holds_iff value key).1 ⟨bucket, hb, hh⟩
              rw [hk] at hd
              cases hd
            obtain ⟨key', hkey'⟩ := List.exists_mem_of_ne_nil _ (h.buckets.nonempty value bucket hb)
            obtain ⟨other, ho, hov⟩ :=
              (h.holds_iff value key').1 ⟨bucket, hb, OrderedMap.has_iff.2 hkey'⟩
            simp only [hnot, Bool.not_false, Bool.and_true]
            split_ifs with hu
            · refine ⟨fun hc => (by cases hc), fun ha => absurd hv ?_⟩
              exact ha.2 hu key' other value ho hov
            · exact ⟨fun _ => ⟨hres, fun hu' => absurd hu' hu⟩, fun _ => rfl⟩
  · refine ⟨fun hc => absurd ?_ hres, fun ha => absurd ha.1 hres⟩
    obtain ⟨_, hv, -⟩ := bind_eq_ok.1 hc
    exact (indexValue_eq_ok hv).1

/-- **Adding an admitted document under a free key.**  The key joins the bucket of the value, or
a new one; no other bucket changes. -/
theorem IndexInvariant.add (h : IndexInvariant content index) (hk : content key = none)
    (ha : Admits content index.path index.unique document) (collection : JsString) :
    IndexInvariant (Function.update content key (some document))
      (addToIndex collection key document index) := by
  have hpath : (addToIndex collection key document index).path = index.path :=
    congrArg SecondaryIndex.path definition_addToIndex
  have huniq : (addToIndex collection key document index).unique = index.unique :=
    congrArg SecondaryIndex.unique definition_addToIndex
  have hcases : ∀ key' d, Function.update content key (some document) key' = some d →
      (key' = key ∧ d = document) ∨ (key' ≠ key ∧ content key' = some d) := by
    intro key' d hd
    by_cases hne : key' = key
    · rw [hne, Function.update_self] at hd
      exact .inl ⟨hne, (Option.some.inj hd).symm⟩
    · rw [Function.update_of_ne hne] at hd
      exact .inr ⟨hne, hd⟩
  refine ⟨bucketsWF_addToIndex h.buckets, ?_, fun value key' => ?_, ?_⟩
  · intro key' d hd
    rw [hpath]
    rcases hcases key' d hd with ⟨-, rfl⟩ | ⟨-, hd⟩
    · exact ha.1
    · exact h.resolves key' d hd
  · rw [holds_addToIndex ha.1, hpath, h.holds_iff]
    by_cases hne : key' = key
    · subst hne
      simp [hk]
    · rw [Function.update_of_ne hne]
      simp [Ne.symm hne]
  · rw [huniq, hpath]
    intro hu key₁ key₂ d₁ d₂ value h₁ h₂ hv₁ hv₂
    rcases hcases key₁ d₁ h₁ with ⟨e₁, rfl⟩ | ⟨-, h₁'⟩ <;>
      rcases hcases key₂ d₂ h₂ with ⟨e₂, hd₂⟩ | ⟨-, h₂'⟩
    · rw [e₁, e₂]
    · exact absurd hv₁ (ha.2 hu key₂ d₂ value h₂' hv₂)
    · exact absurd (hd₂ ▸ hv₂) (ha.2 hu key₁ d₁ value h₁' hv₁)
    · exact h.unique hu key₁ key₂ d₁ d₂ value h₁' h₂' hv₁ hv₂

/-- **Removing a document** succeeds, and the index no longer holds it.  The value of a document
that is held resolves, so that no error is thrown. -/
theorem IndexInvariant.remove (h : IndexInvariant content index) (hk : content key = some document)
    (collection : JsString) :
    ∃ index', removeFromIndex collection key document index = .ok index' ∧
      index'.definition = index.definition ∧
        IndexInvariant (Function.update content key none) index' := by
  obtain ⟨index', hok, hdef, hwf, hholds⟩ :=
    removeFromIndex_ok h.buckets (h.resolves key document hk)
  have hpath : index'.path = index.path := congrArg SecondaryIndex.path hdef
  have huniq : index'.unique = index.unique := congrArg SecondaryIndex.unique hdef
  have hsub : ∀ key' d, Function.update content key none key' = some d → content key' = some d := by
    intro key' d hd
    by_cases hne : key' = key
    · rw [hne, Function.update_self] at hd; cases hd
    · rwa [Function.update_of_ne hne] at hd
  refine ⟨index', hok, hdef, hwf, ?_, fun value key' => ?_, ?_⟩
  · rw [hpath]
    exact fun key' d hd => h.resolves key' d (hsub key' d hd)
  · rw [hholds, hpath, h.holds_iff]
    by_cases hne : key' = key
    · subst hne
      simp [hk]
    · rw [Function.update_of_ne hne]
      simp [Ne.symm hne]
  · rw [huniq, hpath]
    exact fun hu k₁ k₂ d₁ d₂ v h₁ h₂ => h.unique hu k₁ k₂ d₁ d₂ v (hsub _ _ h₁) (hsub _ _ h₂)

/-! ### All indexes -/

omit [MutableMap M JsString Bucket] [LawfulMutableMap M JsString Bucket] in
/-- An index after a change of all of them is one of them, changed. -/
theorem mem_values_mapVals {N : Type} {f : SecondaryIndexState M → SecondaryIndexState N}
    {indexes : Indexes M} {index' : SecondaryIndexState N}
    (h : index' ∈ (indexes.mapVals f).values) : ∃ index ∈ indexes.values, f index = index' := by
  obtain ⟨e, he, rfl⟩ := List.mem_map.1 h
  obtain ⟨e', he', rfl⟩ := List.mem_map.1 he
  exact ⟨e'.2, List.mem_map_of_mem he', rfl⟩

omit [MutableMap M JsString Bucket] [LawfulMutableMap M JsString Bucket] in
/-- A change of the indexes that keeps each definition keeps them all. -/
theorem definitions_mapVals {N : Type} {f : SecondaryIndexState M → SecondaryIndexState N}
    {indexes : Indexes M} (h : ∀ index ∈ indexes.values, (f index).definition = index.definition) :
    definitions (indexes.mapVals f) = definitions indexes := by
  rw [definitions, OrderedMap.mapVals, List.map_map]
  refine List.map_congr_left fun e he => ?_
  simp [h e.2 (List.mem_map_of_mem he)]

variable {indexes : Indexes M}

omit [LawfulMutableMap M JsString Bucket] in
/-- **The check of all indexes passes exactly when the document is admitted by all.**  By
induction on the indexes; the definitions say which are unique. -/
theorem checkIndexes_iff (h : IndexesInvariant content indexes) (hk : content key = none)
    (collection : JsString) (document : JsonObject) :
    indexes.values.forM (checkIndex collection key document) = .ok () ↔
      AdmitsAll content (definitions indexes) document := by
  rw [admitsAll_iff, forM_eq_ok]
  exact forall₂_congr fun index hi => checkIndex_iff (h index hi) hk

/-- **Adding to all indexes** succeeds exactly when the document is admitted by
all, and then all hold it. -/
theorem addToIndexes_spec (h : IndexesInvariant content indexes) (hk : content key = none)
    (collection : JsString) (document : JsonObject) :
    (∃ error, addToIndexes collection indexes key document = .error error ∧
      ¬AdmitsAll content (definitions indexes) document) ∨
    (∃ indexes', addToIndexes collection indexes key document = .ok indexes' ∧
      AdmitsAll content (definitions indexes) document ∧
        definitions indexes' = definitions indexes ∧
          IndexesInvariant (Function.update content key (some document)) indexes') := by
  have hiff := checkIndexes_iff h hk collection document
  unfold addToIndexes
  cases hc : indexes.values.forM (checkIndex collection key document) with
  | error e =>
      rw [hc] at hiff
      exact .inl ⟨e, rfl, fun ha => by cases hiff.2 ha⟩
  | ok _ =>
      rw [hc] at hiff
      have ha := hiff.1 rfl
      refine .inr ⟨_, rfl, ha, definitions_mapVals fun _ _ => definition_addToIndex, ?_⟩
      intro index' hi'
      obtain ⟨index, hi, rfl⟩ := mem_values_mapVals hi'
      exact (h index hi).add hk (admitsAll_iff.1 ha index hi) collection

/-- **Removing from all indexes** succeeds, and none holds the document any more.  The loop
changes the indexes one after the other, each by the lemma for one. -/
theorem removeFromIndexes_spec (h : IndexesInvariant content indexes)
    (hk : content key = some document) (collection : JsString) :
    ∃ indexes', removeFromIndexes collection indexes key document = (indexes', .ok ()) ∧
      definitions indexes' = definitions indexes ∧
        IndexesInvariant (Function.update content key none) indexes' := by
  let after (index : SecondaryIndexState M) : SecondaryIndexState M :=
    ((removeFromIndex collection key document index).toOption).getD index
  have hafter : ∀ index ∈ indexes.values,
      removeFromIndex collection key document index = .ok (after index) ∧
        (after index).definition = index.definition ∧
          IndexInvariant (Function.update content key none) (after index) := by
    intro index hi
    obtain ⟨index', hok, hdef, hinv⟩ := (h index hi).remove hk collection
    have : after index = index' := by simp [after, hok, Except.toOption]
    rw [this]
    exact ⟨hok, hdef, hinv⟩
  refine ⟨indexes.mapVals after, OrderedMap.updateVals_ok fun i hi => (hafter i hi).1,
    definitions_mapVals fun i hi => (hafter i hi).2.1, fun index' hi' => ?_⟩
  obtain ⟨index, hi, rfl⟩ := mem_values_mapVals hi'
  exact (hafter index hi).2.2

/-- Two updates of one key are the second. -/
theorem update_twice (content : Content) (key : JsString) (a b : Option JsonObject) :
    Function.update (Function.update content key a) key b = Function.update content key b :=
  Function.update_idem ..

omit [MutableMap M JsString Bucket] [LawfulMutableMap M JsString Bucket] in
/-- A document that is stored is admitted where it was removed.  Where an index is unique its
value is held by this document only, and that one is gone. -/
theorem admitsAll_of_invariant [MapView M JsString Bucket] (h : IndexesInvariant content indexes)
    (hk : content key = some document) :
    AdmitsAll (Function.update content key none) (definitions indexes) document := by
  rw [admitsAll_iff]
  intro index hi
  have hinv := h index hi
  refine ⟨hinv.resolves key document hk, fun hu key' other value ho hov hdv => ?_⟩
  by_cases hne : key' = key
  · rw [hne, Function.update_self] at ho
    cases ho
  · rw [Function.update_of_ne hne] at ho
    exact hne (hinv.unique hu key' key other document value ho hk hov hdv)

/-- **Replacing a document in all indexes** succeeds exactly when the new version is
admitted where the old one was removed; otherwise the old one is back. -/
theorem replaceInIndexes_spec (h : IndexesInvariant content indexes) (collection key : JsString)
    (document : JsonObject) :
    ∃ indexes', definitions indexes' = definitions indexes ∧
      ((∃ error, replaceInIndexes collection indexes key (content key) document =
          (indexes', .error error) ∧
        ¬AdmitsAll (Function.update content key none) (definitions indexes) document ∧
          IndexesInvariant content indexes') ∨
      (replaceInIndexes collection indexes key (content key) document = (indexes', .ok ()) ∧
        AdmitsAll (Function.update content key none) (definitions indexes) document ∧
          IndexesInvariant (Function.update content key (some document)) indexes')) := by
  -- what is left once the old version is out
  obtain ⟨removed, hrem, hdef, hinv⟩ : ∃ removed,
      removeBefore collection indexes key (content key) = (removed, .ok ()) ∧
        definitions removed = definitions indexes ∧
          IndexesInvariant (Function.update content key none) removed := by
    cases hk : content key with
    | none =>
        refine ⟨indexes, rfl, rfl, ?_⟩
        rw [← hk, Function.update_eq_self]
        exact h
    | some before => exact removeFromIndexes_spec h hk collection
  unfold replaceInIndexes
  rw [hrem]
  dsimp only
  rcases addToIndexes_spec hinv (Function.update_self ..) collection document with
    ⟨error, hadd, hn⟩ | ⟨added, hadd, ha, hdef', hinv'⟩
  · rw [hdef] at hn
    rw [hadd]
    dsimp only
    cases hk : content key with
    | none =>
        refine ⟨removed, hdef, .inl ⟨error, rfl, hn, ?_⟩⟩
        rwa [← hk, Function.update_eq_self] at hinv
    | some before =>
        -- the old version is admitted again
        rcases addToIndexes_spec hinv (Function.update_self ..) collection before with
          ⟨_, -, hn'⟩ | ⟨restored, hres, -, hdef', hinv'⟩
        · rw [hdef] at hn'
          exact absurd (admitsAll_of_invariant h hk) hn'
        · refine ⟨restored, hdef'.trans hdef, .inl ⟨error, ?_, hn, ?_⟩⟩
          · rw [restoreBefore, hres]
          · rwa [update_twice, ← hk, Function.update_eq_self] at hinv'
  · rw [hadd]
    rw [update_twice] at hinv'
    exact ⟨added, hdef'.trans hdef, .inr ⟨rfl, hdef ▸ ha, hinv'⟩⟩

end

end NewtonDB
