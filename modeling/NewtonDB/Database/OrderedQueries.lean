/-
# Ordered queries

The comparator of `_query` in `src/database.ts` is a strict total order on documents
with distinct primary keys, so their positions never decide and a sorted result is
determined by the set of the documents.  The number of candidates is determined by it
too, so programs with the same documents answer an ordered query alike
(`ordered_queries_agree`).
-/

import NewtonDB.Database.Queries

namespace NewtonDB

open Std (TransCmp OrientedCmp)

/-! ### The comparator -/

/-- The comparator of the sort: the order fields, the primary key, the position. -/
def compareCandidates (schema : CollectionSchema) (order : List OrderField)
    (left right : JsonObject × ℕ) : Ordering :=
  (compareDocuments schema order left.1 right.1).then (compare left.2 right.2)

/-- The positions refine a total preorder. -/
instance transCmp_compareCandidates (schema : CollectionSchema) (order : List OrderField) :
    TransCmp (compareCandidates schema order) := by
  have hfst := transCmp_on (compareDocuments schema order) (Prod.fst : JsonObject × ℕ → _)
  exact inferInstanceAs (TransCmp (compareLex (fun a b : JsonObject × ℕ =>
    compareDocuments schema order a.1 b.1) (compareOn Prod.snd)))

/-- **Documents whose keys differ compare as different**, whatever the order fields.  The
comparison ends with the keys, so that it is total on the documents of a collection. -/
theorem compareDocuments_ne_eq {schema : CollectionSchema} {a b : JsonObject} {k l : PrimaryKey}
    (hk : documentKey a schema = .ok k) (hl : documentKey b schema = .ok l)
    (hne : k.same l = false) (order : List OrderField) :
    compareDocuments schema order a b ≠ .eq := by
  intro heq
  obtain ⟨u, hu⟩ := encodeKey_of_documentKey hk
  obtain ⟨v, hv⟩ := encodeKey_of_documentKey hl
  have hkeys := sortKey_of_compare_eq heq
  rw [sortKey, sortKey, hk, hl] at hkeys
  have hsame := (encodeKey_eq_iff hu hv).1 (StoredCollection.encodeKey_of_compare hu hv hkeys)
  rw [hne] at hsame
  cases hsame

/-- **The comparator is a strict total order** on candidates with distinct primary
keys. -/
theorem compareCandidates_strict {schema : CollectionSchema} {S : Set (JsonObject × ℕ)}
    (hkey : ∀ x ∈ S, ∃ k, documentKey x.1 schema = .ok k)
    (hne : ∀ x ∈ S, ∀ y ∈ S, x ≠ y → ∀ k l, documentKey x.1 schema = .ok k →
      documentKey y.1 schema = .ok l → k.same l = false) (order : List OrderField) :
    IsStrictTotalOrder S fun x y => compareCandidates schema order x y = .lt where
  trichotomous x y hxy hyx := by
    by_contra hdiff
    obtain ⟨k, hk⟩ := hkey x x.2
    obtain ⟨l, hl⟩ := hkey y y.2
    have hcompare := compareDocuments_ne_eq hk hl
      (hne x x.2 y y.2 (fun h => hdiff (Subtype.ext h)) k l hk hl) order
    have hswap : compareCandidates schema order y x = (compareCandidates schema order x y).swap :=
      OrientedCmp.eq_swap
    cases hc : compareCandidates schema order x y with
    | lt => exact hxy hc
    | gt => exact hyx (hswap.trans (by rw [hc]; rfl))
    | eq => exact hcompare (Ordering.then_eq_eq.1 hc).1
  irrefl x hxx := by
    have hself : compareCandidates schema order x x = .eq := Std.ReflCmp.compare_self
    rw [hself] at hxx
    cases hxx
  trans _ _ _ := TransCmp.lt_trans

/-! ### Candidates -/

namespace StoredCollection

variable {c c' : StoredCollection}

/-- The plan of an equality that the primary key does not answer.  It is the first index of that
path in the order of declaration, or a scan when there is none. -/
theorem choosePlan_eq {path : PropertyPath} {value : JsonPrimitive}
    (hp : samePath path [.name c.schema.primaryKey] = false) :
    c.choosePlan (.comparison .eq path (.scalar value)) =
      ((((definitions c.indexes).map Prod.snd).find? fun d => samePath path d.path).map
        (·.name)).elim .scan .secondary := by
  have hvalues : (definitions c.indexes).map Prod.snd = c.indexes.values.map (·.definition) := by
    simp [definitions, OrderedMap.values, Function.comp_def]
  rw [hvalues, List.find?_map, Option.map_map]
  have hne : ¬samePath path [.name c.schema.primaryKey] = true := by
    rw [hp]
    exact Bool.false_ne_true
  have hfun : ((fun d : SecondaryIndex => samePath path d.path) ∘ fun index =>
      index.definition) = fun index : SecondaryIndexState StoredBuckets =>
        samePath path index.path := rfl
  rw [hfun]
  simp only [choosePlan, if_neg hne]
  cases c.indexes.values.find? fun index => samePath path index.path <;> rfl

/-- The plan looks only at the definitions of the indexes.  Names and paths are part of a
definition; what the buckets hold is not. -/
theorem choosePlan_congr (hp : c'.schema.primaryKey = c.schema.primaryKey)
    (hd : definitions c'.indexes = definitions c.indexes) (ast : Where) :
    c'.choosePlan ast = c.choosePlan ast := by
  have heq : ∀ path value, c'.choosePlan (.comparison .eq path (.scalar value)) =
      c.choosePlan (.comparison .eq path (.scalar value)) := by
    intro path value
    cases hs : samePath path [.name c.schema.primaryKey] with
    | true => simp only [choosePlan, hp, if_pos hs]
    | false => rw [choosePlan_eq hs, choosePlan_eq (by rw [hp]; exact hs), hd]
  cases ast with
  | comparison op path value => cases op <;> cases value <;> first | rfl | exact heq ..
  | _ => rfl

/-- The order lists one key for each document. -/
theorem length_documents (h : c.Invariant) : c.documents.length = c.order.length :=
  List.filterMap_length_eq_length.2 fun key hm => (h.consistent.mem_order key).1 hm

/-- **The candidates of a secondary plan** are the documents with the value.  Each is in the
bucket of its value, once. -/
theorem length_secondary (h : c.Invariant) {index : SecondaryIndexState StoredBuckets}
    (hi : c.indexes.get? index.name = some index) (op : ComparisonOperator) (path : PropertyPath)
    (value : JsonPrimitive) :
    (c.candidateKeys (.secondary index.name) (.comparison op path (.scalar value))).length =
      c.documents.countP fun d => indexText index.path d = some (encodeIndexValue value) := by
  have hinv : IndexInvariant c.records.get index :=
    h.consistent.indexed index (List.mem_map_of_mem (OrderedMap.get?_eq_some_iff.1 hi))
  have hholds : ∀ key, Holds index (encodeIndexValue value) key ↔
      ((c.records.get key).map fun d => decide (indexText index.path d =
        some (encodeIndexValue value))).getD false := by
    intro key
    rw [hinv.holds_iff]
    cases c.records.get key <;> simp
  rw [documents, List.countP_filterMap]
  cases hb : index.buckets.get (encodeIndexValue value) with
  | none =>
      simp only [candidateKeys, hi, Option.bind_some, hb, List.length_nil]
      refine (List.countP_eq_zero.2 fun key _ hq => ?_).symm
      obtain ⟨bucket, hbucket, -⟩ := (hholds key).2 hq
      cases hb.symm.trans hbucket
  | some bucket =>
      simp only [candidateKeys, hi, Option.bind_some, hb]
      have hhas : ∀ key, Holds index (encodeIndexValue value) key ↔ key ∈ bucket.keys := by
        refine fun key => ⟨fun hk => ?_, fun hk => ⟨bucket, hb, OrderedMap.has_iff.2 hk⟩⟩
        obtain ⟨bucket', hbucket, hhas⟩ := hk
        obtain rfl := Option.some.inj (hb.symm.trans hbucket)
        exact OrderedMap.has_iff.1 hhas
      have hmem : ∀ key ∈ bucket.keys, key ∈ c.order := by
        intro key hk
        obtain ⟨d, hd, -⟩ := (hinv.holds_iff _ key).1 ((hhas key).2 hk)
        exact (h.consistent.mem_order key).2 (by rw [hd]; rfl)
      rw [sorted_by_position h bucket.keys_nodup hmem, ← List.countP_eq_length_filter]
      refine List.countP_congr fun key _ => ?_
      rw [← hholds, hhas, List.contains_iff_mem]

/-- An index of the same definition.  The lists of definitions are equal with their names, so
the lookup finds one under the same name. -/
theorem get?_of_definitions {indexes indexes' : Indexes StoredBuckets}
    (hd : definitions indexes' = definitions indexes) {name : JsString}
    {index : SecondaryIndexState StoredBuckets} (hi : indexes.get? name = some index) :
    ∃ index', indexes'.get? name = some index' ∧ index'.definition = index.definition := by
  have hm : (name, index.definition) ∈ definitions indexes :=
    List.mem_map_of_mem (f := fun e => (e.1, e.2.definition)) (OrderedMap.get?_eq_some_iff.1 hi)
  rw [← hd] at hm
  obtain ⟨e, he, heq⟩ := List.mem_map.1 hm
  obtain ⟨rfl, hdefinition⟩ := Prod.mk.inj heq
  exact ⟨e.2, OrderedMap.get?_eq_some_iff.2 he, hdefinition⟩

/-- **The number of candidates** is determined by the documents and the definitions.  The plan
is chosen by the definitions, and the size of a bucket is the number of the documents with its
value. -/
theorem length_candidateKeys_congr (h : c.Invariant) (h' : c'.Invariant)
    (hn : ∀ e ∈ c.indexes.entries, e.2.name = e.1) (hd : definitions c'.indexes = definitions c.indexes)
    (hperm : c'.documents.Perm c.documents) (ast : Where) :
    (c'.candidateKeys (c.choosePlan ast) ast).length =
      (c.candidateKeys (c.choosePlan ast) ast).length := by
  have hscan : c'.order.length = c.order.length := by
    rw [← length_documents h, ← length_documents h', hperm.length_eq]
  unfold choosePlan
  split
  · next path value =>
      split_ifs
      · rfl
      · split
        · next index hf =>
            obtain ⟨e, he, rfl⟩ := List.mem_map.1 (List.mem_of_find?_eq_some hf)
            have hget : c.indexes.get? e.2.name = some e.2 := by
              rw [hn e he]
              exact OrderedMap.get?_eq_some_iff.2 he
            obtain ⟨index', hi', hdefinition⟩ := get?_of_definitions hd hget
            have hname : index'.name = e.2.name := congrArg SecondaryIndex.name hdefinition
            have hpath : index'.path = e.2.path := congrArg SecondaryIndex.path hdefinition
            rw [length_secondary h hget, ← hname, length_secondary h' (by rw [hname]; exact hi'),
              hpath]
            exact hperm.countP_eq _
        · exact hscan
  · exact hscan

end StoredCollection

/-- **Sorted results only depend on the set of the documents.**  The comparison is total, so
there is one sorted list, whatever the order of the collection. -/
theorem QueryOptions.whole_congr {c c' : StoredCollection} (h : c.Invariant) (h' : c'.Invariant)
    (hp : c'.schema.primaryKey = c.schema.primaryKey) (hperm : c'.documents.Perm c.documents)
    {options : QueryOptions} {order : List OrderField} (ho : options.order = some order)
    (ast : Where) : options.whole c' ast = options.whole c ast := by
  obtain ⟨hmatch, hsorted⟩ := @whole_sorted c h ast options order ho
  obtain ⟨hmatch', hsorted'⟩ := @whole_sorted c' h' ast options order ho
  rw [compareDocuments_congr hp] at hsorted'
  refine List.Perm.eq_of_pairwise (fun a b _ _ hab hba => ?_) hsorted' hsorted
    (hmatch'.trans ((hperm.filter _).trans hmatch.symm))
  rw [show compareDocuments c.schema order b a = (compareDocuments c.schema order a b).swap from
    OrientedCmp.eq_swap, hab] at hba
  cases hba

namespace Runtime

variable {options options' : DatabaseOptions} {schemas schemas' : List (JsString × CollectionSchema)}
  {r r' : Runtime} {name name' : JsString} {c c' : StoredCollection}

/-- **Programs with the same documents answer alike.**  The limit on candidates decides alike,
and so does the sort. -/
theorem Reached.query_perm (h : r.Reached options schemas) (h' : r'.Reached options' schemas')
    (hc : r.database.root.stored name = .ok c) (hc' : r'.database.root.stored name' = .ok c')
    (hp : c'.schema.primaryKey = c.schema.primaryKey)
    (hd : definitions c'.indexes = definitions c.indexes) (hperm : c'.documents.Perm c.documents)
    (ho : r.database.assertOpen = .ok ()) (ho' : r'.database.assertOpen = .ok ())
    {q : QueryOptions} {order : List OrderField} (hq : q.order = some order) (condition : JsInput) :
    r'.database.query name' condition q = r.database.query name condition q := by
  cases hast : parseWhere defaultQueryLimits condition.heap.graph condition.value with
  | error e =>
      simp only [Database.query, Root.query, ho, ho', hc, hc', compileWhere, hast, bind,
        Except.bind, Except.map]
  | ok ast =>
      have hanswer : q.answer c' ast = q.answer c ast :=
        congrArg q.slice (q.whole_congr (h.invariant hc) (h'.invariant hc') hp hperm hq ast)
      rw [h.query_eq hc hast ho, h'.query_eq hc' hast ho', hanswer,
        StoredCollection.choosePlan_congr hp hd, StoredCollection.length_candidateKeys_congr
          (h.invariant hc) (h'.invariant hc') (h.named hc) hd hperm]

/-- **Ordered results do not depend on insertion order.**  The comparator of the sort is
a strict total order on candidates with distinct primary keys, for all order fields.
Two collections that hold the same documents under the same primary key, in whatever
programs and orders they were written, give an ordered query the same documents; with
the same indexes, open databases give it the same outcome. -/
theorem ordered_queries_agree :
    (∀ schema order documents, sortDocuments schema order documents =
      (documents.zipIdx.mergeSort fun a b => (compareCandidates schema order a b).isLE).map
        Prod.fst) ∧
    (∀ (schema : CollectionSchema) (order : List OrderField) (S : Set (JsonObject × ℕ)),
      (∀ x ∈ S, ∃ k, documentKey x.1 schema = .ok k) →
      (∀ x ∈ S, ∀ y ∈ S, x ≠ y → ∀ k l, documentKey x.1 schema = .ok k →
        documentKey y.1 schema = .ok l → k.same l = false) →
      IsStrictTotalOrder S fun x y => compareCandidates schema order x y = .lt) ∧
    ∀ {options options' : DatabaseOptions} {schemas schemas' : List (JsString × CollectionSchema)}
      {r r' : Runtime} {name name' : JsString} {c c' : StoredCollection},
      r.Reached options schemas → r'.Reached options' schemas' →
      r.database.root.stored name = .ok c → r'.database.root.stored name' = .ok c' →
      c'.schema.primaryKey = c.schema.primaryKey → c'.documents.Perm c.documents →
      ∀ (condition : JsInput) (q : QueryOptions) order, q.order = some order →
        (∀ execution execution', r.database.query name condition q = .ok execution →
          r'.database.query name' condition q = .ok execution' →
          execution'.documents = execution.documents) ∧
        (definitions c'.indexes = definitions c.indexes → r.database.assertOpen = .ok () →
          r'.database.assertOpen = .ok () →
          r'.database.query name' condition q = r.database.query name condition q) := by
  refine ⟨fun _ _ _ => rfl, fun schema order S hkey hne => compareCandidates_strict hkey hne order,
    ?_⟩
  intro options options' schemas schemas' r r' name name' c c' h h' hc hc' hp hperm condition q
    order hq
  refine ⟨fun execution execution' he he' => ?_, fun hd ho ho' =>
    h.query_perm h' hc hc' hp hd hperm ho ho' hq condition⟩
  obtain ⟨⟨⟩, -, hrun⟩ := bind_eq_ok.1 he
  obtain ⟨_, -, hrun⟩ := bind_eq_ok.1 hrun
  obtain ⟨compiled, hcompile, -⟩ := bind_eq_ok.1 hrun
  obtain ⟨ast, hast, -⟩ := map_eq_ok.1 hcompile
  rw [h.query_ok hc hast he, h'.query_ok hc' hast he']
  exact congrArg q.slice (q.whole_congr (h.invariant hc) (h'.invariant hc') hp hperm hq ast)

/-- The notes `a` and `b`, written in two orders.  The theorem says that both answer an ordered
query alike, with the same slice. -/
theorem notes_in_two_orders : ∃ (r r' : Runtime) (c c' : StoredCollection),
    r.database.root.stored (js "notes") = .ok c ∧ r'.database.root.stored (js "notes") = .ok c' ∧
    c'.documents = c.documents.reverse ∧ c.documents.length = 2 ∧
    ∀ (condition : JsInput) (q : QueryOptions) order, q.order = some order →
      ∀ execution execution', r.database.query (js "notes") condition q = .ok execution →
        r'.database.query (js "notes") condition q = .ok execution' →
        execution'.documents = execution.documents := by
  obtain ⟨root, runs, hroot, hruns⟩ := exists_run (f := fun root => do
    let write (first second : String) := Transition.run (step (notesOptions 1 8))
      (start (notesOptions 1 8) root none)
      [.beginTransaction (js "t") 0, addNote 0 first, addNote 0 second, .commit 0 0, .resume]
    let r ← write "a" "b"
    let r' ← write "b" "a"
    let c ← (r.database.root.stored (js "notes")).toOption
    let c' ← (r'.database.root.stored (js "notes")).toOption
    if c'.documents = c.documents.reverse ∧ c.documents.length = 2 ∧
      c'.schema.primaryKey = c.schema.primaryKey then some (r, r', c, c') else none)
    (by decide +kernel)
  obtain ⟨r, hr, hruns⟩ := Option.bind_eq_some_iff.1 hruns
  obtain ⟨r', hr', hruns⟩ := Option.bind_eq_some_iff.1 hruns
  obtain ⟨c, hc, hruns⟩ := Option.bind_eq_some_iff.1 hruns
  obtain ⟨c', hc', hruns⟩ := Option.bind_eq_some_iff.1 hruns
  split_ifs at hruns with hsame
  obtain ⟨hreverse, hlength, hp⟩ := hsame
  have hreached : ∀ {events r}, Transition.run (step (notesOptions 1 8))
      (start (notesOptions 1 8) root none) events = some r →
      r.Reached (notesOptions 1 8) [(js "notes", notes)] := fun hrun =>
    ⟨Json, _, _, _, _, _, _, _, hroot, Transition.run_sound hrun⟩
  refine ⟨r, r', c, c', eq_ok_of_toOption hc, eq_ok_of_toOption hc', hreverse, hlength,
    fun condition q order hq => ?_⟩
  exact (ordered_queries_agree.2.2 (hreached hr) (hreached hr') (eq_ok_of_toOption hc)
    (eq_ok_of_toOption hc') hp (hreverse ▸ List.reverse_perm _) condition q order hq).1

end Runtime

end NewtonDB
