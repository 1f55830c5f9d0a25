/-
# Query plans

A plan looks at some of the keys of a collection.  Those it leaves out belong to
documents the condition does not hold for (`matching_candidates`), because both
codecs are injective up to `===` and the buckets hold what they should.  So a query
gives the documents that satisfy its condition, in order, sorted and sliced,
whichever plan it takes, and fails only for its number of candidates (`query_eq`).
-/

import NewtonDB.Engine.Declarations
import NewtonDB.Engine.SortOrder

namespace NewtonDB

/-- **Leaving out elements that a filter drops changes nothing.**  It is applied with the
condition of a query for the filter, and the candidates of a plan for what is left. -/
theorem filter_candidates {K : Type*} {f : K → Option JsonObject} {test : JsonObject → Bool}
    {p : K → Bool} {order : List K}
    (h : ∀ key ∈ order, ∀ document, f key = some document → test document → p key) :
    ((order.filter p).filterMap f).filter test = (order.filterMap f).filter test := by
  induction order with
  | nil => rfl
  | cons key order ih =>
      have hrest := ih fun k hk => h k (List.mem_cons_of_mem _ hk)
      have hkey := h key (List.mem_cons_self ..)
      cases hf : f key with
      | none =>
          rw [List.filterMap_cons_none hf, ← hrest]
          by_cases hp : p key
          · rw [List.filter_cons_of_pos hp, List.filterMap_cons_none hf]
          · rw [List.filter_cons_of_neg hp]
      | some document =>
          rw [List.filterMap_cons_some hf]
          by_cases hp : p key
          · rw [List.filter_cons_of_pos hp, List.filterMap_cons_some hf, List.filter_cons,
              List.filter_cons, hrest]
          · have ht : ¬test document := fun ht => hp (hkey document hf ht)
            rw [List.filter_cons_of_neg hp, List.filter_cons_of_neg ht, hrest]

/-- The first of the documents that pass a filter.  A key may have no document, or one that does
not pass, and then nothing is put in front. -/
theorem filter_filterMap_cons {K : Type*} (f : K → Option JsonObject) (test : JsonObject → Bool)
    (key : K) (keys : List K) : ((key :: keys).filterMap f).filter test =
      ((f key).filter test).toList ++ (keys.filterMap f).filter test := by
  cases hf : f key with
  | none => rw [List.filterMap_cons_none hf]; rfl
  | some document =>
      rw [List.filterMap_cons_some hf, List.filter_cons, Option.filter_some]
      split_ifs <;> rfl

/-! ### Paths and values -/

/-- Numbers that are the same to `===` are the same index.  Both zeros are the index zero. -/
theorem toIndex?_of_same {a b : JsNumber} (h : a.same b) : a.toIndex? = b.toIndex? := by
  cases a with
  | nan => cases h
  | infinity s =>
      cases b with
      | infinity s' => rfl
      | nan | finite y => cases h
  | finite x =>
      cases b with
      | nan | infinity s => cases h
      | finite y => rw [JsNumber.toIndex?, JsNumber.toIndex?, FiniteNumber.toInt?_of_same h]

/-- Equal paths read the same.  By recursion on both paths; a token leads to the same place as
one that is `===` to it. -/
theorem readPath_of_samePath : ∀ {left right : PropertyPath}, samePath left right →
    ∀ document, readPath left document = readPath right document
  | [], [], _, _ => rfl
  | [], _ :: _, h, _ => by cases h
  | _ :: _, [], h, _ => by cases h
  | a :: as, b :: bs, h, document => by
      obtain ⟨hab, hrest⟩ := Bool.and_eq_true_iff.1 h
      have ih := readPath_of_samePath hrest
      have hfun : readPath as = readPath bs := funext ih
      cases a with
      | name s =>
          cases b with
          | index n => cases hab
          | name t =>
              obtain rfl : s = t := eq_of_beq hab
              cases document <;> simp [readPath, hfun]
      | index n =>
          cases b with
          | name t => cases hab
          | index m =>
              have hnm := toIndex?_of_same hab
              cases document <;> simp [readPath, hfun, hnm]

/-- A value that is `===` to a primitive is one. -/
theorem samePrimitive_iff {source : Option Json} {value : JsonPrimitive} :
    samePrimitive source value ↔ ∃ p, source >>= Json.prim? = some p ∧ p.same value := by
  unfold samePrimitive
  cases source >>= Json.prim? <;> simp

/-- Values that are `===` are primary keys with one encoding, or neither is one.  Only the two
zeros are `===` without being equal, and both are encoded as `0`. -/
theorem encodeKey_of_same {p q : JsonPrimitive} {kp : PrimaryKey} {text : JsString}
    (h : p.same q) (hp : (Json.prim p).primaryKey? = some kp) (he : encodeKey kp = .ok text) :
    ∃ kq, (Json.prim q).primaryKey? = some kq ∧ encodeKey kq = .ok text := by
  cases p with
  | null | bool b => cases hp
  | string s =>
      cases q with
      | null | bool b | number y => cases h
      | string t =>
          obtain rfl : s = t := eq_of_beq h
          exact ⟨kp, hp, he⟩
  | number x =>
      cases q with
      | null | bool b | string t => cases h
      | number y =>
          obtain rfl := Option.some.inj hp
          have hsafe : x.isSafeInteger = y.isSafeInteger := by
            rw [FiniteNumber.isSafeInteger, FiniteNumber.isSafeInteger,
              FiniteNumber.toInt?_of_same h]
          have htext : x.text = y.text := (FiniteNumber.text_eq_iff x y).2 h
          refine ⟨_, rfl, ?_⟩
          simp only [encodeKey] at he ⊢
          rwa [← hsafe, ← htext]

namespace StoredCollection

variable {c : StoredCollection} {key : JsString} {document : JsonObject}

/-! ### Candidates -/

/-- The documents that satisfy a condition, in insertion order. -/
def matching (c : StoredCollection) (test : JsonObject → Bool) : List JsonObject :=
  c.documents.filter test

/-- The key of a document whose primary key is `===` to a value.  Documents are filed under the
encoding of their primary key, so the value leads to the same place. -/
theorem key_of_primary (h : c.Invariant) {value : JsonPrimitive}
    (hd : c.records.get key = some document)
    (hs : samePrimitive (Assoc.get? document c.schema.primaryKey) value) :
    ∃ k, (Json.prim value).primaryKey? = some k ∧ encodeKey k = .ok key := by
  obtain ⟨k, hk, he⟩ := h.consistent.keyed key document hd
  obtain ⟨p, hp, hsame⟩ := samePrimitive_iff.1 hs
  unfold documentKey at hk
  cases hget : Assoc.get? document c.schema.primaryKey with
  | none => rw [hget] at hp; cases hp
  | some j =>
      rw [hget] at hk hp
      cases j with
      | arr items | obj props => cases hp
      | prim q =>
          obtain rfl := Option.some.inj hp
          cases hq : (Json.prim q).primaryKey? with
          | none =>
              simp only [bind, Option.bind, hq] at hk
              cases hk
          | some kq =>
              simp only [bind, Option.bind, hq] at hk
              obtain ⟨_, -, hk⟩ := bind_eq_ok.1 hk
              obtain rfl := Except.ok.inj hk
              exact encodeKey_of_same hsame hq he

/-- A single key stands for itself in the order, or for nothing.  The order has the key once
when it is in use at all. -/
theorem filterMap_singleton (h : c.Invariant) (key : JsString) :
    [key].filterMap c.records.get = (c.order.filter (· = key)).filterMap c.records.get := by
  by_cases hm : key ∈ c.order
  · have hone : c.order.filter (· = key) = [key] := by
      rw [List.filter_eq, List.count_eq_one_of_mem h.consistent.nodup hm]
      rfl
    rw [hone]
  · have hnone : c.records.get key = none :=
      Option.not_isSome_iff_eq_none.1 fun hs => hm ((h.consistent.mem_order key).2 hs)
    rw [List.filter_eq, List.count_eq_zero_of_not_mem hm, List.filterMap_cons_none hnone]
    rfl

/-- **The primary plan** misses no document.  What meets a condition on the key has that key,
and this is the only candidate. -/
theorem matching_primary (h : c.Invariant) {op : ComparisonOperator} {path : PropertyPath}
    {value : JsonPrimitive} {test : JsonObject → Bool}
    (htest : ∀ d, test d → samePrimitive (Assoc.get? d c.schema.primaryKey) value) :
    ((c.candidateKeys .primary (.comparison op path (.scalar value))).filterMap
      c.records.get).filter test = c.matching test := by
  have hkey : ∀ key ∈ c.order, ∀ d, c.records.get key = some d → test d →
      ∃ k, (Json.prim value).primaryKey? = some k ∧ encodeKey k = .ok key :=
    fun key _ d hd ht => key_of_primary h hd (htest d ht)
  -- without a candidate no document matches
  have hempty : (∀ k text, (Json.prim value).primaryKey? = some k → encodeKey k ≠ .ok text) →
      [] = c.matching test := by
    intro hno
    refine (List.filter_eq_nil_iff.2 fun d hd ht => ?_).symm
    obtain ⟨key, hm, hget⟩ := List.mem_filterMap.1 hd
    obtain ⟨k, hk, he⟩ := hkey key hm d hget ht
    exact hno k key hk he
  cases hv : (Json.prim value).primaryKey? with
  | none =>
      simp only [candidateKeys, hv]
      exact hempty fun k text hk => by rw [hv] at hk; cases hk
  | some k =>
      cases he : encodeKey k with
      | error e =>
          simp only [candidateKeys, hv, he]
          refine hempty fun k' text hk' => ?_
          rw [hv] at hk'
          obtain rfl := Option.some.inj hk'
          rw [he]
          exact fun hc => by cases hc
      | ok text =>
          simp only [candidateKeys, hv, he, Except.toOption, Option.toList]
          rw [filterMap_singleton h]
          refine filter_candidates fun key hm d hd ht => ?_
          obtain ⟨k', hk', he'⟩ := hkey key hm d hd ht
          obtain rfl := Option.some.inj (hv.symm.trans hk')
          exact decide_eq_true (Except.ok.inj (he'.symm.trans he))

/-- The positions increase along the order. -/
theorem position_sorted (h : c.Invariant) :
    c.order.Pairwise fun a b => c.position a < c.position b := by
  refine h.consistent.sorted.imp_of_mem fun {a b} ha hb hab => ?_
  obtain ⟨i, hi⟩ := Option.isSome_iff_exists.1 ((h.consistent.position_some a).2 ha)
  obtain ⟨j, hj⟩ := Option.isSome_iff_exists.1 ((h.consistent.position_some b).2 hb)
  rw [position, position, hi, hj]
  exact hab i j hi hj

/-- **Keys of the collection sorted by position are in its order.**  Positions increase along
the order, so that sorting by them restores it. -/
theorem sorted_by_position (h : c.Invariant) {keys : List JsString} (hn : keys.Nodup)
    (hm : ∀ key ∈ keys, key ∈ c.order) :
    keys.mergeSort (fun left right => c.position left ≤ c.position right) =
      c.order.filter (keys.contains ·) := by
  have hsorted := position_sorted h
  have hinj : ∀ a ∈ c.order, ∀ b ∈ c.order, c.position a = c.position b → a = b := by
    have hnodup : (c.order.map c.position).Nodup :=
      List.pairwise_map.2 (hsorted.imp fun hab => hab.ne)
    exact fun a ha b hb => List.inj_on_of_nodup_map hnodup ha hb
  have hle : (keys.mergeSort fun left right => c.position left ≤ c.position right).Pairwise
      fun a b => c.position a ≤ c.position b := by
    refine (List.pairwise_mergeSort (fun a b d => ?_) (fun a b => ?_) keys).imp fun hab => ?_
    · simpa using le_trans
    · simpa using le_total (c.position a) (c.position b)
    · exact of_decide_eq_true hab
  have horder : (c.order.filter (keys.contains ·)).Pairwise
      fun a b => c.position a ≤ c.position b :=
    (hsorted.imp le_of_lt).sublist List.filter_sublist
  refine List.Perm.eq_of_pairwise (fun a b ha hb hab hba => ?_) hle horder ?_
  · have ha' := hm a ((List.mergeSort_perm ..).mem_iff.1 ha)
    exact hinj a ha' b (List.mem_of_mem_filter hb) (le_antisymm hab hba)
  · refine (List.mergeSort_perm ..).trans ((List.perm_ext_iff_of_nodup hn
      (h.consistent.nodup.filter _)).2 fun key => ?_)
    rw [List.mem_filter, List.contains_iff_mem]
    exact ⟨fun hk => ⟨hm key hk, hk⟩, And.right⟩

/-- **A secondary plan** misses no document.  What meets the condition has the value at the path
of the index, so that its key is in the bucket of the value. -/
theorem matching_secondary (h : c.Invariant) {index : SecondaryIndexState StoredBuckets}
    (hi : c.indexes.get? index.name = some index) {op : ComparisonOperator} {path : PropertyPath}
    {value : JsonPrimitive} {test : JsonObject → Bool}
    (htest : ∀ d, test d → samePrimitive (readPath index.path (.obj d)) value) :
    ((c.candidateKeys (.secondary index.name) (.comparison op path (.scalar value))).filterMap
      c.records.get).filter test = c.matching test := by
  have hinv : IndexInvariant c.records.get index :=
    h.consistent.indexed index (List.mem_map_of_mem (OrderedMap.get?_eq_some_iff.1 hi))
  have hholds : ∀ key, Holds index (encodeIndexValue value) key ↔
      ∃ d, c.records.get key = some d ∧ indexText index.path d = some (encodeIndexValue value) :=
    fun key => hinv.holds_iff _ key
  have hmatch : ∀ key ∈ c.order, ∀ d, c.records.get key = some d → test d →
      Holds index (encodeIndexValue value) key := by
    intro key _ d hd ht
    obtain ⟨p, hp, hsame⟩ := samePrimitive_iff.1 (htest d ht)
    refine (hholds key).2 ⟨d, hd, ?_⟩
    rw [indexText, hp, Option.map_some, (encodeIndexValue_eq_iff p value).2 hsame]
  cases hb : index.buckets.get (encodeIndexValue value) with
  | none =>
      simp only [candidateKeys, hi, Option.bind_some, hb]
      refine (List.filter_eq_nil_iff.2 fun d hd ht => ?_).symm
      obtain ⟨key, hm, hget⟩ := List.mem_filterMap.1 hd
      obtain ⟨bucket, hbucket, -⟩ := hmatch key hm d hget ht
      cases hb.symm.trans hbucket
  | some bucket =>
      simp only [candidateKeys, hi, Option.bind_some, hb]
      have hmem : ∀ key ∈ bucket.keys, key ∈ c.order := by
        intro key hk
        obtain ⟨d, hd, -⟩ := (hholds key).1 ⟨bucket, hb, OrderedMap.has_iff.2 hk⟩
        exact (h.consistent.mem_order key).2 (by rw [hd]; rfl)
      rw [sorted_by_position h bucket.keys_nodup hmem]
      refine filter_candidates fun key hm d hd ht => ?_
      obtain ⟨bucket', hbucket, hhas⟩ := hmatch key hm d hd ht
      obtain rfl := Option.some.inj (hb.symm.trans hbucket)
      exact List.contains_iff_mem.2 (OrderedMap.has_iff.1 hhas)

/-- **The candidates of the chosen plan** are enough.  The plan is taken from a comparison that
the whole condition implies. -/
theorem matching_candidates (h : c.Invariant) (hn : ∀ e ∈ c.indexes.entries, e.2.name = e.1)
    (ast : Where) :
    ((c.candidateKeys (c.choosePlan ast) ast).filterMap c.records.get).filter ast.test =
      c.matching ast.test := by
  unfold choosePlan
  split
  · next path value =>
      have htest : ∀ d, (Where.comparison .eq path (.scalar value)).test d →
          samePrimitive (readPath path (.obj d)) value := fun d hd => hd
      split_ifs with hp
      · refine matching_primary h fun d hd => ?_
        have hd' := htest d hd
        rw [readPath_of_samePath hp] at hd'
        simpa [readPath] using hd'
      · split
        · next index hf =>
            obtain ⟨e, he, rfl⟩ := List.mem_map.1 (List.mem_of_find?_eq_some hf)
            have hget : c.indexes.get? e.2.name = some e.2 := by
              rw [hn e he]
              exact OrderedMap.get?_eq_some_iff.2 he
            refine matching_secondary h hget fun d hd => ?_
            have hpath : samePath path e.2.path := by
              simpa using List.find?_some hf
            rw [← readPath_of_samePath hpath]
            exact htest d hd
        · rfl
  · rfl

/-! ### Results -/

/-- Keys that compare as equal have one encoding.  An encoding is a tag and the text of the key,
and equal numbers have one text. -/
theorem encodeKey_of_compare {k k' : PrimaryKey} {text text' : JsString}
    (hk : encodeKey k = .ok text) (hk' : encodeKey k' = .ok text')
    (h : compareJson (some k.json) (some k'.json) = .eq) : text = text' := by
  obtain ⟨hclass, hnumber, hstring⟩ := of_compareJson_eq h
  cases k with
  | string s =>
      cases k' with
      | number y => cases y <;> cases hclass
      | string t =>
          obtain rfl : s = t := hstring
          exact Except.ok.inj (hk.symm.trans hk')
  | number x =>
      cases x with
      | nan | infinity s => cases hk
      | finite x =>
          cases k' with
          | string t => cases hclass
          | number y =>
              cases y with
              | nan | infinity s => cases hk'
              | finite y =>
                  obtain ⟨k, hky, he⟩ := encodeKey_of_same (p := .number x) (q := .number y)
                    ((FiniteNumber.same_iff x y).2 hnumber) rfl hk
                  obtain rfl := Option.some.inj hky
                  exact Except.ok.inj (he.symm.trans hk')

/-- **No two documents of a collection compare as equal.**  Their keys are different, and the
comparison ends with the keys. -/
theorem pairwise_documents (h : c.Invariant) (order : List OrderField) :
    c.documents.Pairwise fun a b => compareDocuments c.schema order a b ≠ .eq := by
  refine List.pairwise_filterMap.2 (h.consistent.nodup.imp fun {key key'} hne d hd d' hd' heq => ?_)
  obtain ⟨k, hk, he⟩ := h.consistent.keyed key d hd
  obtain ⟨k', hk', he'⟩ := h.consistent.keyed key' d' hd'
  have hcompare := sortKey_of_compare_eq heq
  rw [sortKey, sortKey, hk, hk'] at hcompare
  exact hne (encodeKey_of_compare he he' hcompare)

end StoredCollection

/-- The order of a result: that of the collection, or sorted. -/
def QueryOptions.arrange (options : QueryOptions) (schema : CollectionSchema)
    (documents : List JsonObject) : List JsonObject :=
  options.order.elim documents (sortDocuments schema · documents)

/-- The slice `[offset, offset + limit]` of a result. -/
def QueryOptions.slice (options : QueryOptions) (documents : List JsonObject) : List JsonObject :=
  options.limit.elim (documents.drop options.offset) (documents.drop options.offset).take

namespace StoredCollection

variable {c : StoredCollection}

/-- **The loop of an unordered query** takes the slice of the matches it meets.  By induction on
the keys: it stops when the slice is full, and what is behind cannot change it. -/
theorem collectDocuments_eq {test : JsonObject → Bool} {options : QueryOptions} :
    ∀ {keys : List JsString} {matched : ℕ} {documents : List JsonObject},
      documents.length = matched - options.offset →
      (∀ n, options.limit = some n → documents.length < n) →
      matched + ((keys.filterMap c.records.get).filter test).length ≤ maxQueryResults →
      c.collectDocuments test options keys matched documents = .ok (documents ++
        (let rest := ((keys.filterMap c.records.get).filter test).drop (options.offset - matched)
         options.limit.elim rest fun n => rest.take (n - documents.length)))
  | [], matched, documents, _, _, _ => by
      cases options.limit <;> simp [collectDocuments]
  | key :: keys, matched, documents, hlen, hlimit, hmax => by
      unfold collectDocuments
      cases hd : (c.records.get key).filter test with
      | none =>
          have hrest := filter_filterMap_cons c.records.get test key keys
          rw [hd, Option.toList_none, List.nil_append] at hrest
          rw [hrest] at hmax ⊢
          exact collectDocuments_eq hlen hlimit hmax
      | some document =>
          have hrest := filter_filterMap_cons c.records.get test key keys
          rw [hd, Option.toList_some, List.singleton_append] at hrest
          rw [hrest] at hmax ⊢
          rw [List.length_cons] at hmax
          dsimp only
          by_cases hoffset : matched < options.offset
          · rw [if_pos hoffset, collectDocuments_eq (by omega) hlimit (by omega),
              show options.offset - matched = (options.offset - (matched + 1)) + 1 by omega]
            rfl
          · have hmany : ¬maxQueryResults ≤ documents.length := by omega
            have hdrop : options.offset - matched = 0 := by omega
            rw [if_neg hoffset, if_neg hmany, hdrop, List.drop_zero]
            cases hl : options.limit with
            | none =>
                rw [if_neg (by simp), collectDocuments_eq (by simp; omega) (by simp [hl])
                  (by omega), show options.offset - (matched + 1) = 0 by omega, hl]
                simp
            | some n =>
                have hn := hlimit n hl
                by_cases hlast : n ≤ documents.length + 1
                · rw [if_pos (by simpa using hlast)]
                  simp [show n - documents.length = 1 by omega]
                · rw [if_neg (by simpa using hlast), collectDocuments_eq (by simp; omega)
                    (by simp [hl]; omega) (by omega),
                    show options.offset - (matched + 1) = 0 by omega, hl]
                  simp [show n - documents.length = (n - (documents.length + 1)) + 1 by omega]

/-- **The end of an ordered query** takes the slice of the sorted matches.  There are no more
matches than may be sorted, so that no error is thrown. -/
theorem orderedDocuments_eq {test : JsonObject → Bool} {options : QueryOptions}
    {order : List OrderField} {keys : List JsString}
    (hmax : ((keys.filterMap c.records.get).filter test).length ≤ maxSortCandidates) :
    c.orderedDocuments test options order keys = .ok (options.slice
      (sortDocuments c.schema order ((keys.filterMap c.records.get).filter test))) := by
  have hlen := (sortDocuments_perm c.schema order
    ((keys.filterMap c.records.get).filter test)).length_eq
  unfold orderedDocuments
  dsimp only
  generalize sortDocuments c.schema order ((keys.filterMap c.records.get).filter test) = sorted
    at hlen ⊢
  have hsame : maxSortCandidates = maxQueryResults := rfl
  rw [if_neg (by omega), if_neg (by omega)]
  unfold QueryOptions.slice
  cases options.limit with
  | none => simp
  | some n =>
      refine congrArg _ ?_
      show (sorted.take (options.offset + n)).drop options.offset =
        (sorted.drop options.offset).take n
      rw [List.drop_take, Nat.add_sub_cancel_left]

/-- The documents of the candidates that match, under the chosen plan. -/
theorem length_matches_le (c : StoredCollection) (test : JsonObject → Bool) (keys : List JsString) :
    ((keys.filterMap c.records.get).filter test).length ≤ keys.length :=
  (List.length_filter_le ..).trans (List.length_filterMap_le ..)

/-- **The answer of a query**, whichever plan it takes.  The limit on candidates is checked
first; within it every plan gives the slice of the matches. -/
theorem query_eq (h : c.Invariant) (hn : ∀ e ∈ c.indexes.entries, e.2.name = e.1) (ast : Where)
    (options : QueryOptions) : c.query ast ast.test options =
      if options.limit ≠ some 0 ∧
          maxQueryCandidates < (c.candidateKeys (c.choosePlan ast) ast).length then
        .error (.queryValidation .candidateLimit (js "/execution"))
      else .ok {
        documents := options.slice (options.arrange c.schema (c.matching ast.test))
        plan := c.choosePlan ast } := by
  have hmatch := matching_candidates h hn ast
  have hlen := length_matches_le c ast.test (c.candidateKeys (c.choosePlan ast) ast)
  unfold query
  dsimp only
  by_cases hzero : options.limit = some 0
  · rw [if_pos hzero, if_neg fun hc => hc.1 hzero]
    simp [QueryOptions.slice, hzero]
  · rw [if_neg hzero]
    by_cases hmany : maxQueryCandidates < (c.candidateKeys (c.choosePlan ast) ast).length
    · rw [if_pos hmany, if_pos ⟨hzero, hmany⟩]
    · rw [if_neg hmany, if_neg fun hc => hmany hc.2]
      have hmax := hlen.trans (not_lt.1 hmany)
      unfold QueryOptions.arrange
      cases options.order with
      | none =>
          dsimp only
          have hstart : ([] : List JsonObject).length = 0 - options.offset :=
            (Nat.zero_sub _).symm
          have hlimit : ∀ n, options.limit = some n → ([] : List JsonObject).length < n :=
            fun n hl => Nat.pos_of_ne_zero fun hz => hzero (hl.trans (congrArg some hz))
          rw [collectDocuments_eq hstart hlimit ((Nat.zero_add _).trans_le hmax), hmatch]
          rfl
      | some order =>
          dsimp only
          rw [orderedDocuments_eq hmax, hmatch]
          rfl

end StoredCollection

end NewtonDB
