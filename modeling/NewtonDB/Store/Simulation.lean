/-
# Transactions of the engine simulate transactions of the store

A script runs alone: between its begin and its commit the root does not change.
`Simulates` relates a running transaction of the engine to one of the store, and
the calls keep it (`call_simulates`); a commit then publishes a root that
represents the store the transaction reached (`commit_simulates`).
-/

import NewtonDB.Store.Refinement

namespace NewtonDB

/-- A root represents a store: the same collections, each representing its own. -/
structure Root.Represents (root : Root) (store : Store) : Prop where
  keys : root.collections.keys = store.keys
  collection : ∀ name s c, root.collections.get? name = some s → store.get? name = some c →
    s.Represents c

/-- A collection of the store is represented by one of the root. -/
theorem Root.Represents.exists_of {root : Root} {store : Store} (h : root.Represents store)
    {name : JsString} {c : StoreCollection} (hc : store.get? name = some c) :
    ∃ s, root.collections.get? name = some s ∧ s.Represents c := by
  have hm : name ∈ root.collections.keys := by
    rw [h.keys, OrderedMap.mem_keys_iff, hc]; rfl
  obtain ⟨s, hs⟩ := Option.isSome_iff_exists.1 (OrderedMap.mem_keys_iff.1 hm)
  exact ⟨s, hs, h.collection name s c hs hc⟩

/-- A name that the store does not know is an error of the engine.  Both have the same names. -/
theorem Root.Represents.stored_error {root : Root} {store : Store} (h : root.Represents store)
    {name : JsString} (hn : store.get? name = none) :
    ∃ error, root.stored name = .error error := by
  have hm : root.collections.get? name = none := by
    rw [OrderedMap.get?_eq_none_iff, h.keys, ← OrderedMap.get?_eq_none_iff]
    exact hn
  unfold Root.stored
  rw [hm]
  exact ⟨_, rfl⟩

/-- A transaction of the engine on `root` simulates one of the store on `store`. -/
structure Simulates (limits : TransactionLimits) (root : Root) (store : Store) (t : Transaction)
    (st : StoreTransaction) : Prop where
  valid : t.Valid root
  limits : t.limits = limits
  createdAt : t.createdAt = st.createdAt
  operations : t.operations = st.operations
  touched : t.baseRevisions.keys = st.touched
  keys : st.store.keys = store.keys
  clean : ∀ name, t.working.get? name = none → st.store.get? name = store.get? name
  dirty : ∀ name w, t.working.get? name = some w →
    name ∈ t.baseRevisions.keys ∧ ∃ c, st.store.get? name = some c ∧ w.Represents c
  changed : t.changes = [] → t.working.keys = []

namespace Simulates

variable {limits : TransactionLimits} {root : Root} {store : Store} {t : Transaction}
  {st : StoreTransaction} {now : ℕ} {name : JsString}

/-- A new transaction simulates a new one of the store.  Nothing was touched, and both are at
the same documents. -/
theorem start (limits : TransactionLimits) (root : Root) (store : Store) (id : JsString)
    (begun : ℕ) : Simulates limits root store (.new id begun limits)
      { createdAt := begun, operations := 0, touched := [], store } where
  valid := ⟨rfl, fun _ _ h => by cases h⟩
  limits := rfl
  createdAt := rfl
  operations := rfl
  touched := rfl
  keys := rfl
  clean _ _ := rfl
  dirty _ _ h := by cases h
  changed _ := rfl

/-- A transaction that simulates one of the store is active. -/
theorem assertActive (h : Simulates limits root store t st) : t.assertActive = .ok () :=
  if_pos h.valid.active

/-- A transaction that is alive in the store is within its age. -/
theorem assertWithinLimits_ok (h : Simulates limits root store t st)
    (ha : st.alive limits now = true) : t.assertWithinLimits now = .ok () := by
  have hle := of_decide_eq_true ha
  refine if_neg ?_
  rw [h.createdAt, h.limits]
  omega

/-- A transaction that is too old in the store is refused. -/
theorem assertWithinLimits_error (h : Simulates limits root store t st)
    (ha : st.alive limits now = false) : ∃ error, t.assertWithinLimits now = .error error := by
  have hle := of_decide_eq_false ha
  refine ⟨_, if_pos ?_⟩
  rw [h.createdAt, h.limits]
  omega

/-- **A touch goes the same way on both sides.**  The age is checked first, then the name, then
the number of collections. -/
theorem touch (h : Simulates limits root store t st) (hr : root.Represents store) (now : ℕ)
    (name : JsString) :
    (∃ error, t.touchCollection root now name = (t, .error error) ∧
      st.touch limits now name = none) ∨
    (∃ s t' st' c, t.touchCollection root now name = (t', .ok s) ∧
      st.touch limits now name = some (st', c) ∧ root.collections.get? name = some s ∧
      st.store.get? name = some c ∧ Simulates limits root store t' st' ∧
      st'.store = st.store) := by
  unfold Transaction.touchCollection StoreTransaction.touch
  rw [h.assertActive]
  cases ha : st.alive limits now with
  | false =>
      obtain ⟨e, he⟩ := h.assertWithinLimits_error ha
      rw [he]
      exact .inl ⟨e, rfl, rfl⟩
  | true =>
      rw [h.assertWithinLimits_ok ha]
      cases hc : st.store.get? name with
      | none =>
          have hn : store.get? name = none := by
            rw [OrderedMap.get?_eq_none_iff, ← h.keys, ← OrderedMap.get?_eq_none_iff]
            exact hc
          obtain ⟨e, he⟩ := hr.stored_error hn
          rw [he]
          exact .inl ⟨e, rfl, rfl⟩
      | some c =>
          have hm : name ∈ store.keys := by
            rw [← h.keys, OrderedMap.mem_keys_iff, hc]; rfl
          obtain ⟨c₀, hc₀⟩ := Option.isSome_iff_exists.1 (OrderedMap.mem_keys_iff.1 hm)
          obtain ⟨s, hs, -⟩ := hr.exists_of hc₀
          have htouched : name ∈ st.touched ↔ t.baseRevisions.has name = true := by
            rw [OrderedMap.has_iff, h.touched]
          rw [Root.stored_eq_ok.2 hs]
          simp only [bind, Except.bind, Bool.not_true, Bool.false_eq_true, if_false,
            List.contains_iff_mem]
          by_cases hin : name ∈ st.touched
          · rw [if_pos (htouched.1 hin), if_pos hin]
            exact .inr ⟨s, t, st, c, rfl, rfl, hs, rfl, h, rfl⟩
          · have hnot := mt htouched.2 hin
            rw [if_neg hnot, if_neg hin]
            have hsize : t.baseRevisions.size = st.touched.length := by
              rw [OrderedMap.size_eq_keys, h.touched]
            rw [h.limits, hsize]
            split_ifs with hlim
            · exact .inl ⟨_, rfl, rfl⟩
            · have hkeys : (t.baseRevisions.set name s.revision).keys = st.touched ++ [name] := by
                rw [OrderedMap.keys_set, h.touched, if_neg hin]
              refine .inr ⟨s, _, _, c, rfl, rfl, hs, rfl, ⟨⟨h.valid.active, fun n b hb => ?_⟩,
                rfl, h.createdAt, h.operations, hkeys, h.keys, h.clean, fun n w hw => ?_,
                h.changed⟩, rfl⟩
              · rw [OrderedMap.get?_set] at hb
                split_ifs at hb with hne
                · obtain rfl := Option.some.inj hb
                  exact ⟨s, hne ▸ hs, rfl⟩
                · exact h.valid.base_eq n b hb
              · obtain ⟨hm', hex⟩ := h.dirty n w hw
                refine ⟨?_, hex⟩
                rw [hkeys, List.mem_append, ← h.touched]
                exact .inl hm'

/-- Counting a write goes the same way on both sides.  The limit on operations and the age are
compared alike. -/
theorem count (h : Simulates limits root store t st) (now : ℕ) :
    (∃ error, (t.recordOperation now).2 = .error error ∧ st.count limits now = none) ∨
    ((t.recordOperation now).2 = .ok () ∧ ∃ st', st.count limits now = some st' ∧
      Simulates limits root store (t.recordOperation now).1 st' ∧ st'.alive limits now = true ∧
        st'.store = st.store) := by
  unfold Transaction.recordOperation StoreTransaction.count
  rw [h.assertActive]
  cases ha : st.alive limits now with
  | false =>
      obtain ⟨e, he⟩ := h.assertWithinLimits_error ha
      rw [he]
      exact .inl ⟨e, rfl, rfl⟩
  | true =>
      rw [h.assertWithinLimits_ok ha]
      simp only [bind, Except.bind, Bool.true_and, decide_eq_true_iff]
      rw [h.limits, h.operations]
      by_cases hops : limits.maxOperations < st.operations + 1
      · rw [if_pos hops, if_neg (by omega)]
        exact .inl ⟨_, rfl, rfl⟩
      · rw [if_neg hops, if_pos (by omega)]
        exact .inr ⟨rfl, _, rfl, ⟨⟨h.valid.active, h.valid.base_eq⟩, rfl, h.createdAt, rfl,
          h.touched, h.keys, h.clean, h.dirty, h.changed⟩, ha, rfl⟩

/-- The collection a transaction may write to represents the store's.  It was touched before, or
is touched now, and the clone has the documents of the committed one. -/
theorem writable (h : Simulates limits root store t st) (hr : root.Represents store)
    (ha : st.alive limits now = true) (name : JsString) :
    (∃ error, (t.writable root now name).2 = .error error ∧ st.touch limits now name = none) ∨
    (∃ w st' c, (t.writable root now name).2 = .ok w ∧
      st.touch limits now name = some (st', c) ∧ w.Represents c ∧
      (t.writable root now name).1.working.get? name = some w ∧
      (∀ n, n ≠ name → (t.writable root now name).1.working.get? n = t.working.get? n) ∧
      (t.writable root now name).1.Valid root ∧
      (t.writable root now name).1.limits = limits ∧
      (t.writable root now name).1.createdAt = st'.createdAt ∧
      (t.writable root now name).1.operations = st'.operations ∧
      (t.writable root now name).1.baseRevisions.keys = st'.touched ∧
      name ∈ st'.touched ∧ (∀ n ∈ st.touched, n ∈ st'.touched) ∧ st'.store = st.store ∧
      st.store.get? name = some c) := by
  unfold Transaction.writable
  rw [h.assertActive]
  cases hw : t.working.get? name with
  | some w =>
      obtain ⟨hm, c, hc, hrep⟩ := h.dirty name w hw
      rw [h.touched] at hm
      refine .inr ⟨w, st, c, rfl, ?_, hrep, hw, fun _ _ => rfl, h.valid, h.limits, h.createdAt,
        h.operations, h.touched, hm, fun _ hn => hn, rfl, hc⟩
      unfold StoreTransaction.touch
      rw [ha, hc]
      exact if_pos (List.contains_iff_mem.2 hm)
  | none =>
      rcases h.touch hr now name with
        ⟨e, he, hn⟩ | ⟨s, t', st', c, htouch, hst, hs, hc, hsim, hstore⟩
      · dsimp only
        rw [he]
        exact .inl ⟨e, rfl, hn⟩
      · dsimp only
        have hwork := Transaction.touchCollection_working t root now name
        have hm := Transaction.mem_base_of_touch htouch
        rw [htouch] at hwork ⊢
        have hrep : s.Represents c :=
          hr.collection name s c hs ((h.clean name hw).symm.trans hc)
        have hsub : ∀ n ∈ st.touched, n ∈ st'.touched := by
          intro n hn
          rw [← hsim.touched]
          have hext := (Transaction.touchCollection_extends t root now name).base
          rw [htouch] at hext
          rw [← h.touched, OrderedMap.mem_keys_iff] at hn
          obtain ⟨b, hb⟩ := Option.isSome_iff_exists.1 hn
          exact OrderedMap.mem_keys_iff.2 (by rw [hext n b hb]; rfl)
        refine .inr ⟨s.clone, st', c, rfl, hst, hrep.clone, OrderedMap.get?_set_self ..,
          fun n hn => ?_, ⟨hsim.valid.active, hsim.valid.base_eq⟩, hsim.limits, hsim.createdAt,
          hsim.operations, hsim.touched, hsim.touched ▸ hm, hsub, hstore, hc⟩
        show (t'.working.set name s.clone).get? n = _
        rw [OrderedMap.get?_set, if_neg (Ne.symm hn), hwork]

/-- **A write goes the same way on both sides** when its body does.  The collection is touched,
cloned and written, and the operation counted. -/
theorem write (h : Simulates limits root store t st) (hr : root.Represents store) (now : ℕ)
    (name : JsString) (body : WorkingCollection → WorkingCollection × Except NewtonError Written)
    (f : StoreCollection → Option (CallResult × StoreCollection)) (result : Written → CallResult)
    (hbody : ∀ w c, w.Represents c → (∃ error, (body w).2 = .error error ∧ f c = none) ∨
      (∃ written c', (body w).2 = .ok written ∧ f c = some (result written, c') ∧
        (body w).1.Represents c')) :
    (∃ error, (t.write root now name body).2.map result = .error error ∧
      st.write limits now name f = none) ∨
    (∃ called st', (t.write root now name body).2.map result = .ok called ∧
      st.write limits now name f = some (st', called) ∧
      Simulates limits root store (t.write root now name body).1 st') := by
  unfold Transaction.write StoreTransaction.write
  rcases h.count now with ⟨e, he, hn⟩ | ⟨hok, st₁, hst₁, hsim₁, halive, hstore₁⟩
  · generalize t.recordOperation now = r at he
    obtain ⟨t₁, r⟩ := r
    obtain rfl : r = .error e := he
    exact .inl ⟨e, rfl, by rw [hn]; rfl⟩
  · generalize t.recordOperation now = r at hok hsim₁
    obtain ⟨t₁, r⟩ := r
    obtain rfl : r = .ok () := hok
    rw [hst₁]
    dsimp only at hsim₁ ⊢
    simp only [bind, Option.bind]
    rcases hsim₁.writable hr halive name with
      ⟨e, he, hn⟩ | ⟨w, st₂, c, hwok, hst₂, hrep, hget, hother, hvalid, hlim, hcr, hop, htou, hm,
        hsub, hstore₂, hc⟩
    · generalize t₁.writable root now name = r at he
      obtain ⟨t₂, r⟩ := r
      obtain rfl : r = .error e := he
      exact .inl ⟨e, rfl, by rw [hn]⟩
    · generalize t₁.writable root now name = r at hwok hget hother hvalid hlim hcr hop htou
      obtain ⟨t₂, r⟩ := r
      obtain rfl : r = .ok w := hwok
      rw [hst₂]
      dsimp only at hget hother hvalid hlim hcr hop htou ⊢
      rcases hbody w c hrep with ⟨e, he, hn⟩ | ⟨written, c', hwr, hf, hrep'⟩
      · rw [he, hn]
        exact .inl ⟨e, rfl, rfl⟩
      · rw [hwr, hf]
        refine .inr ⟨result written, _, rfl, rfl, ⟨⟨hvalid.active, hvalid.base_eq⟩, hlim, hcr, hop, htou,
          ?_, fun n hn => ?_, fun n w' hw' => ?_, fun hch => ?_⟩⟩
        · have hmem : name ∈ st₂.store.keys := by
            rw [hstore₂, OrderedMap.mem_keys_iff, hc]; rfl
          rw [OrderedMap.keys_set, if_pos hmem, hstore₂]
          exact hsim₁.keys
        · dsimp only at hn ⊢
          rw [OrderedMap.get?_set] at hn ⊢
          split_ifs at hn ⊢ with hne
          rw [hother n (Ne.symm hne)] at hn
          rw [hstore₂]
          exact hsim₁.clean n hn
        · dsimp only at hw' ⊢
          rw [OrderedMap.get?_set] at hw' ⊢
          rw [htou]
          split_ifs at hw' ⊢ with hne
          · obtain rfl := Option.some.inj hw'
            exact ⟨hne ▸ hm, c', rfl, hrep'⟩
          · rw [hother n (Ne.symm hne)] at hw'
            obtain ⟨hmem, hex⟩ := hsim₁.dirty n w' hw'
            rw [hsim₁.touched] at hmem
            rw [hstore₂]
            exact ⟨hsub n hmem, hex⟩
        · exact absurd hch (by simp)

/-- **An insert, or an upsert, goes the same way on both sides.**  The write is that of the
collection, and the result tells whether the document was there. -/
theorem insert (h : Simulates limits root store t st) (hr : root.Represents store) (now : ℕ)
    (name : JsString) (document : JsInput) (upsert : Bool) (generated : GeneratorOutcome) :
    (∃ error, (t.insert root now name document upsert generated).2 = .error error ∧
      st.insert limits now name document upsert generated = none) ∨
    (∃ result st', (t.insert root now name document upsert generated).2 = .ok result ∧
      st.insert limits now name document upsert generated = some (st', result) ∧
      Simulates limits root store (t.insert root now name document upsert generated).1 st') := by
  refine h.write hr now name _ _ (fun written => .key written.change.primaryKey) fun w c hrep => ?_
  rcases hrep.insert name document upsert generated with
    ⟨e, he, hn⟩ | ⟨written, c', hok, hins, hrep'⟩
  · exact .inl ⟨e, he, by rw [hn]; rfl⟩
  · exact .inr ⟨written, c', hok, by rw [hins]; rfl, hrep'⟩

/-- **What a read sees** are the documents of the store's collection.  They are those of the
clone where there is one, and those of the root otherwise. -/
theorem models_current (h : Simulates limits root store t st) (hr : root.Represents store)
    {s : StoredCollection} {c : StoreCollection} (hs : root.collections.get? name = some s)
    (hc : st.store.get? name = some c) :
    Models (t.current name s).1 (t.current name s).2 c.documents := by
  unfold Transaction.current
  cases hw : t.working.get? name with
  | some w =>
      obtain ⟨-, c', hc', hrep⟩ := h.dirty name w hw
      obtain rfl := Option.some.inj (hc.symm.trans hc')
      exact hrep.models
  | none => exact (hr.collection name s c hs ((h.clean name hw).symm.trans hc)).models

/-- A scan of the engine is a scan of the documents.  Documents are met in the same order, and
the limits count the same. -/
theorem findDocuments_eq {order : List JsString} {content : Content} {documents : Documents}
    (h : Models order content documents) (condition : JsInput) :
    findDocuments order content condition =
      findDocuments documents.keys documents.get? condition := by
  have hlist : order.filterMap content = documents.keys.filterMap documents.get? := by
    rw [h.order, List.filterMap_map]
    exact List.filterMap_congr fun key _ => h.content key
  unfold findDocuments
  rw [hlist, h.order, List.length_map]

/-- **Every call goes the same way on both sides.**  One case for each method, so that a script
is simulated call by call. -/
theorem call (h : Simulates limits root store t st) (hr : root.Represents store) (now : ℕ)
    (c : TransactionCall) :
    (∃ error, (t.call root now c).2 = .error error ∧ st.call limits now c = none) ∨
    (∃ result st', (t.call root now c).2 = .ok result ∧
      st.call limits now c = some (st', result) ∧
      Simulates limits root store (t.call root now c).1 st') := by
  cases c with
  | collection name =>
      simp only [Transaction.call, StoreTransaction.call, h.assertActive]
      cases hc : st.store.get? name with
      | none =>
          have hn : store.get? name = none := by
            rw [OrderedMap.get?_eq_none_iff, ← h.keys, ← OrderedMap.get?_eq_none_iff]
            exact hc
          obtain ⟨e, he⟩ := hr.stored_error hn
          exact .inl ⟨e, by rw [he]; rfl, by simp [OrderedMap.has, hc]⟩
      | some c =>
          have hm : name ∈ store.keys := by
            rw [← h.keys, OrderedMap.mem_keys_iff, hc]; rfl
          obtain ⟨c₀, hc₀⟩ := Option.isSome_iff_exists.1 (OrderedMap.mem_keys_iff.1 hm)
          obtain ⟨s, hs, -⟩ := hr.exists_of hc₀
          exact .inr ⟨.done, st, by rw [Root.stored_eq_ok.2 hs]; rfl, by simp [OrderedMap.has, hc], h⟩
  | get name primaryKey =>
      simp only [Transaction.call, StoreTransaction.call, Transaction.read]
      rcases h.touch hr now name with
        ⟨e, he, hn⟩ | ⟨s, t', st', c, htouch, hst, hs, hc, hsim, hstore⟩
      · rw [he, hn]
        exact .inl ⟨e, rfl, rfl⟩
      · have hmodels := hsim.models_current hr hs (hstore ▸ hc)
        rw [htouch, hst]
        simp only [bind, Option.bind]
        cases hkey : primaryKey.toKey? with
        | none =>
            cases henc : encodeKey primaryKey with
            | error e => exact .inl ⟨e, rfl, rfl⟩
            | ok text =>
                obtain ⟨key, hk, -⟩ := encodeKey_eq_ok_iff.1 henc
                rw [hkey] at hk
                cases hk
        | some key =>
            rw [encodeKey_eq_ok_iff.2 ⟨key, hkey, rfl⟩]
            refine .inr ⟨.document (c.documents.get? key), st', ?_, rfl, hsim⟩
            simp only [Except.map, hmodels.content]
  | find name condition =>
      simp only [Transaction.call, StoreTransaction.call, Transaction.query]
      rcases h.touch hr now name with
        ⟨e, he, hn⟩ | ⟨s, t', st', c, htouch, hst, hs, hc, hsim, hstore⟩
      · rw [he, hn]
        exact .inl ⟨e, rfl, rfl⟩
      · have hmodels := hsim.models_current hr hs (hstore ▸ hc)
        rw [htouch, hst]
        simp only [bind, Option.bind]
        rw [findDocuments_eq hmodels]
        cases findDocuments c.documents.keys c.documents.get? condition with
        | error e => exact .inl ⟨e, rfl, rfl⟩
        | ok found => exact .inr ⟨.documents found, st', rfl, rfl, hsim⟩
  | insert name document generated => exact h.insert hr now name document false generated
  | upsert name document generated => exact h.insert hr now name document true generated
  | update name primaryKey patch =>
      refine h.write hr now name (·.update name primaryKey patch)
        (fun c => (c.update primaryKey patch).map (.done, ·)) (fun _ => .done) fun w c hrep => ?_
      rcases hrep.update name primaryKey patch with
        ⟨e, he, hn⟩ | ⟨written, c', hok, hup, hrep'⟩
      · exact .inl ⟨e, he, by rw [hn]; rfl⟩
      · exact .inr ⟨written, c', hok, by rw [hup]; rfl, hrep'⟩
  | delete name primaryKey =>
      refine h.write hr now name (·.delete name primaryKey)
        (fun c => (c.delete primaryKey).map (.done, ·)) (fun _ => .done) fun w c hrep => ?_
      rcases hrep.delete name primaryKey with
        ⟨e, he, hn⟩ | ⟨written, c', hok, hdel, hrep'⟩
      · exact .inl ⟨e, he, by rw [hn]; rfl⟩
      · exact .inr ⟨written, c', hok, by rw [hdel]; rfl, hrep'⟩

end Simulates

end NewtonDB
