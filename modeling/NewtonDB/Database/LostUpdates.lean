/-
# No update is lost between databases

Every store that succeeds replaces what its own database last loaded or stored, by a
snapshot of the next generation and the same identity.  So what a database promised to
be persisted stays in storage until a database that loaded it replaces it
(`SharedStorage.no_lost_update`).

A database knows the generation of the last store it was told of, and the adapter
compares that with the storage.  Generations count the stores, so a database whose
generation is the one in storage has seen what is in storage (`Register.seen_eq_content`).
-/

import NewtonDB.Database.StoreAnswers

namespace NewtonDB

/-- A snapshot that may replace what a storage holds: one of the next generation and the
same identity. -/
def SnapshotEnvelope.Follows (old : Option SnapshotEnvelope) (snapshot : SnapshotEnvelope) : Prop :=
  snapshot.generation = old.elim 0 (·.generation) + 1 ∧
    ∀ replaced ∈ old, snapshot.databaseId = replaced.databaseId

/-- A snapshot that follows another has the next generation. -/
theorem SnapshotEnvelope.Follows.generation (old : Option SnapshotEnvelope)
    (snapshot : SnapshotEnvelope) (h : Follows old snapshot) :
    (some snapshot).elim 0 (·.generation) = old.elim 0 (·.generation) + 1 := h.1

/-- What an instance knows agrees with its stores; one that is not open yet has none. -/
def Instance.Sound (own : List SnapshotEnvelope) (inst : Instance) : Prop :=
  match inst.database with
  | none => inst.answer = none ∧ own = []
  | some (options, r) => inst.Invariant own options r

/-- The invariant of an instance with a database says that the instance is sound. -/
theorem Instance.Invariant.sound {own : List SnapshotEnvelope} {inst : Instance}
    {options : DatabaseOptions} {r : Runtime} (h : inst.Invariant own options r)
    (hdb : inst.database = some (options, r)) : inst.Sound own := by
  rw [Instance.Sound, hdb]
  exact h

/-- An instance that is sound has the invariant, whichever database it has. -/
theorem Instance.Sound.invariant {own : List SnapshotEnvelope} {inst : Instance}
    {options : DatabaseOptions} {r : Runtime} (h : inst.Sound own)
    (hdb : inst.database = some (options, r)) : inst.Invariant own options r := by
  rw [Instance.Sound, hdb] at h
  exact h

namespace SharedStorage

variable {collate : JsString → JsString → Bool} {initial : Option SnapshotEnvelope}
  {s s' : SharedStorage} {i : ℕ} {inst inst' : Instance}

/-- The stores of one instance, newest first. -/
def storesOf (i : ℕ) (stores : List (ℕ × SnapshotEnvelope)) : List SnapshotEnvelope :=
  (Register.writesOf i stores).map Prod.snd

/-- The storage and its log agree, the stores were orderly, every instance loaded what
the storage held at some time, and each knows of its stores what it was told. -/
structure Invariant (initial : Option SnapshotEnvelope) (s : SharedStorage) : Prop where
  snapshot : s.snapshot = Register.content initial s.stores
  orderly : Register.Orderly SnapshotEnvelope.Follows s.loaded initial s.stores
  loaded : ∀ (i : ℕ) (inst : Instance), s.instances[i]? = some inst → ∃ later earlier,
    s.stores = later ++ earlier ∧ inst.loaded = Register.content initial earlier
  known : ∀ write ∈ s.stores, write.1 < s.instances.length
  sound : ∀ (i : ℕ) (inst : Instance), s.instances[i]? = some inst → inst.Sound (storesOf i s.stores)

/-- The instances after one of them changed.  The one that changed is under its own number, and
the others are as they were. -/
theorem instances_set {j : ℕ} {other : Instance} (hi : s.instances[i]? = some inst)
    (hj : (s.set i inst').instances[j]? = some other) :
    j = i ∧ other = inst' ∨ j ≠ i ∧ s.instances[j]? = some other := by
  by_cases hij : i = j
  · subst hij
    have hlt := (List.getElem?_eq_some_iff.1 hi).1
    exact .inl ⟨rfl, (Option.some.inj ((List.getElem?_set_self hlt).symm.trans hj)).symm⟩
  · exact .inr ⟨Ne.symm hij, (List.getElem?_set_ne hij).symm.trans hj⟩

/-- An instance loads once.  No step of its database changes the snapshot it was opened with. -/
theorem loaded_set (hi : s.instances[i]? = some inst) (hloaded : inst'.loaded = inst.loaded) :
    (s.set i inst').loaded = s.loaded := by
  funext j
  unfold SharedStorage.loaded SharedStorage.set
  by_cases hij : i = j
  · subst hij
    have hlt := (List.getElem?_eq_some_iff.1 hi).1
    rw [List.getElem?_set_self hlt, hi, Option.bind_some, Option.bind_some, hloaded]
  · rw [List.getElem?_set_ne hij]

namespace Invariant

/-- The invariant holds before any instance opens. -/
theorem start (initial : Option SnapshotEnvelope) : Invariant initial (.start initial) where
  snapshot := rfl
  orderly := trivial
  loaded _ _ h := by cases h
  known _ h := by cases h
  sound _ _ h := by cases h

/-- An instance changed, and the storage did not.  The stores on record are the same, so what
has to be shown is that the instance is still sound for them. -/
theorem set (h : Invariant initial s) (hi : s.instances[i]? = some inst)
    (hloaded : inst'.loaded = inst.loaded) (hsound : inst'.Sound (storesOf i s.stores)) :
    Invariant initial (s.set i inst') := by
  refine ⟨h.snapshot, ?_, fun j other hj => ?_, fun write hm => ?_, fun j other hj => ?_⟩
  · rw [loaded_set hi hloaded]
    exact h.orderly
  · rcases instances_set hi hj with ⟨rfl, rfl⟩ | ⟨-, hj⟩
    · rw [hloaded]
      exact h.loaded j inst hi
    · exact h.loaded j other hj
  · exact (h.known write hm).trans_eq (List.length_set ..).symm
  · rcases instances_set hi hj with ⟨rfl, rfl⟩ | ⟨-, hj⟩
    · exact hsound
    · exact h.sound j other hj

/-- Another instance loads.  It has no answer and no database yet, and no store is its own. -/
theorem concat (h : Invariant initial s) (hloaded : inst.loaded = s.snapshot)
    (hanswer : inst.answer = none) (hdb : inst.database = none) :
    Invariant initial { s with instances := s.instances ++ [inst] } := by
  have hnone : storesOf s.instances.length s.stores = [] := by
    refine List.map_eq_nil_iff.2 (List.filter_eq_nil_iff.2 fun write hm hw => ?_)
    exact absurd (h.known write hm) (not_lt.2 (of_decide_eq_true hw).ge)
  refine ⟨h.snapshot, h.orderly.congr fun write hm => ?_, fun j other hj => ?_,
    fun write hm => ?_, fun j other hj => ?_⟩
  · unfold SharedStorage.loaded
    rw [List.getElem?_append_left (h.known write hm)]
  · rcases getElem?_concat_eq_some hj with hj | rfl
    · exact h.loaded j other hj
    · exact ⟨[], s.stores, rfl, hloaded.trans h.snapshot⟩
  · exact (h.known write hm).trans (by simp)
  · rcases getElem?_concat_cases hj with hj | ⟨rfl, rfl⟩
    · exact h.sound j other hj
    · rw [Instance.Sound, hdb]
      exact ⟨hanswer, hnone⟩

/-- What an instance has seen, by its stores. -/
theorem seen_eq_latest (hi : s.instances[i]? = some inst) :
    Register.seen s.loaded i s.stores = latest inst.loaded (storesOf i s.stores) := by
  have hloaded : s.loaded i = inst.loaded := by rw [SharedStorage.loaded, hi, Option.bind_some]
  unfold Register.seen latest storesOf
  rw [hloaded]
  cases Register.writesOf i s.stores <;> rfl

/-- **A store that succeeds replaces what its instance has seen.**  The adapter let it pass
since the generation in storage is the one the instance saw last, and each generation was stored
once. -/
theorem store (h : Invariant initial s) (hi : s.instances[i]? = some inst)
    {options : DatabaseOptions} {r r' : Runtime} (hdb : inst.database = some (options, r))
    {index : ℕ} (hs : r.step options (.startStore index) = some r') {offered : SnapshotEnvelope}
    (hoffers : r.offers options (.startStore index) = some offered) {a : StoreAcknowledgement}
    (hstore : inst.adapter.store s.snapshot offered r.database.generation = some a) :
    Invariant initial { s.set i { inst with
        answer := some (.acknowledged a), database := some (options, r') } with
      snapshot := some offered
      stores := (i, offered) :: s.stores } := by
  have hinst := (h.sound i inst hi).invariant hdb
  have htold := hinst.told (hinst.answer_of_startStore hs)
  obtain ⟨hexpected, hnext, hid, -, rfl⟩ := MemoryStorageAdapter.store_eq_some hstore
  have hloaded : ({ s.set i { inst with
        answer := some (.acknowledged ⟨offered.databaseId, offered.generation, offered.revision⟩)
        database := some (options, r') } with
      snapshot := some offered, stores := (i, offered) :: s.stores } : SharedStorage).loaded =
      s.loaded :=
    loaded_set hi rfl
  have hseen : Register.content initial s.stores = Register.seen s.loaded i s.stores := by
    refine (Register.seen_eq_content (fun o => o.elim 0 (·.generation))
      SnapshotEnvelope.Follows.generation h.orderly ?_ ?_).symm
    · obtain ⟨later, earlier, hlog, hl⟩ := h.loaded i inst hi
      exact ⟨later, earlier, hlog, by rw [SharedStorage.loaded, hi, Option.bind_some, hl]⟩
    · rw [seen_eq_latest hi, htold, ← hinst.generation, ← h.snapshot, hexpected]
  have hown : storesOf i ((i, offered) :: s.stores) = offered :: storesOf i s.stores := by
    rw [storesOf, Register.writesOf_cons_self, List.map_cons, storesOf]
  refine ⟨rfl, ?_, fun j other hj => ?_, fun write hm => ?_, fun j other hj => ?_⟩
  · rw [hloaded]
    refine ⟨h.orderly, hseen, ?_, ?_⟩
    · rw [hnext, ← h.snapshot, hexpected]
    · rw [← h.snapshot]
      exact hid
  · have hcons : ∀ l : Option SnapshotEnvelope, (∃ later earlier, s.stores = later ++ earlier ∧
        l = Register.content initial earlier) → ∃ later earlier,
        (i, offered) :: s.stores = later ++ earlier ∧ l = Register.content initial earlier := by
      rintro l ⟨later, earlier, hlog, hl⟩
      exact ⟨(i, offered) :: later, earlier, by rw [hlog, List.cons_append], hl⟩
    rcases instances_set hi hj with ⟨rfl, rfl⟩ | ⟨-, hj⟩
    · exact hcons _ (h.loaded j inst hi)
    · exact hcons _ (h.loaded j other hj)
  · refine Nat.lt_of_lt_of_eq ?_ (List.length_set ..).symm
    rcases List.mem_cons.1 hm with rfl | hm
    · exact (List.getElem?_eq_some_iff.1 hi).1
    · exact h.known write hm
  · rcases instances_set hi hj with ⟨rfl, rfl⟩ | ⟨hne, hj⟩
    · refine Instance.Invariant.sound ?_ rfl
      exact hinst.startStore hs hoffers (.inr ⟨rfl, hown⟩)
    · rw [storesOf, Register.writesOf_cons_of_ne (Ne.symm hne)]
      exact h.sound j other hj

/-- The program around one database takes a step.  When the step offers a snapshot the storage
answers, and the answer is what the database goes on with. -/
theorem after (h : Invariant initial s) (hi : s.instances[i]? = some inst)
    {options : DatabaseOptions} {r r' : Runtime} (hdb : inst.database = some (options, r))
    {label : Label} (hs : r.step options label = some r')
    (hafter : s.after i inst options r r' label = some s') : Invariant initial s' := by
  have hinst := (h.sound i inst hi).invariant hdb
  unfold SharedStorage.after at hafter
  cases hoffers : r.offers options label with
  | none =>
      rw [hoffers] at hafter
      obtain ⟨inst', hinst', rfl⟩ := Option.map_eq_some_iff.1 hafter
      obtain ⟨hdb', hloaded, hsound⟩ := hinst.after hs hinst'
      exact h.set hi hloaded (hsound.sound hdb')
  | some offered =>
      cases label with
      | startStore index =>
          rw [hoffers] at hafter
          dsimp only at hafter
          cases hstore : inst.adapter.store s.snapshot offered r.database.generation with
          | none =>
              rw [hstore] at hafter
              obtain rfl := Option.some.inj hafter
              have hrejected := hinst.startStore hs hoffers (.inl ⟨rfl, rfl⟩)
              exact h.set hi rfl (hrejected.sound rfl)
          | some a =>
              rw [hstore] at hafter
              obtain rfl := Option.some.inj hafter
              exact h.store hi hdb hs hoffers hstore
      | _ => cases hoffers

/-- **Every step keeps the storage and its instances in order.**  The cases are those of the
labels: an instance opens, takes a step of its own, or stores. -/
theorem step (h : Invariant initial s) {label : SharedLabel}
    (hs : s.step collate label = some s') : Invariant initial s' := by
  unfold SharedStorage.step at hs
  cases label with
  | load opening =>
      dsimp only at hs
      cases hload : MemoryStorageAdapter.new.load s.snapshot with
      | mk adapter loaded =>
          cases loaded with
          | none =>
              rw [hload] at hs
              rwa [← Option.some.inj hs]
          | some loaded =>
              rw [hload] at hs
              obtain rfl := Option.some.inj hs
              refine h.concat ?_ rfl rfl
              have hsnd := (Option.ite_none_right_eq_some.1 (congrArg Prod.snd hload)).2
              exact (Option.some.inj hsnd).symm
  | construct i randomId =>
      dsimp only at hs
      cases hi : s.instances[i]? with
      | none =>
          rw [hi] at hs
          cases hs
      | some inst =>
          rw [hi] at hs
          obtain ⟨hnew, hs⟩ := Option.ite_none_left_eq_some.1 hs
          obtain rfl := Option.some.inj hs
          have hdb : inst.database = none := by
            rw [Bool.or_eq_true, not_or] at hnew
            exact Option.not_isSome_iff_eq_none.1 hnew.2
          have hsound := h.sound i inst hi
          rw [Instance.Sound, hdb] at hsound
          unfold Instance.construct
          cases hopen : inst.opening.opened collate randomId inst.loaded with
          | error error =>
              refine h.set hi rfl ?_
              rw [Instance.Sound, hdb]
              exact hsound
          | ok database =>
              refine h.set hi rfl (Instance.Invariant.sound ?_ rfl)
              rw [hsound.2]
              exact .opened hopen hsound.1
  | run i label =>
      dsimp only at hs
      cases hi : s.instances[i]? with
      | none =>
          rw [hi] at hs
          cases hs
      | some inst =>
          rw [hi] at hs
          dsimp only at hs
          cases hdb : inst.database with
          | none =>
              rw [hdb] at hs
              cases hs
          | some database =>
              rw [hdb] at hs
              obtain ⟨r', hstep, hs⟩ := Option.bind_eq_some_iff.1 hs
              exact h.after hi hdb hstep hs

end Invariant

/-! ### Every run -/

/-- An instance promised a revision to be persisted. -/
def promised (s : SharedStorage) (i revision : ℕ) : Prop :=
  ∃ e ∈ s.history i, e.persisted? = some revision

/-- A snapshot contains a commit of an instance: it has the documents of a root
the instance published then or later.  A commit the instance found in storage when it loaded
is in the snapshot it loaded, and in what the instance that stored that published. -/
def contains (s : SharedStorage) (i revision : ℕ) (snapshot : SnapshotEnvelope) : Prop :=
  snapshot.holds revision (s.history i) ∨
    ∃ found, s.loaded i = some found ∧ revision ≤ found.revision ∧
      (snapshot = found ∨ ∃ k, (k, found) ∈ s.stores ∧ snapshot.holds revision (s.history k))

namespace Invariant

/-- An instance that stored something is open.  A store is a step of its database, so a database
there is. -/
theorem opened_of_stored (h : Invariant initial s) {snapshot : SnapshotEnvelope}
    (hm : (i, snapshot) ∈ s.stores) :
    ∃ inst options r, s.instances[i]? = some inst ∧ inst.database = some (options, r) := by
  obtain ⟨inst, hi⟩ : ∃ inst, s.instances[i]? = some inst :=
    ⟨_, List.getElem?_eq_getElem (h.known _ hm)⟩
  cases hdb : inst.database with
  | none =>
      have hsound := h.sound i inst hi
      rw [Instance.Sound, hdb] at hsound
      have hmem : snapshot ∈ storesOf i s.stores :=
        List.mem_map.2 ⟨_, List.mem_filter.2 ⟨hm, decide_eq_true rfl⟩, rfl⟩
      rw [hsound.2] at hmem
      cases hmem
  | some database => exact ⟨inst, database.1, database.2, hi, hdb⟩

/-- **What an instance that stored something promised or stored is in storage until
an instance that loaded it replaces it.** -/
theorem kept_or_replaced (h : Invariant initial s) {options : DatabaseOptions} {r : Runtime}
    (hi : s.instances[i]? = some inst) (hdb : inst.database = some (options, r))
    (hw : Register.writesOf i s.stores ≠ []) {revision : ℕ}
    (hrevision : s.promised i revision ∨
      ∃ snapshot ∈ storesOf i s.stores, revision ≤ snapshot.revision) :
    ∃ snapshot, snapshot.holds revision (s.history i) ∧ (s.snapshot = some snapshot ∨
      ∃ later d u earlier, s.stores = later ++ (d, u) :: earlier ∧
        Register.content initial earlier = some snapshot ∧ s.loaded d = some snapshot) := by
  have hhistory : s.history i = r.database.history := by
    rw [SharedStorage.history, hi, Option.bind_some, hdb]
    rfl
  obtain ⟨snapshot, hseen, hkept⟩ := Register.kept_or_replaced
    (fun o => o.elim 0 (·.generation)) SnapshotEnvelope.Follows.generation h.orderly hw
  have hne : storesOf i s.stores ≠ [] := fun hnil => hw (List.map_eq_nil_iff.1 hnil)
  rw [promised, hhistory] at hrevision
  obtain ⟨latest, hlatest, hholds⟩ := ((h.sound i inst hi).invariant hdb).holds_latest hrevision
  rw [seen_eq_latest hi, hlatest] at hseen
  obtain rfl := Option.some.inj hseen
  refine ⟨latest, ?_, h.snapshot ▸ hkept⟩
  rw [hhistory]
  exact (hholds.resolve_right fun hnil => hne hnil.1).2

/-- **What an instance found in storage is there until an instance that loaded it
replaces it.** -/
theorem found_or_replaced (h : Invariant initial s) (hi : s.instances[i]? = some inst)
    {found : SnapshotEnvelope} (hfound : inst.loaded = some found)
    {revision : ℕ} (hrevision : revision ≤ found.revision) :
    ∃ snapshot, s.contains i revision snapshot ∧ (s.snapshot = some snapshot ∨
      ∃ later d u earlier, s.stores = later ++ (d, u) :: earlier ∧
        Register.content initial earlier = some snapshot ∧ s.loaded d = some snapshot) := by
  have hloaded : s.loaded i = some found := by
    rw [SharedStorage.loaded, hi, Option.bind_some, hfound]
  obtain ⟨later, earlier, hlog, hcontent⟩ := h.loaded i inst hi
  rw [hfound] at hcontent
  cases earlier with
  | nil =>
      -- nobody stored it: the first store, if there is one, is of an instance that loaded it
      refine ⟨found, .inr ⟨found, hloaded, hrevision, .inl rfl⟩, ?_⟩
      rw [h.snapshot, hlog]
      rcases List.eq_nil_or_concat later with rfl | ⟨rest, ⟨d, u⟩, rfl⟩
      · exact .inl hcontent.symm
      · have ho := h.orderly
        rw [hlog, List.append_nil, List.concat_eq_append] at ho
        refine .inr ⟨rest, d, u, [], by simp, hcontent.symm, ?_⟩
        exact ho.of_append.2.1.symm.trans hcontent.symm
  | cons write earlier =>
      obtain ⟨k, stored⟩ := write
      obtain rfl := Option.some.inj hcontent
      have hm : (k, found) ∈ s.stores := hlog ▸ List.mem_append_right _ (List.mem_cons_self ..)
      obtain ⟨instk, options, r, hk, hdb⟩ := h.opened_of_stored hm
      have hwrites : (k, found) ∈ Register.writesOf k s.stores :=
        List.mem_filter.2 ⟨hm, decide_eq_true rfl⟩
      obtain ⟨snapshot, hholds, hkept⟩ := h.kept_or_replaced hk hdb
        (List.ne_nil_of_mem hwrites) (.inr ⟨found, List.mem_map_of_mem hwrites, hrevision⟩)
      exact ⟨snapshot, .inr ⟨found, hloaded, hrevision, .inr ⟨k, hm, hholds⟩⟩, hkept⟩

end Invariant

/-- **No update is lost between the databases over one storage**, in every run: a store
that succeeds replaces what its own database loaded or stored last, by a snapshot of the
next generation and the same identity; and what a database promised to be persisted is
in storage, or an instance that had loaded it replaced it. -/
theorem no_lost_update (initial : Option SnapshotEnvelope) {labels : List SharedLabel}
    (hrun : Transition.Run (step collate) (fun _ _ => True) (.start initial) labels s) :
    s.snapshot = Register.content initial s.stores ∧
    (∀ later i snapshot earlier, s.stores = later ++ (i, snapshot) :: earlier →
      Register.content initial earlier = Register.seen s.loaded i earlier ∧
        snapshot.generation =
          (Register.content initial earlier).elim 0 (·.generation) + 1 ∧
        ∀ replaced ∈ Register.content initial earlier,
          snapshot.databaseId = replaced.databaseId) ∧
    ∀ i revision, s.promised i revision →
      ∃ snapshot, s.contains i revision snapshot ∧ (s.snapshot = some snapshot ∨
        ∃ later j u earlier, s.stores = later ++ (j, u) :: earlier ∧
          Register.content initial earlier = some snapshot ∧ s.loaded j = some snapshot) := by
  have h : Invariant initial s := hrun.invariant (.start initial) fun _ _ _ h _ hs => h.step hs
  refine ⟨h.snapshot, fun later i snapshot earlier hlog => ?_, fun i revision hpromised => ?_⟩
  · have ho := h.orderly
    rw [hlog] at ho
    exact ho.of_append.2
  · obtain ⟨e, hm, he⟩ := hpromised
    cases hi : s.instances[i]? with
    | none =>
        rw [history, hi] at hm
        cases hm
    | some inst =>
        cases hdb : inst.database with
        | none =>
            rw [history, hi, Option.bind_some, hdb] at hm
            cases hm
        | some database =>
            obtain ⟨options, r⟩ := database
            by_cases hw : Register.writesOf i s.stores = []
            · have hhistory : s.history i = r.database.history := by
                rw [history, hi, Option.bind_some, hdb]
                rfl
              have hown : storesOf i s.stores = [] := by rw [storesOf, hw]; rfl
              obtain ⟨found, hfound, hle⟩ := ((h.sound i inst hi).invariant hdb).holds_latest
                (.inl ⟨e, hhistory ▸ hm, he⟩)
              rw [hown] at hfound hle
              exact h.found_or_replaced hi hfound (hle.resolve_left fun hne => hne.1 rfl).2
            · obtain ⟨snapshot, hholds, hkept⟩ :=
                h.kept_or_replaced hi hdb hw (.inl ⟨e, hm, he⟩)
              exact ⟨snapshot, .inl hholds, hkept⟩

/-- `open` of a database of notes. -/
def openNotes : OpenOptions where
  eventDocuments := false
  eventLimits := ⟨none, none⟩
  initialData := some ⟨⟨fun _ => .array []⟩, [(js "notes", [])]⟩
  onEventOverflow := false
  onListenerError := false
  persistenceLimits := ⟨none⟩
  schema := [(js "notes", Runtime.notes)]
  transactionLimits := ⟨none, none, none⟩
  verifyInvariants := true

/-- The program around one database of notes adds one, up to the store of its commit. -/
def storeNote (i : ℕ) (id : String) : List SharedLabel :=
  [.transaction none false (js "t") 0, Runtime.addNote 0 id, .returns 0, .resume,
    .startStore 0].map (.run i)

/-- Of two databases opened on an empty storage the second to store is refused, and a third one
stores on top of the first.  The theorem applies to the whole history: no update is lost between
the three. -/
theorem second_writer_refused : ∃ s : SharedStorage,
    s.stores.map Prod.fst = [2, 0] ∧ s.promised 0 1 ∧
      ∃ snapshot, s.contains 0 1 snapshot ∧ (s.snapshot = some snapshot ∨
        ∃ later j u earlier, s.stores = later ++ (j, u) :: earlier ∧
          Register.content none earlier = some snapshot ∧ s.loaded j = some snapshot) := by
  obtain ⟨s, hs⟩ := Option.isSome_iff_exists.1 (show ((Transition.run (step leUnits) (.start none)
    ([.load openNotes, .load openNotes, .construct 0 (js "a"), .construct 1 (js "b")] ++
      storeNote 0 "x" ++ storeNote 1 "y" ++ [.load openNotes, .construct 2 (js "c"),
      .run 0 (.settleStore 0 (.acknowledged ⟨js "a", 1, 1⟩)), .run 0 (.finishStore 0),
      .run 0 (.wake 0), .run 1 (.settleStore 0 .rejected)] ++ storeNote 2 "z")).filter fun s =>
        s.stores.map Prod.fst = [2, 0] &&
          (s.history 0).any (·.persisted? = some 1)).isSome by decide +kernel)
  obtain ⟨hrun, hseen⟩ := Option.filter_eq_some_iff.1 hs
  obtain ⟨hstores, hpromised⟩ := Bool.and_eq_true_iff.1 hseen
  obtain ⟨e, hm, he⟩ := List.any_eq_true.1 hpromised
  have hpromised : s.promised 0 1 := ⟨e, hm, of_decide_eq_true he⟩
  exact ⟨s, of_decide_eq_true hstores, hpromised,
    (no_lost_update none (Transition.run_sound hrun)).2.2 0 1 hpromised⟩

end SharedStorage

end NewtonDB
