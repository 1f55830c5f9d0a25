/-
# Serializability

Any number of transactions over one database, their calls interleaved in any
way.  `session` is that system as an optimistic machine: the root is the shared
state, a transaction that commits publishes.

The base revision of a collection is captured when a transaction first touches
it, while every later access reads whatever root is current.  What makes this
safe is that the revision of a collection determines its content along a run
(`Later`): if at the commit a base revision is still current, the collection has
not changed since it was captured, so every access in between saw the same
content.
-/

import NewtonDB.Engine.Commit
import NewtonDB.Lib.Occ

namespace NewtonDB

open Occ

/-- A call of the user of one transaction.  Before `beginTransaction` there is
nothing to call. -/
inductive SessionCall where
  | beginTransaction (id : JsString) (now : ℕ)
  | call (now : ℕ) (call : TransactionCall)
  | commit (now : ℕ)
  | rollback

/-- What the call gives. -/
inductive SessionResult where
  | none
  | returned (result : Except NewtonError CallResult)
  | committed (result : Except NewtonError CommitReceipt)

/-- Whether the call was a commit that succeeded. -/
def SessionResult.isCommit : SessionResult → Bool
  | .committed (.ok _) => true
  | _ => false

/-- One call, while `root` is current: the new root, the transaction and the
result. -/
def sessionCall (limits : TransactionLimits) (options : CommitOptions) (root : Root) :
    Option Transaction → SessionCall → Root × Option Transaction × SessionResult
  | none, .beginTransaction id now => (root, some (.new id now limits), .none)
  | none, _ => (root, none, .none)
  | some t, .beginTransaction .. => (root, some t, .none)
  | some t, .call now call =>
      (root, some (t.call root now call).1, .returned (t.call root now call).2)
  | some t, .commit now =>
      match t.commit now (root.commit options) with
      | (t, .ok committed) => (committed.root, some t, .committed (.ok committed.receipt))
      | (t, .error error) => (root, some t, .committed (.error error))
  | some t, .rollback => (root, some t.rollback, .none)

/-- The transactions over one database. -/
def session (limits : TransactionLimits) (options : CommitOptions) :
    Machine Root (Option Transaction) SessionCall SessionResult where
  start := none
  call := sessionCall limits options
  publishes := SessionResult.isCommit

/-- A call of the machine is a call of a session. -/
theorem session_call (limits : TransactionLimits) (options : CommitOptions) :
    (session limits options).call = sessionCall limits options := rfl

/-! ### How roots follow one another -/

namespace Root

/-- No collection is newer than the root. -/
def Sound (root : Root) : Prop :=
  ∀ name c, root.collections.get? name = some c → c.revision ≤ root.revision

/-- `next` may follow `root`: the same collections, none older, and a collection
of the same revision is the same collection. -/
structure Later (root next : Root) : Prop where
  same_names : ∀ name,
    (next.collections.get? name).isSome = (root.collections.get? name).isSome
  revision_le : ∀ name c c', root.collections.get? name = some c →
    next.collections.get? name = some c' → c.revision ≤ c'.revision
  eq_of_revision : ∀ name c c', root.collections.get? name = some c →
    next.collections.get? name = some c' → c.revision = c'.revision → c = c'

/-- A root may follow itself. -/
theorem Later.refl (root : Root) : Later root root where
  same_names _ := rfl
  revision_le _ c c' h h' := by obtain rfl := Option.some.inj (h.symm.trans h'); exact le_rfl
  eq_of_revision _ c c' h h' _ := Option.some.inj (h.symm.trans h')

/-- A collection of the root is there later. -/
theorem Later.exists_of {root next : Root} (h : Later root next) {name : JsString}
    {c : StoredCollection} (hc : root.collections.get? name = some c) :
    ∃ c', next.collections.get? name = some c' :=
  Option.isSome_iff_exists.1 (by rw [h.same_names, hc]; rfl)

/-- What may follow a root that follows another may follow that one.  Revisions grow, so that
one found equal at the end was equal in between. -/
theorem Later.trans {a b c : Root} (hab : Later a b) (hbc : Later b c) : Later a c where
  same_names name := (hbc.same_names name).trans (hab.same_names name)
  revision_le name x z hx hz := by
    obtain ⟨y, hy⟩ := hab.exists_of hx
    exact (hab.revision_le name x y hx hy).trans (hbc.revision_le name y z hy hz)
  eq_of_revision name x z hx hz he := by
    obtain ⟨y, hy⟩ := hab.exists_of hx
    have h1 := hab.revision_le name x y hx hy
    have h2 := hbc.revision_le name y z hy hz
    obtain rfl := hab.eq_of_revision name x y hx hy (by omega)
    exact hbc.eq_of_revision name x z hy hz he

/-- `stored` fails at both roots or at neither.  No commit adds a collection or takes one
away. -/
theorem Later.stored_error {root next : Root} (h : Later root next) {name : JsString}
    {error : NewtonError} (he : root.stored name = .error error) :
    next.stored name = .error error := by
  have := h.same_names name
  unfold stored at he ⊢
  cases hr : root.collections.get? name with
  | some c => simp [hr] at he
  | none =>
      rw [hr] at this he
      have hn : next.collections.get? name = none :=
        Option.not_isSome_iff_eq_none.1 (by rw [this]; decide)
      rw [hn]
      exact he

end Root

/-- A collection of a root is found under its name. -/
theorem Root.stored_eq_ok {root : Root} {name : JsString} {c : StoredCollection} :
    root.stored name = .ok c ↔ root.collections.get? name = some c := by
  unfold Root.stored
  cases root.collections.get? name <;> simp

/-! ### What a transaction has read -/

namespace Transaction

/-- The base revisions are not newer than the root, and the working collections
are collections of the root. -/
structure Known (root : Root) (t : Transaction) : Prop where
  base_le : ∀ name base, t.baseRevisions.get? name = some base →
    ∃ c, root.collections.get? name = some c ∧ base ≤ c.revision
  working_mem : ∀ name w, t.working.get? name = some w →
    ∃ c, root.collections.get? name = some c

/-- The transaction is active and its base revisions are those of the root. -/
structure Valid (root : Root) (t : Transaction) : Prop where
  active : t.status = .active
  base_eq : ∀ name base, t.baseRevisions.get? name = some base →
    ∃ c, root.collections.get? name = some c ∧ c.revision = base

/-- What the calls of a transaction preserve: its status, and the base revisions
it has. -/
structure Extends (t t' : Transaction) : Prop where
  status : t'.status = t.status
  base : ∀ name base, t.baseRevisions.get? name = some base →
    t'.baseRevisions.get? name = some base

/-- A transaction extends itself. -/
theorem Extends.refl (t : Transaction) : Extends t t := ⟨rfl, fun _ _ h => h⟩

/-- What extends an extension extends the transaction. -/
theorem Extends.trans {a b c : Transaction} (hab : Extends a b) (hbc : Extends b c) :
    Extends a c :=
  ⟨hbc.status.trans hab.status, fun n b h => hbc.base n b (hab.base n b h)⟩

/-- **A transaction that is valid later was valid before**: its base revisions then are among
those it has now. -/
theorem Valid.of_extends {root : Root} {t t' : Transaction} (he : Extends t t')
    (hv : Valid root t') : Valid root t :=
  ⟨he.status ▸ hv.active, fun n b h => hv.base_eq n b (he.base n b h)⟩

/-- A new transaction knows no collection. -/
theorem known_new {root : Root} (id : JsString) (now : ℕ) (limits : TransactionLimits) :
    (Transaction.new id now limits).Known root where
  base_le _ _ h := by cases h
  working_mem _ _ h := by cases h

/-- What a transaction knows of a root holds of the roots that follow.  A revision that was read
at the first is at most the one there is now. -/
theorem Known.later {root next : Root} {t : Transaction} (h : Known root t)
    (hl : root.Later next) : Known next t where
  base_le name base hb := by
    obtain ⟨c, hc, hle⟩ := h.base_le name base hb
    obtain ⟨c', hc'⟩ := hl.exists_of hc
    exact ⟨c', hc', hle.trans (hl.revision_le name c c' hc hc')⟩
  working_mem name w hw := by
    obtain ⟨c, hc⟩ := h.working_mem name w hw
    exact hl.exists_of hc

variable {t : Transaction} {root next : Root} {now : ℕ} {name : JsString}

/-! ### Touching a collection -/

/-- **What a touch can do**: throw and change nothing, or give the stored
collection with its base revision captured, now or before. -/
theorem touchCollection_cases (t : Transaction) (root : Root) (now : ℕ) (name : JsString) :
    (∃ error, t.touchCollection root now name = (t, .error error)) ∨
    ∃ stored base, root.collections.get? name = some stored ∧
      (t.touchCollection root now name).2 = .ok stored ∧
      ((t.baseRevisions.get? name = some base ∧ (t.touchCollection root now name).1 = t) ∨
        (base = stored.revision ∧ t.baseRevisions.get? name = none ∧
          (t.touchCollection root now name).1 =
            { t with baseRevisions := t.baseRevisions.set name base })) := by
  unfold touchCollection
  split
  · next error _ => exact .inl ⟨error, rfl⟩
  · next stored h =>
    obtain ⟨-, -, h⟩ := bind_eq_ok.1 h
    obtain ⟨-, -, h⟩ := bind_eq_ok.1 h
    have hc := Root.stored_eq_ok.1 h
    split_ifs with hh hlim
    · obtain ⟨base, hb⟩ := Option.isSome_iff_exists.1 hh
      exact .inr ⟨stored, base, hc, rfl, .inl ⟨hb, rfl⟩⟩
    · exact .inl ⟨_, rfl⟩
    · refine .inr ⟨stored, stored.revision, hc, rfl, .inr ⟨rfl, ?_, rfl⟩⟩
      exact Option.not_isSome_iff_eq_none.1 hh

/-- To touch a collection keeps the base revisions, and may add one.  A base revision is taken
at the first touch only and never replaced. -/
theorem touchCollection_extends (t : Transaction) (root : Root) (now : ℕ) (name : JsString) :
    Extends t (t.touchCollection root now name).1 := by
  rcases touchCollection_cases t root now name with ⟨error, h⟩ | ⟨stored, base, -, -, h⟩
  · rw [h]; exact .refl t
  · rcases h with ⟨-, h⟩ | ⟨-, hn, h⟩
    · rw [h]; exact .refl t
    · rw [h]
      refine ⟨rfl, fun n b hb => ?_⟩
      rw [OrderedMap.get?_set]
      split_ifs with he
      · rw [← he, hn] at hb; cases hb
      · exact hb

/-- A collection that was touched has a base revision.  It is taken then, or it was taken at an
earlier touch. -/
theorem mem_base_of_touch {t' : Transaction} {stored : StoredCollection}
    (h : t.touchCollection root now name = (t', .ok stored)) : name ∈ t'.baseRevisions.keys := by
  rcases touchCollection_cases t root now name with ⟨error, he⟩ | ⟨_, base, -, -, he⟩
  · rw [he] at h; cases h
  · rw [h] at he
    rcases he with ⟨hb, he⟩ | ⟨-, -, he⟩
    · rw [show t' = t from he, OrderedMap.mem_keys_iff, hb]; rfl
    · rw [show t' = _ from he, OrderedMap.mem_keys_iff, OrderedMap.get?_set_self]; rfl

/-- To touch a collection keeps the working collections. -/
theorem touchCollection_working (t : Transaction) (root : Root) (now : ℕ) (name : JsString) :
    (t.touchCollection root now name).1.working = t.working := by
  rcases touchCollection_cases t root now name with ⟨error, h⟩ | ⟨stored, base, -, -, h⟩
  · rw [h]
  · rcases h with ⟨-, h⟩ | ⟨-, -, h⟩ <;> rw [h]

/-- To touch a collection takes the revision of the root.  That it is the revision of what the
transaction reads from now on is the point of it. -/
theorem touchCollection_known (now : ℕ) (name : JsString) (h : Known root t) :
    Known root (t.touchCollection root now name).1 := by
  rcases touchCollection_cases t root now name with ⟨error, he⟩ | ⟨stored, base, hc, -, he⟩
  · rw [he]; exact h
  · rcases he with ⟨-, he⟩ | ⟨hb, -, he⟩
    · rw [he]; exact h
    · rw [he]
      refine ⟨fun n b hn => ?_, h.working_mem⟩
      rw [OrderedMap.get?_set] at hn
      split_ifs at hn with hne
      · obtain rfl := Option.some.inj hn
        exact ⟨stored, hne ▸ hc, hb.le⟩
      · exact h.base_le n b hn

/-- **A touch at a later root that still holds what was read goes the same way.**
The base revision lies between the revisions of the collection at the two roots,
and is the second, so the collection is the same. -/
theorem touchCollection_later (hl : root.Later next) (hk : Known root t)
    (hv : Valid next (t.touchCollection root now name).1) :
    t.touchCollection next now name = t.touchCollection root now name := by
  cases hr : t.assertActive >>= fun _ => t.assertWithinLimits now >>= fun _ => root.stored name with
  | error error =>
      have hn : (t.assertActive >>= fun _ => t.assertWithinLimits now >>= fun _ =>
          next.stored name) = .error error := by
        cases ha : t.assertActive with
        | error e => rw [ha] at hr; exact hr
        | ok _ =>
            cases hw : t.assertWithinLimits now with
            | error e => rw [ha, hw] at hr; exact hr
            | ok _ =>
                rw [ha, hw] at hr
                exact hl.stored_error hr
      rw [touchCollection, touchCollection, hr, hn]
  | ok stored =>
      obtain ⟨_, ha, h⟩ := bind_eq_ok.1 hr
      obtain ⟨_, hw, h⟩ := bind_eq_ok.1 h
      have hc := Root.stored_eq_ok.1 h
      obtain ⟨stored', hc'⟩ := hl.exists_of hc
      have hn : (t.assertActive >>= fun _ => t.assertWithinLimits now >>= fun _ =>
          next.stored name) = .ok stored' := by
        rw [ha, hw]
        exact Root.stored_eq_ok.2 hc'
      rw [touchCollection, hr] at hv
      rw [touchCollection, touchCollection, hr, hn]
      dsimp only at hv ⊢
      -- where the touch succeeds the two collections are one
      have same : ∀ base, base ≤ stored.revision → stored'.revision = base → stored' = stored := by
        intro base hle he
        have := hl.revision_le name stored stored' hc hc'
        exact (hl.eq_of_revision name stored stored' hc hc' (by omega)).symm
      split_ifs with hh hlim
      · obtain ⟨base, hb⟩ := Option.isSome_iff_exists.1 hh
        rw [if_pos hh] at hv
        obtain ⟨c, hcc, hle⟩ := hk.base_le name base hb
        obtain ⟨c', hcc', he⟩ := hv.base_eq name base hb
        obtain rfl := Option.some.inj (hc.symm.trans hcc)
        obtain rfl := Option.some.inj (hc'.symm.trans hcc')
        rw [same base hle he]
      · rfl
      · rw [if_neg hh, if_neg hlim] at hv
        obtain ⟨c', hcc', he⟩ := hv.base_eq name stored.revision (OrderedMap.get?_set_self ..)
        obtain rfl := Option.some.inj (hc'.symm.trans hcc')
        rw [same _ le_rfl he]

/-! ### The calls -/

/-- To make a collection writable extends the transaction.  The clone is put beside the working
collections there are. -/
theorem writable_extends (t : Transaction) (root : Root) (now : ℕ) (name : JsString) :
    Extends t (t.writable root now name).1 := by
  unfold writable
  split
  · exact .refl t
  · split
    · exact .refl t
    · have h := touchCollection_extends t root now name
      generalize t.touchCollection root now name = r at h
      obtain ⟨t', r⟩ := r
      cases r with
      | error e => exact h
      | ok stored => exact ⟨h.status, h.base⟩

/-- To make a collection writable keeps what the transaction knows.  The clone has the revision
that was taken as its base. -/
theorem writable_known (now : ℕ) (name : JsString) (h : Known root t) :
    Known root (t.writable root now name).1 := by
  unfold writable
  split
  · exact h
  · split
    · exact h
    · have hk := touchCollection_known now name h
      have hcases := touchCollection_cases t root now name
      generalize t.touchCollection root now name = r at hk hcases
      obtain ⟨t', r⟩ := r
      cases r with
      | error e => exact hk
      | ok stored =>
          refine ⟨hk.base_le, fun n w hw => ?_⟩
          rw [OrderedMap.get?_set] at hw
          split_ifs at hw with hne
          · rcases hcases with ⟨e, he⟩ | ⟨c, base, hc, -, -⟩
            · cases he
            · exact ⟨c, hne ▸ hc⟩
          · exact hk.working_mem n w hw

/-- **A collection is made writable on a later root as it was before**, when the transaction is
valid there: the collection has the same revision, so that it is the same. -/
theorem writable_later (hl : root.Later next) (hk : Known root t)
    (hv : Valid next (t.writable root now name).1) :
    t.writable next now name = t.writable root now name := by
  unfold writable at hv ⊢
  split
  · rfl
  · next ha =>
    rw [ha] at hv
    split
    · rfl
    · next hw =>
      simp only [hw] at hv
      have htouch : Valid next (t.touchCollection root now name).1 := by
        generalize t.touchCollection root now name = r at hv ⊢
        obtain ⟨t', r⟩ := r
        cases r with
        | error e => exact hv
        | ok stored => exact ⟨hv.active, hv.base_eq⟩
      rw [touchCollection_later hl hk htouch]

/-- To count an operation extends the transaction. -/
theorem recordOperation_extends (t : Transaction) (now : ℕ) :
    Extends t (t.recordOperation now).1 := by
  unfold recordOperation
  split <;> exact ⟨rfl, fun _ _ h => h⟩

/-- To count an operation keeps what the transaction knows. -/
theorem recordOperation_known (now : ℕ) (h : Known root t) :
    Known root (t.recordOperation now).1 := by
  unfold recordOperation
  split <;> exact ⟨h.base_le, h.working_mem⟩

variable {body : WorkingCollection → WorkingCollection × Except NewtonError Written}

/-- **What a write can do**: be refused where it is counted or where the
collection is made writable, or run its body on the writable collection. -/
theorem write_cases (t : Transaction) (root : Root) (now : ℕ) (name : JsString)
    (body : WorkingCollection → WorkingCollection × Except NewtonError Written) :
    (∃ error, (t.recordOperation now).2 = .error error ∧
      t.write root now name body = ((t.recordOperation now).1, .error error)) ∨
    (t.recordOperation now).2 = .ok () ∧
      ((∃ error, ((t.recordOperation now).1.writable root now name).2 = .error error ∧
        t.write root now name body =
          (((t.recordOperation now).1.writable root now name).1, .error error)) ∨
      ∃ w, ((t.recordOperation now).1.writable root now name).2 = .ok w ∧
        (t.write root now name body).2 = (body w).2 ∧
        Extends ((t.recordOperation now).1.writable root now name).1
          (t.write root now name body).1 ∧
        (t.write root now name body).1.baseRevisions =
          ((t.recordOperation now).1.writable root now name).1.baseRevisions ∧
        (t.write root now name body).1.working =
          ((t.recordOperation now).1.writable root now name).1.working.set name (body w).1) := by
  unfold write
  generalize t.recordOperation now = r
  obtain ⟨t₁, r⟩ := r
  cases r with
  | error e => exact .inl ⟨e, rfl, rfl⟩
  | ok _ =>
      refine .inr ⟨rfl, ?_⟩
      dsimp only
      generalize t₁.writable root now name = r
      obtain ⟨t₂, r⟩ := r
      cases r with
      | error e => exact .inl ⟨e, rfl, rfl⟩
      | ok w =>
          refine .inr ⟨w, rfl, ?_⟩
          dsimp only
          cases (body w).2 <;> exact ⟨rfl, ⟨rfl, fun _ _ h => h⟩, rfl, rfl⟩

/-- A write extends the transaction. -/
theorem write_extends : Extends t (t.write root now name body).1 := by
  have h₁ := recordOperation_extends t now
  have h₂ := writable_extends (t.recordOperation now).1 root now name
  rcases write_cases t root now name body with ⟨e, -, h⟩ | ⟨-, ⟨e, -, h⟩ | ⟨w, -, -, h, -, -⟩⟩
  · rw [h]; exact h₁
  · rw [h]; exact h₁.trans h₂
  · exact (h₁.trans h₂).trans h

/-- A collection that was made writable is a working one.  It is the clone, or the working
collection from an earlier write. -/
theorem writable_mem {w : WorkingCollection} (hw : (t.writable root now name).2 = .ok w) :
    ∃ w', (t.writable root now name).1.working.get? name = some w' := by
  unfold writable at hw ⊢
  split
  · next h => rw [h] at hw; cases hw
  · next h =>
    rw [h] at hw
    split
    · next existing hex => exact ⟨existing, hex⟩
    · next hex =>
      simp only [hex] at hw
      generalize t.touchCollection root now name = r at hw ⊢
      obtain ⟨t', r⟩ := r
      cases r with
      | error e => cases hw
      | ok stored => exact ⟨stored.clone, OrderedMap.get?_set_self ..⟩

/-- A write keeps what the transaction knows.  What it changes are the contents of a working
collection, not its base. -/
theorem write_known (h : Known root t) : Known root (t.write root now name body).1 := by
  have h₁ := recordOperation_known now h
  have h₂ := writable_known now name h₁
  rcases write_cases t root now name body with
    ⟨e, -, he⟩ | ⟨-, ⟨e, -, he⟩ | ⟨w, hw, -, -, hb, hwork⟩⟩
  · rw [he]; exact h₁
  · rw [he]; exact h₂
  · refine ⟨fun n b hn => h₂.base_le n b (hb ▸ hn), fun n w' hn => ?_⟩
    rw [hwork, OrderedMap.get?_set] at hn
    split_ifs at hn with hne
    · obtain ⟨w'', hw''⟩ := writable_mem hw
      exact hne ▸ h₂.working_mem name w'' hw''
    · exact h₂.working_mem n w' hn

/-- **A write does on a later root what it did before**, when the transaction is valid there.
It finds the same collection, and the body is the same function of it. -/
theorem write_later (hl : root.Later next) (hk : Known root t)
    (hv : Valid next (t.write root now name body).1) :
    t.write next now name body = t.write root now name body := by
  rcases write_cases t root now name body with
    ⟨e, he, -⟩ | ⟨hok, hrest⟩
  · unfold write
    generalize t.recordOperation now = r at he
    obtain ⟨t₁, r⟩ := r
    obtain rfl : r = .error e := he
    rfl
  · have hv' : Valid next ((t.recordOperation now).1.writable root now name).1 := by
      rcases hrest with ⟨e, -, he⟩ | ⟨w, -, -, hx, -, -⟩
      · rw [he] at hv; exact hv
      · exact hv.of_extends hx
    have hsame := writable_later hl (recordOperation_known now hk) hv'
    unfold write
    generalize t.recordOperation now = r at hok hsame
    obtain ⟨t₁, r⟩ := r
    obtain rfl : r = .ok () := hok
    dsimp only at hsame ⊢
    rw [hsame]

/-- `_read` and `_query` are a touch followed by a look at the collection. -/
theorem read_fst (primaryKey : PrimaryKey) :
    (t.read root now name primaryKey).1 = (t.touchCollection root now name).1 := by
  unfold read
  generalize t.touchCollection root now name = r
  obtain ⟨t', r⟩ := r
  cases r <;> rfl

/-- A query touches its collection and changes nothing else. -/
theorem query_fst (condition : JsInput) :
    (t.query root now name condition).1 = (t.touchCollection root now name).1 := by
  unfold query
  generalize t.touchCollection root now name = r
  obtain ⟨t', r⟩ := r
  cases r <;> rfl

/-- A call keeps the status and the base revisions. -/
theorem call_extends (c : TransactionCall) : Extends t (t.call root now c).1 := by
  cases c with
  | collection name => exact .refl t
  | get name key => rw [call, read_fst]; exact touchCollection_extends ..
  | find name condition => rw [call, query_fst]; exact touchCollection_extends ..
  | insert | upsert | update | delete => exact write_extends

/-- **Every call keeps what a transaction knows** of the root it is made on.  Only the touch of
a collection adds a base revision, which it takes from the root. -/
theorem call_known (c : TransactionCall) (h : Known root t) :
    Known root (t.call root now c).1 := by
  cases c with
  | collection name => exact h
  | get name key => rw [call, read_fst]; exact touchCollection_known _ _ h
  | find name condition => rw [call, query_fst]; exact touchCollection_known _ _ h
  | insert | upsert | update | delete => exact write_known h

/-- **A call at a later root that still holds what was read goes the same way.**  One case for
each method: what it touches has the revision it had, so that it is the same collection. -/
theorem call_later (c : TransactionCall) (hl : root.Later next) (hk : Known root t)
    (hv : Valid next (t.call root now c).1) : t.call next now c = t.call root now c := by
  cases c with
  | collection name =>
      rw [call, call]
      cases hr : root.stored name with
      | error e => rw [hl.stored_error hr]
      | ok stored =>
          obtain ⟨stored', h'⟩ := hl.exists_of (Root.stored_eq_ok.1 hr)
          rw [Root.stored_eq_ok.2 h']
          rfl
  | get name key =>
      rw [call, read_fst] at hv
      rw [call, call, read, touchCollection_later hl hk hv, read]
  | find name condition =>
      rw [call, query_fst] at hv
      rw [call, call, query, touchCollection_later hl hk hv, query]
  | insert name document generated =>
      rw [call, call, insert, write_later hl hk hv, insert]
  | upsert name document generated =>
      rw [call, call, insert, write_later hl hk hv, insert]
  | update name key patch => rw [call, call, update, write_later hl hk hv, update]
  | delete name key => rw [call, call, delete, write_later hl hk hv, delete]

end Transaction

/-! ### Commits -/

/-- Without conflicts every base revision is that of the root.  The comparison goes through all
of them, and an empty result means that none differed. -/
theorem conflictsOf_nil {root : Root} {l : List (JsString × ℕ)} (h : conflictsOf root l = .ok []) :
    ∀ e ∈ l, ∃ c, root.collections.get? e.1 = some c ∧ c.revision = e.2 := by
  induction l with
  | nil => simp
  | cons e l ih =>
      obtain ⟨current, hc, h⟩ := bind_eq_ok.1 h
      obtain ⟨conflicts, hl, h⟩ := bind_eq_ok.1 h
      have h := Except.ok.inj h
      split_ifs at h with hne
      subst h
      intro e' he'
      rcases List.mem_cons.1 he' with rfl | he'
      · exact ⟨current, Root.stored_eq_ok.1 hc, not_not.1 hne⟩
      · exact ih hl e' he'

namespace Root

variable {root : Root} {options : CommitOptions} {t : Transaction} {committed : Committed}

/-- **What a successful commit did**: every base revision was current, and the
root is the old one or has the working collections at the next revision. -/
theorem commit_ok (h : root.commit options t = .ok committed) :
    (∀ name base, t.baseRevisions.get? name = some base →
      ∃ c, root.collections.get? name = some c ∧ c.revision = base) ∧
    (committed.root = root ∨ committed.root =
      { collections := publishAll root.collections (root.revision + 1) t.working,
        revision := root.revision + 1 }) := by
  obtain ⟨conflicts, hc, h⟩ := bind_eq_ok.1 h
  cases conflicts with
  | cons name rest => cases h
  | nil =>
      refine ⟨fun name base hb => conflictsOf_nil hc _ (OrderedMap.get?_eq_some_iff.1 hb), ?_⟩
      dsimp only at h
      split_ifs at h
      · exact .inl (by rw [← Except.ok.inj h])
      · refine .inr ?_
        unfold publish at h
        dsimp only at h
        split at h
        · cases h
        · rw [← Except.ok.inj h]

/-- A published root is sound.  The collections it publishes have the new revision, and the
others keep theirs, which are smaller. -/
theorem sound_commit (hs : root.Sound) (h : root.commit options t = .ok committed) :
    committed.root.Sound := by
  rcases (commit_ok h).2 with hr | hr
  · rw [hr]; exact hs
  · rw [hr]
    intro name c hc
    rw [get?_publishAll] at hc
    cases hw : t.working.get? name with
    | some w =>
        rw [hw] at hc
        obtain rfl := Option.some.inj hc
        exact le_rfl
    | none =>
        rw [hw] at hc
        exact (hs name c hc).trans (Nat.le_succ _)

/-- **A published root follows the one it replaces**: what was not written is
untouched, what was written is newer than everything there was. -/
theorem later_commit (hs : root.Sound) (hk : t.Known root)
    (h : root.commit options t = .ok committed) : root.Later committed.root := by
  rcases (commit_ok h).2 with hr | hr
  · rw [hr]; exact .refl root
  · have hget : ∀ name, committed.root.collections.get? name =
        ((t.working.get? name).map (·.publish (root.revision + 1))).or
          (root.collections.get? name) := by
      intro name
      rw [hr]
      exact get?_publishAll ..
    refine ⟨fun name => ?_, fun name c c' hc hc' => ?_, fun name c c' hc hc' he => ?_⟩
    · rw [hget]
      cases hw : t.working.get? name with
      | none => rfl
      | some w =>
          obtain ⟨c, hc⟩ := hk.working_mem name w hw
          rw [hc]
          rfl
    · rw [hget] at hc'
      cases hw : t.working.get? name with
      | none =>
          rw [hw] at hc'
          obtain rfl := Option.some.inj (hc.symm.trans hc')
          exact le_rfl
      | some w =>
          rw [hw] at hc'
          obtain rfl := Option.some.inj hc'
          exact (hs name c hc).trans (Nat.le_succ _)
    · rw [hget] at hc'
      cases hw : t.working.get? name with
      | none =>
          rw [hw] at hc'
          exact Option.some.inj (hc.symm.trans hc')
      | some w =>
          rw [hw] at hc'
          obtain rfl := Option.some.inj hc'
          have := hs name c hc
          have : c.revision = root.revision + 1 := he
          omega

end Root

namespace Transaction

variable {t : Transaction} {root : Root} {options : CommitOptions} {now : ℕ}

/-- **What `commit` of a transaction can do**: be refused, fail and roll back, or
succeed. -/
theorem commit_cases (t : Transaction) (now : ℕ)
    (commitRoot : Transaction → Except NewtonError Committed) :
    (∃ error, (t.assertActive >>= fun _ => t.assertWithinLimits now) = .error error ∧
      t.commit now commitRoot = (t, .error error)) ∨
    (t.status = .active ∧ t.commit now commitRoot =
      match commitRoot t with
      | .error error => ({ t with status := .rolledBack }, .error error)
      | .ok committed => ({ t with status := .committed }, .ok committed)) := by
  unfold commit
  cases h : t.assertActive >>= fun _ => t.assertWithinLimits now with
  | error e => exact .inl ⟨e, rfl, rfl⟩
  | ok _ =>
      obtain ⟨_, ha, -⟩ := bind_eq_ok.1 h
      refine .inr ⟨?_, rfl⟩
      unfold assertActive at ha
      split_ifs at ha with hs
      exact hs

/-- A transaction that is not active refuses every call, whatever the root.  The check of the
status comes first in every method. -/
theorem call_of_not_active (h : t.status ≠ .active) (now : ℕ) (root root' : Root)
    (c : TransactionCall) :
    t.call root now c = t.call root' now c ∧ (t.call root now c).1 = t := by
  have ha : t.assertActive =
      .error (.transactionState (js "Transaction is " ++ t.status.text)) := if_neg h
  have htouch : ∀ r name, t.touchCollection r now name =
      (t, .error (.transactionState (js "Transaction is " ++ t.status.text))) := fun r name => by
    rw [touchCollection, ha]; rfl
  have hwrite : ∀ r name body, t.write r now name body =
      (t, .error (.transactionState (js "Transaction is " ++ t.status.text))) :=
    fun r name body => by rw [write, recordOperation, ha]; rfl
  cases c with
  | collection name => rw [call, call, ha]; exact ⟨rfl, rfl⟩
  | get name key => rw [call, call, read, read, htouch, htouch]; exact ⟨rfl, rfl⟩
  | find name condition => rw [call, call, query, query, htouch, htouch]; exact ⟨rfl, rfl⟩
  | insert | upsert => rw [call, call, insert, insert, hwrite, hwrite]; exact ⟨rfl, rfl⟩
  | update => rw [call, call, update, update, hwrite, hwrite]; exact ⟨rfl, rfl⟩
  | delete => rw [call, call, delete, delete, hwrite, hwrite]; exact ⟨rfl, rfl⟩

end Transaction

/-! ### The laws of optimistic concurrency -/

section

variable {limits : TransactionLimits} {options : CommitOptions}

/-- **What a session call can do**: commit and publish, or leave the root alone.  A commit that
publishes is one of an active transaction without conflicts. -/
theorem sessionCall_cases (limits : TransactionLimits) (options : CommitOptions) (root : Root)
    (client : Option Transaction) (call : SessionCall) :
    (∃ t now committed, client = some t ∧ call = .commit now ∧ t.status = .active ∧
      root.commit options t = .ok committed ∧
      sessionCall limits options root client call = (committed.root,
        some { t with status := .committed }, .committed (.ok committed.receipt))) ∨
    ((sessionCall limits options root client call).1 = root ∧
      (sessionCall limits options root client call).2.2.isCommit = false) := by
  cases client with
  | none => cases call <;> exact .inr ⟨rfl, rfl⟩
  | some t =>
      cases call with
      | beginTransaction | call | rollback => exact .inr ⟨rfl, rfl⟩
      | commit now =>
          rcases t.commit_cases now (root.commit options) with ⟨e, -, h⟩ | ⟨ha, h⟩
          · exact .inr (by rw [sessionCall, h]; exact ⟨rfl, rfl⟩)
          · cases hc : root.commit options t with
            | error e =>
                rw [hc] at h
                exact .inr (by rw [sessionCall, h]; exact ⟨rfl, rfl⟩)
            | ok committed =>
                rw [hc] at h
                exact .inl ⟨t, now, committed, rfl, rfl, ha, hc, by rw [sessionCall, h]⟩

/-- A call other than a successful commit keeps the base revisions of a
transaction, and can only end its activity. -/
theorem sessionCall_valid {root next : Root} {client : Option Transaction} {call : SessionCall}
    (hv : ∀ t, (sessionCall limits options root client call).2.1 = some t → t.Valid next) :
    ∀ t, client = some t → t.Valid next := by
  rintro t rfl
  cases call with
  | beginTransaction id now => exact hv t rfl
  | call now c => exact (hv _ rfl).of_extends (t.call_extends c)
  | commit now =>
      rw [sessionCall] at hv
      rcases t.commit_cases now (root.commit options) with ⟨e, -, h⟩ | ⟨-, h⟩
      · rw [h] at hv
        exact hv t rfl
      · rw [h] at hv
        cases hc : root.commit options t <;> rw [hc] at hv <;> cases (hv _ rfl).active
  | rollback =>
      have h := hv _ rfl
      have hs := h.active
      unfold Transaction.rollback at h hs
      split_ifs at h hs with ha
      exact h

/-- A call of a session keeps what its transaction knows.  A session has one transaction at a
time, and a new one knows nothing yet. -/
theorem sessionCall_known {root : Root} {client : Option Transaction} {call : SessionCall}
    (hk : ∀ t, client = some t → t.Known root) :
    ∀ t, (sessionCall limits options root client call).2.1 = some t → t.Known root := by
  cases client with
  | none =>
      cases call with
      | beginTransaction id now =>
          rintro t ⟨⟩
          exact Transaction.known_new id now limits
      | call | commit | rollback => rintro t ⟨⟩
  | some t =>
      have h := hk t rfl
      cases call with
      | beginTransaction id now => exact hk
      | call now c => rintro _ ⟨⟩; exact Transaction.call_known c h
      | commit now =>
          rw [sessionCall]
          rcases t.commit_cases now (root.commit options) with ⟨e, -, he⟩ | ⟨-, he⟩
          · rw [he]; exact hk
          · rw [he]
            cases root.commit options t <;>
              (rintro _ ⟨⟩; exact ⟨h.base_le, h.working_mem⟩)
      | rollback =>
          rintro _ ⟨⟩
          unfold Transaction.rollback
          split_ifs
          · exact ⟨h.base_le, fun _ _ hw => by cases hw⟩
          · exact h

/-- A call goes the same way at a later root that still holds what was read.  Every read goes to
a working collection, or to one whose revision is the base still. -/
theorem sessionCall_replay {root next : Root} {client : Option Transaction} {call : SessionCall}
    (hl : root.Later next) (hk : ∀ t, client = some t → t.Known root)
    (hn : (sessionCall limits options root client call).2.2.isCommit = false)
    (hv : ∀ t, (sessionCall limits options root client call).2.1 = some t → t.Valid next) :
    sessionCall limits options next client call =
      (next, (sessionCall limits options root client call).2) := by
  cases client with
  | none => cases call <;> rfl
  | some t =>
      cases call with
      | beginTransaction | rollback => rfl
      | call now c =>
          rw [sessionCall, sessionCall, Transaction.call_later c hl (hk t rfl) (hv _ rfl)]
      | commit now =>
          rw [sessionCall] at hn hv
          rw [sessionCall, sessionCall]
          -- a commit that leaves the transaction active was refused before it began
          rcases t.commit_cases now (root.commit options) with ⟨e, he, h⟩ | ⟨-, h⟩
          · have h' : t.commit now (next.commit options) = (t, .error e) := by
              rw [Transaction.commit, he]
            rw [h, h']
          · rw [h] at hn hv
            cases hc : root.commit options t <;> rw [hc] at hn hv <;> cases (hv _ rfl).active

/-- The sessions over a database obey the laws of optimistic concurrency. -/
def sessionLaws : Laws (session limits options) where
  sound := Root.Sound
  later := Root.Later
  known root client := ∀ t, client = some t → t.Known root
  valid root client := ∀ t, client = some t → t.Valid root
  finished client := ∃ t, client = some t ∧ t.status = .committed
  later_refl := Root.Later.refl
  later_trans := Root.Later.trans
  sound_call {root client call} hs _ := by
    rcases sessionCall_cases limits options root client call with
      ⟨t, now, committed, rfl, rfl, -, hc, h⟩ | ⟨h, -⟩
    · rw [session_call, h]; exact Root.sound_commit hs hc
    · rw [session_call, h]; exact hs
  later_call {root client call} hs hk := by
    rcases sessionCall_cases limits options root client call with
      ⟨t, now, committed, rfl, rfl, -, hc, h⟩ | ⟨h, -⟩
    · rw [session_call, h]; exact Root.later_commit hs (hk t rfl) hc
    · rw [session_call, h]; exact .refl root
  known_start _ _ h := by cases h
  known_later hk hl t ht := (hk t ht).later hl
  known_call := sessionCall_known
  root_of_not_publishes {root client call} hp := by
    rcases sessionCall_cases limits options root client call with
      ⟨t, now, committed, rfl, rfl, -, hc, h⟩ | ⟨h, -⟩
    · rw [session_call, h] at hp; cases hp
    · exact h
  valid_of_publishes {root client call} hp := by
    rcases sessionCall_cases limits options root client call with
      ⟨t, now, committed, rfl, rfl, ha, hc, h⟩ | ⟨-, h⟩
    · rintro _ ⟨⟩
      exact ⟨ha, (Root.commit_ok hc).1⟩
    · exact absurd (h.symm.trans hp) (by decide)
  finished_of_publishes {root client call} hp := by
    rcases sessionCall_cases limits options root client call with
      ⟨t, now, committed, rfl, rfl, -, hc, h⟩ | ⟨-, h⟩
    · rw [session_call, h]; exact ⟨_, rfl, rfl⟩
    · exact absurd (h.symm.trans hp) (by decide)
  valid_of_call _ hv := sessionCall_valid hv
  replay hn hl hk hv := sessionCall_replay hl hk hn hv
  finished_call {client} hf call root root' := by
    obtain ⟨t, rfl, ht⟩ := hf
    have hna : t.status ≠ .active := by rw [ht]; decide
    cases call with
    | beginTransaction id now => exact ⟨rfl, ⟨t, rfl, ht⟩, rfl⟩
    | call now c =>
        have h := Transaction.call_of_not_active hna now root root' c
        refine ⟨?_, ⟨_, rfl, ?_⟩, rfl⟩
        · show (root', some (t.call root' now c).1, SessionResult.returned (t.call root' now c).2) = _
          rw [← h.1]
          rfl
        · rw [h.2]; exact ht
    | commit now =>
        have h : ∀ r, t.commit now r = (t, .error (.transactionState
            (js "Transaction is " ++ t.status.text))) := fun r => by
          rw [Transaction.commit, Transaction.assertActive, if_neg hna]; rfl
        simp only [session_call, sessionCall, h, true_and]
        exact ⟨⟨t, rfl, ht⟩, rfl⟩
    | rollback =>
        have h : t.rollback = t := if_neg hna
        simp only [session_call, sessionCall, h, true_and]
        exact ⟨⟨t, rfl, ht⟩, rfl⟩

end

/-! ### The first root -/

section

variable {σ : Type} [DecidableEq σ] {graph : JsGraph σ}

/-- A created collection has the revision it is created at.  It is a parameter of the
creation. -/
theorem revision_of_createStoredCollection {name : JsString} {documents : List σ}
    {schema : CollectionSchema} {revision : ℕ} {c : StoredCollection}
    (h : createStoredCollection graph name documents schema revision = .ok c) :
    c.revision = revision := by
  obtain ⟨_, -, h⟩ := bind_eq_ok.1 h
  obtain ⟨_, -, h⟩ := bind_eq_ok.1 h
  rw [← Except.ok.inj h]
  rfl

/-- The collections of a seed have the revision of the root, by induction on the seed.  Every
collection of it is created at that one revision. -/
theorem revision_of_seed {schemas : List (JsString × CollectionSchema)} {revision : ℕ}
    {seed : List (JsString × List σ)} : ∀ {start collections : OrderedMap JsString StoredCollection},
    seed.foldlM (seedCollection graph schemas revision) start = .ok collections →
      (∀ name c, start.get? name = some c → c.revision = revision) →
        ∀ name c, collections.get? name = some c → c.revision = revision := by
  induction seed with
  | nil =>
      intro start collections h hs
      rw [← Except.ok.inj h]
      exact hs
  | cons entry seed ih =>
      intro start collections h hs
      rw [List.foldlM_cons] at h
      obtain ⟨next, hn, h⟩ := bind_eq_ok.1 h
      refine ih h fun name c hc => ?_
      unfold seedCollection at hn
      split at hn
      · cases hn
      · obtain ⟨_, -, hn⟩ := bind_eq_ok.1 hn
        obtain ⟨created, hcr, hn⟩ := bind_eq_ok.1 hn
        rw [← Except.ok.inj hn, OrderedMap.get?_set] at hc
        split_ifs at hc
        · rw [← Option.some.inj hc]
          exact revision_of_createStoredCollection hcr
        · exact hs name c hc

/-- A first root is sound.  None of its collections has a larger revision than the root, since
all have the same. -/
theorem sound_createRoot {seed : List (JsString × List σ)}
    {schemas : List (JsString × CollectionSchema)} {revision : ℕ} {root : Root}
    (h : createRoot graph seed schemas revision = .ok root) : root.Sound := by
  obtain ⟨collections, hc, h⟩ := bind_eq_ok.1 h
  obtain ⟨_, -, h⟩ := bind_eq_ok.1 h
  obtain ⟨_, -, h⟩ := bind_eq_ok.1 h
  rw [← Except.ok.inj h]
  intro name c hcol
  exact (revision_of_seed hc (fun _ _ h => by cases h) name c hcol).le

/-- **Serializability.**  Whatever the interleaving of the calls of any number of
transactions, the transactions that committed, run one at a time and alone in the
order of their commits from the first root, give every call the result it had and
leave the root that the interleaving left.  A call is one step, a commit too: the hook
that hears of a listener's overflow in the middle of a commit makes no call on the
transaction that commits. -/
theorem committed_transactions_serializable {seed : List (JsString × List σ)}
    {schemas : List (JsString × CollectionSchema)} {revision : ℕ} {root : Root}
    (h : createRoot graph seed schemas revision = .ok root) (limits : TransactionLimits)
    (options : CommitOptions) {ι : Type} [DecidableEq ι] (steps : List (ι × SessionCall)) :
    let m := session limits options
    let history := m.run root steps
    m.serial root ((m.published history.results).map (Machine.of · steps)) =
      (history.root, (m.published history.results).map (Machine.of · history.results)) :=
  sessionLaws.serializable (sound_createRoot h) steps

end

/-- Two transactions read one counter and write it; the first to commit wins.  The second finds
that its collection moved on, so the theorem replays the first alone. -/
theorem two_counters_serializable :
    let schema : CollectionSchema :=
      { generatePrimaryKey := none, indexes := [], primaryKey := js "id", validate := none,
        limits := .none }
    let counters := js "counters"
    let key := PrimaryKey.string (js "a")
    let put (n : ℕ) := JsInput.plain [(js "n", .number (.finite (.ofNat n)))]
    let m := session defaultTransactionLimits ⟨js "db", false, true⟩
    let steps : List (Bool × SessionCall) :=
      [(true, .beginTransaction (js "t") 0), (false, .beginTransaction (js "u") 0),
        (true, .call 1 (.get counters key)), (false, .call 1 (.get counters key)),
        (true, .call 2 (.update counters key (put 1))),
        (false, .call 2 (.update counters key (put 2))), (true, .commit 3), (false, .commit 3)]
    ∃ root, createRoot Json.graph [(counters, [.obj [(js "id", .prim (.string (js "a"))),
        (js "n", .prim (.number (.ofNat 0)))]])] [(counters, schema)] 0 = .ok root ∧
      m.serial root ((m.published (m.run root steps).results).map (Machine.of · steps)) =
        ((m.run root steps).root,
          (m.published (m.run root steps).results).map
            (Machine.of · (m.run root steps).results)) := by
  intro schema counters key put m steps
  obtain ⟨root, h⟩ := exists_of_isOk (x := createRoot Json.graph [(counters, [.obj
    [(js "id", .prim (.string (js "a"))), (js "n", .prim (.number (.ofNat 0)))]])]
    [(counters, schema)] 0) (by decide +kernel)
  exact ⟨root, h, committed_transactions_serializable h _ _ steps⟩

end NewtonDB
