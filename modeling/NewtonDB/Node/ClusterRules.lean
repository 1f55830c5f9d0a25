/-
# What one process may rely on

The adapters of a cluster seen one at a time.  The lock file is an adapter's own
(`Cluster.Mine`) when its name leads to a file that adapter created.  While it is, the
other live processes change nothing in the directory (`Cluster.Relies`): that is what an
adapter relies on, and what it grants the others (`Cluster.Guarantees`), as long as a
stale lock that is removed was that of no live process.

`Cluster.Held` is the assertion of the code that runs under the lock: the lock is the
adapter's own, and since some moment only names have changed that are neither the lock's
nor the primary's.  One lemma for each method says that it keeps this.
-/

import NewtonDB.Node.Cluster
import NewtonDB.Node.TemporaryNames

namespace NewtonDB

open Method (Assures Retains)

/-! ### Replies -/

/-- A file that was made is the next one.  Only a create makes one. -/
theorem FileCall.made_eq_some {N β : Type} [DecidableEq N] {call : FileCall N β}
    {fault : Option Fault} {d : Directory N} {file : ℕ}
    (h : call.made (call.answer fault d).1 = some file) :
    file = d.next ∧ (call.answer fault d).2.next = d.next + 1 := by
  cases call with
  | create name =>
      cases fault with
      | some fault => cases h
      | none =>
          simp only [FileCall.answer, FileCall.perform] at h ⊢
          cases he : d.entries.get? name with
          | some old =>
              rw [Directory.create_of_entry he] at h
              cases h
          | none =>
              rw [Directory.create_of_fresh he] at h ⊢
              exact ⟨(Option.some.inj h).symm, rfl⟩
  | _ => cases h

/-- Names lead to files there are, and only files there are have an author. -/
structure Machine.Sane {ι : Type} (m : Machine ι) : Prop where
  wf : m.dir.WF
  author : ∀ file, m.dir.next ≤ file → m.author file = none

namespace Machine

variable {ι β : Type} {i : ι} {m : Machine ι}

/-- The answer to a call on the directory. -/
theorem dir_reply (answer : SystemAnswer) (site : CallSite) (call : FileCall JsString β) :
    (m.reply i answer (.file site call)).2.dir = (call.answer answer.fault m.dir).2 := rfl

/-- A call that only looks changes nothing. -/
theorem reply_of_isQuiet {call : FileCall JsString β} (h : call.isQuiet) (answer : SystemAnswer)
    (site : CallSite) : (m.reply i answer (.file site call)).2 = m := by
  have hmade : call.made (call.answer answer.fault m.dir).1 = none := by
    cases call <;> first | rfl | cases h
  simp only [reply, hmade, call.answer_snd_of_isQuiet h]

/-- The count of files does not go down. -/
theorem next_reply (answer : SystemAnswer) (site : CallSite) (call : FileCall JsString β) :
    m.dir.next ≤ (m.reply i answer (.file site call)).2.dir.next :=
  ((Directory.NewRegular.refl m.dir).answer call answer.fault).next

/-- A file is created where its name was free, and nothing happens otherwise.  The machine puts
on record who made it. -/
theorem reply_create (answer : SystemAnswer) (site : CallSite) (name : JsString) :
    (∃ code, m.reply i answer (.file site (.create name)) = (.error code, m)) ∨
      (m.dir.entries.get? name = none ∧ m.reply i answer (.file site (.create name)) =
        (.ok m.dir.next, { m with
          dir := m.dir.created name
          author := Function.update m.author m.dir.next (some i) })) := by
  cases hf : answer.fault with
  | some fault => exact .inl ⟨fault.code.code, by simp [reply, hf, FileCall.answer, FileCall.fail,
      FileCall.made]⟩
  | none =>
      cases he : m.dir.entries.get? name with
      | some file => exact .inl ⟨.exists, by simp [reply, hf, FileCall.answer, FileCall.perform,
          Directory.create_of_entry he, FileCall.made]⟩
      | none => exact .inr ⟨rfl, by simp [reply, hf, FileCall.answer, FileCall.perform,
          Directory.create_of_fresh he, FileCall.made]⟩

/-- A rename gives its target what its source had, and nothing happens otherwise.  The contents
of files are not touched by it. -/
theorem reply_rename (answer : SystemAnswer) (site : CallSite) (source target : JsString) :
    (∃ code, m.reply i answer (.file site (.rename source target)) = (.error code, m)) ∨
      ((m.reply i answer (.file site (.rename source target))).1 = .ok () ∧
        ((m.reply i answer (.file site (.rename source target))).2.dir.file? target).map
          FileNode.bytes = (m.dir.file? source).map FileNode.bytes) := by
  cases hf : answer.fault with
  | some fault => exact .inl ⟨fault.code.code, by simp [reply, hf, FileCall.answer, FileCall.fail,
      FileCall.made]⟩
  | none =>
      cases hrun : (m.dir.rename source target).1 with
      | error code =>
          have hsame := Directory.rename_of_error hrun
          exact .inl ⟨code, by simp [reply, hf, FileCall.answer, FileCall.perform, hrun, hsame,
            FileCall.made]⟩
      | ok u =>
          refine .inr ⟨by simp [reply, hf, FileCall.answer, FileCall.perform, hrun], ?_⟩
          obtain ⟨file, hfile⟩ : ∃ file, m.dir.entries.get? source = some file := by
            cases hentry : m.dir.entries.get? source with
            | none => simp [Directory.rename, hentry] at hrun
            | some file => exact ⟨file, rfl⟩
          rw [dir_reply, hf]
          exact (Directory.bytes_rename hfile hrun).trans (by simp [Directory.file?, hfile])

/-- **Files that are there keep their author.**  The author of a file is the adapter whose call
created it. -/
theorem author_reply (answer : SystemAnswer) (site : CallSite) (call : FileCall JsString β)
    {file : ℕ} (h : file < m.dir.next) :
    (m.reply i answer (.file site call)).2.author file = m.author file := by
  simp only [reply]
  cases hmade : call.made (call.answer answer.fault m.dir).1 with
  | none => rfl
  | some made =>
      obtain ⟨rfl, -⟩ := FileCall.made_eq_some hmade
      exact Function.update_of_ne h.ne ..

/-- **A reply keeps the machine sane**: the directory is well formed, and the authors are of
files that were made. -/
theorem Sane.reply (h : m.Sane) (answer : SystemAnswer) (request : AdapterRequest β) :
    (m.reply i answer request).2.Sane := by
  cases request with
  | file site call =>
      refine ⟨h.wf.answer call answer.fault, fun file hfile => ?_⟩
      simp only [Machine.reply] at hfile ⊢
      cases hmade : call.made (call.answer answer.fault m.dir).1 with
      | none => exact h.author file ((m.next_reply (i := i) answer site call).trans hfile)
      | some made =>
          obtain ⟨rfl, hnext⟩ := FileCall.made_eq_some hmade
          rw [hnext] at hfile
          exact (Function.update_of_ne (by omega) ..).trans (h.author file (by omega))
  | _ => exact h

/-- A parent that is a directory stays one. -/
theorem parent_reply (h : m.dir.parent = .directory) (answer : SystemAnswer)
    (request : AdapterRequest β) : (m.reply i answer request).2.dir.parent = .directory := by
  cases request with
  | file site call => exact Directory.parent_answer h call answer.fault
  | _ => exact h

end Machine

namespace Cluster

variable {ι : Type} {c : Cluster ι} {i j : ι} {m m' : Machine ι}

/-! ### Assertions -/

/-- The lock file is the adapter's own. -/
structure Mine (c : Cluster ι) (i : ι) (m : Machine ι) : Prop where
  parent : m.dir.parent = .directory
  entry : ∃ file, m.dir.entries.get? c.lockPath = some file ∧ m.author file = some i

/-- **The lock file is that of one adapter.**  A name leads to one file, and a file has one
author. -/
theorem Mine.eq (h : c.Mine i m) (h' : c.Mine j m) : i = j := by
  obtain ⟨file, hentry, hauthor⟩ := h.entry
  obtain ⟨file', hentry', hauthor'⟩ := h'.entry
  obtain rfl := Option.some.inj (hentry.symm.trans hentry')
  exact Option.some.inj (hauthor.symm.trans hauthor')

/-- Whether the lock file is the adapter's depends on the directory and the authors only. -/
theorem Mine.of_eq (h : c.Mine i m) (hm : m'.dir = m.dir ∧ m'.author = m.author) :
    c.Mine i m' := by
  obtain ⟨file, hentry, hauthor⟩ := h.entry
  exact ⟨hm.1 ▸ h.parent, file, hm.1 ▸ hentry, hm.2 ▸ hauthor⟩

/-- The bytes of the primary. -/
def primary (c : Cluster ι) (m : Machine ι) : Option (List UInt8) :=
  (m.dir.file? c.path).map FileNode.bytes

/-- The snapshot is the next one after what the primary held. -/
def Precedes (c : Cluster ι) : Option (List UInt8) → SnapshotEnvelope → Prop
  | none, snapshot => snapshot.generation = 1
  | some bytes, snapshot => ∃ disk, c.platform.decodeSnapshot bytes = .ok disk ∧
      snapshot.generation = disk.generation + 1 ∧ snapshot.databaseId = disk.databaseId

/-- **The primary is replaced by the next snapshot** of the same database. -/
def Advances (c : Cluster ι) (old new : Option (List UInt8)) : Prop :=
  ∃ snapshot : SnapshotEnvelope,
    new = some (c.platform.serializeSnapshot snapshot.json) ∧ c.Precedes old snapshot

/-- No adapter may recover the primary from the backup. -/
def NeverRecovers (c : Cluster ι) : Prop := ∀ i, (c.adapter i).recoverFromBackup = false

/-- What an adapter relies on the others for. -/
structure Relies (c : Cluster ι) (i : ι) (m m' : Machine ι) : Prop where
  sane : m.Sane → m'.Sane
  parent : m.dir.parent = .directory → m'.dir.parent = .directory
  mine : c.Mine i m → m'.dir = m.dir ∧ m'.author = m.author

/-- What an adapter grants the others, and how it changes the primary.  `keep` says that it
keeps the lock. -/
structure Guarantees (c : Cluster ι) (i : ι) (keep : Bool) (m m' : Machine ι) : Prop where
  sane : m.Sane → m'.Sane
  others : ∀ j, j ≠ i → m.alive (c.pid j) = true → c.Relies j m m'
  primary : c.NeverRecovers →
    c.primary m' = c.primary m ∨ c.Advances (c.primary m) (c.primary m')
  keep : keep = true → c.Mine i m → c.Mine i m'

/-- An adapter can rely on what leaves the directory and the authors alone. -/
theorem Relies.of_eq (hm : m'.dir = m.dir ∧ m'.author = m.author) : c.Relies i m m' :=
  ⟨fun h => ⟨hm.1 ▸ h.wf, fun file hf => by
      rw [hm.2]
      exact h.author file (hm.1 ▸ hf)⟩, fun h => hm.1 ▸ h, fun _ => hm⟩

/-- An adapter can rely on nothing being done. -/
theorem Relies.refl (m : Machine ι) : c.Relies i m m := .of_eq ⟨rfl, rfl⟩

/-- **An adapter can rely on two steps of the others** when it can on each.  Neither takes its
lock file away, and neither changes the primary under it. -/
theorem Relies.trans {m'' : Machine ι} (h : c.Relies i m m') (h' : c.Relies i m' m'') :
    c.Relies i m m'' :=
  ⟨fun hm => h'.sane (h.sane hm), fun hm => h'.parent (h.parent hm), fun hm =>
    have hm' := h.mine hm
    have hm'' := h'.mine (hm.of_eq hm')
    ⟨hm''.1.trans hm'.1, hm''.2.trans hm'.2⟩⟩

/-- An adapter that does nothing keeps its guarantee. -/
theorem Guarantees.refl {keep : Bool} (m : Machine ι) : c.Guarantees i keep m m :=
  ⟨id, fun _ _ _ => .refl m, fun _ => .inl rfl, fun _ h => h⟩

/-- **Under its lock an adapter may do what it likes** to all but the primary.  The others may
rely on it: theirs is not the lock, and what they hold of other names they do not rely on. -/
theorem Mine.guarantees {keep : Bool} (h : c.Mine i m) (hsane : m.Sane → m'.Sane)
    (hparent : m.dir.parent = .directory → m'.dir.parent = .directory)
    (hprimary : c.NeverRecovers →
      c.primary m' = c.primary m ∨ c.Advances (c.primary m) (c.primary m'))
    (hkeep : keep = true → c.Mine i m') : c.Guarantees i keep m m' :=
  ⟨hsane, fun _ hj _ => ⟨hsane, hparent, fun hmine => absurd (hmine.eq h) hj⟩, hprimary,
    fun hk _ => hkeep hk⟩

/-- What an adapter has around it, where stale locks that are removed are those of no live
process. -/
def surroundings (c : Cluster ι) (i : ι) (keep : Bool) :
    Surroundings AdapterRequest (Machine ι) where
  reply request m b m' := ∃ answer,
    (request.isTakeover = true → answer.fault = none → c.lockIsStale m = true) ∧
      m.reply i answer request = (b, m')
  rely := c.Relies i
  guarantee := c.Guarantees i keep

/-- What the others do leaves the assertion true. -/
def Stable (c : Cluster ι) (i : ι) (I : AdapterFields → Machine ι → Prop) : Prop :=
  ∀ fields m m', I fields m → c.Relies i m m' → I fields m'

/-! ### Calls -/

section

variable {keep : Bool} {I : AdapterFields → Machine ι → Prop} {α β : Type}

/-- **The rule of a request**: what is asked for must hold of every answer, from every state the
others may have made of the one before, and the adapter must keep its guarantee. -/
theorem assures_request (hI : c.Stable i I) {request : AdapterRequest β}
    {P : Except Thrown β → AdapterFields → Machine ι → Prop}
    (h : ∀ fields m answer, I fields m →
      (request.isTakeover = true → answer.fault = none → c.lockIsStale m = true) →
      c.Guarantees i keep m (m.reply i answer request).2 ∧
        P (.ok (m.reply i answer request).1) fields (m.reply i answer request).2) :
    Assures (c.surroundings i keep) I (Method.request request : AdapterMethod β) P := by
  refine Assures.call fun fields m m₁ b m₂ hm hrely hreply => ?_
  obtain ⟨answer, hstale, hanswer⟩ := hreply
  have hleft := h fields m₁ answer (hI fields m m₁ hm hrely) hstale
  rwa [hanswer] at hleft

/-- **The rule for a call on the directory.**  What is asked for must hold of the answer the
directory gives, and of every fault. -/
theorem assures_fileCall (hI : c.Stable i I) {site : CallSite} {k : FileCall JsString β}
    {P : Except Thrown β → AdapterFields → Machine ι → Prop}
    (h : ∀ fields m answer, I fields m →
      ((AdapterRequest.file site k).isTakeover = true → answer.fault = none →
        c.lockIsStale m = true) →
      c.Guarantees i keep m (m.reply i answer (.file site k)).2 ∧
        P ((m.reply i answer (.file site k)).1.mapError .system) fields
          (m.reply i answer (.file site k)).2) :
    Assures (c.surroundings i keep) I (fileCall site k) P := by
  refine Assures.bind (assures_request
    (P := fun outcome fields m => ∃ left, outcome = .ok left ∧ P (left.mapError .system) fields m)
    hI fun fields m answer hm hstale => ?_) (fun reply => ?_) fun error fields m hm => ?_
  · obtain ⟨hg, hP⟩ := h fields m answer hm hstale
    exact ⟨hg, _, rfl, hP⟩
  · cases reply with
    | ok b =>
        refine Assures.pure fun fields m hm => ?_
        obtain ⟨_, he, hP⟩ := hm
        cases he
        exact hP
    | error code =>
        refine Assures.throw fun fields m hm => ?_
        obtain ⟨_, he, hP⟩ := hm
        cases he
        exact hP
  · obtain ⟨_, he, -⟩ := hm
    cases he

/-- A call that only looks. -/
theorem retains_look (hI : c.Stable i I) {k : FileCall JsString β} (h : k.isQuiet)
    (site : CallSite) : Retains (c.surroundings i keep) I (fileCall site k) fun _ => True :=
  assures_fileCall hI fun fields m answer hm _ => by
    rw [m.reply_of_isQuiet h]
    exact ⟨.refl m, hm, fun _ _ => trivial⟩

/-- To ask for an id keeps what the others cannot break. -/
theorem retains_randomUUID (hI : c.Stable i I) (site : IdSite) :
    Retains (c.surroundings i keep) I (Method.request (.randomUUID site) : AdapterMethod JsString)
      fun _ => True :=
  assures_request hI fun _ m _ hm _ => ⟨.refl m, hm, fun _ _ => trivial⟩

/-- To ask for a process keeps what the others cannot break. -/
theorem retains_isAlive (hI : c.Stable i I) (pid : ℤ) :
    Retains (c.surroundings i keep) I (Method.request (.isAlive pid) : AdapterMethod Bool)
      fun _ => True :=
  assures_request hI fun _ m _ hm _ => ⟨.refl m, hm, fun _ _ => trivial⟩

/-- A fault point keeps what the others cannot break.  It is a call of no file, so the machine
stays as it is. -/
theorem retains_injectFault (hI : c.Stable i I) (point : FaultPoint) :
    Retains (c.surroundings i keep) I (injectFault point) fun _ => True := by
  have hrequest : Retains (c.surroundings i keep) I
      (Method.request (.inject point) : AdapterMethod (Except ErrorCode Unit)) fun _ => True :=
    assures_request hI fun _ m _ hm _ => ⟨.refl m, hm, fun _ _ => trivial⟩
  refine .bind hrequest fun reply _ => ?_
  cases reply with
  | ok b => exact .pure trivial
  | error code => exact .throw _

/-- To read a text keeps what the others cannot break. -/
theorem retains_readText (hI : c.Stable i I) (site : CallSite) (name : JsString) :
    Retains (c.surroundings i keep) I (readText site name) fun _ => True :=
  .bind (retains_look hI rfl site).attempt fun _ _ => .pure trivial

/-- To ask for the owner of a lock keeps what the others cannot break. -/
theorem retains_isOwnerAlive (hI : c.Stable i I) (owner : Option LockRecord) :
    Retains (c.surroundings i keep) I (isOwnerAlive owner) fun _ => True := by
  cases owner with
  | none => exact .pure trivial
  | some owner => exact .ite (fun _ => .pure trivial) fun _ => retains_isAlive hI _

/-- The check of the lock keeps what the others cannot break: it reads only.  What it finds may
be out of date by the time it is used. -/
theorem retains_assertLockOwnership (hI : c.Stable i I) (a : JsonFileAdapter) (check : ℕ) :
    Retains (c.surroundings i keep) I (a.assertLockOwnership check) fun _ => True := by
  refine .bind .read fun fields _ => ?_
  cases fields.lockToken with
  | none => exact .throw _
  | some token =>
      refine .bind (retains_readText hI _ _) fun _ _ => ?_
      exact .ite (fun _ => .throw _) fun _ => .pure trivial

/-- To sync the directory keeps what the others cannot break.  Its three calls look at the
directory only. -/
theorem retains_syncDirectory (hI : c.Stable i I) (copy : Bool) :
    Retains (c.surroundings i keep) I (JsonFileAdapter.syncDirectory copy) fun _ => True := by
  refine .bind (retains_look hI rfl _).attempt fun opened _ => ?_
  cases opened with
  | error error => exact .ite (fun _ => .throw _) fun _ => .pure trivial
  | ok _ =>
      refine .bind (retains_look hI rfl _).attempt fun synced _ =>
        .bind (retains_look hI rfl _) fun _ _ => ?_
      cases synced with
      | error error => exact .ite (fun _ => .throw _) fun _ => .pure trivial
      | ok _ => exact .pure trivial

/-- Nothing is found only where the name is missing.  Every other error is thrown again, in one
form or another. -/
theorem retains_readFailed (thrown : Thrown) {P : Option Json → Prop}
    (hP : thrown = .system .missing → P none) :
    Retains (c.surroundings i keep) I (JsonFileAdapter.readFailed thrown) P := by
  unfold JsonFileAdapter.readFailed
  split
  · exact .pure (hP rfl)
  · exact .throw _
  · exact .throw _
  · exact .throw _

/-- The checks of an open file.  They read the file, and throw when it is not one to be
trusted. -/
theorem retains_readHandle (hI : c.Stable i I) (a : JsonFileAdapter) (backup : Bool) (handle : ℕ) :
    Retains (c.surroundings i keep) I (a.readHandle backup handle) fun _ => True := by
  have hrefuse : ∀ (message : String) (rest : Unit → AdapterMethod Json),
      Retains (c.surroundings i keep) I (JsonFileAdapter.readHandle.refuse message >>= rest)
        fun _ => True := fun message rest => .throwThen _
  refine .bind (retains_look hI rfl _) fun info _ => ?_
  refine .ite (fun _ => hrefuse _ _) fun _ => .ite (fun _ => hrefuse _ _) fun _ => ?_
  refine .ite (fun _ => hrefuse _ _) fun _ => .bind (retains_look hI rfl _) fun bytes _ => ?_
  refine .ite (fun _ => hrefuse _ _) fun _ => ?_
  cases a.platform.decodeSnapshot bytes with
  | ok snapshot => exact .pure trivial
  | error error => exact .throw _

/-- To read a snapshot keeps what the others cannot break, whatever is read.  The handle is
closed on both ways. -/
theorem retains_readSnapshotAt (hI : c.Stable i I) (a : JsonFileAdapter) (backup : Bool) :
    Retains (c.surroundings i keep) I (a.readSnapshotAt backup) fun _ => True := by
  refine .bind (retains_look hI rfl _).attempt fun opened _ => ?_
  cases opened with
  | error error => exact retains_readFailed error fun _ => trivial
  | ok handle =>
      refine .bind (retains_readHandle hI a backup handle).attempt fun outcome _ => ?_
      refine .bind (retains_look (k := .close handle) hI rfl _).attempt fun _ _ => ?_
      cases outcome with
      | ok snapshot => exact .pure trivial
      | error error => exact retains_readFailed error fun _ => trivial

end

/-! ### Under the lock -/

/-- A name that is neither the lock's nor, unless it may be recovered, the primary's. -/
def Yields (c : Cluster ι) (name : JsString) : Prop :=
  name ≠ c.lockPath ∧ (c.NeverRecovers → name ≠ c.path)

/-- The adapter has its lock, and since `d₀` has changed other names only. -/
structure Held (c : Cluster ι) (i : ι) (F : AdapterFields → Prop) (d₀ : Directory JsString)
    (fields : AdapterFields) (m : Machine ι) : Prop where
  fields : F fields
  sane : m.Sane
  mine : c.Mine i m
  wf : d₀.WF
  within : d₀.Within c.Yields m.dir

section

variable {keep : Bool} {F : AdapterFields → Prop} {d₀ : Directory JsString} {α β : Type}
  {fields : AdapterFields}

/-- The assertion holds where it is made. -/
theorem Held.start (hF : F fields) (hsane : m.Sane) (hmine : c.Mine i m) :
    c.Held i F m.dir fields m := ⟨hF, hsane, hmine, hsane.wf, .refl _ _⟩

/-- **What the others do leaves the lock to the adapter that holds it**, and changes no name but
those that yield. -/
theorem Held.stable : c.Stable i (c.Held i F d₀) := fun _ _ _ h hm =>
  have he := hm.mine h.mine
  ⟨h.fields, hm.sane h.sane, h.mine.of_eq he, h.wf, he.1 ▸ h.within⟩

/-- **The primary is as it was.**  The others do not change it while the adapter has the
lock. -/
theorem Held.primary_eq (h : c.Held i F d₀ fields m) (hrecover : c.NeverRecovers) :
    c.primary m = (d₀.file? c.path).map FileNode.bytes :=
  h.within.bytes_file? (fun hn => hn.2 hrecover rfl) (h.wf.bound c.path)

/-- **A call on other names** leaves the lock and the primary as they were.  So the adapter may
go on, and the others may rely on it. -/
theorem Held.reply (h : c.Held i F d₀ fields m) {k : FileCall JsString β}
    (hk : k.Confined c.Yields d₀.next) (answer : SystemAnswer) (site : CallSite) :
    c.Guarantees i keep m (m.reply i answer (.file site k)).2 ∧
      c.Held i F d₀ fields (m.reply i answer (.file site k)).2 := by
  set m' := (m.reply i answer (.file site k)).2 with hm'
  have hwithin : d₀.Within c.Yields m'.dir := h.within.answer hk answer.fault
  have hlock : ¬c.Yields c.lockPath := fun hn => hn.1 rfl
  have hmine : c.Mine i m' := by
    obtain ⟨file, hentry, hauthor⟩ := h.mine.entry
    refine ⟨Machine.parent_reply h.mine.parent answer _, file, ?_, ?_⟩
    · rw [hwithin.entries _ hlock, ← h.within.entries _ hlock, hentry]
    · rw [hm', Machine.author_reply answer site k (h.sane.wf.bound _ _ hentry), hauthor]
  have hheld : c.Held i F d₀ fields m' := ⟨h.fields, h.sane.reply answer _, hmine, h.wf, hwithin⟩
  refine ⟨h.mine.guarantees (fun hs => hs.reply answer _)
    (fun hp => Machine.parent_reply hp answer _) (fun hrecover => .inl ?_) fun _ => hmine, hheld⟩
  rw [hheld.primary_eq hrecover, h.primary_eq hrecover]

/-- A call among names that yield keeps the lock held. -/
theorem retains_fileCall {k : FileCall JsString β} (hk : k.Confined c.Yields d₀.next)
    (site : CallSite) :
    Retains (c.surroundings i keep) (c.Held i F d₀) (fileCall site k) fun _ => True :=
  assures_fileCall Held.stable fun _ _ answer hm _ =>
    have hleft := hm.reply hk answer site
    ⟨hleft.1, hleft.2, fun _ _ => trivial⟩

/-- A file that is created is a new one.  It is not among the files of the start, and belongs to
this adapter. -/
theorem retains_create {name : JsString} (hname : c.Yields name) (site : CallSite) :
    Retains (c.surroundings i keep) (c.Held i F d₀) (fileCall site (.create name))
      fun handle => d₀.next ≤ handle := by
  refine assures_fileCall Held.stable fun fields m answer hm _ => ?_
  have hleft : c.Guarantees i keep m _ ∧ _ := hm.reply (k := .create name) hname answer site
  refine ⟨hleft.1, hleft.2, fun handle he => ?_⟩
  have hmade : (FileCall.create name).made
      ((FileCall.create name).answer answer.fault m.dir).1 = some handle := by
    have hreply : (m.reply i answer (.file site (.create name))).1 =
        ((FileCall.create name).answer answer.fault m.dir).1 := rfl
    rw [hreply] at he
    generalize ((FileCall.create name : FileCall JsString ℕ).answer answer.fault m.dir).1 = left
      at he
    cases left with
    | error code => cases he
    | ok file => exact congrArg some (Except.ok.inj he)
  exact (FileCall.made_eq_some hmade).1 ▸ hm.within.next

/-- To discard a temporary file keeps the lock held.  It closes and unlinks, and swallows what
these throw. -/
theorem retains_discardTemporary (copy : Bool) {temporary : JsString} (ht : c.Yields temporary)
    (handle : Option ℕ) : Retains (c.surroundings i keep) (c.Held i F d₀)
      (JsonFileAdapter.discardTemporary copy temporary handle) fun _ => True := by
  have hunlink : Retains (c.surroundings i keep) (c.Held i F d₀)
      (fileCall (.temporary copy .discard) (.unlink temporary)) fun _ => True :=
    retains_fileCall (k := .unlink temporary) ht _
  cases handle with
  | none => exact .bind hunlink.attempt fun _ _ => .pure trivial
  | some handle =>
      refine .bind (retains_look Held.stable rfl _).attempt fun _ _ => ?_
      exact .bind hunlink.attempt fun _ _ => .pure trivial

/-- An installation that failed keeps the lock held. -/
theorem retains_installFailed {temporary : JsString} (ht : c.Yields temporary) (handle : Option ℕ)
    {P : Unit → Prop} : Retains (c.surroundings i keep) (c.Held i F d₀)
      (JsonFileAdapter.installBytes.failed temporary handle) P :=
  .bind (retains_discardTemporary true ht handle) fun _ _ => .throw _

/-- To install bytes under a name that yields keeps the lock held.  A part that fails is
discarded, and the destination is renamed to at the very end. -/
theorem retains_installBytes {a : JsonFileAdapter} {destination : JsString}
    (hd : c.Yields destination) (ht : ∀ uuid, c.Yields (a.temporaryPath destination uuid))
    (bytes : List UInt8) : Retains (c.surroundings i keep) (c.Held i F d₀)
      (a.installBytes destination bytes) fun _ => True := by
  refine .bind (retains_randomUUID Held.stable _) fun uuid _ => ?_
  refine .bind (retains_create (ht uuid) _).attempt fun created hcreated => ?_
  cases created with
  | error error => exact retains_installFailed (ht uuid) none
  | ok handle =>
      have hwrite : Retains (c.surroundings i keep) (c.Held i F d₀)
          (fileCall (.temporary true .write) (.write handle bytes)) fun _ => True :=
        retains_fileCall (k := .write handle bytes) (hcreated handle rfl) _
      refine .bind (Retains.attempt (.bind hwrite fun _ _ => .bind (retains_look Held.stable rfl _)
        fun _ _ => retains_look Held.stable rfl _)) fun written _ => ?_
      cases written with
      | error error => exact retains_installFailed (ht uuid) (some handle)
      | ok _ =>
          have hrename : Retains (c.surroundings i keep) (c.Held i F d₀) (fileCall
              (.temporary true .rename) (.rename (a.temporaryPath destination uuid) destination))
              fun _ => True :=
            retains_fileCall (k := .rename (a.temporaryPath destination uuid) destination)
              ⟨ht uuid, hd⟩ _
          refine .bind (Retains.attempt (.bind hrename fun _ _ =>
            retains_syncDirectory Held.stable true)) fun renamed _ => ?_
          cases renamed with
          | error error => exact retains_installFailed (ht uuid) none
          | ok _ => exact .pure trivial

/-- To remove files under names that yield keeps the lock held, by induction on the names.  A
removal that fails is remembered, and the others are made all the same. -/
theorem retains_removeTemps : ∀ {l : List JsString}, (∀ name ∈ l, c.Yields name) →
    Retains (c.surroundings i keep) (c.Held i F d₀) (JsonFileAdapter.removeTemps l) fun _ => True
  | [], _ => .pure trivial
  | name :: rest, h => by
      refine .bind (retains_fileCall (k := .unlink name) (h name List.mem_cons_self) _).attempt
        fun outcome _ => .bind (retains_removeTemps fun n hn => h n (List.mem_cons_of_mem _ hn))
          fun _ _ => ?_
      cases outcome with
      | error error => exact .throw _
      | ok _ => exact .pure trivial

/-! ### The names of an adapter -/

/-- All adapters have one lock. -/
theorem lockPath_adapter (c : Cluster ι) (i : ι) : (c.adapter i).lockPath = c.lockPath := by
  rw [JsonFileAdapter.lockPath, c.name_eq, lockPath]

/-- All adapters have one primary. -/
theorem path_adapter (c : Cluster ι) (i : ι) : (c.adapter i).path = c.path := c.name_eq i

/-- A name that is neither the lock's nor the primary's yields. -/
theorem yields_of_ne {name : JsString} (hlock : name ≠ (c.adapter i).lockPath)
    (hpath : name ≠ (c.adapter i).path) : c.Yields name :=
  ⟨c.lockPath_adapter i ▸ hlock, fun _ => c.path_adapter i ▸ hpath⟩

/-- The name of the backup yields. -/
theorem yields_backupPath : c.Yields (c.adapter i).backupPath :=
  yields_of_ne (c.adapter i).backupPath_ne_lockPath (c.adapter i).path_ne_backupPath.symm

/-- The name of a stale temporary file yields. -/
theorem yields_isStaleTemp {name : JsString} (h : (c.adapter i).isStaleTemp name = true) :
    c.Yields name :=
  yields_of_ne
    (fun he => Bool.noConfusion (h.symm.trans (he ▸ (c.adapter i).not_isStaleTemp_lockPath)))
    (fun he => Bool.noConfusion (h.symm.trans (he ▸ (c.adapter i).not_isStaleTemp_path)))

/-- The temporary name of a store yields. -/
theorem yields_temporaryPath (uuid : JsString) :
    c.Yields ((c.adapter i).temporaryPath (c.adapter i).path uuid) :=
  yields_of_ne ((c.adapter i).temporaryPath_ne_lockPath _ uuid)
    ((c.adapter i).temporaryPath_ne_path le_rfl uuid)

/-- The temporary name of a backup yields. -/
theorem yields_temporaryBackup (uuid : JsString) :
    c.Yields ((c.adapter i).temporaryPath (c.adapter i).backupPath uuid) :=
  yields_of_ne ((c.adapter i).temporaryPath_ne_lockPath _ uuid)
    ((c.adapter i).temporaryPath_ne_path
      (by simp [JsonFileAdapter.path, JsonFileAdapter.backupPath]) uuid)

/-- To remove the stale temporary files keeps the lock held. -/
theorem retains_removeStaleTemps :
    Retains (c.surroundings i keep) (c.Held i F d₀) (c.adapter i).removeStaleTemps fun _ => True :=
  .handle (.bind (retains_look Held.stable rfl _) fun _ _ =>
    retains_removeTemps fun _ hn => yields_isStaleTemp (List.mem_filter.1 hn).2) fun _ => .throw _

/-- **A recovery is no replacement by a store**: it needs an adapter that may recover.  With
such an adapter nothing is claimed of the primary. -/
theorem retains_recoverBackup (backup : Json) :
    Retains (c.surroundings i keep) (c.Held i F d₀) ((c.adapter i).recoverBackup backup)
      fun _ => True := by
  cases hrecover : (c.adapter i).recoverFromBackup with
  | false =>
      unfold JsonFileAdapter.recoverBackup
      rw [hrecover]
      exact .throwThen _
  | true =>
      have hpath : c.Yields (c.adapter i).path :=
        ⟨c.lockPath_adapter i ▸ (c.adapter i).path_ne_lockPath, fun hnever => by
          rw [hnever i] at hrecover
          cases hrecover⟩
      unfold JsonFileAdapter.recoverBackup
      rw [hrecover]
      exact .bind (retains_installBytes hpath yields_temporaryPath _) fun _ _ => .pure trivial

/-- **To load, with or without recovery, keeps the lock held**: what is installed is a copy of
the backup, under the name of the primary, where that may be. -/
theorem retains_loadWithRecovery :
    Retains (c.surroundings i keep) (c.Held i F d₀) (c.adapter i).loadWithRecovery
      fun _ => True := by
  refine .bind (retains_readSnapshotAt Held.stable _ false).attempt fun primary _ => ?_
  have hbackup : Retains (c.surroundings i keep) (c.Held i F d₀)
      (Method.attempt ((c.adapter i).readSnapshotAt true)) fun _ => True :=
    (retains_readSnapshotAt Held.stable _ true).attempt.weaken fun _ _ => trivial
  rcases primary with error | _ | primary
  · refine .bind hbackup fun backup _ => ?_
    rcases backup with error' | _ | backup
    · exact .throw _
    · exact .throw _
    · exact retains_recoverBackup backup
  · refine .bind hbackup fun backup _ => ?_
    rcases backup with error' | _ | backup
    · exact .throw _
    · exact .pure trivial
    · exact retains_recoverBackup backup
  · exact .pure trivial

/-- The fields `load` sets leave the lock as it is. -/
theorem retains_loadLocked (hF : ∀ fields generation databaseId, F fields →
      F { fields with generation := generation, databaseId := databaseId }) :
    Retains (c.surroundings i keep) (c.Held i F d₀) (c.adapter i).loadLocked fun _ => True :=
  .bind retains_removeStaleTemps fun _ _ =>
    .bind (retains_assertLockOwnership Held.stable _ 0) fun _ _ =>
      .bind retains_loadWithRecovery fun _ _ => .bind (.update fun _ _ h =>
        ⟨hF _ _ _ h.fields, h.sane, h.mine, h.wf, h.within⟩) fun _ _ => .pure trivial

end

end Cluster

end NewtonDB
