/-
# Loading and storing beside others

`load` and `store` of one adapter of a cluster.  A `load` that returns leaves the adapter
its lock (`assures_load`).  A `store` works under the lock: the snapshot it reads from
the primary (`Cluster.Found`) is still there when it renames its new file over it, so the
primary is only ever replaced by its next snapshot, and what is acknowledged is in place
(`assures_store`).
-/

import NewtonDB.Node.AdapterSpecs
import NewtonDB.Node.ClusterLock

namespace NewtonDB

open Method (Assures EndsIn Retains)

namespace Cluster

variable {ι : Type} {c : Cluster ι} {i : ι} {fields f₀ : AdapterFields} {m : Machine ι}
  {keep : Bool} {F : AdapterFields → Prop} {d₀ : Directory JsString} {α β : Type}

/-! ### Reading -/

/-- What the primary held. -/
def Found (c : Cluster ι) (d₀ : Directory JsString) : Option Json → Prop
  | none => d₀.entries.get? c.path = none
  | some disk => ∃ file, d₀.entries.get? c.path = some file ∧
      c.platform.decodeSnapshot (d₀.nodes file).bytes = .ok disk

/-- A fault is not the error of a name that is missing. -/
theorem fault_ne_missing (fault : Fault) :
    (.system fault.code.code : Thrown) ≠ .system .missing := by
  simpa using (JsonFileAdapter.code_ne fault.code).1

/-- The primary is opened as it was.  Only the holder of the lock renames over the primary, and
that is this adapter. -/
theorem endsIn_open (hrecover : c.NeverRecovers) (site : CallSite) :
    EndsIn (c.surroundings i keep) (c.Held i F d₀) (fileCall site (.openFile c.path)) fun outcome =>
      (∀ file, outcome = .ok file → d₀.entries.get? c.path = some file) ∧
        (outcome = .error (.system .missing) → d₀.entries.get? c.path = none) := by
  refine assures_fileCall Held.stable fun fields m answer hm _ => ?_
  rw [m.reply_of_isQuiet rfl]
  refine ⟨.refl m, hm, ?_⟩
  have hentry := hm.within.entries c.path fun hn => hn.2 hrecover rfl
  have hreply : (m.reply i answer (.file site (.openFile c.path))).1 =
      ((FileCall.openFile c.path).answer answer.fault m.dir).1 := rfl
  rw [hreply, ← hentry]
  cases answer.fault with
  | some fault => exact ⟨(fun _ he => by cases he), fun he =>
      absurd (Except.error.inj he) (fault_ne_missing fault)⟩
  | none =>
      simp only [FileCall.answer, FileCall.perform, Directory.openFile]
      cases m.dir.entries.get? c.path with
      | none => exact ⟨(fun _ he => by cases he), fun _ => rfl⟩
      | some file =>
          dsimp only
          split_ifs with hlink
          · exact ⟨(fun _ he => by cases he), fun he => by simp [Except.mapError] at he⟩
          · exact ⟨fun _ he => congrArg some (Except.ok.inj he), fun he => by cases he⟩

/-- A file that was there is read as it was.  The bytes of a file that was there are never
written. -/
theorem endsIn_read {file : ℕ} (hfile : file < d₀.next) (site : CallSite) :
    EndsIn (c.surroundings i keep) (c.Held i F d₀) (fileCall site (.read file)) fun outcome =>
      (∀ bytes, outcome = .ok bytes → bytes = (d₀.nodes file).bytes) ∧
        outcome ≠ .error (.system .missing) := by
  refine assures_fileCall Held.stable fun fields m answer hm _ => ?_
  rw [m.reply_of_isQuiet rfl]
  refine ⟨.refl m, hm, ?_⟩
  have hreply : (m.reply i answer (.file site (.read file))).1 =
      ((FileCall.read file).answer answer.fault m.dir).1 := rfl
  rw [hreply, ← hm.within.bytes file hfile]
  cases answer.fault with
  | some fault => exact ⟨(fun _ he => by cases he), fun he =>
      absurd (Except.error.inj he) (fault_ne_missing fault)⟩
  | none =>
      simp only [FileCall.answer, FileCall.perform, Directory.read]
      split_ifs with hkind
      · exact ⟨(fun _ he => by cases he), by simp [Except.mapError]⟩
      · exact ⟨fun _ he => (Except.ok.inj he).symm, by simp [Except.mapError]⟩

/-- A call that only looks at an open file.  It throws no missing name, since the file
is open. -/
theorem endsIn_stat (site : CallSite) (handle : ℕ) :
    EndsIn (c.surroundings i keep) (c.Held i F d₀) (fileCall site (.stat handle)) fun outcome =>
      outcome ≠ .error (.system .missing) := by
  refine assures_fileCall Held.stable fun fields m answer hm _ => ?_
  rw [m.reply_of_isQuiet rfl]
  refine ⟨.refl m, hm, ?_⟩
  have hreply : (m.reply i answer (.file site (.stat handle))).1 =
      ((FileCall.stat handle).answer answer.fault m.dir).1 := rfl
  rw [hreply]
  cases answer.fault with
  | some fault => exact fun he => absurd (Except.error.inj he) (fault_ne_missing fault)
  | none => exact fun he => by cases he

/-- The checks of an open file, of which `file` is what the primary was.  What it returns is
decoded from the bytes the file had at the start. -/
theorem endsIn_readHandle {file : ℕ} (hfile : file < d₀.next) (backup : Bool) :
    EndsIn (c.surroundings i keep) (c.Held i F d₀) ((c.adapter i).readHandle backup file)
      fun outcome => (∀ disk, outcome = .ok disk →
          c.platform.decodeSnapshot (d₀.nodes file).bytes = .ok disk) ∧
        outcome ≠ .error (.system .missing) := by
  have hrefuse : ∀ {P : Json → Prop} (message : String) (rest : Unit → AdapterMethod Json),
      EndsIn (c.surroundings i keep) (c.Held i F d₀)
        (JsonFileAdapter.readHandle.refuse message >>= rest) fun outcome =>
          (∀ disk, outcome = .ok disk → P disk) ∧ outcome ≠ .error (.system .missing) := by
    intro P message rest
    refine EndsIn.bind (R := fun outcome => ∃ error, outcome = .error (.newton error))
      (EndsIn.throw ⟨_, rfl⟩) (fun _ h => by obtain ⟨_, h⟩ := h; cases h) fun error h => ?_
    obtain ⟨_, h⟩ := h
    cases h
    exact ⟨(fun _ he => by cases he), fun he => by cases he⟩
  have hpass : ∀ {γ : Type} {P : Json → Prop} (error : Thrown),
      (.error error : Except Thrown γ) ≠ .error (.system .missing) →
      (∀ disk, (.error error : Except Thrown Json) = .ok disk → P disk) ∧
        (.error error : Except Thrown Json) ≠ .error (.system .missing) :=
    fun error h => ⟨(fun _ he => by cases he), fun he => h (by cases he; rfl)⟩
  unfold JsonFileAdapter.readHandle
  refine EndsIn.bind (endsIn_stat _ file) (fun info _ => ?_) fun error h => hpass error h
  refine EndsIn.ite (fun _ => hrefuse _ _) fun _ => EndsIn.ite (fun _ => hrefuse _ _) fun _ => ?_
  refine EndsIn.ite (fun _ => hrefuse _ _) fun _ => ?_
  refine EndsIn.bind (endsIn_read hfile _) (fun bytes hbytes => ?_)
    fun error h => hpass error h.2
  refine EndsIn.ite (fun _ => hrefuse _ _) fun _ => ?_
  obtain rfl := hbytes.1 bytes rfl
  rw [c.platform_eq]
  cases c.platform.decodeSnapshot (d₀.nodes file).bytes with
  | ok snapshot => exact EndsIn.pure ⟨fun disk he => congrArg _ (Except.ok.inj he), fun he => by
      cases he⟩
  | error error => exact EndsIn.throw ⟨(fun _ he => by cases he), fun he => by cases he⟩

/-- **The primary is read as it was**, or it is not read.  Neither its name nor its bytes change
while the lock is held. -/
theorem retains_readPrimary (hrecover : c.NeverRecovers) (hwf : d₀.WF) :
    Retains (c.surroundings i keep) (c.Held i F d₀) ((c.adapter i).readSnapshotAt false)
      (c.Found d₀) := by
  unfold JsonFileAdapter.readSnapshotAt
  simp only [Bool.false_eq_true, if_false, c.path_adapter]
  show EndsIn _ _ _ fun outcome => ∀ found, outcome = .ok found → c.Found d₀ found
  refine EndsIn.attemptThen (endsIn_open hrecover _) ?_
  intro opened hopened
  cases opened with
  | error error => exact retains_readFailed error fun he => hopened.2 (he ▸ rfl)
  | ok file =>
      have hentry := hopened.1 file rfl
      refine EndsIn.attemptThen (endsIn_readHandle (hwf.bound _ _ hentry) false) ?_
      intro outcome hread
      refine EndsIn.attemptThen (retains_look (k := .close file) Held.stable rfl _) ?_
      intro _ _
      cases outcome with
      | ok snapshot => exact Retains.pure ⟨file, hentry, hread.1 snapshot rfl⟩
      | error error => exact retains_readFailed error fun he => absurd (he ▸ rfl) hread.2

/-! ### The checks -/

/-- **The checks of a store** let only the next snapshot of the same database pass.  Its
generation is one more, and its database is the one on disk, if there is one. -/
theorem precedes_of_found {disk : Option Json} {snapshot : SnapshotEnvelope} {expected : ℕ}
    (hfound : c.Found d₀ disk) (hexpected : expected = f₀.generation)
    (hgeneration : snapshot.generation = expected + 1)
    (hidentity : f₀.databaseId.any (· ≠ snapshot.databaseId) = false)
    (hdisk : (disk.map Json.generation).getD 0 = f₀.generation)
    (hsame : disk.any (fun disk => disk.databaseId ≠ f₀.databaseId.getD snapshot.databaseId) =
      false) : c.Precedes ((d₀.file? c.path).map FileNode.bytes) snapshot := by
  cases disk with
  | none =>
      have hnone : d₀.entries.get? c.path = none := hfound
      have hfile : (d₀.file? c.path).map FileNode.bytes = none := by simp [Directory.file?, hnone]
      rw [hfile]
      show snapshot.generation = 1
      have hzero : 0 = f₀.generation := hdisk
      omega
  | some disk =>
      obtain ⟨file, hentry, hdecode⟩ := hfound
      have hfile : (d₀.file? c.path).map FileNode.bytes = some (d₀.nodes file).bytes := by
        simp [Directory.file?, hentry]
      rw [hfile]
      have hgen : disk.generation = f₀.generation := hdisk
      refine ⟨disk, hdecode, by omega, ?_⟩
      have hid : disk.databaseId = f₀.databaseId.getD snapshot.databaseId := by simpa using hsame
      cases hdatabase : f₀.databaseId with
      | none => rw [hid, hdatabase, Option.getD_none]
      | some databaseId =>
          rw [hdatabase] at hidentity
          rw [hid, hdatabase, Option.getD_some]
          simpa using
            Eq.symm (a := databaseId) (b := snapshot.databaseId) (by simpa using hidentity)

/-- **The checks of a store** keep the lock held, and where they pass without recovery the
snapshot is the next one after what the primary holds. -/
theorem retains_checkStore (hwf : d₀.WF) (snapshot : SnapshotEnvelope) (expected : ℕ) :
    Retains (c.surroundings i keep) (c.Held i (· = f₀) d₀)
      ((c.adapter i).checkStore snapshot expected) fun _ =>
        c.NeverRecovers → c.Precedes ((d₀.file? c.path).map FileNode.bytes) snapshot := by
  have hready : Retains (c.surroundings i keep) (c.Held i (· = f₀) d₀) JsonFileAdapter.assertReady
      fun _ => True := by
    refine .bind .read fun fields _ => .ite (fun _ => .throwThen _) fun _ => ?_
    exact .ite (fun _ => .throw _) fun _ => .pure trivial
  refine .bind hready fun _ _ => .bind (retains_assertLockOwnership Held.stable _ 0) fun _ _ => ?_
  refine .bind (.readOf (P := fun fields => fields = f₀) fun fields m hm => hm.fields)
    fun fields hfields => ?_
  subst hfields
  refine .ite (fun _ => .throwThen _) fun hexpected => .ite (fun _ => .throwThen _) fun hid => ?_
  have hread : Retains (c.surroundings i keep) (c.Held i (· = fields) d₀)
      ((c.adapter i).readSnapshotAt false) fun disk => c.NeverRecovers → c.Found d₀ disk := by
    by_cases hrecover : c.NeverRecovers
    · exact (retains_readPrimary hrecover hwf).weaken fun _ h _ => h
    · exact (retains_readSnapshotAt Held.stable _ false).weaken fun _ _ h => absurd h hrecover
  refine .bind hread fun disk hfound => .ite (fun _ => .throwThen _) fun hdisk => ?_
  refine .ite (fun _ => .throwThen _) fun _ => .pure fun hrecover => ?_
  simp only [ne_eq, not_or, not_not] at hexpected hdisk
  exact precedes_of_found (hfound hrecover) hexpected.1 hexpected.2 (by simpa using hid) hdisk.1
    (by simpa using hdisk.2)

/-! ### The replacement -/

/-- The new file was created. -/
structure Placed (c : Cluster ι) (i : ι) (F : AdapterFields → Prop) (d₀ : Directory JsString)
    (temporary : JsString) (handle : ℕ) (fields : AdapterFields) (m : Machine ι) : Prop where
  held : c.Held i F d₀ fields m
  bound : d₀.next ≤ handle
  entry : m.dir.entries.get? temporary = some handle

/-- The new file was written. -/
structure Written (c : Cluster ι) (i : ι) (F : AdapterFields → Prop) (d₀ : Directory JsString)
    (temporary : JsString) (bytes : List UInt8) (fields : AdapterFields) (m : Machine ι) :
    Prop where
  held : c.Held i F d₀ fields m
  file : (m.dir.file? temporary).map FileNode.bytes = some bytes

/-- The new file is in place. -/
structure Settled (c : Cluster ι) (i : ι) (F : AdapterFields → Prop) (bytes : List UInt8)
    (fields : AdapterFields) (m : Machine ι) : Prop where
  locked : c.Locked i F fields m
  primary : c.NeverRecovers → c.primary m = some bytes

variable {temporary : JsString} {handle : ℕ} {bytes : List UInt8}

/-- What the others do leaves the new file where it was created. -/
theorem Placed.stable : c.Stable i (c.Placed i F d₀ temporary handle) := fun _ _ _ h hm =>
  ⟨Held.stable _ _ _ h.held hm, h.bound, (hm.mine h.held.mine).1 ▸ h.entry⟩

/-- What the others do leaves the new file as it was written. -/
theorem Written.stable : c.Stable i (c.Written i F d₀ temporary bytes) := fun _ _ _ h hm =>
  ⟨Held.stable _ _ _ h.held hm, (hm.mine h.held.mine).1 ▸ h.file⟩

/-- What the others do leaves the primary as the store left it. -/
theorem Settled.stable : c.Stable i (c.Settled i F bytes) := fun _ _ _ h hm =>
  ⟨Locked.stable _ _ _ h.locked hm, fun hrecover => by
    rw [Cluster.primary, (hm.mine h.locked.mine).1]
    exact h.primary hrecover⟩

/-- The backup is written, and the new file is created.  The backup comes first, and a failure
of it ends the store before the new file is there. -/
theorem assures_openTemporary (ht : c.Yields temporary) (disk : Option Json) :
    Assures (c.surroundings i keep) (c.Held i F d₀) ((c.adapter i).openTemporary temporary disk)
      fun outcome fields m => c.Held i F d₀ fields m ∧
        ∀ handle, outcome = .ok handle → c.Placed i F d₀ temporary handle fields m := by
  have hcreate : Assures (c.surroundings i keep) (c.Held i F d₀)
      (fileCall (.temporary false .create) (.create temporary)) fun outcome fields m =>
        c.Held i F d₀ fields m ∧
          ∀ handle, outcome = .ok handle → c.Placed i F d₀ temporary handle fields m := by
    refine assures_fileCall Held.stable fun fields m answer hm _ => ?_
    have hleft : c.Guarantees i keep m _ ∧ c.Held i F d₀ fields _ :=
      hm.reply (k := .create temporary) ht answer (.temporary false .create)
    refine ⟨hleft.1, hleft.2, fun handle he => ?_⟩
    rcases m.reply_create (i := i) answer (.temporary false .create) temporary with
      ⟨code, hreply⟩ | ⟨-, hreply⟩
    · rw [hreply] at he
      cases he
    · rw [hreply] at he hleft ⊢
      obtain rfl := Except.ok.inj he
      exact ⟨hleft.2, hm.within.next, OrderedMap.get?_set_self ..⟩
  have hrest : Assures (c.surroundings i keep) (c.Held i F d₀) (do
      injectFault .beforeTempOpen
      fileCall (.temporary false .create) (.create temporary)) fun outcome fields m =>
        c.Held i F d₀ fields m ∧
          ∀ handle, outcome = .ok handle → c.Placed i F d₀ temporary handle fields m :=
    Assures.bind (retains_injectFault Held.stable _) (fun _ => Assures.consequence hcreate
      (fun _ _ h => h.1) fun _ _ _ h => h) fun _ _ _ h => ⟨h.1, fun _ he => by cases he⟩
  cases disk with
  | none => exact hrest
  | some disk =>
      refine Assures.bind (retains_installBytes yields_backupPath yields_temporaryBackup _)
        (fun _ => ?_) fun _ _ _ h => ⟨h.1, fun _ he => by cases he⟩
      exact Assures.consequence hrest (fun _ _ h => h.1) fun _ _ _ h => h

/-- The new file is written.  The file is written once and belongs to this adapter, so its bytes
are those of the snapshot. -/
theorem assures_writeTemporary :
    Assures (c.surroundings i keep) (c.Placed i F d₀ temporary handle)
      (JsonFileAdapter.writeTemporary handle bytes) fun outcome fields m =>
        c.Held i F d₀ fields m ∧
          (outcome = .ok () → c.Written i F d₀ temporary bytes fields m) := by
  have hwrite : Assures (c.surroundings i keep) (c.Placed i F d₀ temporary handle)
      (fileCall (.temporary false .write) (.write handle bytes)) fun outcome fields m =>
        c.Held i F d₀ fields m ∧
          (outcome = .ok () → c.Written i F d₀ temporary bytes fields m) := by
    refine assures_fileCall Placed.stable fun fields m answer hm _ => ?_
    have hleft : c.Guarantees i keep m _ ∧ c.Held i F d₀ fields _ :=
      hm.held.reply (k := .write handle bytes) hm.bound answer (.temporary false .write)
    refine ⟨hleft.1, hleft.2, fun he => ⟨hleft.2, ?_⟩⟩
    have hdir : (m.reply i answer (.file (.temporary false .write) (.write handle bytes))).2.dir =
        m.dir.write handle bytes := by
      cases hf : answer.fault with
      | none => rw [Machine.dir_reply, hf]; rfl
      | some fault => simp [Machine.reply, hf, FileCall.answer, Except.mapError] at he
    have hentry : (m.dir.write handle bytes).entries.get? temporary = some handle := hm.entry
    rw [hdir, Directory.file?, hentry, Option.map_some, Option.map_some,
      Directory.node_write_self]
  have hafter : Assures (c.surroundings i keep) (c.Written i F d₀ temporary bytes) (do
      injectFault .afterWrite
      fileCall (.temporary false .sync) (.sync handle)
      injectFault .afterFileSync
      fileCall (.temporary false .close) (.close handle)) fun outcome fields m =>
        c.Held i F d₀ fields m ∧
          (outcome = .ok () → c.Written i F d₀ temporary bytes fields m) :=
    Assures.consequence (Retains.bind (retains_injectFault Written.stable _) fun _ _ =>
      .bind (retains_look Written.stable rfl _) fun _ _ =>
        .bind (retains_injectFault Written.stable _) fun _ _ => retains_look Written.stable rfl _)
      (fun _ _ h => h) fun _ _ _ h => ⟨h.1.held, fun _ => h.1⟩
  refine Assures.bind (retains_injectFault Placed.stable _) (fun _ => ?_) fun _ _ _ h =>
    ⟨h.1.held, fun he => by cases he⟩
  refine Assures.consequence (I := c.Placed i F d₀ temporary handle) ?_ (fun _ _ h => h.1)
    fun _ _ _ h => h
  refine Assures.bind hwrite (fun _ => ?_) fun _ _ _ h => ⟨h.1, fun he => by cases he⟩
  exact Assures.consequence hafter (fun _ _ h => h.2 rfl) fun _ _ _ h => h

/-- **The primary is replaced by its next snapshot**, or it stays.  This is the one call that
changes what the primary's name leads to. -/
theorem assures_rename {snapshot : SnapshotEnvelope} (ht : c.Yields temporary)
    (hprecedes : c.NeverRecovers →
      c.Precedes ((d₀.file? c.path).map FileNode.bytes) snapshot)
    (hbytes : bytes = c.platform.serializeSnapshot snapshot.json) :
    Assures (c.surroundings i keep) (c.Written i F d₀ temporary bytes)
      (fileCall (.temporary false .rename) (.rename temporary c.path)) fun outcome fields m =>
        c.Locked i F fields m ∧ (outcome = .ok () → c.Settled i F bytes fields m) := by
  refine assures_fileCall Written.stable fun fields m answer hm _ => ?_
  rcases m.reply_rename (i := i) answer (.temporary false .rename) temporary c.path with
    ⟨code, hreply⟩ | ⟨-, hplaced⟩
  · rw [hreply]
    exact ⟨.refl m, hm.held.locked, fun he => by cases he⟩
  · set request : AdapterRequest (Except ErrorCode Unit) :=
      .file (.temporary false .rename) (.rename temporary c.path)
    have hwithin : m.dir.Within (fun name => name = temporary ∨ name = c.path)
        (m.reply i answer request).2.dir :=
      (Directory.Within.refl (fun name => name = temporary ∨ name = c.path) m.dir).answer
        (c := .rename temporary c.path) ⟨.inl rfl, .inr rfl⟩ answer.fault
    have hlock : ¬(c.lockPath = temporary ∨ c.lockPath = c.path) := by
      rintro (he | he)
      · exact ht.1 he.symm
      · exact c.path_ne_lockPath he.symm
    have hmine : c.Mine i (m.reply i answer request).2 := by
      obtain ⟨file, hentry, hauthor⟩ := hm.held.mine.entry
      exact ⟨Machine.parent_reply hm.held.mine.parent answer _, file,
        (hwithin.entries _ hlock).trans hentry, hauthor⟩
    have hlocked : c.Locked i F fields (m.reply i answer request).2 :=
      ⟨hm.held.fields, hm.held.sane.reply answer _, hmine⟩
    have hprimary : c.primary (m.reply i answer request).2 = some bytes := hplaced.trans hm.file
    refine ⟨hm.held.mine.guarantees (fun hs => hs.reply answer _)
      (fun hp => Machine.parent_reply hp answer _) (fun hrecover => .inr ?_) fun _ => hmine,
      hlocked, fun _ => ⟨hlocked, fun _ => hprimary⟩⟩
    rw [hprimary, hm.held.primary_eq hrecover]
    exact ⟨snapshot, congrArg some hbytes, hprecedes hrecover⟩

/-- The third part of the replacement.  A failure after the rename is thrown although the new
snapshot is in place. -/
theorem assures_replacePrimary {snapshot : SnapshotEnvelope} (ht : c.Yields temporary)
    (hprecedes : c.NeverRecovers →
      c.Precedes ((d₀.file? c.path).map FileNode.bytes) snapshot)
    (hbytes : bytes = c.platform.serializeSnapshot snapshot.json) :
    Assures (c.surroundings i keep) (c.Written i F d₀ temporary bytes)
      ((c.adapter i).replacePrimary temporary) fun outcome fields m =>
        c.Locked i F fields m ∧ (outcome = .ok () → c.Settled i F bytes fields m) := by
  have hafter : Assures (c.surroundings i keep) (c.Settled i F bytes) (do
      injectFault .afterRename
      JsonFileAdapter.syncDirectory false
      injectFault .afterDirectorySync) fun outcome fields m =>
        c.Locked i F fields m ∧ (outcome = .ok () → c.Settled i F bytes fields m) :=
    Assures.consequence (Retains.bind (retains_injectFault Settled.stable _) fun _ _ =>
      .bind (retains_syncDirectory Settled.stable false) fun _ _ =>
        retains_injectFault Settled.stable _)
      (fun _ _ h => h) fun _ _ _ h => ⟨h.1.locked, fun _ => h.1⟩
  unfold JsonFileAdapter.replacePrimary
  rw [c.path_adapter]
  refine Assures.bind (retains_injectFault Written.stable _) (fun _ => ?_) fun _ _ _ h =>
    ⟨h.1.held.locked, fun he => by cases he⟩
  refine Assures.consequence (I := c.Written i F d₀ temporary bytes) ?_ (fun _ _ h => h.1)
    fun _ _ _ h => h
  refine Assures.bind (retains_assertLockOwnership Written.stable _ 1) (fun _ => ?_) fun _ _ _ h =>
    ⟨h.1.held.locked, fun he => by cases he⟩
  refine Assures.consequence (I := c.Written i F d₀ temporary bytes) ?_ (fun _ _ h => h.1)
    fun _ _ _ h => h
  refine Assures.bind (assures_rename ht hprecedes hbytes) (fun _ => ?_) fun _ _ _ h =>
    ⟨h.1, fun he => by cases he⟩
  exact Assures.consequence hafter (fun _ _ h => h.2 rfl) fun _ _ _ h => h

/-- A store that failed discards its temporary file and keeps the lock.  Whether the primary was
replaced already is not known to it. -/
theorem retains_storeFailed (ht : c.Yields temporary) (handle : Option ℕ) (error : Thrown)
    {P : Unit → Prop} : Retains (c.surroundings i keep) (c.Locked i F)
      (JsonFileAdapter.storeFailed temporary handle error) P := by
  refine .bind (retains_locked fun d₀ => retains_discardTemporary false ht handle) fun _ _ => ?_
  split
  · exact .throw _
  · exact .throw _
  · exact .throw _

/-- **The replacement in a store** leaves the new snapshot in place when it returns.  Its three
parts hand on one assertion each: held, placed, written. -/
theorem assures_replaceSnapshot {snapshot : SnapshotEnvelope} (ht : c.Yields temporary)
    (hprecedes : c.NeverRecovers →
      c.Precedes ((d₀.file? c.path).map FileNode.bytes) snapshot)
    (hbytes : bytes = c.platform.serializeSnapshot snapshot.json) (disk : Option Json) :
    Assures (c.surroundings i keep) (c.Held i F d₀)
      ((c.adapter i).replaceSnapshot temporary disk bytes) fun outcome fields m =>
        c.Locked i F fields m ∧ (outcome = .ok () → c.Settled i F bytes fields m) := by
  have hfailed : ∀ (handle : Option ℕ) (error : Thrown) {I : AdapterFields → Machine ι → Prop},
      (∀ fields m, I fields m → c.Locked i F fields m) →
      Assures (c.surroundings i keep) I (JsonFileAdapter.storeFailed temporary handle error)
        fun outcome fields m =>
          c.Locked i F fields m ∧ (outcome = .ok () → c.Settled i F bytes fields m) :=
    fun handle error I hI => Assures.consequence
      (retains_storeFailed ht handle error (P := fun _ => False)) hI
      fun _ _ _ h => ⟨h.1, fun he => (h.2 () he).elim⟩
  refine Assures.attemptThen (assures_openTemporary ht disk) fun opened => ?_
  cases opened with
  | error error => exact hfailed none error fun _ _ h => h.1.locked
  | ok handle =>
      refine Assures.consequence (I := c.Placed i F d₀ temporary handle) ?_
        (fun _ _ h => h.2 handle rfl) fun _ _ _ h => h
      refine Assures.attemptThen assures_writeTemporary fun written => ?_
      cases written with
      | error error => exact hfailed (some handle) error fun _ _ h => h.1.locked
      | ok u =>
          refine Assures.consequence (I := c.Written i F d₀ temporary bytes) ?_
            (fun _ _ h => h.2 rfl) fun _ _ _ h => h
          refine Assures.attemptThen (assures_replacePrimary ht hprecedes hbytes) fun replaced => ?_
          cases replaced with
          | error error => exact hfailed none error fun _ _ h => h.1
          | ok u => exact Assures.pure fun _ _ h => ⟨h.1, fun _ => h.2 rfl⟩

/-- What `store` leaves. -/
structure StoreEnds (c : Cluster ι) (i : ι) (snapshot : SnapshotEnvelope)
    (outcome : Except Thrown StoreAcknowledgement) (fields : AdapterFields) (m : Machine ι) :
    Prop where
  tidy : c.Tidy i fields m
  lock : ∀ acknowledgement, outcome = .ok acknowledgement → fields.lock.isSome = true
  primary : ∀ acknowledgement, outcome = .ok acknowledgement → c.NeverRecovers →
    c.primary m = some (c.platform.serializeSnapshot snapshot.json)

/-- An adapter without a lock stores nothing.  The check that it is ready comes first. -/
theorem retains_checkStore_of_lock (hl : f₀.lock.isSome = false) (snapshot : SnapshotEnvelope)
    (expected : ℕ) : Retains (c.surroundings i keep) (fun fields m => fields = f₀ ∧ c.Tidy i fields m)
      ((c.adapter i).checkStore snapshot expected) fun _ => False := by
  refine .bind (P := fun _ => False) ?_ fun _ h => h.elim
  refine .bind (.readOf (P := fun fields => fields = f₀) fun fields m hm => hm.1)
    fun fields hfields => .ite (fun _ => .throwThen _) fun _ => .ite (fun _ => .throw _) fun h => ?_
  obtain rfl := hfields
  have hnone : fields.lock = none := by simpa using hl
  simp [hnone] at h

/-- **What a store acknowledges is in place**, and the adapter keeps its lock.  The checks, the
replacement and the new generation in the fields follow one another. -/
theorem assures_store (snapshot : SnapshotEnvelope) (expected : ℕ) :
    Assures (c.surroundings i true) (c.Tidy i) ((c.adapter i).store snapshot expected)
      (c.StoreEnds i snapshot) := by
  intro f m htidy
  cases hl : f.lock.isSome with
  | false =>
      have hcheck : Assures (c.surroundings i true) (fun fields m => fields = f ∧ c.Tidy i fields m)
          ((c.adapter i).store snapshot expected) (c.StoreEnds i snapshot) :=
        Assures.bind (retains_checkStore_of_lock hl snapshot expected)
          (fun disk => Assures.consequence (I := fun _ _ => False) (P := fun _ _ _ => False)
            (fun _ _ h => h.elim) (fun _ _ h => h.2 disk rfl) fun _ _ _ h => h.elim)
          fun _ _ _ h => ⟨h.1.2, (fun _ he => by cases he), fun _ he => by cases he⟩
      exact hcheck f m ⟨rfl, htidy⟩
  | true =>
      have hheld : c.Held i (· = f) m.dir f m := .start rfl htidy.sane (htidy.mine_of_lock hl)
      have hend : ∀ (error : Thrown) fields m', c.Locked i (· = f) fields m' →
          c.StoreEnds i snapshot (.error error) fields m' := by
        rintro error _ m' ⟨rfl, hsane, hmine⟩
        exact ⟨⟨hsane, htidy.fresh, htidy.lock, fun _ _ => hmine⟩, (fun _ he => by cases he),
          fun _ he => by cases he⟩
      have hstore : Assures (c.surroundings i true) (c.Held i (· = f) m.dir)
          ((c.adapter i).store snapshot expected) (c.StoreEnds i snapshot) := by
        refine Assures.bind (retains_checkStore htidy.sane.wf snapshot expected) (fun disk => ?_)
          fun error fields m' h => hend error fields m' h.1.locked
        refine Assures.consequence (I := fun fields m' => c.Held i (· = f) m.dir fields m' ∧
          (c.NeverRecovers → c.Precedes ((m.dir.file? c.path).map FileNode.bytes) snapshot)) ?_
          (fun _ _ h => ⟨h.1, h.2 disk rfl⟩) fun _ _ _ h => h
        intro f' m' hm'
        obtain ⟨hheld', hprecedes⟩ := hm'
        refine (Assures.bind (retains_randomUUID Held.stable _) (fun uuid => ?_)
          fun error fields m' h => hend error fields m' h.1.locked) f' m' hheld'
        refine Assures.consequence (I := c.Held i (· = f) m.dir) ?_ (fun _ _ h => h.1)
          fun _ _ _ h => h
        refine Assures.bind (assures_replaceSnapshot (yields_temporaryPath uuid) hprecedes
          (by rw [c.platform_eq]) disk) (fun _ => ?_) fun error fields m' h =>
            hend error fields m' h.1
        refine Assures.updateThen (J := fun fields m' => c.Tidy i fields m' ∧
          fields.lock.isSome = true ∧ (c.NeverRecovers →
            c.primary m' = some (c.platform.serializeSnapshot snapshot.json)))
          (fun fields m' h => ?_)
          (Assures.pure fun _ _ h => ⟨h.1, fun _ _ => h.2.1, fun _ _ => h.2.2⟩)
        obtain ⟨⟨rfl, hsane, hmine⟩, hprimary⟩ := h.2 rfl
        refine ⟨⟨hsane, htidy.fresh, htidy.lock, fun _ _ => hmine⟩, hl, fun hrecover => ?_⟩
        rw [hprimary hrecover, c.platform_eq]
      exact hstore f m hheld

end Cluster

end NewtonDB
