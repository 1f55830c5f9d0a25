/-
# What a store leaves

`store` checks the adapter and the file on disk, writes the backup and a new file, and
renames the new file over the primary.  Up to the rename, an error leaves the adapter's
fields and every name but the backup and the temporary ones as they were
(`exec_store_early`); from the rename on the new file is in place, whether `store`
returns or throws (`exec_store_renamed`).
-/

import NewtonDB.Node.Frames
import NewtonDB.Node.TemporaryNames

namespace NewtonDB

open Method (exec Preserves)

namespace JsonFileAdapter

variable {a : JsonFileAdapter} {host : Host} {fields : AdapterFields} {d : Directory JsString}
  {snapshot : SnapshotEnvelope} {expected : ℕ}

/-! ### The checks -/

/-- The lock file bears the adapter's token. -/
def OwnsLock (a : JsonFileAdapter) (fields : AdapterFields) (d : Directory JsString) : Prop :=
  ∃ token, fields.lockToken = some token ∧
    (a.platform.parseLock (((d.readFile a.lockPath).toOption.map utf8Text).getD [])).map
      LockRecord.token = some token

/-- Where nothing fails, the lock file bears the token exactly when the adapter owns the
lock. -/
theorem owns_iff {check : ℕ} (h : host.fault (.owner check) = none) :
    a.Owns host d check fields ↔ a.OwnsLock fields d := by
  rw [Owns, OwnsLock, Host.textAt, h]
  rfl

/-- What there is to read under the name of the primary. -/
def Finds (a : JsonFileAdapter) (d : Directory JsString) : Option Json → Prop
  | none => d.entries.get? a.path = none
  | some disk => ∃ node, d.file? a.path = some node ∧ a.IsReadable node ∧
      a.platform.decodeSnapshot node.bytes = .ok disk

/-- The checks of `store` pass, and `disk` is the snapshot on disk. -/
structure Checked (a : JsonFileAdapter) (fields : AdapterFields) (d : Directory JsString)
    (snapshot : SnapshotEnvelope) (expected : ℕ) (disk : Option Json) : Prop where
  isOpen : fields.closed = false
  loaded : fields.loaded = true
  lock : fields.lock.isNone = false
  owned : a.OwnsLock fields d
  current : expected = fields.generation
  generation : snapshot.generation = expected + 1
  identity : fields.databaseId.any (· ≠ snapshot.databaseId) = false
  finds : a.Finds d disk
  diskGeneration : (disk.map Json.generation).getD 0 = fields.generation
  diskIdentity :
    disk.any (fun disk => disk.databaseId ≠ fields.databaseId.getD snapshot.databaseId) = false
  size : (a.platform.serializeSnapshot snapshot.json).length ≤ a.maxBytes

/-- **A store is ready** when the adapter is loaded, not closed and has a lock; the check
changes nothing. -/
theorem exec_assertReady (host : Host) (fields : AdapterFields) (d : Directory JsString) :
    ∃ outcome,
    exec host.handler assertReady fields d = (outcome, fields, d) ∧
    (outcome = .ok () ↔
      fields.closed = false ∧ fields.loaded = true ∧ fields.lock.isNone = false) := by
  have hget : exec host.handler (get : AdapterMethod AdapterFields) fields d =
      (.ok fields, fields, d) := rfl
  rw [assertReady, Method.exec_bind_ok hget]
  cases hc : fields.closed with
  | true =>
      rw [if_pos rfl, Method.exec_bind_error (Method.exec_throw _)]
      exact ⟨_, rfl, by simp⟩
  | false =>
      rw [if_neg (by simp)]
      by_cases h : (!fields.loaded || fields.lock.isNone) = true
      · rw [if_pos h]
        exact ⟨_, rfl, ⟨fun he => (by cases he), fun hr => by simp [hr.2.1, hr.2.2] at h⟩⟩
      · rw [if_neg h]
        exact ⟨_, rfl, by simpa [Option.isSome_iff_ne_none] using h⟩

variable (a fields d snapshot expected) in
/-- **What the checks of `store` find.**  They change nothing, and pass exactly when the lock,
the generations, the identity and the file are as they should be. -/
theorem exec_checkStore (howner : host.fault (.owner 0) = none) (hread : Readable host false) :
    ∃ outcome, exec host.handler (a.checkStore snapshot expected) fields d = (outcome, fields, d) ∧
      ∀ disk, outcome = .ok disk ↔ a.Checked fields d snapshot expected disk := by
  have hget : exec host.handler (get : AdapterMethod AdapterFields) fields d =
      (.ok fields, fields, d) := rfl
  obtain ⟨ready, hready, hreadyok⟩ := exec_assertReady host fields d
  obtain ⟨owned, howned, hownedok⟩ := exec_assertLockOwnership a host d 0 fields
  obtain ⟨found, hfound, hsome, hnone⟩ := exec_readSnapshotAt a host d false
  have hfinds : ∀ disk, found = .ok disk ↔ a.Finds d disk := fun disk => by
    cases disk with
    | none => exact hnone.trans (and_iff_right hread.opens)
    | some disk => exact (hsome disk).trans (and_iff_right hread)
  have herror : ∀ {thrown : Thrown}, (∀ disk, ¬a.Checked fields d snapshot expected disk) →
      ∀ disk, (.error thrown : Except Thrown (Option Json)) = .ok disk ↔
        a.Checked fields d snapshot expected disk := fun h disk =>
    ⟨fun he => (by cases he), fun hc => absurd hc (h disk)⟩
  rw [checkStore]
  cases ready with
  | error thrown =>
      refine ⟨_, Method.exec_bind_error hready _, herror fun disk hc => ?_⟩
      cases hreadyok.2 ⟨hc.isOpen, hc.loaded, hc.lock⟩
  | ok _ =>
  rw [Method.exec_bind_ok hready]
  cases owned with
  | error thrown =>
      refine ⟨_, Method.exec_bind_error howned _, herror fun disk hc => ?_⟩
      cases hownedok.2 ((owns_iff howner).2 hc.owned)
  | ok _ =>
  rw [Method.exec_bind_ok howned, Method.exec_bind_ok hget]
  by_cases hgeneration : expected ≠ fields.generation ∨ snapshot.generation ≠ expected + 1
  · rw [if_pos hgeneration]
    exact ⟨_, rfl, herror fun disk hc => hgeneration.elim (· hc.current) (· hc.generation)⟩
  rw [if_neg hgeneration]
  by_cases hidentity : fields.databaseId.any (· ≠ snapshot.databaseId) = true
  · rw [if_pos hidentity]
    exact ⟨_, rfl, herror fun disk hc => by cases hc.identity.symm.trans hidentity⟩
  rw [if_neg hidentity]
  cases found with
  | error thrown =>
      refine ⟨_, Method.exec_bind_error (hfound fields) _, herror fun disk hc => ?_⟩
      cases (hfinds disk).2 hc.finds
  | ok disk =>
  rw [Method.exec_bind_ok (hfound fields)]
  have hsame : ∀ {disk'}, a.Checked fields d snapshot expected disk' → disk' = disk :=
    fun hc => (Except.ok.inj ((hfinds _).2 hc.finds)).symm
  by_cases hdisk : (disk.map Json.generation).getD 0 ≠ fields.generation ∨
      disk.any (fun disk => disk.databaseId ≠ fields.databaseId.getD snapshot.databaseId) = true
  · rw [if_pos hdisk]
    refine ⟨_, rfl, herror fun disk' hc => ?_⟩
    obtain rfl := hsame hc
    exact hdisk.elim (· hc.diskGeneration) fun h => by cases hc.diskIdentity.symm.trans h
  rw [if_neg hdisk]
  by_cases hsize : a.maxBytes < (a.platform.serializeSnapshot snapshot.json).length
  · rw [if_pos hsize]
    exact ⟨_, rfl, herror fun disk' hc => absurd hc.size hsize.not_ge⟩
  rw [if_neg hsize]
  refine ⟨.ok disk, rfl, fun disk' => ⟨fun he => ?_, fun hc => by rw [hsame hc]⟩⟩
  obtain rfl := Except.ok.inj he
  obtain ⟨hopen, hloaded, hlock⟩ := hreadyok.1 rfl
  rw [not_or, not_not, not_not] at hgeneration
  rw [not_or, not_not] at hdisk
  exact ⟨hopen, hloaded, hlock, (owns_iff howner).1 (hownedok.1 rfl), hgeneration.1,
    hgeneration.2, Bool.eq_false_iff.2 hidentity, (hfinds disk).1 rfl, hdisk.1,
    Bool.eq_false_iff.2 hdisk.2, not_lt.1 hsize⟩

/-! ### Before the rename -/

/-- The names a store changes before the rename. -/
def StoreNames (a : JsonFileAdapter) (host : Host) (name : JsString) : Prop :=
  name = a.temporaryPath a.path (host.uuid (.temporary false)) ∨
    name = a.temporaryPath a.backupPath (host.uuid (.temporary true)) ∨ name = a.backupPath

/-- No fault is injected before the rename, and the backup is made durable. -/
structure Reaches (host : Host) (disk : Option Json) : Prop where
  synced : disk.isSome = true → host.syncsDirectory true = true
  beforeTempOpen : host.fault (.inject .beforeTempOpen) = none
  afterTempOpen : host.fault (.inject .afterTempOpen) = none
  afterWrite : host.fault (.inject .afterWrite) = none
  afterFileSync : host.fault (.inject .afterFileSync) = none
  afterTempClose : host.fault (.inject .afterTempClose) = none

variable {F : AdapterFields → Prop} {d₀ : Directory JsString}

/-- **To open the temporary file** changes no name but those of a store, and gives a new file.
Where there is a primary, its backup was installed and the directory synced. -/
theorem keeps_openTemporary (disk : Option Json) :
    Preserves host.handler (KeepsTo F (a.StoreNames host) d₀)
      (a.openTemporary (a.temporaryPath a.path (host.uuid (.temporary false))) disk) fun handle =>
      d₀.next ≤ handle ∧ (disk.isSome = true → host.syncsDirectory true = true) ∧
        host.fault (.inject .beforeTempOpen) = none := by
  have hbackup : ∀ bytes, Preserves host.handler (KeepsTo F (a.StoreNames host) d₀)
      (a.installBytes a.backupPath bytes) fun _ => host.syncsDirectory true = true := fun bytes =>
    keeps_installBytes (.inr (.inr rfl)) (.inr (.inl rfl)) bytes
  have hopen : (disk.isSome = true → host.syncsDirectory true = true) →
      Preserves host.handler (KeepsTo F (a.StoreNames host) d₀) (do
        injectFault .beforeTempOpen
        fileCall (.temporary false .create)
          (.create (a.temporaryPath a.path (host.uuid (.temporary false))))) fun handle =>
        d₀.next ≤ handle ∧ (disk.isSome = true → host.syncsDirectory true = true) ∧
          host.fault (.inject .beforeTempOpen) = none := fun hdisk =>
    .bind (keeps_injectFault _) fun _ hinject =>
      (keeps_create (.inl rfl) _).weaken fun _ hhandle => ⟨hhandle, hdisk, hinject⟩
  cases disk with
  | none => exact hopen fun h => by cases h
  | some disk => exact .bind (hbackup _) fun _ hsync => hopen fun _ => hsync

/-- To write the temporary file changes no name, and ends without an error only when no fault
point stopped it. -/
theorem keeps_writeTemporary {handle : ℕ} (h : d₀.next ≤ handle) (bytes : List UInt8) :
    Preserves host.handler (KeepsTo F (a.StoreNames host) d₀) (writeTemporary handle bytes)
      fun _ => host.fault (.inject .afterTempOpen) = none ∧
        host.fault (.inject .afterWrite) = none ∧ host.fault (.inject .afterFileSync) = none :=
  .bind (keeps_injectFault _) fun _ hopen => .bind (keeps_write h _ bytes) fun _ _ =>
    .bind (keeps_injectFault _) fun _ hwrite =>
      .bind (keeps_fileCall (c := .sync handle) trivial _) fun _ _ =>
        .bind (keeps_injectFault _) fun _ hsync =>
          (keeps_fileCall (c := .close handle) trivial _).weaken fun _ _ => ⟨hopen, hwrite, hsync⟩

/-- A store that failed changes no name but those of a store.  It discards the temporary file,
and throws. -/
theorem keeps_storeFailed (handle : Option ℕ) (error : Thrown) {P : Unit → Prop} :
    Preserves host.handler (KeepsTo F (a.StoreNames host) d₀)
      (storeFailed (a.temporaryPath a.path (host.uuid (.temporary false))) handle error) P := by
  refine .bind (keeps_discardTemporary false (.inl rfl) handle) fun _ _ => ?_
  split
  · exact .throw _
  · exact .throw _
  · exact .throw _

/-- A store that does not reach its rename changes no name but those of a store, and does
not end without an error. -/
theorem keeps_replaceSnapshot {disk : Option Json} (h : ¬Reaches host disk) (bytes : List UInt8) :
    Preserves host.handler (KeepsTo F (a.StoreNames host) d₀)
      (a.replaceSnapshot (a.temporaryPath a.path (host.uuid (.temporary false))) disk bytes)
      fun _ => False := by
  refine .bind (keeps_openTemporary disk).attempt fun opened hopened => ?_
  cases opened with
  | error error => exact keeps_storeFailed none error
  | ok handle =>
  obtain ⟨hhandle, hsync, hbefore⟩ := hopened handle rfl
  refine .bind (keeps_writeTemporary hhandle bytes).attempt fun written hwritten => ?_
  cases written with
  | error error => exact keeps_storeFailed (some handle) error
  | ok _ =>
  obtain ⟨hopen, hwrite, hfile⟩ := hwritten () rfl
  have hreplace : Preserves host.handler (KeepsTo F (a.StoreNames host) d₀)
      (a.replacePrimary (a.temporaryPath a.path (host.uuid (.temporary false)))) fun _ => False :=
    .bind (keeps_injectFault _) fun _ hclose =>
      absurd ⟨hsync, hbefore, hopen, hwrite, hfile, hclose⟩ h
  refine .bind hreplace.attempt fun replaced hreplaced => ?_
  cases replaced with
  | error error => exact keeps_storeFailed none error
  | ok _ => exact (hreplaced () rfl).elim

/-- **A fault before the rename** leaves the fields, and all names but the backup and the
temporary ones. -/
theorem exec_store_early {disk : Option Json}
    (hchecks : exec host.handler (a.checkStore snapshot expected) fields d = (.ok disk, fields, d))
    (h : ¬Reaches host disk) : ∃ thrown d',
    exec host.handler (a.store snapshot expected) fields d = (.error thrown, fields, d') ∧
      d.Within (a.StoreNames host) d' := by
  obtain ⟨hkeeps, hreturns⟩ := keeps_replaceSnapshot (F := fun left => left = fields) (a := a) h
    (a.platform.serializeSnapshot snapshot.json) fields d ⟨rfl, .refl _ d⟩
  have hstart : exec host.handler (a.store snapshot expected) fields d = _ :=
    (Method.exec_bind_ok hchecks _).trans (Method.exec_bind_ok (run_randomUUID _) _)
  generalize hrun : exec host.handler (a.replaceSnapshot _ disk _) fields d = left
    at hkeeps hreturns
  obtain ⟨thrown | _, fields', d'⟩ := left
  · obtain ⟨rfl, hwithin⟩ := hkeeps
    exact ⟨thrown, d', hstart.trans (Method.exec_bind_error hrun _), hwithin⟩
  · exact (hreturns () rfl).elim

/-! ### The rename -/

/-- The lock is still the adapter's when other names have changed.  Neither the entry of the
lock nor the bytes of its file changed. -/
theorem ownsLock_of_within {names : JsString → Prop} {d' : Directory JsString} (hd : d.WF)
    (h : d.Within names d') (hlock : ¬names a.lockPath) :
    a.OwnsLock fields d' ↔ a.OwnsLock fields d := by
  have hread : d'.readFile a.lockPath = d.readFile a.lockPath := by
    rw [Directory.readFile, Directory.readFile, h.entries _ hlock]
    cases hentry : d.entries.get? a.lockPath with
    | none => rfl
    | some file =>
        have hfile := hd.bound _ _ hentry
        simp only [Directory.read, h.kind file hfile, h.bytes file hfile]
  rw [OwnsLock, hread, OwnsLock]

/-- No call that writes a file of a store fails. -/
structure Stores (host : Host) : Prop where
  reads : Readable host false
  owner : ∀ check, host.fault (.owner check) = none
  installs : host.Installs
  creates : host.fault (.temporary false .create) = none
  writes : host.fault (.temporary false .write) = none
  syncs : host.fault (.temporary false .sync) = none
  closes : host.fault (.temporary false .close) = none
  renames : host.fault (.temporary false .rename) = none

/-- The names a store needs are free, and the backup can be replaced. -/
structure Clear (a : JsonFileAdapter) (host : Host) (d : Directory JsString)
    (disk : Option Json) : Prop where
  temporary : d.entries.get? (a.temporaryPath a.path (host.uuid (.temporary false))) = none
  install : disk.isSome = true → a.CanInstall host d a.backupPath

/-- What follows the rename succeeds. -/
structure Lasts (host : Host) : Prop where
  afterRename : host.fault (.inject .afterRename) = none
  synced : host.syncsDirectory false = true
  afterDirectorySync : host.fault (.inject .afterDirectorySync) = none

/-- A new file is in the primary's place. -/
def Replaced (a : JsonFileAdapter) (snapshot : SnapshotEnvelope) (d : Directory JsString) : Prop :=
  ∃ file, d.entries.get? a.path = some file ∧
    d.nodes file = ⟨.regular, a.platform.serializeSnapshot snapshot.json, 1⟩

/-- Every method keeps the directory well formed.  By induction on its calls, each of which
does. -/
theorem wf_exec {α : Type} (hd : d.WF) (host : Host) (m : AdapterMethod α)
    (fields : AdapterFields) :
    (exec host.handler m fields d).2.2.WF := by
  refine Method.exec_invariant (fun c w hw => ?_) m hd
  cases c with
  | file site call => exact hw.answer call _
  | inject point => exact hw
  | isAlive pid => exact hw
  | randomUUID site => exact hw

/-- A fault point without a fault does nothing. -/
theorem exec_injectFault {point : FaultPoint} (h : host.fault (.inject point) = none) :
    exec host.handler (injectFault point) fields d = (.ok (), fields, d) := by
  rw [run_injectFault, h]

/-- The backup is written.  The temporary name it used is free again, as the rename took it
away. -/
theorem exec_backup (hd : d.WF) (hsync : host.syncsDirectory true = true)
    (h : a.CanInstall host d a.backupPath) (disk : Json) (fields : AdapterFields) : ∃ d₁,
    exec host.handler (a.installBytes a.backupPath (a.platform.serializeSnapshot disk)) fields d =
      (.ok (), fields, d₁) ∧
    d.Within (fun name => name = a.backupPath ∨
      name = a.temporaryPath a.backupPath (host.uuid (.temporary true))) d₁ := by
  obtain ⟨d₁, hinstalled, outcome, hrun, hok⟩ := exec_installBytes (a := a) h.calls
    (a.platform.serializeSnapshot disk) h.free (a.temporaryPath_ne_destination _ _)
    (fun he => (hd.bound _ _ he).false) h.kind
  obtain rfl := hok.2 hsync
  exact ⟨d₁, hrun fields, hinstalled.within⟩

/-- The backup is written, and the new file is created.  The two temporary names are different,
so the backup leaves that of the new file free. -/
theorem exec_openTemporary {disk : Option Json} (hd : d.WF) (hreach : Reaches host disk)
    (hstores : Stores host) (hclear : a.Clear host d disk) (fields : AdapterFields) : ∃ d₁,
    exec host.handler (a.openTemporary (a.temporaryPath a.path (host.uuid (.temporary false))) disk)
      fields d = (.ok d₁.next, fields,
        d₁.created (a.temporaryPath a.path (host.uuid (.temporary false)))) ∧
    d₁.WF ∧ d.Within (fun name => name = a.backupPath ∨
      name = a.temporaryPath a.backupPath (host.uuid (.temporary true))) d₁ := by
  set temporary := a.temporaryPath a.path (host.uuid (.temporary false)) with htemporary
  have hcreate : ∀ {d₁ : Directory JsString}, d₁.entries.get? temporary = none →
      exec host.handler (do
        injectFault .beforeTempOpen
        fileCall (.temporary false .create) (.create temporary)) fields d₁ =
        (.ok d₁.next, fields, d₁.created temporary) := fun hfree => by
    rw [Method.exec_bind_ok (exec_injectFault hreach.beforeTempOpen),
      run_fileCall_perform hstores.creates]
    show ((Directory.create _ temporary).1.mapError _, _, (Directory.create _ temporary).2) = _
    rw [Directory.create_of_fresh hfree]
    rfl
  cases disk with
  | none => exact ⟨d, hcreate hclear.temporary, hd, .refl _ d⟩
  | some disk =>
      obtain ⟨d₁, hrun, hwithin⟩ := exec_backup hd (hreach.synced rfl)
        (hclear.install rfl) disk fields
      have hwf := wf_exec hd host
        (a.installBytes a.backupPath (a.platform.serializeSnapshot disk)) fields
      rw [hrun] at hwf
      refine ⟨d₁, (Method.exec_bind_ok hrun _).trans (hcreate ?_), hwf, hwithin⟩
      rw [hwithin.entries temporary, hclear.temporary]
      rintro (he | he)
      · exact a.temporaryPath_ne_backupPath _ _ he
      · exact a.temporaryPath_ne_backup _ _ he

/-- The new file is written.  It is written, synced and closed, and none of these is made to
fail. -/
theorem exec_writeTemporary {disk : Option Json} (hreach : Reaches host disk)
    (hstores : Stores host) (handle : ℕ) (bytes : List UInt8) :
    exec host.handler (writeTemporary handle bytes) fields d =
      (.ok (), fields, d.write handle bytes) := by
  have hcall : ∀ {site : CallSite} {c : FileCall JsString Unit} {d : Directory JsString},
      host.fault site = none → (c.perform d).1 = .ok () →
      exec host.handler (fileCall site c) fields d = (.ok (), fields, (c.perform d).2) :=
    fun h hok => by
      rw [run_fileCall_perform h, hok]
      rfl
  rw [writeTemporary, Method.exec_bind_ok (exec_injectFault hreach.afterTempOpen),
    Method.exec_bind_ok (hcall hstores.writes rfl),
    Method.exec_bind_ok (exec_injectFault hreach.afterWrite),
    Method.exec_bind_ok (hcall hstores.syncs rfl),
    Method.exec_bind_ok (exec_injectFault hreach.afterFileSync), hcall hstores.closes rfl]
  rfl

/-- **The new file is put in place**, and what follows is all that may fail.  The store of the
fields and the sync of the directory come last. -/
theorem exec_replacePrimary {disk : Option Json} {d₁ : Directory JsString}
    {temporary : JsString} (bytes : List UInt8) (hd₁ : d₁.WF) (hreach : Reaches host disk)
    (hstores : Stores host) (hne : temporary ≠ a.path) (hlock : temporary ≠ a.lockPath)
    (howned : a.OwnsLock fields d₁)
    (hkind : ∀ old, d₁.entries.get? a.path = some old → (d₁.nodes old).kind ≠ .directory) :
    ∃ outcome d', exec host.handler (a.replacePrimary temporary) fields
      ((d₁.created temporary).write d₁.next bytes) = (outcome, fields, d') ∧
      d₁.Installed temporary a.path bytes d' ∧ (outcome = .ok () ↔ Lasts host) := by
  obtain ⟨d', hrename, hinstalled⟩ := Directory.installed_rename hne
    (fun he => (hd₁.bound _ _ he).false) hkind bytes
  obtain ⟨owned, howns, hownsok⟩ := exec_assertLockOwnership a host
    ((d₁.created temporary).write d₁.next bytes) 1 fields
  have hcreated : d₁.Within (fun name => name = temporary) (d₁.created temporary) :=
    (Directory.Within.refl _ d₁).created rfl
  have hwithin := hcreated.write le_rfl bytes
  obtain rfl := hownsok.2 ((owns_iff (hstores.owner 1)).2
    ((ownsLock_of_within hd₁ hwithin (Ne.symm hlock)).2 howned))
  have hcall : exec host.handler (fileCall (.temporary false .rename) (.rename temporary a.path))
      fields ((d₁.created temporary).write d₁.next bytes) = (.ok (), fields, d') := by
    rw [run_fileCall_perform hstores.renames]
    show ((Directory.rename _ _ _).1.mapError _, _, (Directory.rename _ _ _).2) = _
    rw [hrename]
    rfl
  obtain ⟨synced, hsync, hsynced⟩ := exec_syncDirectory host false
  rw [replacePrimary, Method.exec_bind_ok (exec_injectFault hreach.afterTempClose),
    Method.exec_bind_ok howns, Method.exec_bind_ok hcall]
  cases hrenamed : host.fault (.inject .afterRename) with
  | some fault =>
      have hinject : exec host.handler (injectFault .afterRename) fields d' =
          (.error (.system fault.code.code), fields, d') := by
        rw [run_injectFault, hrenamed]
      refine ⟨_, d', Method.exec_bind_error hinject _, hinstalled, fun he => (by cases he), ?_⟩
      exact fun hl => by cases hl.afterRename.symm.trans hrenamed
  | none =>
  rw [Method.exec_bind_ok (exec_injectFault hrenamed)]
  cases synced with
  | error thrown =>
      refine ⟨_, d', Method.exec_bind_error (hsync ..) _, hinstalled, fun he => (by cases he), ?_⟩
      exact fun hl => by cases hsynced.2 hl.synced
  | ok _ =>
  rw [Method.exec_bind_ok (hsync ..), run_injectFault]
  refine ⟨_, d', rfl, hinstalled, ?_⟩
  cases hlast : host.fault (.inject .afterDirectorySync) with
  | some fault =>
      exact ⟨fun he => (by cases he), fun hl => by cases hl.afterDirectorySync.symm.trans hlast⟩
  | none => exact ⟨fun _ => ⟨hrenamed, hsynced.1 rfl, hlast⟩, fun _ => rfl⟩

/-- The end of a store that throws once the temporary name is free.  There is nothing to discard
then, so the directory is as it was. -/
theorem exec_storeFailed {temporary : JsString} (hfree : d.entries.get? temporary = none)
    (host : Host) (fields : AdapterFields) (error : Thrown) : ∃ thrown,
    exec host.handler (storeFailed temporary none error) fields d = (.error thrown, fields, d) := by
  obtain ⟨d', hrun, hd'⟩ := exec_discardTemporary host false temporary none d
  have hsame : d' = d := by
    rcases hd' with rfl | rfl
    · rfl
    · exact unlink_of_free hfree
  subst hsame
  unfold storeFailed
  rw [Method.exec_bind_ok (hrun fields)]
  split
  · exact ⟨_, rfl⟩
  · exact ⟨_, rfl⟩
  · exact ⟨_, rfl⟩

/-- **From the rename on the new snapshot is in place**, whether or not `store` returns.  It
returns exactly when nothing fails behind the rename; where it throws, the fields know the old
generation only. -/
theorem exec_store_renamed {disk : Option Json} (hd : d.WF)
    (hchecked : a.Checked fields d snapshot expected disk) (hreach : Reaches host disk)
    (hstores : Stores host) (hclear : a.Clear host d disk) : ∃ outcome fields' d',
    exec host.handler (a.store snapshot expected) fields d = (outcome, fields', d') ∧
      a.Replaced snapshot d' ∧ ((∃ acknowledgement, outcome = .ok acknowledgement) ↔ Lasts host) ∧
      (¬Lasts host → fields' = fields) := by
  set temporary := a.temporaryPath a.path (host.uuid (.temporary false)) with htemporary
  set bytes := a.platform.serializeSnapshot snapshot.json with hbytes
  obtain ⟨checked, hcheck, hcheckok⟩ := exec_checkStore a fields d snapshot expected
    (hstores.owner 0) hstores.reads
  obtain rfl := (hcheckok disk).2 hchecked
  obtain ⟨d₁, hopen, hd₁, hwithin⟩ := exec_openTemporary hd hreach hstores hclear fields
  have hlock : ¬(a.lockPath = a.backupPath ∨
      a.lockPath = a.temporaryPath a.backupPath (host.uuid (.temporary true))) := by
    rintro (he | he)
    · exact a.backupPath_ne_lockPath he.symm
    · exact a.temporaryPath_ne_lockPath _ _ he.symm
  have hpath : ¬(a.path = a.backupPath ∨
      a.path = a.temporaryPath a.backupPath (host.uuid (.temporary true))) := by
    rintro (he | he)
    · exact a.path_ne_backupPath he
    · exact a.temporaryPath_ne_path (by simp [path, backupPath]) _ he.symm
  have hkind : ∀ old, d₁.entries.get? a.path = some old → (d₁.nodes old).kind ≠ .directory := by
    intro old hold
    rw [hwithin.entries _ hpath] at hold
    rw [hwithin.kind old (hd.bound _ _ hold)]
    have hfinds := hchecked.finds
    cases disk with
    | none => cases hfinds.symm.trans hold
    | some disk =>
        obtain ⟨node, hnode, hreadable, -⟩ := hfinds
        rw [Directory.file?, hold] at hnode
        obtain rfl := Option.some.inj hnode
        rw [hreadable.1]
        exact fun hk => by cases hk
  obtain ⟨outcome, d', hreplace, hinstalled, hlasts⟩ := exec_replacePrimary bytes hd₁
    hreach hstores (a.temporaryPath_ne_destination _ _) (a.temporaryPath_ne_lockPath _ _)
    ((ownsLock_of_within hd hwithin hlock).2 hchecked.owned) hkind
  have hreplaced : a.Replaced snapshot d' := ⟨_, hinstalled.entry, hinstalled.node⟩
  have hstart : exec host.handler (a.store snapshot expected) fields d = _ :=
    (Method.exec_bind_ok hcheck _).trans (Method.exec_bind_ok (run_randomUUID _) _)
  have hwritten : exec host.handler (a.replaceSnapshot temporary disk bytes) fields d = _ :=
    (Method.exec_bind_ok (Method.exec_attempt_of hopen) _).trans
      ((Method.exec_bind_ok (Method.exec_attempt_of
        (exec_writeTemporary hreach hstores d₁.next bytes)) _).trans
        (Method.exec_bind_ok (Method.exec_attempt_of hreplace) _))
  cases outcome with
  | ok _ =>
      refine ⟨_, _, d', hstart.trans (Method.exec_bind_ok hwritten _), hreplaced, ?_, ?_⟩
      · exact ⟨fun _ => hlasts.1 rfl, fun _ => ⟨_, rfl⟩⟩
      · exact fun hl => absurd (hlasts.1 rfl) hl
  | error error =>
      obtain ⟨thrown, hfailed⟩ := exec_storeFailed hinstalled.free host fields error
      refine ⟨_, _, d', hstart.trans (Method.exec_bind_error (hwritten.trans hfailed) _),
        hreplaced, ?_, fun _ => rfl⟩
      constructor
      · rintro ⟨acknowledgement, he⟩
        cases he
      · exact fun hl => by cases hlasts.2 hl

/-! ### A store without faults -/

/-- No call fails. -/
def IsQuiet (host : Host) : Prop := ∀ site, host.fault site = none

/-- A quiet process stores. -/
theorem IsQuiet.stores (h : IsQuiet host) : Stores host :=
  ⟨⟨h _, h _, h _⟩, fun _ => h _, ⟨h _, h _, h _, h _, h _⟩, h _, h _, h _, h _, h _⟩

/-- A quiet process syncs its directory. -/
theorem IsQuiet.syncsDirectory (h : IsQuiet host) (copy : Bool) :
    host.syncsDirectory copy = true := by
  simp [Host.syncsDirectory, Host.passes, h (.directory copy .open), h (.directory copy .sync),
    h (.directory copy .close)]

/-- A quiet process reaches its rename. -/
theorem IsQuiet.reaches (h : IsQuiet host) (disk : Option Json) : Reaches host disk :=
  ⟨fun _ => h.syncsDirectory true, h _, h _, h _, h _, h _⟩

/-- A quiet process goes on behind its rename. -/
theorem IsQuiet.lasts (h : IsQuiet host) : Lasts host := ⟨h _, h.syncsDirectory false, h _⟩

/-- `store` returns. -/
def Accepts (a : JsonFileAdapter) (host : Host) (fields : AdapterFields) (d : Directory JsString)
    (snapshot : SnapshotEnvelope) (expected : ℕ) : Prop :=
  ∃ acknowledgement, (exec host.handler (a.store snapshot expected) fields d).1 =
    .ok acknowledgement

/-- A backup that was written could be put in place. -/
theorem canInstall_of_ok (hd : d.WF) {bytes : List UInt8} {fields' : AdapterFields}
    {d' : Directory JsString} (h : exec host.handler (a.installBytes a.backupPath bytes) fields d =
      (.ok (), fields', d')) : a.CanInstall host d a.backupPath := by
  by_contra hnot
  obtain ⟨d₁, thrown, hrun, -⟩ := exec_installBytes_failed hnot
    (a.temporaryPath_ne_destination _ _) (fun he => (hd.bound _ _ he).false) bytes
  cases (hrun fields).symm.trans h

/-- A name was free when a file could be created.  The create is exclusive. -/
theorem free_of_create {site : CallSite} {name : JsString} {handle : ℕ} {fields' : AdapterFields}
    {d' : Directory JsString} (h : exec host.handler (fileCall site (.create name)) fields d =
      (.ok handle, fields', d')) : d.entries.get? name = none := by
  rw [run_fileCall] at h
  have hanswer := congrArg Prod.fst h
  cases hf : host.fault site with
  | some fault =>
      rw [hf] at hanswer
      cases hanswer
  | none =>
      rw [hf] at hanswer
      cases hentry : d.entries.get? name with
      | none => rfl
      | some file =>
          have hcreate : (FileCall.create name).answer none d = (.error .exists, d) :=
            Directory.create_of_entry hentry
          rw [hcreate] at hanswer
          cases hanswer

/-- The names were free when the new file could be created.  The backup's name was free as well,
when there was something to back up. -/
theorem clear_of_ok (hd : d.WF) {disk : Option Json} {handle : ℕ} {fields' : AdapterFields}
    {d' : Directory JsString} (h : exec host.handler (a.openTemporary
      (a.temporaryPath a.path (host.uuid (.temporary false))) disk) fields d =
        (.ok handle, fields', d')) : a.Clear host d disk := by
  cases disk with
  | none =>
      obtain ⟨_, fields₁, d₁, hinject, hcreate⟩ := Method.exec_bind_eq_ok h
      obtain rfl : d = d₁ :=
        congrArg (fun left => left.2.2) ((run_injectFault _).symm.trans hinject)
      exact ⟨free_of_create hcreate, fun he => by cases he⟩
  | some disk =>
      obtain ⟨_, fields₁, d₁, hbackup, hrest⟩ := Method.exec_bind_eq_ok h
      obtain ⟨_, fields₂, d₂, hinject, hcreate⟩ := Method.exec_bind_eq_ok hrest
      obtain rfl : d₁ = d₂ :=
        congrArg (fun left => left.2.2) ((run_injectFault _).symm.trans hinject)
      have hinstall := canInstall_of_ok hd hbackup
      refine ⟨?_, fun _ => hinstall⟩
      have hkeeps : Preserves host.handler (KeepsTo (fun _ => True)
          (fun name => name = a.backupPath ∨
            name = a.temporaryPath a.backupPath (host.uuid (.temporary true))) d)
          (a.installBytes a.backupPath (a.platform.serializeSnapshot disk)) fun _ =>
            host.syncsDirectory true = true := keeps_installBytes (.inl rfl) (.inr rfl) _
      have hwithin := (hkeeps fields d ⟨trivial, .refl _ d⟩).1.2
      rw [hbackup] at hwithin
      rw [← hwithin.entries]
      · exact free_of_create hcreate
      · rintro (he | he)
        · exact a.temporaryPath_ne_backupPath _ _ he
        · exact a.temporaryPath_ne_backup _ _ he

/-- A replacement that returned has created the new file.  The create comes first in it, and an
error there would have been thrown. -/
theorem clear_of_replaced (hd : d.WF) {disk : Option Json} {bytes : List UInt8}
    {fields' : AdapterFields} {d' : Directory JsString} (h : exec host.handler (a.replaceSnapshot
      (a.temporaryPath a.path (host.uuid (.temporary false))) disk bytes) fields d =
        (.ok (), fields', d')) : a.Clear host d disk := by
  generalize hopen : exec host.handler (a.openTemporary
    (a.temporaryPath a.path (host.uuid (.temporary false))) disk) fields d = left
  obtain ⟨error | handle, fields₁, d₁⟩ := left
  · rw [replaceSnapshot, Method.exec_bind_ok (Method.exec_attempt_of hopen)] at h
    have hfailed : Preserves host.handler (KeepsTo (fun _ => True) (a.StoreNames host) d₁)
        (storeFailed (a.temporaryPath a.path (host.uuid (.temporary false))) none error)
        fun _ => False := keeps_storeFailed none error
    exact ((hfailed fields₁ d₁ ⟨trivial, .refl _ d₁⟩).2 () (congrArg Prod.fst h)).elim
  · exact clear_of_ok hd hopen

/-- **When a store without faults returns.**  The checks pass, and no name that a store needs is
taken by something else. -/
theorem accepts_iff (hd : d.WF) (hquiet : IsQuiet host) :
    a.Accepts host fields d snapshot expected ↔
      ∃ disk, a.Checked fields d snapshot expected disk ∧ a.Clear host d disk := by
  constructor
  · rintro ⟨acknowledgement, haccepts⟩
    obtain ⟨checked, hcheck, hchecked⟩ := exec_checkStore a fields d snapshot expected
      (hquiet (.owner 0)) hquiet.stores.reads
    obtain ⟨disk, fields₁, d₁, hcheck', hrest⟩ :=
      Method.exec_bind_eq_ok (Prod.ext haccepts rfl)
    obtain ⟨rfl, rfl, rfl⟩ : checked = .ok disk ∧ fields = fields₁ ∧ d = d₁ := by
      simpa using hcheck.symm.trans hcheck'
    obtain ⟨uuid, fields₂, d₂, hid, hrest⟩ := Method.exec_bind_eq_ok hrest
    obtain ⟨rfl, rfl, rfl⟩ : host.uuid (.temporary false) = uuid ∧ fields = fields₂ ∧ d = d₂ := by
      simpa using (run_randomUUID _).symm.trans hid
    obtain ⟨_, fields₃, d₃, hreplace, -⟩ := Method.exec_bind_eq_ok hrest
    exact ⟨disk, (hchecked disk).1 rfl, clear_of_replaced hd hreplace⟩
  · rintro ⟨disk, hchecked, hclear⟩
    obtain ⟨outcome, fields', d', hrun, -, hiff, -⟩ :=
      exec_store_renamed hd hchecked (hquiet.reaches disk) hquiet.stores hclear
    obtain ⟨acknowledgement, rfl⟩ := hiff.2 hquiet.lasts
    exact ⟨acknowledgement, by rw [hrun]⟩

end JsonFileAdapter

end NewtonDB
