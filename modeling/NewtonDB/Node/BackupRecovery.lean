/-
# Recovery from the backup

When `load` does not obtain the primary it reads the backup, and with
`recoverFromBackup` puts a copy of it in the primary's place.  It does not ask why the
primary was not obtained: a primary that is intact, but could not be opened or read, or
has a second name, or is too large for this adapter, is replaced as well.  So an intact
primary is kept exactly when it is read, or when some step of the recovery cannot be
carried out (`intact_primary_kept_iff`).

The primary and the backup are read once the lock is taken and the stale temporary
files are gone, and by then may have fewer names; `seen` is a file as it is read.
-/

import NewtonDB.Node.LockRelease

namespace NewtonDB

open Method (exec)

namespace JsonFileAdapter

variable (a : JsonFileAdapter) (host : Host) (d : Directory JsString)

/-- A file as `load` finds it, once the lock is taken and the stale temporary files are
gone. -/
def seen (file : ℕ) : FileNode :=
  { d.nodes file with
    links := (d.nodes file).links - (if d.entries.get? a.lockPath = some file then 1 else 0) -
      (a.staleNames d file).card }

/-- `load` can read the file under the name of the primary or the backup. -/
structure CanRead (backup : Bool) (file : ℕ) : Prop where
  calls : Readable host backup
  named : d.entries.get? (a.snapshotName backup) = some file
  readable : a.IsReadable (a.seen d file)

/-- All that recovery does before and after it reads the primary can be carried out. -/
structure CanRecover : Prop where
  wanted : a.recoverFromBackup = true
  locks : a.Acquires host d
  clears : a.ClearsTemps host d
  owns : host.fault (.owner 0) = none
  backup : ∃ file snapshot, a.CanRead host d true file ∧
    a.platform.decodeSnapshot (d.nodes file).bytes = .ok snapshot
  installs : host.Installs

variable {a host d}

/-! ### Before the files are read -/

/-- What taking the lock and the cleanup leave. -/
structure Prepared (a : JsonFileAdapter) (d d' : Directory JsString) : Prop where
  within : d.Within (fun name => name = a.lockPath ∨ a.isStaleTemp name) d'
  wf : d'.WF
  clear : ∀ name, a.isStaleTemp name → d'.entries.get? name = none
  nodes : ∀ file < d.next, d'.nodes file = a.seen d file

/-- Neither the primary nor the backup is the lock or a stale temporary file.  Their names have
other endings. -/
theorem snapshotName_kept (backup : Bool) :
    ¬(a.snapshotName backup = a.lockPath ∨ a.isStaleTemp (a.snapshotName backup) = true) := by
  cases backup with
  | false =>
      rintro (h | h)
      · exact a.path_ne_lockPath h
      · cases h.symm.trans a.not_isStaleTemp_path
  | true =>
      rintro (h | h)
      · exact a.backupPath_ne_lockPath h
      · cases h.symm.trans a.not_isStaleTemp_backupPath

/-- The stale temporary files are those there were before the lock was taken. -/
theorem staleNames_of_lockTaken {token : JsString} {d' : Directory JsString}
    (h : a.LockTaken d token d') (file : ℕ) : a.staleNames d' file = a.staleNames d file := by
  ext name
  simp only [staleNames, Finset.mem_filter, Directory.mem_namesOf]
  refine and_congr_left fun hs => ?_
  rw [h.within.entries name fun he => by rw [he, not_isStaleTemp_lockPath] at hs; cases hs]

/-- To take the lock does not change whether the stale temporary files can be removed.  The lock
is the one name that changed, and it is not among them. -/
theorem clearsTemps_of_lockTaken {token : JsString} {d' : Directory JsString} (hd : d.WF)
    (h : a.LockTaken d token d') : a.ClearsTemps host d' ↔ a.ClearsTemps host d := by
  have hentry : ∀ name, a.isStaleTemp name → d'.entries.get? name = d.entries.get? name :=
    fun name hs => h.within.entries name fun he => by
      rw [he, not_isStaleTemp_lockPath] at hs
      cases hs
  refine ⟨fun hc => ⟨hc.lists, fun name file hname hs => ?_⟩,
    fun hc => ⟨hc.lists, fun name file hname hs => ?_⟩⟩
  · have hk := hc.removes name file ((hentry name hs).trans hname) hs
    rwa [h.within.kind file (hd.bound _ _ hname)] at hk
  · rw [hentry name hs] at hname
    rw [h.within.kind file (hd.bound _ _ hname)]
    exact hc.removes name file hname hs

/-- **The files as they are read.**  Between the lock and the reading only stale temporary files
went, so that primary and backup have the content they had. -/
theorem prepared_of_cleared {token : JsString} {d' d'' : Directory JsString}
    (h : a.LockTaken d token d') (hwithin : d'.Within (fun name => a.isStaleTemp name) d'')
    (hwf : d''.WF) (hclear : ∀ name, a.isStaleTemp name → d''.entries.get? name = none)
    (hlinks : ∀ file, (d''.nodes file).links =
      (d'.nodes file).links - (a.staleNames d' file).card) : a.Prepared d d'' where
  within := (h.within.mono fun _ hn => .inl hn).trans (hwithin.mono fun _ hn => .inr hn)
  wf := hwf
  clear := hclear
  nodes file hf := by
    have hf' := hf.trans_le h.within.next
    have hl := hlinks file
    rw [h.links file hf, staleNames_of_lockTaken h] at hl
    have hk := (hwithin.kind file hf').trans (h.within.kind file hf)
    have hb := (hwithin.bytes file hf').trans (h.within.bytes file hf)
    rw [seen, ← hl, ← hk, ← hb]

/-! ### While the files are read -/

variable (host) in
/-- What `load` reads, in terms of the directory it was called on.  What `load` did before
changed neither of the two files. -/
theorem exec_read_prepared {d' : Directory JsString} (hd : d.WF) (hp : a.Prepared d d')
    (backup : Bool) : ∃ outcome,
    (∀ fields, exec host.handler (a.readSnapshotAt backup) fields d' = (outcome, fields, d')) ∧
    ∀ snapshot, outcome = .ok (some snapshot) ↔ ∃ file, a.CanRead host d backup file ∧
      a.platform.decodeSnapshot (d.nodes file).bytes = .ok snapshot := by
  obtain ⟨outcome, hrun, hok, -⟩ := exec_readSnapshotAt a host d' backup
  refine ⟨outcome, hrun, fun snapshot => (hok snapshot).trans ?_⟩
  have hentry : d'.entries.get? (a.snapshotName backup) = d.entries.get? (a.snapshotName backup) :=
    hp.within.entries _ (snapshotName_kept backup)
  constructor
  · rintro ⟨hcalls, node, hnode, hread, hdecode⟩
    obtain ⟨file, hfile, rfl⟩ := Option.map_eq_some_iff.1 hnode
    rw [hentry] at hfile
    rw [hp.nodes file (hd.bound _ _ hfile)] at hread hdecode
    exact ⟨file, ⟨hcalls, hfile, hread⟩, hdecode⟩
  · rintro ⟨file, ⟨hcalls, hfile, hread⟩, hdecode⟩
    refine ⟨hcalls, _, Option.map_eq_some_iff.2 ⟨file, hentry.trans hfile, rfl⟩, ?_⟩
    rw [hp.nodes file (hd.bound _ _ hfile)]
    exact ⟨hread, hdecode⟩

/-- A primary that is read is returned.  The backup is not looked at then. -/
theorem exec_loadWithRecovery_read {d' : Directory JsString} (hd : d.WF) (hp : a.Prepared d d')
    {file : ℕ} {snapshot : Json} (hr : a.CanRead host d false file)
    (hdecode : a.platform.decodeSnapshot (d.nodes file).bytes = .ok snapshot)
    (fields : AdapterFields) : exec host.handler a.loadWithRecovery fields d' =
      (.ok (some snapshot), fields, d') := by
  obtain ⟨outcome, hrun, hok⟩ := exec_read_prepared host hd hp false
  obtain rfl := (hok snapshot).2 ⟨file, hr, hdecode⟩
  exact Method.exec_bind_ok (Method.exec_attempt_of (hrun fields)) _

/-- A primary that is not read: a backup that is read is recovered.  That there is no primary
and that it is corrupt or out of reach come to the same here. -/
theorem exec_loadWithRecovery_backup {d' : Directory JsString} (hd : d.WF) (hp : a.Prepared d d')
    (hprimary : ¬∃ file snapshot, a.CanRead host d false file ∧
      a.platform.decodeSnapshot (d.nodes file).bytes = .ok snapshot)
    {file : ℕ} {backup : Json} (hr : a.CanRead host d true file)
    (hdecode : a.platform.decodeSnapshot (d.nodes file).bytes = .ok backup)
    (fields : AdapterFields) : exec host.handler a.loadWithRecovery fields d' =
      exec host.handler (a.recoverBackup backup) fields d' := by
  obtain ⟨primary, hrun, hok⟩ := exec_read_prepared host hd hp false
  obtain ⟨outcome, hrun', hok'⟩ := exec_read_prepared host hd hp true
  obtain rfl := (hok' backup).2 ⟨file, hr, hdecode⟩
  have hfirst := Method.exec_attempt_of (hrun fields)
  have hsecond := Method.exec_attempt_of (hrun' fields)
  rcases primary with error | _ | snapshot
  · exact (Method.exec_bind_ok hfirst _).trans (Method.exec_bind_ok hsecond _)
  · exact (Method.exec_bind_ok hfirst _).trans (Method.exec_bind_ok hsecond _)
  · obtain ⟨file', hr', hdecode'⟩ := (hok snapshot).1 rfl
    exact absurd ⟨file', snapshot, hr', hdecode'⟩ hprimary

/-- Neither is read: nothing changes.  It returns that there is no snapshot, or throws why the
primary could not be read. -/
theorem exec_loadWithRecovery_neither {d' : Directory JsString} (hd : d.WF)
    (hp : a.Prepared d d') (hbackup : ¬∃ file snapshot, a.CanRead host d true file ∧
      a.platform.decodeSnapshot (d.nodes file).bytes = .ok snapshot) (fields : AdapterFields) :
    ∃ outcome, exec host.handler a.loadWithRecovery fields d' = (outcome, fields, d') := by
  obtain ⟨primary, hrun, hok⟩ := exec_read_prepared host hd hp false
  obtain ⟨backup, hrun', hok'⟩ := exec_read_prepared host hd hp true
  have hfirst := Method.exec_attempt_of (hrun fields)
  have hsecond := Method.exec_attempt_of (hrun' fields)
  rcases backup with error' | _ | snapshot'
  · rcases primary with error | _ | snapshot
    · exact ⟨_, (Method.exec_bind_ok hfirst _).trans (Method.exec_bind_ok hsecond _)⟩
    · exact ⟨_, (Method.exec_bind_ok hfirst _).trans (Method.exec_bind_ok hsecond _)⟩
    · exact ⟨_, Method.exec_bind_ok hfirst _⟩
  · rcases primary with error | _ | snapshot
    · exact ⟨_, (Method.exec_bind_ok hfirst _).trans (Method.exec_bind_ok hsecond _)⟩
    · exact ⟨_, (Method.exec_bind_ok hfirst _).trans (Method.exec_bind_ok hsecond _)⟩
    · exact ⟨_, Method.exec_bind_ok hfirst _⟩
  · obtain ⟨file', hr', hdecode'⟩ := (hok' snapshot').1 rfl
    exact absurd ⟨file', snapshot', hr', hdecode'⟩ hbackup

/-! ### The whole of `load` -/

/-- The adapter owns its lock file when it can read it.  What is left to go wrong is the read
itself. -/
theorem owns_iff_of_bears {check : ℕ} {fields : AdapterFields} {token : JsString}
    {d' : Directory JsString} (hempty : a.platform.parse [] = none)
    (htoken : fields.lockToken = some token) (hbears : a.Bears d' token) :
    a.Owns host d' check fields ↔ host.fault (.owner check) = none := by
  obtain ⟨file, hentry, hkind, hparse⟩ := hbears
  have htext : host.textAt (.owner check) d' a.lockPath = if (host.fault (.owner check)).isSome
      then none else some (utf8Text (d'.nodes file).bytes) := by
    rw [Host.textAt, Directory.readFile, hentry]
    dsimp only
    rw [Directory.read, if_neg hkind]
    rfl
  rw [Owns, htoken]
  cases hf : host.fault (.owner check) with
  | some fault =>
      have hnone : a.platform.parseLock [] = none := by rw [Platform.parseLock, hempty]; rfl
      simp [htext, hf, hnone]
  | none =>
      rw [htext, hf]
      exact ⟨fun _ => rfl, fun _ => ⟨token, rfl, hparse⟩⟩

/-- **`load` comes to read the primary** when the stale temporary files are removed and the
lock is checked. -/
theorem exec_loadLocked_prepared {token : JsString} {d₁ : Directory JsString}
    {fields : AdapterFields} (hd : d.WF) (hempty : a.platform.parse [] = none)
    (hreads : a.ReadsBack token) (hlock : a.LockTaken d token d₁)
    (htoken : fields.lockToken = some token) (hclears : a.ClearsTemps host d)
    (howns : host.fault (.owner 0) = none) : ∃ d₂, a.Prepared d d₂ ∧
      (exec host.handler a.loadLocked fields d₁).2.2 =
        (exec host.handler a.loadWithRecovery fields d₂).2.2 := by
  obtain ⟨outcome, d₂, hrun, hwithin, hwf, hok, hleft⟩ :=
    exec_removeStaleTemps (a := a) host hlock.wf
  obtain rfl := hok.2 ((clearsTemps_of_lockTaken hd hlock).2 hclears)
  obtain ⟨hclear, hlinks⟩ := hleft rfl
  have hbears := bears_of_within hreads hlock (hwithin.mono fun _ hn => .inl hn)
  obtain ⟨owned, howned, hiff⟩ := exec_assertLockOwnership a host d₂ 0 fields
  obtain rfl := hiff.2 ((owns_iff_of_bears hempty htoken hbears).2 howns)
  refine ⟨d₂, prepared_of_cleared hlock hwithin hwf hclear hlinks, ?_⟩
  rw [loadLocked, Method.exec_bind_ok (hrun fields), Method.exec_bind_ok howned, Method.exec_bind]
  generalize exec host.handler a.loadWithRecovery fields d₂ = left
  obtain ⟨error | snapshot, fields₃, d₃⟩ := left
  · rfl
  · rfl

/-- `load` does not come to read the primary.  A stale file could not be removed, or the lock is
no longer its own by then. -/
theorem exec_loadLocked_unprepared {token : JsString} {d₁ : Directory JsString}
    {fields : AdapterFields} (hd : d.WF) (hempty : a.platform.parse [] = none)
    (hreads : a.ReadsBack token) (hlock : a.LockTaken d token d₁)
    (htoken : fields.lockToken = some token)
    (h : ¬(a.ClearsTemps host d ∧ host.fault (.owner 0) = none)) :
    d₁.Within (fun name => a.isStaleTemp name) (exec host.handler a.loadLocked fields d₁).2.2 := by
  obtain ⟨outcome, d₂, hrun, hwithin, -, hok, -⟩ := exec_removeStaleTemps (a := a) host hlock.wf
  cases outcome with
  | error error =>
      rw [loadLocked, Method.exec_bind_error (hrun fields)]
      exact hwithin
  | ok _ =>
      have hclears := (clearsTemps_of_lockTaken hd hlock).1 (hok.1 rfl)
      have hbears := bears_of_within hreads hlock (hwithin.mono fun _ hn => .inl hn)
      obtain ⟨owned, howned, hiff⟩ :=
        exec_assertLockOwnership a host d₂ 0 fields
      cases owned with
      | ok _ => exact absurd ⟨hclears, (owns_iff_of_bears hempty htoken hbears).1 (hiff.1 rfl)⟩ h
      | error error =>
          rw [loadLocked, Method.exec_bind_ok (hrun fields), Method.exec_bind_error howned]
          exact hwithin

/-- The primary is still the same file, with the same content. -/
structure PrimaryKept (a : JsonFileAdapter) (d d' : Directory JsString) (file : ℕ) : Prop where
  entry : d'.entries.get? a.path = some file
  bytes : (d'.nodes file).bytes = (d.nodes file).bytes

/-- A primary that was kept is kept by what changes other names only. -/
theorem primaryKept_of_within {file : ℕ} {names : JsString → Prop} {d' d'' : Directory JsString}
    (h : a.PrimaryKept d d' file) (hf : file < d'.next) (hwithin : d'.Within names d'')
    (hn : ¬names a.path) : a.PrimaryKept d d'' file :=
  ⟨(hwithin.entries _ hn).trans h.entry, (hwithin.bytes file hf).trans h.bytes⟩

/-- The directory `load` leaves is that of its `try`, but for the lock.  When the `try` throws,
`load` closes the adapter, and that removes the lock file at most. -/
theorem exec_load_within {handle : ℕ} {token : JsString} {d₁ : Directory JsString}
    (h : ∀ fields, exec host.handler a.acquireLock fields d =
      (.ok (), { fields with lock := some handle, lockToken := some token }, d₁)) :
    (exec host.handler a.loadLocked (.locked handle token) d₁).2.2.Within
      (fun name => name = a.lockPath) (exec host.handler a.load .new d).2.2 := by
  rw [exec_load_acquired h, Method.exec_tryCatch]
  generalize exec host.handler a.loadLocked (.locked handle token) d₁ = left
  obtain ⟨error | snapshot, fields, d₂⟩ := left
  · have hclosed : ∃ outcome fields' d₃, exec host.handler a.close fields d₂ =
        (outcome, fields', d₃) ∧ d₂.Within (fun name => name = a.lockPath) d₃ := by
      cases hc : fields.closed with
      | true => exact ⟨_, _, _, exec_close_closed hc, .refl _ d₂⟩
      | false =>
          obtain ⟨outcome, d₃, hrun, hwithin, -⟩ := exec_close (a := a) (d := d₂) host hc
          exact ⟨_, _, _, hrun, hwithin⟩
    obtain ⟨outcome, fields', d₃, hrun, hwithin⟩ := hclosed
    dsimp only
    rw [Method.exec_bind, hrun]
    cases outcome with
    | error _ => exact hwithin
    | ok _ => exact hwithin
  · exact .refl _ d₂

/-- A backup that is not put in place: the primary is kept.  The copy is made under a temporary
name, and only a rename brings it to the primary's. -/
theorem exec_recoverBackup_not (hd : d.WF) (h : ¬(a.recoverFromBackup = true ∧ host.Installs))
    (backup : Json) (fields : AdapterFields) :
    d.Within (fun name => name = a.temporaryPath a.path (host.uuid (.temporary true)))
      (exec host.handler (a.recoverBackup backup) fields d).2.2 := by
  cases hw : a.recoverFromBackup with
  | false =>
      rw [recoverBackup, hw]
      exact .refl _ d
  | true =>
      obtain ⟨d', thrown, hrun, hwithin⟩ := exec_installBytes_failed (a := a)
        (fun hi => h ⟨hw, hi.calls⟩) (a.temporaryPath_ne_destination a.path _)
        (fun he => (hd.bound _ _ he).false) (a.platform.serializeSnapshot backup)
      rw [recoverBackup, hw]
      show d.Within _ (exec host.handler (a.installBytes _ _ >>= _) fields d).2.2
      rw [Method.exec_bind_error (hrun fields)]
      exact hwithin

/-- **A backup that is put in place** is a new file.  It was created under a temporary name and
renamed, so that it is none of those there were. -/
theorem exec_recoverBackup (hw : a.recoverFromBackup = true) (hi : host.Installs)
    {d' : Directory JsString} (hp : a.Prepared d d')
    (hkind : ∀ old, d'.entries.get? a.path = some old → (d'.nodes old).kind ≠ .directory)
    (backup : Json) (fields : AdapterFields) :
    (exec host.handler (a.recoverBackup backup) fields d').2.2.entries.get? a.path =
      some d'.next := by
  obtain ⟨d₃, hinstalled, outcome, hrun, -⟩ := exec_installBytes (a := a) hi
    (a.platform.serializeSnapshot backup) (hp.clear _ (a.isStaleTemp_temporaryPath _))
    (a.temporaryPath_ne_destination _ _) (fun h => (hp.wf.bound _ _ h).false) hkind
  rw [recoverBackup, hw]
  show (exec host.handler (a.installBytes _ _ >>= _) fields d').2.2.entries.get? a.path = _
  rw [Method.exec_bind, hrun]
  cases outcome with
  | error _ => exact hinstalled.entry
  | ok _ => exact hinstalled.entry

/-- **The recovery is carried out**: another file has the place of the primary.  The primary was
not read, the backup was, and nothing fails that puts its copy in place. -/
theorem exec_load_recovers (hd : d.WF) (hempty : a.platform.parse [] = none)
    (hreads : ∀ attempt, a.ReadsBack (host.uuid (.token attempt)))
    (hprimary : ¬∃ file snapshot, a.CanRead host d false file ∧
      a.platform.decodeSnapshot (d.nodes file).bytes = .ok snapshot)
    (hkind : ∀ file, d.entries.get? a.path = some file → (d.nodes file).kind ≠ .directory)
    (h : a.CanRecover host d) : ∃ new, d.next ≤ new ∧
      (exec host.handler a.load .new d).2.2.entries.get? a.path = some new := by
  obtain ⟨token, d₁, hacquire, htoken, htaken⟩ := exec_acquireLock hd h.locks
  have hback := readsBack_of_token hreads htoken
  have htoken' : (AdapterFields.locked d.next token).lockToken = some token := rfl
  obtain ⟨d₂, hp, hrest⟩ :=
    exec_loadLocked_prepared hd hempty hback htaken htoken' h.clears h.owns
  obtain ⟨file, backup, hcan, hdecode⟩ := h.backup
  rw [exec_loadWithRecovery_backup hd hp hprimary hcan hdecode] at hrest
  have hinstalled := exec_recoverBackup h.wanted h.installs hp (fun old hold => by
    rw [hp.within.entries a.path (snapshotName_kept (a := a) false)] at hold
    rw [hp.nodes old (hd.bound _ _ hold)]
    exact hkind old hold) backup (.locked d.next token)
  rw [← hrest, ← (exec_load_within hacquire).entries _ a.path_ne_lockPath] at hinstalled
  exact ⟨_, hp.within.next, hinstalled⟩

/-- Where the primary cannot be read, no snapshot is read from it. -/
theorem not_read_of_not {file : ℕ} (hfile : d.entries.get? a.path = some file)
    (h : ¬a.CanRead host d false file) : ¬∃ file snapshot, a.CanRead host d false file ∧
      a.platform.decodeSnapshot (d.nodes file).bytes = .ok snapshot := by
  rintro ⟨other, -, hother, -⟩
  exact h (Option.some.inj (hother.named.symm.trans hfile) ▸ hother)

/-- **An intact primary is kept by `load` exactly when it is read, or the recovery cannot be
carried out.**  In the other case another file has its place, with the snapshot of the
backup. -/
theorem intact_primary_kept_iff {file : ℕ} {snapshot : Json} (hd : d.WF)
    (hempty : a.platform.parse [] = none)
    (hreads : ∀ attempt, a.ReadsBack (host.uuid (.token attempt)))
    (hfile : d.entries.get? a.path = some file) (hkind : (d.nodes file).kind ≠ .directory)
    (hintact : a.platform.decodeSnapshot (d.nodes file).bytes = .ok snapshot) :
    a.PrimaryKept d (exec host.handler a.load .new d).2.2 file ↔
      a.CanRead host d false file ∨ ¬a.CanRecover host d := by
  have hbound := hd.bound _ _ hfile
  have hkept₀ : a.PrimaryKept d d file := ⟨hfile, rfl⟩
  have hlock : ¬a.path = a.lockPath := a.path_ne_lockPath
  have hstale : ¬a.isStaleTemp a.path = true := by simp [a.not_isStaleTemp_path]
  by_cases hacquires : a.Acquires host d
  swap
  · -- the lock is not taken: nothing else changes
    refine iff_of_true ?_ (.inr fun h => hacquires h.locks)
    have hrefused : ∃ thrown d', (∀ fields, exec host.handler a.acquireLock fields d =
        (.error thrown, fields, d')) ∧ d.Within (fun name => name = a.lockPath) d' := by
      by_cases hleaks : a.Leaks host d
      · obtain ⟨thrown, d', hrun, -, hwithin⟩ := exec_acquireLock_leaks hleaks
        exact ⟨thrown, d', hrun, hwithin⟩
      · obtain ⟨thrown, d', hrun, hwithin, -⟩ := exec_acquireLock_refused hacquires hleaks
        exact ⟨thrown, d', hrun, hwithin⟩
    obtain ⟨thrown, d', hrun, hwithin⟩ := hrefused
    rw [exec_load_unlocked (hrun _)]
    exact primaryKept_of_within hkept₀ hbound hwithin hlock
  by_cases hread : a.CanRead host d false file ∨ ¬a.CanRecover host d
  swap
  · -- the primary is not read, and the recovery is carried out
    obtain ⟨hread, hrecover⟩ := not_or.1 hread
    obtain ⟨new, hnew, hentry⟩ := exec_load_recovers hd hempty hreads (not_read_of_not hfile hread)
      (fun old hold => Option.some.inj (hfile.symm.trans hold) ▸ hkind) (not_not.1 hrecover)
    refine iff_of_false (fun h => ?_) (not_or.2 ⟨hread, hrecover⟩)
    exact (hbound.trans_le hnew).ne (Option.some.inj (h.entry.symm.trans hentry))
  refine iff_of_true ?_ hread
  obtain ⟨token, d₁, hacquire, htoken, htaken⟩ := exec_acquireLock hd hacquires
  have hback := readsBack_of_token hreads htoken
  have htoken' : (AdapterFields.locked d.next token).lockToken = some token := rfl
  -- the last calls are on the lock, so it is the `try` of `load` that counts
  have hfinal : ∀ {d'}, (exec host.handler a.loadLocked (.locked d.next token) d₁).2.2 = d' →
      file < d'.next → a.PrimaryKept d d' file →
        a.PrimaryKept d (exec host.handler a.load .new d).2.2 file := by
    rintro d' rfl hb h
    exact primaryKept_of_within h hb (exec_load_within hacquire) hlock
  by_cases hprepared : a.ClearsTemps host d ∧ host.fault (.owner 0) = none
  swap
  · have hwithin := exec_loadLocked_unprepared hd hempty hback htaken htoken' hprepared
    have hbound₁ := hbound.trans_le htaken.within.next
    refine hfinal rfl (hbound₁.trans_le hwithin.next)
      (primaryKept_of_within ?_ hbound₁ hwithin hstale)
    exact primaryKept_of_within hkept₀ hbound htaken.within hlock
  obtain ⟨d₂, hp, hrest⟩ :=
    exec_loadLocked_prepared hd hempty hback htaken htoken' hprepared.1 hprepared.2
  have hkept₂ := primaryKept_of_within hkept₀ hbound hp.within (not_or.2 ⟨hlock, hstale⟩)
  have hbound₂ := hbound.trans_le hp.within.next
  by_cases hprimary : a.CanRead host d false file
  · rw [exec_loadWithRecovery_read hd hp hprimary hintact] at hrest
    exact hfinal hrest hbound₂ hkept₂
  have hrecover := hread.resolve_left hprimary
  by_cases hbackup : ∃ file snapshot, a.CanRead host d true file ∧
      a.platform.decodeSnapshot (d.nodes file).bytes = .ok snapshot
  swap
  · obtain ⟨outcome, hrun⟩ := exec_loadWithRecovery_neither hd hp hbackup (.locked d.next token)
    rw [hrun] at hrest
    exact hfinal hrest hbound₂ hkept₂
  obtain ⟨other, backup, hcan, hdecode⟩ := hbackup
  rw [exec_loadWithRecovery_backup hd hp (not_read_of_not hfile hprimary) hcan hdecode] at hrest
  have hwithin := exec_recoverBackup_not hp.wf (fun hi => hrecover ⟨hi.1, hacquires, hprepared.1,
    hprepared.2, ⟨other, backup, hcan, hdecode⟩, hi.2⟩) backup (.locked d.next token)
  rw [← hrest] at hwithin
  exact hfinal rfl (hbound₂.trans_le hwithin.next)
    (primaryKept_of_within hkept₂ hbound₂ hwithin (a.temporaryPath_ne_destination _ _).symm)

/-! ### A primary that cannot be opened -/

/-- The snapshot of a database without collections. -/
def storedSnapshot : Json := SnapshotEnvelope.json ⟨[], [], js "d", 1, 1⟩

/-- A platform that reads the lock file, the file of `storedSnapshot` and the strings in it. -/
def storedPlatform : Platform :=
  let sum := js "b340dad55a74d9c90814dd4114d7185f0715acf1a2c5cc4ab7534252069e57b2"
  let envelope := Json.obj [(js "checksum", .prim (.string sum)), (js "snapshot", storedSnapshot)]
  { parse := fun text =>
      if text = envelope.stringify ++ [10] then some envelope
      else if text.head? = some 34 then some (.prim (.string (text.drop 1).dropLast))
      else dbAdapter.platform.parse text
    sha256 := fun _ => sum }

/-- An adapter that may recover `db`. -/
def storedAdapter : JsonFileAdapter :=
  { dbAdapter with recoverFromBackup := true, platform := storedPlatform }

/-- The primary and the backup both hold the snapshot. -/
def storedDirectory : Directory JsString where
  parent := .directory
  entries := .ofList [(js "db", 0), (js "db.backup", 1)]
  nodes _ := ⟨.regular, storedPlatform.serializeSnapshot storedSnapshot, 1⟩
  next := 2

/-- The directory of a stored snapshot is well formed.  It has two names, each for a file with
one link. -/
theorem wf_storedDirectory : storedDirectory.WF := by
  have hentry : ∀ {name file}, storedDirectory.entries.get? name = some file →
      (name, file) = (js "db", 0) ∨ (name, file) = (js "db.backup", 1) := fun h => by
    have hmem := OrderedMap.get?_eq_some_iff.1 h
    rw [show storedDirectory.entries.entries = [(js "db", 0), (js "db.backup", 1)]
      by decide] at hmem
    simpa using hmem
  refine ⟨fun name file h => ?_, fun file => Finset.card_le_one.2 fun name hn name' hn' => ?_⟩
  · rcases hentry h with he | he <;> cases he <;> decide
  · rcases hentry (Directory.mem_namesOf.1 hn) with he | he <;>
      rcases hentry (Directory.mem_namesOf.1 hn') with he' | he' <;> cases he <;> cases he' <;> rfl

/-- Its adapter reads back the lock file it writes. -/
theorem readsBack_storedAdapter : storedAdapter.ReadsBack (js "t") :=
  ⟨by decide +kernel, by decide, by decide⟩

/-- The snapshot in it can be decoded. -/
theorem decodes_storedSnapshot : storedAdapter.platform.decodeSnapshot
    (storedDirectory.nodes 0).bytes = .ok storedSnapshot := by decide +kernel

/-- **An intact primary that cannot be opened is replaced by the backup.**  One call fails once,
and the snapshot there is lost though it could be read the next time. -/
theorem unopened_primary_replaced :
    storedDirectory.entries.get? storedAdapter.path = some 0 ∧
    storedAdapter.platform.decodeSnapshot (storedDirectory.nodes 0).bytes = .ok storedSnapshot ∧
    ¬storedAdapter.PrimaryKept storedDirectory
      (exec (hostFailingAt (.snapshot false .open)).handler storedAdapter.load .new
        storedDirectory).2.2 0 := by
  refine ⟨by decide, decodes_storedSnapshot, fun h => ?_⟩
  have hentry : (exec (hostFailingAt (.snapshot false .open)).handler storedAdapter.load .new
      storedDirectory).2.2.entries.get? storedAdapter.path = some 3 := by decide +kernel
  exact absurd (Option.some.inj (h.entry.symm.trans hentry)) (by decide)

/-- A primary that cannot be opened is kept exactly when nothing can be recovered.  Here the
backup can be read and put in place, so the equivalence says that it is not kept. -/
theorem unopened_primary_kept_iff : storedAdapter.PrimaryKept storedDirectory
    (exec (hostFailingAt (.snapshot false .open)).handler storedAdapter.load .new
      storedDirectory).2.2 0 ↔
    storedAdapter.CanRead (hostFailingAt (.snapshot false .open)) storedDirectory false 0 ∨
      ¬storedAdapter.CanRecover (hostFailingAt (.snapshot false .open)) storedDirectory :=
  intact_primary_kept_iff wf_storedDirectory (by decide) (fun _ => readsBack_storedAdapter)
    (by decide) (by decide) decodes_storedSnapshot

end JsonFileAdapter

end NewtonDB
