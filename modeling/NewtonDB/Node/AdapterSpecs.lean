/-
# What the methods of the file adapter do

One lemma for each method, against any host: what it returns, what it leaves in the
fields and what in the directory.  The methods that only look leave both as they were,
and their results are written out as functions of the host and the directory.
-/

import NewtonDB.Node.JsonFileAdapter

namespace NewtonDB

open Method (exec)

namespace Host

variable (host : Host)

/-- The text under a name, when it can be read. -/
def textAt (site : CallSite) (d : Directory JsString) (name : JsString) : Option JsString :=
  if (host.fault site).isSome then none else (d.readFile name).toOption.map utf8Text

/-- Whether the owner of a lock is alive. -/
def isOwnerAlive (owner : Option LockRecord) : Bool :=
  owner.any fun owner => 0 < owner.pid && host.alive owner.pid

/-- Whether `syncDirectory` sees the call succeed, or fail as on a directory that cannot
be synced. -/
def passes (site : CallSite) : Bool :=
  (host.fault site).all fun fault => JsonFileAdapter.isNoSync (.system fault.code.code)

/-- Whether `syncDirectory` returns. -/
def syncsDirectory (copy : Bool) : Bool :=
  if (host.fault (.directory copy .open)).isSome then host.passes (.directory copy .open)
  else host.passes (.directory copy .sync) && (host.fault (.directory copy .close)).isNone

/-- The calls that put a verified copy in place do not fail. -/
structure Installs : Prop where
  creates : host.fault (.temporary true .create) = none
  writes : host.fault (.temporary true .write) = none
  syncs : host.fault (.temporary true .sync) = none
  closes : host.fault (.temporary true .close) = none
  renames : host.fault (.temporary true .rename) = none

end Host

section

variable {host : Host} {fields : AdapterFields} {d d' : Directory JsString} {α β : Type}

/-! ### Calls -/

/-- A call of the file system answers as the directory does, or with its fault, and changes no
field. -/
theorem run_fileCall (site : CallSite) (c : FileCall JsString β) :
    exec host.handler (fileCall site c) fields d =
      ((c.answer (host.fault site) d).1.mapError .system, fields,
        (c.answer (host.fault site) d).2) := by
  have hreply : host.handler.reply (.file site c) d = c.answer (host.fault site) d := rfl
  rw [fileCall, Method.exec_bind, Method.exec_request, hreply]
  generalize c.answer (host.fault site) d = answer
  obtain ⟨error | b, d'⟩ := answer
  · rfl
  · rfl

/-- A call that the system does not let fail. -/
theorem run_fileCall_perform {site : CallSite} (h : host.fault site = none)
    (c : FileCall JsString β) : exec host.handler (fileCall site c) fields d =
      ((c.perform d).1.mapError .system, fields, (c.perform d).2) := by
  rw [run_fileCall, h]
  rfl

/-- A call that only looks. -/
theorem run_fileCall_quiet {c : FileCall JsString β} (hc : c.isQuiet) (site : CallSite) :
    exec host.handler (fileCall site c) fields d =
      ((c.answer (host.fault site) d).1.mapError .system, fields, d) := by
  rw [run_fileCall, c.answer_snd_of_isQuiet hc]

/-- The process names an id, and nothing changes. -/
theorem run_randomUUID (site : IdSite) :
    exec host.handler (Method.request (.randomUUID site) : AdapterMethod JsString) fields d =
      (.ok (host.uuid site), fields, d) := rfl

/-- A fault point throws when a fault is planned for it, and does nothing else.  Neither the
fields of the adapter nor the directory is touched. -/
theorem run_injectFault (point : FaultPoint) :
    exec host.handler (injectFault point) fields d =
      ((match host.fault (.inject point) with
        | none => Except.ok ()
        | some fault => .error (.system fault.code.code)), fields, d) := by
  have hreply : host.handler.reply (.inject point) d =
      ((match host.fault (.inject point) with
        | none => Except.ok ()
        | some fault => .error fault.code.code), d) := rfl
  rw [injectFault, Method.exec_bind, Method.exec_request, hreply]
  cases host.fault (.inject point) with
  | none => rfl
  | some fault => rfl

/-- To read the text of a lock gives what is there, or nothing, and changes nothing.  A read
that fails counts as nothing, whatever the error was. -/
theorem run_readText (site : CallSite) (name : JsString) :
    exec host.handler (readText site name) fields d =
      (.ok (host.textAt site d name), fields, d) := by
  rw [readText, Method.exec_bind, Method.exec_attempt,
    run_fileCall_quiet (c := .readFile name) rfl]
  dsimp only
  rw [Method.exec_pure, Host.textAt]
  cases host.fault site with
  | some fault => rfl
  | none =>
      show (Except.ok (((d.readFile name).mapError Thrown.system).toOption.map utf8Text),
        fields, d) = _
      cases d.readFile name with
      | error code => rfl
      | ok bytes => rfl

/-- Whether the owner of a lock is alive is asked of the process, and nothing changes.  Without
an owner there is no process to ask about. -/
theorem run_isOwnerAlive (owner : Option LockRecord) :
    exec host.handler (isOwnerAlive owner) fields d =
      (.ok (host.isOwnerAlive owner), fields, d) := by
  cases owner with
  | none => rfl
  | some owner =>
      by_cases hpid : owner.pid ≤ 0
      · simp [isOwnerAlive, Host.isOwnerAlive, hpid]
      · have hreply : host.handler.reply (.isAlive owner.pid) d = (host.alive owner.pid, d) := rfl
        simp [isOwnerAlive, Host.isOwnerAlive, hpid, hreply, Int.not_le.1 hpid]

end

/-- How `syncDirectory` ends after an error.  A system that cannot sync a directory is no
error. -/
theorem exec_unless_isNoSync (host : Host) (error : Thrown) : ∃ outcome : Except Thrown Unit,
    (∀ fields d, exec host.handler
      (if !JsonFileAdapter.isNoSync error then throw error else pure () : AdapterMethod Unit)
      fields d = (outcome, fields, d)) ∧
    (outcome = .ok () ↔ JsonFileAdapter.isNoSync error = true) := by
  cases JsonFileAdapter.isNoSync error with
  | true => exact ⟨.ok (), fun _ _ => rfl, by simp⟩
  | false => exact ⟨.error error, fun _ _ => rfl, by simp⟩

/-- `syncDirectory` changes nothing; whether it returns lies with the system alone.  It opens
the directory, syncs it and closes it, and none of these changes an entry or a file. -/
theorem exec_syncDirectory (host : Host) (copy : Bool) : ∃ outcome : Except Thrown Unit,
    (∀ fields d, exec host.handler (JsonFileAdapter.syncDirectory copy) fields d =
      (outcome, fields, d)) ∧
    (outcome = .ok () ↔ host.syncsDirectory copy = true) := by
  have hopen : ∀ fields d, exec host.handler
      (Method.attempt (fileCall (.directory copy .open) .openDirectory)) fields d = _ :=
    fun fields d => Method.exec_attempt_of (run_fileCall_quiet rfl _)
  have hsync : ∀ fields d, exec host.handler
      (Method.attempt (fileCall (.directory copy .sync) .syncDirectory)) fields d = _ :=
    fun fields d => Method.exec_attempt_of (run_fileCall_quiet rfl _)
  have hclose : ∀ fields d, exec host.handler
      (fileCall (.directory copy .close) .closeDirectory) fields d = _ :=
    fun fields d => run_fileCall_quiet rfl _
  unfold Host.syncsDirectory Host.passes
  cases hfo : host.fault (.directory copy .open) with
  | some fault =>
      rw [hfo] at hopen
      obtain ⟨outcome, hrun, hok⟩ := exec_unless_isNoSync host (.system fault.code.code)
      refine ⟨outcome, fun fields d => ?_, by simpa using hok⟩
      exact (Method.exec_bind_ok (hopen fields d) _).trans (hrun fields d)
  | none =>
      rw [hfo] at hopen
      have hstart : ∀ fields d,
          exec host.handler (JsonFileAdapter.syncDirectory copy) fields d = _ :=
        fun fields d => (Method.exec_bind_ok (hopen fields d) _).trans
          (Method.exec_bind_ok (hsync fields d) _)
      cases hfc : host.fault (.directory copy .close) with
      | some fault =>
          rw [hfc] at hclose
          exact ⟨_, fun fields d => (hstart fields d).trans
            (Method.exec_bind_error (hclose fields d) _), by simp⟩
      | none =>
          rw [hfc] at hclose
          cases hfs : host.fault (.directory copy .sync) with
          | none =>
              rw [hfs] at hstart
              exact ⟨_, fun fields d => (hstart fields d).trans
                (Method.exec_bind_ok (hclose fields d) _), by simp⟩
          | some fault =>
              rw [hfs] at hstart
              obtain ⟨outcome, hrun, hok⟩ :=
                exec_unless_isNoSync host (.system fault.code.code)
              refine ⟨outcome, fun fields d => ?_, by simpa using hok⟩
              exact (hstart fields d).trans
                ((Method.exec_bind_ok (hclose fields d) _).trans (hrun fields d))

/-! ### Reading a snapshot -/

namespace JsonFileAdapter

variable (a : JsonFileAdapter) (host : Host) (d : Directory JsString) (backup : Bool)

/-- The name of the primary or the backup. -/
def snapshotName : JsString := if backup then a.backupPath else a.path

/-- The file is one whose bytes are read: a regular file with one name, not too large. -/
def IsReadable (node : FileNode) : Prop :=
  node.kind = .regular ∧ node.links = 1 ∧ node.bytes.length ≤ a.maxBytes

/-- The calls that read a snapshot do not fail. -/
structure Readable : Prop where
  opens : host.fault (.snapshot backup .open) = none
  stats : host.fault (.snapshot backup .stat) = none
  reads : host.fault (.snapshot backup .read) = none

variable {a host d backup}

/-- The checks of an open file, up to the bytes of one that is read.  The size is compared with
the limit of the adapter before a byte is read. -/
theorem exec_readHandle_of_isReadable {handle : ℕ}
    (hstat : host.fault (.snapshot backup .stat) = none) (h : a.IsReadable (d.nodes handle))
    (fields : AdapterFields) : exec host.handler (a.readHandle backup handle) fields d =
      (match host.fault (.snapshot backup .read) with
        | none => (a.platform.decodeSnapshot (d.nodes handle).bytes).mapError .newton
        | some fault => .error (.system fault.code.code), fields, d) := by
  obtain ⟨hkind, hlinks, hsize⟩ := h
  have hinfo : exec host.handler (fileCall (.snapshot backup .stat) (.stat handle)) fields d =
      (.ok (d.stat handle), fields, d) := by
    rw [run_fileCall_quiet rfl, hstat]
    rfl
  have hchecks : (d.stat handle).isFile = true ∧ (d.stat handle).links = 1 ∧
      ¬a.maxBytes < (d.stat handle).size :=
    ⟨by simp [Directory.stat, hkind], hlinks, Nat.not_lt.2 hsize⟩
  have hread : d.read handle = .ok (d.nodes handle).bytes := by
    rw [Directory.read, if_neg (by simp [hkind])]
  have hbytes : ((FileCall.read handle : FileCall JsString _).answer none d).1 =
      .ok (d.nodes handle).bytes := hread
  simp only [readHandle, Method.exec_bind, hinfo, hchecks.1, hchecks.2.1, hchecks.2.2,
    Bool.not_true, Bool.false_eq_true, ne_eq, not_true_eq_false, if_false]
  rw [run_fileCall_quiet rfl]
  cases host.fault (.snapshot backup .read) with
  | some fault => rfl
  | none =>
      simp only [hbytes, Except.mapError, Nat.not_lt.2 hsize, if_false]
      cases a.platform.decodeSnapshot (d.nodes handle).bytes with
      | error error => rfl
      | ok snapshot => rfl

/-- A file that is not read.  Its kind, its links or its size is wrong, and the message says
which. -/
theorem exec_readHandle_refused {handle : ℕ}
    (hstat : host.fault (.snapshot backup .stat) = none) (h : ¬a.IsReadable (d.nodes handle)) :
    ∃ message, ∀ fields, exec host.handler (a.readHandle backup handle) fields d =
      (.error (.newton (.corruptStorage message)), fields, d) := by
  have hinfo : ∀ fields, exec host.handler (fileCall (.snapshot backup .stat) (.stat handle))
      fields d = (.ok (d.stat handle), fields, d) := fun fields => by
    rw [run_fileCall_quiet rfl, hstat]
    rfl
  by_cases hkind : (d.nodes handle).kind = .regular
  · have hfile : (d.stat handle).isFile = true := by simp [Directory.stat, hkind]
    by_cases hlinks : (d.stat handle).links = 1
    · have hsize : a.maxBytes < (d.stat handle).size :=
        Nat.lt_of_not_le fun hsize => h ⟨hkind, hlinks, hsize⟩
      refine ⟨js "Stored snapshot exceeds the configured byte limit", fun fields => ?_⟩
      simp only [readHandle, Method.exec_bind_ok (hinfo fields), hfile, hlinks, hsize,
        Bool.not_true, Bool.false_eq_true, ne_eq, not_true_eq_false, if_false, if_true]
      rfl
    · refine ⟨js "Storage path must not have additional hard links", fun fields => ?_⟩
      simp only [readHandle, Method.exec_bind_ok (hinfo fields), hfile, hlinks, Bool.not_true,
        Bool.false_eq_true, ne_eq, not_false_eq_true, if_false, if_true]
      rfl
  · have hfile : (d.stat handle).isFile = false := by simp [Directory.stat, hkind]
    refine ⟨js "Storage path must be a regular file, not a symlink", fun fields => ?_⟩
    simp only [readHandle, Method.exec_bind_ok (hinfo fields), hfile, Bool.not_false, if_true]
    rfl

/-! ### The results of reading -/

variable (host d) in
/-- A quiet call that is attempted gives its answer, an error too, and leaves the directory. -/
theorem exec_attempt_fileCall {c : FileCall JsString β} (hc : c.isQuiet) (site : CallSite)
    (fields : AdapterFields) : exec host.handler (Method.attempt (fileCall site c)) fields d =
      (.ok ((c.answer (host.fault site) d).1.mapError .system), fields, d) := by
  rw [Method.exec_attempt, run_fileCall_quiet hc]

/-- A fault is none of the errors that say what is in the directory. -/
theorem code_ne (code : FaultCode) :
    code.code ≠ .missing ∧ code.code ≠ .exists ∧ code.code ≠ .loop := by
  cases code <;> simp [FaultCode.code]

variable (host d) in
/-- An error other than a missing name stays an error.  The missing name is the one error that
means that nothing was stored. -/
theorem exec_readFailed {error : Thrown} (h : error ≠ .system .missing) :
    ∃ thrown, ∀ fields,
      exec host.handler (readFailed error) fields d = (.error thrown, fields, d) := by
  unfold readFailed
  split
  · exact absurd rfl h
  · exact ⟨_, fun fields => rfl⟩
  · exact ⟨_, fun fields => rfl⟩
  · exact ⟨_, fun fields => rfl⟩

variable (a host d backup) in
/-- `readHandle` of a file that is not a link returns a snapshot or throws.  It never throws
that a name is missing, since the file is open by then. -/
theorem exec_readHandle (handle : ℕ) : ∃ outcome,
    (∀ fields, exec host.handler (a.readHandle backup handle) fields d = (outcome, fields, d)) ∧
    (∀ snapshot, outcome = .ok snapshot ↔
      host.fault (.snapshot backup .stat) = none ∧ host.fault (.snapshot backup .read) = none ∧
        a.IsReadable (d.nodes handle) ∧
        a.platform.decodeSnapshot (d.nodes handle).bytes = .ok snapshot) ∧
    outcome ≠ .error (.system .missing) := by
  cases hstat : host.fault (.snapshot backup .stat) with
  | some fault =>
      refine ⟨.error (.system fault.code.code), fun fields => ?_, fun snapshot => by simp,
        by simpa using (code_ne fault.code).1⟩
      rw [readHandle, Method.exec_bind, run_fileCall_quiet rfl, hstat]
      rfl
  | none =>
    by_cases hread : a.IsReadable (d.nodes handle)
    · refine ⟨_, exec_readHandle_of_isReadable hstat hread, fun snapshot => ?_, ?_⟩
      · cases host.fault (.snapshot backup .read) <;>
          cases a.platform.decodeSnapshot (d.nodes handle).bytes <;> simp [Except.mapError, hread]
      · cases host.fault (.snapshot backup .read) with
        | some fault => simpa using (code_ne fault.code).1
        | none => cases a.platform.decodeSnapshot (d.nodes handle).bytes <;> simp [Except.mapError]
    · obtain ⟨message, hrun⟩ := exec_readHandle_refused hstat hread
      exact ⟨_, hrun, fun snapshot => by simp [hread], by simp⟩

/-- The rest of `readSnapshotAt` once the file is open.  So it does not return that there is no
snapshot. -/
theorem exec_readOpened {handle : ℕ} (hopen : host.fault (.snapshot backup .open) = none)
    (hhandle : d.openFile (a.snapshotName backup) = .ok handle) : ∃ outcome,
    (∀ fields, exec host.handler (a.readSnapshotAt backup) fields d = (outcome, fields, d)) ∧
    (∀ snapshot, outcome = .ok (some snapshot) ↔ Readable host backup ∧
      a.IsReadable (d.nodes handle) ∧
        a.platform.decodeSnapshot (d.nodes handle).bytes = .ok snapshot) ∧
    outcome ≠ .ok none := by
  obtain ⟨outcome, hrun, hok, hmissing⟩ := exec_readHandle a host d backup handle
  have hopened : ∀ fields, exec host.handler (Method.attempt
      (fileCall (.snapshot backup .open) (.openFile (a.snapshotName backup)))) fields d =
      (.ok (.ok handle), fields, d) := fun fields => by
    rw [exec_attempt_fileCall host d rfl, hopen]
    show (Except.ok ((d.openFile _).mapError _), _, _) = _
    rw [hhandle]
    rfl
  have hclosed := exec_attempt_fileCall host d (c := .close handle) rfl (.snapshot backup .close)
  cases outcome with
  | ok snapshot =>
      refine ⟨.ok (some snapshot), fun fields => ?_, fun other => ?_, by simp⟩
      · exact (Method.exec_bind_ok (hopened fields) _).trans
          ((Method.exec_bind_ok (Method.exec_attempt_of (hrun fields)) _).trans
            (Method.exec_bind_ok (hclosed fields) _))
      · rw [Except.ok.injEq, Option.some.injEq, ← Except.ok.injEq, hok other]
        exact ⟨fun h => ⟨⟨hopen, h.1, h.2.1⟩, h.2.2⟩, fun h => ⟨h.1.stats, h.1.reads, h.2⟩⟩
  | error error =>
      obtain ⟨thrown, hthrown⟩ := exec_readFailed host d
        fun he : error = _ => hmissing (he ▸ rfl)
      refine ⟨.error thrown, fun fields => ?_, fun snapshot => ?_, by simp⟩
      · exact (Method.exec_bind_ok (hopened fields) _).trans
          ((Method.exec_bind_ok (Method.exec_attempt_of (hrun fields)) _).trans
            ((Method.exec_bind_ok (hclosed fields) _).trans (hthrown fields)))
      · refine ⟨fun h => (by cases h), fun h => ?_⟩
        cases (hok snapshot).2 ⟨h.1.stats, h.1.reads, h.2⟩

variable (a host d backup) in
/-- **What reading a snapshot returns**: the snapshot when the calls succeed on a file
that is read and decodes, nothing when there is no such name, and else an error.  The
adapter and the directory are as they were. -/
theorem exec_readSnapshotAt : ∃ outcome,
    (∀ fields, exec host.handler (a.readSnapshotAt backup) fields d = (outcome, fields, d)) ∧
    (∀ snapshot, outcome = .ok (some snapshot) ↔ Readable host backup ∧
      ∃ node, d.file? (a.snapshotName backup) = some node ∧ a.IsReadable node ∧
        a.platform.decodeSnapshot node.bytes = .ok snapshot) ∧
    (outcome = .ok none ↔ host.fault (.snapshot backup .open) = none ∧
      d.entries.get? (a.snapshotName backup) = none) := by
  have hfailed : ∀ code, (((FileCall.openFile (a.snapshotName backup)).answer
      (host.fault (.snapshot backup .open)) d).1 = .error code) → ∀ fields,
      exec host.handler (a.readSnapshotAt backup) fields d =
        exec host.handler (readFailed (.system code)) fields d := fun code hcode fields => by
    have hopened := exec_attempt_fileCall host d
      (c := .openFile (a.snapshotName backup)) rfl (.snapshot backup .open) fields
    rw [hcode, snapshotName] at hopened
    simp only [readSnapshotAt, Method.exec_bind, hopened, Except.mapError]
  cases hopen : host.fault (.snapshot backup .open) with
  | some fault =>
      obtain ⟨thrown, hthrown⟩ := exec_readFailed host d
        fun he => (code_ne fault.code).1 (Thrown.system.inj he)
      rw [hopen] at hfailed
      refine ⟨.error thrown, fun fields => (hfailed _ rfl fields).trans (hthrown fields),
        fun snapshot => ⟨fun h => (by cases h), fun h => ?_⟩, by simp⟩
      cases hopen.symm.trans h.1.opens
  | none =>
      rw [hopen] at hfailed
      cases hentry : d.entries.get? (a.snapshotName backup) with
      | none =>
          have hcode : d.openFile (a.snapshotName backup) = .error .missing := by
            rw [Directory.openFile, hentry]
          refine ⟨.ok none, fun fields => hfailed _ hcode fields,
            fun snapshot => ⟨fun h => (by cases h), fun h => ?_⟩, by simp⟩
          obtain ⟨-, node, hnode, -⟩ := h
          simp [Directory.file?, hentry] at hnode
      | some file =>
          have hnode : d.file? (a.snapshotName backup) = some (d.nodes file) := by
            simp [Directory.file?, hentry]
          by_cases hkind : (d.nodes file).kind = .link
          · have hcode : d.openFile (a.snapshotName backup) = .error .loop := by
              simp [Directory.openFile, hentry, hkind]
            obtain ⟨thrown, hthrown⟩ := exec_readFailed host d
              fun he : Thrown.system .loop = _ => by cases he
            refine ⟨.error thrown, fun fields => (hfailed _ hcode fields).trans (hthrown fields),
              fun snapshot => ⟨fun h => (by cases h), fun h => ?_⟩, by simp⟩
            obtain ⟨-, node, hnode', hread, -⟩ := h
            obtain rfl := Option.some.inj (hnode.symm.trans hnode')
            cases hkind.symm.trans hread.1
          · have hhandle : d.openFile (a.snapshotName backup) = .ok file := by
              simp [Directory.openFile, hentry, hkind]
            obtain ⟨outcome, hrun, hok, hnone⟩ := exec_readOpened (a := a) hopen hhandle
            refine ⟨outcome, hrun, fun snapshot => ?_, by simp [hnone]⟩
            simp [hok snapshot, hnode]

/-! ### Writing a verified copy -/

/-- What the cleanup leaves: the directory, or one without the temporary name.  The cleanup
swallows its own errors. -/
theorem exec_discardTemporary (host : Host) (copy : Bool) (temporary : JsString)
    (handle : Option ℕ) (d : Directory JsString) : ∃ d',
    (∀ fields, exec host.handler (discardTemporary copy temporary handle) fields d =
      (.ok (), fields, d')) ∧
    (d' = d ∨ d' = (d.unlink temporary).2) := by
  have hremove : ∀ fields, exec host.handler (Method.attempt
      (fileCall (.temporary copy .discard) (.unlink temporary))) fields d = _ :=
    fun fields => Method.exec_attempt_of (run_fileCall _ _)
  refine ⟨((FileCall.unlink temporary).answer (host.fault (.temporary copy .discard)) d).2,
    fun fields => ?_, ?_⟩
  · cases handle with
    | none => exact Method.exec_bind_ok (hremove fields) _
    | some handle =>
        have hclose : exec host.handler (Method.attempt
            (fileCall (.temporary copy .discardClose) (.close handle))) fields d = _ :=
          Method.exec_attempt_of (run_fileCall_quiet rfl _)
        exact (Method.exec_bind_ok hclose _).trans (Method.exec_bind_ok (hremove fields) _)
  · cases host.fault (.temporary copy .discard) with
    | none => exact .inr rfl
    | some fault => exact .inl rfl

/-- The cleanup changes nothing when the temporary name is free. -/
theorem unlink_of_free {d : Directory JsString} {name : JsString}
    (h : d.entries.get? name = none) : (d.unlink name).2 = d := by
  rw [Directory.unlink, h]

/-- The end of `installBytes` when it throws. -/
theorem exec_installFailed (host : Host) (temporary : JsString) (handle : Option ℕ)
    (d : Directory JsString) : ∃ d' thrown,
    (∀ fields, exec host.handler (installBytes.failed temporary handle) fields d =
      (.error thrown, fields, d')) ∧
    (d' = d ∨ d' = (d.unlink temporary).2) := by
  obtain ⟨d', hrun, hd'⟩ := exec_discardTemporary host true temporary handle d
  exact ⟨d', _, fun fields => Method.exec_bind_ok (hrun fields) _, hd'⟩

/-- The calls that write an open copy: it is written unless one of them fails.  Whatever fails,
the copy holds some bytes and no other file changes. -/
theorem exec_writeCopy (host : Host) (handle : ℕ) (bytes : List UInt8) (d : Directory JsString) :
    ∃ outcome d', (∀ fields, exec host.handler (do
        fileCall (.temporary true .write) (.write handle bytes)
        fileCall (.temporary true .sync) (.sync handle)
        fileCall (.temporary true .close) (.close handle) : AdapterMethod Unit) fields d =
          (outcome, fields, d')) ∧
      (outcome = .ok () ↔ host.fault (.temporary true .write) = none ∧
        host.fault (.temporary true .sync) = none ∧ host.fault (.temporary true .close) = none) ∧
      (outcome = .ok () → d' = d.write handle bytes) ∧ ∃ left, d' = d.write handle left := by
  have hwrite : ∀ fields, exec host.handler
      (fileCall (.temporary true .write) (.write handle bytes)) fields d = _ :=
    fun fields => run_fileCall _ _
  have hsync : ∀ fields d, exec host.handler
      (fileCall (.temporary true .sync) (.sync handle)) fields d = _ :=
    fun fields d => run_fileCall_quiet rfl _
  have hclose : ∀ fields d, exec host.handler
      (fileCall (.temporary true .close) (.close handle)) fields d = _ :=
    fun fields d => run_fileCall_quiet rfl _
  cases hfw : host.fault (.temporary true .write) with
  | some fault =>
      rw [hfw] at hwrite
      exact ⟨_, d.write handle fault.left,
        fun fields => Method.exec_bind_error (hwrite fields) _, by simp, by simp, _, rfl⟩
  | none =>
      rw [hfw] at hwrite
      cases hfs : host.fault (.temporary true .sync) with
      | some fault =>
          rw [hfs] at hsync
          exact ⟨_, d.write handle bytes, fun fields =>
            (Method.exec_bind_ok (hwrite fields) _).trans (Method.exec_bind_error (hsync ..) _),
            by simp, by simp, _, rfl⟩
      | none =>
          rw [hfs] at hsync
          refine ⟨_, d.write handle bytes, fun fields =>
            (Method.exec_bind_ok (hwrite fields) _).trans
              ((Method.exec_bind_ok (hsync ..) _).trans (hclose ..)), ?_, fun _ => rfl, _, rfl⟩
          cases host.fault (.temporary true .close) with
          | none => simp [FileCall.answer, FileCall.perform, Except.mapError]
          | some fault => simp [FileCall.answer, Except.mapError]

/-- **A verified copy is put in place**, whether or not the directory can be synced then.  The
calls of the installation do not fail, so that the temporary file is created, written, verified
and renamed. -/
theorem exec_installBytes {host : Host} (h : host.Installs) {destination : JsString}
    (bytes : List UInt8) {d : Directory JsString}
    (hfree : d.entries.get? (a.temporaryPath destination (host.uuid (.temporary true))) = none)
    (hne : a.temporaryPath destination (host.uuid (.temporary true)) ≠ destination)
    (hold : d.entries.get? destination ≠ some d.next)
    (hkind : ∀ old, d.entries.get? destination = some old → (d.nodes old).kind ≠ .directory) :
    ∃ d', d.Installed (a.temporaryPath destination (host.uuid (.temporary true))) destination
        bytes d' ∧ ∃ outcome,
      (∀ fields, exec host.handler (a.installBytes destination bytes) fields d =
        (outcome, fields, d')) ∧
      (outcome = .ok () ↔ host.syncsDirectory true = true) := by
  set temporary := a.temporaryPath destination (host.uuid (.temporary true)) with htemporary
  obtain ⟨d', hrename, hinstalled⟩ := Directory.installed_rename hne hold hkind bytes
  refine ⟨d', hinstalled, ?_⟩
  have hcreated : ∀ fields, exec host.handler (Method.attempt
      (fileCall (.temporary true .create) (.create temporary))) fields d =
      (.ok (.ok d.next), fields, d.created temporary) := fun fields => by
    rw [Method.exec_attempt, run_fileCall_perform h.creates]
    show (Except.ok ((d.create temporary).1.mapError _), _, (d.create temporary).2) = _
    rw [Directory.create_of_fresh hfree]
    rfl
  obtain ⟨written, d₁, hwrite, hok, hd₁, -⟩ :=
    exec_writeCopy host d.next bytes (d.created temporary)
  have hwritten := hok.2 ⟨h.writes, h.syncs, h.closes⟩
  obtain rfl := hd₁ hwritten
  subst hwritten
  obtain ⟨synced, hsync, hsynced⟩ := exec_syncDirectory host true
  have hrenamed : ∀ fields, exec host.handler (do
      fileCall (.temporary true .rename) (.rename temporary destination)
      syncDirectory true) fields ((d.created temporary).write d.next bytes) =
      (synced, fields, d') := fun fields => by
    have hcall : exec host.handler (fileCall (.temporary true .rename)
        (.rename temporary destination)) fields ((d.created temporary).write d.next bytes) =
        (.ok (), fields, d') := by
      rw [run_fileCall_perform h.renames]
      show ((Directory.rename _ _ _).1.mapError _, _, (Directory.rename _ _ _).2) = _
      rw [hrename]
      rfl
    exact (Method.exec_bind_ok hcall _).trans (hsync ..)
  have hstart : ∀ fields, exec host.handler (a.installBytes destination bytes) fields d = _ :=
    fun fields => (Method.exec_bind_ok (run_randomUUID _) _).trans
      ((Method.exec_bind_ok (hcreated fields) _).trans
        ((Method.exec_bind_ok (Method.exec_attempt_of (hwrite fields)) _).trans
          (Method.exec_bind_ok (Method.exec_attempt_of (hrenamed fields)) _)))
  cases synced with
  | ok _ => exact ⟨.ok (), hstart, by simpa using hsynced⟩
  | error error =>
      obtain ⟨d'', thrown, hfailed, hd''⟩ := exec_installFailed host temporary none d'
      have hsame : d'' = d' := by
        rcases hd'' with rfl | rfl
        · rfl
        · exact unlink_of_free hinstalled.free
      subst hsame
      exact ⟨.error thrown, fun fields => (hstart fields).trans (hfailed fields),
        by simpa using hsynced⟩

/-- A copy can be put in place. -/
structure CanInstall (host : Host) (d : Directory JsString) (destination : JsString) : Prop where
  calls : host.Installs
  free : d.entries.get? (a.temporaryPath destination (host.uuid (.temporary true))) = none
  kind : ∀ old, d.entries.get? destination = some old → (d.nodes old).kind ≠ .directory

/-- **A copy that could not be put in place** leaves all names but its temporary one.  Whichever
call fails, the temporary file is discarded and the destination is as it was. -/
theorem exec_installBytes_failed {host : Host} {d : Directory JsString} {destination : JsString}
    (h : ¬a.CanInstall host d destination)
    (hne : a.temporaryPath destination (host.uuid (.temporary true)) ≠ destination)
    (hold : d.entries.get? destination ≠ some d.next) (bytes : List UInt8) : ∃ d' thrown,
    (∀ fields, exec host.handler (a.installBytes destination bytes) fields d =
      (.error thrown, fields, d')) ∧
    d.Within (fun name => name = a.temporaryPath destination (host.uuid (.temporary true))) d' := by
  set temporary := a.temporaryPath destination (host.uuid (.temporary true)) with htemporary
  have hfinish : ∀ handle d₁, d.Within (fun name => name = temporary) d₁ →
      (∀ fields, exec host.handler (a.installBytes destination bytes) fields d =
        exec host.handler (installBytes.failed temporary handle) fields d₁) →
      ∃ d' thrown, (∀ fields, exec host.handler (a.installBytes destination bytes) fields d =
        (.error thrown, fields, d')) ∧ d.Within (fun name => name = temporary) d' := by
    intro handle d₁ hwithin hrun
    obtain ⟨d', thrown, hfailed, hd'⟩ := exec_installFailed host temporary handle d₁
    refine ⟨d', thrown, fun fields => (hrun fields).trans (hfailed fields), ?_⟩
    rcases hd' with rfl | rfl
    · exact hwithin
    · exact hwithin.unlink rfl
  have hcreate : ∀ fields, exec host.handler (Method.attempt
      (fileCall (.temporary true .create) (.create temporary))) fields d = _ :=
    fun fields => Method.exec_attempt_of (run_fileCall _ _)
  have hstart : ∀ fields, exec host.handler (a.installBytes destination bytes) fields d = _ :=
    fun fields => (Method.exec_bind_ok (run_randomUUID _) _).trans
      (Method.exec_bind_ok (hcreate fields) _)
  cases hfc : host.fault (.temporary true .create) with
  | some fault =>
      rw [hfc] at hstart
      exact hfinish none d (.refl _ d) hstart
  | none =>
      rw [hfc] at hstart
      cases hentry : d.entries.get? temporary with
      | some file =>
          have hexists : (FileCall.create temporary).answer none d = (.error .exists, d) :=
            Directory.create_of_entry hentry
          rw [hexists] at hstart
          exact hfinish none d (.refl _ d) hstart
      | none =>
          have hcreated : (FileCall.create temporary).answer none d =
              (.ok d.next, d.created temporary) := Directory.create_of_fresh hentry
          rw [hcreated] at hstart
          obtain ⟨written, d₁, hwrite, hok, hd₁, left, hleft⟩ :=
            exec_writeCopy host d.next bytes (d.created temporary)
          have hcreates : d.Within (fun name => name = temporary) (d.created temporary) :=
            (Directory.Within.refl _ d).created rfl
          have hwithin : d.Within (fun name => name = temporary) d₁ :=
            hleft ▸ hcreates.write le_rfl left
          have hnext : ∀ fields,
              exec host.handler (a.installBytes destination bytes) fields d = _ :=
            fun fields => (hstart fields).trans
              (Method.exec_bind_ok (Method.exec_attempt_of (hwrite fields)) _)
          cases hw : written with
          | error error =>
              rw [hw] at hnext
              exact hfinish (some d.next) d₁ hwithin hnext
          | ok _ =>
              obtain ⟨hfw, hfs, hfl⟩ := hok.1 hw
              have hcall : ∀ fields, exec host.handler (fileCall (.temporary true .rename)
                  (.rename temporary destination)) fields d₁ = _ :=
                fun fields => run_fileCall _ _
              have hrenames : ∃ code, (FileCall.rename temporary destination).answer
                  (host.fault (.temporary true .rename)) d₁ = (.error code, d₁) := by
                cases hfr : host.fault (.temporary true .rename) with
                | some fault => exact ⟨_, rfl⟩
                | none =>
                    obtain ⟨old, hentry', hkind⟩ : ∃ old,
                        d.entries.get? destination = some old ∧
                          (d.nodes old).kind = .directory := by
                      by_contra hnone
                      exact h ⟨⟨hfc, hfw, hfs, hfl, hfr⟩, hentry, fun old ho hk =>
                        hnone ⟨old, ho, hk⟩⟩
                    obtain rfl := hd₁ hw
                    exact ⟨_, Directory.rename_of_directory hne hold hentry' hkind bytes⟩
              obtain ⟨code, hrenamed⟩ := hrenames
              rw [hrenamed] at hcall
              rw [hw] at hnext
              exact hfinish none d₁ hwithin fun fields => (hnext fields).trans
                (Method.exec_bind_ok
                  (Method.exec_attempt_of (Method.exec_bind_error (hcall fields) _)) _)

end JsonFileAdapter

end NewtonDB
