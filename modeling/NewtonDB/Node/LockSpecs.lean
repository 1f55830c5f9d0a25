/-
# Taking and checking the lock

What `#acquireLock` and `#assertLockOwnership` of the file adapter do.  The lock is
taken in one of two ways: its name is free at the first turn, or a stale lock is
removed at the first turn and its name is free at the second (`Acquires`).  A turn that
creates the lock file and then fails to write or sync it leaves the file there, and the
adapter keeps no token for it (`Leaks`).

A lock counts as stale when its text names a process that is not alive (`NamesDead`), and
also when its text names none (`Unreadable`), as that of a lock file does whose creator has
not written it yet.
-/

import NewtonDB.Node.AdapterSpecs

namespace NewtonDB

open Method (exec)

namespace JsonFileAdapter

variable (a : JsonFileAdapter) (host : Host) (d : Directory JsString)

/-- The lock file bears the adapter's token. -/
def Owns (check : ℕ) (fields : AdapterFields) : Prop :=
  ∃ token, fields.lockToken = some token ∧
    (a.platform.parseLock ((host.textAt (.owner check) d a.lockPath).getD [])).map
      LockRecord.token = some token

/-- The parent directory is there, or can be made. -/
structure ParentReady : Prop where
  made : a.createDirectories = true → host.fault .makeParent = none ∧ d.parent ≠ .other
  seen : host.fault .checkParent = none
  there : a.createDirectories = true ∨ d.parent = .directory

/-- The calls that take a lock with a free name do not fail. -/
structure LocksAt (attempt : ℕ) : Prop where
  creates : host.fault (.lock attempt .create) = none
  writes : host.fault (.lock attempt .write) = none
  syncs : host.fault (.lock attempt .sync) = none

/-- The lock is that of no live process, and is removed. -/
structure TakesOver (attempt : ℕ) : Prop where
  creates : host.fault (.lock attempt .create) = none
  reads : ∃ text, host.textAt (.lock attempt .readFirst) d a.lockPath = some text ∧
    host.textAt (.lock attempt .readSecond) d a.lockPath = some text ∧
    host.isOwnerAlive (a.platform.parseLock text) = false
  removes : host.fault (.lock attempt .remove) = none

/-- The lock file is created, and then its text is not written or not synced. -/
def LeaksAt (attempt : ℕ) : Prop :=
  host.fault (.lock attempt .create) = none ∧
    ¬(host.fault (.lock attempt .write) = none ∧ host.fault (.lock attempt .sync) = none)

/-- The lock is taken. -/
def Acquires : Prop :=
  a.ParentReady host d ∧
    ((d.entries.get? a.lockPath = none ∧ LocksAt host 0) ∨ (a.TakesOver host d 0 ∧ LocksAt host 1))

/-- A lock file is created and left without an owner. -/
def Leaks : Prop :=
  a.ParentReady host d ∧
    ((d.entries.get? a.lockPath = none ∧ LeaksAt host 0) ∨ (a.TakesOver host d 0 ∧ LeaksAt host 1))

/-- The lock file is removed as stale: at the first turn, or at the second when the first
found it and left it. -/
def Removes : Prop :=
  a.ParentReady host d ∧
    (a.TakesOver host d 0 ∨ (host.fault (.lock 0 .create) = none ∧ a.TakesOver host d 1))

/-- The text of the lock file names a process, and that is not alive. -/
def NamesDead : Prop :=
  ∃ file record, d.entries.get? a.lockPath = some file ∧
    a.platform.parseLock (utf8Text (d.nodes file).bytes) = some record ∧
    host.isOwnerAlive (some record) = false

/-- The text of the lock file names no process: it is empty, or not that of a lock. -/
def Unreadable : Prop :=
  ∃ file, d.entries.get? a.lockPath = some file ∧
    a.platform.parseLock (utf8Text (d.nodes file).bytes) = none

variable {a host d}

/-! ### The owner of the lock -/

variable (a host d) in
/-- **The check of the lock** changes nothing, and passes exactly when the lock file bears the
adapter's token. -/
theorem exec_assertLockOwnership (check : ℕ) (fields : AdapterFields) : ∃ outcome,
    exec host.handler (a.assertLockOwnership check) fields d = (outcome, fields, d) ∧
    (outcome = .ok () ↔ a.Owns host d check fields) := by
  have hget : exec host.handler (get : AdapterMethod AdapterFields) fields d =
      (.ok fields, fields, d) := rfl
  rw [assertLockOwnership, Method.exec_bind_ok hget, Owns]
  cases fields.lockToken with
  | none => exact ⟨_, rfl, by simp⟩
  | some token =>
      dsimp only
      rw [Method.exec_bind_ok (run_readText ..)]
      by_cases h : (a.platform.parseLock ((host.textAt (.owner check) d a.lockPath).getD [])).map
          LockRecord.token = some token
      · exact ⟨.ok (), by rw [if_neg (not_not.2 h)]; rfl, by simp [h]⟩
      · exact ⟨_, by rw [if_pos h]; rfl, by simpa using h⟩

/-! ### The parent directory -/

variable (host) in
/-- `lstat` of the parent, and what is checked of it.  It passes when the system answers and
says that it is a directory. -/
theorem exec_seeParent (d : Directory JsString) : ∃ outcome : Except Thrown Unit,
    (∀ fields, exec host.handler (do
      let isDirectory ← tryCatch (fileCall .checkParent .lstat) fun _ =>
        throw (.newton (.storage (js "Storage parent directory is unavailable")))
      if !isDirectory then throw (.newton (.storage (js "Storage parent is not a directory"))) :
        AdapterMethod Unit) fields d = (outcome, fields, d)) ∧
    (outcome = .ok () ↔ host.fault .checkParent = none ∧ d.parent = .directory) := by
  have hcall : ∀ fields, exec host.handler (fileCall .checkParent .lstat) fields d = _ :=
    fun fields => run_fileCall_quiet rfl _
  cases hf : host.fault .checkParent with
  | some fault =>
      rw [hf] at hcall
      exact ⟨_, fun fields => Method.exec_bind_error
        (Method.exec_tryCatch_error (hcall fields) _) _, by simp⟩
  | none =>
      rw [hf] at hcall
      simp only [FileCall.answer, FileCall.perform, Directory.lstat] at hcall
      cases hp : d.parent with
      | absent =>
          rw [hp] at hcall
          exact ⟨_, fun fields => Method.exec_bind_error
            (Method.exec_tryCatch_error (hcall fields) _) _, by simp⟩
      | directory =>
          rw [hp] at hcall
          exact ⟨_, fun fields => Method.exec_bind_ok
            (Method.exec_tryCatch_ok (hcall fields) _) _, by simp⟩
      | other =>
          rw [hp] at hcall
          exact ⟨_, fun fields => Method.exec_bind_ok
            (Method.exec_tryCatch_ok (hcall fields) _) _, by simp⟩

variable (a host d) in
/-- **The check of the parent** may make the directory and changes nothing else, and passes
exactly when the parent is ready. -/
theorem exec_checkParent : ∃ parent outcome,
    (∀ fields, exec host.handler a.checkParent fields d =
      (outcome, fields, { d with parent := parent })) ∧
    (outcome = .ok () ↔ a.ParentReady host d) := by
  cases hc : a.createDirectories with
  | false =>
      obtain ⟨outcome, hrun, hok⟩ := exec_seeParent host d
      refine ⟨d.parent, outcome, fun fields => ?_,
        hok.trans ⟨fun h => ⟨by simp [hc], h.1, .inr h.2⟩,
        fun h => ⟨h.seen, h.there.resolve_left (by simp [hc])⟩⟩⟩
      rw [checkParent, hc]
      exact hrun fields
  | true =>
      have hcall : ∀ fields, exec host.handler (fileCall .makeParent .mkdir) fields d = _ :=
        fun fields => run_fileCall _ _
      have hfailed : ∀ parent e, (∀ fields, exec host.handler (fileCall .makeParent .mkdir)
          fields d = (.error e, fields, { d with parent := parent })) →
          ∃ outcome : Except Thrown Unit, (∀ fields, exec host.handler a.checkParent fields d =
            (outcome, fields, { d with parent := parent })) ∧ outcome ≠ .ok () :=
        fun parent e he => ⟨_, fun fields => by
          rw [checkParent, hc]
          exact Method.exec_bind_error (Method.exec_tryCatch_error (he fields) _) _, by simp⟩
      have hmade : host.fault .makeParent = none → d.parent ≠ .other →
          (∀ fields, exec host.handler (fileCall .makeParent .mkdir) fields d =
            (.ok (), fields, { d with parent := .directory })) →
          ∃ parent outcome, (∀ fields, exec host.handler a.checkParent fields d =
            (outcome, fields, { d with parent := parent })) ∧
            (outcome = .ok () ↔ a.ParentReady host d) := fun hf hp hcall => by
        obtain ⟨outcome, hrun, hok⟩ :=
          exec_seeParent host { d with parent := .directory }
        refine ⟨.directory, outcome, fun fields => ?_, hok.trans
          ⟨fun h => ⟨fun _ => ⟨hf, hp⟩, h.1, .inl hc⟩, fun h => ⟨h.seen, rfl⟩⟩⟩
        rw [checkParent, hc]
        exact (Method.exec_bind_ok (Method.exec_tryCatch_ok (hcall fields) _) _).trans (hrun fields)
      cases hf : host.fault .makeParent with
      | some fault =>
          rw [hf] at hcall
          obtain ⟨outcome, hrun, hne⟩ := hfailed d.parent _ hcall
          exact ⟨d.parent, outcome, hrun, fun h => absurd h hne,
            fun h => by cases hf.symm.trans (h.made hc).1⟩
      | none =>
          rw [hf] at hcall
          simp only [FileCall.answer, FileCall.perform, Directory.mkdir] at hcall
          cases hp : d.parent with
          | other =>
              rw [hp] at hcall
              obtain ⟨outcome, hrun, hne⟩ := hfailed d.parent _ hcall
              exact ⟨d.parent, outcome, hrun, fun h => absurd h hne,
                fun h => absurd hp (h.made hc).2⟩
          | absent =>
              rw [hp] at hcall
              exact hmade hf (by simp [hp]) hcall
          | directory =>
              rw [hp] at hcall
              have hsame : ({ d with parent := .directory } : Directory JsString) = d := by
                rw [← hp]
              exact hmade hf (by simp [hp]) fun fields => (hcall fields).trans (by rw [hsame]; rfl)

/-! ### One turn -/

/-- The directory with the lock file of the adapter. -/
def locked (a : JsonFileAdapter) (d : Directory JsString) (bytes : List UInt8) :
    Directory JsString := (d.created a.lockPath).write d.next bytes

/-- The lock is taken under a free name.  None of its three calls fails, and afterwards the file
has the text of the lock. -/
theorem exec_attemptLock_taken {attempt : ℕ} (h : LocksAt host attempt)
    (hfree : d.entries.get? a.lockPath = none) (fields : AdapterFields) :
    exec host.handler (a.attemptLock attempt) fields d =
      (.ok true, { fields with
        lock := some d.next, lockToken := some (host.uuid (.token attempt)) },
        a.locked d (utf8Encode (a.lockText (host.uuid (.token attempt))))) := by
  have hcreate : exec host.handler (fileCall (.lock attempt .create) (.create a.lockPath))
      fields d = (.ok d.next, fields, d.created a.lockPath) := by
    rw [run_fileCall_perform h.creates]
    show ((d.create a.lockPath).1.mapError _, _, (d.create a.lockPath).2) = _
    rw [Directory.create_of_fresh hfree]
    rfl
  have hwrite : exec host.handler (fileCall (.lock attempt .write) (.write d.next
      (utf8Encode (a.lockText (host.uuid (.token attempt)))))) fields (d.created a.lockPath) = _ :=
    run_fileCall_perform h.writes _
  have hsync : ∀ d', exec host.handler (fileCall (.lock attempt .sync) (.sync d.next)) fields d' =
      (.ok (), fields, d') := fun d' => run_fileCall_perform h.syncs _
  exact (Method.exec_bind_ok (run_randomUUID _) _).trans (Method.exec_tryCatch_ok
    ((Method.exec_bind_ok hcreate _).trans ((Method.exec_bind_ok hwrite _).trans
      ((Method.exec_bind_ok (hsync _) _).trans rfl))) _)

/-- A turn that does not create the lock for another reason than that there is one. -/
theorem exec_lockFailed_other {attempt : ℕ} {error : Thrown} (h : error ≠ .system .exists)
    (fields : AdapterFields) : exec host.handler (a.lockFailed attempt error) fields d =
      (.error (.newton (.storage (js "Failed to acquire the database lock"))), fields, d) := by
  rw [lockFailed, if_pos h]
  rfl

/-- A turn whose `try` throws for another reason than that there is a lock. -/
theorem exec_attemptLock_error {attempt : ℕ} {error : Thrown} {d' : Directory JsString}
    (hne : error ≠ .system .exists) (hrun : ∀ fields, exec host.handler
      (a.createLock attempt (host.uuid (.token attempt))) fields d = (.error error, fields, d'))
    (fields : AdapterFields) : exec host.handler (a.attemptLock attempt) fields d =
      (.error (.newton (.storage (js "Failed to acquire the database lock"))), fields, d') :=
  (Method.exec_bind_ok (run_randomUUID _) _).trans
    ((Method.exec_tryCatch_error (hrun fields) _).trans (exec_lockFailed_other hne fields))

/-- The lock file cannot be created.  No fault says that the file exists, so a `StorageError` is
thrown, and nothing was created. -/
theorem exec_attemptLock_fault {attempt : ℕ} {fault : Fault}
    (h : host.fault (.lock attempt .create) = some fault) (d : Directory JsString) :
    ∃ thrown, ∀ fields, exec host.handler (a.attemptLock attempt) fields d =
      (.error thrown, fields, d) := by
  have hcreate : ∀ fields, exec host.handler (fileCall (.lock attempt .create)
      (.create a.lockPath)) fields d = (.error (.system fault.code.code), fields, d) :=
    fun fields => by
      rw [run_fileCall, h]
      rfl
  exact ⟨_, exec_attemptLock_error (by simpa using (code_ne fault.code).2.1) fun fields =>
    Method.exec_bind_error (hcreate fields) _⟩

/-- **A lock file is created, and the adapter keeps no token for it.**  What stands in the file
is as much of its text as was written. -/
theorem exec_attemptLock_leaked {attempt : ℕ} (h : LeaksAt host attempt)
    (hfree : d.entries.get? a.lockPath = none) : ∃ thrown left, ∀ fields,
    exec host.handler (a.attemptLock attempt) fields d =
      (.error thrown, fields, a.locked d left) := by
  have hcreate : ∀ fields, exec host.handler (fileCall (.lock attempt .create)
      (.create a.lockPath)) fields d =
        (.ok d.next, fields, d.created a.lockPath) := fun fields => by
    rw [run_fileCall_perform h.1]
    show ((d.create a.lockPath).1.mapError _, _, (d.create a.lockPath).2) = _
    rw [Directory.create_of_fresh hfree]
    rfl
  have hwrite : ∀ fields, exec host.handler (fileCall (.lock attempt .write) (.write d.next
      (utf8Encode (a.lockText (host.uuid (.token attempt)))))) fields (d.created a.lockPath) = _ :=
    fun fields => run_fileCall _ _
  cases hfw : host.fault (.lock attempt .write) with
  | some fault =>
      rw [hfw] at hwrite
      refine ⟨_, fault.left, exec_attemptLock_error
        (show Thrown.system fault.code.code ≠ _ by simpa using (code_ne fault.code).2.1)
        fun fields => ?_⟩
      exact (Method.exec_bind_ok (hcreate fields) _).trans
        (Method.exec_bind_error (hwrite fields) _)
  | none =>
      obtain ⟨fault, hfs⟩ := Option.ne_none_iff_exists'.1 fun hfs => h.2 ⟨hfw, hfs⟩
      have hsync : ∀ fields d', exec host.handler (fileCall (.lock attempt .sync) (.sync d.next))
          fields d' = _ := fun fields d' => run_fileCall_quiet rfl _
      rw [hfw] at hwrite
      rw [hfs] at hsync
      refine ⟨_, utf8Encode (a.lockText (host.uuid (.token attempt))), exec_attemptLock_error
        (show Thrown.system fault.code.code ≠ _ by simpa using (code_ne fault.code).2.1)
        fun fields => ?_⟩
      exact (Method.exec_bind_ok (hcreate fields) _).trans
        ((Method.exec_bind_ok (hwrite fields) _).trans (Method.exec_bind_error (hsync ..) _))

/-- A turn that finds a lock file.  The create is refused because the name is taken. -/
theorem exec_attemptLock_held {attempt : ℕ} {file : ℕ}
    (h : host.fault (.lock attempt .create) = none) (hheld : d.entries.get? a.lockPath = some file)
    (fields : AdapterFields) : exec host.handler (a.attemptLock attempt) fields d =
      exec host.handler (a.lockFailed attempt (.system .exists)) fields d := by
  have hcreate : exec host.handler (fileCall (.lock attempt .create) (.create a.lockPath))
      fields d = (.error (.system .exists), fields, d) := by
    rw [run_fileCall_perform h]
    show ((d.create a.lockPath).1.mapError _, _, (d.create a.lockPath).2) = _
    rw [Directory.create_of_entry hheld]
    rfl
  exact (Method.exec_bind_ok (run_randomUUID _) _).trans
    (Method.exec_tryCatch_error (Method.exec_bind_error hcreate _) _)

/-- What is done about a lock file that is there.  The process it names is asked for; a dead
one's file is removed when it reads the same twice. -/
theorem exec_lockFailed_exists {attempt : ℕ} {first second : Option JsString}
    (hfirst : host.textAt (.lock attempt .readFirst) d a.lockPath = first)
    (hsecond : host.textAt (.lock attempt .readSecond) d a.lockPath = second)
    (fields : AdapterFields) :
    exec host.handler (a.lockFailed attempt (.system .exists)) fields d =
      if host.isOwnerAlive (first.bind a.platform.parseLock) = true then
        (.error (.newton (.storageConflict (js "The database is locked by another live process"))),
          fields, d)
      else if first = none ∨ second ≠ first then (.ok false, fields, d)
      else (.ok false, fields,
        ((FileCall.unlink a.lockPath).answer (host.fault (.lock attempt .remove)) d).2) := by
  subst hfirst hsecond
  rw [lockFailed, if_neg (not_not.2 rfl)]
  refine (Method.exec_bind_ok (run_readText ..) _).trans ?_
  refine (Method.exec_bind_ok (run_isOwnerAlive _) _).trans ?_
  split_ifs with halive htext
  · rfl
  · refine (Method.exec_bind_ok (run_readText ..) _).trans ?_
    rw [if_pos htext]
    rfl
  · refine (Method.exec_bind_ok (run_readText ..) _).trans ?_
    rw [if_neg htext]
    exact Method.exec_bind_ok (Method.exec_attempt_of (run_fileCall _ _)) _

/-- A text that was read is that of a file that can be removed.  So the removal that follows
does not fail for what it finds. -/
theorem exists_of_textAt {site : CallSite} {name text : JsString}
    (h : host.textAt site d name = some text) :
    ∃ file, d.entries.get? name = some file ∧ (d.nodes file).kind ≠ .directory ∧
      text = utf8Text (d.nodes file).bytes := by
  rw [Host.textAt] at h
  split_ifs at h
  rw [Directory.readFile] at h
  cases hentry : d.entries.get? name with
  | none => simp [hentry, Except.toOption] at h
  | some file =>
      rw [hentry] at h
      simp only [Directory.read] at h
      split_ifs at h with hkind
      · simp [Except.toOption] at h
      · exact ⟨file, rfl, hkind, (Option.some.inj h).symm⟩

/-- **A stale lock is removed.**  The turn ends without a lock, and the next one finds the name
free. -/
theorem exec_attemptLock_takenOver {attempt : ℕ} (h : a.TakesOver host d attempt)
    (fields : AdapterFields) : exec host.handler (a.attemptLock attempt) fields d =
      (.ok false, fields, (d.unlink a.lockPath).2) := by
  obtain ⟨hcreates, ⟨text, hfirst, hsecond, hdead⟩, hremoves⟩ := h
  obtain ⟨file, hheld, -, -⟩ := exists_of_textAt hfirst
  rw [exec_attemptLock_held hcreates hheld, exec_lockFailed_exists hfirst hsecond,
    if_neg (by simpa using hdead), if_neg (by simp), hremoves]
  rfl

/-- **Any other lock file stays**, and the lock is not taken.  There is another turn when
the file was found and its owner not seen alive. -/
theorem exec_attemptLock_kept {attempt : ℕ} {file : ℕ}
    (hheld : d.entries.get? a.lockPath = some file) (h : ¬a.TakesOver host d attempt) :
    ∃ outcome, (∀ fields, exec host.handler (a.attemptLock attempt) fields d =
      (outcome, fields, d)) ∧ outcome ≠ .ok true ∧
      (host.fault (.lock attempt .create) = none → host.isOwnerAlive ((host.textAt
        (.lock attempt .readFirst) d a.lockPath).bind a.platform.parseLock) = false →
          outcome = .ok false) := by
  cases hcreates : host.fault (.lock attempt .create) with
  | some fault =>
      obtain ⟨thrown, hrun⟩ := exec_attemptLock_fault (a := a) hcreates d
      exact ⟨_, hrun, by simp, fun hn => by cases hn⟩
  | none =>
      have hrun : ∀ fields, exec host.handler (a.attemptLock attempt) fields d = _ :=
        fun fields => (exec_attemptLock_held hcreates hheld fields).trans
          (exec_lockFailed_exists rfl rfl fields)
      by_cases halive : host.isOwnerAlive ((host.textAt (.lock attempt .readFirst) d
          a.lockPath).bind a.platform.parseLock) = true
      · exact ⟨_, fun fields => (hrun fields).trans (if_pos halive), by simp, fun _ hdead => by
          cases halive.symm.trans hdead⟩
      · simp only [if_neg halive] at hrun
        by_cases htext : host.textAt (.lock attempt .readFirst) d a.lockPath = none ∨
            host.textAt (.lock attempt .readSecond) d a.lockPath ≠
              host.textAt (.lock attempt .readFirst) d a.lockPath
        · exact ⟨_, fun fields => (hrun fields).trans (if_pos htext), by simp, fun _ _ => rfl⟩
        · simp only [if_neg htext] at hrun
          obtain ⟨hsome, hsame⟩ := not_or.1 htext
          obtain ⟨text, hfirst⟩ := Option.ne_none_iff_exists'.1 hsome
          have hdead : host.isOwnerAlive (a.platform.parseLock text) = false := by
            simpa [hfirst] using halive
          obtain ⟨fault, hremoves⟩ := Option.ne_none_iff_exists'.1 fun hr =>
            h ⟨hcreates, ⟨text, hfirst, (not_not.1 hsame).trans hfirst, hdead⟩, hr⟩
          rw [hremoves] at hrun
          exact ⟨_, hrun, by simp, fun _ _ => rfl⟩

/-- What is read of a lock file that is taken over names no live process, whichever read it
is, and whether it succeeds or not. -/
theorem TakesOver.notAlive {attempt : ℕ} (h : a.TakesOver host d attempt) (site : CallSite) :
    host.isOwnerAlive ((host.textAt site d a.lockPath).bind a.platform.parseLock) = false := by
  obtain ⟨text, hfirst, -, hdead⟩ := h.reads
  rw [Host.textAt] at hfirst ⊢
  split_ifs at hfirst ⊢ with hfault hfault'
  · rfl
  · rw [hfirst]
    exact hdead

/-! ### Both turns -/

/-- Without a parent no lock is taken, and nothing but the parent changes. -/
theorem exec_acquireLock_unready (h : ¬a.ParentReady host d) : ∃ parent thrown, ∀ fields,
    exec host.handler a.acquireLock fields d =
      (.error thrown, fields, { d with parent := parent }) := by
  obtain ⟨parent, outcome, hrun, hok⟩ := exec_checkParent a host d
  cases outcome with
  | ok _ => exact absurd (hok.1 rfl) h
  | error thrown => exact ⟨parent, thrown, fun fields => Method.exec_bind_error (hrun fields) _⟩

/-- The turns that follow the checks of the parent. -/
def attemptTwice (a : JsonFileAdapter) : AdapterMethod Unit := do
  if ← a.attemptLock 0 then return
  if ← a.attemptLock 1 then return
  throw (.newton (.storageConflict (js "Could not safely recover the stale database lock")))

/-- With a parent that is ready the lock is attempted twice. -/
theorem exec_acquireLock_ready (h : a.ParentReady host d) : ∃ parent, ∀ fields,
    exec host.handler a.acquireLock fields d =
      exec host.handler a.attemptTwice fields { d with parent := parent } := by
  obtain ⟨parent, outcome, hrun, hok⟩ := exec_checkParent a host d
  obtain rfl := hok.2 h
  exact ⟨parent, fun fields => Method.exec_bind_ok (hrun fields) _⟩

/-- To take the lock changes no name but its own. -/
theorem within_locked (d : Directory JsString) (bytes : List UInt8) :
    d.Within (fun name => name = a.lockPath) (a.locked d bytes) := by
  have hcreated : d.Within (fun name => name = a.lockPath) (d.created a.lockPath) :=
    (Directory.Within.refl _ d).created rfl
  exact hcreated.write le_rfl bytes

/-- The lock file that was taken is the new file. -/
theorem get?_locked (d : Directory JsString) (bytes : List UInt8) :
    (a.locked d bytes).entries.get? a.lockPath = some d.next := OrderedMap.get?_set_self ..

/-- The new file has the text of the lock, and one link. -/
theorem node_locked (d : Directory JsString) (bytes : List UInt8) :
    (a.locked d bytes).nodes d.next = ⟨.regular, bytes, 1⟩ := by
  rw [locked, Directory.node_write_self, Directory.node_created_self]

/-- The directory once a lock file is removed.  The name is free then, and no other entry has
changed. -/
theorem unlinked_of_takesOver {attempt : ℕ} (h : a.TakesOver host d attempt) :
    (d.unlink a.lockPath).2.entries.get? a.lockPath = none ∧
      (d.unlink a.lockPath).2.next = d.next ∧
      d.Within (fun name => name = a.lockPath) (d.unlink a.lockPath).2 := by
  obtain ⟨text, hfirst, -, -⟩ := h.reads
  obtain ⟨file, hheld, hkind, -⟩ := exists_of_textAt hfirst
  refine ⟨?_, ?_, (Directory.Within.refl _ d).unlink rfl⟩
  · rw [Directory.unlink_of_entry hheld hkind, OrderedMap.get?_delete, if_pos rfl]
  · rw [Directory.unlink_of_entry hheld hkind]

/-- A stale lock is found, so there is one. -/
theorem TakesOver.held {attempt : ℕ} (h : a.TakesOver host d attempt) :
    ∃ file, d.entries.get? a.lockPath = some file := by
  obtain ⟨text, hfirst, -, -⟩ := h.reads
  obtain ⟨file, hheld, -, -⟩ := exists_of_textAt hfirst
  exact ⟨file, hheld⟩

/-- **A lock that is removed as stale names a dead process, or none.**  It was read twice with
the same text, and a live process would have kept it. -/
theorem Removes.namesDead_iff (h : a.Removes host d) :
    a.NamesDead host d ↔ ¬a.Unreadable d := by
  have htakes : ∃ attempt, a.TakesOver host d attempt := h.2.elim (⟨0, ·⟩) fun h => ⟨1, h.2⟩
  obtain ⟨attempt, htakes⟩ := htakes
  obtain ⟨text, hfirst, -, hdead⟩ := htakes.reads
  obtain ⟨file, hheld, -, rfl⟩ := exists_of_textAt hfirst
  constructor
  · rintro ⟨file₁, record, hheld₁, hparse, -⟩ ⟨file₂, hheld₂, hnone⟩
    obtain rfl := Option.some.inj (hheld₁.symm.trans hheld₂)
    cases hparse.symm.trans hnone
  · intro hread
    cases hparse : a.platform.parseLock (utf8Text (d.nodes file).bytes) with
    | none => exact absurd ⟨file, hheld, hparse⟩ hread
    | some record => exact ⟨file, record, hheld, hparse, hparse ▸ hdead⟩

/-- What taking the lock leaves: the adapter's lock file, and one link less of a stale one. -/
structure LockTaken (a : JsonFileAdapter) (d : Directory JsString) (token : JsString)
    (d' : Directory JsString) : Prop where
  entry : d'.entries.get? a.lockPath = some d.next
  node : d'.nodes d.next = ⟨.regular, utf8Encode (a.lockText token), 1⟩
  within : d.Within (fun name => name = a.lockPath) d'
  wf : d'.WF
  links : ∀ file < d.next, (d'.nodes file).links =
    (d.nodes file).links - if d.entries.get? a.lockPath = some file then 1 else 0

/-- A directory whose lock was taken is well formed. -/
theorem wf_locked (hd : d.WF) (hfree : d.entries.get? a.lockPath = none) (bytes : List UInt8) :
    (a.locked d bytes).WF := by
  have hcreate := hd.create a.lockPath
  rw [Directory.create_of_fresh hfree] at hcreate
  exact hcreate.write _ _

/-- The lock file is another file than those there were. -/
theorem nodes_locked (d : Directory JsString) (bytes : List UInt8) {file : ℕ} (h : file < d.next) :
    (a.locked d bytes).nodes file = d.nodes file := by
  rw [locked, Directory.node_write _ _ h.ne, Directory.node_created d a.lockPath h.ne]

/-- **The lock is taken** at the first turn when its name is free, and at the second when a
stale lock was removed; what the adapter keeps is the new file and its token. -/
theorem exec_attemptTwice (hd : d.WF) (h : (d.entries.get? a.lockPath = none ∧ LocksAt host 0) ∨
      (a.TakesOver host d 0 ∧ LocksAt host 1)) : ∃ token d',
    (∀ fields, exec host.handler a.attemptTwice fields d =
      (.ok (), { fields with lock := some d.next, lockToken := some token }, d')) ∧
    (token = host.uuid (.token 0) ∨ token = host.uuid (.token 1)) ∧ a.LockTaken d token d' := by
  rcases h with ⟨hfree, hlocks⟩ | ⟨htakes, hlocks⟩
  · refine ⟨_, _, fun fields => Method.exec_bind_ok (exec_attemptLock_taken hlocks hfree fields) _,
      .inl rfl, get?_locked _ _, node_locked _ _, within_locked _ _, wf_locked hd hfree _, ?_⟩
    intro file hf
    refine (congrArg FileNode.links (nodes_locked d _ hf)).trans ?_
    rw [hfree]
    rfl
  · obtain ⟨hfree, hnext, hwithin⟩ := unlinked_of_takesOver htakes
    have hentry := get?_locked (a := a) (d.unlink a.lockPath).2
      (utf8Encode (a.lockText (host.uuid (.token 1))))
    have hnode := node_locked (a := a) (d.unlink a.lockPath).2
      (utf8Encode (a.lockText (host.uuid (.token 1))))
    have hrun : ∀ fields, exec host.handler a.attemptTwice fields d = _ := fun fields =>
      (Method.exec_bind_ok (exec_attemptLock_takenOver htakes fields) _).trans
        (Method.exec_bind_ok (exec_attemptLock_taken hlocks hfree fields) _)
    rw [hnext] at hentry hnode hrun
    refine ⟨_, _, hrun, .inr rfl, hentry, hnode, hwithin.trans (within_locked _ _),
      wf_locked (hd.unlink _) hfree _, fun file hf => ?_⟩
    refine (congrArg FileNode.links (nodes_locked _ _ (hnext ▸ hf))).trans ?_
    obtain ⟨text, hfirst, -, -⟩ := htakes.reads
    obtain ⟨old, hheld, hkind, -⟩ := exists_of_textAt hfirst
    exact Directory.links_unlink hheld hkind file

/-- **The lock file is left behind** when a turn creates it and fails then: no field tells of
it. -/
theorem exec_attemptTwice_leaks (h : (d.entries.get? a.lockPath = none ∧ LeaksAt host 0) ∨
      (a.TakesOver host d 0 ∧ LeaksAt host 1)) : ∃ thrown d',
    (∀ fields, exec host.handler a.attemptTwice fields d = (.error thrown, fields, d')) ∧
    d'.entries.get? a.lockPath = some d.next ∧ d.Within (fun name => name = a.lockPath) d' := by
  rcases h with ⟨hfree, hleaks⟩ | ⟨htakes, hleaks⟩
  · obtain ⟨thrown, left, hleaked⟩ := exec_attemptLock_leaked hleaks hfree
    exact ⟨thrown, _, fun fields => Method.exec_bind_error (hleaked fields) _, get?_locked _ _,
      within_locked _ _⟩
  · obtain ⟨hfree, hnext, hwithin⟩ := unlinked_of_takesOver htakes
    obtain ⟨thrown, left, hleaked⟩ := exec_attemptLock_leaked hleaks hfree
    refine ⟨thrown, _, fun fields => (Method.exec_bind_ok
      (exec_attemptLock_takenOver htakes fields) _).trans
        (Method.exec_bind_error (hleaked fields) _),
      ?_, hwithin.trans (within_locked _ _)⟩
    exact (get?_locked ..).trans (congrArg some hnext)

/-- **The lock is not taken, and none is created.**  Both turns leave the lock file that is
there, or one of them removes it. -/
theorem exec_attemptTwice_refused (h : ¬((d.entries.get? a.lockPath = none ∧ LocksAt host 0) ∨
      (a.TakesOver host d 0 ∧ LocksAt host 1)))
    (h' : ¬((d.entries.get? a.lockPath = none ∧ LeaksAt host 0) ∨
      (a.TakesOver host d 0 ∧ LeaksAt host 1))) : ∃ thrown d',
    (∀ fields, exec host.handler a.attemptTwice fields d = (.error thrown, fields, d')) ∧
    d.Within (fun name => name = a.lockPath) d' ∧
    ((d'.entries.get? a.lockPath = d.entries.get? a.lockPath ∧ ¬(a.TakesOver host d 0 ∨
        (host.fault (.lock 0 .create) = none ∧ a.TakesOver host d 1))) ∨
      (d'.entries.get? a.lockPath = none ∧ (a.TakesOver host d 0 ∨
        (host.fault (.lock 0 .create) = none ∧ a.TakesOver host d 1)))) := by
  have hfault : ∀ attempt, ¬LocksAt host attempt → ¬LeaksAt host attempt →
      ∃ fault, host.fault (.lock attempt .create) = some fault := by
    intro attempt hl hl'
    refine Option.ne_none_iff_exists'.1 fun hc => ?_
    by_cases hw : host.fault (.lock attempt .write) = none ∧ host.fault (.lock attempt .sync) = none
    · exact hl ⟨hc, hw.1, hw.2⟩
    · exact hl' ⟨hc, hw⟩
  cases hentry : d.entries.get? a.lockPath with
  | none =>
      obtain ⟨fault, hf⟩ :=
        hfault 0 (fun hl => h (.inl ⟨hentry, hl⟩)) fun hl => h' (.inl ⟨hentry, hl⟩)
      obtain ⟨thrown, hrun⟩ := exec_attemptLock_fault (a := a) hf d
      refine ⟨thrown, d, fun fields => Method.exec_bind_error (hrun fields) _, .refl _ d,
        .inl ⟨hentry, ?_⟩⟩
      have hnever : ∀ attempt, ¬a.TakesOver host d attempt := fun attempt htakes => by
        obtain ⟨file, hheld⟩ := htakes.held
        cases hentry.symm.trans hheld
      exact not_or.2 ⟨hnever 0, fun ht => hnever 1 ht.2⟩
  | some file =>
    by_cases htakes : a.TakesOver host d 0
    · obtain ⟨hfree, hnext, hwithin⟩ := unlinked_of_takesOver htakes
      obtain ⟨fault, hf⟩ :=
        hfault 1 (fun hl => h (.inr ⟨htakes, hl⟩)) fun hl => h' (.inr ⟨htakes, hl⟩)
      obtain ⟨thrown, hrun⟩ := exec_attemptLock_fault (a := a) hf (d.unlink a.lockPath).2
      exact ⟨thrown, _, fun fields => (Method.exec_bind_ok
        (exec_attemptLock_takenOver htakes fields) _).trans
          (Method.exec_bind_error (hrun fields) _),
        hwithin, .inr ⟨hfree, .inl htakes⟩⟩
    · obtain ⟨outcome, hrun, hne, hagain⟩ := exec_attemptLock_kept hentry htakes
      cases outcome with
      | error thrown =>
          refine ⟨thrown, d, fun fields => Method.exec_bind_error (hrun fields) _, .refl _ d,
            .inl ⟨hentry, not_or.2 ⟨htakes, fun ⟨hcreates, htakes'⟩ => ?_⟩⟩⟩
          cases hagain hcreates (htakes'.notAlive _)
      | ok taken =>
          obtain rfl : taken = false := by simpa using hne
          have hcreates : host.fault (.lock 0 .create) = none := by
            by_contra hf
            obtain ⟨fault, hf⟩ := Option.ne_none_iff_exists'.1 hf
            obtain ⟨thrown, hrun'⟩ := exec_attemptLock_fault (a := a) hf d
            cases (hrun .new).symm.trans (hrun' .new)
          by_cases htakes' : a.TakesOver host d 1
          · obtain ⟨hfree, -, hwithin⟩ := unlinked_of_takesOver htakes'
            exact ⟨_, _, fun fields => (Method.exec_bind_ok (hrun fields) _).trans
              (Method.exec_bind_ok (exec_attemptLock_takenOver htakes' fields) _), hwithin,
              .inr ⟨hfree, .inr ⟨hcreates, htakes'⟩⟩⟩
          · have hstays : ¬(a.TakesOver host d 0 ∨
                (host.fault (.lock 0 .create) = none ∧ a.TakesOver host d 1)) :=
              not_or.2 ⟨htakes, fun ht => htakes' ht.2⟩
            obtain ⟨outcome', hrun', hne', -⟩ := exec_attemptLock_kept hentry htakes'
            cases outcome' with
            | error thrown =>
                exact ⟨thrown, d, fun fields => (Method.exec_bind_ok (hrun fields) _).trans
                  (Method.exec_bind_error (hrun' fields) _), .refl _ d, .inl ⟨hentry, hstays⟩⟩
            | ok taken' =>
                obtain rfl : taken' = false := by simpa using hne'
                exact ⟨_, d, fun fields => (Method.exec_bind_ok (hrun fields) _).trans
                  (Method.exec_bind_ok (hrun' fields) _), .refl _ d, .inl ⟨hentry, hstays⟩⟩

/-- Nothing that is read of the lock depends on the parent. -/
theorem takesOver_withParent {attempt : ℕ} (parent : Parent) :
    a.TakesOver host { d with parent := parent } attempt ↔ a.TakesOver host d attempt :=
  ⟨fun h => ⟨h.creates, h.reads, h.removes⟩, fun h => ⟨h.creates, h.reads, h.removes⟩⟩

/-- **The lock is taken.**  The parent is ready, and one of the two turns creates, writes and
syncs the lock file. -/
theorem exec_acquireLock (hd : d.WF) (h : a.Acquires host d) : ∃ token d',
    (∀ fields, exec host.handler a.acquireLock fields d =
      (.ok (), { fields with lock := some d.next, lockToken := some token }, d')) ∧
    (token = host.uuid (.token 0) ∨ token = host.uuid (.token 1)) ∧ a.LockTaken d token d' := by
  obtain ⟨parent, hrun⟩ := exec_acquireLock_ready h.1
  have hlock := h.2
  rw [← takesOver_withParent parent] at hlock
  obtain ⟨token, d', htaken, htoken, hleft⟩ :=
    exec_attemptTwice (d := { d with parent := parent }) ⟨hd.bound, hd.links⟩ hlock
  exact ⟨token, d', fun fields => (hrun fields).trans (htaken fields), htoken, hleft.entry,
    hleft.node,
    ((Directory.Within.refl _ d).withParent parent).trans hleft.within, hleft.wf, hleft.links⟩

/-- **A lock file is left without an owner.**  It bears the name of the lock, so that no other
adapter can create one. -/
theorem exec_acquireLock_leaks (h : a.Leaks host d) : ∃ thrown d',
    (∀ fields, exec host.handler a.acquireLock fields d = (.error thrown, fields, d')) ∧
    d'.entries.get? a.lockPath = some d.next ∧ d.Within (fun name => name = a.lockPath) d' := by
  obtain ⟨parent, hrun⟩ := exec_acquireLock_ready h.1
  have hlock := h.2
  rw [← takesOver_withParent parent] at hlock
  obtain ⟨thrown, d', hleaked, hentry, hwithin⟩ :=
    exec_attemptTwice_leaks (d := { d with parent := parent }) hlock
  exact ⟨thrown, d', fun fields => (hrun fields).trans (hleaked fields), hentry,
    ((Directory.Within.refl _ d).withParent parent).trans hwithin⟩

/-- **The lock is not taken, and none is created**: it is as it was, or it was removed as
stale and is gone. -/
theorem exec_acquireLock_refused (h : ¬a.Acquires host d) (h' : ¬a.Leaks host d) : ∃ thrown d',
    (∀ fields, exec host.handler a.acquireLock fields d = (.error thrown, fields, d')) ∧
    d.Within (fun name => name = a.lockPath) d' ∧
    ((d'.entries.get? a.lockPath = d.entries.get? a.lockPath ∧ ¬a.Removes host d) ∨
      (d'.entries.get? a.lockPath = none ∧ a.Removes host d)) := by
  by_cases hready : a.ParentReady host d
  · obtain ⟨parent, hrun⟩ := exec_acquireLock_ready hready
    have hrefl := (Directory.Within.refl (fun name => name = a.lockPath) d).withParent parent
    have hfree := fun hl => h ⟨hready, hl⟩
    have hleak := fun hl => h' ⟨hready, hl⟩
    rw [← takesOver_withParent parent] at hfree hleak
    obtain ⟨thrown, d', hrefused, hwithin, hlock⟩ :=
      exec_attemptTwice_refused (d := { d with parent := parent }) hfree hleak
    rw [takesOver_withParent parent, takesOver_withParent parent] at hlock
    refine ⟨thrown, d', fun fields => (hrun fields).trans (hrefused fields), hrefl.trans hwithin,
      hlock.imp (fun h => ⟨h.1, fun hremoves => h.2 hremoves.2⟩) fun h => ⟨h.1, hready, h.2⟩⟩
  · obtain ⟨parent, thrown, hrun⟩ := exec_acquireLock_unready hready
    exact ⟨thrown, _, hrun, (Directory.Within.refl _ d).withParent parent,
      .inl ⟨rfl, fun hremoves => hready hremoves.1⟩⟩

end JsonFileAdapter

end NewtonDB
