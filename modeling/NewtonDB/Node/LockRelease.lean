/-
# A failed open and the lock

`load` of the file adapter takes the lock in several calls: the lock file is created,
written and synced, and only then does the adapter keep its token.  So a load that
fails later closes the adapter and removes the lock file, and so does `Database.open`
when the snapshot is no database (`exec_load_new`, `exec_openFailed`).  A load that
fails between the creation and the sync leaves the file, and no later `close` removes
it.  A load that finds a lock file without a readable text removes it as stale, whoever
made it, and may fail afterwards.  A failed open leaves the lock as it should in every
other case (`failed_open_releases_lock_iff`).

What the lock file holds is read back by `JSON.parse`; `ReadsBack` says that this gives
the process and the token that were written.
-/

import NewtonDB.Node.Frames
import NewtonDB.Node.TemporaryNames

namespace NewtonDB

open Method (exec)

/-- The fields of a new adapter that has taken the lock. -/
def AdapterFields.locked (handle : ℕ) (token : JsString) : AdapterFields :=
  { AdapterFields.new with loaded := true, lock := some handle, lockToken := some token }

namespace JsonFileAdapter

variable {a : JsonFileAdapter} {host : Host} {d : Directory JsString}

/-! ### The text of the lock -/

/-- The text of the lock file is parsed to what it was made of. -/
structure ReadsBack (a : JsonFileAdapter) (token : JsString) : Prop where
  parse : a.platform.parse (a.lockText token) = some (.obj
    [(js "pid", .prim (.number (.ofNat a.pid))), (js "token", .prim (.string token))])
  pid : a.pid ≤ 2 ^ 53 - 1
  token : token ≠ []

/-- The token of a lock that was taken. -/
theorem readsBack_of_token {a : JsonFileAdapter} {host : Host} {token : JsString}
    (hreads : ∀ attempt, a.ReadsBack (host.uuid (.token attempt)))
    (htoken : token = host.uuid (.token 0) ∨ token = host.uuid (.token 1)) :
    a.ReadsBack token := by
  rcases htoken with rfl | rfl
  · exact hreads 0
  · exact hreads 1

/-- **The adapter knows its own lock file.**  `JSON.parse` reads back what `JSON.stringify`
wrote of the process and the token. -/
theorem parseLock_lockText {token : JsString} (h : a.ReadsBack token) :
    a.platform.parseLock (utf8Text (utf8Encode (a.lockText token))) = some ⟨a.pid, token⟩ := by
  have hpid : Json.integer? (.prim (.number (.ofNat a.pid))) = some (a.pid : ℤ) := by
    simp only [Json.integer?, FiniteNumber.toInt?_ofNat, Option.filter]
    rw [if_pos (by simpa using h.pid)]
  have htext : utf8Text (utf8Encode (a.lockText token)) = a.lockText token :=
    utf8Text_utf8Encode (Json.isWellFormed_stringify _)
  have hkeys : js "pid" ≠ js "token" := by decide
  rw [htext, Platform.parseLock, h.parse]
  simp only [Option.bind_eq_bind, Option.bind_some, Json.property?, Assoc.get?, if_pos,
    if_neg hkeys, hpid, Json.string?]
  rw [if_neg (by simpa using h.token)]

/-! ### Opening -/

/-- What is done to open a database: `load` alone, or `Database.open`. -/
inductive OpenCall where
  | load
  | database (build : Option Json → Except NewtonError Unit)

/-- The method that is called. -/
def OpenCall.method (a : JsonFileAdapter) : OpenCall → AdapterMethod Unit
  | .load => do
      let _ ← a.load
      return ()
  | .database build => a.openDatabase build

/-- The adapter has its own lock file and its token. -/
structure Holds (a : JsonFileAdapter) (fields : AdapterFields) (d : Directory JsString) : Prop where
  opened : fields.closed = false
  bears : ∃ token, fields.lockToken = some token ∧ a.Bears d token

/-- What `load` of a new adapter does. -/
theorem exec_load_new : exec host.handler a.load .new d = exec host.handler (do
    a.acquireLock
    modify fun fields => { fields with loaded := true }
    tryCatch a.loadLocked fun error => do
      a.close
      throw error) .new d := rfl

/-- A new adapter whose lock is not taken is as it was. -/
theorem exec_load_unlocked {thrown : Thrown} {d' : Directory JsString}
    (h : exec host.handler a.acquireLock .new d = (.error thrown, .new, d')) :
    exec host.handler a.load .new d = (.error thrown, .new, d') :=
  exec_load_new.trans (Method.exec_bind_error h _)

/-- What `load` of a new adapter does once the lock is taken. -/
theorem exec_load_acquired {handle : ℕ} {token : JsString} {d' : Directory JsString}
    (h : ∀ fields, exec host.handler a.acquireLock fields d =
      (.ok (), { fields with lock := some handle, lockToken := some token }, d')) :
    exec host.handler a.load .new d = exec host.handler (tryCatch a.loadLocked fun error => do
      a.close
      throw error) (.locked handle token) d' :=
  exec_load_new.trans (Method.exec_bind_ok (h _) _)

/-- The own lock file stays while the files of the database are read and put in place.  Its name
is neither a stale one nor the primary's, so neither its entry nor its bytes change. -/
theorem bears_of_within {token : JsString} {d' d'' : Directory JsString}
    (hreads : a.ReadsBack token) (hlock : a.LockTaken d token d')
    (hwithin : d'.Within (fun name => a.isStaleTemp name ∨ name = a.path) d'') :
    a.Bears d'' token := by
  have hnext : d.next < d'.next := hlock.wf.bound _ _ hlock.entry
  have hname : ¬(a.isStaleTemp a.lockPath = true ∨ a.lockPath = a.path) := by
    rintro (h | h)
    · rw [not_isStaleTemp_lockPath] at h
      cases h
    · exact a.path_ne_lockPath h.symm
  refine ⟨d.next, (hwithin.entries _ hname).trans hlock.entry, ?_, ?_⟩
  · rw [hwithin.kind _ hnext, hlock.node]
    simp
  · rw [hwithin.bytes _ hnext, hlock.node, parseLock_lockText hreads]
    rfl

/-- **`load` keeps the lock it took, or releases it when it throws.**  The release may fail too,
but not where the calls that release it do not. -/
theorem exec_load_locked (hd : d.WF) (h : a.Acquires host d)
    (hreads : ∀ attempt, a.ReadsBack (host.uuid (.token attempt))) :
    ∃ outcome fields' d', exec host.handler a.load .new d = (outcome, fields', d') ∧
      ((∃ snapshot, outcome = .ok snapshot ∧ a.Holds fields' d') ∨
        ∃ thrown, outcome = .error thrown ∧ fields'.closed = true ∧
          (Releases host → d'.entries.get? a.lockPath = none)) := by
  obtain ⟨token, d₁, hacquire, htoken, hlock⟩ := exec_acquireLock hd h
  have hback := readsBack_of_token hreads htoken
  have hlocked := exec_load_acquired hacquire
  have hkeeps : Method.Preserves host.handler
      (KeepsTo (fun fields => fields.closed = false ∧ fields.lockToken = some token)
        (fun name => a.isStaleTemp name ∨ name = a.path) d₁) a.loadLocked fun _ => True :=
    keeps_loadLocked (fun _ _ _ hF => hF) (fun _ hs => .inl hs) (.inr rfl)
      (.inl (a.isStaleTemp_temporaryPath _))
  obtain ⟨⟨⟨hopen, htoken'⟩, hwithin⟩, -⟩ := hkeeps
    (.locked d.next token) d₁ ⟨⟨rfl, rfl⟩, .refl _ d₁⟩
  generalize hrun : exec host.handler a.loadLocked _ d₁ = left at hopen htoken' hwithin
  obtain ⟨outcome, fields₂, d₂⟩ := left
  have hbears := bears_of_within hback hlock hwithin
  cases outcome with
  | ok snapshot =>
      exact ⟨_, _, _, hlocked.trans (Method.exec_tryCatch_ok hrun _), .inl ⟨snapshot, rfl, hopen,
        token, htoken', hbears⟩⟩
  | error thrown =>
      obtain ⟨closed, d₃, hclose, -, -, hgone⟩ := exec_close (a := a) (d := d₂) host hopen
      have hfailed := hlocked.trans (Method.exec_tryCatch_error hrun _)
      cases closed with
      | ok _ =>
          exact ⟨_, _, _, hfailed.trans (Method.exec_bind_ok hclose _), .inr ⟨thrown, rfl, rfl,
            fun hr => hgone token htoken' hr hbears⟩⟩
      | error thrown' =>
          exact ⟨_, _, _, hfailed.trans (Method.exec_bind_error hclose _), .inr ⟨thrown', rfl, rfl,
            fun hr => hgone token htoken' hr hbears⟩⟩

/-- An adapter that has no lock to release. -/
def IsIdle (fields : AdapterFields) : Prop := fields.closed = true ∨ fields.lockToken = none

/-- Closing an adapter without a lock changes nothing.  There is no file to close and none to
remove. -/
theorem exec_close_idle (host : Host) {fields : AdapterFields} (h : IsIdle fields)
    (d : Directory JsString) : ∃ outcome fields',
    exec host.handler a.close fields d = (outcome, fields', d) ∧ IsIdle fields' := by
  cases hc : fields.closed with
  | true => exact ⟨_, _, exec_close_closed hc, .inl hc⟩
  | false =>
      have htoken := h.resolve_left (by simp [hc])
      obtain ⟨outcome, d', hrun, -, hkept, -⟩ := exec_close (a := a) (d := d) host hc
      obtain rfl := hkept fun token ht => by simp [htoken] at ht
      exact ⟨outcome, _, hrun, .inl rfl⟩

/-- `Database.open` throws once the adapter is closed.  It throws the first failure, with that
of the close beside it when there is one. -/
theorem exec_openFailed {α : Type} {fields fields' : AdapterFields} {outcome : Except Thrown Unit}
    {d' : Directory JsString} (primary : Thrown)
    (h : exec host.handler a.close fields d = (outcome, fields', d')) : ∃ thrown,
    exec host.handler (a.openFailed primary : AdapterMethod α) fields d =
      (.error thrown, fields', d') := by
  have hclosed := Method.exec_attempt_of h
  cases outcome with
  | ok _ => exact ⟨_, Method.exec_bind_ok hclosed _⟩
  | error _ => exact ⟨_, Method.exec_bind_ok hclosed _⟩

/-- A call whose `load` throws leaves what that left.  `load` has cleaned up by then, and the
close of `open` finds nothing to do. -/
theorem exec_call_of_error {thrown : Thrown} {fields : AdapterFields} {d' : Directory JsString}
    (h : exec host.handler a.load .new d = (.error thrown, fields, d')) (hidle : IsIdle fields)
    (call : OpenCall) : ∃ thrown' fields',
    exec host.handler (call.method a) .new d = (.error thrown', fields', d') ∧ IsIdle fields' := by
  cases call with
  | load => exact ⟨thrown, fields, Method.exec_bind_error h _, hidle⟩
  | database build =>
      obtain ⟨outcome, fields', hclose, hidle'⟩ := exec_close_idle (a := a) host hidle d'
      obtain ⟨thrown', hfailed⟩ := exec_openFailed thrown hclose
      exact ⟨thrown', fields', (Method.exec_bind_ok (Method.exec_attempt_of h) _).trans hfailed,
        hidle'⟩

/-- A call that throws after `load` returned has released the lock.  It is the construction of
the database that threw, and the close that follows releases the lock. -/
theorem exec_call_of_ok {snapshot : Option Json} {fields : AdapterFields} {d' : Directory JsString}
    (h : exec host.handler a.load .new d = (.ok snapshot, fields, d')) (hholds : a.Holds fields d')
    {call : OpenCall} {thrown : Thrown} {fields' : AdapterFields} {d'' : Directory JsString}
    (hcall : exec host.handler (call.method a) .new d = (.error thrown, fields', d'')) :
    IsIdle fields' ∧ (Releases host → d''.entries.get? a.lockPath = none) := by
  cases call with
  | load =>
      have hok : exec host.handler (OpenCall.method a .load) .new d = _ := Method.exec_bind_ok h _
      cases hok.symm.trans hcall
  | database build =>
      have hloaded : exec host.handler (OpenCall.method a (.database build)) .new d = _ :=
        Method.exec_bind_ok (Method.exec_attempt_of h) _
      cases hb : build snapshot with
      | ok database =>
          simp only [hb] at hloaded
          cases hloaded.symm.trans hcall
      | error error =>
          simp only [hb] at hloaded
          obtain ⟨token, htoken, hbears⟩ := hholds.bears
          obtain ⟨outcome, d₃, hclose, -, -, hgone⟩ :=
            exec_close (a := a) (d := d') host hholds.opened
          obtain ⟨thrown', hfailed⟩ := exec_openFailed (α := Unit) (.newton error) hclose
          obtain ⟨-, rfl, rfl⟩ := hcall.symm.trans (hloaded.trans hfailed)
          exact ⟨.inl rfl, fun hr => hgone token htoken hr hbears⟩

/-! ### The lock after a failed open -/

/-- What is left of the lock: no lock file that was created since, and the one that was
there as it was, unless its text names a process that is not alive. -/
structure LockReleased (a : JsonFileAdapter) (host : Host) (d d' : Directory JsString) : Prop where
  own : ∀ file, d'.entries.get? a.lockPath = some file → file < d.next
  others : ¬a.NamesDead host d → ∀ file, d.entries.get? a.lockPath = some file →
    d'.entries.get? a.lockPath = some file ∧ (d'.nodes file).bytes = (d.nodes file).bytes

/-- Where the lock file is gone, it is released unless one without a readable text was
removed. -/
theorem lockReleased_of_gone {d' : Directory JsString}
    (hgone : d'.entries.get? a.lockPath = none)
    (hremoves : ∀ file, d.entries.get? a.lockPath = some file → a.Removes host d) :
    a.LockReleased host d d' ↔ ¬(a.Removes host d ∧ a.Unreadable d) := by
  constructor
  · rintro hreleased ⟨hremoved, hunreadable⟩
    have hdead : ¬a.NamesDead host d := fun hdead => hremoved.namesDead_iff.1 hdead hunreadable
    obtain ⟨file, hheld, -⟩ := hunreadable
    cases hgone.symm.trans (hreleased.others hdead file hheld).1
  · intro hreadable
    refine ⟨fun file hfile => (by cases hgone.symm.trans hfile), fun hdead file hheld => ?_⟩
    have hremoved := hremoves file hheld
    refine absurd (hremoved.namesDead_iff.2 fun hunreadable => ?_) hdead
    exact hreadable ⟨hremoved, hunreadable⟩

/-- **A failed open releases the lock exactly when** it created no lock file, or also wrote
and synced it, and it removed no lock file that names no process.  The open is `load` or
`Database.open` by a new adapter, any calls may fail but those that release the lock, and the
adapter is closed afterwards. -/
theorem failed_open_releases_lock_iff (hd : d.WF)
    (hreads : ∀ attempt, a.ReadsBack (host.uuid (.token attempt))) (hr : Releases host)
    {call : OpenCall} {thrown : Thrown} {fields' : AdapterFields} {d' : Directory JsString}
    (h : exec host.handler (call.method a) .new d = (.error thrown, fields', d')) :
    (∀ host', Releases host' →
      a.LockReleased host d (exec host'.handler a.close fields' d').2.2) ↔
    ¬a.Leaks host d ∧ ¬(a.Removes host d ∧ a.Unreadable d) := by
  -- closing afterwards changes nothing, so it is what the call left that counts
  have hfinal : ∀ {d₁}, IsIdle fields' → d' = d₁ → ((∀ host', Releases host' →
      a.LockReleased host d (exec host'.handler a.close fields' d').2.2) ↔
        a.LockReleased host d d₁) := by
    rintro d₁ hidle rfl
    have hclose : ∀ host' : Host, (exec host'.handler a.close fields' d').2.2 = d' :=
      fun host' => by
      obtain ⟨outcome, fields'', hrun, -⟩ := exec_close_idle (a := a) host' hidle d'
      rw [hrun]
    refine ⟨fun hl => ?_, fun hl host' _ => ?_⟩
    · have hl := hl host hr
      rwa [hclose] at hl
    · rw [hclose]
      exact hl
  have hrefused : ∀ {thrown₁ d₁}, exec host.handler a.acquireLock .new d =
      (.error thrown₁, .new, d₁) → IsIdle fields' ∧ d' = d₁ := fun hrun => by
    obtain ⟨thrown', fields'', hcall, hidle⟩ :=
      exec_call_of_error (exec_load_unlocked hrun) (.inr rfl) call
    obtain ⟨-, rfl, rfl⟩ := h.symm.trans hcall
    exact ⟨hidle, rfl⟩
  by_cases hleaks : a.Leaks host d
  · obtain ⟨thrown₁, d₁, hrun, hentry, -⟩ := exec_acquireLock_leaks hleaks
    obtain ⟨hidle, hd'⟩ := hrefused (hrun _)
    rw [hfinal hidle hd']
    exact ⟨fun hl => absurd (hl.own _ hentry) (lt_irrefl _), fun hn => absurd hleaks hn.1⟩
  rw [and_iff_right hleaks]
  by_cases hacquires : a.Acquires host d
  · obtain ⟨hidle, hgone⟩ : IsIdle fields' ∧ d'.entries.get? a.lockPath = none := by
      obtain ⟨outcome, fields₁, d₁, hload, ⟨snapshot, rfl, hholds⟩ | ⟨thrown₁, rfl, hclosed,
        hgone⟩⟩ := exec_load_locked hd hacquires hreads
      · exact (exec_call_of_ok hload hholds h).imp_right fun hg => hg hr
      · obtain ⟨thrown', fields'', hcall, hidle⟩ := exec_call_of_error hload (.inl hclosed) call
        obtain ⟨-, rfl, rfl⟩ := h.symm.trans hcall
        exact ⟨hidle, hgone hr⟩
    rw [hfinal hidle rfl]
    refine lockReleased_of_gone hgone fun file hheld => ⟨hacquires.1, .inl ?_⟩
    rcases hacquires.2 with ⟨hfree, -⟩ | ⟨htakes, -⟩
    · cases hfree.symm.trans hheld
    · exact htakes
  · obtain ⟨thrown₁, d₁, hrun, hwithin, hlock⟩ := exec_acquireLock_refused hacquires hleaks
    obtain ⟨hidle, hd'⟩ := hrefused (hrun _)
    rw [hfinal hidle hd']
    rcases hlock with ⟨hsame, hstays⟩ | ⟨hgone, hremoves⟩
    · refine iff_of_true ⟨fun file hfile => hd.bound _ _ (hsame.symm.trans hfile),
        fun _ file hheld => ?_⟩ fun h => hstays h.1
      exact ⟨hsame.trans hheld, hwithin.bytes _ (hd.bound _ _ hheld)⟩
    · exact lockReleased_of_gone hgone fun _ _ => hremoves

/-- An adapter of process 7 for `db`. -/
def dbAdapter : JsonFileAdapter where
  name := js "db"
  createDirectories := false
  maxBytes := 1000
  recoverFromBackup := false
  pid := 7
  platform := {
    parse := fun text =>
      if text = js "\x7b\"pid\":7,\"token\":\"t\"\x7d" then
        some (.obj [(js "pid", .prim (.number (.ofNat 7))), (js "token", .prim (.string (js "t")))])
      else none
    sha256 := fun _ => js "0" }

/-- A system that reports an error at one call. -/
def hostFailingAt (site : CallSite) : Host where
  fault s := if s = site then some ⟨.other 5, []⟩ else none
  uuid _ := js "t"
  alive _ := true

/-- The first load of `db`, whose write of the lock file fails. -/
def failedLoad : Method.Left AdapterFields Thrown (Directory JsString) Unit :=
  exec (hostFailingAt (.lock 0 .write)).handler (OpenCall.load.method dbAdapter) .new .empty

/-- The adapter of `db` reads back the lock file it writes. -/
theorem readsBack_dbAdapter : dbAdapter.ReadsBack (js "t") :=
  ⟨by decide +kernel, by decide, by decide⟩

/-- **The lock file of a load that failed to write it is still there after `close`.**  The
adapter has no token for it, so that neither `load` nor `close` takes it for its own. -/
theorem failed_write_leaves_lock :
    failedLoad.1 = .error (.newton (.storage (js "Failed to acquire the database lock"))) ∧
    Releases (hostFailingAt (.lock 0 .write)) ∧
    ¬dbAdapter.LockReleased (hostFailingAt (.lock 0 .write)) .empty
      (exec (hostFailingAt (.lock 0 .write)).handler dbAdapter.close failedLoad.2.1
        failedLoad.2.2).2.2 := by
  refine ⟨by decide +kernel, ⟨by decide, by decide⟩, fun h => ?_⟩
  have hentry : (exec (hostFailingAt (.lock 0 .write)).handler dbAdapter.close failedLoad.2.1
      failedLoad.2.2).2.2.entries.get? dbAdapter.lockPath = some 0 := by decide +kernel
  exact absurd (h.own 0 hentry) (lt_irrefl 0)

/-- The directory of `db` right after another process created its lock file. -/
def createdLock : Directory JsString := (Directory.empty).created dbAdapter.lockPath

/-- A lock file without a text is removed, and the load that removed it may fail. -/
example : createdLock.entries.get? dbAdapter.lockPath = some 0 ∧
    (exec (hostFailingAt (.lock 1 .create)).handler (OpenCall.load.method dbAdapter) .new
      createdLock).1 = .error (.newton (.storage (js "Failed to acquire the database lock"))) ∧
    (exec (hostFailingAt (.lock 1 .create)).handler (OpenCall.load.method dbAdapter) .new
      createdLock).2.2.entries.get? dbAdapter.lockPath = none := by
  decide +kernel

/-- The equivalence at a load whose lock file cannot be written.  It does not release the lock,
since it leaks it, though it removes none. -/
theorem failed_write_releases_iff : (∀ host', Releases host' →
    dbAdapter.LockReleased (hostFailingAt (.lock 0 .write)) .empty
      (exec host'.handler dbAdapter.close failedLoad.2.1 failedLoad.2.2).2.2) ↔
    ¬dbAdapter.Leaks (hostFailingAt (.lock 0 .write)) .empty ∧
      ¬(dbAdapter.Removes (hostFailingAt (.lock 0 .write)) .empty ∧
        dbAdapter.Unreadable .empty) := by
  have hrun : exec (hostFailingAt (.lock 0 .write)).handler (OpenCall.load.method dbAdapter) .new
      .empty = (.error (.newton (.storage (js "Failed to acquire the database lock"))),
        failedLoad.2.1, failedLoad.2.2) := Prod.ext (by decide +kernel) rfl
  exact failed_open_releases_lock_iff .empty (fun _ => readsBack_dbAdapter)
    ⟨by decide, by decide⟩ hrun

end JsonFileAdapter

end NewtonDB
