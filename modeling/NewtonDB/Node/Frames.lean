/-
# What the methods of the file adapter leave alone

Whatever the system reports, a method changes no names but those it makes calls on, and
writes to no file there was before (`Directory.Within`).  There is one lemma for each
method, with the names it may change as an hypothesis, by the rules of
`Method.Preserves`.
-/

import NewtonDB.Node.LoadSpecs

namespace NewtonDB

open Method (Preserves)

/-- The fields have a property, and only some names have changed since `d₀`. -/
def KeepsTo (F : AdapterFields → Prop) (names : JsString → Prop) (d₀ : Directory JsString)
    (fields : AdapterFields) (d : Directory JsString) : Prop :=
  F fields ∧ d₀.Within names d

section

variable {host : Host} {F : AdapterFields → Prop} {names : JsString → Prop}
  {d₀ : Directory JsString} {α β : Type}

/-! ### Calls -/

/-- A call among the names changes no other. -/
theorem keeps_fileCall {c : FileCall JsString β} (hc : c.Confined names d₀.next)
    (site : CallSite) :
    Preserves host.handler (KeepsTo F names d₀) (fileCall site c) fun _ => True := by
  intro fields d hI
  rw [run_fileCall]
  exact ⟨⟨hI.1, hI.2.answer hc _⟩, fun _ _ => trivial⟩

/-- A file that is created is a new one.  The name is one of those that may change. -/
theorem keeps_create {name : JsString} (hn : names name) (site : CallSite) :
    Preserves host.handler (KeepsTo F names d₀) (fileCall site (.create name))
      fun handle => d₀.next ≤ handle := by
  intro fields d hI
  rw [run_fileCall]
  refine ⟨⟨hI.1, hI.2.answer (c := .create name) hn _⟩, fun handle he => ?_⟩
  cases hf : host.fault site with
  | some fault =>
      rw [hf] at he
      cases he
  | none =>
      rw [hf] at he
      cases hentry : d.entries.get? name with
      | some file =>
          simp [FileCall.answer, FileCall.perform, Directory.create_of_entry hentry,
            Except.mapError] at he
      | none =>
          simp only [FileCall.answer, FileCall.perform, Directory.create_of_fresh hentry,
            Except.mapError, Except.ok.injEq] at he
          exact he ▸ hI.2.next

/-- A method that changes nothing. -/
theorem keeps_of_quiet {I : AdapterFields → Directory JsString → Prop} {m : AdapterMethod α}
    (h : ∀ fields d, ∃ outcome, Method.exec host.handler m fields d = (outcome, fields, d)) :
    Preserves host.handler I m fun _ => True := by
  intro fields d hI
  obtain ⟨outcome, hrun⟩ := h fields d
  rw [hrun]
  exact ⟨hI, fun _ _ => trivial⟩

/-- To ask for an id changes nothing, and gives the one the process has. -/
theorem keeps_randomUUID {I : AdapterFields → Directory JsString → Prop} (site : IdSite) :
    Preserves host.handler I (Method.request (.randomUUID site) : AdapterMethod JsString)
      fun uuid => uuid = host.uuid site := fun _ _ hI =>
  ⟨hI, fun _ he => (Except.ok.inj he).symm⟩

/-- An injected fault is thrown.  After it one knows that none was planned. -/
theorem keeps_injectFault {I : AdapterFields → Directory JsString → Prop} (point : FaultPoint) :
    Preserves host.handler I (injectFault point) fun _ => host.fault (.inject point) = none := by
  intro fields d hI
  rw [run_injectFault]
  refine ⟨hI, fun _ he => ?_⟩
  cases hf : host.fault (.inject point) with
  | none => rfl
  | some fault =>
      rw [hf] at he
      cases he

namespace JsonFileAdapter

variable {a : JsonFileAdapter}

/-- The check of the lock changes nothing. -/
theorem keeps_assertLockOwnership (check : ℕ) : Preserves host.handler (KeepsTo F names d₀)
    (a.assertLockOwnership check) fun _ => True :=
  keeps_of_quiet fun fields _ =>
    let ⟨outcome, hrun, _⟩ := exec_assertLockOwnership a host _ check fields
    ⟨outcome, hrun⟩

/-- To read a snapshot changes nothing. -/
theorem keeps_readSnapshotAt (backup : Bool) : Preserves host.handler (KeepsTo F names d₀)
    (a.readSnapshotAt backup) fun _ => True :=
  keeps_of_quiet fun fields _ =>
    let ⟨outcome, hrun, _⟩ := exec_readSnapshotAt a host _ _
    ⟨outcome, hrun fields⟩

/-- To sync the directory changes nothing, and goes on only when the sync succeeds. -/
theorem keeps_syncDirectory {I : AdapterFields → Directory JsString → Prop} (copy : Bool) :
    Preserves host.handler I (syncDirectory copy) fun _ => host.syncsDirectory copy = true := by
  intro fields d hI
  obtain ⟨outcome, hrun, hok⟩ := exec_syncDirectory host copy
  rw [hrun]
  exact ⟨hI, fun _ he => hok.1 he⟩

/-! ### Writing -/

/-- To discard a temporary file changes no name but its own.  What the cleanup throws is
swallowed. -/
theorem keeps_discardTemporary (copy : Bool) {temporary : JsString} (ht : names temporary)
    (handle : Option ℕ) : Preserves host.handler (KeepsTo F names d₀)
      (discardTemporary copy temporary handle) fun _ => True := by
  intro fields d hI
  obtain ⟨d', hrun, hd'⟩ := exec_discardTemporary host copy temporary handle d
  rw [hrun]
  refine ⟨⟨hI.1, ?_⟩, fun _ _ => trivial⟩
  rcases hd' with rfl | rfl
  · exact hI.2
  · exact hI.2.unlink ht

/-- An installation that failed changes no name but that of its temporary file. -/
theorem keeps_installFailed {temporary : JsString} (ht : names temporary) (handle : Option ℕ)
    {P : Unit → Prop} : Preserves host.handler (KeepsTo F names d₀)
      (installBytes.failed temporary handle) P :=
  .bind (keeps_discardTemporary true ht handle) fun _ _ => .throw _

/-- The write of a new file. -/
theorem keeps_write {handle : ℕ} (h : d₀.next ≤ handle) (site : CallSite) (bytes : List UInt8) :
    Preserves host.handler (KeepsTo F names d₀) (fileCall site (.write handle bytes))
      fun _ => True := keeps_fileCall (c := .write handle bytes) h site

/-- A rename among the names. -/
theorem keeps_rename {source target : JsString} (hs : names source) (ht : names target)
    (site : CallSite) : Preserves host.handler (KeepsTo F names d₀)
      (fileCall site (.rename source target)) fun _ => True :=
  keeps_fileCall (c := .rename source target) ⟨hs, ht⟩ site

/-- **To install bytes changes no name** but the destination and that of the temporary file, and
goes on only when the directory was synced. -/
theorem keeps_installBytes {destination : JsString} (hd : names destination)
    (ht : names (a.temporaryPath destination (host.uuid (.temporary true)))) (bytes : List UInt8) :
    Preserves host.handler (KeepsTo F names d₀) (a.installBytes destination bytes)
      fun _ => host.syncsDirectory true = true := by
  refine .bind (keeps_randomUUID _) fun uuid huuid => ?_
  subst huuid
  refine .bind (keeps_create ht _).attempt fun outcome houtcome => ?_
  cases outcome with
  | error error => exact keeps_installFailed ht none
  | ok handle =>
      have hwrite : Preserves host.handler (KeepsTo F names d₀)
          (fileCall (.temporary true .write) (.write handle bytes)) fun _ => True :=
        keeps_write (houtcome handle rfl) _ bytes
      refine .bind (Preserves.attempt (.bind hwrite fun _ _ =>
        .bind (keeps_fileCall (c := .sync handle) trivial _) fun _ _ =>
          keeps_fileCall (c := .close handle) trivial _)) fun written _ => ?_
      cases written with
      | error error => exact keeps_installFailed ht (some handle)
      | ok _ =>
          refine .bind (Preserves.attempt (.bind (keeps_rename ht hd _) fun _ _ =>
            keeps_syncDirectory true)) fun renamed hrenamed => ?_
          cases renamed with
          | error error => exact keeps_installFailed ht none
          | ok _ => exact .pure (hrenamed () rfl)

/-! ### Loading -/

/-- To remove files changes their names only, by induction on them.  One that cannot be removed
stays under its name. -/
theorem keeps_removeTemps : ∀ {l : List JsString}, (∀ name ∈ l, names name) →
    Preserves host.handler (KeepsTo F names d₀) (removeTemps l) fun _ => True
  | [], _ => .pure trivial
  | name :: rest, h => by
      refine .bind (keeps_fileCall (c := .unlink name) (h name (List.mem_cons_self ..)) _).attempt
        fun outcome _ => .bind (keeps_removeTemps fun n hn => h n (List.mem_cons_of_mem _ hn))
          fun _ _ => ?_
      cases outcome with
      | error error => exact .throw _
      | ok _ => exact .pure trivial

/-- To remove the stale temporary files changes their names only. -/
theorem keeps_removeStaleTemps (h : ∀ name, a.isStaleTemp name → names name) :
    Preserves host.handler (KeepsTo F names d₀) a.removeStaleTemps fun _ => True :=
  .handle (.bind (keeps_fileCall (c := .readdir) trivial _) fun _ _ =>
    keeps_removeTemps fun name hn => h name (List.mem_filter.1 hn).2) fun _ => .throw _

/-- To recover the backup changes the name of the primary and that of a temporary file. -/
theorem keeps_recoverBackup (hpath : names a.path)
    (ht : names (a.temporaryPath a.path (host.uuid (.temporary true)))) (backup : Json) :
    Preserves host.handler (KeepsTo F names d₀) (a.recoverBackup backup) fun _ => True :=
  have hinstall := .bind (keeps_installBytes hpath ht _) fun _ _ => .pure trivial
  .ite (fun _ => .bind (.throw (P := fun _ => True) _) fun _ _ => hinstall) fun _ => hinstall

/-- **To load changes no name** but that of the primary and of a temporary file, and these only
to recover. -/
theorem keeps_loadWithRecovery (hpath : names a.path)
    (ht : names (a.temporaryPath a.path (host.uuid (.temporary true)))) :
    Preserves host.handler (KeepsTo F names d₀) a.loadWithRecovery fun _ => True := by
  refine .bind (keeps_readSnapshotAt false).attempt fun primary _ => ?_
  have hread : Preserves host.handler (KeepsTo F names d₀) (a.readSnapshotAt true) fun _ => True :=
    keeps_readSnapshotAt true
  have hbackup := hread.attempt
  rcases primary with error | _ | primary
  · refine .bind hbackup fun backup _ => ?_
    rcases backup with error' | _ | backup
    · exact .throw _
    · exact .throw _
    · exact keeps_recoverBackup hpath ht backup
  · refine .bind hbackup fun backup _ => ?_
    rcases backup with error' | _ | backup
    · exact .throw _
    · exact .pure trivial
    · exact keeps_recoverBackup hpath ht backup
  · exact .pure trivial

/-- The fields `load` sets leave the lock as it is.  They are the generation and the identifier
of what was loaded. -/
theorem keeps_loadLocked (hF : ∀ fields generation databaseId, F fields →
      F { fields with generation := generation, databaseId := databaseId })
    (hstale : ∀ name, a.isStaleTemp name → names name) (hpath : names a.path)
    (ht : names (a.temporaryPath a.path (host.uuid (.temporary true)))) :
    Preserves host.handler (KeepsTo F names d₀) a.loadLocked fun _ => True :=
  .bind (keeps_removeStaleTemps hstale) fun _ _ => .bind (keeps_assertLockOwnership 0) fun _ _ =>
    .bind (keeps_loadWithRecovery hpath ht) fun _ _ =>
      .bind (.update fun _ _ hI => ⟨hF _ _ _ hI.1, hI.2⟩) fun _ _ => .pure trivial

end JsonFileAdapter

end

end NewtonDB
