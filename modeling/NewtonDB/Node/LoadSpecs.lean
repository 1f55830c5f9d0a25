/-
# Cleaning up, loading and closing

What `#removeStaleTemps`, `#loadWithRecovery`, `load` and `close` of the file adapter
do.  `load` reads the primary and the backup once the lock is taken and the stale
temporary files are gone; a snapshot file that had one of these as a second name has it
no longer, so the links that count are those in `JsonFileAdapter.seen`.
-/

import NewtonDB.Node.LockSpecs

namespace NewtonDB

open Method (exec)

namespace JsonFileAdapter

variable (a : JsonFileAdapter) (host : Host) (d : Directory JsString)

/-! ### Stale temporary files -/

/-- The stale temporary files can be listed and removed. -/
structure ClearsTemps : Prop where
  lists : host.fault .listTemps = none
  removes : ∀ name file, d.entries.get? name = some file → a.isStaleTemp name →
    host.fault (.removeTemp name) = none ∧ (d.nodes file).kind ≠ .directory

variable {a host d}

/-- What one removal leaves.  The file loses a link when it succeeds, and nothing happens when
it does not. -/
theorem exec_removeTemp (host : Host) {name : JsString} {file : ℕ} (hd : d.WF)
    (hname : d.entries.get? name = some file) : ∃ outcome d',
    (∀ fields, exec host.handler (Method.attempt (fileCall (.removeTemp name) (.unlink name)))
      fields d = (.ok outcome, fields, d')) ∧
    d.Within (fun other => other = name) d' ∧ d'.WF ∧
    (outcome = .ok () ↔
      host.fault (.removeTemp name) = none ∧ (d.nodes file).kind ≠ .directory) ∧
    (outcome = .ok () → d'.entries.get? name = none ∧ d'.nodes = d.unlinked file) := by
  have hwithin : d.Within (fun other => other = name)
      ((FileCall.unlink name).answer (host.fault (.removeTemp name)) d).2 :=
    (Directory.Within.refl (fun other => other = name) d).answer (c := .unlink name) rfl _
  refine ⟨_, _, fun fields => Method.exec_attempt_of (run_fileCall _ _), hwithin,
    hd.answer (.unlink name) _, ?_⟩
  cases hf : host.fault (.removeTemp name) with
  | some fault => simp [FileCall.answer, Except.mapError]
  | none =>
      by_cases hkind : (d.nodes file).kind = .directory
      · simp [FileCall.answer, FileCall.perform, Directory.unlink, hname, hkind, Except.mapError]
      · simp [FileCall.answer, FileCall.perform, Directory.unlink, hname, hkind, Except.mapError,
          OrderedMap.get?_delete]

/-- **What the removals leave**: each name that is removed takes one link from its file.  They
go through when every removal does; a name that is not removed stays, and all others are as they
were. -/
theorem exec_removeTemps (host : Host) : ∀ (names : List JsString) {d : Directory JsString},
    d.WF → names.Nodup → (∀ name ∈ names, ∃ file, d.entries.get? name = some file) →
    ∃ outcome d',
      (∀ fields, exec host.handler (removeTemps names) fields d = (outcome, fields, d')) ∧
      d.Within (fun name => name ∈ names) d' ∧ d'.WF ∧
      (outcome = .ok () ↔ ∀ name ∈ names, ∀ file, d.entries.get? name = some file →
        host.fault (.removeTemp name) = none ∧ (d.nodes file).kind ≠ .directory) ∧
      (outcome = .ok () → (∀ name ∈ names, d'.entries.get? name = none) ∧
        ∀ file, (d'.nodes file).links = (d.nodes file).links -
          names.countP fun name => d.entries.get? name = some file)
  | [], d, hd, _, _ => ⟨.ok (), d, fun _ => rfl, .refl _ d, hd, by simp, by simp⟩
  | name :: rest, d, hd, hnd, hheld => by
      obtain ⟨hnotin, hnd⟩ := List.nodup_cons.1 hnd
      obtain ⟨file, hname⟩ := hheld name (List.mem_cons_self ..)
      obtain ⟨removed, d₁, hremove, hwithin₁, hd₁, hok₁, hleft₁⟩ := exec_removeTemp host hd hname
      have hsame : ∀ other ∈ rest, d₁.entries.get? other = d.entries.get? other :=
        fun other ho => hwithin₁.entries other fun he => hnotin (he ▸ ho)
      obtain ⟨outcome, d', hrest, hwithin, hwf, hok, hleft⟩ := exec_removeTemps host rest hd₁ hnd
        fun other ho => by
          rw [hsame other ho]
          exact hheld other (List.mem_cons_of_mem _ ho)
      have hrun : ∀ fields, exec host.handler (removeTemps (name :: rest)) fields d =
          (outcome.bind fun _ => removed, fields, d') := fun fields => by
        refine (Method.exec_bind_ok (hremove fields) _).trans ?_
        cases outcome with
        | error error => exact Method.exec_bind_error (hrest fields) _
        | ok _ =>
            refine (Method.exec_bind_ok (hrest fields) _).trans ?_
            cases removed <;> rfl
      have hbind : (outcome.bind fun _ => removed) = .ok () ↔
          outcome = .ok () ∧ removed = .ok () := by
        cases outcome <;> simp [Except.bind]
      refine ⟨_, d', hrun, (hwithin₁.mono ?_).trans (hwithin.mono ?_), hwf, ?_, fun h => ?_⟩
      · exact fun other ho => ho ▸ List.mem_cons_self ..
      · exact fun other ho => List.mem_cons_of_mem _ ho
      · rw [hbind, hok, hok₁, List.forall_mem_cons, and_comm]
        refine and_congr ⟨fun h other hother => ?_, fun h => h file hname⟩
          (forall₂_congr fun other ho => forall_congr' fun other' => ?_)
        · exact Option.some.inj (hname.symm.trans hother) ▸ h
        · rw [hsame other ho]
          refine forall_congr' fun hother => ?_
          rw [hwithin₁.kind other' (hd.bound other other' hother)]
      · obtain ⟨hgone, hlinks⟩ := hleft (hbind.1 h).1
        obtain ⟨hgone₁, hlinks₁⟩ := hleft₁ (hbind.1 h).2
        refine ⟨List.forall_mem_cons.2 ⟨?_, hgone⟩, fun other => ?_⟩
        · rw [hwithin.entries name hnotin, hgone₁]
        · have hcount : (rest.countP fun name => d₁.entries.get? name = some other) =
              rest.countP fun name => d.entries.get? name = some other :=
            List.countP_congr fun n hn => by simp [hsame n hn]
          rw [hlinks other, hcount, hlinks₁, List.countP_cons, Directory.unlinked,
            Function.update_apply, hname]
          by_cases he : other = file
          · simp [he, Nat.sub_sub, Nat.add_comm]
          · simp [he, Ne.symm he]

/-- The stale temporary names of a file. -/
def staleNames (a : JsonFileAdapter) (d : Directory JsString) (file : ℕ) : Finset JsString :=
  (d.namesOf file).filter fun name => a.isStaleTemp name

/-- The stale names of a file are as many as the entries that lead to it.  Each is removed once,
so this is the number of links the file loses. -/
theorem countP_staleTemps (file : ℕ) :
    ((d.entries.keys.filter a.isStaleTemp).countP fun name => d.entries.get? name = some file) =
      (a.staleNames d file).card := by
  have hnd : ((d.entries.keys.filter a.isStaleTemp).filter fun name =>
      d.entries.get? name = some file).Nodup := (d.entries.keys_nodup.filter _).filter _
  rw [List.countP_eq_length_filter, ← List.toFinset_card_of_nodup hnd]
  congr 1
  ext name
  simp only [staleNames, List.mem_toFinset, List.mem_filter, Finset.mem_filter,
    Directory.mem_namesOf, decide_eq_true_eq, OrderedMap.mem_keys_iff]
  exact ⟨fun h => ⟨h.2, h.1.2⟩, fun h => ⟨⟨h.1 ▸ rfl, h.2⟩, h.1⟩⟩

/-- **What the cleanup leaves**: no stale temporary name, and one link less of a file for
each it had. -/
theorem exec_removeStaleTemps (host : Host) (hd : d.WF) : ∃ outcome d',
    (∀ fields, exec host.handler a.removeStaleTemps fields d = (outcome, fields, d')) ∧
    d.Within (fun name => a.isStaleTemp name) d' ∧ d'.WF ∧
    (outcome = .ok () ↔ a.ClearsTemps host d) ∧
    (outcome = .ok () → (∀ name, a.isStaleTemp name → d'.entries.get? name = none) ∧
      ∀ file, (d'.nodes file).links = (d.nodes file).links - (a.staleNames d file).card) := by
  have hlist : ∀ fields, exec host.handler (fileCall .listTemps .readdir) fields d = _ :=
    fun fields => run_fileCall_quiet rfl _
  cases hf : host.fault .listTemps with
  | some fault =>
      rw [hf] at hlist
      refine ⟨_, d, fun fields => Method.exec_tryCatch_error
        (Method.exec_bind_error (hlist fields) _) _, .refl _ d, hd, ?_, fun h => by cases h⟩
      exact ⟨fun h => (by cases h), fun h => (by cases hf.symm.trans h.lists)⟩
  | none =>
      rw [hf] at hlist
      have hmem : ∀ name, name ∈ d.entries.keys.filter a.isStaleTemp ↔
          (∃ file, d.entries.get? name = some file) ∧ a.isStaleTemp name := fun name => by
        rw [List.mem_filter, OrderedMap.mem_keys_iff, Option.isSome_iff_exists]
      obtain ⟨outcome, d', hrun, hwithin, hwf, hok, hleft⟩ := exec_removeTemps host
        (d.entries.keys.filter a.isStaleTemp) hd (d.entries.keys_nodup.filter _)
        fun name hn => ((hmem name).1 hn).1
      have hclears : outcome = .ok () ↔ a.ClearsTemps host d := by
        rw [hok]
        exact ⟨fun h => ⟨hf, fun name file hname hs =>
          h name ((hmem name).2 ⟨⟨file, hname⟩, hs⟩) file hname⟩,
          fun h name hn file hname => h.removes name file hname ((hmem name).1 hn).2⟩
      have hwithin' : d.Within (fun name => a.isStaleTemp name) d' :=
        hwithin.mono fun name hn => ((hmem name).1 hn).2
      have hstart : ∀ fields, exec host.handler (do
          let names ← fileCall .listTemps .readdir
          removeTemps (names.filter a.isStaleTemp)) fields d = (outcome, fields, d') :=
        fun fields => (Method.exec_bind_ok (hlist fields) _).trans (hrun fields)
      cases outcome with
      | error error =>
          exact ⟨_, d', fun fields => Method.exec_tryCatch_error (hstart fields) _, hwithin', hwf,
            by simpa using hclears, fun h => by cases h⟩
      | ok _ =>
          refine ⟨_, d', fun fields => Method.exec_tryCatch_ok (hstart fields) _, hwithin', hwf,
            hclears,
            fun h => ⟨fun name hs => ?_, fun file => ?_⟩⟩
          · by_cases hn : ∃ file, d.entries.get? name = some file
            · exact (hleft h).1 name ((hmem name).2 ⟨hn, hs⟩)
            · rw [hwithin.entries name fun hm => hn ((hmem name).1 hm).1]
              exact Option.eq_none_iff_forall_ne_some.2 fun file hfile => hn ⟨file, hfile⟩
          · rw [(hleft h).2 file, countP_staleTemps]

/-! ### Closing -/

/-- The calls that release the lock do not fail. -/
structure Releases (host : Host) : Prop where
  reads : host.fault (.release .read) = none
  removes : host.fault (.release .remove) = none

/-- The lock file is there, with a token. -/
def Bears (a : JsonFileAdapter) (d : Directory JsString) (token : JsString) : Prop :=
  ∃ file, d.entries.get? a.lockPath = some file ∧ (d.nodes file).kind ≠ .directory ∧
    (a.platform.parseLock (utf8Text (d.nodes file).bytes)).map LockRecord.token = some token

/-- **To release the lock** removes the lock file that bears the token, and touches no other
name; a lock file of another token stays. -/
theorem exec_releaseLock (host : Host) (token : JsString) : ∃ outcome d',
    (∀ fields, exec host.handler (a.releaseLock token) fields d = (outcome, fields, d')) ∧
    d.Within (fun name => name = a.lockPath) d' ∧ (¬a.Bears d token → d' = d) ∧
    (Releases host → a.Bears d token → d'.entries.get? a.lockPath = none) := by
  have hread : ∀ fields, exec host.handler (fileCall (.release .read) (.readFile a.lockPath))
      fields d = _ := fun fields => run_fileCall_quiet rfl _
  cases hf : host.fault (.release .read) with
  | some fault =>
      rw [hf] at hread
      exact ⟨_, d, fun fields => Method.exec_bind_error (hread fields) _, .refl _ d, fun _ => rfl,
        fun h => (by cases hf.symm.trans h.reads)⟩
  | none =>
      rw [hf] at hread
      simp only [FileCall.answer, FileCall.perform, Directory.readFile] at hread
      cases hentry : d.entries.get? a.lockPath with
      | none =>
          rw [hentry] at hread
          exact ⟨_, d, fun fields => Method.exec_bind_error (hread fields) _, .refl _ d,
            fun _ => rfl, fun _ _ => hentry⟩
      | some file =>
          rw [hentry] at hread
          simp only [Directory.read] at hread
          have hbears : a.Bears d token ↔ (d.nodes file).kind ≠ .directory ∧
              (a.platform.parseLock (utf8Text (d.nodes file).bytes)).map LockRecord.token =
                some token := by
            rw [Bears, hentry]
            simp
          by_cases hkind : (d.nodes file).kind = .directory
          · rw [if_pos hkind] at hread
            exact ⟨_, d, fun fields => Method.exec_bind_error (hread fields) _, .refl _ d,
              fun _ => rfl, fun _ h => absurd hkind (hbears.1 h).1⟩
          · rw [if_neg hkind] at hread
            by_cases htoken : (a.platform.parseLock (utf8Text (d.nodes file).bytes)).map
                LockRecord.token = some token
            · refine ⟨_, _, fun fields => (Method.exec_bind_ok (hread fields) _).trans
                ((congrArg (fun m => exec host.handler m fields d) (if_pos htoken)).trans
                  (run_fileCall _ _)), ?_, fun h => absurd (hbears.2 ⟨hkind, htoken⟩) h, ?_⟩
              · exact (Directory.Within.refl (fun name => name = a.lockPath) d).answer
                  (c := .unlink a.lockPath) rfl _
              · intro h _
                rw [h.removes]
                simp [FileCall.answer, FileCall.perform, Directory.unlink, hentry, hkind,
                  OrderedMap.get?_delete]
            · exact ⟨_, d, fun fields => (Method.exec_bind_ok (hread fields) _).trans
                ((congrArg (fun m => exec host.handler m fields d) (if_neg htoken)).trans rfl),
                .refl _ d, fun _ => rfl, fun _ h => absurd (hbears.1 h).2 htoken⟩

/-- To close a second time does nothing. -/
theorem exec_close_closed {fields : AdapterFields} (h : fields.closed = true) :
    exec host.handler a.close fields d = (.ok (), fields, d) := by
  have hget : exec host.handler (get : AdapterMethod AdapterFields) fields d =
      (.ok fields, fields, d) := rfl
  rw [close, Method.exec_bind_ok hget, if_pos h]
  rfl

/-- **What closing leaves**: nothing but the lock file changes, and that only when it has
the adapter's token. -/
theorem exec_close (host : Host) {fields : AdapterFields} (h : fields.closed = false) :
    ∃ outcome d', exec host.handler a.close fields d = (outcome, fields.shut, d') ∧
      d.Within (fun name => name = a.lockPath) d' ∧
      ((∀ token, fields.lockToken = some token → ¬a.Bears d token) → d' = d) ∧
      (∀ token, fields.lockToken = some token → Releases host → a.Bears d token →
        d'.entries.get? a.lockPath = none) := by
  have hget : exec host.handler (get : AdapterMethod AdapterFields) fields d =
      (.ok fields, fields, d) := rfl
  have hmodify : exec host.handler (modify AdapterFields.shut : AdapterMethod PUnit) fields d =
      (.ok ⟨⟩, fields.shut, d) := rfl
  cases htoken : fields.lockToken with
  | none =>
      have hstart : exec host.handler a.close fields d = (.ok (), fields.shut, d) := by
        rw [close, Method.exec_bind_ok hget, if_neg (by simp [h]), Method.exec_bind_ok hmodify,
          htoken]
        cases fields.lock with
        | none => rfl
        | some handle =>
            exact Method.exec_bind_ok (Method.exec_attempt_of (run_fileCall_quiet rfl _)) _
      exact ⟨.ok (), d, hstart, .refl _ d, fun _ => rfl, fun token ht => by cases ht⟩
  | some token =>
      have hstart : exec host.handler a.close fields d = exec host.handler
          (tryCatch (a.releaseLock token) fun error => do
            if error ≠ .system .missing then
              throw (.newton (.storage (js "Failed to release the database lock"))))
          fields.shut d := by
        rw [close, Method.exec_bind_ok hget, if_neg (by simp [h]), Method.exec_bind_ok hmodify,
          htoken]
        cases fields.lock with
        | none => rfl
        | some handle =>
            exact Method.exec_bind_ok (Method.exec_attempt_of (run_fileCall_quiet rfl _)) _
      rw [hstart]
      obtain ⟨outcome, d', hrelease, hwithin, hkept, hgone⟩ :=
        exec_releaseLock (a := a) (d := d) host token
      have hleft : ∃ outcome', exec host.handler (tryCatch (a.releaseLock token) fun error => do
          if error ≠ .system .missing then
            throw (.newton (.storage (js "Failed to release the database lock")))) fields.shut d =
          (outcome', fields.shut, d') := by
        cases outcome with
        | ok _ => exact ⟨_, Method.exec_tryCatch_ok (hrelease fields.shut) _⟩
        | error error =>
            rw [Method.exec_tryCatch_error (hrelease fields.shut)]
            by_cases hm : error = .system .missing
            · exact ⟨.ok (), by rw [if_neg (not_not.2 hm)]; rfl⟩
            · exact ⟨_, by rw [if_pos hm]; rfl⟩
      obtain ⟨outcome', hrun⟩ := hleft
      refine ⟨outcome', d', hrun, hwithin, fun hb => hkept (hb token rfl),
        fun token' ht hr hb => ?_⟩
      exact hgone hr (Option.some.inj ht ▸ hb)

end JsonFileAdapter

end NewtonDB
