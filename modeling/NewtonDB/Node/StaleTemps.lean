/-
# Stale temporary files of another database

`load` on a database `p` removes the names that begin with `.p.` and end with `.tmp`.
The temporary files of a database `q` in the same directory are called
`.q.<pid>.<uuid>.tmp` and `.q.backup.<pid>.<uuid>.tmp`, and such a name may begin with
`.p.` although the databases are different: when `q` itself begins with `p.`, or `p` is
`q` with a process number after it.  In all other cases `load` on `p` leaves them alone
(`sparesTemps_iff`).
-/

import NewtonDB.Node.BackupRecovery

namespace NewtonDB

open Method (exec Preserves)

/-! ### Names with full stops -/

/-- **A part of a list before a separator**, when the list is two parts with one between.  It
lies in the first, or it is the first, or it goes on into the second. -/
theorem prefix_separated {α : Type*} {p l r : List α} {s : α} :
    p ++ [s] <+: l ++ s :: r ↔
      p ++ [s] <+: l ∨ p = l ∨ ∃ p', p = l ++ s :: p' ∧ p' ++ [s] <+: r := by
  constructor
  · intro h
    rcases Nat.lt_trichotomy p.length l.length with hlt | heq | hgt
    · refine .inl (List.prefix_of_prefix_length_le h (List.prefix_append l _) ?_)
      rw [List.length_append]
      exact hlt
    · refine .inr (.inl (List.IsPrefix.eq_of_length ?_ heq))
      exact List.prefix_of_prefix_length_le ((List.prefix_append p _).trans h)
        (List.prefix_append l _) heq.le
    · have hwhole : l ++ [s] <+: l ++ s :: r := ⟨r, by simp⟩
      have hl : l ++ [s] <+: p := by
        refine List.prefix_of_prefix_length_le hwhole ((List.prefix_append p _).trans h) ?_
        rw [List.length_append]
        exact hgt
      obtain ⟨p', rfl⟩ := hl
      refine .inr (.inr ⟨p', by simp, ?_⟩)
      have hcancel : (l ++ [s]) ++ (p' ++ [s]) <+: (l ++ [s]) ++ r := by simpa using h
      exact (List.prefix_append_right_inj _).1 hcancel
  · rintro (h | rfl | ⟨p', rfl, h⟩)
    · exact h.trans (List.prefix_append l _)
    · exact ⟨r, by simp⟩
    · have hcancel := (List.prefix_append_right_inj (l ++ [s])).2 h
      simpa using hcancel

/-- Nothing precedes a separator in a list without one. -/
theorem not_prefix_of_notMem {α : Type*} {p r : List α} {s : α} (h : s ∉ r) :
    ¬p ++ [s] <+: r := fun hp => h (hp.subset (by simp))

/-! ### Names of temporary files -/

/-- A digit or a letter up to `f`. -/
def isLowerHex (c : UInt16) : Bool := (48 ≤ c && c ≤ 57) || (97 ≤ c && c ≤ 102)

/-- The unit `c` may stand at place `i` of an identifier of version 4: hyphens at four places,
the version and the variant at two, and hexadecimal digits elsewhere. -/
def isUuidUnit (c : UInt16) (i : ℕ) : Bool :=
  if i ∈ [8, 13, 18, 23] then c = 45
  else if i = 14 then c = 52
  else if i = 19 then c ∈ [56, 57, 97, 98]
  else isLowerHex c

/-- What `randomUUID` returns: an identifier of version 4. -/
def isUuid (s : JsString) : Bool :=
  s.length = 36 && s.zipIdx.all fun entry => isUuidUnit entry.1 entry.2

/-- A file of a store, a backup or a recovery of the database `q` while it is written. -/
def IsTemporaryOf (q name : JsString) : Prop :=
  ∃ b : JsonFileAdapter, b.name = q ∧ 0 < b.pid ∧ ∃ uuid, isUuid uuid = true ∧
    (name = b.temporaryPath b.path uuid ∨ name = b.temporaryPath b.backupPath uuid)

/-- No temporary file of `q` is removed by a `load` on `p`. -/
def SparesTemps (p q : JsString) : Prop :=
  ∀ a : JsonFileAdapter, a.name = p → ∀ name, IsTemporaryOf q name →
    ∀ (host : Host) (fields : AdapterFields) (d : Directory JsString) (file : ℕ),
      d.entries.get? name = some file →
        (exec host.handler a.load fields d).2.2.entries.get? name = some file

/-- The names of two databases that are taken for one another: `q` begins with `p.`, or
`p` is the beginning or the whole of a temporary name of `q`. -/
def NamesClash (p q : JsString) : Prop :=
  p ++ js "." <+: q ∨ ∃ pid uuid, 0 < pid ∧ isUuid uuid = true ∧ ∃ base ∈ [q, q ++ js ".backup"],
    p = base ++ js "." ++ natText pid ∨ p = base ++ js "." ++ natText pid ++ js "." ++ uuid ∨
    p = js "." ++ base ++ js "." ++ natText pid ++ js "." ++ uuid ++ js ".tmp"

/-- The identifier in a temporary name has no full stop in it.  It has digits of the base
sixteen, and dashes. -/
theorem notMem_uuid {uuid : JsString} (h : isUuid uuid = true) : (46 : UInt16) ∉ uuid := by
  intro hmem
  obtain ⟨i, hi, he⟩ := List.mem_iff_getElem.1 hmem
  have hall := (Bool.and_eq_true_iff.1 h).2
  have hunit : isUuidUnit 46 i = true :=
    List.all_eq_true.1 hall (46, i) (List.mem_zipIdx_iff_getElem?.2 (by simp [he, hi]))
  unfold isUuidUnit at hunit
  split_ifs at hunit
  · exact absurd hunit (by decide)
  · exact absurd hunit (by decide)
  · exact absurd hunit (by decide)
  · exact absurd hunit (by decide)

/-- Nor has the process number. -/
theorem notMem_natText (n : ℕ) : (46 : UInt16) ∉ natText n := fun hmem => by
  have h := (isDigits_natText n 46 hmem).1
  revert h
  decide

namespace JsonFileAdapter

variable {a : JsonFileAdapter} {host : Host} {d₀ : Directory JsString}

/-- **A temporary name is taken for that of another database** only in the ways listed.  An id
has no dot, so that none of the ways ends within it. -/
theorem prefix_temporary_iff {p base uuid : JsString} {pid : ℕ} (huuid : isUuid uuid = true) :
    js "." ++ p ++ js "." <+:
        js "." ++ base ++ js "." ++ natText pid ++ js "." ++ uuid ++ js ".tmp" ↔
      p ++ js "." <+: base ∨ p = base ∨ p = base ++ js "." ++ natText pid ∨
        p = base ++ js "." ++ natText pid ++ js "." ++ uuid := by
  have hdot : js "." = [46] := rfl
  have htmp : js ".tmp" = 46 :: js "tmp" := rfl
  have hleft : js "." ++ base ++ js "." ++ natText pid ++ js "." ++ uuid ++ js ".tmp" =
      [46] ++ (base ++ 46 :: (natText pid ++ 46 :: (uuid ++ 46 :: js "tmp"))) := by
    rw [hdot, htmp]
    simp
  have hend : (46 : UInt16) ∉ js "tmp" := by decide
  rw [hleft, hdot, List.append_assoc, List.prefix_append_right_inj, prefix_separated]
  refine or_congr_right (or_congr_right ⟨?_, ?_⟩)
  · rintro ⟨p', rfl, h⟩
    rcases prefix_separated.1 h with hpid | rfl | ⟨p'', rfl, hrest⟩
    · exact absurd hpid (not_prefix_of_notMem (notMem_natText pid))
    · exact .inl (by simp)
    · rcases prefix_separated.1 hrest with hid | rfl | ⟨r, rfl, htail⟩
      · exact absurd hid (not_prefix_of_notMem (notMem_uuid huuid))
      · exact .inr (by simp)
      · exact absurd htail (not_prefix_of_notMem hend)
  · rintro (rfl | rfl)
    · exact ⟨natText pid, by simp, prefix_separated.2 (.inr (.inl rfl))⟩
    · refine ⟨natText pid ++ 46 :: uuid, by simp, prefix_separated.2 (.inr (.inr ⟨uuid, rfl, ?_⟩))⟩
      exact prefix_separated.2 (.inr (.inl rfl))

/-- A stale temporary file has another name than one that is not. -/
theorem ne_of_isStaleTemp {name name' : JsString} (h : a.isStaleTemp name = true)
    (h' : a.isStaleTemp name' = false) : name' ≠ name := fun he => by
  rw [he, h] at h'
  cases h'

/-! ### What `load` leaves alone -/

/-- The names `load` may change. -/
def Changes (a : JsonFileAdapter) (name : JsString) : Prop :=
  a.isStaleTemp name = true ∨ name = a.path ∨ name = a.lockPath

/-- A turn at the lock changes no name that a load does not change.  The one name it touches is
that of the lock. -/
theorem keeps_attemptLock (attempt : ℕ) :
    Preserves host.handler (KeepsTo (fun _ => True) a.Changes d₀) (a.attemptLock attempt)
      fun _ => True := by
  have hlock : a.Changes a.lockPath := .inr (.inr rfl)
  refine .bind (keeps_randomUUID _) fun uuid _ => .handle ?_ fun error => ?_
  · refine .bind (keeps_create hlock _) fun handle hhandle => ?_
    exact .bind (keeps_write hhandle _ _) fun _ _ =>
      .bind (keeps_fileCall (c := .sync handle) trivial _) fun _ _ =>
        .bind (.update fun _ _ hI => hI) fun _ _ => .pure trivial
  · intro fields d hI
    by_cases he : error = .system .exists
    · subst he
      rw [exec_lockFailed_exists rfl rfl]
      split_ifs
      · exact ⟨hI, fun _ _ => trivial⟩
      · exact ⟨hI, fun _ _ => trivial⟩
      · exact ⟨⟨trivial, hI.2.answer (c := .unlink a.lockPath) hlock _⟩, fun _ _ => trivial⟩
    · rw [exec_lockFailed_other he]
      exact ⟨hI, fun _ _ => trivial⟩

/-- To take the lock changes no name that a load does not change.  Besides the turns it makes
the parent directory, and looks at it. -/
theorem keeps_acquireLock : Preserves host.handler (KeepsTo (fun _ => True) a.Changes d₀)
    a.acquireLock fun _ => True := by
  have hturns : Preserves host.handler (KeepsTo (fun _ => True) a.Changes d₀) a.attemptTwice
      fun _ => True :=
    .bind (keeps_attemptLock 0) fun _ _ => .ite (fun _ => .pure trivial) fun _ =>
      .bind (keeps_attemptLock 1) fun _ _ => .ite (fun _ => .pure trivial) fun _ => .throw _
  intro fields d hI
  by_cases hready : a.ParentReady host d
  · obtain ⟨parent, hrun⟩ := exec_acquireLock_ready hready
    rw [hrun]
    exact hturns fields _ ⟨trivial, hI.2.withParent parent⟩
  · obtain ⟨parent, thrown, hrun⟩ := exec_acquireLock_unready hready
    rw [hrun]
    exact ⟨⟨trivial, hI.2.withParent parent⟩, fun _ _ => trivial⟩

/-- **`load` changes no other names than its own**, whatever the system reports.  These are its
lock, the primary, and what it takes for stale temporary files, its own among them. -/
theorem keeps_load : Preserves host.handler (KeepsTo (fun _ => True) a.Changes d₀) a.load
    fun _ => True := by
  have hclose : Preserves host.handler (KeepsTo (fun _ => True) a.Changes d₀) a.close
      fun _ => True := by
    intro fields d hI
    cases hc : fields.closed with
    | true =>
        rw [exec_close_closed hc]
        exact ⟨hI, fun _ _ => trivial⟩
    | false =>
        obtain ⟨outcome, d', hrun, hwithin, -⟩ := exec_close (a := a) (d := d) host hc
        rw [hrun]
        exact ⟨⟨trivial, hI.2.trans (hwithin.mono fun _ hn => .inr (.inr hn))⟩, fun _ _ => trivial⟩
  have hlocked : Preserves host.handler (KeepsTo (fun _ => True) a.Changes d₀) a.loadLocked
      fun _ => True :=
    keeps_loadLocked (fun _ _ _ _ => trivial) (fun _ hs => .inl hs) (.inr (.inl rfl))
      (.inl (a.isStaleTemp_temporaryPath _))
  have hopen : Preserves host.handler (KeepsTo (fun _ => True) a.Changes d₀) (do
      a.acquireLock
      modify fun fields => { fields with loaded := true }
      tryCatch a.loadLocked fun error => do
        a.close
        throw error) fun _ => True :=
    .bind keeps_acquireLock fun _ _ => .bind (.update fun _ _ hI => hI) fun _ _ =>
      .handle hlocked fun _ => .bind hclose fun _ _ => .throw _
  refine .bind .read fun fields _ => .ite (fun _ => ?_) fun _ => .ite (fun _ => ?_) fun _ => hopen
  · refine .bind (P := fun _ => False) (.throw _) fun _ h => h.elim
  · refine .bind (P := fun _ => False) (.throw _) fun _ h => h.elim

/-! ### What `load` removes -/

/-- A system without faults. -/
def quietHost : Host where
  fault _ := none
  uuid _ := js "t"
  alive _ := true

/-- An adapter for the database `p`. -/
def adapterFor (p : JsString) : JsonFileAdapter := { storedAdapter with name := p }

/-- The adapter of a path reads back the lock file it writes. -/
theorem readsBack_adapterFor (p : JsString) : (adapterFor p).ReadsBack (js "t") :=
  ⟨readsBack_storedAdapter.parse, readsBack_storedAdapter.pid, readsBack_storedAdapter.token⟩

/-- Its `JSON.parse` refuses an empty text. -/
theorem parse_nil_adapterFor (p : JsString) : (adapterFor p).platform.parse [] = none := by
  show storedAdapter.platform.parse [] = none
  decide +kernel

/-- Nothing fails at a turn of a quiet process. -/
theorem locksAt_quietHost (attempt : ℕ) : LocksAt quietHost attempt := ⟨rfl, rfl, rfl⟩

/-- The lock is taken where its name is free. -/
theorem acquires_adapterFor {p : JsString} {d : Directory JsString}
    (hparent : d.parent = .directory)
    (hfree : d.entries.get? (adapterFor p).lockPath = none) : (adapterFor p).Acquires quietHost d :=
  ⟨⟨fun h => (by cases h), rfl, .inr hparent⟩, .inl ⟨hfree, locksAt_quietHost 0⟩⟩

/-- **A name that is taken for a stale temporary one is removed.**  Here it is the only file,
and nothing fails. -/
theorem removes_stale {p name : JsString} (h : (adapterFor p).isStaleTemp name = true) :
    (exec quietHost.handler (adapterFor p).load .new
      (Directory.created .empty name)).2.2.entries.get? name = none := by
  set d : Directory JsString := Directory.created .empty name with hd'
  have hd : d.WF := by
    have hcreate := (Directory.WF.empty (N := JsString)).create name
    rwa [Directory.create_of_fresh rfl] at hcreate
  have hentry : ∀ other, other ≠ name → d.entries.get? other = none := fun other ho => by
    rw [hd', Directory.get?_created, if_neg (Ne.symm ho)]
    rfl
  have hother : ∀ other, (adapterFor p).isStaleTemp other = false → other ≠ name :=
    fun _ => ne_of_isStaleTemp h
  have hlock := hother _ (adapterFor p).not_isStaleTemp_lockPath
  obtain ⟨token, d₁, hacquire, htoken, htaken⟩ :=
    exec_acquireLock hd (acquires_adapterFor (p := p) rfl (hentry _ hlock))
  obtain rfl : token = js "t" := by
    rcases htoken with rfl | rfl <;> rfl
  have hclears : (adapterFor p).ClearsTemps quietHost d := by
    refine ⟨rfl, fun other file ho _ => ⟨rfl, ?_⟩⟩
    have hfile : file < 1 := hd.bound _ _ ho
    obtain rfl : file = 0 := by omega
    exact fun hk => by cases (Directory.node_created_self .empty name ▸ hk)
  have hfields : (AdapterFields.locked d.next (js "t")).lockToken = some (js "t") := rfl
  obtain ⟨d₂, hp, hrest⟩ := exec_loadLocked_prepared hd (parse_nil_adapterFor p)
    (readsBack_adapterFor p) htaken hfields hclears rfl
  have hbackup : ¬∃ file snapshot, (adapterFor p).CanRead quietHost d true file ∧
      (adapterFor p).platform.decodeSnapshot (d.nodes file).bytes = .ok snapshot := by
    rintro ⟨file, -, hread, -⟩
    have hnone := hentry _ (hother _ (adapterFor p).not_isStaleTemp_backupPath)
    cases hnone.symm.trans hread.named
  obtain ⟨outcome, hrun⟩ := exec_loadWithRecovery_neither hd hp hbackup (.locked d.next (js "t"))
  rw [hrun] at hrest
  have hwithin := exec_load_within hacquire
  rw [hrest] at hwithin
  rw [hwithin.entries name (Ne.symm hlock), hp.clear name h]

/-- An empty file under the name of a database, and its stored backup. -/
def emptyWithBackup (p : JsString) : Directory JsString :=
  ((Directory.created .empty (adapterFor p).path).created (adapterFor p).backupPath).write 1
    (storedPlatform.serializeSnapshot storedSnapshot)

/-- What is in the directory: an empty primary, and a backup. -/
theorem get?_emptyWithBackup (p name : JsString) : (emptyWithBackup p).entries.get? name =
    if (adapterFor p).backupPath = name then some 1
    else if (adapterFor p).path = name then some 0 else none := by
  refine (Directory.get?_created _ _ _).trans ?_
  rw [Directory.get?_created]
  rfl

/-- The primary is its first file. -/
theorem path_emptyWithBackup (p : JsString) :
    (emptyWithBackup p).entries.get? (adapterFor p).path = some 0 := by
  rw [get?_emptyWithBackup, if_neg (adapterFor p).path_ne_backupPath.symm, if_pos rfl]

/-- The directory is well formed.  It is made from an empty one by two creates and a write. -/
theorem wf_emptyWithBackup (p : JsString) : (emptyWithBackup p).WF := by
  have h := (Directory.WF.empty (N := JsString)).create (adapterFor p).path
  rw [Directory.create_of_fresh rfl] at h
  have h' := h.create (adapterFor p).backupPath
  rw [Directory.create_of_fresh] at h'
  · exact h'.write 1 _
  · rw [Directory.get?_created, if_neg (adapterFor p).path_ne_backupPath]
    rfl

/-- The backup is the file of a stored snapshot. -/
theorem node_one_emptyWithBackup (p : JsString) : (emptyWithBackup p).nodes 1 =
    ⟨.regular, storedPlatform.serializeSnapshot storedSnapshot, 1⟩ := rfl

/-- The file of the backup may be read. -/
theorem isReadable_stored (p : JsString) : (adapterFor p).IsReadable
    ⟨.regular, storedPlatform.serializeSnapshot storedSnapshot, 1⟩ :=
  ⟨rfl, rfl, by
    show (storedPlatform.serializeSnapshot storedSnapshot).length ≤ 1000
    decide +kernel⟩

/-- **A file under the name of a database is replaced by its backup.**  Here the file is empty,
so that it cannot be read as a snapshot. -/
theorem recovers_over (p : JsString) :
    (exec quietHost.handler (adapterFor p).load .new (emptyWithBackup p)).2.2.entries.get?
      (adapterFor p).path ≠ some 0 := by
  have hentry := get?_emptyWithBackup p
  have hp := path_emptyWithBackup p
  have hbackup : (emptyWithBackup p).entries.get? (adapterFor p).backupPath = some 1 := by
    rw [hentry, if_pos rfl]
  have hfree : ∀ name, (adapterFor p).path ≠ name → (adapterFor p).backupPath ≠ name →
      (emptyWithBackup p).entries.get? name = none := fun name h h' => by
    rw [hentry, if_neg h', if_neg h]
  have hnone : ∀ name, (adapterFor p).isStaleTemp name = true →
      (emptyWithBackup p).entries.get? name = none := fun name hs =>
    hfree name (ne_of_isStaleTemp hs (adapterFor p).not_isStaleTemp_path)
      (ne_of_isStaleTemp hs (adapterFor p).not_isStaleTemp_backupPath)
  have hlock := hfree _ (adapterFor p).path_ne_lockPath (adapterFor p).backupPath_ne_lockPath
  have hseen : ∀ file, (adapterFor p).seen (emptyWithBackup p) file =
      (emptyWithBackup p).nodes file := fun file => by
    have hstale : (adapterFor p).staleNames (emptyWithBackup p) file = ∅ :=
      Finset.eq_empty_of_forall_notMem fun name hm => by
        obtain ⟨hname, hs⟩ := Finset.mem_filter.1 hm
        cases (hnone name hs).symm.trans (Directory.mem_namesOf.1 hname)
    rw [seen, hstale, hlock]
    rfl
  have hdecode : ∀ {bytes snapshot}, storedAdapter.platform.decodeSnapshot bytes = .ok snapshot →
      (adapterFor p).platform.decodeSnapshot bytes = .ok snapshot := id
  have hrecover : (adapterFor p).CanRecover quietHost (emptyWithBackup p) :=
    { wanted := rfl
      locks := acquires_adapterFor rfl hlock
      clears := ⟨rfl, fun name file hname hs => by cases (hnone name hs).symm.trans hname⟩
      owns := rfl
      backup := by
        refine ⟨1, storedSnapshot, ⟨⟨rfl, rfl, rfl⟩, hbackup, ?_⟩, hdecode ?_⟩
        · rw [hseen, node_one_emptyWithBackup]
          exact isReadable_stored p
        · rw [node_one_emptyWithBackup]
          exact decodes_storedSnapshot
      installs := ⟨rfl, rfl, rfl, rfl, rfl⟩ }
  have hunread : ¬∃ file snapshot, (adapterFor p).CanRead quietHost (emptyWithBackup p) false file ∧
      (adapterFor p).platform.decodeSnapshot ((emptyWithBackup p).nodes file).bytes =
        .ok snapshot := by
    rintro ⟨file, snapshot, hread, hdecoded⟩
    obtain rfl := Option.some.inj (hp.symm.trans hread.named)
    have hempty : (storedAdapter.platform.decodeSnapshot []).isOk = false := by decide +kernel
    cases (congrArg Except.isOk hdecoded).symm.trans hempty
  have hkind : ∀ file, (emptyWithBackup p).entries.get? (adapterFor p).path = some file →
      ((emptyWithBackup p).nodes file).kind ≠ .directory := by
    intro file hfile
    obtain rfl := Option.some.inj (hp.symm.trans hfile)
    exact fun hk => by cases hk
  obtain ⟨new, hle, hnew⟩ := exec_load_recovers (wf_emptyWithBackup p) (parse_nil_adapterFor p)
    (fun _ => readsBack_adapterFor p) hunread hkind hrecover
  rw [hnew]
  intro he
  exact absurd (hle.trans_eq (Option.some.inj he)) (by show ¬(2 ≤ 0); decide)

/-! ### Names that are taken for one another -/

/-- The name of a temporary file. -/
theorem isTemporaryOf {q base uuid : JsString} {pid : ℕ} (hbase : base ∈ [q, q ++ js ".backup"])
    (hpid : 0 < pid) (huuid : isUuid uuid = true) :
    IsTemporaryOf q (js "." ++ base ++ js "." ++ natText pid ++ js "." ++ uuid ++ js ".tmp") := by
  refine ⟨{ adapterFor q with pid := pid }, rfl, hpid, uuid, huuid, ?_⟩
  rcases List.mem_pair.1 hbase with rfl | rfl
  · exact .inl rfl
  · exact .inr rfl

/-- `p` does not spare the temporary files it takes for its own.  Each of the four cases gives a
temporary name of `q` that begins and ends like one of `p`. -/
theorem not_sparesTemps {p q base uuid : JsString} {pid : ℕ} (hbase : base ∈ [q, q ++ js ".backup"])
    (hpid : 0 < pid) (huuid : isUuid uuid = true)
    (h : p ++ js "." <+: base ∨ p = base ∨ p = base ++ js "." ++ natText pid ∨
      p = base ++ js "." ++ natText pid ++ js "." ++ uuid) : ¬SparesTemps p q := by
  intro hspares
  have hstale : (adapterFor p).isStaleTemp
      (js "." ++ base ++ js "." ++ natText pid ++ js "." ++ uuid ++ js ".tmp") = true :=
    (adapterFor p).isStaleTemp_iff.2 ⟨(prefix_temporary_iff huuid).2 h, ⟨_, rfl⟩⟩
  have hkept := hspares (adapterFor p) rfl _ (isTemporaryOf hbase hpid huuid) quietHost .new
    (Directory.created .empty _) 0 (by rw [Directory.get?_created, if_pos rfl]; rfl)
  cases (removes_stale hstale).symm.trans hkept

/-- A `.` in the name of a backup is one in the name of the database, or just after it.  The
ending `.backup` has one full stop, its first unit. -/
theorem prefix_backup_iff {p q : JsString} :
    p ++ js "." <+: q ++ js ".backup" ↔ p ++ js "." <+: q ∨ p = q := by
  have hdot : js "." = [46] := rfl
  have hbackup : js ".backup" = 46 :: js "backup" := rfl
  have hnone : (46 : UInt16) ∉ js "backup" := by decide
  rw [hdot, hbackup, prefix_separated]
  refine or_congr_right (or_iff_left ?_)
  rintro ⟨p', -, h⟩
  exact not_prefix_of_notMem hnone h

/-- **A load leaves the temporary files of another adapter** when the names do not clash: none
of them is the other's stale temporary file, its primary, its backup or its lock. -/
theorem not_changes_of_not_namesClash {p q base uuid : JsString} {pid : ℕ} (hne : p ≠ q)
    (hbackup : p ≠ q ++ js ".backup") (hclash : ¬NamesClash p q)
    (hbase : base ∈ [q, q ++ js ".backup"]) (hpid : 0 < pid) (huuid : isUuid uuid = true)
    (ha : a.name = p) :
    ¬a.Changes (js "." ++ base ++ js "." ++ natText pid ++ js "." ++ uuid ++ js ".tmp") := by
  subst ha
  rintro (hstale | hpath | hlock)
  · refine hclash ?_
    rcases (prefix_temporary_iff huuid).1 (a.isStaleTemp_iff.1 hstale).1 with hp | hp | hp | hp
    · rcases List.mem_pair.1 hbase with rfl | rfl
      · exact .inl hp
      · exact .inl ((prefix_backup_iff.1 hp).resolve_right hne)
    · rcases List.mem_pair.1 hbase with rfl | rfl
      · exact absurd hp hne
      · exact absurd hp hbackup
    · exact .inr ⟨pid, uuid, hpid, huuid, base, hbase, .inl hp⟩
    · exact .inr ⟨pid, uuid, hpid, huuid, base, hbase, .inr (.inl hp)⟩
  · exact hclash (.inr ⟨pid, uuid, hpid, huuid, base, hbase, .inr (.inr hpath.symm)⟩)
  · exact a.not_tmp_suffix_lockPath (hlock ▸ ⟨_, rfl⟩)

/-- **`load` on `p` spares the temporary files of `q`** exactly when the names do not clash.
One direction says that `load` changes no other names than its own, the other has a temporary
file for each kind of clash that is removed or replaced. -/
theorem sparesTemps_iff {p q : JsString} (hne : p ≠ q) (hbackup : p ≠ q ++ js ".backup") :
    SparesTemps p q ↔ ¬NamesClash p q := by
  constructor
  · rintro hspares (hp | ⟨pid, uuid, hpid, huuid, base, hbase, hp | hp | hp⟩)
    · have huuid : isUuid (js "00000000-0000-4000-8000-000000000000") = true := by decide
      exact not_sparesTemps (List.mem_pair.2 (.inl rfl)) one_pos huuid (.inl hp) hspares
    · exact not_sparesTemps hbase hpid huuid (.inr (.inr (.inl hp))) hspares
    · exact not_sparesTemps hbase hpid huuid (.inr (.inr (.inr hp))) hspares
    · have htemporary := isTemporaryOf hbase hpid huuid
      rw [← hp] at htemporary
      exact recovers_over p
        (hspares (adapterFor p) rfl p htemporary quietHost .new _ 0 (path_emptyWithBackup p))
  · rintro hclash a ha name ⟨b, hb, hpid, uuid, huuid, hname⟩ host fields d file hfile
    subst hb
    have hown : ¬a.Changes name := by
      rcases hname with rfl | rfl
      · refine not_changes_of_not_namesClash hne hbackup hclash ?_ hpid huuid ha
        exact List.mem_pair.2 (.inl rfl)
      · refine not_changes_of_not_namesClash hne hbackup hclash ?_ hpid huuid ha
        exact List.mem_pair.2 (.inr rfl)
    have hkeeps : KeepsTo (fun _ => True) a.Changes d _ (exec host.handler a.load fields d).2.2 :=
      (keeps_load fields d ⟨trivial, .refl a.Changes d⟩).1
    exact (hkeeps.2.entries name hown).trans hfile

/-- **A temporary file of `a.b` is removed by `load` on `a`.**  Its name begins with a dot, `a`
and a dot. -/
theorem dotted_name_not_spared : js "a" ≠ js "a.b" ∧ js "a.b" ≠ js "a" ++ js ".backup" ∧
    js "a" ≠ js "a.b" ++ js ".backup" ∧ ¬SparesTemps (js "a") (js "a.b") := by
  refine ⟨by decide, by decide, by decide, ?_⟩
  have huuid : isUuid (js "00000000-0000-4000-8000-000000000000") = true := by decide
  exact not_sparesTemps (List.mem_pair.2 (.inl rfl)) one_pos huuid (.inl (by decide))

/-- The temporary files of `b` are spared by the adapter of `a`, as the equivalence says: `a` is
no part of the name `b`. -/
theorem plain_name_spared_iff : SparesTemps (js "a") (js "b") ↔ ¬NamesClash (js "a") (js "b") :=
  sparesTemps_iff (by decide) (by decide)

end JsonFileAdapter

end NewtonDB
