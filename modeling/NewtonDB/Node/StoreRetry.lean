/-
# Retrying a failed store

When a call of `store` fails before the rename, the file on disk and the adapter's fields
still agree, and the same store can be made again.  When it fails later the new file is
in place but the fields still have the generation before it, so that a retry finds a
generation it does not expect and is refused as an external modification
(`failed_store_retried_iff`).
-/

import NewtonDB.Node.BackupRecovery
import NewtonDB.Node.StoreSpecs

namespace NewtonDB

open Method (exec)

/-! ### Faults -/

/-- A fault of a store: one that is injected, or one of a directory sync. -/
inductive StoreFault where
  | inject (point : FaultPoint)
  | sync (copy : Bool) (step : DirectoryStep)
  deriving DecidableEq

/-- Where the fault is. -/
def StoreFault.site : StoreFault → CallSite
  | .inject point => .inject point
  | .sync copy step => .directory copy step

/-- The fault comes after the rename. -/
def StoreFault.isLate : StoreFault → Bool
  | .inject .afterRename => true
  | .inject .afterDirectorySync => true
  | .sync false _ => true
  | _ => false

/-- The surroundings, with a fault at one call. -/
def Host.withFault (host : Host) (site : CallSite) (fault : Fault) : Host :=
  { host with fault := Function.update host.fault site (some fault) }

namespace JsonFileAdapter

variable {a : JsonFileAdapter} {host host' : Host} {fields : AdapterFields}
  {d d' : Directory JsString} {snapshot snapshot' : SnapshotEnvelope} {expected : ℕ}

/-- A quiet process with one fault planned meets no other. -/
theorem fault_withFault (hquiet : IsQuiet host) {site other : CallSite} (h : other ≠ site)
    (fault : Fault) : (host.withFault site fault).fault other = none :=
  (Function.update_of_ne h ..).trans (hquiet other)

/-- The points at which a store is made to fail are none of its calls on the files.  They are
the points injected between them, which answer for themselves. -/
theorem stores_withFault (hquiet : IsQuiet host) (point : StoreFault) (fault : Fault) :
    Stores (host.withFault point.site fault) := by
  have hnone : ∀ other, (∀ p : StoreFault, other ≠ p.site) →
      (host.withFault point.site fault).fault other = none := fun other h =>
    fault_withFault hquiet (h point) fault
  have hsnapshot : ∀ step, (host.withFault point.site fault).fault (.snapshot false step) = none :=
    fun step => hnone _ fun p => by cases p <;> exact fun he => by cases he
  have htemporary : ∀ copy step,
      (host.withFault point.site fault).fault (.temporary copy step) = none :=
    fun copy step => hnone _ fun p => by cases p <;> exact fun he => by cases he
  have howner : ∀ check, (host.withFault point.site fault).fault (.owner check) = none :=
    fun check => hnone _ fun p => by cases p <;> exact fun he => by cases he
  exact ⟨⟨hsnapshot _, hsnapshot _, hsnapshot _⟩, howner,
    ⟨htemporary .., htemporary .., htemporary .., htemporary .., htemporary ..⟩,
    htemporary .., htemporary .., htemporary .., htemporary .., htemporary ..⟩

/-- A fault that is planned elsewhere leaves the sync of the directory. -/
theorem syncsDirectory_withFault (hquiet : IsQuiet host) {point : StoreFault} {fault : Fault}
    {copy : Bool} (h : ∀ step, point ≠ .sync copy step) :
    (host.withFault point.site fault).syncsDirectory copy = true := by
  have hnone : ∀ step, (host.withFault point.site fault).fault (.directory copy step) = none :=
    fun step => fault_withFault hquiet (fun he => h step (by cases point <;> cases he; rfl)) fault
  simp [Host.syncsDirectory, Host.passes, hnone]

/-- A fault that is planned elsewhere leaves the fault point. -/
theorem inject_withFault (hquiet : IsQuiet host) {point : StoreFault} {fault : Fault}
    {at' : FaultPoint} (h : point ≠ .inject at') :
    (host.withFault point.site fault).fault (.inject at') = none :=
  fault_withFault hquiet (fun he => h (by cases point <;> cases he; rfl)) fault

/-- **A late fault** lets the store come to the rename.  Nothing before the rename fails
then. -/
theorem reaches_of_isLate (hquiet : IsQuiet host) {point : StoreFault} (h : point.isLate = true)
    (fault : Fault) (disk : Option Json) : Reaches (host.withFault point.site fault) disk := by
  have hinject : ∀ {at'}, StoreFault.isLate (.inject at') = false →
      (host.withFault point.site fault).fault (.inject at') = none := fun hl =>
    inject_withFault hquiet fun he => by cases (he ▸ h).symm.trans hl
  have hsync : (host.withFault point.site fault).syncsDirectory true = true :=
    syncsDirectory_withFault hquiet fun step he => by cases (he ▸ h)
  exact ⟨fun _ => hsync, hinject rfl, hinject rfl, hinject rfl, hinject rfl, hinject rfl⟩

/-- **An early fault** is the only one.  So what is behind the rename, were it reached, would
succeed. -/
theorem lasts_of_not_isLate (hquiet : IsQuiet host) {point : StoreFault}
    (h : point.isLate = false) (fault : Fault) : Lasts (host.withFault point.site fault) := by
  have hinject : ∀ {at'}, StoreFault.isLate (.inject at') = true →
      (host.withFault point.site fault).fault (.inject at') = none := fun hl =>
    inject_withFault hquiet fun he => by cases (he ▸ h).symm.trans hl
  exact ⟨hinject rfl, syncsDirectory_withFault hquiet fun step he => (by cases (he ▸ h)),
    hinject rfl⟩

/-! ### After an early fault -/

/-- A store does not change the name of the primary before its rename. -/
theorem not_storeNames_path : ¬a.StoreNames host a.path := by
  rintro (he | he | he)
  · exact a.temporaryPath_ne_destination _ _ he.symm
  · exact a.temporaryPath_ne_path (by simp [path, backupPath]) _ he.symm
  · exact a.path_ne_backupPath he

/-- A store does not change the name of the lock. -/
theorem not_storeNames_lockPath : ¬a.StoreNames host a.lockPath := by
  rintro (he | he | he)
  · exact a.temporaryPath_ne_lockPath _ _ he.symm
  · exact a.temporaryPath_ne_lockPath _ _ he.symm
  · exact a.backupPath_ne_lockPath he.symm

/-- The primary is still what was read.  A store touches its own names, and the primary's only
by its rename. -/
theorem finds_of_within {disk : Option Json} (hd : d.WF) (h : d.Within (a.StoreNames host) d')
    (hfinds : a.Finds d disk) : a.Finds d' disk := by
  have hentry := h.entries a.path not_storeNames_path
  cases disk with
  | none => exact hentry.trans hfinds
  | some disk =>
      obtain ⟨node, hnode, hreadable, hdecode⟩ := hfinds
      obtain ⟨file, hfile, rfl⟩ := Option.map_eq_some_iff.1 hnode
      -- it has no other name, so none of those that changed
      have hsame : d'.nodes file = d.nodes file := by
        refine h.nodes file (hd.bound _ _ hfile) fun name hn hname => ?_
        exact not_storeNames_path (hd.eq_of_links hreadable.2.1 hname hfile ▸ hn)
      refine ⟨d.nodes file, ?_, hreadable, hdecode⟩
      rw [Directory.file?, hentry, hfile, Option.map_some, hsame]

/-- What a store checks is the same after changes of its own names. -/
theorem checked_of_within {disk : Option Json} (hd : d.WF) (h : d.Within (a.StoreNames host) d')
    (hchecked : a.Checked fields d snapshot expected disk) :
    a.Checked fields d' snapshot expected disk :=
  { hchecked with
    owned := (ownsLock_of_within hd h not_storeNames_lockPath).2 hchecked.owned
    finds := finds_of_within hd h hchecked.finds }

/-- The names of a store with new identifiers are still free.  What the first try left has the
old identifiers, so it is not in the way. -/
theorem clear_of_within {disk : Option Json} (hd : d.WF) (hd' : d'.WF)
    (h : d.Within (a.StoreNames host) d') (hnew : d.NewRegular d')
    (hfresh : ∀ copy, host'.uuid (.temporary copy) ≠ host.uuid (.temporary copy))
    (hfree : a.Clear host d disk) (hclear : a.Clear host' d disk) : a.Clear host' d' disk := by
  refine ⟨(h.entries _ ?_).trans hclear.temporary, fun hdisk => ?_⟩
  · rintro (he | he | he)
    · exact hfresh false (a.temporaryPath_injective _ he)
    · exact a.temporaryPath_ne_backup _ _ he
    · exact a.temporaryPath_ne_backupPath _ _ he
  · have hinstall := hclear.install hdisk
    refine ⟨hinstall.calls, (h.entries _ ?_).trans hinstall.free, fun old hold => ?_⟩
    · rintro (he | he | he)
      · exact a.temporaryPath_ne_backup _ _ he.symm
      · exact hfresh true (a.temporaryPath_injective _ he)
      · exact a.temporaryPath_ne_backupPath _ _ he
    · have hbackup : a.StoreNames host a.backupPath := .inr (.inr rfl)
      rcases h.reach _ old hbackup hold with hle | ⟨name, hn, hname⟩
      · rw [hnew.kind old hle (hd'.bound _ _ hold)]
        exact fun hk => by cases hk
      · rcases hn with rfl | rfl | rfl
        · cases hfree.temporary.symm.trans hname
        · cases (hfree.install hdisk).free.symm.trans hname
        · rw [h.kind old (hd.bound _ _ hname)]
          exact hinstall.kind old hname

/-- What there is to read is one thing.  The primary's name leads to one file, and its bytes are
decoded in one way. -/
theorem finds_unique {disk disk' : Option Json} (h : a.Finds d disk) (h' : a.Finds d disk') :
    disk = disk' := by
  cases disk with
  | none =>
      cases disk' with
      | none => rfl
      | some disk' =>
          obtain ⟨node, hnode, -⟩ := h'
          obtain ⟨file, hfile, -⟩ := Option.map_eq_some_iff.1 hnode
          cases h.symm.trans hfile
  | some disk =>
      obtain ⟨node, hnode, -, hdecode⟩ := h
      cases disk' with
      | none =>
          obtain ⟨file, hfile, -⟩ := Option.map_eq_some_iff.1 hnode
          cases h'.symm.trans hfile
      | some disk' =>
          obtain ⟨node', hnode', -, hdecode'⟩ := h'
          obtain rfl := Option.some.inj (hnode.symm.trans hnode')
          rw [Except.ok.inj (hdecode.symm.trans hdecode')]

/-! ### After a late fault -/

/-- What is parsed of the file of a snapshot has its generation. -/
def ReadsGeneration (a : JsonFileAdapter) (snapshot : SnapshotEnvelope) : Prop :=
  ∀ parsed, a.platform.parse (a.platform.fileText snapshot.json) = some parsed →
    (parsed.property? (js "snapshot")).bind (·.property? (js "generation")) =
      some (.prim (.number (.ofNat snapshot.generation)))

/-- **A file that is read back** has the generation it was stored with.  `JSON.parse` reads back
what was written, counters among it. -/
theorem generation_of_decode (hreads : a.ReadsGeneration snapshot) {json : Json}
    (h : a.platform.decodeSnapshot (a.platform.serializeSnapshot snapshot.json) = .ok json) :
    json.generation = snapshot.generation := by
  have hwell : isWellFormed (a.platform.fileText snapshot.json) :=
    isWellFormed_append (Json.isWellFormed_stringify _) rfl
  obtain ⟨text, parsed, htext, hparsed, hjson, hdata⟩ := a.platform.decodeSnapshot_eq_ok h
  obtain rfl := Option.some.inj ((utf8Decode_utf8Encode hwell).symm.trans htext)
  have hgeneration := hreads parsed hparsed
  rw [hjson] at hgeneration
  have hindex : ((json.property? (js "generation")).bind Json.index?).isSome = true := by
    simp only [isSnapshotData, Bool.and_eq_true] at hdata
    exact hdata.1.1.2
  replace hgeneration : json.property? (js "generation") =
    some (.prim (.number (.ofNat snapshot.generation))) := hgeneration
  rw [hgeneration, Option.bind_some, Json.index?_ofNat] at hindex
  rw [Json.generation, hgeneration, Option.bind_some, Json.index?_ofNat]
  by_cases hsafe : snapshot.generation ≤ 2 ^ 53 - 1
  · rw [if_pos hsafe]
    rfl
  · rw [if_neg hsafe] at hindex
    cases hindex

/-- **The new file is taken for one that was modified externally.**  Its generation is the one
the store was to bring, while the adapter still knows the one before. -/
theorem not_checked_of_replaced (hreads : a.ReadsGeneration snapshot)
    (hgeneration : snapshot.generation = fields.generation + 1) (h : a.Replaced snapshot d)
    (disk : Option Json) : ¬a.Checked fields d snapshot' expected disk := by
  rintro hchecked
  obtain ⟨file, hfile, hnode⟩ := h
  have hfinds := hchecked.finds
  cases disk with
  | none => cases hfile.symm.trans hfinds
  | some json =>
      obtain ⟨node, hnode', -, hdecode⟩ := hfinds
      rw [Directory.file?, hfile] at hnode'
      obtain rfl := Option.some.inj hnode'
      rw [hnode] at hdecode
      have hdisk : json.generation = fields.generation := hchecked.diskGeneration
      rw [generation_of_decode hreads hdecode, hgeneration] at hdisk
      exact absurd hdisk (Nat.succ_ne_self _)

/-! ### The retry -/

/-- Every method leaves new files that are regular.  By induction on its calls; only a create
makes a file. -/
theorem newRegular_exec {α : Type} (host : Host) (m : AdapterMethod α) (fields : AdapterFields)
    (d : Directory JsString) : d.NewRegular (exec host.handler m fields d).2.2 := by
  refine Method.exec_invariant (fun c w hw => ?_) m (.refl d)
  cases c with
  | file site call => exact hw.answer call _
  | inject point => exact hw
  | isAlive pid => exact hw
  | randomUUID site => exact hw

/-- **A store that failed can be retried** exactly when the fault came before the rename:
from what the failed store leaves, a store without faults returns if and only if it does
from where the failed store started. -/
theorem failed_store_retried_iff {point : StoreFault} {fault : Fault} (hd : d.WF)
    (hquiet : IsQuiet host) (hquiet' : IsQuiet host')
    (hfresh : ∀ copy, host'.uuid (.temporary copy) ≠ host.uuid (.temporary copy))
    (hreads : a.ReadsGeneration snapshot)
    (haccepts : a.Accepts host fields d snapshot expected)
    (hfails : ¬a.Accepts (host.withFault point.site fault) fields d snapshot expected)
    (haccepts' : a.Accepts host' fields d snapshot' expected) :
    a.Accepts host'
      (exec (host.withFault point.site fault).handler (a.store snapshot expected) fields d).2.1
      (exec (host.withFault point.site fault).handler (a.store snapshot expected) fields d).2.2
      snapshot' expected ↔ point.isLate = false := by
  obtain ⟨disk, hchecked, hclear⟩ := (accepts_iff hd hquiet).1 haccepts
  obtain ⟨disk', hchecked', hclear'⟩ := (accepts_iff hd hquiet').1 haccepts'
  obtain rfl := finds_unique hchecked.finds hchecked'.finds
  have hstores := stores_withFault hquiet point fault
  have hclear₁ : a.Clear (host.withFault point.site fault) d disk :=
    ⟨hclear.temporary, fun h =>
      ⟨hstores.installs, (hclear.install h).free, (hclear.install h).kind⟩⟩
  have hd' := wf_exec hd (host.withFault point.site fault) (a.store snapshot expected) fields
  rw [accepts_iff hd' hquiet']
  cases hlate : point.isLate with
  | true =>
      obtain ⟨outcome, fields', d', hrun, hreplaced, hiff, hsame⟩ := exec_store_renamed hd hchecked
        (reaches_of_isLate hquiet hlate fault disk) hstores hclear₁
      rw [hrun]
      obtain rfl := hsame fun hlasts => hfails (by rw [Accepts, hrun]; exact hiff.2 hlasts)
      refine iff_of_false (fun h => ?_) (by simp)
      obtain ⟨disk', hchecked', -⟩ := h
      exact not_checked_of_replaced hreads (hchecked.current ▸ hchecked.generation) hreplaced disk'
        hchecked'
  | false =>
      have hearly : ¬Reaches (host.withFault point.site fault) disk := fun hreach => by
        obtain ⟨outcome, fields', d', hrun, -, hiff, -⟩ :=
          exec_store_renamed hd hchecked hreach hstores hclear₁
        exact hfails (by rw [Accepts, hrun]; exact hiff.2 (lasts_of_not_isLate hquiet hlate fault))
      obtain ⟨checked, hcheck, hcheckok⟩ := exec_checkStore a fields d snapshot expected
        (hstores.owner 0) hstores.reads
      obtain rfl := (hcheckok disk).2 hchecked
      obtain ⟨thrown, d', hrun, hwithin⟩ := exec_store_early hcheck hearly
      have hnew := newRegular_exec (host.withFault point.site fault)
        (a.store snapshot expected) fields d
      rw [hrun] at hd' hnew ⊢
      refine iff_of_true ⟨disk, checked_of_within hd hwithin hchecked', ?_⟩ rfl
      exact clear_of_within hd hd' hwithin hnew hfresh hclear₁ hclear'

/-! ### A store that fails after the rename -/

/-- A system without faults whose identifiers are all `uuid`. -/
def hostNaming (uuid : JsString) : Host where
  fault _ := none
  uuid _ := uuid
  alive _ := true

/-- The fields once an empty database was loaded. -/
def loadedFields : AdapterFields :=
  { AdapterFields.new with loaded := true, lock := some 0, lockToken := some (js "t") }

/-- The directory of an empty database with its lock. -/
def loadedDirectory : Directory JsString :=
  (Directory.created .empty storedAdapter.lockPath).write 0
    (utf8Encode (storedAdapter.lockText (js "t")))

/-- The first snapshot of an empty database. -/
def firstSnapshot : SnapshotEnvelope := ⟨[], [], js "d", 1, 1⟩

/-- The first store, with a fault. -/
def failedStore (point : StoreFault) :
    Method.Left AdapterFields Thrown (Directory JsString) StoreAcknowledgement :=
  exec ((hostNaming (js "u")).withFault point.site ⟨.other 5, []⟩).handler
    (storedAdapter.store firstSnapshot 0) loadedFields loadedDirectory

/-- The directory after a load is well formed. -/
theorem wf_loadedDirectory : loadedDirectory.WF := by
  have h := (Directory.WF.empty (N := JsString)).create storedAdapter.lockPath
  rw [Directory.create_of_fresh rfl] at h
  exact h.write 0 _

/-- The first store is accepted, whichever of two ids it gets. -/
theorem first_store_accepted (uuid : JsString) (h : uuid = js "u" ∨ uuid = js "v") :
    storedAdapter.Accepts (hostNaming uuid) loadedFields loadedDirectory firstSnapshot 0 := by
  refine ⟨⟨js "d", 1, 1⟩, ?_⟩
  rcases h with rfl | rfl
  · decide +kernel
  · decide +kernel

/-- **A store that failed after the rename cannot be made again.**  The primary is the new
snapshot already, and the adapter says that it was modified externally. -/
theorem renamed_store_refused :
    storedAdapter.Accepts (hostNaming (js "u")) loadedFields loadedDirectory firstSnapshot 0 ∧
    (failedStore (.inject .afterRename)).1 =
      .error (.newton (.storage (js "Failed to atomically store the database snapshot"))) ∧
    (exec (hostNaming (js "v")).handler (storedAdapter.store firstSnapshot 0)
      (failedStore (.inject .afterRename)).2.1 (failedStore (.inject .afterRename)).2.2).1 =
      .error (.newton (.storageConflict (js "The storage file was modified externally"))) :=
  ⟨first_store_accepted _ (.inl rfl), by decide +kernel, by decide +kernel⟩

/-- Its generation is read back from the file. -/
theorem readsGeneration_firstSnapshot : storedAdapter.ReadsGeneration firstSnapshot := by
  intro parsed hparsed
  have h : storedAdapter.platform.parse (storedAdapter.platform.fileText firstSnapshot.json) =
      some (storedAdapter.platform.diskEnvelope firstSnapshot.json) := by decide +kernel
  obtain rfl := Option.some.inj (h.symm.trans hparsed)
  decide +kernel

/-- A store that fails behind the opening of its temporary file can be retried, as the
equivalence says.  The primary is as it was, and the temporary file was discarded. -/
theorem opened_store_retried_iff :
    storedAdapter.Accepts (hostNaming (js "v"))
      (exec ((hostNaming (js "u")).withFault (StoreFault.inject .afterTempOpen).site
        ⟨.other 5, []⟩).handler (storedAdapter.store firstSnapshot 0) loadedFields
        loadedDirectory).2.1
      (exec ((hostNaming (js "u")).withFault (StoreFault.inject .afterTempOpen).site
        ⟨.other 5, []⟩).handler (storedAdapter.store firstSnapshot 0) loadedFields
        loadedDirectory).2.2 firstSnapshot 0 ↔
      (StoreFault.inject .afterTempOpen).isLate = false := by
  refine failed_store_retried_iff wf_loadedDirectory (fun _ => rfl) (fun _ => rfl)
    (fun _ => show js "v" ≠ js "u" by decide) readsGeneration_firstSnapshot
    (first_store_accepted _ (.inl rfl)) ?_
    (first_store_accepted _ (.inr rfl))
  rintro ⟨acknowledgement, h⟩
  have hfails : (failedStore (.inject .afterTempOpen)).1.isOk = false := by decide +kernel
  cases (congrArg Except.isOk h).symm.trans hfails

end JsonFileAdapter

end NewtonDB
