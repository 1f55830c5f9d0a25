/-
# Names of temporary files

The names the file adapter gives to its files: the lock, the backup, and the temporary
files, whose names `#removeStaleTemps` finds again by what they begin and end with.
-/

import NewtonDB.Node.JsonFileAdapter

namespace NewtonDB

namespace JsonFileAdapter

variable (a : JsonFileAdapter)

/-- **A stale temporary file** is one whose name begins with a dot and the name of the primary,
another dot, and ends in `.tmp`. -/
theorem isStaleTemp_iff {name : JsString} : a.isStaleTemp name = true ↔
    js "." ++ a.name ++ js "." <+: name ∧ js ".tmp" <:+ name := by
  rw [isStaleTemp, Bool.and_eq_true, List.isPrefixOf_iff_prefix, List.isSuffixOf_iff_suffix]

/-- **The adapter finds its own temporary files.**  So those a crash has left are removed by the
next `load`. -/
theorem isStaleTemp_temporaryPath (uuid : JsString) :
    a.isStaleTemp (a.temporaryPath a.path uuid) = true := by
  rw [isStaleTemp_iff]
  refine ⟨⟨natText a.pid ++ js "." ++ uuid ++ js ".tmp", ?_⟩, ⟨_, rfl⟩⟩
  simp only [temporaryPath, path, List.append_assoc]

/-- A temporary name is longer than the destination by the process, the id and seven units. -/
theorem length_temporaryPath (destination uuid : JsString) :
    (a.temporaryPath destination uuid).length =
      destination.length + (natText a.pid).length + uuid.length + 7 := by
  have hdot : (js ".").length = 1 := rfl
  have htmp : (js ".tmp").length = 4 := rfl
  simp only [temporaryPath, List.length_append, hdot, htmp]
  omega

/-- A temporary name is not the destination: it is longer. -/
theorem temporaryPath_ne_destination (destination uuid : JsString) :
    a.temporaryPath destination uuid ≠ destination := fun he => by
  have hlength := a.length_temporaryPath destination uuid
  rw [he] at hlength
  omega

/-- A temporary name ends in `.tmp`. -/
theorem tmp_suffix_temporaryPath (destination uuid : JsString) :
    js ".tmp" <:+ a.temporaryPath destination uuid := ⟨_, rfl⟩

/-- A name that ends otherwise does not end as a temporary one. -/
theorem not_tmp_suffix (name : JsString) {ending : JsString} (hlength : 4 ≤ ending.length)
    (h : ¬js ".tmp" <:+ ending) : ¬js ".tmp" <:+ name ++ ending := fun htmp =>
  h (List.suffix_of_suffix_length_le htmp ⟨name, rfl⟩ hlength)

/-- The name of the lock does not. -/
theorem not_tmp_suffix_lockPath : ¬js ".tmp" <:+ a.lockPath :=
  not_tmp_suffix a.name (by decide) (by decide)

/-- The name of the backup does not. -/
theorem not_tmp_suffix_backupPath : ¬js ".tmp" <:+ a.backupPath :=
  not_tmp_suffix a.name (by decide) (by decide)

/-- A stale temporary file is none whose name ends otherwise. -/
theorem not_isStaleTemp_of_not_suffix {name : JsString} (h : ¬js ".tmp" <:+ name) :
    a.isStaleTemp name = false := by
  rw [Bool.eq_false_iff, ne_eq, isStaleTemp_iff]
  exact fun hs => h hs.2

/-- The lock is no stale temporary file. -/
theorem not_isStaleTemp_lockPath : a.isStaleTemp a.lockPath = false :=
  a.not_isStaleTemp_of_not_suffix a.not_tmp_suffix_lockPath

/-- The backup is no stale temporary file. -/
theorem not_isStaleTemp_backupPath : a.isStaleTemp a.backupPath = false :=
  a.not_isStaleTemp_of_not_suffix a.not_tmp_suffix_backupPath

/-- A stale temporary file is not the primary, which is shorter. -/
theorem not_isStaleTemp_path : a.isStaleTemp a.path = false := by
  rw [Bool.eq_false_iff, ne_eq, isStaleTemp_iff]
  rintro ⟨h, -⟩
  have hlength := h.length_le
  simp only [path, List.length_append] at hlength
  have hdot : (js ".").length = 1 := rfl
  omega

/-- The primary is not the lock. -/
theorem path_ne_lockPath : a.path ≠ a.lockPath := fun h =>
  absurd (congrArg List.length h) (by simp [lockPath, path, js])

/-- The primary is not the backup. -/
theorem path_ne_backupPath : a.path ≠ a.backupPath := fun h =>
  absurd (congrArg List.length h) (by simp [backupPath, path, js])

/-- The backup is not the lock. -/
theorem backupPath_ne_lockPath : a.backupPath ≠ a.lockPath := fun h =>
  absurd (List.append_cancel_left h) (by decide)

/-- A temporary name for the primary is none for the backup: a number follows the name.  The
process number stands where the other has `backup`. -/
theorem temporaryPath_ne_backup (uuid uuid' : JsString) :
    a.temporaryPath a.path uuid ≠ a.temporaryPath a.backupPath uuid' := by
  intro he
  have hbackup : js ".backup" = js "." ++ js "backup" := rfl
  simp only [temporaryPath, path, backupPath, hbackup, List.append_assoc] at he
  have hrest := List.append_cancel_left
    (List.append_cancel_left (List.append_cancel_left he))
  have hne : natText a.pid ≠ [] := by simpa [natText] using natDigits_ne_nil a.pid
  obtain ⟨c, digits, hdigits⟩ := List.exists_cons_of_ne_nil hne
  have hc := isDigits_natText a.pid c (by rw [hdigits]; exact List.mem_cons_self)
  rw [hdigits] at hrest
  obtain rfl : c = 98 := (List.cons.inj hrest).1
  revert hc
  decide

/-- A temporary file is not the lock. -/
theorem temporaryPath_ne_lockPath (destination uuid : JsString) :
    a.temporaryPath destination uuid ≠ a.lockPath := fun he =>
  a.not_tmp_suffix_lockPath (he ▸ a.tmp_suffix_temporaryPath destination uuid)

/-- A temporary file is not the backup. -/
theorem temporaryPath_ne_backupPath (destination uuid : JsString) :
    a.temporaryPath destination uuid ≠ a.backupPath := fun he =>
  a.not_tmp_suffix_backupPath (he ▸ a.tmp_suffix_temporaryPath destination uuid)

/-- A temporary name is longer than that of the primary. -/
theorem temporaryPath_ne_path {destination : JsString} (h : a.path.length ≤ destination.length)
    (uuid : JsString) : a.temporaryPath destination uuid ≠ a.path := fun he => by
  have hlength := a.length_temporaryPath destination uuid
  rw [he] at hlength
  omega

/-- **Different ids make different temporary names.**  The id is the part of the name that is
its own. -/
theorem temporaryPath_injective (destination : JsString) :
    Function.Injective (a.temporaryPath destination) := fun uuid uuid' h => by
  simp only [temporaryPath] at h
  exact List.append_cancel_left (List.append_cancel_right h)

end JsonFileAdapter

end NewtonDB
