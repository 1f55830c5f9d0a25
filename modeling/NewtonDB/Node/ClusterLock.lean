/-
# Taking and releasing the lock beside others

`#acquireLock`, `load` and `close` of one adapter of a cluster, with any calls of the
others in between.  An adapter that has taken the lock created the file that bears its
name (`assures_acquireLock`); it keeps the lock until its own `close` removes the file
(`assures_close`).  `Cluster.Tidy` is what holds of an adapter between two methods.
-/

import NewtonDB.Node.ClusterRules

namespace NewtonDB

open Method (Assures Retains)

namespace Cluster

variable {ι : Type} {c : Cluster ι} {i : ι} {fields f₀ : AdapterFields} {m : Machine ι}

/-! ### Between two methods -/

/-- The fields of an adapter and its lock. -/
structure Tidy (c : Cluster ι) (i : ι) (fields : AdapterFields) (m : Machine ι) : Prop where
  sane : m.Sane
  fresh : fields.loaded = false → fields.lock = none ∧ fields.lockToken = none
  lock : fields.lock.isSome = true → fields.closed = false ∧ fields.lockToken.isSome = true
  mine : fields.closed = false → fields.lockToken.isSome = true → c.Mine i m

/-- What the others do leaves the fields of an adapter and its lock in step. -/
theorem Tidy.stable : c.Stable i (c.Tidy i) := fun _ _ _ h hm =>
  ⟨hm.sane h.sane, h.fresh, h.lock, fun hc ht =>
    have hmine := h.mine hc ht
    hmine.of_eq (hm.mine hmine)⟩

/-- An adapter that was constructed. -/
theorem Tidy.new (h : m.Sane) : c.Tidy i .new m :=
  ⟨h, fun _ => ⟨rfl, rfl⟩, (fun hl => by cases hl), (fun _ ht => by cases ht)⟩

/-- **An open adapter has the lock.**  The fields tell of a lock only while the lock file is the
adapter's. -/
theorem Tidy.mine_of_lock (h : c.Tidy i fields m) (hl : fields.lock.isSome = true) : c.Mine i m :=
  h.mine (h.lock hl).1 (h.lock hl).2

/-- The adapter has its lock. -/
structure Locked (c : Cluster ι) (i : ι) (F : AdapterFields → Prop) (fields : AdapterFields)
    (m : Machine ι) : Prop where
  fields : F fields
  sane : m.Sane
  mine : c.Mine i m

section

variable {keep : Bool} {F : AdapterFields → Prop} {α : Type}

/-- What the others do leaves an adapter its lock. -/
theorem Locked.stable : c.Stable i (c.Locked i F) := fun _ _ _ h hm =>
  ⟨h.fields, hm.sane h.sane, h.mine.of_eq (hm.mine h.mine)⟩

/-- An adapter that holds its lock has it. -/
theorem Held.locked {d₀ : Directory JsString} (h : c.Held i F d₀ fields m) :
    c.Locked i F fields m := ⟨h.fields, h.sane, h.mine⟩

/-- What is kept since any moment under the lock. -/
theorem retains_locked {method : AdapterMethod α} {P : α → Prop}
    (h : ∀ d₀, Retains (c.surroundings i keep) (c.Held i F d₀) method P) :
    Retains (c.surroundings i keep) (c.Locked i F) method P := by
  intro fields m hm
  have hheld := h m.dir fields m (.start hm.fields hm.sane hm.mine)
  exact hheld.mono fun left m' hm' => ⟨hm'.1.locked, hm'.2⟩

/-- A fact about the fields alone, and the directory it needs. -/
structure Ready (f₀ fields : AdapterFields) (m : Machine ι) : Prop where
  fields : fields = f₀
  sane : m.Sane
  parent : m.dir.parent = .directory

/-- What the others do leaves the fields of an adapter alone. -/
theorem Ready.stable : c.Stable i (Ready f₀) := fun _ _ _ h hm =>
  ⟨h.fields, hm.sane h.sane, hm.parent h.parent⟩

end

/-! ### The lock file -/

/-- The names of the lock and of the primary differ. -/
theorem path_ne_lockPath (c : Cluster ι) : c.path ≠ c.lockPath := fun h =>
  absurd (congrArg List.length h) (by simp [lockPath, path, js])

/-- A call on the name of the lock alone leaves the primary as it was. -/
theorem primary_of_within {m' : Machine ι} (h : m.Sane)
    (hwithin : m.dir.Within (fun name => name = c.lockPath) m'.dir) : c.primary m' = c.primary m :=
  hwithin.bytes_file? c.path_ne_lockPath (h.wf.bound c.path)

/-- What a turn that creates the lock file knows of it. -/
structure Created (c : Cluster ι) (i : ι) (f₀ : AdapterFields) (handle : ℕ)
    (fields : AdapterFields) (m : Machine ι) : Prop where
  locked : c.Locked i (· = f₀) fields m
  primary : m.dir.entries.get? c.path ≠ some handle

/-- What the others do leaves a lock file that was just created to the adapter that created
it. -/
theorem Created.stable {handle : ℕ} : c.Stable i (c.Created i f₀ handle) := fun fields m m' h hm =>
  ⟨Locked.stable fields m m' h.locked hm, (hm.mine h.locked.mine).1 ▸ h.primary⟩

/-- An adapter that has created the lock file has not changed its fields yet. -/
theorem Created.ready {handle : ℕ} (h : c.Created i f₀ handle fields m) : Ready f₀ fields m :=
  ⟨h.locked.fields, h.locked.sane, h.locked.mine.parent⟩

/-- **The lock is free when its file is created**, and then the adapter's own.  An exclusive
create fails where another has made one, so that no two adapters have it. -/
theorem assures_create (site : CallSite) :
    Assures (c.surroundings i false) (Ready f₀) (fileCall site (.create c.lockPath))
      fun outcome fields m => Ready f₀ fields m ∧
        ∀ handle, outcome = .ok handle → c.Created i f₀ handle fields m := by
  refine assures_fileCall Ready.stable fun fields m answer hm _ => ?_
  rcases m.reply_create (i := i) answer site c.lockPath with ⟨code, hreply⟩ | ⟨hfree, hreply⟩
  · rw [hreply]
    exact ⟨.refl m, hm, fun handle he => by cases he⟩
  · set m' : Machine ι := { m with
      dir := m.dir.created c.lockPath, author := Function.update m.author m.dir.next (some i) }
    have hsane : m'.Sane := by
      have h := hm.sane.reply (i := i) answer (.file site (.create c.lockPath))
      rwa [hreply] at h
    have hmine : c.Mine i m' := ⟨hm.parent, m.dir.next, OrderedMap.get?_set_self ..,
      Function.update_self ..⟩
    have hprimary : c.primary m' = c.primary m :=
      primary_of_within hm.sane ((Directory.Within.refl _ _).created rfl)
    have hpath : m'.dir.entries.get? c.path ≠ some m.dir.next := fun he => by
      rw [show m'.dir.entries.get? c.path = m.dir.entries.get? c.path from
        (Directory.get?_created ..).trans (if_neg (Ne.symm c.path_ne_lockPath))] at he
      exact absurd (hm.sane.wf.bound _ _ he) (lt_irrefl _)
    have hnone : ∀ j, ¬c.Mine j m := fun j hj => by
      obtain ⟨file, hentry, -⟩ := hj.entry
      rw [hfree] at hentry
      cases hentry
    rw [hreply]
    refine ⟨⟨fun _ => hsane, fun j _ _ => ⟨fun _ => hsane, fun _ => hm.parent,
      fun hj => absurd hj (hnone j)⟩, fun _ => .inl hprimary, fun _ hi => absurd hi (hnone i)⟩,
      ⟨hm.fields, hsane, hm.parent⟩, fun handle he => ?_⟩
    obtain rfl := Except.ok.inj he
    exact ⟨⟨hm.fields, hsane, hmine⟩, hpath⟩

/-- The lock file is written.  The file has the adapter's own name as its author, so no other
adapter takes it for one of its own. -/
theorem retains_writeLock (site : CallSite) (handle : ℕ) (bytes : List UInt8) :
    Retains (c.surroundings i false) (c.Created i f₀ handle)
      (fileCall site (.write handle bytes)) fun _ => True := by
  refine assures_fileCall Created.stable fun fields m answer hm _ => ?_
  set m' := (m.reply i answer (.file site (.write handle bytes))).2 with hm'
  obtain ⟨left, hdir⟩ : ∃ left, m'.dir = m.dir.write handle left := by
    rw [hm', Machine.dir_reply]
    cases answer.fault with
    | none => exact ⟨bytes, rfl⟩
    | some fault => exact ⟨fault.left, rfl⟩
  have hentries : m'.dir.entries = m.dir.entries := by rw [hdir]; rfl
  have hsane := hm.locked.sane.reply (i := i) answer (.file site (.write handle bytes))
  have hmine : c.Mine i m' := by
    obtain ⟨file, hentry, hauthor⟩ := hm.locked.mine.entry
    refine ⟨Machine.parent_reply hm.locked.mine.parent answer _, file, hentries ▸ hentry, ?_⟩
    rw [hm', Machine.author_reply answer site _ (hm.locked.sane.wf.bound _ _ hentry), hauthor]
  have hprimary : c.primary m' = c.primary m := by
    rw [primary, primary, Directory.file?, Directory.file?, hentries, hdir]
    cases he : m.dir.entries.get? c.path with
    | none => rfl
    | some file =>
        have hne : file ≠ handle := fun hf => hm.primary (hf ▸ he)
        exact congrArg (some ∘ FileNode.bytes) (Directory.node_write m.dir left hne)
  refine ⟨hm.locked.mine.guarantees (fun hs => hs.reply answer _)
    (fun hp => Machine.parent_reply hp answer _) (fun _ => .inl hprimary) fun _ => hmine,
    ⟨⟨hm.locked.fields, hsane, hmine⟩, hentries ▸ hm.primary⟩, fun _ _ => trivial⟩

/-! ### `#acquireLock` -/

/-- The fields once the lock was taken. -/
def TakenFrom (f₀ fields : AdapterFields) : Prop :=
  ∃ handle token, fields = { f₀ with lock := some handle, lockToken := some token }

/-- A turn that takes the lock.  The name was free at the moment of the create, and the adapter
is the author of what is there from then on. -/
theorem assures_createLock (attempt : ℕ) (token : JsString) :
    Assures (c.surroundings i false) (Ready f₀) ((c.adapter i).createLock attempt token)
      fun outcome fields m => (∀ taken, outcome = .ok taken →
        taken = true ∧ c.Locked i (TakenFrom f₀) fields m) ∧
          ∀ error, outcome = .error error → Ready f₀ fields m := by
  rw [JsonFileAdapter.createLock, c.lockPath_adapter]
  refine Assures.bind (assures_create _) (fun handle => ?_) fun error fields m hm =>
    ⟨(fun _ he => by cases he), fun _ _ => hm.1⟩
  have hstart : ∀ (fields : AdapterFields) (m : Machine ι), (Ready f₀ fields m ∧
      ∀ handle', (Except.ok handle : Except Thrown ℕ) = .ok handle' →
        c.Created i f₀ handle' fields m) → c.Created i f₀ handle fields m :=
    fun _ _ hm => hm.2 handle rfl
  refine Assures.consequence (I := c.Created i f₀ handle) ?_ hstart fun _ _ _ h => h
  have hfailed : ∀ (error : Thrown) (fields : AdapterFields) (m : Machine ι) {β : Type}
      {P : β → Prop}, (c.Created i f₀ handle fields m ∧
        ∀ a, (Except.error error : Except Thrown β) = .ok a → P a) →
      (∀ taken, (Except.error error : Except Thrown Bool) = .ok taken →
        taken = true ∧ c.Locked i (TakenFrom f₀) fields m) ∧
      ∀ error', (Except.error error : Except Thrown Bool) = .error error' → Ready f₀ fields m :=
    fun _ _ _ _ _ hm => ⟨(fun _ he => by cases he), fun _ _ => hm.1.ready⟩
  refine Assures.bind (retains_writeLock _ handle _) (fun _ => ?_) fun error fields m =>
    hfailed error fields m
  refine Assures.consequence (I := c.Created i f₀ handle) ?_ (fun _ _ h => h.1) fun _ _ _ h => h
  refine Assures.bind (retains_look Created.stable rfl _) (fun _ => ?_) fun error fields m =>
    hfailed error fields m
  refine Assures.bind (P := fun outcome fields m => outcome = .ok () ∧
    c.Locked i (TakenFrom f₀) fields m) (Assures.update fun fields m hm => ?_)
    (fun _ => Assures.pure fun fields m hm => ?_) fun error fields m hm => by cases hm.1
  · exact ⟨rfl, ⟨handle, token, by rw [hm.1.locked.fields]⟩, hm.1.locked.sane, hm.1.locked.mine⟩
  · exact ⟨fun taken he => ⟨(Except.ok.inj he).symm, hm.2⟩, fun _ he => by cases he⟩

/-- **A stale lock is removed** when it is that of no live process.  The run spares the living,
so that the adapter removes no lock file of a process that is alive. -/
theorem retains_takeover (attempt : ℕ) :
    Retains (c.surroundings i false) (Ready f₀) (fileCall (.lock attempt .remove)
      (.unlink c.lockPath)) fun _ => True := by
  refine assures_fileCall Ready.stable fun fields m answer hm hstale => ?_
  set request : AdapterRequest (Except ErrorCode Unit) :=
    .file (.lock attempt .remove) (.unlink c.lockPath) with hrequest
  cases hfault : answer.fault with
  | some fault =>
      -- a removal that fails removes nothing
      have hsame : (m.reply i answer request).2 = m := by
        rw [hrequest, Machine.reply, hfault]
        rfl
      rw [hsame]
      exact ⟨.refl m, hm, fun _ _ => trivial⟩
  | none =>
      have hwithin : m.dir.Within (fun name => name = c.lockPath) (m.reply i answer request).2.dir :=
        (Directory.Within.refl (fun name => name = c.lockPath) m.dir).answer (c := .unlink c.lockPath)
          rfl answer.fault
      have hnone : ∀ j, m.alive (c.pid j) = true → ¬c.Mine j m := fun j hj hmine => by
        obtain ⟨file, hentry, hauthor⟩ := hmine.entry
        have h := hstale rfl hfault
        simp [lockIsStale, hentry, hauthor, hj] at h
      have hparent := fun hp => Machine.parent_reply (i := i) (m := m) hp answer request
      exact ⟨⟨fun hs => hs.reply answer _, fun j _ hj => ⟨fun hs => hs.reply answer _, hparent,
        fun hmine => absurd hmine (hnone j hj)⟩, fun _ => .inl (primary_of_within hm.sane hwithin),
          fun hk => by cases hk⟩, ⟨hm.fields, hm.sane.reply answer _, hparent hm.parent⟩,
          fun _ _ => trivial⟩

/-- A turn that does not take the lock.  It may remove a stale lock file on the way, and a
takeover spares the lock files of living processes by assumption. -/
theorem retains_lockFailed (attempt : ℕ) (error : Thrown) :
    Retains (c.surroundings i false) (Ready f₀) ((c.adapter i).lockFailed attempt error)
      fun taken => taken = false := by
  have hread : ∀ site, Retains (c.surroundings i false) (Ready f₀)
      (readText site (c.adapter i).lockPath) fun _ => True :=
    fun site => retains_readText Ready.stable site _
  have hremove : Retains (c.surroundings i false) (Ready f₀) (fileCall (.lock attempt .remove)
      (.unlink (c.adapter i).lockPath)) fun _ => True := by
    rw [c.lockPath_adapter]
    exact retains_takeover attempt
  have hsecond (firstText : Option JsString) : Retains (c.surroundings i false) (Ready f₀) (do
      let secondText ← readText (.lock attempt .readSecond) (c.adapter i).lockPath
      if firstText = none ∨ secondText ≠ firstText then return false
      let _ ← Method.attempt (fileCall (.lock attempt .remove) (.unlink (c.adapter i).lockPath))
      return false) fun taken => taken = false := by
    refine .bind (hread _) fun secondText _ => ?_
    exact .ite (fun _ => .pure rfl) fun _ => .bind hremove.attempt fun _ _ => .pure rfl
  have hfirst : Retains (c.surroundings i false) (Ready f₀) (do
      let firstText ← readText (.lock attempt .readFirst) (c.adapter i).lockPath
      if ← isOwnerAlive (firstText.bind (c.adapter i).platform.parseLock) then
        throw (.newton (.storageConflict (js "The database is locked by another live process")))
      let secondText ← readText (.lock attempt .readSecond) (c.adapter i).lockPath
      if firstText = none ∨ secondText ≠ firstText then return false
      let _ ← Method.attempt (fileCall (.lock attempt .remove) (.unlink (c.adapter i).lockPath))
      return false) fun taken => taken = false := by
    refine .bind (hread _) fun firstText _ => ?_
    refine .bind (retains_isOwnerAlive Ready.stable _) fun isAlive _ => ?_
    exact .ite (fun _ => .throwThen _) fun _ => hsecond firstText
  exact .ite (fun _ => .throwThen _) fun _ => hfirst

/-- One turn of the loop.  It takes the lock, or leaves the adapter as ready as it was. -/
theorem assures_attemptLock (attempt : ℕ) :
    Assures (c.surroundings i false) (Ready f₀) ((c.adapter i).attemptLock attempt)
      fun outcome fields m =>
        (outcome = .ok true ∧ c.Locked i (TakenFrom f₀) fields m) ∨
          (outcome ≠ .ok true ∧ Ready f₀ fields m) := by
  refine Assures.bind (retains_randomUUID Ready.stable _) (fun token => ?_)
    fun error fields m hm => .inr ⟨(fun he => by cases he), hm.1⟩
  refine Assures.consequence (I := Ready f₀) ?_ (fun _ _ h => h.1) fun _ _ _ h => h
  refine Assures.handle (assures_createLock attempt token) (fun taken fields m hm => ?_)
    fun error => ?_
  · obtain ⟨rfl, hlocked⟩ := hm.1 taken rfl
    exact .inl ⟨rfl, hlocked⟩
  · refine Assures.consequence (retains_lockFailed attempt error) (fun _ _ h => h.2 error rfl)
      fun outcome fields m hm => .inr ⟨fun he => ?_, hm.1⟩
    have h := hm.2 true he
    cases h

/-- What a method starts with. -/
structure Start (f₀ fields : AdapterFields) (m : Machine ι) : Prop where
  fields : fields = f₀
  sane : m.Sane

/-- What the others do leaves a method where it starts. -/
theorem Start.stable : c.Stable i (Start f₀) := fun _ _ _ h hm => ⟨h.fields, hm.sane h.sane⟩

/-- To make a directory that is there changes nothing.  No adapter removes the parent directory,
so what was there stays. -/
theorem retains_mkdir : Retains (c.surroundings i false) (Start f₀)
    (fileCall .makeParent .mkdir) fun _ => True := by
  refine assures_fileCall Start.stable fun fields m answer hm _ => ?_
  set request : AdapterRequest (Except ErrorCode Unit) := .file .makeParent .mkdir
  have hmine : ∀ j, c.Mine j m → (m.reply i answer request).2.dir = m.dir := fun j hj => by
    show ((FileCall.mkdir : FileCall JsString Unit).answer answer.fault m.dir).2 = m.dir
    cases answer.fault with
    | none => simp [FileCall.answer, FileCall.perform, Directory.mkdir, hj.parent]
    | some fault => rfl
  have hwithin : m.dir.Within (fun name => name = c.lockPath) (m.reply i answer request).2.dir :=
    (Directory.Within.refl (fun name => name = c.lockPath) m.dir).answer (c := .mkdir)
      trivial answer.fault
  exact ⟨⟨fun hs => hs.reply answer _, fun j _ _ => ⟨fun hs => hs.reply answer _,
    fun hp => Machine.parent_reply hp answer _, fun hj => ⟨hmine j hj, rfl⟩⟩,
      fun _ => .inl (primary_of_within hm.sane hwithin), fun hk => by cases hk⟩,
      ⟨hm.fields, hm.sane.reply answer _⟩, fun _ _ => trivial⟩

/-- The parent directory is there when it was seen.  It stays a directory after that, whatever
the others do. -/
theorem assures_lstat : Assures (c.surroundings i false) (Start f₀)
    (fileCall .checkParent .lstat) fun outcome fields m => Start f₀ fields m ∧
      (outcome = .ok true → m.dir.parent = .directory) := by
  refine assures_fileCall Start.stable fun fields m answer hm _ => ?_
  rw [m.reply_of_isQuiet rfl]
  refine ⟨.refl m, hm, fun he => ?_⟩
  have hreply : (m.reply i answer (.file .checkParent .lstat)).1 =
      ((FileCall.lstat : FileCall JsString Bool).answer answer.fault m.dir).1 := rfl
  rw [hreply] at he
  cases hf : answer.fault with
  | some fault =>
      rw [hf] at he
      cases he
  | none =>
      rw [hf] at he
      cases hp : m.dir.parent with
      | directory => rfl
      | absent => simp [FileCall.answer, FileCall.perform, Directory.lstat, hp,
          Except.mapError] at he
      | other => simp [FileCall.answer, FileCall.perform, Directory.lstat, hp,
          Except.mapError] at he

/-- **The check of the parent** changes no field, and where it passes the parent is a
directory. -/
theorem assures_checkParent : Assures (c.surroundings i false) (Start f₀)
    (c.adapter i).checkParent fun outcome fields m => Start f₀ fields m ∧
      (outcome = .ok () → m.dir.parent = .directory) := by
  have hseen : Assures (c.surroundings i false) (Start f₀) (do
      let isDirectory ← tryCatch (fileCall .checkParent .lstat) fun _ =>
        throw (.newton (.storage (js "Storage parent directory is unavailable")))
      if !isDirectory then
        throw (.newton (.storage (js "Storage parent is not a directory"))) : AdapterMethod Unit)
      fun outcome fields m => Start f₀ fields m ∧
        (outcome = .ok () → m.dir.parent = .directory) := by
    refine Assures.bind (P := fun outcome fields m => Start f₀ fields m ∧
        (outcome = .ok true → m.dir.parent = .directory))
      (Assures.handle assures_lstat (fun _ _ _ h => h) fun error =>
        Assures.throw fun fields m hm => ⟨hm.1, fun he => by cases he⟩) (fun isDirectory => ?_)
      fun error fields m hm => ⟨hm.1, fun he => by cases he⟩
    cases isDirectory with
    | false => exact Assures.throw fun fields m hm => ⟨hm.1, fun he => by cases he⟩
    | true => exact Assures.pure fun fields m hm => ⟨hm.1, fun _ => hm.2 rfl⟩
  unfold JsonFileAdapter.checkParent
  refine Assures.ite (fun _ => ?_) fun _ => hseen
  have hmade : Retains (c.surroundings i false) (Start f₀)
      (tryCatch (fileCall .makeParent .mkdir) fun _ => throw (.newton (.storage
        (js "Could not create the storage parent directory"))) : AdapterMethod Unit)
      fun _ => True := .handle retains_mkdir fun _ => .throw _
  refine Assures.bind hmade (fun _ => ?_) fun error fields m hm =>
    ⟨hm.1, fun he => by cases he⟩
  exact Assures.consequence hseen (fun _ _ h => h.1) fun _ _ _ h => h

/-- What `#acquireLock` leaves. -/
def Acquired (c : Cluster ι) (i : ι) (f₀ : AdapterFields) (outcome : Except Thrown Unit)
    (fields : AdapterFields) (m : Machine ι) : Prop :=
  (outcome = .ok () → c.Locked i (TakenFrom f₀) fields m) ∧
    ∀ error, outcome = .error error → Start f₀ fields m

/-- A turn of the loop, and what follows when it does not take the lock.  The rest is the second
turn, or the refusal after both. -/
theorem assures_turn (attempt : ℕ) {rest : AdapterMethod Unit}
    (hrest : Assures (c.surroundings i false) (Ready f₀) rest (c.Acquired i f₀)) :
    Assures (c.surroundings i false) (Ready f₀) (do
      if ← (c.adapter i).attemptLock attempt then return
      rest) (c.Acquired i f₀) := by
  refine Assures.bind (assures_attemptLock attempt) (fun taken => ?_) fun error fields m hm => ?_
  · cases taken with
    | false =>
        refine Assures.consequence hrest (fun fields m hm => ?_) fun _ _ _ h => h
        obtain ⟨he, -⟩ | ⟨-, hm⟩ := hm
        · cases he
        · exact hm
    | true =>
        refine Assures.pure fun fields m hm => ⟨fun _ => ?_, fun _ he => by cases he⟩
        obtain ⟨-, hm⟩ | ⟨he, -⟩ := hm
        · exact hm
        · exact absurd rfl he
  · obtain ⟨he, -⟩ | ⟨-, hm⟩ := hm
    · cases he
    · exact ⟨(fun he => by cases he), fun _ _ => ⟨hm.fields, hm.sane⟩⟩

/-- **An adapter that has acquired the lock** created the file that bears its name.  That holds
from then on, whatever the others do, until it gives the lock up or dies. -/
theorem assures_acquireLock : Assures (c.surroundings i false) (Start f₀)
    (c.adapter i).acquireLock (c.Acquired i f₀) := by
  refine Assures.bind assures_checkParent (fun _ => ?_) fun error fields m hm =>
    ⟨(fun he => by cases he), fun _ _ => hm.1⟩
  refine Assures.consequence (I := Ready f₀) (assures_turn 0 (assures_turn 1
    (Assures.throw fun fields m hm => ⟨(fun he => by cases he), fun _ _ =>
      ⟨hm.fields, hm.sane⟩⟩))) (fun fields m hm => ⟨hm.1.fields, hm.1.sane, hm.2 rfl⟩)
    fun _ _ _ h => h

/-! ### `close` -/

/-- The lock file is removed by the adapter it belongs to.  Nobody else removes it in between,
since the process lives. -/
theorem assures_unlinkLock (site : CallSite) {F : AdapterFields → Prop} :
    Assures (c.surroundings i false) (c.Locked i F) (fileCall site (.unlink c.lockPath))
      fun _ fields m => F fields ∧ m.Sane := by
  refine assures_fileCall Locked.stable fun fields m answer hm _ => ?_
  have hwithin : m.dir.Within (fun name => name = c.lockPath)
      (m.reply i answer (.file site (.unlink c.lockPath))).2.dir :=
    (Directory.Within.refl (fun name => name = c.lockPath) m.dir).answer (c := .unlink c.lockPath)
      rfl answer.fault
  exact ⟨hm.mine.guarantees (fun hs => hs.reply answer _)
    (fun hp => Machine.parent_reply hp answer _)
    (fun _ => .inl (primary_of_within hm.sane hwithin)) (fun hk => by cases hk),
    hm.fields, hm.sane.reply answer _⟩

/-- The `try` of `close`.  The lock may stay when a call of it fails, and then it belongs to
nobody who stores. -/
theorem assures_releaseLock (token : JsString) {F : AdapterFields → Prop} :
    Assures (c.surroundings i false) (c.Locked i F) ((c.adapter i).releaseLock token)
      fun _ fields m => F fields ∧ m.Sane := by
  unfold JsonFileAdapter.releaseLock
  rw [c.lockPath_adapter]
  refine Assures.bind (retains_look Locked.stable rfl _) (fun bytes => ?_)
    fun error fields m hm => ⟨hm.1.fields, hm.1.sane⟩
  refine Assures.consequence (I := c.Locked i F) ?_ (fun _ _ h => h.1) fun _ _ _ h => h
  exact Assures.ite (fun _ => assures_unlinkLock _) fun _ =>
    Assures.pure fun fields m hm => ⟨hm.fields, hm.sane⟩

/-- The fields `close` leaves. -/
structure ShutFrom (f₀ fields : AdapterFields) : Prop where
  fields : fields = f₀.shut
  fresh : f₀.loaded = false → f₀.lockToken = none

/-- The fields that are left are tidy. -/
theorem ShutFrom.tidy (h : ShutFrom f₀ fields) (hsane : m.Sane) :
    c.Tidy i fields m ∧ fields.lock = none := by
  obtain ⟨rfl, hfresh⟩ := h
  exact ⟨⟨hsane, fun hl => ⟨rfl, hfresh hl⟩, (fun hl => by cases hl), fun hc _ => by cases hc⟩, rfl⟩

/-- What `close` knows once it has changed the fields. -/
structure Shutting (c : Cluster ι) (i : ι) (f₀ fields : AdapterFields) (m : Machine ι) : Prop where
  fields : ShutFrom f₀ fields
  sane : m.Sane
  mine : f₀.lockToken.isSome = true → c.Mine i m

/-- What the others do leaves a `close` what it knows. -/
theorem Shutting.stable : c.Stable i (c.Shutting i f₀) := fun _ _ _ h hm =>
  ⟨h.fields, hm.sane h.sane, fun ht => (h.mine ht).of_eq (hm.mine (h.mine ht))⟩

/-- **`close` gives the lock up.**  It removes the lock file only where that bears its own
token. -/
theorem assures_close : Assures (c.surroundings i false) (c.Tidy i) (c.adapter i).close
    fun _ fields m => c.Tidy i fields m ∧ fields.lock = none := by
  refine Assures.readThen fun f₀ => Assures.ite (fun hclosed => ?_) fun hclosed => ?_
  · refine Assures.pure fun fields m hm => ⟨hm.2, ?_⟩
    obtain ⟨rfl, hm⟩ := hm
    cases hl : fields.lock with
    | none => rfl
    | some handle => exact absurd ((hm.lock (hl ▸ rfl)).1.symm.trans hclosed) Bool.noConfusion
  · refine Assures.updateThen (J := c.Shutting i f₀) (fun fields m hm => ?_) ?_
    · obtain ⟨rfl, hm⟩ := hm
      exact ⟨⟨rfl, fun hl => (hm.fresh hl).2⟩, hm.sane, hm.mine (by simpa using hclosed)⟩
    have hrelease : ∀ token, f₀.lockToken = some token → Assures (c.surroundings i false)
        (c.Shutting i f₀) (tryCatch ((c.adapter i).releaseLock token) fun error => do
          if error ≠ .system .missing then
            throw (.newton (.storage (js "Failed to release the database lock"))))
        fun _ fields m => c.Tidy i fields m ∧ fields.lock = none := fun token htoken => by
      refine Assures.handle (Assures.consequence (assures_releaseLock token (F := ShutFrom f₀))
        (fun fields m hm => ⟨hm.fields, hm.sane, hm.mine (htoken ▸ rfl)⟩)
        fun _ _ _ hm => hm.1.tidy hm.2) (fun _ _ _ h => h) fun error => ?_
      exact Assures.ite (fun _ => Assures.throw fun _ _ h => h) fun _ => Assures.pure fun _ _ h => h
    have hhandle : ∀ handle, Retains (c.surroundings i false) (c.Shutting i f₀)
        (Method.attempt (fileCall (.release .close) (.close handle))) fun _ => True :=
      fun handle => (retains_look Shutting.stable rfl _).attempt.weaken fun _ _ => trivial
    cases f₀.lock with
    | none =>
        cases htoken : f₀.lockToken with
        | none => exact Assures.pure fun _ _ hm => hm.fields.tidy hm.sane
        | some token => exact hrelease token htoken
    | some handle =>
        refine Assures.bind (hhandle handle) (fun _ => ?_) fun error fields m hm =>
          hm.1.fields.tidy hm.1.sane
        refine Assures.consequence (I := c.Shutting i f₀) ?_ (fun _ _ h => h.1) fun _ _ _ h => h
        cases htoken : f₀.lockToken with
        | none => exact Assures.pure fun _ _ hm => hm.fields.tidy hm.sane
        | some token => exact hrelease token htoken

/-! ### `load` -/

/-- The fields of an adapter that has loaded. -/
structure Opened (fields : AdapterFields) : Prop where
  closed : fields.closed = false
  loaded : fields.loaded = true
  token : fields.lockToken.isSome = true

/-- An adapter that has its lock is tidy. -/
theorem Locked.tidy (h : c.Locked i Opened fields m) : c.Tidy i fields m :=
  ⟨h.sane, fun hl => absurd (hl.symm.trans h.fields.loaded) Bool.noConfusion,
    fun _ => ⟨h.fields.closed, h.fields.token⟩, fun _ _ => h.mine⟩

/-- **`load` takes the lock**, and gives it up when it fails.  An error in any call behind the
lock is followed by its release. -/
theorem assures_load : Assures (c.surroundings i false) (c.Tidy i) (c.adapter i).load
    fun _ fields m => c.Tidy i fields m := by
  refine Assures.readThen fun f₀ => ?_
  refine Assures.ite (fun _ => Assures.throwThen fun _ _ hm => hm.2) fun hclosed => ?_
  refine Assures.ite (fun _ => Assures.throwThen fun _ _ hm => hm.2) fun hloaded => ?_
  intro f m hm
  obtain ⟨rfl, htidy⟩ := hm
  obtain ⟨hlock, htoken⟩ := htidy.fresh (by simpa using hloaded)
  have hback : ∀ fields (m' : Machine ι), Start f fields m' → c.Tidy i fields m' := by
    rintro _ m' ⟨rfl, hsane⟩
    exact ⟨hsane, fun _ => ⟨hlock, htoken⟩, fun hl => absurd (hlock ▸ hl) (by simp),
      fun _ ht => absurd (htoken ▸ ht) (by simp)⟩
  have hfailed : ∀ error : Thrown, Assures (c.surroundings i false) (c.Locked i Opened) (do
      (c.adapter i).close
      throw error) fun (_ : Except Thrown (Option Json)) fields m => c.Tidy i fields m :=
    fun error => Assures.bind (Assures.consequence assures_close (fun _ _ h => h.tidy)
      fun _ _ _ h => h.1) (fun _ => Assures.throw fun _ _ h => h) fun _ _ _ h => h
  have hloadLocked : Retains (c.surroundings i false) (c.Locked i Opened) (c.adapter i).loadLocked
      fun _ => True :=
    retains_locked fun d₀ => retains_loadLocked fun _ _ _ h => ⟨h.closed, h.loaded, h.token⟩
  have hrest : Assures (c.surroundings i false) (Start f) (do
      (c.adapter i).acquireLock
      modify fun fields => { fields with loaded := true }
      tryCatch (c.adapter i).loadLocked fun error => do
        (c.adapter i).close
        throw error) fun _ fields m => c.Tidy i fields m := by
    refine Assures.bind assures_acquireLock (fun _ => ?_) fun error fields m hm =>
      hback fields m (hm.2 error rfl)
    refine Assures.updateThen (J := c.Locked i Opened) (fun fields m hm => ?_) ?_
    · obtain ⟨⟨handle, token, rfl⟩, hsane, hmine⟩ := hm.1 rfl
      exact ⟨⟨by simpa using hclosed, rfl, rfl⟩, hsane, hmine⟩
    · exact Assures.handle hloadLocked (fun _ _ _ h => h.1.tidy) fun error =>
        Assures.consequence (hfailed error) (fun _ _ h => h.1) fun _ _ _ h => h
  exact hrest f m ⟨rfl, htidy.sane⟩

end Cluster

end NewtonDB
