/-
# A directory of files

The part of a file system that a program sees which keeps its files in one directory:
names, the files they lead to, and the calls on them.  A file has a number of its own,
which a handle holds; so what is written to an open file stays in that file, whatever
becomes of its name.

A call may fail for a reason that lies in the directory, such as a name that is taken,
or because the system reports a fault.  A fault changes nothing, except that a write
which fails may leave anything in its file.

`Within names d₀ d` says that only some names, and no file there was before, have
changed since `d₀`.
-/

import NewtonDB.Lib.OrderedMap
import Mathlib.Data.Finset.Card
import Mathlib.Order.Nat

namespace NewtonDB

/-- The codes of system errors. -/
inductive ErrorCode where
  | exists
  | isDirectory
  | invalid
  | loop
  | missing
  | unsupported
  | other (number : ℕ)
  deriving DecidableEq

/-- What the system may report at any call.  That a name is taken, missing or a link is
in the directory, and never a fault. -/
inductive FaultCode where
  | isDirectory
  | invalid
  | unsupported
  | other (number : ℕ)
  deriving DecidableEq

/-- The error a fault is seen as. -/
def FaultCode.code : FaultCode → ErrorCode
  | .isDirectory => .isDirectory
  | .invalid => .invalid
  | .unsupported => .unsupported
  | .other number => .other number

/-- A fault, with what a write that fails leaves in its file. -/
structure Fault where
  code : FaultCode
  left : List UInt8
  deriving DecidableEq

/-- What a name leads to. -/
inductive FileKind where
  | directory
  | link
  | regular
  deriving DecidableEq

/-- A file.  The bytes of a link are those of the file it points to. -/
structure FileNode where
  kind : FileKind
  bytes : List UInt8
  links : ℕ
  deriving DecidableEq

/-- What `stat` of a handle shows. -/
structure FileInfo where
  isFile : Bool
  links : ℕ
  size : ℕ
  deriving DecidableEq

/-- The directory itself. -/
inductive Parent where
  | absent
  | directory
  | other
  deriving DecidableEq

/-- A directory: its names, and all files that were ever in it.  `next` is the number of
the next file. -/
structure Directory (N : Type) where
  parent : Parent
  entries : OrderedMap N ℕ
  nodes : ℕ → FileNode
  next : ℕ

/-- The calls on a directory and their results. -/
inductive FileCall (N : Type) : Type → Type where
  | mkdir : FileCall N Unit
  | lstat : FileCall N Bool
  | create (name : N) : FileCall N ℕ
  | openFile (name : N) : FileCall N ℕ
  | stat (handle : ℕ) : FileCall N FileInfo
  | read (handle : ℕ) : FileCall N (List UInt8)
  | write (handle : ℕ) (bytes : List UInt8) : FileCall N Unit
  | sync (handle : ℕ) : FileCall N Unit
  | close (handle : ℕ) : FileCall N Unit
  | readFile (name : N) : FileCall N (List UInt8)
  | rename (source target : N) : FileCall N Unit
  | unlink (name : N) : FileCall N Unit
  | readdir : FileCall N (List N)
  | openDirectory : FileCall N Unit
  | syncDirectory : FileCall N Unit
  | closeDirectory : FileCall N Unit

namespace Directory

variable {N : Type} [DecidableEq N]

/-- The file under a name. -/
def file? (d : Directory N) (name : N) : Option FileNode := (d.entries.get? name).map d.nodes

/-- One name less for a file. -/
def unlinked (d : Directory N) (file : ℕ) : ℕ → FileNode :=
  Function.update d.nodes file { d.nodes file with links := (d.nodes file).links - 1 }

/-- `mkdir` of the directory and what is above it. -/
def mkdir (d : Directory N) : Except ErrorCode Unit × Directory N :=
  match d.parent with
  | .absent => (.ok (), { d with parent := .directory })
  | .directory => (.ok (), d)
  | .other => (.error .exists, d)

/-- `lstat` of the directory: whether it is one. -/
def lstat (d : Directory N) : Except ErrorCode Bool :=
  match d.parent with
  | .absent => .error .missing
  | .directory => .ok true
  | .other => .ok false

/-- The directory with a new empty file. -/
def created (d : Directory N) (name : N) : Directory N :=
  { d with
    entries := d.entries.set name d.next
    nodes := Function.update d.nodes d.next ⟨.regular, [], 1⟩
    next := d.next + 1 }

/-- `open` with `O_CREAT | O_EXCL | O_WRONLY`. -/
def create (d : Directory N) (name : N) : Except ErrorCode ℕ × Directory N :=
  if d.entries.has name then (.error .exists, d) else (.ok d.next, d.created name)

/-- `open` with `O_RDONLY | O_NOFOLLOW`. -/
def openFile (d : Directory N) (name : N) : Except ErrorCode ℕ :=
  match d.entries.get? name with
  | none => .error .missing
  | some file => if (d.nodes file).kind = .link then .error .loop else .ok file

/-- `stat` of a handle. -/
def stat (d : Directory N) (handle : ℕ) : FileInfo where
  isFile := (d.nodes handle).kind = .regular
  links := (d.nodes handle).links
  size := (d.nodes handle).bytes.length

/-- `readFile` of a handle. -/
def read (d : Directory N) (handle : ℕ) : Except ErrorCode (List UInt8) :=
  if (d.nodes handle).kind = .directory then .error .isDirectory else .ok (d.nodes handle).bytes

/-- `writeFile` to a handle. -/
def write (d : Directory N) (handle : ℕ) (bytes : List UInt8) : Directory N :=
  { d with nodes := Function.update d.nodes handle { d.nodes handle with bytes } }

/-- `readFile` of a name. -/
def readFile (d : Directory N) (name : N) : Except ErrorCode (List UInt8) :=
  match d.entries.get? name with
  | none => .error .missing
  | some file => d.read file

/-- `rename`: the target is replaced. -/
def rename (d : Directory N) (source target : N) : Except ErrorCode Unit × Directory N :=
  match d.entries.get? source with
  | none => (.error .missing, d)
  | some file =>
      match d.entries.get? target with
      | none => (.ok (), { d with entries := (d.entries.delete source).set target file })
      | some old =>
          if old = file then (.ok (), d)
          else if (d.nodes old).kind = .directory then (.error .isDirectory, d)
          else (.ok (), { d with
            entries := (d.entries.delete source).set target file, nodes := d.unlinked old })

/-- `unlink`. -/
def unlink (d : Directory N) (name : N) : Except ErrorCode Unit × Directory N :=
  match d.entries.get? name with
  | none => (.error .missing, d)
  | some file =>
      if (d.nodes file).kind = .directory then (.error .isDirectory, d)
      else (.ok (), { d with entries := d.entries.delete name, nodes := d.unlinked file })

end Directory

namespace FileCall

variable {N : Type} [DecidableEq N] {β : Type}

/-- What a call does when the system reports no fault. -/
def perform : FileCall N β → Directory N → Except ErrorCode β × Directory N
  | .mkdir, d => d.mkdir
  | .lstat, d => (d.lstat, d)
  | .create name, d => d.create name
  | .openFile name, d => (d.openFile name, d)
  | .stat handle, d => (.ok (d.stat handle), d)
  | .read handle, d => (d.read handle, d)
  | .write handle bytes, d => (.ok (), d.write handle bytes)
  | .sync _, d => (.ok (), d)
  | .close _, d => (.ok (), d)
  | .readFile name, d => (d.readFile name, d)
  | .rename source target, d => d.rename source target
  | .unlink name, d => d.unlink name
  | .readdir, d => (.ok d.entries.keys, d)
  | .openDirectory, d => (.ok (), d)
  | .syncDirectory, d => (.ok (), d)
  | .closeDirectory, d => (.ok (), d)

/-- What a call that fails does. -/
def fail (fault : Fault) : FileCall N β → Directory N → Directory N
  | .write handle _, d => d.write handle fault.left
  | _, d => d

/-- A call, with the fault the system reports. -/
def answer (fault : Option Fault) (c : FileCall N β) (d : Directory N) :
    Except ErrorCode β × Directory N :=
  match fault with
  | none => c.perform d
  | some fault => (.error fault.code.code, c.fail fault d)

/-- Whether the call only looks. -/
def isQuiet : FileCall N β → Bool
  | .mkdir | .create _ | .write .. | .rename .. | .unlink _ => false
  | _ => true

/-- **A call that only looks changes nothing.**  That is so whether it succeeds or fails. -/
theorem answer_snd_of_isQuiet {c : FileCall N β} (h : c.isQuiet) (fault : Option Fault)
    (d : Directory N) : (c.answer fault d).2 = d := by
  cases fault with
  | none => cases c <;> first | rfl | cases h
  | some fault => cases c <;> first | rfl | cases h

end FileCall

/-! ### What a call can change -/

/-- The call changes only some of the names, and writes to no file before a bound. -/
def FileCall.Confined {N β : Type} (names : N → Prop) (bound : ℕ) : FileCall N β → Prop
  | .create name => names name
  | .write handle _ => bound ≤ handle
  | .rename source target => names source ∧ names target
  | .unlink name => names name
  | _ => True

namespace Directory

variable {N : Type} [DecidableEq N] {β : Type} {d₀ d : Directory N} {names : N → Prop}

/-- **Only some names have changed** since `d₀`, and no file there was then, except that a
file may have fewer names when one of them is among these. -/
structure Within (names : N → Prop) (d₀ d : Directory N) : Prop where
  entries : ∀ name, ¬names name → d.entries.get? name = d₀.entries.get? name
  reach : ∀ name file, names name → d.entries.get? name = some file →
    d₀.next ≤ file ∨ ∃ name', names name' ∧ d₀.entries.get? name' = some file
  kind : ∀ file < d₀.next, (d.nodes file).kind = (d₀.nodes file).kind
  bytes : ∀ file < d₀.next, (d.nodes file).bytes = (d₀.nodes file).bytes
  nodes : ∀ file < d₀.next, (∀ name, names name → d₀.entries.get? name ≠ some file) →
    d.nodes file = d₀.nodes file
  next : d₀.next ≤ d.next

/-- Nothing was changed: the directory is within any names of itself. -/
theorem Within.refl (names : N → Prop) (d : Directory N) : Within names d d :=
  ⟨fun _ _ => rfl, fun name _ hn hf => .inr ⟨name, hn, hf⟩, fun _ _ => rfl, fun _ _ => rfl,
    fun _ _ _ => rfl, le_rfl⟩

/-- Nothing is said of the directory itself. -/
theorem Within.withParent (h : Within names d₀ d) (parent : Parent) :
    Within names d₀ { d with parent := parent } :=
  ⟨h.entries, h.reach, h.kind, h.bytes, h.nodes, h.next⟩

/-- A file that no changed name led to, is led to by none later. -/
theorem Within.not_reached (h : Within names d₀ d) {file : ℕ} (hf : file < d₀.next)
    (hnone : ∀ name, names name → d₀.entries.get? name ≠ some file) :
    ∀ name, names name → d.entries.get? name ≠ some file := by
  intro name hn hname
  rcases h.reach name file hn hname with hle | ⟨name', hn', hname'⟩
  · exact Nat.not_lt.2 hle hf
  · exact hnone name' hn' hname'

/-- Changes that come after changes, both among the same names, are among these names.  A name
among them may come to lead to a file that another of them led to in between. -/
theorem Within.trans {d₁ : Directory N} (h : Within names d₀ d₁) (h' : Within names d₁ d) :
    Within names d₀ d where
  entries name hn := (h'.entries name hn).trans (h.entries name hn)
  reach name file hn hname := by
    rcases h'.reach name file hn hname with hle | ⟨name', hn', hname'⟩
    · exact .inl (h.next.trans hle)
    · exact h.reach name' file hn' hname'
  kind file hf := (h'.kind file (hf.trans_le h.next)).trans (h.kind file hf)
  bytes file hf := (h'.bytes file (hf.trans_le h.next)).trans (h.bytes file hf)
  nodes file hf hnone :=
    (h'.nodes file (hf.trans_le h.next) (h.not_reached hf hnone)).trans (h.nodes file hf hnone)
  next := h.next.trans h'.next

/-- Changes among some names are changes among more of them.  A file that was reached under a
name outside is still reached under it. -/
theorem Within.mono {names' : N → Prop} (h : Within names d₀ d)
    (hn : ∀ name, names name → names' name) : Within names' d₀ d where
  entries name hname := h.entries name fun hm => hname (hn name hm)
  reach name file hname hfile := by
    by_cases hm : names name
    · rcases h.reach name file hm hfile with hle | ⟨name', hn', hname'⟩
      · exact .inl hle
      · exact .inr ⟨name', hn name' hn', hname'⟩
    · exact .inr ⟨name, hname, (h.entries name hm).symm.trans hfile⟩
  kind := h.kind
  bytes := h.bytes
  nodes file hf hnone := h.nodes file hf fun name hm => hnone name (hn name hm)
  next := h.next

omit [DecidableEq N] in
/-- To take a link from a file does not change what kind of file any of them is. -/
theorem kind_unlinked (d : Directory N) (file other : ℕ) :
    (d.unlinked file other).kind = (d.nodes other).kind := by
  rw [unlinked, Function.update_apply]
  split_ifs with h
  · rw [h]
  · rfl

omit [DecidableEq N] in
/-- To take a link from a file does not change the content of any file, of that one either. -/
theorem bytes_unlinked (d : Directory N) (file other : ℕ) :
    (d.unlinked file other).bytes = (d.nodes other).bytes := by
  rw [unlinked, Function.update_apply]
  split_ifs with h
  · rw [h]
  · rfl

omit [DecidableEq N] in
/-- Only the file that lost a link has one link less; the others keep theirs. -/
theorem links_unlinked (d : Directory N) (file other : ℕ) :
    (d.unlinked file other).links = (d.nodes other).links - if file = other then 1 else 0 := by
  rw [unlinked, Function.update_apply]
  by_cases h : other = file
  · rw [if_pos h, if_pos h.symm, h]
  · rw [if_neg h, if_neg (Ne.symm h), Nat.sub_zero]

/-- `unlink` of a name that is there, and is no directory, removes the entry and takes a link
from the file. -/
theorem unlink_of_entry {name : N} {file : ℕ} (h : d.entries.get? name = some file)
    (hk : (d.nodes file).kind ≠ .directory) : d.unlink name =
      (.ok (), { d with entries := d.entries.delete name, nodes := d.unlinked file }) := by
  rw [unlink, h]
  exact if_neg hk

/-- **A name that is removed takes one link from its file.**  No other file loses one, and the
names that are left are as they were. -/
theorem links_unlink {name : N} {file : ℕ} (h : d.entries.get? name = some file)
    (hk : (d.nodes file).kind ≠ .directory) (other : ℕ) :
    ((d.unlink name).2.nodes other).links =
      (d.nodes other).links - if d.entries.get? name = some other then 1 else 0 := by
  rw [unlink_of_entry h hk]
  exact (links_unlinked d file other).trans (by simp [h])

/-- One change of the names, of the entries only.  At most one link is taken off besides, from a
file that one of the names led to. -/
theorem Within.of_entries {d' : Directory N} (h : Within names d₀ d)
    (he : ∀ name, ¬names name → d'.entries.get? name = d.entries.get? name)
    (hreach : ∀ name file, names name → d'.entries.get? name = some file →
      ∃ name', names name' ∧ d.entries.get? name' = some file)
    (hn : d'.nodes = d.nodes ∨ ∃ name old, names name ∧ d.entries.get? name = some old ∧
      d'.nodes = d.unlinked old) (hnext : d'.next = d.next) :
    Within names d₀ d' where
  entries name hname := (he name hname).trans (h.entries name hname)
  reach name file hname hfile := by
    obtain ⟨name', hn', hname'⟩ := hreach name file hname hfile
    exact h.reach name' file hn' hname'
  kind file hf := by
    rcases hn with hn | ⟨-, old, -, -, hn⟩
    · rw [hn, h.kind file hf]
    · rw [hn, kind_unlinked, h.kind file hf]
  bytes file hf := by
    rcases hn with hn | ⟨-, old, -, -, hn⟩
    · rw [hn, h.bytes file hf]
    · rw [hn, bytes_unlinked, h.bytes file hf]
  nodes file hf hnone := by
    rcases hn with hn | ⟨name, old, hname, hold, hn⟩
    · rw [hn, h.nodes file hf hnone]
    · have hne : file ≠ old := fun he => h.not_reached hf hnone name hname (he ▸ hold)
      rw [hn, unlinked, Function.update_of_ne hne, h.nodes file hf hnone]
  next := hnext ▸ h.next

/-- An exclusive create of a free name makes a new file, which gets the next number. -/
theorem create_of_fresh {name : N} (h : d.entries.get? name = none) :
    d.create name = (.ok d.next, d.created name) := by
  rw [create, if_neg (by simp [OrderedMap.has, h])]

/-- An exclusive create of a name that is there fails with `EEXIST` and changes nothing. -/
theorem create_of_entry {name : N} {file : ℕ} (h : d.entries.get? name = some file) :
    d.create name = (.error .exists, d) := by
  rw [create, if_pos (by simp [OrderedMap.has, h])]

/-- After a create the name is that of the new file, and every other name is as it was. -/
theorem get?_created (d : Directory N) (name other : N) :
    (d.created name).entries.get? other = if name = other then some d.next else d.entries.get? other :=
  OrderedMap.get?_set ..

/-- A create changes no file but the new one. -/
theorem node_created (d : Directory N) (name : N) {file : ℕ} (h : file ≠ d.next) :
    (d.created name).nodes file = d.nodes file := Function.update_of_ne h ..

/-- The new file is regular, empty and has one link. -/
theorem node_created_self (d : Directory N) (name : N) :
    (d.created name).nodes d.next = ⟨.regular, [], 1⟩ := Function.update_self ..

omit [DecidableEq N] in
/-- A write changes no file but the one it goes to. -/
theorem node_write (d : Directory N) (bytes : List UInt8) {handle file : ℕ} (h : file ≠ handle) :
    (d.write handle bytes).nodes file = d.nodes file := Function.update_of_ne h ..

omit [DecidableEq N] in
/-- The file that is written has the bytes, and keeps its kind and its links. -/
theorem node_write_self (d : Directory N) (handle : ℕ) (bytes : List UInt8) :
    (d.write handle bytes).nodes handle = { d.nodes handle with bytes } := Function.update_self ..

/-- To make a file under one of the names stays within them.  The file is a new one, so none
that was there is written. -/
theorem Within.created (h : Within names d₀ d) {name : N} (hn : names name) :
    Within names d₀ (d.created name) := by
  have hnode : ∀ file < d₀.next, (d.created name).nodes file = d.nodes file :=
    fun file hf => node_created d name (hf.trans_le h.next).ne
  refine ⟨fun other ho => ?_, fun other file ho hother => ?_, fun file hf => ?_, fun file hf => ?_,
    fun file hf hnone => ?_, h.next.trans (Nat.le_succ _)⟩
  · rw [get?_created, if_neg fun he : name = other => ho (he ▸ hn), h.entries other ho]
  · rw [get?_created] at hother
    split_ifs at hother with he
    · exact .inl (Option.some.inj hother ▸ h.next)
    · exact h.reach other file ho hother
  · rw [hnode file hf, h.kind file hf]
  · rw [hnode file hf, h.bytes file hf]
  · rw [hnode file hf, h.nodes file hf hnone]

/-- **A create under one of the names stays within them**, whether it succeeds or not.  A new
file is made under that name only. -/
theorem Within.create (h : Within names d₀ d) {name : N} (hn : names name) :
    Within names d₀ (d.create name).2 := by
  unfold Directory.create
  split_ifs
  · exact h
  · exact h.created hn

/-- A write stays within any names when it goes to a file that was not there at the start.  The
contents of the files of the start are as they were. -/
theorem Within.write (h : Within names d₀ d) {handle : ℕ} (hh : d₀.next ≤ handle)
    (bytes : List UInt8) : Within names d₀ (d.write handle bytes) := by
  have hne : ∀ file < d₀.next, (d.write handle bytes).nodes file = d.nodes file :=
    fun file hf => node_write d bytes (hf.trans_le hh).ne
  refine ⟨h.entries, h.reach, fun file hf => ?_, fun file hf => ?_, fun file hf hnone => ?_, h.next⟩
  · rw [hne file hf, h.kind file hf]
  · rw [hne file hf, h.bytes file hf]
  · rw [hne file hf, h.nodes file hf hnone]

/-- The entries after a rename. -/
theorem get?_renamed (entries : OrderedMap N ℕ) (source target name : N) (file : ℕ) :
    ((entries.delete source).set target file).get? name =
      if target = name then some file else if source = name then none else entries.get? name := by
  rw [OrderedMap.get?_set, OrderedMap.get?_delete]

/-- **A rename stays within the names** when both of its own are among them.  The file that is
replaced loses a name, and no content changes. -/
theorem Within.rename (h : Within names d₀ d) {source target : N} (hs : names source)
    (ht : names target) : Within names d₀ (d.rename source target).2 := by
  have he : ∀ file name, ¬names name →
      ((d.entries.delete source).set target file).get? name = d.entries.get? name := by
    intro file name hn
    rw [get?_renamed, if_neg fun e : target = name => hn (e ▸ ht),
      if_neg fun e : source = name => hn (e ▸ hs)]
  have hreach : ∀ file, d.entries.get? source = some file → ∀ name other, names name →
      ((d.entries.delete source).set target file).get? name = some other →
      ∃ name', names name' ∧ d.entries.get? name' = some other := by
    intro file hsource name other hn hother
    rw [get?_renamed] at hother
    split_ifs at hother
    · exact ⟨source, hs, hsource.trans hother⟩
    · exact ⟨name, hn, hother⟩
  unfold Directory.rename
  split
  · exact h
  · next file hsource =>
    split
    · exact h.of_entries (he file) (hreach file hsource) (.inl rfl) rfl
    · next old htarget =>
      split_ifs
      · exact h
      · exact h
      · exact h.of_entries (he file) (hreach file hsource) (.inr ⟨target, old, ht, htarget, rfl⟩) rfl

/-- **An unlink of one of the names stays within them**, whether it succeeds or not.  The file
loses a name, and no content changes. -/
theorem Within.unlink (h : Within names d₀ d) {name : N} (hn : names name) :
    Within names d₀ (d.unlink name).2 := by
  unfold Directory.unlink
  split
  · exact h
  · next file hname =>
    split_ifs
    · exact h
    · refine h.of_entries (fun other ho => ?_) (fun other file ho hother => ?_)
        (.inr ⟨name, file, hn, hname, rfl⟩) rfl
      · rw [OrderedMap.get?_delete, if_neg fun e : name = other => ho (e ▸ hn)]
      · rw [OrderedMap.get?_delete] at hother
        split_ifs at hother
        exact ⟨other, ho, hother⟩

/-- **A confined call stays within the names**, whatever the system reports.  A fault may leave
a call undone or half done; either way no other name changes. -/
theorem Within.answer (h : Within names d₀ d) {c : FileCall N β}
    (hc : c.Confined names d₀.next) (fault : Option Fault) :
    Within names d₀ (c.answer fault d).2 := by
  by_cases hquiet : c.isQuiet
  · rw [c.answer_snd_of_isQuiet hquiet]
    exact h
  · cases fault with
    | none =>
        cases c with
        | mkdir =>
            show Within names d₀ d.mkdir.2
            unfold Directory.mkdir
            split
            · exact h.withParent _
            · exact h
            · exact h
        | create name => exact h.create hc
        | write handle bytes => exact h.write hc bytes
        | rename source target => exact h.rename hc.1 hc.2
        | unlink name => exact h.unlink hc
        | _ => exact absurd rfl hquiet
    | some fault =>
        cases c with
        | write handle bytes => exact h.write hc fault.left
        | _ => exact h

/-- The bytes under a name that has not changed. -/
theorem Within.bytes_file? (h : Within names d₀ d) {name : N} (hn : ¬names name)
    (hbound : ∀ file, d₀.entries.get? name = some file → file < d₀.next) :
    (d.file? name).map FileNode.bytes = (d₀.file? name).map FileNode.bytes := by
  rw [file?, file?, h.entries name hn]
  cases he : d₀.entries.get? name with
  | none => rfl
  | some file => exact congrArg some (h.bytes file (hbound file he))

/-- A rename that fails changes nothing.  Every check of it comes before the first change. -/
theorem rename_of_error {source target : N} {code : ErrorCode}
    (h : (d.rename source target).1 = .error code) : (d.rename source target).2 = d := by
  unfold Directory.rename at h ⊢
  split at h
  · rfl
  · split at h
    · cases h
    · split_ifs at h ⊢
      rfl

/-- **The target has what the source had.**  A rename moves the file, not its content. -/
theorem bytes_rename {source target : N} {file : ℕ} (hs : d.entries.get? source = some file)
    (h : (d.rename source target).1 = .ok ()) :
    ((d.rename source target).2.file? target).map FileNode.bytes =
      some (d.nodes file).bytes := by
  unfold Directory.rename at h ⊢
  rw [hs] at h ⊢
  dsimp only at h ⊢
  cases ht : d.entries.get? target with
  | none => simp [file?, OrderedMap.get?_set_self]
  | some old =>
      rw [ht] at h
      dsimp only at h ⊢
      split_ifs at h ⊢ with hold hkind
      · simp [file?, ht, hold]
      · simp [file?, OrderedMap.get?_set_self, bytes_unlinked]

/-- **A directory that is there stays there.**  No call of an adapter removes it. -/
theorem parent_answer (h : d.parent = .directory) (c : FileCall N β) (fault : Option Fault) :
    (c.answer fault d).2.parent = .directory := by
  by_cases hquiet : c.isQuiet
  · rw [c.answer_snd_of_isQuiet hquiet]
    exact h
  · cases fault with
    | none =>
        cases c with
        | mkdir =>
            show d.mkdir.2.parent = _
            rw [mkdir, h]
            exact h
        | create name =>
            show (d.create name).2.parent = _
            unfold Directory.create
            split_ifs <;> exact h
        | write handle bytes => exact h
        | rename source target =>
            show (d.rename source target).2.parent = _
            unfold Directory.rename
            split
            · exact h
            · split
              · exact h
              · split_ifs <;> exact h
        | unlink name =>
            show (d.unlink name).2.parent = _
            unfold Directory.unlink
            split
            · exact h
            · split_ifs <;> exact h
        | _ => exact absurd rfl hquiet
    | some fault =>
        cases c with
        | write handle bytes => exact h
        | _ => exact h

/-! ### Names and link counts -/

/-- The names of a file. -/
def namesOf (d : Directory N) (file : ℕ) : Finset N :=
  d.entries.keys.toFinset.filter fun name => d.entries.get? name = some file

/-- The names of a file are those that lead to it. -/
theorem mem_namesOf {name : N} {file : ℕ} :
    name ∈ d.namesOf file ↔ d.entries.get? name = some file := by
  rw [namesOf, Finset.mem_filter, List.mem_toFinset, OrderedMap.mem_keys_iff]
  exact ⟨fun h => h.2, fun h => ⟨h ▸ rfl, h⟩⟩

/-- The names lead to files there are, and no file has more names than its link count. -/
structure WF (d : Directory N) : Prop where
  bound : ∀ name file, d.entries.get? name = some file → file < d.next
  links : ∀ file, (d.namesOf file).card ≤ (d.nodes file).links

/-- A directory without names. -/
def empty : Directory N where
  parent := .directory
  entries := .empty
  nodes _ := ⟨.regular, [], 0⟩
  next := 0

/-- An empty directory is well formed: it has no entry that could dangle. -/
theorem WF.empty : (empty : Directory N).WF :=
  ⟨fun _ _ h => (by cases h), fun _ => Nat.le_of_eq rfl⟩

/-- **A file with one link has one name.**  In a directory that is well formed the count is that
of the names. -/
theorem WF.eq_of_links (h : d.WF) {name name' : N} {file : ℕ} (hl : (d.nodes file).links = 1)
    (hn : d.entries.get? name = some file) (hn' : d.entries.get? name' = some file) :
    name = name' :=
  Finset.card_le_one.1 ((h.links file).trans hl.le) name (mem_namesOf.2 hn) name' (mem_namesOf.2 hn')

/-- The names of a file after one was created. -/
theorem mem_namesOf_created {name other : N} {file : ℕ} :
    other ∈ (d.created name).namesOf file ↔
      if name = other then d.next = file else other ∈ d.namesOf file := by
  rw [mem_namesOf, get?_created]
  split_ifs
  · exact Option.some_inj
  · exact mem_namesOf.symm

/-- **A create keeps the directory well formed**, whatever becomes of it.  The new file has one
name and one link. -/
theorem WF.create (h : d.WF) (name : N) : (d.create name).2.WF := by
  unfold Directory.create
  split_ifs with hhas
  · exact h
  · refine ⟨fun other file hother => ?_, fun file => ?_⟩
    · rw [get?_created] at hother
      split_ifs at hother
      · exact Option.some.inj hother ▸ Nat.lt_succ_self _
      · exact (h.bound other file hother).trans (Nat.lt_succ_self _)
    · by_cases hfile : file = d.next
      · rw [hfile, node_created_self]
        refine (Finset.card_le_card (t := {name}) fun other ho => ?_).trans
          (Finset.card_singleton name).le
        rw [mem_namesOf_created] at ho
        split_ifs at ho with he
        · exact Finset.mem_singleton.2 he.symm
        · exact absurd (h.bound other _ (mem_namesOf.1 ho)) (lt_irrefl _)
      · rw [node_created d name hfile]
        refine (Finset.card_le_card fun other ho => ?_).trans (h.links file)
        rw [mem_namesOf_created] at ho
        split_ifs at ho
        · exact absurd ho.symm hfile
        · exact ho

/-- **A write keeps the directory well formed**: entries and link counts stay.  A file that is
written may have no name any more, and keeps its count all the same. -/
theorem WF.write (h : d.WF) (handle : ℕ) (bytes : List UInt8) : (d.write handle bytes).WF := by
  refine ⟨h.bound, fun file => (h.links file).trans_eq ?_⟩
  show _ = (Function.update d.nodes handle _ file).links
  rw [Function.update_apply]
  split_ifs with he
  · rw [he]
  · rfl

/-- The link counts when one name of a file is gone.  The name that is gone was one of them when
the file is the one that lost a link. -/
theorem card_namesOf_unlinked (h : d.WF) {name : N} {old file : ℕ}
    (hname : d.entries.get? name = some old) {left : Finset N}
    (hleft : ∀ other ∈ left, other ∈ d.namesOf file ∧ (file = old → other ≠ name)) :
    left.card ≤ (d.unlinked old file).links := by
  rw [unlinked, Function.update_apply]
  split_ifs with he
  · subst he
    have hsub : left ⊆ (d.namesOf file).erase name := fun other ho =>
      Finset.mem_erase.2 ⟨(hleft other ho).2 rfl, (hleft other ho).1⟩
    refine (Finset.card_le_card hsub).trans ?_
    rw [Finset.card_erase_of_mem (mem_namesOf.2 hname)]
    exact Nat.sub_le_sub_right (h.links file) 1
  · exact (Finset.card_le_card fun other ho => (hleft other ho).1).trans (h.links file)

/-- **An unlink keeps the directory well formed**: the count of the file goes down with the
entry. -/
theorem WF.unlink (h : d.WF) (name : N) : (d.unlink name).2.WF := by
  unfold Directory.unlink
  split
  · exact h
  · next old hname =>
    split_ifs
    · exact h
    · have hget : ∀ other file, (d.entries.delete name).get? other = some file →
          d.entries.get? other = some file ∧ other ≠ name := fun other file ho => by
        rw [OrderedMap.get?_delete] at ho
        split_ifs at ho with he
        exact ⟨ho, Ne.symm he⟩
      refine ⟨fun other file ho => h.bound other file (hget other file ho).1, fun file => ?_⟩
      refine card_namesOf_unlinked h hname fun other ho => ?_
      have ho := hget other file (mem_namesOf.1 ho)
      exact ⟨mem_namesOf.2 ho.1, fun _ => ho.2⟩

/-- The names of a file after a rename: its source became its target.  It has one name more and
one fewer, or the same ones. -/
theorem card_namesOf_renamed {source target : N} {file other : ℕ} {d' : Directory N}
    (he : d'.entries = (d.entries.delete source).set target file)
    (hsource : d.entries.get? source = some file) (hfile : other = file) :
    (d'.namesOf other).card ≤ (d.namesOf other).card := by
  subst hfile
  have hsub : d'.namesOf other ⊆ insert target ((d.namesOf other).erase source) := fun name hn => by
    rw [mem_namesOf, he, get?_renamed] at hn
    rw [Finset.mem_insert, Finset.mem_erase]
    split_ifs at hn with ht hs
    · exact .inl ht.symm
    · exact .inr ⟨Ne.symm hs, mem_namesOf.2 hn⟩
  refine (Finset.card_le_card hsub).trans ((Finset.card_insert_le ..).trans ?_)
  rw [Finset.card_erase_of_mem (mem_namesOf.2 hsource)]
  have hpos : 0 < (d.namesOf other).card := Finset.card_pos.2 ⟨source, mem_namesOf.2 hsource⟩
  omega

/-- **A rename keeps the directory well formed**: a file that it replaces loses a link, and the
one it moves keeps its count. -/
theorem WF.rename (h : d.WF) (source target : N) : (d.rename source target).2.WF := by
  unfold Directory.rename
  split
  · exact h
  · next file hsource =>
    have hbound : ∀ name other,
        ((d.entries.delete source).set target file).get? name = some other → other < d.next := by
      intro name other hn
      rw [get?_renamed] at hn
      split_ifs at hn
      · exact Option.some.inj hn ▸ h.bound source file hsource
      · exact h.bound name other hn
    have hsame : ∀ name other, other ≠ file →
        ((d.entries.delete source).set target file).get? name = some other →
        d.entries.get? name = some other ∧ name ≠ target := by
      intro name other hne hn
      rw [get?_renamed] at hn
      split_ifs at hn with ht hs
      · exact absurd (Option.some.inj hn).symm hne
      · exact ⟨hn, Ne.symm ht⟩
    split
    · refine ⟨hbound, fun other => ?_⟩
      by_cases he : other = file
      · exact (card_namesOf_renamed rfl hsource he).trans (h.links other)
      · refine le_trans (Finset.card_le_card fun name hn => ?_) (h.links other)
        exact mem_namesOf.2 (hsame name other he (mem_namesOf.1 hn)).1
    · next old htarget =>
      split_ifs with hold hkind
      · exact h
      · exact h
      · refine ⟨hbound, fun other => ?_⟩
        by_cases he : other = file
        · refine (card_namesOf_renamed rfl hsource he).trans ?_
          refine (h.links other).trans_eq (congrArg FileNode.links ?_)
          exact (Function.update_of_ne (fun e => hold (e.symm.trans he)) ..).symm
        · refine card_namesOf_unlinked h htarget fun name hn => ?_
          obtain ⟨hn, hne⟩ := hsame name other he (mem_namesOf.1 hn)
          exact ⟨mem_namesOf.2 hn, fun _ => hne⟩

/-- **Every call keeps the directory well formed**, whatever the system reports.  One case for
each call of the file system. -/
theorem WF.answer (h : d.WF) (c : FileCall N β) (fault : Option Fault) : (c.answer fault d).2.WF := by
  by_cases hquiet : c.isQuiet
  · rw [c.answer_snd_of_isQuiet hquiet]
    exact h
  · cases fault with
    | none =>
        cases c with
        | mkdir =>
            show d.mkdir.2.WF
            unfold Directory.mkdir
            split
            · exact ⟨h.bound, h.links⟩
            · exact h
            · exact h
        | create name => exact h.create name
        | write handle bytes => exact h.write handle bytes
        | rename source target => exact h.rename source target
        | unlink name => exact h.unlink name
        | _ => exact absurd rfl hquiet
    | some fault =>
        cases c with
        | write handle bytes => exact h.write handle fault.left
        | _ => exact h

/-! ### New files -/

/-- The files that were created since are regular. -/
structure NewRegular (d₀ d : Directory N) : Prop where
  next : d₀.next ≤ d.next
  kind : ∀ file, d₀.next ≤ file → file < d.next → (d.nodes file).kind = .regular

omit [DecidableEq N] in
/-- A directory has no new file against itself. -/
theorem NewRegular.refl (d : Directory N) : NewRegular d d :=
  ⟨le_rfl, fun _ h h' => absurd (h.trans_lt h') (lt_irrefl _)⟩

omit [DecidableEq N] in
/-- Other changes than to the kinds of files do not matter. -/
theorem NewRegular.of_kind {d' : Directory N} (h : NewRegular d₀ d) (hnext : d'.next = d.next)
    (hkind : ∀ file, (d'.nodes file).kind = (d.nodes file).kind) : NewRegular d₀ d' :=
  ⟨hnext ▸ h.next, fun file hf hf' => (hkind file).trans (h.kind file hf (hnext ▸ hf'))⟩

omit [DecidableEq N] in
/-- A write does not change what kind of file any of them is. -/
theorem kind_write (d : Directory N) (handle : ℕ) (bytes : List UInt8) (file : ℕ) :
    ((d.write handle bytes).nodes file).kind = (d.nodes file).kind := by
  show (Function.update d.nodes handle _ file).kind = _
  rw [Function.update_apply]
  split_ifs with h
  · rw [h]
  · rfl

/-- **Whatever a call answers, new files are regular**: only an exclusive create makes
files.  A name may be given to another file by a rename, but that file was made by a create
or was there. -/
theorem NewRegular.answer (h : NewRegular d₀ d) (c : FileCall N β) (fault : Option Fault) :
    NewRegular d₀ (c.answer fault d).2 := by
  by_cases hquiet : c.isQuiet
  · rw [c.answer_snd_of_isQuiet hquiet]
    exact h
  · cases fault with
    | none =>
        cases c with
        | mkdir =>
            show NewRegular d₀ d.mkdir.2
            unfold Directory.mkdir
            split
            · exact ⟨h.next, h.kind⟩
            · exact h
            · exact h
        | create name =>
            show NewRegular d₀ (d.create name).2
            unfold Directory.create
            split_ifs
            · exact h
            · refine ⟨h.next.trans (Nat.le_succ _), fun file hf hf' => ?_⟩
              show ((d.created name).nodes file).kind = _
              rcases Nat.lt_succ_iff_lt_or_eq.1 hf' with hlt | rfl
              · rw [node_created d name hlt.ne]
                exact h.kind file hf hlt
              · rw [node_created_self]
        | write handle bytes => exact h.of_kind rfl (kind_write d handle bytes)
        | rename source target =>
            show NewRegular d₀ (d.rename source target).2
            unfold Directory.rename
            split
            · exact h
            · split
              · exact h.of_kind rfl fun _ => rfl
              · split_ifs
                · exact h
                · exact h
                · exact h.of_kind rfl (kind_unlinked d _)
        | unlink name =>
            show NewRegular d₀ (d.unlink name).2
            unfold Directory.unlink
            split
            · exact h
            · split_ifs
              · exact h
              · exact h.of_kind rfl (kind_unlinked d _)
        | _ => exact absurd rfl hquiet
    | some fault =>
        cases c with
        | write handle bytes => exact h.of_kind rfl (kind_write d handle fault.left)
        | _ => exact h

/-! ### A file put in place -/

/-- A new file has the place of a name, and the name it was written under is free. -/
structure Installed (d : Directory N) (temporary name : N) (bytes : List UInt8)
    (d' : Directory N) : Prop where
  entry : d'.entries.get? name = some d.next
  node : d'.nodes d.next = ⟨.regular, bytes, 1⟩
  free : d'.entries.get? temporary = none
  within : Within (fun other => other = name ∨ other = temporary) d d'

/-- **A file is put in place**: created under a free name, written, and renamed.  The name leads
to the new file then, the temporary name to nothing, and every other name to what it did. -/
theorem installed_rename {temporary name : N} (hne : temporary ≠ name)
    (hold : d.entries.get? name ≠ some d.next)
    (hkind : ∀ old, d.entries.get? name = some old → (d.nodes old).kind ≠ .directory)
    (bytes : List UInt8) :
    ∃ d', ((d.created temporary).write d.next bytes).rename temporary name = (.ok (), d') ∧
      d.Installed temporary name bytes d' := by
  set d₁ := (d.created temporary).write d.next bytes with hd₁
  have hwithin : Within (fun other => other = name ∨ other = temporary) d d₁ :=
    ((Within.refl _ d).created (.inr rfl)).write le_rfl bytes
  have hsource : d₁.entries.get? temporary = some d.next := OrderedMap.get?_set_self ..
  have htarget : d₁.entries.get? name = d.entries.get? name :=
    (get?_created d temporary name).trans (if_neg hne)
  have hnode : d₁.nodes d.next = ⟨.regular, bytes, 1⟩ := by
    rw [hd₁, node_write_self, node_created_self]
  have hrename : d.Within (fun other => other = name ∨ other = temporary)
      (d₁.rename temporary name).2 := hwithin.rename (.inr rfl) (.inl rfl)
  have hentry : (((d₁.entries.delete temporary).set name d.next).get? name = some d.next) ∧
      ((d₁.entries.delete temporary).set name d.next).get? temporary = none := by
    rw [get?_renamed, get?_renamed, if_pos rfl, if_neg (Ne.symm hne), if_pos rfl]
    exact ⟨rfl, rfl⟩
  cases htarget' : d₁.entries.get? name with
  | none =>
      have hrun : d₁.rename temporary name = (.ok (), { d₁ with
          entries := (d₁.entries.delete temporary).set name d.next }) := by
        rw [rename, hsource, htarget']
      rw [hrun] at hrename
      exact ⟨_, hrun, hentry.1, hnode, hentry.2, hrename⟩
  | some old =>
      have hold' := htarget.symm.trans htarget'
      have hne' : old ≠ d.next := fun he => hold (he ▸ hold')
      have hkind' : (d₁.nodes old).kind ≠ .directory := by
        rw [hd₁, node_write _ _ hne', node_created d temporary hne']
        exact hkind old hold'
      have hrun : d₁.rename temporary name = (.ok (), { d₁ with
          entries := (d₁.entries.delete temporary).set name d.next, nodes := d₁.unlinked old }) := by
        rw [rename, hsource, htarget']
        dsimp only
        rw [if_neg hne', if_neg hkind']
      rw [hrun] at hrename
      refine ⟨_, hrun, hentry.1, ?_, hentry.2, hrename⟩
      exact (Function.update_of_ne (Ne.symm hne') ..).trans hnode

/-- A directory has its name for itself.  A file is not renamed over a directory, and then both
names stay as they were. -/
theorem rename_of_directory {temporary name : N} {old : ℕ} (hne : temporary ≠ name)
    (hold : d.entries.get? name ≠ some d.next) (hentry : d.entries.get? name = some old)
    (hkind : (d.nodes old).kind = .directory) (bytes : List UInt8) :
    ((d.created temporary).write d.next bytes).rename temporary name =
      (.error .isDirectory, (d.created temporary).write d.next bytes) := by
  have hsource : ((d.created temporary).write d.next bytes).entries.get? temporary =
      some d.next := OrderedMap.get?_set_self ..
  have htarget : ((d.created temporary).write d.next bytes).entries.get? name = some old :=
    ((get?_created d temporary name).trans (if_neg hne)).trans hentry
  have hne' : old ≠ d.next := fun he => hold (he ▸ hentry)
  rw [rename, hsource, htarget]
  dsimp only
  rw [if_neg hne', node_write _ _ hne', node_created d temporary hne', if_pos hkind]

end Directory

end NewtonDB
