/-
# Databases over one storage

`MemoryStorage` of `src/testing/index.ts` with any number of databases opened on it,
each through a `MemoryStorageAdapter` of its own.  A step opens another database as
far as its wait for `load`, lets such an `open` go on, or is a step of one of the
programs; the adapter is called in the steps of its program that call it.

`stores` is not a field of the code: it lists the stores that succeeded, newest first,
each with the database that made it.
-/

import NewtonDB.Database.Open
import NewtonDB.Lib.Register

namespace NewtonDB

/-- The fields of a `MemoryStorageAdapter`. -/
structure MemoryStorageAdapter where
  closed : Bool
  loaded : Bool

namespace MemoryStorageAdapter

/-- A new adapter. -/
def new : MemoryStorageAdapter := ⟨false, false⟩

/-- `load`, over what the storage holds: what it resolves to, if it does. -/
def load (adapter : MemoryStorageAdapter) (storage : Option SnapshotEnvelope) :
    MemoryStorageAdapter × Option (Option SnapshotEnvelope) :=
  if adapter.closed || adapter.loaded then (adapter, none)
  else ({ adapter with loaded := true },
    if storage.all isSnapshotEnvelope then some storage else none)

/-- `store`, over what the storage holds: what it resolves to, if it does.  The storage
then holds the snapshot. -/
def store (adapter : MemoryStorageAdapter) (storage : Option SnapshotEnvelope)
    (snapshot : SnapshotEnvelope) (expectedGeneration : ℕ) : Option StoreAcknowledgement :=
  if adapter.closed || !adapter.loaded then none
  else if storage.elim 0 (·.generation) ≠ expectedGeneration ∨
      snapshot.generation ≠ expectedGeneration + 1 ∨
      storage.any (·.databaseId ≠ snapshot.databaseId) then none
  else if isSnapshotEnvelope snapshot then
    some ⟨snapshot.databaseId, snapshot.generation, snapshot.revision⟩
  else none

/-- `close`. -/
def close (adapter : MemoryStorageAdapter) : MemoryStorageAdapter := { adapter with closed := true }

/-- **What a store that succeeds did**: it replaced a snapshot of the generation its
database expected and of the same identity, by one of the next generation. -/
theorem store_eq_some {adapter : MemoryStorageAdapter} {storage : Option SnapshotEnvelope}
    {snapshot : SnapshotEnvelope} {expectedGeneration : ℕ} {a : StoreAcknowledgement}
    (h : adapter.store storage snapshot expectedGeneration = some a) :
    storage.elim 0 (·.generation) = expectedGeneration ∧
      snapshot.generation = expectedGeneration + 1 ∧
      (∀ old ∈ storage, snapshot.databaseId = old.databaseId) ∧
      isSnapshotEnvelope snapshot ∧
      a = ⟨snapshot.databaseId, snapshot.generation, snapshot.revision⟩ := by
  unfold store at h
  by_cases hclosed : adapter.closed || !adapter.loaded
  · rw [if_pos hclosed] at h
    cases h
  rw [if_neg hclosed] at h
  by_cases hconflict : storage.elim 0 (·.generation) ≠ expectedGeneration ∨
      snapshot.generation ≠ expectedGeneration + 1 ∨
      storage.any (·.databaseId ≠ snapshot.databaseId)
  · rw [if_pos hconflict] at h
    cases h
  rw [if_neg hconflict] at h
  obtain ⟨hexpected, hrest⟩ := not_or.1 hconflict
  obtain ⟨hgeneration, hid⟩ := not_or.1 hrest
  obtain ⟨hvalid, ha⟩ := Option.ite_none_right_eq_some.1 h
  refine ⟨not_not.1 hexpected, not_not.1 hgeneration, fun old hold => ?_, hvalid,
    (Option.some.inj ha).symm⟩
  obtain rfl := Option.mem_def.1 hold
  by_contra hne
  exact hid (decide_eq_true (Ne.symm hne))

end MemoryStorageAdapter

/-- A database of its own, or the `open` that is to make it: what `open` was called
with and what its adapter loaded, how the adapter answered a store that has not been
told yet, and the program around the database once it is open. -/
structure Instance where
  opening : OpenOptions
  adapter : MemoryStorageAdapter
  loaded : Option SnapshotEnvelope
  answer : Option StoreOutcome
  database : Option (DatabaseOptions × Runtime)

/-- A storage and the databases over it. -/
structure SharedStorage where
  snapshot : Option SnapshotEnvelope
  instances : List Instance
  stores : List (ℕ × SnapshotEnvelope)

/-- `Database.open` with a new adapter up to its wait, an `open` that goes on, or a step
of the program around one database. -/
inductive SharedLabel where
  | load (opening : OpenOptions)
  | construct (i : ℕ) (randomId : JsString)
  | run (i : ℕ) (label : Label)

/-- What a step hands to the adapter. -/
def Runtime.offers (options : DatabaseOptions) (r : Runtime) : Label → Option SnapshotEnvelope
  | .startStore index => r.database.tasks[index]?.map (r.database.snapshot options)
  | _ => none

namespace Instance

/-- `open` after the wait for its adapter; when it fails, it closes the adapter. -/
def construct (collate : JsString → JsString → Bool) (randomId : JsString) (inst : Instance) :
    Instance :=
  match inst.opening.opened collate randomId inst.loaded with
  | .error _ => { inst with adapter := inst.adapter.close }
  | .ok database => { inst with database := some database }

/-- The instance after a step that stores nothing: a store ends as the adapter answered
it, and the adapter closes without an error. -/
def after (inst : Instance) (database : DatabaseOptions × Runtime) : Label → Option Instance
  | .settleStore _ outcome =>
      if inst.answer = some outcome then
        some { inst with answer := none, database := some database }
      else none
  | .closeAdapter =>
      some { inst with adapter := inst.adapter.close, database := some database }
  | .finishClose failure =>
      if failure.isNone then some { inst with database := some database } else none
  | _ => some { inst with database := some database }

end Instance

namespace SharedStorage

/-- A storage nobody opened yet. -/
def start (initial : Option SnapshotEnvelope) : SharedStorage := ⟨initial, [], []⟩

/-- One of the instances changed. -/
def set (s : SharedStorage) (i : ℕ) (inst : Instance) : SharedStorage :=
  { s with instances := s.instances.set i inst }

/-- A step of the program around one database. -/
def after (s : SharedStorage) (i : ℕ) (inst : Instance) (options : DatabaseOptions)
    (r r' : Runtime) (label : Label) : Option SharedStorage :=
  match r.offers options label with
  | none => (inst.after (options, r') label).map (s.set i)
  | some offered =>
      let told := fun outcome =>
        s.set i { inst with answer := some outcome, database := some (options, r') }
      match inst.adapter.store s.snapshot offered r.database.generation with
      | none => some (told .rejected)
      | some a => some { told (.acknowledged a) with
          snapshot := some offered
          stores := (i, offered) :: s.stores }

/-- One step. -/
def step (collate : JsString → JsString → Bool) (s : SharedStorage) :
    SharedLabel → Option SharedStorage
  | .load opening =>
      match MemoryStorageAdapter.new.load s.snapshot with
      | (_, none) => some s
      | (adapter, some loaded) =>
          some { s with instances := s.instances ++ [⟨opening, adapter, loaded, none, none⟩] }
  | .construct i randomId =>
      match s.instances[i]? with
      | none => none
      | some inst =>
          if inst.adapter.closed || inst.database.isSome then none
          else some (s.set i (inst.construct collate randomId))
  | .run i label =>
      match s.instances[i]? with
      | none => none
      | some inst =>
          match inst.database with
          | none => none
          | some (options, r) => (r.step options label).bind fun r' =>
              s.after i inst options r r' label

/-- What an instance loaded. -/
def loaded (s : SharedStorage) (i : ℕ) : Option SnapshotEnvelope := s.instances[i]?.bind (·.loaded)

/-- What the surroundings of the database of an instance saw. -/
def history (s : SharedStorage) (i : ℕ) : List DatabaseEvent :=
  (s.instances[i]?.bind (·.database)).elim [] (·.2.database.history)

end SharedStorage

end NewtonDB
