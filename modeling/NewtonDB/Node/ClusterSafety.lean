/-
# One open adapter, and no store lost

What holds in every interleaving of the adapters of a cluster, as long as no stale lock
that is removed was that of a live process (`Cluster.sparesLiving`).  Of the adapters in
live processes at most one is open at a time (`open_adapter_unique`).  And when none may
recover from the backup, the primary only ever changes to the next snapshot of what it
held, so that a snapshot that was acknowledged is in place and all that comes later goes
on from it (`acknowledged_store_kept`).

`Cluster.Fits` is the invariant: what is left of every method is assured, in the sense of
`Program.Assures`, to do and to end as it should.
-/

import NewtonDB.Lib.Transition
import NewtonDB.Node.ClusterStore
import NewtonDB.Node.StoreRetry
import Mathlib.Logic.Relation

namespace NewtonDB

open Method (Assures)
open Transition (Run)
open Relation (ReflTransGen)

/-- Whether the method is `store`, which keeps the lock. -/
def AdapterCall.isStore : AdapterCall → Bool
  | .store .. => true
  | _ => false

namespace Cluster

variable {ι : Type} {c : Cluster ι} {i : ι} {m m' : Machine ι}

/-! ### One session -/

/-- How a method ends. -/
structure CallEnds (c : Cluster ι) (i : ι) (call : AdapterCall)
    (outcome : Except Thrown AdapterResult) (fields : AdapterFields) (m : Machine ι) : Prop where
  tidy : c.Tidy i fields m
  stored : ∀ snapshot expected acknowledgement, call = .store snapshot expected →
    outcome = .ok (.stored acknowledgement) → fields.lock.isSome = true ∧ (c.NeverRecovers →
      c.primary m = some (c.platform.serializeSnapshot snapshot.json))

/-- **Every method ends as it should**, whatever the others do.  One case for each method; in
each the adapter keeps what the others rely on. -/
theorem assures_call (call : AdapterCall) :
    Assures (c.surroundings i call.isStore) (c.Tidy i) (call.method (c.adapter i))
      (c.CallEnds i call) := by
  cases call with
  | close =>
      exact Assures.bind assures_close (fun _ => Assures.pure fun _ _ h =>
        ⟨h.1, fun _ _ _ he => by cases he⟩) fun _ _ _ h => ⟨h.1, fun _ _ _ he => by cases he⟩
  | load =>
      exact Assures.bind assures_load (fun _ => Assures.pure fun _ _ h =>
        ⟨h, fun _ _ _ he => by cases he⟩) fun _ _ _ h => ⟨h, fun _ _ _ he => by cases he⟩
  | store snapshot expected =>
      refine Assures.bind (assures_store snapshot expected) (fun acknowledgement => Assures.pure
        fun fields m h => ⟨h.tidy, fun snapshot' expected' _ he _ => ?_⟩) fun _ _ _ h =>
          ⟨h.tidy, fun _ _ _ _ he => by cases he⟩
      cases he
      exact ⟨h.lock _ rfl, h.primary _ rfl⟩

/-- What the others do leaves what a call ended with. -/
theorem CallEnds.stable (call : AdapterCall) (outcome : Except Thrown AdapterResult) :
    c.Stable i (c.CallEnds i call outcome) := fun _ _ _ h hm =>
  ⟨Tidy.stable _ _ _ h.tidy hm, fun snapshot expected acknowledgement hcall houtcome => by
    obtain ⟨hl, hprimary⟩ := h.stored snapshot expected acknowledgement hcall houtcome
    refine ⟨hl, fun hrecover => ?_⟩
    rw [primary, (hm.mine (h.tidy.mine_of_lock hl)).1]
    exact hprimary hrecover⟩

/-- What is left of the method is as it should be, and a store has the lock throughout. -/
structure SessionFits (c : Cluster ι) (i : ι) (session : Session) (m : Machine ι) : Prop where
  program : Program.Assures (c.surroundings i session.call.isStore)
    (fun left m => c.CallEnds i session.call left.1 left.2 m) session.program m
  mine : session.call.isStore = true → session.entered.lock.isSome = true → c.Mine i m

/-- **A session fits the machine after a step of the others**, whether a method is under way or
not. -/
theorem SessionFits.interfere {session : Session} (h : c.SessionFits i session m)
    (hm : c.Relies i m m') : c.SessionFits i session m' :=
  ⟨h.program.interfere (fun _ _ _ h₁ h₂ => Relies.trans h₁ h₂)
    (fun left _ _ hw hrely => CallEnds.stable session.call left.1 _ _ _ hw hrely) hm,
    fun hs hl =>
      have hmine := h.mine hs hl
      hmine.of_eq (hm.mine hmine)⟩

/-- **An open adapter has the lock.**  So at most one adapter of a live process is open.  A
session is open from the end of its `load` until its `close` starts, and in between the lock
file has its text. -/
theorem SessionFits.mine_of_isOpen {session : Session} (h : c.SessionFits i session m)
    (hopen : session.isOpen = true) : c.Mine i m := by
  obtain ⟨entered, call, program⟩ := session
  cases program with
  | pure left => exact (CallEnds.tidy h.program).mine_of_lock hopen
  | call request next =>
      cases call with
      | store snapshot expected => exact h.mine rfl hopen
      | close => cases hopen
      | load => cases hopen

/-- **The snapshot of a store that has returned is in the primary.**  It holds until the adapter
begins its next method. -/
theorem SessionFits.primary_of_stored {session : Session} (h : c.SessionFits i session m)
    (hnever : c.NeverRecovers) {snapshot : SnapshotEnvelope}
    (hstored : session.stored? = some snapshot) :
    c.primary m = some (c.platform.serializeSnapshot snapshot.json) := by
  obtain ⟨entered, call, program⟩ := session
  cases call with
  | close => cases hstored
  | load => cases hstored
  | store stored expected =>
      cases program with
      | call request next => cases hstored
      | pure left =>
          obtain ⟨outcome, fields⟩ := left
          cases outcome with
          | error error => cases hstored
          | ok result =>
              cases result with
              | closed => cases hstored
              | loaded loaded => cases hstored
              | stored acknowledgement =>
                  obtain rfl := Option.some.inj hstored
                  exact (CallEnds.stored h.program stored expected acknowledgement rfl rfl).2
                    hnever

/-! ### All sessions -/

/-- The invariant of the runs. -/
structure Fits (c : Cluster ι) (s : ClusterState ι) : Prop where
  sane : s.machine.Sane
  sessions : ∀ i, s.machine.alive (c.pid i) = true →
    c.SessionFits i (s.sessions i) s.machine

/-- How a step changes the primary. -/
def PrimaryStep (c : Cluster ι) (m m' : Machine ι) : Prop :=
  c.NeverRecovers → c.primary m' = c.primary m ∨ c.Advances (c.primary m) (c.primary m')

/-- Every session fits at the start, when none has begun. -/
theorem fits_start {dir : Directory JsString} (hdir : dir.WF) (alive : ℤ → Bool) :
    c.Fits (start dir alive) := by
  have hsane : (start (ι := ι) dir alive).machine.Sane := ⟨hdir, fun _ _ => rfl⟩
  exact ⟨hsane, fun i _ => ⟨⟨.new hsane, fun _ _ _ he => by cases he⟩, fun hs => by cases hs⟩⟩

variable [DecidableEq ι] {s s' : ClusterState ι}

/-- **A step keeps the invariant**, and changes the primary as it may.  The cases are those of
the labels: a method begins, makes its next call, or a process dies. -/
theorem fits_step {label : ClusterLabel ι} (h : c.Fits s) (hspares : c.sparesLiving s label = true)
    (hstep : c.step s label = some s') : c.Fits s' ∧ c.PrimaryStep s.machine s'.machine := by
  cases label with
  | begin i call =>
      cases hprogram : (s.sessions i).program with
      | call request next => simp [step, hprogram] at hstep
      | pure left =>
          simp only [step, hprogram] at hstep
          split_ifs at hstep with halive
          obtain rfl := Option.some.inj hstep
          refine ⟨⟨h.sane, fun j hj => ?_⟩, fun _ => .inl rfl⟩
          by_cases hij : j = i
          · subst hij
            have htidy : c.Tidy j left.2 s.machine := by
              have hends := (h.sessions j halive).program
              rw [hprogram] at hends
              exact CallEnds.tidy hends
            dsimp only
            rw [Function.update_self]
            exact ⟨assures_call call left.2 s.machine htidy, fun _ hl => htidy.mine_of_lock hl⟩
          · dsimp only
            rw [Function.update_of_ne hij]
            exact h.sessions j hj
  | crash pid =>
      obtain rfl := Option.some.inj hstep
      refine ⟨⟨⟨h.sane.wf, h.sane.author⟩, fun j hj => ?_⟩, fun _ => .inl rfl⟩
      have halive : s.machine.alive (c.pid j) = true := by
        dsimp only at hj
        rw [Function.update_apply] at hj
        split_ifs at hj
        exact hj
      exact (h.sessions j halive).interfere (.of_eq ⟨rfl, rfl⟩)
  | reply i answer =>
      cases hprogram : (s.sessions i).program with
      | pure left => simp [step, hprogram] at hstep
      | call request next =>
          simp only [step, hprogram] at hstep
          split_ifs at hstep with halive
          obtain rfl := Option.some.inj hstep
          have hreply : (c.surroundings i (s.sessions i).call.isStore).reply request s.machine
              (s.machine.reply i answer request).1 (s.machine.reply i answer request).2 := by
            refine ⟨answer, fun htakeover hfault => ?_, rfl⟩
            simpa [sparesLiving, hprogram, htakeover, hfault] using hspares
          have hsession := h.sessions i halive
          obtain ⟨hguarantee, hnext⟩ := Program.Assures.reply (fun w => Relies.refl w)
            (hprogram ▸ hsession.program) hreply
          refine ⟨⟨hguarantee.sane h.sane, fun j hj => ?_⟩, hguarantee.primary⟩
          have hsame : (s.machine.reply i answer request).2.alive = s.machine.alive := by
            cases request <;> rfl
          by_cases hij : j = i
          · subst hij
            dsimp only
            rw [Function.update_self]
            exact ⟨hnext, fun hs hl => hguarantee.keep hs (hsession.mine hs hl)⟩
          · dsimp only at hj ⊢
            rw [Function.update_of_ne hij]
            rw [hsame] at hj
            exact (h.sessions j hj).interfere (hguarantee.others j hij hj)

/-- A run in which no lock is taken from a live process. -/
abbrev SparingRun (c : Cluster ι) :
    ClusterState ι → List (ClusterLabel ι) → ClusterState ι → Prop :=
  Run c.step fun s label => c.sparesLiving s label = true

/-- **Every session fits in every state of a sparing run**, by induction on the steps.  What the
sessions say of the machine follows for every state that is reached. -/
theorem fits_run {labels : List (ClusterLabel ι)} (hrun : c.SparingRun s labels s')
    (h : c.Fits s) : c.Fits s' :=
  hrun.invariant h fun _ _ _ ht ha hu => (fits_step ht ha hu).1

/-! ### Two adapters for one file -/

/-- The snapshot that follows the first one. -/
def secondSnapshot : SnapshotEnvelope := ⟨[], [], js "d", 2, 2⟩

/-- A platform that reads the files of two snapshots, the strings in them, and the locks of
two processes. -/
def twoFilesPlatform : Platform :=
  let sum (text : JsString) :=
    if text = secondSnapshot.json.stringify then
      js "b0e2fa0d85dded486688a646fa50679d01d2bdfeae96119a4d5727b157864335"
    else js "b340dad55a74d9c90814dd4114d7185f0715acf1a2c5cc4ab7534252069e57b2"
  let file (snapshot : SnapshotEnvelope) := Json.obj
    [(js "checksum", .prim (.string (sum snapshot.json.stringify))), (js "snapshot", snapshot.json)]
  let lock (pid : ℕ) (token : JsString) := Json.obj
    [(js "pid", .prim (.number (.ofNat pid))), (js "token", .prim (.string token))]
  let known := [file JsonFileAdapter.firstSnapshot, file secondSnapshot, lock 7 (js "t"),
    lock 8 (js "u")]
  { parse := fun text =>
      if text.head? = some 34 then some (.prim (.string (text.drop 1).dropLast))
      else known.find? fun j => text = j.stringify || text = j.stringify ++ [10]
    sha256 := sum }

/-- Two adapters for `db`, in processes 7 and 8. -/
def twoAdapters : Cluster Bool where
  name := js "db"
  platform := twoFilesPlatform
  adapter second :=
    { JsonFileAdapter.storedAdapter with
      pid := if second then 8 else 7
      platform := twoFilesPlatform
      recoverFromBackup := false }
  name_eq _ := rfl
  platform_eq _ := rfl

/-- So many calls of an adapter, each answered without a fault. -/
def replies (i : Bool) (count : ℕ) : List (ClusterLabel Bool) :=
  List.replicate count (.reply i ⟨none, if i then js "u" else js "t"⟩)

/-- The first adapter is opened, the second is turned away, and the first stores. -/
def openThenStore : List (ClusterLabel Bool) :=
  .begin false .load :: replies false 9 ++ .begin true .load :: replies true 5 ++
    .begin false (.store JsonFileAdapter.firstSnapshot 0) :: replies false 19

/-- The first process dies, and the second adapter takes the lock over, is opened and stores. -/
def takeOverThenStore : List (ClusterLabel Bool) :=
  .crash 7 :: .begin true .load :: replies true 17 ++
    .begin true (.store secondSnapshot 1) :: replies true 31

/-- What the first run leads to. -/
def openedThenStored : Option (ClusterState Bool) :=
  Transition.checked twoAdapters.step twoAdapters.sparesLiving (start .empty fun _ => true)
    openThenStore

/-- There is a run in which an adapter loads and stores, and stays open. -/
theorem exists_openedThenStored : ∃ s : ClusterState Bool, openedThenStored = some s ∧
    (s.sessions false).isOpen = true ∧ s.machine.alive (twoAdapters.pid false) = true := by
  have h : (openedThenStored.any fun s => (s.sessions false).isOpen &&
      s.machine.alive (twoAdapters.pid false)) = true := by decide +kernel
  obtain ⟨s, hs, h⟩ := (Option.any_eq_true _ _).1 h
  exact ⟨s, hs, Bool.and_eq_true_iff.1 h⟩

/-! ### Safety -/

/-- **Mutual exclusion.**  In every run that spares the living, and in every state of it, at
most one adapter of a live process is open, that is, between a `load` that succeeded and its
`close`.  The runs are those of any number of adapters over one path, with every interleaving of
their calls, every fault and every crash. -/
theorem open_adapter_unique (c : Cluster ι) {dir : Directory JsString} (hdir : dir.WF)
    (alive : ℤ → Bool) {labels : List (ClusterLabel ι)}
    (hrun : c.SparingRun (start dir alive) labels s) {i j : ι}
    (hi : s.machine.alive (c.pid i) = true) (hj : s.machine.alive (c.pid j) = true)
    (hopen : (s.sessions i).isOpen = true) (hopen' : (s.sessions j).isOpen = true) : i = j := by
  have h := fits_run hrun (fits_start hdir alive)
  exact ((h.sessions i hi).mine_of_isOpen hopen).eq ((h.sessions j hj).mine_of_isOpen hopen')

/-- The first adapter is open, and the second was turned away.  Only one of them can be, as
the theorem says. -/
theorem second_load_refused : ∃ s : ClusterState Bool, (s.sessions false).isOpen = true ∧
    ∀ j, s.machine.alive (twoAdapters.pid j) = true → (s.sessions j).isOpen = true →
      false = j := by
  obtain ⟨s, hs, hopen, halive⟩ := exists_openedThenStored
  exact ⟨s, hopen, fun j hj => open_adapter_unique twoAdapters .empty (fun _ => true)
    (Transition.checked_sound hs) halive hj hopen⟩

/-- **No acknowledged store is lost.**  Where no adapter may recover, the primary holds the
snapshot of a store that has just returned, byte for byte, and whatever happens afterwards, it
is replaced only by the snapshot that comes next to the one it holds. -/
theorem acknowledged_store_kept (c : Cluster ι) (hnever : c.NeverRecovers)
    {dir : Directory JsString} (hdir : dir.WF) (alive : ℤ → Bool)
    {labels labels' : List (ClusterLabel ι)} (hrun : c.SparingRun (start dir alive) labels s)
    {i : ι} (hi : s.machine.alive (c.pid i) = true) {snapshot : SnapshotEnvelope}
    (hstored : (s.sessions i).stored? = some snapshot) (hlater : c.SparingRun s labels' s') :
    c.primary s.machine = some (c.platform.serializeSnapshot snapshot.json) ∧
      ReflTransGen c.Advances (c.primary s.machine) (c.primary s'.machine) := by
  have h := fits_run hrun (fits_start hdir alive)
  refine ⟨(h.sessions i hi).primary_of_stored hnever hstored, ?_⟩
  refine (hlater.invariant (P := fun t => c.Fits t ∧
    ReflTransGen c.Advances (c.primary s.machine) (c.primary t.machine)) ⟨h, .refl⟩
    fun t label u ht ha hu => ?_).2
  obtain ⟨hfits, hstep⟩ := fits_step ht.1 ha hu
  refine ⟨hfits, ?_⟩
  rcases hstep hnever with hsame | hadvances
  · rw [hsame]
    exact ht.2
  · exact ht.2.tail hadvances

/-- The first store of `db` is kept, and the second goes on from it.  The process of the first
dies, the second takes the lock over, loads and stores its own. -/
theorem first_store_kept : ∃ s s' : ClusterState Bool,
    (twoAdapters.primary s.machine =
      some (twoFilesPlatform.serializeSnapshot JsonFileAdapter.firstSnapshot.json) ∧
    ReflTransGen twoAdapters.Advances (twoAdapters.primary s.machine)
      (twoAdapters.primary s'.machine)) ∧
    twoAdapters.primary s'.machine = some (twoFilesPlatform.serializeSnapshot secondSnapshot.json) := by
  have hruns : (openedThenStored.any fun s =>
      (s.sessions false).stored? = some JsonFileAdapter.firstSnapshot &&
      s.machine.alive (twoAdapters.pid false) &&
      (Transition.checked twoAdapters.step twoAdapters.sparesLiving s takeOverThenStore).any
        fun s' => twoAdapters.primary s'.machine =
          some (twoFilesPlatform.serializeSnapshot secondSnapshot.json)) = true := by
    decide +kernel
  obtain ⟨s, hs, hruns⟩ := (Option.any_eq_true _ _).1 hruns
  obtain ⟨hruns, hlater⟩ := Bool.and_eq_true_iff.1 hruns
  obtain ⟨hstored, halive⟩ := Bool.and_eq_true_iff.1 hruns
  obtain ⟨s', hs', hsecond⟩ := (Option.any_eq_true _ _).1 hlater
  exact ⟨s, s', acknowledged_store_kept twoAdapters (fun _ => rfl) .empty (fun _ => true)
    (Transition.checked_sound hs) halive (of_decide_eq_true hstored)
    (Transition.checked_sound hs'), of_decide_eq_true hsecond⟩

end Cluster

end NewtonDB
