/-
# Optimistic concurrency

Clients share a root.  A call of a client moves its own state, and a call that
publishes replaces the root; a published client is finished.  Clients interleave
freely, and nobody locks anything: a client remembers which version of what it
read, and publishing checks that all of it is still current.

`Machine` is such a system and `Laws` what the argument needs of it: a call that
read only what is still current at a later root would have gone the same way
there (`Laws.replay`), and only a client whose reads are all current can publish
(`Laws.valid_of_publishes`).  From these, **every interleaving is equivalent to
the serial run of the clients that published, in the order in which they did**
(`Laws.serializable`): same results, same final root.
-/

import Mathlib.Logic.Function.Basic
import Mathlib.Data.List.Induction

namespace NewtonDB

namespace Occ

/-- Clients that call on a shared root. -/
structure Machine (Root Client Call Result : Type) where
  start : Client
  call : Root → Client → Call → Root × Client × Result
  publishes : Result → Bool

variable {Root Client Call Result ι : Type}

namespace Machine

variable (m : Machine Root Client Call Result)

/-! ### One client alone -/

/-- Where one client's calls have led. -/
structure Alone (Root Client Result : Type) where
  root : Root
  client : Client
  results : List Result

/-- One more call of the client. -/
def aloneStep (a : Alone Root Client Result) (call : Call) : Alone Root Client Result where
  root := (m.call a.root a.client call).1
  client := (m.call a.root a.client call).2.1
  results := a.results ++ [(m.call a.root a.client call).2.2]

/-- One client's calls, nobody else calling. -/
def alone (root : Root) (calls : List Call) : Alone Root Client Result :=
  calls.foldl m.aloneStep ⟨root, m.start, []⟩

/-- A client alone makes its calls one after the other. -/
theorem alone_concat (root : Root) (calls : List Call) (call : Call) :
    m.alone root (calls ++ [call]) = m.aloneStep (m.alone root calls) call := by
  simp [alone]

/-- Clients one after the other, each alone: the root they leave and the results
of each. -/
def serial : Root → List (List Call) → Root × List (List Result)
  | root, [] => (root, [])
  | root, calls :: rest =>
      let a := m.alone root calls
      ((serial a.root rest).1, a.results :: (serial a.root rest).2)

/-! ### Any interleaving -/

variable [DecidableEq ι]

/-- The root, the clients and the results of all calls so far. -/
structure History (ι Root Client Result : Type) where
  root : Root
  client : ι → Client
  results : List (ι × Result)

/-- The call of one client. -/
def step (h : History ι Root Client Result) (s : ι × Call) : History ι Root Client Result where
  root := (m.call h.root (h.client s.1) s.2).1
  client := Function.update h.client s.1 (m.call h.root (h.client s.1) s.2).2.1
  results := h.results ++ [(s.1, (m.call h.root (h.client s.1) s.2).2.2)]

/-- The calls of all clients, interleaved as listed. -/
def run (root : Root) (steps : List (ι × Call)) : History ι Root Client Result :=
  steps.foldl m.step ⟨root, fun _ => m.start, []⟩

/-- An interleaving is run step by step. -/
theorem run_concat (root : Root) (steps : List (ι × Call)) (s : ι × Call) :
    m.run root (steps ++ [s]) = m.step (m.run root steps) s := by
  simp [run]

/-- The entries of one client, in order. -/
def of {α : Type} (i : ι) (l : List (ι × α)) : List α := (l.filter (·.1 = i)).map Prod.snd

/-- A step of a client comes last in the list of its steps. -/
theorem of_concat_self {α : Type} (i : ι) (l : List (ι × α)) (a : α) :
    of i (l ++ [(i, a)]) = of i l ++ [a] := by simp [of]

/-- A step of another client is not in the list of a client's steps. -/
theorem of_concat_ne {α : Type} {i j : ι} (h : i ≠ j) (l : List (ι × α)) (a : α) :
    of j (l ++ [(i, a)]) = of j l := by simp [of, h]

/-- The clients that published, in the order in which they did. -/
def published (results : List (ι × Result)) : List ι :=
  (results.filter fun r => m.publishes r.2).map Prod.fst

end Machine

/-- What optimistic concurrency rests on.  `later` orders the roots of a run,
`sound` holds of them; `known root client` says that nothing the client read is
newer than the root, `valid root client` that all of it is what the root holds. -/
structure Laws (m : Machine Root Client Call Result) where
  sound : Root → Prop
  later : Root → Root → Prop
  known : Root → Client → Prop
  valid : Root → Client → Prop
  finished : Client → Prop
  later_refl : ∀ root, later root root
  later_trans : ∀ {a b c}, later a b → later b c → later a c
  sound_call : ∀ {root client call}, sound root → known root client →
    sound (m.call root client call).1
  later_call : ∀ {root client call}, sound root → known root client →
    later root (m.call root client call).1
  known_start : ∀ root, known root m.start
  known_later : ∀ {root root' client}, known root client → later root root' → known root' client
  known_call : ∀ {root client call}, known root client →
    known root (m.call root client call).2.1
  root_of_not_publishes : ∀ {root client call},
    m.publishes (m.call root client call).2.2 = false → (m.call root client call).1 = root
  valid_of_publishes : ∀ {root client call}, m.publishes (m.call root client call).2.2 = true →
    valid root client
  finished_of_publishes : ∀ {root client call}, m.publishes (m.call root client call).2.2 = true →
    finished (m.call root client call).2.1
  /-- A call that does not publish keeps the client's earlier reads. -/
  valid_of_call : ∀ {root root' client call},
    m.publishes (m.call root client call).2.2 = false →
      valid root' (m.call root client call).2.1 → valid root' client
  /-- At a later root that still holds everything read, the call goes the same way. -/
  replay : ∀ {root root' client call}, m.publishes (m.call root client call).2.2 = false →
    later root root' → known root client → valid root' (m.call root client call).2.1 →
      m.call root' client call = (root', (m.call root client call).2)
  /-- A finished client stays finished, does nothing, and sees nothing of the root. -/
  finished_call : ∀ {client}, finished client → ∀ call root root',
    m.call root' client call = (root', (m.call root client call).2) ∧
      finished (m.call root client call).2.1 ∧
        m.publishes (m.call root client call).2.2 = false

namespace Laws

open Machine

variable {m : Machine Root Client Call Result} [DecidableEq ι]

/-- The serial run of the listed clients from one root to another, each ending in
its state of the history with its results. -/
inductive Replays (m : Machine Root Client Call Result) (calls : ι → List Call)
    (client : ι → Client) (results : ι → List Result) : Root → List ι → Root → Prop
  | nil (root : Root) : Replays m calls client results root [] root
  | cons {root next last : Root} {i : ι} {order : List ι}
      (head : m.alone root (calls i) = ⟨next, client i, results i⟩)
      (tail : Replays m calls client results next order last) :
      Replays m calls client results root (i :: order) last

variable {calls calls' : ι → List Call} {client client' : ι → Client}
  {results results' : ι → List Result} {root last : Root} {order : List ι}

omit [DecidableEq ι] in
/-- **What replays is the serial run**: the last root, and the results of every client in the
order. -/
theorem Replays.serial_eq (h : Replays m calls client results root order last) :
    m.serial root (order.map calls) = (last, order.map results) := by
  induction h with
  | nil root => rfl
  | cons head tail ih => simp [Machine.serial, head, ih]

omit [DecidableEq ι] in
/-- One more client, alone on the last root, comes last in the order. -/
theorem Replays.concat {next : Root} {i : ι}
    (h : Replays m calls client results root order last)
    (hi : m.alone last (calls i) = ⟨next, client i, results i⟩) :
    Replays m calls client results root (order ++ [i]) next := by
  induction h with
  | nil root => exact .cons hi (.nil next)
  | cons head tail ih => exact .cons head (ih hi)

omit [DecidableEq ι] in
/-- The blocks of a serial run may be replaced by blocks that lead to the same roots.  Only the
calls of the clients in the order matter, and each block is compared where it is run. -/
theorem Replays.congr (h : Replays m calls client results root order last)
    (heq : ∀ i ∈ order, ∀ a next, m.alone a (calls i) = ⟨next, client i, results i⟩ →
      m.alone a (calls' i) = ⟨next, client' i, results' i⟩) :
    Replays m calls' client' results' root order last := by
  induction h with
  | nil root => exact .nil root
  | cons head tail ih =>
      exact .cons (heq _ (List.mem_cons_self ..) _ _ head)
        (ih fun i hi => heq i (List.mem_cons_of_mem _ hi))

/-- What holds after any interleaving: the clients that published replay serially
to the current root, and every other client would replay at any later root that
still holds what it read. -/
structure Inv (laws : Laws m) (first : Root) (steps : List (ι × Call))
    (h : History ι Root Client Result) : Prop where
  sound : laws.sound h.root
  known : ∀ i, laws.known h.root (h.client i)
  finished : ∀ i ∈ m.published h.results, laws.finished (h.client i)
  pending : ∀ i ∉ m.published h.results, ∀ root, laws.later h.root root →
    laws.valid root (h.client i) →
      m.alone root (of i steps) = ⟨root, h.client i, of i h.results⟩
  serial : Replays m (of · steps) h.client (of · h.results) first (m.published h.results) h.root

/-- The invariant of the simulation holds before any step. -/
theorem inv_start (laws : Laws m) {first : Root} (hs : laws.sound first) :
    Inv laws first ([] : List (ι × Call)) (m.run first []) where
  sound := hs
  known _ := laws.known_start first
  finished _ hi := by simp [run, published] at hi
  pending _ _ _ _ _ := rfl
  serial := .nil first

omit [DecidableEq ι] in
/-- The published clients after one more result. -/
theorem published_concat (l : List (ι × Result)) (i : ι) (r : Result) :
    m.published (l ++ [(i, r)]) = m.published l ++ if m.publishes r then [i] else [] := by
  cases h : m.publishes r <;> simp [published, h]

/-- **Every call keeps the invariant.**  A commit puts its client last in the serial order; any
other call is one its client could have made alone. -/
theorem inv_step (laws : Laws m) {first : Root} {steps : List (ι × Call)}
    {h : History ι Root Client Result} (inv : Inv laws first steps h) (s : ι × Call) :
    Inv laws first (steps ++ [s]) (m.step h s) := by
  obtain ⟨j, call⟩ := s
  have hlater : laws.later h.root (m.step h (j, call)).root :=
    laws.later_call inv.sound (inv.known j)
  have hself : (m.step h (j, call)).client j = (m.call h.root (h.client j) call).2.1 :=
    Function.update_self ..
  have hother : ∀ i, i ≠ j → (m.step h (j, call)).client i = h.client i := fun i hi =>
    Function.update_of_ne hi ..
  have hresults : (m.step h (j, call)).results =
      h.results ++ [(j, (m.call h.root (h.client j) call).2.2)] := rfl
  -- the other clients keep their calls, their results and their state
  have hkeep : ∀ i, i ≠ j → of i (steps ++ [(j, call)]) = of i steps ∧
      of i (m.step h (j, call)).results = of i h.results := fun i hi =>
    ⟨of_concat_ne (Ne.symm hi) .., of_concat_ne (Ne.symm hi) ..⟩
  have hknown : ∀ i, laws.known (m.step h (j, call)).root ((m.step h (j, call)).client i) := by
    intro i
    by_cases hi : i = j
    · subst hi
      rw [hself]
      exact laws.known_later (laws.known_call (inv.known i)) hlater
    · rw [hother i hi]
      exact laws.known_later (inv.known i) hlater
  have hpending : ∀ i, i ≠ j → i ∉ m.published (m.step h (j, call)).results → ∀ root,
      laws.later (m.step h (j, call)).root root →
        laws.valid root ((m.step h (j, call)).client i) →
          m.alone root (of i (steps ++ [(j, call)])) =
            ⟨root, (m.step h (j, call)).client i, of i (m.step h (j, call)).results⟩ := by
    intro i hi hn root hl hv
    rw [hother i hi] at hv ⊢
    rw [(hkeep i hi).1, (hkeep i hi).2]
    refine inv.pending i (fun hm => hn ?_) root (laws.later_trans hlater hl) hv
    rw [hresults, published_concat]
    exact List.mem_append_left _ hm
  cases hp : m.publishes (m.call h.root (h.client j) call).2.2 with
  | false =>
      have hroot : (m.step h (j, call)).root = h.root := laws.root_of_not_publishes hp
      have hpub : m.published (m.step h (j, call)).results = m.published h.results := by
        rw [hresults, published_concat, hp]
        exact List.append_nil _
      -- a finished client adds a call without effect to its block of the serial run
      have hserial : Replays m (of · (steps ++ [(j, call)])) (m.step h (j, call)).client
          (of · (m.step h (j, call)).results) first (m.published h.results) h.root := by
        refine inv.serial.congr fun i hm a next ha => ?_
        by_cases hi : i = j
        · subst hi
          have hf := laws.finished_call (inv.finished i hm) call h.root next
          rw [of_concat_self, alone_concat, ha, aloneStep, hf.1, hself, hresults, of_concat_self]
        · rw [(hkeep i hi).1, (hkeep i hi).2, hother i hi]
          exact ha
      refine ⟨hroot ▸ inv.sound, hknown, ?_, ?_, hpub ▸ hroot ▸ hserial⟩
      · intro i hm
        rw [hpub] at hm
        by_cases hi : i = j
        · subst hi
          rw [hself]
          exact (laws.finished_call (inv.finished i hm) call h.root h.root).2.1
        · rw [hother i hi]
          exact inv.finished i hm
      · intro i hn root hl hv
        by_cases hi : i = j
        · subst hi
          rw [hpub] at hn
          rw [hroot] at hl
          rw [hself] at hv ⊢
          have hprev := inv.pending i hn root hl (laws.valid_of_call hp hv)
          have hcall := laws.replay hp hl (inv.known i) hv
          rw [of_concat_self, alone_concat, hprev, aloneStep, hcall, hresults, of_concat_self]
        · exact hpending i hi hn root hl hv
  | true =>
      have hpub : m.published (m.step h (j, call)).results = m.published h.results ++ [j] := by
        rw [hresults, published_concat, hp]
        rfl
      have hn : j ∉ m.published h.results := fun hm => by
        have := (laws.finished_call (inv.finished j hm) call h.root h.root).2.2
        rw [hp] at this
        cases this
      -- the block of the client that publishes runs at the root it published on
      have hblock : m.alone h.root (of j (steps ++ [(j, call)])) =
          ⟨(m.step h (j, call)).root, (m.step h (j, call)).client j,
            of j (m.step h (j, call)).results⟩ := by
        have := inv.pending j hn h.root (laws.later_refl _) (laws.valid_of_publishes hp)
        rw [of_concat_self, alone_concat, this, aloneStep, hself, hresults, of_concat_self]
        rfl
      have hserial : Replays m (of · (steps ++ [(j, call)])) (m.step h (j, call)).client
          (of · (m.step h (j, call)).results) first (m.published h.results) h.root := by
        refine inv.serial.congr fun i hm a next ha => ?_
        have hi : i ≠ j := fun e => hn (e ▸ hm)
        rw [(hkeep i hi).1, (hkeep i hi).2, hother i hi]
        exact ha
      refine ⟨laws.sound_call inv.sound (inv.known j), hknown, ?_, ?_, ?_⟩
      · intro i hm
        rw [hpub] at hm
        by_cases hi : i = j
        · subst hi
          rw [hself]
          exact laws.finished_of_publishes hp
        · rw [hother i hi]
          refine inv.finished i ?_
          simpa [hi] using hm
      · intro i hn' root hl hv
        have hi : i ≠ j := fun e => hn' (by rw [hpub, e]; simp)
        exact hpending i hi hn' root hl hv
      · rw [hpub]
        exact hserial.concat hblock

/-- **The invariant of the simulation holds after any steps**, by induction on them.  In the end
it says that the interleaving is the serial run. -/
theorem inv_run (laws : Laws m) {first : Root} (hs : laws.sound first)
    (steps : List (ι × Call)) : Inv laws first steps (m.run first steps) := by
  induction steps using List.reverseRecOn with
  | nil => exact inv_start laws hs
  | append_singleton steps s ih =>
      rw [run_concat]
      exact inv_step laws ih s

/-- **Serializability.**  The clients that published, run one at a time and alone
in the order in which they published, give the results they had and the root
that the interleaving left. -/
theorem serializable (laws : Laws m) {first : Root} (hs : laws.sound first)
    (steps : List (ι × Call)) :
    m.serial first ((m.published (m.run first steps).results).map (of · steps)) =
      ((m.run first steps).root,
        (m.published (m.run first steps).results).map (of · (m.run first steps).results)) :=
  (inv_run laws hs steps).serial.serial_eq

end Laws

end Occ

end NewtonDB
