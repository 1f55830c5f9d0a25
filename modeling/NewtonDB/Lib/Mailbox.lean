/-
# A mailbox

Messages that are sent wait in a queue, or are refused.  A round takes the oldest
message off the queue and brings it to its receivers, one after another; the next
round starts when all have it.  The messages that wait may also be dropped.

Each message has a stamp, and a message is sent under a larger stamp than all
before.  **Every message sent is in exactly one place** (`Valid.accounted`), and
**everyone receives messages with increasing stamps** (`Valid.received_increasing`).
-/

import Mathlib.Data.List.Pairwise

namespace NewtonDB

/-- A mailbox and what became of its messages: the rounds that started, what was
received, refused, dropped and sent, oldest first. -/
@[ext]
structure Mailbox (M R : Type) where
  queue : List M
  round : Option (M × List R)
  rounds : List (M × List R)
  received : List (R × M)
  refused : List M
  dropped : List M
  sent : List M

namespace Mailbox

variable {M R : Type}

/-- The mailbox before anything was sent. -/
def empty : Mailbox M R := ⟨[], none, [], [], [], [], []⟩

/-- What a round brings to its receivers. -/
def copies (round : M × List R) : List (R × M) := round.2.map fun r => (r, round.1)

/-- What the round under way has still to bring. -/
def outstanding (box : Mailbox M R) : List (R × M) := box.round.elim [] copies

/-- **What can happen to a mailbox.** -/
inductive Step (stamp : M → ℕ) (box : Mailbox M R) : Mailbox M R → Prop
  | send (m : M) (fresh : ∀ m' ∈ box.sent, stamp m' < stamp m) :
      Step stamp box { box with queue := box.queue ++ [m], sent := box.sent ++ [m] }
  | refuse (m : M) (fresh : ∀ m' ∈ box.sent, stamp m' < stamp m) :
      Step stamp box { box with refused := box.refused ++ [m], sent := box.sent ++ [m] }
  | begin (m : M) (queue : List M) (receivers : List R) (head : box.queue = m :: queue)
      (free : box.outstanding = []) (distinct : receivers.Nodup) :
      Step stamp box { box with
        queue, round := some (m, receivers), rounds := box.rounds ++ [(m, receivers)] }
  | deliver (m : M) (r : R) (rest : List R) (next : box.round = some (m, r :: rest)) :
      Step stamp box { box with round := some (m, rest), received := box.received ++ [(r, m)] }
  | finish (free : box.outstanding = []) : Step stamp box { box with round := none }
  | drop : Step stamp box { box with queue := [], dropped := box.dropped ++ box.queue }

/-- **The books of a mailbox are in order.** -/
structure Valid (stamp : M → ℕ) (box : Mailbox M R) : Prop where
  sent : box.sent.Pairwise (stamp · < stamp ·)
  accounted : box.sent.Perm (box.rounds.map Prod.fst ++ box.refused ++ box.queue ++ box.dropped)
  ordered : (box.rounds.map Prod.fst ++ box.queue).Sublist box.sent
  delivered : box.received ++ box.outstanding = box.rounds.flatMap copies
  distinct : ∀ round ∈ box.rounds, round.2.Nodup

variable {stamp : M → ℕ} {box box' : Mailbox M R}

/-- A mailbox to which nothing was sent is valid. -/
theorem Valid.empty : (empty : Mailbox M R).Valid stamp where
  sent := List.Pairwise.nil
  accounted := .refl _
  ordered := .refl _
  delivered := rfl
  distinct := by simp [Mailbox.empty]

/-- What is sent under a fresh stamp keeps the stamps in order. -/
theorem Valid.sent_concat (h : box.Valid stamp) {m : M}
    (fresh : ∀ m' ∈ box.sent, stamp m' < stamp m) :
    (box.sent ++ [m]).Pairwise (stamp · < stamp ·) := by
  refine List.pairwise_append.2 ⟨h.sent, List.pairwise_singleton .., fun m' hm' x hx => ?_⟩
  obtain rfl := List.mem_singleton.1 hx
  exact fresh m' hm'

/-- **The books stay in order.**  One case for each step: a message is sent, a round begins or
goes on, a reader joins or leaves. -/
theorem Valid.step (h : box.Valid stamp) (hs : box.Step stamp box') : box'.Valid stamp := by
  cases hs with
  | send m fresh =>
      refine ⟨h.sent_concat fresh, ?_, ?_, h.delivered, h.distinct⟩
      · refine (h.accounted.append_right [m]).trans ?_
        simp only [List.append_assoc]
        exact ((List.perm_append_comm.append_left _).append_left _).append_left _
      · rw [← List.append_assoc]
        exact h.ordered.append (.refl _)
  | refuse m fresh =>
      refine ⟨h.sent_concat fresh, ?_, ?_, h.delivered, h.distinct⟩
      · refine (h.accounted.append_right [m]).trans ?_
        simp only [List.append_assoc]
        refine (List.Perm.append_left _ ?_).append_left _
        rw [← List.append_assoc]
        exact List.perm_append_comm
      · exact h.ordered.trans (List.sublist_append_left ..)
  | begin m queue receivers head free distinct =>
      refine ⟨h.sent, ?_, ?_, ?_, fun round hm => ?_⟩
      · refine h.accounted.trans ?_
        rw [head, List.map_append]
        simp only [List.append_assoc]
        have hmiddle : (box.refused ++ m :: (queue ++ box.dropped)).Perm
            (m :: (box.refused ++ (queue ++ box.dropped))) := List.perm_middle
        exact hmiddle.append_left _
      · have hordered := h.ordered
        rw [head] at hordered
        rwa [List.map_append, List.append_assoc]
      · have hdelivered := h.delivered
        rw [free, List.append_nil] at hdelivered
        rw [List.flatMap_append, ← hdelivered, List.flatMap_singleton]
        rfl
      · rcases List.mem_append.1 hm with hm | hm
        · exact h.distinct round hm
        · obtain rfl := List.mem_singleton.1 hm
          exact distinct
  | deliver m r rest next =>
      refine ⟨h.sent, h.accounted, h.ordered, ?_, h.distinct⟩
      rw [← h.delivered, List.append_assoc]
      simp [outstanding, next, copies]
  | finish free =>
      refine ⟨h.sent, h.accounted, h.ordered, ?_, h.distinct⟩
      rw [← h.delivered, free]
      rfl
  | drop =>
      refine ⟨h.sent, h.accounted.trans ?_, ?_, h.delivered, h.distinct⟩
      · simp only [List.append_assoc, List.append_nil]
        exact (List.perm_append_comm.append_left _).append_left _
      · rw [List.append_nil]
        exact (List.sublist_append_left ..).trans h.ordered

/-- Rounds with increasing stamps bring everyone increasing stamps.  Within a round everyone
gets one copy, and later rounds have larger stamps. -/
theorem copies_increasing {rounds : List (M × List R)}
    (stamps : (rounds.map Prod.fst).Pairwise (stamp · < stamp ·))
    (distinct : ∀ round ∈ rounds, round.2.Nodup) :
    (rounds.flatMap copies).Pairwise fun x y => x.1 = y.1 → stamp x.2 < stamp y.2 := by
  refine List.pairwise_flatMap.2 ⟨fun round hm => ?_, (List.pairwise_map.1 stamps).imp ?_⟩
  · exact List.pairwise_map.2 ((distinct round hm).imp fun hne he => absurd he hne)
  · intro a b hlt x hx y hy _
    obtain ⟨_, -, rfl⟩ := List.mem_map.1 hx
    obtain ⟨_, -, rfl⟩ := List.mem_map.1 hy
    exact hlt

/-- **Everyone receives messages with increasing stamps.**  Messages are sent with increasing
stamps, queued in that order and delivered in it. -/
theorem Valid.received_increasing (h : box.Valid stamp) :
    box.received.Pairwise fun x y => x.1 = y.1 → stamp x.2 < stamp y.2 := by
  have hall := copies_increasing
    (h.sent.sublist ((List.sublist_append_left ..).trans h.ordered)) h.distinct
  rw [← h.delivered] at hall
  exact hall.sublist (List.sublist_append_left ..)

end Mailbox

end NewtonDB
