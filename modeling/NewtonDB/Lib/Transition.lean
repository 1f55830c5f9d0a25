/-
# Runs of a step function

A step function gives the state a labelled step leads to, or nothing where the
step is impossible.  `run` follows a list of labels.  `Run` is a run whose every
step meets a condition on the state before it and on its label: **what the first
state has and every such step keeps holds at the end of every such run**
(`Run.invariant`).  `checked` decides a run with its conditions, for runs that
are given in full.  `observed` adds a list of what was seen of each step.
-/

import Mathlib.Data.List.Basic

namespace NewtonDB

namespace Transition

variable {S L : Type*} (step : S → L → Option S)

/-- The state after a list of labels, if every step is possible. -/
def run (s : S) (labels : List L) : Option S := labels.foldlM step s

/-- A run from one state to another, each step allowed where it is taken. -/
inductive Run (allowed : S → L → Prop) (s : S) : List L → S → Prop
  | start : Run allowed s [] s
  | next {labels : List L} {t u : S} {label : L} : Run allowed s labels t → allowed t label →
      step t label = some u → Run allowed s (labels ++ [label]) u

/-- The state after a list of labels, if every step is possible and allowed. -/
def checked (allowed : S → L → Bool) (s : S) (labels : List L) : Option S :=
  run (fun t label => if allowed t label then step t label else none) s labels

variable {step} {allowed : S → L → Prop} {s t u : S} {labels labels' : List L}

/-- **An invariant of the steps is an invariant of the runs.**  By induction on the run.  The
condition on the steps may be used at each of them. -/
theorem Run.invariant {P : S → Prop} (h : Run step allowed s labels t) (hs : P s)
    (hstep : ∀ t label u, P t → allowed t label → step t label = some u → P u) : P t := by
  induction h with
  | start => exact hs
  | next _ ha hu ih => exact hstep _ _ _ ih ha hu

/-- A run goes on with a run. -/
theorem Run.trans (h : Run step allowed s labels t) (h' : Run step allowed t labels' u) :
    Run step allowed s (labels ++ labels') u := by
  induction h' with
  | start => rwa [List.append_nil]
  | next _ ha hu ih =>
      rw [← List.append_assoc]
      exact ih.next ha hu

/-- Runs under a condition are runs under a weaker one. -/
theorem Run.mono {allowed' : S → L → Prop} (h : Run step allowed s labels t)
    (hle : ∀ t label, allowed t label → allowed' t label) : Run step allowed' s labels t := by
  induction h with
  | start => exact .start
  | next _ ha hu ih => exact ih.next (hle _ _ ha) hu

/-- Runs over the same labels lead to the same state, and one meets both conditions.  A step has
at most one result, so the two runs are the same one. -/
theorem Run.and {allowed' : S → L → Prop} {t' : S} (h : Run step allowed s labels t)
    (h' : Run step allowed' s labels t') :
    t' = t ∧ Run step (fun t label => allowed t label ∧ allowed' t label) s labels t := by
  induction h generalizing t' with
  | start =>
      generalize hl : ([] : List L) = labels at h'
      cases h' with
      | start => exact ⟨rfl, .start⟩
      | next => simp at hl
  | @next labels₁ t₁ u label hr ha hu ih =>
      generalize hl : labels₁ ++ [label] = labels at h'
      cases h' with
      | start => simp at hl
      | @next labels₂ t₂ _ label' hr' ha' hu' =>
          obtain ⟨rfl, hlabel⟩ := List.append_inj' hl rfl
          obtain rfl := List.singleton_inj.1 hlabel
          obtain ⟨rfl, hboth⟩ := ih hr'
          rw [hu] at hu'
          obtain rfl := Option.some.inj hu'
          exact ⟨rfl, hboth.next ⟨ha, ha'⟩ hu⟩

/-- The first step of a run. -/
theorem Run.cons {label : L} (ha : allowed s label) (ht : step s label = some t)
    (h : Run step allowed t labels u) : Run step allowed s (label :: labels) u :=
  Run.trans (Run.next .start ha ht) h

/-- What `run` computes is a run.  Every step of it is allowed, as there is no condition. -/
theorem run_sound : ∀ {labels : List L} {s t : S}, run step s labels = some t →
    Run step (fun _ _ => True) s labels t
  | [], s, t, h => by
      obtain rfl := Option.some.inj h
      exact .start
  | label :: rest, s, t, h => by
      obtain ⟨u, hu, h⟩ := Option.bind_eq_some_iff.1 (h : step s label >>= _ = some t)
      exact .cons trivial hu (run_sound h)

/-- What `checked` computes is a run of allowed steps.  The check of each label was made in the
state before the step. -/
theorem checked_sound {check : S → L → Bool} : ∀ {labels : List L} {s t : S},
    checked step check s labels = some t → Run step (fun s label => check s label) s labels t
  | [], s, t, h => by
      obtain rfl := Option.some.inj h
      exact .start
  | label :: rest, s, t, h => by
      obtain ⟨u, hu, h⟩ := Option.bind_eq_some_iff.1
        (h : (if check s label then step s label else none) >>= _ = some t)
      dsimp only at hu
      split_ifs at hu with hc
      exact .cons hc hu (checked_sound h)

/-! ### Observed runs -/

section

variable {O : Type} (step) (see : S → L → List O)

/-- A step, with a list of what was seen so far. -/
def observed (s : S × List O) (label : L) : Option (S × List O) :=
  (step s.1 label).map fun t => (t, s.2 ++ see s.1 label)

variable {step see}

/-- A step of the observed system is a step of the system, with what was seen of it put at
the end of the list. -/
theorem observed_eq_some {s t : S × List O} {label : L} (h : observed step see s label = some t) :
    step s.1 label = some t.1 ∧ t.2 = s.2 ++ see s.1 label := by
  obtain ⟨u, hu, rfl⟩ := Option.map_eq_some_iff.1 h
  exact ⟨hu, rfl⟩

end

end Transition

end NewtonDB
