/-
# The scalars of a query

The parser of `src/query.ts` spends the bytes of the scalars it comes to (`Spends`): those
of the names in a path and those of the operand.
-/

import NewtonDB.Lib.Runs
import NewtonDB.QueryGrammar

namespace NewtonDB

/-! ### Scalars -/

/-- The bytes still fit. -/
def ParseState.Ok (s : ParseState) : Prop :=
  s.scalarBytes ≤ defaultQueryLimits.maxTotalScalarBytes

/-- Bytes are spent on scalars. -/
structure Spends (s : ParseState) (bytes : List ℕ) (s' : ParseState) : Prop where
  each : ∀ n ∈ bytes, n ≤ defaultQueryLimits.maxScalarBytes
  all : s.scalarBytes + bytes.sum ≤ defaultQueryLimits.maxTotalScalarBytes
  eq : s' = { s with scalarBytes := s.scalarBytes + bytes.sum }

variable {s s' s'' : ParseState} {bytes bytes' : List ℕ} {location : JsString}

/-- To count no scalar changes nothing, within the limit. -/
theorem spends_nil (hs : s.Ok) : Spends s [] s' ↔ s = s' :=
  ⟨fun h => h.eq.symm, fun h => ⟨fun _ hn => (by cases hn), hs, h.symm⟩⟩

/-- What was counted is within the limit. -/
theorem Spends.ok (h : Spends s bytes s') : s'.Ok := by
  rw [h.eq]
  exact h.all

/-- **Scalars are counted one after the other**, through a state between two lists of them.
What each may cost is checked on its own, and the sum at the end. -/
theorem spends_append :
    Spends s (bytes ++ bytes') s'' ↔ ∃ s', Spends s bytes s' ∧ Spends s' bytes' s'' := by
  constructor
  · rintro ⟨heach, hall, rfl⟩
    rw [List.sum_append] at hall
    refine ⟨_, ⟨fun n hn => heach n (List.mem_append_left _ hn), by omega, rfl⟩,
      fun n hn => heach n (List.mem_append_right _ hn), ?_, ?_⟩
    · dsimp only
      omega
    · rw [List.sum_append, Nat.add_assoc]
  · rintro ⟨s', ⟨heach, hall, rfl⟩, heach', hall', rfl⟩
    refine ⟨fun n hn => (List.mem_append.1 hn).elim (heach n) (heach' n), ?_, ?_⟩
    · rw [List.sum_append, ← Nat.add_assoc]
      exact hall'
    · rw [List.sum_append, ← Nat.add_assoc]

/-- One scalar is counted when it is short enough and there is room for it. -/
theorem spends_singleton {n : ℕ} : Spends s [n] s' ↔ n ≤ defaultQueryLimits.maxScalarBytes ∧
    s.scalarBytes + n ≤ defaultQueryLimits.maxTotalScalarBytes ∧
    s' = { s with scalarBytes := s.scalarBytes + n } :=
  ⟨fun h => ⟨h.each n (List.mem_singleton_self n), h.all, h.eq⟩, fun ⟨heach, hall, heq⟩ =>
    ⟨fun _ hm => (List.mem_singleton.1 hm) ▸ heach, hall, heq⟩⟩

/-- What throws has no successful run. -/
theorem not_runs_failQuery {α : Type} {issue : QueryValidationIssue} {a : α} :
    ¬Runs (failQuery issue location) s a s' := by
  unfold failQuery
  rw [runs_throw]
  exact id

/-- **A scalar spends its bytes.**  It must be short enough, and so must all of them
together. -/
theorem runs_consumeScalar {n : ℕ} {u : Unit} :
    Runs (consumeScalar defaultQueryLimits n location) s u s' ↔ Spends s [n] s' := by
  rw [spends_singleton]
  unfold consumeScalar
  rw [runs_check fun _ _ _ => not_runs_failQuery, not_lt]
  refine and_congr_right fun _ => ?_
  simp only [runs_bind, runs_modify, runs_get, runs_ite, runs_pure]
  constructor
  · rintro ⟨_, _, rfl, _, _, ⟨rfl, rfl⟩, ⟨-, hfail⟩ | ⟨hall, -, rfl⟩⟩
    · exact absurd hfail not_runs_failQuery
    · exact ⟨not_lt.1 hall, rfl⟩
  · rintro ⟨hall, rfl⟩
    exact ⟨(), _, rfl, _, _, ⟨rfl, rfl⟩, .inr ⟨not_lt.2 hall, trivial, rfl⟩⟩

/-- What stands behind a throw has no run. -/
theorem not_runs_failQuery_bind {α β : Type} {issue : QueryValidationIssue} {f : α → ParseM β}
    {b : β} : ¬Runs (failQuery issue location >>= f) s b s' := fun h => by
  obtain ⟨_, _, hrun, _⟩ := runs_bind.1 h
  exact not_runs_failQuery hrun

/-- A loop over scalars spends the bytes of each.  By recursion on the list, with what is spent
in between as the state. -/
theorem runsAll_consume {α : Type} {f : α → ParseM Unit} (cost : α → List ℕ) :
    ∀ {l : List α} {s s' : ParseState},
      (∀ a ∈ l, ∀ s u s', s.Ok → (Runs (f a) s u s' ↔ Spends s (cost a) s')) → s.Ok →
      (RunsAll f l s (l.map fun _ => ()) s' ↔ Spends s (l.flatMap cost) s')
  | [], s, s', _, hs => by
      rw [List.flatMap_nil, spends_nil hs]
      exact and_iff_right rfl
  | a :: l, s, s', hf, hs => by
      have hrest := fun b hb => hf b (List.mem_cons_of_mem a hb)
      rw [List.flatMap_cons, spends_append]
      constructor
      · rintro ⟨_, s₁, rest, hstep, hall, heq⟩
        obtain rfl := (List.cons.inj heq).2
        have hspend := (hf a (List.mem_cons_self ..) _ _ _ hs).1 hstep
        exact ⟨s₁, hspend, (runsAll_consume cost hrest hspend.ok).1 hall⟩
      · rintro ⟨s₁, hspend, hall⟩
        exact ⟨(), s₁, _, (hf a (List.mem_cons_self ..) _ _ _ hs).2 hspend,
          (runsAll_consume cost hrest hspend.ok).2 hall, rfl⟩

/-! ### Paths -/

/-- The scalars of a path. -/
def tokenBytes : PathToken → List ℕ
  | .name s => [utf8Length (quote s)]
  | .index _ => []

/-- The bytes of a path are those of its tokens, wherever the numbering starts. -/
theorem pathBytes_eq (path : PropertyPath) (index : ℕ) :
    (path.zipIdx index).flatMap (fun entry => tokenBytes entry.1) = pathBytes path := by
  induction path generalizing index with
  | nil => rfl
  | cons token path ih =>
      rw [List.zipIdx_cons, List.flatMap_cons, ih]
      cases token <;> rfl

/-- The loop over the strings of a path.  A number among the tokens costs nothing. -/
theorem runs_pathScalars {path : PropertyPath} {u : PUnit} (hs : s.Ok) :
    Runs (forIn path.zipIdx PUnit.unit fun x (_ : PUnit) =>
      match x.1 with
      | PathToken.name name => do
          consumeScalar defaultQueryLimits (utf8Length (quote name)) (location ++ js "/" ++
            natText x.2)
          pure (ForInStep.yield PUnit.unit)
      | PathToken.index _ => pure (ForInStep.yield PUnit.unit) : ParseM PUnit) s u s' ↔
      Spends s (pathBytes path) s' := by
  rw [runs_forIn (g := fun x : PathToken × ℕ =>
      match x.1 with
      | PathToken.name name => consumeScalar defaultQueryLimits (utf8Length (quote name))
          (location ++ js "/" ++ natText x.2)
      | PathToken.index _ => pure ()) ?_,
    runsAll_consume (fun entry => tokenBytes entry.1) ?_ hs, pathBytes_eq]
  · rintro ⟨token, index⟩ - s u s' hs
    cases token with
    | name name => exact runs_consumeScalar
    | index n => exact runs_pure.trans ((and_iff_right rfl).trans (spends_nil hs).symm)
  · rintro ⟨token, index⟩
    cases token <;> rfl

/-! ### Operands -/

/-- A list of primitives that is not too long is read as the operand of `in`.  The bound is that
of the parser and of the schema. -/
theorem readOperand_in {items : List Json} {value : QueryValue} :
    readOperand .in (.arr items) = some value ↔ items.length ≤ 10000 ∧
      ∃ ps, items.mapM Json.prim? = some ps ∧ .set (ps.map some) = value := by
  rw [readOperand]
  split_ifs with h
  · rw [Option.map_eq_some_iff]
    exact (and_iff_right h).symm
  · exact iff_of_false (fun hc => by cases hc) fun hc => h hc.1

end NewtonDB
