/-
# Computations that return

`Runs m s a s'` says that a computation over a state, started in `s`, returns `a` and
leaves `s'`.  There is one rule for each way to put computations together, so that the
condition under which a computation returns is read off its text.  A loop runs its turns
one after the other (`RunsAll`).
-/

import Mathlib.Data.List.Forall2

namespace NewtonDB

variable {ε σ α β : Type}

/-- A computation returns. -/
def Runs (m : ExceptT ε (StateM σ) α) (s : σ) (a : α) (s' : σ) : Prop :=
  m.run.run s = (.ok a, s')

/-- The turns of a loop return, one after the other. -/
def RunsAll (f : α → ExceptT ε (StateM σ) β) : List α → σ → List β → σ → Prop
  | [], s, bs, s' => bs = [] ∧ s = s'
  | a :: l, s, bs, s' => ∃ b s₁ rest, Runs (f a) s b s₁ ∧ RunsAll f l s₁ rest s' ∧ bs = b :: rest

section

variable {m : ExceptT ε (StateM σ) α} {f : α → ExceptT ε (StateM σ) β} {s s' s'' : σ} {a b : α}
  {e : ε}

/-- To return gives that value and leaves the state. -/
@[simp]
theorem runs_pure : Runs (pure a : ExceptT ε (StateM σ) α) s b s' ↔ a = b ∧ s = s' := by
  refine ⟨fun h => ?_, fun h => by rw [h.1, h.2]; rfl⟩
  obtain ⟨ha, hs⟩ := Prod.mk.inj h
  exact ⟨Except.ok.inj ha, hs⟩

/-- What throws has no successful run. -/
@[simp]
theorem runs_throw : Runs (throw e : ExceptT ε (StateM σ) α) s a s' ↔ False := by
  refine iff_of_false (fun h => ?_) id
  cases (Prod.mk.inj h).1

/-- To read the state gives the state and leaves it. -/
@[simp]
theorem runs_get {t : σ} : Runs (get : ExceptT ε (StateM σ) σ) s t s' ↔ s = t ∧ s = s' := by
  refine ⟨fun h => ?_, fun h => by rw [← h.1, ← h.2]; rfl⟩
  obtain ⟨ha, hs⟩ := Prod.mk.inj h
  exact ⟨Except.ok.inj ha, hs⟩

/-- To change the state leaves the changed state. -/
@[simp]
theorem runs_modify {g : σ → σ} {u : PUnit} :
    Runs (modify g : ExceptT ε (StateM σ) PUnit) s u s' ↔ g s = s' := by
  refine ⟨fun h => (Prod.mk.inj h).2, fun h => ?_⟩
  subst h
  rfl

/-- **Two parts run through a state between them**: the first gives a value there, and the
second goes on with it. -/
@[simp]
theorem runs_bind {b : β} :
    Runs (m >>= f) s b s'' ↔ ∃ a s', Runs m s a s' ∧ Runs (f a) s' b s'' := by
  have hrun : (m >>= f).run.run s = ExceptT.bindCont f (m.run.run s).1 (m.run.run s).2 := rfl
  unfold Runs
  rw [hrun]
  generalize m.run.run s = result
  obtain ⟨e | a, s₁⟩ := result
  · refine iff_of_false (fun h => ?_) fun ⟨a, s', h, _⟩ => ?_
    · cases (Prod.mk.inj h).1
    · cases (Prod.mk.inj h).1
  · refine ⟨fun h => ⟨a, s₁, rfl, h⟩, fun ⟨a', s', h, hf⟩ => ?_⟩
    obtain ⟨ha, rfl⟩ := Prod.mk.inj h
    obtain rfl := Except.ok.inj ha
    exact hf

/-- A branch. -/
theorem runs_ite {c : Prop} [Decidable c] {m' : ExceptT ε (StateM σ) α} :
    Runs (if c then m else m') s a s' ↔ (c ∧ Runs m s a s') ∨ (¬c ∧ Runs m' s a s') := by
  by_cases h : c <;> simp [h]

/-- A check that fails before the rest goes on. -/
theorem runs_check {c : Prop} [Decidable c] {fail : ExceptT ε (StateM σ) Unit}
    {k : Unit → ExceptT ε (StateM σ) α} (hfail : ∀ s u s', ¬Runs fail s u s') :
    Runs (if c then fail >>= k else k ()) s a s' ↔ ¬c ∧ Runs (k ()) s a s' := by
  rw [runs_ite, runs_bind]
  refine or_iff_right fun ⟨_, u, s₁, h, _⟩ => hfail s u s₁ h

/-- A map over a list runs element by element, each from the state the one before it left.  It
is the form in which a loop is taken apart without unfolding `mapM`. -/
@[simp]
theorem runs_mapM {l : List α} : ∀ {s : σ} {bs : List β} {s' : σ},
    Runs (l.mapM f) s bs s' ↔ RunsAll f l s bs s' := by
  induction l with
  | nil =>
      intro s bs s'
      rw [List.mapM_nil, runs_pure, RunsAll]
      exact and_congr_left' eq_comm
  | cons a l ih =>
      intro s bs s'
      rw [List.mapM_cons, runs_bind, RunsAll]
      refine exists_congr fun b => exists_congr fun s₁ => ?_
      rw [runs_bind, exists_and_left]
      refine and_congr_right fun _ => ⟨?_, ?_⟩
      · rintro ⟨rest, s₂, hrest, hpure⟩
        obtain ⟨rfl, rfl⟩ := runs_pure.1 hpure
        exact ⟨rest, ih.1 hrest, rfl⟩
      · rintro ⟨rest, hrest, hbs⟩
        exact ⟨rest, s', ih.2 hrest, runs_pure.2 ⟨hbs.symm, rfl⟩⟩

/-- A loop whose turns leave the state alone.  The turns do not see each other, so the results
are those of the elements. -/
theorem runsAll_still {r : α → β → Prop} : ∀ {l : List α} {s : σ} {bs : List β} {s' : σ},
    (∀ a ∈ l, ∀ s b s', Runs (f a) s b s' ↔ r a b ∧ s = s') →
      (RunsAll f l s bs s' ↔ List.Forall₂ r l bs ∧ s = s')
  | [], s, bs, s', _ => by
      rw [RunsAll, List.forall₂_nil_left_iff]
  | a :: l, s, bs, s', hf => by
      have hrest := fun b hb => hf b (List.mem_cons_of_mem a hb)
      rw [RunsAll, List.forall₂_cons_left_iff]
      constructor
      · rintro ⟨b, s₁, rest, hstep, hall, rfl⟩
        obtain ⟨hb, rfl⟩ := (hf a (List.mem_cons_self ..) ..).1 hstep
        obtain ⟨hrests, rfl⟩ := (runsAll_still hrest).1 hall
        exact ⟨⟨b, rest, hb, hrests, rfl⟩, rfl⟩
      · rintro ⟨⟨b, rest, hb, hrests, rfl⟩, hs⟩
        exact ⟨b, s, rest, (hf a (List.mem_cons_self ..) ..).2 ⟨hb, rfl⟩,
          (runsAll_still hrest).2 ⟨hrests, hs⟩, rfl⟩

/-- A loop without results.  The body always goes on, so the loop is a map whose results are
dropped. -/
theorem runs_forIn {body : α → PUnit → ExceptT ε (StateM σ) (ForInStep PUnit)}
    {g : α → ExceptT ε (StateM σ) PUnit}
    (hbody : ∀ a, body a ⟨⟩ = g a >>= fun _ => pure (.yield ⟨⟩)) {l : List α} :
    ∀ {s : σ} {u : PUnit} {s' : σ},
      Runs (forIn l PUnit.unit body) s u s' ↔ RunsAll g l s (l.map fun _ => ⟨⟩) s' := by
  induction l with
  | nil =>
      intro s u s'
      rw [List.forIn_nil, runs_pure]
      exact ⟨fun h => ⟨rfl, h.2⟩, fun h => ⟨rfl, h.2⟩⟩
  | cons a l ih =>
      intro s u s'
      rw [List.forIn_cons, hbody, runs_bind]
      constructor
      · rintro ⟨step, s₁, hstep, hrest⟩
        obtain ⟨_, s₂, hg, hpure⟩ := runs_bind.1 hstep
        obtain ⟨rfl, rfl⟩ := runs_pure.1 hpure
        exact ⟨⟨⟩, s₂, _, hg, ih.1 hrest, rfl⟩
      · rintro ⟨_, s₁, rest, hg, hrest, hbs⟩
        obtain rfl := (List.cons.inj hbs).2
        exact ⟨_, s₁, runs_bind.2 ⟨_, s₁, hg, runs_pure.2 ⟨rfl, rfl⟩⟩, ih.2 hrest⟩

end

end NewtonDB
