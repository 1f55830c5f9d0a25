/-
# The failures of a computation

`FailsWith E` says that whatever a computation fails with is an `E`.  For a
computation over a state that survives a failure, `Keeps I E` says so, and that it
keeps the invariant `I` of the state, whether it returns or fails.  There is one rule
for each way to put computations together.
-/

import Mathlib.Data.List.Basic

namespace NewtonDB

universe u

variable {ε : Type u} {α β : Type u} {E : ε → Prop}

/-- Every failure is of a kind. -/
def FailsWith {ε : Type*} {α : Type*} (E : ε → Prop) (x : Except ε α) : Prop :=
  ∀ e, x = .error e → E e

namespace FailsWith

/-- What succeeds does not fail. -/
theorem ok {ε α : Type*} {E : ε → Prop} (a : α) : FailsWith E (.ok a) := fun _ h => by cases h

/-- A single error fails with what holds of it. -/
theorem error {ε α : Type*} {E : ε → Prop} {e : ε} (h : E e) :
    FailsWith E (.error e : Except ε α) := fun _ he => by
  cases he
  exact h

/-- **Two parts fail with the same errors** if each does, the second on the values of the first.
The second runs from what the first left, and not at all where the first threw. -/
theorem bind {x : Except ε α} {f : α → Except ε β} (hx : FailsWith E x)
    (hf : ∀ a, x = .ok a → FailsWith E (f a)) : FailsWith E (x >>= f) := by
  cases x with
  | error e => exact error (hx e rfl)
  | ok a => exact hf a rfl

/-- A choice fails with the errors of its branches. -/
theorem ite {ε α : Type*} {E : ε → Prop} {c : Prop} [Decidable c] {x y : Except ε α}
    (hx : FailsWith E x) (hy : FailsWith E y) : FailsWith E (if c then x else y) := by
  split
  · exact hx
  · exact hy

/-- A branch in a computation that also leaves something behind. -/
theorem ite_snd {ε α β : Type*} {E : ε → Prop} {c : Prop} [Decidable c] {x y : β × Except ε α}
    (hx : FailsWith E x.2) (hy : FailsWith E y.2) : FailsWith E (if c then x else y).2 := by
  split
  · exact hx
  · exact hy

/-- To change the value does not change the errors. -/
theorem map {ε α β : Type*} {E : ε → Prop} {x : Except ε α} (hx : FailsWith E x) (f : α → β) :
    FailsWith E (x.map f) := by
  cases x with
  | error e => exact error (hx e rfl)
  | ok a => exact ok (f a)

/-- A map over a list fails with the errors at its elements.  It stops at the first that fails,
and the error is that one. -/
theorem mapM {f : α → Except ε β} {l : List α} (h : ∀ a ∈ l, FailsWith E (f a)) :
    FailsWith E (l.mapM f) := by
  induction l with
  | nil => exact ok []
  | cons a l ih =>
      rw [List.mapM_cons]
      exact bind (h a (List.mem_cons_self ..)) fun _ _ =>
        bind (ih fun b hb => h b (List.mem_cons_of_mem _ hb)) fun _ _ => ok _

/-- A check of a list fails with the errors at its elements. -/
theorem forM {f : α → Except ε PUnit.{u + 1}} {l : List α} (h : ∀ a ∈ l, FailsWith E (f a)) :
    FailsWith E (l.forM f) := by
  induction l with
  | nil => exact ok _
  | cons a l ih =>
      exact bind (h a (List.mem_cons_self ..)) fun _ _ =>
        ih fun b hb => h b (List.mem_cons_of_mem _ hb)

/-- A fold over a list fails with the errors of its turns.  The value carried along is
arbitrary, since each turn starts from another one. -/
theorem foldlM {f : β → α → Except ε β} {l : List α} {b : β}
    (h : ∀ b, ∀ a ∈ l, FailsWith E (f b a)) : FailsWith E (l.foldlM f b) := by
  induction l generalizing b with
  | nil => exact ok b
  | cons a l ih =>
      rw [List.foldlM_cons]
      exact bind (h b a (List.mem_cons_self ..)) fun _ _ =>
        ih fun b' a' ha => h b' a' (List.mem_cons_of_mem _ ha)

end FailsWith

/-! ### With a state that survives -/

section

variable {ε σ α β : Type} {I : σ → Prop} {E : ε → Prop}

/-- An invariant of the state is kept, and every failure is of a kind. -/
def Keeps (I : σ → Prop) (E : ε → Prop) (m : ExceptT ε (StateM σ) α) : Prop :=
  ∀ s, I s → I (m.run.run s).2 ∧ FailsWith E (m.run.run s).1

/-- A handler runs in the state that survived.  What the part that failed did to the state is
not undone. -/
theorem run_tryCatch (m : ExceptT ε (StateM σ) α) (handler : ε → ExceptT ε (StateM σ) α) (s : σ) :
    (tryCatch m handler).run.run s = (Except.casesOn (motive := fun _ => ExceptT ε (StateM σ) α)
      (m.run.run s).1 handler Pure.pure).run.run (m.run.run s).2 := by
  have hrun : (tryCatch m handler).run.run s =
      (ExceptT.run (match (m.run.run s).1 with
        | Except.ok a => Pure.pure a
        | Except.error e => handler e)).run (m.run.run s).2 := by
    show (match (m.run.run s).1 with
      | Except.ok a => Pure.pure (Except.ok a)
      | Except.error e => (handler e).run : StateM σ (Except ε α)).run (m.run.run s).2 = _
    cases (m.run.run s).1 <;> rfl
  rw [hrun]
  cases (m.run.run s).1 <;> rfl

namespace Keeps

/-- What keeps an invariant and fails with certain errors does so from every state with the
invariant. -/
theorem failsWith {m : ExceptT ε (StateM σ) α} (h : Keeps I E m) {s : σ} (hs : I s) :
    FailsWith E (m.run.run s).1 := (h s hs).2

/-- Whatever it fails with. -/
theorem anyFailure {m : ExceptT ε (StateM σ) α} (h : Keeps I E m) : Keeps I (fun _ => True) m :=
  fun s hs => ⟨(h s hs).1, fun _ _ => trivial⟩

/-- To return keeps every invariant. -/
theorem pure (a : α) : Keeps I E (Pure.pure a : ExceptT ε (StateM σ) α) := fun _ hs =>
  ⟨hs, .ok a⟩

/-- To throw keeps every invariant, and fails with what holds of the error. -/
theorem throw {e : ε} (h : E e) : Keeps I E (MonadExcept.throw e : ExceptT ε (StateM σ) α) :=
  fun _ hs => ⟨hs, .error h⟩

/-- To read the state keeps every invariant. -/
theorem read : Keeps I E (get : ExceptT ε (StateM σ) σ) := fun s hs => ⟨hs, .ok s⟩

/-- To change the state keeps an invariant that the change keeps. -/
theorem update {f : σ → σ} (h : ∀ s, I s → I (f s)) :
    Keeps I E (modify f : ExceptT ε (StateM σ) PUnit) := fun s hs => ⟨h s hs, .ok _⟩

/-- **Two parts keep an invariant, and fail with certain errors,** if each does.  The second
part starts in the state that the first one left, in which the invariant holds. -/
theorem bind {m : ExceptT ε (StateM σ) α} {f : α → ExceptT ε (StateM σ) β} (hm : Keeps I E m)
    (hf : ∀ a, Keeps I E (f a)) : Keeps I E (m >>= f) := by
  intro s hs
  obtain ⟨hs', he⟩ := hm s hs
  have hrun : (m >>= f).run.run s = ExceptT.bindCont f (m.run.run s).1 (m.run.run s).2 := rfl
  rw [hrun]
  generalize m.run.run s = result at hs' he
  obtain ⟨e | a, s'⟩ := result
  · exact ⟨hs', .error (he e rfl)⟩
  · exact hf a s' hs'

/-- A choice keeps an invariant that both branches keep. -/
theorem ite {c : Prop} [Decidable c] {m m' : ExceptT ε (StateM σ) α} (h : Keeps I E m)
    (h' : Keeps I E m') : Keeps I E (if c then m else m') := by
  split
  · exact h
  · exact h'

/-- A check that fails before the rest goes on. -/
theorem check {c : Prop} [Decidable c] {fail : ExceptT ε (StateM σ) Unit}
    {k : Unit → ExceptT ε (StateM σ) β} (hf : Keeps I E fail) (hk : ∀ u, Keeps I E (k u)) :
    Keeps I E (if c then fail >>= k else k ()) :=
  .ite (hf.bind hk) (hk ())

/-- A map over a list keeps an invariant that its turns keep.  By induction on the list. -/
theorem mapM {f : α → ExceptT ε (StateM σ) β} {l : List α} (h : ∀ a ∈ l, Keeps I E (f a)) :
    Keeps I E (l.mapM f) := by
  induction l with
  | nil => exact pure []
  | cons a l ih =>
      rw [List.mapM_cons]
      exact bind (h a (List.mem_cons_self ..)) fun _ =>
        bind (ih fun b hb => h b (List.mem_cons_of_mem _ hb)) fun _ => pure _

/-- A loop keeps what each turn keeps.  A turn may end the loop, and then the rest is not
run. -/
theorem forIn {f : α → β → ExceptT ε (StateM σ) (ForInStep β)} {l : List α} {b : β}
    (h : ∀ a ∈ l, ∀ b, Keeps I E (f a b)) : Keeps I E (ForIn.forIn l b f) := by
  induction l generalizing b with
  | nil => exact pure b
  | cons a l ih =>
      rw [List.forIn_cons]
      refine bind (h a (List.mem_cons_self ..) b) fun step => ?_
      cases step with
      | done b' => exact pure b'
      | yield b' => exact ih fun a' ha => h a' (List.mem_cons_of_mem _ ha)

/-- A handler sees the state that survived.  The errors of the part it guards need not be those
of the whole. -/
theorem handle {m : ExceptT ε (StateM σ) α} {handler : ε → ExceptT ε (StateM σ) α}
    {E' : ε → Prop} (h : Keeps I E' m) (hh : ∀ e, E' e → Keeps I E (handler e)) :
    Keeps I E (tryCatch m handler) := by
  intro s hs
  obtain ⟨hs', he⟩ := h s hs
  rw [run_tryCatch]
  generalize m.run.run s = result at hs' he
  obtain ⟨e | a, s'⟩ := result
  · exact hh e (he e rfl) s' hs'
  · exact ⟨hs', .ok a⟩

end Keeps

end

end NewtonDB
