/-
# Computations that fail

What a successful run of a bind, a map or a traversal in `Except` says about its
parts.
-/

import Mathlib.Data.List.Forall2

namespace NewtonDB

variable {ε α β : Type*}

/-- A bind succeeds when both parts do. -/
theorem bind_eq_ok {α β : Type u} {x : Except ε α} {f : α → Except ε β} {b : β} :
    x >>= f = .ok b ↔ ∃ a, x = .ok a ∧ f a = .ok b := by
  cases x <;> simp [bind, Except.bind]

/-- A map succeeds when its argument does. -/
theorem map_eq_ok {x : Except ε α} {f : α → β} {b : β} :
    x.map f = .ok b ↔ ∃ a, x = .ok a ∧ f a = b := by
  cases x <;> simp [Except.map]

/-- A map fails as its argument does. -/
theorem map_eq_error {x : Except ε α} {f : α → β} {e : ε} :
    x.map f = .error e ↔ x = .error e := by
  cases x <;> simp [Except.map]

/-- A computation whose success is decided gives a value. -/
theorem exists_of_isOk {x : Except ε α} (h : x.isOk = true) : ∃ a, x = .ok a := by
  cases x with
  | error e => cases h
  | ok a => exact ⟨a, rfl⟩

/-- A loop without results succeeds when every turn does.  By induction on the list, one turn at
a time. -/
theorem forM_eq_ok {α : Type u} {f : α → Except ε PUnit.{v + 1}} {l : List α} :
    l.forM f = .ok ⟨⟩ ↔ ∀ a ∈ l, f a = .ok ⟨⟩ := by
  induction l with
  | nil => exact ⟨fun _ => by simp, fun _ => rfl⟩
  | cons a l ih =>
      rw [List.forall_mem_cons, ← ih]
      show f a >>= (fun _ => l.forM f) = _ ↔ _
      rw [bind_eq_ok]
      exact ⟨fun ⟨_, ha, hl⟩ => ⟨ha, hl⟩, fun ⟨ha, hl⟩ => ⟨_, ha, hl⟩⟩

/-- What is a value as an option is that value. -/
theorem eq_ok_of_toOption {x : Except ε α} {a : α} (h : x.toOption = some a) :
    x = .ok a := by
  cases x with
  | error e => cases h
  | ok b => exact congrArg _ (Option.some.inj h)

/-- A traversal finds something when it does at every element.  The list that is found has the
elements found, one for one. -/
theorem mapM_eq_some {α β : Type u} {f : α → Option β} : ∀ {l : List α} {l' : List β},
    l.mapM f = some l' ↔ List.Forall₂ (fun a b => f a = some b) l l'
  | [], l' => by
      rw [List.mapM_nil, List.forall₂_nil_left_iff]
      exact ⟨fun h => (Option.some.inj h).symm, fun h => h ▸ rfl⟩
  | a :: l, l' => by
      rw [List.mapM_cons, List.forall₂_cons_left_iff]
      constructor
      · intro h
        obtain ⟨b, hb, h⟩ := Option.bind_eq_some_iff.1 h
        obtain ⟨rest, hrest, h⟩ := Option.bind_eq_some_iff.1 h
        exact ⟨b, rest, hb, mapM_eq_some.1 hrest, (Option.some.inj h).symm⟩
      · rintro ⟨b, rest, hb, hrest, rfl⟩
        rw [hb, mapM_eq_some.2 hrest]
        rfl

/-- A map over a list has a result exactly when it has one at every element.  The results are
collected from the first element on. -/
theorem exists_mapM_eq_some {α β : Type u} {f : α → Option β} {l : List α} :
    (∃ l', l.mapM f = some l') ↔ ∀ a ∈ l, ∃ b, f a = some b := by
  simp only [mapM_eq_some]
  induction l with
  | nil => exact iff_of_true ⟨[], .nil⟩ fun a ha => by cases ha
  | cons a l ih =>
      rw [List.forall_mem_cons, ← ih]
      constructor
      · rintro ⟨_, h⟩
        obtain ⟨b, rest, hb, hrest, -⟩ := List.forall₂_cons_left_iff.1 h
        exact ⟨⟨b, hb⟩, rest, hrest⟩
      · rintro ⟨⟨b, hb⟩, rest, hrest⟩
        exact ⟨b :: rest, .cons hb hrest⟩

end NewtonDB
