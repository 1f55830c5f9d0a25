/-
# Programs that make calls

A program returns a value, or makes a call and goes on with the reply.  It is a tree,
so the same program can be run alone against a handler of its calls
(`Program.run`), or one call at a time beside others.

A `Method` is a program with fields of its own that may throw; what it did to its
fields stays when it throws.  `Method.exec` runs one against a handler.  There is one
equation for each way to put methods together, and one rule (`Method.Preserves`) for what
a method preserves while it runs and what is true of the value it returns.
-/

import Mathlib.Logic.Basic

namespace NewtonDB

universe u

/-- A program with calls `C β`, each with a reply of type `β`. -/
inductive Program (C : Type → Type u) (α : Type) : Type (max 1 u) where
  | pure (value : α)
  | call {β : Type} (request : C β) (next : β → Program C α)

/-- What answers calls, with a state of its own. -/
structure Handler (C : Type → Type u) (ω : Type) where
  reply : {β : Type} → C β → ω → β × ω

namespace Program

variable {C : Type → Type u} {α β γ ω : Type}

/-- One program after another. -/
def bind : Program C α → (α → Program C β) → Program C β
  | .pure value, f => f value
  | .call request next, f => .call request fun b => (next b).bind f

instance : Monad (Program C) where
  pure := .pure
  bind := bind

/-- One call. -/
def request (c : C β) : Program C β := .call c .pure

/-- Run a program against a handler. -/
def run (h : Handler C ω) : Program C α → ω → α × ω
  | .pure value, w => (value, w)
  | .call request next, w => run h (next (h.reply request w).1) (h.reply request w).2

/-- A program that only returns leaves the world as it is. -/
@[simp] theorem run_pure (h : Handler C ω) (a : α) (w : ω) :
    run h (Pure.pure a : Program C α) w = (a, w) := rfl

/-- A request is answered by the handler in the world it meets. -/
@[simp] theorem run_request (h : Handler C ω) (c : C β) (w : ω) :
    run h (request c) w = h.reply c w := rfl

/-- A sequence runs its parts one after the other. -/
theorem run_bind (h : Handler C ω) (p : Program C α) (f : α → Program C β) (w : ω) :
    run h (p >>= f) w = run h (f (run h p w).1) (run h p w).2 := by
  show run h (p.bind f) w = _
  induction p generalizing w with
  | pure value => rfl
  | call request next ih => exact ih _ _

/-- **What every call preserves, every program preserves.**  By induction on the program. -/
theorem run_invariant {h : Handler C ω} {I : ω → Prop}
    (hI : ∀ {β : Type} (c : C β) (w : ω), I w → I (h.reply c w).2) (p : Program C α) {w : ω}
    (hw : I w) : I (run h p w).2 := by
  induction p generalizing w with
  | pure value => exact hw
  | call request next ih => exact ih _ (hI request w hw)

end Program

/-- A program with fields `σ` that returns or throws. -/
abbrev Method (C : Type → Type u) (σ ε : Type) := ExceptT ε (StateT σ (Program C))

namespace Method

variable {C : Type → Type u} {σ ε ω α β : Type}

/-- One call of a method. -/
def request (c : C β) : Method C σ ε β := ExceptT.lift (StateT.lift (Program.request c))

/-- The outcome of a method as a value. -/
def attempt (m : Method C σ ε α) : Method C σ ε (Except ε α) := ExceptT.mk do
  let outcome ← m.run
  return .ok outcome

/-- What a run leaves: its outcome, the fields, and the state of the handler. -/
abbrev Left (σ ε ω α : Type) := Except ε α × σ × ω

/-- Run a method against a handler. -/
def exec (h : Handler C ω) (m : Method C σ ε α) (s : σ) (w : ω) : Left σ ε ω α :=
  let left := Program.run h (m.run.run s) w
  (left.1.1, left.1.2, left.2)

variable {h : Handler C ω} {s : σ} {w : ω}

/-- A method that only returns changes neither the fields nor the world. -/
@[simp] theorem exec_pure (a : α) :
    exec h (Pure.pure a : Method C σ ε α) s w = (.ok a, s, w) := rfl

/-- A method that only throws changes neither the fields nor the world. -/
@[simp] theorem exec_throw (e : ε) :
    exec h (throw e : Method C σ ε α) s w = (.error e, s, w) := rfl

/-- To read the fields changes nothing. -/
@[simp] theorem exec_get : exec h (get : Method C σ ε σ) s w = (.ok s, s, w) := rfl

/-- To change the fields leaves the world as it is. -/
@[simp] theorem exec_modify (f : σ → σ) :
    exec h (modify f : Method C σ ε PUnit) s w = (.ok ⟨⟩, f s, w) := rfl

/-- A request leaves the fields as they are, and the handler answers it. -/
@[simp] theorem exec_request (c : C β) :
    exec h (request c : Method C σ ε β) s w = (.ok (h.reply c w).1, s, (h.reply c w).2) := rfl

/-- A method goes on where the first part left, unless that threw.  A throw of the first part is
the result, with the state and the world it left. -/
theorem exec_bind (m : Method C σ ε α) (f : α → Method C σ ε β) :
    exec h (m >>= f) s w =
      match exec h m s w with
      | (.ok a, s', w') => exec h (f a) s' w'
      | (.error e, s', w') => (.error e, s', w') := by
  have hrun : (m >>= f).run.run s = m.run.run s >>= fun left =>
      (ExceptT.bindCont f left.1).run left.2 := rfl
  rw [exec, exec, hrun, Program.run_bind]
  generalize Program.run h (m.run.run s) w = left
  obtain ⟨⟨e | a, s'⟩, w'⟩ := left
  · rfl
  · rfl

/-- **After a part that returns, the rest goes on** from the fields and the world that the part
left. -/
theorem exec_bind_ok {m : Method C σ ε α} {a : α} {s' : σ} {w' : ω}
    (hm : exec h m s w = (.ok a, s', w')) (f : α → Method C σ ε β) :
    exec h (m >>= f) s w = exec h (f a) s' w' := by
  rw [exec_bind, hm]

/-- **After a part that throws, the rest is not run**, and what the part did to the fields and
the world stays. -/
theorem exec_bind_error {m : Method C σ ε α} {e : ε} {s' : σ} {w' : ω}
    (hm : exec h m s w = (.error e, s', w')) (f : α → Method C σ ε β) :
    exec h (m >>= f) s w = (.error e, s', w') := by
  rw [exec_bind, hm]

/-- A method that returns has returned from its first part.  Otherwise the error of the first
part would be the result. -/
theorem exec_bind_eq_ok {m : Method C σ ε α} {f : α → Method C σ ε β} {b : β} {s' : σ} {w' : ω}
    (hmf : exec h (m >>= f) s w = (.ok b, s', w')) : ∃ a s₁ w₁,
      exec h m s w = (.ok a, s₁, w₁) ∧ exec h (f a) s₁ w₁ = (.ok b, s', w') := by
  rw [exec_bind] at hmf
  generalize exec h m s w = left at hmf
  obtain ⟨e | a, s₁, w₁⟩ := left
  · cases hmf
  · exact ⟨a, s₁, w₁, rfl, hmf⟩

/-- An attempt does what the method does, and does not throw. -/
theorem exec_attempt (m : Method C σ ε α) : exec h (attempt m) s w =
    (.ok (exec h m s w).1, (exec h m s w).2.1, (exec h m s w).2.2) := by
  have hrun : (attempt m).run.run s =
      m.run.run s >>= fun left => Pure.pure (.ok left.1, left.2) := rfl
  rw [exec, hrun, Program.run_bind]
  rfl

/-- `attempt` turns an error into a value and changes nothing else. -/
theorem exec_attempt_of {m : Method C σ ε α} {outcome : Except ε α} {s' : σ} {w' : ω}
    (hm : exec h m s w = (outcome, s', w')) : exec h (attempt m) s w = (.ok outcome, s', w') := by
  rw [exec_attempt, hm]

/-- A handler of errors goes on where the method threw.  The state and the world are those at
the throw; nothing is rolled back. -/
theorem exec_tryCatch (m : Method C σ ε α) (handler : ε → Method C σ ε α) :
    exec h (tryCatch m handler) s w =
      match exec h m s w with
      | (.ok a, s', w') => (.ok a, s', w')
      | (.error e, s', w') => exec h (handler e) s' w' := by
  have hrun : (tryCatch m handler).run.run s = m.run.run s >>= fun left =>
      (match left.1 with
        | .ok a => Pure.pure (.ok a)
        | .error e => (handler e).run : StateT σ (Program C) (Except ε α)).run left.2 := rfl
  rw [exec, exec, hrun, Program.run_bind]
  generalize Program.run h (m.run.run s) w = left
  obtain ⟨⟨e | a, s'⟩, w'⟩ := left
  · rfl
  · rfl

/-- A `try` whose body returns does not run the handler. -/
theorem exec_tryCatch_ok {m : Method C σ ε α} {a : α} {s' : σ} {w' : ω}
    (hm : exec h m s w = (.ok a, s', w')) (handler : ε → Method C σ ε α) :
    exec h (tryCatch m handler) s w = (.ok a, s', w') := by
  rw [exec_tryCatch, hm]

/-- A `try` whose body throws goes on with the handler, from what the body left. -/
theorem exec_tryCatch_error {m : Method C σ ε α} {e : ε} {s' : σ} {w' : ω}
    (hm : exec h m s w = (.error e, s', w')) (handler : ε → Method C σ ε α) :
    exec h (tryCatch m handler) s w = exec h (handler e) s' w' := by
  rw [exec_tryCatch, hm]

/-- **What every call preserves, every method preserves.**  A method is a program that hands its
fields on. -/
theorem exec_invariant {I : ω → Prop}
    (hI : ∀ {β : Type} (c : C β) (w : ω), I w → I (h.reply c w).2) (m : Method C σ ε α)
    (hw : I w) : I (exec h m s w).2.2 :=
  Program.run_invariant hI (m.run.run s) hw

/-! ### What a method preserves -/

/-- **An invariant is preserved**, whether the method returns or throws, and a value that is
returned has a property. -/
def Preserves (h : Handler C ω) (I : σ → ω → Prop) (m : Method C σ ε α) (P : α → Prop) : Prop :=
  ∀ s w, I s w → I (exec h m s w).2.1 (exec h m s w).2.2 ∧ ∀ a, (exec h m s w).1 = .ok a → P a

namespace Preserves

variable {I : σ → ω → Prop} {P : α → Prop} {Q : β → Prop}

/-- To return keeps the invariant. -/
theorem pure {a : α} (ha : P a) : Preserves h I (Pure.pure a : Method C σ ε α) P := fun _ _ hI =>
  ⟨hI, fun _ he => Except.ok.inj he ▸ ha⟩

/-- To throw keeps the invariant, and promises nothing of a value. -/
theorem throw (e : ε) : Preserves h I (MonadExcept.throw e : Method C σ ε α) P := fun _ _ hI =>
  ⟨hI, fun _ he => by cases he⟩

/-- To read the fields keeps the invariant. -/
theorem read : Preserves h I (get : Method C σ ε σ) fun _ => True := fun _ _ hI =>
  ⟨hI, fun _ _ => trivial⟩

/-- To change the fields keeps the invariant if the change does. -/
theorem update {f : σ → σ} (hf : ∀ s w, I s w → I (f s) w) :
    Preserves h I (modify f : Method C σ ε PUnit) fun _ => True := fun s w hI =>
  ⟨hf s w hI, fun _ _ => trivial⟩

/-- A promise about the value may be weakened. -/
theorem weaken {m : Method C σ ε α} {P' : α → Prop} (hm : Preserves h I m P)
    (hP : ∀ a, P a → P' a) : Preserves h I m P' := fun s w hI =>
  ⟨(hm s w hI).1, fun a he => hP a ((hm s w hI).2 a he)⟩

/-- **Two parts that keep the invariant keep it one after the other**; the second may rely on
what the first promised of its value. -/
theorem bind {m : Method C σ ε α} {f : α → Method C σ ε β} (hm : Preserves h I m P)
    (hf : ∀ a, P a → Preserves h I (f a) Q) : Preserves h I (m >>= f) Q := by
  intro s w hI
  obtain ⟨hI', ha⟩ := hm s w hI
  rw [exec_bind]
  generalize exec h m s w = left at hI' ha
  obtain ⟨e | a, s', w'⟩ := left
  · exact ⟨hI', fun _ he => by cases he⟩
  · exact hf a (ha a rfl) s' w' hI'

/-- A choice keeps the invariant if both branches do, each where it is taken. -/
theorem ite {c : Prop} [Decidable c] {m m' : Method C σ ε α} (hm : c → Preserves h I m P)
    (hm' : ¬c → Preserves h I m' P) : Preserves h I (if c then m else m') P := by
  split
  · next hc => exact hm hc
  · next hc => exact hm' hc

/-- `attempt` keeps what its body keeps, and promises of a value what its body does. -/
theorem attempt {m : Method C σ ε α} (hm : Preserves h I m P) :
    Preserves h I (Method.attempt m) fun outcome => ∀ a, outcome = .ok a → P a := by
  intro s w hI
  rw [exec_attempt]
  refine ⟨(hm s w hI).1, fun outcome he a ha => ?_⟩
  obtain rfl := Except.ok.inj he
  exact (hm s w hI).2 a ha

/-- A `try` keeps the invariant if its body and its handler do.  What the body did before it
threw has kept the invariant up to there. -/
theorem handle {m : Method C σ ε α} {handler : ε → Method C σ ε α} (hm : Preserves h I m P)
    (hh : ∀ e, Preserves h I (handler e) P) : Preserves h I (tryCatch m handler) P := by
  intro s w hI
  obtain ⟨hI', ha⟩ := hm s w hI
  rw [exec_tryCatch]
  generalize exec h m s w = left at hI' ha
  obtain ⟨e | a, s', w'⟩ := left
  · exact hh e s' w' hI'
  · exact ⟨hI', ha⟩

end Preserves

end Method

end NewtonDB
