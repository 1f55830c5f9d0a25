/-
# Programs beside others

A program that makes its calls on a world it shares.  A call may be answered in more
than one way, and between two of its calls others may change the world.
`Program.Assures` says that, as long as the others only do what they are relied on for
(`Surroundings.rely`), every call the program makes changes the world as it may
(`Surroundings.guarantee`), and that it ends as it should.  It holds of what is left of
a program after each of its calls (`Program.Assures.reply`), and whatever the others do
meanwhile (`Program.Assures.interfere`); so it is an invariant of any interleaving.

`Method.Assures` is a triple for methods, with one rule for each way to put them
together.  `Method.EndsIn` is a triple with one assertion throughout and a property of the
outcome, and `Method.Retains` one with a property of the value that is returned.
-/

import NewtonDB.Lib.Program

namespace NewtonDB

universe u

/-- What a program has around it: the replies to its calls, what it relies on the others
for, and what they rely on it for. -/
structure Surroundings (C : Type → Type u) (ω : Type) where
  reply : {β : Type} → C β → ω → β → ω → Prop
  rely : ω → ω → Prop
  guarantee : ω → ω → Prop

namespace Program

variable {C : Type → Type u} {α β ω : Type} {e : Surroundings C ω} {P : α → ω → Prop}

/-- **Every call changes the world as it may**, and the program ends as it should. -/
def Assures (e : Surroundings C ω) (P : α → ω → Prop) : Program C α → ω → Prop
  | .pure a, w => P a w
  | .call request next, w => ∀ w₁, e.rely w w₁ → ∀ b w₂, e.reply request w₁ b w₂ →
      e.guarantee w₁ w₂ ∧ Assures e P (next b) w₂

/-- What a call leaves of a program is as good as the program. -/
theorem Assures.reply (hrefl : ∀ w, e.rely w w) {request : C β} {next : β → Program C α}
    {w w' : ω} {b : β} (h : Assures e P (.call request next) w) (hb : e.reply request w b w') :
    e.guarantee w w' ∧ Assures e P (next b) w' := h w (hrefl w) b w' hb

/-- **Others may change the world** before a program goes on.  What is assured of the end must
be stable, and so must be the rely. -/
theorem Assures.interfere (htrans : ∀ w₁ w₂ w₃, e.rely w₁ w₂ → e.rely w₂ w₃ → e.rely w₁ w₃)
    (hP : ∀ a w w', P a w → e.rely w w' → P a w') {p : Program C α} {w w' : ω}
    (h : Assures e P p w) (hw : e.rely w w') : Assures e P p w' := by
  cases p with
  | pure a => exact hP a w w' h hw
  | call request next => exact fun w₁ hw₁ => h w₁ (htrans w w' w₁ hw hw₁)

/-- What is assured may be weakened.  The environment is the same; only what is said of the
result is less. -/
theorem Assures.mono {Q : α → ω → Prop} (hPQ : ∀ a w, P a w → Q a w) {p : Program C α} {w : ω}
    (h : Assures e P p w) : Assures e Q p w := by
  induction p generalizing w with
  | pure a => exact hPQ a w h
  | call request next ih =>
      intro w₁ hw₁ b w₂ hb
      obtain ⟨hg, hnext⟩ := h w₁ hw₁ b w₂ hb
      exact ⟨hg, ih b hnext⟩

/-- One program after another.  The environment may step between the two, which the first part's
assurance has room for. -/
theorem Assures.bind {Q : β → ω → Prop} {p : Program C α} {f : α → Program C β} {w : ω}
    (h : Assures e (fun a w => Assures e Q (f a) w) p w) : Assures e Q (p >>= f) w := by
  show Assures e Q (p.bind f) w
  induction p generalizing w with
  | pure a => exact h
  | call request next ih =>
      intro w₁ hw₁ b w₂ hb
      obtain ⟨hg, hnext⟩ := h w₁ hw₁ b w₂ hb
      exact ⟨hg, ih b hnext⟩

end Program

namespace Method

variable {C : Type → Type u} {σ ε ω α β : Type} {e : Surroundings C ω}

/-- **A method that starts with `I` ends with `P`**, and every call it makes changes the
world as it may. -/
def Assures (e : Surroundings C ω) (I : σ → ω → Prop) (m : Method C σ ε α)
    (P : Except ε α → σ → ω → Prop) : Prop :=
  ∀ s w, I s w → Program.Assures e (fun left w => P left.1 left.2 w) (m.run.run s) w

namespace Assures

variable {I : σ → ω → Prop} {P : Except ε α → σ → ω → Prop} {Q : Except ε β → σ → ω → Prop}

/-- To return assures what follows from the invariant as it is. -/
theorem pure {a : α} (h : ∀ s w, I s w → P (.ok a) s w) :
    Assures e I (Pure.pure a : Method C σ ε α) P := h

/-- To throw assures what follows from the invariant as it is. -/
theorem throw {error : ε} (h : ∀ s w, I s w → P (.error error) s w) :
    Assures e I (MonadExcept.throw error : Method C σ ε α) P := h

/-- To read the fields assures what holds of them. -/
theorem read {P : Except ε σ → σ → ω → Prop} (h : ∀ s w, I s w → P (.ok s) s w) :
    Assures e I (get : Method C σ ε σ) P := h

/-- To change the fields assures what holds of the changed fields. -/
theorem update {f : σ → σ} {P : Except ε PUnit → σ → ω → Prop}
    (h : ∀ s w, I s w → P (.ok ⟨⟩) (f s) w) :
    Assures e I (modify f : Method C σ ε PUnit) P := h

/-- Nothing follows what is thrown. -/
theorem throwThen {error : ε} {f : α → Method C σ ε β}
    (h : ∀ s w, I s w → Q (.error error) s w) :
    Assures e I ((MonadExcept.throw error : Method C σ ε α) >>= f) Q := h

/-- What follows once the fields were read. -/
theorem readThen {f : σ → Method C σ ε β}
    (h : ∀ s₀, Assures e (fun s w => s = s₀ ∧ I s w) (f s₀) Q) : Assures e I (get >>= f) Q :=
  fun s w hI => h s s w ⟨rfl, hI⟩

/-- What follows once the fields were changed. -/
theorem updateThen {g : σ → σ} {f : PUnit → Method C σ ε β} {J : σ → ω → Prop}
    (h : ∀ s w, I s w → J (g s) w) (hf : Assures e J (f ⟨⟩) Q) :
    Assures e I (modify g >>= f) Q := fun s w hI => hf (g s) w (h s w hI)

/-- The rule for a call: the others were there before it. -/
theorem call {c : C β} (h : ∀ s w w₁ b w₂, I s w → e.rely w w₁ → e.reply c w₁ b w₂ →
      e.guarantee w₁ w₂ ∧ Q (.ok b) s w₂) : Assures e I (request c : Method C σ ε β) Q :=
  fun s w hI w₁ hw₁ b w₂ hb => h s w w₁ b w₂ hI hw₁ hb

/-- A stronger start and a weaker end. -/
theorem consequence {I' : σ → ω → Prop} {P' : Except ε α → σ → ω → Prop} {m : Method C σ ε α}
    (hm : Assures e I m P) (hI : ∀ s w, I' s w → I s w)
    (hP : ∀ outcome s w, P outcome s w → P' outcome s w) : Assures e I' m P' :=
  fun s w h => (hm s w (hI s w h)).mono fun left w hl => hP left.1 left.2 w hl

/-- A method after another: what is thrown goes on.  The second method starts from the fields
that the first one left. -/
theorem bind {m : Method C σ ε α} {f : α → Method C σ ε β} (hm : Assures e I m P)
    (hf : ∀ a, Assures e (P (.ok a)) (f a) Q)
    (he : ∀ error s w, P (.error error) s w → Q (.error error) s w) :
    Assures e I (m >>= f) Q := by
  intro s w hI
  refine Program.Assures.bind (p := m.run.run s) ((hm s w hI).mono fun left w hl => ?_)
  obtain ⟨outcome, s'⟩ := left
  cases outcome with
  | error error => exact he error s' w hl
  | ok a => exact hf a s' w hl

/-- `attempt` assures of an error, as a value, what its body assures of the error. -/
theorem attempt {m : Method C σ ε α} {P : Except ε (Except ε α) → σ → ω → Prop}
    (hm : Assures e I m fun outcome s w => P (.ok outcome) s w) :
    Assures e I (Method.attempt m) P := fun s w hI =>
  Program.Assures.bind (p := m.run.run s) (hm s w hI)

/-- What follows an attempt.  The attempt itself throws nothing, so there is one case for what
follows. -/
theorem attemptThen {m : Method C σ ε α} {f : Except ε α → Method C σ ε β} (hm : Assures e I m P)
    (hf : ∀ outcome, Assures e (P outcome) (f outcome) Q) :
    Assures e I (Method.attempt m >>= f) Q := by
  refine bind (P := fun outcome s w => ∃ left, outcome = .ok left ∧ P left s w)
    (attempt (consequence hm (fun _ _ h => h) fun outcome _ _ h => ⟨outcome, rfl, h⟩))
    (fun outcome s w h => ?_) fun error s w h => ?_
  · obtain ⟨left, he, h⟩ := h
    cases he
    exact hf outcome s w h
  · obtain ⟨_, he, -⟩ := h
    cases he

/-- A handler of what was thrown.  It starts in the state in which the error was thrown. -/
theorem handle {m : Method C σ ε α} {handler : ε → Method C σ ε α}
    {R : Except ε α → σ → ω → Prop} (hm : Assures e I m R)
    (hok : ∀ a s w, R (.ok a) s w → P (.ok a) s w)
    (hh : ∀ error, Assures e (R (.error error)) (handler error) P) :
    Assures e I (tryCatch m handler) P := by
  intro s w hI
  refine Program.Assures.bind (p := m.run.run s) ((hm s w hI).mono fun left w hl => ?_)
  obtain ⟨outcome, s'⟩ := left
  cases outcome with
  | error error => exact hh error s' w hl
  | ok a => exact hok a s' w hl

/-- A choice assures what both branches do, each where it is taken. -/
theorem ite {c : Prop} [Decidable c] {m m' : Method C σ ε α} (hm : c → Assures e I m P)
    (hm' : ¬c → Assures e I m' P) : Assures e I (if c then m else m') P := by
  split
  · next hc => exact hm hc
  · next hc => exact hm' hc

end Assures

/-- **An assertion is kept throughout**, and the outcome is as it should be. -/
def EndsIn (e : Surroundings C ω) (I : σ → ω → Prop) (m : Method C σ ε α)
    (R : Except ε α → Prop) : Prop :=
  Assures e I m fun outcome s w => I s w ∧ R outcome

namespace EndsIn

variable {I : σ → ω → Prop} {R : Except ε α → Prop} {R' : Except ε β → Prop}

/-- To return ends in any state that the value allows. -/
theorem pure {a : α} (h : R (.ok a)) : EndsIn e I (Pure.pure a : Method C σ ε α) R :=
  Assures.pure fun _ _ hI => ⟨hI, h⟩

/-- To throw ends in any state that the error allows. -/
theorem throw {error : ε} (h : R (.error error)) :
    EndsIn e I (MonadExcept.throw error : Method C σ ε α) R :=
  Assures.throw fun _ _ hI => ⟨hI, h⟩

/-- **Two parts end, one after the other,** in what the second ends in, or in the error of the
first, if that is allowed. -/
theorem bind {m : Method C σ ε α} {f : α → Method C σ ε β} (hm : EndsIn e I m R)
    (hf : ∀ a, R (.ok a) → EndsIn e I (f a) R') (he : ∀ error, R (.error error) → R' (.error error)) :
    EndsIn e I (m >>= f) R' :=
  Assures.bind hm (fun a s w h => hf a h.2 s w h.1) fun error _ _ h => ⟨h.1, he error h.2⟩

/-- What follows an attempt. -/
theorem attemptThen {m : Method C σ ε α} {f : Except ε α → Method C σ ε β} (hm : EndsIn e I m R)
    (hf : ∀ outcome, R outcome → EndsIn e I (f outcome) R') : EndsIn e I (Method.attempt m >>= f) R' :=
  Assures.attemptThen hm fun outcome s w h => hf outcome h.2 s w h.1

/-- A choice ends in what both branches end in, each where it is taken. -/
theorem ite {c : Prop} [Decidable c] {m m' : Method C σ ε α} (hm : c → EndsIn e I m R)
    (hm' : ¬c → EndsIn e I m' R) : EndsIn e I (if c then m else m') R := Assures.ite hm hm'

end EndsIn

/-- **An assertion is kept throughout**, and a value that is returned has a property. -/
def Retains (e : Surroundings C ω) (I : σ → ω → Prop) (m : Method C σ ε α) (P : α → Prop) : Prop :=
  Assures e I m fun outcome s w => I s w ∧ ∀ a, outcome = .ok a → P a

namespace Retains

variable {I : σ → ω → Prop} {P : α → Prop} {Q : β → Prop}

/-- To return keeps the invariant against the others. -/
theorem pure {a : α} (ha : P a) : Retains e I (Pure.pure a : Method C σ ε α) P :=
  Assures.pure fun _ _ hI => ⟨hI, fun _ he => Except.ok.inj he ▸ ha⟩

/-- To throw keeps the invariant against the others. -/
theorem throw (error : ε) : Retains e I (MonadExcept.throw error : Method C σ ε α) P :=
  Assures.throw fun _ _ hI => ⟨hI, fun _ he => by cases he⟩

/-- To read the fields keeps the invariant against the others. -/
theorem read : Retains e I (get : Method C σ ε σ) fun _ => True :=
  Assures.read fun _ _ hI => ⟨hI, fun _ _ => trivial⟩

/-- What is known of the fields is known of those that are read. -/
theorem readOf {P : σ → Prop} (h : ∀ s w, I s w → P s) : Retains e I (get : Method C σ ε σ) P :=
  Assures.read fun s w hI => ⟨hI, fun _ he => Except.ok.inj he ▸ h s w hI⟩

/-- What stands behind a `throw` is never run, so that nothing is asked of it. -/
theorem throwThen (error : ε) {f : α → Method C σ ε β} :
    Retains e I ((MonadExcept.throw error : Method C σ ε α) >>= f) Q :=
  Assures.throwThen fun _ _ hI => ⟨hI, fun _ he => by cases he⟩

/-- To change the fields keeps the invariant against the others if the change does. -/
theorem update {f : σ → σ} (hf : ∀ s w, I s w → I (f s) w) :
    Retains e I (modify f : Method C σ ε PUnit) fun _ => True :=
  Assures.update fun s w hI => ⟨hf s w hI, fun _ _ => trivial⟩

/-- A promise about the value may be weakened. -/
theorem weaken {m : Method C σ ε α} {P' : α → Prop} (hm : Retains e I m P)
    (hP : ∀ a, P a → P' a) : Retains e I m P' :=
  Assures.consequence hm (fun _ _ hI => hI) fun _ _ _ h => ⟨h.1, fun a he => hP a (h.2 a he)⟩

/-- **Two parts that keep the invariant against the others** keep it one after the other.
Between the two the others may run, which is why the invariant must be stable. -/
theorem bind {m : Method C σ ε α} {f : α → Method C σ ε β} (hm : Retains e I m P)
    (hf : ∀ a, P a → Retains e I (f a) Q) : Retains e I (m >>= f) Q :=
  Assures.bind hm (fun a s w h => hf a (h.2 a rfl) s w h.1)
    fun _ _ _ h => ⟨h.1, fun _ he => by cases he⟩

/-- A choice keeps the invariant against the others if both branches do, each where it is
taken. -/
theorem ite {c : Prop} [Decidable c] {m m' : Method C σ ε α} (hm : c → Retains e I m P)
    (hm' : ¬c → Retains e I m' P) : Retains e I (if c then m else m') P := Assures.ite hm hm'

/-- `attempt` keeps what its body keeps, and promises of a value what its body does. -/
theorem attempt {m : Method C σ ε α} (hm : Retains e I m P) :
    Retains e I (Method.attempt m) fun outcome => ∀ a, outcome = .ok a → P a :=
  Assures.attempt (Assures.consequence hm (fun _ _ hI => hI) fun _ _ _ h =>
    ⟨h.1, fun _ he a ha => h.2 a (Except.ok.inj he ▸ ha)⟩)

/-- A `try` keeps the invariant against the others if its body and its handler do. -/
theorem handle {m : Method C σ ε α} {handler : ε → Method C σ ε α} (hm : Retains e I m P)
    (hh : ∀ error, Retains e I (handler error) P) : Retains e I (tryCatch m handler) P :=
  Assures.handle hm (fun _ _ _ h => h) fun error s w h => hh error s w h.1

end Retains

end Method

end NewtonDB
