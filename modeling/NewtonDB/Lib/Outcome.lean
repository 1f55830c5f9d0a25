/-
# How a computation with a count ends

A computation over a state that survives a failure, where the state counts something the
computation should not do.  `Outcome` says that it ends in one of three ways: it returns
what it should and has not counted, it counts, or it fails and has not counted; and that
conditions on the state before it tell which.  There is a rule for what comes first in a
sequence and one for loops: a loop passes its elements in turn (`PassesAll`), and counts
where one of them counts and those before it are passed (`MeetsAny`).
-/

import NewtonDB.Lib.Fails
import NewtonDB.Lib.Runs
import Mathlib.Order.Basic
import Mathlib.Data.Nat.Basic

namespace NewtonDB

variable {ε σ α β : Type} {count : σ → ℕ}

/-- The count does not go down. -/
def Grows (count : σ → ℕ) (m : ExceptT ε (StateM σ) α) : Prop :=
  ∀ c, Keeps (fun s => c ≤ count s) (fun _ => True) m

/-- A count that grows is no smaller after the run. -/
theorem Grows.le {m : ExceptT ε (StateM σ) α} (h : Grows count m) (s : σ) :
    count s ≤ count (m.run.run s).2 :=
  (h (count s) s le_rfl).1

/-- The count stays. -/
def Still (count : σ → ℕ) (m : ExceptT ε (StateM σ) α) : Prop :=
  ∀ c, Keeps (fun s => count s = c) (fun _ => True) m

/-- A count that stands still is the same after the run. -/
theorem Still.eq {m : ExceptT ε (StateM σ) α} (h : Still count m) (s : σ) :
    count (m.run.run s).2 = count s :=
  (h (count s) s rfl).1

/-- A count that stands still does not go down. -/
theorem Still.grows {m : ExceptT ε (StateM σ) α} (h : Still count m) : Grows count m :=
  fun _ s hs => ⟨hs.trans_eq (h.eq s).symm, fun _ _ => trivial⟩

/-- One of three ways to end. -/
inductive Outcome (count : σ → ℕ) (m : ExceptT ε (StateM σ) α) (s : σ) (passes : α → σ → Prop)
    (meets : Prop) : Prop where
  | returns (a : α) (s' : σ) (run : m.run.run s = (.ok a, s')) (same : count s' = count s)
      (pass : passes a s') (clear : ¬meets)
  | counts (counted : count s < count (m.run.run s).2) (meet : meets)
  | refuses (e : ε) (s' : σ) (run : m.run.run s = (.error e, s')) (same : count s' = count s)
      (stop : ∀ a s', ¬passes a s') (clear : ¬meets)

/-- Each element is passed, in turn. -/
def PassesAll (passes : α → σ → β → σ → Prop) : List α → σ → List β → σ → Prop
  | [], s, bs, s' => bs = [] ∧ s' = s
  | x :: l, s, bs, s' =>
      ∃ b s₁ rest, passes x s b s₁ ∧ PassesAll passes l s₁ rest s' ∧ bs = b :: rest

/-- An element is met, after those before it are passed. -/
def MeetsAny (passes : α → σ → β → σ → Prop) (meets : α → σ → Prop) : List α → σ → Prop
  | [], _ => False
  | x :: l, s => meets x s ∨ ∃ b s₁, passes x s b s₁ ∧ MeetsAny passes meets l s₁

/-- What is passed is passed in one way. -/
def OneWay (passes : α → σ → Prop) : Prop :=
  ∀ a s a' s', passes a s → passes a' s' → a = a' ∧ s = s'

namespace Outcome

variable {m : ExceptT ε (StateM σ) α} {f : α → ExceptT ε (StateM σ) β} {s s' : σ} {a : α} {e : ε}

/-- The run of two parts is that of the first, and then of the second unless the first threw. -/
theorem run_bind (m : ExceptT ε (StateM σ) α) (f : α → ExceptT ε (StateM σ) β) (s : σ) :
    (m >>= f).run.run s = ExceptT.bindCont f (m.run.run s).1 (m.run.run s).2 := rfl

/-- After a part that returns the second one runs, from the state the first left. -/
theorem run_bind_ok (h : m.run.run s = (.ok a, s')) : (m >>= f).run.run s = (f a).run.run s' := by
  rw [run_bind, h]
  rfl

/-- After a part that throws nothing else runs. -/
theorem run_bind_error (h : m.run.run s = (.error e, s')) :
    (m >>= f).run.run s = (.error e, s') := by
  rw [run_bind, h]
  rfl

/-- What an outcome is said by may be said in other words. -/
theorem congr {P P' : α → σ → Prop} {Q Q' : Prop} (h : Outcome count m s P Q)
    (hP : ∀ a s', P a s' ↔ P' a s') (hQ : Q ↔ Q') : Outcome count m s P' Q' := by
  obtain rfl : P = P' := funext fun a => funext fun s' => propext (hP a s')
  obtain rfl : Q = Q' := propext hQ
  exact h

/-- What comes after a step that returns.  The step counted nothing, so the count of what
follows is that of both. -/
theorem after {P : β → σ → Prop} {Q : Prop} (hrun : m.run.run s = (.ok a, s'))
    (hsame : count s' = count s) (h : Outcome count (f a) s' P Q) :
    Outcome count (m >>= f) s P Q := by
  have hbind : (m >>= f).run.run s = (f a).run.run s' := run_bind_ok hrun
  cases h with
  | returns b s'' hrun' hsame' hpass hclear =>
      exact .returns b s'' (hbind.trans hrun') (hsame'.trans hsame) hpass hclear
  | counts hcounted hmeet => exact .counts (by rwa [hbind, ← hsame]) hmeet
  | refuses e s'' hrun' hsame' hstop hclear =>
      exact .refuses e s'' (hbind.trans hrun') (hsame'.trans hsame) hstop hclear

/-- Nothing comes after a step that fails. -/
theorem halt {P : β → σ → Prop} {Q : Prop} (hrun : m.run.run s = (.error e, s'))
    (hsame : count s' = count s) (hP : ∀ b s', ¬P b s') (hQ : ¬Q) :
    Outcome count (m >>= f) s P Q :=
  .refuses e s' (run_bind_error hrun) hsame hP hQ

/-- A step that never counts.  It returns or fails; where it fails the whole must not have been
able to pass. -/
theorem step {P : α → σ → Prop} {P' : β → σ → Prop} {Q : Prop} (h : Outcome count m s P False)
    (hstop : (∀ a s', ¬P a s') → (∀ b s', ¬P' b s') ∧ ¬Q)
    (hf : ∀ a s', P a s' → Outcome count (f a) s' P' Q) : Outcome count (m >>= f) s P' Q := by
  cases h with
  | returns a s' hrun hsame hpass => exact .after hrun hsame (hf a s' hpass)
  | counts _ hmeet => exact hmeet.elim
  | refuses e s' hrun hsame hP =>
      obtain ⟨hP', hQ⟩ := hstop hP
      exact .halt hrun hsame hP' hQ

/-- A check that fails before the rest goes on.  The state is the same on both ways. -/
theorem check {c : Prop} [Decidable c] {fail : ExceptT ε (StateM σ) Unit}
    {k : Unit → ExceptT ε (StateM σ) β} {P : β → σ → Prop} {Q : Prop}
    (hfail : fail.run.run s = (.error e, s)) (hstop : c → (∀ b s', ¬P b s') ∧ ¬Q)
    (hk : ¬c → Outcome count (k ()) s P Q) :
    Outcome count (if c then fail >>= k else k ()) s P Q := by
  by_cases hc : c
  · obtain ⟨hP, hQ⟩ := hstop hc
    rw [if_pos hc]
    exact .halt hfail rfl hP hQ
  · rw [if_neg hc]
    exact hk hc

/-- **One after the other.**  It passes when both do, and comes to what is counted in the first,
or in the second from where the first left off. -/
theorem bind {P : α → σ → Prop} {Q : Prop} {P' : α → σ → β → σ → Prop} {Q' : α → σ → Prop}
    (h : Outcome count m s P Q) (hgrow : ∀ a, Grows count (f a)) (hone : OneWay P)
    (hf : ∀ a s', P a s' → Outcome count (f a) s' (P' a s') (Q' a s')) :
    Outcome count (m >>= f) s (fun b s'' => ∃ a s', P a s' ∧ P' a s' b s'')
      (Q ∨ ∃ a s', P a s' ∧ Q' a s') := by
  cases h with
  | returns a s' hrun hsame hpass hclear =>
      refine .after hrun hsame ((hf a s' hpass).congr (fun b s'' => ?_) ?_)
      · constructor
        · exact fun hb => ⟨a, s', hpass, hb⟩
        · rintro ⟨a', s₁, hpass', hb⟩
          obtain ⟨rfl, rfl⟩ := hone _ _ _ _ hpass hpass'
          exact hb
      · constructor
        · exact fun hq => .inr ⟨a, s', hpass, hq⟩
        · rintro (hq | ⟨a', s₁, hpass', hq⟩)
          · exact absurd hq hclear
          · obtain ⟨rfl, rfl⟩ := hone _ _ _ _ hpass hpass'
            exact hq
  | counts hcounted hmeet =>
      refine .counts (hcounted.trans_le ?_) (.inl hmeet)
      rw [run_bind]
      generalize m.run.run s = result
      obtain ⟨e | a, s'⟩ := result
      · exact le_rfl
      · exact (hgrow a).le s'
  | refuses e s' hrun hsame hstop hclear =>
      refine .halt hrun hsame (fun b s'' hb => ?_) fun hq => ?_
      · obtain ⟨a, s₁, hpass, -⟩ := hb
        exact hstop a s₁ hpass
      · obtain hq | ⟨a, s₁, hpass, -⟩ := hq
        · exact hclear hq
        · exact hstop a s₁ hpass

/-- Something done to the value it returns.  Whether anything is counted does not depend on
it. -/
theorem map {P : α → σ → Prop} {Q : Prop} (h : Outcome count m s P Q) (g : α → β) :
    Outcome count (m >>= fun a => Pure.pure (g a)) s (fun b s' => ∃ a, P a s' ∧ b = g a) Q := by
  cases h with
  | returns a s' hrun hsame hpass hclear =>
      exact .after hrun hsame (.returns (g a) s' rfl rfl ⟨a, hpass, rfl⟩ hclear)
  | counts hcounted hmeet =>
      refine .counts (hcounted.trans_eq ?_) hmeet
      rw [run_bind]
      generalize m.run.run s = result
      obtain ⟨e | a, s'⟩ := result <;> rfl
  | refuses e s' hrun hsame hstop hclear =>
      exact .halt hrun hsame (fun b s'' hb => hb.elim fun a ha => hstop a s'' ha.1) hclear

/-- A handler that fails.  It changes neither the state nor the count, so only the error is
another one. -/
theorem handle {P : α → σ → Prop} {Q : Prop} {handler : ε → ExceptT ε (StateM σ) α}
    (h : Outcome count m s P Q) (hfail : ∀ e s, ∃ e', (handler e).run.run s = (.error e', s)) :
    Outcome count (tryCatch m handler) s P Q := by
  have hrun := run_tryCatch m handler s
  cases h with
  | returns a s' hm hsame hpass hclear =>
      rw [hm] at hrun
      exact .returns a s' hrun hsame hpass hclear
  | counts hcounted hmeet =>
      refine .counts ?_ hmeet
      rw [hrun]
      generalize m.run.run s = result at hcounted
      obtain ⟨e | a, s'⟩ := result
      · obtain ⟨e', he⟩ := hfail e s'
        exact hcounted.trans_eq (congrArg (fun r => count r.2) he).symm
      · exact hcounted
  | refuses e s' hm hsame hstop hclear =>
      rw [hm] at hrun
      obtain ⟨e', he⟩ := hfail e s'
      exact .refuses e' s' (hrun.trans he) hsame hstop hclear

/-- What never counts, by what it returns.  A failure is all that is left when it does not
return. -/
theorem of_runs {P : α → σ → Prop} (hstill : Still count m)
    (hruns : ∀ a s', Runs m s a s' ↔ P a s') : Outcome count m s P False := by
  have hsame := hstill.eq s
  unfold Runs at hruns
  generalize hrun : m.run.run s = result at hsame hruns
  obtain ⟨e | a, s'⟩ := result
  · exact .refuses e s' hrun hsame (fun a s'' hpass => by cases (hruns a s'').2 hpass) id
  · exact .returns a s' hrun hsame ((hruns a s').1 rfl) id

/-- What is returned where nothing is counted.  There is one way for it to return, so what
passes is what is returned. -/
theorem runs_iff {P : α → σ → Prop} {Q : Prop} (h : Outcome count m s P Q) (hone : OneWay P)
    (hclear : ¬Q) : Runs m s a s' ↔ P a s' := by
  unfold Runs
  cases h with
  | returns b s₁ hrun hsame hpass =>
      rw [hrun]
      constructor
      · intro heq
        obtain ⟨hok, rfl⟩ := Prod.mk.inj heq
        exact Except.ok.inj hok ▸ hpass
      · intro hpass'
        obtain ⟨rfl, rfl⟩ := hone _ _ _ _ hpass hpass'
        rfl
  | counts _ hmeet => exact absurd hmeet hclear
  | refuses e s₁ hrun hsame hstop =>
      rw [hrun]
      exact iff_of_false (fun heq => by cases (Prod.mk.inj heq).1) (hstop a s')

end Outcome

section Loops

variable {passes : α → σ → β → σ → Prop} {meets : α → σ → Prop}

/-- **A loop passes in one way**, with one list of results and one last state, if each of its
turns does. -/
theorem PassesAll.oneWay (hone : ∀ x s, OneWay (passes x s)) (l : List α) (s : σ) :
    OneWay (PassesAll passes l s) := by
  induction l generalizing s with
  | nil =>
      rintro a s₁ a' s₂ ⟨rfl, rfl⟩ ⟨rfl, rfl⟩
      exact ⟨rfl, rfl⟩
  | cons x l ih =>
      rintro a s₁ a' s₂ ⟨b, t, rest, hb, hrest, rfl⟩ ⟨b', t', rest', hb', hrest', rfl⟩
      obtain ⟨rfl, rfl⟩ := hone x s _ _ _ _ hb hb'
      obtain ⟨rfl, rfl⟩ := ih t _ _ _ _ hrest hrest'
      exact ⟨rfl, rfl⟩

/-- **The element that is met, and those before it.**  Those before it were passed, one after
the other. -/
theorem meetsAny_iff {l : List α} {s : σ} : MeetsAny passes meets l s ↔
    ∃ before x after bs s', l = before ++ x :: after ∧ PassesAll passes before s bs s' ∧
      meets x s' := by
  induction l generalizing s with
  | nil =>
      refine iff_of_false id ?_
      rintro ⟨before, x, after, bs, s', h, -⟩
      exact absurd h.symm (by simp)
  | cons x l ih =>
      constructor
      · rintro (h | ⟨b, s₁, hb, h⟩)
        · exact ⟨[], x, l, [], s, rfl, ⟨rfl, rfl⟩, h⟩
        · obtain ⟨before, y, after, bs, s', rfl, hbefore, hmeets⟩ := ih.1 h
          exact ⟨x :: before, y, after, b :: bs, s', rfl, ⟨b, s₁, bs, hb, hbefore, rfl⟩, hmeets⟩
      · rintro ⟨before, y, after, bs, s', heq, hbefore, hmeets⟩
        cases before with
        | nil =>
            obtain ⟨rfl, rfl⟩ := List.cons.inj heq
            obtain ⟨-, rfl⟩ := hbefore
            exact .inl hmeets
        | cons z before =>
            obtain ⟨rfl, rfl⟩ := List.cons.inj heq
            obtain ⟨b, s₁, rest, hb, hrest, -⟩ := hbefore
            exact .inr ⟨b, s₁, hb, ih.2 ⟨before, y, after, rest, s', rfl, hrest, hmeets⟩⟩

/-- The element that is met. -/
theorem MeetsAny.exists_mem {l : List α} {s : σ} (h : MeetsAny passes meets l s) :
    ∃ x ∈ l, ∃ s', meets x s' := by
  obtain ⟨before, x, after, bs, s', rfl, -, hmeets⟩ := meetsAny_iff.1 h
  exact ⟨x, List.mem_append_right _ (List.mem_cons_self ..), s', hmeets⟩

/-- Passing that leaves the state alone.  Every element is met in the state of the start. -/
theorem passesAll_still {r : α → β → Prop} {l : List α} {s : σ} {bs : List β} {s' : σ} :
    PassesAll (fun x s b s' => r x b ∧ s' = s) l s bs s' ↔ List.Forall₂ r l bs ∧ s' = s := by
  induction l generalizing s bs with
  | nil => rw [PassesAll, List.forall₂_nil_left_iff]
  | cons x l ih =>
      rw [PassesAll, List.forall₂_cons_left_iff]
      constructor
      · rintro ⟨b, _, rest, ⟨hb, rfl⟩, hrest, rfl⟩
        obtain ⟨hrests, rfl⟩ := ih.1 hrest
        exact ⟨⟨b, rest, hb, hrests, rfl⟩, rfl⟩
      · rintro ⟨⟨b, rest, hb, hrests, rfl⟩, rfl⟩
        exact ⟨b, s', rest, ⟨hb, rfl⟩, ih.2 ⟨hrests, rfl⟩, rfl⟩

/-- An index beside the elements says nothing.  It is counted along with the list and looked at
by nobody. -/
theorem passesAll_zipIdx (l : List α) (n : ℕ) (s : σ) (bs : List β) (s' : σ) :
    PassesAll (fun x => passes x.1) (l.zipIdx n) s bs s' ↔ PassesAll passes l s bs s' := by
  induction l generalizing n s bs with
  | nil => exact Iff.rfl
  | cons x l ih =>
      rw [List.zipIdx_cons, PassesAll, PassesAll]
      exact exists_congr fun b => exists_congr fun t => exists_congr fun rest =>
        and_congr_right fun _ => and_congr_left fun _ => ih (n + 1) t rest

/-- The numbers of the elements play no part in whether a loop comes to what is counted.  By
induction on the list, with the first number arbitrary. -/
theorem meetsAny_zipIdx (l : List α) (n : ℕ) (s : σ) :
    MeetsAny (fun x => passes x.1) (fun x => meets x.1) (l.zipIdx n) s ↔
      MeetsAny passes meets l s := by
  induction l generalizing n s with
  | nil => exact Iff.rfl
  | cons x l ih =>
      rw [List.zipIdx_cons, MeetsAny, MeetsAny]
      exact or_congr Iff.rfl (exists_congr fun b => exists_congr fun t =>
        and_congr_right fun _ => ih (n + 1) t)

/-- **A loop.**  What holds of the state before each turn is kept by the turns that pass.
Whether something is counted is decided at the first turn that does not pass. -/
theorem Outcome.mapM {f : α → ExceptT ε (StateM σ) β} {I : σ → Prop} {l : List α}
    (hgrow : ∀ x, Grows count (f x)) (hone : ∀ x s, OneWay (passes x s))
    (hI : ∀ x ∈ l, ∀ s b s', I s → passes x s b s' → I s')
    (hf : ∀ x ∈ l, ∀ s, I s → Outcome count (f x) s (passes x s) (meets x s)) (s : σ) (hs : I s) :
    Outcome count (l.mapM f) s (PassesAll passes l s) (MeetsAny passes meets l s) := by
  induction l generalizing s with
  | nil => exact .returns [] s rfl rfl ⟨rfl, rfl⟩ id
  | cons x l ih =>
      have hrest : ∀ b s', passes x s b s' → Outcome count
          (l.mapM f >>= fun rest => Pure.pure (b :: rest)) s'
          (fun bs s'' => ∃ rest, PassesAll passes l s' rest s'' ∧ bs = b :: rest)
          (MeetsAny passes meets l s') := fun b s' hb =>
        (ih (fun y hy => hI y (List.mem_cons_of_mem _ hy))
          (fun y hy => hf y (List.mem_cons_of_mem _ hy)) s'
          (hI x (List.mem_cons_self ..) s b s' hs hb)).map _
      have hgrows : ∀ b, Grows count (l.mapM f >>= fun rest => Pure.pure (b :: rest)) :=
        fun b c => .bind (.mapM fun y _ => hgrow y c) fun _ => .pure _
      rw [List.mapM_cons]
      refine ((hf x (List.mem_cons_self ..) s hs).bind hgrows (hone x s) hrest).congr
        (fun bs s'' => ?_) Iff.rfl
      rw [PassesAll]
      exact exists_congr fun b => exists_congr fun t => exists_and_left.symm

end Loops

end NewtonDB
