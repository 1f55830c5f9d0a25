/-
# A register that several clients write

The writes to a register, newest first, each with the client that made it.  A client
loads the register once and from then on has seen what it loaded or wrote last.  The
writes are `Orderly` when each replaced what its client had seen, by a value that may
follow it.  If a value that follows another has the next version, **a client whose
version is current has seen the current value** (`seen_eq_content`), and **what a client
wrote last is there until a client that loaded it replaces it** (`kept_or_replaced`).
-/

import Mathlib.Data.List.Infix

namespace NewtonDB

namespace Register

variable {C V : Type}

/-- What a register holds after some writes. -/
def content (initial : Option V) : List (C × V) → Option V
  | [] => initial
  | write :: _ => some write.2

/-- A register that was never written holds what it held at the start. -/
@[simp]
theorem content_nil {initial : Option V} : content initial ([] : List (C × V)) = initial := rfl

/-- A register holds what was written last. -/
@[simp]
theorem content_cons {initial : Option V} (write : C × V) (earlier : List (C × V)) :
    content initial (write :: earlier) = some write.2 := rfl

variable [DecidableEq C]

/-- The writes of one client. -/
def writesOf (c : C) (log : List (C × V)) : List (C × V) := log.filter (·.1 = c)

/-- What a client wrote last, or loaded. -/
def seen (loaded : C → Option V) (c : C) (log : List (C × V)) : Option V :=
  content (loaded c) (writesOf c log)

/-- Every write replaced what its client had seen, by a value that may follow it. -/
def Orderly (follows : Option V → V → Prop) (loaded : C → Option V) (initial : Option V) :
    List (C × V) → Prop
  | [] => True
  | write :: earlier =>
      Orderly follows loaded initial earlier ∧
        content initial earlier = seen loaded write.1 earlier ∧
          follows (content initial earlier) write.2

variable {follows : Option V → V → Prop} {loaded loaded' : C → Option V} {initial : Option V}
  {log earlier later : List (C × V)} {c : C} {v : V}

/-- A write of the client itself is among its writes. -/
@[simp]
theorem writesOf_cons_self (c : C) (v : V) (log : List (C × V)) :
    writesOf c ((c, v) :: log) = (c, v) :: writesOf c log :=
  List.filter_cons_of_pos (decide_eq_true rfl)

/-- A write of another client is not. -/
@[simp]
theorem writesOf_cons_of_ne {c d : C} (h : d ≠ c) (v : V) (log : List (C × V)) :
    writesOf c ((d, v) :: log) = writesOf c log :=
  List.filter_cons_of_neg (by simpa using h)

namespace Orderly

/-- The writes before a write were orderly. -/
theorem of_append : ∀ {later : List (C × V)},
    Orderly follows loaded initial (later ++ earlier) → Orderly follows loaded initial earlier
  | [], h => h
  | _ :: _, h => of_append h.1

/-- Only what the clients loaded that wrote matters. -/
theorem congr : ∀ {log : List (C × V)}, (∀ write ∈ log, loaded' write.1 = loaded write.1) →
    Orderly follows loaded initial log → Orderly follows loaded' initial log
  | [], _, _ => trivial
  | write :: log, h, ho => by
      refine ⟨ho.1.congr fun w hw => h w (List.mem_cons_of_mem _ hw), ?_, ho.2.2⟩
      rw [seen, h write (List.mem_cons_self ..)]
      exact ho.2.1

variable {version : Option V → ℕ}

/-- **The version counts the writes.**  By induction on the log: each write follows what was
there. -/
theorem version_content (hfollows : ∀ old v, follows old v → version (some v) = version old + 1) :
    ∀ {log : List (C × V)}, Orderly follows loaded initial log →
      version (content initial log) = version initial + log.length
  | [], _ => rfl
  | write :: log, h => by
      rw [content_cons, hfollows _ _ h.2.2, version_content hfollows h.1, List.length_cons]
      rfl

/-- The register held a value of one version at one time only. -/
theorem eq_of_version (hfollows : ∀ old v, follows old v → version (some v) = version old + 1)
    (h : Orderly follows loaded initial (later ++ earlier))
    (hv : version (content initial earlier) = version (content initial (later ++ earlier))) :
    later = [] := by
  rw [h.version_content hfollows, h.of_append.version_content hfollows, List.length_append] at hv
  exact List.length_eq_zero_iff.1 (by omega)

end Orderly

/-- The last write of a client that wrote, and the writes before it.  The log has the newest
write first, so it is cut at the first one of the client. -/
theorem exists_last_write (loaded : C → Option V) : ∀ {log : List (C × V)}, writesOf c log ≠ [] →
    ∃ later v earlier, log = later ++ (c, v) :: earlier ∧ seen loaded c log = some v ∧
      ∀ write ∈ later, write.1 ≠ c
  | [], h => absurd rfl h
  | (d, u) :: log, h => by
      by_cases hd : d = c
      · subst hd
        exact ⟨[], u, log, rfl, by rw [seen, writesOf_cons_self, content_cons], by simp⟩
      · rw [writesOf_cons_of_ne hd] at h
        obtain ⟨later, v, earlier, rfl, hseen, hnone⟩ := exists_last_write loaded h
        refine ⟨(d, u) :: later, v, earlier, rfl, ?_, ?_⟩
        · rw [seen, writesOf_cons_of_ne hd]
          exact hseen
        · exact List.forall_mem_cons.2 ⟨hd, hnone⟩

/-- What a client has seen was in the register once.  It wrote the value itself, or loaded what
was there. -/
theorem exists_content_eq_seen
    (hload : ∃ later earlier, log = later ++ earlier ∧ loaded c = content initial earlier) :
    ∃ later earlier, log = later ++ earlier ∧ seen loaded c log = content initial earlier := by
  by_cases hw : writesOf c log = []
  · obtain ⟨later, earlier, hlog, hl⟩ := hload
    refine ⟨later, earlier, hlog, ?_⟩
    rw [seen, hw]
    exact hl
  · obtain ⟨later, v, earlier, hlog, hseen, -⟩ := exists_last_write loaded hw
    exact ⟨later, _, hlog, hseen⟩

variable (version : Option V → ℕ)

/-- **A client whose version is current has seen the current value.**  Had another written
since, the version would be greater. -/
theorem seen_eq_content (hfollows : ∀ old v, follows old v → version (some v) = version old + 1)
    (h : Orderly follows loaded initial log)
    (hload : ∃ later earlier, log = later ++ earlier ∧ loaded c = content initial earlier)
    (hv : version (seen loaded c log) = version (content initial log)) :
    seen loaded c log = content initial log := by
  obtain ⟨later, earlier, rfl, hseen⟩ := exists_content_eq_seen hload
  rw [hseen] at hv ⊢
  rw [h.eq_of_version hfollows hv, List.nil_append]

/-- **The client that replaces another's write has loaded it.**  What it wrote follows what it
had seen, and that was the other's. -/
theorem loaded_of_replaced
    (hfollows : ∀ old v, follows old v → version (some v) = version old + 1) {d : C} {u : V}
    (h : Orderly follows loaded initial ((d, u) :: (c, v) :: earlier)) (hne : d ≠ c) :
    loaded d = some v := by
  obtain ⟨ho, hseen, -⟩ := h
  dsimp only at hseen
  rw [content_cons, seen, writesOf_cons_of_ne hne.symm] at hseen
  by_cases hw : writesOf d earlier = []
  · rw [hw] at hseen
    exact hseen.symm
  · -- a write of its own before that one has a smaller version
    obtain ⟨later, w, first, rfl, hw, -⟩ := exists_last_write loaded hw
    rw [seen, ← hseen] at hw
    obtain rfl := Option.some.inj hw
    have ho' : Orderly follows loaded initial (((c, v) :: later) ++ (d, v) :: first) := ho
    cases ho'.eq_of_version hfollows rfl

/-- **What a client wrote last is there until a client that loaded it replaces it.**  By
induction on the log: the write that ends it is the first by another client. -/
theorem kept_or_replaced
    (hfollows : ∀ old v, follows old v → version (some v) = version old + 1)
    (h : Orderly follows loaded initial log) (hw : writesOf c log ≠ []) :
    ∃ v, seen loaded c log = some v ∧ (content initial log = some v ∨
      ∃ later d u earlier, log = later ++ (d, u) :: earlier ∧ content initial earlier = some v ∧
        loaded d = some v) := by
  obtain ⟨later, v, earlier, rfl, hseen, hnone⟩ := exists_last_write loaded hw
  refine ⟨v, hseen, ?_⟩
  rcases List.eq_nil_or_concat later with rfl | ⟨rest, ⟨d, u⟩, rfl⟩
  · exact .inl rfl
  · rw [List.concat_eq_append] at h hnone ⊢
    rw [List.append_assoc] at h ⊢
    have hne : d ≠ c := hnone (d, u) (by simp)
    exact .inr ⟨rest, d, u, _, rfl, rfl, loaded_of_replaced version hfollows h.of_append hne⟩

end Register

end NewtonDB
