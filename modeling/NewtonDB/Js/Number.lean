/-
# Numbers

A finite nonzero number is kept as the shortest decimal that rounds to it, the
one `Number::toString` prints: a sign and a positive decimal in lowest form.
Every double has one and distinct doubles have distinct ones in the same order,
so the decimals stand for the doubles wherever numbers are only printed and
compared, which is all the program does with the numbers of a document.  Zero
has a sign, `-0 === 0` and both print as `0`.

`Decimal.text` is the digit layout of `Number::toString` (positional for
`-7 < n ≤ 21`, exponential elsewhere) and `FiniteNumber.text_eq_iff` says it is
injective up to the sign of zero.
-/

import NewtonDB.Js.Text
import Mathlib.Data.List.DropRight
import Mathlib.Tactic.Linarith
import Mathlib.Tactic.Positivity
import Mathlib.Tactic.Ring

namespace NewtonDB

/-- A positive decimal `digits * 10 ^ exponent` in lowest form. -/
@[ext]
structure Decimal where
  digits : ℕ
  exponent : ℤ
  lowest : digits % 10 ≠ 0

instance : DecidableEq Decimal := fun a b =>
  decidable_of_iff (a.digits = b.digits ∧ a.exponent = b.exponent) Decimal.ext_iff.symm

/-- A finite number: a signed zero, or a sign and a magnitude. -/
inductive FiniteNumber where
  | zero (negative : Bool)
  | nonzero (negative : Bool) (magnitude : Decimal)
  deriving DecidableEq

/-- A number. -/
inductive JsNumber where
  | nan
  | infinity (negative : Bool)
  | finite (value : FiniteNumber)
  deriving DecidableEq

/-- The layout of the significant digits `s` with the decimal point after
position `n` (`Number::toString`, steps 5 to 10, where `k` is the number of
digits). -/
def layout (s : JsString) (n : ℤ) : JsString :=
  if (s.length : ℤ) ≤ n ∧ n ≤ 21 then s ++ List.replicate (n - s.length).toNat 48
  else if 0 < n ∧ n ≤ 21 then s.take n.toNat ++ 46 :: s.drop n.toNat
  else if -6 < n ∧ n ≤ 0 then 48 :: 46 :: (List.replicate (-n).toNat 48 ++ s)
  else (match s with | c :: d :: r => c :: 46 :: d :: r | s => s) ++
    101 :: (if n - 1 < 0 then 45 else 43) :: natText (n - 1).natAbs

namespace Decimal

/-- `Number::toString` of a positive number. -/
def text (d : Decimal) : JsString :=
  layout (natText d.digits) ((natText d.digits).length + d.exponent)

/-- Order by value. -/
def lt (a b : Decimal) : Bool :=
  a.digits * 10 ^ (a.exponent - min a.exponent b.exponent).toNat <
    b.digits * 10 ^ (b.exponent - min a.exponent b.exponent).toNat

/-- The value as a natural number, when it is one. -/
def toNat? (d : Decimal) : Option ℕ :=
  if 0 ≤ d.exponent then some (d.digits * 10 ^ d.exponent.toNat) else none

end Decimal

/-- A number without its trailing zeros, and how many there were. -/
def stripZeros : ℕ → ℕ → ℕ × ℕ
  | 0, n => (n, 0)
  | fuel + 1, n =>
      if n % 10 = 0 then ((stripZeros fuel (n / 10)).1, (stripZeros fuel (n / 10)).2 + 1)
      else (n, 0)

/-- What is left of a number without its last zeros does not end in one. -/
theorem stripZeros_lowest : ∀ {fuel n : ℕ}, n ≠ 0 → n ≤ fuel → (stripZeros fuel n).1 % 10 ≠ 0
  | 0, n, h0, h => by omega
  | fuel + 1, n, h0, h => by
      unfold stripZeros
      split_ifs with hz
      · exact stripZeros_lowest (by omega) (by omega)
      · exact hz

/-- To take zeros off a number and to count them loses nothing.  The fuel is what the recursion
is on; with too little of it zeros stay on. -/
theorem stripZeros_eq : ∀ fuel n : ℕ, (stripZeros fuel n).1 * 10 ^ (stripZeros fuel n).2 = n
  | 0, n => by simp [stripZeros]
  | fuel + 1, n => by
      unfold stripZeros
      split_ifs with hz
      · have := stripZeros_eq fuel (n / 10)
        rw [pow_succ, ← mul_assoc, this]
        omega
      · simp

namespace FiniteNumber

/-- The number `n`. -/
def ofNat (n : ℕ) : FiniteNumber :=
  if h : n = 0 then .zero false
  else .nonzero false ⟨(stripZeros n n).1, (stripZeros n n).2, stripZeros_lowest h le_rfl⟩

/-- `String(value)`. -/
def text : FiniteNumber → JsString
  | .zero _ => [48]
  | .nonzero false d => d.text
  | .nonzero true d => 45 :: d.text

/-- `left === right`. -/
def same : FiniteNumber → FiniteNumber → Bool
  | .zero _, .zero _ => true
  | .nonzero s d, .nonzero s' d' => s == s' && decide (d = d')
  | _, _ => false

/-- `left < right`. -/
def lt : FiniteNumber → FiniteNumber → Bool
  | .zero _, .zero _ => false
  | .zero _, .nonzero s _ => !s
  | .nonzero s _, .zero _ => s
  | .nonzero true _, .nonzero false _ => true
  | .nonzero false _, .nonzero true _ => false
  | .nonzero false a, .nonzero false b => a.lt b
  | .nonzero true a, .nonzero true b => b.lt a

/-- The number as an integer, when it is one. -/
def toInt? : FiniteNumber → Option ℤ
  | .zero _ => some 0
  | .nonzero s d => d.toNat?.map fun n : ℕ => if s then -(n : ℤ) else n

/-- `Number.isSafeInteger`. -/
def isSafeInteger (x : FiniteNumber) : Bool :=
  match x.toInt? with
  | some z => z.natAbs ≤ 2 ^ 53 - 1
  | none => false

/-- A natural number is read as the integer it is. -/
theorem toInt?_ofNat (n : ℕ) : (ofNat n).toInt? = some (n : ℤ) := by
  unfold ofNat
  split_ifs with h
  · simp [toInt?, h]
  · have := stripZeros_eq n n
    simp [toInt?, Decimal.toNat?, this]

/-- The number `z`. -/
def ofInt (z : ℤ) : FiniteNumber :=
  match ofNat z.natAbs with
  | .nonzero _ d => .nonzero (decide (z < 0)) d
  | x => x

/-- An integer is read as itself.  The sign is kept beside the digits of the absolute value. -/
theorem toInt?_ofInt (z : ℤ) : (ofInt z).toInt? = some z := by
  have h := toInt?_ofNat z.natAbs
  unfold ofInt
  cases hx : ofNat z.natAbs with
  | zero s =>
      rw [hx] at h
      have : (0 : ℤ) = z.natAbs := Option.some.inj h
      show some 0 = some z
      congr 1
      omega
  | nonzero s d =>
      rw [hx] at h
      have hs : s = false := by
        unfold ofNat at hx
        split_ifs at hx
        exact ((FiniteNumber.nonzero.inj hx).1).symm
      subst hs
      simp only [toInt?, Option.map_eq_some_iff] at h ⊢
      obtain ⟨n, hn, h⟩ := h
      refine ⟨n, hn, ?_⟩
      simp only [Bool.false_eq_true, if_false] at h
      by_cases hz : z < 0
      · rw [if_pos (decide_eq_true hz)]
        omega
      · rw [if_neg (by simpa using hz)]
        omega

/-- A nonzero magnitude is not the integer zero. -/
theorem Decimal.toNat?_ne_zero {d : Decimal} {n : ℕ} (h : d.toNat? = some n) : n ≠ 0 := by
  unfold Decimal.toNat? at h
  split_ifs at h
  obtain rfl := Option.some.inj h
  have hd : d.digits ≠ 0 := fun e => d.lowest (by rw [e])
  positivity

/-- The lowest form of an integer is unique.  With no zero at the end, the digits and the
exponent are determined by the value. -/
theorem Decimal.toNat?_injective {a b : Decimal} {n : ℕ} (ha : a.toNat? = some n)
    (hb : b.toNat? = some n) : a = b := by
  have key : ∀ {x y : ℕ} {i j : ℕ}, x % 10 ≠ 0 → x * 10 ^ i = y * 10 ^ j → j ≤ i := by
    intro x y i j hx h
    by_contra hlt
    obtain ⟨k, rfl⟩ : ∃ k, j = i + (k + 1) := ⟨j - i - 1, by omega⟩
    have hxy : x = y * 10 ^ k * 10 := by
      have h' : x * 10 ^ i = y * 10 ^ k * 10 * 10 ^ i := by rw [h]; ring
      exact Nat.eq_of_mul_eq_mul_right (by positivity) h'
    omega
  unfold Decimal.toNat? at ha hb
  split_ifs at ha hb with hea heb
  have h : a.digits * 10 ^ a.exponent.toNat = b.digits * 10 ^ b.exponent.toNat := by
    rw [Option.some.inj ha, Option.some.inj hb]
  have hexp : a.exponent.toNat = b.exponent.toNat :=
    le_antisymm (key b.lowest h.symm) (key a.lowest h)
  rw [hexp] at h
  exact Decimal.ext (Nat.eq_of_mul_eq_mul_right (by positivity) h) (by omega)

/-- Equal integers are strictly equal numbers.  A positive and a negative number are no equal
integers, and zero is the integer of both zeros. -/
theorem same_of_toInt? {x y : FiniteNumber} {z : ℤ} (hx : x.toInt? = some z)
    (hy : y.toInt? = some z) : x.same y = true := by
  have nonneg : ∀ {s : Bool} {d : Decimal} {w : ℤ}, (nonzero s d).toInt? = some w →
      ∃ n : ℕ, d.toNat? = some n ∧ n ≠ 0 ∧ w = if s then -(n : ℤ) else n := by
    intro s d w h
    simp only [toInt?, Option.map_eq_some_iff] at h
    obtain ⟨n, hn, h⟩ := h
    exact ⟨n, hn, Decimal.toNat?_ne_zero hn, h.symm⟩
  match x, y with
  | .zero _, .zero _ => rfl
  | .zero _, .nonzero s d =>
      obtain ⟨n, -, hn, hz⟩ := nonneg hy
      have : (0 : ℤ) = z := Option.some.inj hx
      split_ifs at hz <;> omega
  | .nonzero s d, .zero _ =>
      obtain ⟨n, -, hn, hz⟩ := nonneg hx
      have : (0 : ℤ) = z := Option.some.inj hy
      split_ifs at hz <;> omega
  | .nonzero s d, .nonzero s' d' =>
      obtain ⟨n, hd, hn, hz⟩ := nonneg hx
      obtain ⟨n', hd', hn', hz'⟩ := nonneg hy
      have hs : s = s' ∧ n = n' := by
        cases s <;> cases s' <;> simp only [if_true, if_false, Bool.false_eq_true] at hz hz' <;>
          first | exact ⟨rfl, by omega⟩ | omega
      obtain ⟨rfl, rfl⟩ := hs
      simp [same, Decimal.toNat?_injective hd hd']

/-- Strictly equal numbers are equal integers.  Strictly equal numbers are equal but for the
sign of zero. -/
theorem toInt?_of_same {x y : FiniteNumber} (h : x.same y = true) : x.toInt? = y.toInt? := by
  match x, y with
  | .zero _, .zero _ => rfl
  | .zero _, .nonzero .. => cases h
  | .nonzero .., .zero _ => cases h
  | .nonzero s d, .nonzero s' d' =>
      obtain ⟨rfl, rfl⟩ : s = s' ∧ d = d' := by simpa [same] using h
      rfl

end FiniteNumber

namespace JsNumber

/-- `left === right`. -/
def same : JsNumber → JsNumber → Bool
  | .finite x, .finite y => x.same y
  | .infinity s, .infinity s' => s == s'
  | _, _ => false

end JsNumber

/-! ### Printing is injective -/

/-- A string of decimal digits. -/
def IsDigits (s : JsString) : Prop := ∀ c ∈ s, 48 ≤ c.toNat ∧ c.toNat ≤ 57

/-- The text of a natural number is of digits. -/
theorem isDigits_natText (n : ℕ) : IsDigits (natText n) := by
  intro c hc
  obtain ⟨d, hd, rfl⟩ := List.mem_map.1 hc
  rw [digitUnit_toNat (natDigits_lt hd)]
  have := natDigits_lt hd
  omega

/-- A digit is no unit outside the range of digits. -/
theorem IsDigits.ne_of_lt {s : JsString} (hs : IsDigits s) {c u : UInt16} (hc : c ∈ s)
    (hu : u.toNat < 48 ∨ 57 < u.toNat) : c ≠ u := by
  rintro rfl
  have := hs c hc
  omega

/-- Digits after digits are digits. -/
theorem IsDigits.append {s t : JsString} (hs : IsDigits s) (ht : IsDigits t) :
    IsDigits (s ++ t) := fun c hc => (List.mem_append.1 hc).elim (hs c) (ht c)

/-- A list of zeros is of digits. -/
theorem isDigits_replicate (n : ℕ) : IsDigits (List.replicate n 48) := by
  intro c hc
  rw [(List.mem_replicate.1 hc).2]
  decide

/-- Digits have no decimal point to be taken out. -/
theorem IsDigits.filter_ne {s : JsString} (hs : IsDigits s) : s.filter (· ≠ 46) = s :=
  List.filter_eq_self.2 fun c hc => by simpa using hs.ne_of_lt hc (by decide)

/-- Digits before another unit are what is read up to that unit. -/
theorem IsDigits.takeWhile_ne {s : JsString} (hs : IsDigits s) {u : UInt16}
    (hu : u.toNat < 48 ∨ 57 < u.toNat) (t : JsString) :
    (s ++ u :: t).takeWhile (· ≠ u) = s := by
  rw [List.takeWhile_append_of_pos fun c hc => by simpa using hs.ne_of_lt hc hu]
  simp

/-- Digits alone are read to their end. -/
theorem IsDigits.takeWhile_self {s : JsString} (hs : IsDigits s) {u : UInt16}
    (hu : u.toNat < 48 ∨ 57 < u.toNat) : s.takeWhile (· ≠ u) = s :=
  List.takeWhile_eq_self_iff.2 fun c hc => by simpa using hs.ne_of_lt hc hu

/-- The four layouts: an integer, a point inside the digits, a leading `0.`, and
an exponent. -/
theorem layout_cases (s : JsString) (hs : s ≠ []) (n : ℤ) :
    (∃ z : ℕ, n = s.length + z ∧ layout s n = s ++ List.replicate z 48) ∨
      (∃ a b, s = a ++ b ∧ a ≠ [] ∧ b ≠ [] ∧ n = a.length ∧ layout s n = a ++ 46 :: b) ∨
      (∃ z : ℕ, n = -z ∧ layout s n = 48 :: 46 :: (List.replicate z 48 ++ s)) ∨
      ∃ c b, s = c :: b ∧ layout s n = (c :: if b = [] then [] else 46 :: b) ++
        101 :: (if n - 1 < 0 then 45 else 43) :: natText (n - 1).natAbs := by
  unfold layout
  by_cases h₁ : (s.length : ℤ) ≤ n ∧ n ≤ 21
  · rw [if_pos h₁]
    exact Or.inl ⟨(n - s.length).toNat, by omega, rfl⟩
  rw [if_neg h₁]
  by_cases h₂ : 0 < n ∧ n ≤ 21
  · rw [if_pos h₂]
    have hl : n.toNat < s.length := by omega
    refine Or.inr (Or.inl ⟨_, _, (List.take_append_drop n.toNat s).symm, ?_, ?_, ?_, rfl⟩)
    · rw [ne_eq, List.take_eq_nil_iff]; exact fun h => h.elim (by omega) hs
    · rw [ne_eq, List.drop_eq_nil_iff]; omega
    · rw [List.length_take]; omega
  rw [if_neg h₂]
  by_cases h₃ : -6 < n ∧ n ≤ 0
  · rw [if_pos h₃]
    exact Or.inr (Or.inr (Or.inl ⟨(-n).toNat, by omega, rfl⟩))
  rw [if_neg h₃]
  refine Or.inr (Or.inr (Or.inr ?_))
  match s, hs with
  | [c], _ => exact ⟨c, [], rfl, by simp⟩
  | c :: d :: r, _ => exact ⟨c, d :: r, rfl, by simp⟩

/-- Digits that neither begin nor end with a zero. -/
structure IsSignificant (s : JsString) : Prop where
  digits : IsDigits s
  ne_nil : s ≠ []
  head : s.head ne_nil ≠ 48
  last : s.getLast ne_nil ≠ 48

/-- Digits that begin with no zero lose nothing when leading zeros are dropped. -/
theorem IsSignificant.dropWhile {s : JsString} (h : IsSignificant s) (t : JsString) :
    (s ++ t).dropWhile (· = 48) = s ++ t := by
  obtain ⟨c, r, rfl⟩ := List.exists_cons_of_ne_nil h.ne_nil
  have := h.head
  simp only [List.head_cons] at this
  simp [this]

/-- Digits that end in no zero are what is left when the zeros behind them are dropped.  The
zeros are taken off from the end up to the last digit that is none. -/
theorem IsSignificant.rdropWhile {s : JsString} (h : IsSignificant s) (z : ℕ) :
    (s ++ List.replicate z 48).rdropWhile (· = 48) = s := by
  rw [List.rdropWhile, List.reverse_append, List.dropWhile_append_of_pos (by simp)]
  have hr : s.reverse.dropWhile (· = 48) = s.reverse := by
    obtain ⟨c, r, hcr⟩ := List.exists_cons_of_ne_nil (by simpa using h.ne_nil : s.reverse ≠ [])
    have hc : c ≠ 48 := by
      have := h.last
      rw [List.getLast_eq_head_reverse] at this
      simpa [hcr] using this
    simp [hcr, hc]
  rw [hr, List.reverse_reverse]

/-- Leading zeros are dropped up to the first significant digit, and no further. -/
theorem IsSignificant.dropWhile_lead {s : JsString} (h : IsSignificant s) (l z : ℕ) :
    (List.replicate l 48 ++ (s ++ List.replicate z 48)).dropWhile (· = 48) =
      s ++ List.replicate z 48 := by
  rw [List.dropWhile_append_of_pos (by simp), h.dropWhile]

/-- **Every layout is a mantissa and an exponent.**  Without its point the
mantissa is the digits between zeros; the exponent is absent, the position of the
point then giving `n`, or it is `n - 1`. -/
theorem layout_parts {s : JsString} (h : IsSignificant s) (n : ℤ) :
    ∃ (M E : JsString) (l z : ℕ), layout s n = M ++ E ∧ (∀ c ∈ M, c ≠ 101) ∧
      M.filter (· ≠ 46) = List.replicate l 48 ++ (s ++ List.replicate z 48) ∧
      ((E = [] ∧ n = (M.takeWhile (· ≠ 46)).length - l) ∨
        E = 101 :: (if n - 1 < 0 then 45 else 43) :: natText (n - 1).natAbs) := by
  have hne : ∀ {t : JsString}, IsDigits t → ∀ c ∈ t, c ≠ 101 :=
    fun ht c hc => ht.ne_of_lt hc (by decide)
  have hpt : ∀ {a b : JsString}, IsDigits a → IsDigits b → ∀ c ∈ a ++ 46 :: b, c ≠ 101 := by
    intro a b ha hb c hc
    rcases List.mem_append.1 hc with hc | hc
    · exact hne ha c hc
    · exact (List.mem_cons.1 hc).elim (fun e => e ▸ by decide) (hne hb c)
  rcases layout_cases s h.ne_nil n with ⟨z, hn, e⟩ | ⟨a, b, hab, -, -, hn, e⟩ | ⟨z, hn, e⟩ |
    ⟨c, b, hb, e⟩
  · have hd := h.digits.append (isDigits_replicate z)
    refine ⟨_, [], 0, z, by rw [e, List.append_nil], hne hd, hd.filter_ne, Or.inl ⟨rfl, ?_⟩⟩
    rw [hd.takeWhile_self (by decide), hn, List.length_append, List.length_replicate]
    push_cast; ring
  · have ha : IsDigits a := fun c hc => h.digits c (hab ▸ List.mem_append_left _ hc)
    have hb : IsDigits b := fun c hc => h.digits c (hab ▸ List.mem_append_right _ hc)
    refine ⟨_, [], 0, 0, by rw [e, List.append_nil], hpt ha hb, ?_, Or.inl ⟨rfl, ?_⟩⟩
    · rw [List.filter_append, List.filter_cons_of_neg (by decide), ha.filter_ne, hb.filter_ne, hab]
      simp
    · rw [ha.takeWhile_ne (by decide), hn]; simp
  · have hd := (isDigits_replicate z).append h.digits
    have h101 : ∀ c ∈ 48 :: 46 :: (List.replicate z 48 ++ s), c ≠ 101 :=
      hpt (isDigits_replicate 1) hd
    refine ⟨_, [], z + 1, 0, by rw [e, List.append_nil], h101, ?_, Or.inl ⟨rfl, ?_⟩⟩
    · rw [List.filter_cons_of_pos (by decide), List.filter_cons_of_neg (by decide), hd.filter_ne]
      simp [List.replicate_succ]
    · simp [hn]
  · have hd : IsDigits b := fun d hd => h.digits d (hb ▸ List.mem_cons_of_mem _ hd)
    have hc : IsDigits [c] := fun d hd =>
      h.digits d (hb ▸ List.mem_singleton.1 hd ▸ List.mem_cons_self ..)
    refine ⟨_, _, 0, 0, e, ?_, ?_, Or.inr rfl⟩
    · split_ifs with hnil
      · exact hne hc
      · exact hpt hc hd
    · have hc46 : c ≠ 46 := hc.ne_of_lt (List.mem_singleton_self c) (by decide)
      rw [hb, List.filter_cons_of_pos (by simpa using hc46)]
      split_ifs with hnil
      · simp [hnil]
      · rw [List.filter_cons_of_neg (by decide), hd.filter_ne]; simp

/-- **The layout determines the digits and the point.**  The cases are those of the layout; each
shows where the point is. -/
theorem layout_injective {s s' : JsString} (h : IsSignificant s) (h' : IsSignificant s') {n n' : ℤ}
    (heq : layout s n = layout s' n') : s = s' ∧ n = n' := by
  obtain ⟨M, E, l, z, e, hM, hf, hn⟩ := layout_parts h n
  obtain ⟨M', E', l', z', e', hM', hf', hn'⟩ := layout_parts h' n'
  -- the exponent part is empty or begins with `e`, which no mantissa holds
  have split : ∀ {A B : JsString}, (∀ c ∈ A, c ≠ 101) → (B = [] ∨ ∃ t, B = 101 :: t) →
      (A ++ B).takeWhile (· ≠ 101) = A := by
    intro A B hA hB
    rw [List.takeWhile_append_of_pos fun c hc => by simpa using hA c hc]
    rcases hB with rfl | ⟨t, rfl⟩ <;> simp
  have hE : E = [] ∨ ∃ t, E = 101 :: t := hn.imp And.left fun e => ⟨_, e⟩
  have hE' : E' = [] ∨ ∃ t, E' = 101 :: t := hn'.imp And.left fun e => ⟨_, e⟩
  have hMM : M = M' := by rw [← split hM hE, ← split hM' hE', ← e, ← e', heq]
  subst hMM
  have hEE : E = E' := List.append_cancel_left (e.symm.trans (heq.trans e'))
  subst hEE
  rw [hf] at hf'
  have hs : s ++ List.replicate z 48 = s' ++ List.replicate z' 48 := by
    rw [← h.dropWhile_lead l z, hf', h'.dropWhile_lead]
  have hss : s = s' := by rw [← h.rdropWhile z, hs, h'.rdropWhile]
  refine ⟨hss, ?_⟩
  have hlen := congrArg List.length hf'
  have hlen' := congrArg List.length hs
  simp only [List.length_append, List.length_replicate] at hlen hlen'
  rcases hn with ⟨hE0, hn⟩ | hn <;> rcases hn' with ⟨hE0', hn'⟩ | hn'
  · omega
  · rw [hE0] at hn'; simp at hn'
  · rw [hE0'] at hn; simp at hn
  · rw [hn] at hn'
    simp only [List.cons.injEq, true_and] at hn'
    have habs := natText_injective hn'.2
    have hsign := hn'.1
    split_ifs at hsign <;> first | omega | exact absurd hsign (by decide)

/-- The text of a number that is no multiple of ten is significant.  Its last digit is the
remainder by ten. -/
theorem isSignificant_natText {m : ℕ} (hm : m % 10 ≠ 0) : IsSignificant (natText m) := by
  have h0 : m ≠ 0 := by rintro rfl; simp at hm
  have hd : natDigits m = (Nat.digits 10 m).reverse := by simp [natDigits, h0]
  have hnil : Nat.digits 10 m ≠ [] := Nat.digits_ne_nil_iff_ne_zero.2 h0
  have hne : natText m ≠ [] := by simpa [natText] using natDigits_ne_nil m
  refine ⟨isDigits_natText m, hne, ?_, ?_⟩
  · have hg := Nat.getLast_digit_ne_zero 10 h0
    have : (natText m).head hne = digitUnit ((Nat.digits 10 m).getLast hnil) := by
      simp [natText, hd, List.head_reverse]
    rw [this]
    exact fun e => hg (digitUnit_injOn
      (Nat.digits_lt_base (by norm_num) (List.getLast_mem hnil)) (by norm_num) e)
  · have hh : (Nat.digits 10 m).head hnil = m % 10 := by
      obtain ⟨k, rfl⟩ := Nat.exists_eq_succ_of_ne_zero h0
      simp [Nat.digits_of_two_le_of_pos]
    have : (natText m).getLast hne = digitUnit ((Nat.digits 10 m).head hnil) := by
      simp [natText, hd, List.getLast_reverse]
    rw [this, hh]
    exact fun e => hm (digitUnit_injOn (Nat.mod_lt _ (by norm_num)) (by norm_num) e)

/-- Distinct positive numbers print differently. -/
theorem Decimal.text_injective {a b : Decimal} (h : a.text = b.text) : a = b := by
  obtain ⟨hs, hn⟩ := layout_injective (isSignificant_natText a.lowest)
    (isSignificant_natText b.lowest) h
  rw [hs] at hn
  exact Decimal.ext (natText_injective hs) (by omega)

/-- A positive number does not begin with a minus sign and is not `0`.  Its text is laid out
from its digits, and those begin with no zero. -/
theorem Decimal.text_head (d : Decimal) : ∃ c t, d.text = c :: t ∧ c ≠ 45 ∧ d.text ≠ [48] := by
  have h := isSignificant_natText d.lowest
  obtain ⟨c, r, hc⟩ := List.exists_cons_of_ne_nil h.ne_nil
  have hc45 : c ≠ 45 := h.digits.ne_of_lt (hc ▸ List.mem_cons_self ..) (by decide)
  have hc48 : c ≠ 48 := by simpa [hc] using h.head
  rcases layout_cases _ h.ne_nil ((natText d.digits).length + d.exponent) with
    ⟨z, -, e⟩ | ⟨a, b, hab, ha, -, -, e⟩ | ⟨z, -, e⟩ | ⟨c', b, hb, e⟩
  · exact ⟨c, _, e.trans (by rw [hc]; rfl), hc45, by rw [text, e, hc]; simp [hc48]⟩
  · obtain ⟨a₀, a₁, rfl⟩ := List.exists_cons_of_ne_nil ha
    obtain ⟨rfl, -⟩ : c = a₀ ∧ r = a₁ ++ b := by simpa using hc.symm.trans hab
    exact ⟨c, _, e, hc45, by rw [text, e]; simp [hc48]⟩
  · exact ⟨48, _, e, by decide, by rw [text, e]; simp⟩
  · obtain ⟨rfl, -⟩ : c = c' ∧ r = b := by simpa using hc.symm.trans hb
    exact ⟨c, _, e, hc45, by rw [text, e]; simp [hc48]⟩

/-- **Printing is injective up to the sign of zero.**  So numbers may be compared as texts where
zeros are not in question. -/
theorem FiniteNumber.text_eq_iff (x y : FiniteNumber) : x.text = y.text ↔ x.same y = true := by
  match x, y with
  | .zero _, .zero _ => simp [text, same]
  | .zero _, .nonzero false d =>
      simpa [text, same] using fun h => d.text_head.choose_spec.choose_spec.2.2 h.symm
  | .zero _, .nonzero true d => simp [text, same]
  | .nonzero false d, .zero _ => simpa [text, same] using d.text_head.choose_spec.choose_spec.2.2
  | .nonzero true d, .zero _ => simp [text, same]
  | .nonzero false a, .nonzero false b =>
      simpa [text, same] using ⟨Decimal.text_injective, congrArg _⟩
  | .nonzero true a, .nonzero true b =>
      simpa [text, same] using ⟨Decimal.text_injective, congrArg _⟩
  | .nonzero false a, .nonzero true b =>
      obtain ⟨c, t, e, hc, -⟩ := a.text_head
      simp [text, same, e, hc]
  | .nonzero true a, .nonzero false b =>
      obtain ⟨c, t, e, hc, -⟩ := b.text_head
      simp [text, same, e, Ne.symm hc]

end NewtonDB
