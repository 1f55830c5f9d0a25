/-
# Integers in decimal

The decimals of a natural number are the digit strings without a leading zero, `0`
itself apart: `natText` writes them and `digitsValue` reads them back.  An integer up
to the safe ones is printed so, without a point or an exponent (`text_ofNat`).
-/

import NewtonDB.Js.JsonData

namespace NewtonDB

/-- The number digits stand for. -/
def digitsValue (s : JsString) : ℕ := s.foldl (fun n c => 10 * n + (c.toNat - 48)) 0

/-- `0|[1-9]\d*`, as a whole. -/
def isCanonicalDigits : JsString → Bool
  | [] => false
  | c :: rest => if c = 48 then rest.isEmpty else isDigitUnit c && rest.all isDigitUnit

/-- The value of a text of digits is that of its digits, lowest first, to the base ten.  The
digits are read from the highest on, so the induction is from the end of the text. -/
theorem digitsValue_eq (s : JsString) :
    digitsValue s = Nat.ofDigits 10 (s.map fun c => c.toNat - 48).reverse := by
  induction s using List.reverseRecOn with
  | nil => rfl
  | append_singleton s c ih =>
      rw [digitsValue, List.foldl_append, List.map_append, List.reverse_append]
      have hs : s.foldl (fun n c => 10 * n + (c.toNat - 48)) 0 = _ := ih
      rw [hs]
      simp only [List.foldl_cons, List.foldl_nil, List.map_cons, List.map_nil,
        List.reverse_singleton, List.singleton_append, Nat.ofDigits_cons]
      omega

/-- The digits of the text of a number are those of the number. -/
theorem map_digits_natText (n : ℕ) : (natText n).map (fun c => c.toNat - 48) = natDigits n := by
  have hdigit : ∀ d ∈ natDigits n, ((fun c : UInt16 => c.toNat - 48) ∘ digitUnit) d = id d :=
    fun d hd => by
      rw [Function.comp_apply, digitUnit_toNat (natDigits_lt hd), Nat.add_sub_cancel_left, id]
  rw [natText, List.map_map, List.map_congr_left hdigit, List.map_id]

/-- **What is written is read.**  Both go by the digits to the base ten. -/
theorem digitsValue_natText (n : ℕ) : digitsValue (natText n) = n := by
  rw [digitsValue_eq, map_digits_natText, natDigits]
  split_ifs with h
  · rw [h]
    rfl
  · rw [List.reverse_reverse, Nat.ofDigits_digits]

/-- The text of a number is canonical: no zero leads it, unless it is the text of zero.  The
highest digit of a number that is not zero is not zero. -/
theorem isCanonicalDigits_natText (n : ℕ) : isCanonicalDigits (natText n) := by
  by_cases h : n = 0
  · subst h
    decide
  · have hnil : Nat.digits 10 n ≠ [] := Nat.digits_ne_nil_iff_ne_zero.2 h
    have htext : natText n = ((Nat.digits 10 n).reverse).map digitUnit := by
      rw [natText, natDigits, if_neg h]
    obtain ⟨d, ds, hd⟩ := List.exists_cons_of_ne_nil (List.reverse_ne_nil_iff.2 hnil)
    have hlast : (Nat.digits 10 n).getLast hnil = d := by
      rw [← List.head_reverse (by rwa [List.reverse_ne_nil_iff])]
      simp only [hd, List.head_cons]
    have hpos : d ≠ 0 := hlast ▸ Nat.getLast_digit_ne_zero 10 h
    have hlt : d < 10 := natDigits_lt (n := n) (by
      rw [natDigits, if_neg h, hd]
      exact List.mem_cons_self ..)
    have hdigits := isDigits_natText n
    rw [htext, hd, List.map_cons] at hdigits ⊢
    have hne : digitUnit d ≠ 48 := fun e => hpos (digitUnit_injOn hlt (by norm_num) e)
    rw [isCanonicalDigits, if_neg hne, Bool.and_eq_true, List.all_eq_true]
    exact ⟨isDigitUnit_iff.2 (hdigits _ (List.mem_cons_self ..)),
      fun c hc => isDigitUnit_iff.2 (hdigits c (List.mem_cons_of_mem _ hc))⟩

/-- **What is read is written.**  No digit is lost, since the first is no zero.  Both texts have
the same digits, as the digits of a number to the base ten are unique. -/
theorem natText_digitsValue {s : JsString} (h : isCanonicalDigits s) :
    natText (digitsValue s) = s := by
  obtain ⟨c, rest, rfl⟩ : ∃ c rest, s = c :: rest := by
    cases s with
    | nil => cases h
    | cons c rest => exact ⟨c, rest, rfl⟩
  rw [isCanonicalDigits] at h
  split_ifs at h with hc
  · obtain rfl := List.isEmpty_iff.1 h
    subst hc
    decide
  · rw [Bool.and_eq_true, List.all_eq_true] at h
    have hdigits : ∀ u ∈ c :: rest, 48 ≤ u.toNat ∧ u.toNat ≤ 57 := fun u hu =>
      (List.mem_cons.1 hu).elim (fun e => isDigitUnit_iff.1 (e ▸ h.1)) fun hu =>
        isDigitUnit_iff.1 (h.2 u hu)
    have hpos : c.toNat - 48 ≠ 0 := fun e => hc (UInt16.toNat_inj.1 (by
      have := hdigits c (List.mem_cons_self ..)
      show c.toNat = 48
      omega))
    -- the digits read are those of the number they stand for
    have hread : Nat.digits 10 (digitsValue (c :: rest)) =
        ((c :: rest).map fun u => u.toNat - 48).reverse := by
      rw [digitsValue_eq]
      refine Nat.digits_ofDigits 10 (by norm_num) _ (fun d hd => ?_) fun hne => ?_
      · obtain ⟨u, hu, rfl⟩ := List.mem_map.1 (List.mem_reverse.1 hd)
        have := hdigits u hu
        omega
      · simpa using hpos
    have hzero : digitsValue (c :: rest) ≠ 0 := fun e => by
      rw [e] at hread
      simp at hread
    have hunit : ∀ u ∈ c :: rest, (digitUnit ∘ fun u : UInt16 => u.toNat - 48) u = id u :=
      fun u hu => UInt16.toNat_inj.1 (by
        have := hdigits u hu
        rw [Function.comp_apply, digitUnit_toNat (by omega), id]
        omega)
    rw [natText, natDigits, if_neg hzero, hread, List.reverse_reverse, List.map_map,
      List.map_congr_left hunit, List.map_id]

/-! ### Integers as numbers -/

/-- The text of a multiple of a power of ten ends in as many zeros. -/
theorem natText_mul_pow {m : ℕ} (hm : 0 < m) (k : ℕ) :
    natText (m * 10 ^ k) = natText m ++ List.replicate k 48 := by
  have hmul : m * 10 ^ k ≠ 0 := by positivity
  rw [natText, natText, natDigits, natDigits, if_neg hmul, if_neg hm.ne', Nat.mul_comm,
    Nat.digits_base_pow_mul (by norm_num) hm, List.reverse_append, List.reverse_replicate,
    List.map_append, List.map_replicate]
  rfl

/-- A number below a power of ten has no more digits than the exponent. -/
theorem length_natText_le {n k : ℕ} (h : n < 10 ^ k) (hk : 0 < k) : (natText n).length ≤ k := by
  rw [natText, List.length_map, natDigits]
  split_ifs with h0
  · exact hk
  · rw [List.length_reverse]
    exact (Nat.digits_length_le_iff (by norm_num) n).2 h

/-- **An integer is printed as its decimals**, below `10 ^ 21`.  From there on the language
writes an exponent. -/
theorem text_ofNat {n : ℕ} (h : n < 10 ^ 21) : (FiniteNumber.ofNat n).text = natText n := by
  unfold FiniteNumber.ofNat
  split_ifs with h0
  · subst h0
    rfl
  · have hpos : 0 < (stripZeros n n).1 := Nat.pos_of_ne_zero fun e => by
      have hlowest := stripZeros_lowest h0 le_rfl
      rw [e] at hlowest
      exact hlowest rfl
    have htext : natText n =
        natText (stripZeros n n).1 ++ List.replicate (stripZeros n n).2 48 := by
      rw [← natText_mul_pow hpos, stripZeros_eq]
    have hlen : (natText (stripZeros n n).1).length + (stripZeros n n).2 ≤ 21 := by
      have hle := length_natText_le h (by norm_num)
      rwa [htext, List.length_append, List.length_replicate] at hle
    have hlayout : layout (natText (stripZeros n n).1)
        ((natText (stripZeros n n).1).length + ((stripZeros n n).2 : ℤ)) =
          natText (stripZeros n n).1 ++ List.replicate (stripZeros n n).2 48 := by
      unfold layout
      rw [if_pos ⟨by omega, by exact_mod_cast hlen⟩, add_sub_cancel_left, Int.toNat_natCast]
    exact hlayout.trans htext.symm

/-- The number an integer stands for, with the sign of zero forgotten.  A number is strictly
equal to the integer it stands for, and only the zeros are so in two ways. -/
theorem unsigned_eq_ofNat {x : FiniteNumber} {n : ℕ} (h : x.toInt? = some (n : ℤ)) :
    x.unsigned = .ofNat n := by
  have hsame := FiniteNumber.same_of_toInt? h (FiniteNumber.toInt?_ofNat n)
  cases x with
  | zero negative =>
      obtain rfl : n = 0 := by
        have : (0 : ℤ) = n := Option.some.inj h
        omega
      rfl
  | nonzero negative d =>
      cases hn : FiniteNumber.ofNat n with
      | zero s =>
          rw [hn] at hsame
          cases hsame
      | nonzero s d' =>
          rw [hn] at hsame
          obtain ⟨rfl, rfl⟩ : negative = s ∧ d = d' := by simpa [FiniteNumber.same] using hsame
          rfl

end NewtonDB
