/-
# Strings of UTF-16 code units

An ECMAScript string is a sequence of 16-bit code units, surrogates paired or
not.  `JsString` is that sequence; `length`, `===` and `<` of the language are
`List.length`, equality and the lexicographic order.  `utf8Length` is the byte
length `TextEncoder.encode` and `Buffer.byteLength` produce: a surrogate pair is
one four-byte scalar and an unpaired surrogate becomes `U+FFFD`, three bytes.
-/

import Mathlib.Data.Nat.Digits.Defs
import Mathlib.Data.Nat.Digits.Lemmas

namespace NewtonDB

/-- A string of the language: its UTF-16 code units. -/
abbrev JsString := List UInt16

/-- The string with the given characters of the basic plane. -/
def js (s : String) : JsString := s.toList.map fun c => c.toNat.toUInt16

/-- The first unit of a surrogate pair. -/
def isHighSurrogate (c : UInt16) : Bool := 0xD800 ≤ c && c ≤ 0xDBFF

/-- The second unit of a surrogate pair. -/
def isLowSurrogate (c : UInt16) : Bool := 0xDC00 ≤ c && c ≤ 0xDFFF

/-- The UTF-8 length of one unit standing alone. -/
def unitBytes (c : UInt16) : ℕ := if c < 0x80 then 1 else if c < 0x800 then 2 else 3

/-- The number of bytes `TextEncoder.encode` produces. -/
def utf8Length : JsString → ℕ
  | [] => 0
  | [c] => unitBytes c
  | c :: d :: rest =>
      if isHighSurrogate c && isLowSurrogate d then 4 + utf8Length rest
      else unitBytes c + utf8Length (d :: rest)

/-- `\d`. -/
def isDigitUnit (c : UInt16) : Bool := 48 ≤ c && c ≤ 57

/-- The units of digits are those from `0` to `9`. -/
theorem isDigitUnit_iff {c : UInt16} : isDigitUnit c ↔ 48 ≤ c.toNat ∧ c.toNat ≤ 57 := by
  simp [isDigitUnit, UInt16.le_iff_toNat_le]

/-- The decimal digits of `n`, most significant first; `0` has one. -/
def natDigits (n : ℕ) : List ℕ := if n = 0 then [0] else (Nat.digits 10 n).reverse

/-- A decimal digit as a code unit. -/
def digitUnit (d : ℕ) : UInt16 := (48 + d).toUInt16

/-- `String(n)` of a natural number. -/
def natText (n : ℕ) : JsString := (natDigits n).map digitUnit

/-- The digits of a number are below ten. -/
theorem natDigits_lt {n d : ℕ} (h : d ∈ natDigits n) : d < 10 := by
  unfold natDigits at h
  split at h
  · simp at h; omega
  · exact Nat.digits_lt_base (by norm_num) (List.mem_reverse.1 h)

/-- A number has at least one digit. -/
theorem natDigits_ne_nil (n : ℕ) : natDigits n ≠ [] := by
  unfold natDigits
  split
  · simp
  · next h => simpa [Nat.digits_ne_nil_iff_ne_zero] using h

/-- Numbers of the same digits are the same.  A number is the value of its digits, and zero has
a digit of its own. -/
theorem natDigits_injective : Function.Injective natDigits := by
  intro a b h
  unfold natDigits at h
  -- a positive number has no leading zero, so its digits are not those of `0`
  have key : ∀ n ≠ 0, (Nat.digits 10 n).reverse ≠ [0] := fun n hn he => by
    have h1 : Nat.digits 10 n = [0] := by rw [← List.reverse_reverse (Nat.digits 10 n), he]; rfl
    have h2 := Nat.ofDigits_digits 10 n
    rw [h1] at h2
    exact hn (by simpa [Nat.ofDigits] using h2.symm)
  split at h <;> split at h
  · omega
  · next hb => exact absurd h.symm (key b hb)
  · next ha _ => exact absurd h (key a ha)
  · exact Nat.digits_inj_iff.1 (List.reverse_injective h)

/-- The unit of a digit is that many after `0`. -/
theorem digitUnit_toNat {d : ℕ} (h : d < 10) : (digitUnit d).toNat = 48 + d := by
  unfold digitUnit
  rw [Nat.toUInt16, UInt16.toNat_ofNat']
  omega

/-- Digits of the same unit are the same. -/
theorem digitUnit_injOn {a b : ℕ} (ha : a < 10) (hb : b < 10) (h : digitUnit a = digitUnit b) :
    a = b := by
  have := congrArg UInt16.toNat h
  rw [digitUnit_toNat ha, digitUnit_toNat hb] at this
  omega

/-- Distinct lists of digits print differently.  By recursion on both lists; ten digits have ten
units. -/
theorem map_digitUnit_injOn : ∀ {l l' : List ℕ}, (∀ d ∈ l, d < 10) → (∀ d ∈ l', d < 10) →
    l.map digitUnit = l'.map digitUnit → l = l'
  | [], [], _, _, _ => rfl
  | [], _ :: _, _, _, h => by simp at h
  | _ :: _, [], _, _, h => by simp at h
  | a :: l, b :: l', hl, hl', h => by
      rw [List.map_cons, List.map_cons, List.cons.injEq] at h
      rw [digitUnit_injOn (hl a (by simp)) (hl' b (by simp)) h.1,
        map_digitUnit_injOn (fun d hd => hl d (by simp [hd])) (fun d hd => hl' d (by simp [hd])) h.2]

/-- Distinct numbers print differently. -/
theorem natText_injective : Function.Injective natText := fun _ _ h =>
  natDigits_injective (map_digitUnit_injOn (fun _ => natDigits_lt) (fun _ => natDigits_lt) h)

end NewtonDB
