/-
# UTF-8

`Buffer.from(text, "utf8")` and a fatal `TextDecoder`.  Encoding replaces an
unpaired surrogate by `U+FFFD`; decoding refuses what is not the encoding of a
scalar value.  A well-formed string, one without unpaired surrogates, is read
back as it was written (`utf8Decode_utf8Encode`).
-/

import NewtonDB.Js.Text

namespace NewtonDB

/-- Half of a surrogate pair. -/
def isSurrogate (c : UInt16) : Bool := isHighSurrogate c || isLowSurrogate c

/-- `String.prototype.isWellFormed`. -/
def isWellFormed : JsString → Bool
  | [] => true
  | [c] => !isSurrogate c
  | c :: d :: rest =>
      if isHighSurrogate c && isLowSurrogate d then isWellFormed rest
      else !isSurrogate c && isWellFormed (d :: rest)

/-- The bytes of a scalar value. -/
def scalarBytes (n : ℕ) : List UInt8 :=
  if n < 0x80 then [n.toUInt8]
  else if n < 0x800 then [(0xC0 + n / 64).toUInt8, (0x80 + n % 64).toUInt8]
  else if n < 0x10000 then
    [(0xE0 + n / 4096).toUInt8, (0x80 + n / 64 % 64).toUInt8, (0x80 + n % 64).toUInt8]
  else
    [(0xF0 + n / 262144).toUInt8, (0x80 + n / 4096 % 64).toUInt8, (0x80 + n / 64 % 64).toUInt8,
      (0x80 + n % 64).toUInt8]

/-- The scalar value of a surrogate pair. -/
def pairScalar (c d : UInt16) : ℕ := 0x10000 + (c.toNat - 0xD800) * 0x400 + (d.toNat - 0xDC00)

/-- The code units of a scalar value. -/
def scalarUnits (n : ℕ) : JsString :=
  if n < 0x10000 then [n.toUInt16]
  else [(0xD800 + (n - 0x10000) / 0x400).toUInt16, (0xDC00 + (n - 0x10000) % 0x400).toUInt16]

/-- The bytes of one unit standing alone. -/
def unitUtf8 (c : UInt16) : List UInt8 :=
  if isSurrogate c then [0xEF, 0xBF, 0xBD] else scalarBytes c.toNat

/-- `Buffer.from(text, "utf8")`. -/
def utf8Encode : JsString → List UInt8
  | [] => []
  | [c] => unitUtf8 c
  | c :: d :: rest =>
      if isHighSurrogate c && isLowSurrogate d then scalarBytes (pairScalar c d) ++ utf8Encode rest
      else unitUtf8 c ++ utf8Encode (d :: rest)

/-- The low bits of a continuation byte. -/
def continuation? (b : UInt8) : Option ℕ :=
  if 0x80 ≤ b.toNat ∧ b.toNat < 0xC0 then some (b.toNat - 0x80) else none

/-- A sequence of two bytes, after its first. -/
def decodeTwo (a : ℕ) : List UInt8 → Option (ℕ × List UInt8)
  | b :: rest => do
      let y ← continuation? b
      let n := (a - 0xC0) * 64 + y
      if 0xC0 ≤ a ∧ 0x80 ≤ n then some (n, rest) else none
  | _ => none

/-- A sequence of three bytes, after its first. -/
def decodeThree (a : ℕ) : List UInt8 → Option (ℕ × List UInt8)
  | b :: c :: rest => do
      let y ← continuation? b
      let z ← continuation? c
      let n := ((a - 0xE0) * 64 + y) * 64 + z
      if 0x800 ≤ n ∧ ¬(0xD800 ≤ n ∧ n ≤ 0xDFFF) then some (n, rest) else none
  | _ => none

/-- A sequence of four bytes, after its first. -/
def decodeFour (a : ℕ) : List UInt8 → Option (ℕ × List UInt8)
  | b :: c :: d :: rest => do
      let y ← continuation? b
      let z ← continuation? c
      let w ← continuation? d
      let n := (((a - 0xF0) * 64 + y) * 64 + z) * 64 + w
      if 0x10000 ≤ n ∧ n ≤ 0x10FFFF then some (n, rest) else none
  | _ => none

/-- The scalar value the bytes begin with, and the bytes after it. -/
def decodeScalar : List UInt8 → Option (ℕ × List UInt8)
  | [] => none
  | a :: rest =>
      if a.toNat < 0x80 then some (a.toNat, rest)
      else if a.toNat < 0xE0 then decodeTwo a.toNat rest
      else if a.toNat < 0xF0 then decodeThree a.toNat rest
      else decodeFour a.toNat rest

/-- The units of a string of bytes, with `fuel` for each of its scalar values. -/
def decodeScalars : ℕ → List UInt8 → Option JsString
  | _, [] => some []
  | 0, _ :: _ => none
  | fuel + 1, bytes => (decodeScalar bytes).bind fun (n, rest) =>
      (decodeScalars fuel rest).map (scalarUnits n ++ ·)

/-- `new TextDecoder("utf-8", { fatal: true }).decode(bytes)`, of bytes without a
byte-order mark. -/
def utf8Decode (bytes : List UInt8) : Option JsString := decodeScalars bytes.length bytes

/-! ### Reading back -/

/-- A number below 256 fits in a byte. -/
theorem toNat_toUInt8 {n : ℕ} (h : n < 256) : n.toUInt8.toNat = n := by
  rw [Nat.toUInt8, UInt8.toNat_ofNat', Nat.mod_eq_of_lt h]

/-- Six bits are read from the byte they were put in. -/
theorem continuation?_toUInt8 {n : ℕ} (h : n < 64) : continuation? (128 + n).toUInt8 = some n := by
  have hb : (128 + n).toUInt8.toNat = 128 + n := toNat_toUInt8 (by omega)
  unfold continuation?
  rw [hb, if_pos ⟨Nat.le_add_right .., by omega⟩, Nat.add_sub_cancel_left]

/-- A scalar value is a code point that is not half of a surrogate pair. -/
def IsScalar (n : ℕ) : Prop := n ≤ 0x10FFFF ∧ ¬(0xD800 ≤ n ∧ n ≤ 0xDFFF)

section

variable {a x y z n : ℕ} {b c d : UInt8} (rest : List UInt8)

/-- Two bytes stand for the number made of their bits, unless one byte would have done. -/
theorem decodeTwo_eq (hb : continuation? b = some x) (ha : 192 ≤ a)
    (hn : (a - 192) * 64 + x = n) (hlow : 128 ≤ n) :
    decodeTwo a (b :: rest) = some (n, rest) := by
  subst hn
  simp [decodeTwo, hb, ha, hlow]

/-- Three bytes stand for the number made of their bits, unless fewer would have done or it is a
surrogate. -/
theorem decodeThree_eq (hb : continuation? b = some x) (hc : continuation? c = some y)
    (hn : ((a - 224) * 64 + x) * 64 + y = n) (hlow : 2048 ≤ n)
    (hscalar : ¬(55296 ≤ n ∧ n ≤ 57343)) :
    decodeThree a (b :: c :: rest) = some (n, rest) := by
  subst hn
  simp only [decodeThree, hb, hc, Option.bind_eq_bind, Option.bind_some]
  rw [if_pos ⟨hlow, hscalar⟩]

/-- Four bytes stand for the number made of their bits, unless fewer would have done or it is
beyond the last scalar. -/
theorem decodeFour_eq (hb : continuation? b = some x) (hc : continuation? c = some y)
    (hd : continuation? d = some z) (hn : (((a - 240) * 64 + x) * 64 + y) * 64 + z = n)
    (hlow : 65536 ≤ n) (hmax : n ≤ 1114111) :
    decodeFour a (b :: c :: d :: rest) = some (n, rest) := by
  subst hn
  simp only [decodeFour, hb, hc, hd, Option.bind_eq_bind, Option.bind_some]
  rw [if_pos ⟨hlow, hmax⟩]

end

/-- **The bytes of a scalar value decode to it.**  One byte, or as many as the scalar needs, of
which the first says how many. -/
theorem decodeScalar_scalarBytes {n : ℕ} (h : IsScalar n) (rest : List UInt8) :
    decodeScalar (scalarBytes n ++ rest) = some (n, rest) := by
  obtain ⟨hmax, hsurrogate⟩ := h
  have hlow : continuation? (128 + n % 64).toUInt8 = some (n % 64) :=
    continuation?_toUInt8 (by omega)
  have hmid : continuation? (128 + n / 64 % 64).toUInt8 = some (n / 64 % 64) :=
    continuation?_toUInt8 (by omega)
  have hhigh : continuation? (128 + n / 4096 % 64).toUInt8 = some (n / 4096 % 64) :=
    continuation?_toUInt8 (by omega)
  unfold scalarBytes
  split_ifs with h1 h2 h3
  · have ha : n.toUInt8.toNat = n := toNat_toUInt8 (by omega)
    rw [List.singleton_append, decodeScalar, ha, if_pos h1]
  · have ha : (192 + n / 64).toUInt8.toNat = 192 + n / 64 := toNat_toUInt8 (by omega)
    rw [List.cons_append, decodeScalar, ha, if_neg (by omega), if_pos (by omega)]
    exact decodeTwo_eq rest hlow (by omega) (by omega) (by omega)
  · have ha : (224 + n / 4096).toUInt8.toNat = 224 + n / 4096 := toNat_toUInt8 (by omega)
    rw [List.cons_append, decodeScalar, ha, if_neg (by omega), if_neg (by omega), if_pos (by omega)]
    exact decodeThree_eq rest hmid hlow (by omega) (by omega) hsurrogate
  · have ha : (240 + n / 262144).toUInt8.toNat = 240 + n / 262144 := toNat_toUInt8 (by omega)
    rw [List.cons_append, decodeScalar, ha, if_neg (by omega), if_neg (by omega),
      if_neg (by omega)]
    exact decodeFour_eq rest hhigh hmid hlow (by omega) (by omega) hmax

/-- Every scalar has a byte. -/
theorem length_scalarBytes_pos (n : ℕ) : 0 < (scalarBytes n).length := by
  unfold scalarBytes
  split_ifs <;> simp

/-- **The bytes of a scalar are decoded as it**, and the decoder goes on behind them.  The cases
are those of the number of bytes. -/
theorem decodeScalars_scalarBytes {n fuel : ℕ} (h : IsScalar n) (rest : List UInt8) :
    decodeScalars (fuel + 1) (scalarBytes n ++ rest) =
      (decodeScalars fuel rest).map (scalarUnits n ++ ·) := by
  have hd := decodeScalar_scalarBytes h rest
  cases hb : scalarBytes n with
  | nil =>
      have := length_scalarBytes_pos n
      rw [hb] at this
      cases this
  | cons a t =>
      rw [hb] at hd
      show (decodeScalar (a :: t ++ rest)).bind _ = _
      rw [hd, Option.bind_some]

/-- A unit that is not half of a pair is a scalar value. -/
theorem isScalar_unit {c : UInt16} (h : isSurrogate c = false) : IsScalar c.toNat := by
  have hlt := c.toNat_lt
  simp only [isSurrogate, isHighSurrogate, isLowSurrogate, Bool.or_eq_false_iff,
    Bool.and_eq_false_iff, decide_eq_false_iff_not, UInt16.le_iff_toNat_le, UInt16.toNat_ofNat] at h
  refine ⟨by omega, ?_⟩
  omega

/-- A unit is the only one of its scalar. -/
theorem scalarUnits_unit (c : UInt16) : scalarUnits c.toNat = [c] := by
  have hlt := c.toNat_lt
  rw [scalarUnits, if_pos (by omega), Nat.toUInt16, UInt16.ofNat_toNat]

/-- The bounds of the two halves of a pair. -/
theorem bounds_of_pair {c d : UInt16} (h : (isHighSurrogate c && isLowSurrogate d) = true) :
    (55296 ≤ c.toNat ∧ c.toNat ≤ 56319) ∧ 56320 ≤ d.toNat ∧ d.toNat ≤ 57343 := by
  simpa only [isHighSurrogate, isLowSurrogate, Bool.and_eq_true, decide_eq_true_eq,
    UInt16.le_iff_toNat_le, UInt16.toNat_ofNat] using h

/-- A pair of surrogates stands for a scalar. -/
theorem isScalar_pair {c d : UInt16} (h : (isHighSurrogate c && isLowSurrogate d) = true) :
    IsScalar (pairScalar c d) := by
  obtain ⟨⟨hc, hc'⟩, hd, hd'⟩ := bounds_of_pair h
  unfold pairScalar IsScalar
  omega

/-- The units of that scalar are the pair again.  The scalar is above `0xFFFF`, so it is taken
apart into ten bits and ten bits. -/
theorem scalarUnits_pair {c d : UInt16} (h : (isHighSurrogate c && isLowSurrogate d) = true) :
    scalarUnits (pairScalar c d) = [c, d] := by
  obtain ⟨⟨hc, hc'⟩, hd, hd'⟩ := bounds_of_pair h
  have hle : ¬pairScalar c d < 65536 := by unfold pairScalar; omega
  have hhigh : 55296 + (pairScalar c d - 65536) / 1024 = c.toNat := by unfold pairScalar; omega
  have hlow : 56320 + (pairScalar c d - 65536) % 1024 = d.toNat := by unfold pairScalar; omega
  rw [scalarUnits, if_neg hle, hhigh, hlow]
  simp only [Nat.toUInt16, UInt16.ofNat_toNat]

/-- A unit that is no surrogate is encoded alone, before the rest. -/
theorem utf8Encode_cons {c : UInt16} (h : isSurrogate c = false) (s : JsString) :
    utf8Encode (c :: s) = scalarBytes c.toNat ++ utf8Encode s := by
  have hc : isHighSurrogate c = false := (Bool.or_eq_false_iff.1 h).1
  have hunit : unitUtf8 c = scalarBytes c.toNat := by simp [unitUtf8, h]
  cases s with
  | nil => exact hunit.trans (List.append_nil _).symm
  | cons d rest => rw [utf8Encode, hc, Bool.false_and, if_neg (by simp), hunit]

/-- **A well-formed string is its scalar values, one after the other.**  A unit that is no
surrogate, or a pair of them, comes first. -/
theorem isWellFormed_induction {P : JsString → Prop} (hnil : P [])
    (hunit : ∀ c s, isSurrogate c = false → isWellFormed s → P s → P (c :: s))
    (hpair : ∀ c d s, (isHighSurrogate c && isLowSurrogate d) = true → isWellFormed s → P s →
      P (c :: d :: s)) : ∀ s, isWellFormed s → P s
  | [], _ => hnil
  | [c], h => hunit c [] (by simpa [isWellFormed] using h) rfl hnil
  | c :: d :: rest, h => by
      unfold isWellFormed at h
      split_ifs at h with hp
      · exact hpair c d rest hp h (isWellFormed_induction hnil hunit hpair rest h)
      · obtain ⟨hc, hrest⟩ := Bool.and_eq_true_iff.1 h
        exact hunit c _ (by simpa using hc) hrest
          (isWellFormed_induction hnil hunit hpair (d :: rest) hrest)

/-- **What is encoded is decoded.**  By induction on the scalar values.  Each takes one to four
bytes, whose first one tells how many. -/
theorem utf8Decode_utf8Encode {s : JsString} (h : isWellFormed s) :
    utf8Decode (utf8Encode s) = some s := by
  have key : ∀ s, isWellFormed s → ∀ fuel, (utf8Encode s).length ≤ fuel →
      decodeScalars fuel (utf8Encode s) = some s := by
    -- one scalar value uses one unit of fuel, and has a byte at least
    have step : ∀ {n : ℕ} {units s : JsString}, IsScalar n → scalarUnits n = units →
        (∀ fuel, (utf8Encode s).length ≤ fuel → decodeScalars fuel (utf8Encode s) = some s) →
        ∀ fuel, (scalarBytes n ++ utf8Encode s).length ≤ fuel →
          decodeScalars fuel (scalarBytes n ++ utf8Encode s) = some (units ++ s) := by
      intro n units s hn hunits ih fuel hf
      have hpos := length_scalarBytes_pos n
      rw [List.length_append] at hf
      obtain ⟨fuel, rfl⟩ : ∃ k, fuel = k + 1 := ⟨fuel - 1, by omega⟩
      rw [decodeScalars_scalarBytes hn, ih fuel (by omega), hunits, Option.map_some]
    refine isWellFormed_induction (fun fuel _ => ?_) (fun c s hc hs ih => ?_)
      fun c d s hp hs ih => ?_
    · cases fuel <;> rfl
    · rw [utf8Encode_cons hc]
      exact step (isScalar_unit hc) (scalarUnits_unit c) ih
    · rw [utf8Encode, if_pos hp]
      exact step (isScalar_pair hp) (scalarUnits_pair hp) ih
  exact key s h _ le_rfl

/-- **Well-formed strings one after the other are a well-formed string.**  By induction on the
first; no pair is broken where they meet. -/
theorem isWellFormed_append {s t : JsString} (hs : isWellFormed s) (ht : isWellFormed t) :
    isWellFormed (s ++ t) := by
  refine isWellFormed_induction (P := fun s => isWellFormed (s ++ t)) ht
    (fun c s hc hs ih => ?_) (fun c d s hp hs ih => ?_) s hs
  · have hhigh : isHighSurrogate c = false := (Bool.or_eq_false_iff.1 hc).1
    rw [List.cons_append]
    cases hst : s ++ t with
    | nil => simp [isWellFormed, hc]
    | cons d rest =>
        rw [hst] at ih
        rw [isWellFormed, hhigh, Bool.false_and, if_neg (by simp), hc]
        exact ih
  · rw [List.cons_append, List.cons_append, isWellFormed, if_pos hp]
    exact ih

/-- A string without surrogates is well-formed. -/
theorem isWellFormed_of_forall {s : JsString} (h : ∀ c ∈ s, isSurrogate c = false) :
    isWellFormed s := by
  induction s with
  | nil => rfl
  | cons c s ih =>
      have hc : isWellFormed [c] := by simp [isWellFormed, h c (List.mem_cons_self ..)]
      exact isWellFormed_append hc (ih fun d hd => h d (List.mem_cons_of_mem _ hd))

end NewtonDB
