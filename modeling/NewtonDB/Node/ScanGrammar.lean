/-
# What the scan accepts

`assertNoDuplicateJsonKeys` against the grammar of JSON texts: **a text passes exactly when
it is a JSON text without a name twice in an object, within the limits on its values and
their nesting** (`scan_eq_ok_iff`).

In one direction a scan that ends has a derivation behind it, part by part
(`sound_parseValue`).  In the other the scan follows a derivation, as long as what
comes after a value cannot continue a number (`follows_of_derives`).
-/

import NewtonDB.Js.JsonGrammar
import NewtonDB.Lib.Except
import NewtonDB.Node.JsonDuplicates

namespace NewtonDB

/-! ### Strings -/

/-- The scanner and the grammar have the same hexadecimal digits. -/
theorem isHexUnit_iff {c : UInt16} : isHexUnit c = true ↔ IsHexDigit c := by
  simp only [isHexUnit, isDigitUnit, IsHexDigit, Bool.or_eq_true, Bool.and_eq_true,
    decide_eq_true_eq, UInt16.le_iff_toNat_le, or_assoc]
  rfl

/-- The scanner and the grammar have the same short escapes. -/
theorem isSimpleEscape_iff {e : UInt16} : isSimpleEscape e = true ↔ e ∈ shortEscapes := by
  simp [isSimpleEscape, shortEscapes, or_assoc]

/-- **The loop stops behind the closing quote of a string.**  By induction on the inside of the
string, an escape being two units or six. -/
theorem stringEnd_of_body {body : JsString} (h : StringBody body) (rest : JsString) :
    ∀ index, stringEnd (body ++ 34 :: rest) index = .ok (index + body.length + 1) := by
  induction h with
  | nil => exact fun index => by rw [List.nil_append, stringEnd.eq_def]; simp
  | @plain c body hquote hslash hc _ ih =>
      intro index
      have hlt : ¬c < 32 := by
        rw [UInt16.lt_iff_toNat_lt]
        exact not_lt.2 hc
      rw [List.cons_append, stringEnd.eq_def]
      simp only [if_neg hquote, if_neg hslash, if_neg hlt, ih, List.length_cons]
      congr 1
      omega
  | @short e body he _ ih =>
      intro index
      have hu : e ≠ 117 := fun hu => by
        rw [hu] at he
        exact absurd he (by decide)
      rw [List.cons_append, List.cons_append, stringEnd.eq_def]
      simp only [if_neg (show ¬(92 : UInt16) = 34 by decide), if_true, if_neg hu,
        if_pos (isSimpleEscape_iff.2 he), ih, List.length_cons]
      congr 1
      omega
  | @unicode a b c d body ha hb hc hd _ ih =>
      intro index
      simp only [List.cons_append]
      rw [stringEnd.eq_def]
      simp only [if_neg (show ¬(92 : UInt16) = 34 by decide), if_true, isHexUnit_iff.2 ha,
        isHexUnit_iff.2 hb, isHexUnit_iff.2 hc, isHexUnit_iff.2 hd, Bool.and_true, ih,
        List.length_cons]
      congr 1
      omega

/-- **Before a quote where the loop stops there is the inside of a string.**  It has neither a
bare quote nor a control character, and its escapes are those of the grammar. -/
theorem body_of_stringEnd {text : JsString} {index stop : ℕ} (h : stringEnd text index = .ok stop) :
    ∃ body rest, text = body ++ 34 :: rest ∧ StringBody body ∧ stop = index + body.length + 1 := by
  fun_induction stringEnd text index with
  | case2 rest index => exact ⟨[], rest, rfl, .nil, (Except.ok.inj h).symm⟩
  | case4 index a b c d rest hhex _ ih =>
      obtain ⟨body, rest, rfl, hbody, rfl⟩ := ih h
      simp only [Bool.and_eq_true, isHexUnit_iff] at hhex
      obtain ⟨⟨⟨ha, hb⟩, hc⟩, hd⟩ := hhex
      exact ⟨_, rest, rfl, .unicode ha hb hc hd hbody, by simp only [List.length_cons]; omega⟩
  | case7 index e rest hu he _ ih =>
      obtain ⟨body, rest, rfl, hbody, rfl⟩ := ih h
      exact ⟨_, rest, rfl, .short (isSimpleEscape_iff.1 he) hbody, by
        simp only [List.length_cons]; omega⟩
  | case10 c rest index hq hs hc ih =>
      obtain ⟨body, rest, rfl, hbody, rfl⟩ := ih h
      rw [UInt16.lt_iff_toNat_lt, not_lt] at hc
      exact ⟨_, rest, rfl, .plain hq hs hc hbody, by simp only [List.length_cons]; omega⟩
  | _ => cases h

/-! ### Numbers -/

/-- What comes after a number: nothing, or a unit that cannot continue one. -/
def StopsNumber (rest : JsString) : Prop :=
  ∀ c ∈ rest.head?, isDigitUnit c = false ∧ c ≠ 46 ∧ c ≠ 101 ∧ c ≠ 69

/-- The scanner and the grammar have the same digits. -/
theorem isDigits_iff {s : JsString} : IsDigits s ↔ ∀ c ∈ s, isDigitUnit c = true := by
  simp only [IsDigits, isDigitUnit_iff]

/-- Digits are read up to what is none. -/
theorem digitsLength_append {s rest : JsString} (hs : IsDigits s)
    (hrest : ∀ c ∈ rest.head?, isDigitUnit c = false) : digitsLength (s ++ rest) = s.length := by
  unfold digitsLength
  rw [List.takeWhile_append_of_pos (isDigits_iff.1 hs)]
  cases rest with
  | nil => simp
  | cons c rest => simp [hrest c rfl]

/-- The digits a text begins with. -/
theorem isDigits_take (text : JsString) : IsDigits (text.take (digitsLength text)) ∧
    (text.take (digitsLength text)).length = digitsLength text := by
  have htake : text.take (digitsLength text) = text.takeWhile isDigitUnit := by
    rw [digitsLength]
    exact (List.prefix_iff_eq_take.1 (List.takeWhile_prefix _)).symm
  rw [htake]
  exact ⟨isDigits_iff.2 fun c hc => List.mem_takeWhile_imp hc, rfl⟩

/-- Where digits are read, there is one. -/
theorem take_ne_nil {text : JsString} (h : digitsLength text ≠ 0) :
    text.take (digitsLength text) ≠ [] := fun he => by
  have hlen := (isDigits_take text).2
  rw [he] at hlen
  exact h hlen.symm

/-- The integer part of a number is read up to what is no digit.  A zero in front ends it at
once, and so does nothing else. -/
theorem integerLength_append {s rest : JsString} (hs : IntegerText s)
    (hrest : ∀ c ∈ rest.head?, isDigitUnit c = false) :
    integerLength (s ++ rest) = some s.length := by
  cases hs with
  | zero => rfl
  | @digits c s hdigits hc =>
      have hunit : isDigitUnit c := isDigits_iff.1 hdigits c (List.mem_cons_self ..)
      have hs : IsDigits s := fun d hd => hdigits d (List.mem_cons_of_mem _ hd)
      rw [List.cons_append, integerLength, if_neg hc, if_pos hunit, digitsLength_append hs hrest,
        List.length_cons, Nat.add_comm]

/-- What is read as an integer part is one.  It is a zero, or digits the first of which is no
zero. -/
theorem integerText_take {text : JsString} {n : ℕ} (h : integerLength text = some n) :
    IntegerText (text.take n) := by
  cases text with
  | nil => cases h
  | cons c rest =>
      rw [integerLength] at h
      split_ifs at h with hzero hdigit
      · obtain rfl := Option.some.inj h
        rw [hzero]
        exact .zero
      · obtain rfl := Option.some.inj h
        rw [Nat.add_comm, List.take_succ_cons]
        refine .digits (fun d hd => ?_) hzero
        rcases List.mem_cons.1 hd with rfl | hd
        · exact isDigitUnit_iff.1 hdigit
        · exact (isDigits_take rest).1 d hd

/-- The fraction of a number is read up to what is no digit.  Without a full stop there is no
fraction, and nothing is read. -/
theorem fractionLength_append {s rest : JsString} (hs : FractionText s)
    (hrest : ∀ c ∈ rest.head?, isDigitUnit c = false ∧ c ≠ 46) :
    fractionLength (s ++ rest) = s.length := by
  cases hs with
  | none =>
      cases rest with
      | nil => rfl
      | cons c rest => exact if_neg fun hc => (hrest c rfl).2 hc.1
  | @digits s hs hne =>
      have hlen := digitsLength_append hs fun c hc => (hrest c hc).1
      have hpos := List.length_pos_of_ne_nil hne
      rw [List.cons_append, fractionLength, hlen, if_pos ⟨rfl, by omega⟩, List.length_cons,
        Nat.add_comm]

/-- What is read as a fraction is one, perhaps an empty one.  A full stop without a digit behind
it is not read. -/
theorem fractionText_take (text : JsString) : FractionText (text.take (fractionLength text)) := by
  cases text with
  | nil => exact .none
  | cons c rest =>
      rw [fractionLength]
      split_ifs with h
      · obtain ⟨rfl, hdigits⟩ := h
        rw [Nat.add_comm, List.take_succ_cons]
        exact .digits (isDigits_take rest).1 (take_ne_nil hdigits)
      · exact .none

/-- The exponent of a number is read up to what stops a number.  Its sign may be missing, and
then the digits follow at once. -/
theorem exponentLength_append {s rest : JsString} (hs : ExponentText s)
    (hrest : StopsNumber rest) : exponentLength (s ++ rest) = s.length := by
  have hdigit : ∀ c ∈ rest.head?, isDigitUnit c = false := fun c hc => (hrest c hc).1
  cases hs with
  | none =>
      cases rest with
      | nil => rfl
      | cons c rest =>
          obtain ⟨-, -, h1, h2⟩ := hrest c rfl
          exact if_neg fun hc => hc.1.elim h1 h2
  | @unsigned e s he hs hne =>
      obtain ⟨c, t, rfl⟩ := List.exists_cons_of_ne_nil hne
      have hsign : signLength (c :: t ++ rest) = 0 := if_neg fun hc => by
        have := hs c (List.mem_cons_self ..)
        rcases hc with rfl | rfl <;> exact absurd this (by decide)
      rw [List.cons_append, exponentLength]
      simp only [hsign, List.drop_zero, digitsLength_append hs hdigit]
      rw [if_pos ⟨he, by simp⟩, List.length_cons (a := e)]
      omega
  | @signed e sign s he hsign hs hne =>
      have hone : signLength (sign :: (s ++ rest)) = 1 := if_pos hsign
      have hpos := List.length_pos_of_ne_nil hne
      rw [List.cons_append, List.cons_append, exponentLength]
      simp only [hone, List.drop_one, List.tail_cons, digitsLength_append hs hdigit]
      rw [if_pos ⟨he, by omega⟩, List.length_cons, List.length_cons]
      omega

/-- What is read as an exponent is one, perhaps an empty one.  An `e` without a digit behind it
is not read. -/
theorem exponentText_take (text : JsString) : ExponentText (text.take (exponentLength text)) := by
  cases text with
  | nil => exact .none
  | cons e rest =>
      unfold exponentLength
      dsimp only
      split_ifs with h
      · obtain ⟨he, hdigits⟩ := h
        cases rest with
        | nil => exact absurd rfl hdigits
        | cons c rest =>
            by_cases hc : c = 43 ∨ c = 45
            · have hone : signLength (c :: rest) = 1 := if_pos hc
              rw [hone, List.drop_one, List.tail_cons] at hdigits
              rw [hone, List.drop_one, List.tail_cons, Nat.add_comm, ← Nat.add_assoc,
                List.take_succ_cons, List.take_succ_cons]
              exact .signed he hc (isDigits_take rest).1 (take_ne_nil hdigits)
            · have hzero : signLength (c :: rest) = 0 := if_neg hc
              rw [hzero, List.drop_zero] at hdigits
              rw [hzero, List.drop_zero, Nat.add_zero, Nat.add_comm, List.take_succ_cons]
              exact .unsigned he (isDigits_take _).1 (take_ne_nil hdigits)
      · exact .none

/-- A number without its sign is read up to what stops it.  The three parts are read one after
the other, each up to where the next one starts. -/
theorem unsignedLength_append {s rest : JsString} (hs : UnsignedText s) (hrest : StopsNumber rest) :
    unsignedLength (s ++ rest) = some s.length := by
  obtain ⟨hinteger, hfraction, hexponent⟩ := hs
  rename_i integer fraction exponent
  have hexp : ∀ c ∈ (exponent ++ rest).head?, isDigitUnit c = false ∧ c ≠ 46 := by
    intro c hc
    cases hexponent with
    | none => exact ⟨(hrest c hc).1, (hrest c hc).2.1⟩
    | unsigned he => cases hc; rcases he with rfl | rfl <;> exact by decide
    | signed he => cases hc; rcases he with rfl | rfl <;> exact by decide
  have hfrac : ∀ c ∈ (fraction ++ (exponent ++ rest)).head?, isDigitUnit c = false := by
    intro c hc
    cases hfraction with
    | none => exact (hexp c hc).1
    | digits => cases hc; decide
  have hdrop : (integer ++ (fraction ++ (exponent ++ rest))).drop
      (integer.length + fraction.length) = exponent ++ rest := by
    rw [← List.append_assoc, ← List.length_append, List.drop_left]
  rw [List.append_assoc, List.append_assoc]
  simp only [unsignedLength, integerLength_append hinteger hfrac, Option.map_some, List.drop_left,
    fractionLength_append hfraction hexp, hdrop, exponentLength_append hexponent hrest,
    List.length_append, Nat.add_assoc]

/-- What is read as a number without a sign is one. -/
theorem unsignedText_take {text : JsString} {n : ℕ} (h : unsignedLength text = some n) :
    UnsignedText (text.take n) := by
  obtain ⟨integer, hinteger, rfl⟩ := Option.map_eq_some_iff.1 h
  dsimp only
  rw [List.take_add, List.take_add, List.append_assoc]
  exact .parts (integerText_take hinteger) (fractionText_take _) (exponentText_take _)

/-- **A number is matched whole.**  The parts are matched one after the other, each as far as it
goes. -/
theorem numberLength_append {s rest : JsString} (hs : NumberText s) (hrest : StopsNumber rest) :
    numberLength (s ++ rest) = some s.length := by
  cases hs with
  | unsigned hs =>
      have hhead : (s ++ rest).head? ≠ some 45 := by
        obtain ⟨hinteger, -, -⟩ := hs
        cases hinteger with
        | zero => simp
        | digits hdigits =>
            simp only [List.cons_append, List.head?_cons, ne_eq, Option.some.injEq]
            exact hdigits.ne_of_lt (List.mem_cons_self ..) (by decide)
      rw [numberLength, if_neg hhead, unsignedLength_append hs hrest]
  | negative hs =>
      rw [numberLength, List.cons_append, List.head?_cons, if_pos rfl, List.tail_cons,
        unsignedLength_append hs hrest]
      rfl

/-- **What is matched is a number.**  So the scan accepts no other text where a number is to
stand. -/
theorem numberText_take {text : JsString} {n : ℕ} (h : numberLength text = some n) :
    NumberText (text.take n) := by
  unfold numberLength at h
  split_ifs at h with hhead
  · obtain ⟨t, rfl⟩ : ∃ t, text = 45 :: t := by
      cases text with
      | nil => cases hhead
      | cons c t => exact ⟨t, by rw [Option.some.inj hhead]⟩
    obtain ⟨n, hn, rfl⟩ := Option.map_eq_some_iff.1 h
    rw [List.take_succ_cons]
    exact .negative (unsignedText_take hn)
  · exact .unsigned (unsignedText_take h)

/-! ### White space -/

/-- White space is a blank, a tab or one of two ends of a line. -/
theorem isJsonWhitespace_iff {c : UInt16} :
    isJsonWhitespace c = true ↔ c = 32 ∨ c = 9 ∨ c = 10 ∨ c = 13 := by
  simp only [isJsonWhitespace, Bool.or_eq_true, decide_eq_true_eq]
  tauto

/-- A text that does not begin with white space. -/
def StartsSolid (text : JsString) : Prop := ∀ c ∈ text.head?, isJsonWhitespace c = false

/-- A text that begins with a unit other than white space begins solid. -/
theorem startsSolid_cons {c : UInt16} (h : isJsonWhitespace c = false) (t : JsString) :
    StartsSolid (c :: t) := fun d hd => by
  cases hd
  exact h

/-- A unit that no number goes on with stops it. -/
theorem stopsNumber_cons {c : UInt16} (h : isDigitUnit c = false ∧ c ≠ 46 ∧ c ≠ 101 ∧ c ≠ 69)
    (rest : JsString) : StopsNumber (c :: rest) := fun d hd => by
  cases hd
  exact h

/-- White space ends a number. -/
theorem StopsNumber.blank {w rest : JsString} (hw : IsBlank w) (h : StopsNumber rest) :
    StopsNumber (w ++ rest) := by
  cases w with
  | nil => exact h
  | cons c w =>
      refine stopsNumber_cons ?_ _
      rcases hw c (List.mem_cons_self ..) with rfl | rfl | rfl | rfl <;> decide

namespace Scan

variable {w t : JsString} {index count : ℕ} {s : Scan}

/-- White space is read up to a solid text. -/
theorem takeWhile_of_blank (hw : IsBlank w) (ht : StartsSolid t) :
    (w ++ t).takeWhile isJsonWhitespace = w := by
  rw [List.takeWhile_append_of_pos fun c hc => isJsonWhitespace_iff.2 (hw c hc)]
  cases t with
  | nil => simp
  | cons c t => simp [ht c rfl]

/-- To skip white space leads to the solid text behind it. -/
theorem skipWhitespace_append (hw : IsBlank w) (ht : StartsSolid t) (index count : ℕ) :
    (⟨w ++ t, index, count⟩ : Scan).skipWhitespace = ⟨t, index + w.length, count⟩ := by
  simp [skipWhitespace, advance, takeWhile_of_blank hw ht]

/-- Before a solid text there is nothing to skip. -/
theorem skipWhitespace_of_startsSolid (ht : StartsSolid t) (index count : ℕ) :
    (⟨t, index, count⟩ : Scan).skipWhitespace = ⟨t, index, count⟩ :=
  skipWhitespace_append (w := []) (fun c hc => by cases hc) ht index count

/-- White space is skipped up to what is none.  The node count stays, and the position moves by
what was skipped. -/
theorem exists_skipWhitespace (s : Scan) : ∃ w, IsBlank w ∧ s.rest = w ++ s.skipWhitespace.rest ∧
    StartsSolid s.skipWhitespace.rest := by
  have hrest : s.skipWhitespace.rest = s.rest.dropWhile isJsonWhitespace := by
    have h := List.takeWhile_append_dropWhile (p := isJsonWhitespace) (l := s.rest)
    show s.rest.drop _ = _
    conv_lhs => rw [← h]
    exact List.drop_left' (by rw [h])
  refine ⟨s.rest.takeWhile isJsonWhitespace, fun c hc =>
    isJsonWhitespace_iff.1 (List.mem_takeWhile_imp hc), ?_, fun c hc => ?_⟩
  · rw [hrest, List.takeWhile_append_dropWhile]
  · rw [hrest] at hc
    have h := List.head?_dropWhile_not isJsonWhitespace s.rest
    rw [Option.mem_def.1 hc] at h
    simpa using h

/-- White space is skipped once. -/
theorem skipWhitespace_idem (s : Scan) :
    s.skipWhitespace.skipWhitespace = s.skipWhitespace := by
  obtain ⟨w, -, -, hsolid⟩ := s.exists_skipWhitespace
  exact skipWhitespace_of_startsSolid hsolid _ _

/-- White space before a value is skipped anyway.  To enter a value skips it, and there is no
more of it after the first time. -/
theorem parseValue_skipWhitespace (parse : JsString → Option Json) (levels depth : ℕ) (s : Scan) :
    s.skipWhitespace.parseValue parse levels depth = s.parseValue parse levels depth := by
  have h : s.skipWhitespace.enterValue depth = s.enterValue depth := by
    unfold enterValue
    congr 2
    exact congrArg Except.ok (congrArg (fun u : Scan => { u with nodes := s.nodes + 1 })
      s.skipWhitespace_idem)
  unfold parseValue
  rw [h]

/-! ### What was scanned -/

/-- What a scan has counted and checked on its way. -/
structure Passed (depth nodes height : ℕ) (names : Prop) (s s' : Scan) : Prop where
  nodes : s'.nodes = s.nodes + nodes
  room : s'.nodes ≤ maxScanNodes
  level : depth + height ≤ maxScanDepth
  names : names

/-- A value was scanned, with the white space before it. -/
structure ScannedValue (depth : ℕ) (v : JsonSyntax) (s s' : Scan) : Prop where
  text : ∃ w t, IsBlank w ∧ Derives (.value v) t ∧ s.rest = w ++ (t ++ s'.rest)
  passed : Passed depth v.nodes v.height v.NamesDistinct s s'

/-- Every value that is scanned is one of the grammar. -/
def Sound (value : Scan → Except ScanError Scan) (depth : ℕ) : Prop :=
  ∀ s s', value s = .ok s' → ∃ v, ScannedValue depth v s s'

variable {parse : JsString → Option Json} {value : Scan → Except ScanError Scan} {depth : ℕ}
  {s' : Scan}

/-- A unit that was expected is there, and the scan goes on behind it.  Otherwise the scan ends
with the message. -/
theorem expect_eq_ok {unit : UInt16} {message : JsString} (h : s.expect unit message = .ok s') :
    s.rest = unit :: s'.rest ∧ s' = s.advance 1 := by
  unfold expect at h
  split_ifs at h with hhead
  · obtain rfl := Except.ok.inj h
    refine ⟨?_, rfl⟩
    obtain ⟨c, t, ht⟩ : ∃ c t, s.rest = c :: t := by
      cases hrest : s.rest with
      | nil => simp [hrest] at hhead
      | cons c t => exact ⟨c, t, rfl⟩
    rw [ht] at hhead
    obtain rfl := Option.some.inj hhead
    simp [advance, ht]
  · cases h

/-- The first unit of the rest stands before what the scan advances to.  The number of nodes is
not touched. -/
theorem head_eq_some {unit : UInt16} (h : s.rest.head? = some unit) :
    s.rest = unit :: (s.advance 1).rest := by
  cases hrest : s.rest with
  | nil => simp [hrest] at h
  | cons c t =>
      rw [hrest] at h
      obtain rfl := Option.some.inj h
      simp [advance, hrest]

/-- **A string that is read is a string literal.**  Its name is what the escapes stand for,
which is what duplicates are looked for by. -/
theorem literal_of_parseString (hparse : ReadsStrings parse) {key : JsString}
    (h : s.parseString parse = .ok (key, s')) : ∃ body, StringBody body ∧
      s.rest = quoted body ++ s'.rest ∧ s'.nodes = s.nodes ∧ key = unescape body := by
  obtain ⟨opened, hopen, h⟩ := bind_eq_ok.1 h
  obtain ⟨stop, hstop, h⟩ := bind_eq_ok.1 h
  obtain ⟨hrest, rfl⟩ := expect_eq_ok hopen
  obtain ⟨body, after, htext, hbody, rfl⟩ := body_of_stringEnd hstop
  have hlength : (s.advance 1).index + body.length + 1 - s.index = (quoted body).length := by
    simp only [advance, quoted, List.length_cons, List.length_append, List.length_nil]
    omega
  have hwhole : s.rest = quoted body ++ after := by simp [hrest, htext, quoted]
  rw [hlength, hwhole, List.take_left, hparse body hbody] at h
  obtain ⟨rfl, rfl⟩ := Prod.mk.inj (Except.ok.inj h)
  exact ⟨body, hbody, by simp [advance, hwhole], rfl, rfl⟩

/-- What comes after a value: white space, then a unit.  The unit decides what comes next: a
comma, or a bracket that closes. -/
theorem ScannedValue.padded {v : JsonSyntax} (h : ScannedValue depth v s s') {unit : UInt16}
    (hunit : s'.skipWhitespace.rest.head? = some unit) : ∃ t, Derives (.padded v) t ∧
      s.rest = t ++ unit :: (s'.skipWhitespace.advance 1).rest := by
  obtain ⟨w, t, hw, ht, hrest⟩ := h.text
  obtain ⟨w', hw', hrest', -⟩ := s'.exists_skipWhitespace
  refine ⟨w ++ (t ++ w'), .pad hw ht hw', ?_⟩
  rw [hrest, hrest', head_eq_some hunit]
  simp

/-- **The loop over the items of an array reads items.**  By induction on the turns that are
left: a value, and then a comma or the bracket that closes. -/
theorem items_of_parseItems (hvalue : Sound value (depth + 1)) : ∀ {fuel : ℕ} {s s' : Scan},
    depth ≤ maxScanDepth → s.parseItems value fuel = .ok s' → ∃ vs t, Derives (.items vs) t ∧
      s.rest = t ++ 93 :: s'.rest ∧ Passed depth (JsonSyntax.nodesItems vs)
        (JsonSyntax.heightItems vs) (JsonSyntax.NamesDistinctItems vs) s s'
  | 0, _, _, _, h => by cases h
  | fuel + 1, s, s', hdepth, h => by
      rw [parseItems] at h
      split_ifs at h with hend
      · cases h
      obtain ⟨s₁, hs₁, h⟩ := bind_eq_ok.1 h
      obtain ⟨v, hv⟩ := hvalue s s₁ hs₁
      have hlevel := hv.passed.level
      dsimp only at h
      split_ifs at h with hclose hcomma
      · obtain rfl := Except.ok.inj h
        obtain ⟨t, ht, hrest⟩ := hv.padded hclose
        refine ⟨[v], t, .item ht, hrest, ?_, hv.passed.room, ?_, hv.passed.names, trivial⟩
        · exact hv.passed.nodes
        · simp only [JsonSyntax.heightItems]
          omega
      · obtain ⟨t, ht, hrest⟩ := hv.padded hcomma
        obtain ⟨vs, u, hu, hrest', hpassed⟩ := items_of_parseItems hvalue hdepth h
        have hnodes := hpassed.nodes
        have hlevel' := hpassed.level
        refine ⟨v :: vs, t ++ 44 :: u, .moreItems ht hu, ?_, ?_, hpassed.room, ?_,
          hv.passed.names, hpassed.names⟩
        · rw [hrest, hrest']
          simp
        · rw [hnodes, JsonSyntax.nodesItems, ← Nat.add_assoc, ← hv.passed.nodes]
          rfl
        · simp only [JsonSyntax.heightItems]
          omega
      · cases h

/-- **The loop over the members of an object reads members** whose names are new.  By
induction on the turns that are left: a name, a colon, a value, and then a comma or the
brace that closes. -/
theorem members_of_parseMembers (hparse : ReadsStrings parse) (hvalue : Sound value (depth + 1)) :
    ∀ {fuel : ℕ} {keys : List JsString} {s s' : Scan}, depth ≤ maxScanDepth →
      s.parseMembers parse value fuel keys = .ok s' → ∃ ms t, Derives (.members ms) t ∧
        s.rest = t ++ 125 :: s'.rest ∧ (∀ m ∈ ms, unescape m.1 ∉ keys) ∧
        Passed depth (JsonSyntax.nodesMembers ms) (JsonSyntax.heightMembers ms)
          ((ms.map fun m => unescape m.1).Nodup ∧ JsonSyntax.NamesDistinctMembers ms) s s'
  | 0, _, _, _, _, h => by cases h
  | fuel + 1, keys, s, s', hdepth, h => by
      rw [parseMembers] at h
      split_ifs at h with hend
      · cases h
      obtain ⟨⟨key, s₁⟩, hs₁, h⟩ := bind_eq_ok.1 h
      dsimp only at h
      split_ifs at h with hkey
      · cases h
      obtain ⟨body, hbody, hliteral, hcount, rfl⟩ := literal_of_parseString hparse hs₁
      obtain ⟨s₂, hs₂, h⟩ := bind_eq_ok.1 h
      obtain ⟨hcolon, hs₂'⟩ := expect_eq_ok hs₂
      obtain ⟨s₃, hs₃, h⟩ := bind_eq_ok.1 h
      obtain ⟨v, hv⟩ := hvalue s₂ s₃ hs₃
      have hlevel := hv.passed.level
      obtain ⟨w, hw, hrest, -⟩ := s.exists_skipWhitespace
      obtain ⟨w', hw', hrest₁, -⟩ := s₁.exists_skipWhitespace
      have hcount₂ : s₂.nodes = s.nodes := by
        rw [hs₂']
        exact hcount
      have hstart : s.rest = w ++ (quoted body ++ (w' ++ 58 :: s₂.rest)) := by
        rw [hrest, hliteral, hrest₁, hcolon]
      have hnew : unescape body ∉ keys := by simpa using hkey
      split_ifs at h with hclose hcomma
      · obtain rfl := Except.ok.inj h
        obtain ⟨t, ht, htext⟩ := hv.padded hclose
        refine ⟨[(body, v)], _, .member hw hbody hw' ht, ?_, ?_, ?_, hv.passed.room, ?_, ?_⟩
        · rw [hstart, htext]
          simp
        · simpa using hnew
        · rw [show JsonSyntax.nodesMembers [(body, v)] = v.nodes from rfl, ← hcount₂]
          exact hv.passed.nodes
        · simp only [JsonSyntax.heightMembers]
          omega
        · exact ⟨List.nodup_singleton _, hv.passed.names, trivial⟩
      · obtain ⟨t, ht, htext⟩ := hv.padded hcomma
        obtain ⟨ms, u, hu, hrest', hfresh, hpassed⟩ := members_of_parseMembers hparse hvalue hdepth h
        have hnodes := hpassed.nodes
        have hlevel' := hpassed.level
        refine ⟨(body, v) :: ms, _, .moreMembers hw hbody hw' ht hu, ?_, ?_, ?_, hpassed.room, ?_,
          ?_⟩
        · rw [hstart, htext, hrest']
          simp
        · refine List.forall_mem_cons.2 ⟨hnew, fun m hm hmem => ?_⟩
          exact hfresh m hm (List.mem_cons_of_mem _ hmem)
        · rw [hnodes, JsonSyntax.nodesMembers, ← Nat.add_assoc, ← hcount₂, ← hv.passed.nodes]
          rfl
        · simp only [JsonSyntax.heightMembers]
          omega
        · refine ⟨List.nodup_cons.2 ⟨fun hmem => ?_, hpassed.names.1⟩, hv.passed.names,
            hpassed.names.2⟩
          obtain ⟨m, hm, heq⟩ := List.mem_map.1 hmem
          exact hfresh m hm (heq ▸ List.mem_cons_self ..)
      · cases h

/-- What enters a value. -/
theorem enterValue_eq_ok (h : s.enterValue depth = .ok s') :
    s.nodes + 1 ≤ maxScanNodes ∧ depth ≤ maxScanDepth ∧
      s' = ({ s with nodes := s.nodes + 1 } : Scan).skipWhitespace := by
  unfold enterValue at h
  split_ifs at h with hn hd
  exact ⟨by omega, by omega, (Except.ok.inj h).symm⟩

/-- A literal or a number is one of the grammar.  A literal is compared unit by unit, and a
number is measured. -/
theorem atom_of_parseAtom (h : s.parseAtom = .ok s') :
    ∃ t, AtomText t ∧ s.rest = t ++ s'.rest ∧ s'.nodes = s.nodes := by
  have hprefix : ∀ {literal : JsString} {n : ℕ}, literal.isPrefixOf s.rest = true →
      literal.length = n → s.rest = literal ++ (s.advance n).rest := by
    rintro literal n hpre rfl
    obtain ⟨t, ht⟩ := List.isPrefixOf_iff_prefix.1 hpre
    simp [advance, ← ht]
  unfold parseAtom at h
  split_ifs at h with htrue hfalse hnull
  · obtain rfl := Except.ok.inj h
    exact ⟨_, .true, hprefix htrue rfl, rfl⟩
  · obtain rfl := Except.ok.inj h
    exact ⟨_, .false, hprefix hfalse rfl, rfl⟩
  · obtain rfl := Except.ok.inj h
    exact ⟨_, .null, hprefix hnull rfl, rfl⟩
  · cases hn : numberLength s.rest with
    | none =>
        rw [hn] at h
        cases h
    | some n =>
        rw [hn] at h
        obtain rfl := Except.ok.inj h
        exact ⟨_, .number (numberText_take hn), (List.take_append_drop n s.rest).symm, rfl⟩

/-- **A value that is scanned is one of the grammar**, within the limits and without a name
twice. -/
theorem sound_parseValue (hparse : ReadsStrings parse) : ∀ levels depth,
    Sound (parseValue parse levels depth) depth
  | 0, depth, s, s', h => by
      obtain ⟨_, -, h⟩ := bind_eq_ok.1 h
      cases h
  | levels + 1, depth, s, s', h => by
      obtain ⟨entered, hentered, h⟩ := bind_eq_ok.1 h
      obtain ⟨hroom, hdepth, rfl⟩ := enterValue_eq_ok hentered
      obtain ⟨w, hw, hrest, hsolid⟩ := ({ s with nodes := s.nodes + 1 } : Scan).exists_skipWhitespace
      have ih := sound_parseValue hparse levels (depth + 1)
      generalize he : ({ s with nodes := s.nodes + 1 } : Scan).skipWhitespace = e at h hrest hsolid
      have hnodes : e.nodes = s.nodes + 1 := by rw [← he]; rfl
      -- what is scanned from here on has the white space before it
      have hfinish : ∀ {v : JsonSyntax} {t : JsString} {nodes height : ℕ} {names : Prop}
          {e' : Scan}, Derives (.value v) t → e.rest = t ++ s'.rest →
          Passed depth nodes height names e' s' → e'.nodes = e.nodes → v.nodes = nodes + 1 →
          v.height = height → (names → v.NamesDistinct) → ∃ v, ScannedValue depth v s s' := by
        intro v t nodes height names e' ht htext hpassed he' hv hheight hnames
        refine ⟨v, ⟨w, t, hw, ht, hrest.trans (by rw [htext])⟩, ?_, hpassed.room, ?_,
          hnames hpassed.names⟩
        · rw [hpassed.nodes, he', hnodes, hv]
          omega
        · rw [hheight]
          exact hpassed.level
      have hleaf : s'.nodes = e.nodes → Passed depth 0 0 True e s' := fun hs =>
        ⟨hs, by omega, by omega, trivial⟩
      obtain ⟨w', hw', hinside, -⟩ := (e.advance 1).exists_skipWhitespace
      dsimp only at h
      split_ifs at h with hobject hnone harray hnone hstring
      · obtain rfl := Except.ok.inj h
        refine hfinish (.noMembers hw') ?_ (hleaf rfl) rfl rfl rfl fun _ => ⟨List.nodup_nil, trivial⟩
        rw [head_eq_some hobject, hinside, head_eq_some hnone]
        simp
      · obtain ⟨ms, t, ht, htext, -, hpassed⟩ := members_of_parseMembers hparse ih hdepth h
        refine hfinish (.object (ht.blank_members hw')) ?_ hpassed rfl rfl rfl id
        rw [head_eq_some hobject, hinside, htext]
        simp
      · obtain rfl := Except.ok.inj h
        refine hfinish (.noItems hw') ?_ (hleaf rfl) rfl rfl rfl fun _ => trivial
        rw [head_eq_some harray, hinside, head_eq_some hnone]
        simp
      · obtain ⟨vs, t, ht, htext, hpassed⟩ := items_of_parseItems ih hdepth h
        refine hfinish (.array (ht.blank_items hw')) ?_ hpassed rfl rfl rfl id
        rw [head_eq_some harray, hinside, htext]
        simp
      · obtain ⟨⟨key, s₁⟩, hs₁, rfl⟩ := map_eq_ok.1 h
        obtain ⟨body, hbody, htext, hcount, -⟩ := literal_of_parseString hparse hs₁
        exact hfinish (.string hbody) htext (hleaf hcount) rfl rfl rfl fun _ => trivial
      · obtain ⟨t, ht, htext, hcount⟩ := atom_of_parseAtom h
        exact hfinish (.atom ht) htext (hleaf hcount) rfl rfl rfl fun _ => trivial

/-! ### Scanning what is derived -/

/-- **A string of the grammar is scanned to its end**, and read as what its escapes stand
for. -/
theorem parseString_append (hparse : ReadsStrings parse) {body : JsString} (h : StringBody body)
    (rest : JsString) (index count : ℕ) :
    (⟨quoted body ++ rest, index, count⟩ : Scan).parseString parse =
      .ok (unescape body, ⟨rest, index + (quoted body).length, count⟩) := by
  have htext : quoted body ++ rest = 34 :: (body ++ 34 :: rest) := by simp [quoted]
  have hopen : (⟨quoted body ++ rest, index, count⟩ : Scan).expect 34 (js "Expected a JSON string") =
      .ok ⟨body ++ 34 :: rest, index + 1, count⟩ := by
    rw [htext]
    rfl
  have hstop : index + 1 + body.length + 1 - index = (quoted body).length := by
    simp only [quoted, List.length_cons, List.length_append, List.length_nil]
    omega
  unfold parseString
  simp only [bind, Except.bind, hopen, stringEnd_of_body h, hstop, List.take_left, hparse body h,
    advance, List.drop_left]

/-- **A number or a literal is scanned to its end.**  What follows stops a number, so that no
more is taken than belongs to it. -/
theorem parseAtom_append {t rest : JsString} (h : AtomText t) (hrest : StopsNumber rest)
    (index count : ℕ) : (⟨t ++ rest, index, count⟩ : Scan).parseAtom =
      .ok ⟨rest, index + t.length, count⟩ := by
  cases h with
  | true => rfl
  | false => rfl
  | null => rfl
  | number hnumber =>
      obtain ⟨c, t, rfl, hc⟩ := hnumber.head
      have hnot : ∀ (d : UInt16) (literal : JsString), 57 < d.toNat →
          (d :: literal).isPrefixOf (c :: t ++ rest) = false := by
        intro d literal hd
        refine Bool.eq_false_iff.2 fun hpre => ?_
        obtain ⟨u, hu⟩ := List.isPrefixOf_iff_prefix.1 hpre
        obtain rfl := (List.cons.inj hu).1
        rcases hc with rfl | hc
        · exact absurd hd (by decide)
        · omega
      have htrue : (js "true").isPrefixOf (c :: t ++ rest) = false :=
        hnot 116 (js "rue") (by decide)
      have hfalse : (js "false").isPrefixOf (c :: t ++ rest) = false :=
        hnot 102 (js "alse") (by decide)
      have hnull : (js "null").isPrefixOf (c :: t ++ rest) = false :=
        hnot 110 (js "ull") (by decide)
      unfold parseAtom
      simp only [htrue, hfalse, hnull, Bool.false_eq_true, if_false,
        numberLength_append hnumber hrest, advance, List.drop_left]

/-- To enter a value skips the white space before it and counts it, within the limits. -/
theorem enterValue_append {t : JsString} (hw : IsBlank w) (ht : StartsSolid t)
    (hn : count + 1 ≤ maxScanNodes) (hd : depth ≤ maxScanDepth) (index : ℕ) :
    (⟨w ++ t, index, count⟩ : Scan).enterValue depth = .ok ⟨t, index + w.length, count + 1⟩ := by
  unfold enterValue
  rw [if_neg (by simpa using hn), if_neg (by omega)]
  exact congrArg Except.ok (skipWhitespace_append hw ht index (count + 1))

/-- A unit that is none of those is no white space. -/
theorem isJsonWhitespace_eq_false {c : UInt16} (h : c ∉ [32, 9, 10, 13, 44, 93, 125]) :
    isJsonWhitespace c = false := by
  refine Bool.eq_false_iff.2 fun hc => h ?_
  rcases isJsonWhitespace_iff.1 hc with rfl | rfl | rfl | rfl <;> decide

section Dispatch

variable {levels : ℕ} {c : UInt16}

/-- An open brace begins an object: a closed one ends it, or members follow.  Its members may be
as many as there are units left. -/
theorem parseValue_object (h : s.enterValue depth = .ok ⟨123 :: t, index, count⟩) {e : Scan}
    (he : (⟨t, index + 1, count⟩ : Scan).skipWhitespace = e) :
    s.parseValue parse (levels + 1) depth =
      if e.rest.head? = some 125 then .ok (e.advance 1)
      else e.parseMembers parse (parseValue parse levels (depth + 1)) e.rest.length [] := by
  subst he
  unfold parseValue
  simp only [bind, Except.bind, h, List.head?_cons, if_true]
  rfl

/-- An open bracket begins an array: a closed one ends it, or items follow.  Its items may be as
many as there are units left. -/
theorem parseValue_array (h : s.enterValue depth = .ok ⟨91 :: t, index, count⟩) {e : Scan}
    (he : (⟨t, index + 1, count⟩ : Scan).skipWhitespace = e) :
    s.parseValue parse (levels + 1) depth =
      if e.rest.head? = some 93 then .ok (e.advance 1)
      else e.parseItems (parseValue parse levels (depth + 1)) e.rest.length := by
  subst he
  unfold parseValue
  simp only [bind, Except.bind, h, List.head?_cons, if_true, Option.some.injEq,
    show ¬(91 : UInt16) = 123 by decide, if_false]
  rfl

/-- A quote begins a string. -/
theorem parseValue_string (h : s.enterValue depth = .ok ⟨34 :: t, index, count⟩) :
    s.parseValue parse (levels + 1) depth =
      ((⟨34 :: t, index, count⟩ : Scan).parseString parse).map Prod.snd := by
  unfold parseValue
  simp only [bind, Except.bind, h, List.head?_cons, Option.some.injEq, if_true, if_false,
    show ¬(34 : UInt16) = 123 by decide, show ¬(34 : UInt16) = 91 by decide]

/-- Any other unit begins a number or a literal. -/
theorem parseValue_atom (h : s.enterValue depth = .ok ⟨c :: t, index, count⟩) (hobject : c ≠ 123)
    (harray : c ≠ 91) (hstring : c ≠ 34) :
    s.parseValue parse (levels + 1) depth = (⟨c :: t, index, count⟩ : Scan).parseAtom := by
  unfold parseValue
  simp only [bind, Except.bind, h, List.head?_cons, Option.some.injEq, hobject, harray, hstring,
    if_false]

end Dispatch

/-- White space before the items of an array is skipped anyway. -/
theorem parseItems_skipWhitespace {fuel : ℕ} (hvalue : ∀ s, value s.skipWhitespace = value s)
    (hs : s.skipWhitespace.rest ≠ []) :
    s.skipWhitespace.parseItems value (fuel + 1) = s.parseItems value (fuel + 1) := by
  have hrest : s.rest ≠ [] := fun h => hs (by simp [skipWhitespace, advance, h])
  rw [parseItems, parseItems, if_neg hs, if_neg hrest, hvalue]

/-- White space before the members of an object is skipped anyway. -/
theorem parseMembers_skipWhitespace {fuel : ℕ} {keys : List JsString}
    (hs : s.skipWhitespace.rest ≠ []) :
    s.skipWhitespace.parseMembers parse value (fuel + 1) keys =
      s.parseMembers parse value (fuel + 1) keys := by
  have hrest : s.rest ≠ [] := fun h => hs (by simp [skipWhitespace, advance, h])
  rw [parseMembers, parseMembers, if_neg hs, if_neg hrest, skipWhitespace_idem]

/-- A turn of the loop that reads the last item. -/
theorem parseItems_last {fuel : ℕ} {rest : JsString} (hs : s.rest ≠ []) (hvalue : value s = .ok s')
    (hend : s'.skipWhitespace = ⟨93 :: rest, index, count⟩) :
    s.parseItems value (fuel + 1) = .ok ⟨rest, index + 1, count⟩ := by
  rw [parseItems, if_neg hs]
  simp only [bind, Except.bind, hvalue, hend, List.head?_cons, if_true]
  rfl

/-- A turn of the loop that reads another item. -/
theorem parseItems_next {fuel : ℕ} {rest : JsString} (hs : s.rest ≠ []) (hvalue : value s = .ok s')
    (hend : s'.skipWhitespace = ⟨44 :: rest, index, count⟩) :
    s.parseItems value (fuel + 1) = (⟨rest, index + 1, count⟩ : Scan).parseItems value fuel := by
  rw [parseItems, if_neg hs]
  simp only [bind, Except.bind, hvalue, hend, List.head?_cons, Option.some.injEq,
    show ¬(44 : UInt16) = 93 by decide, if_false, if_true]
  rfl

/-- What a turn of the loop over members does behind the name and the colon.  The name is new,
so it is put among the keys and the value is scanned. -/
theorem parseMembers_name (hparse : ReadsStrings parse) (value : Scan → Except ScanError Scan)
    (fuel : ℕ) {keys : List JsString} {w' body : JsString} (hw : IsBlank w)
    (hbody : StringBody body) (hw' : IsBlank w') (hkey : unescape body ∉ keys) (rest : JsString)
    (index count : ℕ) :
    ∃ index', (⟨w ++ (quoted body ++ (w' ++ 58 :: rest)), index, count⟩ : Scan).parseMembers parse
      value (fuel + 1) keys = (do
        let s ← value ⟨rest, index', count⟩
        let s := s.skipWhitespace
        if s.rest.head? = some 125 then return s.advance 1
        else if s.rest.head? = some 44 then
          parseMembers parse value fuel (unescape body :: keys) (s.advance 1)
        else (s.advance 1).fail (js "Expected an object delimiter")) := by
  have hne : w ++ (quoted body ++ (w' ++ 58 :: rest)) ≠ [] := by simp
  have hquote : StartsSolid (quoted body ++ (w' ++ 58 :: rest)) :=
    startsSolid_cons (c := 34) (by decide) _
  have hcolon : StartsSolid (58 :: rest) := startsSolid_cons (by decide) _
  refine ⟨index + w.length + (quoted body).length + w'.length + 1, ?_⟩
  rw [parseMembers, if_neg hne]
  simp only [bind, Except.bind, skipWhitespace_append hw hquote,
    parseString_append hparse hbody, skipWhitespace_append hw' hcolon, List.contains_eq_mem,
    decide_eq_true_eq, hkey, if_false]
  rfl

/-- What the scan does with a text that is derived, as long as the limits leave room. -/
def Follows (parse : JsString → Option Json) : JsonPhrase → JsString → Prop
  | .value v, t => ∀ (w rest : JsString) (levels depth index count : ℕ), IsBlank w →
      StopsNumber rest → v.height < levels → depth + v.height ≤ maxScanDepth →
      count + v.nodes ≤ maxScanNodes → v.NamesDistinct → ∃ index',
        (⟨w ++ (t ++ rest), index, count⟩ : Scan).parseValue parse levels depth =
          .ok ⟨rest, index', count + v.nodes⟩
  | .padded v, t => ∀ (rest : JsString) (levels depth index count : ℕ), StartsSolid rest →
      StopsNumber rest → v.height < levels → depth + v.height ≤ maxScanDepth →
      count + v.nodes ≤ maxScanNodes → v.NamesDistinct → ∃ s' index',
        (⟨t ++ rest, index, count⟩ : Scan).parseValue parse levels depth = .ok s' ∧
          s'.skipWhitespace = ⟨rest, index', count + v.nodes⟩
  | .items vs, t => ∀ (rest : JsString) (fuel levels depth index count : ℕ), vs.length ≤ fuel →
      JsonSyntax.heightItems vs ≤ levels → depth + JsonSyntax.heightItems vs ≤ maxScanDepth →
      count + JsonSyntax.nodesItems vs ≤ maxScanNodes → JsonSyntax.NamesDistinctItems vs →
      ∃ index', (⟨t ++ 93 :: rest, index, count⟩ : Scan).parseItems
        (parseValue parse levels (depth + 1)) fuel =
          .ok ⟨rest, index', count + JsonSyntax.nodesItems vs⟩
  | .members ms, t => ∀ (rest : JsString) (keys : List JsString)
      (fuel levels depth index count : ℕ), ms.length ≤ fuel →
      JsonSyntax.heightMembers ms ≤ levels → depth + JsonSyntax.heightMembers ms ≤ maxScanDepth →
      count + JsonSyntax.nodesMembers ms ≤ maxScanNodes → JsonSyntax.NamesDistinctMembers ms →
      (ms.map fun m => unescape m.1).Nodup → (∀ m ∈ ms, unescape m.1 ∉ keys) →
      ∃ index', (⟨t ++ 125 :: rest, index, count⟩ : Scan).parseMembers parse
        (parseValue parse levels (depth + 1)) fuel keys =
          .ok ⟨rest, index', count + JsonSyntax.nodesMembers ms⟩

/-- Entering a value that is derived. -/
theorem enterValue_value {v : JsonSyntax} (hw : IsBlank w) (h : Derives (.value v) t)
    (rest : JsString) (depth index count : ℕ) (hn : count + 1 ≤ maxScanNodes)
    (hd : depth ≤ maxScanDepth) : (⟨w ++ (t ++ rest), index, count⟩ : Scan).enterValue depth =
      .ok ⟨t ++ rest, index + w.length, count + 1⟩ := by
  obtain ⟨c, t, rfl, hc⟩ := h.value_head
  exact enterValue_append hw (startsSolid_cons (isJsonWhitespace_eq_false hc) _) hn hd index

/-- **The scan follows a derivation.**  By induction on the derivation, one case for each rule
of the grammar. -/
theorem follows_of_derives (hparse : ReadsStrings parse) {phrase : JsonPhrase} {t : JsString}
    (h : Derives phrase t) : Follows parse phrase t := by
  induction h with
  | @atom t h =>
      intro w rest levels depth index count hw hstops hlevels hdepth hcount _
      obtain ⟨levels, rfl⟩ : ∃ n, levels = n + 1 := ⟨levels - 1, by omega⟩
      have henter := enterValue_value hw (.atom h) rest depth index count hcount (by omega)
      have hatom := parseAtom_append h hstops (index + w.length) (count + 1)
      obtain ⟨c, t, rfl, hc⟩ := h.head
      have hne : c ≠ 123 ∧ c ≠ 91 ∧ c ≠ 34 := by
        rcases hc with hc | hc
        · refine ⟨?_, ?_, ?_⟩ <;> rintro rfl <;> exact absurd hc (by decide)
        · simp only [List.mem_cons, List.not_mem_nil, or_false] at hc
          rcases hc with rfl | rfl | rfl | rfl <;> decide
      exact ⟨_, (parseValue_atom henter hne.1 hne.2.1 hne.2.2).trans hatom⟩
  | @string body h =>
      intro w rest levels depth index count hw hstops hlevels hdepth hcount _
      obtain ⟨levels, rfl⟩ : ∃ n, levels = n + 1 := ⟨levels - 1, by omega⟩
      have henter := enterValue_value hw (.string h) rest depth index count hcount (by omega)
      exact ⟨index + w.length + (quoted body).length, (parseValue_string henter).trans
        (congrArg (Except.map Prod.snd)
          (parseString_append hparse h rest (index + w.length) (count + 1)))⟩
  | @noItems w' hw' =>
      intro w rest levels depth index count hw hstops hlevels hdepth hcount _
      obtain ⟨levels, rfl⟩ : ∃ n, levels = n + 1 := ⟨levels - 1, by omega⟩
      have henter := enterValue_value hw (.noItems hw') rest depth index count hcount (by omega)
      have hskip := skipWhitespace_append hw' (startsSolid_cons (c := 93) (by decide) rest)
        (index + w.length + 1) (count + 1)
      rw [List.cons_append, List.append_assoc, List.singleton_append] at henter ⊢
      exact ⟨_, (parseValue_array henter hskip).trans (if_pos rfl)⟩
  | @noMembers w' hw' =>
      intro w rest levels depth index count hw hstops hlevels hdepth hcount _
      obtain ⟨levels, rfl⟩ : ∃ n, levels = n + 1 := ⟨levels - 1, by omega⟩
      have henter := enterValue_value hw (.noMembers hw') rest depth index count hcount (by omega)
      have hskip := skipWhitespace_append hw' (startsSolid_cons (c := 125) (by decide) rest)
        (index + w.length + 1) (count + 1)
      rw [List.cons_append, List.append_assoc, List.singleton_append] at henter ⊢
      exact ⟨_, (parseValue_object henter hskip).trans (if_pos rfl)⟩
  | @array vs t h ih =>
      intro w rest levels depth index count hw hstops hlevels hdepth hcount hnames
      obtain ⟨levels, rfl⟩ : ∃ n, levels = n + 1 := ⟨levels - 1, by omega⟩
      simp only [JsonSyntax.height, JsonSyntax.nodes, JsonSyntax.NamesDistinct] at *
      have henter := enterValue_value hw (.array h) rest depth index count (by omega) (by omega)
      rw [List.cons_append, List.append_assoc, List.singleton_append] at henter ⊢
      obtain ⟨w', c, t', hw', rfl, hc, hlength⟩ := h.items_head
      have hskip : (⟨(w' ++ c :: t') ++ 93 :: rest, index + w.length + 1, count + 1⟩ :
          Scan).skipWhitespace =
            ⟨c :: (t' ++ 93 :: rest), index + w.length + 1 + w'.length, count + 1⟩ := by
        rw [List.append_assoc, List.cons_append]
        exact skipWhitespace_append hw' (startsSolid_cons (isJsonWhitespace_eq_false hc) _) _ _
      have hclose : ¬(c :: (t' ++ 93 :: rest)).head? = some 93 := by
        rintro he
        obtain rfl := Option.some.inj he
        exact hc (by decide)
      rw [parseValue_array henter hskip, if_neg hclose, List.length_cons, ← hskip,
        parseItems_skipWhitespace (parseValue_skipWhitespace parse levels (depth + 1))
          (by rw [hskip]; exact List.cons_ne_nil _ _)]
      obtain ⟨index', hitems⟩ := ih rest ((t' ++ 93 :: rest).length + 1) levels depth
        (index + w.length + 1) (count + 1) (by rw [List.length_append]; omega) (by omega) hdepth
        (by omega) hnames
      exact ⟨index', hitems.trans (by rw [Nat.add_assoc, Nat.add_comm 1])⟩
  | @object ms t h ih =>
      intro w rest levels depth index count hw hstops hlevels hdepth hcount hnames
      obtain ⟨levels, rfl⟩ : ∃ n, levels = n + 1 := ⟨levels - 1, by omega⟩
      simp only [JsonSyntax.height, JsonSyntax.nodes, JsonSyntax.NamesDistinct] at *
      have henter := enterValue_value hw (.object h) rest depth index count (by omega) (by omega)
      rw [List.cons_append, List.append_assoc, List.singleton_append] at henter ⊢
      obtain ⟨w', t', hw', rfl, hlength⟩ := h.members_head
      have hskip : (⟨(w' ++ 34 :: t') ++ 125 :: rest, index + w.length + 1, count + 1⟩ :
          Scan).skipWhitespace =
            ⟨34 :: (t' ++ 125 :: rest), index + w.length + 1 + w'.length, count + 1⟩ := by
        rw [List.append_assoc, List.cons_append]
        exact skipWhitespace_append hw' (startsSolid_cons (by decide) _) _ _
      rw [parseValue_object henter hskip, if_neg (by simp), List.length_cons, ← hskip,
        parseMembers_skipWhitespace (by rw [hskip]; exact List.cons_ne_nil _ _)]
      obtain ⟨index', hmembers⟩ := ih rest [] ((t' ++ 125 :: rest).length + 1) levels depth
        (index + w.length + 1) (count + 1) (by rw [List.length_append]; omega) (by omega) hdepth
        (by omega) hnames.2 hnames.1 (by simp)
      exact ⟨index', hmembers.trans (by rw [Nat.add_assoc, Nat.add_comm 1])⟩
  | @pad w w' t v hw h hw' ih =>
      intro rest levels depth index count hsolid hstops hlevels hdepth hcount hnames
      obtain ⟨index', hvalue⟩ := ih w (w' ++ rest) levels depth index count hw
        (hstops.blank hw') hlevels hdepth hcount hnames
      rw [List.append_assoc, List.append_assoc]
      exact ⟨_, _, hvalue, skipWhitespace_append hw' hsolid _ _⟩
  | @item v t h ih =>
      intro rest fuel levels depth index count hfuel hlevels hdepth hcount hnames
      obtain ⟨fuel, rfl⟩ : ∃ n, fuel = n + 1 := ⟨fuel - 1, by simp at hfuel; omega⟩
      simp only [JsonSyntax.heightItems, JsonSyntax.nodesItems, JsonSyntax.NamesDistinctItems] at *
      obtain ⟨s', index', hvalue, hend⟩ := ih (93 :: rest) levels (depth + 1) index count
        (startsSolid_cons (by decide) _) (stopsNumber_cons (by decide) _) (by omega) (by omega)
        (by omega) hnames.1
      exact ⟨_, parseItems_last (by simp) hvalue hend⟩
  | @moreItems v vs t u h hs ih ihs =>
      intro rest fuel levels depth index count hfuel hlevels hdepth hcount hnames
      obtain ⟨fuel, rfl⟩ : ∃ n, fuel = n + 1 := ⟨fuel - 1, by simp at hfuel; omega⟩
      simp only [JsonSyntax.heightItems, JsonSyntax.nodesItems, JsonSyntax.NamesDistinctItems,
        List.length_cons] at *
      obtain ⟨s', index', hvalue, hend⟩ := ih (44 :: (u ++ 93 :: rest)) levels (depth + 1) index
        count (startsSolid_cons (by decide) _) (stopsNumber_cons (by decide) _) (by omega)
        (by omega) (by omega) hnames.1
      obtain ⟨stop, hitems⟩ := ihs rest fuel levels depth (index' + 1) (count + v.nodes) (by omega)
        (by omega) (by omega) (by omega) hnames.2
      rw [List.append_assoc, List.cons_append, parseItems_next (by simp) hvalue hend, ← Nat.add_assoc]
      exact ⟨stop, hitems⟩
  | @member w w' body t v hw hbody hw' h ih =>
      intro rest keys fuel levels depth index count hfuel hlevels hdepth hcount hnames _ hfresh
      obtain ⟨fuel, rfl⟩ : ∃ n, fuel = n + 1 := ⟨fuel - 1, by simp at hfuel; omega⟩
      simp only [JsonSyntax.heightMembers, JsonSyntax.nodesMembers,
        JsonSyntax.NamesDistinctMembers] at *
      obtain ⟨start, hname⟩ := parseMembers_name hparse (parseValue parse levels (depth + 1)) fuel
        hw hbody hw' (hfresh _ (List.mem_cons_self ..)) (t ++ 125 :: rest) index count
      obtain ⟨s', index', hvalue, hend⟩ := ih (125 :: rest) levels (depth + 1) start count
        (startsSolid_cons (by decide) _) (stopsNumber_cons (by decide) _) (by omega) (by omega)
        (by omega) hnames.1
      refine ⟨index' + 1, ?_⟩
      simp only [List.append_assoc, List.cons_append]
      rw [hname]
      simp only [bind, Except.bind, hvalue, hend, List.head?_cons, if_true]
      rfl
  | @moreMembers w w' body t u v ms hw hbody hw' h hs ih ihs =>
      intro rest keys fuel levels depth index count hfuel hlevels hdepth hcount hnames hnodup hfresh
      obtain ⟨fuel, rfl⟩ : ∃ n, fuel = n + 1 := ⟨fuel - 1, by simp at hfuel; omega⟩
      simp only [JsonSyntax.heightMembers, JsonSyntax.nodesMembers,
        JsonSyntax.NamesDistinctMembers, List.length_cons, List.map_cons, List.nodup_cons] at *
      obtain ⟨start, hname⟩ := parseMembers_name hparse (parseValue parse levels (depth + 1)) fuel
        hw hbody hw' (hfresh _ (List.mem_cons_self ..)) (t ++ 44 :: (u ++ 125 :: rest)) index count
      obtain ⟨s', index', hvalue, hend⟩ := ih (44 :: (u ++ 125 :: rest)) levels (depth + 1) start
        count (startsSolid_cons (by decide) _) (stopsNumber_cons (by decide) _) (by omega)
        (by omega) (by omega) hnames.1
      have hfresh' : ∀ m ∈ ms, unescape m.1 ∉ unescape body :: keys := by
        intro m hm hmem
        rcases List.mem_cons.1 hmem with heq | hmem
        · exact hnodup.1 (List.mem_map.2 ⟨m, hm, heq⟩)
        · exact hfresh m (List.mem_cons_of_mem _ hm) hmem
      obtain ⟨stop, hmembers⟩ := ihs rest (unescape body :: keys) fuel levels depth (index' + 1)
        (count + v.nodes) (by omega) (by omega) (by omega) (by omega) hnames.2 hnodup.2 hfresh'
      refine ⟨stop, ?_⟩
      simp only [List.append_assoc, List.cons_append]
      rw [hname, ← Nat.add_assoc, ← hmembers]
      simp only [bind, Except.bind, hvalue, hend, List.head?_cons, Option.some.injEq,
        show ¬(44 : UInt16) = 125 by decide, if_false, if_true]
      rfl

end Scan

/-! ### The scan -/

/-- **A text passes exactly when it is a JSON text without a name twice**, within the limits
on its values and their nesting. -/
theorem scan_eq_ok_iff {parse : JsString → Option Json}
    (hparse : ReadsStrings parse) (text : JsString) :
    assertNoDuplicateJsonKeys parse text = .ok () ↔ ∃ v, Derives (.padded v) text ∧
      v.NamesDistinct ∧ v.nodes ≤ maxScanNodes ∧ v.height ≤ maxScanDepth := by
  constructor
  · intro h
    obtain ⟨s, hs, h⟩ := bind_eq_ok.1 h
    obtain ⟨v, hv⟩ := Scan.sound_parseValue hparse _ 0 _ _ hs
    obtain ⟨w, t, hw, ht, htext⟩ := hv.text
    obtain ⟨w', hw', hrest, -⟩ := s.exists_skipWhitespace
    dsimp only at h
    split_ifs at h with hend
    · cases h
    · rw [not_not.1 hend, List.append_nil] at hrest
      have hnodes := hv.passed.nodes
      have hroom := hv.passed.room
      have hlevel := hv.passed.level
      dsimp only at htext hnodes
      refine ⟨v, ?_, hv.passed.names, by omega, by omega⟩
      rw [htext, hrest]
      exact .pad hw ht hw'
  · rintro ⟨v, ht, hnames, hnodes, hheight⟩
    have hnone : ∀ c ∈ ([] : JsString).head?, False := fun c hc => by cases hc
    obtain ⟨s', index', hvalue, hend⟩ := Scan.follows_of_derives hparse ht [] (maxScanDepth + 1) 0 0 0
      (fun c hc => (hnone c hc).elim) (fun c hc => (hnone c hc).elim) (by omega) (by omega)
      (by omega) hnames
    rw [List.append_nil] at hvalue
    unfold assertNoDuplicateJsonKeys
    simp only [bind, Except.bind, hvalue, hend]
    rfl

end NewtonDB
