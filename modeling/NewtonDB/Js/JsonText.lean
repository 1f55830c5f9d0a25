/-
# What a text says

`stringify` is injective up to the sign of zero, which it does not write
(`stringify_eq_iff`).  Every value is written so that the text shows where it ends:
the first unit shows its kind, a string ends at its closing quote, a number before the
first unit that no number has, an array or object at its closing bracket.
-/

import NewtonDB.Js.JsonData

namespace NewtonDB

/-! ### Strings -/

/-- The value of a hexadecimal digit. -/
def hexValue (c : UInt16) : ℕ := if c.toNat < 58 then c.toNat - 48 else c.toNat - 87

/-- The unit an escape of two units stands for. -/
def unescapeUnit (e : UInt16) : UInt16 :=
  if e = 98 then 8 else if e = 102 then 12 else if e = 110 then 10 else if e = 114 then 13
  else if e = 116 then 9 else e

/-- The units of a quoted string up to its closing quote, and what comes after it. -/
def unquoteUnits : JsString → JsString × JsString
  | [] => ([], [])
  | c :: rest =>
      if c = 34 then ([], rest)
      else if c = 92 then
        match rest with
        | [] => ([], [])
        | e :: rest =>
            if e = 117 then
              match rest with
              | h₁ :: h₂ :: h₃ :: h₄ :: rest =>
                  (unquoteUnits rest).map ((4096 * hexValue h₁ + 256 * hexValue h₂ +
                    16 * hexValue h₃ + hexValue h₄).toUInt16 :: ·) id
              | _ => ([], [])
            else (unquoteUnits rest).map (unescapeUnit e :: ·) id
      else (unquoteUnits rest).map (c :: ·) id

/-- A hexadecimal digit is read as what it was written for. -/
theorem hexValue_hexUnit (n : ℕ) : hexValue (hexUnit (n % 16)) = n % 16 := by
  unfold hexValue
  rw [hexUnit_toNat (by omega)]
  split_ifs <;> omega

/-- A unit that is neither a quote nor a backslash is read as itself. -/
theorem unquoteUnits_plain {c : UInt16} (hq : c ≠ 34) (hb : c ≠ 92) (rest : JsString) :
    unquoteUnits (c :: rest) = (unquoteUnits rest).map (c :: ·) id := by
  rw [unquoteUnits.eq_def]
  simp only [if_neg hq, if_neg hb]

/-- A short escape is read as the unit it stands for. -/
theorem unquoteUnits_simple {e : UInt16} (hu : e ≠ 117) (rest : JsString) :
    unquoteUnits (92 :: e :: rest) = (unquoteUnits rest).map (unescapeUnit e :: ·) id := by
  rw [unquoteUnits.eq_def]
  simp only [if_neg (show ¬(92 : UInt16) = 34 by decide), if_true, if_neg hu]

/-- An escape of four digits is read as the unit it was written for.  The four digits are those
of the unit to the base sixteen. -/
theorem unquoteUnits_unicodeEscape (c : UInt16) (rest : JsString) :
    unquoteUnits (unicodeEscape c ++ rest) = (unquoteUnits rest).map (c :: ·) id := by
  have hvalue : (4096 * (c.toNat / 4096 % 16) + 256 * (c.toNat / 256 % 16) +
      16 * (c.toNat / 16 % 16) + c.toNat % 16).toUInt16 = c := by
    have hc := c.toNat_lt
    rw [show 4096 * (c.toNat / 4096 % 16) + 256 * (c.toNat / 256 % 16) +
      16 * (c.toNat / 16 % 16) + c.toNat % 16 = c.toNat by omega]
    exact UInt16.ofNat_toNat
  simp only [unicodeEscape, List.cons_append, List.nil_append]
  rw [unquoteUnits, if_neg (by decide), if_pos rfl]
  simp only [if_true, hexValue_hexUnit, hvalue]

/-- **A unit is read as it was written.**  It stands for itself, or a short escape or four
digits stand for it. -/
theorem unquoteUnits_escapeUnit (c : UInt16) (rest : JsString) :
    unquoteUnits (escapeUnit c ++ rest) = (unquoteUnits rest).map (c :: ·) id := by
  unfold escapeUnit
  split_ifs with h1 h2 h3 h4 h5 h6 h7 h8
  · subst h1; exact unquoteUnits_simple (by decide) rest
  · subst h2; exact unquoteUnits_simple (by decide) rest
  · subst h3; exact unquoteUnits_simple (by decide) rest
  · subst h4; exact unquoteUnits_simple (by decide) rest
  · subst h5; exact unquoteUnits_simple (by decide) rest
  · subst h6; exact unquoteUnits_simple (by decide) rest
  · subst h7; exact unquoteUnits_simple (by decide) rest
  · exact unquoteUnits_unicodeEscape c rest
  · exact unquoteUnits_plain h1 h2 rest

/-- **A string is read as it was written.**  By induction on the units, a pair of surrogates
being two of them. -/
theorem unquoteUnits_quoteUnits : ∀ s rest : JsString,
    unquoteUnits (quoteUnits s ++ 34 :: rest) = (s, rest)
  | [], rest => by rw [quoteUnits, List.nil_append, unquoteUnits.eq_def]; rfl
  | [c], rest => by
      rw [quoteUnits, unquoteUnits_escapeUnit, unquoteUnits.eq_def]
      rfl
  | c :: d :: s, rest => by
      unfold quoteUnits
      split_ifs with hp
      · obtain ⟨⟨hc, -⟩, hd, -⟩ := bounds_of_pair hp
        have hne : ∀ u v : UInt16, u.toNat < 128 → 55296 ≤ v.toNat → v ≠ u := by
          rintro u v hu hv rfl
          omega
        rw [List.cons_append, List.cons_append,
          unquoteUnits_plain (hne 34 c (by decide) hc) (hne 92 c (by decide) hc),
          unquoteUnits_plain (hne 34 d (by decide) (by omega)) (hne 92 d (by decide) (by omega)),
          unquoteUnits_quoteUnits s rest]
        rfl
      · rw [List.append_assoc, unquoteUnits_escapeUnit, unquoteUnits_quoteUnits (d :: s) rest]
        rfl

/-- **A quoted string shows where it ends.**  The reader stops at the quote that closes it.
Escapes keep a quote of the string itself from being taken for it. -/
theorem quote_append_inj {s t r r' : JsString} (h : quote s ++ r = quote t ++ r') :
    s = t ∧ r = r' := by
  have hread : ∀ s r : JsString, unquoteUnits ((quote s ++ r).tail) = (s, r) := by
    intro s r
    have htail : (quote s ++ r).tail = quoteUnits s ++ 34 :: r := by simp [quote]
    rw [htail, unquoteUnits_quoteUnits]
  have heq := (hread s r).symm.trans ((congrArg (fun u => unquoteUnits (List.tail u)) h).trans
    (hread t r'))
  exact Prod.mk.inj heq

/-! ### Numbers -/

/-- A unit that numbers are written with. -/
def isNumberUnit (c : UInt16) : Bool := isDigitUnit c || [43, 45, 46, 101].contains c

/-- What comes after a value: nothing, or a unit that continues no number. -/
def Ends (rest : JsString) : Prop := ∀ c ∈ rest.head?, isNumberUnit c = false

/-- A number ends before a unit that no number has. -/
theorem ends_cons {c : UInt16} (h : isNumberUnit c = false) (rest : JsString) :
    Ends (c :: rest) := fun d hd => by
  cases hd
  exact h

/-- The text of a number has only units that a number may have. -/
theorem isNumberUnit_of_mem_text {x : FiniteNumber} : ∀ c ∈ x.text, isNumberUnit c :=
  forall_text (fun c h h' => by
    rw [isNumberUnit, isDigitUnit_iff.2 ⟨h, h'⟩, Bool.true_or]) (List.all_eq_true.1 (by decide)) x

/-- **A number shows where it ends.**  What follows begins with a unit that no number has.  So
the longest start of number units is the text of the number, in both. -/
theorem text_append_inj {x y : FiniteNumber} {r r' : JsString} (hr : Ends r) (hr' : Ends r')
    (h : x.text ++ r = y.text ++ r') : x.text = y.text ∧ r = r' := by
  have hcut : ∀ {x : FiniteNumber} {r : JsString}, Ends r →
      (x.text ++ r).takeWhile isNumberUnit = x.text := by
    intro x r hr
    rw [List.takeWhile_append_of_pos isNumberUnit_of_mem_text]
    cases r with
    | nil => simp
    | cons c r => simp [hr c rfl]
  have htext : x.text = y.text := by rw [← hcut hr, h, hcut hr']
  rw [htext] at h
  exact ⟨htext, List.append_cancel_left h⟩

/-- **Numbers of one text are the same** but for the sign of a zero.  The text shows the sign,
the digits and the exponent. -/
theorem unsigned_of_text {x y : FiniteNumber} (h : x.text = y.text) : x.unsigned = y.unsigned := by
  have hsame := (FiniteNumber.text_eq_iff x y).1 h
  cases x with
  | zero s =>
      cases y with
      | zero s' => rfl
      | nonzero s' d' => cases hsame
  | nonzero s d =>
      cases y with
      | zero s' => cases hsame
      | nonzero s' d' =>
          obtain ⟨rfl, rfl⟩ : s = s' ∧ d = d' := by simpa [FiniteNumber.same] using hsame
          rfl

/-! ### Values -/

/-- The kinds of values that the first unit of a text tells apart. -/
inductive JsonKind where
  | null
  | true
  | false
  | number
  | string
  | array
  | object
  deriving DecidableEq

/-- The kind of a value. -/
def Json.kind : Json → JsonKind
  | .prim .null => .null
  | .prim (.bool true) => .true
  | .prim (.bool false) => .false
  | .prim (.number _) => .number
  | .prim (.string _) => .string
  | .arr _ => .array
  | .obj _ => .object

/-- The kind a first unit shows. -/
def unitKind (c : UInt16) : Option JsonKind :=
  if c = 110 then some .null
  else if c = 116 then some .true
  else if c = 102 then some .false
  else if c = 34 then some .string
  else if c = 91 then some .array
  else if c = 123 then some .object
  else if isNumberUnit c then some .number
  else none

/-- The text of a number is not empty.  It begins with a digit or with a minus sign. -/
theorem text_cons (x : FiniteNumber) : ∃ c t, x.text = c :: t := by
  cases x with
  | zero s => exact ⟨_, _, rfl⟩
  | nonzero s d =>
      cases s with
      | true => exact ⟨_, _, rfl⟩
      | false =>
          obtain ⟨c, t, hd, -⟩ := d.text_head
          exact ⟨c, t, hd⟩

/-- **The first unit shows the kind.**  A brace, a bracket, a quote, a letter or a digit tells
what is to come. -/
theorem kind_of_head (j : Json) : ∃ c t, j.stringify = c :: t ∧ unitKind c = some j.kind := by
  cases j with
  | arr items => exact ⟨_, _, rfl, rfl⟩
  | obj props => exact ⟨_, _, rfl, rfl⟩
  | prim p =>
      cases p with
      | null => exact ⟨_, _, rfl, by decide⟩
      | bool b => cases b <;> exact ⟨_, _, rfl, by decide⟩
      | string s => exact ⟨_, _, rfl, rfl⟩
      | number x =>
          obtain ⟨c, t, ht⟩ := text_cons x
          have hc := isNumberUnit_of_mem_text (x := x) c (ht ▸ List.mem_cons_self ..)
          have hne : ∀ u, isNumberUnit u = false → c ≠ u := by
            rintro u hu rfl
            exact Bool.false_ne_true (hu.symm.trans hc)
          refine ⟨c, t, ht, ?_⟩
          unfold unitKind
          rw [if_neg (hne 110 (by decide)), if_neg (hne 116 (by decide)),
            if_neg (hne 102 (by decide)), if_neg (hne 34 (by decide)), if_neg (hne 91 (by decide)),
            if_neg (hne 123 (by decide)), if_pos hc]
          rfl

/-- A unit that begins no value. -/
theorem stringify_ne_cons {c : UInt16} (hc : unitKind c = none) (j : Json) (r r' : JsString) :
    j.stringify ++ r ≠ c :: r' := by
  intro h
  obtain ⟨d, t, hj, hd⟩ := kind_of_head j
  rw [hj, List.cons_append] at h
  rw [(List.cons.inj h).1, hc] at hd
  cases hd

/-- Texts that agree are of values of one kind. -/
theorem kind_of_append {j k : Json} {r r' : JsString} (h : j.stringify ++ r = k.stringify ++ r') :
    j.kind = k.kind := by
  obtain ⟨c, t, hj, hc⟩ := kind_of_head j
  obtain ⟨d, u, hk, hd⟩ := kind_of_head k
  rw [hj, hk, List.cons_append, List.cons_append] at h
  rw [(List.cons.inj h).1, hd] at hc
  exact (Option.some.inj hc).symm

/-! ### Arrays and objects -/

/-- Texts, each behind a comma. -/
def preceded {α : Type*} (text : α → JsString) (l : List α) : JsString :=
  l.flatMap fun a => 44 :: text a

/-- Texts separated by commas. -/
def separated {α : Type*} (text : α → JsString) : List α → JsString
  | [] => []
  | a :: l => text a ++ preceded text l

/-- The rest of a list is written as a comma and then as a list. -/
theorem preceded_cons {α : Type*} (text : α → JsString) (a : α) (l : List α) :
    preceded text (a :: l) = 44 :: separated text (a :: l) := rfl

/-- The items of an array are written with commas between them.  `separated` is the form in
which the lemmas about a list of parts are stated. -/
theorem stringifyItems_eq (items : List Json) :
    Json.stringifyItems items = separated Json.stringify items := by
  induction items with
  | nil => rfl
  | cons j rest ih =>
      cases rest with
      | nil => exact (List.append_nil j.stringify).symm
      | cons k rest => rw [Json.stringifyItems, separated, ih, preceded_cons]

/-- The text of a member. -/
def memberText (p : JsString × Json) : JsString := quote p.1 ++ 58 :: p.2.stringify

/-- The properties of an object are written with commas between them.  A part is the quoted
name, a colon and the value. -/
theorem stringifyProps_eq (props : List (JsString × Json)) :
    Json.stringifyProps props = separated memberText props := by
  induction props with
  | nil => rfl
  | cons p rest ih =>
      cases rest with
      | nil => exact (List.append_nil (memberText p)).symm
      | cons q rest =>
          obtain ⟨name, j⟩ := p
          rw [Json.stringifyProps, separated, ih, preceded_cons, memberText, List.append_assoc,
            List.cons_append]

/-- A value whose text shows where it ends, and what it says. -/
def Shows {α β : Type*} (text : α → JsString) (what : α → β) (a : α) : Prop :=
  ∀ b r r', Ends r → Ends r' → text a ++ r = text b ++ r' → what a = what b ∧ r = r'

section

variable {α β : Type*} {text : α → JsString} {what : α → β} {close : UInt16}

/-- A number ends before the rest of a list, or before what closes it. -/
theorem ends_preceded (hclose : isNumberUnit close = false) (l : List α) (r : JsString) :
    Ends (preceded text l ++ close :: r) := by
  cases l with
  | nil => exact ends_cons hclose r
  | cons a l => exact ends_cons (by decide) _

/-- **The rest of a list can be read in one way only.**  Two lists of which each element shows
what it is, written one way before the same closing unit, are of the same things, and what
follows them is the same. -/
theorem preceded_append_inj (hclose : isNumberUnit close = false) (hcomma : close ≠ 44) :
    ∀ {l l' : List α} {r r' : JsString}, (∀ a ∈ l, Shows text what a) →
      preceded text l ++ close :: r = preceded text l' ++ close :: r' →
        l.map what = l'.map what ∧ r = r'
  | [], [], _, _, _, h => ⟨rfl, (List.cons.inj h).2⟩
  | [], _ :: _, _, _, _, h => absurd (List.cons.inj h).1 hcomma
  | _ :: _, [], _, _, _, h => absurd (List.cons.inj h).1.symm hcomma
  | a :: l, b :: l', r, r', hl, h => by
      rw [preceded_cons, preceded_cons, separated, separated, List.cons_append, List.cons_append,
        List.append_assoc, List.append_assoc] at h
      obtain ⟨hwhat, hrest⟩ := hl a (List.mem_cons_self ..) b _ _ (ends_preceded hclose l r)
        (ends_preceded hclose l' r') (List.cons.inj h).2
      obtain ⟨hmap, hr⟩ := preceded_append_inj hclose hcomma
        (fun x hx => hl x (List.mem_cons_of_mem _ hx)) hrest
      rw [List.map_cons, List.map_cons, hwhat, hmap]
      exact ⟨rfl, hr⟩

/-- **Separated texts show where they end**, before a unit that none of them begins with.  By
induction on the list, with what is left of it behind a comma. -/
theorem separated_append_inj (hclose : isNumberUnit close = false) (hcomma : close ≠ 44)
    (hbegin : ∀ a r r', text a ++ r ≠ close :: r') {l l' : List α} {r r' : JsString}
    (hl : ∀ a ∈ l, Shows text what a)
    (h : separated text l ++ close :: r = separated text l' ++ close :: r') :
    l.map what = l'.map what ∧ r = r' := by
  cases l with
  | nil =>
      cases l' with
      | nil => exact ⟨rfl, (List.cons.inj h).2⟩
      | cons b l' =>
          rw [separated, separated, List.append_assoc] at h
          exact absurd h.symm (hbegin b _ _)
  | cons a l =>
      cases l' with
      | nil =>
          rw [separated, separated, List.append_assoc] at h
          exact absurd h (hbegin a _ _)
      | cons b l' =>
          refine preceded_append_inj hclose hcomma hl ?_
          rw [preceded_cons, preceded_cons, List.cons_append, List.cons_append, h]

end

/-- A member shows where it ends when its value does. -/
theorem shows_member {p : JsString × Json} (h : Shows Json.stringify Json.unsigned p.2) :
    Shows memberText (fun p => (p.1, p.2.unsigned)) p := by
  intro q r r' hr hr' heq
  rw [memberText, memberText, List.append_assoc, List.append_assoc] at heq
  obtain ⟨hname, hrest⟩ := quote_append_inj heq
  obtain ⟨hvalue, hend⟩ := h q.2 r r' hr hr' (List.cons.inj hrest).2
  exact ⟨Prod.ext hname hvalue, hend⟩

/-- A primitive shows where it ends.  Its kind is read off its first unit, and each kind has its
own end. -/
theorem shows_prim (p : JsonPrimitive) : Shows Json.stringify Json.unsigned (.prim p) := by
  intro k r r' hr hr' h
  have hkind := kind_of_append h
  match p, k with
  | .null, .prim .null => exact ⟨rfl, List.append_cancel_left h⟩
  | .bool true, .prim (.bool true) => exact ⟨rfl, List.append_cancel_left h⟩
  | .bool false, .prim (.bool false) => exact ⟨rfl, List.append_cancel_left h⟩
  | .string s, .prim (.string t) =>
      obtain ⟨rfl, hrest⟩ := quote_append_inj h
      exact ⟨rfl, hrest⟩
  | .number x, .prim (.number y) =>
      obtain ⟨htext, hrest⟩ := text_append_inj hr hr' h
      exact ⟨congrArg (fun x => Json.prim (.number x)) (unsigned_of_text htext), hrest⟩

/-- **Every value shows where it ends**, and what it is but for the signs of zeros.  By
induction on the tree; an array and an object end in a unit that no part of them does. -/
theorem shows_stringify (j : Json) : Shows Json.stringify Json.unsigned j := by
  induction j using Json.induction with
  | hprim p => exact shows_prim p
  | harr items ih =>
      intro k r r' hr hr' h
      have hkind := kind_of_append h
      cases k with
      | prim p => rcases p with _ | (_ | _) | _ | _ <;> cases hkind
      | obj props => cases hkind
      | arr items' =>
          rw [Json.stringify, Json.stringify, stringifyItems_eq, stringifyItems_eq,
            List.cons_append, List.cons_append, List.append_assoc, List.append_assoc] at h
          obtain ⟨hmap, hrest⟩ := separated_append_inj (by decide) (by decide)
            (fun j r r' => stringify_ne_cons (by decide) j r r') ih (List.cons.inj h).2
          rw [Json.unsigned, Json.unsigned, Json.unsignedItems_eq, Json.unsignedItems_eq, hmap]
          exact ⟨rfl, hrest⟩
  | hobj props ih =>
      intro k r r' hr hr' h
      have hkind := kind_of_append h
      cases k with
      | prim p => rcases p with _ | (_ | _) | _ | _ <;> cases hkind
      | arr items => cases hkind
      | obj props' =>
          rw [Json.stringify, Json.stringify, stringifyProps_eq, stringifyProps_eq,
            List.cons_append, List.cons_append, List.append_assoc, List.append_assoc] at h
          have hbegin : ∀ p r r', memberText p ++ r ≠ 125 :: r' := fun p r r' he =>
            absurd (List.cons.inj he).1 (by decide)
          obtain ⟨hmap, hrest⟩ := separated_append_inj (by decide) (by decide) hbegin
            (fun p hp => shows_member (ih p hp)) (List.cons.inj h).2
          rw [Json.unsigned, Json.unsigned, Json.unsignedProps_eq, Json.unsignedProps_eq, hmap]
          exact ⟨rfl, hrest⟩

/-- **Values are written alike when they differ in the signs of zeros only.**  A text shows its
value, and signs of zeros are not written. -/
theorem stringify_eq_iff {j k : Json} : j.stringify = k.stringify ↔ j.unsigned = k.unsigned := by
  refine ⟨fun h => ?_, fun h => ?_⟩
  · have hends : Ends [] := fun c hc => by cases hc
    exact (shows_stringify j k [] [] hends hends (by rw [h])).1
  · rw [← Json.stringify_unsigned j, h, Json.stringify_unsigned]

/-! ### Reading -/

/-- **What `JSON.parse` does with what `JSON.stringify` wrote.** -/
def ReadsJson (parse : JsString → Option Json) : Prop :=
  ∀ j : Json, j.isData → parse j.stringify = some j.unsigned

open Classical in
/-- A parser of the texts that `JSON.stringify` writes. -/
noncomputable def readWritten (text : JsString) : Option Json :=
  if h : ∃ j : Json, j.stringify = text then some h.choose.unsigned else none

/-- The reader of written texts is one that reads them back. -/
theorem readsJson_readWritten : ReadsJson readWritten := by
  intro j _
  have h : ∃ k : Json, k.stringify = j.stringify := ⟨j, rfl⟩
  rw [readWritten, dif_pos h]
  exact congrArg some (stringify_eq_iff.1 h.choose_spec)

end NewtonDB
