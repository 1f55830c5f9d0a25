/-
# Typed pointers

`formatPath` and `parsePath` of `src/path.ts`.  A pointer is a slash before each token of a
path.  In a string token `~` is written `~0` and `/` is written `~1`; a number token is
`~n` and its decimals, which no string token begins with.

Written strings are those where every `~` is followed by `0` or `1` and there is no slash
(`exists_encodeName`), so a token is read as what was written (`decode_encode`) and what is
read is written as it was (`encode_decode`); slashes separate tokens and occur in none.
-/

import NewtonDB.Path
import NewtonDB.Js.Digits

namespace NewtonDB

/-! ### Pointers -/

/-- `replaceAll` of a string: each occurrence is replaced, from the left, and `skip` units of
one that was found are still to be left out. -/
def replaceAll (pattern replacement : JsString) : ℕ → JsString → JsString
  | _, [] => []
  | skip + 1, _ :: rest => replaceAll pattern replacement skip rest
  | 0, c :: rest =>
      if pattern.isPrefixOf (c :: rest) then
        replacement ++ replaceAll pattern replacement (pattern.length - 1) rest
      else c :: replaceAll pattern replacement 0 rest

/-- `String(value)`. -/
def JsNumber.text : JsNumber → JsString
  | .nan => js "NaN"
  | .infinity negative => if negative then js "-Infinity" else js "Infinity"
  | .finite x => x.text

/-- `encodePointerToken`. -/
def encodePointerToken : PathToken → JsString
  | .index n => js "~n" ++ n.text
  | .name s => replaceAll (js "/") (js "~1") 0 (replaceAll (js "~") (js "~0") 0 s)

/-- The group of `/^~n(0|[1-9]\d*)$/u`. -/
def numericToken? : JsString → Option JsString
  | a :: b :: digits => if a = 126 ∧ b = 110 ∧ isCanonicalDigits digits then some digits else none
  | _ => none

/-- `/~(?![01])/u`. -/
def hasInvalidEscape : JsString → Bool
  | [] => false
  | c :: rest =>
      (c = 126 && rest.head? ≠ some 48 && rest.head? ≠ some 49) || hasInvalidEscape rest

/-- `decodePointerToken`.  `Number` rounds digits beyond the safe integers to numbers that
are beyond them as well. -/
def decodePointerToken (token : JsString) : Except NewtonError PathToken :=
  match numericToken? token with
  | some digits =>
      if digitsValue digits ≤ 2 ^ 53 - 1 then
        .ok (.index (.finite (.ofNat (digitsValue digits))))
      else .error (.invalidArgument (js "Numeric path token exceeds the safe-integer range"))
  | none =>
      if hasInvalidEscape token then
        .error (.invalidArgument (js "Property pointer contains an invalid escape"))
      else .ok (.name (replaceAll (js "~0") (js "~") 0 (replaceAll (js "~1") (js "/") 0 token)))

/-- The default of `maxTokens`. -/
def maxPathTokens : ℕ := 32

/-- `formatPath`. -/
def formatPath (path : PropertyPath) : Except NewtonError JsString := do
  let path ← validatePath (path.map PathToken.view) maxPathTokens
  return js "/" ++ (js "/").intercalate (path.map encodePointerToken)

/-- `parsePath` of a string. -/
def parsePath (pointer : JsString) (maxTokens : ℕ) : Except NewtonError PropertyPath := do
  if !(js "/").isPrefixOf pointer then
    throw (.invalidArgument (js "A property pointer must start with /"))
  let tokens ← ((pointer.drop 1).splitOn 47).mapM decodePointerToken
  validatePath (tokens.map PathToken.view) maxTokens

/-! ### Tokens that are strings -/

/-- A unit of a name as it is written. -/
def encodeUnit (c : UInt16) : JsString :=
  if c = 126 then [126, 48] else if c = 47 then [126, 49] else [c]

/-- A tilde as it is after the first replacement. -/
def encodeTilde (c : UInt16) : JsString := if c = 126 then [126, 48] else [c]

/-- Where the pattern does not begin, a unit is copied. -/
theorem replaceAll_miss {pattern replacement : JsString} {c : UInt16} {rest : JsString}
    (h : pattern.isPrefixOf (c :: rest) = false) :
    replaceAll pattern replacement 0 (c :: rest) = c :: replaceAll pattern replacement 0 rest := by
  rw [replaceAll, if_neg (by simp [h])]

/-- **A name is written unit by unit.**  Tildes are replaced first, so that the slashes that
follow bring no new tilde in. -/
theorem encodeName_eq (s : JsString) :
    encodePointerToken (.name s) = s.flatMap encodeUnit := by
  have htilde : ∀ s : JsString, replaceAll (js "~") (js "~0") 0 s = s.flatMap encodeTilde := by
    intro s
    induction s with
    | nil => rfl
    | cons c s ih =>
        rw [List.flatMap_cons, ← ih]
        by_cases hc : c = 126
        · subst hc
          rfl
        · have hmiss : (js "~").isPrefixOf (c :: s) = false := by
            simpa [js, List.isPrefixOf] using Ne.symm hc
          rw [replaceAll_miss hmiss, encodeTilde, if_neg hc]
          rfl
  have hslash : ∀ s : JsString,
      replaceAll (js "/") (js "~1") 0 (s.flatMap encodeTilde) = s.flatMap encodeUnit := by
    intro s
    induction s with
    | nil => rfl
    | cons c s ih =>
        rw [List.flatMap_cons, List.flatMap_cons, ← ih, encodeTilde, encodeUnit]
        split_ifs with hc hs
        · rfl
        · subst hs
          rfl
        · have hmiss : (js "/").isPrefixOf (c :: s.flatMap encodeTilde) = false := by
            simpa [js, List.isPrefixOf] using Ne.symm hs
          exact replaceAll_miss hmiss
  rw [encodePointerToken, htilde, hslash]

/-- **The replacements of `decodePointerToken` undo those of `encodePointerToken`.**  They are
made in the other order, which is why a name with `~1` in it comes back. -/
theorem decodeName_eq (s : JsString) : replaceAll (js "~0") (js "~") 0
    (replaceAll (js "~1") (js "/") 0 (s.flatMap encodeUnit)) = s := by
  have hslash : ∀ s : JsString,
      replaceAll (js "~1") (js "/") 0 (s.flatMap encodeUnit) = s.flatMap encodeTilde := by
    intro s
    induction s with
    | nil => rfl
    | cons c s ih =>
        rw [List.flatMap_cons, List.flatMap_cons, ← ih, encodeTilde, encodeUnit]
        split_ifs with hc hs
        · rfl
        · subst hs
          rfl
        · have hmiss : (js "~1").isPrefixOf (c :: s.flatMap encodeUnit) = false := by
            simpa [js, List.isPrefixOf] using fun e : 126 = c => absurd e.symm hc
          exact replaceAll_miss hmiss
  have htilde : ∀ s : JsString, replaceAll (js "~0") (js "~") 0 (s.flatMap encodeTilde) = s := by
    intro s
    induction s with
    | nil => rfl
    | cons c s ih =>
        rw [List.flatMap_cons, encodeTilde]
        split_ifs with hc
        · subst hc
          exact congrArg (126 :: ·) ih
        · have hmiss : (js "~0").isPrefixOf (c :: s.flatMap encodeTilde) = false := by
            simpa [js, List.isPrefixOf] using fun e : 126 = c => absurd e.symm hc
          exact (replaceAll_miss hmiss).trans (congrArg (c :: ·) ih)
  rw [hslash, htilde]

/-- **Written strings** are those without a slash where each tilde is an escape.  By induction
on the token: an escape or any other unit comes first. -/
theorem exists_encodeName : ∀ {token : JsString}, 47 ∉ token → hasInvalidEscape token = false →
    ∃ s : JsString, token = s.flatMap encodeUnit
  | [], _, _ => ⟨[], rfl⟩
  | [c], hslash, hescape => by
      have hc : c ≠ 126 := by
        rintro rfl
        exact absurd hescape (by decide)
      have hs : c ≠ 47 := fun e => hslash (e ▸ List.mem_cons_self ..)
      exact ⟨[c], by simp [encodeUnit, hc, hs]⟩
  | c :: d :: rest, hslash, hescape => by
      have hs : c ≠ 47 := fun e => hslash (e ▸ List.mem_cons_self ..)
      have hrest : 47 ∉ d :: rest := fun hm => hslash (List.mem_cons_of_mem _ hm)
      rw [hasInvalidEscape, Bool.or_eq_false_iff] at hescape
      obtain ⟨hfirst, hescape⟩ := hescape
      by_cases hc : c = 126
      · subst hc
        rw [hasInvalidEscape, Bool.or_eq_false_iff] at hescape
        obtain ⟨s, rfl⟩ := exists_encodeName (fun hm => hrest (List.mem_cons_of_mem _ hm))
          hescape.2
        have hd : d = 48 ∨ d = 49 := by
          by_contra hd
          rw [not_or] at hd
          simp [hd.1, hd.2] at hfirst
        obtain rfl | rfl := hd
        · exact ⟨126 :: s, rfl⟩
        · exact ⟨47 :: s, rfl⟩
      · obtain ⟨s, hs'⟩ := exists_encodeName hrest hescape
        refine ⟨c :: s, ?_⟩
        rw [List.flatMap_cons, encodeUnit, if_neg hc, if_neg hs, hs']
        rfl

/-- An encoded name has no slash.  A slash is written `~1`, and no escape has one in it. -/
theorem not_mem_encodeName (s : JsString) : 47 ∉ s.flatMap encodeUnit := by
  intro hm
  obtain ⟨c, -, hc⟩ := List.mem_flatMap.1 hm
  unfold encodeUnit at hc
  split_ifs at hc with h1 h2
  · exact absurd hc (by decide)
  · exact absurd hc (by decide)
  · exact h2 (List.mem_singleton.1 hc).symm

/-- An encoded name has no escape but `~0` and `~1`.  By induction on the units; a tilde of the
name is escaped itself. -/
theorem hasInvalidEscape_encodeName (s : JsString) :
    hasInvalidEscape (s.flatMap encodeUnit) = false := by
  induction s with
  | nil => rfl
  | cons c s ih =>
      rw [List.flatMap_cons, encodeUnit]
      split_ifs with hc hs
      · simpa [hasInvalidEscape] using ih
      · simpa [hasInvalidEscape] using ih
      · simpa [hasInvalidEscape, hc] using ih

/-- A token that does not begin with `~n` is not a numeric one. -/
theorem numericToken?_eq_none {a b : UInt16} (h : a = 126 → b ≠ 110) (rest : JsString) :
    numericToken? (a :: b :: rest) = none :=
  if_neg fun hc => h hc.1 hc.2.1

/-- **An encoded name is not taken for an index**: its tildes are escaped, so that no `~n`
begins it. -/
theorem numericToken?_encodeName (s : JsString) : numericToken? (s.flatMap encodeUnit) = none := by
  cases s with
  | nil => rfl
  | cons c s =>
      rw [List.flatMap_cons, encodeUnit]
      split_ifs with hc hs
      · exact numericToken?_eq_none (fun _ => by decide) _
      · exact numericToken?_eq_none (fun _ => by decide) _
      · cases hr : s.flatMap encodeUnit with
        | nil => rfl
        | cons d rest => exact numericToken?_eq_none (fun e => absurd e hc) _

/-! ### Tokens -/

/-- A token without the sign of zero. -/
def PathToken.unsigned : PathToken → PathToken
  | .index (.finite x) => .index (.finite x.unsigned)
  | token => token

/-- A token that `validatePath` accepts behind the first. -/
def PathToken.IsValid : PathToken → Prop
  | .name _ => True
  | .index n => n.toIndex?.isSome

/-- A valid number token is a safe integer, written as its decimals.  The sign of zero is not
written. -/
theorem exists_index {n : JsNumber} (h : (PathToken.index n).IsValid) : ∃ k : ℕ,
    k ≤ 2 ^ 53 - 1 ∧ n.text = natText k ∧
      (PathToken.index n).unsigned = .index (.finite (.ofNat k)) := by
  obtain ⟨k, hk⟩ := Option.isSome_iff_exists.1 h
  cases n with
  | nan => cases hk
  | infinity s => cases hk
  | finite x =>
      simp only [JsNumber.toIndex?] at hk
      split at hk
      · next m hm =>
          split_ifs at hk with hle
          obtain rfl := Option.some.inj hk
          refine ⟨m, hle, ?_, congrArg (fun y => PathToken.index (.finite y)) ?_⟩
          · have hsame := FiniteNumber.same_of_toInt? hm (FiniteNumber.toInt?_ofNat m)
            exact ((FiniteNumber.text_eq_iff x _).2 hsame).trans (text_ofNat (by omega))
          · exact unsigned_eq_ofNat hm
      · cases hk

/-- An encoded index is read as its digits. -/
theorem numericToken?_natText (k : ℕ) :
    numericToken? (js "~n" ++ natText k) = some (natText k) :=
  if_pos ⟨rfl, rfl, isCanonicalDigits_natText k⟩

/-- **A token is read as it was written**, but for the sign of zero.  A name is unescaped; an
index has a mark of its own, so that a name of digits stays a name. -/
theorem decode_encode {token : PathToken} (h : token.IsValid) :
    decodePointerToken (encodePointerToken token) = .ok token.unsigned := by
  cases token with
  | name s =>
      rw [encodeName_eq, decodePointerToken, numericToken?_encodeName]
      dsimp only
      rw [hasInvalidEscape_encodeName, if_neg Bool.false_ne_true, decodeName_eq]
      rfl
  | index n =>
      obtain ⟨k, hk, htext, hunsigned⟩ := exists_index h
      rw [encodePointerToken, htext, decodePointerToken, numericToken?_natText, hunsigned]
      dsimp only
      rw [digitsValue_natText, if_pos hk]

/-- **An encoded token has no slash**, so that the slashes of a pointer are those between its
tokens. -/
theorem not_mem_encode {token : PathToken} (h : token.IsValid) : 47 ∉ encodePointerToken token := by
  cases token with
  | name s =>
      rw [encodeName_eq]
      exact not_mem_encodeName s
  | index n =>
      obtain ⟨k, -, htext, -⟩ := exists_index h
      rw [encodePointerToken, htext]
      intro hm
      obtain hm | hm := List.mem_append.1 hm
      · exact absurd hm (by decide)
      · exact (isDigits_natText k).ne_of_lt hm (by decide) rfl

/-- A numeric token is `~n` before canonical digits, and nothing else.  Any other text behind
`~n` is part of a name. -/
theorem numericToken?_eq_some {token digits : JsString} (h : numericToken? token = some digits) :
    token = js "~n" ++ digits ∧ isCanonicalDigits digits := by
  match token with
  | [] => cases h
  | [_] => cases h
  | a :: b :: rest =>
      rw [numericToken?] at h
      split_ifs at h with hc
      obtain rfl := Option.some.inj h
      obtain ⟨rfl, rfl, hdigits⟩ := hc
      exact ⟨rfl, hdigits⟩

/-- **What is read is written as it was.**  So a token has one text, and a path one pointer.
A number is read from canonical digits only, and a name without an escape that is not
canonical. -/
theorem encode_decode {text : JsString} {token : PathToken} (hslash : 47 ∉ text)
    (h : decodePointerToken text = .ok token) : encodePointerToken token = text := by
  unfold decodePointerToken at h
  split at h
  · next digits hdigits =>
      obtain ⟨rfl, hcanonical⟩ := numericToken?_eq_some hdigits
      split_ifs at h with hle
      obtain rfl := Except.ok.inj h
      show js "~n" ++ (FiniteNumber.ofNat (digitsValue digits)).text = _
      rw [text_ofNat (by omega), natText_digitsValue hcanonical]
  · split_ifs at h with hescape
    obtain rfl := Except.ok.inj h
    obtain ⟨s, rfl⟩ := exists_encodeName hslash (Bool.eq_false_iff.2 hescape)
    rw [decodeName_eq, encodeName_eq]

/-! ### Paths -/

/-- A path that `validatePath` accepts. -/
structure PropertyPath.IsValid (path : PropertyPath) : Prop where
  head : ∃ name rest, path = .name name :: rest
  length_le : path.length ≤ maxPathTokens
  tokens : ∀ token ∈ path, token.IsValid

/-- A token that passes the check is one of a path: a name, or a natural index that is not the
first. -/
theorem checkToken_eq_ok {index : ℕ} {view : TokenView} {token : PathToken}
    (h : checkToken index view = .ok token) :
    view = token.view ∧ token.IsValid ∧ (index = 0 → ∃ name, token = .name name) := by
  cases view with
  | string s =>
      obtain rfl := Except.ok.inj h
      exact ⟨rfl, trivial, fun _ => ⟨s, rfl⟩⟩
  | number n =>
      rw [checkToken] at h
      split_ifs at h with hc
      obtain rfl := Except.ok.inj h
      rw [Bool.and_eq_true, decide_eq_true_eq] at hc
      exact ⟨rfl, hc.1, fun e => by omega⟩
  | other => cases h

/-- A token of a path passes the check, at any place for a name and behind the first for an
index. -/
theorem checkToken_of_isValid {index : ℕ} {token : PathToken} (h : token.IsValid)
    (hindex : index = 0 → ∃ name, token = .name name) :
    checkToken index token.view = .ok token := by
  cases token with
  | name s => rfl
  | index n =>
      have hpos : 0 < index := Nat.pos_of_ne_zero fun e => by
        obtain ⟨name, hn⟩ := hindex e
        cases hn
      have hn : n.toIndex?.isSome = true := h
      rw [PathToken.view, checkToken, if_pos (by simp [hn, hpos])]

/-- The loop of `validatePath`.  The first token must be a name, which is why the index is
carried along. -/
theorem mapM_checkToken : ∀ {tokens : List TokenView} {index : ℕ} {path : PropertyPath},
    ((tokens.zipIdx index).mapM fun (token, index) => checkToken index token) = .ok path ↔
      tokens = path.map PathToken.view ∧ (∀ token ∈ path, token.IsValid) ∧
        (index = 0 → ∀ token ∈ path.head?, ∃ name, token = .name name)
  | [], index, path => by
      rw [List.zipIdx_nil, List.mapM_nil]
      constructor
      · intro h
        obtain rfl := Except.ok.inj h
        exact ⟨rfl, fun _ hm => (by cases hm), fun _ _ hm => by cases hm⟩
      · rintro ⟨h, -⟩
        obtain rfl := List.map_eq_nil_iff.1 h.symm
        rfl
  | token :: tokens, index, path => by
      rw [List.zipIdx_cons, List.mapM_cons]
      constructor
      · intro h
        obtain ⟨head, hhead, h⟩ := bind_eq_ok.1 h
        obtain ⟨tail, htail, h⟩ := bind_eq_ok.1 h
        obtain rfl := Except.ok.inj h
        obtain ⟨rfl, hvalid, hname⟩ := checkToken_eq_ok hhead
        obtain ⟨rfl, htokens, -⟩ := mapM_checkToken.1 htail
        refine ⟨rfl, List.forall_mem_cons.2 ⟨hvalid, htokens⟩, fun e t ht => ?_⟩
        obtain rfl := Option.some.inj ht
        exact hname e
      · rintro ⟨htokens, hvalid, hname⟩
        cases path with
        | nil => cases htokens
        | cons head tail =>
            obtain ⟨rfl, rfl⟩ := List.cons.inj htokens
            have hhead : checkToken index head.view = .ok head :=
              checkToken_of_isValid (hvalid _ (List.mem_cons_self ..)) fun e => hname e head rfl
            have htail : (((tail.map PathToken.view).zipIdx (index + 1)).mapM
                fun (token, index) => checkToken index token) = .ok tail :=
              mapM_checkToken.2
                ⟨rfl, fun t ht => hvalid t (List.mem_cons_of_mem _ ht), fun e => by omega⟩
            dsimp only
            rw [hhead, htail]
            rfl

/-- **What `validatePath` accepts.**  A list of tokens, not too long, that begins with a name
and has natural indexes only. -/
theorem validatePath_eq_ok {tokens : List TokenView} {path : PropertyPath} :
    validatePath tokens maxPathTokens = .ok path ↔
      tokens = path.map PathToken.view ∧ path.IsValid := by
  unfold validatePath
  constructor
  · intro h
    split_ifs at h with hlen
    obtain ⟨rfl, hvalid, hname⟩ := mapM_checkToken.1 h
    rw [Bool.or_eq_true, decide_eq_true_eq, decide_eq_true_eq, not_or, List.length_map] at hlen
    cases path with
    | nil => exact absurd rfl hlen.1
    | cons head tail =>
        obtain ⟨name, rfl⟩ := hname rfl head rfl
        exact ⟨rfl, ⟨name, tail, rfl⟩, not_lt.1 hlen.2, hvalid⟩
  · rintro ⟨rfl, ⟨name, rest, rfl⟩, hlen, hvalid⟩
    have hok : ¬(decide ((List.map PathToken.view (.name name :: rest)).length = 0) ||
        decide (maxPathTokens < (List.map PathToken.view (.name name :: rest)).length)) = true := by
      rw [List.length_map, Bool.or_eq_true, decide_eq_true_eq, decide_eq_true_eq, not_or]
      exact ⟨Nat.succ_ne_zero _, not_lt.2 hlen⟩
    rw [if_neg hok]
    refine mapM_checkToken.2 ⟨rfl, hvalid, fun _ t ht => ?_⟩
    obtain rfl := Option.some.inj ht
    exact ⟨name, rfl⟩

/-- A path without the signs of zeros is as valid.  Only the number zero has a sign to lose. -/
theorem PropertyPath.IsValid.unsigned {path : PropertyPath} (h : path.IsValid) :
    PropertyPath.IsValid (path.map PathToken.unsigned) := by
  obtain ⟨⟨name, rest, rfl⟩, hlen, hvalid⟩ := h
  refine ⟨⟨name, rest.map PathToken.unsigned, rfl⟩, by rwa [List.length_map], fun t ht => ?_⟩
  obtain ⟨token, htoken, rfl⟩ := List.mem_map.1 ht
  have htok := hvalid token htoken
  cases token with
  | name s => trivial
  | index n =>
      obtain ⟨k, hk, -, hunsigned⟩ := exists_index htok
      rw [hunsigned]
      have hindex : (JsNumber.finite (.ofNat k)).toIndex? = some k := by
        simp only [JsNumber.toIndex?, FiniteNumber.toInt?_ofNat]
        exact if_pos hk
      exact Option.isSome_iff_exists.2 ⟨k, hindex⟩

/-- It is the same path, as the source compares paths.  `===` takes both zeros for the same. -/
theorem samePath_unsigned : ∀ {path : PropertyPath}, (∀ token ∈ path, token.IsValid) →
    samePath (path.map PathToken.unsigned) path = true
  | [], _ => rfl
  | token :: path, h => by
      have hrest := samePath_unsigned fun t ht => h t (List.mem_cons_of_mem _ ht)
      have htoken : token.unsigned.same token = true := by
        have hvalid := h token (List.mem_cons_self ..)
        cases token with
        | name s => exact beq_self_eq_true s
        | index n =>
            cases n with
            | nan => cases hvalid
            | infinity s => cases hvalid
            | finite x => cases x <;> simp [PathToken.unsigned, FiniteNumber.unsigned,
                PathToken.same, JsNumber.same, FiniteNumber.same]
      rw [List.map_cons, samePath, htoken, hrest]
      rfl

/-- **A path is formatted as its encoded tokens**, each behind a slash. -/
theorem formatPath_of_isValid {path : PropertyPath} (h : path.IsValid) :
    formatPath path = .ok (47 :: List.intercalate [47] (path.map encodePointerToken)) := by
  rw [formatPath, validatePath_eq_ok.2 ⟨rfl, h⟩]
  rfl

/-- The tokens of a path are decoded from what they were encoded as, but for the sign of a
zero. -/
theorem mapM_decode_encode : ∀ {path : PropertyPath}, (∀ token ∈ path, token.IsValid) →
    (path.map encodePointerToken).mapM decodePointerToken = .ok (path.map PathToken.unsigned)
  | [], _ => rfl
  | token :: path, h => by
      rw [List.map_cons, List.mapM_cons, decode_encode (h token (List.mem_cons_self ..)),
        mapM_decode_encode fun t ht => h t (List.mem_cons_of_mem _ ht)]
      rfl

/-- **A written path is read.**  The pieces between the slashes are the tokens, since no token
has one. -/
theorem parsePath_of_isValid {path : PropertyPath} (h : path.IsValid) :
    parsePath (47 :: List.intercalate [47] (path.map encodePointerToken)) maxPathTokens =
      .ok (path.map PathToken.unsigned) := by
  have hne : path.map encodePointerToken ≠ [] := by
    obtain ⟨⟨name, rest, rfl⟩, -⟩ := h
    exact List.cons_ne_nil _ _
  have hslash : ∀ text ∈ path.map encodePointerToken, 47 ∉ text := fun text htext => by
    obtain ⟨token, htoken, rfl⟩ := List.mem_map.1 htext
    exact not_mem_encode (h.tokens token htoken)
  have hsplit : (List.intercalate [47] (path.map encodePointerToken)).splitOn 47 =
      path.map encodePointerToken := List.splitOn_intercalate 47 hslash hne
  show (((List.intercalate [47] (path.map encodePointerToken)).splitOn 47).mapM
    decodePointerToken >>= fun tokens => validatePath (tokens.map PathToken.view) maxPathTokens) = _
  rw [hsplit, mapM_decode_encode h.tokens]
  exact validatePath_eq_ok.2 ⟨rfl, h.unsigned⟩

/-- A piece between slashes has none.  By recursion on the text, which is cut at every slash. -/
theorem not_mem_of_mem_splitOn : ∀ {s : JsString} {piece : JsString}, piece ∈ s.splitOn 47 →
    47 ∉ piece
  | [], piece, h => by
      obtain rfl := List.mem_singleton.1 h
      exact List.not_mem_nil
  | c :: s, piece, h => by
      rw [List.splitOn_cons_eq_if_modifyHead] at h
      split_ifs at h with hc
      · obtain rfl | h := List.mem_cons.1 h
        · exact List.not_mem_nil
        · exact not_mem_of_mem_splitOn h
      · obtain ⟨first, rest, hs⟩ := List.exists_cons_of_ne_nil (List.splitOn_ne_nil 47 s)
        rw [hs, List.modifyHead_cons] at h
        have hfirst : 47 ∉ first := not_mem_of_mem_splitOn (hs ▸ List.mem_cons_self ..)
        obtain rfl | h := List.mem_cons.1 h
        · intro hm
          obtain e | hm := List.mem_cons.1 hm
          · exact hc (by rw [← e]; exact beq_self_eq_true _)
          · exact hfirst hm
        · exact not_mem_of_mem_splitOn (hs ▸ List.mem_cons_of_mem _ h)

/-- Pieces that can be decoded are what their tokens are encoded as: a token has one encoding
only. -/
theorem map_encode_decode : ∀ {pieces : List JsString} {path : PropertyPath},
    (∀ piece ∈ pieces, 47 ∉ piece) → pieces.mapM decodePointerToken = .ok path →
      path.map encodePointerToken = pieces
  | [], path, _, h => by
      obtain rfl := Except.ok.inj h
      rfl
  | piece :: pieces, path, hslash, h => by
      rw [List.mapM_cons] at h
      obtain ⟨token, htoken, h⟩ := bind_eq_ok.1 h
      obtain ⟨rest, hrest, h⟩ := bind_eq_ok.1 h
      obtain rfl := Except.ok.inj h
      rw [List.map_cons, encode_decode (hslash _ (List.mem_cons_self ..)) htoken,
        map_encode_decode (fun p hp => hslash p (List.mem_cons_of_mem _ hp)) hrest]

/-- **A pointer that is read is written as it was.**  With the other direction, pointers and
paths correspond. -/
theorem formatPath_of_parsePath {pointer : JsString} {path : PropertyPath}
    (h : parsePath pointer maxPathTokens = .ok path) : formatPath path = .ok pointer := by
  unfold parsePath at h
  split_ifs at h with hprefix
  · cases h
  · obtain ⟨tokens, htokens, h⟩ := bind_eq_ok.1 h
    obtain ⟨heq, hvalid⟩ := validatePath_eq_ok.1 h
    obtain rfl : path = tokens := validatePath_view h
    rw [formatPath_of_isValid hvalid,
      map_encode_decode (fun piece hpiece => not_mem_of_mem_splitOn hpiece) htokens,
      List.intercalate_splitOn]
    cases pointer with
    | nil => exact absurd rfl hprefix
    | cons c rest =>
        have hc : 47 = c := by simpa [js, List.isPrefixOf] using hprefix
        rw [hc]
        rfl

/-- **Typed pointers are a bijection.**  A valid path is read from its pointer, but for the
sign of a zero, which is the same token; a pointer that is read is the one its path is
written as, so that two pointers never denote one path. -/
theorem pointers_bijective :
    (∀ tokens path, validatePath tokens maxPathTokens = .ok path →
      ∃ pointer, formatPath path = .ok pointer ∧
        parsePath pointer maxPathTokens = .ok (path.map PathToken.unsigned) ∧
        samePath (path.map PathToken.unsigned) path = true) ∧
    (∀ pointer path, parsePath pointer maxPathTokens = .ok path → formatPath path = .ok pointer) ∧
    ∀ pointer pointer' path, parsePath pointer maxPathTokens = .ok path →
      parsePath pointer' maxPathTokens = .ok path → pointer = pointer' := by
  refine ⟨fun tokens path h => ?_, fun pointer path h => formatPath_of_parsePath h,
    fun pointer pointer' path h h' => ?_⟩
  · have hvalid := (validatePath_eq_ok.1 h).2
    exact ⟨_, formatPath_of_isValid hvalid, parsePath_of_isValid hvalid,
      samePath_unsigned hvalid.tokens⟩
  · exact Except.ok.inj ((formatPath_of_parsePath h).symm.trans (formatPath_of_parsePath h'))

/-- The pointer of the tests of the source.  It has an escape of each kind in it. -/
theorem pointer_of_escapes : ∃ pointer,
    formatPath [.name (js "a/b"), .name (js "~n12"), .index (.finite (.ofNat 12)),
      .name (js "0")] = .ok pointer ∧
    parsePath pointer maxPathTokens = .ok [.name (js "a/b"), .name (js "~n12"),
      .index (.finite (.ofNat 12)), .name (js "0")] ∧
    samePath [.name (js "a/b"), .name (js "~n12"), .index (.finite (.ofNat 12)),
      .name (js "0")] [.name (js "a/b"), .name (js "~n12"), .index (.finite (.ofNat 12)),
      .name (js "0")] = true :=
  pointers_bijective.1 [.string (js "a/b"), .string (js "~n12"),
    .number (.finite (.ofNat 12)), .string (js "0")] _ (by decide +kernel)

end NewtonDB
