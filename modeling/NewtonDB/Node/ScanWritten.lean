/-
# The scan of what was written

The grammar of JSON texts is unambiguous: **a text is derived from one value only**
(`derives_padded_unique`), because a value shows where it ends to whoever sees a unit that
cannot continue a number behind it.  So how many values a text has, and how deep they are
nested, can be read off any value it is derived from, and the scan passes the text of a tree
exactly when the tree is within the limits (`assertNoDuplicateJsonKeys_stringify_iff`).
-/

import NewtonDB.Js.JsonWritten
import NewtonDB.Node.ScanGrammar

namespace NewtonDB

/-! ### Where parts end -/

section

variable {w w' t t' r r' : JsString}

/-- Texts of one length that something follows are one text. -/
theorem eq_of_append {s s' : JsString} (h : s ++ r = s' ++ r') (hlength : s.length = s'.length) :
    s = s' ∧ r = r' := List.append_inj h hlength

/-- White space ends where it ends. -/
theorem blank_unique (hw : IsBlank w) (hw' : IsBlank w') (ht : StartsSolid t)
    (ht' : StartsSolid t') (h : w ++ t = w' ++ t') : w = w' ∧ t = t' := by
  have htake := Scan.takeWhile_of_blank hw ht
  rw [h, Scan.takeWhile_of_blank hw' ht'] at htake
  subst htake
  exact ⟨rfl, List.append_cancel_left h⟩

/-- The inside of a string ends at its closing quote. -/
theorem body_unique (ht : StringBody t) (ht' : StringBody t') (h : t ++ 34 :: r = t' ++ 34 :: r') :
    t = t' ∧ r = r' := by
  have hend := stringEnd_of_body ht r 0
  rw [h, stringEnd_of_body ht' r' 0] at hend
  have hlength := Except.ok.inj hend
  obtain ⟨rfl, hrest⟩ := eq_of_append h (by omega)
  exact ⟨rfl, (List.cons.inj hrest).2⟩

/-- **A number can be read in one way only**: what follows it stops it.  Both are as long as the
scan matches. -/
theorem number_unique (ht : NumberText t) (ht' : NumberText t') (hr : StopsNumber r)
    (hr' : StopsNumber r') (h : t ++ r = t' ++ r') : t = t' := by
  have hlength := numberLength_append ht hr
  rw [h, numberLength_append ht' hr'] at hlength
  exact (eq_of_append h (Option.some.inj hlength).symm).1

/-- The literals. -/
def literals : List JsString := [js "true", js "false", js "null"]

/-- An atom is a number or a literal. -/
theorem AtomText.cases_literal (h : AtomText t) : NumberText t ∨ t ∈ literals := by
  cases h with
  | number h => exact .inl h
  | true => exact .inr (by decide)
  | false => exact .inr (by decide)
  | null => exact .inr (by decide)

/-- A literal and a number begin with other units.  A number begins with a digit or with a minus
sign. -/
theorem literal_ne_number (ht : t ∈ literals) (ht' : NumberText t') (h : t ++ r = t' ++ r') :
    False := by
  obtain ⟨c, u, rfl, hc⟩ := ht'.head
  have hhead : ∀ s ∈ literals, ∃ d v, s = d :: v ∧ d ∈ [(116 : UInt16), 102, 110] := by
    intro s hs
    simp only [literals, List.mem_cons, List.not_mem_nil, or_false] at hs
    rcases hs with rfl | rfl | rfl <;> exact ⟨_, _, rfl, by decide⟩
  obtain ⟨d, v, rfl, hd⟩ := hhead t ht
  obtain rfl := (List.cons.inj h).1
  simp only [List.mem_cons, List.not_mem_nil, or_false] at hd
  rcases hd with rfl | rfl | rfl <;> exact absurd hc (by decide)

/-- A literal or a number ends where it ends.  What stops a number is in no atom, and no literal
is the start of another. -/
theorem atom_unique (ht : AtomText t) (ht' : AtomText t') (hr : StopsNumber r)
    (hr' : StopsNumber r') (h : t ++ r = t' ++ r') : t = t' := by
  rcases ht.cases_literal with hn | hl <;> rcases ht'.cases_literal with hn' | hl'
  · exact number_unique hn hn' hr hr' h
  · exact (literal_ne_number hl' hn h.symm).elim
  · exact (literal_ne_number hl hn' h).elim
  · have hheads : ∀ s ∈ literals, ∀ s' ∈ literals, s.head? = s'.head? → s = s' := by decide
    have hne : ∀ s ∈ literals, s ≠ [] := by decide
    refine hheads t hl t' hl' ?_
    rw [← List.head?_append_of_ne_nil t (hne t hl), h,
      List.head?_append_of_ne_nil t' (hne t' hl')]

end

/-! ### What a value begins with -/

namespace Derives

variable {v : JsonSyntax} {t : JsString}

/-- No literal and no number begins with this. -/
theorem not_atom {c : UInt16} (hc : c = 34 ∨ c = 91 ∨ c = 123) : ¬AtomText (c :: t) := by
  intro h
  obtain ⟨d, u, hd, hkind⟩ := h.head
  obtain rfl := (List.cons.inj hd).1
  rcases hc with rfl | rfl | rfl <;> exact absurd hkind (by decide)

/-- A value that begins with a quote is a string. -/
theorem string_of_head (h : Derives (.value v) (34 :: t)) :
    ∃ body, v = .string body ∧ StringBody body ∧ t = body ++ [34] := by
  generalize ht : 34 :: t = text at h
  cases h with
  | atom h => exact (not_atom (.inl rfl) (ht ▸ h)).elim
  | string h => exact ⟨_, rfl, h, (List.cons.inj ht).2⟩
  | noItems | array | noMembers | object => exact absurd (List.cons.inj ht).1 (by decide)

/-- A value that begins with a bracket is an array.  Its items, or the white space in an empty
one, are what stands before the bracket that closes it. -/
theorem array_of_head (h : Derives (.value v) (91 :: t)) :
    ∃ vs s, v = .array vs ∧ t = s ++ [93] ∧ ((vs = [] ∧ IsBlank s) ∨ Derives (.items vs) s) := by
  generalize ht : 91 :: t = text at h
  cases h with
  | atom h => exact (not_atom (.inr (.inl rfl)) (ht ▸ h)).elim
  | noItems h => exact ⟨[], _, rfl, (List.cons.inj ht).2, .inl ⟨rfl, h⟩⟩
  | array h => exact ⟨_, _, rfl, (List.cons.inj ht).2, .inr h⟩
  | string | noMembers | object => exact absurd (List.cons.inj ht).1 (by decide)

/-- A value that begins with a brace is an object.  Its members, or the white space in an empty
one, are what stands before the brace that closes it. -/
theorem object_of_head (h : Derives (.value v) (123 :: t)) :
    ∃ ms s, v = .object ms ∧ t = s ++ [125] ∧ ((ms = [] ∧ IsBlank s) ∨ Derives (.members ms) s) := by
  generalize ht : 123 :: t = text at h
  cases h with
  | atom h => exact (not_atom (.inr (.inr rfl)) (ht ▸ h)).elim
  | noMembers h => exact ⟨[], _, rfl, (List.cons.inj ht).2, .inl ⟨rfl, h⟩⟩
  | object h => exact ⟨_, _, rfl, (List.cons.inj ht).2, .inr h⟩
  | string | noItems | array => exact absurd (List.cons.inj ht).1 (by decide)

/-- A value whose text agrees with another begins with the same unit. -/
theorem exists_of_append {c : UInt16} {s r r' : JsString} (h : Derives (.value v) t)
    (he : c :: s ++ r = t ++ r') : ∃ u, t = c :: u ∧ s ++ r = u ++ r' := by
  obtain ⟨d, u, rfl, -⟩ := h.value_head
  obtain ⟨rfl, hs⟩ := List.cons.inj he
  exact ⟨u, rfl, hs⟩

/-- What a value begins with, other than a string, an array and an object.  The three that are
excluded are known by their first unit. -/
theorem atom_of_head {c : UInt16} (h : Derives (.value v) (c :: t)) (hquote : c ≠ 34)
    (hbracket : c ≠ 91) (hbrace : c ≠ 123) : v = .atom (c :: t) ∧ AtomText (c :: t) := by
  generalize ht : c :: t = text at h
  cases h with
  | atom h => exact ⟨rfl, h⟩
  | string => exact absurd (List.cons.inj ht).1 hquote
  | noItems | array => exact absurd (List.cons.inj ht).1 hbracket
  | noMembers | object => exact absurd (List.cons.inj ht).1 hbrace

end Derives

/-! ### The grammar is unambiguous -/

/-- What is derived shows what it is and where it ends. -/
def ShowsEnd : JsonPhrase → JsString → Prop
  | .value v, t => ∀ v' t' r r', Derives (.value v') t' → StopsNumber r → StopsNumber r' →
      t ++ r = t' ++ r' → v = v' ∧ t = t'
  | .padded v, t => ∀ v' t' r r', Derives (.padded v') t' → StartsSolid r → StopsNumber r →
      StartsSolid r' → StopsNumber r' → t ++ r = t' ++ r' → v = v' ∧ t = t'
  | .items vs, t => ∀ vs' t' r r', Derives (.items vs') t' → t ++ 93 :: r = t' ++ 93 :: r' →
      vs = vs' ∧ t = t'
  | .members ms, t => ∀ ms' t' r r', Derives (.members ms') t' →
      t ++ 125 :: r = t' ++ 125 :: r' → ms = ms' ∧ t = t'

section

variable {t t' r r' w w' : JsString} {v v' : JsonSyntax} {vs : List JsonSyntax}
  {ms : List (JsString × JsonSyntax)}

/-- A derived value begins solid. -/
theorem startsSolid_of_value (h : Derives (.value v) t) (r : JsString) : StartsSolid (t ++ r) := by
  obtain ⟨c, u, rfl, hc⟩ := h.value_head
  exact startsSolid_cons (Scan.isJsonWhitespace_eq_false hc) _

/-- White space and a bracket do not begin items.  Items begin with a value, and no value begins
with a bracket that closes. -/
theorem blank_ne_items (hw : IsBlank w) (h : Derives (.items vs) t)
    (he : w ++ 93 :: r = t ++ 93 :: r') : False := by
  obtain ⟨u, c, s, hu, rfl, hc, -⟩ := h.items_head
  rw [List.append_assoc, List.cons_append] at he
  obtain ⟨-, hrest⟩ := blank_unique hw hu (startsSolid_cons (by decide) _)
    (startsSolid_cons (Scan.isJsonWhitespace_eq_false hc) _) he
  rw [← (List.cons.inj hrest).1] at hc
  exact absurd hc (by decide)

/-- White space and a brace do not begin members. -/
theorem blank_ne_members (hw : IsBlank w) (h : Derives (.members ms) t)
    (he : w ++ 125 :: r = t ++ 125 :: r') : False := by
  obtain ⟨u, s, hu, rfl, -⟩ := h.members_head
  rw [List.append_assoc, List.cons_append] at he
  obtain ⟨-, hrest⟩ := blank_unique hw hu (startsSolid_cons (by decide) _)
    (startsSolid_cons (by decide) _) he
  exact absurd (List.cons.inj hrest).1 (by decide)

/-- A name and the colon behind it end where they end.  A string shows its end, and the colon
comes behind the white space. -/
theorem name_unique {u u' body body' : JsString} (hw : IsBlank w) (hbody : StringBody body)
    (hu : IsBlank u) (hw' : IsBlank w') (hbody' : StringBody body') (hu' : IsBlank u')
    (h : w ++ (quoted body ++ (u ++ 58 :: r)) = w' ++ (quoted body' ++ (u' ++ 58 :: r'))) :
    w = w' ∧ body = body' ∧ u = u' ∧ r = r' := by
  simp only [quoted, List.cons_append, List.append_assoc, List.nil_append] at h
  obtain ⟨rfl, hquoted⟩ := blank_unique hw hw' (startsSolid_cons (by decide) _)
    (startsSolid_cons (by decide) _) h
  obtain ⟨rfl, hrest⟩ := body_unique hbody hbody' (List.cons.inj hquoted).2
  obtain ⟨rfl, hcolon⟩ := blank_unique hu hu' (startsSolid_cons (by decide) _)
    (startsSolid_cons (by decide) _) hrest
  exact ⟨rfl, rfl, rfl, (List.cons.inj hcolon).2⟩

/-- What ends a value between white space.  A comma and the two brackets are in no atom and are
no white space, so both values end before the same unit. -/
theorem ShowsEnd.until (h : ShowsEnd (.padded v) t) {c c' : UInt16}
    (hc : c ∈ [(44 : UInt16), 93, 125]) (hc' : c' ∈ [(44 : UInt16), 93, 125])
    (hv : Derives (.padded v') t') (he : t ++ c :: r = t' ++ c' :: r') :
    v = v' ∧ t = t' ∧ c = c' ∧ r = r' := by
  have hclose : ∀ d ∈ [(44 : UInt16), 93, 125], isJsonWhitespace d = false ∧
      isDigitUnit d = false ∧ d ≠ 46 ∧ d ≠ 101 ∧ d ≠ 69 := by
    intro d hd
    simp only [List.mem_cons, List.not_mem_nil, or_false] at hd
    rcases hd with rfl | rfl | rfl <;> decide
  obtain ⟨hsolid, hstops⟩ := hclose c hc
  obtain ⟨hsolid', hstops'⟩ := hclose c' hc'
  obtain ⟨rfl, rfl⟩ := h v' t' _ _ hv (startsSolid_cons hsolid _) (stopsNumber_cons hstops _)
    (startsSolid_cons hsolid' _) (stopsNumber_cons hstops' _) he
  obtain ⟨rfl, rfl⟩ := List.cons.inj (List.append_cancel_left he)
  exact ⟨rfl, rfl, rfl, rfl⟩

end

/-- **The grammar is unambiguous.**  By induction on the derivation, against any other of the
same text. -/
theorem showsEnd_of_derives {phrase : JsonPhrase} {t : JsString} (h : Derives phrase t) :
    ShowsEnd phrase t := by
  induction h with
  | @atom t ht =>
      intro v' t' r r' h' hr hr' he
      obtain ⟨c, u, rfl, hc⟩ := ht.head
      obtain ⟨u', rfl, -⟩ := h'.exists_of_append he
      have hkind : c ≠ 34 ∧ c ≠ 91 ∧ c ≠ 123 := by
        refine ⟨?_, ?_, ?_⟩ <;> rintro rfl <;> exact absurd hc (by decide)
      obtain ⟨rfl, ht'⟩ := h'.atom_of_head hkind.1 hkind.2.1 hkind.2.2
      rw [atom_unique ht ht' hr hr' he]
      exact ⟨rfl, rfl⟩
  | @string body hbody =>
      intro v' t' r r' h' hr hr' he
      obtain ⟨u', rfl, hu⟩ := h'.exists_of_append he
      obtain ⟨body', rfl, hbody', rfl⟩ := h'.string_of_head
      simp only [List.append_assoc, List.cons_append, List.nil_append] at hu
      obtain ⟨rfl, -⟩ := body_unique hbody hbody' hu
      exact ⟨rfl, rfl⟩
  | @noItems w hw =>
      intro v' t' r r' h' hr hr' he
      obtain ⟨u', rfl, hu⟩ := h'.exists_of_append he
      obtain ⟨vs, s, rfl, rfl, ⟨rfl, hs⟩ | hs⟩ := h'.array_of_head
      · simp only [List.append_assoc, List.cons_append, List.nil_append] at hu
        obtain ⟨rfl, -⟩ := blank_unique hw hs (startsSolid_cons (by decide) _)
          (startsSolid_cons (by decide) _) hu
        exact ⟨rfl, rfl⟩
      · simp only [List.append_assoc, List.cons_append, List.nil_append] at hu
        exact (blank_ne_items hw hs hu).elim
  | @array vs s hs ih =>
      intro v' t' r r' h' hr hr' he
      obtain ⟨u', rfl, hu⟩ := h'.exists_of_append he
      obtain ⟨vs', s', rfl, rfl, ⟨rfl, hs'⟩ | hs'⟩ := h'.array_of_head
      · simp only [List.append_assoc, List.cons_append, List.nil_append] at hu
        exact (blank_ne_items hs' hs hu.symm).elim
      · simp only [List.append_assoc, List.cons_append, List.nil_append] at hu
        obtain ⟨rfl, rfl⟩ := ih vs' s' r r' hs' hu
        exact ⟨rfl, rfl⟩
  | @noMembers w hw =>
      intro v' t' r r' h' hr hr' he
      obtain ⟨u', rfl, hu⟩ := h'.exists_of_append he
      obtain ⟨ms, s, rfl, rfl, ⟨rfl, hs⟩ | hs⟩ := h'.object_of_head
      · simp only [List.append_assoc, List.cons_append, List.nil_append] at hu
        obtain ⟨rfl, -⟩ := blank_unique hw hs (startsSolid_cons (by decide) _)
          (startsSolid_cons (by decide) _) hu
        exact ⟨rfl, rfl⟩
      · simp only [List.append_assoc, List.cons_append, List.nil_append] at hu
        exact (blank_ne_members hw hs hu).elim
  | @object ms s hs ih =>
      intro v' t' r r' h' hr hr' he
      obtain ⟨u', rfl, hu⟩ := h'.exists_of_append he
      obtain ⟨ms', s', rfl, rfl, ⟨rfl, hs'⟩ | hs'⟩ := h'.object_of_head
      · simp only [List.append_assoc, List.cons_append, List.nil_append] at hu
        exact (blank_ne_members hs' hs hu.symm).elim
      · simp only [List.append_assoc, List.cons_append, List.nil_append] at hu
        obtain ⟨rfl, rfl⟩ := ih ms' s' r r' hs' hu
        exact ⟨rfl, rfl⟩
  | @pad w u t v hw ht hu ih =>
      intro v' t' r r' h' hsolid hstops hsolid' hstops' he
      cases h' with
      | @pad w' u' t' _ hw' ht' hu' =>
          simp only [List.append_assoc] at he
          obtain ⟨rfl, hvalue⟩ := blank_unique hw hw' (startsSolid_of_value ht _)
            (startsSolid_of_value ht' _) he
          obtain ⟨rfl, rfl⟩ := ih v' t' _ _ ht' (hstops.blank hu) (hstops'.blank hu') hvalue
          obtain ⟨rfl, -⟩ := blank_unique hu hu' hsolid hsolid' (List.append_cancel_left hvalue)
          exact ⟨rfl, rfl⟩
  | @item v t ht ih =>
      intro vs' t' r r' h' he
      cases h' with
      | item ht' =>
          obtain ⟨rfl, rfl, -, -⟩ := ih.until (by decide) (by decide) ht' he
          exact ⟨rfl, rfl⟩
      | moreItems ht' hs' =>
          rw [List.append_assoc, List.cons_append] at he
          obtain ⟨-, -, hc, -⟩ := ih.until (by decide) (by decide) ht' he
          exact absurd hc (by decide)
  | @moreItems v vs t s ht hs ih ihs =>
      intro vs' t' r r' h' he
      rw [List.append_assoc, List.cons_append] at he
      cases h' with
      | item ht' =>
          obtain ⟨-, -, hc, -⟩ := ih.until (by decide) (by decide) ht' he
          exact absurd hc (by decide)
      | moreItems ht' hs' =>
          rw [List.append_assoc, List.cons_append] at he
          obtain ⟨rfl, rfl, -, hrest⟩ := ih.until (by decide) (by decide) ht' he
          obtain ⟨rfl, rfl⟩ := ihs _ _ _ _ hs' hrest
          exact ⟨rfl, rfl⟩
  | @member w u body t v hw hbody hu ht ih =>
      intro ms' t' r r' h' he
      cases h' with
      | member hw' hbody' hu' ht' =>
          simp only [List.append_assoc, List.cons_append] at he
          obtain ⟨rfl, rfl, rfl, hvalue⟩ := name_unique hw hbody hu hw' hbody' hu' he
          obtain ⟨rfl, rfl, -, -⟩ := ih.until (by decide) (by decide) ht' hvalue
          exact ⟨rfl, rfl⟩
      | moreMembers hw' hbody' hu' ht' hs' =>
          simp only [List.append_assoc, List.cons_append] at he
          obtain ⟨rfl, rfl, rfl, hvalue⟩ := name_unique hw hbody hu hw' hbody' hu' he
          obtain ⟨-, -, hc, -⟩ := ih.until (by decide) (by decide) ht' hvalue
          exact absurd hc (by decide)
  | @moreMembers w u body t s v ms hw hbody hu ht hs ih ihs =>
      intro ms' t' r r' h' he
      simp only [List.append_assoc, List.cons_append] at he
      cases h' with
      | member hw' hbody' hu' ht' =>
          simp only [List.append_assoc, List.cons_append] at he
          obtain ⟨rfl, rfl, rfl, hvalue⟩ := name_unique hw hbody hu hw' hbody' hu' he
          obtain ⟨-, -, hc, -⟩ := ih.until (by decide) (by decide) ht' hvalue
          exact absurd hc (by decide)
      | moreMembers hw' hbody' hu' ht' hs' =>
          simp only [List.append_assoc, List.cons_append] at he
          obtain ⟨rfl, rfl, rfl, hvalue⟩ := name_unique hw hbody hu hw' hbody' hu' he
          obtain ⟨rfl, rfl, -, hrest⟩ := ih.until (by decide) (by decide) ht' hvalue
          obtain ⟨rfl, rfl⟩ := ihs _ _ _ _ hs' hrest
          exact ⟨rfl, rfl⟩

/-- **A text is derived from one value only.**  White space around it is skipped, and a value
shows where it ends. -/
theorem derives_padded_unique {v v' : JsonSyntax} {t : JsString} (h : Derives (.padded v) t)
    (h' : Derives (.padded v') t) : v = v' := by
  have hsolid : StartsSolid [] := fun c hc => by cases hc
  have hstops : StopsNumber [] := fun c hc => by cases hc
  exact (showsEnd_of_derives h v' t [] [] h' hsolid hstops hsolid hstops rfl).1

/-- **The scan accepts exactly its grammar.**  A text passes exactly when it is a JSON text
without a name twice in an object, within the limits on its values and their nesting; and
there is one value only that a text can be. -/
theorem assertNoDuplicateJsonKeys_eq_ok_iff {parse : JsString → Option Json}
    (hparse : ReadsStrings parse) (text : JsString) :
    (assertNoDuplicateJsonKeys parse text = .ok () ↔ ∃ v, Derives (.padded v) text ∧
      v.NamesDistinct ∧ v.nodes ≤ maxScanNodes ∧ v.height ≤ maxScanDepth) ∧
    ∀ v v', Derives (.padded v) text → Derives (.padded v') text → v = v' :=
  ⟨scan_eq_ok_iff hparse text, fun _ _ => derives_padded_unique⟩

/-- A reader of string literals. -/
def readLiteral (text : JsString) : Option Json :=
  some (.prim (.string (unescape text.tail.dropLast)))

/-- The reader of literals reads the strings of the grammar. -/
theorem readsStrings_readLiteral : ReadsStrings readLiteral := fun body _ => by
  simp [readLiteral, quoted]

/-- The names of a text are compared as they are read.  The theorem decides two texts, one of
which has a name twice, once with an escape. -/
theorem escaped_name_accepted_iff : let text := js "[\x7b\"a\":1,\"\\u0061\":2\x7d]"
    (assertNoDuplicateJsonKeys readLiteral text = .ok () ↔ ∃ v, Derives (.padded v) text ∧
      v.NamesDistinct ∧ v.nodes ≤ maxScanNodes ∧ v.height ≤ maxScanDepth) ∧
    ∀ v v', Derives (.padded v) text → Derives (.padded v') text → v = v' :=
  assertNoDuplicateJsonKeys_eq_ok_iff readsStrings_readLiteral _

/-! ### The text of a tree -/

/-- **The scan passes the text of a tree exactly when the tree is within the limits**, white
space behind it or not. -/
theorem assertNoDuplicateJsonKeys_stringify_iff {parse : JsString → Option Json}
    (hparse : ReadsStrings parse) {j : Json} (hj : j.isData) {w : JsString} (hw : IsBlank w) :
    assertNoDuplicateJsonKeys parse (j.stringify ++ w) = .ok () ↔
      j.nodes ≤ maxScanNodes ∧ j.height ≤ maxScanDepth := by
  have hderives : Derives (.padded j.written) (j.stringify ++ w) :=
    .pad Json.isBlank_nil (Json.derives_stringify j) hw
  rw [scan_eq_ok_iff hparse]
  constructor
  · rintro ⟨v, hv, -, hnodes, hheight⟩
    obtain rfl := derives_padded_unique hv hderives
    rw [Json.nodes_written] at hnodes
    rw [Json.height_written] at hheight
    exact ⟨hnodes, hheight⟩
  · rintro ⟨hnodes, hheight⟩
    exact ⟨j.written, hderives, Json.namesDistinct_written hj, by rwa [Json.nodes_written],
      by rwa [Json.height_written]⟩

end NewtonDB
