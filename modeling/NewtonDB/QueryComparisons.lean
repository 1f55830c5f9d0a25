/-
# What the parser of queries does with a comparison

The outcome of the parts of `parseWhere` of `src/query.ts` below a comparison: its path
(`parsePathOf_outcome`), the list of an `in` (`parseSetValue_outcome`), and the comparison
itself (`parseComparison_outcome`).
-/

import NewtonDB.QueryWalk

namespace NewtonDB

variable {σ : Type} {graph : JsGraph σ} {s s' : ParseState} {location : JsString}
  {source : Option σ}

/-! ### Steps -/

/-- To throw is to refuse: nothing is passed, and no getter is run. -/
theorem failQuery_outcome {α : Type} {issue : QueryValidationIssue} {P : α → ParseState → Prop}
    {Q : Prop} (hP : ∀ a s', ¬P a s') (hQ : ¬Q) :
    Outcome ParseState.getters (failQuery issue location : ParseM α) s P Q :=
  .refuses _ s rfl rfl hP hQ

/-- What stands behind a throw is never run. -/
theorem failQuery_bind_outcome {α β : Type} {issue : QueryValidationIssue} {k : α → ParseM β}
    {P : β → ParseState → Prop} {Q : Prop} (hP : ∀ a s', ¬P a s') (hQ : ¬Q) :
    Outcome ParseState.getters (failQuery issue location >>= k) s P Q :=
  .halt rfl rfl hP hQ

/-- A check before the rest. -/
theorem check_outcome {α : Type} {c : Prop} [Decidable c] {issue : QueryValidationIssue}
    {k : Unit → ParseM α} {P : α → ParseState → Prop} {Q : Prop}
    (hstop : c → (∀ a s', ¬P a s') ∧ ¬Q)
    (hk : ¬c → Outcome ParseState.getters (k ()) s P Q) :
    Outcome ParseState.getters (if c then failQuery issue location >>= k else k ()) s P Q :=
  .check rfl hstop hk

/-- Once so many getters were run there are never fewer. -/
theorem getters_upwardClosed (c : ℕ) : ParseState.UpwardClosed fun s => c ≤ s.getters :=
  fun _ _ hle h => h.trans hle

/-- A scalar is spent without running a getter. -/
theorem consumeScalar_still {n : ℕ} :
    Still ParseState.getters (consumeScalar defaultQueryLimits n location) := fun _ =>
  (consumeScalar_keeps fun _ _ h => h).anyFailure

/-- To read an element runs no getter back, whether it runs one or not. -/
theorem readElement_grows (slot : Slot σ) : Grows ParseState.getters (readElement slot) :=
  fun c => (readElement_keeps (getters_upwardClosed c) _).anyFailure

/-- An accessor element runs its getter, whatever comes after.  The count of getters only grows
in what follows. -/
theorem readElement_counts {α : Type} {outcome : Option σ} {k : Option σ → ParseM α}
    (hgrow : ∀ a, Grows ParseState.getters (k a)) {P : α → ParseState → Prop} {Q : Prop}
    (hQ : Q) :
    Outcome ParseState.getters (readElement (.accessor outcome) >>= k) s P Q := by
  refine .counts ?_ hQ
  cases outcome with
  | none => exact Nat.lt_succ_self _
  | some v =>
      have hle := (hgrow (some v)).le { s with getters := s.getters + 1 }
      exact (Nat.lt_succ_self s.getters).trans_le hle

/-- To look a method up runs no getter back. -/
theorem callMethod_grows (extras : ArrayExtras σ) (own : Option (Slot σ)) :
    Grows ParseState.getters (callMethod extras own) := fun c =>
  (callMethod_keeps (getters_upwardClosed c) _ _).anyFailure

/-- **The call of a method of arrays.**  It passes when nothing hides the method, and runs the
getter of an accessor that does. -/
theorem callMethod_outcome {extras : ArrayExtras σ} {own : Option (Slot σ)} :
    Outcome ParseState.getters (callMethod extras own) s
      (fun _ s' => JsGraph.Inherits extras own ∧ s' = s) (JsGraph.IsGetter own) := by
  unfold callMethod
  cases own with
  | none =>
      have hclear : ¬JsGraph.IsGetter (none : Option (Slot σ)) := fun ⟨_, h⟩ => by cases h
      cases hplain : extras.plain with
      | true => exact .returns () s rfl rfl ⟨⟨rfl, hplain⟩, rfl⟩ hclear
      | false =>
          refine .refuses _ s rfl rfl (fun _ s' h => ?_) hclear
          cases hplain.symm.trans h.1.plain
  | some slot =>
      have hstop : ∀ (u : Unit) (s' : ParseState),
          ¬(JsGraph.Inherits extras (some slot) ∧ s' = s) := fun _ _ h => by cases h.1.unhidden
      cases slot with
      | data v => exact .refuses _ s rfl rfl hstop fun ⟨_, h⟩ => by cases h
      | accessor outcome =>
          exact readElement_counts (fun _ c => .throw trivial) ⟨outcome, rfl⟩
      | hole => exact .refuses _ s rfl rfl hstop fun ⟨_, h⟩ => by cases h

/-- What comes after a method call that passes.  It passes when the array inherits the method,
and counts when an own getter hides it. -/
theorem callMethod_bind_outcome {α : Type} {extras : ArrayExtras σ} {own : Option (Slot σ)}
    {k : Unit → ParseM α} {P : α → ParseState → Prop} {Q : Prop}
    (hgrow : Grows ParseState.getters (k ()))
    (hk : JsGraph.Inherits extras own → Outcome ParseState.getters (k ()) s P Q) :
    Outcome ParseState.getters (callMethod extras own >>= k) s
      (fun a s' => JsGraph.Inherits extras own ∧ P a s')
      (JsGraph.IsGetter own ∨ JsGraph.Inherits extras own ∧ Q) := by
  have hone : OneWay fun (_ : Unit) s' => JsGraph.Inherits extras own ∧ s' = s :=
    fun _ _ _ _ h h' => ⟨rfl, h.2.trans h'.2.symm⟩
  have hrest : ∀ (u : Unit) s', JsGraph.Inherits extras own ∧ s' = s →
      Outcome ParseState.getters (k u) s' P Q := by
    rintro ⟨⟩ s' ⟨hinherits, rfl⟩
    exact hk hinherits
  refine (callMethod_outcome.bind (fun _ => hgrow) hone hrest).congr (fun a s' => ?_) ?_
  · exact ⟨fun ⟨_, _, ⟨hinherits, _⟩, hP⟩ => ⟨hinherits, hP⟩, fun ⟨hinherits, hP⟩ =>
      ⟨(), s, ⟨hinherits, rfl⟩, hP⟩⟩
  · refine or_congr_right ⟨fun ⟨_, _, ⟨hinherits, _⟩, hQ⟩ => ⟨hinherits, hQ⟩, ?_⟩
    exact fun ⟨hinherits, hQ⟩ => ⟨(), s, ⟨hinherits, rfl⟩, hQ⟩

/-- **Asking a constructor for its species.**  It passes when that asks for a plain array.
Where the species is an accessor its getter runs, and with anything else the call is refused. -/
theorem readSpecies_outcome {symbols : List (SymbolKey × Slot σ)} : Outcome ParseState.getters
    (readSpecies graph symbols) s (fun _ s' => graph.PlainSpecies symbols ∧ s' = s)
    (JsGraph.IsGetter (Assoc.get? symbols .species)) := by
  unfold readSpecies JsGraph.PlainSpecies
  cases Assoc.get? symbols .species with
  | none => exact .returns () s rfl rfl ⟨nofun, rfl⟩ fun ⟨_, h⟩ => by cases h
  | some slot =>
      cases slot with
      | data v =>
          have hclear : ¬JsGraph.IsGetter (some (Slot.data v)) := fun ⟨_, h⟩ => by cases h
          refine .after (a := some v) rfl rfl ?_
          dsimp only [Option.map_some]
          split
          · next h => cases h
          · next h =>
              refine .returns () s rfl rfl ⟨fun slot hslot => .inr ⟨v, ?_⟩, rfl⟩ hclear
              exact ⟨(Option.some.inj hslot).symm, .inl (Option.some.inj h)⟩
          · next h =>
              refine .returns () s rfl rfl ⟨fun slot hslot => .inr ⟨v, ?_⟩, rfl⟩ hclear
              exact ⟨(Option.some.inj hslot).symm, .inr (Option.some.inj h)⟩
          · next view hundefined hnull h =>
              obtain rfl : graph.view v = view := Option.some.inj h
              refine .refuses _ s rfl rfl (fun _ _ hpass => ?_) hclear
              obtain hslot | ⟨w, hw, hv | hv⟩ := hpass.1 _ rfl
              · cases hslot
              · obtain rfl := Slot.data.inj hw
                exact hundefined hv
              · obtain rfl := Slot.data.inj hw
                exact hnull hv
      | accessor outcome =>
          refine readElement_counts (fun species c => ?_) ⟨outcome, rfl⟩
          split
          · exact .pure _
          · exact .pure _
          · exact .pure _
          · exact .throw trivial
      | hole =>
          refine .after (a := none) rfl rfl (.returns () s rfl rfl ⟨fun slot hslot => .inl ?_, rfl⟩ ?_)
          · exact (Option.some.inj hslot).symm
          · exact fun ⟨_, h⟩ => by cases h

/-- **Asking a list for its constructor.**  It passes when `map` is to make a plain array.
Where the constructor is an accessor its getter runs, and with anything else the call is
refused. -/
theorem readConstructor_outcome {extras : ArrayExtras σ} : Outcome ParseState.getters
    (readConstructor graph extras) s (fun _ s' => graph.PlainConstructor extras ∧ s' = s)
    (graph.MeetsConstructor extras) := by
  unfold readConstructor JsGraph.PlainConstructor JsGraph.MeetsConstructor
  cases Assoc.get? extras.named (js "constructor") with
  | none =>
      refine .returns () s rfl rfl ⟨nofun, rfl⟩ ?_
      rintro (⟨_, h⟩ | ⟨v, symbols, h, -⟩)
      · cases h
      · cases h
  | some slot =>
      cases slot with
      | data v =>
          refine .after (a := some v) rfl rfl ?_
          dsimp only [Option.map_some]
          split
          · next h => cases h
          · next h =>
              have hview : graph.view v = .undefined := Option.some.inj h
              refine .returns () s rfl rfl ⟨fun slot hslot => .inr ⟨v, ?_⟩, rfl⟩ ?_
              · exact ⟨(Option.some.inj hslot).symm, .inl hview⟩
              · rintro (⟨_, h⟩ | ⟨w, symbols, hw, hsymbols, -⟩)
                · cases h
                · obtain rfl := Slot.data.inj (Option.some.inj hw)
                  rw [hview] at hsymbols
                  cases hsymbols
          · next view hundefined h =>
              obtain rfl : graph.view v = view := Option.some.inj h
              split
              · next symbols hsymbols =>
                  refine readSpecies_outcome.congr (fun _ s' => and_congr_left fun _ => ?_) ?_
                  · constructor
                    · exact fun hplain slot hslot =>
                        .inr ⟨v, (Option.some.inj hslot).symm, .inr ⟨symbols, hsymbols, hplain⟩⟩
                    · intro hplain
                      obtain hslot | ⟨w, hw, hv | ⟨symbols', hsymbols', hspecies⟩⟩ := hplain _ rfl
                      · cases hslot
                      · obtain rfl := Slot.data.inj hw
                        exact (hundefined hv).elim
                      · obtain rfl := Slot.data.inj hw
                        exact Option.some.inj (hsymbols.symm.trans hsymbols') ▸ hspecies
                  · constructor
                    · exact fun hgetter => .inr ⟨v, symbols, rfl, hsymbols, hgetter⟩
                    · rintro (⟨_, h⟩ | ⟨w, symbols', hw, hsymbols', hgetter⟩)
                      · cases h
                      · obtain rfl := Slot.data.inj (Option.some.inj hw)
                        exact Option.some.inj (hsymbols.symm.trans hsymbols') ▸ hgetter
              · next hnone =>
                  refine .refuses _ s rfl rfl (fun _ _ hpass => ?_) ?_
                  · obtain hslot | ⟨w, hw, hv | ⟨symbols, hsymbols, -⟩⟩ := hpass.1 _ rfl
                    · cases hslot
                    · obtain rfl := Slot.data.inj hw
                      exact (hundefined hv).elim
                    · obtain rfl := Slot.data.inj hw
                      cases hnone.symm.trans hsymbols
                  · rintro (⟨_, h⟩ | ⟨w, symbols, hw, hsymbols, -⟩)
                    · cases h
                    · obtain rfl := Slot.data.inj (Option.some.inj hw)
                      cases hnone.symm.trans hsymbols
      | accessor outcome =>
          refine readElement_counts (fun kind c => ?_) (.inl ⟨outcome, rfl⟩)
          split
          · exact .pure _
          · exact .pure _
          · split
            · exact (readSpecies_keeps (getters_upwardClosed c) _).anyFailure
            · exact .throw trivial
      | hole =>
          refine .after (a := none) rfl rfl (.returns () s rfl rfl ⟨fun slot hslot => .inl ?_, rfl⟩ ?_)
          · exact (Option.some.inj hslot).symm
          · rintro (⟨_, h⟩ | ⟨v, symbols, h, -⟩)
            · cases h
            · cases h

/-- The same scalars lead to the same counts. -/
theorem spends_unique {bytes : List ℕ} {t t' : ParseState} (h : Spends s bytes t)
    (h' : Spends s bytes t') : t = t' := h.eq.trans h'.eq.symm

/-- The same nodes and comparisons lead to the same counts. -/
theorem charged_unique {n : ℕ} {cs : List (PropertyPath × QueryValue)} {t t' : ParseState}
    (h : Charged s n cs t) (h' : Charged s n cs t') : t = t' := spends_unique h.spends h'.spends

/-! ### Paths -/

/-- One element of a path, at its place. -/
def TokenAt (graph : JsGraph σ) (entry : Slot σ × ℕ) (token : PathToken) : Prop :=
  ∃ v, entry.1 = .data v ∧
    checkToken entry.2 (parsePathOf.tokenView (some (graph.view v))) = .ok token

/-- The element at an index is a token when it is read as one that may stand there.  The first
token of a path must be a name. -/
theorem tokenAt_iff {slot : Slot σ} {index : ℕ} {token : PathToken} :
    TokenAt graph (slot, index) token ↔ graph.ReadsToken slot token ∧ token.IsValid ∧
      (index = 0 → ∃ name, token = .name name) := by
  constructor
  · rintro ⟨v, rfl, hcheck⟩
    obtain ⟨hview, hvalid, hname⟩ := checkToken_eq_ok hcheck
    exact ⟨⟨v, rfl, hview⟩, hvalid, hname⟩
  · rintro ⟨⟨v, rfl, hview⟩, hvalid, hname⟩
    exact ⟨v, rfl, hview ▸ checkToken_of_isValid hvalid hname⟩

/-- An element is one token at most. -/
theorem tokenAt_unique : Relator.RightUnique (TokenAt graph) := by
  rintro entry t t' ⟨v, hv, ht⟩ ⟨w, hw, ht'⟩
  obtain rfl := Slot.data.inj (hv.symm.trans hw)
  exact Except.ok.inj (ht.symm.trans ht')

/-- The elements of a path, each at its place.  The index is that of the first element, so only
the lemma at zero asks for a name. -/
theorem forall₂_tokenAt : ∀ {slots : List (Slot σ)} {index : ℕ} {path : PropertyPath},
    List.Forall₂ (TokenAt graph) (slots.zipIdx index) path ↔
      List.Forall₂ graph.ReadsToken slots path ∧ (∀ token ∈ path, token.IsValid) ∧
        (index = 0 → ∀ token ∈ path.head?, ∃ name, token = .name name)
  | [], index, path => by
      rw [List.zipIdx_nil, List.forall₂_nil_left_iff, List.forall₂_nil_left_iff]
      refine ⟨?_, fun h => h.1⟩
      rintro rfl
      exact ⟨rfl, fun _ hm => (by cases hm), fun _ _ hm => by cases hm⟩
  | slot :: slots, index, path => by
      rw [List.zipIdx_cons, List.forall₂_cons_left_iff, List.forall₂_cons_left_iff]
      constructor
      · rintro ⟨token, rest, htoken, hrest, rfl⟩
        obtain ⟨hread, hvalid, hname⟩ := tokenAt_iff.1 htoken
        obtain ⟨hreads, hvalids, -⟩ := forall₂_tokenAt.1 hrest
        refine ⟨⟨token, rest, hread, hreads, rfl⟩, List.forall_mem_cons.2 ⟨hvalid, hvalids⟩, ?_⟩
        rintro hindex t ht
        obtain rfl := Option.some.inj ht
        exact hname hindex
      · rintro ⟨⟨token, rest, hread, hreads, rfl⟩, hvalid, hname⟩
        obtain ⟨hvalid, hvalids⟩ := List.forall_mem_cons.1 hvalid
        exact ⟨token, rest, tokenAt_iff.2 ⟨hread, hvalid, fun hindex => hname hindex token rfl⟩,
          forall₂_tokenAt.2 ⟨hreads, hvalids, fun hindex => by omega⟩, rfl⟩

/-- The loop comes to an accessor behind tokens.  By recursion on the elements, with the index
of the first one arbitrary. -/
theorem meetsAny_tokenAt : ∀ {slots : List (Slot σ)} {index : ℕ} {s : ParseState},
    MeetsAny (fun entry s token s' => TokenAt graph entry token ∧ s' = s)
        (fun entry _ => ∃ outcome, entry.1 = .accessor outcome) (slots.zipIdx index) s ↔
      ∃ before outcome after path, slots = before ++ .accessor outcome :: after ∧
        List.Forall₂ (TokenAt graph) (before.zipIdx index) path
  | [], index, s => by
      rw [List.zipIdx_nil]
      refine iff_of_false id ?_
      rintro ⟨before, outcome, after, path, h, -⟩
      exact absurd h.symm (by simp)
  | slot :: slots, index, s => by
      rw [List.zipIdx_cons, MeetsAny]
      constructor
      · rintro (⟨outcome, rfl⟩ | ⟨token, s₁, ⟨htoken, rfl⟩, hrest⟩)
        · exact ⟨[], outcome, slots, [], rfl, .nil⟩
        · obtain ⟨before, outcome, after, path, rfl, hpath⟩ := meetsAny_tokenAt.1 hrest
          exact ⟨slot :: before, outcome, after, token :: path, rfl, .cons htoken hpath⟩
      · rintro ⟨before, outcome, after, path, h, hpath⟩
        cases before with
        | nil => exact .inl ⟨outcome, (List.cons.inj h).1⟩
        | cons first before =>
            obtain ⟨rfl, rfl⟩ := List.cons.inj h
            obtain ⟨token, rest, htoken, hrest, -⟩ := List.forall₂_cons_left_iff.1 hpath
            refine .inr ⟨token, s, ⟨htoken, rfl⟩, meetsAny_tokenAt.2 ?_⟩
            exact ⟨before, outcome, after, rest, rfl, hrest⟩

/-- One turn of the loop over the elements of a path.  A hole is read as `undefined`, which is
no token. -/
theorem token_outcome (entry : Slot σ × ℕ) : Outcome ParseState.getters (do
      let element ← readElement entry.1
      match checkToken entry.2 (parsePathOf.tokenView (element.map graph.view)) with
      | .ok token => return token
      | .error error => throw error : ParseM PathToken) s
      (fun token s' => TokenAt graph entry token ∧ s' = s)
      (∃ outcome, entry.1 = .accessor outcome) := by
  obtain ⟨slot, index⟩ := entry
  cases slot with
  | data v =>
      refine .after (a := some v) rfl rfl ?_
      have hmeets : ¬∃ outcome, Slot.data v = .accessor outcome := fun ⟨_, h⟩ => by cases h
      cases hc : checkToken index (parsePathOf.tokenView (some (graph.view v))) with
      | ok token =>
          dsimp only [Option.map_some]
          rw [hc]
          exact .returns token s rfl rfl ⟨⟨v, rfl, hc⟩, rfl⟩ hmeets
      | error e =>
          dsimp only [Option.map_some]
          rw [hc]
          refine .refuses e s rfl rfl ?_ hmeets
          rintro token s' ⟨⟨w, hw, hw'⟩, -⟩
          obtain rfl := Slot.data.inj hw
          cases hc.symm.trans hw'
  | accessor outcome =>
      refine readElement_counts (fun element => ?_) ⟨outcome, rfl⟩
      cases checkToken index (parsePathOf.tokenView (element.map graph.view)) with
      | ok token => exact fun c => .pure token
      | error e => exact fun c => .throw trivial
  | hole =>
      refine .after (a := none) rfl rfl ?_
      refine .refuses _ s rfl rfl ?_ fun ⟨_, h⟩ => by cases h
      rintro token s' ⟨⟨w, hw, -⟩, -⟩
      cases hw

/-- To count the bytes of a path runs no getter: the path is a copy, with the tokens in it.  A
number is not counted at all. -/
theorem pathScalars_still {path : PropertyPath} :
    Still ParseState.getters (forIn path.zipIdx PUnit.unit (fun x (_ : PUnit) =>
      match x.1 with
      | PathToken.name text => do
          consumeScalar defaultQueryLimits (utf8Length (quote text)) (location ++ js "/" ++
            natText x.2)
          pure (ForInStep.yield PUnit.unit)
      | PathToken.index _ => pure (ForInStep.yield PUnit.unit)) >>=
        fun _ => pure path : ParseM PropertyPath) := by
  refine fun c => .bind (.forIn fun ⟨token, index⟩ _ _ => ?_) fun _ => .pure _
  cases token with
  | name text => exact .bind (consumeScalar_still c) fun _ => .pure _
  | index n => exact .pure _

/-- The strings of a path are spent.  They are counted as they would be quoted. -/
theorem pathScalars_outcome {path : PropertyPath} (hs : s.Ok) (hstate : s' = s) :
    Outcome ParseState.getters (forIn path.zipIdx PUnit.unit (fun x (_ : PUnit) =>
      match x.1 with
      | PathToken.name text => do
          consumeScalar defaultQueryLimits (utf8Length (quote text)) (location ++ js "/" ++
            natText x.2)
          pure (ForInStep.yield PUnit.unit)
      | PathToken.index _ => pure (ForInStep.yield PUnit.unit)) >>=
        fun _ => pure path : ParseM PropertyPath) s'
      (fun p s'' => p = path ∧ Spends s (pathBytes path) s'') False := by
  subst hstate
  refine .of_runs pathScalars_still fun p s'' => ?_
  rw [runs_bind]
  constructor
  · rintro ⟨u, s₁, hloop, hpure⟩
    obtain ⟨rfl, rfl⟩ := runs_pure.1 hpure
    exact ⟨rfl, (runs_pathScalars hs).1 hloop⟩
  · rintro ⟨rfl, hspend⟩
    exact ⟨⟨⟩, s'', (runs_pathScalars hs).2 hspend, runs_pure.2 ⟨rfl, rfl⟩⟩

/-- One turn of the loop over the elements of a path runs no getter back: what comes after the
read of the element is a check of what was read. -/
theorem token_grows (graph : JsGraph σ) (entry : Slot σ × ℕ) : Grows ParseState.getters (do
    let element ← readElement entry.1
    match checkToken entry.2 (parsePathOf.tokenView (element.map graph.view)) with
    | .ok token => return token
    | .error error => throw error : ParseM PathToken) := by
  refine fun c => .bind (readElement_grows _ c) fun element => ?_
  split
  · exact .pure _
  · exact .throw trivial

/-- What the loop over the elements of a path does.  The loop stops at the first that is no
token, and a getter before it has run. -/
theorem tokens_outcome (slots : List (Slot σ)) : Outcome ParseState.getters
    (slots.zipIdx.mapM fun (entry : Slot σ × ℕ) => (do
      let element ← readElement entry.1
      match checkToken entry.2 (parsePathOf.tokenView (element.map graph.view)) with
      | .ok token => return token
      | .error error => throw error : ParseM PathToken)) s
    (fun path s' => List.Forall₂ (TokenAt graph) slots.zipIdx path ∧ s' = s)
    (∃ before outcome after path, slots = before ++ .accessor outcome :: after ∧
      List.Forall₂ (TokenAt graph) before.zipIdx path) := by
  refine Outcome.congr
    (P := PassesAll (fun entry s token s' => TokenAt graph entry token ∧ s' = s) slots.zipIdx s)
    (Q := MeetsAny (fun entry s token s' => TokenAt graph entry token ∧ s' = s)
      (fun entry _ => ∃ outcome, entry.1 = .accessor outcome) slots.zipIdx s)
    (.mapM (I := fun _ => True) (fun entry => token_grows graph entry) (fun entry s => ?_)
      (fun _ _ _ _ _ _ _ => trivial) (fun entry _ s _ => token_outcome entry) s trivial)
    (fun path s' => passesAll_still) meetsAny_tokenAt
  · rintro t s₁ t' s₂ ⟨ht, rfl⟩ ⟨ht', rfl⟩
    exact ⟨tokenAt_unique ht ht', rfl⟩

/-- A value that is seen as an array. -/
theorem of_map_view {view : JsView σ} (h : source.map graph.view = some view) :
    ∃ v, source = some v ∧ graph.view v = view := Option.map_eq_some_iff.1 h

/-- What a path is read as. -/
def PassesPath (graph : JsGraph σ) (source : Option σ) (s : ParseState) (path : PropertyPath)
    (s' : ParseState) : Prop :=
  (∃ v, source = some v ∧ graph.ReadsPath path v) ∧ path.IsValid ∧ Spends s (pathBytes path) s'

/-- A value is one path at most, and counting it leaves one state. -/
theorem passesPath_oneWay : OneWay (PassesPath graph source s) := by
  rintro path t path' t' ⟨⟨v, rfl, hpath⟩, -, hspend⟩ ⟨⟨w, hw, hpath'⟩, -, hspend'⟩
  obtain rfl := Option.some.inj hw
  obtain rfl := hpath.unique hpath'
  exact ⟨rfl, spends_unique hspend hspend'⟩

/-- The method that gives the elements of a path, and the loop over them.  An own `entries` that
is no getter makes the call a `TypeError`. -/
theorem entries_outcome (slots : List (Slot σ)) (extras : ArrayExtras σ) :
    Outcome ParseState.getters (do
      callMethod extras (Assoc.get? extras.named (js "entries"))
      slots.zipIdx.mapM fun (entry : Slot σ × ℕ) => (do
        let element ← readElement entry.1
        match checkToken entry.2 (parsePathOf.tokenView (element.map graph.view)) with
        | .ok token => return token
        | .error error => throw error : ParseM PathToken)) s
      (fun path s' => JsGraph.Inherits extras (Assoc.get? extras.named (js "entries")) ∧
        List.Forall₂ (TokenAt graph) slots.zipIdx path ∧ s' = s)
      (JsGraph.IsGetter (Assoc.get? extras.named (js "entries")) ∨
        JsGraph.Inherits extras (Assoc.get? extras.named (js "entries")) ∧
          ∃ before outcome after path, slots = before ++ .accessor outcome :: after ∧
            List.Forall₂ (TokenAt graph) before.zipIdx path) := by
  refine callMethod_bind_outcome (fun c => .mapM fun entry _ => ?_) fun _ => tokens_outcome slots
  exact token_grows graph entry c

/-- **The path of a comparison.**  Its elements are read by `entries`, so that it passes tokens,
comes to an accessor, or refuses. -/
theorem parsePathOf_outcome (hs : s.Ok) : Outcome ParseState.getters
    (parsePathOf defaultQueryLimits graph source location) s (PassesPath graph source s)
    (∃ v, source = some v ∧ graph.MeetsPath v) := by
  unfold parsePathOf
  split
  · next slots extras hview =>
      obtain ⟨v, rfl, hv⟩ := of_map_view hview
      refine check_outcome (fun hlen => ⟨?_, ?_⟩) fun hlen => ?_
      · rintro path s' ⟨⟨w, hw, slots', extras', hv', -, hreads⟩, ⟨⟨name, rest, rfl⟩, hle, -⟩, -⟩
        obtain rfl := Option.some.inj hw
        obtain ⟨rfl, -⟩ := JsView.array.inj (hv.symm.trans hv')
        have hlength := hreads.length_eq
        rw [Bool.or_eq_true, decide_eq_true_eq, decide_eq_true_eq, hlength] at hlen
        exact hlen.elim (by simp) (not_lt.2 hle)
      · rintro ⟨w, hw, slots', extras', hv', hne, hle, -⟩
        obtain rfl := Option.some.inj hw
        obtain ⟨rfl, -⟩ := JsView.array.inj (hv.symm.trans hv')
        rw [Bool.or_eq_true, decide_eq_true_eq, decide_eq_true_eq, List.length_eq_zero_iff] at hlen
        exact hlen.elim hne (not_lt.2 hle)
      rw [Bool.or_eq_true, decide_eq_true_eq, decide_eq_true_eq, not_or, not_lt,
        List.length_eq_zero_iff] at hlen
      refine (((entries_outcome slots extras).handle fun e s => ⟨_, rfl⟩).bind
        (fun path => pathScalars_still.grows) ?_
        fun path s' hpath => pathScalars_outcome hs hpath.2.2).congr (fun path s' => ?_) ?_
      · rintro path t path' t' ⟨-, hpath, rfl⟩ ⟨-, hpath', rfl⟩
        exact ⟨tokenAt_unique.forall₂ hpath hpath', rfl⟩
      · simp only [forall₂_tokenAt]
        constructor
        · rintro ⟨_, _, ⟨hinherits, ⟨hreads, hvalid, hname⟩, rfl⟩, rfl, hspend⟩
          refine ⟨⟨v, rfl, slots, extras, hv, hinherits, hreads⟩,
            ⟨?_, hreads.length_eq ▸ hlen.2, hvalid⟩, hspend⟩
          cases path with
          | nil => exact absurd (List.forall₂_nil_right_iff.1 hreads) hlen.1
          | cons token rest =>
              obtain ⟨name, rfl⟩ := hname trivial token rfl
              exact ⟨name, rest, rfl⟩
        · rintro ⟨⟨w, hw, slots', extras', hv', hinherits, hreads⟩,
            ⟨⟨name, rest, rfl⟩, -, hvalid⟩, hspend⟩
          obtain rfl := Option.some.inj hw
          obtain ⟨rfl, rfl⟩ := JsView.array.inj (hv.symm.trans hv')
          refine ⟨_, s, ⟨hinherits, ⟨hreads, hvalid, fun _ token ht => ?_⟩, rfl⟩, rfl, hspend⟩
          exact ⟨name, (Option.some.inj ht).symm⟩
      · simp only [forall₂_tokenAt, and_false, exists_false, or_false]
        constructor
        · rintro (hgetter | ⟨hinherits, before, outcome, after, path, rfl, hreads, hvalid, hname⟩)
          · exact ⟨v, rfl, slots, extras, hv, hlen.1, hlen.2, .inl hgetter⟩
          · exact ⟨v, rfl, _, extras, hv, hlen.1, hlen.2, .inr ⟨hinherits, before, outcome, after,
              path, rfl, hreads, hvalid, hname trivial⟩⟩
        · rintro ⟨w, hw, slots', extras', hv', -, -, hmeets⟩
          obtain rfl := Option.some.inj hw
          obtain ⟨rfl, rfl⟩ := JsView.array.inj (hv.symm.trans hv')
          refine hmeets.imp_right ?_
          rintro ⟨hinherits, before, outcome, after, path, heq, hreads, hvalid, hname⟩
          exact ⟨hinherits, before, outcome, after, path, heq, hreads, hvalid, fun _ => hname⟩
  · next hother =>
      refine failQuery_outcome ?_ ?_
      · rintro path s' ⟨⟨v, rfl, slots, extras, hview, -⟩, -⟩
        exact hother slots extras (congrArg some hview)
      · rintro ⟨v, rfl, slots, extras, hview, -⟩
        exact hother slots extras (congrArg some hview)

/-! ### Lists -/

/-- What the list of an `in` is read as. -/
def PassesSet (graph : JsGraph σ) (source : Option σ) (s : ParseState) (value : QueryValue)
    (s' : ParseState) : Prop :=
  (∃ v, source = some v ∧ graph.ReadsOperand .in value v) ∧ Spends s value.bytes s'

/-- One turn of the loop of `every`.  `every` skips a hole without a look at it. -/
theorem member_outcome (slot : Slot σ) : Outcome ParseState.getters
    (match slot with
      | .hole => pure none
      | _ => do
        match (← readElement slot) >>= fun v => (graph.view v).primitive? with
        | some p => return some p
        | none => failQuery .invalidValue location : ParseM (Option JsonPrimitive)) s
    (fun o s' => graph.ReadsMember slot o ∧ s' = s) (∃ outcome, slot = .accessor outcome) := by
  cases slot with
  | data v =>
      have hmeets : ¬∃ outcome, Slot.data v = .accessor outcome := fun ⟨_, h⟩ => by cases h
      dsimp only
      refine .after (a := some v) rfl rfl ?_
      dsimp only [Option.bind_eq_bind, Option.bind_some]
      cases hp : (graph.view v).primitive? with
      | none =>
          refine failQuery_outcome ?_ hmeets
          rintro o s' ⟨ho, -⟩
          cases o with
          | none => cases ho
          | some p =>
              obtain ⟨w, hw, hw'⟩ := ho
              obtain rfl := Slot.data.inj hw
              cases hp.symm.trans hw'
      | some p => exact .returns (some p) s rfl rfl ⟨⟨v, rfl, hp⟩, rfl⟩ hmeets
  | accessor outcome =>
      refine readElement_counts (fun element => ?_) ⟨outcome, rfl⟩
      cases element >>= fun v => (graph.view v).primitive? with
      | none => exact fun c => failQuery_keeps.anyFailure
      | some p => exact fun c => .pure _
  | hole => exact .returns none s rfl rfl ⟨rfl, rfl⟩ fun ⟨_, h⟩ => by cases h

/-- What reading an element gives, when it runs no getter. -/
def elementOf : Slot σ → Option σ
  | .data v => some v
  | _ => none

/-- To read an element that is a member of a list gives its value, or nothing for a hole, and
changes nothing. -/
theorem runs_element {slot : Slot σ} {o : Option JsonPrimitive} (h : graph.ReadsMember slot o)
    {x : Option σ} : Runs (readElement slot) s x s' ↔ elementOf slot = x ∧ s = s' := by
  cases slot with
  | data v => exact runs_pure
  | accessor outcome =>
      cases o with
      | none => cases h
      | some p => cases h.choose_spec.1
  | hole => exact runs_pure

/-- To read an element that is a member of a list runs no getter.  It is a data element or a
hole. -/
theorem element_still {slot : Slot σ} {o : Option JsonPrimitive} (h : graph.ReadsMember slot o) :
    Still ParseState.getters (readElement slot) := by
  cases slot with
  | data v => exact fun c => .pure _
  | accessor outcome =>
      cases o with
      | none => cases h
      | some p => cases h.choose_spec.1
  | hole => exact fun c => .pure _

/-- The bytes of a member; nothing has none. -/
def elementBytes (graph : JsGraph σ) (slot : Slot σ) : ℕ :=
  ((elementOf slot >>= fun v => (graph.view v).primitive?).map fun p =>
    utf8Length p.stringify).getD 0

/-- A member has the bytes of its text, and a hole has none.  The text is that of
`JSON.stringify`. -/
theorem elementBytes_eq {slot : Slot σ} {o : Option JsonPrimitive} (h : graph.ReadsMember slot o) :
    elementBytes graph slot = (o.map fun p => utf8Length p.stringify).getD 0 := by
  cases o with
  | none =>
      cases h
      rfl
  | some p =>
      obtain ⟨v, rfl, hp⟩ := h
      dsimp only [elementBytes, elementOf, Option.bind_eq_bind, Option.bind_some]
      rw [hp]

/-- The bytes of the elements are those of the values they are read as, by induction on both
lists. -/
theorem flatMap_elementBytes : ∀ {slots : List (Slot σ)} {values : List (Option JsonPrimitive)}
    (index : ℕ), List.Forall₂ graph.ReadsMember slots values →
      (slots.zipIdx index).flatMap (fun entry => [elementBytes graph entry.1]) =
        (QueryValue.set values).bytes
  | [], [], index, .nil => rfl
  | slot :: slots, o :: values, index, .cons hmember hrest => by
      rw [List.zipIdx_cons, List.flatMap_cons, flatMap_elementBytes (index + 1) hrest,
        elementBytes_eq hmember]
      rfl

/-- Every element is read as something. -/
theorem exists_reads {slots : List (Slot σ)} {values : List (Option JsonPrimitive)}
    (h : List.Forall₂ graph.ReadsMember slots values) :
    ∀ slot ∈ slots, ∃ o, graph.ReadsMember slot o := by
  induction h with
  | nil => exact fun slot hm => by cases hm
  | cons hmember _ ih => exact List.forall_mem_cons.2 ⟨⟨_, hmember⟩, ih⟩

/-- The loop over the members of a list.  Each is read again, although `every` has seen it. -/
theorem runs_setLoop {slots : List (Slot σ)} {values : List (Option JsonPrimitive)} {u : PUnit}
    (hs : s.Ok) (hreads : List.Forall₂ graph.ReadsMember slots values) :
    Runs (forIn slots.zipIdx PUnit.unit fun x (_ : PUnit) =>
      match x with
      | (slot, index) => do
          let element ← readElement slot
          let item := element >>= fun v => (graph.view v).primitive?
          consumeScalar defaultQueryLimits ((item.map fun p => utf8Length p.stringify).getD 0)
            (location ++ js "/" ++ natText index)
          pure (ForInStep.yield PUnit.unit) : ParseM PUnit) s u s' ↔
      Spends s (QueryValue.set values).bytes s' := by
  rw [runs_forIn (g := fun x : Slot σ × ℕ => do
      let element ← readElement x.1
      let item := element >>= fun v => (graph.view v).primitive?
      consumeScalar defaultQueryLimits ((item.map fun p => utf8Length p.stringify).getD 0)
        (location ++ js "/" ++ natText x.2)) ?_,
    runsAll_consume (fun entry => [elementBytes graph entry.1]) ?_ hs,
    flatMap_elementBytes 0 hreads]
  · rintro ⟨slot, index⟩ hslot s u s' -
    obtain ⟨o, ho⟩ := exists_reads hreads slot (List.fst_mem_of_mem_zipIdx hslot)
    dsimp only
    rw [runs_bind]
    constructor
    · rintro ⟨_, s₁, hread, hrun⟩
      obtain ⟨rfl, rfl⟩ := (runs_element ho).1 hread
      exact runs_consumeScalar.1 hrun
    · exact fun hspend => ⟨_, s, (runs_element ho).2 ⟨rfl, rfl⟩, runs_consumeScalar.2 hspend⟩
  · rintro ⟨slot, index⟩
    simp only [bind_assoc]

/-- The list is spread.  A hole becomes `undefined`, which is a `none` in the list. -/
theorem spread_outcome {slots : List (Slot σ)} {values : List (Option JsonPrimitive)}
    (hreads : List.Forall₂ graph.ReadsMember slots values) :
    Outcome ParseState.getters (do
      let _ ← slots.mapM readElement
      return .set values : ParseM QueryValue) s (fun value s' => value = .set values ∧ s' = s)
      False := by
  have hmember := exists_reads hreads
  refine .of_runs (fun c => .bind (.mapM fun slot hslot => ?_) fun _ => .pure _) fun value s' => ?_
  · obtain ⟨o, ho⟩ := hmember slot hslot
    exact element_still ho c
  · simp only [runs_bind, runs_pure, runs_mapM]
    have hstill : ∀ slot ∈ slots, ∀ s o s',
        Runs (readElement slot) s o s' ↔ elementOf slot = o ∧ s = s' := by
      intro slot hslot s o s'
      obtain ⟨p, hp⟩ := hmember slot hslot
      exact runs_element hp
    constructor
    · rintro ⟨elements, s₁, hread, rfl, rfl⟩
      obtain ⟨-, rfl⟩ := (runsAll_still hstill).1 hread
      exact ⟨rfl, rfl⟩
    · rintro ⟨rfl, rfl⟩
      refine ⟨slots.map elementOf, s', (runsAll_still hstill).2 ⟨?_, rfl⟩, rfl, rfl⟩
      rw [List.forall₂_map_right_iff]
      exact List.forall₂_same.2 fun slot _ => rfl

/-- The loop over the members of a list spends their bytes.  No getter can run, since what is
read as a member is a data element or a hole. -/
theorem setLoop_outcome {slots : List (Slot σ)} {values : List (Option JsonPrimitive)}
    (hs : s.Ok) (hreads : List.Forall₂ graph.ReadsMember slots values) :
    Outcome ParseState.getters (forIn slots.zipIdx PUnit.unit fun x (_ : PUnit) =>
      match x with
      | (slot, index) => do
          let element ← readElement slot
          let item := element >>= fun v => (graph.view v).primitive?
          consumeScalar defaultQueryLimits ((item.map fun p => utf8Length p.stringify).getD 0)
            (location ++ js "/" ++ natText index)
          pure (ForInStep.yield PUnit.unit) : ParseM PUnit) s
      (fun _ s' => Spends s (QueryValue.set values).bytes s') False := by
  refine .of_runs (fun c => .forIn fun entry hentry _ => ?_) fun _ _ => runs_setLoop hs hreads
  obtain ⟨o, ho⟩ := exists_reads hreads entry.1 (List.fst_mem_of_mem_zipIdx hentry)
  exact .bind (element_still ho c) fun _ => .bind (consumeScalar_still c) fun _ => .pure _

/-- The spread of a list runs no getter back. -/
theorem spread_grows (slots : List (Slot σ)) (values : List (Option JsonPrimitive)) :
    Grows ParseState.getters (do
      let _ ← slots.mapM readElement
      return .set values : ParseM QueryValue) := fun c =>
  .bind (.mapM fun _ _ => readElement_grows _ c) fun _ => .pure _

/-- To call the iterator of a list and to spread it runs no getter back.  It is what is left of
the list once its members are counted. -/
theorem iterator_grows (extras : ArrayExtras σ) (slots : List (Slot σ))
    (values : List (Option JsonPrimitive)) : Grows ParseState.getters (do
      callMethod extras (Assoc.get? extras.symbols .iterator)
      let _ ← slots.mapM readElement
      return .set values : ParseM QueryValue) := fun c =>
  .bind (callMethod_grows _ _ c) fun _ => spread_grows slots values c

/-- The loop that counts the members of a list runs no getter back.  It may run one for each of
them, and those stay counted. -/
theorem setLoop_grows (graph : JsGraph σ) (location : JsString) (slots : List (Slot σ)) :
    Grows ParseState.getters (forIn slots.zipIdx PUnit.unit fun x (_ : PUnit) =>
      match x with
      | (slot, index) => do
          let element ← readElement slot
          let item := element >>= fun v => (graph.view v).primitive?
          consumeScalar defaultQueryLimits ((item.map fun p => utf8Length p.stringify).getD 0)
            (location ++ js "/" ++ natText index)
          pure (ForInStep.yield PUnit.unit) : ParseM PUnit) := fun c =>
  .forIn fun _ _ _ => .bind (readElement_grows _ c) fun _ =>
    .bind (consumeScalar_still.grows c) fun _ => .pure _

/-- **A list whose elements are read** is counted and spread, each with a method of its own.
The methods are `entries` for the loop and the iterator for the spread. -/
theorem setLoops_outcome (location : JsString) (extras : ArrayExtras σ) {slots : List (Slot σ)}
    {values : List (Option JsonPrimitive)} (hs : s.Ok)
    (hreads : List.Forall₂ graph.ReadsMember slots values) :
    Outcome ParseState.getters (do
      callMethod extras (Assoc.get? extras.named (js "entries"))
      forIn slots.zipIdx PUnit.unit fun x (_ : PUnit) =>
        match x with
        | (slot, index) => do
            let element ← readElement slot
            let item := element >>= fun v => (graph.view v).primitive?
            consumeScalar defaultQueryLimits ((item.map fun p => utf8Length p.stringify).getD 0)
              (location ++ js "/" ++ natText index)
            pure (ForInStep.yield PUnit.unit)
      callMethod extras (Assoc.get? extras.symbols .iterator)
      let _ ← slots.mapM readElement
      return .set values : ParseM QueryValue) s
      (fun value s' => JsGraph.Inherits extras (Assoc.get? extras.named (js "entries")) ∧
        JsGraph.Inherits extras (Assoc.get? extras.symbols .iterator) ∧ value = .set values ∧
        Spends s (QueryValue.set values).bytes s')
      (JsGraph.IsGetter (Assoc.get? extras.named (js "entries")) ∨
        JsGraph.Inherits extras (Assoc.get? extras.named (js "entries")) ∧
          (∃ s', Spends s (QueryValue.set values).bytes s') ∧
          JsGraph.IsGetter (Assoc.get? extras.symbols .iterator)) := by
  have hspread : ∀ (u : PUnit) s', Spends s (QueryValue.set values).bytes s' →
      Outcome ParseState.getters (do
        callMethod extras (Assoc.get? extras.symbols .iterator)
        let _ ← slots.mapM readElement
        return .set values : ParseM QueryValue) s' _ _ := fun _ s' _ =>
    callMethod_bind_outcome (spread_grows slots values) fun _ => spread_outcome hreads
  have hgrows := iterator_grows extras slots values
  refine (callMethod_bind_outcome
    (fun c => .bind (setLoop_grows graph location slots c) fun _ => hgrows c) fun _ =>
    (setLoop_outcome hs hreads).bind (fun _ => hgrows)
      (fun _ _ _ _ h h' => ⟨rfl, spends_unique h h'⟩) hspread).congr (fun value s' => ?_) ?_
  · constructor
    · rintro ⟨hentries, ⟨⟩, _, hspend, hiterator, rfl, rfl⟩
      exact ⟨hentries, hiterator, rfl, hspend⟩
    · rintro ⟨hentries, hiterator, rfl, hspend⟩
      exact ⟨hentries, ⟨⟩, s', hspend, hiterator, rfl, rfl⟩
  · refine or_congr_right (and_congr_right fun _ => ?_)
    constructor
    · rintro (h | ⟨⟨⟩, s', hspend, hgetter | ⟨-, h⟩⟩)
      · exact h.elim
      · exact ⟨⟨s', hspend⟩, hgetter⟩
      · exact h.elim
    · rintro ⟨⟨s', hspend⟩, hgetter⟩
      exact .inr ⟨⟨⟩, s', hspend, .inl hgetter⟩

/-- One turn of the loop of `every` runs no getter back: what comes after the read of the element
is a check of what was read. -/
theorem member_grows (graph : JsGraph σ) (location : JsString) (slot : Slot σ) :
    Grows ParseState.getters (match slot with
      | .hole => pure none
      | _ => do
        match (← readElement slot) >>= fun v => (graph.view v).primitive? with
        | some p => return some p
        | none => failQuery .invalidValue location : ParseM (Option JsonPrimitive)) := by
  intro c
  split
  · exact .pure _
  · refine .bind (readElement_grows _ c) fun element => ?_
    split
    · exact .pure _
    · exact failQuery_keeps.anyFailure

/-- What the loop of `every` does.  A getter before the first element that is refused has
run. -/
theorem members_loop_outcome (slots : List (Slot σ)) : Outcome ParseState.getters
    (slots.mapM fun slot =>
      (match slot with
      | .hole => pure none
      | _ => do
        match (← readElement slot) >>= fun v => (graph.view v).primitive? with
        | some p => return some p
        | none => failQuery .invalidValue location : ParseM (Option JsonPrimitive))) s
    (fun values s' => List.Forall₂ graph.ReadsMember slots values ∧ s' = s)
    (∃ before outcome after values, slots = before ++ .accessor outcome :: after ∧
      List.Forall₂ graph.ReadsMember before values) := by
  refine Outcome.congr
    (P := PassesAll (fun slot s o s' => graph.ReadsMember slot o ∧ s' = s) slots s)
    (Q := MeetsAny (fun slot s o s' => graph.ReadsMember slot o ∧ s' = s)
      (fun slot _ => ∃ outcome, slot = .accessor outcome) slots s)
    (.mapM (I := fun _ => True) (member_grows graph location) (fun slot s => ?_)
      (fun _ _ _ _ _ _ _ => trivial) (fun slot _ s _ => member_outcome slot) s trivial)
    (fun values s' => passesAll_still) ?_
  · rintro o s₁ o' s₂ ⟨ho, rfl⟩ ⟨ho', rfl⟩
    exact ⟨JsGraph.readsMember_unique ho ho', rfl⟩
  · simp only [meetsAny_iff, passesAll_still]
    constructor
    · rintro ⟨before, slot, after, values, s', rfl, ⟨hvalues, -⟩, outcome, rfl⟩
      exact ⟨before, outcome, after, values, rfl, hvalues⟩
    · rintro ⟨before, outcome, after, values, rfl, hvalues⟩
      exact ⟨before, _, after, values, s, rfl, ⟨hvalues, rfl⟩, outcome, rfl⟩

/-- The members of a list, checked by `every` and then read again.  Three methods of the list
are called, and an own getter under the name of any of them runs. -/
theorem every_outcome {slots : List (Slot σ)} {extras : ArrayExtras σ} (hs : s.Ok) :
    Outcome ParseState.getters (do
      callMethod extras (Assoc.get? extras.named (js "every"))
      let items ← slots.mapM fun slot => (match slot with
        | .hole => pure none
        | _ => do
          match (← readElement slot) >>= fun v => (graph.view v).primitive? with
          | some p => return some p
          | none => failQuery .invalidValue location : ParseM (Option JsonPrimitive))
      callMethod extras (Assoc.get? extras.named (js "entries"))
      forIn slots.zipIdx PUnit.unit fun x (_ : PUnit) =>
        match x with
        | (slot, index) => do
            let element ← readElement slot
            let item := element >>= fun v => (graph.view v).primitive?
            consumeScalar defaultQueryLimits ((item.map fun p => utf8Length p.stringify).getD 0)
              (location ++ js "/" ++ natText index)
            pure (ForInStep.yield PUnit.unit)
      callMethod extras (Assoc.get? extras.symbols .iterator)
      let _ ← slots.mapM readElement
      return .set items : ParseM QueryValue) s
      (fun value s' => JsGraph.Iterable extras ∧ ∃ values,
        List.Forall₂ graph.ReadsMember slots values ∧ value = .set values ∧
          Spends s value.bytes s')
      (JsGraph.IsGetter (Assoc.get? extras.named (js "every")) ∨
        JsGraph.Inherits extras (Assoc.get? extras.named (js "every")) ∧
          ((∃ before outcome after values, slots = before ++ .accessor outcome :: after ∧
              List.Forall₂ graph.ReadsMember before values) ∨
            ∃ values, List.Forall₂ graph.ReadsMember slots values ∧
              (JsGraph.IsGetter (Assoc.get? extras.named (js "entries")) ∨
                JsGraph.Inherits extras (Assoc.get? extras.named (js "entries")) ∧
                  (∃ s', Spends s (QueryValue.set values).bytes s') ∧
                  JsGraph.IsGetter (Assoc.get? extras.symbols .iterator)))) := by
  have hrest : ∀ items : List (Option JsonPrimitive), Grows ParseState.getters (do
      callMethod extras (Assoc.get? extras.named (js "entries"))
      forIn slots.zipIdx PUnit.unit fun x (_ : PUnit) =>
        match x with
        | (slot, index) => do
            let element ← readElement slot
            let item := element >>= fun v => (graph.view v).primitive?
            consumeScalar defaultQueryLimits ((item.map fun p => utf8Length p.stringify).getD 0)
              (location ++ js "/" ++ natText index)
            pure (ForInStep.yield PUnit.unit)
      callMethod extras (Assoc.get? extras.symbols .iterator)
      let _ ← slots.mapM readElement
      return .set items : ParseM QueryValue) := fun items c =>
    .bind (callMethod_grows _ _ c) fun _ => .bind (setLoop_grows graph location slots c) fun _ =>
      iterator_grows extras slots items c
  have hloops : ∀ items s', List.Forall₂ graph.ReadsMember slots items ∧ s' = s →
      Outcome ParseState.getters _ s' _ _ := fun items s' h =>
    setLoops_outcome location extras (h.2 ▸ hs) h.1
  refine (callMethod_bind_outcome (fun c => .bind (.mapM fun slot _ => member_grows graph location
    slot c) fun items => hrest items c) fun _ =>
    (members_loop_outcome slots).bind hrest ?_ hloops).congr (fun value s' => ?_) ?_
  · rintro values t values' t' ⟨hvalues, rfl⟩ ⟨hvalues', rfl⟩
    exact ⟨JsGraph.readsMember_unique.forall₂ hvalues hvalues', rfl⟩
  · constructor
    · rintro ⟨hevery, values, _, ⟨hvalues, rfl⟩, hentries, hiterator, rfl, hspend⟩
      exact ⟨⟨hevery, hentries, hiterator⟩, values, hvalues, rfl, hspend⟩
    · rintro ⟨⟨hevery, hentries, hiterator⟩, values, hvalues, rfl, hspend⟩
      exact ⟨hevery, values, s, ⟨hvalues, rfl⟩, hentries, hiterator, rfl, hspend⟩
  · refine or_congr_right (and_congr_right fun _ => or_congr_right ?_)
    constructor
    · rintro ⟨values, _, ⟨hvalues, rfl⟩, h⟩
      exact ⟨values, hvalues, h⟩
    · rintro ⟨values, hvalues, h⟩
      exact ⟨values, s, ⟨hvalues, rfl⟩, h⟩

/-- **The list of an `in`.**  `every` checks it first, `entries` counts it and the spread copies
it, so that a getter of an element runs three times. -/
theorem parseSetValue_outcome (hs : s.Ok) : Outcome ParseState.getters
    (parseSetValue defaultQueryLimits graph source location) s (PassesSet graph source s)
    (∃ v, source = some v ∧ graph.MeetsSet v s) := by
  unfold parseSetValue
  split
  · next slots extras hview =>
      obtain ⟨v, rfl, hv⟩ := of_map_view hview
      refine check_outcome (fun hlen => ⟨?_, ?_⟩) fun hlen => ?_
      · rintro value s' ⟨⟨w, hw, hreads⟩, -⟩
        obtain rfl := Option.some.inj hw
        cases value with
        | scalar p => exact absurd rfl hreads.1
        | set values =>
            obtain ⟨-, slots', extras', hv', hle, -⟩ := hreads
            obtain ⟨rfl, -⟩ := JsView.array.inj (hv.symm.trans hv')
            exact not_lt.2 hle hlen
      · rintro ⟨w, hw, slots', extras', hv', hle, -⟩
        obtain rfl := Option.some.inj hw
        obtain ⟨rfl, -⟩ := JsView.array.inj (hv.symm.trans hv')
        exact not_lt.2 hle hlen
      refine (every_outcome hs).congr (fun value s' => ?_) ?_
      · constructor
        · rintro ⟨hiterable, values, hvalues, rfl, hspend⟩
          exact ⟨⟨v, rfl, rfl, slots, extras, hv, not_lt.1 hlen, hiterable, hvalues⟩, hspend⟩
        · rintro ⟨⟨w, hw, hreads⟩, hspend⟩
          obtain rfl := Option.some.inj hw
          cases value with
          | scalar p => exact absurd rfl hreads.1
          | set values =>
              obtain ⟨-, slots', extras', hv', -, hiterable, hvalues⟩ := hreads
              obtain ⟨rfl, rfl⟩ := JsView.array.inj (hv.symm.trans hv')
              exact ⟨hiterable, values, hvalues, rfl, hspend⟩
      · constructor
        · exact fun hmeets => ⟨v, rfl, slots, extras, hv, not_lt.1 hlen, hmeets⟩
        · rintro ⟨w, hw, slots', extras', hv', -, hmeets⟩
          obtain rfl := Option.some.inj hw
          obtain ⟨rfl, rfl⟩ := JsView.array.inj (hv.symm.trans hv')
          exact hmeets
  · next hother =>
      refine failQuery_outcome ?_ ?_
      · rintro value s' ⟨⟨v, rfl, hreads⟩, -⟩
        cases value with
        | scalar p => exact hreads.1 rfl
        | set values =>
            obtain ⟨-, slots, extras, hview, -⟩ := hreads
            exact hother slots extras (congrArg some hview)
      · rintro ⟨v, rfl, slots, extras, hview, -⟩
        exact hother slots extras (congrArg some hview)

/-! ### Comparisons -/

/-- A property that is read through its descriptor is a data property.  An accessor has no value
in its descriptor, so it counts as missing. -/
theorem dataProperty?_eq_some {plain : Bool} {symbols : List (SymbolKey × Slot σ)}
    {slots : List (JsString × Slot σ)} {name : JsString} {v : σ} :
    (JsView.object plain symbols slots).dataProperty? name = some v ↔
      Assoc.get? slots name = some (.data v) := by
  unfold JsView.dataProperty? JsView.descriptor?
  dsimp only
  cases Assoc.get? slots name with
  | none => exact iff_of_false (fun h => by cases h) fun h => by cases h
  | some slot => cases slot <;> simp

/-- To count a scalar passes within the limits, and runs no getter. -/
theorem consumeScalar_outcome {n : ℕ} : Outcome ParseState.getters
    (consumeScalar defaultQueryLimits n location) s (fun _ s' => Spends s [n] s') False :=
  .of_runs consumeScalar_still fun _ _ => runs_consumeScalar

/-- The last check of an operand.  A prefix and a suffix must be strings; the other operators
take any primitive. -/
theorem checkOperand_outcome {op : ComparisonOperator} {path : PropertyPath} {p : JsonPrimitive} :
    op ≠ .in → Outcome ParseState.getters (match op, p with
        | .startsWith, .string _ => pure (Where.comparison op path (.scalar p))
        | .endsWith, .string _ => pure (Where.comparison op path (.scalar p))
        | .startsWith, _ => do
            failQuery .invalidValue location
            pure (Where.comparison op path (.scalar p))
        | .endsWith, _ => do
            failQuery .invalidValue location
            pure (Where.comparison op path (.scalar p))
        | _, _ => pure (Where.comparison op path (.scalar p)) : ParseM Where) s
      (fun w s' => (readOperand op (.prim p) = some (.scalar p) ∧
        .comparison op path (.scalar p) = w) ∧ s = s') False := by
  intro h
  refine .of_runs (fun c => ?_) fun w s' => runs_checkOperand h
  split
  · exact .pure _
  · exact .pure _
  · exact .bind failQuery_keeps.anyFailure fun _ => .pure _
  · exact .bind failQuery_keeps.anyFailure fun _ => .pure _
  · exact .pure _

/-- What a comparison is read as. -/
def PassesComparison (graph : JsGraph σ) (slots : List (JsString × Slot σ)) (text : JsString)
    (s : ParseState) (w : Where) (s' : ParseState) : Prop :=
  ∃ op path value, w = .comparison op path value ∧ text = ComparisonOperator.name op ∧
    (∃ v, Assoc.get? slots (js "path") = some (.data v) ∧ graph.ReadsPath path v) ∧
    path.IsValid ∧
    (∃ v, Assoc.get? slots (js "value") = some (.data v) ∧ graph.ReadsOperand op value v) ∧
    Spends s (pathBytes path ++ value.bytes) s'

/-- An operand that is not a list.  Its bytes are counted before its type is checked against the
operator. -/
theorem primitive_outcome {op : ComparisonOperator} {path : PropertyPath} (hop : op ≠ .in)
    {slots : List (JsString × Slot σ)} {value : Option σ}
    (hvalue : ∀ v, value = some v ↔ Assoc.get? slots (js "value") = some (.data v)) :
    Outcome ParseState.getters (do
      let some value := value >>= fun v => (graph.view v).primitive?
        | failQuery .invalidValue location
      consumeScalar defaultQueryLimits (utf8Length value.stringify) location
      match op, value with
      | .startsWith, .string _ | .endsWith, .string _ => pure ()
      | .startsWith, _ | .endsWith, _ => failQuery .invalidValue location
      | _, _ => pure ()
      return Where.comparison op path (.scalar value)) s
      (fun w s' => ∃ value, w = Where.comparison op path value ∧
        (∃ v, Assoc.get? slots (js "value") = some (.data v) ∧ graph.ReadsOperand op value v) ∧
        Spends s value.bytes s') False := by
  have hscalar : ∀ {value : QueryValue} {v : σ}, graph.ReadsOperand op value v → ∃ p,
      value = .scalar p ∧ (graph.view v).primitive? = some p ∧
        readOperand op (.prim p) = some (.scalar p) := by
    intro value v h
    cases value with
    | scalar p => exact ⟨p, rfl, h.2⟩
    | set values => exact absurd h.1 hop
  cases hprim : value >>= fun v => (graph.view v).primitive? with
  | none =>
      refine failQuery_outcome ?_ id
      rintro w s' ⟨_, -, ⟨v, hget, hreads⟩, -⟩
      obtain ⟨p, -, hp, -⟩ := hscalar hreads
      rw [(hvalue v).2 hget] at hprim
      cases hprim.symm.trans hp
  | some p =>
      obtain ⟨v, hv, hp⟩ := Option.bind_eq_some_iff.1 hprim
      have hget := (hvalue v).1 hv
      have hone : ∀ {value : QueryValue} {w : σ},
          Assoc.get? slots (js "value") = some (.data w) → graph.ReadsOperand op value w →
            value = .scalar p ∧ readOperand op (.prim p) = some (.scalar p) := by
        intro value w hw hreads
        obtain rfl := JsGraph.property_unique hget hw
        obtain ⟨p', rfl, hp', hread⟩ := hscalar hreads
        obtain rfl := Option.some.inj (hp.symm.trans hp')
        exact ⟨rfl, hread⟩
      refine consumeScalar_outcome.step (fun hstop => ⟨?_, id⟩) fun u s₁ hspend => ?_
      · rintro w s' ⟨_, -, ⟨w', hw, hreads⟩, hspend⟩
        obtain ⟨rfl, -⟩ := hone hw hreads
        exact hstop ⟨⟩ s' hspend
      · refine (checkOperand_outcome hop).congr (fun w s' => ?_) Iff.rfl
        constructor
        · rintro ⟨⟨hread, rfl⟩, rfl⟩
          exact ⟨.scalar p, rfl, ⟨v, hget, hop, hp, hread⟩, hspend⟩
        · rintro ⟨_, rfl, ⟨w', hw, hreads⟩, hspend'⟩
          obtain ⟨rfl, hread⟩ := hone hw hreads
          exact ⟨⟨hread, rfl⟩, spends_unique hspend hspend'⟩

/-- The operand of a comparison, after the path.  For `in` it must be a list of primitives, for
every other operator one primitive. -/
theorem operand_outcome {op : ComparisonOperator} {path : PropertyPath} (hs : s.Ok)
    {slots : List (JsString × Slot σ)} {value : Option σ}
    (hvalue : ∀ v, value = some v ↔ Assoc.get? slots (js "value") = some (.data v)) :
    Outcome ParseState.getters (do
      if op = .in then
        return Where.comparison op path (← parseSetValue defaultQueryLimits graph value location)
      let location := location ++ js "/value"
      let some value := value >>= fun v => (graph.view v).primitive?
        | failQuery .invalidValue location
      consumeScalar defaultQueryLimits (utf8Length value.stringify) location
      match op, value with
      | .startsWith, .string _ | .endsWith, .string _ => pure ()
      | .startsWith, _ | .endsWith, _ => failQuery .invalidValue location
      | _, _ => pure ()
      return Where.comparison op path (.scalar value)) s
      (fun w s' => ∃ value, w = Where.comparison op path value ∧
        (∃ v, Assoc.get? slots (js "value") = some (.data v) ∧ graph.ReadsOperand op value v) ∧
        Spends s value.bytes s')
      (op = .in ∧ ∃ v, Assoc.get? slots (js "value") = some (.data v) ∧ graph.MeetsSet v s) := by
  by_cases hop : op = .in
  · subst hop
    rw [if_pos rfl]
    refine ((parseSetValue_outcome hs).map fun value => Where.comparison .in path value).congr
      (fun w s' => ?_) ?_
    · simp only [PassesSet, hvalue]
      constructor
      · rintro ⟨value, ⟨hreads, hspend⟩, rfl⟩
        exact ⟨value, rfl, hreads, hspend⟩
      · rintro ⟨value, rfl, hreads, hspend⟩
        exact ⟨value, ⟨hreads, hspend⟩, rfl⟩
    · simp only [hvalue, true_and]
  · rw [if_neg hop]
    refine (primitive_outcome hop hvalue).congr (fun w s' => Iff.rfl) ?_
    exact iff_of_false id fun h => hop h.1

/-- **A comparison.**  The path comes before the operand, and what is counted for it stays
counted. -/
theorem parseComparison_outcome (hs : s.Ok) {plain : Bool} {symbols : List (SymbolKey × Slot σ)}
    {slots : List (JsString × Slot σ)} {text : JsString} : Outcome ParseState.getters
      (parseComparison defaultQueryLimits graph location (.object plain symbols slots) text) s
      (PassesComparison graph slots text s) (graph.MeetsComparison slots text s) := by
  unfold parseComparison
  cases hop : comparisonOperator? text with
  | none =>
      have hname : ∀ op : ComparisonOperator, text ≠ op.name := fun op h => by
        cases hop.symm.trans (comparisonOperator?_eq_some.2 h)
      refine failQuery_outcome ?_ ?_
      · rintro w s' ⟨op, path, value, -, htext, -⟩
        exact hname op htext
      · rintro ⟨op, v, htext, -⟩
        exact hname op htext
  | some op =>
      have hone : ∀ {op' : ComparisonOperator}, text = op'.name → op' = op := fun h =>
        Option.some.inj ((comparisonOperator?_eq_some.2 h).symm.trans hop)
      refine ((parsePathOf_outcome hs).bind (fun path => ?_) passesPath_oneWay
        fun path s₁ hpath => operand_outcome hpath.2.2.ok fun v => dataProperty?_eq_some).congr
          (fun w s' => ?_) ?_
      · refine fun c => .ite (.bind (parseSetValue_keeps (getters_upwardClosed c) _ _).anyFailure
          fun _ => .pure _) ?_
        split
        · refine .bind (consumeScalar_still.grows c) fun _ => ?_
          split
          · exact .pure _
          · exact .pure _
          · exact .bind failQuery_keeps.anyFailure fun _ => .pure _
          · exact .bind failQuery_keeps.anyFailure fun _ => .pure _
          · exact .pure _
        · exact failQuery_keeps.anyFailure
      · simp only [PassesPath, dataProperty?_eq_some]
        constructor
        · rintro ⟨path, s₁, ⟨hpath, hvalid, hspend⟩, value, rfl, hvalue, hspend'⟩
          exact ⟨op, path, value, rfl, comparisonOperator?_eq_some.1 hop, hpath, hvalid, hvalue,
            spends_append.2 ⟨s₁, hspend, hspend'⟩⟩
        · rintro ⟨op', path, value, rfl, htext, hpath, hvalid, hvalue, hspend⟩
          obtain rfl := hone htext
          obtain ⟨s₁, hspend, hspend'⟩ := spends_append.1 hspend
          exact ⟨path, s₁, ⟨hpath, hvalid, hspend⟩, value, rfl, hvalue, hspend'⟩
      · simp only [PassesPath, dataProperty?_eq_some]
        constructor
        · rintro (⟨v, hv, hmeets⟩ | ⟨path, s₁, ⟨⟨v, hv, hpath⟩, hvalid, hspend⟩, hin⟩)
          · exact ⟨op, v, comparisonOperator?_eq_some.1 hop, hv, .inl hmeets⟩
          obtain ⟨rfl, w, hw, hmeets⟩ := hin
          exact ⟨.in, v, comparisonOperator?_eq_some.1 hop, hv, .inr ⟨rfl, path, s₁, w, hpath,
            hvalid, hspend, hw, hmeets⟩⟩
        · rintro ⟨op', v, htext, hv, hmeets⟩
          obtain rfl := hone htext
          obtain hmeets | ⟨rfl, path, s₁, w, hpath, hvalid, hspend, hw, hmeets⟩ := hmeets
          · exact .inl ⟨v, hv, hmeets⟩
          · exact .inr ⟨path, s₁, ⟨⟨v, hv, hpath⟩, hvalid, hspend⟩, rfl, w, hw, hmeets⟩

end NewtonDB
