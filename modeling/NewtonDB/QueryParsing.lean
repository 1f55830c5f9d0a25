/-
# The parts of the parser of queries

`visit` of `parseWhere`, cut into the functions its branches are, and what it charges for:
each condition is one of the nodes, and costs the bytes of its scalars (`Charged`).
-/

import NewtonDB.QueryScalars

namespace NewtonDB

/-! ### The parts of the parser -/

section

variable (limits : QueryLimits) {σ : Type} (graph : JsGraph σ)

/-- One turn of the loop over conditions. -/
def parseCondition (fuel depth : ℕ) (location : JsString) (entry : Slot σ × ℕ) :
    ParseM (Option Where) :=
  match entry with
  | (slot, index) =>
    match slot with
    | .hole => return none
    | _ => do
        let condition ← readElement slot
        let parsed ← parseNode limits graph fuel condition (depth + 1)
          (location ++ js "/" ++ natText index)
        return some parsed

/-- An `and` or an `or`. -/
def parseConditions (fuel depth : ℕ) (location : JsString) (view : JsView σ) (op : JsString) :
    ParseM Where :=
  let location := location ++ js "/conditions"
  match (view.dataProperty? (js "conditions")).map graph.view with
  | some (.array slots extras) => do
      if slots.length = 0 then failQuery .invalidBoolean location
      callMethod extras (Assoc.get? extras.named (js "map"))
      readConstructor graph extras
      let parsed ← slots.zipIdx.mapM (parseCondition limits graph fuel depth location)
      return if op = js "and" then .and parsed else .or parsed
  | _ => failQuery .invalidBoolean location

/-- A comparison. -/
def parseComparison (location : JsString) (view : JsView σ) (op : JsString) : ParseM Where := do
  let some op := comparisonOperator? op | failQuery .invalidOperator location
  let path ← parsePathOf limits graph (view.dataProperty? (js "path")) location
  let value := view.dataProperty? (js "value")
  if op = .in then
    return .comparison op path (← parseSetValue limits graph value location)
  let location := location ++ js "/value"
  let some value := value >>= fun v => (graph.view v).primitive?
    | failQuery .invalidValue location
  consumeScalar limits (utf8Length value.stringify) location
  match op, value with
  | .startsWith, .string _ | .endsWith, .string _ => pure ()
  | .startsWith, _ | .endsWith, _ => failQuery .invalidValue location
  | _, _ => pure ()
  return .comparison op path (.scalar value)

/-- The names that a condition may have. -/
def allowedKeys (op : JsString) : List JsString :=
  if op = js "and" || op = js "or" then [js "conditions", js "op"]
  else if op = js "not" then [js "condition", js "op"]
  else [js "op", js "path", js "value"]

/-- A condition of a known operator. -/
def parseOperator (fuel depth : ℕ) (location : JsString) (view : JsView σ) (op : JsString) :
    ParseM Where :=
  if op = js "and" || op = js "or" then parseConditions limits graph fuel depth location view op
  else if op = js "not" then do
    let parsed ← parseNode limits graph fuel (view.dataProperty? (js "condition")) (depth + 1)
      (location ++ js "/condition")
    return .not parsed
  else parseComparison limits graph location view op

/-- The names of the own properties. -/
def ownNames {σ : Type*} : JsView σ → List JsString
  | .object _ _ slots => slots.map Prod.fst
  | _ => []

/-- A condition that is an object, given the operators that forbid one of its names. -/
def parseObject (fuel depth : ℕ) (location : JsString) (view : JsView σ)
    (forbids : JsString → Bool) : ParseM Where := do
  let op ←
    match (view.dataProperty? (js "op")).map graph.view with
    | some (.string op) => pure op
    | _ => failQuery .invalidOperator location
  if forbids op then failQuery .invalidNode location
  parseOperator limits graph fuel depth location view op

/-- Without any levels left the parser counts the node and refuses it as nested too deep. -/
theorem parseNode_zero (candidate : Option σ) (depth : ℕ) (location : JsString) :
    parseNode limits graph 0 candidate depth location = (do
      modify fun s => { s with nodes := s.nodes + 1 }
      if limits.maxNodes < (← get).nodes then failQuery .nodeLimit location
      if limits.maxDepth < depth then failQuery .depthLimit location
      failQuery .depthLimit location) := rfl

/-- With a level left the parser counts the node, checks it and goes on with its operator.  It
is the equation that the proofs about the parser rewrite with. -/
theorem parseNode_succ (fuel : ℕ) (candidate : Option σ) (depth : ℕ) (location : JsString) :
    parseNode limits graph (fuel + 1) candidate depth location = (do
      modify fun s => { s with nodes := s.nodes + 1 }
      if limits.maxNodes < (← get).nodes then failQuery .nodeLimit location
      if limits.maxDepth < depth then failQuery .depthLimit location
      let view ←
        match candidate.map graph.view with
        | some (.object plain symbols slots) => pure (JsView.object plain symbols slots)
        | _ => failQuery .invalidNode location
      parseObject limits graph fuel depth location view fun op =>
        (ownNames view).any fun key => key ∉ allowedKeys op) := rfl

end

variable {s s' s'' : ParseState} {location : JsString} {bytes : List ℕ} {w : Where}

/-! ### Comparisons -/

/-- An operand that is not that of `in`.  An array and an object are refused, and a primitive is
checked against the operator. -/
theorem readOperand_scalar {op : ComparisonOperator} (h : op ≠ .in) {k : Json}
    {value : QueryValue} : readOperand op k = some value ↔ ∃ p, k.prim? = some p ∧
      readOperand op (.prim p) = some value := by
  rcases k with p | items | props
  · exact ⟨fun hk => ⟨p, rfl, hk⟩, fun ⟨q, hq, hk⟩ => (Option.some.inj hq) ▸ hk⟩
  · refine iff_of_false (fun hk => ?_) fun ⟨q, hq, _⟩ => by cases hq
    cases op <;> first | exact h rfl | cases hk
  · refine iff_of_false (fun hk => ?_) fun ⟨q, hq, _⟩ => by cases hq
    cases op <;> first | exact h rfl | cases hk

/-- An operator other than `in` takes a primitive as it is. -/
theorem eq_scalar_of_readOperand {op : ComparisonOperator} (h : op ≠ .in) {p : JsonPrimitive}
    {value : QueryValue} (hread : readOperand op (.prim p) = some value) : value = .scalar p := by
  cases op <;> first | exact absurd rfl h | exact (Option.some.inj hread).symm | skip
  all_goals cases p <;> first | exact (Option.some.inj hread).symm | cases hread

/-- The last check of an operand.  A prefix and a suffix must be strings. -/
theorem runs_checkOperand {op : ComparisonOperator} {path : PropertyPath} {p : JsonPrimitive} :
    op ≠ .in → (Runs (match op, p with
        | .startsWith, .string _ => pure (Where.comparison op path (.scalar p))
        | .endsWith, .string _ => pure (Where.comparison op path (.scalar p))
        | .startsWith, _ => do
            failQuery .invalidValue location
            pure (Where.comparison op path (.scalar p))
        | .endsWith, _ => do
            failQuery .invalidValue location
            pure (Where.comparison op path (.scalar p))
        | _, _ => pure (Where.comparison op path (.scalar p)) : ParseM Where) s w s' ↔
      (readOperand op (.prim p) = some (.scalar p) ∧ .comparison op path (.scalar p) = w) ∧
        s = s') := by
  intro h
  cases op <;> first
    | exact absurd rfl h
    | exact runs_pure.trans (by simp [readOperand])
    | skip
  all_goals cases p <;> first
    | exact runs_pure.trans (by simp [readOperand])
    | exact iff_of_false not_runs_failQuery_bind (by simp [readOperand])

/-! ### Charges -/

/-- The bytes of the scalars of comparisons. -/
def comparisonBytes (comparisons : List (PropertyPath × QueryValue)) : List ℕ :=
  comparisons.flatMap fun c => pathBytes c.1 ++ c.2.bytes

/-- Conditions are charged: so many, with their comparisons. -/
structure Charged (s : ParseState) (n : ℕ) (comparisons : List (PropertyPath × QueryValue))
    (s' : ParseState) : Prop where
  nodes_le : s.nodes + n ≤ defaultQueryLimits.maxNodes
  safe : ∀ c ∈ comparisons, ∀ token ∈ c.1, token.IsValid
  spends : Spends { s with nodes := s.nodes + n } (comparisonBytes comparisons) s'

/-- A state within the limits. -/
structure ParseState.Within (s : ParseState) : Prop where
  nodes_le : s.nodes ≤ defaultQueryLimits.maxNodes
  ok : s.Ok

variable {m n : ℕ} {cs ds : List (PropertyPath × QueryValue)}

/-- What was charged counted so many nodes. -/
theorem Charged.nodes_eq (h : Charged s n cs s') : s'.nodes = s.nodes + n := by
  rw [h.spends.eq]

/-- What was charged is within the limits. -/
theorem Charged.within (h : Charged s n cs s') : s'.Within :=
  ⟨h.nodes_eq ▸ h.nodes_le, h.spends.ok⟩

/-- To charge nothing changes nothing, within the limits. -/
theorem charged_zero (hs : s.Within) : Charged s 0 [] s' ↔ s = s' :=
  ⟨fun h => (spends_nil hs.ok).1 h.spends, fun h =>
    ⟨hs.nodes_le, fun _ hc => (by cases hc), (spends_nil hs.ok).2 h⟩⟩

/-- Bytes are spent whatever the number of nodes is. -/
theorem Spends.withNodes (h : Spends s bytes s') (n : ℕ) :
    Spends { s with nodes := n } bytes { s' with nodes := n } :=
  ⟨h.each, h.all, by rw [h.eq]⟩

/-- **Charges add up.**  So the parts of a query may be counted one after the other.  What is
left of each limit goes from one part to the next. -/
theorem charged_append :
    Charged s (m + n) (cs ++ ds) s'' ↔ ∃ s', Charged s m cs s' ∧ Charged s' n ds s'' := by
  have hbytes : comparisonBytes (cs ++ ds) = comparisonBytes cs ++ comparisonBytes ds :=
    List.flatMap_append
  constructor
  · rintro ⟨hnodes, hsafe, hspend⟩
    rw [hbytes] at hspend
    obtain ⟨s₁, hcs, hds⟩ := spends_append.1 hspend
    refine ⟨{ s₁ with nodes := s.nodes + m }, ⟨by omega, fun c hc => hsafe c
      (List.mem_append_left _ hc), hcs.withNodes _⟩, ?_, fun c hc => hsafe c
      (List.mem_append_right _ hc), ?_⟩
    · dsimp only
      omega
    · have heq : s₁.nodes = s.nodes + (m + n) := by rw [hcs.eq]
      have hstart : { s₁ with nodes := s.nodes + m + n } = s₁ := by
        rw [Nat.add_assoc, ← heq]
      rw [hstart]
      exact hds
  · rintro ⟨s₁, hcs, hds⟩
    have hnodes := hds.nodes_le
    rw [hcs.nodes_eq] at hnodes
    refine ⟨by omega, fun c hc => (List.mem_append.1 hc).elim (hcs.safe c) (hds.safe c), ?_⟩
    rw [hbytes, spends_append]
    refine ⟨{ s₁ with nodes := s.nodes + (m + n) }, hcs.spends.withNodes _, ?_⟩
    have hstart := hds.spends
    rw [hcs.nodes_eq, Nat.add_assoc] at hstart
    exact hstart

/-! ### Conditions -/

/-- A token that may stand in a path is a natural index or a name.  A number among them is a
safe integer from zero on. -/
theorem PathToken.IsValid.isNatural {token : PathToken} (h : token.IsValid) : token.IsNatural := by
  cases token with
  | name s => trivial
  | index n =>
      obtain ⟨k, hk⟩ := Option.isSome_iff_exists.1 h
      cases n with
      | nan => cases hk
      | infinity s => cases hk
      | finite x =>
          simp only [JsNumber.toIndex?] at hk
          split at hk
          · next m hm => exact ⟨m, hm⟩
          · cases hk

/-- The paths that are accepted are those of the grammar that keep to safe integers. -/
theorem isValid_iff {path : PropertyPath} :
    path.IsValid ↔ IsQueryPath path ∧ ∀ token ∈ path, token.IsValid :=
  ⟨fun h => ⟨⟨h.head, h.length_le, fun t ht => (h.tokens t ht).isNatural⟩, h.tokens⟩,
    fun ⟨h, hsafe⟩ => ⟨h.named, h.length_le, hsafe⟩⟩

/-- A comparison has an operator, a path and a value, whichever it is. -/
theorem allowedKeys_name (op : ComparisonOperator) :
    allowedKeys op.name = [js "op", js "path", js "value"] := by
  cases op <;> decide

/-- A query has at least one node. -/
theorem Where.nodes_pos (w : Where) : 0 < w.nodes := by
  cases w <;> exact Nat.succ_pos _

/-- A condition is counted first.  What is below it is charged in the state that leaves. -/
theorem charged_nodes : Charged s w.nodes cs s' ↔
    s.nodes + 1 ≤ defaultQueryLimits.maxNodes ∧
      Charged { s with nodes := s.nodes + 1 } (w.nodes - 1) cs s' := by
  have hnodes : w.nodes = 1 + (w.nodes - 1) := by
    have := w.nodes_pos
    omega
  constructor
  · rintro ⟨hle, hsafe, hspend⟩
    rw [hnodes] at hle hspend
    refine ⟨by omega, ?_, hsafe, ?_⟩
    · dsimp only
      omega
    · rw [← Nat.add_assoc] at hspend
      exact hspend
  · rintro ⟨-, hle, hsafe, hspend⟩
    dsimp only at hle hspend
    refine ⟨by omega, hsafe, ?_⟩
    rw [hnodes, ← Nat.add_assoc]
    exact hspend

/-- The limits of a query, as it is charged.  The parser starts with nothing charged. -/
theorem fits_iff : w.Fits ↔ w.depth < defaultQueryLimits.maxDepth + 1 ∧
    ∃ s', Charged ⟨0, 0, 0⟩ w.nodes w.comparisons s' := by
  constructor
  · rintro ⟨hnodes, hdepth, heach, hall, hsafe⟩
    exact ⟨Nat.lt_succ_of_le hdepth, _, (Nat.zero_add _).trans_le hnodes, hsafe, heach,
      (Nat.zero_add _).trans_le hall, rfl⟩
  · rintro ⟨hdepth, s', hnodes, hsafe, heach, hall, -⟩
    exact ⟨(Nat.zero_add _).symm.trans_le hnodes, Nat.le_of_lt_succ hdepth, heach,
      (Nat.zero_add _).symm.trans_le hall, hsafe⟩

end NewtonDB
