/-
# How the engine fails

No operation on documents, on queries or on a transaction fails with a `ClosedError`:
that is for the lifecycle checks of the database alone.
-/

import NewtonDB.Engine.Commit
import NewtonDB.Engine.Query
import NewtonDB.Lib.Fails
import NewtonDB.QueryParsing

namespace NewtonDB

/-- Any other error than a `ClosedError`. -/
def NewtonError.IsOpen (error : NewtonError) : Prop := error ≠ .closed

variable {σ : Type}

/-! ### Documents -/

/-- An invariant of the walk that speaks of the getters, and of no more than a lower bound. -/
def VisitState.UpwardClosed (I : VisitState σ → Prop) : Prop :=
  ∀ s s', s.getters ≤ s'.getters → I s → I s'

variable {I : VisitState σ → Prop}

/-- The walk through a document throws validation errors only. -/
theorem failJson_keeps {α : Type} {code : JsonIssueCode} {path : PropertyPath} {message : JsString} :
    Keeps I NewtonError.IsOpen (failJson (α := α) code path message) :=
  .throw fun h => by cases h

/-- Nothing comes after a failure. -/
theorem failJson_bind_keeps {α β : Type} {code : JsonIssueCode} {path : PropertyPath}
    {message : JsString} {k : α → VisitM σ β} :
    Keeps I NewtonError.IsOpen (failJson code path message >>= k) := fun _ hs =>
  ⟨hs, .error fun h => by cases h⟩

/-- To read a slot counts a getter, and throws what the getter does, which is no
`ClosedError`. -/
theorem readSlot_keeps (hI : VisitState.UpwardClosed I) (slot : Slot σ) :
    Keeps I NewtonError.IsOpen (readSlot slot) := by
  cases slot with
  | data value => exact .pure _
  | accessor outcome =>
      refine .bind (.update fun s => hI s _ (Nat.le_succ _)) fun _ => ?_
      cases outcome with
      | some value => exact .pure _
      | none => exact .throw fun h => by cases h
  | hole => exact .pure _

/-- To count bytes keeps the number of getters. -/
theorem addBytes_keeps (hI : VisitState.UpwardClosed I) {n : ℕ} :
    Keeps I NewtonError.IsOpen (addBytes n : VisitM σ Unit) :=
  .update fun s => hI s _ le_rfl

/-- To enter a value counts it, and throws validation errors only. -/
theorem enterValue_keeps (hI : VisitState.UpwardClosed I) {limits : JsonLimits}
    {path : PropertyPath} {depth : ℕ} :
    Keeps I NewtonError.IsOpen (enterValue limits path depth : VisitM σ Unit) := by
  unfold enterValue
  refine .bind (.update fun s => hI s _ le_rfl) fun _ => .bind .read fun s => ?_
  exact .check failJson_keeps fun _ => .ite failJson_keeps (.pure _)

/-- The check of a limit throws errors of a database that is open. -/
theorem checkLimit_keeps {name : JsString} {value ceiling : ℕ} :
    Keeps I NewtonError.IsOpen (checkLimit name value ceiling) := by
  unfold checkLimit
  exact .ite (.throw fun h => by cases h) (.pure _)

section

variable [DecidableEq σ] {graph : JsGraph σ} {limits : JsonLimits}

/-- To enter an object takes it on the way, and throws validation errors only. -/
theorem enterObject_keeps (hI : VisitState.UpwardClosed I) {value : σ} {path : PropertyPath} :
    Keeps I NewtonError.IsOpen (enterObject value path) := by
  unfold enterObject
  refine .bind .read fun s => .check failJson_keeps fun _ => ?_
  exact .update fun s => hI s _ le_rfl

/-- To leave an object takes it off the way, and throws validation errors only. -/
theorem leaveObject_keeps (hI : VisitState.UpwardClosed I) {value : σ} {path : PropertyPath} :
    Keeps I NewtonError.IsOpen (leaveObject limits value path) := by
  unfold leaveObject
  refine .bind (.update fun s => hI s _ le_rfl) fun _ => .bind .read fun s => ?_
  exact .ite failJson_keeps (.pure _)

/-- **The walk through a value** runs no getter back and throws no `ClosedError`, by induction
on the levels that are left: an array element by element, an object property by property. -/
theorem visit_keeps (hI : VisitState.UpwardClosed I) (fuel : ℕ) (value : σ) (path : PropertyPath)
    (depth : ℕ) :
    Keeps I NewtonError.IsOpen (visit graph limits fuel value path depth) := by
  induction fuel generalizing value path depth with
  | zero =>
      unfold visit
      exact .bind (enterValue_keeps hI) fun _ => failJson_keeps
  | succ fuel ih =>
      unfold visit
      refine .bind (enterValue_keeps hI) fun _ => ?_
      dsimp only
      split
      · exact .bind (addBytes_keeps hI) fun _ => .pure _
      · exact .bind (addBytes_keeps hI) fun _ => .pure _
      · exact .bind (addBytes_keeps hI) fun _ => .pure _
      · exact failJson_keeps
      · exact .check failJson_keeps fun _ => .bind (addBytes_keeps hI) fun _ => .pure _
      · exact failJson_keeps
      · exact failJson_keeps
      · refine .bind (enterObject_keeps hI) fun _ => .bind (.mapM fun ⟨slot, index⟩ _ => ?_)
          fun _ => .bind (leaveObject_keeps hI) fun _ => .pure _
        refine .bind (readSlot_keeps hI slot) fun item => ?_
        cases item with
        | none => exact failJson_keeps
        | some item => exact .bind (ih _ _ _) fun _ => .bind (addBytes_keeps hI) fun _ => .pure _
      · next symbols slots =>
          refine .bind (enterObject_keeps hI) fun _ => .check failJson_keeps fun _ => ?_
          split
          · exact failJson_bind_keeps
          · refine .bind (.mapM fun ⟨key, slot⟩ _ => ?_) fun _ =>
              .bind (leaveObject_keeps hI) fun _ => .pure _
            cases slot with
            | data item =>
                exact .check failJson_keeps fun _ =>
                  .bind (ih _ _ _) fun _ => .bind (addBytes_keeps hI) fun _ => .pure _
            | accessor | hole => exact failJson_keeps

/-- **The whole walk**, with the checks of its limits, throws no `ClosedError`.  The limits are
checked before the value is entered, and the text is compared last. -/
theorem cloneAndFreeze_keeps (hI : VisitState.UpwardClosed I) (input : σ) :
    Keeps I NewtonError.IsOpen (cloneAndFreeze graph limits input) := by
  unfold cloneAndFreeze
  refine .bind checkLimit_keeps fun _ => .bind checkLimit_keeps fun _ => .bind checkLimit_keeps
    fun _ => .bind checkLimit_keeps fun _ => ?_
  split
  · refine .bind (visit_keeps hI _ _ _ _) fun value => ?_
    split
    · exact .check failJson_keeps fun _ => .pure _
    · exact failJson_keeps
  · exact failJson_keeps

/-- **How the walk over a document fails.**  It starts with nothing counted, and the invariant
that asks nothing holds there. -/
theorem cloneAndFreezeJsonObject_failsWith (input : σ) :
    FailsWith NewtonError.IsOpen (cloneAndFreezeJsonObject graph limits input) :=
  (cloneAndFreeze_keeps (I := fun _ => True) (fun _ _ _ => id) input).failsWith trivial

end

/-! ### Conditions -/

/-- An invariant of the parser that speaks of the getters, and of no more than a lower bound. -/
def ParseState.UpwardClosed (I : ParseState → Prop) : Prop :=
  ∀ s s', s.getters ≤ s'.getters → I s → I s'

variable {I : ParseState → Prop}

/-- The parser of queries throws validation errors only. -/
theorem failQuery_keeps {α : Type} {issue : QueryValidationIssue} {location : JsString} :
    Keeps I NewtonError.IsOpen (failQuery issue location : ParseM α) :=
  .throw fun h => by cases h

/-- To read an element of an array counts a getter, and throws what the getter does.  The
counters are moved upwards only, which is all that `UpwardClosed` needs. -/
theorem readElement_keeps (hI : ParseState.UpwardClosed I) (slot : Slot σ) :
    Keeps I NewtonError.IsOpen (readElement slot) := by
  cases slot with
  | data value => exact .pure _
  | accessor outcome =>
      refine .bind (.update fun s => hI s _ (Nat.le_succ _)) fun _ => ?_
      cases outcome with
      | some value => exact .pure _
      | none => exact .throw fun h => by cases h
  | hole => exact .pure _

variable {graph : JsGraph σ} {limits : QueryLimits}

/-- To count a scalar throws validation errors only. -/
theorem consumeScalar_keeps (hI : ∀ s n, I s → I { s with scalarBytes := n }) {bytes : ℕ}
    {location : JsString} : Keeps I NewtonError.IsOpen (consumeScalar limits bytes location) := by
  unfold consumeScalar
  refine .check failQuery_keeps fun _ => .bind (.update fun s => hI s _) fun _ =>
    .bind .read fun _ => .ite failQuery_keeps (.pure _)

/-- **A method call keeps what it may**: the getter that hides the method may run, and
the call may fail. -/
theorem callMethod_keeps (hI : ParseState.UpwardClosed I) (extras : ArrayExtras σ)
    (own : Option (Slot σ)) : Keeps I NewtonError.IsOpen (callMethod extras own) := by
  unfold callMethod
  cases own with
  | some slot => exact .bind (readElement_keeps hI slot) fun _ => .throw nofun
  | none => exact .ite (.pure _) (.throw nofun)

/-- Asking a constructor for its species runs one getter at most.  A species that is no
constructor is a `TypeError`, and that is no `ClosedError`. -/
theorem readSpecies_keeps (hI : ParseState.UpwardClosed I)
    (symbols : List (SymbolKey × Slot σ)) : Keeps I NewtonError.IsOpen (readSpecies graph symbols) := by
  unfold readSpecies
  split
  · exact .pure _
  · refine .bind (readElement_keeps hI _) fun species => ?_
    split
    · exact .pure _
    · exact .pure _
    · exact .pure _
    · exact .throw nofun

/-- **Asking for the kind of array to make** runs two getters at most.  One is that of
`constructor`, the other that of the species of what it holds. -/
theorem readConstructor_keeps (hI : ParseState.UpwardClosed I) (extras : ArrayExtras σ) :
    Keeps I NewtonError.IsOpen (readConstructor graph extras) := by
  unfold readConstructor
  split
  · exact .pure _
  · refine .bind (readElement_keeps hI _) fun kind => ?_
    split
    · exact .pure _
    · exact .pure _
    · split
      · exact readSpecies_keeps hI _
      · exact .throw nofun

/-- **The path of a comparison.**  The handler drops whatever the loop over the tokens
failed with, so the failure is the parser's own. -/
theorem parsePathOf_keeps (hI : ParseState.UpwardClosed I) (path : Option σ) (location : JsString) :
    Keeps I NewtonError.IsOpen (parsePathOf limits graph path location) := by
  unfold parsePathOf
  split
  · refine .check failQuery_keeps fun _ => .bind ?_ fun path => .bind ?_ fun _ => .pure _
    · refine .handle (.bind (callMethod_keeps hI _ _).anyFailure fun _ =>
        .mapM fun ⟨slot, index⟩ _ => ?_) fun _ _ => failQuery_keeps
      refine .bind (readElement_keeps hI slot).anyFailure fun element => ?_
      split
      · exact .pure _
      · exact .throw trivial
    · refine .forIn fun ⟨token, index⟩ _ _ => ?_
      cases token with
      | name s => exact .bind (consumeScalar_keeps fun s _ => hI s _ le_rfl) fun _ => .pure _
      | index n => exact .pure _
  · exact failQuery_keeps

/-- **The list of an `in`.**  It is checked, counted and spread, each through a method that is
looked up. -/
theorem parseSetValue_keeps (hI : ParseState.UpwardClosed I) (value : Option σ)
    (location : JsString) : Keeps I NewtonError.IsOpen (parseSetValue limits graph value location) := by
  unfold parseSetValue
  split
  · refine .check failQuery_keeps fun _ => .bind (callMethod_keeps hI _ _) fun _ =>
      .bind (.mapM fun slot _ => ?_) fun items => .bind (callMethod_keeps hI _ _) fun _ =>
      .bind (.forIn fun ⟨slot, index⟩ _ _ => ?_) fun _ => .bind (callMethod_keeps hI _ _) fun _ =>
      .bind (.mapM fun slot _ => readElement_keeps hI slot) fun _ => .pure _
    · split
      · exact .pure _
      · refine .bind (readElement_keeps hI slot) fun v => ?_
        split
        · exact .pure _
        · exact failQuery_keeps
    · exact .bind (readElement_keeps hI slot) fun _ =>
        .bind (consumeScalar_keeps fun s _ => hI s _ le_rfl) fun _ => .pure _
  · exact failQuery_keeps

/-- **A comparison**: its operator, its path and its operand.  The bytes of the path are counted
before the operand is read. -/
theorem parseComparison_keeps (hI : ParseState.UpwardClosed I) (location : JsString)
    (view : JsView σ) (op : JsString) :
    Keeps I NewtonError.IsOpen (parseComparison limits graph location view op) := by
  unfold parseComparison
  split
  · refine .bind (parsePathOf_keeps hI _ _) fun path => .ite
      (.bind (parseSetValue_keeps hI _ _) fun _ => .pure _) ?_
    split
    · refine .bind (consumeScalar_keeps fun s _ => hI s _ le_rfl) fun _ => ?_
      split
      · exact .pure _
      · exact .pure _
      · exact .bind failQuery_keeps fun _ => .pure _
      · exact .bind failQuery_keeps fun _ => .pure _
      · exact .pure _
    · exact failQuery_keeps
  · exact failQuery_keeps

/-- The parser, with so many levels left, keeps what speaks of the getters. -/
def NodeKeeps (I : ParseState → Prop) (limits : QueryLimits) (graph : JsGraph σ) (fuel : ℕ) :
    Prop :=
  ∀ candidate depth location,
    Keeps I NewtonError.IsOpen (parseNode limits graph fuel candidate depth location)

/-- **A list of conditions**, when each of them keeps it.  The list must not be empty, and `map`
visits each element. -/
theorem parseConditions_keeps (hI : ParseState.UpwardClosed I) {fuel : ℕ}
    (hnode : NodeKeeps I limits graph fuel) (depth : ℕ) (location : JsString) (view : JsView σ)
    (op : JsString) :
    Keeps I NewtonError.IsOpen (parseConditions limits graph fuel depth location view op) := by
  unfold parseConditions
  split
  · refine .check failQuery_keeps fun _ => .bind (callMethod_keeps hI _ _) fun _ =>
      .bind (readConstructor_keeps hI _) fun _ => .bind (.mapM fun ⟨slot, index⟩ _ => ?_) fun _ =>
      .pure _
    cases slot with
    | hole => exact .pure _
    | data v | accessor outcome =>
        exact .bind (readElement_keeps hI _) fun _ => .bind (hnode _ _ _) fun _ => .pure _
  · exact failQuery_keeps

/-- **A condition that is an object**, when the conditions below it keep it.  Only the
properties of its operator may be there, and none may be an accessor. -/
theorem parseObject_keeps (hI : ParseState.UpwardClosed I) {fuel : ℕ}
    (hnode : NodeKeeps I limits graph fuel) (depth : ℕ) (location : JsString) (view : JsView σ)
    (forbids : JsString → Bool) :
    Keeps I NewtonError.IsOpen (parseObject limits graph fuel depth location view forbids) := by
  have hoperator : ∀ op, Keeps I NewtonError.IsOpen
      (parseOperator limits graph fuel depth location view op) := fun op =>
    .ite (parseConditions_keeps hI hnode depth location view op) (.ite
      (.bind (hnode _ _ _) fun _ => .pure _) (parseComparison_keeps hI location view op))
  unfold parseObject
  split
  · exact .bind (.pure _) fun op => .check failQuery_keeps fun _ => hoperator op
  · exact .bind failQuery_keeps fun op => .check failQuery_keeps fun _ => hoperator op

/-- **How the parser goes on and fails**, by the levels that are left.  Without any levels the
parser refuses; with one more it goes on below the operator with one less. -/
theorem parseNode_keeps (hI : ParseState.UpwardClosed I) (fuel : ℕ) :
    NodeKeeps I limits graph fuel := by
  induction fuel with
  | zero =>
      intro candidate depth location
      rw [parseNode_zero]
      exact .bind (.update fun s => hI s _ le_rfl) fun _ => .bind .read fun s =>
        .check failQuery_keeps fun _ => .check failQuery_keeps fun _ => failQuery_keeps
  | succ fuel ih =>
      intro candidate depth location
      rw [parseNode_succ]
      refine .bind (.update fun s => hI s _ le_rfl) fun _ => .bind .read fun s =>
        .check failQuery_keeps fun _ => .check failQuery_keeps fun _ => ?_
      split
      · exact .bind (.pure _) fun view => parseObject_keeps hI ih _ _ view _
      · exact .bind failQuery_keeps fun view => parseObject_keeps hI ih _ _ view _

/-- The check of a limit of queries throws errors of a database that is open. -/
theorem checkQueryLimit_keeps {name : JsString} {value : ℕ} :
    Keeps I NewtonError.IsOpen (checkQueryLimit name value) := by
  unfold checkQueryLimit
  exact .ite (.throw nofun) (.pure _)

/-- **How the parser fails.**  It parses under the limits of the published schema, and compiling
cannot fail. -/
theorem compileWhere_failsWith (input : JsInput) :
    FailsWith NewtonError.IsOpen (compileWhere input) := by
  refine .map (Keeps.failsWith (I := fun _ => True) ?_ trivial) _
  unfold parseWhereM
  exact .bind checkQueryLimit_keeps fun _ => .bind checkQueryLimit_keeps fun _ =>
    .bind checkQueryLimit_keeps fun _ => .bind checkQueryLimit_keeps fun _ =>
    .bind checkQueryLimit_keeps fun _ => .bind checkQueryLimit_keeps fun _ =>
    parseNode_keeps (fun _ _ _ => id) _ _ _ _

/-! ### Keys, schemas and indexes -/

/-- To encode a key throws an error of the key, if any. -/
theorem encodeKey_failsWith (key : PrimaryKey) : FailsWith NewtonError.IsOpen (encodeKey key) := by
  unfold encodeKey
  split
  · exact .ite (.error nofun) (.ok _)
  · split
    · exact .ite (.ok _) (.error nofun)
    · exact .error nofun

/-- To take the key of a document throws an error of the key, if any. -/
theorem documentKey_failsWith (document : JsonObject) (schema : CollectionSchema) :
    FailsWith NewtonError.IsOpen (documentKey document schema) := by
  unfold documentKey
  split
  · exact .error nofun
  · exact .bind (encodeKey_failsWith _) fun _ _ => .ok _

/-- To resolve a limit throws an error of the limit, if any.  It is refused when it is no
positive integer up to the ceiling. -/
theorem resolveLimit_failsWith {label name : JsString} {ceiling : ℕ} {override : Option JsNumber} :
    FailsWith NewtonError.IsOpen (resolveLimit label name ceiling override) := by
  unfold resolveLimit
  split
  · exact .ok _
  · split
    · exact .ite (.error nofun) (.ok _)
    · exact .error nofun

/-- To resolve the limits of a schema throws an error of one of them, if any. -/
theorem resolvedLimits_failsWith (schema : CollectionSchema) :
    FailsWith NewtonError.IsOpen (resolvedLimits schema) :=
  .bind resolveLimit_failsWith fun _ _ => .bind resolveLimit_failsWith fun _ _ =>
    .bind resolveLimit_failsWith fun _ _ => .bind resolveLimit_failsWith fun _ _ => .ok _

/-- A document that its validator rejects is a validation error. -/
theorem runValidator_failsWith {name : JsString} {document : JsonObject}
    {schema : CollectionSchema} : FailsWith NewtonError.IsOpen (runValidator name document schema) := by
  unfold runValidator
  split
  · exact .ite (.ok _) (.error nofun)
  · exact .ok _

/-- **To validate a document throws validation errors**, those of its walk and that of its
validator. -/
theorem validateDocument_failsWith [DecidableEq σ] {name : JsString} {graph : JsGraph σ}
    {document : σ} {schema : CollectionSchema} :
    FailsWith NewtonError.IsOpen (validateDocument name graph document schema) :=
  .bind (resolvedLimits_failsWith _) fun _ _ =>
    .bind (cloneAndFreezeJsonObject_failsWith _) fun _ _ => .bind runValidator_failsWith fun _ _ =>
    .bind (documentKey_failsWith _ _) fun _ _ => .ok _

/-- What an index reads from a document may be no primitive, which is a validation error.  It
names the collection and the index. -/
theorem indexValue_failsWith {collection name : JsString} {path : PropertyPath}
    {document : JsonObject} :
    FailsWith NewtonError.IsOpen (indexValue collection name path document) := by
  unfold indexValue
  split
  · exact .ok _
  · exact .ok _
  · exact .error nofun

section

variable {M : Type} [MutableMap M JsString Bucket] {name encoded : JsString}

/-- The check of one index throws a uniqueness error, or one of its value.  The error names the
collection and the index. -/
theorem checkIndex_failsWith {document : JsonObject} {index : SecondaryIndexState M} :
    FailsWith NewtonError.IsOpen (checkIndex name encoded document index) := by
  refine .bind indexValue_failsWith fun value _ => ?_
  split
  · exact .ok _
  · split
    · exact .ite (.error nofun) (.ok _)
    · exact .ok _

/-- To add a document to the indexes throws what the check of one of them does. -/
theorem addToIndexes_failsWith {indexes : Indexes M} {document : JsonObject} :
    FailsWith NewtonError.IsOpen (addToIndexes name indexes encoded document) :=
  .bind (.forM fun _ _ => checkIndex_failsWith) fun _ _ => .ok _

/-- To remove a document from an index throws an error of its value, if any.  A bucket that is
not there is passed over in silence. -/
theorem removeFromIndex_failsWith {document : JsonObject} {index : SecondaryIndexState M} :
    FailsWith NewtonError.IsOpen (removeFromIndex name encoded document index) := by
  refine .bind indexValue_failsWith fun value _ => ?_
  split
  · exact .ok _
  · split
    · exact .ok _
    · exact .ok _

/-- To change the values one after the other throws what a change throws.  It stops at the first
one that fails. -/
theorem Assoc.updateVals_failsWith {K V : Type} {f : V → Except NewtonError V}
    {l : List (K × V)} (h : ∀ v, FailsWith NewtonError.IsOpen (f v)) :
    FailsWith NewtonError.IsOpen (Assoc.updateVals f l).2 := by
  induction l with
  | nil => exact .ok _
  | cons entry l ih =>
      simp only [Assoc.updateVals]
      split
      · next error herror =>
        exact .error (h entry.2 error herror)
      · exact ih

/-- To remove a document from the indexes throws what one of them does. -/
theorem removeFromIndexes_failsWith {indexes : Indexes M} {document : JsonObject} :
    FailsWith NewtonError.IsOpen (removeFromIndexes name indexes encoded document).2 :=
  Assoc.updateVals_failsWith fun _ => removeFromIndex_failsWith

/-- To replace a document in the indexes throws what a removal or an addition does.  When an
addition fails the removed entries are put back, and its error is passed on. -/
theorem replaceInIndexes_failsWith {indexes : Indexes M} {before : Option JsonObject}
    {document : JsonObject} :
    FailsWith NewtonError.IsOpen (replaceInIndexes name indexes encoded before document).2 := by
  unfold replaceInIndexes
  have hremove : FailsWith NewtonError.IsOpen (removeBefore name indexes encoded before).2 := by
    cases before with
    | none => exact .ok _
    | some before => exact removeFromIndexes_failsWith
  generalize removeBefore name indexes encoded before = removed at hremove
  obtain ⟨indexes, error | _⟩ := removed
  · exact hremove
  · dsimp only
    split
    · exact .ok _
    · next error herror =>
      refine .error ?_
      unfold restoreBefore
      split
      · exact addToIndexes_failsWith error herror
      · split
        · exact addToIndexes_failsWith error herror
        · next error herror =>
          exact addToIndexes_failsWith error herror

/-- A write to a collection that is sealed is refused with an error of its own.  It is the
`TypeError` of a map that is read-only, or what comes before it. -/
theorem refusalOfSealed_isOpen {indexes : Indexes M} {before : Option JsonObject}
    {document : JsonObject} :
    (refusalOfSealed name indexes encoded before document).IsOpen := by
  unfold refusalOfSealed
  dsimp only
  split
  · exact nofun
  · split
    · next error herror =>
      exact addToIndexes_failsWith error herror
    · exact nofun

end

/-! ### Writes -/

/-- To give a document its key throws an error of the key or of the generator.  A generator is
code of the user, and what it throws is passed on as such. -/
theorem materializePrimaryKey_failsWith {name : JsString} {input : JsInput}
    {schema : CollectionSchema} {generated : GeneratorOutcome} :
    FailsWith NewtonError.IsOpen (materializePrimaryKey name input schema generated) := by
  refine .bind (resolvedLimits_failsWith _) fun _ _ =>
    .bind (cloneAndFreezeJsonObject_failsWith _) fun cloned _ => .ite (.ok _) ?_
  split
  · exact .ok _
  · exact .error nofun
  · exact .error nofun
  · exact .ite (.error nofun) (.bind (encodeKey_failsWith _) fun _ _ => .ok _)

/-- **To prepare an insert** throws what validation and the key do.  The generator of keys is
called between the two. -/
theorem prepareInsert_failsWith {name : JsString} {input : JsInput} {schema : CollectionSchema}
    {generated : GeneratorOutcome} :
    FailsWith NewtonError.IsOpen (prepareInsert name input schema generated) :=
  .bind materializePrimaryKey_failsWith fun _ _ => .bind validateDocument_failsWith fun _ _ =>
    .bind (documentKey_failsWith _ _) fun _ _ => .bind (encodeKey_failsWith _) fun _ _ => .ok _

/-- To merge a patch throws validation errors only.  Its properties are read through
descriptors, so no getter has a chance to throw. -/
theorem mergeDocument_failsWith {before : JsonObject} {patch : JsInput} :
    FailsWith NewtonError.IsOpen (mergeDocument before patch) := by
  unfold mergeDocument
  split
  · refine .foldlM fun output slot _ => ?_
    unfold mergeSlot
    split
    · exact .ok _
    · exact .error nofun
  · exact .error nofun

/-- **To prepare an update** throws what the merge, validation and a changed key do.  The key
must be that of the document there was. -/
theorem prepareUpdate_failsWith {name : JsString} {primaryKey : PrimaryKey} {before : JsonObject}
    {patch : JsInput} {schema : CollectionSchema} :
    FailsWith NewtonError.IsOpen (prepareUpdate name primaryKey before patch schema) :=
  .bind (.bind mergeDocument_failsWith fun _ _ => validateDocument_failsWith) fun _ _ =>
    .bind (.bind (documentKey_failsWith _ _) fun _ _ => .ite (.ok _) (.error nofun)) fun _ _ =>
      .ok _

namespace WorkingCollection

variable {name : JsString} {collection : WorkingCollection}

/-- An insert of a collection throws no `ClosedError`.  Its errors are those of the document, of
its key, of the indexes and of a sealed map. -/
theorem insert_failsWith {input : JsInput} {upsert : Bool} {generated : GeneratorOutcome} :
    FailsWith NewtonError.IsOpen (collection.insert name input upsert generated).2 := by
  unfold insert
  split
  · next error herror =>
    exact .error (prepareInsert_failsWith error herror)
  · next prepared _ =>
    have hreplace : FailsWith NewtonError.IsOpen (replaceInIndexes name collection.indexes
        prepared.encoded (collection.records.get prepared.encoded) prepared.document).2 :=
      replaceInIndexes_failsWith
    dsimp only
    generalize replaceInIndexes name collection.indexes _ _ _ = replaced at hreplace
    obtain ⟨indexes, error | _⟩ := replaced
    · exact .ite_snd (.error nofun)
        (.ite_snd (.error refusalOfSealed_isOpen) (.error (hreplace error rfl)))
    · exact .ite_snd (.error nofun) (.ite_snd (.error refusalOfSealed_isOpen) (.ok _))

/-- An update of a collection throws no `ClosedError`.  A key that is not there is its own
error; the others are those of the new version. -/
theorem update_failsWith {primaryKey : PrimaryKey} {patch : JsInput} :
    FailsWith NewtonError.IsOpen (collection.update name primaryKey patch).2 := by
  unfold update
  split
  · next error herror =>
    exact .error (encodeKey_failsWith _ error herror)
  · split
    · exact .error nofun
    · split
      · next error herror =>
        exact .error (prepareUpdate_failsWith error herror)
      · split
        · exact .error refusalOfSealed_isOpen
        · dsimp only
          split
          · next error herror =>
            exact .error (replaceInIndexes_failsWith error herror)
          · exact .ok _

/-- A delete of a collection throws no `ClosedError`.  A key that is not there is an error
too. -/
theorem delete_failsWith {primaryKey : PrimaryKey} :
    FailsWith NewtonError.IsOpen (collection.delete name primaryKey).2 := by
  unfold delete
  split
  · next error herror =>
    exact .error (encodeKey_failsWith _ error herror)
  · split
    · exact .error nofun
    · split
      · exact .error nofun
      · dsimp only
        split
        · next error herror =>
          exact .error (removeFromIndexes_failsWith error herror)
        · exact .ok _

end WorkingCollection

/-! ### Transactions -/

/-- A collection that is unknown is an invalid argument. -/
theorem Root.stored_failsWith {root : Root} {name : JsString} :
    FailsWith NewtonError.IsOpen (root.stored name) := by
  unfold Root.stored
  split
  · exact .ok _
  · exact .error nofun

/-- To find documents throws what parsing the condition does. -/
theorem findDocuments_failsWith {K : Type} {order : List K} {records : K → Option JsonObject}
    {condition : JsInput} :
    FailsWith NewtonError.IsOpen (findDocuments order records condition) := by
  refine .ite (.error nofun) (.bind (compileWhere_failsWith _) fun _ _ => ?_)
  exact .ite (.error nofun) (.ok _)

namespace Transaction

variable {t : Transaction} {root : Root} {now : ℕ} {name : JsString}

/-- A transaction that is finished refuses with an error of its state. -/
theorem assertActive_failsWith : FailsWith NewtonError.IsOpen t.assertActive :=
  .ite (.ok _) (.error nofun)

/-- A transaction that is too old refuses with an error of its limit. -/
theorem assertWithinLimits_failsWith : FailsWith NewtonError.IsOpen (t.assertWithinLimits now) :=
  .ite (.error nofun) (.ok _)

/-- An operation too many is refused with an error of the limit. -/
theorem recordOperation_failsWith : FailsWith NewtonError.IsOpen (t.recordOperation now).2 := by
  unfold recordOperation
  split
  · next error herror =>
    exact .error (FailsWith.bind assertActive_failsWith
      (fun _ _ => assertWithinLimits_failsWith) error herror)
  · exact .ite (.error nofun) (.ok _)

/-- To touch a collection throws errors of the transaction, its limits or the name.  A
transaction that is not active is refused before its limits are looked at. -/
theorem touchCollection_failsWith :
    FailsWith NewtonError.IsOpen (t.touchCollection root now name).2 := by
  have hcheck : FailsWith NewtonError.IsOpen
      (t.assertActive >>= fun _ => t.assertWithinLimits now >>= fun _ => root.stored name) :=
    .bind assertActive_failsWith fun _ _ =>
      .bind assertWithinLimits_failsWith fun _ _ => Root.stored_failsWith
  unfold touchCollection
  generalize (t.assertActive >>= _) = checked at hcheck
  obtain error | stored := checked
  · exact .error (hcheck error rfl)
  · exact .ite_snd (.ok _) (.ite_snd (.error nofun) (.ok _))

/-- To make a collection writable throws what touching it does.  The clone itself cannot
fail. -/
theorem writable_failsWith : FailsWith NewtonError.IsOpen (t.writable root now name).2 := by
  unfold writable
  split
  · next error herror =>
    exact .error (assertActive_failsWith error herror)
  · split
    · exact .ok _
    · have htouch : FailsWith NewtonError.IsOpen (t.touchCollection root now name).2 :=
        touchCollection_failsWith
      generalize t.touchCollection root now name = touched at htouch
      obtain ⟨t, error | stored⟩ := touched
      · exact .error (htouch error rfl)
      · exact .ok _

/-- **A read throws no `ClosedError`**: it touches the collection and encodes the key.  The
lifecycle of the database is checked before, by its caller. -/
theorem read_failsWith {primaryKey : PrimaryKey} :
    FailsWith NewtonError.IsOpen (t.read root now name primaryKey).2 := by
  unfold read
  have htouch : FailsWith NewtonError.IsOpen (t.touchCollection root now name).2 :=
    touchCollection_failsWith
  generalize t.touchCollection root now name = touched at htouch
  obtain ⟨t, error | stored⟩ := touched
  · exact .error (htouch error rfl)
  · exact .map (encodeKey_failsWith _) _

/-- **A query throws no `ClosedError`**: it touches the collection and finds documents.  The
lifecycle of the database is checked before, by its caller. -/
theorem query_failsWith {condition : JsInput} :
    FailsWith NewtonError.IsOpen (t.query root now name condition).2 := by
  unfold query
  have htouch : FailsWith NewtonError.IsOpen (t.touchCollection root now name).2 :=
    touchCollection_failsWith
  generalize t.touchCollection root now name = touched at htouch
  obtain ⟨t, error | stored⟩ := touched
  · exact .error (htouch error rfl)
  · exact .map findDocuments_failsWith _

/-- **A write throws no `ClosedError`** when its body does not: it makes the collection writable
and counts the operation. -/
theorem write_failsWith
    {body : WorkingCollection → WorkingCollection × Except NewtonError Written}
    (hbody : ∀ collection, FailsWith NewtonError.IsOpen (body collection).2) :
    FailsWith NewtonError.IsOpen (t.write root now name body).2 := by
  unfold write
  have hrecord : FailsWith NewtonError.IsOpen (t.recordOperation now).2 := recordOperation_failsWith
  generalize t.recordOperation now = recorded at hrecord
  obtain ⟨t, error | _⟩ := recorded
  · exact .error (hrecord error rfl)
  · have hwritable : FailsWith NewtonError.IsOpen (t.writable root now name).2 :=
      writable_failsWith
    dsimp only
    generalize t.writable root now name = writable at hwritable
    obtain ⟨t, error | collection⟩ := writable
    · exact .error (hwritable error rfl)
    · dsimp only
      split
      · next error herror =>
        exact .error (hbody collection error herror)
      · exact .ok _

/-- **How a call on a transaction fails.**  One case for each method.  A transaction does not
look at the lifecycle state until it commits. -/
theorem call_failsWith {call : TransactionCall} :
    FailsWith NewtonError.IsOpen (t.call root now call).2 := by
  cases call with
  | collection name => exact .bind assertActive_failsWith fun _ _ => .map Root.stored_failsWith _
  | get name primaryKey => exact read_failsWith
  | find name condition => exact query_failsWith
  | insert name document generated =>
      exact .map (write_failsWith fun _ => WorkingCollection.insert_failsWith) _
  | upsert name document generated =>
      exact .map (write_failsWith fun _ => WorkingCollection.insert_failsWith) _
  | update name primaryKey patch =>
      exact .map (write_failsWith fun _ => WorkingCollection.update_failsWith) _
  | delete name primaryKey =>
      exact .map (write_failsWith fun _ => WorkingCollection.delete_failsWith) _

end Transaction

/-! ### The committed root -/

/-- A check that fails is a broken invariant. -/
theorem require_failsWith {condition : Prop} [Decidable condition] {message : JsString} :
    FailsWith NewtonError.IsOpen (require condition message) := by
  unfold require
  exact .ite (.ok _) (.error nofun)

/-- The check of positions throws broken invariants only.  The message is that a position is
missing, or that the positions are unordered. -/
theorem checkPositions_failsWith {name : JsString} {collection : StoredCollection}
    {previousKey : Option JsString} {order : List JsString} :
    FailsWith NewtonError.IsOpen (checkPositions name collection previousKey order) := by
  induction order generalizing previousKey with
  | nil => exact .ok _
  | cons key rest ih =>
      refine .bind ?_ fun _ _ => ih
      unfold checkPosition
      split
      · exact .error nofun
      · split
        · exact .ok _
        · exact require_failsWith

/-- The check of a record throws broken invariants, or an error of its key. -/
theorem checkRecord_failsWith {name : JsString} {collection : StoredCollection}
    {record : JsString × JsonObject} :
    FailsWith NewtonError.IsOpen (checkRecord name collection record) :=
  .ite (.error nofun) (.bind (documentKey_failsWith _ _) fun _ _ =>
    .bind (encodeKey_failsWith _) fun _ _ => .ite (.error nofun) (.ok _))

/-- The check of an index throws broken invariants, or an error of a value.  The buckets are
built anew from the records, and that may fail as it did the first time. -/
theorem checkIndexState_failsWith {name : JsString} {collection : StoredCollection}
    {index : SecondaryIndexState StoredBuckets} :
    FailsWith NewtonError.IsOpen (checkIndexState name collection index) := by
  refine .bind (.foldlM fun expected record _ => .bind indexValue_failsWith fun value _ => ?_)
    fun _ _ => .bind require_failsWith fun _ _ => .forM fun entry _ => ?_
  · cases value with
    | none => exact .ok _
    | some encoded => exact .ok _
  · unfold checkBucket
    split
    · exact .error nofun
    · exact .ite (.error nofun) (.ok _)

/-- **The check of all collections throws no `ClosedError`.**  Only the checks of a collection
can throw. -/
theorem verifyCollections_failsWith {collections : OrderedMap JsString StoredCollection} :
    FailsWith NewtonError.IsOpen (verifyCollections collections) :=
  .forM fun _ _ => .bind require_failsWith fun _ _ => .bind require_failsWith fun _ _ =>
    .bind require_failsWith fun _ _ => .bind checkPositions_failsWith fun _ _ =>
    .bind (.forM fun _ _ => checkRecord_failsWith) fun _ _ =>
      .forM fun _ _ => checkIndexState_failsWith

/-- To look for conflicts throws what an unknown collection does. -/
theorem conflictsOf_failsWith {root : Root} {entries : List (JsString × ℕ)} :
    FailsWith NewtonError.IsOpen (conflictsOf root entries) := by
  induction entries with
  | nil => exact .ok _
  | cons entry rest ih =>
      exact .bind Root.stored_failsWith fun _ _ => .bind ih fun _ _ => .ok _

/-- **A commit on a root throws no `ClosedError`**: conflicts, and what the check of the
collections throws. -/
theorem Root.commit_failsWith {root : Root} {options : CommitOptions} {t : Transaction} :
    FailsWith NewtonError.IsOpen (root.commit options t) := by
  refine .bind conflictsOf_failsWith fun conflicts _ => ?_
  cases conflicts with
  | cons name rest => exact .error nofun
  | nil =>
      refine .ite (.ok _) ?_
      unfold Root.publish
      dsimp only
      split
      · next error herror =>
        exact .error (FailsWith.ite verifyCollections_failsWith (.ok _) error herror)
      · exact .ok _

/-- To collect documents throws an error of the limit of results, if any.  The loop stops
with it when the documents found are too many. -/
theorem StoredCollection.collectDocuments_failsWith {collection : StoredCollection}
    {test : JsonObject → Bool} {options : QueryOptions} {keys : List JsString} {matched : ℕ}
    {documents : List JsonObject} :
    FailsWith NewtonError.IsOpen
      (collection.collectDocuments test options keys matched documents) := by
  induction keys generalizing matched documents with
  | nil => exact .ok _
  | cons key rest ih =>
      unfold collectDocuments
      split
      · exact ih
      · exact .ite ih (.ite (.error nofun) (.ite (.ok _) ih))

/-- **How a query fails.**  The condition may be refused, and too many candidates are.  None of
it is about the lifecycle, which `_query` has checked before. -/
theorem Root.query_failsWith {root : Root} {name : JsString} {condition : JsInput}
    {options : QueryOptions} :
    FailsWith NewtonError.IsOpen (root.query name condition options) := by
  refine .bind Root.stored_failsWith fun collection _ =>
    .bind (compileWhere_failsWith _) fun compiled _ =>
      .ite (.ok _) (.ite (.error nofun) (.map ?_ _))
  split
  · exact StoredCollection.collectDocuments_failsWith
  · exact .ite (.error nofun) (.ite (.error nofun) (.ok _))

end NewtonDB
