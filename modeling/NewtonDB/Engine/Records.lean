/-
# What documents keep

A property of documents that everything a transaction writes has is a property of all
documents it sees and of all that are committed (`Root.Records.commit`,
`Transaction.records_call`).  Being valid as it is (`IsValid`) is one: whatever a write lets
in was validated, and a validated document is valid again.
-/

import NewtonDB.DocumentCopies
import NewtonDB.Engine.TransactionInvariant
import NewtonDB.Engine.Declarations

namespace NewtonDB

/-- A property of the documents of a collection. -/
abbrev DocumentProperty := JsString → CollectionSchema → JsonObject → Prop

/-- A document that passes the validation of its collection as it is. -/
def IsValid : DocumentProperty := fun name schema document =>
  validateDocument name Json.graph (.obj document) schema = .ok document

/-- All documents of a committed collection have a property. -/
def StoredCollection.Records (P : DocumentProperty) (name : JsString) (s : StoredCollection) :
    Prop :=
  ∀ key document, s.records.get key = some document → P name s.schema document

/-- A working collection has its invariant and all its documents a property. -/
def WorkingCollection.Records (P : DocumentProperty) (name : JsString) (w : WorkingCollection) :
    Prop :=
  w.Invariant ∧ ∀ key document, w.records.get key = some document → P name w.schema document

/-- All committed documents have a property. -/
def Root.Records (P : DocumentProperty) (root : Root) : Prop :=
  ∀ name s, root.collections.get? name = some s → s.Records P name

/-- What a call writes has a property. -/
def TransactionCall.Writes (P : DocumentProperty) : TransactionCall → Prop
  | .insert name document generated | .upsert name document generated => ∀ schema p,
      prepareInsert name document schema generated = .ok p → P name schema p.document
  | .update name primaryKey patch => ∀ schema before after, P name schema before →
      prepareUpdate name primaryKey before patch schema = .ok after → P name schema after
  | _ => True

variable {P : DocumentProperty} {root : Root} {name : JsString}

namespace WorkingCollection.Records

variable {w w' : WorkingCollection}

/-- A collection that is unchanged has the same records. -/
theorem unchanged (h : w.Records P name) (hu : Unchanged w w') : w'.Records P name := by
  refine ⟨hu.invariant, ?_⟩
  rw [hu.records, hu.schema]
  exact h.2

/-- A collection in which one document was put has good records when that document is good.  The
other records were good before. -/
theorem put {key : JsString} {document : JsonObject} (h : w.Records P name)
    (hput : Put key document w w') (hdocument : P name w.schema document) :
    w'.Records P name := by
  refine ⟨hput.invariant, ?_⟩
  rw [hput.records, hput.schema]
  intro key' document' hd
  rw [Function.update_apply] at hd
  split_ifs at hd
  · obtain rfl := Option.some.inj hd
    exact hdocument
  · exact h.2 key' document' hd

/-- A collection that lost a record has good records still.  What is left was good before. -/
theorem dropped {key : JsString} (h : w.Records P name) (hdrop : Dropped key w w') :
    w'.Records P name := by
  refine ⟨hdrop.invariant, ?_⟩
  rw [hdrop.records, hdrop.schema]
  intro key' document' hd
  rw [Function.update_apply] at hd
  split_ifs at hd
  exact h.2 key' document' hd

/-- **An insert keeps the records good** when what it may write is good.  What may be written
are documents that were prepared from the input. -/
theorem insert (h : w.Records P name) {input : JsInput} {upsert : Bool}
    {generated : GeneratorOutcome} (hwrites : ∀ schema p,
      prepareInsert name input schema generated = .ok p → P name schema p.document) :
    (w.insert name input upsert generated).1.Records P name := by
  rcases insert_spec h.1 name input upsert generated with
    ⟨error, -, hu, -⟩ | ⟨p, hp, -, -, -, hput, -⟩
  · exact h.unchanged hu
  · exact h.put hput (hwrites _ p hp)

/-- **An update keeps the records good** when it makes good documents of good ones.  The other
records are as they were. -/
theorem update (h : w.Records P name) {primaryKey : PrimaryKey} {patch : JsInput}
    (hwrites : ∀ schema before after, P name schema before →
      prepareUpdate name primaryKey before patch schema = .ok after → P name schema after) :
    (w.update name primaryKey patch).1.Records P name := by
  rcases update_spec h.1 name primaryKey patch with
    ⟨error, -, hu, -⟩ | ⟨key, before, after, -, hk, -, hp, -, hput, -⟩
  · exact h.unchanged hu
  · exact h.put hput (hwrites _ before after (h.2 key before hk) hp)

/-- **A delete keeps the records good.**  There are fewer records, and no other one. -/
theorem delete (h : w.Records P name) (primaryKey : PrimaryKey) :
    (w.delete name primaryKey).1.Records P name := by
  rcases delete_spec h.1 name primaryKey with
    ⟨error, -, hu, -⟩ | ⟨key, before, -, -, -, hdrop, -⟩
  · exact h.unchanged hu
  · exact h.dropped hdrop

end WorkingCollection.Records

/-! ### Transactions -/

/-- A clone of a collection of a root has the records of that collection. -/
theorem Root.Records.clone (hr : root.Invariant) (h : root.Records P) (s : StoredCollection)
    (hs : root.collections.get? name = some s) : s.clone.Records P name := by
  refine ⟨(hr name s hs).clone, fun key document hd => h name s hs key document ?_⟩
  rwa [StoredCollection.clone, OverlayMap.get_new] at hd

/-- **A call that writes what has a property** leaves only documents that have it.  The property
is asked of what the methods may write, given the documents of the root. -/
theorem Transaction.records_call {t : Transaction} {c : TransactionCall} (now : ℕ)
    (hr : root.Invariant) (hroot : root.Records P) (h : t.All (WorkingCollection.Records P))
    (hc : c.Writes P) : (t.call root now c).1.All (WorkingCollection.Records P) := by
  have hclone := fun name s (hs : root.collections.get? name = some s) => hroot.clone hr s hs
  cases c with
  | collection name => exact h
  | get name key =>
      rw [Transaction.call, read_fst]
      exact h.of_working (touchCollection_working ..)
  | find name condition =>
      rw [Transaction.call, query_fst]
      exact h.of_working (touchCollection_working ..)
  | insert name document generated => exact h.write hclone fun w hw => hw.insert hc
  | upsert name document generated => exact h.write hclone fun w hw => hw.insert hc
  | update name key patch => exact h.write hclone fun w hw => hw.update hc
  | delete name key => exact h.write hclone fun w hw => hw.delete key

/-- **A commit leaves only documents that have the property.**  Its collections are working ones
of the transaction or those of the root. -/
theorem Root.Records.commit {t : Transaction} {options : CommitOptions} {committed : Committed}
    (h : root.Records P) (ht : t.All (WorkingCollection.Records P))
    (hc : root.commit options t = .ok committed) : committed.root.Records P := by
  obtain ⟨-, he | he⟩ := commit_ok hc
  · rw [he]
    exact h
  · rw [he]
    intro name s hs
    rw [get?_publishAll] at hs
    cases hw : t.working.get? name with
    | some w =>
        rw [hw] at hs
        obtain rfl := Option.some.inj hs
        have hrecords := ht name w hw
        intro key document hd
        refine hrecords.2 key document ?_
        rwa [← OverlayMap.get_sealed hrecords.1.records_wf]
    | none =>
        rw [hw] at hs
        exact h name s hs

/-! ### The first root -/

section

variable {σ : Type} [DecidableEq σ] {graph : JsGraph σ} {schema : CollectionSchema}

/-- The documents of a seed are what was validated.  By induction on the seed; each document is
validated before it is filed. -/
theorem records_addAll (hseed : ∀ input document,
      validateDocument name graph input schema = .ok document → P name schema document) :
    ∀ {documents : List σ} {b b' : CollectionBuilder},
      (∀ key document, b.records.get? key = some document → P name schema document) →
      documents.foldlM (CollectionBuilder.add graph name schema) b = .ok b' →
        ∀ key document, b'.records.get? key = some document → P name schema document
  | [], b, b', hb, h => by
      rw [← Except.ok.inj h]
      exact hb
  | input :: rest, b, b', hb, h => by
      rw [List.foldlM_cons] at h
      obtain ⟨next, hn, h⟩ := bind_eq_ok.1 h
      refine records_addAll hseed ?_ h
      unfold CollectionBuilder.add at hn
      obtain ⟨document, hdocument, hn⟩ := bind_eq_ok.1 hn
      obtain ⟨key, -, hn⟩ := bind_eq_ok.1 hn
      obtain ⟨encoded, -, hn⟩ := bind_eq_ok.1 hn
      split_ifs at hn
      obtain ⟨indexes, -, hn⟩ := bind_eq_ok.1 hn
      rw [← Except.ok.inj hn]
      intro key' document' hd
      dsimp only at hd
      rw [OrderedMap.get?_set] at hd
      split_ifs at hd
      · obtain rfl := Option.some.inj hd
        exact hseed input document hdocument
      · exact hb key' document' hd

/-- **The documents of a first root are what was validated.**  Each was validated against the
schema of its collection. -/
theorem createRoot_records {schemas : List (JsString × CollectionSchema)}
    {seed : List (JsString × List σ)} {revision : ℕ} (hseed : ∀ name schema input document,
      validateDocument name graph input schema = .ok document → P name schema document)
    (h : createRoot graph seed schemas revision = .ok root) : root.Records P := by
  obtain ⟨collections, hc, h⟩ := bind_eq_ok.1 h
  obtain ⟨_, -, h⟩ := bind_eq_ok.1 h
  obtain ⟨_, -, h⟩ := bind_eq_ok.1 h
  rw [← Except.ok.inj h]
  intro name s hs
  rcases created_of_seed hc name s hs with hstart | ⟨documents, schema, -, -, hcreated⟩
  · cases hstart
  · obtain ⟨indexes, -, hcreated⟩ := bind_eq_ok.1 hcreated
    obtain ⟨builder, hb, hcreated⟩ := bind_eq_ok.1 hcreated
    rw [← Except.ok.inj hcreated]
    exact records_addAll (hseed name schema) (fun key document hd => by cases hd) hb

end

/-! ### Valid documents -/

/-- **Every call writes valid documents.**  Inserts and updates validate what they write,
against the schema of the collection. -/
theorem writes_isValid : ∀ c : TransactionCall, c.Writes IsValid := by
  intro c
  cases c with
  | insert name document generated | upsert name document generated =>
      intro schema p hp
      unfold prepareInsert at hp
      obtain ⟨⟨copy, generatedKey⟩, -, hp⟩ := bind_eq_ok.1 hp
      obtain ⟨validated, hvalid, hp⟩ := bind_eq_ok.1 hp
      obtain ⟨primaryKey, -, hp⟩ := bind_eq_ok.1 hp
      obtain ⟨encoded, -, hp⟩ := bind_eq_ok.1 hp
      obtain rfl := Except.ok.inj hp
      exact validateDocument_self hvalid
  | update name primaryKey patch =>
      intro schema before after _ ha
      obtain ⟨patched, hpatched, ha⟩ := bind_eq_ok.1 ha
      obtain ⟨-, -, ha⟩ := bind_eq_ok.1 ha
      obtain rfl := Except.ok.inj ha
      obtain ⟨candidate, -, hvalid⟩ := bind_eq_ok.1 hpatched
      exact validateDocument_self hvalid
  | _ => trivial

end NewtonDB
