/-
# What a store takes

When a document, a patch or a generated key is valid, said about plain data.  A document is
read from what the caller passes (`JsGraph.document?`); it is valid when it is within the
limits of the schema, its validator returns and it has a key (`CollectionSchema.isValid`).
A patch is laid over a document property by property (`JsInput.overlay`).

The engine checks the same by walking over what was passed, merged with what is stored.
**It accepts what is valid and nothing else**: `validateDocument_eq_ok_iff` for documents,
`prepareInsert_eq_prepare` for inserts and `patchDocument_eq_overlay` for updates.
-/

import NewtonDB.DocumentTrees
import NewtonDB.Engine.Write
import NewtonDB.Js.PropertyOrder
import NewtonDB.Store.StoreKey

namespace NewtonDB

/-! ### Limits -/

namespace Json

variable (limit : ℕ)

mutual

/-- Whether a tree has a string or a name that is too long can be decided. -/
def decideStrings : (j : Json) → Decidable (j.StringsWithin limit)
  | .prim .null => .isTrue trivial
  | .prim (.bool _) => .isTrue trivial
  | .prim (.number _) => .isTrue trivial
  | .prim (.string s) => inferInstanceAs (Decidable (utf8Length s ≤ limit))
  | .arr items => decideStringsItems items
  | .obj props => decideStringsProps props

/-- Whether one of the items has. -/
def decideStringsItems : (items : List Json) → Decidable (StringsWithinItems limit items)
  | [] => .isTrue trivial
  | j :: rest => @instDecidableAnd _ _ (decideStrings j) (decideStringsItems rest)

/-- Whether one of the members has. -/
def decideStringsProps : (props : List (JsString × Json)) →
    Decidable (StringsWithinProps limit props)
  | [] => .isTrue trivial
  | (name, j) :: rest => @instDecidableAnd _ _ (inferInstanceAs (Decidable (utf8Length name ≤ limit)))
      (@instDecidableAnd _ _ (decideStrings j) (decideStringsProps rest))

end

end Json

instance (limits : JsonLimits) (j : Json) : Decidable (j.Within limits) :=
  have := Json.decideStrings limits.maxStringBytes j
  decidable_of_iff (j.nodes ≤ limits.maxNodes ∧ j.height ≤ limits.maxDepth ∧
      j.StringsWithin limits.maxStringBytes ∧ utf8Length j.stringify ≤ limits.maxDocumentBytes)
    ⟨fun h => ⟨h.1, h.2.1, h.2.2.1, h.2.2.2⟩, fun h => ⟨h.1, h.2, h.3, h.4⟩⟩

/-! ### Validity -/

namespace CollectionSchema

variable (schema : CollectionSchema)

/-- A document is within the limits of the schema. -/
def fits (document : JsonObject) : Bool :=
  (resolvedLimits schema).toOption.any fun limits => (Json.obj document).Within limits

/-- **A valid document**: within the limits, accepted by the validator, and with a key. -/
def isValid (document : JsonObject) : Bool :=
  schema.fits document && schema.validate.all (· document) && (keyOf schema document).isSome

/-- The document with the key that is made up for it when it has none. -/
def withKey (document : JsonObject) (generated : GeneratorOutcome) : Option JsonObject :=
  if hasOwn document schema.primaryKey || schema.generatePrimaryKey.isNone then some document
  else
    match generated with
    | .string key =>
        if key = [] then none
        else some (defineProperty document schema.primaryKey (.prim (.string key)))
    | _ => none

/-- What an insert writes: the document that is read, with its key. -/
def prepare (input : JsInput) (generated : GeneratorOutcome) :
    Option (JsonObject × PrimaryKey) := do
  let document ← (input.heap.graph.document? input.value).filter schema.fits
  let document ← (schema.withKey document generated).filter schema.isValid
  let primaryKey ← Assoc.get? document schema.primaryKey >>= Json.primaryKey?
  return (document, primaryKey)

end CollectionSchema

/-- **A patch laid over a document**: its own properties, which have to be data properties,
are defined over those of the document, and all of them have to be plain data. -/
def JsInput.overlay (patch : JsInput) (document : JsonObject) : Option JsonObject :=
  match patch.heap.graph.view patch.value with
  | .object true _ slots => do
      let own ← slots.mapM fun slot => slot.2.data?.map (slot.1, ·)
      let read := own.map fun p =>
        (p.1, patch.heap.graph.tree? defaultJsonLimits.maxDepth p.2)
      let merged := read.foldl (fun output p => defineProperty output p.1 p.2)
        (document.foldl (fun output p => defineProperty output p.1 (some p.2)) [])
      merged.mapM fun p => p.2.map (p.1, ·)
  | _ => none

/-! ### Documents of the engine -/

/-- The limits of a schema are allowed.  Each was resolved against its default, which is the
largest there may be. -/
theorem allowed_of_resolvedLimits {schema : CollectionSchema} {limits : JsonLimits}
    (h : resolvedLimits schema = .ok limits) : limits.Allowed := by
  unfold resolvedLimits at h
  obtain ⟨maxDepth, hdepth, h⟩ := bind_eq_ok.1 h
  obtain ⟨maxDocumentBytes, hbytes, h⟩ := bind_eq_ok.1 h
  obtain ⟨maxNodes, hnodes, h⟩ := bind_eq_ok.1 h
  obtain ⟨maxStringBytes, hstrings, h⟩ := bind_eq_ok.1 h
  obtain rfl := Except.ok.inj h
  exact ⟨resolveLimit_bounds (by decide) hdepth, resolveLimit_bounds (by decide) hbytes,
    resolveLimit_bounds (by decide) hnodes, resolveLimit_bounds (by decide) hstrings⟩

/-- The key of a document, where it has a valid one.  The property holds a string or a number,
and that has an encoding. -/
theorem documentKey_eq_ok_iff {schema : CollectionSchema} {document : JsonObject}
    {k : PrimaryKey} : documentKey document schema = .ok k ↔
      (Assoc.get? document schema.primaryKey >>= Json.primaryKey?) = some k ∧
        k.toKey?.isSome := by
  unfold documentKey
  cases Assoc.get? document schema.primaryKey >>= Json.primaryKey? with
  | none => simp
  | some value =>
      rw [bind_eq_ok]
      simp only [encodeKey_eq_ok_iff, Option.some.injEq, Option.isSome_iff_exists]
      constructor
      · rintro ⟨text, ⟨key, hkey, -⟩, hk⟩
        obtain rfl := Except.ok.inj hk
        exact ⟨rfl, key, hkey⟩
      · rintro ⟨rfl, key, hkey⟩
        exact ⟨_, ⟨key, hkey, rfl⟩, rfl⟩

/-- The store finds a key in a document exactly when the engine takes one from it. -/
theorem keyOf_isSome_iff {schema : CollectionSchema} {document : JsonObject} :
    (keyOf schema document).isSome ↔ ∃ k, documentKey document schema = .ok k := by
  simp only [documentKey_eq_ok_iff, keyOf]
  cases Assoc.get? document schema.primaryKey >>= Json.primaryKey? with
  | none => simp
  | some k => simp

/-- A validator passes exactly what its predicate holds of. -/
theorem runValidator_eq_ok_iff {name : JsString} {schema : CollectionSchema}
    {document : JsonObject} {u : Unit} :
    runValidator name document schema = .ok u ↔ schema.validate.all (· document) = true := by
  unfold runValidator
  cases schema.validate with
  | none => simp
  | some validate => cases h : validate document <;> simp [h]

section

variable {σ : Type} [DecidableEq σ] {graph : JsGraph σ}

/-- A value is copied, under the limits of a schema.  What is copied is the tree that is read,
when it fits the limits. -/
theorem cloneAndFreeze_eq_ok_iff {schema : CollectionSchema} {input : σ} {d : JsonObject} :
    (resolvedLimits schema >>= fun limits => cloneAndFreezeJsonObject graph limits input) = .ok d ↔
      graph.document? input = some d ∧ schema.fits d = true := by
  unfold CollectionSchema.fits
  rw [bind_eq_ok]
  cases hlimits : resolvedLimits schema with
  | error e => simp [Except.toOption]
  | ok limits =>
      have hallowed := allowed_of_resolvedLimits hlimits
      simp [Except.toOption, JsGraph.cloneAndFreezeJsonObject_eq_ok_document, hallowed]

/-- **What `validateDocument` accepts is what is read and valid.**  What is read is within the
limits of documents, and valid under the schema. -/
theorem validateDocument_eq_ok_iff {name : JsString} {schema : CollectionSchema} {input : σ}
    {d : JsonObject} : validateDocument name graph input schema = .ok d ↔
      graph.document? input = some d ∧ schema.isValid d = true := by
  unfold validateDocument CollectionSchema.isValid
  rw [Bool.and_eq_true, Bool.and_eq_true]
  constructor
  · intro h
    obtain ⟨limits, hlimits, h⟩ := bind_eq_ok.1 h
    obtain ⟨cloned, hcloned, h⟩ := bind_eq_ok.1 h
    obtain ⟨_, hvalid, h⟩ := bind_eq_ok.1 h
    obtain ⟨k, hkey, h⟩ := bind_eq_ok.1 h
    obtain rfl := Except.ok.inj h
    obtain ⟨hread, hfits⟩ := cloneAndFreeze_eq_ok_iff.1 (bind_eq_ok.2 ⟨limits, hlimits, hcloned⟩)
    exact ⟨hread, ⟨hfits, runValidator_eq_ok_iff.1 hvalid⟩, keyOf_isSome_iff.2 ⟨k, hkey⟩⟩
  · rintro ⟨hread, ⟨hfits, hvalid⟩, hkey⟩
    obtain ⟨limits, hlimits, hcloned⟩ := bind_eq_ok.1 (cloneAndFreeze_eq_ok_iff.2 ⟨hread, hfits⟩)
    obtain ⟨k, hkey⟩ := keyOf_isSome_iff.1 hkey
    exact bind_eq_ok.2 ⟨limits, hlimits, bind_eq_ok.2 ⟨d, hcloned,
      bind_eq_ok.2 ⟨⟨⟩, runValidator_eq_ok_iff.2 hvalid, bind_eq_ok.2 ⟨k, hkey, rfl⟩⟩⟩⟩

end

/-- A document that is within the limits is not too high to be read.  Its own limit on the depth
is at most the default one. -/
theorem CollectionSchema.height_of_isValid {schema : CollectionSchema} {d : JsonObject}
    (h : schema.isValid d = true) : (Json.obj d).height ≤ defaultJsonLimits.maxDepth := by
  unfold isValid fits at h
  rw [Bool.and_eq_true, Bool.and_eq_true] at h
  obtain ⟨⟨hfits, -⟩, -⟩ := h
  cases hlimits : resolvedLimits schema with
  | error e =>
      rw [hlimits] at hfits
      cases hfits
  | ok limits =>
      rw [hlimits] at hfits
      have hwithin : (Json.obj d).Within limits := of_decide_eq_true hfits
      exact hwithin.height_le.trans (allowed_of_resolvedLimits hlimits).maxDepth.2

/-- A valid document is read as it is. -/
theorem CollectionSchema.document?_of_isValid {schema : CollectionSchema} {d : JsonObject}
    (h : schema.isValid d = true) : Json.graph.document? (.obj d) = some d :=
  JsGraph.document?_eq_some_iff.2 ⟨height_of_isValid h, (Json.denotes_graph (.obj d)).forced⟩

/-- **A document of the engine is accepted as it is**, when it is valid.  It is a tree already,
and reading it gives the same tree. -/
theorem validateDocument_graph_eq_ok_iff (name : JsString) {schema : CollectionSchema}
    {document d : JsonObject} : validateDocument name Json.graph (.obj document) schema = .ok d ↔
      d = document ∧ schema.isValid d = true := by
  rw [validateDocument_eq_ok_iff]
  constructor
  · rintro ⟨hread, hvalid⟩
    obtain ⟨-, hdenotes⟩ := JsGraph.document?_eq_some_iff.1 hread
    have hplain := (Json.denotes_graph (.obj document)).forced
    exact ⟨Json.obj.inj (JsGraph.denotes_unique hdenotes hplain), hvalid⟩
  · rintro ⟨rfl, hvalid⟩
    exact ⟨CollectionSchema.document?_of_isValid hvalid, hvalid⟩

/-! ### Inserts -/

/-- **The document an insert goes on with** is the one that is read, with its key.  A key is
generated where the document has none, and must be one. -/
theorem materializePrimaryKey_eq_ok_iff (name : JsString) {schema : CollectionSchema}
    {input : JsInput} {generated : GeneratorOutcome} {document : JsonObject} :
    (∃ key, materializePrimaryKey name input schema generated = .ok (document, key)) ↔
      ∃ cloned, (input.heap.graph.document? input.value = some cloned ∧
        schema.fits cloned = true) ∧ schema.withKey cloned generated = some document := by
  -- the copy comes first; what is left is the key of a document that was copied
  have hclone : ∀ {P : JsonObject → Prop}, (∃ limits, resolvedLimits schema = .ok limits ∧
      ∃ cloned, input.cloneAndFreeze limits = .ok cloned ∧ P cloned) ↔
        ∃ cloned, (input.heap.graph.document? input.value = some cloned ∧
          schema.fits cloned = true) ∧ P cloned := by
    intro P
    simp only [← cloneAndFreeze_eq_ok_iff, bind_eq_ok]
    constructor
    · rintro ⟨limits, hlimits, cloned, hcloned, h⟩
      exact ⟨cloned, ⟨limits, hlimits, hcloned⟩, h⟩
    · rintro ⟨cloned, ⟨limits, hlimits, hcloned⟩, h⟩
      exact ⟨limits, hlimits, cloned, hcloned, h⟩
  unfold materializePrimaryKey
  simp only [bind_eq_ok, hclone]
  rw [exists_comm]
  refine exists_congr fun cloned => exists_and_left.trans (and_congr_right fun _ => ?_)
  unfold CollectionSchema.withKey
  cases hown : hasOwn cloned schema.primaryKey with
  | true => simp
  | false =>
      cases hgenerator : schema.generatePrimaryKey with
      | none => simp
      | some generator =>
          cases generated with
          | other => simp
          | throws => simp
          | string made =>
              by_cases hmade : made = []
              · simp [hmade]
              · have hencoded : ∃ text, encodeKey (.string made) = .ok text :=
                  ⟨_, encodeKey_eq_ok_iff.2 ⟨.string made (by simpa using hmade),
                    by simp [PrimaryKey.toKey?, hmade], rfl⟩⟩
                obtain ⟨text, htext⟩ := hencoded
                simp [hmade, htext, bind, Except.bind]

/-- **What the store makes of an input**: a document that fits, is given its key where it has
none, and is valid. -/
theorem CollectionSchema.prepare_eq_some {schema : CollectionSchema} {input : JsInput}
    {generated : GeneratorOutcome} {document : JsonObject} {primaryKey : PrimaryKey} :
    schema.prepare input generated = some (document, primaryKey) ↔
      (∃ cloned, (input.heap.graph.document? input.value = some cloned ∧
        schema.fits cloned = true) ∧ schema.withKey cloned generated = some document) ∧
      schema.isValid document = true ∧
      (Assoc.get? document schema.primaryKey >>= Json.primaryKey?) = some primaryKey := by
  unfold prepare
  simp only [Option.bind_eq_bind, Option.bind_eq_some_iff, Option.filter_eq_some_iff]
  constructor
  · rintro ⟨cloned, hcloned, d, ⟨hkey, hvalid⟩, k, hk, hpair⟩
    obtain ⟨rfl, rfl⟩ := Prod.mk.inj (Option.some.inj hpair)
    exact ⟨⟨cloned, hcloned, hkey⟩, hvalid, hk⟩
  · rintro ⟨⟨cloned, hcloned, hkey⟩, hvalid, hk⟩
    exact ⟨cloned, hcloned, document, ⟨hkey, hvalid⟩, primaryKey, hk, rfl⟩

/-- **What `prepareInsert` accepts is what an insert of the store writes.**  It
walks over what it read a second time, with the key; the store reads once and looks at the
result. -/
theorem prepareInsert_eq_prepare (name : JsString) (input : JsInput) (schema : CollectionSchema)
    (generated : GeneratorOutcome) :
    (prepareInsert name input schema generated).toOption.map
        (fun p => (p.document, p.primaryKey)) = schema.prepare input generated := by
  refine Option.ext fun ⟨document, primaryKey⟩ => ?_
  rw [CollectionSchema.prepare_eq_some, ← materializePrimaryKey_eq_ok_iff name,
    Option.map_eq_some_iff]
  constructor
  · rintro ⟨p, hp, hpair⟩
    have hp := eq_ok_of_toOption hp
    unfold prepareInsert at hp
    obtain ⟨⟨cloned, key⟩, hcloned, hp⟩ := bind_eq_ok.1 hp
    obtain ⟨d, hvalidated, hp⟩ := bind_eq_ok.1 hp
    obtain ⟨k, hk, hp⟩ := bind_eq_ok.1 hp
    obtain ⟨text, -, hp⟩ := bind_eq_ok.1 hp
    obtain rfl := Except.ok.inj hp
    obtain ⟨rfl, rfl⟩ := Prod.mk.inj hpair
    obtain ⟨rfl, hvalid⟩ := (validateDocument_graph_eq_ok_iff name).1 hvalidated
    exact ⟨⟨key, hcloned⟩, hvalid, (documentKey_eq_ok_iff.1 hk).1⟩
  · rintro ⟨⟨key, hcloned⟩, hvalid, hk⟩
    have hvalidated := (validateDocument_graph_eq_ok_iff name).2 ⟨rfl, hvalid⟩
    obtain ⟨k, hkey⟩ := documentKey_of_validateDocument hvalidated
    obtain rfl := Option.some.inj (hk.symm.trans (documentKey_eq_ok_iff.1 hkey).1)
    obtain ⟨text, htext⟩ := encodeKey_of_documentKey hkey
    refine ⟨⟨document, primaryKey, text, key⟩, ?_, rfl⟩
    have hp : prepareInsert name input schema generated = .ok ⟨document, primaryKey, text, key⟩ :=
      bind_eq_ok.2 ⟨_, hcloned, bind_eq_ok.2 ⟨_, hvalidated, bind_eq_ok.2 ⟨_, hkey,
        bind_eq_ok.2 ⟨_, htext, rfl⟩⟩⟩⟩
    rw [hp]
    rfl

/-! ### Updates -/

/-- The data properties of an object, when it has no others.  An accessor or a hole among the
slots makes it fail. -/
theorem mapM_data?_own {σ : Type} {slots : List (JsString × Slot σ)} {own : List (JsString × σ)} :
    slots.mapM (fun slot => slot.2.data?.map (slot.1, ·)) = some own ↔
      slots = own.map fun p => (p.1, .data p.2) := by
  rw [mapM_eq_some]
  induction own generalizing slots with
  | nil => rw [List.forall₂_nil_right_iff, List.map_nil]
  | cons p own ih =>
      rw [List.forall₂_cons_right_iff, List.map_cons]
      constructor
      · rintro ⟨slot, rest, hslot, hrest, rfl⟩
        obtain ⟨value, hvalue, rfl⟩ := Option.map_eq_some_iff.1 hslot
        rw [← ih.1 hrest, ← Slot.data?_eq_some.1 hvalue]
      · rintro rfl
        exact ⟨_, _, rfl, ih.2 rfl, rfl⟩

/-- **The loop over a patch** goes through when all its properties are data properties.  By
induction on the properties: each is defined on what the ones before it left. -/
theorem foldlM_mergeSlot_eq_ok : ∀ {slots : List (JsString × Slot JsValue)}
    {output candidate : List (JsString × MergedValue)},
    slots.foldlM mergeSlot output = .ok candidate ↔
      ∃ own : List (JsString × JsValue), slots = own.map (fun p => (p.1, .data p.2)) ∧
        candidate = own.foldl (fun output p => defineProperty output p.1 (.patched p.2)) output
  | [], output, candidate => by
      constructor
      · intro h
        exact ⟨[], rfl, (Except.ok.inj h).symm⟩
      · rintro ⟨own, hown, rfl⟩
        obtain rfl := List.map_eq_nil_iff.1 hown.symm
        rfl
  | (name, slot) :: rest, output, candidate => by
      rw [List.foldlM_cons, bind_eq_ok]
      constructor
      · rintro ⟨next, hnext, h⟩
        obtain ⟨own, rfl, rfl⟩ := foldlM_mergeSlot_eq_ok.1 h
        cases slot with
        | accessor outcome => cases hnext
        | hole => cases hnext
        | data value =>
            obtain rfl := Except.ok.inj hnext
            exact ⟨(name, value) :: own, rfl, rfl⟩
      · rintro ⟨own, hown, rfl⟩
        cases own with
        | nil => cases hown
        | cons p own =>
            obtain ⟨hp, rfl⟩ := List.cons.inj hown
            obtain ⟨rfl, rfl⟩ := Prod.mk.inj hp
            exact ⟨_, rfl, foldlM_mergeSlot_eq_ok.2 ⟨own, rfl, rfl⟩⟩

/-- What is read from a slot, with its values changed, is what was read, changed. -/
theorem Slot.read?_map {σ τ : Type} (f : σ → τ) (slot : Slot σ) :
    (slot.map f).read? = slot.read?.map f := by
  cases slot <;> rfl

/-- The value of a data property, with the values changed, is that value, changed. -/
theorem Slot.data?_map {σ τ : Type} (f : σ → τ) (slot : Slot σ) :
    (slot.map f).data? = slot.data?.map f := by
  cases slot <;> rfl

/-- A population under a renaming is read as it is.  By induction on the levels; slots are
renamed one by one. -/
theorem JsGraph.tree?_map {σ τ : Type} {graph : JsGraph σ} {graph' : JsGraph τ} {f : σ → τ}
    (h : ∀ value, graph'.view (f value) = (graph.view value).map f) :
    ∀ (levels : ℕ) (value : σ), graph'.tree? levels (f value) = graph.tree? levels value
  | 0, _ => rfl
  | levels + 1, value => by
      have hrest : ∀ found : Option σ,
          (found.map f >>= graph'.tree? levels) = (found >>= graph.tree? levels) := by
        rintro (_ | item)
        · rfl
        · exact tree?_map h levels item
      unfold tree?
      rw [h]
      cases graph.view value with
      | array slots extras =>
          simp only [JsView.map, List.mapM_map, Function.comp_def, Slot.read?_map, hrest]
      | object plain symbols slots =>
          cases plain with
          | false => rfl
          | true =>
              cases symbols with
              | cons symbol rest => rfl
              | nil =>
                  simp only [JsView.map, List.map_nil, List.mapM_map, Function.comp_def,
                    Slot.data?_map, hrest]
      | number x => cases x <;> rfl
      | undefined | null | bool | string | unsupported => rfl

section

variable {heap : Heap} {candidate : List (JsString × MergedValue)}

/-- What a property of a merged document holds: a stored value as it is, any other as the
tree it is read as. -/
def MergedValue.held (heap : Heap) (candidate : List (JsString × MergedValue)) :
    MergedValue → Option Json
  | .stored value => some value
  | .patched value => heap.graph.tree? defaultJsonLimits.maxDepth value
  | .candidate => (mergedGraph heap candidate).tree? defaultJsonLimits.maxDepth .candidate

/-- What is read of a property is what it holds, if that is not too high.  A value of the
document is plain data, and one of the patch is read on its heap. -/
theorem MergedValue.tree?_eq_some_iff {value : MergedValue} {j : Json} :
    (mergedGraph heap candidate).tree? defaultJsonLimits.maxDepth value = some j ↔
      j.height < defaultJsonLimits.maxDepth ∧ value.held heap candidate = some j := by
  have hread : ∀ {σ : Type} {graph : JsGraph σ} {v : σ},
      graph.tree? defaultJsonLimits.maxDepth v = some j ↔ j.height < defaultJsonLimits.maxDepth ∧
        graph.tree? defaultJsonLimits.maxDepth v = some j := fun {_ _ _} =>
    (and_iff_right_of_imp fun h => (JsGraph.tree?_eq_some_iff.1 h).1).symm
  cases value with
  | candidate => exact hread
  | patched w =>
      have hsame : (mergedGraph heap candidate).tree? defaultJsonLimits.maxDepth (.patched w) =
          heap.graph.tree? defaultJsonLimits.maxDepth w := JsGraph.tree?_map (fun _ => rfl) _ w
      rw [hsame]
      exact hread
  | stored k =>
      have hsame : (mergedGraph heap candidate).tree? defaultJsonLimits.maxDepth (.stored k) =
          Json.graph.tree? defaultJsonLimits.maxDepth k := JsGraph.tree?_map (fun _ => rfl) _ k
      rw [hsame, JsGraph.tree?_eq_some_iff]
      refine and_congr_right fun _ => ?_
      have hplain := (Json.denotes_graph k).forced
      constructor
      · intro h
        exact congrArg some (JsGraph.denotes_unique hplain h)
      · intro h
        exact Option.some.inj h ▸ hplain

/-- **The merged document is read as what its properties hold.**  What comes from the document
before is a tree, and what comes from the patch is read on its heap. -/
theorem mergedGraph_document?_eq_some {d : JsonObject}
    (hheight : (Json.obj d).height ≤ defaultJsonLimits.maxDepth) :
    (mergedGraph heap candidate).document? .candidate = some d ↔
      (candidate.map (Prod.map id (MergedValue.held heap candidate))).mapM
        (fun p => p.2.map (p.1, ·)) = some d := by
  have htree : (mergedGraph heap candidate).document? .candidate = some d ↔
      (candidate.mapM fun p =>
        ((mergedGraph heap candidate).tree? defaultJsonLimits.maxDepth p.2).map (p.1, ·)) =
          some d := by
    rw [JsGraph.document?_eq_some]
    unfold JsGraph.tree?
    show Option.map Json.obj ((candidate.map fun p => (p.1, Slot.data p.2)).mapM _) = _ ↔ _
    rw [List.mapM_map, Option.map_eq_some_iff]
    constructor
    · rintro ⟨props, h, hd⟩
      exact Json.obj.inj hd ▸ h
    · exact fun h => ⟨d, h, rfl⟩
  have hprops := Json.heightProps_le.1 (hheight : Json.heightProps d ≤ _)
  rw [htree, List.mapM_map, mapM_eq_some, mapM_eq_some]
  constructor
  · refine List.Forall₂.imp fun p q h => ?_
    obtain ⟨j, hj, rfl⟩ := Option.map_eq_some_iff.1 h
    exact Option.map_eq_some_iff.2 ⟨j, (MergedValue.tree?_eq_some_iff.1 hj).2, rfl⟩
  · intro h
    refine (forall₂_and_right.2 ⟨hprops, h⟩).imp fun p q hpq => ?_
    obtain ⟨hlt, h⟩ := hpq
    obtain ⟨j, hj, rfl⟩ := Option.map_eq_some_iff.1 h
    exact Option.map_eq_some_iff.2 ⟨j, MergedValue.tree?_eq_some_iff.2 ⟨hlt, hj⟩, rfl⟩

end

/-- What an update merges, when the patch is an object with data properties only.  The
properties of the document come first, and those of the patch replace them or follow. -/
theorem mergeDocument_eq_ok_iff {before : JsonObject} {patch : JsInput}
    {candidate : List (JsString × MergedValue)} :
    mergeDocument before patch = .ok candidate ↔ ∃ symbols, ∃ own : List (JsString × JsValue),
      patch.heap.graph.view patch.value =
        .object true symbols (own.map fun p => (p.1, .data p.2)) ∧
      candidate = own.foldl (fun output p => defineProperty output p.1 (.patched p.2))
        (before.foldl (fun output p => defineProperty output p.1 (.stored p.2)) []) := by
  unfold mergeDocument
  cases patch.heap.graph.view patch.value with
  | object plain symbols slots =>
      cases plain with
      | false => simp
      | true =>
          rw [foldlM_mergeSlot_eq_ok]
          constructor
          · rintro ⟨own, rfl, rfl⟩
            exact ⟨symbols, own, rfl, rfl⟩
          · rintro ⟨_, own, hview, rfl⟩
            obtain ⟨-, -, rfl⟩ := JsView.object.inj hview
            exact ⟨own, rfl, rfl⟩
  | array | undefined | null | bool | number | string | unsupported => simp

/-- What a patch laid over a document gives.  Each value of the patch must be a tree, and so the
result is one. -/
theorem overlay_eq_some_iff {before : JsonObject} {patch : JsInput} {d : JsonObject} :
    patch.overlay before = some d ↔ ∃ symbols, ∃ own : List (JsString × JsValue),
      patch.heap.graph.view patch.value =
        .object true symbols (own.map fun p => (p.1, .data p.2)) ∧
      ((own.map fun p => (p.1, patch.heap.graph.tree? defaultJsonLimits.maxDepth p.2)).foldl
        (fun output p => defineProperty output p.1 p.2)
        (before.foldl (fun output p => defineProperty output p.1 (some p.2)) [])).mapM
          (fun p => p.2.map (p.1, ·)) = some d := by
  unfold JsInput.overlay
  cases patch.heap.graph.view patch.value with
  | object plain symbols slots =>
      cases plain with
      | false => simp
      | true =>
          simp only [Option.bind_eq_bind, Option.bind_eq_some_iff, mapM_data?_own]
          constructor
          · rintro ⟨own, rfl, h⟩
            exact ⟨symbols, own, rfl, h⟩
          · rintro ⟨_, own, hview, h⟩
            obtain ⟨-, -, rfl⟩ := JsView.object.inj hview
            exact ⟨own, rfl, h⟩
  | array | undefined | null | bool | number | string | unsupported => simp

/-- **What an update of the engine accepts is the patch laid over the document, if that is
valid.** -/
theorem patchDocument_eq_overlay (name : JsString) (before : JsonObject) (patch : JsInput)
    (schema : CollectionSchema) : (patchDocument name before patch schema).toOption =
      (patch.overlay before).filter schema.isValid := by
  -- what is merged holds what is laid over the document
  have hheld : ∀ (own : List (JsString × JsValue)) candidate,
      (own.map fun p => (p.1, patch.heap.graph.tree? defaultJsonLimits.maxDepth p.2)).foldl
        (fun output p => defineProperty output p.1 p.2)
        (before.foldl (fun output p => defineProperty output p.1 (some p.2)) []) =
      (own.foldl (fun output p => defineProperty output p.1 (.patched p.2))
        (before.foldl (fun output p => defineProperty output p.1 (.stored p.2)) [])).map
          (Prod.map id (MergedValue.held patch.heap candidate)) := by
    intro own candidate
    have hown := map_foldl_defineProperty (MergedValue.held patch.heap candidate)
      (own.map fun p => (p.1, .patched p.2))
      (before.foldl (fun output p => defineProperty output p.1 (.stored p.2)) [])
    have hbefore := map_foldl_defineProperty (MergedValue.held patch.heap candidate)
      (before.map fun p => (p.1, .stored p.2)) []
    simp only [List.foldl_map, List.map_map] at hown hbefore
    rw [hown, hbefore]
    simp only [List.foldl_map]
    rfl
  refine Option.ext fun d => ?_
  rw [Option.filter_eq_some_iff, overlay_eq_some_iff]
  constructor
  · intro h
    obtain ⟨candidate, hmerge, hvalid⟩ := bind_eq_ok.1 (eq_ok_of_toOption h)
    obtain ⟨symbols, own, hview, rfl⟩ := mergeDocument_eq_ok_iff.1 hmerge
    obtain ⟨hread, hvalid⟩ := validateDocument_eq_ok_iff.1 hvalid
    have hheight := CollectionSchema.height_of_isValid hvalid
    exact ⟨⟨symbols, own, hview, hheld own _ ▸ (mergedGraph_document?_eq_some hheight).1 hread⟩,
      hvalid⟩
  · rintro ⟨⟨symbols, own, hview, h⟩, hvalid⟩
    have hheight := CollectionSchema.height_of_isValid hvalid
    have hpatched : patchDocument name before patch schema = .ok d := by
      refine bind_eq_ok.2 ⟨_, mergeDocument_eq_ok_iff.2 ⟨symbols, own, hview, rfl⟩, ?_⟩
      refine validateDocument_eq_ok_iff.2 ⟨?_, hvalid⟩
      exact (mergedGraph_document?_eq_some hheight).2 (hheld own _ ▸ h)
    rw [hpatched]
    rfl

end NewtonDB
