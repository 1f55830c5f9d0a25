/-
# Reading back what was written

A snapshot file is read back exactly when the snapshot is an envelope that is accepted, and
the file has no more values and is nested no deeper than the scan allows
(`Platform.decodeSnapshot_serializeSnapshot`).  What is read is the snapshot, but for the
signs of zeros, which the text of a number does not have.
-/

import NewtonDB.Node.ScanWritten
import NewtonDB.Node.SnapshotFile
import NewtonDB.DocumentContract
import NewtonDB.Js.PropertyOrder
import NewtonDB.Js.JsonText

namespace NewtonDB

/-- **What `JSON.parse` does with what `JSON.stringify` wrote**, and white space behind it. -/
def ReadsFiles (parse : JsString → Option Json) : Prop :=
  ∀ (j : Json) (w : JsString), j.isData → IsBlank w → parse (j.stringify ++ w) = some j.unsigned

/-! ### Without the signs of zeros -/

namespace Json

/-- A string is read the same without the signs of zeros. -/
theorem string?_unsigned (j : Json) : j.unsigned.string? = j.string? := by
  rcases j with (_ | _ | _ | _) | _ | _ <;> rfl

/-- A boolean is read the same without the signs of zeros. -/
theorem bool?_unsigned (j : Json) : j.unsigned.bool? = j.bool? := by
  rcases j with (_ | _ | _ | _) | _ | _ <;> rfl

/-- A counter is read the same without the signs of zeros: no counter has one. -/
theorem index?_unsigned (j : Json) : j.unsigned.index? = j.index? := by
  rcases j with (_ | _ | (_ | _) | _) | _ | _ <;> rfl

/-- The items of an array are read without the signs of zeros. -/
theorem array?_unsigned (j : Json) : j.unsigned.array? = j.array?.map (List.map unsigned) := by
  rcases j with _ | items | _
  · rfl
  · exact congrArg some (unsignedItems_eq items)
  · rfl

/-- The properties of an object are read without the signs of zeros. -/
theorem object?_unsigned (j : Json) :
    j.unsigned.object? = j.object?.map (List.map (Prod.map id unsigned)) := by
  rcases j with _ | _ | props
  · rfl
  · rfl
  · exact congrArg some (unsignedProps_eq props)

/-- The value of a property is read without the signs of zeros.  Names are not changed, so the
same property is found. -/
theorem property?_unsigned (j : Json) (name : JsString) :
    j.unsigned.property? name = (j.property? name).map unsigned := by
  rcases j with _ | _ | props
  · rfl
  · rfl
  · show Assoc.get? (unsignedProps props) name = (Assoc.get? props name).map unsigned
    rw [unsignedProps_eq]
    induction props with
    | nil => rfl
    | cons p rest ih =>
        rw [List.map_cons, Assoc.get?, Assoc.get?, ih]
        split_ifs <;> rfl

variable (j : Json) (name : JsString)

/-- A property that is a string is read the same without the signs of zeros. -/
theorem string?_property :
    ((j.unsigned.property? name).bind string?) = (j.property? name).bind string? := by
  rw [property?_unsigned, Option.bind_map]
  exact congrArg _ (funext string?_unsigned)

/-- A property that is a boolean is read the same without the signs of zeros. -/
theorem bool?_property :
    ((j.unsigned.property? name).bind bool?) = (j.property? name).bind bool? := by
  rw [property?_unsigned, Option.bind_map]
  exact congrArg _ (funext bool?_unsigned)

/-- A property that is a counter is read the same without the signs of zeros. -/
theorem index?_property :
    ((j.unsigned.property? name).bind index?) = (j.property? name).bind index? := by
  rw [property?_unsigned, Option.bind_map]
  exact congrArg _ (funext index?_unsigned)

/-- The items under a property are read without the signs of zeros. -/
theorem array?_property : ((j.unsigned.property? name).bind array?) =
    ((j.property? name).bind array?).map (List.map unsigned) := by
  rw [property?_unsigned, Option.bind_map, Option.map_bind]
  exact congrArg _ (funext array?_unsigned)

/-- The properties under a property are read without the signs of zeros. -/
theorem object?_property : ((j.unsigned.property? name).bind object?) =
    ((j.property? name).bind object?).map (List.map (Prod.map id unsigned)) := by
  rw [property?_unsigned, Option.bind_map, Option.map_bind]
  exact congrArg _ (funext object?_unsigned)

end Json

/-- Whether an entry is that of an index does not depend on the signs of zeros.  Its path has
names and numbers, and a zero is a number with either sign. -/
theorem isIndexData_unsigned (index : Json) : isIndexData index.unsigned = isIndexData index := by
  have hpath : ∀ path : List Json,
      (((path.map Json.unsigned).head?.bind Json.string?).isSome &&
        (path.map Json.unsigned).zipIdx.all fun entry =>
          entry.1.string?.isSome || (0 < entry.2 && entry.1.index?.isSome)) =
      ((path.head?.bind Json.string?).isSome && path.zipIdx.all fun entry =>
          entry.1.string?.isSome || (0 < entry.2 && entry.1.index?.isSome)) := by
    intro path
    rw [List.zipIdx_map, List.all_map, List.head?_map, Option.bind_map]
    simp only [Function.comp_def, Prod.map, id, Json.string?_unsigned, Json.index?_unsigned]
  unfold isIndexData
  rw [Json.string?_property, Json.bool?_property, Json.array?_property, Option.any_map]
  exact congrArg _ (congrArg (fun f => Option.any f _) (funext hpath))

/-- Whether an entry is that of a collection does not depend on the signs of zeros.  The same
holds of the documents, which are only looked at for being objects. -/
theorem isCollectionData_unsigned (collections : JsonObject) (entry : JsString × Json) :
    isCollectionData (collections.map (Prod.map id Json.unsigned)) (entry.1, entry.2.unsigned) =
      isCollectionData collections entry := by
  have hdocuments : ((Assoc.get? (collections.map (Prod.map id Json.unsigned)) entry.1).bind
      Json.array?).any (·.all (·.object?.isSome)) =
        ((Assoc.get? collections entry.1).bind Json.array?).any (·.all (·.object?.isSome)) := by
    rw [get?_map, Option.bind_map]
    cases Assoc.get? collections entry.1 with
    | none => rfl
    | some documents =>
        show (documents.unsigned.array?).any _ = _
        rw [Json.array?_unsigned, Option.any_map]
        refine congrArg (fun f => Option.any f _) (funext fun items => ?_)
        show (items.map Json.unsigned).all _ = _
        rw [List.all_map]
        refine congrArg (fun f => List.all _ f) (funext fun document => ?_)
        rw [Function.comp_apply, Json.object?_unsigned, Option.isSome_map]
  have hindexes : ∀ indexes : List Json,
      (indexes.map Json.unsigned).all isIndexData = indexes.all isIndexData := by
    intro indexes
    rw [List.all_map]
    exact congrArg (fun f => List.all _ f) (funext isIndexData_unsigned)
  unfold isCollectionData
  dsimp only
  rw [hdocuments, Json.bool?_property, Json.string?_property, Json.array?_property, Option.any_map]
  simp only [hindexes]

/-- The sorted names of an object do not depend on the signs of zeros. -/
theorem sortedNames_unsigned (props : JsonObject) :
    sortedNames (props.map (Prod.map id Json.unsigned)) = sortedNames props := by
  unfold sortedNames
  rw [List.map_map]
  rfl

/-- **The check of an envelope** does not see the signs of zeros.  It looks at names, types and
counters, and no counter has a sign. -/
theorem isSnapshotData_unsigned (value : Json) :
    isSnapshotData value.unsigned = isSnapshotData value := by
  have hformat : (value.unsigned.property? (js "format")).any (· = .prim (.string snapshotFormat)) =
      (value.property? (js "format")).any (· = .prim (.string snapshotFormat)) := by
    rw [Json.property?_unsigned, Option.any_map]
    refine congrArg (fun f => Option.any f _) (funext fun j => ?_)
    rcases j with (_ | _ | _ | _) | _ | _ <;> rfl
  have hcollections : ∀ catalog collections : JsonObject,
      (catalog.map (Prod.map id Json.unsigned)).all
        (isCollectionData (collections.map (Prod.map id Json.unsigned))) =
          catalog.all (isCollectionData collections) := by
    intro catalog collections
    rw [List.all_map]
    exact congrArg (fun f => List.all _ f) (funext (isCollectionData_unsigned collections))
  unfold isSnapshotData
  rw [hformat, Json.index?_property, Json.string?_property, Json.index?_property,
    Json.index?_property, Json.object?_property, Json.object?_property, Option.any_map]
  simp only [Option.any_map, sortedNames_unsigned, hcollections]

/-! ### Envelopes as data -/

/-- What the check of an index asks of a token. -/
theorem isToken_json (token : PathToken) (i : ℕ) :
    (token.json.string?.isSome || (decide (0 < i) && token.json.index?.isSome)) =
      match token with
      | .name _ => true
      | .index n => decide (0 < i) && n.toIndex?.isSome := by
  rcases token with (x | x | x) | s <;> rfl

/-- **The check of an index** is that of its data: a path whose first token may stand first
begins with a string. -/
theorem isIndexData_json (index : CatalogIndex) :
    isIndexData index.json = isSnapshotIndex index := by
  have hname : index.json.property? (js "name") = some (.prim (.string index.name)) := rfl
  have hunique : index.json.property? (js "unique") = some (.prim (.bool index.unique)) := rfl
  have hpath : index.json.property? (js "path") = some (.arr (index.path.map PathToken.json)) := rfl
  unfold isIndexData isSnapshotIndex
  rw [hname, hunique, hpath]
  show (index.name.length ≠ 0 && true && (((index.path.map PathToken.json).head?.bind _).isSome &&
    (index.path.map PathToken.json).zipIdx.all _)) = _
  rw [Bool.and_true, Bool.and_assoc, List.zipIdx_map, List.all_map]
  refine congrArg _ ?_
  cases index.path with
  | nil => rfl
  | cons token rest =>
      have hrest : ∀ entry : PathToken × ℕ,
          (entry.1.json.string?.isSome || (decide (0 < entry.2) && entry.1.json.index?.isSome)) =
            match entry.1 with
            | .name _ => true
            | .index n => decide (0 < entry.2) && n.toIndex?.isSome :=
        fun entry => isToken_json entry.1 entry.2
      rcases token with x | s
      · rcases x with x | x | x <;> rfl
      · exact List.all_congr rfl hrest

/-- Names that are written alike are the same names.  Strings are written injectively, and
sorting only changes the order. -/
theorem perm_of_sortedNames {α β : Type} {left : List (JsString × α)}
    {right : List (JsString × β)}
    (h : (sortedNames left).stringify = (sortedNames right).stringify) :
    (left.map Prod.fst).Perm (right.map Prod.fst) := by
  have hunsigned : ∀ names : List JsString,
      Json.unsignedItems (names.map fun name => .prim (.string name)) =
        names.map fun name => .prim (.string name) := by
    intro names
    rw [Json.unsignedItems_eq, List.map_map]
    rfl
  have hinj : Function.Injective fun name : JsString => Json.prim (.string name) := by
    rintro a b ⟨⟩
    rfl
  have he := stringify_eq_iff.1 h
  unfold sortedNames at he
  rw [Json.unsigned, Json.unsigned, hunsigned, hunsigned] at he
  have hsorted := List.map_injective_iff.2 hinj (Json.arr.inj he)
  exact (List.mergeSort_perm _ leUnits).symm.trans (hsorted ▸ List.mergeSort_perm _ leUnits)

/-- A collection of the catalog whose documents are there is data that passes.  Its own data is
made from the catalog, so its fields are there with their kinds. -/
theorem isCollectionData_json {collections : SnapshotCollections} {name : JsString}
    (h : name ∈ collections.map Prod.fst) (collection : CatalogCollection) :
    isCollectionData (collections.map fun entry => (entry.1, .arr (entry.2.map Json.obj)))
      (name, collection.json) = isSnapshotCollection (name, collection) := by
  have hdocuments : ((Assoc.get? (collections.map fun entry =>
      (entry.1, Json.arr (entry.2.map Json.obj))) name).bind Json.array?).any
        (·.all (·.object?.isSome)) = true := by
    have hget := get?_map (fun documents : List JsonObject => Json.arr (documents.map Json.obj))
      collections name
    change Assoc.get? (collections.map fun entry => (entry.1, Json.arr (entry.2.map Json.obj))) name
      = _ at hget
    rw [hget]
    cases hd : Assoc.get? collections name with
    | none => exact absurd h (Assoc.get?_eq_none_iff.1 hd)
    | some documents =>
        show ((documents.map Json.obj).all fun j => j.object?.isSome) = true
        rw [List.all_map]
        exact List.all_eq_true.2 fun _ _ => rfl
  have hgenerated : collection.json.property? (js "generatedPrimaryKey") =
      some (.prim (.bool collection.generatedPrimaryKey)) := rfl
  have hkey : collection.json.property? (js "primaryKey") =
      some (.prim (.string collection.primaryKey)) := rfl
  have hindexes : collection.json.property? (js "indexes") =
      some (.arr (collection.indexes.map CatalogIndex.json)) := rfl
  unfold isCollectionData isSnapshotCollection
  dsimp only
  rw [hdocuments, hgenerated, hkey, hindexes, Bool.and_true]
  show (name.length ≠ 0 && true && collection.primaryKey.length ≠ 0 &&
    (collection.indexes.map CatalogIndex.json).all isIndexData) = _
  rw [Bool.and_true, List.all_map]
  exact congrArg _ (congrArg (fun f => List.all _ f) (funext isIndexData_json))

/-- **The check of an envelope** is that of its data.  The check of a value from a file and that
of an envelope in memory are one. -/
theorem isSnapshotData_json (snapshot : SnapshotEnvelope) :
    isSnapshotData snapshot.json = isSnapshotEnvelope snapshot := by
  have hformat : snapshot.json.property? (js "format") =
      some (.prim (.string snapshotFormat)) := rfl
  have hversion : (snapshot.json.property? (js "formatVersion")).bind Json.index? =
      some snapshotFormatVersion := by
    show Json.index? (.prim (.number (.ofNat snapshotFormatVersion))) = _
    rw [Json.index?_ofNat]
    rfl
  have hid : (snapshot.json.property? (js "databaseId")).bind Json.string? =
      some snapshot.databaseId := rfl
  have hgeneration : (snapshot.json.property? (js "generation")).bind Json.index? =
      if snapshot.generation ≤ 2 ^ 53 - 1 then some snapshot.generation else none :=
    Json.index?_ofNat _
  have hrevision : (snapshot.json.property? (js "revision")).bind Json.index? =
      if snapshot.revision ≤ 2 ^ 53 - 1 then some snapshot.revision else none :=
    Json.index?_ofNat _
  have hcatalog : (snapshot.json.property? (js "catalog")).bind Json.object? =
      some (snapshot.catalog.map fun entry => (entry.1, entry.2.json)) := rfl
  have hcollections : (snapshot.json.property? (js "collections")).bind Json.object? =
      some (snapshot.collections.map fun entry => (entry.1, .arr (entry.2.map Json.obj))) := rfl
  have hnames : ∀ {α β : Type} (f : α → β) (props : List (JsString × α)),
      sortedNames (props.map fun entry => (entry.1, f entry.2)) = sortedNames props := by
    intro α β f props
    unfold sortedNames
    rw [List.map_map]
    rfl
  have hsome : ∀ n : ℕ, (if n ≤ 2 ^ 53 - 1 then some n else none).isSome =
      decide (n ≤ 2 ^ 53 - 1) := fun n => by
    split_ifs with h
    · exact (decide_eq_true h).symm
    · exact (decide_eq_false h).symm
  have hentries : ((sortedNames snapshot.catalog).stringify =
      (sortedNames snapshot.collections).stringify &&
        (snapshot.catalog.map fun entry => (entry.1, entry.2.json)).all (isCollectionData
          (snapshot.collections.map fun entry => (entry.1, .arr (entry.2.map Json.obj))))) =
      ((sortedNames snapshot.catalog).stringify = (sortedNames snapshot.collections).stringify &&
        snapshot.catalog.all isSnapshotCollection) := by
    by_cases heq : (sortedNames snapshot.catalog).stringify =
        (sortedNames snapshot.collections).stringify
    · refine congrArg _ ?_
      rw [List.all_map, Bool.eq_iff_iff, List.all_eq_true, List.all_eq_true]
      refine forall₂_congr fun entry he => ?_
      have hmem := (perm_of_sortedNames heq).mem_iff.1 (List.mem_map_of_mem (f := Prod.fst) he)
      exact Bool.eq_iff_iff.1 (isCollectionData_json hmem entry.2)
    · rw [decide_eq_false heq, Bool.false_and, Bool.false_and]
  unfold isSnapshotData isSnapshotEnvelope
  rw [hformat, hversion, hid, hgeneration, hrevision, hcatalog, hcollections, hsome, hsome]
  simp only [Option.any_some]
  rw [hnames CatalogCollection.json snapshot.catalog,
    hnames (fun documents => Json.arr (documents.map Json.obj)) snapshot.collections, hentries]
  simp only [decide_true, Bool.true_and, Bool.and_assoc]

/-! ### The file -/

namespace Platform

variable {platform : Platform}

/-- A file that is written begins with no mark of its byte order. -/
theorem take_serializeSnapshot (snapshot : Json) :
    (platform.serializeSnapshot snapshot).take 3 ≠ [0xef, 0xbb, 0xbf] := by
  have hfile : platform.serializeSnapshot snapshot = 123 :: utf8Encode
      ((Json.stringifyProps [(js "checksum", .prim (.string (platform.checksum snapshot))),
        (js "snapshot", snapshot)] ++ [125]) ++ [10]) := utf8Encode_cons (by decide) _
  rw [hfile, List.take_succ_cons]
  exact fun h => absurd (List.cons.inj h).1 (by decide)

/-- What stands in the file is data when the snapshot is. -/
theorem isData_diskEnvelope {snapshot : Json} (h : snapshot.isData) :
    (platform.diskEnvelope snapshot).isData := by
  have hnames : PropertyOrder [js "checksum", js "snapshot"] := ⟨by decide, by decide⟩
  refine Bool.and_eq_true_iff.2 ⟨isPropertyList_of_order hnames, Json.isDataProps_iff.2 ?_⟩
  simpa using ⟨rfl, h⟩

/-- **What the checks find** in what was parsed.  The checksum is that of the text of the
snapshot, which the signs of zeros are not in. -/
theorem checkEnvelope_unsigned (snapshot : Json) :
    platform.checkEnvelope (platform.diskEnvelope snapshot).unsigned =
      if isSnapshotData snapshot then .ok snapshot.unsigned else checkEnvelope.invalid := by
  have hsum : platform.checksum snapshot.unsigned = platform.checksum snapshot :=
    congrArg platform.sha256 (Json.stringify_unsigned snapshot)
  show (if isSnapshotData snapshot.unsigned && platform.checksum snapshot.unsigned =
    platform.checksum snapshot then Except.ok snapshot.unsigned else checkEnvelope.invalid) = _
  rw [hsum, isSnapshotData_unsigned, decide_eq_true rfl, Bool.and_true]

/-- **The file of a snapshot, read back.**  The file is accepted exactly when the snapshot is an
envelope and is within the limits of the scan with the two values around it. -/
theorem decodeSnapshot_eq_ok_iff (hstrings : ReadsStrings platform.parse)
    (hfiles : ReadsFiles platform.parse) {snapshot : Json} (hdata : snapshot.isData)
    (json : Json) :
    platform.decodeSnapshot (platform.serializeSnapshot snapshot) = .ok json ↔
      json = snapshot.unsigned ∧ isSnapshotData snapshot = true ∧
        snapshot.nodes + 2 ≤ maxScanNodes ∧ snapshot.height + 1 ≤ maxScanDepth := by
  have hblank : IsBlank [10] := fun c hc => by
    rw [List.mem_singleton.1 hc]
    exact .inr (.inr (.inl rfl))
  have hdisk : (platform.diskEnvelope snapshot).isData := isData_diskEnvelope hdata
  have hnodes : (platform.diskEnvelope snapshot).nodes = snapshot.nodes + 2 := by
    show 1 + (snapshot.nodes + 0) + 1 = _
    omega
  have hheight : (platform.diskEnvelope snapshot).height = snapshot.height + 1 := by
    show max (0 + 1) (max (snapshot.height + 1) 0) = _
    omega
  have hdecode : utf8Decode (platform.serializeSnapshot snapshot) =
      some (platform.fileText snapshot) :=
    utf8Decode_utf8Encode (isWellFormed_append (Json.isWellFormed_stringify _) rfl)
  have hscan := assertNoDuplicateJsonKeys_stringify_iff hstrings hdisk hblank
  rw [hnodes, hheight] at hscan
  have hparse : platform.parse (platform.fileText snapshot) =
      some (platform.diskEnvelope snapshot).unsigned := hfiles _ _ hdisk hblank
  unfold decodeSnapshot
  rw [if_neg (take_serializeSnapshot snapshot), hdecode]
  dsimp only
  cases hresult : assertNoDuplicateJsonKeys platform.parse (platform.fileText snapshot) with
  | error e =>
      constructor
      · intro h
        cases h
      · rintro ⟨-, -, hlimits⟩
        cases (hscan.2 hlimits).symm.trans hresult
  | ok =>
      dsimp only
      rw [hparse]
      dsimp only
      rw [checkEnvelope_unsigned]
      constructor
      · intro h
        split_ifs at h with hvalid
        · exact ⟨(Except.ok.inj h).symm, hvalid, hscan.1 hresult⟩
        · cases h
      · rintro ⟨rfl, hvalid, -⟩
        rw [if_pos hvalid]

/-- **A snapshot of a database, written and read back.**  It is read exactly when it passes the
check of an envelope and is within the limits of the scan for duplicates, and then as it was but
for the signs of zeros: nothing else that the decoder checks ever refuses what was written. -/
theorem decodeSnapshot_envelope_iff (hstrings : ReadsStrings platform.parse)
    (hfiles : ReadsFiles platform.parse) {snapshot : SnapshotEnvelope}
    (hdata : snapshot.json.isData) (json : Json) :
    platform.decodeSnapshot (platform.serializeSnapshot snapshot.json) = .ok json ↔
      json = snapshot.json.unsigned ∧ isSnapshotEnvelope snapshot ∧
        snapshot.json.nodes + 2 ≤ maxScanNodes ∧ snapshot.json.height + 1 ≤ maxScanDepth := by
  rw [decodeSnapshot_eq_ok_iff hstrings hfiles hdata, isSnapshotData_json]

end Platform

/-! ### A reader -/

/-- A text is that of a tree, with white space behind it. -/
def IsTreeText (text : JsString) : Prop :=
  ∃ (j : Json) (w : JsString), j.isData ∧ IsBlank w ∧ text = j.stringify ++ w

open Classical in
/-- A reader of what is written, and of string literals. -/
noncomputable def readTree (text : JsString) : Option Json :=
  if h : IsTreeText text then some h.choose.unsigned else readLiteral text

/-- The reader of trees reads the files that are written.  A text in the grammar has one
derivation, and the reader follows it. -/
theorem readsFiles_readTree : ReadsFiles readTree := by
  intro j w hj hw
  have hends : ∀ {w : JsString}, IsBlank w → Ends w := fun hw c hc => by
    rcases hw c (List.mem_of_mem_head? hc) with rfl | rfl | rfl | rfl <;> decide
  have htext : IsTreeText (j.stringify ++ w) := ⟨j, w, hj, hw, rfl⟩
  obtain ⟨w', -, hw', he⟩ := htext.choose_spec
  rw [readTree, dif_pos htext,
    (shows_stringify j htext.choose w w' (hends hw) (hends hw') he).1]

/-- The reader of trees reads the strings of the grammar.  A string is a text of the grammar by
itself. -/
theorem readsStrings_readTree : ReadsStrings readTree := by
  intro body hbody
  by_cases htext : IsTreeText (quoted body)
  · obtain ⟨w', -, hw', he⟩ := htext.choose_spec
    have hwritten : htext.choose.written = .string body := by
      refine derives_padded_unique (t := quoted body) ?_ (Json.derives_padded (.string hbody))
      have hpad := Derives.pad Json.isBlank_nil (Json.derives_stringify htext.choose) hw'
      rwa [List.nil_append, ← he] at hpad
    rw [readTree, dif_pos htext]
    rcases hj : htext.choose with (_ | (_ | _) | _ | s) | _ | _
    · rw [hj] at hwritten; cases hwritten
    · rw [hj] at hwritten; cases hwritten
    · rw [hj] at hwritten; cases hwritten
    · rw [hj] at hwritten; cases hwritten
    · rw [hj] at hwritten
      obtain rfl := JsonSyntax.string.inj hwritten
      rw [(quoteUnits_spec s).2]
      rfl
    · rw [hj] at hwritten; cases hwritten
    · rw [hj] at hwritten; cases hwritten
  · rw [readTree, dif_neg htext]
    exact readsStrings_readLiteral body hbody

/-- A snapshot of one document with a zero that has a sign. -/
def signedZeroSnapshot : SnapshotEnvelope where
  catalog := [(js "users", ⟨false, [], js "id"⟩)]
  collections := [(js "users", [[(js "id", .prim (.number (.zero true)))]])]
  databaseId := js "db"
  generation := 1
  revision := 1

/-- A platform that reads what is written, and has the digest of that snapshot. -/
noncomputable def readingPlatform : Platform where
  parse := readTree
  sha256 _ := js "16af76fa42c9aae853347a7ddc1a0c5f5d921d09e7aa976fefcfd99b7d828a77"

/-- A snapshot with a negative zero is data. -/
theorem isData_signedZeroSnapshot : signedZeroSnapshot.json.isData := by decide +kernel

/-- The sign of a zero does not come back.  The theorem says what is read instead, and that the
file is accepted. -/
theorem signed_zero_read_back :
    readingPlatform.decodeSnapshot (readingPlatform.serializeSnapshot signedZeroSnapshot.json) =
      .ok signedZeroSnapshot.json.unsigned :=
  (Platform.decodeSnapshot_envelope_iff readsStrings_readTree readsFiles_readTree
    isData_signedZeroSnapshot _).2 ⟨rfl, by decide +kernel, by decide +kernel, by decide +kernel⟩

end NewtonDB
