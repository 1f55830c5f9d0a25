/-
# Comparing catalogs

`createCatalog` and `catalogsEqual` of `src/storage.ts`.  The catalog lists the
collections in the order of own property keys and the indexes of each in the order of
the host's collation.  So the catalog of a schema is equal to one that was stored exactly
when both declare the same and both hosts put the indexes in one order
(`catalogsEqual_iff`); collations that differ, and ties, make catalogs of the same schema
differ.
-/

import NewtonDB.Js.JsonText
import NewtonDB.Js.PropertyOrder
import NewtonDB.Lib.StableSort
import NewtonDB.Pointer
import NewtonDB.Engine.CollectionCheck
import NewtonDB.Storage
import Mathlib.Data.Option.Basic

namespace NewtonDB

/-! ### Schemas -/

/-- A token that is a string or a finite number. -/
def PathToken.IsFinite : PathToken → Prop
  | .name _ => True
  | .index (.finite _) => True
  | .index _ => False

/-- Schemas under distinct names, with distinct names of indexes and finite path tokens. -/
structure WellNamed (schemas : List (JsString × CollectionSchema)) : Prop where
  nodup : (schemas.map Prod.fst).Nodup
  names : ∀ e ∈ schemas, (e.2.indexes.map SecondaryIndex.name).Nodup
  finite : ∀ e ∈ schemas, ∀ d ∈ e.2.indexes, ∀ token ∈ d.path, token.IsFinite

/-- The checks of `createIndexes` on one definition.  A path with a `NaN` or an infinite token
is refused there, so the tokens of a collection that was created are finite. -/
theorem isFinite_of_createIndexes {collection : JsString} {l : List SecondaryIndex} :
    ∀ {start result : Indexes (OrderedMap JsString Bucket)},
      l.foldlM (createIndex collection) start = .ok result →
        ∀ d ∈ l, ∀ token ∈ d.path, token.IsFinite := by
  induction l with
  | nil => exact fun _ d hd => by cases hd
  | cons first l ih =>
      intro start result h d hd token ht
      rw [List.foldlM_cons] at h
      obtain ⟨next, hn, h⟩ := bind_eq_ok.1 h
      rcases List.mem_cons.1 hd with rfl | hd
      · unfold createIndex at hn
        split_ifs at hn
        obtain ⟨path, hpath, -⟩ := bind_eq_ok.1 hn
        have hvalid := (validatePath_eq_ok.1 hpath).2.tokens token
          ((validatePath_view hpath).symm ▸ ht)
        cases token with
        | name s => trivial
        | index n => cases n with
          | finite x => trivial
          | nan | infinity s => cases hvalid
      · exact ih h d hd token ht

/-- **The schemas that collections are created with** are well named.  An index with an empty
name, or one that occurs twice, is refused when it is created. -/
theorem wellNamed_of_createIndexes {schemas : List (JsString × CollectionSchema)}
    (h : (schemas.map Prod.fst).Nodup)
    (hok : ∀ e ∈ schemas, (createIndexes e.1 e.2).isOk = true) : WellNamed schemas where
  nodup := h
  names e he := by
    obtain ⟨indexes, hi⟩ := exists_of_isOk (hok e he)
    have hkeys := indexes.keys_nodup
    have hnames : indexes.keys = e.2.indexes.map SecondaryIndex.name := by
      have hdef := congrArg (List.map Prod.fst) (createIndexes_ok hi).definitions
      simpa [definitions, OrderedMap.keys, Function.comp_def] using hdef
    rwa [hnames] at hkeys
  finite e he := by
    obtain ⟨indexes, hi⟩ := exists_of_isOk (hok e he)
    exact isFinite_of_createIndexes hi

/-! ### Declarations -/

/-- The same index definition. -/
def SecondaryIndex.Same (a b : SecondaryIndex) : Prop :=
  a.name = b.name ∧ samePath a.path b.path ∧ a.unique = b.unique

/-- The same declarations of a collection: key field, key generation and the set of the
indexes. -/
structure CollectionSchema.Same (a b : CollectionSchema) : Prop where
  primaryKey : a.primaryKey = b.primaryKey
  generates : a.generatePrimaryKey.isSome = b.generatePrimaryKey.isSome
  declared : ∀ d ∈ a.indexes, ∃ d' ∈ b.indexes, d.Same d'
  declares : ∀ d' ∈ b.indexes, ∃ d ∈ a.indexes, d.Same d'

/-- The same collections with the same declarations. -/
def SameDeclarations (schemas schemas' : List (JsString × CollectionSchema)) : Prop :=
  ∀ name, Option.Rel CollectionSchema.Same (Assoc.get? schemas name) (Assoc.get? schemas' name)

/-- The names of the indexes of a collection, as declared. -/
def CollectionSchema.indexNames (schema : CollectionSchema) : List JsString :=
  schema.indexes.map SecondaryIndex.name

/-- Both hosts put every two indexes of a collection in the same order. -/
def OrderedAlike (collate : JsString → JsString → Bool)
    (schemas : List (JsString × CollectionSchema)) (collate' : JsString → JsString → Bool)
    (schemas' : List (JsString × CollectionSchema)) : Prop :=
  ∀ name a b, Assoc.get? schemas name = some a → Assoc.get? schemas' name = some b →
    ∀ m ∈ a.indexNames, ∀ n ∈ a.indexNames, m ≠ n →
      (SortedBefore collate a.indexNames m n ↔ SortedBefore collate' b.indexNames m n)

/-! ### Paths and indexes as data -/

/-- Numbers are the same to `===` when they are but for the sign of a zero. -/
theorem same_of_unsigned {x y : FiniteNumber} : x.same y ↔ x.unsigned = y.unsigned := by
  rw [← FiniteNumber.text_eq_iff]
  exact ⟨unsigned_of_text, fun h => by rw [← Json.text_unsigned x, h, Json.text_unsigned]⟩

/-- Tokens are `===` when they are the same data.  `unsigned` forgets the sign of a zero, which
is all that `===` forgets of a finite number. -/
theorem PathToken.same_iff {a b : PathToken} (ha : a.IsFinite) (hb : b.IsFinite) :
    a.same b ↔ a.json.unsigned = b.json.unsigned := by
  match a, b with
  | .name s, .name t => simp [PathToken.same, PathToken.json, Json.unsigned, JsonPrimitive.unsigned]
  | .index (.finite x), .index (.finite y) =>
      simp [PathToken.same, JsNumber.same, PathToken.json, Json.unsigned, JsonPrimitive.unsigned,
        same_of_unsigned]
  | .name s, .index (.finite y) =>
      simp [PathToken.same, PathToken.json, Json.unsigned, JsonPrimitive.unsigned]
  | .index (.finite x), .name t =>
      simp [PathToken.same, PathToken.json, Json.unsigned, JsonPrimitive.unsigned]

/-- A path as data. -/
def pathData (path : PropertyPath) : List Json := path.map fun token => token.json.unsigned

/-- Paths are the same when they are the same data.  By induction on both paths, a token at a
time. -/
theorem samePath_iff : ∀ {p q : PropertyPath}, (∀ token ∈ p, token.IsFinite) →
    (∀ token ∈ q, token.IsFinite) → (samePath p q ↔ pathData p = pathData q)
  | [], [], _, _ => by simp [samePath, pathData]
  | [], _ :: _, _, _ => by simp [samePath, pathData]
  | _ :: _, [], _, _ => by simp [samePath, pathData]
  | a :: p, b :: q, hp, hq => by
      have hhead := PathToken.same_iff (hp a (List.mem_cons_self ..)) (hq b (List.mem_cons_self ..))
      have hrest := samePath_iff (fun t ht => hp t (List.mem_cons_of_mem _ ht))
        (fun t ht => hq t (List.mem_cons_of_mem _ ht))
      rw [samePath, Bool.and_eq_true, hhead, hrest]
      exact List.cons.injEq .. ▸ Iff.rfl

/-- An index of the catalog as it is declared. -/
def SecondaryIndex.entry (d : SecondaryIndex) : CatalogIndex := ⟨d.name, d.path, d.unique⟩

/-- Definitions are the same when they are the same data. -/
theorem SecondaryIndex.same_iff {a b : SecondaryIndex} (ha : ∀ token ∈ a.path, token.IsFinite)
    (hb : ∀ token ∈ b.path, token.IsFinite) :
    a.Same b ↔ a.entry.json.unsigned = b.entry.json.unsigned := by
  rw [Same, samePath_iff ha hb]
  simp [SecondaryIndex.entry, CatalogIndex.json, Json.unsigned, Json.unsignedProps,
    Json.unsignedItems_eq, JsonPrimitive.unsigned, pathData, Function.comp_def]

/-! ### Collections as data -/

/-- Lists with keys have the same data when each element of the one is found in the other
and the keys are in one order. -/
theorem map_eq_map_iff_keys {α β γ : Type*} {data : α → β} {key : α → γ} {l l' : List α}
    (hkey : ∀ a ∈ l, ∀ b ∈ l', data a = data b → key a = key b) (hl' : (l'.map key).Nodup) :
    l.map data = l'.map data ↔
      (∀ a ∈ l, ∃ b ∈ l', data a = data b) ∧ l.map key = l'.map key := by
  constructor
  · intro h
    have hlen : l.length = l'.length := by simpa using congrArg List.length h
    have hget : ∀ i (hi : i < l.length) (hi' : i < l'.length), data l[i] = data l'[i] := by
      intro i hi hi'
      have heq := congrArg (fun m => m[i]?) h
      simpa [hi, hi'] using heq
    refine ⟨fun a ha => ?_, List.ext_getElem (by simpa using hlen) fun i hi hi' => ?_⟩
    · obtain ⟨i, hi, rfl⟩ := List.getElem_of_mem ha
      exact ⟨l'[i], List.getElem_mem _, hget i hi (hlen ▸ hi)⟩
    · rw [List.length_map] at hi hi'
      rw [List.getElem_map, List.getElem_map]
      exact hkey _ (List.getElem_mem _) _ (List.getElem_mem _) (hget i hi hi')
  · rintro ⟨hmem, hkeys⟩
    have hlen : l.length = l'.length := by simpa using congrArg List.length hkeys
    refine List.ext_getElem (by simpa using hlen) fun i hi hi' => ?_
    rw [List.length_map] at hi hi'
    rw [List.getElem_map, List.getElem_map]
    obtain ⟨b, hb, hdata⟩ := hmem l[i] (List.getElem_mem _)
    have hsame : key b = key l'[i] := by
      have heq := congrArg (fun m => m[i]?) hkeys
      rw [← hkey _ (List.getElem_mem _) b hb hdata]
      simpa [hi, hi'] using heq
    rw [hdata, List.inj_on_of_nodup_map hl' hb (List.getElem_mem _) hsame]

section

variable {collate collate' : JsString → JsString → Bool} {a b : CollectionSchema}

/-- The indexes of a collection as they are sorted. -/
def sortedIndexes (collate : JsString → JsString → Bool) (schema : CollectionSchema) :
    List SecondaryIndex :=
  schema.indexes.mergeSort fun left right => collate left.name right.name

/-- To sort the indexes loses none and adds none. -/
theorem mem_sortedIndexes {d : SecondaryIndex} :
    d ∈ sortedIndexes collate a ↔ d ∈ a.indexes :=
  (List.mergeSort_perm ..).mem_iff

/-- The catalog lists the sorted indexes. -/
theorem catalogCollection_indexes (collate : JsString → JsString → Bool)
    (schema : CollectionSchema) : (catalogCollection collate schema).indexes =
      (sortedIndexes collate schema).map SecondaryIndex.entry :=
  (List.map_mergeSort (f := SecondaryIndex.entry) fun _ _ _ _ => rfl).symm

/-- Their names are the sorted names. -/
theorem map_name_sortedIndexes (collate : JsString → JsString → Bool) (schema : CollectionSchema) :
    (sortedIndexes collate schema).map SecondaryIndex.name =
      schema.indexNames.mergeSort collate :=
  List.map_mergeSort fun _ _ _ _ => rfl

/-- **Collections are the same data** when they declare the same and list the indexes in
one order. -/
theorem collection_data_iff (hb : b.indexNames.Nodup)
    (hfa : ∀ d ∈ a.indexes, ∀ token ∈ d.path, token.IsFinite)
    (hfb : ∀ d ∈ b.indexes, ∀ token ∈ d.path, token.IsFinite) :
    (catalogCollection collate a).json.unsigned = (catalogCollection collate' b).json.unsigned ↔
      a.Same b ∧ a.indexNames.mergeSort collate = b.indexNames.mergeSort collate' := by
  have hsame : ∀ d ∈ a.indexes, ∀ d' ∈ b.indexes,
      d.Same d' ↔ d.entry.json.unsigned = d'.entry.json.unsigned :=
    fun d hd d' hd' => SecondaryIndex.same_iff (hfa d hd) (hfb d' hd')
  have hdata : (catalogCollection collate a).json.unsigned =
      (catalogCollection collate' b).json.unsigned ↔
      a.generatePrimaryKey.isSome = b.generatePrimaryKey.isSome ∧
      (sortedIndexes collate a).map (fun d => d.entry.json.unsigned) =
        (sortedIndexes collate' b).map (fun d => d.entry.json.unsigned) ∧
      a.primaryKey = b.primaryKey := by
    rw [CatalogCollection.json, CatalogCollection.json, catalogCollection_indexes,
      catalogCollection_indexes]
    simp [catalogCollection, Json.unsigned, Json.unsignedProps, Json.unsignedItems_eq,
      JsonPrimitive.unsigned, Function.comp_def]
  have hnames : (sortedIndexes collate' b).map SecondaryIndex.name |>.Nodup := by
    rw [map_name_sortedIndexes]
    exact (List.mergeSort_perm ..).nodup_iff.2 hb
  have hlists : (sortedIndexes collate a).map (fun d => d.entry.json.unsigned) =
      (sortedIndexes collate' b).map (fun d => d.entry.json.unsigned) ↔
      (∀ d ∈ sortedIndexes collate a, ∃ d' ∈ sortedIndexes collate' b,
        d.entry.json.unsigned = d'.entry.json.unsigned) ∧
      (sortedIndexes collate a).map SecondaryIndex.name =
        (sortedIndexes collate' b).map SecondaryIndex.name :=
    map_eq_map_iff_keys (fun d hd d' hd' h =>
      ((hsame d (mem_sortedIndexes.1 hd) d' (mem_sortedIndexes.1 hd')).2 h).1) hnames
  rw [hdata, hlists, map_name_sortedIndexes, map_name_sortedIndexes]
  constructor
  · rintro ⟨hgenerates, ⟨hfound, hsorted⟩, hprimary⟩
    have hfound' : ∀ d ∈ a.indexes, ∃ d' ∈ b.indexes, d.Same d' := fun d hd => by
      obtain ⟨d', hd', hd''⟩ := hfound d (mem_sortedIndexes.2 hd)
      exact ⟨d', mem_sortedIndexes.1 hd', (hsame d hd d' (mem_sortedIndexes.1 hd')).2 hd''⟩
    refine ⟨⟨hprimary, hgenerates, hfound', fun d' hd' => ?_⟩, hsorted⟩
    -- the names are the same, so the definition of this name is the one found
    have hm : d'.name ∈ a.indexNames := by
      rw [← List.mergeSort_perm a.indexNames collate |>.mem_iff, hsorted,
        (List.mergeSort_perm ..).mem_iff]
      exact List.mem_map_of_mem hd'
    obtain ⟨d, hd, hname⟩ := List.mem_map.1 hm
    obtain ⟨e, he, hde⟩ := hfound' d hd
    obtain rfl := List.inj_on_of_nodup_map hb he hd' (hde.1.symm.trans hname)
    exact ⟨d, hd, hde⟩
  · rintro ⟨hab, hsorted⟩
    refine ⟨hab.generates, ⟨fun d hd => ?_, hsorted⟩, hab.primaryKey⟩
    obtain ⟨d', hd', hd''⟩ := hab.declared d (mem_sortedIndexes.1 hd)
    exact ⟨d', mem_sortedIndexes.2 hd', (hsame d (mem_sortedIndexes.1 hd) d' hd').1 hd''⟩

end

/-! ### Catalogs as data -/

/-- The comparison of strings is the order of their units. -/
theorem leUnits_iff : ∀ {a b : JsString}, leUnits a b ↔ a ≤ b
  | [], b => by simp [leUnits]
  | _ :: _, [] => by simp [leUnits]
  | a :: as, b :: bs => by
      rw [leUnits, Bool.or_eq_true, Bool.and_eq_true, leUnits_iff, List.cons_le_cons_iff]
      simp

section

variable {α β : Type*} {props props' : List (JsString × α)}

/-- Reading does not depend on the order of the properties. -/
theorem get?_perm (h : (props.map Prod.fst).Nodup) (hperm : props'.Perm props) (name : JsString) :
    Assoc.get? props' name = Assoc.get? props name := by
  have h' : (props'.map Prod.fst).Nodup := (hperm.map _).nodup_iff.2 h
  refine Option.ext fun value => ?_
  rw [Assoc.get?_eq_some_iff h, Assoc.get?_eq_some_iff h', hperm.mem_iff]

/-- Properties that read alike are the same in some order. -/
theorem perm_of_get? (h : (props.map Prod.fst).Nodup) (h' : (props'.map Prod.fst).Nodup)
    (hget : ∀ name, Assoc.get? props name = Assoc.get? props' name) : props.Perm props' := by
  refine (List.perm_ext_iff_of_nodup h.of_map h'.of_map).2 fun p => ?_
  rw [← Assoc.get?_eq_some_iff h, ← Assoc.get?_eq_some_iff h', hget]

/-- Properties by their names. -/
def sortProperties (props : List (JsString × α)) : List (JsString × α) :=
  props.mergeSort fun a b => leUnits a.1 b.1

/-- **Sorted properties only depend on what they read.**  They are sorted by their names, which
are different, so that no order is left open. -/
theorem sortProperties_congr (h : (props.map Prod.fst).Nodup) (h' : (props'.map Prod.fst).Nodup)
    (hget : ∀ name, Assoc.get? props name = Assoc.get? props' name) :
    sortProperties props = sortProperties props' := by
  have hsorted : ∀ props : List (JsString × α), (sortProperties props).Pairwise
      fun a b => a.1 ≤ b.1 := by
    intro props
    refine (List.pairwise_mergeSort (fun a b c hab hbc => ?_) (fun a b => ?_) props).imp leUnits_iff.1
    · exact leUnits_iff.2 (List.le_trans (leUnits_iff.1 hab) (leUnits_iff.1 hbc))
    · rw [Bool.or_eq_true, leUnits_iff, leUnits_iff]
      exact List.le_total a.1 b.1
  refine List.Perm.eq_of_pairwise (fun a b ha hb hab hba => ?_) (hsorted props) (hsorted props')
    ((List.mergeSort_perm ..).trans ((perm_of_get? h h' hget).trans (List.mergeSort_perm ..).symm))
  have hb' := (perm_of_get? h h' hget).mem_iff.2 ((List.mergeSort_perm ..).mem_iff.1 hb)
  exact List.inj_on_of_nodup_map h ((List.mergeSort_perm ..).mem_iff.1 ha) hb'
    (List.le_antisymm hab hba)

end

section

variable {collate collate' : JsString → JsString → Bool}
  {schemas schemas' : List (JsString × CollectionSchema)}

/-- A collection of the catalog as data, without the signs of zeros. -/
def collectionData (collate : JsString → JsString → Bool) (schema : CollectionSchema) : Json :=
  (catalogCollection collate schema).json.unsigned

/-- **The catalog as data**, without the signs of zeros.  The entries are sorted and defined one
after the other, as objects of the language keep them. -/
theorem unsigned_createCatalog (collate : JsString → JsString → Bool)
    (schemas : List (JsString × CollectionSchema)) :
    (catalogJson (createCatalog collate schemas)).unsigned =
      .obj ((sortProperties (schemas.map (Prod.map id (collectionData collate)))).foldl
        (fun output p => defineProperty output p.1 p.2) []) := by
  have hsort : sortProperties (schemas.map (Prod.map id (collectionData collate))) =
      (sortProperties schemas).map (Prod.map id (collectionData collate)) :=
    (List.map_mergeSort (f := Prod.map id (collectionData collate)) fun _ _ _ _ => rfl).symm
  have hcatalog : createCatalog collate schemas =
      ((sortProperties schemas).map (Prod.map id (catalogCollection collate))).foldl
        (fun output p => defineProperty output p.1 p.2) [] := by
    rw [List.foldl_map]
    rfl
  have hdata : (catalogJson (createCatalog collate schemas)).unsigned =
      .obj ((createCatalog collate schemas).map (Prod.map id fun c => c.json.unsigned)) := by
    rw [catalogJson, Json.unsigned, Json.unsignedProps_eq, List.map_map]
    rfl
  rw [hdata, hcatalog, map_foldl_defineProperty, hsort, List.map_map]
  rfl

/-- **Catalogs are the same data** when each collection is.  The order in which the schemas were
given plays no part. -/
theorem catalog_data_iff (h : (schemas.map Prod.fst).Nodup) (h' : (schemas'.map Prod.fst).Nodup) :
    (catalogJson (createCatalog collate schemas)).unsigned =
        (catalogJson (createCatalog collate' schemas')).unsigned ↔
      ∀ name, (Assoc.get? schemas name).map (collectionData collate) =
        (Assoc.get? schemas' name).map (collectionData collate') := by
  have hnames : ∀ (f : CollectionSchema → Json) (schemas : List (JsString × CollectionSchema)),
      (schemas.map Prod.fst).Nodup → ((schemas.map (Prod.map id f)).map Prod.fst).Nodup := by
    intro f schemas h
    rwa [List.map_map]
  have hn := hnames (collectionData collate) schemas h
  have hn' := hnames (collectionData collate') schemas' h'
  have hread : ∀ {props : List (JsString × Json)}, (props.map Prod.fst).Nodup → ∀ name,
      Assoc.get? ((sortProperties props).foldl (fun output p => defineProperty output p.1 p.2) [])
        name = Assoc.get? props name := by
    intro props hprops name
    have hperm : (sortProperties props).Perm props := List.mergeSort_perm ..
    rw [get?_foldl_defineProperty name ((hperm.map _).nodup_iff.2 hprops), get?_perm hprops hperm,
      Assoc.get?, Option.or_none]
  rw [unsigned_createCatalog, unsigned_createCatalog, Json.obj.injEq]
  constructor
  · intro heq name
    rw [← get?_map, ← get?_map, ← hread hn, heq, hread hn']
  · intro hget
    rw [sortProperties_congr hn hn' fun name => by rw [get?_map, get?_map, hget name]]

/-- **Catalogs are the same data** when the schemas declare the same and the hosts put the
indexes in one order. -/
theorem catalog_data_iff_same (hc : IsComparison collate) (hc' : IsComparison collate')
    (h : WellNamed schemas) (h' : WellNamed schemas') :
    (catalogJson (createCatalog collate schemas)).unsigned =
        (catalogJson (createCatalog collate' schemas')).unsigned ↔
      SameDeclarations schemas schemas' ∧ OrderedAlike collate schemas collate' schemas' := by
  have hmem : ∀ {schemas : List (JsString × CollectionSchema)}, WellNamed schemas →
      ∀ {name a}, Assoc.get? schemas name = some a → (name, a) ∈ schemas :=
    fun h _ _ ha => (Assoc.get?_eq_some_iff h.nodup).1 ha
  have hcollection : ∀ {name a b}, Assoc.get? schemas name = some a →
      Assoc.get? schemas' name = some b →
      (collectionData collate a = collectionData collate' b ↔
        a.Same b ∧ ∀ m ∈ a.indexNames, ∀ n ∈ a.indexNames, m ≠ n →
          (SortedBefore collate a.indexNames m n ↔ SortedBefore collate' b.indexNames m n)) := by
    intro name a b ha hb
    have hna := h.names _ (hmem h ha)
    have hnb := h'.names _ (hmem h' hb)
    rw [collectionData, collectionData,
      collection_data_iff hnb (h.finite _ (hmem h ha)) (h'.finite _ (hmem h' hb))]
    refine and_congr_right fun hab => mergeSort_eq_iff hc hc' hna ?_
    refine (List.perm_ext_iff_of_nodup hnb hna).2 fun n => ⟨fun hn => ?_, fun hn => ?_⟩
    · obtain ⟨d', hd', rfl⟩ := List.mem_map.1 hn
      obtain ⟨d, hd, hsame⟩ := hab.declares d' hd'
      exact hsame.1 ▸ List.mem_map_of_mem hd
    · obtain ⟨d, hd, rfl⟩ := List.mem_map.1 hn
      obtain ⟨d', hd', hsame⟩ := hab.declared d hd
      exact hsame.1 ▸ List.mem_map_of_mem hd'
  rw [catalog_data_iff h.nodup h'.nodup]
  constructor
  · intro hall
    refine ⟨fun name => ?_, fun name a b ha hb => ?_⟩
    · have hname := hall name
      cases ha : Assoc.get? schemas name with
      | none =>
          rw [ha] at hname
          rw [Option.map_eq_none_iff.1 hname.symm]
          exact .none
      | some a =>
          rw [ha] at hname
          obtain ⟨b, hb, hab⟩ := Option.map_eq_some_iff.1 hname.symm
          rw [hb]
          exact .some ((hcollection ha hb).1 hab.symm).1
    · have hname := hall name
      rw [ha, hb] at hname
      exact ((hcollection ha hb).1 (Option.some.inj hname)).2
  · rintro ⟨hsame, halike⟩ name
    have hrel := hsame name
    cases ha : Assoc.get? schemas name with
    | none =>
        rw [ha] at hrel
        cases hb : Assoc.get? schemas' name with
        | none => rfl
        | some b => rw [hb] at hrel; cases hrel
    | some a =>
        rw [ha] at hrel
        cases hb : Assoc.get? schemas' name with
        | none => rw [hb] at hrel; cases hrel
        | some b =>
            rw [hb] at hrel
            cases hrel with
            | some hab =>
                exact congrArg some ((hcollection ha hb).2 ⟨hab, halike name a b ha hb⟩)

end

/-! ### The text of a catalog -/

/-- An object without properties is in order. -/
theorem propertyOrder_nil : PropertyOrder [] := ⟨List.nodup_nil, List.Pairwise.nil⟩

/-- A token of a path is data. -/
theorem isData_path (token : PathToken) : token.json.isData := by
  cases token with
  | name s => rfl
  | index n => cases n <;> rfl

/-- The entry of an index in a catalog is data.  Its names are literals and stand in the order
`JSON.parse` would give them. -/
theorem isData_index (index : CatalogIndex) : index.json.isData := by
  rw [CatalogIndex.json, Json.isData, Bool.and_eq_true, Json.isDataProps_iff]
  refine ⟨isPropertyList_of_order ⟨?_, ?_⟩, ?_⟩
  · simp only [List.map_cons, List.map_nil]
    decide +kernel
  · simp only [List.map_cons, List.map_nil]
    decide +kernel
  · simp [Json.isData, Json.isDataItems_iff, isData_path]

/-- The entry of a collection in a catalog is data.  Its names are literals too, and the list of
indexes is data entry by entry. -/
theorem isData_collection (collection : CatalogCollection) : collection.json.isData := by
  rw [CatalogCollection.json, Json.isData, Bool.and_eq_true, Json.isDataProps_iff]
  refine ⟨isPropertyList_of_order ⟨?_, ?_⟩, ?_⟩
  · simp only [List.map_cons, List.map_nil]
    decide +kernel
  · simp only [List.map_cons, List.map_nil]
    decide +kernel
  · simp [Json.isData, Json.isDataItems_iff, isData_index]

/-- **A catalog is data**, as the language keeps it.  So it is read back from its text, but for
the signs of zeros. -/
theorem isData_createCatalog (collate : JsString → JsString → Bool)
    (schemas : List (JsString × CollectionSchema)) :
    (catalogJson (createCatalog collate schemas)).isData := by
  have horder : PropertyOrder ((createCatalog collate schemas).map Prod.fst) :=
    PropertyOrder.foldl Prod.fst (fun e => catalogCollection collate e.2) propertyOrder_nil
  rw [catalogJson, Json.isData, Bool.and_eq_true, Json.isDataProps_iff]
  refine ⟨isPropertyList_of_order ?_, fun p hp => ?_⟩
  · rwa [List.map_map]
  · obtain ⟨e, -, rfl⟩ := List.mem_map.1 hp
    exact isData_collection e.2

/-- **A catalog that is read back** is a catalog.  What is lost are the signs of zeros in the
numbers of paths. -/
theorem exists_stored (catalog : DatabaseCatalog) :
    ∃ stored : DatabaseCatalog, catalogJson stored = (catalogJson catalog).unsigned := by
  have hpath : ∀ token : PathToken, token.unsigned.json = token.json.unsigned := by
    intro token
    cases token with
    | name s => rfl
    | index n => cases n <;> rfl
  have hindex : ∀ index : CatalogIndex,
      CatalogIndex.json { index with path := index.path.map PathToken.unsigned } =
        index.json.unsigned := by
    intro index
    simp [CatalogIndex.json, Json.unsigned, Json.unsignedProps, Json.unsignedItems_eq,
      JsonPrimitive.unsigned, hpath]
  refine ⟨catalog.map (Prod.map id fun collection => { collection with
    indexes := collection.indexes.map fun index =>
      { index with path := index.path.map PathToken.unsigned } }), ?_⟩
  simp [catalogJson, CatalogCollection.json, Json.unsigned, Json.unsignedProps_eq,
    Json.unsignedItems_eq, JsonPrimitive.unsigned, hindex]

section

variable {parse : JsString → Option Json} {collate collate' : JsString → JsString → Bool}
  {schemas schemas' : List (JsString × CollectionSchema)} {stored : DatabaseCatalog}

/-- **A stored catalog is equal to another** when the schemas declare the same and both
hosts put the indexes in one order. -/
theorem catalogsEqual_iff (hparse : ReadsJson parse) (hc : IsComparison collate)
    (hc' : IsComparison collate') (h : WellNamed schemas) (h' : WellNamed schemas')
    (hstored : parse (catalogJson (createCatalog collate schemas)).stringify =
      some (catalogJson stored)) :
    catalogsEqual stored (createCatalog collate' schemas') ↔
      SameDeclarations schemas schemas' ∧ OrderedAlike collate schemas collate' schemas' := by
  have hread := (hparse _ (isData_createCatalog collate schemas)).symm.trans hstored
  rw [catalogsEqual, decide_eq_true_iff, ← Option.some.inj hread, Json.stringify_unsigned,
    stringify_eq_iff, catalog_data_iff_same hc hc' h h']

/-- **Comparing catalogs compares the declarations** exactly where schemas that declare the same
have their indexes put in one order by both hosts.  The catalog in storage was written by the
one host and read back; it is compared with that of the other as text. -/
theorem compares_declarations_iff (hparse : ReadsJson parse) (hc : IsComparison collate)
    (hc' : IsComparison collate') (h : WellNamed schemas) (h' : WellNamed schemas')
    (hstored : parse (catalogJson (createCatalog collate schemas)).stringify =
      some (catalogJson stored)) :
    (catalogsEqual stored (createCatalog collate' schemas') ↔ SameDeclarations schemas schemas') ↔
      (SameDeclarations schemas schemas' → OrderedAlike collate schemas collate' schemas') := by
  rw [catalogsEqual_iff hparse hc hc' h h' hstored, and_iff_left_iff_imp]

end

/-! ### Two collations -/

/-- To compare by units is to compare: it is total, and carries over. -/
theorem isComparison_leUnits : IsComparison leUnits where
  trans _ _ _ hab hbc := leUnits_iff.2 (List.le_trans (leUnits_iff.1 hab) (leUnits_iff.1 hbc))
  total a b := by
    rw [Bool.or_eq_true, leUnits_iff, leUnits_iff]
    exact List.le_total a b

/-- A collation that sorts `ä` as `a`; by code units it comes after `z`. -/
def leFolded (a b : JsString) : Bool :=
  leUnits (a.map fun c => if c = 0xE4 then 0x61 else c) (b.map fun c => if c = 0xE4 then 0x61 else c)

/-- To compare without regard to case is to compare: it is total, and carries over. -/
theorem isComparison_leFolded : IsComparison leFolded where
  trans _ _ _ := isComparison_leUnits.trans _ _ _
  total _ _ := isComparison_leUnits.total _ _

/-- A collection of words with the indexes `ä` and `z`, declared in some order. -/
def words (names : List JsString) : List (JsString × CollectionSchema) :=
  [(js "words", {
    generatePrimaryKey := none
    indexes := names.map fun name => ⟨name, [.name name], false⟩
    primaryKey := js "id"
    validate := none
    limits := .none })]

/-- The words with the indexes `ä` and `z`. -/
theorem wellNamed_words : WellNamed (words [[0xE4], [0x7A]]) :=
  wellNamed_of_createIndexes (by decide) (by decide +kernel)

/-- **A catalog of the same schema that is refused** on a host with another collation.  The
two indexes of a collection change places between the hosts, and their names are compared in
order. -/
theorem catalog_refused_abroad : ∃ stored : DatabaseCatalog,
    IsComparison leUnits ∧ IsComparison leFolded ∧ WellNamed (words [[0xE4], [0x7A]]) ∧
    SameDeclarations (words [[0xE4], [0x7A]]) (words [[0xE4], [0x7A]]) ∧
    readWritten (catalogJson (createCatalog leUnits (words [[0xE4], [0x7A]]))).stringify =
      some (catalogJson stored) ∧
    catalogsEqual stored (createCatalog leFolded (words [[0xE4], [0x7A]])) = false := by
  obtain ⟨stored, hstored⟩ := exists_stored (createCatalog leUnits (words [[0xE4], [0x7A]]))
  have hread := readsJson_readWritten _ (isData_createCatalog leUnits (words [[0xE4], [0x7A]]))
  rw [← hstored] at hread
  have hsame := (catalog_data_iff_same isComparison_leUnits isComparison_leUnits wellNamed_words
    wellNamed_words).1 rfl
  refine ⟨stored, isComparison_leUnits, isComparison_leFolded, wellNamed_words, hsame.1, hread, ?_⟩
  rw [← Bool.not_eq_true, catalogsEqual_iff readsJson_readWritten isComparison_leUnits
    isComparison_leFolded wellNamed_words wellNamed_words hread]
  rintro ⟨-, halike⟩
  have hbefore := halike (js "words") _ _ rfl rfl [0x7A] (by decide) [0xE4] (by decide) (by decide)
  exact absurd (hbefore.1 (by decide)) (by decide)

/-- The catalog on the host that stored it.  The equivalence applies on the one host, which puts
the indexes in the order it stored them in. -/
theorem catalog_accepted : ∃ stored : DatabaseCatalog,
    (catalogsEqual stored (createCatalog leUnits (words [[0xE4], [0x7A]])) ↔
        SameDeclarations (words [[0xE4], [0x7A]]) (words [[0xE4], [0x7A]])) ↔
      (SameDeclarations (words [[0xE4], [0x7A]]) (words [[0xE4], [0x7A]]) →
        OrderedAlike leUnits (words [[0xE4], [0x7A]]) leUnits (words [[0xE4], [0x7A]])) := by
  obtain ⟨stored, hstored⟩ := exists_stored (createCatalog leUnits (words [[0xE4], [0x7A]]))
  have hread := readsJson_readWritten _ (isData_createCatalog leUnits (words [[0xE4], [0x7A]]))
  rw [← hstored] at hread
  exact ⟨stored, compares_declarations_iff readsJson_readWritten isComparison_leUnits
    isComparison_leUnits wellNamed_words wellNamed_words hread⟩

end NewtonDB
