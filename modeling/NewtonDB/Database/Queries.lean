/-
# Queries of a database

`_query` of `Database` in `src/database.ts`, in every program.  Its answer is
determined by the documents of the collection, by the condition and by the options
(`answer`), so it depends neither on the plan nor on the declared indexes, pages
join to the whole, and a transaction that sees the same documents finds the same
(`queries_agree`).
-/

import NewtonDB.Database.Programs
import NewtonDB.Engine.QueryPlans

namespace NewtonDB

/-- `_query`. -/
def Database.query (db : Database) (name : JsString) (condition : JsInput)
    (options : QueryOptions) : Except NewtonError QueryExecution := do
  db.assertOpen
  db.root.query name condition options

namespace QueryOptions

/-- The documents that satisfy a condition, in insertion order or sorted. -/
def whole (options : QueryOptions) (c : StoredCollection) (ast : Where) : List JsonObject :=
  options.arrange c.schema (c.documents.filter ast.test)

/-- **What a query should answer**: the slice of the whole result. -/
def answer (options : QueryOptions) (c : StoredCollection) (ast : Where) : List JsonObject :=
  options.slice (options.whole c ast)

/-! ### Pages -/

/-- The first pages, joined.  By induction on the number of pages: a page more takes up where
the ones before end. -/
theorem flatMap_slice (order : Option (List OrderField)) (size : ℕ) (l : List JsonObject) :
    ∀ count, (List.range count).flatMap (fun page =>
      QueryOptions.slice { limit := some size, offset := page * size, order } l) =
        l.take (count * size)
  | 0 => by simp
  | count + 1 => by
      rw [List.range_succ, List.flatMap_append, flatMap_slice order size l count,
        List.flatMap_singleton, Nat.succ_mul, List.take_add]
      rfl

end QueryOptions

/-! ### The schema -/

/-- The comparison of documents only looks for the primary key in the schema.  The paths of the
order are those of the query. -/
theorem compareDocuments_congr {schema schema' : CollectionSchema}
    (h : schema'.primaryKey = schema.primaryKey) (order : List OrderField) :
    compareDocuments schema' order = compareDocuments schema order := by
  induction order with
  | nil =>
      funext left right
      simp only [compareDocuments, sortKey, documentKey, h]
  | cons field order ih =>
      funext left right
      rw [compareDocuments, compareDocuments, ih]

/-- The answer only depends on the documents and the primary key.  Indexes, positions and
encoded keys play no part in what is answered. -/
theorem QueryOptions.answer_congr {c c' : StoredCollection} (hd : c'.documents = c.documents)
    (hp : c'.schema.primaryKey = c.schema.primaryKey) (options : QueryOptions) (ast : Where) :
    options.answer c' ast = options.answer c ast := by
  unfold answer whole arrange
  rw [hd]
  cases options.order with
  | none => rfl
  | some order =>
      show options.slice (sortDocuments ..) = options.slice (sortDocuments ..)
      rw [sortDocuments_eq, sortDocuments_eq, compareDocuments_congr hp]

/-- **A sorted result** has the documents of the unsorted one, each before those that
compare as greater. -/
theorem QueryOptions.whole_sorted {c : StoredCollection} (h : c.Invariant) {ast : Where}
    {options : QueryOptions} {order : List OrderField} (ho : options.order = some order) :
    (options.whole c ast).Perm (c.documents.filter ast.test) ∧
      (options.whole c ast).Pairwise fun a b => compareDocuments c.schema order a b = .lt := by
  have hwhole : options.whole c ast =
      sortDocuments c.schema order (c.documents.filter ast.test) := by
    rw [whole, arrange, ho]
    rfl
  have hperm := sortDocuments_perm c.schema order (c.documents.filter ast.test)
  have hne : (sortDocuments c.schema order (c.documents.filter ast.test)).Pairwise
      fun a b => compareDocuments c.schema order a b ≠ .eq := by
    refine (hperm.pairwise_iff fun {a b} hab heq => hab ?_).2
      ((StoredCollection.pairwise_documents h order).filter _)
    rw [show compareDocuments c.schema order a b = (compareDocuments c.schema order b a).swap from
      Std.OrientedCmp.eq_swap, heq]
    rfl
  rw [hwhole]
  refine ⟨hperm, ((pairwise_sortDocuments c.schema order _).and hne).imp fun {a b} hab => ?_⟩
  obtain ⟨hle, hne⟩ := hab
  cases hcompare : compareDocuments c.schema order a b with
  | lt => rfl
  | eq => exact absurd hcompare hne
  | gt => rw [hcompare] at hle; cases hle

/-- The documents a transaction sees in a collection. -/
def Transaction.contents (t : Transaction) (name : JsString) (stored : StoredCollection) :
    List JsonObject :=
  (t.current name stored).1.filterMap (t.current name stored).2

/-- **What a transaction finds.**  Those documents of the collection, or of its clone in the
transaction, that the condition holds of, in their order. -/
theorem Transaction.query_ok {t : Transaction} {root : Root} {now : ℕ} {name : JsString}
    {condition : JsInput} {stored : StoredCollection} {ast : Where} {documents : List JsonObject}
    (hs : root.stored name = .ok stored)
    (hast : parseWhere defaultQueryLimits condition.heap.graph condition.value = .ok ast)
    (hq : (t.query root now name condition).2 = .ok (.documents documents)) :
    documents = (t.contents name stored).filter ast.test := by
  have hcompile : compileWhere condition = .ok (ast, ast.test) := by rw [compileWhere, hast]; rfl
  have htouch := touchCollection_cases t root now name
  have hworking := touchCollection_working t root now name
  unfold query at hq
  generalize t.touchCollection root now name = touched at htouch hworking hq
  obtain ⟨t', outcome⟩ := touched
  rcases htouch with ⟨error, he⟩ | ⟨stored', _, hs', hok, -⟩
  · obtain ⟨-, rfl⟩ := Prod.mk.inj he
    cases hq
  · obtain rfl : outcome = .ok stored' := hok
    obtain rfl : stored' = stored :=
      Option.some.inj (hs'.symm.trans (Root.stored_eq_ok.1 hs))
    have hcurrent : t'.current name stored' = t.current name stored' := by
      unfold current
      rw [show t'.working = t.working from hworking]
    dsimp only at hq
    rw [hcurrent] at hq
    unfold findDocuments at hq
    simp only [hcompile, bind, Except.bind] at hq
    split_ifs at hq <;> cases hq
    rfl

namespace Runtime

variable {options options' : DatabaseOptions} {schemas schemas' : List (JsString × CollectionSchema)}
  {r r' : Runtime} {name name' : JsString} {c c' : StoredCollection} {condition : JsInput}
  {ast : Where}

/-- A collection of a program has its invariant. -/
theorem Reached.invariant (h : r.Reached options schemas)
    (hc : r.database.root.stored name = .ok c) : c.Invariant :=
  h.declared.engine.root name c (Root.stored_eq_ok.1 hc)

/-- The indexes of a collection of a program go by their names.  Creation puts an index under
its own name, and the declarations are kept in every run. -/
theorem Reached.named (h : r.Reached options schemas)
    (hc : r.database.root.stored name = .ok c) : ∀ e ∈ c.indexes.entries, e.2.name = e.1 := by
  intro e he
  obtain ⟨schema, -, hdecl⟩ := Option.map_eq_some_iff.1
    (h.declared.root name c (Root.stored_eq_ok.1 hc))
  have hdef : schema.indexes.map (fun d => (d.name, d)) = definitions c.indexes :=
    congrArg Declaration.indexes hdecl
  have hm : (e.1, e.2.definition) ∈ definitions c.indexes :=
    List.mem_map_of_mem (f := fun e => (e.1, e.2.definition)) he
  rw [← hdef] at hm
  obtain ⟨d, -, hd⟩ := List.mem_map.1 hm
  obtain ⟨hname, hdefinition⟩ := Prod.mk.inj hd
  rw [← hname, hdefinition]
  rfl

/-- **The answer of a query in a program.**  It is an error when there are too many candidates,
and otherwise the slice of the matches in their order, with the plan that was taken. -/
theorem Reached.query_eq (h : r.Reached options schemas)
    (hc : r.database.root.stored name = .ok c)
    (hast : parseWhere defaultQueryLimits condition.heap.graph condition.value = .ok ast)
    (ho : r.database.assertOpen = .ok ()) (q : QueryOptions) :
    r.database.query name condition q =
      if q.limit ≠ some 0 ∧ maxQueryCandidates < (c.candidateKeys (c.choosePlan ast) ast).length then
        .error (.queryValidation .candidateLimit (js "/execution"))
      else .ok { documents := q.answer c ast, plan := c.choosePlan ast } := by
  have hcompile : compileWhere condition = .ok (ast, ast.test) := by rw [compileWhere, hast]; rfl
  unfold Database.query Root.query
  simp only [ho, hc, hcompile, bind, Except.bind]
  exact StoredCollection.query_eq (h.invariant hc) (h.named hc) ast q

/-- A query that returns gives its answer.  The alternative is an error for too many candidates
or too many results, which does not return. -/
theorem Reached.query_ok (h : r.Reached options schemas)
    (hc : r.database.root.stored name = .ok c)
    (hast : parseWhere defaultQueryLimits condition.heap.graph condition.value = .ok ast)
    {q : QueryOptions} {execution : QueryExecution}
    (hq : r.database.query name condition q = .ok execution) :
    execution = { documents := q.answer c ast, plan := c.choosePlan ast } := by
  obtain ⟨⟨⟩, ho, -⟩ := bind_eq_ok.1 hq
  rw [h.query_eq hc hast ho] at hq
  split_ifs at hq
  exact (Except.ok.inj hq).symm

/-- **Query plans never change the answer.**  A query of a program that returns gives
the slice of the documents that satisfy the condition, in insertion order or sorted
by its order fields and then by the primary key.  Another program whose collection
has the same documents under the same primary key, with whatever indexes, answers
the same; pages join to the whole result; a transaction that sees the documents of
the collection finds what the unordered, unlimited query answers; and an open
database only refuses a query for more than 100,000 candidates, with a limit other
than zero. -/
theorem queries_agree (h : r.Reached options schemas) (hc : r.database.root.stored name = .ok c)
    (hast : parseWhere defaultQueryLimits condition.heap.graph condition.value = .ok ast) :
    (∀ q execution, r.database.query name condition q = .ok execution →
      execution.documents = q.answer c ast) ∧
    (∀ (q : QueryOptions) order, q.order = some order →
      (q.whole c ast).Perm (c.documents.filter ast.test) ∧
      (q.whole c ast).Pairwise fun a b => compareDocuments c.schema order a b = .lt) ∧
    (∀ options' schemas' r' name' c', Reached options' schemas' r' →
      r'.database.root.stored name' = .ok c' → c'.documents = c.documents →
      c'.schema.primaryKey = c.schema.primaryKey → ∀ q execution execution',
        r.database.query name condition q = .ok execution →
        r'.database.query name' condition q = .ok execution' →
        execution'.documents = execution.documents) ∧
    (∀ order size count (page : ℕ → QueryExecution) whole,
      (∀ i < count, r.database.query name condition
        { limit := some size, offset := i * size, order } = .ok (page i)) →
      r.database.query name condition { limit := none, offset := 0, order } = .ok whole →
      whole.documents.length ≤ count * size →
      (List.range count).flatMap (fun i => (page i).documents) = whole.documents) ∧
    (∀ (t : Transaction) root now name' stored documents, Root.stored root name' = .ok stored →
      (t.query root now name' condition).2 = .ok (.documents documents) →
      t.contents name' stored = c.documents → ∀ whole,
        r.database.query name condition { limit := none, offset := 0, order := none } = .ok whole →
        documents = whole.documents) ∧
    (∀ q error, r.database.assertOpen = .ok () → r.database.query name condition q = .error error →
      error = .queryValidation .candidateLimit (js "/execution") ∧ q.limit ≠ some 0 ∧
        100000 < (c.candidateKeys (c.choosePlan ast) ast).length) := by
  refine ⟨fun q execution hq => ?_, fun q order ho => ?_, ?_, ?_, ?_, fun q error ho hq => ?_⟩
  · rw [h.query_ok hc hast hq]
  · exact QueryOptions.whole_sorted (h.invariant hc) ho
  · intro options' schemas' r' name' c' h' hc' hd hp q execution execution' hq hq'
    rw [h.query_ok hc hast hq, h'.query_ok hc' hast hq']
    exact QueryOptions.answer_congr hd hp q ast
  · intro order size count page whole hpage hwhole hlen
    have hall := h.query_ok hc hast hwhole
    rw [hall] at hlen ⊢
    have hpages : (List.range count).flatMap (fun i => (page i).documents) =
        (List.range count).flatMap fun i => QueryOptions.slice
          { limit := some size, offset := i * size, order }
          (QueryOptions.whole { limit := none, offset := 0, order } c ast) := by
      refine List.flatMap_congr fun i hi => ?_
      rw [h.query_ok hc hast (hpage i (List.mem_range.1 hi))]
      rfl
    rw [hpages, QueryOptions.flatMap_slice]
    exact List.take_of_length_le hlen
  · intro t root now name' stored documents hs hq hcontents whole hwhole
    rw [h.query_ok hc hast hwhole, Transaction.query_ok hs hast hq, hcontents]
    rfl
  · rw [h.query_eq hc hast ho] at hq
    split_ifs at hq with hmany
    exact ⟨(Except.error.inj hq).symm, hmany⟩

/-- The condition that a field of a document is equal to a text. -/
def fieldIs (field text : String) : JsInput where
  heap := ⟨fun
    | 0 => .object true [] [(js "op", .data (.string (js "eq"))), (js "path", .data (.ref 1)),
        (js "value", .data (.string (js text)))]
    | _ => .array [.data (.string (js field))]⟩
  value := .ref 0

/-- The primary plan among two notes.  The condition asks for the key, so that the plan has one
candidate. -/
theorem second_note_found : ∃ (r : Runtime) (c : StoredCollection) (ast : Where),
    r.database.root.stored (js "notes") = .ok c ∧ c.choosePlan ast = .primary ∧
    c.documents.length = 2 ∧ ∀ q execution,
      r.database.query (js "notes") (fieldIs "id" "b") q = .ok execution →
      execution.documents = q.answer c ast := by
  obtain ⟨root, r, hroot, hr⟩ := exists_run (f := fun root =>
    (Transition.run (step (notesOptions 1 8)) (start (notesOptions 1 8) root none)
      [.beginTransaction (js "t") 0, addNote 0 "a", addNote 0 "b", .commit 0 0, .resume]).filter
        fun r => ((r.database.root.stored (js "notes")).toOption.bind fun c =>
          (parseWhere defaultQueryLimits (fieldIs "id" "b").heap.graph
            (fieldIs "id" "b").value).toOption.filter fun ast =>
              c.choosePlan ast = .primary ∧ c.documents.length = 2).isSome) (by decide +kernel)
  obtain ⟨hrun, hfound⟩ := Option.filter_eq_some_iff.1 hr
  obtain ⟨ast, hfound⟩ := Option.isSome_iff_exists.1 hfound
  obtain ⟨c, hc, hfound⟩ := Option.bind_eq_some_iff.1 hfound
  obtain ⟨hast, hplan⟩ := Option.filter_eq_some_iff.1 hfound
  obtain ⟨hprimary, hlength⟩ := of_decide_eq_true hplan
  have hreached : r.Reached (notesOptions 1 8) [(js "notes", notes)] :=
    ⟨Json, _, _, _, _, _, _, _, hroot, Transition.run_sound hrun⟩
  have hc := eq_ok_of_toOption hc
  exact ⟨r, c, ast, hc, hprimary, hlength,
    (queries_agree hreached hc (eq_ok_of_toOption hast)).1⟩

end Runtime

end NewtonDB
