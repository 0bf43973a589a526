import SimpleZanzibar.Store.Mutations
import SimpleZanzibar.Store.ViewQuery

/-!
# Queries over materialized relationships

A short-lived reader resolves all rows of a store, the deleted ones included, and runs the
queries of the store over the resolved relationships: the same candidates, the same matchers
and the same limit.

**Results.**
* `Inv.materializedReader`: every store that satisfies the invariant has a reader.
* `queryRelationships_denote`, `reverseQueryRelationships_denote`: the reader yields what the
  references of the compact queries stand for.
* `runCalls_materialized`: over every run of calls the queries of the reader are scans.
-/

namespace SimpleZanzibar

/-- Relationships of all rows, beside the store that they come from. -/
structure MaterializedRelationshipReader where
  store : IndexedRelationshipStore
  rows : List Relationship

namespace IndexedRelationshipStore

/-- Resolves the rows of a table, up to the first that cannot be resolved. -/
def materializeRows (store : IndexedRelationshipStore) :
    List RelationshipRow → Except StoreError (List Relationship)
  | [] => .ok []
  | row :: table => do
      let relationship ← store.relationshipFromRow row.identity
      let rows ← store.materializeRows table
      return relationship :: rows

def materializedReader (store : IndexedRelationshipStore) :
    Except StoreError MaterializedRelationshipReader := do
  let rows ← store.materializeRows store.rowTable
  return ⟨store, rows⟩

/-- The relationships are those of the rows, one by one. -/
theorem materializeRows_ok_iff
    {store : IndexedRelationshipStore} {table : List RelationshipRow} {rs : List Relationship} :
    store.materializeRows table = .ok rs ↔ RowsDenote store.interner table rs := by
  induction table generalizing rs with
  | nil =>
      constructor
      · intro h
        cases h
        exact List.Forall₂.nil
      · intro h
        cases h
        rfl
  | cons row table ih =>
      constructor
      · intro h
        obtain ⟨r, hrow, h⟩ := bind_eq_ok.mp h
        obtain ⟨rest, hrest, h⟩ := bind_eq_ok.mp h
        cases h
        exact List.Forall₂.cons (relationshipFromRow_ok_iff.mp hrow) (ih.mp hrest)
      · intro h
        cases h with
        | cons hrow hrest =>
            exact bind_eq_ok.mpr ⟨_, relationshipFromRow_ok_iff.mpr hrow,
              bind_eq_ok.mpr ⟨_, ih.mpr hrest, rfl⟩⟩

/-- Every store that satisfies the invariant has a reader. -/
theorem Inv.materializedReader
    [StoreHasher]
    {store : IndexedRelationshipStore}
    (hinv : store.Inv) :
    ∃ rows, store.materializedReader = .ok ⟨store, rows⟩ ∧
      RowsDenote store.interner store.rowTable rows := by
  have hdenotes : ∀ table : List RelationshipRow, table ⊆ store.rowTable →
      ∃ rows, RowsDenote store.interner table rows := by
    intro table
    induction table with
    | nil => exact fun _ => ⟨[], List.Forall₂.nil⟩
    | cons row table ih =>
        intro hsub
        obtain ⟨r, hr⟩ := hinv.denotes row (hsub List.mem_cons_self)
        obtain ⟨rows, hrows⟩ := ih (fun other hother => hsub (List.mem_cons_of_mem _ hother))
        exact ⟨r :: rows, List.Forall₂.cons hr hrows⟩
  obtain ⟨rows, hrows⟩ := hdenotes store.rowTable (List.Subset.refl _)
  exact ⟨rows, bind_eq_ok.mpr ⟨rows, materializeRows_ok_iff.mpr hrows, rfl⟩, hrows⟩

end IndexedRelationshipStore

namespace MaterializedRelationshipReader

open IndexedRelationshipStore (RowsDenote relationshipFromRow_ok_iff)

/-- What the iterator yields for a resource matcher. -/
def resourceIter (reader : MaterializedRelationshipReader) (matcher : ResourceMatcher) :
    Nat → List RowId → List Relationship
  | _, [] => []
  | remaining, rowId :: candidates =>
      if reader.store.skips rowId then reader.resourceIter matcher remaining candidates
      else
        match reader.store.rowTable[rowId.index]?, reader.rows[rowId.index]? with
        | some compactRow, some relationship =>
            if remaining = 0 then []
            else if compactRow.identity.matchesResource matcher then
              relationship :: reader.resourceIter matcher (remaining - 1) candidates
            else reader.resourceIter matcher remaining candidates
        | _, _ => []

/-- What the iterator yields for a subject matcher. -/
def subjectIter (reader : MaterializedRelationshipReader) (matcher : SubjectMatcher) :
    List RowId → List Relationship
  | [] => []
  | rowId :: candidates =>
      if reader.store.skips rowId then reader.subjectIter matcher candidates
      else
        match reader.store.rowTable[rowId.index]?, reader.rows[rowId.index]? with
        | some compactRow, some relationship =>
            if compactRow.identity.matchesSubject matcher then
              relationship :: reader.subjectIter matcher candidates
            else reader.subjectIter matcher candidates
        | _, _ => []

section Hashed

variable [StoreHasher]

def queryRelationships (reader : MaterializedRelationshipReader)
    (filter : RelationshipFilter) : List Relationship :=
  match reader.store.resourceMatcher filter with
  | none => []
  | some matcher =>
      reader.resourceIter matcher matcher.remaining
        (reader.store.resourceCandidateRowIds matcher)

def reverseQueryRelationships (reader : MaterializedRelationshipReader)
    (filter : SubjectFilter) : List Relationship :=
  match reader.store.subjectMatcher filter with
  | none => []
  | some matcher => reader.subjectIter matcher (reader.store.subjectCandidateRowIds matcher)

end Hashed

/-- A row of the store and the relationship beside it. -/
theorem getElem?_rows
    {reader : MaterializedRelationshipReader}
    (hrows : RowsDenote reader.store.interner reader.store.rowTable reader.rows)
    (n : Nat) :
    (reader.store.rowTable[n]? = none ∧ reader.rows[n]? = none) ∨
      ∃ row r, reader.store.rowTable[n]? = some row ∧ reader.rows[n]? = some r ∧
        reader.store.relationshipFromRow row.identity = .ok r := by
  have hlength := hrows.length_eq
  by_cases hn : n < reader.store.rowTable.length
  · right
    have hn' : n < reader.rows.length := hlength ▸ hn
    exact ⟨_, _, List.getElem?_eq_getElem hn, List.getElem?_eq_getElem hn',
      relationshipFromRow_ok_iff.mpr (hrows.get hn hn')⟩
  · left
    exact ⟨List.getElem?_eq_none (Nat.not_lt.mp hn),
      List.getElem?_eq_none (hlength ▸ Nat.not_lt.mp hn)⟩

theorem resourceIter_denote
    {reader : MaterializedRelationshipReader}
    (hrows : RowsDenote reader.store.interner reader.store.rowTable reader.rows)
    (matcher : ResourceMatcher) (remaining : Nat) (candidates : List RowId) :
    RefsDenote (reader.store.resourceIter matcher remaining candidates)
      (reader.resourceIter matcher remaining candidates) := by
  induction candidates generalizing remaining with
  | nil =>
      rw [resourceIter, IndexedRelationshipStore.resourceIter]
      exact List.Forall₂.nil
  | cons rowId candidates ih =>
      rw [resourceIter, IndexedRelationshipStore.resourceIter]
      by_cases hskips : reader.store.skips rowId = true
      · rw [if_pos hskips, if_pos hskips]
        exact ih remaining
      · rw [if_neg hskips, if_neg hskips]
        rcases getElem?_rows hrows rowId.index with ⟨hrow, hr⟩ | ⟨row, r, hrow, hr, hresolved⟩
        · rw [hrow, hr]
          exact List.Forall₂.nil
        · rw [hrow, hr]
          dsimp only
          by_cases hremaining : remaining = 0
          · rw [if_pos hremaining, if_pos hremaining]
            exact List.Forall₂.nil
          · rw [if_neg hremaining, if_neg hremaining]
            by_cases hmatch : row.identity.matchesResource matcher = true
            · rw [if_pos hmatch, if_pos hmatch]
              exact List.Forall₂.cons hresolved (ih (remaining - 1))
            · rw [if_neg hmatch, if_neg hmatch]
              exact ih remaining

theorem subjectIter_denote
    {reader : MaterializedRelationshipReader}
    (hrows : RowsDenote reader.store.interner reader.store.rowTable reader.rows)
    (matcher : SubjectMatcher) (candidates : List RowId) :
    RefsDenote (reader.store.subjectIter matcher candidates)
      (reader.subjectIter matcher candidates) := by
  induction candidates with
  | nil =>
      rw [subjectIter, IndexedRelationshipStore.subjectIter]
      exact List.Forall₂.nil
  | cons rowId candidates ih =>
      rw [subjectIter, IndexedRelationshipStore.subjectIter]
      by_cases hskips : reader.store.skips rowId = true
      · rw [if_pos hskips, if_pos hskips]
        exact ih
      · rw [if_neg hskips, if_neg hskips]
        rcases getElem?_rows hrows rowId.index with ⟨hrow, hr⟩ | ⟨row, r, hrow, hr, hresolved⟩
        · rw [hrow, hr]
          exact List.Forall₂.nil
        · rw [hrow, hr]
          dsimp only
          by_cases hmatch : row.identity.matchesSubject matcher = true
          · rw [if_pos hmatch, if_pos hmatch]
            exact List.Forall₂.cons hresolved ih
          · rw [if_neg hmatch, if_neg hmatch]
            exact ih

section Hashed

variable [StoreHasher] {reader : MaterializedRelationshipReader}

/-- The reader yields what the references of the compact query stand for. -/
theorem queryRelationships_denote
    (hrows : RowsDenote reader.store.interner reader.store.rowTable reader.rows)
    (filter : RelationshipFilter) :
    RefsDenote (reader.store.queryCompactRelationships filter)
      (reader.queryRelationships filter) := by
  unfold queryRelationships IndexedRelationshipStore.queryCompactRelationships
  cases reader.store.resourceMatcher filter with
  | none => exact List.Forall₂.nil
  | some matcher => exact resourceIter_denote hrows matcher _ _

theorem reverseQueryRelationships_denote
    (hrows : RowsDenote reader.store.interner reader.store.rowTable reader.rows)
    (filter : SubjectFilter) :
    RefsDenote (reader.store.reverseQueryCompactRelationships filter)
      (reader.reverseQueryRelationships filter) := by
  unfold reverseQueryRelationships IndexedRelationshipStore.reverseQueryCompactRelationships
  cases reader.store.subjectMatcher filter with
  | none => exact List.Forall₂.nil
  | some matcher => exact subjectIter_denote hrows matcher _

end Hashed

end MaterializedRelationshipReader

namespace IndexedRelationshipStore

/-- Over every run of calls from the empty store a reader can be built, and its queries are
scans of the live relationships in the order of their insertion. -/
theorem runCalls_materialized
    [StoreHasher]
    (calls : List MutationCall) :
    let store := (runCalls calls default).2
    ∃ reader, store.materializedReader = .ok reader ∧
      (∀ filter : RelationshipFilter, reader.queryRelationships filter =
        (store.rows.filter (fun r => decide (filter.Matches r))).take filter.limit.get) ∧
      ∀ filter : SubjectFilter, reader.reverseQueryRelationships filter =
        store.rows.filter (fun r => decide (filter.Matches r.subject)) := by
  intro store
  have hg : store.Grown := (grown_default.runCalls calls).1
  obtain ⟨rows, hreader, hrows⟩ := hg.writable.inv.materializedReader
  refine ⟨⟨store, rows⟩, hreader, ?_, ?_⟩
  · intro filter
    have hyields := hg.writable.inv.query filter (Or.inl hg.writable.profile)
    exact (@MaterializedRelationshipReader.queryRelationships_denote _ ⟨store, rows⟩ hrows
      filter).unique hyields.refsDenote
  · intro filter
    have hyields := hg.writable.inv.reverseQuery hg.writable.profile filter
    exact (@MaterializedRelationshipReader.reverseQueryRelationships_denote _ ⟨store, rows⟩ hrows
      filter).unique hyields.refsDenote

end IndexedRelationshipStore

end SimpleZanzibar
