import SimpleZanzibar.Snapshot.File
import SimpleZanzibar.Snapshot.IndexesCorrect
import SimpleZanzibar.Snapshot.SymbolsCorrect

/-!
# What a load of a snapshot file gives

A file that a full load accepts holds distinct symbols, valid and distinct rows and exact
indexes, whoever wrote it.  The other two ways to load it succeed as well and build stores
that answer the same.

**Results.**
* `ValidStore`: what a full load guarantees.
* `loadSnapshotFile_full_valid`: it does so for every byte string that it accepts.
* `StoresAgree`: two stores answer the same.
* `loadSnapshotFile_agree`: the three ways to load an accepted file agree.
-/

namespace SimpleZanzibar

namespace Snapshot

open IdentifierInterner

/-- A symbol resolves to a string that is valid for its place. -/
def ResolvesAs (interner : IdentifierInterner) (kind : IdentifierKind) (id : SymbolId) : Prop :=
  ∃ identifier : Identifier kind, interner.resolve id = .ok identifier.value

/-- Every field of a row resolves to a string that is valid for its place. -/
structure RowResolves (interner : IdentifierInterner) (row : RowIdentity) : Prop where
  resourceType : ResolvesAs interner .objectType row.resourceType
  resourceId : ResolvesAs interner .objectId row.resourceId
  relation : ResolvesAs interner .relationName row.relation
  subjectType : ResolvesAs interner .subjectType row.subjectType
  subjectId : ResolvesAs interner .subjectId row.subjectId
  subjectRelation : ∀ relation, row.subjectRelation = some relation →
    ResolvesAs interner .relationName relation

theorem validateSymbolDomain_eq_ok
    {interner : IdentifierInterner} {kind : IdentifierKind} {id : SymbolId} {u : Unit}
    (h : validateSymbolDomain interner kind id = .ok u) :
    ResolvesAs interner kind id := by
  obtain ⟨value, hvalue, h⟩ := bind_eq_ok.mp h
  obtain ⟨identifier, hidentifier, _⟩ := bind_eq_ok.mp h
  refine ⟨identifier, ?_⟩
  rw [Identifier.new_ok_iff.mp (mapError_eq_ok hidentifier)]
  exact mapError_eq_ok hvalue

theorem validateRowDomains_eq_ok
    {interner : IdentifierInterner} {row : RowIdentity} {u : Unit}
    (h : validateRowDomains interner row = .ok u) :
    RowResolves interner row := by
  obtain ⟨_, hresourceType, h⟩ := bind_eq_ok.mp h
  obtain ⟨_, hresourceId, h⟩ := bind_eq_ok.mp h
  obtain ⟨_, hrelation, h⟩ := bind_eq_ok.mp h
  obtain ⟨_, hsubjectType, h⟩ := bind_eq_ok.mp h
  obtain ⟨_, hsubjectId, h⟩ := bind_eq_ok.mp h
  refine ⟨validateSymbolDomain_eq_ok hresourceType, validateSymbolDomain_eq_ok hresourceId,
    validateSymbolDomain_eq_ok hrelation, validateSymbolDomain_eq_ok hsubjectType,
    validateSymbolDomain_eq_ok hsubjectId, ?_⟩
  intro relation hsome
  rw [hsome] at h
  exact validateSymbolDomain_eq_ok h

/-- A row whose fields are valid stands for a relationship. -/
theorem RowResolves.denotes
    {interner : IdentifierInterner} {row : RowIdentity}
    (h : RowResolves interner row) :
    ∃ r, row.Denotes interner r := by
  obtain ⟨resourceType, hresourceType⟩ := h.resourceType
  obtain ⟨resourceId, hresourceId⟩ := h.resourceId
  obtain ⟨relation, hrelation⟩ := h.relation
  obtain ⟨subjectType, hsubjectType⟩ := h.subjectType
  obtain ⟨subjectId, hsubjectId⟩ := h.subjectId
  let object : ObjectRef :=
    ⟨⟨subjectType.value, (validate_subjectType_iff _).mp subjectType.valid⟩,
      ⟨subjectId.value, (validate_subjectId_iff _).mp subjectId.valid⟩⟩
  cases hsubject : row.subjectRelation with
  | none =>
      refine ⟨⟨⟨resourceType, resourceId⟩, relation, .object object⟩, hresourceType, hresourceId,
        hrelation, hsubjectType, hsubjectId, ?_⟩
      rw [hsubject]
      rfl
  | some own =>
      obtain ⟨subjectRelation, hsubjectRelation⟩ := h.subjectRelation own hsubject
      refine ⟨⟨⟨resourceType, resourceId⟩, relation, .userset object subjectRelation⟩,
        hresourceType, hresourceId, hrelation, hsubjectType, hsubjectId, ?_⟩
      rw [hsubject, Option.map_some, hsubjectRelation]
      rfl

section Rows

variable [StoreHasher]

/-- What the rows of a full load satisfy, row by row. -/
structure RowFold.Valid (interner : IdentifierInterner) (fold : RowFold) : Prop where
  rowIds : ∀ (n : Nat) row, fold.rows[n]? = some row → row.rowId.index = n
  resolves : ∀ row ∈ fold.rows, RowResolves interner row.identity
  detector : fold.duplicateDetector.Inv fold.rows (fun id => id.index < fold.rows.length)

omit [StoreHasher] in
theorem getElem?_append_singleton
    {rows : List RelationshipRow} {row row' : RelationshipRow} {n : Nat}
    (h : (rows ++ [row])[n]? = some row') :
    rows[n]? = some row' ∨ n = rows.length ∧ row = row' := by
  rw [List.getElem?_append] at h
  split at h
  · exact Or.inl h
  · next hge =>
      rw [List.getElem?_singleton] at h
      split at h
      · cases h
        exact Or.inr ⟨by omega, rfl⟩
      · cases h

theorem decodeRow_full
    {interner : IdentifierInterner} {symbolCount : Nat} {fold result : RowFold}
    {diskRow : DiskRow}
    (hvalid : fold.Valid interner)
    (h : decodeRow interner symbolCount .full fold diskRow = .ok result) :
    result.Valid interner ∧ ∃ rowId row, RowId.fromLen fold.rows.length = .ok rowId ∧
      rowFromDisk diskRow symbolCount = .ok row ∧ result.rows = fold.rows ++ [⟨rowId, row⟩] := by
  obtain ⟨rowId, hrowId, h⟩ := bind_eq_ok.mp h
  obtain ⟨row, hrow, h⟩ := bind_eq_ok.mp h
  obtain ⟨_, hdomains, h⟩ := bind_eq_ok.mp h
  obtain ⟨habsent, h⟩ := require_bind_eq_ok.mp h
  cases h
  replace hrowId := mapError_eq_ok hrowId
  have hindex : rowId.index = fold.rows.length := RowId.fromLen_ok_iff.mp hrowId
  refine ⟨⟨?_, ?_, ?_⟩, rowId, row, hrowId, hrow, rfl⟩
  · intro n other hother
    rcases getElem?_append_singleton hother with hother | ⟨rfl, rfl⟩
    · exact hvalid.rowIds n other hother
    · exact hindex
  · intro other hother
    rcases List.mem_append.mp hother with hother | hother
    · exact hvalid.resolves other hother
    · cases List.mem_singleton.mp hother
      exact validateRowDomains_eq_ok hdomains
  · have hinsert := hvalid.detector.insert hindex (Option.isNone_iff_eq_none.mp habsent)
    have hlive : (fun id : RowId =>
        id.index < (fold.rows ++ [(⟨rowId, row⟩ : RelationshipRow)]).length) =
        fun id => id = rowId ∨ id.index < fold.rows.length := by
      funext id
      apply propext
      rw [List.length_append, List.length_singleton]
      constructor
      · intro hlt
        by_cases hlast : id.index = fold.rows.length
        · exact Or.inl (RowId.index_injective (hlast.trans hindex.symm))
        · exact Or.inr (by omega)
      · rintro (rfl | hlt)
        · omega
        · omega
    show RelationshipIdentityIndex.Inv _ (fold.rows ++ [⟨rowId, row⟩]) _
    rw [hlive]
    exact hinsert

theorem rowFold_valid_nil
    (interner : IdentifierInterner) :
    RowFold.Valid interner ⟨[], .default⟩ := by
  refine ⟨fun _ _ h => (by cases h), fun _ h => (by cases h), ?_⟩
  have hlive : (fun id : RowId => id.index < ([] : List RelationshipRow).length) =
      fun _ => False := by
    funext id
    exact propext ⟨fun h => absurd h (Nat.not_lt_zero _), False.elim⟩
  show RelationshipIdentityIndex.Inv _ [] _
  rw [hlive]
  exact RelationshipIdentityIndex.inv_default []

/-- The rows of a full load, and that a trusted load decodes the same ones. -/
theorem decodeRow_foldlM
    {interner : IdentifierInterner} {symbolCount : Nat} {diskRows : List DiskRow}
    {fold result : RowFold}
    (hvalid : fold.Valid interner)
    (h : diskRows.foldlM (decodeRow interner symbolCount .full) fold = .ok result) :
    result.Valid interner ∧ ∀ trusted detector, ∃ other,
      diskRows.foldlM (decodeRow trusted symbolCount .trustedFastLoad) ⟨fold.rows, detector⟩ =
        .ok other ∧ other.rows = result.rows := by
  induction diskRows generalizing fold with
  | nil =>
      cases h
      exact ⟨hvalid, fun trusted detector => ⟨_, rfl, rfl⟩⟩
  | cons diskRow diskRows ih =>
      rw [List.foldlM_cons] at h
      obtain ⟨middle, hmiddle, hrest⟩ := bind_eq_ok.mp h
      obtain ⟨hvalid', rowId, row, hrowId, hrow, hrows⟩ := decodeRow_full hvalid hmiddle
      obtain ⟨hresult, htrusted⟩ := ih hvalid' hrest
      refine ⟨hresult, ?_⟩
      intro trusted detector
      obtain ⟨other, hother, hsame⟩ := htrusted trusted detector
      refine ⟨other, ?_, hsame⟩
      rw [List.foldlM_cons]
      refine bind_eq_ok.mpr ⟨⟨middle.rows, detector⟩, ?_, hother⟩
      rw [hrows]
      refine bind_eq_ok.mpr ⟨rowId, ?_, bind_eq_ok.mpr ⟨row, hrow, rfl⟩⟩
      rw [hrowId]
      rfl

end Rows

/-- The index answers every key with the rows that have it, in ascending order, or, when it
is not kept, with none. -/
structure IndexValid {K : Type} [DecidableEq K] [IndexKey K] (kept : Bool) (index : PostingIndex K)
    (rows : List RelationshipRow) (keysOf : RowIdentity → List K) : Prop where
  exact : kept = true → IndexExact index rows keysOf
  empty : kept = false → ∀ key, index.candidates key = []

/-- Two indexes over the same rows answer the same. -/
theorem IndexValid.candidates_eq
    {K : Type} [DecidableEq K] [IndexKey K] {kept : Bool} {index index' : PostingIndex K}
    {rows : List RelationshipRow} {keysOf : RowIdentity → List K}
    (h : IndexValid kept index rows keysOf)
    (h' : IndexValid kept index' rows keysOf)
    (key : K) :
    index.candidates key = index'.candidates key := by
  cases kept with
  | true => rw [(h.exact rfl).candidates, (h'.exact rfl).candidates]
  | false => rw [h.empty rfl, h'.empty rfl]

/-- What a full load of the indexes guarantees. -/
structure IndexesValid (profile : IndexProfile) (rows : List RelationshipRow)
    (indexes : DecodedIndexes) : Prop where
  resource : IndexValid true indexes.resource rows (fun row => [row.resourceKey])
  resourceObject : IndexValid profile.supportsBroadResourceIndexes indexes.resourceObject rows
    (fun row => [row.resourceObjectKey])
  resourceTypeRelation : IndexValid profile.supportsBroadResourceIndexes
    indexes.resourceTypeRelation rows (fun row => [row.resourceTypeRelationKey])
  resourceType : IndexValid profile.supportsBroadResourceIndexes indexes.resourceType rows
    (fun row => [row.resourceType])
  subject : IndexValid profile.supportsSubjectReverseLookup indexes.subject rows
    RowIdentity.subjectKeys
  subjectTypeRelation : IndexValid profile.supportsSubjectReverseLookup
    indexes.subjectTypeRelation rows (fun row => row.subjectTypeRelationKey.toList)
  subjectType : IndexValid profile.supportsSubjectReverseLookup indexes.subjectType rows
    (fun row => [row.subjectType])

theorem indexValid_of_decodeIndex
    {K : Type} [DecidableEq K] [IndexKey K] {decoder : IndexDecoder K}
    {keysOf : RowIdentity → List K}
    {diskKey : K → DiskIndexKey} {bit : K → UInt8} {input : IndexDecodeInput}
    {count count' : Nat} {index : PostingIndex K}
    (hlawful : decoder.Lawful keysOf diskKey bit)
    (hvalidation : input.validation = .full)
    (hrowIds : ∀ (n : Nat) row, input.rows[n]? = some row → row.rowId.index = n)
    (h : decodeIndex input decoder count = .ok (index, count')) :
    IndexValid (decoder.requiredByProfile input.indexProfile) index input.rows keysOf :=
  ⟨fun hkept => decodeIndex_exact hlawful hvalidation hrowIds hkept h,
    fun hkept => decodeIndex_empty hlawful hvalidation hrowIds hkept h⟩

/-- The seven indexes of a full load. -/
theorem indexesValid_of_decode
    {input : IndexDecodeInput} {indexes : DecodedIndexes}
    (hvalidation : input.validation = .full)
    (hrowIds : ∀ (n : Nat) row, input.rows[n]? = some row → row.rowId.index = n)
    (h : decodeAllIndexes input = .ok indexes) :
    IndexesValid input.indexProfile input.rows indexes := by
  obtain ⟨⟨resource, count₁⟩, h₁, h⟩ := bind_eq_ok.mp h
  obtain ⟨⟨resourceObject, count₂⟩, h₂, h⟩ := bind_eq_ok.mp h
  obtain ⟨⟨resourceTypeRelation, count₃⟩, h₃, h⟩ := bind_eq_ok.mp h
  obtain ⟨⟨resourceType, count₄⟩, h₄, h⟩ := bind_eq_ok.mp h
  obtain ⟨⟨subject, count₅⟩, h₅, h⟩ := bind_eq_ok.mp h
  obtain ⟨⟨subjectTypeRelation, count₆⟩, h₆, h⟩ := bind_eq_ok.mp h
  obtain ⟨⟨subjectType, count₇⟩, h₇, h⟩ := bind_eq_ok.mp h
  obtain ⟨_, _, h⟩ := bind_eq_ok.mp h
  cases h
  exact ⟨indexValid_of_decodeIndex lawful_resource hvalidation hrowIds h₁,
    indexValid_of_decodeIndex lawful_resourceObject hvalidation hrowIds h₂,
    indexValid_of_decodeIndex lawful_resourceTypeRelation hvalidation hrowIds h₃,
    indexValid_of_decodeIndex lawful_resourceType hvalidation hrowIds h₄,
    indexValid_of_decodeIndex lawful_subject hvalidation hrowIds h₅,
    indexValid_of_decodeIndex lawful_subjectTypeRelation hvalidation hrowIds h₆,
    indexValid_of_decodeIndex lawful_subjectType hvalidation hrowIds h₇⟩

/-- The other two ways to load checked indexes. -/
theorem decodeAllIndexes_agree
    {input : IndexDecodeInput} {indexes : DecodedIndexes}
    (hvalidation : input.validation = .full)
    (hprofile : input.profile = .fastLoad)
    (h : decodeAllIndexes input = .ok indexes) :
    decodeAllIndexes (input.withMode .fastLoad .trustedFastLoad) = .ok indexes ∧
      ∃ latency, decodeAllIndexes (input.withMode .latency .full) = .ok latency := by
  obtain ⟨⟨resource, count₁⟩, h₁, h⟩ := bind_eq_ok.mp h
  obtain ⟨⟨resourceObject, count₂⟩, h₂, h⟩ := bind_eq_ok.mp h
  obtain ⟨⟨resourceTypeRelation, count₃⟩, h₃, h⟩ := bind_eq_ok.mp h
  obtain ⟨⟨resourceType, count₄⟩, h₄, h⟩ := bind_eq_ok.mp h
  obtain ⟨⟨subject, count₅⟩, h₅, h⟩ := bind_eq_ok.mp h
  obtain ⟨⟨subjectTypeRelation, count₆⟩, h₆, h⟩ := bind_eq_ok.mp h
  obtain ⟨⟨subjectType, count₇⟩, h₇, h⟩ := bind_eq_ok.mp h
  obtain ⟨_, hcount, h⟩ := bind_eq_ok.mp h
  cases h
  constructor
  · exact bind_eq_ok.mpr ⟨_, decodeIndex_trusted hvalidation hprofile h₁,
      bind_eq_ok.mpr ⟨_, decodeIndex_trusted hvalidation hprofile h₂,
      bind_eq_ok.mpr ⟨_, decodeIndex_trusted hvalidation hprofile h₃,
      bind_eq_ok.mpr ⟨_, decodeIndex_trusted hvalidation hprofile h₄,
      bind_eq_ok.mpr ⟨_, decodeIndex_trusted hvalidation hprofile h₅,
      bind_eq_ok.mpr ⟨_, decodeIndex_trusted hvalidation hprofile h₆,
      bind_eq_ok.mpr ⟨_, decodeIndex_trusted hvalidation hprofile h₇,
      bind_eq_ok.mpr ⟨_, hcount, rfl⟩⟩⟩⟩⟩⟩⟩⟩
  · obtain ⟨_, h₁'⟩ := decodeIndex_latency hvalidation h₁
    obtain ⟨_, h₂'⟩ := decodeIndex_latency hvalidation h₂
    obtain ⟨_, h₃'⟩ := decodeIndex_latency hvalidation h₃
    obtain ⟨_, h₄'⟩ := decodeIndex_latency hvalidation h₄
    obtain ⟨_, h₅'⟩ := decodeIndex_latency hvalidation h₅
    obtain ⟨_, h₆'⟩ := decodeIndex_latency hvalidation h₆
    obtain ⟨_, h₇'⟩ := decodeIndex_latency hvalidation h₇
    exact ⟨_, bind_eq_ok.mpr ⟨_, h₁', bind_eq_ok.mpr ⟨_, h₂', bind_eq_ok.mpr ⟨_, h₃',
      bind_eq_ok.mpr ⟨_, h₄', bind_eq_ok.mpr ⟨_, h₅', bind_eq_ok.mpr ⟨_, h₆',
      bind_eq_ok.mpr ⟨_, h₇', bind_eq_ok.mpr ⟨_, hcount, rfl⟩⟩⟩⟩⟩⟩⟩⟩⟩

/-- The seven indexes of a store. -/
def indexesOf (store : IndexedRelationshipStore) : DecodedIndexes where
  resource := store.byResource
  resourceObject := store.byResourceObject
  resourceTypeRelation := store.byResourceTypeRelation
  resourceType := store.byResourceType
  subject := store.bySubject
  subjectTypeRelation := store.bySubjectTypeRelation
  subjectType := store.bySubjectType

/-- What a full load guarantees: distinct symbols, rows that are numbered in order, valid and
distinct, and indexes that hold exactly them. -/
structure ValidStore (store : IndexedRelationshipStore) : Prop where
  symbols : store.interner.entries.Nodup
  rowIds : ∀ (n : Nat) row, store.rowTable[n]? = some row → row.rowId.index = n
  allLive : store.liveRows = .full store.rowTable.length
  resolves : ∀ row ∈ store.rowTable, RowResolves store.interner row.identity
  distinct : (store.rowTable.map (·.identity)).Nodup
  indexes : IndexesValid store.indexProfile store.rowTable (indexesOf store)

/-- Two stores hold the same rows, resolve and look up the same symbols and answer every key
of every index the same. -/
structure StoresAgree [StoreHasher] (a b : IndexedRelationshipStore) : Prop where
  rowTable : a.rowTable = b.rowTable
  liveRows : a.liveRows = b.liveRows
  resolve : ∀ id, a.interner.resolve id = b.interner.resolve id
  lookup : ∀ value, a.interner.lookup value = b.interner.lookup value
  resource : ∀ key, a.byResource.candidates key = b.byResource.candidates key
  resourceObject : ∀ key,
    a.byResourceObject.candidates key = b.byResourceObject.candidates key
  resourceTypeRelation : ∀ key,
    a.byResourceTypeRelation.candidates key = b.byResourceTypeRelation.candidates key
  resourceType : ∀ key, a.byResourceType.candidates key = b.byResourceType.candidates key
  subject : ∀ key, a.bySubject.candidates key = b.bySubject.candidates key
  subjectTypeRelation : ∀ key,
    a.bySubjectTypeRelation.candidates key = b.bySubjectTypeRelation.candidates key
  subjectType : ∀ key, a.bySubjectType.candidates key = b.bySubjectType.candidates key

section Store

variable [StoreHasher]

/-- Rows that the duplicate detector accepted are distinct. -/
theorem RowFold.Valid.distinct
    {interner : IdentifierInterner} {fold : RowFold}
    (h : fold.Valid interner) :
    (fold.rows.map (·.identity)).Nodup := by
  have hinjective : ∀ row ∈ fold.rows, ∀ row' ∈ fold.rows, row.identity = row'.identity →
      row = row' := by
    intro row hrow row' hrow' hsame
    obtain ⟨n, hn⟩ := List.mem_iff_getElem?.mp hrow
    obtain ⟨m, hm⟩ := List.mem_iff_getElem?.mp hrow'
    have hnth := h.rowIds n row hn
    have hmth := h.rowIds m row' hm
    have heq := h.detector.unique row.rowId row'.rowId
      (by rw [hnth]; exact (List.getElem?_eq_some_iff.mp hn).1)
      (by rw [hmth]; exact (List.getElem?_eq_some_iff.mp hm).1)
      row row' (by rw [hnth]; exact hn) (by rw [hmth]; exact hm) hsame
    have hsamePlace : n = m := by
      rw [← hnth, ← hmth, heq]
    rw [hsamePlace, hm] at hn
    exact (Option.some.inj hn).symm
  apply List.Nodup.map_on hinjective
  rw [List.nodup_iff_pairwise_ne, List.pairwise_iff_getElem]
  intro i j hi hj hlt heq
  have hith := h.rowIds i _ (List.getElem?_eq_getElem hi)
  have hjth := h.rowIds j _ (List.getElem?_eq_getElem hj)
  rw [heq, hjth] at hith
  omega

variable [Blake3Hash]

/-- What a full load of a store consists of. -/
theorem decodeStore_full
    {reader : Reader} {profile : SnapshotLoadProfile} {store : IndexedRelationshipStore}
    (h : decodeStore reader profile .full = .ok store) :
    ValidStore store ∧ store.interner.Inv ∧ store.indexProfile = reader.header.indexProfile := by
  obtain ⟨interner, hinterner, h⟩ := bind_eq_ok.mp h
  obtain ⟨rows, hrows, h⟩ := bind_eq_ok.mp h
  obtain ⟨indexes, hindexes, h⟩ := bind_eq_ok.mp h
  cases h
  obtain ⟨hinv, _, _⟩ := decodeInterner_full hinterner
  obtain ⟨diskRows, _, hrows⟩ := bind_eq_ok.mp hrows
  obtain ⟨fold, hfold, hrows⟩ := bind_eq_ok.mp hrows
  cases hrows
  obtain ⟨hvalid, _⟩ := decodeRow_foldlM (rowFold_valid_nil interner) hfold
  obtain ⟨_, _, hindexes⟩ := bind_eq_ok.mp hindexes
  obtain ⟨_, _, hindexes⟩ := bind_eq_ok.mp hindexes
  obtain ⟨_, _, hindexes⟩ := bind_eq_ok.mp hindexes
  obtain ⟨_, _, hindexes⟩ := bind_eq_ok.mp hindexes
  obtain ⟨_, _, hindexes⟩ := bind_eq_ok.mp hindexes
  exact ⟨⟨hinv.nodup, hvalid.rowIds, rfl, hvalid.resolves, hvalid.distinct,
    indexesValid_of_decode rfl hvalid.rowIds hindexes⟩, hinv, rfl⟩

omit [Blake3Hash] in
/-- A store with what a full load guarantees satisfies the invariant of stores. -/
theorem ValidStore.inv
    {store : IndexedRelationshipStore}
    (hvalid : ValidStore store)
    (hinterner : store.interner.Inv)
    (hready : ∀ index, store.uniqueness ≠ .ready index) :
    store.Inv where
  interner := hinterner
  rowIds := hvalid.rowIds
  denotes := fun row hrow => (hvalid.resolves row hrow).denotes
  allLive := by
    intro len hlen
    rw [hvalid.allLive] at hlen
    exact (Option.some.inj hlen).symm
  bounded := by
    intro rowId hlive
    unfold IndexedRelationshipStore.Live at hlive
    rw [hvalid.allLive, LiveRows.contains_full] at hlive
    exact of_decide_eq_true hlive
  unique := by
    intro a b _ _ row row' hrow hrow' hsame
    have hplace := (List.getElem?_inj (i := a.index) (j := b.index)
      (by rw [List.length_map]; exact (List.getElem?_eq_some_iff.mp hrow).1) hvalid.distinct).mp
      (by rw [List.getElem?_map, List.getElem?_map, hrow, hrow']; exact congrArg some hsame)
    exact RowId.index_injective hplace
  uniqueness := fun index hindex => absurd hindex (hready index)
  byResource := hvalid.indexes.resource.exact rfl
  broad := by
    intro hfull
    have hindexes := hvalid.indexes
    rw [hfull] at hindexes
    exact ⟨hindexes.resourceObject.exact rfl, hindexes.resourceTypeRelation.exact rfl,
      hindexes.resourceType.exact rfl, hindexes.subject.exact rfl,
      hindexes.subjectTypeRelation.exact rfl, hindexes.subjectType.exact rfl⟩
  reduced := by
    intro hreduced
    have hbroad : store.indexProfile.supportsBroadResourceIndexes = false := by
      cases hprofile : store.indexProfile with
      | full => exact absurd hprofile hreduced
      | checkOnly => rfl
      | checkAndObjectAudit => rfl
    exact ⟨hvalid.indexes.resourceObject.empty hbroad,
      hvalid.indexes.resourceTypeRelation.empty hbroad, hvalid.indexes.resourceType.empty hbroad⟩

/-- A fully loaded store satisfies the invariant of stores. -/
theorem decodeStore_full_inv
    {reader : Reader} {profile : SnapshotLoadProfile} {store : IndexedRelationshipStore}
    (h : decodeStore reader profile .full = .ok store) :
    store.Inv := by
  obtain ⟨hvalid, hinterner, _⟩ := decodeStore_full h
  refine hvalid.inv hinterner ?_
  obtain ⟨_, _, h⟩ := bind_eq_ok.mp h
  obtain ⟨_, _, h⟩ := bind_eq_ok.mp h
  obtain ⟨_, _, h⟩ := bind_eq_ok.mp h
  cases h
  intro index hready
  cases hready

/-- The three ways to load a store that a full load accepts. -/
theorem decodeStore_agree
    {reader : Reader} {store : IndexedRelationshipStore}
    (h : decodeStore reader .fastLoad .full = .ok store) :
    (∃ latency, decodeStore reader .latency .full = .ok latency ∧ StoresAgree store latency) ∧
      ∃ trusted, decodeStore reader .fastLoad .trustedFastLoad = .ok trusted ∧
        StoresAgree store trusted := by
  obtain ⟨hstore, hinv, _⟩ := decodeStore_full h
  obtain ⟨interner, hinterner, h⟩ := bind_eq_ok.mp h
  obtain ⟨rows, hrows, h⟩ := bind_eq_ok.mp h
  obtain ⟨indexes, hindexes, h⟩ := bind_eq_ok.mp h
  cases h
  obtain ⟨_, _, trustedInterner, htrusted, htrustedInv, hentries⟩ :=
    decodeInterner_full hinterner
  have htrustedRows : decodeSnapshotRows reader trustedInterner .trustedFastLoad = .ok rows := by
    obtain ⟨diskRows, hdiskRows, hrows⟩ := bind_eq_ok.mp hrows
    obtain ⟨fold, hfold, hrows⟩ := bind_eq_ok.mp hrows
    cases hrows
    obtain ⟨_, hother⟩ := decodeRow_foldlM (rowFold_valid_nil interner) hfold
    obtain ⟨other, hother, hsame⟩ := hother trustedInterner .default
    exact bind_eq_ok.mpr ⟨diskRows, hdiskRows, bind_eq_ok.mpr ⟨other, hother, by rw [hsame]; rfl⟩⟩
  obtain ⟨directory, hdirectory, hindexes⟩ := bind_eq_ok.mp hindexes
  obtain ⟨keys, hkeys, hindexes⟩ := bind_eq_ok.mp hindexes
  obtain ⟨ranges, hranges, hindexes⟩ := bind_eq_ok.mp hindexes
  obtain ⟨postings, hpostings, hindexes⟩ := bind_eq_ok.mp hindexes
  obtain ⟨_, hlayout, hindexes⟩ := bind_eq_ok.mp hindexes
  obtain ⟨htrustedIndexes, latency, hlatency⟩ := decodeAllIndexes_agree rfl rfl hindexes
  constructor
  · have hlatencyStore : decodeStore reader .latency .full = .ok _ :=
      bind_eq_ok.mpr ⟨interner, hinterner, bind_eq_ok.mpr ⟨rows, hrows, bind_eq_ok.mpr ⟨latency,
        bind_eq_ok.mpr ⟨directory, hdirectory, bind_eq_ok.mpr ⟨keys, hkeys,
        bind_eq_ok.mpr ⟨ranges, hranges, bind_eq_ok.mpr ⟨postings, hpostings,
        bind_eq_ok.mpr ⟨(), hlayout, hlatency⟩⟩⟩⟩⟩, rfl⟩⟩⟩
    obtain ⟨hlatencyValid, _, _⟩ := decodeStore_full hlatencyStore
    refine ⟨_, hlatencyStore, rfl, rfl, fun _ => rfl, fun _ => rfl, ?_, ?_, ?_, ?_, ?_, ?_, ?_⟩
    · exact hstore.indexes.resource.candidates_eq hlatencyValid.indexes.resource
    · exact hstore.indexes.resourceObject.candidates_eq hlatencyValid.indexes.resourceObject
    · exact hstore.indexes.resourceTypeRelation.candidates_eq
        hlatencyValid.indexes.resourceTypeRelation
    · exact hstore.indexes.resourceType.candidates_eq hlatencyValid.indexes.resourceType
    · exact hstore.indexes.subject.candidates_eq hlatencyValid.indexes.subject
    · exact hstore.indexes.subjectTypeRelation.candidates_eq
        hlatencyValid.indexes.subjectTypeRelation
    · exact hstore.indexes.subjectType.candidates_eq hlatencyValid.indexes.subjectType
  · refine ⟨_, bind_eq_ok.mpr ⟨trustedInterner, htrusted, bind_eq_ok.mpr ⟨rows, htrustedRows,
      bind_eq_ok.mpr ⟨indexes, bind_eq_ok.mpr ⟨directory, hdirectory, bind_eq_ok.mpr ⟨keys, hkeys,
      bind_eq_ok.mpr ⟨ranges, hranges, bind_eq_ok.mpr ⟨postings, hpostings,
      bind_eq_ok.mpr ⟨(), hlayout, htrustedIndexes⟩⟩⟩⟩⟩, rfl⟩⟩⟩, rfl, rfl, ?_, ?_,
      fun _ => rfl, fun _ => rfl, fun _ => rfl, fun _ => rfl, fun _ => rfl, fun _ => rfl,
      fun _ => rfl⟩
    · intro id
      show interner.resolve id = trustedInterner.resolve id
      rw [IdentifierInterner.resolve, IdentifierInterner.resolve, hentries]
    · exact lookup_eq_of_entries hinv htrustedInv hentries.symm

end Store

section File

variable [Blake3Hash] [StoreHasher] [Zstd]

/-- The steps of a load. -/
theorem loadSnapshotFile_eq_ok
    {listing : MapListing} {file : List UInt8} {options : LoadOptions}
    {snapshot : RevisionSnapshot}
    (h : loadSnapshotFile listing file options = .ok snapshot) :
    ∃ bytes reader configs schema store,
      validateLoadOptions options = .ok () ∧
      readDecodePayload file options = .ok bytes ∧
      parseReader bytes options = .ok reader ∧
      compileSnapshotSchema listing reader = .ok (configs, schema, SchemaHash.forSchema schema) ∧
      decodeStore reader options.profile options.validation = .ok store ∧
      snapshot = ⟨⟨schema, .fromCheckpoint store⟩, reader.header.createdRevision,
        SchemaHash.forSchema schema, WriterState.insertConfigs ∅ configs⟩ := by
  obtain ⟨_, hoptions, h⟩ := bind_eq_ok.mp h
  obtain ⟨bytes, hbytes, h⟩ := bind_eq_ok.mp h
  obtain ⟨reader, hreader, h⟩ := bind_eq_ok.mp h
  obtain ⟨⟨configs, schema, schemaHash⟩, hschema, h⟩ := bind_eq_ok.mp h
  obtain ⟨store, hstore, h⟩ := bind_eq_ok.mp h
  cases h
  have hhash : schemaHash = SchemaHash.forSchema schema := by
    obtain ⟨_, _, hschema⟩ := bind_eq_ok.mp hschema
    obtain ⟨_, _, hschema⟩ := bind_eq_ok.mp hschema
    obtain ⟨_, _, hschema⟩ := bind_eq_ok.mp hschema
    obtain ⟨_, _, hschema⟩ := bind_eq_ok.mp hschema
    cases hschema
    rfl
  subst hhash
  exact ⟨bytes, reader, configs, schema, store, mapError_eq_ok hoptions, mapError_eq_ok hbytes,
    mapError_eq_ok hreader, hschema, mapError_eq_ok hstore, rfl⟩

end File

/-! ## Files with few rows -/

/-- A digest of 32 bytes, to write files with: the sum of the bytes. -/
@[reducible] def sumHash : Blake3Hash where
  hash bytes := Vector.replicate 32 (bytes.foldl (· + ·) 0)

/-- A compressor that stores. -/
@[reducible] def storedZstd : Zstd where
  minLevel := -7
  maxLevel := 22
  encodeAll _ bytes := some bytes
  readToEnd limit file := some (file.take limit)

/-- The sections of a file with few symbols and rows.  The symbols are given in the order of
their hashes as well. -/
def rowSections (symbols : List String) (rows : List DiskRow) (lookup : List UInt8)
    (schemaSource : String) : Except SnapshotIoError SectionWriter := do
  let pool := symbols.flatMap stringBytes
  let (symbolTable, tableFlags) :=
    encodeV3SymbolTable (internedStrings 0 symbols) pool.length .compact
  let hashes := symbols.flatMap (fun value =>
    LittleEndian.encode 8 (fnvHasher.hashValue value).toNat)
  let (directory, indexes) ← encodeSnapshotIndexes rows .full
  return ⟨[⟨.schema, 0, stringBytes schemaSource, 1⟩,
    ⟨.symbolBytes, 0, pool, pool.length⟩,
    ⟨.symbolTable, tableFlags, symbolTable, symbols.length⟩,
    ⟨.relationshipRows, 0, rows.flatMap (fun row => row.encodeWidth .u8), rows.length⟩,
    ⟨.indexDirectory, 0, directory, 7⟩,
    ⟨.indexKeys, 0, indexes.keys, indexes.keyCount⟩,
    ⟨.postingRanges, 0, indexes.ranges, indexes.rangeCount⟩,
    ⟨.postingRowIds, 0, indexes.postingRowIds, indexes.postingRowIdCount⟩,
    ⟨.symbolHashes, 0, hashes, symbols.length⟩,
    ⟨.symbolLookup, 0, lookup, symbols.length⟩]⟩

/-- The file of these sections, at the first revision. -/
def rowFile (symbols : List String) (rows : List DiskRow) (lookup : List UInt8)
    (schemaSource : String) : Except SnapshotFileError (List UInt8) := do
  let _ := sumHash
  let configs ← (parseDsl schemaSource).mapError .schema
  let schema ← (compileLegacyConfigs .latestFirst configs).mapError .schema
  let writer ← (rowSections symbols rows lookup schemaSource).mapError .io
  (writeUncompressedSnapshotFile (SchemaHash.forSchema schema) .first writer .full).mapError .io

/-- The file with the row `doc:1#viewer@user:alice` under a schema text. -/
def oneRowFile (schemaSource : String) : Except SnapshotFileError (List UInt8) :=
  rowFile ["doc", "1", "viewer", "user", "alice"] [⟨1, 2, 3, 4, 5, 0⟩] [3, 5, 4, 2, 1]
    schemaSource

/-- A schema text with the relations of documents and groups. -/
def sharedSource : String :=
  "namespace doc \x7b relation viewer \x7b\x7d \x7d " ++
    "namespace group \x7b relation member \x7b\x7d \x7d"

/-- The file with `doc:1#viewer` for `user:alice`, for `user:bob` and for `group:eng#member`:
the rows share their resource, two of them the type of their subject. -/
def sharedRowsFile : Except SnapshotFileError (List UInt8) :=
  rowFile ["doc", "1", "viewer", "user", "alice", "bob", "group", "eng", "member"]
    [⟨1, 2, 3, 4, 5, 0⟩, ⟨1, 2, 3, 4, 6, 0⟩, ⟨1, 2, 3, 7, 8, 9⟩] [6, 3, 5, 4, 9, 2, 8, 1, 7]
    sharedSource

def fullFastLoad : LoadOptions :=
  ⟨.none, .fastLoad, .full, .checksum, ⟨1048576, by decide, by decide⟩, .full⟩

/-- A full load of a file. -/
def loadFull (file : Except SnapshotFileError (List UInt8)) :
    Except SnapshotFileError (@RevisionSnapshot (@instBlake3OfBlake3Hash sumHash)) :=
  file.bind (fun bytes =>
    @loadSnapshotFile sumHash fnvHasher storedZstd .latestFirst bytes fullFastLoad)

theorem loadFull_accepted
    {file : Except SnapshotFileError (List UInt8)}
    (h : (loadFull file).isOk = true) :
    ∃ bytes snapshot, file = .ok bytes ∧
      @loadSnapshotFile sumHash fnvHasher storedZstd .latestFirst bytes fullFastLoad =
        .ok snapshot := by
  cases hload : loadFull file with
  | error error =>
      rw [hload] at h
      cases h
  | ok snapshot =>
      obtain ⟨bytes, hfile, hsnapshot⟩ := bind_eq_ok.mp hload
      exact ⟨bytes, snapshot, hfile, hsnapshot⟩

theorem loadFull_sharedRowsFile :
    (loadFull sharedRowsFile).isOk = true := by
  decide +kernel

/-- The rows of the file and what its indexes answer: three rows under the resource, and two of
them under the type of their subject. -/
theorem loadFull_sharedRowsFile_rows :
    (loadFull sharedRowsFile).toOption.any (fun snapshot =>
      let store := snapshot.relationships.checkpoint
      decide (store.rows.length = 3) &&
        store.rowTable.any (fun row =>
          (store.byResource.candidates row.identity.resourceKey).length == 3 &&
            (store.bySubjectType.candidates row.identity.subjectType).length == 2)) = true := by
  decide +kernel

/-! ## What a load guarantees -/

section Loads

variable [Blake3Hash] [StoreHasher] [Zstd]

/-- Every byte string that a full load accepts holds distinct symbols, valid and distinct rows
and exact indexes for the profile of its header. -/
theorem loadSnapshotFile_full_valid
    (listing : MapListing) (file : List UInt8) (options : LoadOptions)
    (snapshot : RevisionSnapshot)
    (hfull : options.validation = .full)
    (h : loadSnapshotFile listing file options = .ok snapshot) :
    ∃ bytes reader store, readDecodePayload file options = .ok bytes ∧
      parseReader bytes options = .ok reader ∧
      snapshot.relationships = .fromCheckpoint store ∧
      store.indexProfile = reader.header.indexProfile ∧ ValidStore store := by
  obtain ⟨bytes, reader, configs, schema, store, _, hbytes, hreader, _, hstore, rfl⟩ :=
    loadSnapshotFile_eq_ok h
  rw [hfull] at hstore
  obtain ⟨hvalid, _, hprofile⟩ := decodeStore_full hstore
  exact ⟨bytes, reader, store, hbytes, hreader, rfl, hprofile, hvalid⟩

omit [Blake3Hash] [StoreHasher] [Zstd] in
/-- The file whose rows share keys, one of them with a set of subjects. -/
theorem loadSnapshotFile_full_valid_sharedRows :
    ∃ file snapshot, sharedRowsFile = .ok file ∧
      @loadSnapshotFile sumHash fnvHasher storedZstd .latestFirst file fullFastLoad =
        .ok snapshot ∧
      ∃ store, snapshot.relationships = .fromCheckpoint store ∧ store.rows.length = 3 ∧
        ValidStore store := by
  let _ := sumHash
  let _ := fnvHasher
  let _ := storedZstd
  obtain ⟨file, snapshot, hfile, hload⟩ := loadFull_accepted loadFull_sharedRowsFile
  obtain ⟨_, _, store, _, _, hstore, _, hvalid⟩ :=
    loadSnapshotFile_full_valid .latestFirst file fullFastLoad snapshot rfl hload
  refine ⟨file, snapshot, hfile, hload, store, hstore, ?_, hvalid⟩
  have hrows := loadFull_sharedRowsFile_rows
  have hsnapshot : loadFull sharedRowsFile = .ok snapshot := bind_eq_ok.mpr ⟨file, hfile, hload⟩
  rw [hsnapshot] at hrows
  have hcount := of_decide_eq_true (Bool.and_eq_true_iff.mp hrows).1
  rw [hstore] at hcount
  exact hcount

/-- A file that is accepted with full validation and kept arrays is accepted in the other two
ways, and the stores agree. -/
theorem loadSnapshotFile_agree
    (listing : MapListing) (file : List UInt8) (options : LoadOptions)
    (snapshot : RevisionSnapshot)
    (hfull : options.validation = .full)
    (hfast : options.profile = .fastLoad)
    (h : loadSnapshotFile listing file options = .ok snapshot) :
    ∃ latency trusted,
      loadSnapshotFile listing file { options with profile := .latency } = .ok latency ∧
      loadSnapshotFile listing file { options with validation := .trustedFastLoad } =
        .ok trusted ∧
      StoresAgree snapshot.relationships.checkpoint latency.relationships.checkpoint ∧
      StoresAgree snapshot.relationships.checkpoint trusted.relationships.checkpoint ∧
      snapshot.relationships.delta = none ∧ latency.relationships.delta = none ∧
      trusted.relationships.delta = none := by
  obtain ⟨bytes, reader, configs, schema, store, hoptions, hbytes, hreader, hschema, hstore,
    rfl⟩ := loadSnapshotFile_eq_ok h
  rw [hfull, hfast] at hstore
  obtain ⟨⟨latency, hlatency, hagree⟩, trusted, htrusted, hagree'⟩ := decodeStore_agree hstore
  have hchecksum : ¬(options.integrity = .external ∧
      options.validation ≠ .trustedFastLoad) := by
    obtain ⟨_, hsecond⟩ := require_bind_eq_ok.mp hoptions
    exact require_eq_ok.mp hsecond
  have hloaded : ∀ {other : LoadOptions} {loaded : IndexedRelationshipStore},
      validateLoadOptions other = .ok () → readDecodePayload file other = .ok bytes →
      parseReader bytes other = .ok reader →
      decodeStore reader other.profile other.validation = .ok loaded →
      loadSnapshotFile listing file other = .ok ⟨⟨schema, .fromCheckpoint loaded⟩,
        reader.header.createdRevision, SchemaHash.forSchema schema,
        WriterState.insertConfigs ∅ configs⟩ := by
    intro other loaded hvalidate hread hparse hdecode
    refine bind_eq_ok.mpr ⟨(), by rw [hvalidate]; rfl, ?_⟩
    refine bind_eq_ok.mpr ⟨bytes, by rw [hread]; rfl, ?_⟩
    refine bind_eq_ok.mpr ⟨reader, by rw [hparse]; rfl, ?_⟩
    refine bind_eq_ok.mpr ⟨_, hschema, ?_⟩
    exact bind_eq_ok.mpr ⟨loaded, by rw [hdecode]; rfl, rfl⟩
  refine ⟨_, _, hloaded ?_ hbytes hreader (by rw [hfull]; exact hlatency),
    hloaded ?_ hbytes hreader (by rw [hfast]; exact htrusted), hagree, hagree', rfl, rfl, rfl⟩
  · refine require_bind_eq_ok.mpr ⟨?_, require_eq_ok.mpr hchecksum⟩
    rw [hfull]
    rintro ⟨hcontra, _⟩
    cases hcontra
  · refine require_bind_eq_ok.mpr ⟨?_, require_eq_ok.mpr ?_⟩
    · rintro ⟨_, hcontra⟩
      exact hcontra hfast
    · rintro ⟨_, hcontra⟩
      exact hcontra rfl

omit [Blake3Hash] [StoreHasher] [Zstd] in
/-- The file whose rows share keys, loaded into arrays, into maps and without the checks. -/
theorem loadSnapshotFile_agree_sharedRows :
    ∃ file snapshot latency trusted, sharedRowsFile = .ok file ∧
      @loadSnapshotFile sumHash fnvHasher storedZstd .latestFirst file fullFastLoad =
        .ok snapshot ∧
      @loadSnapshotFile sumHash fnvHasher storedZstd .latestFirst file
        { fullFastLoad with profile := .latency } = .ok latency ∧
      @loadSnapshotFile sumHash fnvHasher storedZstd .latestFirst file
        { fullFastLoad with validation := .trustedFastLoad } = .ok trusted ∧
      @StoresAgree fnvHasher snapshot.relationships.checkpoint
        latency.relationships.checkpoint ∧
      @StoresAgree fnvHasher snapshot.relationships.checkpoint
        trusted.relationships.checkpoint := by
  let _ := sumHash
  let _ := fnvHasher
  let _ := storedZstd
  obtain ⟨file, snapshot, hfile, hload⟩ := loadFull_accepted loadFull_sharedRowsFile
  obtain ⟨latency, trusted, hlatency, htrusted, hagree, hagree', _⟩ :=
    loadSnapshotFile_agree .latestFirst file fullFastLoad snapshot rfl rfl hload
  exact ⟨file, snapshot, latency, trusted, hfile, hload, hlatency, htrusted, hagree, hagree'⟩

end Loads

end Snapshot

end SimpleZanzibar
