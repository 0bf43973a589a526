import Mathlib.Data.List.Forall2
import Mathlib.Data.List.Nodup
import SimpleZanzibar.Store.Indexed

/-!
# Correctness of the indexed store

`IndexedRelationshipStore.Inv` couples the row table, the interner, the liveness
bitmap, the identity index and the posting indexes.  Under it the store is a list
of distinct relationships in insertion order: an insertion appends, a deletion
erases, and each query yields the relationships that match its filter, in order,
up to its limit.
-/

namespace SimpleZanzibar

namespace RowIdentity

/-- The interned fields stand for the relationship. -/
structure Denotes (interner : IdentifierInterner) (row : RowIdentity) (r : Relationship) :
    Prop where
  resourceType : interner.resolve row.resourceType = .ok r.resource.objectType.value
  resourceId : interner.resolve row.resourceId = .ok r.resource.objectId.value
  relation : interner.resolve row.relation = .ok r.relation.value
  subjectType : interner.resolve row.subjectType = .ok r.subject.objectRef.objectType.value
  subjectId : interner.resolve row.subjectId = .ok r.subject.objectRef.objectId.value
  subjectRelation :
    row.subjectRelation.map interner.resolve =
      r.subject.relation?.map (fun relation => .ok relation.value)

theorem Denotes.of_extends
    {i j : IdentifierInterner} {row : RowIdentity} {r : Relationship}
    (h : row.Denotes i r)
    (hextends : i.entries <+: j.entries) :
    row.Denotes j r := by
  have hmono : ∀ {id value}, i.resolve id = .ok value → j.resolve id = .ok value :=
    fun h => IdentifierInterner.resolve_of_prefix hextends h
  refine ⟨hmono h.resourceType, hmono h.resourceId, hmono h.relation, hmono h.subjectType,
    hmono h.subjectId, ?_⟩
  have hrel := h.subjectRelation
  cases hrow : row.subjectRelation with
  | none =>
      rw [hrow] at hrel
      exact hrel
  | some id =>
      rw [hrow] at hrel
      cases hsubject : r.subject.relation? with
      | none =>
          rw [hsubject] at hrel
          cases hrel
      | some relation =>
          rw [hsubject] at hrel
          exact congrArg some (hmono (Option.some.inj hrel))

/-- A row stands for one relationship. -/
theorem Denotes.unique
    {i : IdentifierInterner} {row : RowIdentity} {r s : Relationship}
    (hr : row.Denotes i r)
    (hs : row.Denotes i s) :
    r = s := by
  have hok : ∀ {id a b}, i.resolve id = .ok a → i.resolve id = .ok b → a = b := by
    intro id a b ha hb
    rw [ha] at hb
    exact Except.ok.inj hb
  have hrel : r.subject.relation? = s.subject.relation? := by
    have h := hr.subjectRelation.symm.trans hs.subjectRelation
    cases hrr : r.subject.relation? with
    | none =>
        cases hsr : s.subject.relation? with
        | none =>
            rfl
        | some b =>
            rw [hrr, hsr] at h
            cases h
    | some a =>
        cases hsr : s.subject.relation? with
        | none =>
            rw [hrr, hsr] at h
            cases h
        | some b =>
            rw [hrr, hsr] at h
            exact congrArg some (Identifier.ext (Except.ok.inj (Option.some.inj h)))
  have hobject : r.subject.objectRef = s.subject.objectRef := by
    apply ObjectRef.toObject_injective
    unfold ObjectRef.toObject
    rw [hok hr.subjectType hs.subjectType, hok hr.subjectId hs.subjectId]
  have hresource : r.resource = s.resource := by
    apply ObjectRef.toObject_injective
    unfold ObjectRef.toObject
    rw [hok hr.resourceType hs.resourceType, hok hr.resourceId hs.resourceId]
  have hrelation : r.relation = s.relation := Identifier.ext (hok hr.relation hs.relation)
  have hsubject : r.subject = s.subject := SubjectRef.ext_parts hobject hrel
  cases r
  cases s
  simp only at hresource hrelation hsubject
  rw [hresource, hrelation, hsubject]

section Interned

variable [StoreHasher]

/-- A relationship has at most one row. -/
theorem Denotes.row_unique
    {i : IdentifierInterner} {row row' : RowIdentity} {r : Relationship}
    (hinv : i.Inv)
    (h : row.Denotes i r)
    (h' : row'.Denotes i r) :
    row = row' := by
  have hrel : row.subjectRelation = row'.subjectRelation := by
    cases hr : r.subject.relation? with
    | none =>
        have h1 := h.subjectRelation
        have h2 := h'.subjectRelation
        rw [hr] at h1 h2
        rw [Option.map_eq_none_iff.mp h1, Option.map_eq_none_iff.mp h2]
    | some relation =>
        have h1 := h.subjectRelation
        have h2 := h'.subjectRelation
        rw [hr] at h1 h2
        obtain ⟨a, ha, hra⟩ := Option.map_eq_some_iff.mp h1
        obtain ⟨b, hb, hrb⟩ := Option.map_eq_some_iff.mp h2
        rw [ha, hb, hinv.resolve_injective hra hrb]
  cases row
  cases row'
  simp only at hrel
  rw [hrel]
  congr 1
  · exact hinv.resolve_injective h.resourceType h'.resourceType
  · exact hinv.resolve_injective h.resourceId h'.resourceId
  · exact hinv.resolve_injective h.relation h'.relation
  · exact hinv.resolve_injective h.subjectType h'.subjectType
  · exact hinv.resolve_injective h.subjectId h'.subjectId

/-- Looking up the strings of a relationship finds its row. -/
theorem fromExistingRelationship_iff
    {i : IdentifierInterner}
    (hinv : i.Inv)
    {r : Relationship} {row : RowIdentity} :
    fromExistingRelationship r i = some row ↔ row.Denotes i r := by
  constructor
  · intro h
    unfold fromExistingRelationship at h
    obtain ⟨resourceType, h1, h⟩ := Option.bind_eq_some_iff.mp h
    obtain ⟨resourceId, h2, h⟩ := Option.bind_eq_some_iff.mp h
    obtain ⟨relation, h3, h⟩ := Option.bind_eq_some_iff.mp h
    obtain ⟨subjectType, h4, h⟩ := Option.bind_eq_some_iff.mp h
    obtain ⟨subjectId, h5, h⟩ := Option.bind_eq_some_iff.mp h
    have hr : ∀ {v id}, i.lookup v = some id → i.resolve id = .ok v :=
      fun h => IdentifierInterner.resolve_of_lookup h
    cases hsubject : r.subject with
    | object o =>
        rw [hsubject] at h h4 h5
        cases h
        refine ⟨hr h1, hr h2, hr h3, ?_, ?_, ?_⟩
        · rw [hsubject]
          exact hr h4
        · rw [hsubject]
          exact hr h5
        · rw [hsubject]
          rfl
    | userset o relation' =>
        rw [hsubject] at h h4 h5
        obtain ⟨subjectRelation, h6, h⟩ := Option.bind_eq_some_iff.mp h
        cases h
        refine ⟨hr h1, hr h2, hr h3, ?_, ?_, ?_⟩
        · rw [hsubject]
          exact hr h4
        · rw [hsubject]
          exact hr h5
        · rw [hsubject]
          exact congrArg some (hr h6)
  · intro h
    unfold fromExistingRelationship
    have hl : ∀ {v id}, i.resolve id = .ok v → i.lookup v = some id :=
      fun h => hinv.lookup_eq_some_iff.mpr h
    rw [hl h.resourceType, hl h.resourceId, hl h.relation, hl h.subjectType, hl h.subjectId]
    have hrel := h.subjectRelation
    cases hsubject : r.subject with
    | object o =>
        rw [hsubject] at hrel
        have hnone : row.subjectRelation = none := Option.map_eq_none_iff.mp hrel
        cases row
        cases hnone
        rfl
    | userset o relation' =>
        rw [hsubject] at hrel
        obtain ⟨id, hid, hresolve⟩ := Option.map_eq_some_iff.mp hrel
        cases row
        cases hid
        simp [hl hresolve]

/-- Interning the strings of a relationship yields its row. -/
theorem fromRelationship_ensures
    {i : IdentifierInterner}
    (hinv : i.Inv)
    (r : Relationship) :
    (fromRelationship r).Ensures i
      (fun row j => j.Inv ∧ i.entries <+: j.entries ∧ row.Denotes j r)
      StoreError.IsCapacity := by
  unfold fromRelationship
  apply Action.Ensures.bind (hinv.intern _)
  rintro resourceType i1 ⟨hinv1, hext1, h1⟩
  apply Action.Ensures.bind (hinv1.intern _)
  rintro resourceId i2 ⟨hinv2, hext2, h2⟩
  apply Action.Ensures.bind (hinv2.intern _)
  rintro relation i3 ⟨hinv3, hext3, h3⟩
  apply Action.Ensures.bind (hinv3.intern _)
  rintro subjectType i4 ⟨hinv4, hext4, h4⟩
  apply Action.Ensures.bind (hinv4.intern _)
  rintro subjectId i5 ⟨hinv5, hext5, h5⟩
  have h15 : i1.entries <+: i5.entries := ((hext2.trans hext3).trans hext4).trans hext5
  have hmono : ∀ {a b : IdentifierInterner} {id value}, a.entries <+: b.entries →
      a.resolve id = .ok value → b.resolve id = .ok value :=
    fun hext h => IdentifierInterner.resolve_of_prefix hext h
  have h35 : i3.entries <+: i5.entries := hext4.trans hext5
  have h25 : i2.entries <+: i5.entries := hext3.trans h35
  cases hsubject : r.subject with
  | object o =>
      rw [hsubject] at h4 h5
      refine ⟨hinv5, hext1.trans h15, hmono h15 h1, hmono h25 h2, hmono h35 h3, ?_, ?_, ?_⟩
      · rw [hsubject]
        exact hmono hext5 h4
      · rw [hsubject]
        exact h5
      · rw [hsubject]
        rfl
  | userset o subjectRelation =>
      rw [hsubject] at h4 h5
      apply Action.Ensures.bind (hinv5.intern _)
      rintro subjectRelation' i6 ⟨hinv6, hext6, h6⟩
      refine ⟨hinv6, (hext1.trans h15).trans hext6, hmono (h15.trans hext6) h1,
        hmono (h25.trans hext6) h2, hmono (h35.trans hext6) h3, ?_, ?_, ?_⟩
      · rw [hsubject]
        exact hmono (hext5.trans hext6) h4
      · rw [hsubject]
        exact hmono hext6 h5
      · rw [hsubject]
        exact congrArg some h6

end Interned

end RowIdentity

/-- The index lists, for each key, the rows that have it, in row order. -/
structure IndexExact {K : Type} [DecidableEq K] [IndexKey K] (index : PostingIndex K)
    (rows : List RelationshipRow) (keysOf : RowIdentity → List K) : Prop where
  inv : index.Inv
  candidates : ∀ key, index.candidates key =
    (rows.filter (fun row => decide (key ∈ keysOf row.identity))).map (·.rowId)

section IndexExact

variable {K : Type} [DecidableEq K] [IndexKey K]

theorem IndexExact.default
    (keysOf : RowIdentity → List K) :
    IndexExact (PostingIndex.default : PostingIndex K) [] keysOf :=
  ⟨PostingIndex.inv_default, fun _ => rfl⟩

/-- Inserting a row under several distinct keys appends it to each of them. -/
theorem insert_all_keys
    {index : PostingIndex K}
    (hinv : index.Inv)
    {keys : List K}
    (hkeys : keys.Nodup)
    (rowId : RowId) :
    (keys.foldl (fun index key => index.insert key rowId) index).Inv ∧
      ∀ key, (keys.foldl (fun index key => index.insert key rowId) index).candidates key =
        index.candidates key ++ if key ∈ keys then [rowId] else [] := by
  induction keys generalizing index with
  | nil =>
      exact ⟨hinv, fun key => by simp⟩
  | cons first rest ih =>
      obtain ⟨hnot, hrest⟩ := List.nodup_cons.mp hkeys
      obtain ⟨hinv', hcandidates⟩ := hinv.insert first rowId
      obtain ⟨hinv'', hcandidates'⟩ := ih hinv' hrest
      refine ⟨hinv'', ?_⟩
      intro key
      rw [List.foldl_cons, hcandidates', hcandidates]
      by_cases heq : key = first
      · subst heq
        simp [hnot]
      · simp [heq]

theorem IndexExact.insert_all
    {index : PostingIndex K} {rows : List RelationshipRow} {keysOf : RowIdentity → List K}
    (hexact : IndexExact index rows keysOf)
    (rowId : RowId) {row : RowIdentity}
    (hkeys : (keysOf row).Nodup) :
    IndexExact ((keysOf row).foldl (fun index key => index.insert key rowId) index)
      (rows ++ [⟨rowId, row⟩]) keysOf := by
  obtain ⟨hinv, hcandidates⟩ := insert_all_keys hexact.inv hkeys rowId
  refine ⟨hinv, ?_⟩
  intro key
  rw [hcandidates, hexact.candidates, List.filter_append, List.map_append]
  by_cases hmem : key ∈ keysOf row
  · simp [hmem]
  · simp [hmem]

/-- Inserting a row under its only key. -/
theorem IndexExact.insert_one
    {index : PostingIndex K} {rows : List RelationshipRow} {keyOf : RowIdentity → K}
    (hexact : IndexExact index rows (fun row => [keyOf row]))
    (rowId : RowId) (row : RowIdentity) :
    IndexExact (index.insert (keyOf row) rowId) (rows ++ [⟨rowId, row⟩])
      (fun row => [keyOf row]) :=
  hexact.insert_all rowId (List.nodup_singleton _)

end IndexExact

namespace IndexedRelationshipStore

theorem resolveAs_ok_iff
    {store : IndexedRelationshipStore} {kind : IdentifierKind} {id : SymbolId}
    {a : Identifier kind} :
    store.resolveAs kind id = .ok a ↔ store.interner.resolve id = .ok a.value := by
  unfold resolveAs
  rw [bind_eq_ok]
  constructor
  · rintro ⟨value, hvalue, hnew⟩
    cases hok : Identifier.new kind value with
    | error error =>
        rw [hok] at hnew
        cases hnew
    | ok b =>
        rw [hok] at hnew
        cases hnew
        rw [hvalue, Identifier.new_ok_iff.mp hok]
  · intro h
    refine ⟨a.value, h, ?_⟩
    rw [Identifier.new_value]
    rfl

/-- Materialising a row yields the relationship it stands for. -/
theorem relationshipFromRow_ok_iff
    {store : IndexedRelationshipStore} {row : RowIdentity} {r : Relationship} :
    store.relationshipFromRow row = .ok r ↔ row.Denotes store.interner r := by
  constructor
  · intro h
    unfold relationshipFromRow at h
    obtain ⟨resourceType, h1, h⟩ := bind_eq_ok.mp h
    obtain ⟨resourceId, h2, h⟩ := bind_eq_ok.mp h
    obtain ⟨relation, h3, h⟩ := bind_eq_ok.mp h
    obtain ⟨subject, hsubject, h⟩ := bind_eq_ok.mp h
    cases h
    unfold subjectFromRow at hsubject
    obtain ⟨subjectType, h4, hsubject⟩ := bind_eq_ok.mp hsubject
    obtain ⟨subjectId, h5, h6⟩ := bind_eq_ok.mp hsubject
    cases hrel : row.subjectRelation with
    | none =>
        rw [hrel] at h6
        cases h6
        refine ⟨resolveAs_ok_iff.mp h1, resolveAs_ok_iff.mp h2, resolveAs_ok_iff.mp h3,
          resolveAs_ok_iff.mp h4, resolveAs_ok_iff.mp h5, ?_⟩
        rw [hrel]
        rfl
    | some id =>
        rw [hrel] at h6
        obtain ⟨subjectRelation, h7, h6⟩ := bind_eq_ok.mp h6
        cases h6
        refine ⟨resolveAs_ok_iff.mp h1, resolveAs_ok_iff.mp h2, resolveAs_ok_iff.mp h3,
          resolveAs_ok_iff.mp h4, resolveAs_ok_iff.mp h5, ?_⟩
        rw [hrel]
        exact congrArg some (resolveAs_ok_iff.mp h7)
  · intro h
    unfold relationshipFromRow subjectFromRow
    rw [resolveAs_ok_iff.mpr h.resourceType, resolveAs_ok_iff.mpr h.resourceId,
      resolveAs_ok_iff.mpr h.relation, resolveAs_ok_iff.mpr h.subjectType,
      resolveAs_ok_iff.mpr h.subjectId]
    have hrel := h.subjectRelation
    obtain ⟨resource, relation, subject⟩ := r
    cases subject with
    | object o =>
        rw [Option.map_eq_none_iff.mp hrel]
        rfl
    | userset o subjectRelation =>
        obtain ⟨id, hid, hresolve⟩ := Option.map_eq_some_iff.mp hrel
        rw [hid]
        have h6 : store.resolveAs .relationName id = .ok subjectRelation :=
          resolveAs_ok_iff.mpr hresolve
        simp only [h6]
        rfl

/-- The relationships depend on the row table, the bitmap and the interner only. -/
theorem rows_congr
    {store store' : IndexedRelationshipStore}
    (hinterner : store'.interner = store.interner)
    (htable : store'.rowTable = store.rowTable)
    (hlive : store'.liveRows = store.liveRows) :
    store'.rows = store.rows := by
  unfold rows liveRowTable relationshipFromRow subjectFromRow resolveAs
  rw [hinterner, htable, hlive]

/-- The row is live. -/
def Live (store : IndexedRelationshipStore) (rowId : RowId) : Prop :=
  store.liveRows.contains rowId = true

/-- The resource-side indexes that a reduced profile leaves out, and the subject-side
ones. -/
structure BroadIndexes (store : IndexedRelationshipStore) : Prop where
  resourceObject :
    IndexExact store.byResourceObject store.rowTable (fun row => [row.resourceObjectKey])
  resourceTypeRelation :
    IndexExact store.byResourceTypeRelation store.rowTable
      (fun row => [row.resourceTypeRelationKey])
  resourceType :
    IndexExact store.byResourceType store.rowTable (fun row => [row.resourceType])
  subject : IndexExact store.bySubject store.rowTable RowIdentity.subjectKeys
  subjectTypeRelation :
    IndexExact store.bySubjectTypeRelation store.rowTable
      (fun row => row.subjectTypeRelationKey.toList)
  subjectType :
    IndexExact store.bySubjectType store.rowTable (fun row => [row.subjectType])

/-- The left-out indexes are empty. -/
structure NoBroadIndexes (store : IndexedRelationshipStore) : Prop where
  resourceObject : ∀ key, store.byResourceObject.candidates key = []
  resourceTypeRelation : ∀ key, store.byResourceTypeRelation.candidates key = []
  resourceType : ∀ key, store.byResourceType.candidates key = []

section Invariant

variable [StoreHasher]

structure Inv (store : IndexedRelationshipStore) : Prop where
  interner : store.interner.Inv
  rowIds : ∀ (n : Nat) row, store.rowTable[n]? = some row → row.rowId.index = n
  denotes : ∀ row ∈ store.rowTable, ∃ r, row.identity.Denotes store.interner r
  allLive : ∀ len, store.liveRows.allLiveLen = some len → len = store.rowTable.length
  bounded : ∀ rowId, store.Live rowId → rowId.index < store.rowTable.length
  unique : ∀ a b, store.Live a → store.Live b → ∀ row row',
    store.rowTable[a.index]? = some row → store.rowTable[b.index]? = some row' →
      row.identity = row'.identity → a = b
  uniqueness : ∀ index, store.uniqueness = .ready index →
    index.Inv store.rowTable store.Live
  byResource : IndexExact store.byResource store.rowTable (fun row => [row.resourceKey])
  broad : store.indexProfile = .full → store.BroadIndexes
  reduced : store.indexProfile ≠ .full → store.NoBroadIndexes

/-- A store that accepts mutations: all indexes and a ready identity index. -/
structure Writable (store : IndexedRelationshipStore) : Prop where
  inv : store.Inv
  profile : store.indexProfile = .full
  ready : ∃ index, store.uniqueness = .ready index

theorem writable_default :
    default.Writable := by
  refine ⟨?_, rfl, _, rfl⟩
  constructor
  · exact IdentifierInterner.inv_default
  · intro n row h
    cases h
  · intro row h
    cases h
  · intro len h
    cases h
    rfl
  · intro rowId h
    cases h
  · intro a b h
    cases h
  · intro index h
    cases h
    have hlive : default.Live = fun _ => False := by
      funext rowId
      exact propext ⟨fun h => Bool.noConfusion h, False.elim⟩
    rw [hlive]
    exact RelationshipIdentityIndex.inv_default _
  · exact IndexExact.default _
  · intro _
    exact ⟨IndexExact.default _, IndexExact.default _, IndexExact.default _,
      IndexExact.default _, IndexExact.default _, IndexExact.default _⟩
  · intro h
    exact (h rfl).elim

/-- Each row of the list stands for the relationship at its position. -/
def RowsDenote (interner : IdentifierInterner) :
    List RelationshipRow → List Relationship → Prop :=
  List.Forall₂ (fun row r => row.identity.Denotes interner r)

omit [StoreHasher] in
theorem filterMap_of_rowsDenote
    {store : IndexedRelationshipStore} {table : List RelationshipRow} {rs : List Relationship}
    (h : RowsDenote store.interner table rs) :
    table.filterMap (fun row => (store.relationshipFromRow row.identity).toOption) = rs := by
  induction h with
  | nil =>
      rfl
  | cons hrow _ ih =>
      rw [List.filterMap_cons, relationshipFromRow_ok_iff.mpr hrow, ih]
      rfl

omit [StoreHasher] in
theorem rows_eq_of_rowsDenote
    {store : IndexedRelationshipStore} {rs : List Relationship}
    (h : RowsDenote store.interner store.liveRowTable rs) :
    store.rows = rs :=
  filterMap_of_rowsDenote h

omit [StoreHasher] in
theorem exists_rowsDenote
    {interner : IdentifierInterner} {table : List RelationshipRow}
    (h : ∀ row ∈ table, ∃ r, row.identity.Denotes interner r) :
    ∃ rs, RowsDenote interner table rs := by
  induction table with
  | nil =>
      exact ⟨[], List.Forall₂.nil⟩
  | cons row rest ih =>
      obtain ⟨r, hr⟩ := h row List.mem_cons_self
      obtain ⟨rs, hrs⟩ := ih (fun row' hrow' => h row' (List.mem_cons_of_mem _ hrow'))
      exact ⟨r :: rs, List.Forall₂.cons hr hrs⟩

theorem Inv.rowsDenote
    {store : IndexedRelationshipStore}
    (hinv : store.Inv) :
    RowsDenote store.interner store.liveRowTable store.rows := by
  have hlive : ∀ row ∈ store.liveRowTable, ∃ r, row.identity.Denotes store.interner r :=
    fun row hrow => hinv.denotes row (List.mem_filter.mp hrow).1
  obtain ⟨rs, hrs⟩ := exists_rowsDenote hlive
  rw [rows_eq_of_rowsDenote hrs]
  exact hrs

omit [StoreHasher] in
theorem RowsDenote.mem_iff
    {interner : IdentifierInterner} {table : List RelationshipRow} {rs : List Relationship}
    (h : RowsDenote interner table rs)
    {r : Relationship} :
    r ∈ rs ↔ ∃ row ∈ table, row.identity.Denotes interner r := by
  induction h with
  | nil =>
      simp
  | cons hrow _ ih =>
      rw [List.mem_cons, ih]
      constructor
      · rintro (rfl | ⟨row', hrow', hd⟩)
        · exact ⟨_, List.mem_cons_self, hrow⟩
        · exact ⟨row', List.mem_cons_of_mem _ hrow', hd⟩
      · rintro ⟨row', hrow', hd⟩
        rcases List.mem_cons.mp hrow' with rfl | hrow'
        · exact Or.inl (hd.unique hrow)
        · exact Or.inr ⟨row', hrow', hd⟩

omit [StoreHasher] in
/-- Filters that agree on the rows of the list select the same positions. -/
theorem RowsDenote.filter
    {interner : IdentifierInterner} {table : List RelationshipRow} {rs : List Relationship}
    {p : RelationshipRow → Bool} {q : Relationship → Bool}
    (h : RowsDenote interner table rs)
    (hpq : ∀ row ∈ table, ∀ r, row.identity.Denotes interner r → p row = q r) :
    RowsDenote interner (table.filter p) (rs.filter q) := by
  induction h with
  | nil =>
      exact List.Forall₂.nil
  | @cons row r rest rs' hrow _ ih =>
      have hhead := hpq row List.mem_cons_self r hrow
      have hrest := ih (fun row' hrow' => hpq row' (List.mem_cons_of_mem _ hrow'))
      rw [List.filter_cons, List.filter_cons, hhead]
      by_cases hq : q r = true
      · rw [if_pos hq, if_pos hq]
        exact List.Forall₂.cons hrow hrest
      · rw [if_neg hq, if_neg hq]
        exact hrest

/-- The live relationships are those of the live rows. -/
theorem Inv.mem_rows_iff
    {store : IndexedRelationshipStore}
    (hinv : store.Inv)
    {r : Relationship} :
    r ∈ store.rows ↔
      ∃ row ∈ store.rowTable, store.Live row.rowId ∧ row.identity.Denotes store.interner r := by
  rw [hinv.rowsDenote.mem_iff]
  constructor
  · rintro ⟨row, hrow, hd⟩
    obtain ⟨hmem, hlive⟩ := List.mem_filter.mp hrow
    exact ⟨row, hmem, hlive, hd⟩
  · rintro ⟨row, hmem, hlive, hd⟩
    exact ⟨row, List.mem_filter.mpr ⟨hmem, hlive⟩, hd⟩

theorem Inv.getElem?_rowId
    {store : IndexedRelationshipStore}
    (hinv : store.Inv)
    {row : RelationshipRow}
    (hrow : row ∈ store.rowTable) :
    store.rowTable[row.rowId.index]? = some row := by
  obtain ⟨n, hn⟩ := List.mem_iff_getElem?.mp hrow
  rw [hinv.rowIds n row hn]
  exact hn

/-- The shortcut of an all-live table skips no live row and no dead one. -/
theorem Inv.skips_eq
    {store : IndexedRelationshipStore}
    (hinv : store.Inv)
    {row : RelationshipRow}
    (hrow : row ∈ store.rowTable) :
    store.skips row.rowId = !store.liveRows.contains row.rowId := by
  unfold skips
  cases hall : store.liveRows.allLiveLen with
  | none =>
      simp [LiveRows.isAllLive, hall]
  | some len =>
      have hlt := (List.getElem?_eq_some_iff.mp (hinv.getElem?_rowId hrow)).1
      have hlen := hinv.allLive len hall
      have hcontains : store.liveRows.contains row.rowId = true := by
        unfold LiveRows.contains
        rw [hall]
        simp only [decide_eq_true_eq]
        omega
      simp [LiveRows.isAllLive, hall, hcontains]

/-- Live rows have distinct fields. -/
theorem Inv.nodup_identities
    {store : IndexedRelationshipStore}
    (hinv : store.Inv) :
    (store.liveRowTable.map (·.identity)).Nodup := by
  unfold liveRowTable List.Nodup
  rw [List.pairwise_map, List.pairwise_filter, List.pairwise_iff_getElem]
  intro i j hi hj hlt ha hb heq
  have hgi : store.rowTable[i]? = some store.rowTable[i] := List.getElem?_eq_getElem hi
  have hgj : store.rowTable[j]? = some store.rowTable[j] := List.getElem?_eq_getElem hj
  have hii := hinv.rowIds i _ hgi
  have hjj := hinv.rowIds j _ hgj
  have hsame := hinv.unique _ _ ha hb _ _ (by rw [hii]; exact hgi) (by rw [hjj]; exact hgj) heq
  rw [hsame] at hii
  omega

/-- The live relationships are distinct. -/
theorem Inv.nodup_rows
    {store : IndexedRelationshipStore}
    (hinv : store.Inv) :
    store.rows.Nodup := by
  have hforall : List.Forall₂ (RowIdentity.Denotes store.interner)
      (store.liveRowTable.map (·.identity)) store.rows :=
    List.forall₂_map_left_iff.mpr hinv.rowsDenote
  have hunique : Relator.BiUnique (RowIdentity.Denotes store.interner) :=
    ⟨fun _ _ _ h h' => h.row_unique hinv.interner h', fun _ _ _ h h' => h.unique h'⟩
  exact (List.rel_nodup hunique hforall).mp hinv.nodup_identities

/-- Membership is answered by the identity index. -/
theorem Inv.containsRelationship_iff
    {store : IndexedRelationshipStore}
    (hinv : store.Inv)
    (hready : ∃ index, store.uniqueness = .ready index)
    (r : Relationship) :
    store.containsRelationship r = true ↔ r ∈ store.rows := by
  obtain ⟨index, hready⟩ := hready
  have hindex := hinv.uniqueness index hready
  have href : store.uniquenessRef = some index := by
    unfold uniquenessRef
    rw [hready]
  rw [hinv.mem_rows_iff]
  unfold containsRelationship lookupRelationshipRow
  rw [href, Option.any_eq_true]
  simp only [Option.any_some, Option.isSome_iff_exists]
  constructor
  · rintro ⟨row, hrow, rowId, hfind⟩
    obtain ⟨hlive, candidate, hcandidate, hidentity⟩ := hindex.find_iff.mp hfind
    refine ⟨candidate, List.mem_of_getElem? hcandidate, ?_, ?_⟩
    · rw [RowId.index_injective (hinv.rowIds _ _ hcandidate)]
      exact hlive
    · rw [hidentity]
      exact (RowIdentity.fromExistingRelationship_iff hinv.interner).mp hrow
  · rintro ⟨row, hmem, hlive, hd⟩
    exact ⟨row.identity, (RowIdentity.fromExistingRelationship_iff hinv.interner).mpr hd,
      row.rowId, hindex.find_iff.mpr ⟨hlive, row, hinv.getElem?_rowId hmem, rfl⟩⟩

theorem appendRow_apply
    {store : IndexedRelationshipStore} {index : RelationshipIdentityIndex}
    (hready : store.uniqueness = .ready index)
    (rowId : RowId) (row : RowIdentity) :
    appendRow rowId row store = (.ok (), store.withRow index rowId row) := by
  unfold appendRow readyUniqueness
  simp [Action.bind_apply, hready]

@[simp] theorem rowTable_withRow
    (store : IndexedRelationshipStore) (index : RelationshipIdentityIndex)
    (rowId : RowId) (row : RowIdentity) :
    (store.withRow index rowId row).rowTable = store.rowTable ++ [⟨rowId, row⟩] :=
  rfl

@[simp] theorem liveRows_withRow
    (store : IndexedRelationshipStore) (index : RelationshipIdentityIndex)
    (rowId : RowId) (row : RowIdentity) :
    (store.withRow index rowId row).liveRows = store.liveRows.insert rowId :=
  rfl

/-- The live rows after appending are the old ones and the new one. -/
theorem live_withRow
    (store : IndexedRelationshipStore) (index : RelationshipIdentityIndex)
    (rowId : RowId) (row : RowIdentity) :
    (store.withRow index rowId row).Live = fun id => id = rowId ∨ store.Live id := by
  funext id
  show ((store.liveRows.insert rowId).contains id = true) =
    (id = rowId ∨ store.liveRows.contains id = true)
  rw [LiveRows.contains_insert]
  simp

omit [StoreHasher] in
theorem subjectKeys_nodup
    (row : RowIdentity) :
    row.subjectKeys.Nodup := by
  unfold RowIdentity.subjectKeys
  split <;> simp

omit [StoreHasher] in
theorem subjectTypeRelationKey_nodup
    (row : RowIdentity) :
    row.subjectTypeRelationKey.toList.Nodup := by
  cases row.subjectTypeRelationKey <;> simp

/-- The row of an absent relationship is not found. -/
theorem Inv.find_of_absent
    {store : IndexedRelationshipStore}
    (hinv : store.Inv)
    {index : RelationshipIdentityIndex} {row : RowIdentity} {r : Relationship}
    (hindex : index.Inv store.rowTable store.Live)
    (hd : row.Denotes store.interner r)
    (habsent : r ∉ store.rows) :
    index.find store.rowTable row = none := by
  cases hfind : index.find store.rowTable row with
  | none => rfl
  | some found =>
      obtain ⟨hlive, candidate, hcandidate, hidentity⟩ := hindex.find_iff.mp hfind
      refine (habsent (hinv.mem_rows_iff.mpr ⟨candidate, List.mem_of_getElem? hcandidate,
        ?_, hidentity ▸ hd⟩)).elim
      rw [RowId.index_injective (hinv.rowIds _ _ hcandidate)]
      exact hlive

/-- A row behind the others carries its place. -/
theorem Inv.rowIds_withRow
    {store : IndexedRelationshipStore}
    (hinv : store.Inv)
    {index : RelationshipIdentityIndex} {rowId : RowId} {row : RowIdentity}
    (hnext : rowId.index = store.rowTable.length)
    {n : Nat} {row' : RelationshipRow}
    (hrow' : (store.withRow index rowId row).rowTable[n]? = some row') :
    row'.rowId.index = n := by
  rw [rowTable_withRow] at hrow'
  rcases Nat.lt_or_ge n store.rowTable.length with hlt | hge
  · rw [List.getElem?_append_left hlt] at hrow'
    exact hinv.rowIds n row' hrow'
  · have hlen := (List.getElem?_eq_some_iff.mp hrow').1
    rw [List.length_append, List.length_singleton] at hlen
    have heq : n = store.rowTable.length := by omega
    subst heq
    rw [List.getElem?_append_right (le_refl _)] at hrow'
    simp at hrow'
    subst hrow'
    exact hnext

/-- A row behind the others is live behind the others. -/
theorem Inv.liveRowTable_withRow
    {store : IndexedRelationshipStore}
    (hinv : store.Inv)
    (index : RelationshipIdentityIndex) {rowId : RowId}
    (hnext : rowId.index = store.rowTable.length)
    (row : RowIdentity) :
    (store.withRow index rowId row).liveRowTable = store.liveRowTable ++ [⟨rowId, row⟩] := by
  unfold liveRowTable
  rw [rowTable_withRow, liveRows_withRow, List.filter_append]
  congr 1
  · apply List.filter_congr
    intro row' hrow'
    have hne : row'.rowId ≠ rowId := by
      intro heq
      have hlt := (List.getElem?_eq_some_iff.mp (hinv.getElem?_rowId hrow')).1
      rw [heq] at hlt
      omega
    rw [LiveRows.contains_insert]
    simp [hne]
  · simp [LiveRows.contains_insert]

/-- Appending a row that stands for an absent relationship. -/
theorem Writable.appendRow
    {store : IndexedRelationshipStore}
    (hw : store.Writable)
    {rowId : RowId} {row : RowIdentity} {r : Relationship}
    (hnext : rowId.index = store.rowTable.length)
    (hd : row.Denotes store.interner r)
    (habsent : r ∉ store.rows) :
    (appendRow rowId row).Ensures store
      (fun _ store' => store'.Writable ∧ store'.rows = store.rows ++ [r])
      StoreError.IsCapacity := by
  obtain ⟨index, hready⟩ := hw.ready
  have hinv := hw.inv
  have hindex := hinv.uniqueness index hready
  have hlive := live_withRow store index rowId row
  apply Action.Ensures.of_ok (appendRow_apply hready rowId row)
  have hidentity := hindex.insert hnext (hinv.find_of_absent hindex hd habsent)
  refine ⟨⟨?_, hw.profile, _, rfl⟩, ?_⟩
  · constructor
    · exact hinv.interner
    · intro n row' hrow'
      exact hinv.rowIds_withRow hnext hrow'
    · intro row' hrow'
      rcases List.mem_append.mp hrow' with hrow' | hrow'
      · exact hinv.denotes row' hrow'
      · rw [List.mem_singleton.mp hrow']
        exact ⟨r, hd⟩
    · intro len hlen
      rw [rowTable_withRow, List.length_append]
      exact LiveRows.allLiveLen_insert hinv.allLive hnext hlen
    · intro id hid
      rw [hlive] at hid
      exact hidentity.bounded id hid
    · intro a b ha hb
      rw [hlive] at ha hb
      exact hidentity.unique a b ha hb
    · intro index' hindex'
      cases hindex'
      rw [hlive]
      exact hidentity
    · exact hinv.byResource.insert_one rowId row
    · intro _
      have hbroad := hinv.broad hw.profile
      exact ⟨hbroad.resourceObject.insert_one rowId row,
        hbroad.resourceTypeRelation.insert_one rowId row,
        hbroad.resourceType.insert_one rowId row,
        hbroad.subject.insert_all rowId (subjectKeys_nodup row),
        hbroad.subjectTypeRelation.insert_all rowId (subjectTypeRelationKey_nodup row),
        hbroad.subjectType.insert_one rowId row⟩
    · intro hne
      exact (hne hw.profile).elim
  · apply rows_eq_of_rowsDenote
    rw [hinv.liveRowTable_withRow index hnext row]
    exact List.rel_append hinv.rowsDenote (List.Forall₂.cons hd List.Forall₂.nil)

/-- A larger interner leaves the store as it is. -/
theorem Writable.with_interner
    {store : IndexedRelationshipStore}
    (hw : store.Writable)
    {interner : IdentifierInterner}
    (hinterner : interner.Inv)
    (hextends : store.interner.entries <+: interner.entries) :
    ({ store with interner := interner } : IndexedRelationshipStore).Writable ∧
      ({ store with interner := interner } : IndexedRelationshipStore).rows = store.rows := by
  have hinv := hw.inv
  refine ⟨⟨?_, hw.profile, hw.ready⟩, ?_⟩
  · refine { hinv with interner := hinterner, denotes := ?_, broad := ?_, reduced := ?_ }
    · intro row hrow
      obtain ⟨r, hr⟩ := hinv.denotes row hrow
      exact ⟨r, hr.of_extends hextends⟩
    · intro _
      exact { hinv.broad hw.profile with }
    · intro hne
      exact (hne hw.profile).elim
  · apply rows_eq_of_rowsDenote
    exact hinv.rowsDenote.imp (fun _ _ h => h.of_extends hextends)

omit [StoreHasher] in
theorem fromLen_error
    {len : Nat} {error : StoreError}
    (h : RowId.fromLen len = .error error) :
    error.IsCapacity := by
  unfold RowId.fromLen at h
  split at h
  · cases h
  · cases h
    exact ⟨_, rfl⟩

/-- Inserting an absent relationship appends it. -/
theorem Writable.insert
    {store : IndexedRelationshipStore}
    (hw : store.Writable)
    {r : Relationship}
    (habsent : r ∉ store.rows) :
    (insert r).Ensures store
      (fun _ store' => store'.Writable ∧ store'.rows = store.rows ++ [r])
      StoreError.IsCapacity := by
  unfold IndexedRelationshipStore.insert
  apply Action.Ensures.get_bind
  apply Action.Ensures.lift_bind
  · intro rowId hrowId
    apply Action.Ensures.bind
      (RowIdentity.fromRelationship_ensures hw.inv.interner r).zoom
    rintro row _ ⟨interner, ⟨hinterner, hextends, hd⟩, rfl⟩
    obtain ⟨hw', hrows⟩ := hw.with_interner hinterner hextends
    have happend := hw'.appendRow (RowId.fromLen_ok_iff.mp hrowId) hd (by rwa [hrows])
    rwa [hrows] at happend
  · intro error herror
    exact fromLen_error herror

/-- The store after a live row was removed. -/
def withoutIndexedRow (store : IndexedRelationshipStore) (index : RelationshipIdentityIndex)
    (row : RelationshipRow) : IndexedRelationshipStore :=
  ({ store with
    uniqueness := .ready (index.remove store.rowTable row.identity).2 } :
      IndexedRelationshipStore).withoutRow row.rowId

theorem live_withoutIndexedRow
    (store : IndexedRelationshipStore) (index : RelationshipIdentityIndex)
    (row : RelationshipRow) :
    (store.withoutIndexedRow index row).Live = fun id => id ≠ row.rowId ∧ store.Live id := by
  funext id
  show ((store.liveRows.remove row.rowId).contains id = true) =
    (id ≠ row.rowId ∧ store.liveRows.contains id = true)
  rw [LiveRows.contains_remove]
  simp

/-- Deleting a present relationship erases it. -/
theorem Writable.delete
    {store : IndexedRelationshipStore}
    (hw : store.Writable)
    {r : Relationship}
    (hmem : r ∈ store.rows) :
    ∃ store', delete r store = (.ok (), store') ∧ store'.Writable ∧
      store'.rows = store.rows.filter (fun r' => decide (r' ≠ r)) := by
  obtain ⟨index, hready⟩ := hw.ready
  have hinv := hw.inv
  have hindex := hinv.uniqueness index hready
  obtain ⟨row, hrow, hlive, hd⟩ := hinv.mem_rows_iff.mp hmem
  have hlookup : store.lookupRelationshipRow r = some row.identity :=
    (RowIdentity.fromExistingRelationship_iff hinv.interner).mpr hd
  have hfind : index.find store.rowTable row.identity = some row.rowId :=
    hindex.find_iff.mpr ⟨hlive, row, hinv.getElem?_rowId hrow, rfl⟩
  obtain ⟨hremoved, hindex'⟩ := hindex.remove hfind
  have hlive' := live_withoutIndexedRow store index row
  rw [← hlive'] at hindex'
  refine ⟨store.withoutIndexedRow index row, ?_, ⟨?_, hw.profile, _, rfl⟩, ?_⟩
  · unfold IndexedRelationshipStore.delete readyUniqueness withoutIndexedRow
    simp [Action.bind_apply, hlookup, hready, hremoved]
  · refine { hinv with
      allLive := ?_, bounded := hindex'.bounded, unique := hindex'.unique,
      uniqueness := ?_, broad := ?_, reduced := ?_ }
    · intro len hlen
      rw [show (store.withoutIndexedRow index row).liveRows = store.liveRows.remove row.rowId
        from rfl, LiveRows.allLiveLen_remove] at hlen
      cases hlen
    · intro index' hready'
      cases hready'
      exact hindex'
    · intro _
      exact { hinv.broad hw.profile with }
    · intro hne
      exact (hne hw.profile).elim
  · apply rows_eq_of_rowsDenote
    have htable : (store.withoutIndexedRow index row).liveRowTable =
        store.liveRowTable.filter (fun row' => decide (row'.rowId ≠ row.rowId)) := by
      unfold liveRowTable
      rw [List.filter_filter]
      apply List.filter_congr
      intro row' _
      exact LiveRows.contains_remove _ _ _
    rw [htable]
    apply hinv.rowsDenote.filter
    intro row' hrow' r' hd'
    rw [decide_eq_decide, not_iff_not]
    obtain ⟨hmem', hlive''⟩ := List.mem_filter.mp hrow'
    constructor
    · intro hid
      have hsame := hinv.getElem?_rowId hmem'
      rw [hid, hinv.getElem?_rowId hrow] at hsame
      cases hsame
      exact hd'.unique hd
    · rintro rfl
      exact hinv.unique _ _ hlive'' hlive _ _ (hinv.getElem?_rowId hmem')
        (hinv.getElem?_rowId hrow) (hd'.row_unique hinv.interner hd)

/-- Inserting distinct absent relationships appends them in order. -/
theorem Writable.insert_all
    {store : IndexedRelationshipStore}
    (hw : store.Writable)
    {rs : List Relationship}
    (hdistinct : rs.Nodup)
    (habsent : ∀ r ∈ rs, r ∉ store.rows) :
    (Action.forEach IndexedRelationshipStore.insert rs).Ensures store
      (fun _ store' => store'.Writable ∧ store'.rows = store.rows ++ rs)
      StoreError.IsCapacity :=
  Action.ensures_forEach_append (fun store _ => store.Writable) IndexedRelationshipStore.rows
    (fun _ _ _ hw habsent => hw.insert habsent) hw hdistinct habsent

/-- Adding rows with distinct fields to an identity index never meets a duplicate. -/
theorem buildUniqueness_ok
    {table : List RelationshipRow} {index : RelationshipIdentityIndex} {live : RowId → Prop}
    (reason : String)
    (hindex : index.Inv table live)
    {pending : List RelationshipRow}
    (hplaced : ∀ row ∈ pending, table[row.rowId.index]? = some row)
    (hfresh : ∀ row ∈ pending, ¬ live row.rowId ∧ index.find table row.identity = none)
    (hnodup : (pending.map (·.identity)).Nodup) :
    ∃ index', buildUniqueness table reason pending index = .ok index' ∧
      index'.Inv table (fun id => live id ∨ ∃ row ∈ pending, row.rowId = id) := by
  induction pending generalizing index live with
  | nil =>
      refine ⟨index, rfl, ?_⟩
      simpa using hindex
  | cons row rest ih =>
      obtain ⟨hnotLive, habsent⟩ := hfresh row List.mem_cons_self
      have hrow := hplaced row List.mem_cons_self
      rw [List.map_cons, List.nodup_cons] at hnodup
      have hinsert := hindex.insert_at (fun _ _ => rfl) hrow rfl hnotLive habsent
      have hrest : ∀ row' ∈ rest, row'.identity ≠ row.identity := by
        intro row' hrow' heq
        exact hnodup.1 (heq ▸ List.mem_map_of_mem hrow')
      have hfresh' : ∀ row' ∈ rest, ¬ (row'.rowId = row.rowId ∨ live row'.rowId) ∧
          (index.insert table row.rowId row.identity).find table row'.identity = none := by
        intro row' hrow'
        have hplaced' := hplaced row' (List.mem_cons_of_mem _ hrow')
        obtain ⟨hnotLive', habsent'⟩ := hfresh row' (List.mem_cons_of_mem _ hrow')
        have hne : row'.rowId ≠ row.rowId := by
          intro heq
          rw [heq, hrow] at hplaced'
          cases hplaced'
          exact hrest row hrow' rfl
        refine ⟨fun h => h.elim hne hnotLive', ?_⟩
        cases hfind : (index.insert table row.rowId row.identity).find table row'.identity with
        | none =>
            rfl
        | some found =>
            obtain ⟨hlive, candidate, hcandidate, hidentity⟩ := hinsert.find_iff.mp hfind
            rcases hlive with rfl | hlive
            · rw [hrow] at hcandidate
              cases hcandidate
              exact (hrest row' hrow' hidentity.symm).elim
            · rw [hindex.find_iff.mpr ⟨hlive, candidate, hcandidate, hidentity⟩] at habsent'
              cases habsent'
      obtain ⟨index', hbuild, hindex'⟩ := ih hinsert
        (fun row' hrow' => hplaced row' (List.mem_cons_of_mem _ hrow')) hfresh' hnodup.2
      refine ⟨index', ?_, ?_⟩
      · unfold buildUniqueness
        rw [habsent]
        exact hbuild
      · have hsame : (fun id => live id ∨ ∃ row' ∈ row :: rest, row'.rowId = id) =
            fun id => (id = row.rowId ∨ live id) ∨ ∃ row' ∈ rest, row'.rowId = id := by
          funext id
          simp only [List.mem_cons, exists_eq_or_imp]
          exact propext (by tauto)
        rw [hsame]
        exact hindex'

/-- Building the identity index of a store that was loaded without one succeeds. -/
theorem Inv.ensureUniquenessIndex
    {store : IndexedRelationshipStore}
    (hinv : store.Inv) :
    ∃ store', ensureUniquenessIndex store = (.ok (), store') ∧ store'.Inv ∧
      store'.indexProfile = store.indexProfile ∧
      (∃ index, store'.uniqueness = .ready index) ∧
      store'.interner = store.interner ∧ store'.rowTable = store.rowTable ∧
      store'.liveRows = store.liveRows := by
  have hbuild : ∀ reason, ∃ index,
      buildUniqueness store.rowTable reason store.liveRowTable .default = .ok index ∧
        index.Inv store.rowTable store.Live := by
    intro reason
    obtain ⟨index, hok, hindex⟩ := buildUniqueness_ok reason
      (RelationshipIdentityIndex.inv_default store.rowTable)
      (fun row hrow => hinv.getElem?_rowId (List.mem_filter.mp hrow).1)
      (fun row hrow => ⟨not_false, rfl⟩) hinv.nodup_identities
    refine ⟨index, hok, ?_⟩
    have hsame : store.Live =
        fun id => False ∨ ∃ row ∈ store.liveRowTable, row.rowId = id := by
      funext id
      rw [false_or]
      apply propext
      constructor
      · intro hlive
        have hlt := hinv.bounded id hlive
        have hget := List.getElem?_eq_getElem hlt
        have hid : store.rowTable[id.index].rowId = id :=
          RowId.index_injective (hinv.rowIds _ _ hget)
        refine ⟨_, List.mem_filter.mpr ⟨List.getElem_mem hlt, ?_⟩, hid⟩
        rw [hid]
        exact hlive
      · rintro ⟨row, hrow, rfl⟩
        exact (List.mem_filter.mp hrow).2
    rw [hsame]
    exact hindex
  have hready : ∀ index, index.Inv store.rowTable store.Live →
      ({ store with uniqueness := .ready index } : IndexedRelationshipStore).Inv := by
    intro index hindex
    refine { hinv with uniqueness := ?_, broad := ?_, reduced := ?_ }
    · intro index' h
      cases h
      exact hindex
    · intro hfull
      exact { hinv.broad hfull with }
    · intro hne
      exact { hinv.reduced hne with }
  cases huniqueness : store.uniqueness with
  | ready index =>
      refine ⟨store, ?_, hinv, rfl, ⟨index, huniqueness⟩, rfl, rfl, rfl⟩
      simp [IndexedRelationshipStore.ensureUniquenessIndex, Action.bind_apply, huniqueness]
  | knownUniqueButNotIndexed =>
      obtain ⟨index, hok, hindex⟩ :=
        hbuild "full snapshot duplicate detector was dropped after validation"
      refine ⟨{ store with uniqueness := .ready index }, ?_, hready index hindex, rfl,
        ⟨index, rfl⟩, rfl, rfl, rfl⟩
      simp [IndexedRelationshipStore.ensureUniquenessIndex, Action.bind_apply, huniqueness,
        hok]
  | untrustedNotIndexed =>
      obtain ⟨index, hok, hindex⟩ :=
        hbuild "trusted snapshot contains duplicate relationship rows"
      refine ⟨{ store with uniqueness := .ready index }, ?_, hready index hindex, rfl,
        ⟨index, rfl⟩, rfl, rfl, rfl⟩
      simp [IndexedRelationshipStore.ensureUniquenessIndex, Action.bind_apply, huniqueness,
        hok]

end Invariant

end IndexedRelationshipStore

end SimpleZanzibar
