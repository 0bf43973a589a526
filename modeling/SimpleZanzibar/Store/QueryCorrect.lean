import SimpleZanzibar.Store.IndexedCorrect

/-!
# Correctness of the store queries

Each query of a store is described by the rows it yields: the live rows that match
its filter, in row order, up to its limit.  A store saved under a reduced index
profile answers only the queries that name a resource and a relation.
-/

namespace SimpleZanzibar

namespace IdentifierInterner

variable [StoreHasher]

/-- A symbol equals the one that a lookup found iff its string is the one searched. -/
theorem Inv.eq_lookup_iff
    {interner : IdentifierInterner}
    (hinv : interner.Inv)
    {id found : SymbolId} {stored value : String}
    (hlookup : interner.lookup value = some found)
    (hresolve : interner.resolve id = .ok stored) :
    id = found ↔ stored = value := by
  have hfound := resolve_of_lookup hlookup
  constructor
  · rintro rfl
    rw [hresolve] at hfound
    exact Except.ok.inj hfound
  · rintro rfl
    exact hinv.resolve_injective hresolve hfound

end IdentifierInterner

namespace RowIdentity

theorem mem_subjectKeys_iff
    {row : RowIdentity} {key : SubjectIndexKey} :
    key ∈ row.subjectKeys ↔
      row.subjectType = key.subjectType ∧ row.subjectId = key.subjectId ∧
        ∀ relation, key.relation = some relation → row.subjectRelation = some relation := by
  obtain ⟨subjectType, subjectId, relation⟩ := key
  unfold subjectKeys
  cases row.subjectRelation with
  | none =>
      cases relation with
      | none =>
          simp [eq_comm]
      | some relation =>
          simp
  | some rowRelation =>
      cases relation with
      | none =>
          simp [eq_comm]
      | some relation =>
          simp [eq_comm]

theorem mem_subjectTypeRelationKey_iff
    {row : RowIdentity} {key : SubjectTypeRelationIndexKey} :
    key ∈ row.subjectTypeRelationKey.toList ↔
      row.subjectType = key.subjectType ∧ row.subjectRelation = some key.relation := by
  obtain ⟨subjectType, relation⟩ := key
  unfold subjectTypeRelationKey
  cases row.subjectRelation with
  | none =>
      simp
  | some rowRelation =>
      simp [eq_comm]

theorem matchesSubject_iff
    {row : RowIdentity} {matcher : SubjectMatcher} :
    row.matchesSubject matcher = true ↔
      row.subjectType = matcher.subjectType ∧
        (∀ subjectId, matcher.optionalSubjectId = some subjectId →
          row.subjectId = subjectId) ∧
        ∀ relation, matcher.optionalRelation = some relation →
          row.subjectRelation = some relation := by
  unfold matchesSubject
  cases matcher.optionalSubjectId <;> cases matcher.optionalRelation <;> simp [and_assoc]

theorem matchesResource_iff
    {row : RowIdentity} {matcher : ResourceMatcher} :
    row.matchesResource matcher = true ↔
      row.resourceType = matcher.resourceType ∧
        (∀ resourceId, matcher.optionalResourceId = some resourceId →
          row.resourceId = resourceId) ∧
        (∀ relation, matcher.optionalRelation = some relation → row.relation = relation) ∧
        ∀ subject, matcher.optionalSubject = some subject →
          row.matchesSubject subject = true := by
  unfold matchesResource
  cases matcher.optionalResourceId <;> cases matcher.optionalRelation <;>
    cases matcher.optionalSubject <;> simp [and_assoc]

end RowIdentity

namespace IndexedRelationshipStore

/-- With these rows as candidates the iterator yields the live ones that match, up to
the limit. -/
theorem resourceIter_eq
    [StoreHasher]
    {store : IndexedRelationshipStore}
    (hinv : store.Inv)
    (matcher : ResourceMatcher)
    {table : List RelationshipRow}
    (htable : ∀ row ∈ table, row ∈ store.rowTable)
    (remaining : Nat) :
    store.resourceIter matcher remaining (table.map (·.rowId)) =
      (((table.filter (fun row => store.liveRows.contains row.rowId)).filter
        (fun row => row.identity.matchesResource matcher)).take remaining).map
          (RelationshipRef.mk store) := by
  induction table generalizing remaining with
  | nil =>
      simp [resourceIter]
  | cons row rest ih =>
      have hrest : ∀ row' ∈ rest, row' ∈ store.rowTable :=
        fun row' hrow' => htable row' (List.mem_cons_of_mem _ hrow')
      have hrow := hinv.getElem?_rowId (htable row List.mem_cons_self)
      have hskips : store.skips row.rowId = !store.liveRows.contains row.rowId :=
        hinv.skips_eq (htable row List.mem_cons_self)
      rw [List.map_cons]
      unfold resourceIter
      rw [hskips, hrow]
      by_cases hlive : store.liveRows.contains row.rowId = true
      · simp only [hlive, Bool.not_true, Bool.false_eq_true, if_false]
        cases remaining with
        | zero =>
            simp
        | succ remaining =>
            rw [if_neg (Nat.succ_ne_zero remaining)]
            by_cases hmatch : row.identity.matchesResource matcher = true
            · simp [hmatch, hlive, ih hrest]
            · simp [hmatch, hlive, ih hrest]
      · simp [hlive, ih hrest]

theorem subjectIter_eq
    [StoreHasher]
    {store : IndexedRelationshipStore}
    (hinv : store.Inv)
    (matcher : SubjectMatcher)
    {table : List RelationshipRow}
    (htable : ∀ row ∈ table, row ∈ store.rowTable) :
    store.subjectIter matcher (table.map (·.rowId)) =
      ((table.filter (fun row => store.liveRows.contains row.rowId)).filter
        (fun row => row.identity.matchesSubject matcher)).map (RelationshipRef.mk store) := by
  induction table with
  | nil =>
      rfl
  | cons row rest ih =>
      have hrest : ∀ row' ∈ rest, row' ∈ store.rowTable :=
        fun row' hrow' => htable row' (List.mem_cons_of_mem _ hrow')
      have hrow := hinv.getElem?_rowId (htable row List.mem_cons_self)
      have hskips := hinv.skips_eq (htable row List.mem_cons_self)
      rw [List.map_cons]
      unfold subjectIter
      rw [hskips, hrow]
      by_cases hlive : store.liveRows.contains row.rowId = true
      · by_cases hmatch : row.identity.matchesSubject matcher = true
        · simp [hmatch, hlive, ih hrest]
        · simp [hmatch, hlive, ih hrest]
      · simp [hlive, ih hrest]

/-- The store has the posting index that the matcher needs. -/
def Answers (store : IndexedRelationshipStore) (namesId namesRelation : Bool) : Prop :=
  store.indexProfile = .full ∨ namesId = true ∧ namesRelation = true

instance (store : IndexedRelationshipStore) (namesId namesRelation : Bool) :
    Decidable (store.Answers namesId namesRelation) :=
  inferInstanceAs (Decidable (_ ∨ _))

section Candidates

variable [StoreHasher] {store : IndexedRelationshipStore}

/-- The candidates of a matcher contain every row that it matches, in row order. -/
theorem Inv.resourceCandidates
    (hinv : store.Inv)
    (matcher : ResourceMatcher)
    (hanswers : store.Answers matcher.optionalResourceId.isSome
      matcher.optionalRelation.isSome) :
    ∃ selected : RelationshipRow → Bool,
      store.resourceCandidateRowIds matcher =
        (store.rowTable.filter selected).map (·.rowId) ∧
      ∀ row, row.identity.matchesResource matcher = true → selected row = true := by
  unfold resourceCandidateRowIds
  cases hid : matcher.optionalResourceId with
  | some resourceId =>
      cases hrelation : matcher.optionalRelation with
      | some relation =>
          refine ⟨_, hinv.byResource.candidates _, ?_⟩
          intro row hmatch
          simp only [RowIdentity.matchesResource, hid, hrelation, Option.all_some,
            Bool.and_eq_true, beq_iff_eq] at hmatch
          simp [RowIdentity.resourceKey, hmatch.1.1.1, hmatch.1.1.2, hmatch.1.2]
      | none =>
          have hfull : store.indexProfile = .full := by
            rcases hanswers with hfull | ⟨_, hnone⟩
            · exact hfull
            · rw [hrelation] at hnone
              cases hnone
          refine ⟨_, (hinv.broad hfull).resourceObject.candidates _, ?_⟩
          intro row hmatch
          simp only [RowIdentity.matchesResource, hid, Option.all_some,
            Bool.and_eq_true, beq_iff_eq] at hmatch
          simp [RowIdentity.resourceObjectKey, hmatch.1.1.1, hmatch.1.1.2]
  | none =>
      have hfull : store.indexProfile = .full := by
        rcases hanswers with hfull | ⟨hnone, _⟩
        · exact hfull
        · rw [hid] at hnone
          cases hnone
      cases hrelation : matcher.optionalRelation with
      | some relation =>
          refine ⟨_, (hinv.broad hfull).resourceTypeRelation.candidates _, ?_⟩
          intro row hmatch
          simp only [RowIdentity.matchesResource, hrelation, Option.all_some,
            Bool.and_eq_true, beq_iff_eq] at hmatch
          simp [RowIdentity.resourceTypeRelationKey, hmatch.1.1.1, hmatch.1.2]
      | none =>
          refine ⟨_, (hinv.broad hfull).resourceType.candidates _, ?_⟩
          intro row hmatch
          simp only [RowIdentity.matchesResource, Bool.and_eq_true, beq_iff_eq] at hmatch
          simp [hmatch.1.1.1]

/-- A reduced profile has no candidates for a broad matcher. -/
theorem Inv.resourceCandidates_reduced
    (hinv : store.Inv)
    (matcher : ResourceMatcher)
    (hanswers : ¬ store.Answers matcher.optionalResourceId.isSome
      matcher.optionalRelation.isSome) :
    store.resourceCandidateRowIds matcher = [] := by
  unfold Answers at hanswers
  rw [not_or] at hanswers
  have hreduced := hinv.reduced hanswers.1
  unfold resourceCandidateRowIds
  cases hid : matcher.optionalResourceId with
  | some resourceId =>
      cases hrelation : matcher.optionalRelation with
      | some relation =>
          rw [hid, hrelation] at hanswers
          exact (hanswers.2 ⟨rfl, rfl⟩).elim
      | none =>
          exact hreduced.resourceObject _
  | none =>
      cases hrelation : matcher.optionalRelation with
      | some relation =>
          exact hreduced.resourceTypeRelation _
      | none =>
          exact hreduced.resourceType _

/-- The candidates of a subject matcher are exactly the rows that it matches. -/
theorem Inv.subjectCandidates
    (hinv : store.Inv)
    (hfull : store.indexProfile = .full)
    (matcher : SubjectMatcher) :
    store.subjectCandidateRowIds matcher =
      (store.rowTable.filter (fun row => row.identity.matchesSubject matcher)).map
        (·.rowId) := by
  have hbroad := hinv.broad hfull
  unfold subjectCandidateRowIds
  cases hid : matcher.optionalSubjectId with
  | some subjectId =>
      simp only
      rw [hbroad.subject.candidates]
      congr 1
      apply List.filter_congr
      intro row _
      rw [Bool.eq_iff_iff, decide_eq_true_iff, RowIdentity.mem_subjectKeys_iff,
        RowIdentity.matchesSubject_iff, hid]
      cases matcher.optionalRelation with
      | none =>
          simp
      | some relation =>
          simp
  | none =>
      cases hrelation : matcher.optionalRelation with
      | none =>
          simp only
          rw [hbroad.subjectType.candidates]
          congr 1
          apply List.filter_congr
          intro row _
          rw [Bool.eq_iff_iff, decide_eq_true_iff, RowIdentity.matchesSubject_iff, hid,
            hrelation]
          simp [eq_comm]
      | some relation =>
          simp only
          rw [hbroad.subjectTypeRelation.candidates]
          congr 1
          apply List.filter_congr
          intro row _
          rw [Bool.eq_iff_iff, decide_eq_true_iff, RowIdentity.matchesSubject_iff, hid,
            hrelation, RowIdentity.mem_subjectTypeRelationKey_iff]
          simp

end Candidates

section Matchers

variable [StoreHasher] {store : IndexedRelationshipStore}

/-- A field that is found is named in the matcher iff it is named in the filter. -/
theorem isSome_lookupField
    {field : Option String} {found : Option SymbolId}
    (h : store.lookupField field = some found) :
    found.isSome = field.isSome := by
  cases field with
  | none =>
      cases h
      rfl
  | some value =>
      obtain ⟨id, _, rfl⟩ := Option.map_eq_some_iff.mp h
      rfl

/-- A looked-up field agrees with a symbol iff the named string does. -/
theorem lookupField_agrees
    (hinterner : store.interner.Inv)
    {kind : IdentifierKind} {field : Option (Identifier kind)} {found : Option SymbolId}
    (h : store.lookupField (field.map (·.value)) = some found)
    {id : SymbolId} {stored : String}
    (hresolve : store.interner.resolve id = .ok stored) :
    (∀ wanted, found = some wanted → id = wanted) ↔
      ∀ wanted, field = some wanted → stored = wanted.value := by
  cases field with
  | none =>
      cases h
      simp
  | some wanted =>
      obtain ⟨found', hlookup, hfound⟩ := Option.map_eq_some_iff.mp h
      subst hfound
      simp only [Option.some.injEq, forall_eq']
      exact hinterner.eq_lookup_iff hlookup hresolve

/-- A field that was not found agrees with no stored string. -/
theorem lookupField_none
    (hinterner : store.interner.Inv)
    {kind : IdentifierKind} {field : Option (Identifier kind)}
    (h : store.lookupField (field.map (·.value)) = none)
    {id : SymbolId} {stored : String}
    (hresolve : store.interner.resolve id = .ok stored) :
    ¬ ∀ wanted, field = some wanted → stored = wanted.value := by
  cases field with
  | none =>
      cases h
  | some wanted =>
      intro hall
      have hnone := Option.map_eq_none_iff.mp h
      rw [hall wanted rfl] at hresolve
      exact hinterner.not_mem_of_lookup_none hnone id hresolve

/-- The relation of a userset subject, as a looked-up field. -/
theorem lookupField_subjectRelation
    (hinterner : store.interner.Inv)
    {field : Option RelationName} {found : Option SymbolId}
    (h : store.lookupField (field.map (·.value)) = some found)
    {row : RowIdentity} {r : Relationship}
    (hd : row.Denotes store.interner r) :
    (∀ wanted, found = some wanted → row.subjectRelation = some wanted) ↔
      ∀ wanted, field = some wanted → r.subject.relation? = some wanted := by
  cases field with
  | none =>
      cases h
      simp
  | some wanted =>
      obtain ⟨found', hlookup, hfound⟩ := Option.map_eq_some_iff.mp h
      subst hfound
      simp only [Option.some.injEq, forall_eq']
      have hrel := hd.subjectRelation
      cases hrow : row.subjectRelation with
      | none =>
          rw [hrow] at hrel
          rw [Option.map_eq_none_iff.mp hrel.symm]
          simp
      | some id =>
          rw [hrow] at hrel
          obtain ⟨relation, hrelation, hresolve⟩ := Option.map_eq_some_iff.mp hrel.symm
          rw [hrelation, Option.some.injEq, Option.some.injEq,
            hinterner.eq_lookup_iff hlookup hresolve.symm]
          exact ⟨Identifier.ext, fun h => h ▸ rfl⟩

theorem lookupField_subjectRelation_none
    (hinterner : store.interner.Inv)
    {field : Option RelationName}
    (h : store.lookupField (field.map (·.value)) = none)
    {row : RowIdentity} {r : Relationship}
    (hd : row.Denotes store.interner r) :
    ¬ ∀ wanted, field = some wanted → r.subject.relation? = some wanted := by
  cases field with
  | none =>
      cases h
  | some wanted =>
      intro hall
      have hnone := Option.map_eq_none_iff.mp h
      have hrel := hd.subjectRelation
      rw [hall wanted rfl] at hrel
      obtain ⟨id, _, hresolve⟩ := Option.map_eq_some_iff.mp hrel
      exact hinterner.not_mem_of_lookup_none hnone id hresolve

/-- A subject matcher selects the rows whose subject matches the filter. -/
theorem subjectMatcher_matches
    (hinterner : store.interner.Inv)
    (filter : SubjectFilter)
    {row : RowIdentity} {r : Relationship}
    (hd : row.Denotes store.interner r) :
    (∀ matcher, store.subjectMatcher filter = some matcher →
      (row.matchesSubject matcher = true ↔ filter.Matches r.subject)) ∧
    (store.subjectMatcher filter = none → ¬ filter.Matches r.subject) := by
  unfold subjectMatcher SubjectFilter.Matches
  cases htype : store.interner.lookup filter.subjectType.value with
  | none =>
      refine ⟨fun matcher h => (by cases h), ?_⟩
      rintro _ ⟨h, _⟩
      exact hinterner.not_mem_of_lookup_none htype _ (h ▸ hd.subjectType)
  | some subjectType =>
      have hsubjectType := hinterner.eq_lookup_iff htype hd.subjectType
      cases hid : store.lookupField (filter.optionalSubjectId.map (·.value)) with
      | none =>
          refine ⟨fun matcher h => (by cases h), ?_⟩
          rintro _ ⟨_, h, _⟩
          exact lookupField_none hinterner hid hd.subjectId h
      | some subjectId =>
          cases hrel : store.lookupField (filter.optionalRelation.map (·.value)) with
          | none =>
              refine ⟨fun matcher h => (by cases h), ?_⟩
              rintro _ ⟨_, _, h⟩
              exact lookupField_subjectRelation_none hinterner hrel hd h
          | some relation =>
              refine ⟨?_, fun h => by cases h⟩
              intro matcher h
              cases h
              rw [RowIdentity.matchesSubject_iff, hsubjectType,
                lookupField_agrees hinterner hid hd.subjectId,
                lookupField_subjectRelation hinterner hrel hd]

/-- A resource matcher selects the rows whose relationship matches the filter. -/
theorem resourceMatcher_matches
    (hinterner : store.interner.Inv)
    (filter : RelationshipFilter)
    {row : RowIdentity} {r : Relationship}
    (hd : row.Denotes store.interner r) :
    (∀ matcher, store.resourceMatcher filter = some matcher →
      (row.matchesResource matcher = true ↔ filter.Matches r)) ∧
    (store.resourceMatcher filter = none → ¬ filter.Matches r) := by
  have hext : ∀ {kind : IdentifierKind} (field : Option (Identifier kind)) (a : Identifier kind),
      (∀ wanted, field = some wanted → a.value = wanted.value) ↔
        ∀ wanted, field = some wanted → a = wanted := by
    intro kind field a
    constructor
    · intro h wanted hw
      exact Identifier.ext (h wanted hw)
    · intro h wanted hw
      rw [h wanted hw]
  unfold resourceMatcher RelationshipFilter.Matches
  cases htype : store.interner.lookup filter.resourceType.value with
  | none =>
      refine ⟨fun matcher h => (by cases h), ?_⟩
      rintro _ ⟨h, _⟩
      exact hinterner.not_mem_of_lookup_none htype _ (h ▸ hd.resourceType)
  | some resourceType =>
      have hresourceType := hinterner.eq_lookup_iff htype hd.resourceType
      cases hid : store.lookupField (filter.optionalResourceId.map (·.value)) with
      | none =>
          refine ⟨fun matcher h => (by cases h), ?_⟩
          rintro _ ⟨_, h, _⟩
          exact lookupField_none hinterner hid hd.resourceId ((hext _ _).mpr h)
      | some resourceId =>
          have hresourceId := lookupField_agrees hinterner hid hd.resourceId
          cases hrel : store.lookupField (filter.optionalRelation.map (·.value)) with
          | none =>
              refine ⟨fun matcher h => (by cases h), ?_⟩
              rintro _ ⟨_, _, h, _⟩
              exact lookupField_none hinterner hrel hd.relation ((hext _ _).mpr h)
          | some relation =>
              have hrelation := lookupField_agrees hinterner hrel hd.relation
              cases hsubject : filter.optionalSubject with
              | none =>
                  refine ⟨?_, fun h => (by cases h)⟩
                  intro matcher h
                  cases h
                  rw [RowIdentity.matchesResource_iff, hresourceType, hresourceId, hrelation,
                    hext, hext, Identifier.ext_iff]
                  simp
              | some subject =>
                  obtain ⟨hsome, hnone⟩ := subjectMatcher_matches hinterner subject hd
                  cases hmatcher : store.subjectMatcher subject with
                  | none =>
                      refine
                        ⟨fun matcher h => (by simp [optionalSubjectMatcher, hmatcher] at h), ?_⟩
                      rintro _ ⟨_, _, _, h⟩
                      exact hnone hmatcher (h subject rfl)
                  | some subjectMatcher =>
                      refine ⟨?_, fun h => (by simp [optionalSubjectMatcher, hmatcher] at h)⟩
                      intro matcher h
                      simp [optionalSubjectMatcher, hmatcher] at h
                      subst h
                      rw [RowIdentity.matchesResource_iff, hresourceType, hresourceId,
                        hrelation, hext, hext, Identifier.ext_iff]
                      simp [hsome subjectMatcher hmatcher]

/-- The matcher names the fields that the filter names and carries its limit. -/
theorem resourceMatcher_fields
    {filter : RelationshipFilter} {matcher : ResourceMatcher}
    (h : store.resourceMatcher filter = some matcher) :
    matcher.optionalResourceId.isSome = filter.optionalResourceId.isSome ∧
      matcher.optionalRelation.isSome = filter.optionalRelation.isSome ∧
      matcher.remaining = filter.limit.get := by
  unfold resourceMatcher at h
  obtain ⟨resourceType, _, h⟩ := Option.bind_eq_some_iff.mp h
  obtain ⟨resourceId, hid, h⟩ := Option.bind_eq_some_iff.mp h
  obtain ⟨relation, hrelation, h⟩ := Option.bind_eq_some_iff.mp h
  obtain ⟨subject, _, h⟩ := Option.bind_eq_some_iff.mp h
  cases h
  rw [isSome_lookupField hid, isSome_lookupField hrelation]
  simp

end Matchers

/-- The references are live rows of the store that stand for the relationships. -/
def Yields (store : IndexedRelationshipStore) (refs : List RelationshipRef)
    (rs : List Relationship) : Prop :=
  ∃ table, refs = table.map (RelationshipRef.mk store) ∧
    (∀ row ∈ table, row ∈ store.liveRowTable) ∧ RowsDenote store.interner table rs

section Queries

variable [StoreHasher] {store : IndexedRelationshipStore}

omit [StoreHasher] in
theorem Yields.take
    {refs : List RelationshipRef} {rs : List Relationship}
    (h : store.Yields refs rs)
    (n : Nat) :
    store.Yields (refs.take n) (rs.take n) := by
  obtain ⟨table, rfl, hlive, hd⟩ := h
  refine ⟨table.take n, by rw [List.map_take], ?_, List.forall₂_take n hd⟩
  intro row hrow
  exact hlive row (List.mem_of_mem_take hrow)

/-- The relationships of the live rows that a predicate on rows selects. -/
theorem Inv.yields_filter
    (hinv : store.Inv)
    {p : RelationshipRow → Bool} {q : Relationship → Prop} [DecidablePred q]
    (hpq : ∀ row r, row.identity.Denotes store.interner r → (p row = true ↔ q r)) :
    store.Yields ((store.liveRowTable.filter p).map (RelationshipRef.mk store))
      (store.rows.filter (fun r => decide (q r))) := by
  refine ⟨_, rfl, ?_, ?_⟩
  · intro row hrow
    exact (List.mem_filter.mp hrow).1
  · apply hinv.rowsDenote.filter
    intro row _ r hd
    rw [Bool.eq_iff_iff, decide_eq_true_iff]
    exact hpq row r hd

theorem Inv.filter_eq_nil
    (hinv : store.Inv)
    {q : Relationship → Prop} [DecidablePred q]
    (hq : ∀ (row : RelationshipRow) r, row.identity.Denotes store.interner r → ¬ q r) :
    store.rows.filter (fun r => decide (q r)) = [] := by
  rw [List.filter_eq_nil_iff]
  intro r hr
  obtain ⟨row, _, _, hd⟩ := hinv.mem_rows_iff.mp hr
  simp [hq row r hd]

/-- A resource-side query yields the matching relationships in order, up to its limit. -/
theorem Inv.query
    (hinv : store.Inv)
    (filter : RelationshipFilter)
    (hanswers : store.Answers filter.optionalResourceId.isSome
      filter.optionalRelation.isSome) :
    store.Yields (store.queryCompactRelationships filter)
      ((store.rows.filter (fun r => decide (filter.Matches r))).take filter.limit.get) := by
  unfold queryCompactRelationships
  cases hmatcher : store.resourceMatcher filter with
  | none =>
      have hnone := hinv.filter_eq_nil (q := filter.Matches) (fun row r hd =>
        (resourceMatcher_matches hinv.interner filter hd).2 hmatcher)
      rw [hnone]
      refine ⟨[], rfl, ?_, ?_⟩
      · intro row hrow
        cases hrow
      · rw [List.take_nil]
        exact List.Forall₂.nil
  | some matcher =>
      obtain ⟨hid, hrelation, hremaining⟩ := resourceMatcher_fields hmatcher
      rw [← hid, ← hrelation] at hanswers
      obtain ⟨selected, hcandidates, hselected⟩ := hinv.resourceCandidates matcher hanswers
      have hrun : store.runResource (some matcher) =
          ((store.liveRowTable.filter (fun row => row.identity.matchesResource matcher)).map
            (RelationshipRef.mk store)).take filter.limit.get := by
        simp only [runResource]
        rw [hcandidates, resourceIter_eq hinv matcher
          (fun row hrow => (List.mem_filter.mp hrow).1), hremaining, List.map_take]
        congr 2
        unfold liveRowTable
        rw [List.filter_filter, List.filter_filter, List.filter_filter]
        apply List.filter_congr
        intro row _
        by_cases hmatch : row.identity.matchesResource matcher = true
        · simp [hmatch, hselected row hmatch]
        · simp [hmatch]
      rw [hrun]
      apply Yields.take
      apply hinv.yields_filter
      intro row r hd
      exact (resourceMatcher_matches hinv.interner filter hd).1 matcher hmatcher

/-- A reduced profile answers broad queries with nothing. -/
theorem Inv.query_reduced
    (hinv : store.Inv)
    (filter : RelationshipFilter)
    (hanswers : ¬ store.Answers filter.optionalResourceId.isSome
      filter.optionalRelation.isSome) :
    store.queryCompactRelationships filter = [] := by
  unfold queryCompactRelationships
  cases hmatcher : store.resourceMatcher filter with
  | none =>
      rfl
  | some matcher =>
      obtain ⟨hid, hrelation, _⟩ := resourceMatcher_fields hmatcher
      rw [← hid, ← hrelation] at hanswers
      simp only [runResource]
      rw [hinv.resourceCandidates_reduced matcher hanswers]
      rfl

/-- A subject-side query yields the matching relationships in order. -/
theorem Inv.reverseQuery
    (hinv : store.Inv)
    (hfull : store.indexProfile = .full)
    (filter : SubjectFilter) :
    store.Yields (store.reverseQueryCompactRelationships filter)
      (store.rows.filter (fun r => decide (filter.Matches r.subject))) := by
  unfold reverseQueryCompactRelationships
  cases hmatcher : store.subjectMatcher filter with
  | none =>
      have hnone := hinv.filter_eq_nil (q := fun r => filter.Matches r.subject)
        (fun row r hd => (subjectMatcher_matches hinv.interner filter hd).2 hmatcher)
      rw [hnone]
      refine ⟨[], rfl, ?_, List.Forall₂.nil⟩
      intro row hrow
      cases hrow
  | some matcher =>
      have hrun : store.subjectIter matcher (store.subjectCandidateRowIds matcher) =
          (store.liveRowTable.filter (fun row => row.identity.matchesSubject matcher)).map
            (RelationshipRef.mk store) := by
        rw [hinv.subjectCandidates hfull, subjectIter_eq hinv matcher
          (fun row hrow => (List.mem_filter.mp hrow).1)]
        congr 1
        unfold liveRowTable
        rw [List.filter_filter, List.filter_filter, List.filter_filter]
        apply List.filter_congr
        intro row _
        cases row.identity.matchesSubject matcher <;> simp
      simp only [hrun]
      apply hinv.yields_filter
      intro row r hd
      exact (subjectMatcher_matches hinv.interner filter hd).1 matcher hmatcher

/-- The filter that a resource and a relation amount to. -/
def resourceRelationFilter (resource : ObjectRef) (relation : RelationName)
    (subject : Option SubjectFilter) (limit : QueryLimit) : RelationshipFilter :=
  ⟨resource.objectType, some resource.objectId, some relation, subject, limit⟩

omit [StoreHasher] in
theorem resourceRelationFilter_matches_iff
    {resource : ObjectRef} {relation : RelationName} {subject : Option SubjectFilter}
    {limit : QueryLimit} {r : Relationship} :
    (resourceRelationFilter resource relation subject limit).Matches r ↔
      r.resource = resource ∧ r.relation = relation ∧
        ∀ filter, subject = some filter → filter.Matches r.subject := by
  unfold resourceRelationFilter RelationshipFilter.Matches
  obtain ⟨⟨objectType, objectId⟩, name, subject⟩ := r
  obtain ⟨objectType', objectId'⟩ := resource
  simp [and_assoc]

theorem resourceRelation_eq_query
    (resource : ObjectRef) (relation : RelationName) (limit : QueryLimit) :
    store.resourceRelation resource relation limit =
      store.queryCompactRelationships
        (resourceRelationFilter resource relation none limit) := by
  unfold resourceRelation queryCompactRelationships resourceRelationMatcher resourceMatcher
    resourceRelationFilter
  cases store.interner.lookup resource.objectType.value with
  | none =>
      rfl
  | some resourceType =>
      cases hid : store.interner.lookup resource.objectId.value with
      | none =>
          simp [lookupField, hid]
      | some resourceId =>
          cases hrelation : store.interner.lookup relation.value with
          | none =>
              simp [lookupField, hid, hrelation]
          | some relationId =>
              simp [lookupField, optionalSubjectMatcher, hid, hrelation]

theorem resourceRelationSubject_eq_query
    (resource : ObjectRef) (relation : RelationName) (subject : SubjectFilter) :
    store.resourceRelationSubject resource relation subject =
      store.queryCompactRelationships
        (resourceRelationFilter resource relation (some subject) minQueryLimit) := by
  unfold resourceRelationSubject queryCompactRelationships resourceRelationSubjectMatcher
    resourceRelationMatcher resourceMatcher resourceRelationFilter
  cases store.interner.lookup resource.objectType.value with
  | none =>
      rfl
  | some resourceType =>
      cases hid : store.interner.lookup resource.objectId.value with
      | none =>
          simp [lookupField, hid]
      | some resourceId =>
          cases hrelation : store.interner.lookup relation.value with
          | none =>
              simp [lookupField, hid, hrelation]
          | some relationId =>
              cases hsubject : store.subjectMatcher subject with
              | none =>
                  simp [lookupField, optionalSubjectMatcher, hid, hrelation, hsubject]
              | some matcher =>
                  simp [lookupField, optionalSubjectMatcher, hid, hrelation, hsubject]

end Queries

end IndexedRelationshipStore

end SimpleZanzibar
