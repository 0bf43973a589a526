import SimpleZanzibar.Store.ViewCorrect

/-!
# Queries of a store view

A merged query yields first the matching inserted rows and then the matching
checkpoint rows without a tombstone, each segment cut off at the limit of the query.
Tombstones are taken out after the limit was spent, so that a limited query is
complete only under a condition on the checkpoint; an unlimited one always is.
-/

namespace SimpleZanzibar

/-- The relationship stands on the resource and the relation. -/
def OnRelation (resource : ObjectRef) (relation : RelationName) (r : Relationship) : Prop :=
  r.resource = resource ∧ r.relation = relation

instance (resource : ObjectRef) (relation : RelationName) :
    DecidablePred (OnRelation resource relation) :=
  fun _ => inferInstanceAs (Decidable (_ ∧ _))

/-- The relationship stands on the resource and the relation and its subject passes the
filter. -/
def OnSubject (resource : ObjectRef) (relation : RelationName) (subject : SubjectFilter)
    (r : Relationship) : Prop :=
  OnRelation resource relation r ∧ subject.Matches r.subject

instance (resource : ObjectRef) (relation : RelationName) (subject : SubjectFilter) :
    DecidablePred (OnSubject resource relation subject) :=
  fun _ => inferInstanceAs (Decidable (_ ∧ _))

/-- The relationship that a reference stands for. -/
def RelationshipRef.relationship (ref : RelationshipRef) : Except StoreError Relationship :=
  ref.store.relationshipFromRow ref.row.identity

/-- The references stand for the relationships, one by one and in order. -/
def RefsDenote : List RelationshipRef → List Relationship → Prop :=
  List.Forall₂ (fun ref r => ref.relationship = .ok r)

/-- The references stand for the members of the set, each exactly once. -/
def YieldsOnce (refs : List RelationshipRef) (set : Finset Relationship) : Prop :=
  ∃ rs, RefsDenote refs rs ∧ rs.Nodup ∧ rs.toFinset = set

theorem RefsDenote.unique
    {refs : List RelationshipRef} {rs rs' : List Relationship}
    (h : RefsDenote refs rs)
    (h' : RefsDenote refs rs') :
    rs = rs' := by
  induction h generalizing rs' with
  | nil =>
      cases h'
      rfl
  | cons hhead _ ih =>
      cases h' with
      | cons hhead' htail' =>
          rw [hhead] at hhead'
          cases hhead'
          rw [ih htail']

/-- Every reference stands for one of the relationships. -/
theorem RefsDenote.exists_of_mem
    {refs : List RelationshipRef} {rs : List Relationship} {ref : RelationshipRef}
    (h : RefsDenote refs rs)
    (href : ref ∈ refs) :
    ∃ r ∈ rs, ref.relationship = .ok r := by
  induction h with
  | nil =>
      cases href
  | cons hrow _ ih =>
      rcases List.mem_cons.mp href with rfl | href
      · exact ⟨_, List.mem_cons_self, hrow⟩
      · obtain ⟨r, hr, hrelationship⟩ := ih href
        exact ⟨r, List.mem_cons_of_mem _ hr, hrelationship⟩

theorem RefsDenote.isEmpty_eq
    {refs : List RelationshipRef} {rs : List Relationship}
    (h : RefsDenote refs rs) :
    refs.isEmpty = rs.isEmpty := by
  cases h with
  | nil =>
      rfl
  | cons _ _ =>
      rfl

/-- The rows that a store yields denote the relationships it yields. -/
theorem IndexedRelationshipStore.Yields.refsDenote
    {store : IndexedRelationshipStore} {refs : List RelationshipRef} {rs : List Relationship}
    (h : store.Yields refs rs) :
    RefsDenote refs rs := by
  obtain ⟨table, rfl, _, hd⟩ := h
  refine List.forall₂_map_left_iff.mpr (hd.imp ?_)
  intro row r hrow
  exact IndexedRelationshipStore.relationshipFromRow_ok_iff.mpr hrow

namespace IndexedRelationshipStore

/-- What a store answers to a resource-side query: nothing where the profile left out
the index that the filter needs. -/
def answer (store : IndexedRelationshipStore) (filter : RelationshipFilter) :
    List Relationship :=
  if store.Answers filter.optionalResourceId.isSome filter.optionalRelation.isSome then
    (store.rows.filter (fun r => decide (filter.Matches r))).take filter.limit.get
  else []

/-- What a store answers to a subject-side query. -/
def reverseAnswer (store : IndexedRelationshipStore) (filter : SubjectFilter) :
    List Relationship :=
  store.rows.filter (fun r => decide (filter.Matches r.subject))

section Answers

variable [StoreHasher] {store : IndexedRelationshipStore}

theorem Inv.yields_answer
    (hinv : store.Inv)
    (filter : RelationshipFilter) :
    store.Yields (store.queryCompactRelationships filter) (store.answer filter) := by
  unfold answer
  by_cases hanswers : store.Answers filter.optionalResourceId.isSome
      filter.optionalRelation.isSome
  · rw [if_pos hanswers]
    exact hinv.query filter hanswers
  · rw [if_neg hanswers, hinv.query_reduced filter hanswers]
    refine ⟨[], rfl, ?_, List.Forall₂.nil⟩
    intro row hrow
    cases hrow

/-- Row ids are nonzero 32-bit numbers. -/
theorem Inv.length_rows_le_u32Max
    (hinv : store.Inv) :
    store.rows.length ≤ u32Max := by
  have hrows : store.rows.length ≤ store.rowTable.length := by
    unfold rows
    exact (List.length_filterMap_le _ _).trans (List.length_filter_le _ _)
  refine hrows.trans ?_
  by_contra hlong
  have hlast : store.rowTable.length - 1 < store.rowTable.length := by omega
  have hid := hinv.rowIds _ _ (List.getElem?_eq_getElem hlast)
  have hlt := store.rowTable[store.rowTable.length - 1].rowId.value.lt
  unfold RowId.index NonZeroU32.index at hid
  unfold u32Max at hlong
  omega

/-- A store never holds more rows than an unlimited query returns. -/
theorem Inv.length_rows_le
    (hinv : store.Inv) :
    store.rows.length ≤ usizeMax :=
  hinv.length_rows_le_u32Max.trans (by decide)

end Answers

end IndexedRelationshipStore

theorem take_unboundedQueryLimit
    {rs : List Relationship}
    (hlength : rs.length ≤ usizeMax)
    (p : Relationship → Bool) :
    (rs.filter p).take unboundedQueryLimit.get = rs.filter p :=
  List.take_of_length_le ((List.length_filter_le _ _).trans hlength)

namespace RelationshipStoreView

/-- The relationships of the inserted segment. -/
def insertedRows (view : RelationshipStoreView) : List Relationship :=
  (view.delta.map (·.inserted.rows)).getD []

/-- The checkpoint relationships that were deleted. -/
def tombstones (view : RelationshipStoreView) : Finset Relationship :=
  (view.delta.map (·.deleted)).getD ∅

/-- The list without the relationships that were deleted. -/
def withoutTombstones (view : RelationshipStoreView) (rs : List Relationship) :
    List Relationship :=
  rs.filter (fun r => decide (r ∉ view.tombstones))

theorem rows_eq
    (view : RelationshipStoreView) :
    view.rows = view.withoutTombstones view.checkpoint.rows ++ view.insertedRows := by
  unfold rows withoutTombstones insertedRows tombstones
  cases view.delta with
  | none =>
      simp
  | some delta =>
      rfl

theorem mem_rows_iff
    {view : RelationshipStoreView} {r : Relationship} :
    r ∈ view.rows ↔
      r ∈ view.checkpoint.rows ∧ r ∉ view.tombstones ∨ r ∈ view.insertedRows := by
  rw [rows_eq]
  simp [withoutTombstones]

section Merged

variable [StoreHasher] {view : RelationshipStoreView}

/-- A checkpoint row is among the deleted rows iff its relationship is deleted. -/
theorem mem_deletedRelationshipRows_iff
    (hinterner : view.checkpoint.interner.Inv)
    {deleted : Finset Relationship} {row : RowIdentity} {r : Relationship}
    (hd : row.Denotes view.checkpoint.interner r) :
    row ∈ view.deletedRelationshipRows deleted ↔ r ∈ deleted := by
  unfold deletedRelationshipRows
  rw [Finset.mem_eraseNone, Finset.mem_image]
  constructor
  · rintro ⟨r', hr', hrow⟩
    have hd' := (RowIdentity.fromExistingRelationship_iff hinterner).mp hrow
    rw [hd.unique hd']
    exact hr'
  · intro hr
    exact ⟨r, hr, (RowIdentity.fromExistingRelationship_iff hinterner).mpr hd⟩

/-- The merged iterator yields the answer of the inserted segment, then the answer of
the checkpoint without the deleted relationships. -/
theorem Inv.merge
    (hinv : view.Inv)
    (query : IndexedRelationshipStore → List RelationshipRef)
    (answer : IndexedRelationshipStore → List Relationship)
    (hcheckpoint : view.checkpoint.Yields (query view.checkpoint) (answer view.checkpoint))
    (hinserted : ∀ delta, view.delta = some delta →
      delta.inserted.Yields (query delta.inserted) (answer delta.inserted)) :
    RefsDenote (view.merge query)
      ((view.delta.map (fun delta => answer delta.inserted)).getD [] ++
        view.withoutTombstones (answer view.checkpoint)) := by
  unfold RelationshipStoreView.merge withoutTombstones tombstones
  cases hdelta : view.delta with
  | none =>
      simpa using hcheckpoint.refsDenote
  | some delta =>
      obtain ⟨_, hrows⟩ := hinv.overlay delta hdelta
      refine List.rel_append (hinserted delta hdelta).refsDenote ?_
      obtain ⟨table, htable, hlive, hd⟩ := hcheckpoint
      rw [htable, List.filter_map]
      refine IndexedRelationshipStore.Yields.refsDenote ⟨_, rfl, ?_, hd.filter ?_⟩
      · intro row hrow
        exact hlive row (List.mem_filter.mp hrow).1
      · intro row _ r hrow
        simp [hrows, mem_deletedRelationshipRows_iff hinv.checkpoint.interner hrow]

/-- The answer of the inserted segment, which has every index. -/
theorem Inv.inserted_answer
    (hinv : view.Inv)
    (filter : RelationshipFilter) :
    (view.delta.map (fun delta => delta.inserted.answer filter)).getD [] =
      (view.insertedRows.filter (fun r => decide (filter.Matches r))).take filter.limit.get := by
  unfold insertedRows
  cases hdelta : view.delta with
  | none =>
      simp
  | some delta =>
      obtain ⟨hoverlay, _⟩ := hinv.overlay delta hdelta
      exact if_pos (Or.inl hoverlay.writable.profile)

theorem Inv.refsDenote_query
    (hinv : view.Inv)
    (filter : RelationshipFilter) :
    RefsDenote (view.queryCompactRelationships filter)
      ((view.insertedRows.filter (fun r => decide (filter.Matches r))).take filter.limit.get ++
        view.withoutTombstones (view.checkpoint.answer filter)) := by
  rw [← hinv.inserted_answer filter]
  apply hinv.merge (fun store => store.queryCompactRelationships filter)
    (fun store => store.answer filter) (hinv.checkpoint.yields_answer filter)
  intro delta hdelta
  exact (hinv.overlay delta hdelta).1.writable.inv.yields_answer filter

theorem Inv.refsDenote_reverseQuery
    (hinv : view.Inv)
    (hfull : view.indexProfile = .full)
    (filter : SubjectFilter) :
    RefsDenote (view.reverseQueryCompactRelationships filter)
      (view.insertedRows.filter (fun r => decide (filter.Matches r.subject)) ++
        view.withoutTombstones (view.checkpoint.reverseAnswer filter)) := by
  have hinserted : (view.delta.map (fun delta => delta.inserted.reverseAnswer filter)).getD [] =
      view.insertedRows.filter (fun r => decide (filter.Matches r.subject)) := by
    unfold insertedRows
    cases view.delta with
    | none =>
        rfl
    | some delta =>
        rfl
  rw [← hinserted]
  apply hinv.merge (fun store => store.reverseQueryCompactRelationships filter)
    (fun store => store.reverseAnswer filter) (hinv.checkpoint.reverseQuery hfull filter)
  intro delta hdelta
  have hwritable := (hinv.overlay delta hdelta).1.writable
  exact hwritable.inv.reverseQuery hwritable.profile filter

/-- Parts of the two segments have no relationship in common. -/
theorem Inv.nodup_segments
    (hinv : view.Inv)
    {as bs : List Relationship}
    (has : as.Sublist view.insertedRows)
    (hbs : bs.Sublist view.checkpoint.rows) :
    (as ++ view.withoutTombstones bs).Nodup := by
  unfold insertedRows at has
  cases hdelta : view.delta with
  | none =>
      rw [hdelta] at has
      cases List.sublist_nil.mp has
      exact (hinv.checkpoint.nodup_rows.sublist hbs).filter _
  | some delta =>
      rw [hdelta] at has
      obtain ⟨hoverlay, _⟩ := hinv.overlay delta hdelta
      refine List.nodup_append.mpr ⟨hoverlay.writable.inv.nodup_rows.sublist has,
        (hinv.checkpoint.nodup_rows.sublist hbs).filter _, ?_⟩
      rintro r hr r' hr' rfl
      exact hoverlay.disjoint r (has.subset hr) (hbs.subset (List.mem_filter.mp hr').1)

/-- A merged query is complete iff its two parts make up the set. -/
theorem Inv.yieldsOnce_iff
    (hinv : view.Inv)
    {refs : List RelationshipRef} {as bs : List Relationship} {set : Finset Relationship}
    (has : as.Sublist view.insertedRows)
    (hbs : bs.Sublist view.checkpoint.rows)
    (hrefs : RefsDenote refs (as ++ view.withoutTombstones bs)) :
    YieldsOnce refs set ↔ ∀ r, r ∈ as ∨ r ∈ bs ∧ r ∉ view.tombstones ↔ r ∈ set := by
  have hmem : ∀ r, r ∈ as ++ view.withoutTombstones bs ↔
      r ∈ as ∨ r ∈ bs ∧ r ∉ view.tombstones := by
    intro r
    simp [withoutTombstones]
  constructor
  · rintro ⟨rs, hrs, _, rfl⟩ r
    rw [hrs.unique hrefs, List.mem_toFinset]
    exact (hmem r).symm
  · intro h
    refine ⟨_, hrefs, hinv.nodup_segments has hbs, ?_⟩
    ext r
    rw [List.mem_toFinset, hmem]
    exact h r

omit [StoreHasher] in
/-- A live inserted or checkpoint row that satisfies a predicate. -/
theorem mem_liveSet_filter_iff
    {p : Relationship → Prop} [DecidablePred p] {r : Relationship} :
    r ∈ view.liveSet.filter p ↔
      r ∈ view.insertedRows.filter (fun r => decide (p r)) ∨
        r ∈ view.checkpoint.rows.filter (fun r => decide (p r)) ∧ r ∉ view.tombstones := by
  rw [Finset.mem_filter, mem_liveSet_iff, mem_rows_iff, List.mem_filter, List.mem_filter,
    decide_eq_true_iff]
  tauto

theorem Inv.length_insertedRows_le
    (hinv : view.Inv) :
    view.insertedRows.length ≤ usizeMax := by
  unfold insertedRows
  cases hdelta : view.delta with
  | none =>
      exact Nat.zero_le _
  | some delta =>
      exact (hinv.overlay delta hdelta).1.writable.inv.length_rows_le

/-- An unlimited query that the indexes of the checkpoint can answer is complete. -/
theorem Inv.yieldsOnce_query
    (hinv : view.Inv)
    {filter : RelationshipFilter}
    (hanswers : view.checkpoint.Answers filter.optionalResourceId.isSome
      filter.optionalRelation.isSome)
    (hlimit : filter.limit = unboundedQueryLimit) :
    YieldsOnce (view.queryCompactRelationships filter) (view.liveSet.filter filter.Matches) := by
  have hquery := hinv.refsDenote_query filter
  unfold IndexedRelationshipStore.answer at hquery
  rw [if_pos hanswers, hlimit, take_unboundedQueryLimit hinv.length_insertedRows_le,
    take_unboundedQueryLimit hinv.checkpoint.length_rows_le] at hquery
  rw [hinv.yieldsOnce_iff List.filter_sublist List.filter_sublist hquery]
  intro r
  exact mem_liveSet_filter_iff.symm

theorem Inv.yieldsOnce_reverseQuery
    (hinv : view.Inv)
    (hfull : view.indexProfile = .full)
    (filter : SubjectFilter) :
    YieldsOnce (view.reverseQueryCompactRelationships filter)
      (view.liveSet.filter (fun r => filter.Matches r.subject)) := by
  rw [hinv.yieldsOnce_iff List.filter_sublist List.filter_sublist
    (hinv.refsDenote_reverseQuery hfull filter)]
  intro r
  exact mem_liveSet_filter_iff.symm

/-- A query that names the resource and the relation is answered under every profile. -/
theorem Inv.refsDenote_named
    (hinv : view.Inv)
    (resource : ObjectRef) (relation : RelationName) (subject : Option SubjectFilter)
    (limit : QueryLimit)
    {p : Relationship → Prop} [DecidablePred p]
    (hp : ∀ r, p r ↔ OnRelation resource relation r ∧
      ∀ filter, subject = some filter → filter.Matches r.subject) :
    RefsDenote
      (view.queryCompactRelationships
        (IndexedRelationshipStore.resourceRelationFilter resource relation subject limit))
      ((view.insertedRows.filter (fun r => decide (p r))).take limit.get ++
        view.withoutTombstones
          ((view.checkpoint.rows.filter (fun r => decide (p r))).take limit.get)) := by
  have hquery := hinv.refsDenote_query
    (IndexedRelationshipStore.resourceRelationFilter resource relation subject limit)
  have hanswers : view.checkpoint.Answers true true := Or.inr ⟨rfl, rfl⟩
  have hmatches : ∀ rs : List Relationship,
      rs.filter (fun r => decide ((IndexedRelationshipStore.resourceRelationFilter resource
        relation subject limit).Matches r)) = rs.filter (fun r => decide (p r)) := by
    intro rs
    apply List.filter_congr
    intro r _
    rw [Bool.eq_iff_iff, decide_eq_true_iff, decide_eq_true_iff, hp,
      IndexedRelationshipStore.resourceRelationFilter_matches_iff]
    unfold OnRelation
    rw [and_assoc]
  have hanswer : view.checkpoint.answer
      (IndexedRelationshipStore.resourceRelationFilter resource relation subject limit) =
      (view.checkpoint.rows.filter (fun r => decide (p r))).take limit.get := by
    rw [← hmatches]
    exact if_pos hanswers
  rw [hanswer, hmatches] at hquery
  exact hquery

/-- What `resource_relation` yields. -/
theorem Inv.refsDenote_resourceRelation
    (hinv : view.Inv)
    (resource : ObjectRef) (relation : RelationName) (limit : QueryLimit) :
    RefsDenote (view.resourceRelation resource relation limit)
      ((view.insertedRows.filter (fun r => decide (OnRelation resource relation r))).take
          limit.get ++
        view.withoutTombstones ((view.checkpoint.rows.filter (fun r =>
          decide (OnRelation resource relation r))).take limit.get)) := by
  have hstores : view.resourceRelation resource relation limit =
      view.queryCompactRelationships (IndexedRelationshipStore.resourceRelationFilter resource
        relation none limit) := by
    unfold resourceRelation queryCompactRelationships
    congr 1
    funext store
    exact IndexedRelationshipStore.resourceRelation_eq_query resource relation limit
  rw [hstores]
  apply hinv.refsDenote_named
  intro r
  simp

/-- What `resource_relation_subject` yields: at most one row of each segment. -/
theorem Inv.refsDenote_resourceRelationSubject
    (hinv : view.Inv)
    (resource : ObjectRef) (relation : RelationName) (subject : SubjectFilter) :
    RefsDenote (view.resourceRelationSubject resource relation subject)
      ((view.insertedRows.filter (fun r => decide (OnSubject resource relation subject r))).take
          1 ++
        view.withoutTombstones ((view.checkpoint.rows.filter (fun r =>
          decide (OnSubject resource relation subject r))).take 1)) := by
  have hstores : view.resourceRelationSubject resource relation subject =
      view.queryCompactRelationships (IndexedRelationshipStore.resourceRelationFilter resource
        relation (some subject) minQueryLimit) := by
    unfold resourceRelationSubject queryCompactRelationships
    congr 1
    funext store
    exact IndexedRelationshipStore.resourceRelationSubject_eq_query resource relation subject
  rw [hstores]
  apply hinv.refsDenote_named resource relation (some subject) minQueryLimit
  intro r
  simp [OnSubject]

/-- An unlimited `resource_relation` is complete. -/
theorem Inv.yieldsOnce_resourceRelation
    (hinv : view.Inv)
    (resource : ObjectRef) (relation : RelationName) :
    YieldsOnce (view.resourceRelation resource relation unboundedQueryLimit)
      (view.liveSet.filter (OnRelation resource relation)) := by
  have hquery := hinv.refsDenote_resourceRelation resource relation unboundedQueryLimit
  rw [take_unboundedQueryLimit hinv.length_insertedRows_le,
    take_unboundedQueryLimit hinv.checkpoint.length_rows_le] at hquery
  rw [hinv.yieldsOnce_iff List.filter_sublist List.filter_sublist hquery]
  intro r
  exact mem_liveSet_filter_iff.symm

end Merged

end RelationshipStoreView

end SimpleZanzibar
