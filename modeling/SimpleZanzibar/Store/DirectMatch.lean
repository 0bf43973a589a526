import SimpleZanzibar.Store.Batches

/-!
# The direct match of a subject

`any_resource_relation_subject` decides whether a user stands directly on a resource
and relation.  The filter of a plain user leaves the subject relation open, so that it
selects every row whose subject object is the user, and at most one row of each
segment is looked at.
-/

namespace SimpleZanzibar

theorem ObjectRef.eq_iff_values
    {a b : ObjectRef} :
    a = b ↔ a.objectType.value = b.objectType.value ∧ a.objectId.value = b.objectId.value := by
  obtain ⟨type, id⟩ := a
  obtain ⟨type', id'⟩ := b
  rw [ObjectRef.mk.injEq, Identifier.ext_iff, Identifier.ext_iff]

/-- The filter of a user selects the subjects with the object of the user and, for a
userset, with its relation. -/
theorem SubjectFilter.tryFrom_matches_iff
    {user : User} {filter : SubjectFilter} {subject : SubjectRef}
    (hfilter : SubjectFilter.tryFrom user = .ok filter)
    (hsubject : SubjectRef.tryFrom user = .ok subject)
    (s : SubjectRef) :
    filter.Matches s ↔ s.objectRef = subject.objectRef ∧
      ∀ relation, subject.relation? = some relation → s.relation? = some relation := by
  cases user with
  | userId id =>
      unfold SubjectFilter.tryFrom at hfilter
      obtain ⟨subjectType, htype, hfilter⟩ := bind_eq_ok.mp hfilter
      obtain ⟨subjectId, hid, hfilter⟩ := bind_eq_ok.mp hfilter
      cases hfilter
      unfold SubjectRef.tryFrom at hsubject
      obtain ⟨objectType, htype', hsubject⟩ := bind_eq_ok.mp hsubject
      obtain ⟨objectId, hid', hsubject⟩ := bind_eq_ok.mp hsubject
      cases hsubject
      rw [Identifier.new_ok_iff] at htype hid htype' hid'
      simp [SubjectFilter.Matches, SubjectFilter.exact, SubjectRef.objectRef, SubjectRef.relation?,
        ObjectRef.eq_iff_values, htype, hid, htype', hid', legacyUserSubjectType]
  | userset object relation =>
      unfold SubjectFilter.tryFrom at hfilter
      obtain ⟨subjectType, htype, hfilter⟩ := bind_eq_ok.mp hfilter
      obtain ⟨subjectId, hid, hfilter⟩ := bind_eq_ok.mp hfilter
      obtain ⟨relationName, hrelation, hfilter⟩ := bind_eq_ok.mp hfilter
      cases hfilter
      unfold SubjectRef.tryFrom at hsubject
      obtain ⟨ref, href, hsubject⟩ := bind_eq_ok.mp hsubject
      obtain ⟨relationName', hrelation', hsubject⟩ := bind_eq_ok.mp hsubject
      cases hsubject
      rw [hrelation] at hrelation'
      cases hrelation'
      rw [Identifier.new_ok_iff] at htype hid
      have hobject := ObjectRef.tryFrom_ok_iff.mp href
      subst hobject
      simp [SubjectFilter.Matches, SubjectFilter.exact, SubjectRef.objectRef, SubjectRef.relation?,
        ObjectRef.eq_iff_values, htype, hid, ObjectRef.toObject, and_assoc]

namespace RelationshipStoreView

/-- The first checkpoint row on the resource and relation whose subject passes the filter,
also when it was deleted since. -/
def firstCheckpointMatch (view : RelationshipStoreView) (resource : ObjectRef)
    (relation : RelationName) (subject : SubjectFilter) : Option Relationship :=
  view.checkpoint.rows.find? (fun r => decide (OnSubject resource relation subject r))

section DirectMatch

variable [StoreHasher] {view : RelationshipStoreView}

/-- One row of each segment is looked at: an inserted one, or the first of the checkpoint
when it was not deleted. -/
theorem Inv.anyResourceRelationSubject_iff
    (hinv : view.Inv)
    (resource : ObjectRef) (relation : RelationName) (subject : SubjectFilter) :
    view.anyResourceRelationSubject resource relation subject = true ↔
      (∃ r ∈ view.insertedRows, OnSubject resource relation subject r) ∨
        ∃ r, view.firstCheckpointMatch resource relation subject = some r ∧
          r ∉ view.tombstones := by
  have hempty := (hinv.refsDenote_resourceRelationSubject resource relation subject).isEmpty_eq
  unfold anyResourceRelationSubject firstCheckpointMatch
  rw [hempty, List.take_one, List.take_one, List.head?_filter, List.head?_filter]
  cases hin : view.insertedRows.find? (fun r => decide (OnSubject resource relation subject r)) with
  | some r =>
      refine ⟨fun _ => Or.inl ⟨r, List.mem_of_find?_eq_some hin, ?_⟩, fun _ => rfl⟩
      simpa using List.find?_some hin
  | none =>
      have hnone : ∀ r ∈ view.insertedRows, ¬ OnSubject resource relation subject r := by
        simpa using hin
      cases view.checkpoint.rows.find?
          (fun r => decide (OnSubject resource relation subject r)) with
      | none =>
          simpa [withoutTombstones] using hnone
      | some r =>
          have hiff : (∃ r ∈ view.insertedRows, OnSubject resource relation subject r) ↔ False :=
            iff_of_false (fun hsome => hsome.elim (fun r hr => hnone r hr.1 hr.2)) id
          by_cases hr : r ∈ view.tombstones
          · simp [withoutTombstones, hr, hiff]
          · simp [withoutTombstones, hr]

/-- When the direct match of a user is exact.  For a plain user, whose filter also selects
userset rows over it: while the direct row is live, one of the rows that are looked at is
still there, and otherwise none of them is. -/
def DirectMatchExact (view : RelationshipStoreView) (resource : ObjectRef)
    (relation : RelationName) (filter : SubjectFilter) (direct : Relationship) : User → Prop
  | .userset _ _ => True
  | .userId _ =>
      if direct ∈ view.liveSet then
        (∃ r ∈ view.insertedRows, OnSubject resource relation filter r) ∨
          ∀ r, view.firstCheckpointMatch resource relation filter = some r → r ∉ view.tombstones
      else
        (∀ r ∈ view.insertedRows, ¬ OnSubject resource relation filter r) ∧
          ∀ r, view.firstCheckpointMatch resource relation filter = some r → r ∈ view.tombstones

omit [StoreHasher] in
/-- A live row that passes the filter is inserted or the checkpoint has a first one. -/
theorem exists_match_of_mem_liveSet
    {resource : ObjectRef} {relation : RelationName} {filter : SubjectFilter} {r : Relationship}
    (hr : r ∈ view.liveSet)
    (hon : OnSubject resource relation filter r) :
    (∃ r ∈ view.insertedRows, OnSubject resource relation filter r) ∨
      ∃ r, view.firstCheckpointMatch resource relation filter = some r := by
  rcases mem_rows_iff.mp (mem_liveSet_iff.mp hr) with ⟨hcheckpoint, _⟩ | hinserted
  · refine Or.inr (Option.isSome_iff_exists.mp ?_)
    exact List.find?_isSome.mpr ⟨r, hcheckpoint, decide_eq_true hon⟩
  · exact Or.inl ⟨r, hinserted, hon⟩

omit [StoreHasher] in
theorem mem_of_firstCheckpointMatch
    {resource : ObjectRef} {relation : RelationName} {filter : SubjectFilter} {r : Relationship}
    (h : view.firstCheckpointMatch resource relation filter = some r) :
    r ∈ view.checkpoint.rows ∧ OnSubject resource relation filter r :=
  ⟨List.mem_of_find?_eq_some h, by simpa using List.find?_some h⟩

/-- A filter that selects one subject finds its row iff the row is live. -/
theorem Inv.anyResourceRelationSubject_singleton
    (hinv : view.Inv)
    {resource : ObjectRef} {relation : RelationName} {filter : SubjectFilter}
    {direct : Relationship}
    (hon : ∀ r, OnSubject resource relation filter r ↔ r = direct) :
    view.anyResourceRelationSubject resource relation filter = true ↔
      direct ∈ view.liveSet := by
  rw [hinv.anyResourceRelationSubject_iff, mem_liveSet_iff, mem_rows_iff]
  constructor
  · rintro (⟨r, hr, hmatch⟩ | ⟨r, hfirst, hr⟩)
    · rw [(hon r).mp hmatch] at hr
      exact Or.inr hr
    · obtain ⟨hmem, hmatch⟩ := mem_of_firstCheckpointMatch hfirst
      rw [(hon r).mp hmatch] at hmem hr
      exact Or.inl ⟨hmem, hr⟩
  · rintro (⟨hmem, hr⟩ | hr)
    · have hlive : direct ∈ view.liveSet :=
        mem_liveSet_iff.mpr (mem_rows_iff.mpr (Or.inl ⟨hmem, hr⟩))
      rcases exists_match_of_mem_liveSet hlive ((hon direct).mpr rfl) with hin | ⟨r, hfirst⟩
      · exact Or.inl hin
      · have heq := (hon r).mp (mem_of_firstCheckpointMatch hfirst).2
        rw [heq] at hfirst
        exact Or.inr ⟨direct, hfirst, hr⟩
    · exact Or.inl ⟨direct, hr, (hon direct).mpr rfl⟩

/-- In every reachable view the direct match of a user finds exactly the direct row of the
user iff `DirectMatchExact` holds. -/
theorem anyResourceRelationSubject_exact_iff
    (hreach : BatchReachable view)
    (resource : ObjectRef) (relation : RelationName)
    {user : User} {filter : SubjectFilter} {subject : SubjectRef}
    (hfilter : SubjectFilter.tryFrom user = .ok filter)
    (hsubject : SubjectRef.tryFrom user = .ok subject) :
    (view.anyResourceRelationSubject resource relation filter = true ↔
        ⟨resource, relation, subject⟩ ∈ view.liveSet) ↔
      view.DirectMatchExact resource relation filter ⟨resource, relation, subject⟩ user := by
  have hinv := hreach.invariant.1
  have hmatches := SubjectFilter.tryFrom_matches_iff hfilter hsubject
  have hdirect : OnSubject resource relation filter ⟨resource, relation, subject⟩ :=
    ⟨⟨rfl, rfl⟩, (hmatches subject).mpr ⟨rfl, fun _ h => h⟩⟩
  cases user with
  | userset object name =>
      refine iff_of_true (hinv.anyResourceRelationSubject_singleton ?_) trivial
      intro r
      unfold SubjectRef.tryFrom at hsubject
      obtain ⟨ref, _, hsubject⟩ := bind_eq_ok.mp hsubject
      obtain ⟨relationName, _, hsubject⟩ := bind_eq_ok.mp hsubject
      cases hsubject
      constructor
      · rintro ⟨⟨hresource, hrelation⟩, hmatch⟩
        obtain ⟨hobject, hname⟩ := (hmatches r.subject).mp hmatch
        obtain ⟨resource', relation', subject'⟩ := r
        cases hresource
        cases hrelation
        exact congrArg (Relationship.mk _ _)
          (SubjectRef.ext_parts hobject (hname relationName rfl))
      · rintro rfl
        exact hdirect
  | userId id =>
      rw [hinv.anyResourceRelationSubject_iff]
      unfold DirectMatchExact
      by_cases hlive : (⟨resource, relation, subject⟩ : Relationship) ∈ view.liveSet
      · simp only [hlive, iff_true, if_true]
        refine or_congr_right' ?_
        intro hnone
        obtain ⟨r, hr⟩ := (exists_match_of_mem_liveSet hlive hdirect).resolve_left hnone
        simp [hr]
      · simp only [hlive, iff_false, if_false, not_or, not_exists, not_and, not_not]

end DirectMatch

/-- `doc:1#viewer@user:alice#friends` is created; the direct match then finds
`user:alice` on `doc:1#viewer`, where no such row was ever written. -/
theorem anyResourceRelationSubject_userset_row :
    let stored : Relationship :=
      ⟨objectLit "doc" "1", relationLit "viewer",
        .userset (objectLit "user" "alice") (relationLit "friends")⟩
    let direct : Relationship :=
      ⟨objectLit "doc" "1", relationLit "viewer", .object (objectLit "user" "alice")⟩
    let filter : SubjectFilter := ⟨⟨"user", by decide⟩, some ⟨"alice", by decide⟩, none⟩
    SubjectFilter.tryFrom (.userId "alice") = .ok filter ∧
      SubjectRef.tryFrom (.userId "alice") = .ok direct.subject ∧
      ∃ view, @BatchReachable fnvHasher view ∧
        @applyMutations fnvHasher default [.create stored] [] = .ok view ∧
        @anyResourceRelationSubject fnvHasher view direct.resource direct.relation filter = true ∧
        direct ∉ view.liveSet := by
  intro stored direct filter
  let _ := fnvHasher
  refine ⟨by decide +kernel, by decide +kernel, ?_⟩
  have hrun : ((default.applyMutations [.create stored] []).map (fun view =>
      (view.anyResourceRelationSubject direct.resource direct.relation filter,
        decide (direct ∈ view.liveSet)))).toOption = some (true, false) := by
    decide +kernel
  obtain ⟨view, hview, hresult⟩ := exists_ok_of_map_toOption hrun
  rw [Prod.mk.injEq, decide_eq_false_iff_not] at hresult
  exact ⟨view, BatchReachable.empty.batch hview, hview, hresult.1, hresult.2⟩

/-- The row of alice stands in the checkpoint and is deleted in the overlay, and the row of bob
is live: the match of either is exact. -/
theorem anyResourceRelationSubject_exact_iff_hiddenViewer :
    let _ := fnvHasher
    let filter (id : String) (h : IdentifierKind.subjectId.accepts id = true) : SubjectFilter :=
      ⟨⟨"user", by decide⟩, some ⟨id, of_decide_eq_true h⟩, none⟩
    ∃ last, hiddenViewer = .ok last ∧ last.liveSet = {bobViews} ∧
      last.checkpoint.rows = [aliceViews, bobViews] ∧
      ((last.anyResourceRelationSubject aliceViews.resource aliceViews.relation
          (filter "alice" rfl) = true ↔ aliceViews ∈ last.liveSet) ↔
        last.DirectMatchExact aliceViews.resource aliceViews.relation (filter "alice" rfl)
          aliceViews (.userId "alice")) ∧
      ((last.anyResourceRelationSubject bobViews.resource bobViews.relation
          (filter "bob" rfl) = true ↔ bobViews ∈ last.liveSet) ↔
        last.DirectMatchExact bobViews.resource bobViews.relation (filter "bob" rfl)
          bobViews (.userId "bob")) := by
  intro _ filter
  obtain ⟨folded, last, older, hhidden, _, hrows, _, hhistory⟩ := exists_hiddenViewer_history
  have hreach := hhistory.batchReachable _ List.mem_cons_self
  exact ⟨last, hhidden, (hhistory.invariant _ List.mem_cons_self).2.2, hrows,
    anyResourceRelationSubject_exact_iff hreach aliceViews.resource aliceViews.relation
      (by decide +kernel) (by decide +kernel),
    anyResourceRelationSubject_exact_iff hreach bobViews.resource bobViews.relation
      (by decide +kernel) (by decide +kernel)⟩

end RelationshipStoreView

end SimpleZanzibar
