import SimpleZanzibar.Store.Fold

/-!
# Histories of mutation batches

Views are immutable: a batch returns a new view and leaves the old one to its
readers.  A history keeps every view that was returned together with the set that the
abstract store holds at that moment.  Along every history each view represents its
own set, and the next batch succeeds iff the abstract store admits it.
-/

namespace SimpleZanzibar

namespace RelationshipStoreView

/-- The view answers as a finite set of relationships does. -/
structure Represents [StoreHasher] (view : RelationshipStoreView)
    (set : Finset Relationship) : Prop where
  nodup : view.rows.Nodup
  rows : view.rows.toFinset = set
  query : ∀ filter : RelationshipFilter, filter.limit = unboundedQueryLimit →
    YieldsOnce (view.queryCompactRelationships filter) (set.filter filter.Matches)
  resourceRelation : ∀ resource relation,
    YieldsOnce (view.resourceRelation resource relation unboundedQueryLimit)
      (set.filter (OnRelation resource relation))
  reverseQuery : ∀ filter : SubjectFilter,
    YieldsOnce (view.reverseQueryCompactRelationships filter)
      (set.filter (fun r => filter.Matches r.subject))

section Histories

variable [StoreHasher]

/-- The views that batches without preconditions returned, newest first, each with the
set that the abstract batches lead to. -/
inductive History : List (RelationshipStoreView × Finset Relationship) → Prop where
  | start :
      History [(default, ∅)]
  | batch {view view' : RelationshipStoreView} {set : Finset Relationship}
      {older : List (RelationshipStoreView × Finset Relationship)}
      {mutations : List RelationshipMutation} :
      History ((view, set) :: older) →
      view.applyMutations mutations [] = .ok view' →
      History ((view', batchResult set mutations) :: (view, set) :: older)

/-- A view that batches of mutations, with any preconditions, lead to from the empty
one. -/
inductive BatchReachable : RelationshipStoreView → Prop where
  | empty :
      BatchReachable default
  | batch {view view' : RelationshipStoreView} {mutations : List RelationshipMutation}
      {preconditions : List Precondition} :
      BatchReachable view →
      view.applyMutations mutations preconditions = .ok view' →
      BatchReachable view'

/-- The invariant and the full profile hold in every view that batches reach. -/
theorem BatchReachable.invariant
    {view : RelationshipStoreView}
    (h : BatchReachable view) :
    view.Inv ∧ view.indexProfile = .full := by
  induction h with
  | empty =>
      exact ⟨inv_default, rfl⟩
  | @batch view view' mutations preconditions _ hrun ih =>
      obtain ⟨hinv, hfull⟩ := ih
      have hout := hinv.applyMutations mutations preconditions
      rw [hrun] at hout
      obtain ⟨_, hinv', _, hprofile⟩ := hout
      rcases hprofile with hsame | hfull'
      · exact ⟨hinv', hsame.trans hfull⟩
      · exact ⟨hinv', hfull'⟩

/-- A view whose checkpoint has every index represents its set. -/
theorem Inv.represents
    {view : RelationshipStoreView}
    (hinv : view.Inv)
    (hfull : view.indexProfile = .full) :
    view.Represents view.liveSet := by
  refine ⟨hinv.nodup_rows, rfl, ?_, hinv.yieldsOnce_resourceRelation,
    hinv.yieldsOnce_reverseQuery hfull⟩
  intro filter hlimit
  exact hinv.yieldsOnce_query (Or.inl hfull) hlimit

/-- The invariant and the full profile hold along a history, and each view stands for
the set beside it. -/
theorem History.invariant
    {entries : List (RelationshipStoreView × Finset Relationship)}
    (h : History entries) :
    ∀ entry ∈ entries, entry.1.Inv ∧ entry.1.indexProfile = .full ∧ entry.1.liveSet = entry.2 := by
  induction h with
  | start =>
      intro entry hentry
      rw [List.mem_singleton.mp hentry]
      exact ⟨inv_default, rfl, rfl⟩
  | @batch view view' set older mutations _ hrun ih =>
      intro entry hentry
      rcases List.mem_cons.mp hentry with rfl | hentry
      · obtain ⟨hinv, hfull, hset⟩ := ih (view, set) List.mem_cons_self
        have hout := hinv.applyMutations mutations []
        rw [hrun] at hout
        obtain ⟨_, hinv', hset', hprofile⟩ := hout
        refine ⟨hinv', ?_, ?_⟩
        · rcases hprofile with hsame | hfull'
          · exact hsame.trans hfull
          · exact hfull'
        · exact hset'.trans (congrArg (batchResult · mutations) hset)
      · exact ih entry hentry

/-- The store view refines a finite set: along every history each view that was
returned, also an earlier one, represents its own set, and a batch on it succeeds
exactly when the set admits it, capacity errors aside, with the new set as result. -/
theorem history_refines_set
    {entries : List (RelationshipStoreView × Finset Relationship)}
    (h : History entries) :
    ∀ entry ∈ entries, entry.1.Represents entry.2 ∧
      ∀ mutations : List RelationshipMutation,
        Outcome (entry.1.applyMutations mutations [])
          (fun view' => BatchAdmitted entry.2 mutations ∧
            view'.Represents (batchResult entry.2 mutations))
          (fun error => error.IsCapacity ∨ ¬ BatchAdmitted entry.2 mutations) := by
  rintro ⟨view, set⟩ hentry
  obtain ⟨hinv, hfull, hset⟩ := h.invariant _ hentry
  simp only at hset
  subst hset
  refine ⟨hinv.represents hfull, ?_⟩
  intro mutations
  refine (hinv.applyMutations mutations []).imp ?_ ?_
  · rintro view' ⟨hadmitted, hinv', hset', hprofile⟩
    refine ⟨hadmitted, ?_⟩
    rw [← hset']
    apply hinv'.represents
    rcases hprofile with hsame | hfull'
    · exact hsame.trans hfull
    · exact hfull'
  · rintro error (hcapacity | hnot | hpre)
    · exact Or.inl hcapacity
    · exact Or.inr hnot
    · exact (hpre rfl).elim

end Histories

/-- The touch of a member changes nothing. -/
theorem batchResult_touch
    {set : Finset Relationship} {r : Relationship}
    (hr : r ∈ set) :
    batchResult set [.touch r] = set := by
  unfold batchResult
  simp [RelationshipMutation.adds, RelationshipMutation.relationship, hr]

def aliceViews : Relationship :=
  ⟨objectLit "doc" "1", relationLit "viewer", .object (objectLit "user" "alice")⟩

def bobViews : Relationship :=
  ⟨objectLit "doc" "1", relationLit "viewer", .object (objectLit "user" "bob")⟩

section Hidden

variable [StoreHasher]

/-- Two viewers are created and folded into a checkpoint, and one of them is deleted. -/
def hiddenViewer : Except StoreError RelationshipStoreView := do
  let created ← default.applyMutations [.create aliceViews, .create bobViews] []
  let folded ← created.checkpointed
  folded.applyMutations [.delete aliceViews] []

/-- Every view of a history is reachable. -/
theorem History.batchReachable
    {entries : List (RelationshipStoreView × Finset Relationship)}
    (h : History entries) :
    ∀ entry ∈ entries, BatchReachable entry.1 := by
  induction h with
  | start =>
      intro entry hentry
      rw [List.mem_singleton.mp hentry]
      exact BatchReachable.empty
  | @batch view view' set older mutations _ hrun ih =>
      intro entry hentry
      rcases List.mem_cons.mp hentry with rfl | hentry
      · exact (ih (view, set) List.mem_cons_self).batch hrun
      · exact ih entry hentry

end Hidden

/-- The view with a checkpoint and a tombstone stands at the end of a history. -/
theorem exists_hiddenViewer_history :
    let _ := fnvHasher
    ∃ folded last older, hiddenViewer = .ok last ∧
      folded.checkpoint.rows = [aliceViews, bobViews] ∧
      last.checkpoint.rows = [aliceViews, bobViews] ∧
      last.delta.map (·.deleted) = some {aliceViews} ∧
      History ((last, {bobViews}) :: (folded, {aliceViews, bobViews}) :: older) := by
  intro _
  have hrun : ((default.applyMutations [.create aliceViews, .create bobViews] []).map
      (fun view =>
        ((view.checkpoint.rows.isEmpty, view.checkpoint.hasReadyUniqueness),
          view.delta.map (fun delta => (decide (delta.deleted = ∅), delta.mutationCount.get,
            delta.inserted.containsRelationship aliceViews)),
          (view.checkpointed.map (fun folded =>
            decide (folded.checkpoint.rows = [aliceViews, bobViews]))).toOption))).toOption =
      some ((true, true), some (true, 2, true), some true) := by
    decide +kernel
  have hrunLast : (hiddenViewer.map (fun last =>
      decide (last.checkpoint.rows = [aliceViews, bobViews] ∧
        last.delta.map (·.deleted) = some {aliceViews}))).toOption = some true := by
    decide +kernel
  obtain ⟨view, hview, hresult⟩ := exists_ok_of_map_toOption hrun
  obtain ⟨hcheckpoint, hresult⟩ := Prod.mk.inj hresult
  obtain ⟨hrows, hready⟩ := Prod.mk.inj hcheckpoint
  obtain ⟨hdelta, hfold⟩ := Prod.mk.inj hresult
  obtain ⟨delta, hsome, hfacts⟩ := Option.map_eq_some_iff.mp hdelta
  obtain ⟨hdeleted, hfacts⟩ := Prod.mk.inj hfacts
  obtain ⟨hcount, hcontains⟩ := Prod.mk.inj hfacts
  obtain ⟨folded, hfolded, hfoldedRows⟩ := exists_ok_of_map_toOption hfold
  obtain ⟨last, hhidden, hfacts⟩ := exists_ok_of_map_toOption hrunLast
  obtain ⟨hlastRows, htombstones⟩ := of_decide_eq_true hfacts
  have hlast : folded.applyMutations [.delete aliceViews] [] = .ok last := by
    obtain ⟨view', hview', hrest⟩ := bind_eq_ok.mp hhidden
    cases hview.symm.trans hview'
    obtain ⟨folded', hfolded', hlast⟩ := bind_eq_ok.mp hrest
    cases hfolded.symm.trans hfolded'
    exact hlast
  have hinserted : InsertedOnly view delta.inserted 2 :=
    ⟨List.isEmpty_iff.mp hrows, hready, delta, hsome, rfl, of_decide_eq_true hdeleted, hcount⟩
  have hcreated : batchResult ∅ [.create aliceViews, .create bobViews] =
      {aliceViews, bobViews} := by
    decide +kernel
  have hremoved : batchResult {aliceViews, bobViews} [.delete aliceViews] = {bobViews} := by
    decide +kernel
  have hhistory : ∃ older, History ((folded, {aliceViews, bobViews}) :: older) := by
    apply @InsertedOnly.checkpointed _
      (fun view => ∃ older, History ((view, {aliceViews, bobViews}) :: older)) _ _ _ _ _
      ?_ hinserted (by decide) ?_ hcontains hfolded
    · rintro before after ⟨older, h⟩ htouch
      have hnext := h.batch htouch
      rw [batchResult_touch (by decide)] at hnext
      exact ⟨_, hnext⟩
    · have hnext := History.start.batch hview
      rw [hcreated] at hnext
      exact ⟨_, hnext⟩
  obtain ⟨older, hhistory⟩ := hhistory
  have hnext := hhistory.batch hlast
  rw [hremoved] at hnext
  exact ⟨folded, last, older, hhidden, of_decide_eq_true hfoldedRows, hlastRows, htombstones,
    hnext⟩

/-- After a fold and a deletion the view represents the viewer that is left, and the older
view still represents both. -/
theorem history_refines_set_hiddenViewer :
    let _ := fnvHasher
    ∃ folded last older,
      History ((last, {bobViews}) :: (folded, {aliceViews, bobViews}) :: older) ∧
      last.checkpoint.rows = [aliceViews, bobViews] ∧
      last.delta.map (·.deleted) = some {aliceViews} ∧
      last.Represents {bobViews} ∧ folded.Represents {aliceViews, bobViews} := by
  intro _
  obtain ⟨folded, last, older, _, _, hrows, htombstones, hhistory⟩ := exists_hiddenViewer_history
  exact ⟨folded, last, older, hhistory, hrows, htombstones,
    (history_refines_set hhistory _ List.mem_cons_self).1,
    (history_refines_set hhistory _ (List.mem_cons_of_mem _ List.mem_cons_self)).1⟩

end RelationshipStoreView

end SimpleZanzibar
