import SimpleZanzibar.Store.ViewQuery

/-!
# The fold of an overlay

An overlay is folded into a checkpoint when it has counted a fixed number of mutations.  Touches
of a row that is already there count and change nothing else, so that they lead from any view
without deletions to its fold.

**Results.**
* `InsertedOnly.touch`: a touch counts the mutation, up to the fold.
* `InsertedOnly.checkpointed`: what such touches preserve holds of the fold.
-/

namespace SimpleZanzibar

namespace RelationshipStoreView

variable [StoreHasher]

/-- Only the live rows of a view go into its checkpoint. -/
theorem checkpointed_congr
    {view view' : RelationshipStoreView}
    (h : view.rows = view'.rows) :
    view.checkpointed = view'.checkpointed := by
  unfold checkpointed canonicalStore
  rw [h]

/-- The overlay holds the rows and has counted `n` mutations, and nothing was deleted. -/
structure InsertedOnly (view : RelationshipStoreView) (inserted : IndexedRelationshipStore)
    (n : Nat) : Prop where
  checkpoint : view.checkpoint.rows = []
  ready : view.checkpoint.hasReadyUniqueness = true
  delta : ∃ delta, view.delta = some delta ∧ delta.inserted = inserted ∧ delta.deleted = ∅ ∧
    delta.mutationCount.get = n

omit [StoreHasher] in
theorem InsertedOnly.rows
    {view : RelationshipStoreView} {inserted : IndexedRelationshipStore} {n : Nat}
    (h : InsertedOnly view inserted n) :
    view.rows = inserted.rows := by
  obtain ⟨delta, hdelta, rfl, hdeleted, _⟩ := h.delta
  rw [rows_eq]
  unfold withoutTombstones insertedRows
  rw [h.checkpoint, hdelta]
  rfl

/-- Touching an inserted row only counts the mutation, up to the fold of the overlay. -/
theorem InsertedOnly.touch
    {view : RelationshipStoreView} {inserted : IndexedRelationshipStore} {n : Nat}
    {r : Relationship}
    (h : InsertedOnly view inserted n)
    (hr : inserted.containsRelationship r = true)
    (hn : n < storeViewMaxDeltaMutations) :
    ∃ candidate, InsertedOnly candidate inserted (n + 1) ∧
      view.applyMutations [.touch r] [] =
        if storeViewMaxDeltaMutations ≤ n + 1 then candidate.checkpointed else .ok candidate := by
  obtain ⟨delta, hdelta, rfl, hdeleted, hcount⟩ := h.delta
  have hready : view.ensureCheckpointMutationReady = .ok view := by
    unfold ensureCheckpointMutationReady
    rw [if_pos h.ready]
  have hfits : 0 < n + 1 ∧ n + 1 ≤ usizeMax := by
    unfold storeViewMaxDeltaMutations at hn
    unfold usizeMax
    omega
  have hmutations : view.mutationCount [.touch r] = .ok ⟨n + 1, hfits.1, hfits.2⟩ := by
    unfold RelationshipStoreView.mutationCount checkedAdd NonZeroUsize.new
    simp [hdelta, hcount, hfits]
  have hlocation : view.relationshipLocation delta.inserted ∅ r = .inserted := by
    unfold relationshipLocation
    rw [if_pos hr]
  have happly : view.applyDeltaMutations delta.inserted ∅ [.touch r] =
      .ok (delta.inserted, ∅) := by
    simp only [applyDeltaMutations, applyDeltaMutation, touchDeltaRelationship, hlocation]
    rfl
  have haccepted : admitBatch view.checkPrecondition [.touch r] [] = .ok () := by
    rfl
  have hdistinct : rejectDuplicates [.touch r] = .ok () := by
    simp [rejectDuplicates, firstDuplicate]
  refine ⟨view.withDelta delta.inserted ∅ ⟨n + 1, hfits.1, hfits.2⟩,
    ⟨h.checkpoint, h.ready, _, rfl, rfl, rfl, rfl⟩, ?_⟩
  have hbatch : view.applyBatch [.touch r] =
      if storeViewMaxDeltaMutations ≤ n + 1 then
        (view.withDelta delta.inserted ∅ ⟨n + 1, hfits.1, hfits.2⟩).checkpointed
      else .ok (view.withDelta delta.inserted ∅ ⟨n + 1, hfits.1, hfits.2⟩) := by
    unfold applyBatch
    simp only [hdelta, Option.map_some, Option.getD_some, hdeleted]
    rw [happly]
    simp only [bind, Except.bind, hmutations]
    simp [shouldCheckpoint, withDelta, storeViewMaxDeltaTombstones, storeViewMaxDeltaMutations]
  unfold RelationshipStoreView.applyMutations
  rw [haccepted, hdistinct, hready]
  exact hbatch

/-- Whatever touches of an inserted row preserve holds at any count below the fold. -/
theorem InsertedOnly.reach
    {P : RelationshipStoreView → Prop}
    {view : RelationshipStoreView} {inserted : IndexedRelationshipStore} {n : Nat}
    {r : Relationship}
    (hstep : ∀ {view view'}, P view → view.applyMutations [.touch r] [] = .ok view' → P view')
    (h : InsertedOnly view inserted n)
    (hview : P view)
    (hr : inserted.containsRelationship r = true) :
    ∀ m, n ≤ m → m < storeViewMaxDeltaMutations →
      ∃ view', P view' ∧ InsertedOnly view' inserted m := by
  intro m hm
  induction m, hm using Nat.le_induction with
  | base =>
      exact fun _ => ⟨view, hview, h⟩
  | succ m _ ih =>
      intro hlt
      obtain ⟨view', hview', h'⟩ := ih (by omega)
      obtain ⟨candidate, hcandidate, hrun⟩ := h'.touch hr (by omega)
      rw [if_neg (by omega)] at hrun
      exact ⟨candidate, hstep hview' hrun, hcandidate⟩

/-- Whatever touches of an inserted row preserve holds of the fold of the inserted rows. -/
theorem InsertedOnly.checkpointed
    {P : RelationshipStoreView → Prop}
    {view folded : RelationshipStoreView} {inserted : IndexedRelationshipStore} {n : Nat}
    {r : Relationship}
    (hstep : ∀ {view view'}, P view → view.applyMutations [.touch r] [] = .ok view' → P view')
    (h : InsertedOnly view inserted n)
    (hn : n < storeViewMaxDeltaMutations)
    (hview : P view)
    (hr : inserted.containsRelationship r = true)
    (hfold : view.checkpointed = .ok folded) :
    P folded := by
  obtain ⟨view', hview', h'⟩ := h.reach hstep hview hr (storeViewMaxDeltaMutations - 1)
    (by omega) (by unfold storeViewMaxDeltaMutations; omega)
  obtain ⟨candidate, hcandidate, hrun⟩ := h'.touch hr (by unfold storeViewMaxDeltaMutations; omega)
  rw [if_pos (by unfold storeViewMaxDeltaMutations; omega),
    checkpointed_congr (hcandidate.rows.trans h.rows.symm), hfold] at hrun
  exact hstep hview' hrun

end RelationshipStoreView

end SimpleZanzibar
