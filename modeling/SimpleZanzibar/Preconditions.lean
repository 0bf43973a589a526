import SimpleZanzibar.Store.ViewQuery
import SimpleZanzibar.WriterCorrect

/-!
# Preconditions

A precondition asks whether some live relationship matches a filter, and is decided by
the first element of the limited query.  The checkpoint spends the limit on deleted rows
too, and a reduced profile has no index for filters that leave the resource id or the
relation open, so that the verdict is the truth only while a match is visible.
-/

namespace SimpleZanzibar

namespace RelationshipStoreView

/-- A live match is seen by the query: it is an inserted one, or the checkpoint has the
index for the filter and one of its first matching rows, as many as the limit counts, was
not deleted. -/
def MatchVisible (view : RelationshipStoreView) (filter : RelationshipFilter) : Prop :=
  (∃ r ∈ view.insertedRows, filter.Matches r) ∨
    view.checkpoint.Answers filter.optionalResourceId.isSome filter.optionalRelation.isSome ∧
      ∃ r ∈ (view.checkpoint.rows.filter (fun r => decide (filter.Matches r))).take
        filter.limit.get, r ∉ view.tombstones

section Preconditions

variable [StoreHasher] {view : RelationshipStoreView}

/-- The verdict is whether a match is visible. -/
theorem Inv.anyResourceMatch_iff
    (hinv : view.Inv)
    (filter : RelationshipFilter) :
    view.anyResourceMatch filter = true ↔ view.MatchVisible filter := by
  have hempty := (hinv.refsDenote_query filter).isEmpty_eq
  have hpos : filter.limit.get ≠ 0 := Nat.pos_iff_ne_zero.mp filter.limit.pos
  unfold anyResourceMatch MatchVisible
  rw [hempty, Bool.not_eq_true', List.isEmpty_eq_false_iff_exists_mem]
  simp only [List.mem_append]
  rw [exists_or]
  refine or_congr ?_ ?_
  · constructor
    · rintro ⟨r, hr⟩
      obtain ⟨hmem, hmatch⟩ := List.mem_filter.mp (List.mem_of_mem_take hr)
      exact ⟨r, hmem, of_decide_eq_true hmatch⟩
    · rintro ⟨r, hmem, hmatch⟩
      apply List.exists_mem_of_ne_nil
      rw [Ne, List.take_eq_nil_iff, not_or]
      exact ⟨hpos, List.ne_nil_of_mem (List.mem_filter.mpr ⟨hmem, decide_eq_true hmatch⟩)⟩
  · unfold withoutTombstones IndexedRelationshipStore.answer
    by_cases hanswers : view.checkpoint.Answers filter.optionalResourceId.isSome
        filter.optionalRelation.isSome
    · rw [if_pos hanswers]
      simp only [List.mem_filter, decide_eq_true_eq, hanswers, true_and]
    · simp [hanswers]

omit [StoreHasher] in
/-- What is visible is live. -/
theorem MatchVisible.live
    {filter : RelationshipFilter}
    (h : view.MatchVisible filter) :
    ∃ r ∈ view.liveSet, filter.Matches r := by
  rcases h with ⟨r, hr, hmatch⟩ | ⟨_, r, hr, hlive⟩
  · exact ⟨r, mem_liveSet_iff.mpr (mem_rows_iff.mpr (Or.inr hr)), hmatch⟩
  · obtain ⟨hmem, hmatch⟩ := List.mem_filter.mp (List.mem_of_mem_take hr)
    exact ⟨r, mem_liveSet_iff.mpr (mem_rows_iff.mpr (Or.inl ⟨hmem, hlive⟩)),
      of_decide_eq_true hmatch⟩

/-- The verdicts on a filter are the truth about the live set. -/
structure PreconditionsExact (view : RelationshipStoreView) (filter : RelationshipFilter) :
    Prop where
  mustMatch : view.checkPrecondition (.mustMatch filter) = .ok () ↔
    ∃ r ∈ view.liveSet, filter.Matches r
  mustNotMatch : view.checkPrecondition (.mustNotMatch filter) = .ok () ↔
    ¬ ∃ r ∈ view.liveSet, filter.Matches r

theorem checkPrecondition_mustMatch_iff
    (view : RelationshipStoreView) (filter : RelationshipFilter) :
    view.checkPrecondition (.mustMatch filter) = .ok () ↔
      view.anyResourceMatch filter = true := by
  unfold checkPrecondition
  cases h : view.anyResourceMatch filter <;> simp [h]

theorem checkPrecondition_mustNotMatch_iff
    (view : RelationshipStoreView) (filter : RelationshipFilter) :
    view.checkPrecondition (.mustNotMatch filter) = .ok () ↔
      ¬ view.anyResourceMatch filter = true := by
  unfold checkPrecondition
  cases h : view.anyResourceMatch filter <;> simp [h]

end Preconditions

end RelationshipStoreView

section Reachable

variable [StoreHasher]

/-- In every reachable state the verdicts on a filter are the truth iff no live relationship
matches it or a match is visible. -/
theorem checkPrecondition_exact_iff
    {state : WriterState}
    (hreach : WriterReachable state)
    (filter : RelationshipFilter) :
    state.relationships.PreconditionsExact filter ↔
      ((¬ ∃ r ∈ state.relationships.liveSet, filter.Matches r) ∨
        state.relationships.MatchVisible filter) := by
  have hany := hreach.invariant.relationships.anyResourceMatch_iff filter
  have hmust := state.relationships.checkPrecondition_mustMatch_iff filter
  constructor
  · intro hexact
    by_cases hlive : ∃ r ∈ state.relationships.liveSet, filter.Matches r
    · exact Or.inr (hany.mp (hmust.mp (hexact.mustMatch.mpr hlive)))
    · exact Or.inl hlive
  · intro hcase
    have hiff : state.relationships.anyResourceMatch filter = true ↔
        ∃ r ∈ state.relationships.liveSet, filter.Matches r := by
      refine ⟨fun h => (hany.mp h).live, ?_⟩
      intro hlive
      rcases hcase with hnone | hvisible
      · exact absurd hlive hnone
      · exact hany.mpr hvisible
    exact ⟨hmust.trans hiff,
      (state.relationships.checkPrecondition_mustNotMatch_iff filter).trans (not_congr hiff)⟩

end Reachable

/-- Two documents are written, the schema is loaded once more, which folds them into a
checkpoint, and the first is deleted.  With limit one the query spends its limit on the
deleted row: that some document exists is denied, although the second one is live. -/
theorem checkPrecondition_deleted_row_spends_limit :
    let config : NamespaceConfig := .ofRelations "doc" [("viewer", none)]
    let first : Relationship :=
      ⟨objectLit "doc" "1", relationLit "viewer", .object (objectLit "user" "alice")⟩
    let second : Relationship :=
      ⟨objectLit "doc" "2", relationLit "viewer", .object (objectLit "user" "alice")⟩
    let filter : RelationshipFilter := ⟨⟨"doc", by decide⟩, none, none, none, minQueryLimit⟩
    ∃ state, @WriterReachable fnvHasher state ∧
      @WriterCommand.runAll fnvHasher .latestFirst
        [.applyNamespaceConfigs [config],
          .applyRelationshipMutations [.create first, .create second] [],
          .applyNamespaceConfigs [config],
          .applyRelationshipMutations [.delete first] []] .new = .ok state ∧
      second ∈ state.relationships.liveSet ∧ filter.Matches second ∧
      ¬ @RelationshipStoreView.PreconditionsExact fnvHasher state.relationships filter := by
  intro config first second filter
  let _ := fnvHasher
  have hmatches : filter.Matches second := by decide +kernel
  have hrun : ((WriterCommand.runAll .latestFirst
      [.applyNamespaceConfigs [config],
        .applyRelationshipMutations [.create first, .create second] [],
        .applyNamespaceConfigs [config],
        .applyRelationshipMutations [.delete first] []] .new).map (fun state =>
          (decide (second ∈ state.relationships.liveSet),
            (state.relationships.checkPrecondition (.mustMatch filter)).toBool))).toOption =
      some (true, false) := by
    decide +kernel
  obtain ⟨state, hstate, hresult⟩ := exists_ok_of_map_toOption hrun
  obtain ⟨hlive, hverdict⟩ := Prod.mk.inj hresult
  have hlive : second ∈ state.relationships.liveSet := of_decide_eq_true hlive
  refine ⟨state, WriterReachable.new.runAll hstate, hstate, hlive, hmatches, ?_⟩
  intro hexact
  rw [hexact.mustMatch.mpr ⟨second, hlive, hmatches⟩] at hverdict
  cases hverdict

/-- Of two documents in the checkpoint the second is deleted: with limit one a query still
sees the first, and the verdicts are the truth. -/
theorem checkPrecondition_exact_iff_deletedBehind :
    let _ := fnvHasher
    let config : NamespaceConfig := .ofRelations "doc" [("viewer", none)]
    let first : Relationship :=
      ⟨objectLit "doc" "1", relationLit "viewer", .object (objectLit "user" "alice")⟩
    let second : Relationship :=
      ⟨objectLit "doc" "2", relationLit "viewer", .object (objectLit "user" "alice")⟩
    let filter : RelationshipFilter := ⟨⟨"doc", by decide⟩, none, none, none, minQueryLimit⟩
    ∃ state, WriterReachable state ∧
      WriterCommand.runAll .latestFirst
        [.applyNamespaceConfigs [config],
          .applyRelationshipMutations [.create first, .create second] [],
          .applyNamespaceConfigs [config],
          .applyRelationshipMutations [.delete second] []] .new = .ok state ∧
      state.relationships.checkpoint.rows = [first, second] ∧
      state.relationships.liveSet = {first} ∧
      (state.relationships.PreconditionsExact filter ↔
        ((¬ ∃ r ∈ state.relationships.liveSet, filter.Matches r) ∨
          state.relationships.MatchVisible filter)) ∧
      state.relationships.PreconditionsExact filter := by
  intro _ config first second filter
  have hmatches : filter.Matches first := by decide +kernel
  have hrun : ((WriterCommand.runAll .latestFirst
      [.applyNamespaceConfigs [config],
        .applyRelationshipMutations [.create first, .create second] [],
        .applyNamespaceConfigs [config],
        .applyRelationshipMutations [.delete second] []] .new).map (fun state =>
          (decide (state.relationships.checkpoint.rows = [first, second]),
            decide (state.relationships.liveSet = {first}),
            state.relationships.anyResourceMatch filter))).toOption =
      some (true, true, true) := by
    decide +kernel
  obtain ⟨state, hstate, hresult⟩ := exists_ok_of_map_toOption hrun
  obtain ⟨hrows, hresult⟩ := Prod.mk.inj hresult
  obtain ⟨hlive, hany⟩ := Prod.mk.inj hresult
  have hreach : WriterReachable state := WriterReachable.new.runAll hstate
  have hiff := checkPrecondition_exact_iff hreach filter
  exact ⟨state, hreach, hstate, of_decide_eq_true hrows, of_decide_eq_true hlive, hiff,
    hiff.mpr (Or.inr ((hreach.invariant.relationships.anyResourceMatch_iff filter).mp hany))⟩

end SimpleZanzibar
