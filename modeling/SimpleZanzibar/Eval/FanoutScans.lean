import SimpleZanzibar.Eval.LookupSubjectsCorrect

/-!
# Limited scans of reachable views

When a limited query of a view that mutation batches lead to loses no live row, and when
`expand` and `lookup_subjects` see all live rows of a relation or exceed their fanout.
-/

namespace SimpleZanzibar

open RelationshipStoreView

section Expansions

variable {context context' : EvaluationContext}

/-- A scan fails on the row in excess or on a row that is no user and no userset. -/
theorem Evaluation.expandRows_eq_error
    {fanout : Nat} {refs : List RelationshipRef} {error : ZanzibarError}
    (h : expandRows fanout refs context = (.error error, context')) :
    error = .evaluation (.fanoutExceeded context.limits.maxFanoutPerStep) ∨
      ∃ ref ∈ refs, ref.expandedSubject = .error error := by
  induction refs generalizing fanout with
  | nil =>
      cases h
  | cons ref rest ih =>
      unfold expandRows at h
      rcases Action.bind_eq_error.mp h with hcount | ⟨next, counted, hcount, htail⟩
      · unfold incrementFanout at hcount
        rw [Action.get_bind_apply] at hcount
        split at hcount
        · cases hcount
          exact Or.inl rfl
        · cases hcount
      · obtain ⟨rfl, _, _⟩ := incrementFanout_eq_ok hcount
        rcases Action.bind_eq_error.mp htail with hsubject | ⟨user, after, hsubject, hrest⟩
        · exact Or.inr ⟨ref, List.mem_cons_self, (Prod.mk.inj hsubject).1⟩
        · cases (Prod.mk.inj hsubject).2
          rcases Action.bind_eq_error.mp hrest with hrows | ⟨users, last, _, hlast⟩
          · rcases ih hrows with hexceeded | ⟨other, hother, hfail⟩
            · exact Or.inl hexceeded
            · exact Or.inr ⟨other, List.mem_cons_of_mem _ hother, hfail⟩
          · cases hlast

end Expansions

section Reachable

variable [StoreHasher] {view : RelationshipStoreView}

/-- The stored subjects of a relation are seen in full, or the fanout is exceeded: by the
scan itself, by `expand` and by `lookup_subjects`, unless the latter has reported enough
subjects before. -/
structure SeesAllOrExceeds (view : RelationshipStoreView) (resource : ObjectRef)
    (relation : RelationName) (context : EvaluationContext) : Prop where
  scan : view.ScanComplete resource relation context.limits.maxFanoutPerStep.get
    context.fanoutQueryLimit
  expand : ∀ tree context',
    Evaluation.expandThis resource.toObject relation context = (.ok tree, context') →
      SeesRows view resource relation tree
  expandError : ∀ error context',
    Evaluation.expandThis resource.toObject relation context = (.error error, context') →
      error = .evaluation (.fanoutExceeded context.limits.maxFanoutPerStep) ∨
        ∃ ref ∈ view.resourceRelation resource relation context.fanoutQueryLimit,
          ref.expandedSubject = .error error
  lookup : ∀ fuel verifyCandidates collector stream',
    Streaming.streamLookupSubjectsThis (Streaming.streamLookupSubjectsRelation fuel)
        resource.toObject relation verifyCandidates ⟨context, collector⟩ = (.ok (), stream') →
      stream'.collector.resultLimitReached = false →
      ∀ r ∈ view.liveOn resource relation, stream'.collector.Saw r.subject

theorem seesAllOrExceeds_of_scan
    {resource : ObjectRef} {relation : RelationName} {context : EvaluationContext}
    (hview : context.snapshot.relationships = view)
    (hinv : view.Inv)
    (hscan : view.ScanComplete resource relation context.limits.maxFanoutPerStep.get
      context.fanoutQueryLimit) :
    SeesAllOrExceeds view resource relation context := by
  subst hview
  have hcomplete : ∀ other, ObjectRef.tryFrom resource.toObject = .ok other →
      context.snapshot.relationships.ScanComplete other relation
        context.limits.maxFanoutPerStep.get context.fanoutQueryLimit := by
    intro other hother
    rw [ObjectRef.tryFrom_toObject] at hother
    cases hother
    exact hscan
  refine ⟨hscan, ?_, ?_, ?_⟩
  · intro tree context' hexpand
    obtain ⟨_, other, hother, hsees⟩ := Evaluation.expandThis_eq_ok hexpand hinv hcomplete
    rw [ObjectRef.tryFrom_toObject] at hother
    cases hother
    exact hsees
  · intro error context' hexpand
    unfold Evaluation.expandThis Evaluation.ofDomain at hexpand
    rw [ObjectRef.tryFrom_toObject] at hexpand
    rcases Action.bind_eq_error.mp hexpand with hfail | ⟨other, after, hlift, hrows⟩
    · cases hfail
    · cases hlift
      rw [Action.get_bind_apply] at hrows
      rcases Action.bind_eq_error.mp hrows with hrows | ⟨users, last, _, hlast⟩
      · exact Evaluation.expandRows_eq_error hrows
      · cases hlast
  · intro fuel verify collector stream' hlookup hopen
    obtain ⟨other, hother, hsaw⟩ := Streaming.saw_streamThis
      (Streaming.respects_streamRelation fuel) hlookup hopen hinv hcomplete
    rw [ObjectRef.tryFrom_toObject] at hother
    cases hother
    exact hsaw

/-- In every view that batches reach, a limited query loses no live row iff no live
checkpoint row hides behind the first `limit` ones, and a scan of `expand` or
`lookup_subjects` sees all live rows or exceeds its fanout iff it meets more rows than the
fanout or no live row hides. -/
theorem limited_queries_complete_iff
    (hreach : BatchReachable view)
    (resource : ObjectRef) (relation : RelationName) :
    (∀ limit : QueryLimit, view.LimitedQueryComplete resource relation limit ↔
      ((view.liveOn resource relation).card ≤ limit.get →
        view.hiddenRows resource relation limit.get = [])) ∧
    ∀ context : EvaluationContext, context.snapshot.relationships = view →
      (SeesAllOrExceeds view resource relation context ↔
        (context.limits.maxFanoutPerStep.get <
            view.visibleCount resource relation (context.limits.maxFanoutPerStep.get + 1) ∨
          view.hiddenRows resource relation (context.limits.maxFanoutPerStep.get + 1) = [])) := by
  have hinv := hreach.invariant.1
  refine ⟨hinv.limitedQueryComplete_iff resource relation, ?_⟩
  intro context hview
  have hiff := hinv.scanComplete_iff resource relation context.fanoutQueryLimit_get
  rw [context.fanoutQueryLimit_get] at hiff
  rw [← hiff]
  exact ⟨fun h => h.scan, seesAllOrExceeds_of_scan hview hinv⟩

end Reachable

/-- Two viewers are created, one of them is touched until the overlay is folded into a
checkpoint, and then deleted.  A query with limit one spends its limit on the deleted row
and yields nothing, although exactly one viewer is live. -/
theorem limited_query_loses_live_row :
    let first : Relationship :=
      ⟨objectLit "doc" "1", relationLit "viewer", .object (objectLit "user" "alice")⟩
    let second : Relationship :=
      ⟨objectLit "doc" "1", relationLit "viewer", .object (objectLit "user" "bob")⟩
    ∃ view, @BatchReachable fnvHasher view ∧
      view.liveOn first.resource first.relation = {second} ∧
      @RelationshipStoreView.resourceRelation fnvHasher view first.resource first.relation
        minQueryLimit = [] ∧
      ¬ @LimitedQueryComplete fnvHasher view first.resource first.relation minQueryLimit := by
  intro first second
  let _ := fnvHasher
  obtain ⟨folded, last, older, hhidden, _, _, _, hhistory⟩ := exists_hiddenViewer_history
  have hrun : (hiddenViewer.map (fun view =>
      (decide (view.liveOn first.resource first.relation = {second}),
        (view.resourceRelation first.resource first.relation minQueryLimit).length))).toOption =
      some (true, 0) := by
    decide +kernel
  rw [hhidden] at hrun
  obtain ⟨hlive, hlength⟩ := Prod.mk.inj (Option.some.inj hrun)
  have hlive := of_decide_eq_true hlive
  have hnone := List.length_eq_zero_iff.mp hlength
  refine ⟨last, hhistory.batchReachable _ List.mem_cons_self, hlive, hnone, ?_⟩
  intro hcomplete
  obtain ⟨rs, hrs, _, hset⟩ := hcomplete (by rw [hlive]; decide)
  rw [hnone] at hrs
  cases hrs
  rw [hlive] at hset
  exact Finset.singleton_ne_empty second hset.symm

/-- With a deleted row in front of the live one a query of two rows is complete. -/
theorem limited_queries_complete_iff_hiddenViewer :
    let _ := fnvHasher
    let limit : QueryLimit := ⟨2, by decide, by decide⟩
    ∃ last, hiddenViewer = .ok last ∧
      last.liveOn aliceViews.resource aliceViews.relation = {bobViews} ∧
      last.checkpoint.rows = [aliceViews, bobViews] ∧
      (last.LimitedQueryComplete aliceViews.resource aliceViews.relation limit ↔
        ((last.liveOn aliceViews.resource aliceViews.relation).card ≤ limit.get →
          last.hiddenRows aliceViews.resource aliceViews.relation limit.get = [])) ∧
      last.LimitedQueryComplete aliceViews.resource aliceViews.relation limit := by
  intro _ limit
  obtain ⟨folded, last, older, hhidden, _, hrows, _, hhistory⟩ := exists_hiddenViewer_history
  have hrun : (hiddenViewer.map (fun view =>
      (decide (view.liveOn aliceViews.resource aliceViews.relation = {bobViews}),
        decide (view.hiddenRows aliceViews.resource aliceViews.relation limit.get = [])))).toOption
      = some (true, true) := by
    decide +kernel
  rw [hhidden] at hrun
  obtain ⟨hlive, hnone⟩ := Prod.mk.inj (Option.some.inj hrun)
  have hiff := (limited_queries_complete_iff (hhistory.batchReachable _ List.mem_cons_self)
    aliceViews.resource aliceViews.relation).1 limit
  exact ⟨last, hhidden, of_decide_eq_true hlive, hrows, hiff,
    hiff.mpr (fun _ => of_decide_eq_true hnone)⟩

end SimpleZanzibar
