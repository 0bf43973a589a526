import SimpleZanzibar.Store.QueryCorrect
import SimpleZanzibar.Store.View

/-!
# The store view as a set of relationships

The abstract store is a finite set of relationships: a batch is admitted when it is
small, names no relationship twice, creates absent and deletes present ones, and its
effect is to add and remove them.  `Overlay` couples a checkpoint with its overlay so
that the view stands for such a set; every mutation keeps it and moves the set as the
abstract batch does, and so does folding the overlay into a checkpoint.
-/

namespace SimpleZanzibar

namespace RelationshipMutation

/-- The mutation fits the current set. -/
def AdmittedBy (set : Finset Relationship) : RelationshipMutation → Prop
  | .create r => r ∉ set
  | .touch _ => True
  | .delete r => r ∈ set

/-- The set after the mutation. -/
def applyTo (set : Finset Relationship) : RelationshipMutation → Finset Relationship
  | .create r => insert r set
  | .touch r => insert r set
  | .delete r => set.erase r

/-- The mutation makes the relationship present. -/
def adds : RelationshipMutation → Bool
  | .delete _ => false
  | _ => true

theorem mem_applyTo_iff
    {set : Finset Relationship} {mutation : RelationshipMutation} {r : Relationship} :
    r ∈ mutation.applyTo set ↔
      if mutation.relationship = r then mutation.adds = true else r ∈ set := by
  by_cases h : mutation.relationship = r
  · subst h
    cases mutation <;> simp [applyTo, relationship, adds]
  · have hne : r ≠ mutation.relationship := Ne.symm h
    rw [if_neg h]
    cases mutation <;> simp_all [applyTo, relationship]

/-- A mutation of another relationship does not change what is admitted. -/
theorem admittedBy_applyTo_iff
    {set : Finset Relationship} {mutation other : RelationshipMutation}
    (hne : other.relationship ≠ mutation.relationship) :
    mutation.AdmittedBy (other.applyTo set) ↔ mutation.AdmittedBy set := by
  have hmem : mutation.relationship ∈ other.applyTo set ↔ mutation.relationship ∈ set := by
    rw [mem_applyTo_iff, if_neg hne]
  cases mutation with
  | create r =>
      exact not_congr hmem
  | touch r =>
      exact Iff.rfl
  | delete r =>
      exact hmem

end RelationshipMutation

/-- The batches that the abstract store accepts. -/
structure BatchAdmitted (set : Finset Relationship) (mutations : List RelationshipMutation) :
    Prop where
  size : mutations.length ≤ maxMutationsPerBatch
  distinct : (mutations.map (·.relationship)).Nodup
  admitted : ∀ mutation ∈ mutations, mutation.AdmittedBy set

/-- The set with the creates and touches added and the deletes removed. -/
def batchResult (set : Finset Relationship) (mutations : List RelationshipMutation) :
    Finset Relationship :=
  set.filter (fun r => RelationshipMutation.delete r ∉ mutations) ∪
    ((mutations.filter (·.adds)).map (·.relationship)).toFinset

/-- The batch result is what the mutations yield one after the other. -/
theorem foldl_applyTo_eq_batchResult
    {mutations : List RelationshipMutation}
    (hdistinct : (mutations.map (·.relationship)).Nodup)
    (set : Finset Relationship) :
    mutations.foldl (fun set mutation => mutation.applyTo set) set =
      batchResult set mutations := by
  have hmem : ∀ r, r ∈ mutations.foldl (fun set mutation => mutation.applyTo set) set ↔
      (r ∈ set ∧ RelationshipMutation.delete r ∉ mutations) ∨
        ∃ mutation ∈ mutations, mutation.adds = true ∧ mutation.relationship = r := by
    intro r
    induction mutations generalizing set with
    | nil =>
        simp
    | cons mutation rest ih =>
        rw [List.map_cons, List.nodup_cons] at hdistinct
        rw [List.foldl_cons, ih hdistinct.2, RelationshipMutation.mem_applyTo_iff]
        by_cases heq : mutation.relationship = r
        · subst heq
          have hrest : ∀ other ∈ rest, other.relationship ≠ mutation.relationship := by
            intro other hother h
            exact hdistinct.1 (List.mem_map.mpr ⟨other, hother, h⟩)
          have hdelete : RelationshipMutation.delete mutation.relationship ∉ rest :=
            fun h => hrest _ h rfl
          cases mutation with
          | create r' =>
              simp [RelationshipMutation.adds, hdelete]
          | touch r' =>
              simp [RelationshipMutation.adds, hdelete]
          | delete r' =>
              simp [RelationshipMutation.adds, RelationshipMutation.relationship]
        · have hdelete : RelationshipMutation.delete r ≠ mutation := by
            rintro rfl
            exact heq rfl
          simp [heq, hdelete]
  ext r
  rw [hmem]
  simp [batchResult, and_assoc]

/-- A batch is free of duplicates iff its relationships are distinct. -/
theorem firstDuplicate_eq_none_iff
    (mutations : List RelationshipMutation) (seen : Finset Relationship) :
    firstDuplicate seen mutations = none ↔
      (mutations.map (·.relationship)).Nodup ∧
        ∀ mutation ∈ mutations, mutation.relationship ∉ seen := by
  induction mutations generalizing seen with
  | nil =>
      simp [firstDuplicate]
  | cons mutation rest ih =>
      unfold firstDuplicate
      by_cases hseen : mutation.relationship ∈ seen
      · simp [hseen]
      · rw [if_neg hseen, ih, List.map_cons, List.nodup_cons]
        constructor
        · rintro ⟨hnodup, hrest⟩
          refine ⟨⟨?_, hnodup⟩, ?_⟩
          · intro hmem
            obtain ⟨other, hother, heq⟩ := List.mem_map.mp hmem
            exact hrest other hother (heq ▸ Finset.mem_insert_self _ _)
          · intro other hother
            rcases List.mem_cons.mp hother with rfl | hother
            · exact hseen
            · exact fun h => hrest other hother (Finset.mem_insert_of_mem h)
        · rintro ⟨⟨hnot, hnodup⟩, hall⟩
          refine ⟨hnodup, ?_⟩
          intro other hother hmem
          rcases Finset.mem_insert.mp hmem with heq | hmem
          · exact hnot (List.mem_map.mpr ⟨other, hother, heq⟩)
          · exact hall other (List.mem_cons_of_mem _ hother) hmem

/-- The checkpoint of a view can be searched for relationships. -/
structure Searchable [StoreHasher] (checkpoint : IndexedRelationshipStore) : Prop where
  inv : checkpoint.Inv
  ready : ∃ index, checkpoint.uniqueness = .ready index

/-- Inserted rows are not in the checkpoint, tombstones are. -/
structure Overlay [StoreHasher] (checkpoint inserted : IndexedRelationshipStore)
    (deleted : Finset Relationship) : Prop where
  writable : inserted.Writable
  disjoint : ∀ r ∈ inserted.rows, r ∉ checkpoint.rows
  tombstones : ∀ r ∈ deleted, r ∈ checkpoint.rows

/-- The set that a checkpoint and an overlay stand for. -/
def overlaySet (checkpoint inserted : IndexedRelationshipStore)
    (deleted : Finset Relationship) : Finset Relationship :=
  (checkpoint.rows.toFinset \ deleted) ∪ inserted.rows.toFinset

theorem mem_overlaySet_iff
    {checkpoint inserted : IndexedRelationshipStore} {deleted : Finset Relationship}
    {r : Relationship} :
    r ∈ overlaySet checkpoint inserted deleted ↔
      r ∈ checkpoint.rows ∧ r ∉ deleted ∨ r ∈ inserted.rows := by
  simp [overlaySet]

namespace RelationshipStoreView

section Mutations

variable [StoreHasher] {view : RelationshipStoreView} {inserted : IndexedRelationshipStore}
  {deleted : Finset Relationship}

/-- What the location of a relationship says about the set. -/
theorem relationshipLocation_cases
    (hcheckpoint : Searchable view.checkpoint)
    (hoverlay : Overlay view.checkpoint inserted deleted)
    (r : Relationship) :
    (view.relationshipLocation inserted deleted r = .inserted ∧ r ∈ inserted.rows) ∨
    (view.relationshipLocation inserted deleted r = .checkpointLive ∧
      r ∉ inserted.rows ∧ r ∈ view.checkpoint.rows ∧ r ∉ deleted) ∨
    (view.relationshipLocation inserted deleted r = .checkpointDeleted ∧
      r ∉ inserted.rows ∧ r ∈ view.checkpoint.rows ∧ r ∈ deleted) ∨
    (view.relationshipLocation inserted deleted r = .absent ∧
      r ∉ inserted.rows ∧ r ∉ view.checkpoint.rows) := by
  have hinserted := hoverlay.writable.inv.containsRelationship_iff hoverlay.writable.ready r
  have hstored := hcheckpoint.inv.containsRelationship_iff hcheckpoint.ready r
  unfold relationshipLocation
  by_cases hin : r ∈ inserted.rows
  · rw [if_pos (hinserted.mpr hin)]
    exact Or.inl ⟨rfl, hin⟩
  · rw [if_neg (fun h => hin (hinserted.mp h))]
    by_cases hcp : r ∈ view.checkpoint.rows
    · rw [if_pos (hstored.mpr hcp)]
      by_cases hdel : r ∈ deleted
      · rw [if_pos hdel]
        exact Or.inr (Or.inr (Or.inl ⟨rfl, hin, hcp, hdel⟩))
      · rw [if_neg hdel]
        exact Or.inr (Or.inl ⟨rfl, hin, hcp, hdel⟩)
    · rw [if_neg (fun h => hcp (hstored.mp h))]
      exact Or.inr (Or.inr (Or.inr ⟨rfl, hin, hcp⟩))

/-- Inserting a relationship that the view does not have. -/
theorem insert_absent
    (hoverlay : Overlay view.checkpoint inserted deleted)
    {r : Relationship}
    (hin : r ∉ inserted.rows)
    (hcp : r ∉ view.checkpoint.rows) :
    Outcome (do
        let inserted ← (IndexedRelationshipStore.insert r).exec inserted
        return (inserted, deleted))
      (fun result : IndexedRelationshipStore × Finset Relationship =>
        Overlay view.checkpoint result.1 result.2 ∧
          overlaySet view.checkpoint result.1 result.2 =
            insert r (overlaySet view.checkpoint inserted deleted))
      StoreError.IsCapacity := by
  apply Outcome.bind (Outcome.exec (hoverlay.writable.insert hin))
  rintro inserted' ⟨_, hw, hrows⟩
  refine ⟨⟨hw, ?_, hoverlay.tombstones⟩, ?_⟩
  · intro r' hr'
    rw [hrows, List.mem_append, List.mem_singleton] at hr'
    rcases hr' with hr' | rfl
    · exact hoverlay.disjoint r' hr'
    · exact hcp
  · ext r'
    simp only [Finset.mem_insert, mem_overlaySet_iff, hrows, List.mem_append,
      List.mem_singleton]
    tauto

/-- Taking back a tombstone. -/
theorem erase_tombstone
    (hoverlay : Overlay view.checkpoint inserted deleted)
    {r : Relationship}
    (hcp : r ∈ view.checkpoint.rows) :
    Overlay view.checkpoint inserted (deleted.erase r) ∧
      overlaySet view.checkpoint inserted (deleted.erase r) =
        insert r (overlaySet view.checkpoint inserted deleted) := by
  refine ⟨⟨hoverlay.writable, hoverlay.disjoint, ?_⟩, ?_⟩
  · intro r' hr'
    exact hoverlay.tombstones r' (Finset.mem_of_mem_erase hr')
  · ext r'
    simp only [Finset.mem_insert, mem_overlaySet_iff, Finset.mem_erase]
    by_cases heq : r' = r
    · subst heq
      simp [hcp]
    · simp [heq]

/-- Deleting a row that was inserted over the checkpoint. -/
theorem delete_inserted
    (hoverlay : Overlay view.checkpoint inserted deleted)
    {r : Relationship}
    (hin : r ∈ inserted.rows) :
    ∃ inserted', IndexedRelationshipStore.delete r inserted = (.ok (), inserted') ∧
      Overlay view.checkpoint inserted' deleted ∧
        overlaySet view.checkpoint inserted' deleted =
          (overlaySet view.checkpoint inserted deleted).erase r := by
  obtain ⟨inserted', hdelete, hw, hrows⟩ := hoverlay.writable.delete hin
  have hnotCp := hoverlay.disjoint r hin
  refine ⟨inserted', hdelete, ⟨hw, ?_, hoverlay.tombstones⟩, ?_⟩
  · intro r' hr'
    rw [hrows] at hr'
    exact hoverlay.disjoint r' (List.mem_filter.mp hr').1
  · ext r'
    simp only [Finset.mem_erase, mem_overlaySet_iff, hrows, List.mem_filter, decide_eq_true_eq]
    by_cases heq : r' = r
    · subst heq
      simp [hnotCp]
    · simp [heq]

/-- Deleting a row of the checkpoint. -/
theorem insert_tombstone
    (hoverlay : Overlay view.checkpoint inserted deleted)
    {r : Relationship}
    (hin : r ∉ inserted.rows)
    (hcp : r ∈ view.checkpoint.rows) :
    Overlay view.checkpoint inserted (insert r deleted) ∧
      overlaySet view.checkpoint inserted (insert r deleted) =
        (overlaySet view.checkpoint inserted deleted).erase r := by
  refine ⟨⟨hoverlay.writable, hoverlay.disjoint, ?_⟩, ?_⟩
  · intro r' hr'
    rcases Finset.mem_insert.mp hr' with rfl | hr'
    · exact hcp
    · exact hoverlay.tombstones r' hr'
  · ext r'
    simp only [Finset.mem_erase, mem_overlaySet_iff, Finset.mem_insert]
    by_cases heq : r' = r
    · subst heq
      simp [hin]
    · simp [heq]

/-- One mutation keeps the overlay and moves the set as the abstract store does. -/
theorem applyDeltaMutation_outcome
    (hcheckpoint : Searchable view.checkpoint)
    (hoverlay : Overlay view.checkpoint inserted deleted)
    (mutation : RelationshipMutation) :
    Outcome (view.applyDeltaMutation inserted deleted mutation)
      (fun result =>
        mutation.AdmittedBy (overlaySet view.checkpoint inserted deleted) ∧
        Overlay view.checkpoint result.1 result.2 ∧
          overlaySet view.checkpoint result.1 result.2 =
            mutation.applyTo (overlaySet view.checkpoint inserted deleted))
      (fun error => error.IsCapacity ∨
        ¬ mutation.AdmittedBy (overlaySet view.checkpoint inserted deleted)) := by
  cases mutation with
  | create r =>
      simp only [applyDeltaMutation, createDeltaRelationship, RelationshipMutation.AdmittedBy]
      rcases relationshipLocation_cases hcheckpoint hoverlay r with
        ⟨h, hin⟩ | ⟨h, hin, hcp, hdel⟩ | ⟨h, hin, hcp, hdel⟩ | ⟨h, hin, hcp⟩
      · rw [h]
        exact Or.inr (not_not.mpr (mem_overlaySet_iff.mpr (Or.inr hin)))
      · rw [h]
        exact Or.inr (not_not.mpr (mem_overlaySet_iff.mpr (Or.inl ⟨hcp, hdel⟩)))
      · rw [h]
        refine ⟨?_, erase_tombstone hoverlay hcp⟩
        rw [mem_overlaySet_iff]
        tauto
      · rw [h]
        refine (insert_absent hoverlay hin hcp).imp ?_ (fun _ => Or.inl)
        intro result hresult
        refine ⟨?_, hresult⟩
        rw [mem_overlaySet_iff]
        tauto
  | touch r =>
      simp only [applyDeltaMutation, touchDeltaRelationship]
      rcases relationshipLocation_cases hcheckpoint hoverlay r with
        ⟨h, hin⟩ | ⟨h, hin, hcp, hdel⟩ | ⟨h, hin, hcp, hdel⟩ | ⟨h, hin, hcp⟩
      · rw [h]
        refine ⟨trivial, hoverlay, ?_⟩
        exact (Finset.insert_eq_of_mem (mem_overlaySet_iff.mpr (Or.inr hin))).symm
      · rw [h]
        refine ⟨trivial, hoverlay, ?_⟩
        exact (Finset.insert_eq_of_mem (mem_overlaySet_iff.mpr (Or.inl ⟨hcp, hdel⟩))).symm
      · rw [h]
        exact ⟨trivial, erase_tombstone hoverlay hcp⟩
      · rw [h]
        exact (insert_absent hoverlay hin hcp).imp (fun _ hresult => ⟨trivial, hresult⟩)
          (fun _ => Or.inl)
  | delete r =>
      simp only [applyDeltaMutation, deleteDeltaRelationship, RelationshipMutation.AdmittedBy]
      rcases relationshipLocation_cases hcheckpoint hoverlay r with
        ⟨h, hin⟩ | ⟨h, hin, hcp, hdel⟩ | ⟨h, hin, hcp, hdel⟩ | ⟨h, hin, hcp⟩
      · rw [h]
        obtain ⟨inserted', hdelete, hresult⟩ := delete_inserted hoverlay hin
        simp only [Action.exec, hdelete]
        exact ⟨mem_overlaySet_iff.mpr (Or.inr hin), hresult⟩
      · rw [h]
        exact ⟨mem_overlaySet_iff.mpr (Or.inl ⟨hcp, hdel⟩), insert_tombstone hoverlay hin hcp⟩
      · rw [h]
        refine Or.inr ?_
        rw [mem_overlaySet_iff]
        tauto
      · rw [h]
        refine Or.inr ?_
        rw [mem_overlaySet_iff]
        tauto

/-- The mutations of a batch move the set as the abstract store does. -/
theorem applyDeltaMutations_outcome
    (hcheckpoint : Searchable view.checkpoint)
    (hoverlay : Overlay view.checkpoint inserted deleted)
    {mutations : List RelationshipMutation}
    (hdistinct : (mutations.map (·.relationship)).Nodup) :
    Outcome (view.applyDeltaMutations inserted deleted mutations)
      (fun result =>
        (∀ mutation ∈ mutations,
          mutation.AdmittedBy (overlaySet view.checkpoint inserted deleted)) ∧
        Overlay view.checkpoint result.1 result.2 ∧
          overlaySet view.checkpoint result.1 result.2 =
            mutations.foldl (fun set mutation => mutation.applyTo set)
              (overlaySet view.checkpoint inserted deleted))
      (fun error => error.IsCapacity ∨ ∃ mutation ∈ mutations,
        ¬ mutation.AdmittedBy (overlaySet view.checkpoint inserted deleted)) := by
  induction mutations generalizing inserted deleted with
  | nil =>
      refine ⟨?_, hoverlay, rfl⟩
      intro mutation h
      cases h
  | cons mutation rest ih =>
      rw [List.map_cons, List.nodup_cons] at hdistinct
      -- later mutations are about other relationships, so this one does not affect them
      have hothers : ∀ other ∈ rest, mutation.relationship ≠ other.relationship := by
        intro other hother h
        exact hdistinct.1 (List.mem_map.mpr ⟨other, hother, h.symm⟩)
      have hstep := applyDeltaMutation_outcome hcheckpoint hoverlay mutation
      refine Outcome.bind (hstep.imp (fun _ h => h) ?_) ?_
      · rintro error (herror | hnot)
        · exact Or.inl herror
        · exact Or.inr ⟨mutation, List.mem_cons_self, hnot⟩
      · rintro ⟨inserted', deleted'⟩ ⟨hadmitted, hoverlay', hset⟩
        refine (ih hoverlay' hdistinct.2).imp ?_ ?_
        · rintro result ⟨hrest, hoverlay'', hset'⟩
          refine ⟨?_, hoverlay'', ?_⟩
          · intro other hother
            rcases List.mem_cons.mp hother with rfl | hother
            · exact hadmitted
            · have h := hrest other hother
              rw [hset] at h
              exact (RelationshipMutation.admittedBy_applyTo_iff (hothers other hother)).mp h
          · rw [hset', hset]
            rfl
        · rintro error (herror | ⟨other, hother, hnot⟩)
          · exact Or.inl herror
          · refine Or.inr ⟨other, List.mem_cons_of_mem _ hother, ?_⟩
            rw [hset] at hnot
            exact fun h => hnot
              ((RelationshipMutation.admittedBy_applyTo_iff (hothers other hother)).mpr h)

end Mutations

/-- The checkpoint is sound, and the overlay is coupled to it in both of its forms. -/
structure Inv [StoreHasher] (view : RelationshipStoreView) : Prop where
  checkpoint : view.checkpoint.Inv
  overlay : ∀ delta, view.delta = some delta →
    Overlay view.checkpoint delta.inserted delta.deleted ∧
      delta.deletedRows = view.deletedRelationshipRows delta.deleted

/-- The set that the view stands for. -/
def liveSet (view : RelationshipStoreView) : Finset Relationship :=
  view.rows.toFinset

theorem mem_liveSet_iff
    {view : RelationshipStoreView} {r : Relationship} :
    r ∈ view.liveSet ↔ r ∈ view.rows :=
  List.mem_toFinset

theorem liveSet_of_delta
    {view : RelationshipStoreView} {delta : StoreDelta}
    (h : view.delta = some delta) :
    view.liveSet = overlaySet view.checkpoint delta.inserted delta.deleted := by
  ext r
  rw [mem_liveSet_iff, mem_overlaySet_iff]
  unfold rows
  rw [h]
  simp

theorem liveSet_of_no_delta
    {view : RelationshipStoreView}
    (h : view.delta = none) :
    view.liveSet = overlaySet view.checkpoint .default ∅ := by
  ext r
  rw [mem_liveSet_iff, mem_overlaySet_iff]
  unfold rows
  rw [h]
  simp [IndexedRelationshipStore.rows, IndexedRelationshipStore.liveRowTable,
    IndexedRelationshipStore.default]

section Views

variable [StoreHasher] {view : RelationshipStoreView}

/-- The live relationships of a view are distinct. -/
theorem Inv.nodup_rows
    (hinv : view.Inv) :
    view.rows.Nodup := by
  unfold rows
  cases hdelta : view.delta with
  | none =>
      exact hinv.checkpoint.nodup_rows
  | some delta =>
      obtain ⟨hoverlay, _⟩ := hinv.overlay delta hdelta
      refine List.nodup_append.mpr ⟨hinv.checkpoint.nodup_rows.filter _,
        hoverlay.writable.inv.nodup_rows, ?_⟩
      rintro r hr r' hr' rfl
      exact hoverlay.disjoint r hr' (List.mem_filter.mp hr).1

theorem inv_fromCheckpoint
    {store : IndexedRelationshipStore}
    (hinv : store.Inv) :
    (fromCheckpoint store).Inv :=
  ⟨hinv, fun _ h => (by cases h)⟩

theorem inv_default :
    default.Inv :=
  inv_fromCheckpoint IndexedRelationshipStore.writable_default.inv

/-- Making the checkpoint searchable succeeds and changes nothing else. -/
theorem Inv.ensureCheckpointMutationReady
    (hinv : view.Inv) :
    ∃ base, view.ensureCheckpointMutationReady = .ok base ∧ base.Inv ∧
      Searchable base.checkpoint ∧ base.delta = view.delta ∧ base.liveSet = view.liveSet ∧
      base.indexProfile = view.indexProfile := by
  unfold RelationshipStoreView.ensureCheckpointMutationReady
  obtain ⟨checkpoint, hrun, hinv', hprofile, hready, hinterner, htable, hlive⟩ :=
    hinv.checkpoint.ensureUniquenessIndex
  have hrows := IndexedRelationshipStore.rows_congr hinterner htable hlive
  cases hhas : view.checkpoint.hasReadyUniqueness with
  | true =>
      refine ⟨view, rfl, hinv, ⟨hinv.checkpoint, ?_⟩, rfl, rfl, rfl⟩
      unfold IndexedRelationshipStore.hasReadyUniqueness at hhas
      split at hhas
      · next index h =>
          exact ⟨index, h⟩
      · cases hhas
  | false =>
      refine ⟨{ view with checkpoint := checkpoint }, ?_, ⟨hinv', ?_⟩, ⟨hinv', hready⟩, rfl,
        ?_, hprofile⟩
      · simp only [Action.exec, hrun]
        rfl
      · intro delta hdelta
        obtain ⟨hoverlay, hdeleted⟩ := hinv.overlay delta hdelta
        refine ⟨⟨hoverlay.writable, ?_, ?_⟩, ?_⟩
        · intro r hr
          rw [hrows]
          exact hoverlay.disjoint r hr
        · intro r hr
          rw [hrows]
          exact hoverlay.tombstones r hr
        · rw [hdeleted]
          unfold deletedRelationshipRows
          rw [hinterner]
      · unfold liveSet rows
        rw [hrows]

/-- Folding a view into one store keeps its relationships and their order. -/
theorem Inv.canonicalStore
    (hinv : view.Inv) :
    Outcome view.canonicalStore
      (fun store => store.Writable ∧ store.rows = view.rows) StoreError.IsCapacity := by
  have hinsert := IndexedRelationshipStore.writable_default.insert_all hinv.nodup_rows
    (fun r _ h => (by cases h))
  refine (Outcome.exec hinsert).imp ?_ (fun _ h => h)
  rintro store ⟨_, hw, hrows⟩
  exact ⟨hw, hrows⟩

theorem Inv.checkpointed
    (hinv : view.Inv) :
    Outcome view.checkpointed
      (fun view' => view'.Inv ∧ view'.liveSet = view.liveSet ∧ view'.indexProfile = .full)
      StoreError.IsCapacity := by
  apply Outcome.bind hinv.canonicalStore
  rintro store ⟨hw, hrows⟩
  refine ⟨inv_fromCheckpoint hw.inv, ?_, hw.profile⟩
  unfold liveSet
  rw [← hrows]
  rfl

/-- The overlay of a view, or the empty one. -/
theorem Inv.current_overlay
    (hinv : view.Inv) :
    Overlay view.checkpoint ((view.delta.map (·.inserted)).getD .default)
        ((view.delta.map (·.deleted)).getD ∅) ∧
      view.liveSet = overlaySet view.checkpoint
        ((view.delta.map (·.inserted)).getD .default) ((view.delta.map (·.deleted)).getD ∅) := by
  cases hdelta : view.delta with
  | none =>
      refine ⟨⟨IndexedRelationshipStore.writable_default, ?_, ?_⟩, liveSet_of_no_delta hdelta⟩
      · intro r hr
        cases hr
      · intro r hr
        cases hr
  | some delta =>
      exact ⟨(hinv.overlay delta hdelta).1, liveSet_of_delta hdelta⟩

omit [StoreHasher] in
theorem mutationCount_outcome
    (view : RelationshipStoreView) (mutations : List RelationshipMutation) :
    Outcome (view.mutationCount mutations) (fun _ => True) StoreError.IsCapacity := by
  simp only [mutationCount]
  split
  · trivial
  · exact ⟨_, rfl⟩

/-- A batch on a searchable view moves the set as the abstract batch does. -/
theorem applyBatch_outcome
    (hinv : view.Inv)
    (hcheckpoint : Searchable view.checkpoint)
    {mutations : List RelationshipMutation}
    (hdistinct : (mutations.map (·.relationship)).Nodup) :
    Outcome (view.applyBatch mutations)
      (fun view' => (∀ mutation ∈ mutations, mutation.AdmittedBy view.liveSet) ∧
        view'.Inv ∧ view'.liveSet = batchResult view.liveSet mutations ∧
        (view'.indexProfile = view.indexProfile ∨ view'.indexProfile = .full))
      (fun error => error.IsCapacity ∨
        ∃ mutation ∈ mutations, ¬ mutation.AdmittedBy view.liveSet) := by
  obtain ⟨hoverlay, hset⟩ := hinv.current_overlay
  have hrun := applyDeltaMutations_outcome hcheckpoint hoverlay hdistinct
  rw [← hset] at hrun
  refine Outcome.bind hrun ?_
  rintro ⟨inserted, deleted⟩ ⟨hadmitted, hoverlay', hset'⟩
  rw [foldl_applyTo_eq_batchResult hdistinct] at hset'
  refine Outcome.bind ((view.mutationCount_outcome mutations).imp (fun _ h => h)
    (fun _ => Or.inl)) ?_
  intro mutationCount _
  have hcandidate : (view.withDelta inserted deleted mutationCount).Inv := by
    refine ⟨hinv.checkpoint, ?_⟩
    intro delta hdelta
    cases hdelta
    exact ⟨hoverlay', rfl⟩
  have hcandidateSet : (view.withDelta inserted deleted mutationCount).liveSet =
      batchResult view.liveSet mutations := by
    rw [liveSet_of_delta rfl]
    exact hset'
  show Outcome (if (view.withDelta inserted deleted mutationCount).shouldCheckpoint = true then
    (view.withDelta inserted deleted mutationCount).checkpointed
    else .ok (view.withDelta inserted deleted mutationCount)) _ _
  split
  · refine hcandidate.checkpointed.imp ?_ (fun _ => Or.inl)
    rintro view' ⟨hinv', hset'', hprofile⟩
    exact ⟨hadmitted, hinv', hset''.trans hcandidateSet, Or.inr hprofile⟩
  · exact ⟨hadmitted, hcandidate, hcandidateSet, Or.inl rfl⟩

omit [StoreHasher] in
/-- A batch without preconditions is admitted exactly when it is small enough. -/
theorem admitBatch_outcome
    (check : Precondition → Except StoreError Unit)
    (mutations : List RelationshipMutation) (preconditions : List Precondition) :
    Outcome (admitBatch check mutations preconditions)
      (fun _ => mutations.length ≤ maxMutationsPerBatch)
      (fun _ => maxMutationsPerBatch < mutations.length ∨ preconditions ≠ []) := by
  have hsize : Outcome (if maxMutationsPerBatch < mutations.length then
        .error (.mutationBatchTooLarge maxMutationsPerBatch mutations.length)
      else .ok () : Except StoreError Unit)
      (fun _ => mutations.length ≤ maxMutationsPerBatch)
      (fun _ => maxMutationsPerBatch < mutations.length ∨ preconditions ≠ []) := by
    split
    · next h =>
        exact Or.inl h
    · next h =>
        exact Nat.not_lt.mp h
  have hcheck : Outcome (checkAll check preconditions) (fun _ => True)
      (fun _ => maxMutationsPerBatch < mutations.length ∨ preconditions ≠ []) := by
    cases preconditions with
    | nil =>
        trivial
    | cons precondition rest =>
        cases checkAll check (precondition :: rest) with
        | ok _ =>
            trivial
        | error error =>
            exact Or.inr (List.cons_ne_nil _ _)
  unfold admitBatch
  split
  · next hlarge =>
      refine Or.inr ?_
      rintro rfl
      cases hlarge
  · exact Outcome.bind hcheck (fun _ _ => hsize)

omit [StoreHasher] in
theorem rejectDuplicates_outcome
    (mutations : List RelationshipMutation) :
    Outcome (rejectDuplicates mutations)
      (fun _ => (mutations.map (·.relationship)).Nodup)
      (fun _ => ¬ (mutations.map (·.relationship)).Nodup) := by
  have hiff := firstDuplicate_eq_none_iff mutations ∅
  unfold rejectDuplicates
  cases hdup : firstDuplicate ∅ mutations with
  | none =>
      exact (hiff.mp hdup).1
  | some relationship =>
      intro hnodup
      rw [hiff.mpr ⟨hnodup, fun _ _ => Finset.notMem_empty _⟩] at hdup
      cases hdup

/-- A batch is applied exactly when the abstract store admits it, capacity and
preconditions aside, and then the view stands for the result of the abstract batch. -/
theorem Inv.applyMutations
    (hinv : view.Inv)
    (mutations : List RelationshipMutation) (preconditions : List Precondition) :
    Outcome (view.applyMutations mutations preconditions)
      (fun view' => BatchAdmitted view.liveSet mutations ∧ view'.Inv ∧
        view'.liveSet = batchResult view.liveSet mutations ∧
        (view'.indexProfile = view.indexProfile ∨ view'.indexProfile = .full))
      (fun error => error.IsCapacity ∨ ¬ BatchAdmitted view.liveSet mutations ∨
        preconditions ≠ []) := by
  unfold RelationshipStoreView.applyMutations
  refine Outcome.bind ((admitBatch_outcome _ mutations preconditions).imp (fun _ h => h) ?_) ?_
  · rintro error (hsize | hpre)
    · exact Or.inr (Or.inl (fun h => Nat.not_lt.mpr h.size hsize))
    · exact Or.inr (Or.inr hpre)
  intro _ hsize
  refine Outcome.bind ((rejectDuplicates_outcome mutations).imp (fun _ h => h) ?_) ?_
  · intro error hdup
    exact Or.inr (Or.inl (fun h => hdup h.distinct))
  intro _ hdistinct
  by_cases hempty : mutations = []
  · subst hempty
    refine ⟨⟨hsize, hdistinct, ?_⟩, hinv, ?_, Or.inl rfl⟩
    · intro mutation h
      cases h
    · simp [batchResult]
  · obtain ⟨base, hbase, hbaseInv, hsearchable, _, hbaseSet, hprofile⟩ :=
      hinv.ensureCheckpointMutationReady
    have hcons : mutations.isEmpty = false := by
      simpa using hempty
    simp only [hcons, hbase]
    have hbatch := applyBatch_outcome hbaseInv hsearchable hdistinct
    rw [hbaseSet, hprofile] at hbatch
    refine hbatch.imp ?_ ?_
    · rintro view' ⟨hadmitted, hinv', hset, hprofile'⟩
      exact ⟨⟨hsize, hdistinct, hadmitted⟩, hinv', hset, hprofile'⟩
    · rintro error (hcapacity | ⟨mutation, hmem, hnot⟩)
      · exact Or.inl hcapacity
      · exact Or.inr (Or.inl (fun h => hnot (h.admitted mutation hmem)))

end Views

end RelationshipStoreView

end SimpleZanzibar
