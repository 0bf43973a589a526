import SimpleZanzibar.SchemaCorrect
import SimpleZanzibar.Store.SectionsCorrect
import SimpleZanzibar.Store.ViewCorrect
import SimpleZanzibar.Writer

/-!
# Invariant of the writer

Every state that the commands and the snapshot files of an engine lead to holds a store
view that satisfies its invariant and a schema that the compiler accepted.
-/

namespace SimpleZanzibar

namespace IndexedRelationshipStore

section Rebuild

variable [StoreHasher] {store : IndexedRelationshipStore}

/-- Inserting deletes no row. -/
theorem deadRowCount_insert
    (store : IndexedRelationshipStore) (r : Relationship) :
    (insert r).Ensures store
      (fun _ store' => store'.deadRowCount = store.deadRowCount) (fun _ => True) := by
  unfold IndexedRelationshipStore.insert
  apply Action.Ensures.get_bind
  apply Action.Ensures.lift_bind
  · intro rowId _
    have hintern : (RowIdentity.fromRelationship r).Ensures store.interner
        (fun _ _ => True) (fun _ => True) := by
      unfold Action.Ensures
      split <;> trivial
    apply Action.Ensures.bind hintern.zoom
    rintro row _ ⟨interner, _, rfl⟩
    unfold appendRow
    apply Action.Ensures.get_bind
    apply Action.Ensures.lift_bind
    · intro uniqueness _
      exact rfl
    · intro _ _
      trivial
  · intro _ _
    trivial

/-- A store without dead rows is not compacted. -/
theorem compactIfNeeded_apply
    (hdead : store.deadRowCount = 0) :
    compactIfNeeded store = (.ok (), store) := by
  have hcond : store.deadRowCount ≤ compactionDeadRowThreshold ∧
      min (store.deadRowCount * 4) usizeMax ≤ store.rowTable.length := by
    rw [hdead]
    simp
  unfold compactIfNeeded
  rw [Action.bind_apply, Action.get_apply]
  simp only
  rw [if_pos hcond]
  rfl

/-- A batch of one touch, on a store from which nothing was deleted. -/
theorem applyMutations_touch_eq
    {index : RelationshipIdentityIndex}
    (hready : store.uniqueness = .ready index)
    (r : Relationship) :
    applyMutations [.touch r] [] store =
      (do applySingleMutation (.touch r); compactIfNeeded) store := by
  have hensure : ensureUniquenessIndex store = (.ok (), store) := by
    simp [ensureUniquenessIndex, Action.bind_apply, hready]
  have hadmit : admitBatch store.checkPrecondition [.touch r] [] = .ok () := by
    unfold admitBatch checkAll
    rw [if_neg (by decide)]
    rfl
  have hreject : rejectDuplicates [.touch r] = .ok () := by
    unfold rejectDuplicates firstDuplicate
    simp [firstDuplicate]
  unfold applyMutations
  simp only [Action.bind_apply, Action.get_apply, Action.lift_apply, hadmit, hreject,
    List.isEmpty_cons, Bool.not_false, if_true, hensure]

theorem Writable.applyTouch
    (hw : store.Writable)
    (hdead : store.deadRowCount = 0)
    (r : Relationship) :
    (applyMutations [.touch r] []).Ensures store
      (fun _ store' => store'.Writable ∧ store'.deadRowCount = 0 ∧
        store'.rows = store.rows ++ if r ∈ store.rows then [] else [r])
      StoreError.IsCapacity := by
  obtain ⟨index, hready⟩ := hw.ready
  have hcontains := hw.inv.containsRelationship_iff hw.ready (r := r)
  have hrun : ((do applySingleMutation (.touch r); compactIfNeeded) :
      Action IndexedRelationshipStore StoreError Unit).Ensures store
      (fun _ store' => store'.Writable ∧ store'.deadRowCount = 0 ∧
        store'.rows = store.rows ++ if r ∈ store.rows then [] else [r])
      StoreError.IsCapacity := by
    have hcompact : ∀ store' : IndexedRelationshipStore,
        (store'.Writable ∧ store'.deadRowCount = 0 ∧
          store'.rows = store.rows ++ if r ∈ store.rows then [] else [r]) →
        compactIfNeeded.Ensures store' (fun _ store' => store'.Writable ∧
          store'.deadRowCount = 0 ∧
          store'.rows = store.rows ++ if r ∈ store.rows then [] else [r])
          StoreError.IsCapacity := by
      intro store' h
      exact Action.Ensures.of_ok (compactIfNeeded_apply h.2.1) h
    refine Action.Ensures.bind ?_ (fun _ => hcompact)
    unfold applySingleMutation IndexedRelationshipStore.touch
    apply Action.Ensures.get_bind
    by_cases hmem : r ∈ store.rows
    · rw [if_pos (hcontains.mpr hmem), if_pos hmem, List.append_nil]
      exact ⟨hw, hdead, rfl⟩
    · rw [if_neg (fun h => hmem (hcontains.mp h)), if_neg hmem]
      have hinsert := hw.insert hmem
      have hsame := deadRowCount_insert store r
      rcases hinsert.cases with ⟨a, t, hrun, hw', hrows⟩ | ⟨e, t, hrun, herror⟩
      · unfold Action.Ensures at hsame ⊢
        rw [hrun] at hsame ⊢
        exact ⟨hw', hsame.trans hdead, hrows⟩
      · exact Action.Ensures.of_error hrun herror
  unfold Action.Ensures at hrun ⊢
  rw [applyMutations_touch_eq hready]
  exact hrun

end Rebuild

end IndexedRelationshipStore

namespace WriterState

section Invariant

variable [StoreHasher]

/-- The store view is sound and the schema was accepted. -/
structure Inv (state : WriterState) : Prop where
  relationships : state.relationships.Inv
  schema : ∀ schema, state.schema = some schema → schema.Accepted

theorem inv_new :
    new.Inv :=
  ⟨RelationshipStoreView.inv_default, fun _ h => (by cases h)⟩

omit [StoreHasher] in
theorem accepted_of_compile
    {listing : MapListing} {configs : List NamespaceConfig} {schema : CompiledSchema}
    (h : compileLegacyConfigs listing configs = .ok schema) :
    schema.Accepted := by
  obtain ⟨definitions, _, h⟩ := bind_eq_ok.mp h
  exact ⟨definitions, mapError_eq_ok h⟩

/-- The rebuilt store holds the relationships that were entered, all of them valid. -/
theorem revalidate_forEach
    {schema : CompiledSchema} {rs : List Relationship} {store store' : IndexedRelationshipStore}
    (hw : store.Writable)
    (hdead : store.deadRowCount = 0)
    (h : (Action.forEach (revalidateRelationship schema) rs).exec store = .ok store') :
    store'.Writable ∧ (∀ r, r ∈ store'.rows ↔ r ∈ store.rows ∨ r ∈ rs) ∧
      ∀ r ∈ rs, schema.validateRelationship r = .ok () := by
  induction rs generalizing store with
  | nil =>
      cases h
      exact ⟨hw, fun r => by simp, fun r hr => (by cases hr)⟩
  | cons r rest ih =>
      unfold Action.forEach Action.exec at h
      rw [Action.bind_apply] at h
      unfold revalidateRelationship at h
      cases hvalid : ofSchemaError (schema.validateRelationship r) with
      | error error =>
          simp only [hvalid] at h
          cases h
      | ok _ =>
          simp only [hvalid] at h
          rcases (hw.applyTouch hdead r).cases with
            ⟨a, t, hrun, hw', hdead', hrows⟩ | ⟨e, t, hrun, _⟩
          · simp only [hrun] at h
            obtain ⟨hwritable, hmem, hrest⟩ := ih hw' hdead' h
            refine ⟨hwritable, ?_, List.forall_mem_cons.mpr ⟨mapError_eq_ok hvalid, hrest⟩⟩
            intro r'
            rw [hmem r', hrows, List.mem_append, List.mem_cons, or_assoc]
            by_cases hr : r ∈ store.rows
            · rw [if_pos hr]
              constructor
              · rintro (hstore | hnil | hlater)
                · exact Or.inl hstore
                · cases hnil
                · exact Or.inr (Or.inr hlater)
              · rintro (hstore | rfl | hlater)
                · exact Or.inl hstore
                · exact Or.inl hr
                · exact Or.inr (Or.inr hlater)
            · rw [if_neg hr, List.mem_singleton]
          · simp only [hrun] at h
            cases h

/-- A schema edit keeps the relationships, all of them valid under the new schema. -/
theorem relationshipStoreForSchema_ok
    {state : WriterState} {schema : CompiledSchema} {view : RelationshipStoreView}
    (h : state.relationshipStoreForSchema schema = .ok view) :
    view.Inv ∧ (∀ r ∈ view.rows, schema.validateRelationship r = .ok ()) ∧
      (state.schema.isSome → ∀ r, r ∈ view.rows ↔ r ∈ state.relationships.rows) := by
  have hempty : ∀ r, r ∉ RelationshipStoreView.default.rows := by
    intro r hr
    cases hr
  unfold WriterState.relationshipStoreForSchema at h
  split at h
  · obtain ⟨store, hstore, h⟩ := bind_eq_ok.mp h
    cases h
    obtain ⟨hwritable, hmem, hvalid⟩ :=
      revalidate_forEach IndexedRelationshipStore.writable_default rfl hstore
    have hrows : ∀ r, r ∈ store.rows ↔ r ∈ state.relationships.rows := by
      intro r
      rw [hmem r]
      exact or_iff_right (hempty r)
    exact ⟨RelationshipStoreView.inv_fromCheckpoint hwritable.inv,
      fun r hr => hvalid r ((hrows r).mp hr), fun _ => hrows⟩
  · next hnone =>
      cases h
      exact ⟨RelationshipStoreView.inv_default, fun r hr => absurd hr (hempty r),
        fun hsome => absurd hsome hnone⟩

omit [StoreHasher] in
theorem publishSnapshot_ok
    {state next : WriterState} {configs : NamespaceConfigs} {schema : CompiledSchema}
    {view : RelationshipStoreView}
    (h : state.publishSnapshot configs schema view = .ok next) :
    next.schema = some schema ∧ next.relationships = view := by
  obtain ⟨revision, _, h⟩ := bind_eq_ok.mp h
  cases h
  exact ⟨rfl, rfl⟩

theorem inv_publishSnapshot
    {state next : WriterState} {configs : NamespaceConfigs} {schema : CompiledSchema}
    {view : RelationshipStoreView}
    (haccepted : schema.Accepted)
    (hview : view.Inv)
    (h : state.publishSnapshot configs schema view = .ok next) :
    next.Inv := by
  obtain ⟨hschema, hrelationships⟩ := publishSnapshot_ok h
  refine ⟨hrelationships ▸ hview, ?_⟩
  intro schema' hschema'
  rw [hschema] at hschema'
  cases hschema'
  exact haccepted

theorem inv_publishConfigs
    {state next : WriterState} {listing : MapListing} {configs : NamespaceConfigs}
    (h : state.publishConfigs listing configs = .ok next) :
    next.Inv := by
  obtain ⟨schema, hschema, h⟩ := bind_eq_ok.mp h
  obtain ⟨view, hview, h⟩ := bind_eq_ok.mp h
  exact inv_publishSnapshot (accepted_of_compile hschema)
    (relationshipStoreForSchema_ok hview).1 h

theorem Inv.applyRelationshipMutations
    {state next : WriterState}
    (hinv : state.Inv)
    {mutations : List RelationshipMutation} {preconditions : List Precondition}
    (h : state.applyRelationshipMutations mutations preconditions = .ok next) :
    next.Inv := by
  unfold WriterState.applyRelationshipMutations at h
  cases hschema : state.schema with
  | none =>
      rw [hschema] at h
      cases h
  | some schema =>
      rw [hschema] at h
      obtain ⟨_, _, h⟩ := bind_eq_ok.mp h
      obtain ⟨_, _, h⟩ := bind_eq_ok.mp h
      obtain ⟨view, hview, h⟩ := bind_eq_ok.mp h
      have hout := hinv.relationships.applyMutations mutations preconditions
      rw [mapError_eq_ok hview] at hout
      exact inv_publishSnapshot (hinv.schema schema hschema) hout.2.1 h

theorem Inv.importRelationships
    {state next : WriterState} {relationships : List Relationship}
    (hinv : state.Inv)
    (h : state.importRelationships relationships = .ok next) :
    next.Inv := by
  fun_induction WriterState.importRelationships state relationships generalizing next with
  | case1 =>
      cases h
      exact hinv
  | case2 state relationships hne batch =>
      rename_i ih
      obtain ⟨state', hstate', h⟩ := bind_eq_ok.mp h
      exact ih state' (hinv.applyRelationshipMutations hstate') h

/-- Every command keeps the invariant. -/
theorem Inv.run
    {state next : WriterState}
    (hinv : state.Inv)
    {listing : MapListing} {command : WriterCommand}
    (h : command.run listing state = .ok next) :
    next.Inv := by
  cases command with
  | applyRelationshipMutations mutations preconditions =>
      exact hinv.applyRelationshipMutations h
  | applyNamespaceConfigs configs =>
      exact inv_publishConfigs h
  | replaceNamespaceConfigs configs =>
      exact inv_publishConfigs h
  | deleteNamespace namespaceName =>
      obtain ⟨_, _, h⟩ := bind_eq_ok.mp h
      split at h
      · cases h
      · exact inv_publishConfigs h
  | deleteRelation namespaceName relation =>
      obtain ⟨_, _, h⟩ := bind_eq_ok.mp h
      obtain ⟨_, _, h⟩ := bind_eq_ok.mp h
      split at h
      · cases h
      · split at h
        · cases h
        · exact inv_publishConfigs h
  | applyPolicyText configs relationships =>
      obtain ⟨candidate, hcandidate, h⟩ := bind_eq_ok.mp h
      exact Inv.importRelationships (inv_publishConfigs hcandidate) h

/-- Loading a saved file gives a view with the saved profile and the same live set. -/
theorem load_view
    {state loaded : WriterState} {listing listing' : MapListing} {indexProfile : IndexProfile}
    {file : SnapshotFile} {options : SnapshotLoadOptions}
    (hinv : state.Inv)
    (hsave : SnapshotFile.save state listing indexProfile = .ok file)
    (hload : file.load listing' options = .ok loaded) :
    loaded.Inv ∧ loaded.relationships.indexProfile = indexProfile ∧
      loaded.relationships.rows = state.relationships.rows := by
  unfold SnapshotFile.save at hsave
  split at hsave
  · next revision _ _ =>
      obtain ⟨sections, hsections, hsave⟩ := bind_eq_ok.mp hsave
      cases hsave
      obtain ⟨_, _, hload⟩ := bind_eq_ok.mp hload
      split at hload
      · cases hload
      obtain ⟨schema, hschema, hload⟩ := bind_eq_ok.mp hload
      obtain ⟨view, hview, hload⟩ := bind_eq_ok.mp hload
      cases hload
      obtain ⟨source, hsource, hsections⟩ := bind_eq_ok.mp (mapError_eq_ok hsections)
      obtain ⟨store, hstore, hview⟩ := bind_eq_ok.mp (mapError_eq_ok hview)
      cases hview
      have hcanonical := hinv.relationships.canonicalStore
      rw [hsource] at hcanonical
      obtain ⟨hw, hrows⟩ := hcanonical
      have hloaded :=
        IndexedRelationshipStore.loadedFrom_decode hw.inv.interner hsections hstore
      obtain ⟨hstoreInv, hprofile, hstoreRows⟩ := hloaded.invariant hw.inv
      refine ⟨⟨RelationshipStoreView.inv_fromCheckpoint hstoreInv, ?_⟩, hprofile,
        hstoreRows.trans hrows⟩
      intro schema' h
      cases h
      exact accepted_of_compile (mapError_eq_ok hschema)
  · cases hsave

end Invariant

end WriterState

section Reachable

variable [StoreHasher]

/-- The invariant holds in every reachable state. -/
theorem WriterReachable.invariant
    {state : WriterState}
    (h : WriterReachable state) :
    state.Inv := by
  induction h with
  | new =>
      exact WriterState.inv_new
  | command listing command _ hrun ih =>
      exact ih.run hrun
  | load _ _ _ hsave hload ih =>
      exact (WriterState.load_view ih hsave hload).1

theorem WriterReachable.runAll
    {state next : WriterState}
    (hreach : WriterReachable state)
    {listing : MapListing} {commands : List WriterCommand}
    (h : WriterCommand.runAll listing commands state = .ok next) :
    WriterReachable next := by
  induction commands generalizing state with
  | nil =>
      cases h
      exact hreach
  | cons command rest ih =>
      obtain ⟨state', hstate', h⟩ := bind_eq_ok.mp h
      exact ih (hreach.command listing command hstate') h

/-- A snapshot that some engine publishes. -/
def PublishedSnapshot.Reachable (snapshot : PublishedSnapshot) : Prop :=
  ∃ state, WriterReachable state ∧ state.published = some snapshot

end Reachable

end SimpleZanzibar
