import SimpleZanzibar.Snapshot.RoundTrip

/-!
# Engines as states of the writer

The commands of an engine run on the state of the writer, and a load of the bytes of a file is
a load of the sections that the file was written from.  So whatever holds in every state of the
writer holds of every engine, also after restarts.

**Results.**
* `EngineCommand.run_core`: a command that succeeds is a command of the writer.
* `LoadedParts.decodeSnapshotSections`: bytes and sections are loaded into the same store.
* `EngineWriter.Reached.writerReachable`: the state of every engine is a state of the writer.
-/

namespace SimpleZanzibar

/-! ## Commands -/

namespace EngineWriter

section Commands

variable [Blake3] [StoreHasher] {listing : MapListing} {writer next : EngineWriter}
  {token : ConsistencyToken}

omit [StoreHasher] in
theorem publishSnapshot_core
    {configs : NamespaceConfigs} {schema : CompiledSchema}
    {relationships : RelationshipStoreView}
    (h : publishSnapshot configs schema relationships writer = (.ok token, next)) :
    writer.core.publishSnapshot configs schema relationships = .ok next.core := by
  rw [publishSnapshot_apply] at h
  cases hrevision : writer.core.nextRevision with
  | error error =>
      rw [hrevision] at h
      cases h
  | ok revision =>
      rw [hrevision] at h
      cases h
      exact bind_eq_ok.mpr ⟨revision, hrevision, rfl⟩

theorem publishConfigs_core
    {configs : NamespaceConfigs}
    (h : publishConfigs listing configs writer = (.ok token, next)) :
    writer.core.publishConfigs listing configs = .ok next.core := by
  rw [publishConfigs, Action.get_bind_apply] at h
  obtain ⟨schema, hschema, h⟩ := Action.lift_bind_eq_ok.mp h
  obtain ⟨relationships, hrelationships, h⟩ := Action.lift_bind_eq_ok.mp h
  exact bind_eq_ok.mpr ⟨schema, hschema, bind_eq_ok.mpr
    ⟨relationships, hrelationships, publishSnapshot_core h⟩⟩

theorem deleteNamespace_core
    {namespaceName : String}
    (h : deleteNamespace listing namespaceName writer = (.ok token, next)) :
    writer.core.deleteNamespace listing namespaceName = .ok next.core := by
  rw [deleteNamespace, Action.get_bind_apply] at h
  obtain ⟨name, hname, h⟩ := Action.lift_bind_eq_ok.mp h
  have hcore : writer.core.configs = writer.configs := rfl
  rw [WriterState.deleteNamespace, hname, hcore]
  cases hconfig : writer.configs.lookup namespaceName with
  | none =>
      rw [hconfig] at h
      cases h
  | some config =>
      rw [hconfig] at h
      exact publishConfigs_core h

theorem deleteRelation_core
    {namespaceName relation : String}
    (h : deleteRelation listing namespaceName relation writer = (.ok token, next)) :
    writer.core.deleteRelation listing namespaceName relation = .ok next.core := by
  rw [deleteRelation, Action.get_bind_apply] at h
  obtain ⟨name, hname, h⟩ := Action.lift_bind_eq_ok.mp h
  obtain ⟨relationName, hrelationName, h⟩ := Action.lift_bind_eq_ok.mp h
  have hcore : writer.core.configs = writer.configs := rfl
  rw [WriterState.deleteRelation, hname, hrelationName, hcore]
  cases hconfig : writer.configs.lookup namespaceName with
  | none =>
      rw [hconfig] at h
      cases h
  | some config =>
      rw [hconfig] at h
      cases hrelation : config.relations.lookup ⟨relation⟩ with
      | none =>
          simp only [hrelation] at h
          cases h
      | some found =>
          simp only [hrelation] at h
          refine bind_eq_ok.mpr ⟨name, rfl, bind_eq_ok.mpr ⟨relationName, rfl, ?_⟩⟩
          simp only [hrelation]
          exact publishConfigs_core h

theorem applyRelationshipMutations_core
    {mutations : List RelationshipMutation} {preconditions : List Precondition}
    (h : applyRelationshipMutations mutations preconditions writer = (.ok token, next)) :
    writer.core.applyRelationshipMutations mutations preconditions = .ok next.core := by
  rw [applyRelationshipMutations, Action.get_bind_apply] at h
  have hcore : writer.core.schema = writer.schema := rfl
  rw [WriterState.applyRelationshipMutations, hcore]
  cases hschema : writer.schema with
  | none =>
      rw [hschema] at h
      cases h
  | some schema =>
      rw [hschema] at h
      obtain ⟨_, hvalid, h⟩ := Action.lift_bind_eq_ok.mp h
      obtain ⟨_, hfilters, h⟩ := Action.lift_bind_eq_ok.mp h
      obtain ⟨relationships, hrelationships, h⟩ := Action.lift_bind_eq_ok.mp h
      exact bind_eq_ok.mpr ⟨(), hvalid, bind_eq_ok.mpr ⟨(), hfilters, bind_eq_ok.mpr
        ⟨relationships, hrelationships, publishSnapshot_core h⟩⟩⟩

theorem importRelationships_core
    {token' : ConsistencyToken} {relationships : List Relationship}
    (h : importRelationships token relationships writer = (.ok token', next)) :
    writer.core.importRelationships relationships = .ok next.core := by
  fun_induction importRelationships token relationships generalizing writer with
  | case1 token =>
      cases h
      rw [WriterState.importRelationships, dif_pos rfl]
  | case2 token relationships hne batch =>
      rename_i ih
      obtain ⟨token₁, middle, hbatch, h⟩ := Action.bind_eq_ok.mp h
      rw [WriterState.importRelationships, dif_neg hne]
      exact bind_eq_ok.mpr ⟨middle.core, applyRelationshipMutations_core hbatch, ih token₁ h⟩

/-- The text of a schema is applied as the configurations that it is read as. -/
theorem replaceDslWithToken_core
    {text : String}
    (h : replaceDslWithToken listing text writer = (.ok token, next)) :
    ∃ configs, writer.core.replaceNamespaceConfigs listing configs = .ok next.core := by
  obtain ⟨_, _, h⟩ := Action.lift_bind_eq_ok.mp h
  obtain ⟨configs, _, h⟩ := Action.lift_bind_eq_ok.mp h
  exact ⟨configs, publishConfigs_core h⟩

theorem applyPolicyText_core
    {policy : PolicyText}
    (h : applyPolicyText listing policy writer = (.ok token, next)) :
    ∃ configs relationships,
      writer.core.applyPolicyText listing configs relationships = .ok next.core := by
  rw [applyPolicyText] at h
  rcases hbuild : buildCandidate listing policy writer.candidate with ⟨result, candidate⟩
  rw [hbuild] at h
  cases result with
  | error error => cases h
  | ok token' =>
      cases h
      obtain ⟨_, first, hreplace, hbuild⟩ := Action.bind_eq_ok.mp hbuild
      obtain ⟨relationships, _, hbuild⟩ := Action.lift_bind_eq_ok.mp hbuild
      obtain ⟨_, last, himport, hbuild⟩ := Action.bind_eq_ok.mp hbuild
      obtain ⟨_, published, hpublish, hbuild⟩ := Action.bind_eq_ok.mp hbuild
      cases hbuild
      cases hpublish
      obtain ⟨configs, hconfigs⟩ := replaceDslWithToken_core hreplace
      have himported := importRelationships_core himport
      exact ⟨configs, relationships, bind_eq_ok.mpr ⟨first.core, hconfigs, himported⟩⟩

end Commands

end EngineWriter

/-- A command that succeeds is a command of the writer. -/
theorem EngineCommand.run_core
    [Blake3] [StoreHasher] {listing : MapListing} {command : EngineCommand}
    {writer next : EngineWriter} {token : ConsistencyToken}
    (h : command.run listing writer = (.ok token, next)) :
    ∃ command' : WriterCommand, command'.run listing writer.core = .ok next.core := by
  cases command with
  | writeRelationships mutations preconditions =>
      exact ⟨.applyRelationshipMutations mutations preconditions,
        EngineWriter.applyRelationshipMutations_core h⟩
  | applySchema text =>
      obtain ⟨_, _, h⟩ := Action.lift_bind_eq_ok.mp h
      obtain ⟨configs, _, h⟩ := Action.lift_bind_eq_ok.mp h
      exact ⟨.applyNamespaceConfigs configs, EngineWriter.publishConfigs_core h⟩
  | applyNamespaceConfigs configs =>
      exact ⟨.applyNamespaceConfigs configs, EngineWriter.publishConfigs_core h⟩
  | replaceSchema text =>
      obtain ⟨configs, hconfigs⟩ := EngineWriter.replaceDslWithToken_core h
      exact ⟨.replaceNamespaceConfigs configs, hconfigs⟩
  | deleteNamespace namespaceName =>
      exact ⟨.deleteNamespace namespaceName, EngineWriter.deleteNamespace_core h⟩
  | deleteRelation namespaceName relation =>
      exact ⟨.deleteRelation namespaceName relation, EngineWriter.deleteRelation_core h⟩
  | applyPolicyText policy =>
      obtain ⟨configs, relationships, hrun⟩ := EngineWriter.applyPolicyText_core h
      exact ⟨.applyPolicyText configs relationships, hrun⟩

/-! ## Bytes and sections -/

/-- Rows that are numbered in order are numbered so again. -/
theorem numberRows_identities
    {rows : List RelationshipRow} {start : Nat}
    (h : ∀ (n : Nat) row, rows[n]? = some row → row.rowId.index = start + n) :
    numberRows start (rows.map (·.identity)) = .ok rows := by
  induction rows generalizing start with
  | nil => rfl
  | cons row rest ih =>
      have hfirst : RowId.fromLen start = .ok row.rowId :=
        RowId.fromLen_ok_iff.mpr (h 0 row rfl)
      have hrest := @ih (start + 1) (fun n other hother => by
        rw [h (n + 1) other hother]
        omega)
      exact bind_eq_ok.mpr ⟨row.rowId, hfirst, bind_eq_ok.mpr ⟨rest, hrest, rfl⟩⟩

namespace Snapshot

/-- The indexes are those of the groups. -/
structure DecodedFrom (profile : SnapshotLoadProfile) (groups : SnapshotIndexGroups)
    (indexes : DecodedIndexes) : Prop where
  resource : PostingIndex.decodeIndex profile groups.resource = .ok indexes.resource
  resourceObject :
    PostingIndex.decodeIndex profile groups.resourceObject = .ok indexes.resourceObject
  resourceTypeRelation : PostingIndex.decodeIndex profile groups.resourceTypeRelation =
    .ok indexes.resourceTypeRelation
  resourceType : PostingIndex.decodeIndex profile groups.resourceType = .ok indexes.resourceType
  subject : PostingIndex.decodeIndex profile groups.subject = .ok indexes.subject
  subjectTypeRelation : PostingIndex.decodeIndex profile groups.subjectTypeRelation =
    .ok indexes.subjectTypeRelation
  subjectType : PostingIndex.decodeIndex profile groups.subjectType = .ok indexes.subjectType

theorem eq_full_of_supportsBroadResourceIndexes
    {indexProfile : IndexProfile} :
    indexProfile.supportsBroadResourceIndexes = true ↔ indexProfile = .full := by
  cases indexProfile <;> decide

theorem eq_full_of_supportsSubjectReverseLookup
    {indexProfile : IndexProfile} :
    indexProfile.supportsSubjectReverseLookup = true ↔ indexProfile = .full := by
  cases indexProfile <;> decide

/-- A full load of the bytes decodes the groups of the rows. -/
theorem decodedFrom_of_decodeAllIndexes
    {input : IndexDecodeInput} {indexes : DecodedIndexes} {groups : SnapshotIndexGroups}
    (hvalidation : input.validation = .full)
    (hrowIds : ∀ (n : Nat) row, input.rows[n]? = some row → row.rowId.index = n)
    (hgroups : groups.Exact input.indexProfile input.rows)
    (h : decodeAllIndexes input = .ok indexes) :
    DecodedFrom input.profile groups indexes := by
  have hbroad : ∀ {P : Prop}, (input.indexProfile = .full → P) →
      input.indexProfile.supportsBroadResourceIndexes = true → P :=
    fun hfull hkept => hfull (eq_full_of_supportsBroadResourceIndexes.mp hkept)
  have hreverse : ∀ {P : Prop}, (input.indexProfile = .full → P) →
      input.indexProfile.supportsSubjectReverseLookup = true → P :=
    fun hfull hkept => hfull (eq_full_of_supportsSubjectReverseLookup.mp hkept)
  have hreduced : ∀ {kept : IndexProfile → Bool}, kept .full = true →
      kept input.indexProfile = false → input.indexProfile ≠ .full := by
    intro kept hfull hnone hsame
    rw [hsame, hfull] at hnone
    cases hnone
  obtain ⟨⟨resource, count₁⟩, h₁, h⟩ := bind_eq_ok.mp h
  obtain ⟨⟨resourceObject, count₂⟩, h₂, h⟩ := bind_eq_ok.mp h
  obtain ⟨⟨resourceTypeRelation, count₃⟩, h₃, h⟩ := bind_eq_ok.mp h
  obtain ⟨⟨resourceType, count₄⟩, h₄, h⟩ := bind_eq_ok.mp h
  obtain ⟨⟨subject, count₅⟩, h₅, h⟩ := bind_eq_ok.mp h
  obtain ⟨⟨subjectTypeRelation, count₆⟩, h₆, h⟩ := bind_eq_ok.mp h
  obtain ⟨⟨subjectType, count₇⟩, h₇, h⟩ := bind_eq_ok.mp h
  obtain ⟨_, _, h⟩ := bind_eq_ok.mp h
  cases h
  have hnone := hgroups.reduced
  exact {
    resource := decodeIndex_eq_group lawful_resource hvalidation hrowIds
      (fun _ => hgroups.resource) (fun hkept => by cases hkept) h₁
    resourceObject := decodeIndex_eq_group lawful_resourceObject hvalidation hrowIds
      (hbroad hgroups.resourceObject) (fun hkept => (hnone (hreduced rfl hkept)).1) h₂
    resourceTypeRelation := decodeIndex_eq_group lawful_resourceTypeRelation hvalidation hrowIds
      (hbroad hgroups.resourceTypeRelation) (fun hkept => (hnone (hreduced rfl hkept)).2.1) h₃
    resourceType := decodeIndex_eq_group lawful_resourceType hvalidation hrowIds
      (hbroad hgroups.resourceType) (fun hkept => (hnone (hreduced rfl hkept)).2.2.1) h₄
    subject := decodeIndex_eq_group lawful_subject hvalidation hrowIds
      (hreverse hgroups.subject) (fun hkept => (hnone (hreduced rfl hkept)).2.2.2.1) h₅
    subjectTypeRelation := decodeIndex_eq_group lawful_subjectTypeRelation hvalidation hrowIds
      (hreverse hgroups.subjectTypeRelation)
      (fun hkept => (hnone (hreduced rfl hkept)).2.2.2.2.1) h₆
    subjectType := decodeIndex_eq_group lawful_subjectType hvalidation hrowIds
      (hreverse hgroups.subjectType) (fun hkept => (hnone (hreduced rfl hkept)).2.2.2.2.2) h₇ }

section Store

variable [Blake3Hash]

/-- So does every load of a file that a full load accepts. -/
theorem decodedFrom_of_decode
    {reader : Reader} {rows : List RelationshipRow} {indexes : DecodedIndexes}
    {profile : SnapshotLoadProfile} {groups : SnapshotIndexGroups}
    (hrowIds : ∀ (n : Nat) row, rows[n]? = some row → row.rowId.index = n)
    (hgroups : groups.Exact reader.header.indexProfile rows)
    (h : DecodedIndexes.decode reader rows profile .full = .ok indexes) :
    DecodedFrom profile groups indexes := by
  obtain ⟨_, _, h⟩ := bind_eq_ok.mp h
  obtain ⟨_, _, h⟩ := bind_eq_ok.mp h
  obtain ⟨_, _, h⟩ := bind_eq_ok.mp h
  obtain ⟨_, _, h⟩ := bind_eq_ok.mp h
  obtain ⟨_, _, h⟩ := bind_eq_ok.mp h
  exact decodedFrom_of_decodeAllIndexes rfl hrowIds hgroups h

variable [StoreHasher] {saved : RevisionSnapshot} {listing listing' : MapListing}
  {saveOptions : SaveOptions} {loadOptions : LoadOptions} {source : IndexedRelationshipStore}
  {reader : Reader} {full store : IndexedRelationshipStore} {schema : CompiledSchema}

/-- The indexes that are loaded are decoded from the groups of the rows. -/
theorem LoadedParts.decodedFrom
    (h : LoadedParts saved listing listing' saveOptions loadOptions source reader full store
      schema) :
    DecodedFrom loadOptions.profile (.fromRows saveOptions.indexProfile full.rowTable)
      (indexesOf store) := by
  have hvalid := (decodeStore_full h.fullStore).1
  have hgroups := SnapshotIndexGroups.exact_fromRows reader.header.indexProfile full.rowTable
  rw [← h.indexProfile]
  obtain ⟨_, hfull, _⟩ := decodeStore_parts h.fullStore
  obtain ⟨_, hloaded, _⟩ := decodeStore_parts h.loadedStore
  rw [h.reloads.rowTable] at hloaded
  cases hvalidation : loadOptions.validation with
  | full =>
      rw [hvalidation] at hloaded
      exact decodedFrom_of_decode hvalid.rowIds hgroups hloaded
  | trustedFastLoad =>
      have hprofile : loadOptions.profile = .fastLoad := by
        by_contra hslow
        exact h.mode ⟨hvalidation, hslow⟩
      rw [hvalidation, hprofile] at hloaded
      rw [hprofile, ← Except.ok.inj ((decode_trusted hfull).symm.trans hloaded)]
      exact decodedFrom_of_decode hvalid.rowIds hgroups hfull

/-- The store that is loaded from the bytes is the one that is loaded from the sections. -/
theorem LoadedParts.decodeSnapshotSections
    (h : LoadedParts saved listing listing' saveOptions loadOptions source reader full store
      schema) :
    ∃ sections, source.encodeSnapshotSections saveOptions.indexProfile = .ok sections ∧
      sections.indexProfile = saveOptions.indexProfile ∧
      IndexedRelationshipStore.decodeSnapshotSections sections loadOptions.profile
        loadOptions.validation = .ok store := by
  have hvalid := (decodeStore_full h.fullStore).1
  have hnumbered : numberRows 0 (source.liveRowTable.map (·.identity)) = .ok full.rowTable := by
    rw [← h.identities]
    exact numberRows_identities (fun n row hrow => by rw [hvalid.rowIds n row hrow, Nat.zero_add])
  refine ⟨_, bind_eq_ok.mpr ⟨full.rowTable, hnumbered, rfl⟩, rfl, ?_⟩
  have hindexes := h.decodedFrom
  have hrowTable := h.reloads.rowTable
  have hprofile := h.indexProfile
  obtain ⟨interner, hinterner, hstore⟩ := bind_eq_ok.mp h.loadedStore
  obtain ⟨rows, _, hstore⟩ := bind_eq_ok.mp hstore
  obtain ⟨indexes, _, hstore⟩ := bind_eq_ok.mp hstore
  cases hstore
  cases hinterner.symm.trans (h.interner loadOptions.validation)
  replace hrowTable : rows = full.rowTable := hrowTable
  subst hrowTable
  rw [hprofile]
  have hrows : (numberRows 0 (source.liveRowTable.map (·.identity))).mapError
      SnapshotIoError.store = .ok full.rowTable := by
    rw [hnumbered]
    rfl
  exact bind_eq_ok.mpr ⟨_, hrows, bind_eq_ok.mpr ⟨_, hindexes.resource,
    bind_eq_ok.mpr ⟨_, hindexes.resourceObject, bind_eq_ok.mpr ⟨_, hindexes.resourceTypeRelation,
    bind_eq_ok.mpr ⟨_, hindexes.resourceType, bind_eq_ok.mpr ⟨_, hindexes.subject,
    bind_eq_ok.mpr ⟨_, hindexes.subjectTypeRelation, bind_eq_ok.mpr
      ⟨_, hindexes.subjectType, rfl⟩⟩⟩⟩⟩⟩⟩⟩

end Store

end Snapshot

/-! ## Runs -/

namespace EngineWriter

open Snapshot

variable [Blake3Hash] [StoreHasher]

/-- The state that a restart leads to is loaded from the sections of the saved state. -/
theorem Sound.load_core
    [LawfulZstd] {writer restarted : EngineWriter} {listing listing' : MapListing}
    {saveOptions : SaveOptions} {loadOptions : LoadOptions} {file : List UInt8}
    {datastoreId : DatastoreId} {evaluationLimits : EvaluationLimits}
    (hsound : writer.Sound)
    (hsave : writer.saveSnapshot listing saveOptions = .ok file)
    (hcompression : loadOptions.compression = saveOptions.compression)
    (hload : loadSnapshot datastoreId evaluationLimits listing' file loadOptions =
      .ok restarted) :
    ∃ saved, SnapshotFile.save writer.core listing saveOptions.indexProfile = .ok saved ∧
      saved.load listing' ⟨loadOptions.profile, loadOptions.validation,
        loadOptions.requiredIndexProfile⟩ = .ok restarted.core := by
  obtain ⟨saved, hlatest, hloadable, hfile⟩ := hsound.saveSnapshot_eq_ok hsave
  obtain ⟨loaded, hloadFile, hloaded, _, _⟩ := loadSnapshot_eq_ok hload
  obtain ⟨hoptions, hprofile, hfits⟩ := fits_of_load hloadable hfile hcompression hloadFile
  obtain ⟨source, reader, full, store, schema, hparts, hloadParts⟩ := loadSnapshotFile_parts
    hloadable hfile hoptions hcompression hprofile hfits listing'
  cases hloadFile.symm.trans hloadParts
  obtain ⟨sections, hsections, hindexProfile, hstore⟩ := hparts.decodeSnapshotSections
  have hcore : writer.core = ⟨saved.configs, some saved.schema, saved.relationships,
      some saved.revision⟩ := by
    rw [core, hlatest.configs, hlatest.schema, hlatest.relationships, hlatest.revision]
  have hrestarted : restarted.core =
      ⟨WriterState.insertConfigs ∅ (saved.configs.refiled listing), some schema,
        .fromCheckpoint store, some saved.revision⟩ := by
    rw [core, ← hloaded.configs, hloaded.schema, ← hloaded.relationships, hloaded.revision]
  rw [hcore, hrestarted]
  refine ⟨⟨saved.configs.refiled listing, saved.revision, sections⟩, ?_, ?_⟩
  · refine bind_eq_ok.mpr ⟨sections, ?_, rfl⟩
    have hencoded : saved.relationships.encodeSnapshotSections saveOptions.indexProfile =
        .ok sections := bind_eq_ok.mpr ⟨source, hparts.canonicalStore, hsections⟩
    rw [hencoded]
    rfl
  · have hvalidated : SnapshotFile.validateLoadOptions ⟨loadOptions.profile,
        loadOptions.validation, loadOptions.requiredIndexProfile⟩ = .ok () :=
      if_neg hparts.mode
    have hsatisfies : ¬(!sections.indexProfile.satisfies loadOptions.requiredIndexProfile) =
        true := by
      rw [hindexProfile, hprofile]
      decide
    refine bind_eq_ok.mpr ⟨(), by rw [hvalidated]; rfl, ?_⟩
    rw [if_neg hsatisfies]
    have hdecoded : RelationshipStoreView.decodeSnapshotSections sections loadOptions.profile
        loadOptions.validation = .ok (.fromCheckpoint store) :=
      bind_eq_ok.mpr ⟨store, hstore, rfl⟩
    exact bind_eq_ok.mpr ⟨schema, by rw [hparts.compiled]; rfl, bind_eq_ok.mpr
      ⟨_, by rw [hdecoded]; rfl, rfl⟩⟩

/-- The state of every engine, whatever commands and restarts have led to it, is a state of the
writer. -/
theorem Reached.writerReachable
    [LawfulZstd] {writer : EngineWriter}
    (h : writer.Reached) :
    WriterReachable writer.core := by
  induction h with
  | new => exact .new
  | @run writer _ listing command ih =>
      rcases hrun : command.run listing writer with ⟨result, next⟩
      cases result with
      | error error =>
          have hsame := command.run_error listing writer (by rw [hrun])
          rw [hrun] at hsame
          rw [hsame]
          exact ih
      | ok token =>
          obtain ⟨command', hcommand⟩ := EngineCommand.run_core hrun
          exact .command listing command' ih hcommand
  | restart before hsave hcompression hload ih =>
      obtain ⟨file, hfile, hrestarted⟩ := before.sound.load_core hsave hcompression hload
      exact .load _ _ ih hfile hrestarted

/-- The snapshot that an engine publishes is one that the writer publishes. -/
theorem Reached.published_reachable
    [LawfulZstd] {writer : EngineWriter} {state : EngineState}
    (h : writer.Reached)
    (hpublished : writer.publishedState = some state) :
    state.latestSnapshot.Reachable := by
  cases hschema : writer.schema with
  | none =>
      rw [h.sound.unpublished hschema] at hpublished
      cases hpublished
  | some schema =>
      obtain ⟨snapshot, hlatest⟩ := h.sound.latest schema hschema
      cases hpublished.symm.trans hlatest.published
      refine ⟨writer.core, h.writerReachable, ?_⟩
      show writer.schema.map (fun schema => (⟨schema, writer.relationships⟩ : PublishedSnapshot)) =
        some snapshot.toPublishedSnapshot
      rw [hlatest.schema, ← hlatest.relationships]
      rfl

end EngineWriter

end SimpleZanzibar
