import SimpleZanzibar.Engine
import SimpleZanzibar.SchemaOrder
import SimpleZanzibar.WriterCorrect

/-!
# Invariant of the engine

Every command either fails and leaves the writer as it was, or publishes snapshots of schemas
and relationships that fit each other.  A policy text publishes several snapshots into a
private state first.

**Results.**
* `EngineWriter.publishSnapshot_apply`: what publishing does to the whole state.
* `EngineCommand.transacts_run`: what a command does, when it fails and when it succeeds.
* `EngineCommand.runAll_invariant`: the invariant of the writer, after every run of commands.
* `EngineCommand.run_error`: a failed command changes nothing.
-/

namespace SimpleZanzibar

/-- The revisions of the history count up by one. -/
def Consecutive [Blake3] (history : List RevisionSnapshot) : Prop :=
  history.IsChain (fun older newer => newer.revision.get = older.revision.get + 1)

namespace EngineWriter

variable [Blake3]

/-! ## Publishing -/

theorem length_trimHistory_le
    (retained : Nat) (history : List RevisionSnapshot) :
    (trimHistory retained history).length ≤ retained := by
  unfold trimHistory
  rw [List.length_drop]
  omega

theorem getLast?_trimHistory
    {retained : Nat}
    (hpos : 0 < retained)
    (history : List RevisionSnapshot) (snapshot : RevisionSnapshot) :
    (trimHistory retained (history ++ [snapshot])).getLast? = some snapshot := by
  unfold trimHistory
  rw [List.getLast?_drop, if_neg, List.getLast?_concat]
  rw [List.length_append, List.length_singleton]
  omega

/-- The history with the snapshot, at most as long as is retained. -/
def extended (writer : EngineWriter) (snapshot : RevisionSnapshot) : List RevisionSnapshot :=
  trimHistory writer.retainedSnapshots (writer.snapshotHistory ++ [snapshot])

/-- The state that readers see after the snapshot was published. -/
def engineState (writer : EngineWriter) (snapshot : RevisionSnapshot) : EngineState :=
  ⟨snapshot, writer.extended snapshot, writer.datastoreId, snapshot.revision,
    writer.evaluationLimits⟩

/-- The writer after the snapshot was published. -/
def afterPublish (writer : EngineWriter) (snapshot : RevisionSnapshot) : EngineWriter where
  configs := snapshot.configs
  schema := some snapshot.schema
  relationships := snapshot.relationships
  currentSnapshot := some snapshot
  snapshotHistory := writer.extended snapshot
  datastoreId := writer.datastoreId
  retainedSnapshots := writer.retainedSnapshots
  lastRevision := some snapshot.revision
  evaluationLimits := writer.evaluationLimits
  publishedState := some (writer.engineState snapshot)

/-- The token of a snapshot. -/
def tokenOf (writer : EngineWriter) (snapshot : RevisionSnapshot) : ConsistencyToken :=
  ⟨snapshot.revision, snapshot.schemaHash, writer.datastoreId⟩

/-- Publishing fails before it changes the state. -/
theorem publishSnapshot_apply
    (writer : EngineWriter) (configs : NamespaceConfigs) (schema : CompiledSchema)
    (relationships : RelationshipStoreView) :
    publishSnapshot configs schema relationships writer =
      match writer.core.nextRevision with
      | .error error => (.error error, writer)
      | .ok revision =>
          let snapshot : RevisionSnapshot :=
            ⟨⟨schema, relationships⟩, revision, SchemaHash.forSchema schema, configs⟩
          (.ok (writer.tokenOf snapshot), writer.afterPublish snapshot) := by
  unfold publishSnapshot
  rw [Action.get_bind_apply, Action.bind_apply, Action.lift_apply]
  cases writer.core.nextRevision with
  | error error => rfl
  | ok revision => rfl

/-- What a snapshot must satisfy to be published after this state. -/
structure Publishable [StoreHasher] (listing : MapListing) (writer : EngineWriter)
    (snapshot : RevisionSnapshot) : Prop where
  revision : writer.core.nextRevision = .ok snapshot.revision
  schemaHash : snapshot.schemaHash = SchemaHash.forSchema snapshot.schema
  origin : (compileLegacyConfigs listing (listing.namespaces snapshot.configs) =
        .ok snapshot.schema ∧
      writer.core.relationshipStoreForSchema snapshot.schema = .ok snapshot.relationships) ∨
    (writer.schema = some snapshot.schema ∧ snapshot.configs = writer.configs ∧
      ∃ mutations preconditions,
        (∀ mutation ∈ mutations,
          snapshot.schema.validateRelationship mutation.relationship = .ok ()) ∧
        writer.relationships.applyMutations mutations preconditions = .ok snapshot.relationships)

/-- The command publishes one snapshot. -/
def PublishesOne [StoreHasher] (listing : MapListing) (writer : EngineWriter)
    (token : ConsistencyToken) (next : EngineWriter) : Prop :=
  ∃ snapshot, Publishable listing writer snapshot ∧ token = writer.tokenOf snapshot ∧
    next = writer.afterPublish snapshot

section Commands

variable [StoreHasher] {listing : MapListing} {writer : EngineWriter}

theorem transacts_publishSnapshot
    {configs : NamespaceConfigs} {schema : CompiledSchema}
    {relationships : RelationshipStoreView}
    (h : ∀ snapshot : RevisionSnapshot, snapshot.schema = schema →
      snapshot.relationships = relationships → snapshot.configs = configs →
      writer.core.nextRevision = .ok snapshot.revision →
      snapshot.schemaHash = SchemaHash.forSchema schema →
      Publishable listing writer snapshot) :
    (publishSnapshot configs schema relationships).Transacts writer
      (PublishesOne listing writer) := by
  unfold Action.Transacts
  rw [publishSnapshot_apply]
  cases hrevision : writer.core.nextRevision with
  | error error => rfl
  | ok revision => exact ⟨_, h _ rfl rfl rfl hrevision rfl, rfl, rfl⟩

theorem transacts_publishConfigs
    (listing : MapListing) (writer : EngineWriter) (configs : NamespaceConfigs) :
    (publishConfigs listing configs).Transacts writer (PublishesOne listing writer) := by
  unfold publishConfigs
  apply Action.Transacts.get_bind
  apply Action.Transacts.lift_bind
  intro schema hschema
  apply Action.Transacts.lift_bind
  intro relationships hrelationships
  apply transacts_publishSnapshot
  rintro snapshot rfl rfl rfl hrevision hhash
  exact ⟨hrevision, hhash, Or.inl ⟨hschema, hrelationships⟩⟩

theorem transacts_replaceDslWithToken
    (listing : MapListing) (writer : EngineWriter) (dsl : String) :
    (replaceDslWithToken listing dsl).Transacts writer (PublishesOne listing writer) := by
  unfold replaceDslWithToken
  apply Action.Transacts.lift_bind
  intro _ _
  apply Action.Transacts.lift_bind
  intro configs _
  exact transacts_publishConfigs listing writer _

theorem transacts_addDslWithToken
    (listing : MapListing) (writer : EngineWriter) (dsl : String) :
    (addDslWithToken listing dsl).Transacts writer (PublishesOne listing writer) := by
  unfold addDslWithToken
  apply Action.Transacts.lift_bind
  intro _ _
  apply Action.Transacts.lift_bind
  intro configs _
  exact transacts_publishConfigs listing writer _

theorem transacts_deleteNamespace
    (listing : MapListing) (writer : EngineWriter) (namespaceName : String) :
    (deleteNamespace listing namespaceName).Transacts writer (PublishesOne listing writer) := by
  unfold deleteNamespace
  apply Action.Transacts.get_bind
  apply Action.Transacts.lift_bind
  intro _ _
  split
  · exact Action.transacts_throw _
  · exact transacts_publishConfigs listing writer _

theorem transacts_deleteRelation
    (listing : MapListing) (writer : EngineWriter) (namespaceName relation : String) :
    (deleteRelation listing namespaceName relation).Transacts writer
      (PublishesOne listing writer) := by
  unfold deleteRelation
  apply Action.Transacts.get_bind
  apply Action.Transacts.lift_bind
  intro _ _
  apply Action.Transacts.lift_bind
  intro _ _
  split
  · exact Action.transacts_throw _
  · split
    · exact Action.transacts_throw _
    · exact transacts_publishConfigs listing writer _

omit [Blake3] [StoreHasher] in
theorem forM_validate_eq_ok
    {schema : CompiledSchema} {mutations : List RelationshipMutation}
    (h : mutations.forM (fun mutation =>
      ofSchemaError (schema.validateRelationship mutation.relationship)) = .ok ()) :
    ∀ mutation ∈ mutations, schema.validateRelationship mutation.relationship = .ok () := by
  induction mutations with
  | nil =>
      intro mutation hmem
      cases hmem
  | cons mutation rest ih =>
      change (ofSchemaError (schema.validateRelationship mutation.relationship) >>=
        fun _ => rest.forM _) = .ok () at h
      obtain ⟨hfirst, hrest⟩ := SchemaResolver.unit_bind_eq_ok.mp h
      exact List.forall_mem_cons.mpr ⟨mapError_eq_ok hfirst, ih hrest⟩

theorem transacts_applyRelationshipMutations
    (listing : MapListing) (writer : EngineWriter) (mutations : List RelationshipMutation)
    (preconditions : List Precondition) :
    (applyRelationshipMutations mutations preconditions).Transacts writer
      (PublishesOne listing writer) := by
  unfold applyRelationshipMutations
  apply Action.Transacts.get_bind
  cases hschema : writer.schema with
  | none => exact Action.transacts_throw _
  | some schema =>
      apply Action.Transacts.lift_bind
      intro _ hvalid
      apply Action.Transacts.lift_bind
      intro _ _
      apply Action.Transacts.lift_bind
      intro relationships hrelationships
      apply transacts_publishSnapshot
      rintro snapshot rfl rfl hconfigs hrevision hhash
      exact ⟨hrevision, hhash, Or.inr ⟨hschema, hconfigs, mutations, preconditions,
        forM_validate_eq_ok hvalid, mapError_eq_ok hrelationships⟩⟩

/-- A run of snapshots published one after the other, with the last token. -/
inductive PublishesMany (listing : MapListing) :
    EngineWriter → ConsistencyToken → EngineWriter → Prop where
  | one {writer next : EngineWriter} {token : ConsistencyToken} :
      PublishesOne listing writer token next → PublishesMany listing writer token next
  | more {writer middle next : EngineWriter} {token token' : ConsistencyToken} :
      PublishesMany listing writer token middle → PublishesOne listing middle token' next →
      PublishesMany listing writer token' next

/-- An import goes on publishing. -/
theorem publishesMany_importRelationships
    {token token' : ConsistencyToken} {relationships : List Relationship}
    {writer middle next : EngineWriter}
    (hbefore : PublishesMany listing writer token middle)
    (h : importRelationships token relationships middle = (.ok token', next)) :
    PublishesMany listing writer token' next := by
  fun_induction importRelationships token relationships generalizing middle with
  | case1 token =>
      cases h
      exact hbefore
  | case2 token relationships hne batch =>
      rename_i ih
      obtain ⟨token₁, middle₁, hbatch, h⟩ := Action.bind_eq_ok.mp h
      have hone := (transacts_applyRelationshipMutations listing middle _ _).apply_ok hbatch
      exact ih token₁ (hbefore.more hone) h

theorem PublishesMany.exists_afterPublish
    {writer next : EngineWriter} {token : ConsistencyToken}
    (h : PublishesMany listing writer token next) :
    ∃ (before : EngineWriter) (snapshot : RevisionSnapshot),
      next = before.afterPublish snapshot := by
  cases h with
  | one hone =>
      obtain ⟨snapshot, _, _, rfl⟩ := hone
      exact ⟨_, snapshot, rfl⟩
  | more _ hone =>
      obtain ⟨snapshot, _, _, rfl⟩ := hone
      exact ⟨_, snapshot, rfl⟩

/-- A policy text is published from the candidate, or not at all. -/
theorem transacts_applyPolicyText
    (listing : MapListing) (writer : EngineWriter) (policy : PolicyText) :
    (applyPolicyText listing policy).Transacts writer
      (PublishesMany listing writer.candidate) := by
  unfold Action.Transacts applyPolicyText
  rcases hbuild : buildCandidate listing policy writer.candidate with ⟨result, next⟩
  cases result with
  | error error => rfl
  | ok token =>
      obtain ⟨token₀, middle₀, hreplace, hbuild⟩ := Action.bind_eq_ok.mp hbuild
      obtain ⟨relationships, _, hbuild⟩ := Action.lift_bind_eq_ok.mp hbuild
      obtain ⟨token₁, middle₁, himport, hbuild⟩ := Action.bind_eq_ok.mp hbuild
      obtain ⟨_, middle₂, hpublish, hbuild⟩ := Action.bind_eq_ok.mp hbuild
      have hone := (transacts_replaceDslWithToken listing writer.candidate _).apply_ok hreplace
      have hmany := publishesMany_importRelationships (.one hone) himport
      obtain ⟨before, snapshot, rfl⟩ := hmany.exists_afterPublish
      cases hbuild
      cases hpublish
      exact hmany

end Commands

end EngineWriter

/-! ## The invariant -/

namespace EngineWriter

variable [Blake3] [StoreHasher]

/-- What holds before every publication, also in the candidate of a policy text. -/
structure Coherent (writer : EngineWriter) : Prop where
  relationships : writer.relationships.Inv
  compiled : ∀ schema, writer.schema = some schema → ∃ listing : MapListing,
    compileLegacyConfigs listing (listing.namespaces writer.configs) = .ok schema
  valid : ∀ schema, writer.schema = some schema →
    ∀ r ∈ writer.relationships.rows, schema.validateRelationship r = .ok ()
  length_le : writer.snapshotHistory.length ≤ writer.retainedSnapshots
  consecutive : Consecutive writer.snapshotHistory
  last : ∀ snapshot, writer.snapshotHistory.getLast? = some snapshot →
    writer.lastRevision = some snapshot.revision

omit [StoreHasher] in
/-- The snapshot is the latest one, and it carries the state of the writer. -/
structure Latest (writer : EngineWriter) (snapshot : RevisionSnapshot) : Prop where
  configs : snapshot.configs = writer.configs
  schema : writer.schema = some snapshot.schema
  relationships : snapshot.relationships = writer.relationships
  schemaHash : snapshot.schemaHash = SchemaHash.forSchema snapshot.schema
  current : writer.currentSnapshot = some snapshot
  history : writer.snapshotHistory.getLast? = some snapshot
  revision : writer.lastRevision = some snapshot.revision
  published : writer.publishedState = some ⟨snapshot, writer.snapshotHistory,
    writer.datastoreId, snapshot.revision, writer.evaluationLimits⟩

theorem coherent_candidate
    (writer : EngineWriter) :
    writer.candidate.Coherent where
  relationships := RelationshipStoreView.inv_default
  compiled := fun _ h => (by cases h)
  valid := fun _ h => (by cases h)
  length_le := Nat.zero_le _
  consecutive := List.IsChain.nil
  last := fun _ h => (by cases h)

variable {listing : MapListing} {writer next : EngineWriter} {snapshot : RevisionSnapshot}

omit [StoreHasher] in
theorem nextRevision_get
    {revision last : Revision}
    (hnext : writer.core.nextRevision = .ok revision)
    (hlast : writer.lastRevision = some last) :
    revision.get = last.get + 1 := by
  have hcore : writer.core.lastRevision = some last := hlast
  unfold WriterState.nextRevision Revision.next at hnext
  rw [hcore] at hnext
  dsimp only at hnext
  split at hnext
  · cases hnext
    rfl
  · cases hnext

/-- The revisions still count up by one when the next snapshot is appended. -/
theorem Coherent.consecutive_append
    (hcoherent : writer.Coherent)
    (hnext : writer.core.nextRevision = .ok snapshot.revision) :
    Consecutive (writer.snapshotHistory ++ [snapshot]) := by
  refine List.isChain_append.mpr ⟨hcoherent.consecutive, List.isChain_singleton snapshot, ?_⟩
  intro last hlast first hfirst
  cases hfirst
  exact nextRevision_get hnext (hcoherent.last last hlast)

/-- The published store is sound and holds valid relationships only. -/
theorem Coherent.publishable_relationships
    (hcoherent : writer.Coherent)
    (hpub : Publishable listing writer snapshot) :
    snapshot.relationships.Inv ∧ ∀ r ∈ snapshot.relationships.rows,
      snapshot.schema.validateRelationship r = .ok () := by
  rcases hpub.origin with ⟨_, hstore⟩ | ⟨hschema, _, mutations, preconditions, hvalid, happly⟩
  · obtain ⟨hinv, hrows, _⟩ := WriterState.relationshipStoreForSchema_ok hstore
    exact ⟨hinv, hrows⟩
  · have hout := hcoherent.relationships.applyMutations mutations preconditions
    rw [happly] at hout
    obtain ⟨_, hinv, hset, _⟩ := hout
    refine ⟨hinv, ?_⟩
    intro r hr
    rw [← RelationshipStoreView.mem_liveSet_iff, hset, batchResult, Finset.mem_union,
      Finset.mem_filter, List.mem_toFinset] at hr
    rcases hr with ⟨hold, _⟩ | hnew
    · exact hcoherent.valid _ hschema r (RelationshipStoreView.mem_liveSet_iff.mp hold)
    · obtain ⟨mutation, hmutation, rfl⟩ := List.mem_map.mp hnew
      exact hvalid mutation (List.mem_filter.mp hmutation).1

/-- Publishing keeps the state coherent. -/
theorem Coherent.afterPublish
    (hcoherent : writer.Coherent)
    (hpub : Publishable listing writer snapshot) :
    (writer.afterPublish snapshot).Coherent := by
  obtain ⟨hinv, hvalid⟩ := hcoherent.publishable_relationships hpub
  refine ⟨hinv, ?_, ?_, length_trimHistory_le _ _,
    (hcoherent.consecutive_append hpub.revision).drop _, ?_⟩
  · intro schema hschema
    cases hschema
    rcases hpub.origin with ⟨hcompile, _⟩ | ⟨hschema, hconfigs, _⟩
    · exact ⟨listing, hcompile⟩
    · obtain ⟨listing', hcompile⟩ := hcoherent.compiled _ hschema
      rw [← hconfigs] at hcompile
      exact ⟨listing', hcompile⟩
  · intro schema hschema
    cases hschema
    exact hvalid
  · intro last hlast
    have hsame :=
      getLast?_trimHistory writer.retainedSnapshots.property writer.snapshotHistory snapshot
    rw [EngineWriter.afterPublish] at hlast ⊢
    cases hlast.symm.trans hsame
    rfl

omit [StoreHasher] in
theorem latest_afterPublish
    (hhash : snapshot.schemaHash = SchemaHash.forSchema snapshot.schema) :
    (writer.afterPublish snapshot).Latest snapshot where
  configs := rfl
  schema := rfl
  relationships := rfl
  schemaHash := hhash
  current := rfl
  history := getLast?_trimHistory writer.retainedSnapshots.property writer.snapshotHistory snapshot
  revision := rfl
  published := rfl

theorem Coherent.publishesOne
    {token : ConsistencyToken}
    (hcoherent : writer.Coherent)
    (h : PublishesOne listing writer token next) :
    next.Coherent ∧ ∃ snapshot, next.Latest snapshot := by
  obtain ⟨snapshot, hpub, _, rfl⟩ := h
  exact ⟨hcoherent.afterPublish hpub, snapshot, latest_afterPublish hpub.schemaHash⟩

theorem Coherent.publishesMany
    {token : ConsistencyToken}
    (hcoherent : writer.Coherent)
    (h : PublishesMany listing writer token next) :
    next.Coherent ∧ ∃ snapshot, next.Latest snapshot := by
  induction h with
  | one hone => exact hcoherent.publishesOne hone
  | more _ hone ih => exact ih.1.publishesOne hone

end EngineWriter

/-- What a command does when it succeeds. -/
def EngineCommand.Performs [Blake3] [StoreHasher] (listing : MapListing)
    (writer : EngineWriter) (token : ConsistencyToken) (next : EngineWriter) :
    EngineCommand → Prop
  | .applyPolicyText _ => EngineWriter.PublishesMany listing writer.candidate token next
  | _ => EngineWriter.PublishesOne listing writer token next

section Transactions

variable [Blake3] [StoreHasher]

/-- A command performs, or it fails and leaves the writer as it was. -/
theorem EngineCommand.transacts_run
    (listing : MapListing) (command : EngineCommand) (writer : EngineWriter) :
    (command.run listing).Transacts writer
      (fun token next => command.Performs listing writer token next) := by
  cases command with
  | writeRelationships mutations preconditions =>
      exact EngineWriter.transacts_applyRelationshipMutations listing writer _ _
  | applySchema text => exact EngineWriter.transacts_addDslWithToken listing writer text
  | applyNamespaceConfigs configs =>
      exact EngineWriter.transacts_publishConfigs listing writer _
  | replaceSchema text => exact EngineWriter.transacts_replaceDslWithToken listing writer text
  | deleteNamespace namespaceName =>
      exact EngineWriter.transacts_deleteNamespace listing writer namespaceName
  | deleteRelation namespaceName relation =>
      exact EngineWriter.transacts_deleteRelation listing writer namespaceName relation
  | applyPolicyText policy => exact EngineWriter.transacts_applyPolicyText listing writer policy

/-- A failed command leaves the whole state as it was. -/
theorem EngineCommand.run_error
    (listing : MapListing) (command : EngineCommand) (writer : EngineWriter)
    {error : ZanzibarError}
    (h : (command.run listing writer).1 = .error error) :
    (command.run listing writer).2 = writer :=
  (command.transacts_run listing writer).of_error h

/-- Runs commands one after the other, whether they fail or not.  Each comes with the order in
which the maps of the configurations are listed while it runs. -/
def EngineCommand.runAll : List (MapListing × EngineCommand) → EngineWriter → EngineWriter
  | [], writer => writer
  | (listing, command) :: rest, writer => runAll rest (command.run listing writer).2

/-- An import fails where its first batch of relationships is refused. -/
theorem EngineWriter.applyPolicyText_error
    {listing : MapListing} {policy : PolicyText} {writer : EngineWriter}
    {token : ConsistencyToken} {relationships : List Relationship} {error : ZanzibarError}
    (hschema : (replaceDslWithToken listing policy.schema writer.candidate).1 = .ok token)
    (hparse : parseRelationships policy = .ok relationships)
    (hne : relationships ≠ [])
    (hbatch : (applyRelationshipMutations
      ((relationships.take policyImportBatchSize).map .create) []
      (replaceDslWithToken listing policy.schema writer.candidate).2).1 = .error error) :
    (applyPolicyText listing policy writer).1 = .error error := by
  rcases hreplace : replaceDslWithToken listing policy.schema writer.candidate with ⟨_, next⟩
  rw [hreplace] at hschema hbatch
  cases hschema
  rcases hmutations : applyRelationshipMutations
      ((relationships.take policyImportBatchSize).map .create) [] next with ⟨_, last⟩
  rw [hmutations] at hbatch
  cases hbatch
  have hbuild : buildCandidate listing policy writer.candidate = (.error error, last) := by
    rw [buildCandidate, Action.bind_apply, hreplace]
    simp only [Action.bind_apply, Action.lift_apply, hparse]
    rw [importRelationships, dif_neg hne, Action.bind_apply, hmutations]
  rw [applyPolicyText, hbuild]

end Transactions

/-- A rejected import, on a writer with a schema, rows and a full history: the schema of the
policy is published in private before the second line of its file repeats the first. -/
theorem EngineCommand.run_error_applyPolicyText :
    let _ := SchemaHash.identityBlake3
    let _ := fnvHasher
    let row (user : ObjectRef) : Relationship :=
      ⟨objectLit "doc" "1", relationLit "viewer", .object user⟩
    let schema := "namespace doc \x7b relation viewer \x7b\x7d \x7d"
    let line := "doc:1#viewer@user:carol\n"
    let policy : PolicyText := ⟨schema, [⟨"relationships/doc.zed", line ++ line⟩]⟩
    let writer : EngineWriter := EngineCommand.runAll
      [(.latestFirst, .applySchema schema),
        (.latestFirst, .writeRelationships
          [.create (row (objectLit "user" "alice")), .create (row (objectLit "user" "bob"))] []),
        (.latestFirst, .writeRelationships [.delete (row (objectLit "user" "alice"))] [])]
      (.new ⟨0⟩ ⟨2, Nat.two_pos⟩ .default)
    let result := (EngineCommand.applyPolicyText policy).run .latestFirst writer
    writer.schema.isSome = true ∧ writer.relationships.rows = [row (objectLit "user" "bob")] ∧
      writer.snapshotHistory.length = 2 ∧
      result.1 = .error (.store (.duplicateMutation (row (objectLit "user" "carol")))) ∧
      result.2 = writer := by
  intro _ _ row schema line policy writer result
  let schemaRun := EngineWriter.replaceDslWithToken .latestFirst schema writer.candidate
  have hschemaRun : schemaRun.1.toOption.isSome = true := by
    decide +kernel
  let batchRun := EngineWriter.applyRelationshipMutations
    [.create (row (objectLit "user" "carol")), .create (row (objectLit "user" "carol"))] []
      schemaRun.2
  have hbatchRun : (match batchRun.1 with
      | .ok _ => none
      | .error error => some error) =
        some (.store (.duplicateMutation (row (objectLit "user" "carol")))) := by
    decide +kernel
  have hbatch : batchRun.1 =
      .error (.store (.duplicateMutation (row (objectLit "user" "carol")))) := by
    cases hrefused : batchRun.1 with
    | ok token =>
        rw [hrefused] at hbatchRun
        cases hbatchRun
    | error error =>
        rw [hrefused] at hbatchRun
        exact congrArg Except.error (Option.some.inj hbatchRun)
  have hparse : parseRelationships policy =
      .ok [row (objectLit "user" "carol"), row (objectLit "user" "carol")] := by
    decide +kernel
  have herror : result.1 =
      .error (.store (.duplicateMutation (row (objectLit "user" "carol")))) := by
    cases htoken : schemaRun.1 with
    | error error =>
        rw [htoken] at hschemaRun
        cases hschemaRun
    | ok token =>
        exact EngineWriter.applyPolicyText_error htoken hparse (List.cons_ne_nil _ _) hbatch
  exact ⟨by decide +kernel, by decide +kernel, by decide +kernel, herror,
    EngineCommand.run_error .latestFirst (.applyPolicyText policy) writer herror⟩

section Runs

variable [Blake3] [StoreHasher]

namespace EngineWriter

/-- The state of the writer and what it publishes fit each other. -/
structure Inv (writer : EngineWriter) : Prop where
  compiled : ∀ schema, writer.schema = some schema → ∀ listing : MapListing, ∃ compiled,
    compileLegacyConfigs listing (listing.namespaces writer.configs) = .ok compiled ∧
      schema.Same Eq compiled
  valid : ∀ schema, writer.schema = some schema →
    ∀ r ∈ writer.relationships.rows, schema.validateRelationship r = .ok ()
  latest : ∀ schema, writer.schema = some schema → ∃ snapshot, writer.Latest snapshot
  unpublished : writer.schema = none → writer.publishedState = none ∧
    writer.snapshotHistory = [] ∧ writer.relationships.rows = []
  length_le : writer.snapshotHistory.length ≤ writer.retainedSnapshots
  consecutive : Consecutive writer.snapshotHistory

/-- The part of the invariant that a command needs. -/
structure Sound (writer : EngineWriter) : Prop where
  coherent : writer.Coherent
  latest : ∀ schema, writer.schema = some schema → ∃ snapshot, writer.Latest snapshot
  unpublished : writer.schema = none →
    writer = .new writer.datastoreId writer.retainedSnapshots writer.evaluationLimits

theorem sound_new
    (datastoreId : DatastoreId) (retainedSnapshots : ℕ+) (evaluationLimits : EvaluationLimits) :
    (new datastoreId retainedSnapshots evaluationLimits).Sound where
  coherent := coherent_candidate (new datastoreId retainedSnapshots evaluationLimits)
  latest := fun _ h => (by cases h)
  unpublished := fun _ => rfl

theorem Sound.inv
    {writer : EngineWriter}
    (hsound : writer.Sound) :
    writer.Inv := by
  refine ⟨?_, hsound.coherent.valid, hsound.latest, ?_, hsound.coherent.length_le,
    hsound.coherent.consecutive⟩
  · intro schema hschema listing
    obtain ⟨listing', hcompile⟩ := hsound.coherent.compiled schema hschema
    have hperm : (listing'.namespaces writer.configs).Perm (listing.namespaces writer.configs) :=
      (listing'.namespaces_perm _).trans (listing.namespaces_perm _).symm
    exact compileLegacyConfigs_reordered hcompile hperm listing
  · intro hschema
    rw [hsound.unpublished hschema]
    exact ⟨rfl, rfl, rfl⟩

/-- Every command keeps the writer sound. -/
theorem Sound.run
    {writer : EngineWriter}
    (hsound : writer.Sound)
    (listing : MapListing) (command : EngineCommand) :
    (command.run listing writer).2.Sound := by
  have htransacts := command.transacts_run listing writer
  rcases hrun : command.run listing writer with ⟨result, next⟩
  cases result with
  | error error =>
      have hsame := htransacts.of_error (e := error) (by rw [hrun])
      rw [hrun] at hsame
      exact hsame ▸ hsound
  | ok token =>
      have hperforms := htransacts.apply_ok hrun
      have hnext : next.Coherent ∧ ∃ snapshot, next.Latest snapshot := by
        cases command with
        | applyPolicyText policy => exact (coherent_candidate writer).publishesMany hperforms
        | writeRelationships mutations preconditions =>
            exact hsound.coherent.publishesOne hperforms
        | applySchema text => exact hsound.coherent.publishesOne hperforms
        | applyNamespaceConfigs configs => exact hsound.coherent.publishesOne hperforms
        | replaceSchema text => exact hsound.coherent.publishesOne hperforms
        | deleteNamespace namespaceName => exact hsound.coherent.publishesOne hperforms
        | deleteRelation namespaceName relation => exact hsound.coherent.publishesOne hperforms
      obtain ⟨hcoherent, snapshot, hlatest⟩ := hnext
      refine ⟨hcoherent, fun _ _ => ⟨snapshot, hlatest⟩, ?_⟩
      intro hnone
      cases hnone.symm.trans hlatest.schema

end EngineWriter

theorem EngineCommand.sound_runAll
    {writer : EngineWriter}
    (hsound : writer.Sound)
    (commands : List (MapListing × EngineCommand)) :
    (runAll commands writer).Sound := by
  induction commands generalizing writer with
  | nil => exact hsound
  | cons entry rest ih => exact ih (hsound.run entry.1 entry.2)

/-- The invariant holds after every run of commands on an empty writer. -/
theorem EngineCommand.runAll_invariant
    (commands : List (MapListing × EngineCommand)) (datastoreId : DatastoreId)
    (retainedSnapshots : ℕ+) (evaluationLimits : EvaluationLimits) :
    (runAll commands (.new datastoreId retainedSnapshots evaluationLimits)).Inv :=
  (sound_runAll (EngineWriter.sound_new _ _ _) commands).inv

end Runs

end SimpleZanzibar
