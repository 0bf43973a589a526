import Mathlib.Data.PNat.Notation
import SimpleZanzibar.Dsl
import SimpleZanzibar.PolicyText
import SimpleZanzibar.SchemaHash

/-!
# The engine

The writer with all its state: the configurations, the schema and the store view, the
snapshots it keeps, the revision counter and the state that it publishes to readers.  A
command changes the state field by field, so that what a failed command leaves behind can be
stated.  Readers pick a snapshot from the published state.
-/

namespace SimpleZanzibar

theorem Revision.get_inj
    {a b : Revision} :
    a.get = b.get ↔ a = b := by
  constructor
  · intro h
    cases a
    cases b
    cases h
    rfl
  · rintro rfl
    rfl

instance : DecidableEq Revision :=
  fun a b => decidable_of_iff (a.get = b.get) Revision.get_inj

/-- Identifies the engine that a token belongs to. -/
structure DatastoreId where
  bytes : BitVec 128
deriving DecidableEq

section Hashes

variable [Blake3]

/-- Stable exact-snapshot token returned by writes. -/
structure ConsistencyToken where
  revision : Revision
  schemaHash : SchemaHash
  datastoreId : DatastoreId
deriving DecidableEq

/-- A published snapshot with its revision, its schema hash and its configurations. -/
structure RevisionSnapshot extends PublishedSnapshot where
  revision : Revision
  schemaHash : SchemaHash
  configs : NamespaceConfigs

inductive Consistency where
  | latest
  | exact (token : ConsistencyToken)

inductive ConsistencyError where
  | wrongDatastore
  | revisionUnavailable (revision : Revision)
  | revisionExpired (revision : Revision)
  | schemaHashMismatch (revision : Revision)
deriving DecidableEq

/-- What the writer publishes to the readers. -/
structure EngineState where
  latestSnapshot : RevisionSnapshot
  snapshotHistory : List RevisionSnapshot
  datastoreId : DatastoreId
  lastRevision : Revision
  evaluationLimits : EvaluationLimits

namespace EngineState

def snapshotForToken (state : EngineState) (token : ConsistencyToken) :
    Except ConsistencyError RevisionSnapshot := do
  if token.datastoreId ≠ state.datastoreId then
    .error .wrongDatastore
  if state.lastRevision.get < token.revision.get then
    .error (.revisionUnavailable token.revision)
  match state.snapshotHistory.head? with
  | some oldest =>
      if token.revision.get < oldest.revision.get then
        .error (.revisionExpired token.revision)
  | none => .ok ()
  match state.snapshotHistory.find? (fun snapshot =>
      decide (snapshot.revision = token.revision)) with
  | none => .error (.revisionUnavailable token.revision)
  | some snapshot =>
      if snapshot.schemaHash ≠ token.schemaHash then
        .error (.schemaHashMismatch token.revision)
      else .ok snapshot

def snapshotForConsistency (state : EngineState) :
    Consistency → Except ConsistencyError RevisionSnapshot
  | .latest => .ok state.latestSnapshot
  | .exact token => state.snapshotForToken token

end EngineState

/-- The writer with the snapshots it keeps and the cell it publishes to. -/
structure EngineWriter where
  configs : NamespaceConfigs
  schema : Option CompiledSchema
  relationships : RelationshipStoreView
  currentSnapshot : Option RevisionSnapshot
  snapshotHistory : List RevisionSnapshot
  datastoreId : DatastoreId
  retainedSnapshots : ℕ+
  lastRevision : Option Revision
  evaluationLimits : EvaluationLimits
  publishedState : Option EngineState

namespace EngineWriter

/-- An engine without a schema. -/
def new (datastoreId : DatastoreId) (retainedSnapshots : ℕ+)
    (evaluationLimits : EvaluationLimits) : EngineWriter where
  configs := ∅
  schema := none
  relationships := .default
  currentSnapshot := none
  snapshotHistory := []
  datastoreId := datastoreId
  retainedSnapshots := retainedSnapshots
  lastRevision := none
  evaluationLimits := evaluationLimits
  publishedState := none

/-- The part of the state that decides what commands do. -/
def core (writer : EngineWriter) : WriterState :=
  ⟨writer.configs, writer.schema, writer.relationships, writer.lastRevision⟩

/-- What is published for the current snapshot. -/
def currentEngineState (writer : EngineWriter) : Option EngineState :=
  match writer.currentSnapshot, writer.lastRevision with
  | some snapshot, some revision =>
      some ⟨snapshot, writer.snapshotHistory, writer.datastoreId, revision,
        writer.evaluationLimits⟩
  | _, _ => none

def publishCurrentEngineState {ε : Type} : Action EngineWriter ε Unit :=
  Action.modify (fun writer => { writer with publishedState := writer.currentEngineState })

/-- Drops the oldest snapshots beyond the retention. -/
def trimHistory (retained : Nat) (history : List RevisionSnapshot) : List RevisionSnapshot :=
  history.drop (history.length - retained)

def publishSnapshot (configs : NamespaceConfigs) (schema : CompiledSchema)
    (relationships : RelationshipStoreView) :
    Action EngineWriter ZanzibarError ConsistencyToken := do
  let writer ← Action.get
  let revision ← Action.lift writer.core.nextRevision
  let schemaHash := SchemaHash.forSchema schema
  let snapshot : RevisionSnapshot := ⟨⟨schema, relationships⟩, revision, schemaHash, configs⟩
  let token : ConsistencyToken := ⟨revision, schemaHash, writer.datastoreId⟩
  Action.modify (fun writer => { writer with configs := configs })
  Action.modify (fun writer => { writer with schema := some schema })
  Action.modify (fun writer => { writer with relationships := relationships })
  Action.modify (fun writer => { writer with currentSnapshot := some snapshot })
  Action.modify (fun writer =>
    { writer with snapshotHistory := writer.snapshotHistory ++ [snapshot] })
  Action.modify (fun writer => { writer with
    snapshotHistory := trimHistory writer.retainedSnapshots writer.snapshotHistory })
  Action.modify (fun writer => { writer with lastRevision := some revision })
  publishCurrentEngineState
  return token

/-- Publishes into another cell from now on. -/
def replacePublisher {ε : Type} : Action EngineWriter ε Unit :=
  publishCurrentEngineState

section Hashed

variable [StoreHasher] (listing : MapListing)

/-- Compiles the configurations, in the order in which their map lists them, and publishes
the schema. -/
def publishConfigs (configs : NamespaceConfigs) :
    Action EngineWriter ZanzibarError ConsistencyToken := do
  let writer ← Action.get
  let schema ← Action.lift (compileLegacyConfigs listing (listing.namespaces configs))
  let relationships ← Action.lift (writer.core.relationshipStoreForSchema schema)
  publishSnapshot configs schema relationships

def applyNamespaceConfigs (configs : List NamespaceConfig) :
    Action EngineWriter ZanzibarError ConsistencyToken := do
  let writer ← Action.get
  publishConfigs listing (WriterState.insertConfigs writer.configs configs)

def addDslWithToken (dsl : String) : Action EngineWriter ZanzibarError ConsistencyToken := do
  let _ ← Action.lift (compileLegacyDsl dsl)
  let configs ← Action.lift (parseDsl dsl)
  applyNamespaceConfigs listing configs

def replaceDslWithToken (dsl : String) :
    Action EngineWriter ZanzibarError ConsistencyToken := do
  let _ ← Action.lift (compileLegacyDsl dsl)
  let configs ← Action.lift (parseDsl dsl)
  publishConfigs listing (WriterState.insertConfigs ∅ configs)

def deleteNamespace (namespaceName : String) :
    Action EngineWriter ZanzibarError ConsistencyToken := do
  let writer ← Action.get
  let _ ← Action.lift (ofDomainError (Identifier.new .objectType namespaceName))
  match writer.configs.lookup namespaceName with
  | none => Action.throw (.namespaceNotFound namespaceName)
  | some _ => publishConfigs listing (writer.configs.erase namespaceName)

def deleteRelation (namespaceName relation : String) :
    Action EngineWriter ZanzibarError ConsistencyToken := do
  let writer ← Action.get
  let _ ← Action.lift (ofDomainError (Identifier.new .objectType namespaceName))
  let _ ← Action.lift (ofDomainError (Identifier.new .relationName relation))
  match writer.configs.lookup namespaceName with
  | none => Action.throw (.namespaceNotFound namespaceName)
  | some config =>
      match config.relations.lookup ⟨relation⟩ with
      | none => Action.throw (.relationNotFound relation namespaceName)
      | some _ =>
          publishConfigs listing (writer.configs.insert namespaceName
            { config with relations := config.relations.erase ⟨relation⟩ })

def applyRelationshipMutations (mutations : List RelationshipMutation)
    (preconditions : List Precondition) :
    Action EngineWriter ZanzibarError ConsistencyToken := do
  let writer ← Action.get
  match writer.schema with
  | none => Action.throw .schemaRequired
  | some schema => do
      Action.lift (mutations.forM (fun mutation =>
        ofSchemaError (schema.validateRelationship mutation.relationship)))
      Action.lift (preconditions.forM (validatePreconditionFilter schema))
      let relationships ← Action.lift
        (ofStoreError (writer.relationships.applyMutations mutations preconditions))
      publishSnapshot writer.configs schema relationships

/-- Creates relationships in batches of the import size and returns the last token. -/
def importRelationships (token : ConsistencyToken) (relationships : List Relationship) :
    Action EngineWriter ZanzibarError ConsistencyToken :=
  if _ : relationships = [] then return token
  else do
    let batch := relationships.take policyImportBatchSize
    let token ← applyRelationshipMutations (batch.map .create) []
    importRelationships token (relationships.drop policyImportBatchSize)
termination_by relationships.length
decreasing_by
  have hpos : 0 < relationships.length := List.length_pos_iff.mpr ‹¬relationships = []›
  have hsize : 0 < policyImportBatchSize := by decide
  rw [List.length_drop]
  omega

/-- The state from which a policy text builds; it publishes into a cell of its own. -/
def candidate (writer : EngineWriter) : EngineWriter :=
  { new writer.datastoreId writer.retainedSnapshots writer.evaluationLimits with
    lastRevision := writer.lastRevision }

def buildCandidate (policy : PolicyText) :
    Action EngineWriter ZanzibarError ConsistencyToken := do
  let token ← replaceDslWithToken listing policy.schema
  let relationships ← Action.lift (parseRelationships policy)
  let token ← importRelationships token relationships
  replacePublisher
  return token

/-- Builds a candidate from the policy text, which takes the place of the writer. -/
def applyPolicyText (policy : PolicyText) :
    Action EngineWriter ZanzibarError ConsistencyToken := fun writer =>
  match buildCandidate listing policy writer.candidate with
  | (.ok token, candidate) => (.ok token, candidate)
  | (.error error, _) => (.error error, writer)

end Hashed

end EngineWriter

/-- The commands of the writer, with the texts as they are sent. -/
inductive EngineCommand where
  | writeRelationships (mutations : List RelationshipMutation)
      (preconditions : List Precondition)
  | applySchema (text : String)
  | applyNamespaceConfigs (configs : List NamespaceConfig)
  | replaceSchema (text : String)
  | deleteNamespace (namespaceName : String)
  | deleteRelation (namespaceName relation : String)
  | applyPolicyText (policy : PolicyText)

def EngineCommand.run [StoreHasher] (listing : MapListing) :
    EngineCommand → Action EngineWriter ZanzibarError ConsistencyToken
  | .writeRelationships mutations preconditions =>
      EngineWriter.applyRelationshipMutations mutations preconditions
  | .applySchema text => EngineWriter.addDslWithToken listing text
  | .applyNamespaceConfigs configs => EngineWriter.applyNamespaceConfigs listing configs
  | .replaceSchema text => EngineWriter.replaceDslWithToken listing text
  | .deleteNamespace namespaceName => EngineWriter.deleteNamespace listing namespaceName
  | .deleteRelation namespaceName relation =>
      EngineWriter.deleteRelation listing namespaceName relation
  | .applyPolicyText policy => EngineWriter.applyPolicyText listing policy

end Hashes

end SimpleZanzibar
