import SimpleZanzibar.Eval.Context
import SimpleZanzibar.Store.Sections

/-!
# The writer

The commands that change the engine: relationship batches, edits of the namespace
configurations and imports.  A schema edit compiles all configurations again and
rebuilds the store from the live relationships; a batch is validated against the
schema and applied to the store view.  Commands return the next state, so that a
command that fails leaves the state it was given.

Schema texts and policy texts enter as the configurations and relationships that they
parse to.  Configurations are maps, and the order in which a map is listed is a
parameter of every command.
-/

namespace SimpleZanzibar

/-- A rewrite of a namespace configuration, with unvalidated names. -/
inductive LegacyUsersetExpression where
  | this
  | computedUserset (relation : Relation)
  | tupleToUserset (tuplesetRelation computedUsersetRelation : Relation)
  | union (expressions : List LegacyUsersetExpression)
  | intersection (expressions : List LegacyUsersetExpression)
  | exclusion (base exclude : LegacyUsersetExpression)

structure RelationConfig where
  name : Relation
  usersetRewrite : Option LegacyUsersetExpression

structure NamespaceConfig where
  name : String
  relations : AList (fun _ : Relation => RelationConfig)

/-- The configured namespaces by name. -/
abbrev NamespaceConfigs := AList (fun _ : String => NamespaceConfig)

/-- An order in which the hash maps of the configurations list their values. -/
structure MapListing where
  namespaces : NamespaceConfigs → List NamespaceConfig
  relations : NamespaceConfig → List RelationConfig
  namespaces_perm : ∀ configs, (namespaces configs).Perm (configs.entries.map (·.2))
  relations_perm : ∀ config, (relations config).Perm (config.relations.entries.map (·.2))

/-- Latest insertion first. -/
def MapListing.latestFirst : MapListing where
  namespaces configs := configs.entries.map (·.2)
  relations config := config.relations.entries.map (·.2)
  namespaces_perm _ := .refl _
  relations_perm _ := .refl _

def ofDomainError {α : Type} (x : Except DomainError α) : Except ZanzibarError α :=
  x.mapError .domain

def ofSchemaError {α : Type} (x : Except SchemaError α) : Except ZanzibarError α :=
  x.mapError .schema

def ofStoreError {α : Type} (x : Except StoreError α) : Except ZanzibarError α :=
  x.mapError .store

mutual

def compileLegacyExpression : LegacyUsersetExpression → Except ZanzibarError UsersetExpression
  | .this => .ok .this
  | .computedUserset relation => do
      let relation ← ofDomainError (RelationName.tryFrom relation)
      return .computedUserset relation
  | .tupleToUserset tuplesetRelation computedUsersetRelation => do
      let tuplesetRelation ← ofDomainError (RelationName.tryFrom tuplesetRelation)
      let computedUsersetRelation ← ofDomainError (RelationName.tryFrom computedUsersetRelation)
      return .tupleToUserset tuplesetRelation computedUsersetRelation
  | .union expressions => do
      let expressions ← compileLegacyExpressions expressions
      return .union expressions
  | .intersection expressions => do
      let expressions ← compileLegacyExpressions expressions
      return .intersection expressions
  | .exclusion base exclude => do
      let base ← compileLegacyExpression base
      let exclude ← compileLegacyExpression exclude
      return .exclusion base exclude

def compileLegacyExpressions :
    List LegacyUsersetExpression → Except ZanzibarError (List UsersetExpression)
  | [] => .ok []
  | expression :: rest => do
      let compiled ← compileLegacyExpression expression
      let compiledRest ← compileLegacyExpressions rest
      return compiled :: compiledRest

end

def compileLegacyRewrite :
    Option LegacyUsersetExpression → Except ZanzibarError (Option UsersetExpression)
  | none => .ok none
  | some expression => do
      let compiled ← compileLegacyExpression expression
      return some compiled

def compileLegacyRelation (relation : RelationConfig) :
    Except ZanzibarError RelationDefinition := do
  let name ← ofDomainError (RelationName.tryFrom relation.name)
  let rewrite ← compileLegacyRewrite relation.usersetRewrite
  return .new name rewrite

def compileLegacyNamespace (listing : MapListing) (config : NamespaceConfig) :
    Except ZanzibarError NamespaceDefinition := do
  let relations ← (listing.relations config).mapM compileLegacyRelation
  let name ← ofDomainError (Identifier.new .objectType config.name)
  return ⟨name, relations⟩

def compileLegacyConfigs (listing : MapListing) (configs : List NamespaceConfig) :
    Except ZanzibarError CompiledSchema := do
  let definitions ← configs.mapM (compileLegacyNamespace listing)
  ofSchemaError (CompiledSchema.fromDefinitions definitions)

/-- A revision of the engine. -/
structure Revision where
  get : Nat
  pos : 0 < get
  lt : get < 2 ^ 64

namespace Revision

def first : Revision := ⟨1, Nat.one_pos, by decide⟩

def next (revision : Revision) : Except ZanzibarError Revision :=
  if h : revision.get + 1 < 2 ^ 64 then .ok ⟨revision.get + 1, Nat.succ_pos _, h⟩
  else .error .revisionOverflow

end Revision

structure WriterState where
  configs : NamespaceConfigs
  schema : Option CompiledSchema
  relationships : RelationshipStoreView
  lastRevision : Option Revision

def validateSubjectFilter (schema : CompiledSchema) (filter : SubjectFilter) :
    Except ZanzibarError Unit :=
  match filter.optionalRelation with
  | none => .ok ()
  | some relation => do
      let objectType ← ofDomainError (Identifier.new .objectType filter.subjectType.value)
      let _ ← ofSchemaError (schema.resolver.relation objectType relation)
      return ()

def validateRelationshipFilter (schema : CompiledSchema) (filter : RelationshipFilter) :
    Except ZanzibarError Unit := do
  let _ ← ofSchemaError (schema.resolver.findNamespace filter.resourceType)
  match filter.optionalRelation with
  | some relation =>
      let _ ← ofSchemaError (schema.resolver.relation filter.resourceType relation)
  | none => .ok ()
  match filter.optionalSubject with
  | some subject => validateSubjectFilter schema subject
  | none => .ok ()

def validatePreconditionFilter (schema : CompiledSchema) :
    Precondition → Except ZanzibarError Unit
  | .mustMatch filter => validateRelationshipFilter schema filter
  | .mustNotMatch filter => validateRelationshipFilter schema filter

def policyImportBatchSize : Nat := 10000

namespace WriterState

def new : WriterState :=
  ⟨∅, none, .default, none⟩

/-- The snapshot that readers see, once a schema was loaded. -/
def published (state : WriterState) : Option PublishedSnapshot :=
  state.schema.map (fun schema => ⟨schema, state.relationships⟩)

def nextRevision (state : WriterState) : Except ZanzibarError Revision :=
  match state.lastRevision with
  | some revision => revision.next
  | none => .ok .first

def publishSnapshot (state : WriterState) (configs : NamespaceConfigs)
    (schema : CompiledSchema) (relationships : RelationshipStoreView) :
    Except ZanzibarError WriterState := do
  let revision ← state.nextRevision
  return ⟨configs, some schema, relationships, some revision⟩

section Hashed

variable [StoreHasher]

/-- Validates a relationship and enters it into the store that is rebuilt. -/
def revalidateRelationship (schema : CompiledSchema) (relationship : Relationship) :
    Action IndexedRelationshipStore ZanzibarError Unit := fun store =>
  match ofSchemaError (schema.validateRelationship relationship) with
  | .error error => (.error error, store)
  | .ok () =>
      match IndexedRelationshipStore.applyMutations [.touch relationship] [] store with
      | (.ok (), store) => (.ok (), store)
      | (.error error, store) => (.error (.store error), store)

def revalidateRelationshipStore (state : WriterState) (schema : CompiledSchema) :
    Except ZanzibarError RelationshipStoreView := do
  let relationships ←
    (Action.forEach (revalidateRelationship schema) state.relationships.rows).exec .default
  return .fromCheckpoint relationships

def relationshipStoreForSchema (state : WriterState) (schema : CompiledSchema) :
    Except ZanzibarError RelationshipStoreView :=
  if state.schema.isSome then state.revalidateRelationshipStore schema
  else .ok .default

/-- Compiles the configurations, in the order in which their map lists them, and publishes
the schema. -/
def publishConfigs (state : WriterState) (listing : MapListing) (configs : NamespaceConfigs) :
    Except ZanzibarError WriterState := do
  let schema ← compileLegacyConfigs listing (listing.namespaces configs)
  let relationships ← state.relationshipStoreForSchema schema
  state.publishSnapshot configs schema relationships

/-- Adds or replaces namespaces one after the other. -/
def insertConfigs (configs : NamespaceConfigs) (added : List NamespaceConfig) :
    NamespaceConfigs :=
  added.foldl (fun configs config => configs.insert config.name config) configs

def applyNamespaceConfigs (state : WriterState) (listing : MapListing)
    (configs : List NamespaceConfig) :
    Except ZanzibarError WriterState :=
  state.publishConfigs listing (insertConfigs state.configs configs)

def replaceNamespaceConfigs (state : WriterState) (listing : MapListing)
    (configs : List NamespaceConfig) :
    Except ZanzibarError WriterState :=
  state.publishConfigs listing (insertConfigs ∅ configs)

def deleteNamespace (state : WriterState) (listing : MapListing) (namespaceName : String) :
    Except ZanzibarError WriterState := do
  let _ ← ofDomainError (Identifier.new .objectType namespaceName)
  match state.configs.lookup namespaceName with
  | none => .error (.namespaceNotFound namespaceName)
  | some _ => state.publishConfigs listing (state.configs.erase namespaceName)

def deleteRelation (state : WriterState) (listing : MapListing) (namespaceName relation : String) :
    Except ZanzibarError WriterState := do
  let _ ← ofDomainError (Identifier.new .objectType namespaceName)
  let _ ← ofDomainError (Identifier.new .relationName relation)
  match state.configs.lookup namespaceName with
  | none => .error (.namespaceNotFound namespaceName)
  | some config =>
      match config.relations.lookup ⟨relation⟩ with
      | none => .error (.relationNotFound relation namespaceName)
      | some _ =>
          state.publishConfigs listing (state.configs.insert namespaceName
            { config with relations := config.relations.erase ⟨relation⟩ })

def applyRelationshipMutations (state : WriterState) (mutations : List RelationshipMutation)
    (preconditions : List Precondition) : Except ZanzibarError WriterState :=
  match state.schema with
  | none => .error .schemaRequired
  | some schema => do
      mutations.forM (fun mutation =>
        ofSchemaError (schema.validateRelationship mutation.relationship))
      preconditions.forM (validatePreconditionFilter schema)
      let relationships ←
        ofStoreError (state.relationships.applyMutations mutations preconditions)
      state.publishSnapshot state.configs schema relationships

/-- Creates relationships in batches of the import size. -/
def importRelationships (state : WriterState) (relationships : List Relationship) :
    Except ZanzibarError WriterState :=
  if _ : relationships = [] then .ok state
  else do
    let batch := relationships.take policyImportBatchSize
    let state ← state.applyRelationshipMutations (batch.map .create) []
    state.importRelationships (relationships.drop policyImportBatchSize)
termination_by relationships.length
decreasing_by
  have hpos : 0 < relationships.length := List.length_pos_iff.mpr ‹¬relationships = []›
  have hsize : 0 < policyImportBatchSize := by decide
  rw [List.length_drop]
  omega

/-- Builds the state of a policy text from scratch; only the revision counter is kept. -/
def applyPolicyText (state : WriterState) (listing : MapListing)
    (configs : List NamespaceConfig) (relationships : List Relationship) :
    Except ZanzibarError WriterState := do
  let candidate : WriterState := { new with lastRevision := state.lastRevision }
  let candidate ← candidate.replaceNamespaceConfigs listing configs
  candidate.importRelationships relationships

end Hashed

end WriterState

inductive WriterCommand where
  | applyRelationshipMutations (mutations : List RelationshipMutation)
      (preconditions : List Precondition)
  | applyNamespaceConfigs (configs : List NamespaceConfig)
  | replaceNamespaceConfigs (configs : List NamespaceConfig)
  | deleteNamespace (namespaceName : String)
  | deleteRelation (namespaceName relation : String)
  | applyPolicyText (configs : List NamespaceConfig) (relationships : List Relationship)

def WriterCommand.run [StoreHasher] (listing : MapListing) (state : WriterState) :
    WriterCommand → Except ZanzibarError WriterState
  | .applyRelationshipMutations mutations preconditions =>
      state.applyRelationshipMutations mutations preconditions
  | .applyNamespaceConfigs configs => state.applyNamespaceConfigs listing configs
  | .replaceNamespaceConfigs configs => state.replaceNamespaceConfigs listing configs
  | .deleteNamespace namespaceName => state.deleteNamespace listing namespaceName
  | .deleteRelation namespaceName relation =>
      state.deleteRelation listing namespaceName relation
  | .applyPolicyText configs relationships =>
      state.applyPolicyText listing configs relationships

/-- Runs commands one after the other, up to the first that fails. -/
def WriterCommand.runAll [StoreHasher] (listing : MapListing) :
    List WriterCommand → WriterState → Except ZanzibarError WriterState
  | [], state => .ok state
  | command :: rest, state => do
      let state ← command.run listing state
      runAll listing rest state

/-- A namespace configuration of relations with distinct names. -/
def NamespaceConfig.ofRelations (name : String)
    (relations : List (String × Option LegacyUsersetExpression)) : NamespaceConfig :=
  ⟨name, relations.foldr (fun relation configs =>
    configs.insert ⟨relation.1⟩ ⟨⟨relation.1⟩, relation.2⟩) ∅⟩

/-- The configuration that the text of a namespace is read as: the relations in the order of
their names, each under its own name. -/
def NamespaceConfig.refiled (listing : MapListing) (config : NamespaceConfig) : NamespaceConfig :=
  ⟨config.name, (sortByName (·.name.name) (listing.relations config)).foldl
    (fun relations relation => relations.insert relation.name relation) ∅⟩

/-- The configurations that the text of a schema is read as, in its order. -/
def NamespaceConfigs.refiled (listing : MapListing) (configs : NamespaceConfigs) :
    List NamespaceConfig :=
  (sortByName (·.name) (listing.namespaces configs)).map (.refiled listing)

/-- A snapshot file.  The schema text is kept as the configurations that it is read as. -/
structure SnapshotFile where
  schemaConfigs : List NamespaceConfig
  createdRevision : Revision
  sections : SnapshotSections

structure SnapshotLoadOptions where
  profile : SnapshotLoadProfile
  validation : SnapshotValidationMode
  requiredIndexProfile : IndexProfile

inductive SnapshotFileError where
  | io (error : SnapshotIoError)
  | schema (error : ZanzibarError)

namespace SnapshotFile

def validateLoadOptions (options : SnapshotLoadOptions) : Except SnapshotIoError Unit :=
  if options.validation = .trustedFastLoad ∧ options.profile ≠ .fastLoad then
    .error (.unsupportedOption "trusted validation with latency profile")
  else .ok ()

section Hashed

variable [StoreHasher]

/-- Writes the published snapshot of an engine. -/
def save (state : WriterState) (listing : MapListing) (indexProfile : IndexProfile) :
    Except SnapshotIoError SnapshotFile :=
  match state.schema, state.lastRevision with
  | some _, some revision => do
      let sections ←
        (state.relationships.encodeSnapshotSections indexProfile).mapError .store
      return ⟨state.configs.refiled listing, revision, sections⟩
  | _, _ => .error (.format "schema snapshot is required before saving")

/-- The state of an engine that starts from a file. -/
def load (file : SnapshotFile) (listing : MapListing) (options : SnapshotLoadOptions) :
    Except SnapshotFileError WriterState := do
  (validateLoadOptions options).mapError .io
  if !file.sections.indexProfile.satisfies options.requiredIndexProfile then
    .error (.io (.unsupportedOption
      "snapshot index profile does not satisfy load requirements"))
  let schema ← (compileLegacyConfigs listing file.schemaConfigs).mapError .schema
  let relationships ← (RelationshipStoreView.decodeSnapshotSections file.sections
    options.profile options.validation).mapError .io
  return ⟨WriterState.insertConfigs ∅ file.schemaConfigs, some schema, relationships,
    some file.createdRevision⟩

end Hashed

end SnapshotFile

/-- The states of engines that start empty or from a saved file. -/
inductive WriterReachable [StoreHasher] : WriterState → Prop where
  | new : WriterReachable .new
  | command {state next : WriterState} (listing : MapListing) (command : WriterCommand) :
      WriterReachable state → command.run listing state = .ok next → WriterReachable next
  | load {state loaded : WriterState} {indexProfile : IndexProfile} {file : SnapshotFile}
      {options : SnapshotLoadOptions} (listing listing' : MapListing) :
      WriterReachable state → SnapshotFile.save state listing indexProfile = .ok file →
      file.load listing' options = .ok loaded → WriterReachable loaded

end SimpleZanzibar
