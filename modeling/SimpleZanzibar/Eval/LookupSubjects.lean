import SimpleZanzibar.Eval.Expand

/-!
# Lookup of subjects

`lookup_subjects` walks the expansion of the permission and offers every stored subject
to a collector: a candidate is reported at once where the rewrites on the way are plain
unions, and checked on a second context otherwise.
-/

namespace SimpleZanzibar

structure LookupSubjectsRequest where
  resource : Object
  permission : Relation
  subjectType : String

/-- What a stream of candidates has collected.  `subjects` is in the order of reporting. -/
structure LookupSubjectCollector where
  resource : Object
  permission : Relation
  subjectType : SubjectType
  limits : EvaluationLimits
  seenSubjects : Finset User
  seenUsersets : Finset (Object × RelationName)
  subjects : List User
  checkContext : EvaluationContext

def lookupResultLimitReached (currentLength : Nat) (limits : EvaluationLimits) : Bool :=
  decide (limits.maxLookupResults.get ≤ currentLength)

/-- A step of the collector. -/
abbrev Collecting := Action LookupSubjectCollector ZanzibarError

namespace LookupSubjectCollector

def resultLimitReached (collector : LookupSubjectCollector) : Bool :=
  lookupResultLimitReached collector.subjects.length collector.limits

section Collectors

/-- Reports a subject; whether more are wanted. -/
def pushVerifiedSubject (subject : User) : Collecting Bool := do
  Action.modify (fun collector => { collector with subjects := collector.subjects ++ [subject] })
  let collector ← Action.get
  return !collector.resultLimitReached

/-- Remembers a candidate; whether it is new. -/
def insertSubject (subject : User) : Collecting Bool := do
  let collector ← Action.get
  Action.set { collector with seenSubjects := insert subject collector.seenSubjects }
  return decide (subject ∉ collector.seenSubjects)

def insertUserset (object : Object) (relationName : RelationName) : Collecting Bool := do
  let collector ← Action.get
  Action.set
    { collector with seenUsersets := insert (object, relationName) collector.seenUsersets }
  return decide ((object, relationName) ∉ collector.seenUsersets)

variable [StoreHasher]

/-- Checks a candidate on the permission of the request. -/
def verifySubject (subject : User) : Collecting Bool := do
  let collector ← Action.get
  let membership ← Action.zoom (·.checkContext)
    (fun context collector => { collector with checkContext := context })
    (do
      Action.modify EvaluationContext.resetForReuse
      Evaluation.check collector.resource collector.permission subject)
  return membership.isAllowed

/-- Reports a new user, checked first where that is required. -/
def reportUser (subject : User) (verifyCandidate isNew : Bool) : Collecting Unit :=
  if isNew then
    if !verifyCandidate then do
      let _ ← pushVerifiedSubject subject
      return ()
    else do
      let allowed ← verifySubject subject
      if allowed then do
        let _ ← pushVerifiedSubject subject
        return ()
      else return ()
  else return ()

def collectUserCandidate (id : String) (verifyCandidate : Bool) : Collecting Unit := do
  let collector ← Action.get
  if collector.subjectType.value ≠ "user" then return ()
  else do
    let isNew ← insertSubject (.userId id)
    reportUser (.userId id) verifyCandidate isNew

/-- Reports a new userset of the requested type, checked first where that is required; whether
its members are to be walked. -/
def reportUserset (object : Object) (relationName : RelationName)
    (verifyCandidate isNew : Bool) : Collecting Bool :=
  if isNew then
    if !verifyCandidate then pushVerifiedSubject (.userset object ⟨relationName.value⟩)
    else do
      let allowed ← verifySubject (.userset object ⟨relationName.value⟩)
      if allowed then do
        let more ← pushVerifiedSubject (.userset object ⟨relationName.value⟩)
        if !more then return false
        else insertUserset object relationName
      else insertUserset object relationName
  else insertUserset object relationName

/-- Collects a userset; whether its members are to be walked. -/
def collectUsersetCandidate (object : Object) (relationName : RelationName)
    (verifyCandidate : Bool) : Collecting Bool := do
  let collector ← Action.get
  if object.namespaceName = collector.subjectType.value then do
    let isNew ← insertSubject (.userset object ⟨relationName.value⟩)
    reportUserset object relationName verifyCandidate isNew
  else insertUserset object relationName

end Collectors

end LookupSubjectCollector

namespace CompiledSchema

section Expressions

variable (visit : List SchemaRelationId → SchemaRelationId → Except ZanzibarError Bool)

mutual

/-- Whether the candidates of a rewrite have to be checked, with the relations that are
being visited. -/
def expressionRequiresLookupSubjectVerification (visiting : List SchemaRelationId) :
    CompiledUsersetExpression → Except ZanzibarError Bool
  | .this => .ok false
  | .computedUserset _ relationId targetHasRewrite =>
      if !targetHasRewrite then .ok false
      else if relationId ∈ visiting then .ok true
      else visit (relationId :: visiting) relationId
  | .union expressions => someRequiresLookupSubjectVerification visiting expressions
  | .tupleToUserset _ _ _ => .ok true
  | .intersection _ => .ok true
  | .exclusion _ _ => .ok true

def someRequiresLookupSubjectVerification (visiting : List SchemaRelationId) :
    List CompiledUsersetExpression → Except ZanzibarError Bool
  | [] => .ok false
  | expression :: rest => do
      let required ← expressionRequiresLookupSubjectVerification visiting expression
      if required then return true
      else someRequiresLookupSubjectVerification visiting rest

end

end Expressions

/-- Visits the rewrite of a relation.  The relations that are being visited differ, so that
the fuel lasts when it is the number of relations. -/
def visitRelation (schema : CompiledSchema) :
    Nat → List SchemaRelationId → SchemaRelationId → Except ZanzibarError Bool
  | 0, _, _ => .error compiledSchemaInvariantError
  | fuel + 1, visiting, relationId =>
      match schema.resolver.relationById relationId with
      | none => .error compiledSchemaInvariantError
      | some definition =>
          match definition.compiledUsersetRewrite with
          | some expression =>
              expressionRequiresLookupSubjectVerification (schema.visitRelation fuel) visiting
                expression
          | none => .ok false

/-- The number of relations of the schema. -/
def relationCount (schema : CompiledSchema) : Nat :=
  (schema.resolver.definitions.map (·.relations.length)).sum

def relationDefinitionRequiresLookupSubjectVerification (schema : CompiledSchema)
    (definition : RelationDefinition) : Except ZanzibarError Bool :=
  match definition.compiledUsersetRewrite with
  | none => .ok false
  | some expression =>
      expressionRequiresLookupSubjectVerification (schema.visitRelation schema.relationCount) []
        expression

end CompiledSchema

/-- The context of the walk and the collector. -/
structure SubjectStream where
  context : EvaluationContext
  collector : LookupSubjectCollector

/-- A step of the walk. -/
abbrev Streaming := Action SubjectStream ZanzibarError

namespace Streaming

/-- A step of the context. -/
def ofEvaluation {α : Type} (x : Evaluation α) : Streaming α :=
  Action.zoom (·.context) (fun context stream => { stream with context := context }) x

/-- A step of the collector. -/
def ofCollecting {α : Type} (x : Collecting α) : Streaming α :=
  Action.zoom (·.collector) (fun collector stream => { stream with collector := collector }) x

def resultLimitReached : Streaming Bool := do
  let stream ← Action.get
  return stream.collector.resultLimitReached

/-- The walk of nested keys. -/
abbrev NestedStream := Object → RelationName → Bool → Streaming Unit

section Bodies

variable [StoreHasher] (nested : NestedStream)

/-- Offers the subject of a row to the collector and walks a new userset. -/
def streamRow (verifyCandidates : Bool) (ref : RelationshipRef) : Streaming Unit := do
  let subject ← Action.lift ref.subjectUsersetRelationName
  match subject with
  | some (object, relation) => do
      let walk ← ofCollecting
        (LookupSubjectCollector.collectUsersetCandidate object relation verifyCandidates)
      if walk then nested object relation verifyCandidates else return ()
  | none =>
      match ref.directUserSubjectId with
      | some id => ofCollecting (LookupSubjectCollector.collectUserCandidate id verifyCandidates)
      | none => do
          let _ ← Action.lift ref.expandedSubject
          return ()

/-- Offers the rows in turn, until enough subjects are reported. -/
def streamRows (verifyCandidates : Bool) (fanout : Nat) :
    List RelationshipRef → Streaming Unit
  | [] => return ()
  | ref :: rest => do
      let reached ← resultLimitReached
      if reached then return ()
      else do
        let fanout ← ofEvaluation (Evaluation.incrementFanout fanout)
        streamRow nested verifyCandidates ref
        streamRows verifyCandidates fanout rest

def streamLookupSubjectsThis (object : Object) (relationName : RelationName)
    (verifyCandidates : Bool) : Streaming Unit := do
  let resource ← ofEvaluation (Evaluation.ofDomain (ObjectRef.tryFrom object))
  let stream ← Action.get
  streamRows nested verifyCandidates 0
    (stream.context.snapshot.relationships.resourceRelation resource relationName
      stream.context.fanoutQueryLimit)

/-- Walks the computed relation on the userset subjects of the rows. -/
def streamTupleset (computedUsersetRelation : RelationName) (fanout : Nat) :
    List RelationshipRef → Streaming Unit
  | [] => return ()
  | ref :: rest => do
      let reached ← resultLimitReached
      if reached then return ()
      else do
        let subject ← Action.lift ref.subjectUsersetRelationName
        match subject with
        | none => streamTupleset computedUsersetRelation fanout rest
        | some (object, _) => do
            let fanout ← ofEvaluation (Evaluation.incrementFanout fanout)
            nested object computedUsersetRelation true
            streamTupleset computedUsersetRelation fanout rest

def streamTupleToUserset (object : Object) (tuplesetRelationId : SchemaRelationId)
    (computedUsersetRelation : RelationName) : Streaming Unit := do
  let resource ← ofEvaluation (Evaluation.ofDomain (ObjectRef.tryFrom object))
  let tupleset ← ofEvaluation (Evaluation.relationById tuplesetRelationId)
  let stream ← Action.get
  streamTupleset nested computedUsersetRelation 0
    (stream.context.snapshot.relationships.resourceRelation resource tupleset.name
      unboundedQueryLimit)

mutual

def streamLookupSubjectsExpression (object : Object) (relationName : RelationName)
    (verifyCandidates : Bool) (expression : CompiledUsersetExpression) : Streaming Unit := do
  let reached ← resultLimitReached
  if reached then return ()
  else
    match expression with
    | .this => streamLookupSubjectsThis nested object relationName verifyCandidates
    | .computedUserset relation _ _ => nested object relation verifyCandidates
    | .tupleToUserset _ tuplesetRelationId computedUsersetRelation =>
        streamTupleToUserset nested object tuplesetRelationId computedUsersetRelation
    | .union expressions =>
        streamLookupSubjectsExpressions object relationName verifyCandidates expressions
    | .intersection expressions =>
        streamLookupSubjectsExpressions object relationName verifyCandidates expressions
    | .exclusion base _ => streamLookupSubjectsExpression object relationName true base

/-- The operands in turn, until enough subjects are reported. -/
def streamLookupSubjectsExpressions (object : Object) (relationName : RelationName)
    (verifyCandidates : Bool) : List CompiledUsersetExpression → Streaming Unit
  | [] => return ()
  | expression :: rest => do
      streamLookupSubjectsExpression object relationName verifyCandidates expression
      let reached ← resultLimitReached
      if reached then return ()
      else streamLookupSubjectsExpressions object relationName verifyCandidates rest

end

def streamLookupSubjectsRelationEntered (object : Object) (relationName : RelationName)
    (inheritedVerifyCandidates : Bool) : Streaming Unit := do
  let objectType ← ofEvaluation (Evaluation.ofDomain
    (Identifier.new .objectType object.namespaceName))
  let stream ← Action.get
  let schema := stream.context.snapshot.schema
  let definition ← ofEvaluation (Evaluation.ofSchema
    (schema.resolver.relation objectType relationName))
  let required ← (if inheritedVerifyCandidates then return true
    else Action.lift (schema.relationDefinitionRequiresLookupSubjectVerification definition))
  match definition.compiledUsersetRewrite with
  | some expression =>
      streamLookupSubjectsExpression nested object relationName required expression
  | none => streamLookupSubjectsThis nested object relationName required

end Bodies

section Streams

variable [StoreHasher]

/-- Walks a key between opening and closing it, or cuts it. -/
def evaluateStreamKey (key : ExpandKey) (evaluate : Streaming Unit) : Streaming Unit := do
  let reached ← resultLimitReached
  if reached then return ()
  else do
    let stream ← Action.get
    if stream.context.isExpandActive key then return ()
    else do
      ofEvaluation (Evaluation.openExpandKey key)
      let result ← Action.attempt evaluate
      ofEvaluation Evaluation.closeExpandKey
      Action.lift result

/-- Walks a relation of an object.  Every level takes one unit of the remaining depth,
which runs out before the fuel does. -/
def streamLookupSubjectsRelation : Nat → NestedStream
  | 0, object, relationName, _ =>
      evaluateStreamKey ⟨object, relationName⟩
        (Action.throw (.evaluation (.depthExceeded (.expand ⟨object, relationName⟩))))
  | fuel + 1, object, relationName, inheritedVerifyCandidates =>
      evaluateStreamKey ⟨object, relationName⟩
        (streamLookupSubjectsRelationEntered (streamLookupSubjectsRelation fuel) object
          relationName inheritedVerifyCandidates)

end Streams

end Streaming

/-- The subjects of the requested type that hold the permission on the resource. -/
def lookupSubjectsWithSnapshot [StoreHasher] (snapshot : PublishedSnapshot)
    (request : LookupSubjectsRequest) (limits : EvaluationLimits) :
    Except ZanzibarError (List User) := do
  let resource ← (ObjectRef.tryFrom request.resource).mapError .domain
  let permission ← (RelationName.tryFrom request.permission).mapError .domain
  let _ ← (snapshot.schema.resolver.relation resource.objectType permission).mapError .schema
  let subjectType ← (Identifier.new .subjectType request.subjectType).mapError .domain
  if subjectType.value ≠ "user" then
    let objectType ← (Identifier.new .objectType subjectType.value).mapError .domain
    let _ ← (snapshot.schema.resolver.findNamespace objectType).mapError .schema
  let stream : SubjectStream :=
    { context := .new snapshot limits
      collector :=
        { resource := request.resource
          permission := request.permission
          subjectType := subjectType
          limits := limits
          seenSubjects := ∅
          seenUsersets := ∅
          subjects := []
          checkContext := .new snapshot limits } }
  match Streaming.streamLookupSubjectsRelation limits.maxDepth.get request.resource permission
      false stream with
  | (.ok _, stream) => .ok stream.collector.subjects
  | (.error error, _) => .error error

end SimpleZanzibar
