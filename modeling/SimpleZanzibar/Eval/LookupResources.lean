import Mathlib.Data.List.Sort
import SimpleZanzibar.Eval.LookupPlan

/-!
# Lookup of resources

`lookup_resources` walks the stored rows backwards from the subject: every row of a frontier
subject offers its resource as a candidate and puts the userset of its resource and relation
on the frontier.  Rows of relations that the producer plan does not list are pruned.  Rewrites
are followed backwards by schema analyses, one for relations of the same object and one for
tuple-to-userset edges whose stored relation is ignored.
-/

namespace SimpleZanzibar

structure LookupResourcesRequest where
  subject : User
  permission : Relation
  resourceType : String

structure LookupFrontierEntry where
  subject : User
  proof : LookupSubjectProof

def lookupPlannerSampleRelationships : Nat := 64

def lookupPlannerMinPruneBps : Nat := 500

structure LookupProducerRuntime where
  enabled : Bool
  sampledRelationships : Nat
  prunedRelationships : Nat

namespace LookupProducerRuntime

def new (enabled : Bool) : LookupProducerRuntime := ⟨enabled, 0, 0⟩

/-- Counts a row of the sample; the pruning ends with a sample that pruned too little. -/
def recordSample (runtime : LookupProducerRuntime) (shouldPrune : Bool) :
    LookupProducerRuntime :=
  if lookupPlannerSampleRelationships ≤ runtime.sampledRelationships then runtime
  else
    let sampled := min (runtime.sampledRelationships + 1) u32Max
    let pruned :=
      if shouldPrune then min (runtime.prunedRelationships + 1) u32Max
      else runtime.prunedRelationships
    { enabled := runtime.enabled &&
        !(decide (sampled = lookupPlannerSampleRelationships) &&
          decide (min (pruned * 10000) u32Max < min (lookupPlannerMinPruneBps * sampled) u32Max))
      sampledRelationships := sampled
      prunedRelationships := pruned }

def shouldPrune (runtime : LookupProducerRuntime) (plan : LookupProducerPlan)
    (relationship : RelationshipRef) : Bool × LookupProducerRuntime :=
  if !runtime.enabled then (false, runtime)
  else
    let shouldPrune := !plan.allowsRelationship relationship
    (shouldPrune, runtime.recordSample shouldPrune)

end LookupProducerRuntime

structure SameObjectRelationExpansion where
  objectType : ObjectType
  sourceRelation : RelationName
  targetRelations : List RelationName

structure TupleToUsersetExpansionTarget where
  resourceType : ObjectType
  tuplesetRelation : RelationName
  computedRelation : RelationName
  targetRelation : RelationName

structure TupleToUsersetRelationExpansion where
  objectType : ObjectType
  sourceRelation : RelationName
  targets : List TupleToUsersetExpansionTarget

/-- The relations of a namespace in the order of their names. -/
def SchemaResolver.sortedRelations (resolver : SchemaResolver) (objectType : ObjectType) :
    Except SchemaError (List RelationDefinition) := do
  let definition ← resolver.findNamespace objectType
  return definition.relations.insertionSort (fun left right => left.name.value ≤ right.name.value)

namespace CompiledSchema

section Inclusion

variable (sourceRelation : RelationName)
  (visit : List SchemaRelationId → SchemaRelationId → Except ZanzibarError Bool)

mutual

/-- Whether membership in the source relation can grant the rewrite on the same object. -/
def expressionCanIncludeSameObjectRelation (visiting : List SchemaRelationId)
    (currentRelation : RelationName) : CompiledUsersetExpression → Except ZanzibarError Bool
  | .this => .ok (decide (currentRelation = sourceRelation))
  | .computedUserset relation relationId targetHasRewrite =>
      if relation = sourceRelation then .ok true
      else if !targetHasRewrite then .ok false
      else visit visiting relationId
  | .union expressions => someCanIncludeSameObjectRelation visiting currentRelation expressions
  | .intersection expressions =>
      someCanIncludeSameObjectRelation visiting currentRelation expressions
  | .exclusion base _ => expressionCanIncludeSameObjectRelation visiting currentRelation base
  | .tupleToUserset _ _ _ => .ok false

def someCanIncludeSameObjectRelation (visiting : List SchemaRelationId)
    (currentRelation : RelationName) :
    List CompiledUsersetExpression → Except ZanzibarError Bool
  | [] => .ok false
  | expression :: rest => do
      let included ← expressionCanIncludeSameObjectRelation visiting currentRelation expression
      if included then return true
      else someCanIncludeSameObjectRelation visiting currentRelation rest

end

end Inclusion

/-- The same of a relation.  The relations that are being visited differ, so that the fuel
lasts when it exceeds the number of relations. -/
def relationIdCanIncludeSameObjectRelation (schema : CompiledSchema)
    (sourceRelation : RelationName) :
    Nat → List SchemaRelationId → SchemaRelationId → Except ZanzibarError Bool
  | 0, _, _ => .error compiledSchemaInvariantError
  | fuel + 1, visiting, relationId =>
      if relationId ∈ visiting then .ok false
      else
        match schema.resolver.relationById relationId with
        | none => .error compiledSchemaInvariantError
        | some definition =>
            match definition.compiledUsersetRewrite with
            | none => .ok false
            | some expression =>
                expressionCanIncludeSameObjectRelation sourceRelation
                  (schema.relationIdCanIncludeSameObjectRelation sourceRelation fuel)
                  (relationId :: visiting) definition.name expression

/-- The other relations of the object that the source relation can grant. -/
def includingRelations (schema : CompiledSchema) (objectType : ObjectType)
    (sourceRelation : RelationName) :
    List RelationDefinition → Except ZanzibarError (List RelationName)
  | [] => .ok []
  | definition :: rest =>
      if definition.name = sourceRelation then
        schema.includingRelations objectType sourceRelation rest
      else do
        let relationId ← (schema.resolver.relationId objectType definition.name).mapError .schema
        let included ← schema.relationIdCanIncludeSameObjectRelation sourceRelation
          (schema.relationCount + 1) [] relationId
        let others ← schema.includingRelations objectType sourceRelation rest
        return if included then definition.name :: others else others

def computeSameObjectRelationExpansions (schema : CompiledSchema) (objectType : ObjectType)
    (sourceRelation : RelationName) : Except ZanzibarError (List RelationName) := do
  let relations ← (schema.resolver.sortedRelations objectType).mapError .schema
  schema.includingRelations objectType sourceRelation relations

def relationNameCanIncludeSameObjectRelation (schema : CompiledSchema) (objectType : ObjectType)
    (relation sourceRelation : RelationName) : Except ZanzibarError Bool :=
  if relation = sourceRelation then .ok true
  else
    match schema.resolver.relationId objectType relation with
    | .error _ => .ok false
    | .ok relationId =>
        schema.relationIdCanIncludeSameObjectRelation sourceRelation (schema.relationCount + 1) []
          relationId

section Tuplesets

variable (schema : CompiledSchema) (ownerObjectType : ObjectType) (ownerRelation : RelationName)
  (intermediateType : ObjectType) (sourceRelation : RelationName)
  (visit : List SchemaRelationId → SchemaRelationId →
    Except ZanzibarError (List TupleToUsersetExpansionTarget))

mutual

/-- The tuple-to-userset edges of a rewrite that the source relation of an intermediate object
can grant. -/
def collectTupleToUsersetExpressionExpansions (visiting : List SchemaRelationId) :
    CompiledUsersetExpression → Except ZanzibarError (List TupleToUsersetExpansionTarget)
  | .this => .ok []
  | .computedUserset _ relationId targetHasRewrite =>
      if !targetHasRewrite || decide (relationId ∈ visiting) then .ok []
      else visit (relationId :: visiting) relationId
  | .tupleToUserset tuplesetRelation _ computedUsersetRelation => do
      let included ← schema.relationNameCanIncludeSameObjectRelation intermediateType
        computedUsersetRelation sourceRelation
      return if included then
        [⟨ownerObjectType, tuplesetRelation, computedUsersetRelation, ownerRelation⟩] else []
  | .union expressions => collectTupleToUsersetExpansions visiting expressions
  | .intersection expressions => collectTupleToUsersetExpansions visiting expressions
  | .exclusion base _ => collectTupleToUsersetExpressionExpansions visiting base

def collectTupleToUsersetExpansions (visiting : List SchemaRelationId) :
    List CompiledUsersetExpression → Except ZanzibarError (List TupleToUsersetExpansionTarget)
  | [] => .ok []
  | expression :: rest => do
      let targets ← collectTupleToUsersetExpressionExpansions visiting expression
      let restTargets ← collectTupleToUsersetExpansions visiting rest
      return targets ++ restTargets

end

end Tuplesets

/-- The edges of a computed relation.  The relations that are being visited differ, so that
the fuel lasts when it is the number of relations. -/
def visitTupleToUsersetRelation (schema : CompiledSchema) (ownerObjectType : ObjectType)
    (ownerRelation : RelationName) (intermediateType : ObjectType)
    (sourceRelation : RelationName) :
    Nat → List SchemaRelationId → SchemaRelationId →
      Except ZanzibarError (List TupleToUsersetExpansionTarget)
  | 0, _, _ => .error compiledSchemaInvariantError
  | fuel + 1, visiting, relationId =>
      match schema.resolver.relationById relationId with
      | none => .error compiledSchemaInvariantError
      | some definition =>
          match definition.compiledUsersetRewrite with
          | none => .ok []
          | some expression =>
              schema.collectTupleToUsersetExpressionExpansions ownerObjectType ownerRelation
                intermediateType sourceRelation
                (schema.visitTupleToUsersetRelation ownerObjectType ownerRelation
                  intermediateType sourceRelation fuel)
                visiting expression

def collectTupleToUsersetRelationExpansions (schema : CompiledSchema)
    (ownerObjectType : ObjectType) (intermediateType : ObjectType)
    (sourceRelation : RelationName) (definition : RelationDefinition) :
    Except ZanzibarError (List TupleToUsersetExpansionTarget) :=
  match definition.compiledUsersetRewrite with
  | none => .ok []
  | some expression =>
      schema.collectTupleToUsersetExpressionExpansions ownerObjectType definition.name
        intermediateType sourceRelation
        (schema.visitTupleToUsersetRelation ownerObjectType definition.name intermediateType
          sourceRelation schema.relationCount)
        [] expression

def computeTupleToUsersetRelationExpansions (schema : CompiledSchema) (objectType : ObjectType)
    (sourceRelation : RelationName) :
    Except ZanzibarError (List TupleToUsersetExpansionTarget) := do
  let targets ← schema.definitions.mapM (fun definition => do
    let targets ← definition.relations.mapM
      (schema.collectTupleToUsersetRelationExpansions definition.name objectType sourceRelation)
    return targets.flatten)
  return targets.flatten

end CompiledSchema

/-- What a lookup knows of its request. -/
structure ResourceLookup where
  snapshot : PublishedSnapshot
  request : LookupResourcesRequest
  limits : EvaluationLimits
  resourceType : ObjectType
  resourceSubjectType : SubjectType
  producerPlan : Option LookupProducerPlan

/-- The state of a walk.  `resources` is in the order of reporting. -/
structure LookupWalk where
  frontier : List LookupFrontierEntry
  visitedSubjects : Finset User
  seen : Finset Object
  resources : List Object
  producerRuntime : LookupProducerRuntime
  prunedRelationHasDownstream : List (RelationName × Bool)
  relationExpansions : List SameObjectRelationExpansion
  tupleRelationExpansions : List TupleToUsersetRelationExpansion
  checkContext : EvaluationContext

/-- A step of the walk. -/
abbrev Walking := Action LookupWalk ZanzibarError

namespace Evaluation

variable [StoreHasher]

/-- Evaluates the residual operands in turn; the first that differs from what is expected
denies. -/
def verifyLookupResidualsEntered (nested : Nested) (object : Object) (user : User) :
    List LookupResidualCheck → Evaluation Membership
  | [] => return .allowed
  | residual :: rest => do
      let result ← evalCompiledSchemaExpression nested object residual.relationContext user
        residual.expression
      match residual.expected with
      | .allowed =>
          if result ≠ .allowed then return .denied
          else verifyLookupResidualsEntered nested object user rest
      | .denied =>
          if result = .allowed then return .denied
          else verifyLookupResidualsEntered nested object user rest

/-- Evaluates residual operands under the key of the permission. -/
def verifyLookupResiduals (object : Object) (rootRelation : RelationName) (user : User)
    (residuals : List LookupResidualCheck) : Evaluation Membership := do
  let context ← Action.get
  evaluateCheckKey (CheckKey.fromRelationName context.snapshot object rootRelation user)
    (verifyLookupResidualsEntered (checkNested user context.remainingDepth) object user residuals)

/-- Whether a candidate is a resource of the request. -/
def verifyLookupResourceCandidate (object : Object) (request : LookupResourcesRequest) :
    LookupCandidateVerification → Evaluation Bool
  | .fullRoot => do
      Action.modify EvaluationContext.resetForReuse
      let membership ← check object request.permission request.subject
      return membership.isAllowed
  | .provenWithoutCheck => return true
  | .residual residuals => do
      Action.modify EvaluationContext.resetForReuse
      let rootRelation ← ofDomain (RelationName.tryFrom request.permission)
      let membership ← verifyLookupResiduals object rootRelation request.subject residuals
      return membership.isAllowed

end Evaluation

namespace ResourceLookup

/-- A direct row of the relation is a proof of membership in it. -/
def relationDirectRowIsExactProof (schema : CompiledSchema) (objectType : ObjectType)
    (relation : RelationName) : Except ZanzibarError Bool := do
  let definition ← (schema.resolver.relation objectType relation).mapError .schema
  return match definition.compiledUsersetRewrite with
    | none => true
    | some .this => true
    | some _ => false

def lookupRelationshipProof (schema : CompiledSchema) (relationship : RelationshipRef)
    (frontierProof : LookupSubjectProof) (object : Object) :
    Except ZanzibarError LookupSubjectProof :=
  if !frontierProof.exact || decide (0 < frontierProof.directDepth) then .ok .inexact
  else do
    let objectType ← (Identifier.new .objectType object.namespaceName).mapError .domain
    let relation ← (Identifier.new .relationName relationship.relationNameStr).mapError .domain
    let isExact ← relationDirectRowIsExactProof schema objectType relation
    return if isExact then frontierProof.nextExact else .inexact

section Walks

variable [StoreHasher] (lookup : ResourceLookup)

/-- Puts a new subject on the frontier. -/
def followSubject (subject : User) (proof : LookupSubjectProof) : Walking Unit :=
  Action.modify (fun walk =>
    if subject ∈ walk.visitedSubjects then walk
    else
      { walk with
        visitedSubjects := insert subject walk.visitedSubjects
        frontier := walk.frontier ++ [⟨subject, proof⟩] })

/-- Remembers a candidate; whether it is new. -/
def insertSeen (object : Object) : Walking Bool := do
  let walk ← Action.get
  Action.set { walk with seen := insert object walk.seen }
  return decide (object ∉ walk.seen)

/-- Verifies a new candidate and reports it; whether enough resources are reported. -/
def verifyCandidate (object : Object) (verification : LookupCandidateVerification) :
    Walking Bool := do
  let allowed ← Action.zoom (·.checkContext)
    (fun context walk => { walk with checkContext := context })
    (Evaluation.verifyLookupResourceCandidate object lookup.request verification)
  if allowed then do
    Action.modify (fun walk => { walk with resources := walk.resources ++ [object] })
    let walk ← Action.get
    return lookupResultLimitReached walk.resources.length lookup.limits
  else return false

/-- Whether some row has a subject of the resource type on the pruned relation, computed once
for each relation. -/
def prunedRelationMayHaveDownstream (relationNameStr : String) : Walking Bool := do
  let walk ← Action.get
  match walk.prunedRelationHasDownstream.find? (fun known =>
      decide (known.1.value = relationNameStr)) with
  | some known => return known.2
  | none => do
      let relationName ← Action.lift
        ((Identifier.new .relationName relationNameStr).mapError .domain)
      let hasDownstream := lookup.snapshot.relationships.hasReverseSubjectCandidates
        ⟨lookup.resourceSubjectType, none, some relationName⟩
      Action.set
        { walk with
          prunedRelationHasDownstream :=
            walk.prunedRelationHasDownstream ++ [(relationName, hasDownstream)] }
      return hasDownstream

/-- Whether the row of a resource of the requested type is pruned. -/
def pruneRelationship (relationship : RelationshipRef) : Walking Bool := do
  let walk ← Action.get
  match lookup.producerPlan with
  | none => return false
  | some plan => do
      let (shouldPrune, runtime) := walk.producerRuntime.shouldPrune plan relationship
      Action.set { walk with producerRuntime := runtime }
      return shouldPrune

def verificationFor (relationship : RelationshipRef) (proof : LookupSubjectProof) :
    LookupCandidateVerification :=
  match lookup.producerPlan with
  | none => .fullRoot
  | some plan => plan.verificationForRelationship relationship proof lookup.limits

/-- Offers the resource of a row that is not pruned. -/
def offerRelationship (relationship : RelationshipRef) (object : Object)
    (proof : LookupSubjectProof) (offered : Bool) : Walking Bool :=
  if offered then do
    let isNew ← insertSeen object
    if isNew then lookup.verifyCandidate object (lookup.verificationFor relationship proof)
    else return false
  else return false

/-- Follows the userset of a row, a pruned one only where some row may have it as subject. -/
def followRelationship (relationship : RelationshipRef) (object : Object)
    (proof : LookupSubjectProof) (pruned : Bool) : Walking Unit := do
  let usersetSubject := User.userset object ⟨relationship.relationNameStr⟩
  if pruned then do
    let usersetFilter ← Action.lift ((SubjectFilter.tryFrom usersetSubject).mapError .domain)
    if lookup.snapshot.relationships.hasReverseSubjectCandidates usersetFilter then
      followSubject usersetSubject proof
    else return ()
  else followSubject usersetSubject proof

/-- Processes a row of a frontier subject; whether enough resources are reported. -/
def processLookupResourcesRelationship (entry : LookupFrontierEntry)
    (relationship : RelationshipRef) : Walking Bool := do
  let resourceTypeMatches := relationship.resourceTypeEq lookup.resourceType
  let shouldPrune ← (if resourceTypeMatches then lookup.pruneRelationship relationship
    else return false)
  let mayHaveDownstream ← (if shouldPrune then
      lookup.prunedRelationMayHaveDownstream relationship.relationNameStr
    else return true)
  if !mayHaveDownstream then return false
  else do
    let object := relationship.resourceObjectLegacy
    let relationshipProof ← Action.lift
      (lookupRelationshipProof lookup.snapshot.schema relationship entry.proof object)
    let reached ← lookup.offerRelationship relationship object relationshipProof
      (resourceTypeMatches && !shouldPrune)
    if reached then return true
    else do
      lookup.followRelationship relationship object relationshipProof shouldPrune
      return false

/-- Processes the rows of a frontier subject in turn. -/
def processRows (entry : LookupFrontierEntry) : List RelationshipRef → Walking Bool
  | [] => return false
  | relationship :: rest => do
      let reached ← lookup.processLookupResourcesRelationship entry relationship
      if reached then return true else processRows entry rest

/-- The relations of the same object that a relation can grant, computed once. -/
def sameObjectRelationExpansions (objectType : ObjectType) (sourceRelation : RelationName) :
    Walking (List RelationName) := do
  let walk ← Action.get
  match walk.relationExpansions.find? (fun expansion =>
      decide (expansion.objectType = objectType) &&
        decide (expansion.sourceRelation = sourceRelation)) with
  | some expansion => return expansion.targetRelations
  | none => do
      let targetRelations ← Action.lift
        (lookup.snapshot.schema.computeSameObjectRelationExpansions objectType sourceRelation)
      Action.set
        { walk with
          relationExpansions :=
            walk.relationExpansions ++ [⟨objectType, sourceRelation, targetRelations⟩] }
      return targetRelations

/-- Follows an expanded subject where some row may have it as subject. -/
def followExpanded (subject : User) : Walking Unit := do
  let subjectFilter ← Action.lift ((SubjectFilter.tryFrom subject).mapError .domain)
  if lookup.snapshot.relationships.hasReverseSubjectCandidates subjectFilter then
    followSubject subject .inexact
  else return ()

def enqueueSameObjectRelationExpansions : User → Walking Unit
  | .userId _ => return ()
  | .userset object relation => do
      let objectType ← Action.lift
        ((Identifier.new .objectType object.namespaceName).mapError .domain)
      let sourceRelation ← Action.lift
        ((Identifier.new .relationName relation.name).mapError .domain)
      let targetRelations ← lookup.sameObjectRelationExpansions objectType sourceRelation
      Action.forEach (fun targetRelation : RelationName =>
        lookup.followExpanded (.userset object ⟨targetRelation.value⟩)) targetRelations

/-- The tuple-to-userset edges that a relation can grant, computed once. -/
def tupleToUsersetRelationExpansions (objectType : ObjectType)
    (sourceRelation : RelationName) : Walking (List TupleToUsersetExpansionTarget) := do
  let walk ← Action.get
  match walk.tupleRelationExpansions.find? (fun expansion =>
      decide (expansion.objectType = objectType) &&
        decide (expansion.sourceRelation = sourceRelation)) with
  | some expansion => return expansion.targets
  | none => do
      let targets ← Action.lift
        (lookup.snapshot.schema.computeTupleToUsersetRelationExpansions objectType sourceRelation)
      Action.set
        { walk with
          tupleRelationExpansions :=
            walk.tupleRelationExpansions ++ [⟨objectType, sourceRelation, targets⟩] }
      return targets

/-- The edges whose computed relation is no stored subject of the object. -/
def tupleToUsersetBroadTargets (subjectType : SubjectType) (subjectId : SubjectId)
    (targets : List TupleToUsersetExpansionTarget) : List TupleToUsersetExpansionTarget :=
  targets.filter (fun target =>
    !lookup.snapshot.relationships.hasReverseSubjectCandidates
      (.exact subjectType subjectId (some target.computedRelation)))

/-- Offers the resource of a row for one edge and follows the relation of the edge. -/
def processTarget (relationship : RelationshipRef) (target : TupleToUsersetExpansionTarget) :
    Walking Bool := do
  let candidate := relationship.resourceObjectLegacy
  let reached ← (if relationship.resourceTypeEq lookup.resourceType then do
      let isNew ← insertSeen candidate
      if isNew then lookup.verifyCandidate candidate .fullRoot else return false
    else return false)
  if reached then return true
  else do
    lookup.followExpanded (.userset candidate ⟨target.targetRelation.value⟩)
    return false

/-- The edges of a row in turn. -/
def processTargets (relationship : RelationshipRef) :
    List TupleToUsersetExpansionTarget → Walking Bool
  | [] => return false
  | target :: rest => do
      let reached ← lookup.processTarget relationship target
      if reached then return true else processTargets relationship rest

/-- The rows of an intermediate object in turn, each for the edges of its relation. -/
def processBroadRows (targets : List TupleToUsersetExpansionTarget) :
    List RelationshipRef → Walking Bool
  | [] => return false
  | relationship :: rest => do
      let reached ← lookup.processTargets relationship (targets.filter (fun target =>
        relationship.resourceTypeEq target.resourceType &&
          relationship.relationNameEq target.tuplesetRelation))
      if reached then return true else processBroadRows targets rest

def processTupleToUsersetIgnoredRelationEdges : User → Walking Bool
  | .userId _ => return false
  | .userset object relation => do
      let objectType ← Action.lift
        ((Identifier.new .objectType object.namespaceName).mapError .domain)
      let sourceRelation ← Action.lift
        ((Identifier.new .relationName relation.name).mapError .domain)
      let targets ← lookup.tupleToUsersetRelationExpansions objectType sourceRelation
      let subjectType ← Action.lift
        ((Identifier.new .subjectType object.namespaceName).mapError .domain)
      let subjectId ← Action.lift ((Identifier.new .subjectId object.id).mapError .domain)
      let broadTargets := lookup.tupleToUsersetBroadTargets subjectType subjectId targets
      if broadTargets.isEmpty then return false
      else
        lookup.processBroadRows broadTargets
          (lookup.snapshot.relationships.reverseQueryCompactRelationships
            (.exact subjectType subjectId none))

/-- Processes a frontier subject; whether enough resources are reported. -/
def processEntry (entry : LookupFrontierEntry) : Walking Bool := do
  lookup.enqueueSameObjectRelationExpansions entry.subject
  let subjectFilter ← Action.lift ((SubjectFilter.tryFrom entry.subject).mapError .domain)
  let reached ← lookup.processRows entry
    (lookup.snapshot.relationships.reverseQueryCompactRelationships subjectFilter)
  if reached then return true
  else lookup.processTupleToUsersetIgnoredRelationEdges entry.subject

/-- Processes at most `steps` frontier subjects; whether the walk has ended. -/
def walkFrontier : Nat → Walking Bool
  | 0 => return false
  | steps + 1 => do
      let walk ← Action.get
      match walk.frontier with
      | [] => return true
      | entry :: rest => do
          Action.set { walk with frontier := rest }
          let reached ← lookup.processEntry entry
          if reached then return true else walkFrontier steps

/-- The walk before its first step. -/
def initialWalk (enabled : Bool) : LookupWalk where
  frontier := [⟨lookup.request.subject, .exactRoot⟩]
  visitedSubjects := {lookup.request.subject}
  seen := ∅
  resources := []
  producerRuntime := .new enabled
  prunedRelationHasDownstream := []
  relationExpansions := []
  tupleRelationExpansions := []
  checkContext := .newWithRequestMemo lookup.snapshot lookup.limits

end Walks

end ResourceLookup

/-- Validates a request and plans it. -/
def prepareLookupResources (snapshot : PublishedSnapshot) (request : LookupResourcesRequest)
    (limits : EvaluationLimits) : Except ZanzibarError ResourceLookup := do
  let resourceType ← (Identifier.new .objectType request.resourceType).mapError .domain
  let permission ← (RelationName.tryFrom request.permission).mapError .domain
  let _ ← (snapshot.schema.resolver.relation resourceType permission).mapError .schema
  let producerPlan ← snapshot.schema.lookupProducerPlan resourceType permission
  let resourceSubjectType ← (Identifier.new .subjectType resourceType.value).mapError .domain
  return ⟨snapshot, request, limits, resourceType, resourceSubjectType, producerPlan⟩

/-- The resources of the request that the subject holds the permission on, where the walk ends
within the steps. -/
def lookupResourcesWithSnapshot [StoreHasher] (snapshot : PublishedSnapshot)
    (request : LookupResourcesRequest) (limits : EvaluationLimits) (steps : Nat) :
    Except ZanzibarError (Option (List Object)) := do
  let lookup ← prepareLookupResources snapshot request limits
  match lookup.walkFrontier steps (lookup.initialWalk lookup.producerPlan.isSome) with
  | (.ok true, walk) => .ok (some walk.resources)
  | (.ok false, _) => .ok none
  | (.error error, _) => .error error

end SimpleZanzibar
