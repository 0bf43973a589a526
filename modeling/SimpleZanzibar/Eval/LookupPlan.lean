import SimpleZanzibar.Eval.LookupSubjects

/-!
# The producer plan of `lookup_resources`

From the rewrite of the permission the planner collects the relations whose rows can lead to
a member, and for each of them how an object with a direct row on it is verified: by a full
check of the permission, not at all, or by the residual operands of the intersections and
exclusions above the relation.
-/

namespace SimpleZanzibar

inductive LookupResidualExpected where
  | allowed
  | denied
deriving DecidableEq

structure LookupResidualCheck where
  relationContext : RelationName
  expression : CompiledUsersetExpression
  expected : LookupResidualExpected
deriving DecidableEq

inductive LookupCandidateVerification where
  | fullRoot
  | provenWithoutCheck
  | residual (residuals : List LookupResidualCheck)
deriving DecidableEq

namespace LookupCandidateVerification

def withResidual (verification : LookupCandidateVerification) (residual : LookupResidualCheck) :
    LookupCandidateVerification :=
  match verification with
  | .fullRoot => .fullRoot
  | .provenWithoutCheck => .residual [residual]
  | .residual residuals => .residual (residuals ++ [residual])

def withRequiredAllowed (verification : LookupCandidateVerification)
    (relationContext : RelationName) (expression : CompiledUsersetExpression) :
    LookupCandidateVerification :=
  verification.withResidual ⟨relationContext, expression, .allowed⟩

def withRequiredDenied (verification : LookupCandidateVerification)
    (relationContext : RelationName) (expression : CompiledUsersetExpression) :
    LookupCandidateVerification :=
  verification.withResidual ⟨relationContext, expression, .denied⟩

/-- Verification of a relation that two operands of a union list. -/
def unionMerge : LookupCandidateVerification → LookupCandidateVerification →
    LookupCandidateVerification
  | .provenWithoutCheck, _ => .provenWithoutCheck
  | _, .provenWithoutCheck => .provenWithoutCheck
  | .residual left, .residual right => if left = right then .residual left else .fullRoot
  | _, _ => .fullRoot

end LookupCandidateVerification

structure LookupVerificationRule where
  relation : RelationName
  verification : LookupCandidateVerification
deriving DecidableEq

structure LookupProducerPlan where
  relations : List RelationName
  verificationRules : List LookupVerificationRule
deriving DecidableEq

/-- How the subject of a frontier entry was reached. -/
structure LookupSubjectProof where
  directDepth : Nat
  exact : Bool
deriving DecidableEq

namespace LookupSubjectProof

def exactRoot : LookupSubjectProof := ⟨0, true⟩

def inexact : LookupSubjectProof := ⟨0, false⟩

def nextExact (proof : LookupSubjectProof) : LookupSubjectProof :=
  if proof.exact then ⟨min (proof.directDepth + 1) u32Max, true⟩ else inexact

end LookupSubjectProof

namespace LookupProducerPlan

def allowsRelationship (plan : LookupProducerPlan) (relationship : RelationshipRef) : Bool :=
  plan.relations.any relationship.relationNameEq

def verificationForRelationship (plan : LookupProducerPlan) (relationship : RelationshipRef)
    (proof : LookupSubjectProof) (limits : EvaluationLimits) : LookupCandidateVerification :=
  if !proof.exact || decide (limits.maxDepth.get ≤ proof.directDepth) then .fullRoot
  else
    match plan.verificationRules.find? (fun rule => relationship.relationNameEq rule.relation) with
    | some rule => rule.verification
    | none => .fullRoot

end LookupProducerPlan

/-- Merges a rule into those collected before it. -/
def mergeLookupVerificationRule (rule : LookupVerificationRule) :
    List LookupVerificationRule → List LookupVerificationRule
  | [] => [rule]
  | existing :: rest =>
      if existing.relation = rule.relation then
        ⟨existing.relation, existing.verification.unionMerge rule.verification⟩ :: rest
      else existing :: mergeLookupVerificationRule rule rest

/-- One rule for each relation, in the order of their first rules. -/
def mergeLookupVerificationRules (rules : List LookupVerificationRule) :
    List LookupVerificationRule :=
  rules.foldl (fun merged rule => mergeLookupVerificationRule rule merged) []

/-- The rules of the base of an exclusion. -/
def requireDenied (currentRelation : RelationName) (exclude : CompiledUsersetExpression)
    (rules : List LookupVerificationRule) : List LookupVerificationRule :=
  rules.map (fun rule =>
    ⟨rule.relation, rule.verification.withRequiredDenied currentRelation exclude⟩)

/-- The rules of the seed of an intersection, guarded by the other operands. -/
def requireAllowed (currentRelation : RelationName) (guards : List CompiledUsersetExpression)
    (rules : List LookupVerificationRule) : List LookupVerificationRule :=
  rules.map (fun rule =>
    ⟨rule.relation, guards.foldl (fun verification guard =>
      verification.withRequiredAllowed currentRelation guard) rule.verification⟩)

def LookupVerificationRule.isFullRoot (rule : LookupVerificationRule) : Bool :=
  decide (rule.verification = .fullRoot)

namespace CompiledSchema

section Expressions

variable (schema : CompiledSchema)
  (collect : List SchemaRelationId → SchemaRelationId → RelationDefinition →
    Except ZanzibarError (Option (List LookupVerificationRule)))

mutual

/-- The rules of a rewrite, with the relations that are being visited; none where the
recursion meets one of them. -/
def collectExpressionVerificationRules (visiting : List SchemaRelationId)
    (currentRelation : RelationName) :
    CompiledUsersetExpression → Except ZanzibarError (Option (List LookupVerificationRule))
  | .this => .ok (some [⟨currentRelation, .provenWithoutCheck⟩])
  | .computedUserset relation relationId targetHasRewrite =>
      if !targetHasRewrite then .ok (some [⟨relation, .provenWithoutCheck⟩])
      else
        match schema.resolver.relationById relationId with
        | some definition => collect visiting relationId definition
        | none => .error compiledSchemaInvariantError
  | .union expressions => collectUnionVerificationRules visiting currentRelation expressions
  | .exclusion base exclude => do
      let baseRules ← collectExpressionVerificationRules visiting currentRelation base
      return baseRules.map (requireDenied currentRelation exclude)
  | .tupleToUserset tuplesetRelation _ _ => .ok (some [⟨tuplesetRelation, .fullRoot⟩])
  | .intersection expressions =>
      collectIntersectionVerificationRules visiting currentRelation [] expressions

def collectUnionVerificationRules (visiting : List SchemaRelationId)
    (currentRelation : RelationName) :
    List CompiledUsersetExpression → Except ZanzibarError (Option (List LookupVerificationRule))
  | [] => .ok (some [])
  | expression :: rest => do
      let childRules ← collectExpressionVerificationRules visiting currentRelation expression
      match childRules with
      | none => return none
      | some childRules => do
          let restRules ← collectUnionVerificationRules visiting currentRelation rest
          return restRules.map (childRules ++ ·)

/-- The rules of the first operand that has rules without a full check, guarded by the
operands before and after it. -/
def collectIntersectionVerificationRules (visiting : List SchemaRelationId)
    (currentRelation : RelationName) (before : List CompiledUsersetExpression) :
    List CompiledUsersetExpression → Except ZanzibarError (Option (List LookupVerificationRule))
  | [] => .ok none
  | seed :: rest => do
      let seedRules ← collectExpressionVerificationRules visiting currentRelation seed
      match seedRules with
      | none =>
          collectIntersectionVerificationRules visiting currentRelation (before ++ [seed]) rest
      | some seedRules =>
          if seedRules.any (·.isFullRoot) then
            collectIntersectionVerificationRules visiting currentRelation (before ++ [seed]) rest
          else return some (requireAllowed currentRelation (before ++ rest) seedRules)

end

end Expressions

/-- The rules of a relation.  The relations that are being visited differ, so that the fuel
lasts when it exceeds the number of relations. -/
def collectRelationVerificationRules (schema : CompiledSchema) :
    Nat → List SchemaRelationId → SchemaRelationId → RelationDefinition →
      Except ZanzibarError (Option (List LookupVerificationRule))
  | 0, _, _, _ => .error compiledSchemaInvariantError
  | fuel + 1, visiting, relationId, definition =>
      if relationId ∈ visiting then .ok none
      else do
        let rules ← (match definition.compiledUsersetRewrite with
          | some expression =>
              schema.collectExpressionVerificationRules
                (schema.collectRelationVerificationRules fuel) (relationId :: visiting)
                definition.name expression
          | none => .ok (some [⟨definition.name, .provenWithoutCheck⟩]))
        return rules.map mergeLookupVerificationRules

/-- The listed relations, without repetition. -/
def producerRelations (rules : List LookupVerificationRule) : List RelationName :=
  rules.foldl (fun relations rule =>
    if rule.relation ∈ relations then relations else relations ++ [rule.relation]) []

def lookupProducerPlan (schema : CompiledSchema) (resourceType : ObjectType)
    (permission : RelationName) : Except ZanzibarError (Option LookupProducerPlan) := do
  let relationId ← (schema.resolver.relationId resourceType permission).mapError .schema
  let definition ← (match schema.resolver.relationById relationId with
    | some definition => .ok definition
    | none => .error compiledSchemaInvariantError)
  let rules ← schema.collectRelationVerificationRules (schema.relationCount + 1) [] relationId
    definition
  match rules with
  | none => return none
  | some rules =>
      if rules.isEmpty then return none
      else return some ⟨producerRelations rules, rules⟩

end CompiledSchema

end SimpleZanzibar
