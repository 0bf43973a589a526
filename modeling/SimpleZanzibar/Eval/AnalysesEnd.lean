import SimpleZanzibar.Eval.SchemaInvariant
import SimpleZanzibar.Lib.Unfolding

/-!
# Analyses of any schema end

The lookups analyse the schema by recursions that follow the rewrites and remember the relations
that they are visiting.  A relation is forgotten when its visit returns, so that what is
remembered does not grow along the run: it grows along every chain of nested calls.  Such a chain
visits every relation at most once, and within a relation the rewrites get smaller.

**Results.**
* `CompiledSchema.remaining_cons_lt`: what every nested visit makes smaller.
* `CompiledSchema.requiresVerification_ends`, `CompiledSchema.canIncludeSameObject_ends`,
  `CompiledSchema.collectTupleToUserset_ends`, `CompiledSchema.lookupProducerPlan_ends`: the
  analyses end with what the fuel computes, for cyclic schemas too.
-/

namespace SimpleZanzibar

namespace CompiledSchema

variable {schema : CompiledSchema} {visiting : List SchemaRelationId}

/-- The number of relations that are not being visited. -/
def remaining (schema : CompiledSchema) (visiting : List SchemaRelationId) : Nat :=
  (schema.positions.filter (fun id => decide (id ∉ visiting))).length

theorem remaining_le
    (schema : CompiledSchema) (visiting : List SchemaRelationId) :
    schema.remaining visiting ≤ schema.relationCount := by
  rw [← length_positions]
  exact List.length_filter_le _ _

/-- A relation that is not being visited yet leaves fewer. -/
theorem remaining_cons_lt
    {id : SchemaRelationId} {definition : RelationDefinition}
    (hid : id ∉ visiting)
    (hget : schema.resolver.relationById id = some definition) :
    schema.remaining (id :: visiting) < schema.remaining visiting := by
  have hfilter : schema.positions.filter (fun other => decide (other ∉ id :: visiting)) =
      (schema.positions.filter (fun other => decide (other ∉ visiting))).filter
        (fun other => decide (other ≠ id)) := by
    rw [List.filter_filter]
    apply List.filter_congr
    intro other _
    simp only [List.mem_cons, not_or, ne_eq, Bool.decide_and]
  have hmem : id ∈ schema.positions.filter (fun other => decide (other ∉ visiting)) :=
    List.mem_filter.mpr ⟨mem_positions hget, decide_eq_true hid⟩
  unfold remaining
  rw [hfilter]
  apply List.length_filter_lt_length_iff_exists.mpr
  exact ⟨id, hmem, by simp⟩

/-- Two procedures for visits agree on the relations that do not resolve, and on the visits with
fewer than `k` relations left. -/
structure AgreeVisits {R : Type} (schema : CompiledSchema) (k : Nat)
    (f g : List SchemaRelationId → SchemaRelationId → R) : Prop where
  unresolved : ∀ visiting id, schema.resolver.relationById id = none →
    f visiting id = g visiting id
  resolved : ∀ visiting id definition, schema.resolver.relationById id = some definition →
    schema.remaining visiting < k → f visiting id = g visiting id

/-- They agree on the nested visits of a visit with `k` relations left. -/
theorem AgreeVisits.nested
    {R : Type} {k : Nat} {f g : List SchemaRelationId → SchemaRelationId → R}
    (h : schema.AgreeVisits k f g)
    (hremaining : schema.remaining visiting ≤ k)
    {id : SchemaRelationId}
    (hid : id ∉ visiting) :
    f (id :: visiting) id = g (id :: visiting) id := by
  cases hget : schema.resolver.relationById id with
  | none => exact h.unresolved _ id hget
  | some definition =>
      exact h.resolved _ id definition hget (Nat.lt_of_lt_of_le (remaining_cons_lt hid hget)
        hremaining)

/-! ## Verification of subjects -/

/-- A visit of a relation over the nested visits. -/
def verificationBody (schema : CompiledSchema)
    (visit : List SchemaRelationId → SchemaRelationId → Except ZanzibarError Bool) :
    List SchemaRelationId → SchemaRelationId → Except ZanzibarError Bool :=
  fun visiting relationId =>
    match schema.resolver.relationById relationId with
    | none => .error compiledSchemaInvariantError
    | some definition =>
        match definition.compiledUsersetRewrite with
        | some expression =>
            expressionRequiresLookupSubjectVerification visit visiting expression
        | none => .ok false

theorem visitRelation_eq_iterate
    (schema : CompiledSchema) (fuel : Nat) :
    schema.visitRelation fuel =
      schema.verificationBody^[fuel] (fun _ _ => .error compiledSchemaInvariantError) := by
  induction fuel with
  | zero => rfl
  | succ fuel ih =>
      rw [Function.iterate_succ_apply', ← ih]
      rfl

section Verification

variable {visit visit' : List SchemaRelationId → SchemaRelationId → Except ZanzibarError Bool}

mutual

theorem expressionRequiresVerification_congr
    (hvisit : ∀ id, id ∉ visiting → visit (id :: visiting) id = visit' (id :: visiting) id) :
    ∀ expression : CompiledUsersetExpression,
      expressionRequiresLookupSubjectVerification visit visiting expression =
        expressionRequiresLookupSubjectVerification visit' visiting expression
  | .this => rfl
  | .computedUserset _ id hasRewrite => by
      unfold expressionRequiresLookupSubjectVerification
      split
      · rfl
      · split
        · rfl
        · next hid => exact hvisit id hid
  | .tupleToUserset _ _ _ => rfl
  | .union expressions => by
      unfold expressionRequiresLookupSubjectVerification
      exact someRequiresVerification_congr hvisit expressions
  | .intersection _ => rfl
  | .exclusion _ _ => rfl

theorem someRequiresVerification_congr
    (hvisit : ∀ id, id ∉ visiting → visit (id :: visiting) id = visit' (id :: visiting) id) :
    ∀ expressions : List CompiledUsersetExpression,
      someRequiresLookupSubjectVerification visit visiting expressions =
        someRequiresLookupSubjectVerification visit' visiting expressions
  | [] => rfl
  | expression :: rest => by
      unfold someRequiresLookupSubjectVerification
      rw [expressionRequiresVerification_congr hvisit expression,
        someRequiresVerification_congr hvisit rest]

end

end Verification

/-- Whether candidates have to be checked is decided after finitely many visits. -/
theorem requiresVerification_ends
    (schema : CompiledSchema) (visiting : List SchemaRelationId)
    (expression : CompiledUsersetExpression) :
    EndsWith schema.verificationBody
      (fun visit => expressionRequiresLookupSubjectVerification visit visiting expression)
      (expressionRequiresLookupSubjectVerification (schema.visitRelation schema.relationCount)
        visiting expression) := by
  rw [visitRelation_eq_iterate]
  refine endsWith_of_agree schema.AgreeVisits (fun f => ⟨?_, ?_⟩)
    (fun k f g h => ⟨?_, ?_⟩) (fun f g h => ?_)
  · intro visiting id hget
    unfold verificationBody
    rw [hget]
  · intro _ _ _ _ hremaining
    exact absurd hremaining (Nat.not_lt_zero _)
  · intro visiting id hget
    unfold verificationBody
    rw [hget]
  · intro visiting id definition hget hremaining
    unfold verificationBody
    rw [hget]
    dsimp only
    split
    · exact expressionRequiresVerification_congr
        (fun id' hid' => h.nested (Nat.le_of_lt_succ hremaining) hid') _
    · rfl
  · exact expressionRequiresVerification_congr
      (fun id hid => h.nested (schema.remaining_le visiting) hid) expression

/-! ## Relations of the same object -/

/-- A visit of a relation over the nested visits. -/
def inclusionBody (schema : CompiledSchema) (sourceRelation : RelationName)
    (visit : List SchemaRelationId → SchemaRelationId → Except ZanzibarError Bool) :
    List SchemaRelationId → SchemaRelationId → Except ZanzibarError Bool :=
  fun visiting relationId =>
    if relationId ∈ visiting then .ok false
    else
      match schema.resolver.relationById relationId with
      | none => .error compiledSchemaInvariantError
      | some definition =>
          match definition.compiledUsersetRewrite with
          | none => .ok false
          | some expression =>
              expressionCanIncludeSameObjectRelation sourceRelation visit
                (relationId :: visiting) definition.name expression

theorem relationIdCanInclude_eq_iterate
    (schema : CompiledSchema) (sourceRelation : RelationName) (fuel : Nat) :
    schema.relationIdCanIncludeSameObjectRelation sourceRelation fuel =
      (schema.inclusionBody sourceRelation)^[fuel]
        (fun _ _ => .error compiledSchemaInvariantError) := by
  induction fuel with
  | zero => rfl
  | succ fuel ih =>
      rw [Function.iterate_succ_apply', ← ih]
      rfl

section Inclusion

variable {sourceRelation : RelationName}
  {visit visit' : List SchemaRelationId → SchemaRelationId → Except ZanzibarError Bool}

mutual

theorem expressionCanInclude_congr
    (hvisit : ∀ id, visit visiting id = visit' visiting id)
    (relation : RelationName) :
    ∀ expression : CompiledUsersetExpression,
      expressionCanIncludeSameObjectRelation sourceRelation visit visiting relation expression =
        expressionCanIncludeSameObjectRelation sourceRelation visit' visiting relation expression
  | .this => rfl
  | .computedUserset _ id _ => by
      unfold expressionCanIncludeSameObjectRelation
      rw [hvisit id]
  | .tupleToUserset _ _ _ => rfl
  | .union expressions => by
      unfold expressionCanIncludeSameObjectRelation
      exact someCanInclude_congr hvisit relation expressions
  | .intersection expressions => by
      unfold expressionCanIncludeSameObjectRelation
      exact someCanInclude_congr hvisit relation expressions
  | .exclusion base _ => by
      unfold expressionCanIncludeSameObjectRelation
      exact expressionCanInclude_congr hvisit relation base

theorem someCanInclude_congr
    (hvisit : ∀ id, visit visiting id = visit' visiting id)
    (relation : RelationName) :
    ∀ expressions : List CompiledUsersetExpression,
      someCanIncludeSameObjectRelation sourceRelation visit visiting relation expressions =
        someCanIncludeSameObjectRelation sourceRelation visit' visiting relation expressions
  | [] => rfl
  | expression :: rest => by
      unfold someCanIncludeSameObjectRelation
      rw [expressionCanInclude_congr hvisit relation expression,
        someCanInclude_congr hvisit relation rest]

end

end Inclusion

/-- Whether a relation can grant another one is decided after finitely many visits. -/
theorem canIncludeSameObject_ends
    (schema : CompiledSchema) (sourceRelation : RelationName)
    (visiting : List SchemaRelationId) (id : SchemaRelationId) :
    EndsWith (schema.inclusionBody sourceRelation) (fun visit => visit visiting id)
      (schema.relationIdCanIncludeSameObjectRelation sourceRelation (schema.relationCount + 1)
        visiting id) := by
  rw [relationIdCanInclude_eq_iterate]
  refine endsWith_of_agree
    (fun k f g => ∀ visiting id, schema.remaining visiting < k → f visiting id = g visiting id)
    (fun f visiting id hremaining => ?_) (fun k f g h visiting id hremaining => ?_)
    (fun f g h => ?_)
  · exact absurd hremaining (Nat.not_lt_zero _)
  · unfold inclusionBody
    split
    · rfl
    · next hid =>
        cases hget : schema.resolver.relationById id with
        | none => rfl
        | some definition =>
            dsimp only
            split
            · rfl
            · apply expressionCanInclude_congr
              intro id'
              apply h
              exact Nat.lt_of_lt_of_le (remaining_cons_lt hid hget)
                (Nat.le_of_lt_succ hremaining)
  · exact h visiting id (Nat.lt_succ_of_le (schema.remaining_le visiting))

/-! ## Edges from tuples to usersets -/

section Edges

variable (schema : CompiledSchema) (ownerObjectType : ObjectType) (ownerRelation : RelationName)
  (intermediateType : ObjectType) (sourceRelation : RelationName)

/-- A visit of a computed relation over the nested visits. -/
def tupleToUsersetBody
    (visit : List SchemaRelationId → SchemaRelationId →
      Except ZanzibarError (List TupleToUsersetExpansionTarget)) :
    List SchemaRelationId → SchemaRelationId →
      Except ZanzibarError (List TupleToUsersetExpansionTarget) :=
  fun visiting relationId =>
    match schema.resolver.relationById relationId with
    | none => .error compiledSchemaInvariantError
    | some definition =>
        match definition.compiledUsersetRewrite with
        | none => .ok []
        | some expression =>
            schema.collectTupleToUsersetExpressionExpansions ownerObjectType ownerRelation
              intermediateType sourceRelation visit visiting expression

theorem visitTupleToUserset_eq_iterate
    (fuel : Nat) :
    schema.visitTupleToUsersetRelation ownerObjectType ownerRelation intermediateType
        sourceRelation fuel =
      (schema.tupleToUsersetBody ownerObjectType ownerRelation intermediateType
        sourceRelation)^[fuel] (fun _ _ => .error compiledSchemaInvariantError) := by
  induction fuel with
  | zero => rfl
  | succ fuel ih =>
      rw [Function.iterate_succ_apply', ← ih]
      rfl

variable {schema ownerObjectType ownerRelation intermediateType sourceRelation}
  {visit visit' : List SchemaRelationId → SchemaRelationId →
    Except ZanzibarError (List TupleToUsersetExpansionTarget)}

mutual

theorem collectTupleToUserset_congr
    (hvisit : ∀ id, id ∉ visiting → visit (id :: visiting) id = visit' (id :: visiting) id) :
    ∀ expression : CompiledUsersetExpression,
      schema.collectTupleToUsersetExpressionExpansions ownerObjectType ownerRelation
          intermediateType sourceRelation visit visiting expression =
        schema.collectTupleToUsersetExpressionExpansions ownerObjectType ownerRelation
          intermediateType sourceRelation visit' visiting expression
  | .this => rfl
  | .computedUserset _ id hasRewrite => by
      unfold collectTupleToUsersetExpressionExpansions
      split
      · rfl
      · next hcondition =>
          simp only [Bool.or_eq_true, decide_eq_true_eq, not_or] at hcondition
          exact hvisit id hcondition.2
  | .tupleToUserset _ _ _ => rfl
  | .union expressions => by
      unfold collectTupleToUsersetExpressionExpansions
      exact collectTupleToUsersets_congr hvisit expressions
  | .intersection expressions => by
      unfold collectTupleToUsersetExpressionExpansions
      exact collectTupleToUsersets_congr hvisit expressions
  | .exclusion base _ => by
      unfold collectTupleToUsersetExpressionExpansions
      exact collectTupleToUserset_congr hvisit base

theorem collectTupleToUsersets_congr
    (hvisit : ∀ id, id ∉ visiting → visit (id :: visiting) id = visit' (id :: visiting) id) :
    ∀ expressions : List CompiledUsersetExpression,
      schema.collectTupleToUsersetExpansions ownerObjectType ownerRelation
          intermediateType sourceRelation visit visiting expressions =
        schema.collectTupleToUsersetExpansions ownerObjectType ownerRelation
          intermediateType sourceRelation visit' visiting expressions
  | [] => rfl
  | expression :: rest => by
      unfold collectTupleToUsersetExpansions
      rw [collectTupleToUserset_congr hvisit expression,
        collectTupleToUsersets_congr hvisit rest]

end

/-- The edges of a rewrite are collected after finitely many visits. -/
theorem collectTupleToUserset_ends
    (schema : CompiledSchema) (ownerObjectType : ObjectType) (ownerRelation : RelationName)
    (intermediateType : ObjectType) (sourceRelation : RelationName)
    (visiting : List SchemaRelationId) (expression : CompiledUsersetExpression) :
    EndsWith
      (schema.tupleToUsersetBody ownerObjectType ownerRelation intermediateType sourceRelation)
      (fun visit => schema.collectTupleToUsersetExpressionExpansions ownerObjectType
        ownerRelation intermediateType sourceRelation visit visiting expression)
      (schema.collectTupleToUsersetExpressionExpansions ownerObjectType ownerRelation
        intermediateType sourceRelation
        (schema.visitTupleToUsersetRelation ownerObjectType ownerRelation intermediateType
          sourceRelation schema.relationCount) visiting expression) := by
  rw [visitTupleToUserset_eq_iterate]
  refine endsWith_of_agree schema.AgreeVisits (fun f => ⟨?_, ?_⟩)
    (fun k f g h => ⟨?_, ?_⟩) (fun f g h => ?_)
  · intro visiting id hget
    unfold tupleToUsersetBody
    rw [hget]
  · intro _ _ _ _ hremaining
    exact absurd hremaining (Nat.not_lt_zero _)
  · intro visiting id hget
    unfold tupleToUsersetBody
    rw [hget]
  · intro visiting id definition hget hremaining
    unfold tupleToUsersetBody
    rw [hget]
    dsimp only
    split
    · rfl
    · exact collectTupleToUserset_congr
        (fun id' hid' => h.nested (Nat.le_of_lt_succ hremaining) hid') _
  · exact collectTupleToUserset_congr
      (fun id hid => h.nested (schema.remaining_le visiting) hid) expression

end Edges

/-! ## The producer plan -/

/-- The nested calls of the planner. -/
abbrev CollectRules : Type :=
  List SchemaRelationId → SchemaRelationId → RelationDefinition →
    Except ZanzibarError (Option (List LookupVerificationRule))

/-- The rules of a relation over those of the nested relations. -/
def rulesBody (schema : CompiledSchema) (collect : CollectRules) : CollectRules :=
  fun visiting relationId definition =>
    if relationId ∈ visiting then .ok none
    else do
      let rules ← (match definition.compiledUsersetRewrite with
        | some expression =>
            schema.collectExpressionVerificationRules collect (relationId :: visiting)
              definition.name expression
        | none => .ok (some [⟨definition.name, .provenWithoutCheck⟩]))
      return rules.map mergeLookupVerificationRules

theorem collectRelationRules_eq_iterate
    (schema : CompiledSchema) (fuel : Nat) :
    schema.collectRelationVerificationRules fuel =
      schema.rulesBody^[fuel] (fun _ _ _ => .error compiledSchemaInvariantError) := by
  induction fuel with
  | zero => rfl
  | succ fuel ih =>
      rw [Function.iterate_succ_apply', ← ih]
      rfl

section Rules

variable {collect collect' : CollectRules}

mutual

theorem collectExpressionRules_congr
    (hcollect : ∀ id definition, schema.resolver.relationById id = some definition →
      collect visiting id definition = collect' visiting id definition)
    (relation : RelationName) :
    ∀ expression : CompiledUsersetExpression,
      schema.collectExpressionVerificationRules collect visiting relation expression =
        schema.collectExpressionVerificationRules collect' visiting relation expression
  | .this => rfl
  | .computedUserset _ id _ => by
      unfold collectExpressionVerificationRules
      split
      · rfl
      · cases hget : schema.resolver.relationById id with
        | none => rfl
        | some definition => exact hcollect id definition hget
  | .tupleToUserset _ _ _ => rfl
  | .union expressions => by
      unfold collectExpressionVerificationRules
      exact collectUnionRules_congr hcollect relation expressions
  | .intersection expressions => by
      unfold collectExpressionVerificationRules
      exact collectIntersectionRules_congr hcollect relation [] expressions
  | .exclusion base _ => by
      unfold collectExpressionVerificationRules
      rw [collectExpressionRules_congr hcollect relation base]

theorem collectUnionRules_congr
    (hcollect : ∀ id definition, schema.resolver.relationById id = some definition →
      collect visiting id definition = collect' visiting id definition)
    (relation : RelationName) :
    ∀ expressions : List CompiledUsersetExpression,
      schema.collectUnionVerificationRules collect visiting relation expressions =
        schema.collectUnionVerificationRules collect' visiting relation expressions
  | [] => rfl
  | expression :: rest => by
      unfold collectUnionVerificationRules
      rw [collectExpressionRules_congr hcollect relation expression,
        collectUnionRules_congr hcollect relation rest]

theorem collectIntersectionRules_congr
    (hcollect : ∀ id definition, schema.resolver.relationById id = some definition →
      collect visiting id definition = collect' visiting id definition)
    (relation : RelationName) :
    ∀ before expressions : List CompiledUsersetExpression,
      schema.collectIntersectionVerificationRules collect visiting relation before expressions =
        schema.collectIntersectionVerificationRules collect' visiting relation before expressions
  | _, [] => rfl
  | before, seed :: rest => by
      unfold collectIntersectionVerificationRules
      rw [collectExpressionRules_congr hcollect relation seed,
        collectIntersectionRules_congr hcollect relation (before ++ [seed]) rest]

end

end Rules

/-- The plan over a procedure for the rules of a relation. -/
def lookupProducerPlanOver (schema : CompiledSchema) (resourceType : ObjectType)
    (permission : RelationName) (collect : CollectRules) :
    Except ZanzibarError (Option LookupProducerPlan) := do
  let relationId ← (schema.resolver.relationId resourceType permission).mapError .schema
  let definition ← (match schema.resolver.relationById relationId with
    | some definition => .ok definition
    | none => .error compiledSchemaInvariantError)
  let rules ← collect [] relationId definition
  match rules with
  | none => return none
  | some rules =>
      if rules.isEmpty then return none
      else return some ⟨producerRelations rules, rules⟩

/-- The planner ends after finitely many visits. -/
theorem lookupProducerPlan_ends
    (schema : CompiledSchema) (resourceType : ObjectType) (permission : RelationName) :
    EndsWith schema.rulesBody (schema.lookupProducerPlanOver resourceType permission)
      (schema.lookupProducerPlan resourceType permission) := by
  have hplan : schema.lookupProducerPlan resourceType permission =
      schema.lookupProducerPlanOver resourceType permission
        (schema.rulesBody^[schema.relationCount + 1]
          (fun _ _ _ => .error compiledSchemaInvariantError)) := by
    rw [← collectRelationRules_eq_iterate]
    rfl
  rw [hplan]
  refine endsWith_of_agree
    (fun k f g => ∀ visiting id definition, schema.resolver.relationById id = some definition →
      schema.remaining visiting < k → f visiting id definition = g visiting id definition)
    (fun f visiting id definition _ hremaining => ?_)
    (fun k f g h visiting id definition hget hremaining => ?_) (fun f g h => ?_)
  · exact absurd hremaining (Nat.not_lt_zero _)
  · unfold rulesBody
    split
    · rfl
    · next hid =>
        cases hrewrite : definition.compiledUsersetRewrite with
        | none => rfl
        | some expression =>
            dsimp only
            have hnested := remaining_cons_lt hid hget
            rw [collectExpressionRules_congr (fun id' definition' hget' =>
              h (id :: visiting) id' definition' hget' (by omega))]
  · unfold lookupProducerPlanOver
    cases hposition : (schema.resolver.relationId resourceType permission).mapError
        ZanzibarError.schema with
    | error error => rfl
    | ok id =>
        cases hget : schema.resolver.relationById id with
        | none =>
            dsimp only [bind, Except.bind]
            rw [hget]
        | some definition =>
            have heq := h [] id definition hget (Nat.lt_succ_of_le (schema.remaining_le []))
            dsimp only [bind, Except.bind]
            rw [hget]
            dsimp only
            rw [heq]

end CompiledSchema

end SimpleZanzibar
