import SimpleZanzibar.SchemaCorrect
import SimpleZanzibar.SchemaOrder
import SimpleZanzibar.Eval.LookupResources

/-!
# Analyses of an accepted schema end

The compiler writes positions into the rewrites, and over an accepted schema every such
position resolves.  The analyses of the schema therefore never fail with the error for a
position out of bounds.  They follow rewrites with fuel; the relations that they are visiting
differ, so that the fuel lasts.

**Results.**
* `CompiledSchema.Accepted.knows`: every relation has its rewrite resolved.
* `CompiledSchema.Visits.length_le`: no more relations are being visited than there are.
* `resolves_requiresVerification`, `resolves_sameObjectRelationExpansions`,
  `resolves_tupleToUsersetRelationExpansions`, `lookupProducerPlan_resolved`: the analyses of
  the lookups.
-/

namespace SimpleZanzibar

/-- The error is another one than the error for a position out of bounds. -/
def NotInvariantError (error : ZanzibarError) : Prop :=
  error ≠ compiledSchemaInvariantError

theorem notInvariantError_of_domain
    {α : Type} {r : Except DomainError α} {error : ZanzibarError}
    (h : r.mapError ZanzibarError.domain = .error error) :
    NotInvariantError error := by
  cases r with
  | ok a => cases h
  | error e =>
      cases h
      intro heq
      cases heq

theorem notInvariantError_of_schema
    {α : Type} {r : Except SchemaError α} {error : ZanzibarError}
    (h : r.mapError ZanzibarError.schema = .error error) :
    NotInvariantError error := by
  cases r with
  | ok a => cases h
  | error e =>
      cases h
      intro heq
      cases heq

theorem notInvariantError_evaluation
    (error : EvaluationError) :
    NotInvariantError (.evaluation error) := by
  intro heq
  cases heq

/-- A fallible computation never fails with the error for a position out of bounds. -/
def Resolves {α : Type} (r : Except ZanzibarError α) : Prop :=
  ∀ error, r = .error error → NotInvariantError error

theorem resolves_ok
    {α : Type} (a : α) :
    Resolves (.ok a : Except ZanzibarError α) :=
  fun _ h => (by cases h)

theorem Resolves.bind
    {α β : Type} {r : Except ZanzibarError α} {f : α → Except ZanzibarError β}
    (hr : Resolves r)
    (hf : ∀ a, r = .ok a → Resolves (f a)) :
    Resolves (r >>= f) := by
  cases r with
  | ok a => exact hf a rfl
  | error e => exact fun error h => hr error (by cases h; rfl)

theorem Resolves.outcome
    {α : Type} {r : Except ZanzibarError α}
    (h : Resolves r) :
    Outcome r (fun _ => True) NotInvariantError := by
  cases r with
  | ok a => trivial
  | error error => exact h error rfl

theorem resolves_domain
    {α : Type}
    (r : Except DomainError α) :
    Resolves (r.mapError .domain) :=
  fun _ => notInvariantError_of_domain

theorem resolves_schema
    {α : Type}
    (r : Except SchemaError α) :
    Resolves (r.mapError .schema) :=
  fun _ => notInvariantError_of_schema

theorem resolves_mapM
    {α β : Type} {f : α → Except ZanzibarError β}
    {as : List α}
    (hf : ∀ a ∈ as, Resolves (f a)) :
    Resolves (as.mapM f) := by
  induction as with
  | nil => exact resolves_ok []
  | cons a rest ih =>
      rw [List.mapM_cons]
      refine (hf a List.mem_cons_self).bind (fun b _ => ?_)
      refine (ih fun other hother => hf other (List.mem_cons_of_mem _ hother)).bind (fun bs _ => ?_)
      exact resolves_ok (b :: bs)

theorem RelationshipRef.resolves_subjectUsersetRelationName
    (ref : RelationshipRef) :
    Resolves ref.subjectUsersetRelationName := by
  unfold subjectUsersetRelationName
  split
  · exact resolves_ok none
  · split
    · exact resolves_ok _
    · rintro error h
      cases h
      intro heq
      cases heq

/-- The error of a subject that cannot be expanded has another text. -/
theorem RelationshipRef.resolves_expandedSubject
    (ref : RelationshipRef) :
    Resolves ref.expandedSubject := by
  unfold expandedSubject
  split
  · exact resolves_ok _
  · split
    · exact resolves_ok _
    · rintro error h heq
      cases h
      injection heq with htext
      have hexpand : "legacy expand cannot represent direct subject type '".toList.head? =
          some 'l' := by decide
      have hcompiled : "compiled schema relation id is out of bounds".toList.head? =
          some 'c' := by decide
      have hchars := congrArg (fun text : String => text.toList.head?) htext
      simp only [String.toList_append, List.head?_append, hexpand, hcompiled,
        Option.some_or] at hchars
      exact absurd hchars (by decide)

/-! ## Visited relations -/

namespace CompiledSchema

/-- The positions of the relations of a schema. -/
def positions (schema : CompiledSchema) : List SchemaRelationId :=
  schema.resolver.definitions.zipIdx.flatMap (fun (definition, i) =>
    (List.range definition.relations.length).map (fun j => ⟨i, j⟩))

theorem length_positions
    (schema : CompiledSchema) :
    schema.positions.length = schema.relationCount := by
  unfold positions relationCount
  rw [List.length_flatMap]
  simp only [List.length_map, List.length_range]
  congr 1
  have hmap : schema.resolver.definitions.zipIdx.map
      (fun entry => (fun definition : NamespaceDefinition => definition.relations.length) entry.1) =
        (schema.resolver.definitions.zipIdx.map Prod.fst).map
          (fun definition : NamespaceDefinition => definition.relations.length) := by
    rw [List.map_map]
    rfl
  rw [hmap, List.zipIdx_map_fst]

theorem mem_positions
    {schema : CompiledSchema} {id : SchemaRelationId} {definition : RelationDefinition}
    (h : schema.resolver.relationById id = some definition) :
    id ∈ schema.positions := by
  obtain ⟨namespaceDefinition, hnamespace, hrelation⟩ := Option.bind_eq_some_iff.mp h
  refine List.mem_flatMap.mpr ⟨(namespaceDefinition, id.namespaceIndex), ?_, ?_⟩
  · rw [List.mem_zipIdx_iff_getElem?]
    exact hnamespace
  · refine List.mem_map.mpr ⟨id.relationIndex, ?_, rfl⟩
    exact List.mem_range.mpr (List.getElem?_eq_some_iff.mp hrelation).1

/-- The relations that are being visited: different ones, all of the schema. -/
structure Visits (schema : CompiledSchema) (visiting : List SchemaRelationId) : Prop where
  nodup : visiting.Nodup
  resolves : ∀ id ∈ visiting, ∃ definition, schema.resolver.relationById id = some definition

theorem visits_nil
    (schema : CompiledSchema) :
    schema.Visits [] :=
  ⟨List.nodup_nil, fun _ h => (by cases h)⟩

theorem Visits.cons
    {schema : CompiledSchema} {visiting : List SchemaRelationId} {id : SchemaRelationId}
    {definition : RelationDefinition}
    (h : schema.Visits visiting)
    (hid : id ∉ visiting)
    (hget : schema.resolver.relationById id = some definition) :
    schema.Visits (id :: visiting) := by
  refine ⟨List.nodup_cons.mpr ⟨hid, h.nodup⟩, ?_⟩
  rintro other hother
  rcases List.mem_cons.mp hother with rfl | hother
  · exact ⟨definition, hget⟩
  · exact h.resolves other hother

theorem Visits.length_le
    {schema : CompiledSchema} {visiting : List SchemaRelationId}
    (h : schema.Visits visiting) :
    visiting.length ≤ schema.relationCount := by
  rw [← length_positions]
  refine (List.subperm_of_subset h.nodup ?_).length_le
  intro id hid
  obtain ⟨definition, hget⟩ := h.resolves id hid
  exact mem_positions hget

/-- The relation has its rewrite resolved. -/
def Knows (schema : CompiledSchema) (definition : RelationDefinition) : Prop :=
  ∀ compiled, definition.compiledUsersetRewrite = some compiled →
    ∃ objectType, compiled.ResolvedIn schema.resolver objectType

theorem Accepted.knows
    {schema : CompiledSchema}
    (h : schema.Accepted)
    {objectType : ObjectType} {name : RelationName} {definition : RelationDefinition}
    (hrelation : schema.resolver.relation objectType name = .ok definition) :
    schema.Knows definition :=
  fun compiled hcompiled => ⟨objectType, (h.relation hrelation).2 compiled hcompiled⟩

/-- Every relation of an accepted schema is found under its own name. -/
theorem Accepted.relation_of_mem
    {schema : CompiledSchema}
    (h : schema.Accepted)
    {namespaceDefinition : NamespaceDefinition} {definition : RelationDefinition}
    (hnamespace : namespaceDefinition ∈ schema.resolver.definitions)
    (hdefinition : definition ∈ namespaceDefinition.relations) :
    schema.resolver.relation namespaceDefinition.name definition.name = .ok definition := by
  obtain ⟨definitions, hdefinitions⟩ := h
  obtain ⟨_, hresolver, _, hdistinct⟩ := fromDefinitions_eq_ok hdefinitions
  rw [hresolver] at hnamespace ⊢
  exact (SchemaResolver.relation_eq_ok_iff_mem hdistinct).mpr
    ⟨namespaceDefinition, hnamespace, rfl, hdefinition, rfl⟩

theorem Accepted.knows_of_relationById
    {schema : CompiledSchema}
    (h : schema.Accepted)
    {id : SchemaRelationId} {definition : RelationDefinition}
    (hget : schema.resolver.relationById id = some definition) :
    schema.Knows definition := by
  obtain ⟨namespaceDefinition, hnamespace, hrelation⟩ := Option.bind_eq_some_iff.mp hget
  exact h.knows (h.relation_of_mem (List.mem_of_getElem? hnamespace)
    (List.mem_of_getElem? hrelation))

/-! ## Analyses of the schema -/

section Analyses

variable {schema : CompiledSchema} {visiting : List SchemaRelationId} {objectType : ObjectType}

section Verification

variable {visit : List SchemaRelationId → SchemaRelationId → Except ZanzibarError Bool}

mutual

theorem resolves_expressionRequiresVerification
    (hvisit : ∀ id definition, id ∉ visiting → schema.resolver.relationById id = some definition →
      Resolves (visit (id :: visiting) id)) :
    ∀ expression : CompiledUsersetExpression,
      expression.ResolvedIn schema.resolver objectType →
      Resolves (expressionRequiresLookupSubjectVerification visit visiting expression)
  | .this, _ => resolves_ok false
  | .computedUserset relation id hasRewrite, hresolved => by
      cases hresolved with
      | computedUserset _ hid _ =>
          unfold expressionRequiresLookupSubjectVerification
          split
          · exact resolves_ok false
          · split
            · exact resolves_ok true
            · next hnew => exact hvisit id _ hnew hid
  | .tupleToUserset _ _ _, _ => resolves_ok true
  | .union expressions, hresolved => by
      cases hresolved with
      | union hresolved =>
          unfold expressionRequiresLookupSubjectVerification
          exact resolves_someRequiresVerification hvisit expressions hresolved
  | .intersection _, _ => resolves_ok true
  | .exclusion _ _, _ => resolves_ok true

theorem resolves_someRequiresVerification
    (hvisit : ∀ id definition, id ∉ visiting → schema.resolver.relationById id = some definition →
      Resolves (visit (id :: visiting) id)) :
    ∀ expressions : List CompiledUsersetExpression,
      (∀ expression ∈ expressions, expression.ResolvedIn schema.resolver objectType) →
      Resolves (someRequiresLookupSubjectVerification visit visiting expressions)
  | [], _ => resolves_ok false
  | expression :: rest, hresolved => by
      unfold someRequiresLookupSubjectVerification
      refine (resolves_expressionRequiresVerification hvisit expression
        (hresolved _ List.mem_cons_self)).bind (fun required _ => ?_)
      split
      · exact resolves_ok true
      · exact resolves_someRequiresVerification hvisit rest
          (fun other hother => hresolved other (List.mem_cons_of_mem _ hother))

end

/-- The fuel lasts: the visited relations are fewer than there are. -/
theorem resolves_visitRelation
    (hschema : schema.Accepted)
    (fuel : Nat) :
    ∀ {visiting : List SchemaRelationId} {id : SchemaRelationId}
      {definition : RelationDefinition}, schema.Visits visiting →
      schema.relationCount < visiting.length + fuel →
      schema.resolver.relationById id = some definition →
      Resolves (schema.visitRelation fuel visiting id) := by
  induction fuel with
  | zero =>
      intro visiting id definition hvisits hfuel _
      exact absurd hvisits.length_le (Nat.not_le.mpr hfuel)
  | succ fuel ih =>
      intro visiting id definition hvisits hfuel hget
      unfold visitRelation
      rw [hget]
      dsimp only
      split
      · next expression hexpression =>
          obtain ⟨objectType, hresolved⟩ :=
            hschema.knows_of_relationById hget expression hexpression
          refine resolves_expressionRequiresVerification ?_ expression hresolved
          intro id' definition' hnew hget'
          refine ih (hvisits.cons hnew hget') ?_ hget'
          rw [List.length_cons]
          omega
      · exact resolves_ok false

theorem resolves_requiresVerification
    (hschema : schema.Accepted)
    {definition : RelationDefinition}
    (hknows : schema.Knows definition) :
    Resolves (schema.relationDefinitionRequiresLookupSubjectVerification definition) := by
  unfold relationDefinitionRequiresLookupSubjectVerification
  split
  · exact resolves_ok false
  · next expression hexpression =>
      obtain ⟨objectType, hresolved⟩ := hknows expression hexpression
      refine resolves_expressionRequiresVerification ?_ expression hresolved
      intro id definition' hnew hget
      refine resolves_visitRelation hschema _ ((visits_nil schema).cons hnew hget) ?_ hget
      rw [List.length_singleton]
      omega

end Verification

section Inclusion

variable {sourceRelation : RelationName}
  {visit : List SchemaRelationId → SchemaRelationId → Except ZanzibarError Bool}

mutual

theorem resolves_expressionCanInclude
    (hvisit : ∀ id definition, schema.resolver.relationById id = some definition →
      Resolves (visit visiting id))
    {relation : RelationName} :
    ∀ expression : CompiledUsersetExpression,
      expression.ResolvedIn schema.resolver objectType →
      Resolves (expressionCanIncludeSameObjectRelation sourceRelation visit visiting relation
        expression)
  | .this, _ => resolves_ok _
  | .computedUserset target id hasRewrite, hresolved => by
      cases hresolved with
      | computedUserset _ hid _ =>
          unfold expressionCanIncludeSameObjectRelation
          split
          · exact resolves_ok true
          · split
            · exact resolves_ok false
            · exact hvisit id _ hid
  | .tupleToUserset _ _ _, _ => resolves_ok false
  | .union expressions, hresolved => by
      cases hresolved with
      | union hresolved =>
          unfold expressionCanIncludeSameObjectRelation
          exact resolves_someCanInclude hvisit expressions hresolved
  | .intersection expressions, hresolved => by
      cases hresolved with
      | intersection hresolved =>
          unfold expressionCanIncludeSameObjectRelation
          exact resolves_someCanInclude hvisit expressions hresolved
  | .exclusion base _, hresolved => by
      cases hresolved with
      | exclusion hbase _ =>
          unfold expressionCanIncludeSameObjectRelation
          exact resolves_expressionCanInclude hvisit base hbase

theorem resolves_someCanInclude
    (hvisit : ∀ id definition, schema.resolver.relationById id = some definition →
      Resolves (visit visiting id))
    {relation : RelationName} :
    ∀ expressions : List CompiledUsersetExpression,
      (∀ expression ∈ expressions, expression.ResolvedIn schema.resolver objectType) →
      Resolves (someCanIncludeSameObjectRelation sourceRelation visit visiting relation
        expressions)
  | [], _ => resolves_ok false
  | expression :: rest, hresolved => by
      unfold someCanIncludeSameObjectRelation
      refine (resolves_expressionCanInclude hvisit expression
        (hresolved _ List.mem_cons_self)).bind (fun included _ => ?_)
      split
      · exact resolves_ok true
      · exact resolves_someCanInclude hvisit rest
          (fun other hother => hresolved other (List.mem_cons_of_mem _ hother))

end

theorem resolves_relationIdCanInclude
    (hschema : schema.Accepted)
    (fuel : Nat) :
    ∀ {visiting : List SchemaRelationId} {id : SchemaRelationId}
      {definition : RelationDefinition}, schema.Visits visiting →
      schema.relationCount < visiting.length + fuel →
      schema.resolver.relationById id = some definition →
      Resolves (schema.relationIdCanIncludeSameObjectRelation sourceRelation fuel visiting id) := by
  induction fuel with
  | zero =>
      intro visiting id definition hvisits hfuel _
      exact absurd hvisits.length_le (Nat.not_le.mpr hfuel)
  | succ fuel ih =>
      intro visiting id definition hvisits hfuel hget
      unfold relationIdCanIncludeSameObjectRelation
      split
      · exact resolves_ok false
      · next hnew =>
          rw [hget]
          dsimp only
          split
          · exact resolves_ok false
          · next expression hexpression =>
              obtain ⟨objectType, hresolved⟩ :=
                hschema.knows_of_relationById hget expression hexpression
              refine resolves_expressionCanInclude ?_ expression hresolved
              intro id' definition' hget'
              refine ih (hvisits.cons hnew hget) ?_ hget'
              rw [List.length_cons]
              omega

/-- From the start of an analysis. -/
theorem resolves_relationIdCanInclude_start
    (hschema : schema.Accepted)
    {name : RelationName} {id : SchemaRelationId}
    (hid : schema.resolver.relationId objectType name = .ok id) :
    Resolves (schema.relationIdCanIncludeSameObjectRelation sourceRelation
      (schema.relationCount + 1) [] id) := by
  obtain ⟨definition, hdefinition⟩ := SchemaResolver.exists_relation_of_relationId hid
  obtain ⟨id', hid', hget⟩ := SchemaResolver.relation_eq_ok_iff.mp hdefinition
  rw [hid] at hid'
  cases hid'
  exact resolves_relationIdCanInclude hschema _ (visits_nil schema) (by simp) hget

theorem resolves_includingRelations
    (hschema : schema.Accepted)
    (relations : List RelationDefinition) :
    Resolves (schema.includingRelations objectType sourceRelation relations) := by
  induction relations with
  | nil => exact resolves_ok []
  | cons definition rest ih =>
      unfold includingRelations
      split
      · exact ih
      · refine (resolves_schema _).bind (fun id hid => ?_)
        refine (resolves_relationIdCanInclude_start hschema (mapError_eq_ok hid)).bind
          (fun included _ => ?_)
        exact ih.bind (fun others _ => resolves_ok _)

theorem resolves_sameObjectRelationExpansions
    (hschema : schema.Accepted) :
    Resolves (schema.computeSameObjectRelationExpansions objectType sourceRelation) :=
  (resolves_schema _).bind (fun relations _ => resolves_includingRelations hschema relations)

theorem resolves_relationNameCanInclude
    (hschema : schema.Accepted)
    (relation : RelationName) :
    Resolves (schema.relationNameCanIncludeSameObjectRelation objectType relation
      sourceRelation) := by
  unfold relationNameCanIncludeSameObjectRelation
  split
  · exact resolves_ok true
  · split
    · exact resolves_ok false
    · next hid => exact resolves_relationIdCanInclude_start hschema hid

end Inclusion

section Tuplesets

variable {ownerObjectType intermediateType : ObjectType}
  {ownerRelation sourceRelation : RelationName}
  {visit : List SchemaRelationId → SchemaRelationId →
    Except ZanzibarError (List TupleToUsersetExpansionTarget)}

mutual

theorem resolves_collectTupleToUserset
    (hschema : schema.Accepted)
    (hvisit : ∀ id definition, id ∉ visiting → schema.resolver.relationById id = some definition →
      Resolves (visit (id :: visiting) id)) :
    ∀ expression : CompiledUsersetExpression,
      expression.ResolvedIn schema.resolver objectType →
      Resolves (schema.collectTupleToUsersetExpressionExpansions ownerObjectType ownerRelation
        intermediateType sourceRelation visit visiting expression)
  | .this, _ => resolves_ok []
  | .computedUserset relation id hasRewrite, hresolved => by
      cases hresolved with
      | computedUserset _ hid _ =>
          unfold collectTupleToUsersetExpressionExpansions
          split
          · exact resolves_ok []
          · next hvisited =>
              have hnew : id ∉ visiting := by
                intro hmem
                exact hvisited (by simp [hmem])
              exact hvisit id _ hnew hid
  | .tupleToUserset tupleset id computed, _ => by
      unfold collectTupleToUsersetExpressionExpansions
      exact (resolves_relationNameCanInclude hschema computed).bind (fun _ _ => resolves_ok _)
  | .union expressions, hresolved => by
      cases hresolved with
      | union hresolved =>
          unfold collectTupleToUsersetExpressionExpansions
          exact resolves_collectTupleToUsersets hschema hvisit expressions hresolved
  | .intersection expressions, hresolved => by
      cases hresolved with
      | intersection hresolved =>
          unfold collectTupleToUsersetExpressionExpansions
          exact resolves_collectTupleToUsersets hschema hvisit expressions hresolved
  | .exclusion base _, hresolved => by
      cases hresolved with
      | exclusion hbase _ =>
          unfold collectTupleToUsersetExpressionExpansions
          exact resolves_collectTupleToUserset hschema hvisit base hbase

theorem resolves_collectTupleToUsersets
    (hschema : schema.Accepted)
    (hvisit : ∀ id definition, id ∉ visiting → schema.resolver.relationById id = some definition →
      Resolves (visit (id :: visiting) id)) :
    ∀ expressions : List CompiledUsersetExpression,
      (∀ expression ∈ expressions, expression.ResolvedIn schema.resolver objectType) →
      Resolves (schema.collectTupleToUsersetExpansions ownerObjectType ownerRelation
        intermediateType sourceRelation visit visiting expressions)
  | [], _ => resolves_ok []
  | expression :: rest, hresolved => by
      unfold collectTupleToUsersetExpansions
      refine (resolves_collectTupleToUserset hschema hvisit expression
        (hresolved _ List.mem_cons_self)).bind (fun targets _ => ?_)
      exact (resolves_collectTupleToUsersets hschema hvisit rest
        (fun other hother => hresolved other (List.mem_cons_of_mem _ hother))).bind
        (fun _ _ => resolves_ok _)

end

theorem resolves_visitTupleToUserset
    (hschema : schema.Accepted)
    (fuel : Nat) :
    ∀ {visiting : List SchemaRelationId} {id : SchemaRelationId}
      {definition : RelationDefinition}, schema.Visits visiting →
      schema.relationCount < visiting.length + fuel →
      schema.resolver.relationById id = some definition →
      Resolves (schema.visitTupleToUsersetRelation ownerObjectType ownerRelation
        intermediateType sourceRelation fuel visiting id) := by
  induction fuel with
  | zero =>
      intro visiting id definition hvisits hfuel _
      exact absurd hvisits.length_le (Nat.not_le.mpr hfuel)
  | succ fuel ih =>
      intro visiting id definition hvisits hfuel hget
      unfold visitTupleToUsersetRelation
      rw [hget]
      dsimp only
      split
      · exact resolves_ok []
      · next expression hexpression =>
          obtain ⟨objectType, hresolved⟩ :=
            hschema.knows_of_relationById hget expression hexpression
          refine resolves_collectTupleToUserset hschema ?_ expression hresolved
          intro id' definition' hnew hget'
          refine ih (hvisits.cons hnew hget') ?_ hget'
          rw [List.length_cons]
          omega

theorem resolves_tupleToUsersetRelationExpansions
    (hschema : schema.Accepted) :
    Resolves (schema.computeTupleToUsersetRelationExpansions intermediateType
      sourceRelation) := by
  have hdefinitions : schema.definitions = schema.resolver.definitions := by
    obtain ⟨definitions, hdefinitions⟩ := hschema
    rw [(fromDefinitions_eq_ok hdefinitions).2.1]
  unfold computeTupleToUsersetRelationExpansions
  refine Resolves.bind (resolves_mapM fun namespaceDefinition hnamespace => ?_)
    (fun _ _ => resolves_ok _)
  refine Resolves.bind (resolves_mapM fun definition hdefinition => ?_) (fun _ _ => resolves_ok _)
  rw [hdefinitions] at hnamespace
  unfold collectTupleToUsersetRelationExpansions
  split
  · exact resolves_ok []
  · next expression hexpression =>
      obtain ⟨objectType, hresolved⟩ :=
        hschema.knows (hschema.relation_of_mem hnamespace hdefinition) expression hexpression
      refine resolves_collectTupleToUserset hschema ?_ expression hresolved
      intro id definition' hnew hget
      refine resolves_visitTupleToUserset hschema _ ((visits_nil schema).cons hnew hget) ?_ hget
      rw [List.length_singleton]
      omega

end Tuplesets

section Planning

/-- The residual operands have their references resolved. -/
def VerificationResolved (schema : CompiledSchema) : LookupCandidateVerification → Prop
  | .residual residuals => ∀ residual ∈ residuals, ∃ objectType,
      residual.expression.ResolvedIn schema.resolver objectType
  | _ => True

def RulesResolved (schema : CompiledSchema) (rules : List LookupVerificationRule) : Prop :=
  ∀ rule ∈ rules, VerificationResolved schema rule.verification

theorem VerificationResolved.withResidual
    {verification : LookupCandidateVerification} {residual : LookupResidualCheck}
    (h : VerificationResolved schema verification)
    (hresidual : residual.expression.ResolvedIn schema.resolver objectType) :
    VerificationResolved schema (verification.withResidual residual) := by
  cases verification with
  | fullRoot => trivial
  | provenWithoutCheck =>
      intro other hother
      rw [List.mem_singleton.mp hother]
      exact ⟨objectType, hresidual⟩
  | residual residuals =>
      intro other hother
      rcases List.mem_append.mp hother with hother | hother
      · exact h other hother
      · rw [List.mem_singleton.mp hother]
        exact ⟨objectType, hresidual⟩

theorem VerificationResolved.unionMerge
    {left right : LookupCandidateVerification}
    (hleft : VerificationResolved schema left) :
    VerificationResolved schema (left.unionMerge right) := by
  cases left with
  | fullRoot => cases right <;> trivial
  | provenWithoutCheck => trivial
  | residual residuals =>
      cases right with
      | fullRoot => trivial
      | provenWithoutCheck => trivial
      | residual others =>
          by_cases heq : residuals = others
          · rw [LookupCandidateVerification.unionMerge, if_pos heq]
            exact hleft
          · rw [LookupCandidateVerification.unionMerge, if_neg heq]
            trivial

theorem RulesResolved.merge
    {rules : List LookupVerificationRule}
    (h : RulesResolved schema rules) :
    RulesResolved schema (mergeLookupVerificationRules rules) := by
  have hinsert : ∀ (rule : LookupVerificationRule) (merged : List LookupVerificationRule),
      VerificationResolved schema rule.verification → RulesResolved schema merged →
      RulesResolved schema (mergeLookupVerificationRule rule merged) := by
    intro rule merged hrule hmerged
    induction merged with
    | nil =>
        intro other hother
        rw [List.mem_singleton.mp hother]
        exact hrule
    | cons existing rest ih =>
        have hexisting := hmerged existing List.mem_cons_self
        have hrest : RulesResolved schema rest :=
          fun other hother => hmerged other (List.mem_cons_of_mem _ hother)
        unfold mergeLookupVerificationRule
        split
        · intro other hother
          rcases List.mem_cons.mp hother with rfl | hother
          · exact hexisting.unionMerge
          · exact hrest other hother
        · intro other hother
          rcases List.mem_cons.mp hother with rfl | hother
          · exact hexisting
          · exact ih hrest other hother
  have hfold : ∀ (rules merged : List LookupVerificationRule), RulesResolved schema rules →
      RulesResolved schema merged → RulesResolved schema
        (rules.foldl (fun merged rule => mergeLookupVerificationRule rule merged) merged) := by
    intro rules
    induction rules with
    | nil => exact fun _ _ hmerged => hmerged
    | cons rule rest ih =>
        intro merged hrules hmerged
        exact ih _ (fun other hother => hrules other (List.mem_cons_of_mem _ hother))
          (hinsert rule merged (hrules rule List.mem_cons_self) hmerged)
  exact hfold rules [] h (fun _ hrule => (by cases hrule))

theorem RulesResolved.requireAllowed
    {relation : RelationName} {rules : List LookupVerificationRule}
    {guards : List CompiledUsersetExpression}
    (h : RulesResolved schema rules)
    (hguards : ∀ guard ∈ guards, guard.ResolvedIn schema.resolver objectType) :
    RulesResolved schema (requireAllowed relation guards rules) := by
  have hfold : ∀ (guards : List CompiledUsersetExpression)
      (verification : LookupCandidateVerification),
      (∀ guard ∈ guards, guard.ResolvedIn schema.resolver objectType) →
      VerificationResolved schema verification → VerificationResolved schema
        (guards.foldl (fun verification guard =>
          verification.withRequiredAllowed relation guard) verification) := by
    intro guards
    induction guards with
    | nil => exact fun _ _ hverification => hverification
    | cons guard rest ih =>
        intro verification hguards hverification
        exact ih _ (fun other hother => hguards other (List.mem_cons_of_mem _ hother))
          (hverification.withResidual (hguards guard List.mem_cons_self))
  intro rule hrule
  obtain ⟨original, horiginal, rfl⟩ := List.mem_map.mp hrule
  exact hfold guards original.verification hguards (h original horiginal)

/-- A collection that does not fail with the error, and whose rules are resolved. -/
abbrev Collects (schema : CompiledSchema)
    (r : Except ZanzibarError (Option (List LookupVerificationRule))) : Prop :=
  Outcome r (fun rules => ∀ list, rules = some list → RulesResolved schema list)
    NotInvariantError

theorem collects_some
    {rules : List LookupVerificationRule}
    (h : RulesResolved schema rules) :
    Collects schema (.ok (some rules)) := by
  rintro list hlist
  cases hlist
  exact h

theorem collects_none :
    Collects schema (.ok none) := by
  rintro list hlist
  cases hlist

/-- Going on with the collected rules. -/
theorem Collects.map
    {r : Except ZanzibarError (Option (List LookupVerificationRule))}
    {f : List LookupVerificationRule → List LookupVerificationRule}
    (h : Collects schema r)
    (hf : ∀ rules, RulesResolved schema rules → RulesResolved schema (f rules)) :
    Collects schema (do
      let rules ← r
      return rules.map f) := by
  refine Outcome.bind h (fun rules hrules => ?_)
  cases rules with
  | none => exact collects_none
  | some rules => exact collects_some (hf rules (hrules rules rfl))

/-- A rule that needs no residual operand. -/
theorem rulesResolved_single
    {relation : RelationName} {verification : LookupCandidateVerification}
    (h : VerificationResolved schema verification) :
    RulesResolved schema [⟨relation, verification⟩] := by
  intro rule hrule
  rw [List.mem_singleton.mp hrule]
  exact h

variable {collect : List SchemaRelationId → SchemaRelationId → RelationDefinition →
    Except ZanzibarError (Option (List LookupVerificationRule))}

mutual

theorem collects_expressionRules
    (hcollect : ∀ id definition, schema.resolver.relationById id = some definition →
      Collects schema (collect visiting id definition))
    {relation : RelationName} :
    ∀ expression : CompiledUsersetExpression,
      expression.ResolvedIn schema.resolver objectType →
      Collects schema
        (schema.collectExpressionVerificationRules collect visiting relation expression)
  | .this, _ => collects_some (rulesResolved_single trivial)
  | .computedUserset target id hasRewrite, hresolved => by
      cases hresolved with
      | computedUserset _ hid _ =>
          unfold collectExpressionVerificationRules
          split
          · exact collects_some (rulesResolved_single trivial)
          · rw [hid]
            exact hcollect id _ hid
  | .tupleToUserset _ _ _, _ => collects_some (rulesResolved_single trivial)
  | .union expressions, hresolved => by
      cases hresolved with
      | union hresolved =>
          unfold collectExpressionVerificationRules
          exact collects_unionRules hcollect expressions hresolved
  | .intersection expressions, hresolved => by
      cases hresolved with
      | intersection hresolved =>
          unfold collectExpressionVerificationRules
          exact collects_intersectionRules hcollect [] expressions
            (fun _ hbefore => (by cases hbefore)) hresolved
  | .exclusion base exclude, hresolved => by
      cases hresolved with
      | exclusion hbase hexclude =>
          unfold collectExpressionVerificationRules
          refine (collects_expressionRules hcollect base hbase).map (fun rules hrules => ?_)
          intro rule hrule
          obtain ⟨original, horiginal, rfl⟩ := List.mem_map.mp hrule
          exact (hrules original horiginal).withResidual hexclude

theorem collects_unionRules
    (hcollect : ∀ id definition, schema.resolver.relationById id = some definition →
      Collects schema (collect visiting id definition))
    {relation : RelationName} :
    ∀ expressions : List CompiledUsersetExpression,
      (∀ expression ∈ expressions, expression.ResolvedIn schema.resolver objectType) →
      Collects schema (schema.collectUnionVerificationRules collect visiting relation expressions)
  | [], _ => collects_some (fun _ hrule => (by cases hrule))
  | expression :: rest, hresolved => by
      unfold collectUnionVerificationRules
      refine Outcome.bind (collects_expressionRules hcollect expression
        (hresolved _ List.mem_cons_self)) (fun rules hrules => ?_)
      cases rules with
      | none => exact collects_none
      | some rules =>
          refine (collects_unionRules hcollect rest
            (fun other hother => hresolved other (List.mem_cons_of_mem _ hother))).map
            (fun restRules hrest => ?_)
          intro rule hrule
          rcases List.mem_append.mp hrule with hrule | hrule
          · exact hrules rules rfl rule hrule
          · exact hrest rule hrule

theorem collects_intersectionRules
    (hcollect : ∀ id definition, schema.resolver.relationById id = some definition →
      Collects schema (collect visiting id definition))
    {relation : RelationName} :
    ∀ before expressions : List CompiledUsersetExpression,
      (∀ expression ∈ before, expression.ResolvedIn schema.resolver objectType) →
      (∀ expression ∈ expressions, expression.ResolvedIn schema.resolver objectType) →
      Collects schema
        (schema.collectIntersectionVerificationRules collect visiting relation before expressions)
  | _, [], _, _ => collects_none
  | before, seed :: rest, hbefore, hresolved => by
      have hseed := hresolved seed List.mem_cons_self
      have hothers : ∀ expression ∈ rest, expression.ResolvedIn schema.resolver objectType :=
        fun other hother => hresolved other (List.mem_cons_of_mem _ hother)
      have hrest : Collects schema (schema.collectIntersectionVerificationRules collect visiting
          relation (before ++ [seed]) rest) := by
        refine collects_intersectionRules hcollect (before ++ [seed]) rest ?_ hothers
        intro other hother
        rcases List.mem_append.mp hother with hother | hother
        · exact hbefore other hother
        · rw [List.mem_singleton.mp hother]
          exact hseed
      unfold collectIntersectionVerificationRules
      refine Outcome.bind (collects_expressionRules hcollect seed hseed) (fun rules hrules => ?_)
      cases rules with
      | none => exact hrest
      | some rules =>
          dsimp only
          split
          · exact hrest
          · have hguards : ∀ guard ∈ before ++ rest,
                guard.ResolvedIn schema.resolver objectType := by
              intro guard hguard
              rcases List.mem_append.mp hguard with hguard | hguard
              · exact hbefore guard hguard
              · exact hothers guard hguard
            exact collects_some ((hrules rules rfl).requireAllowed hguards)

end

theorem collects_relationRules
    (hschema : schema.Accepted)
    (fuel : Nat) :
    ∀ {visiting : List SchemaRelationId} {id : SchemaRelationId}
      {definition : RelationDefinition}, schema.Visits visiting →
      schema.relationCount < visiting.length + fuel →
      schema.resolver.relationById id = some definition →
      Collects schema (schema.collectRelationVerificationRules fuel visiting id definition) := by
  induction fuel with
  | zero =>
      intro visiting id definition hvisits hfuel _
      exact absurd hvisits.length_le (Nat.not_le.mpr hfuel)
  | succ fuel ih =>
      intro visiting id definition hvisits hfuel hget
      unfold collectRelationVerificationRules
      split
      · exact collects_none
      · next hnew =>
          refine Collects.map ?_ (fun rules hrules => hrules.merge)
          split
          · next expression hexpression =>
              obtain ⟨objectType, hresolved⟩ :=
                hschema.knows_of_relationById hget expression hexpression
              refine collects_expressionRules ?_ expression hresolved
              intro id' definition' hget'
              refine ih (hvisits.cons hnew hget) ?_ hget'
              rw [List.length_cons]
              omega
          · exact collects_some (rulesResolved_single trivial)

/-- Planning does not fail with the error, and the residual operands of a plan are resolved. -/
theorem lookupProducerPlan_resolved
    (hschema : schema.Accepted)
    (permission : RelationName) :
    Outcome (schema.lookupProducerPlan objectType permission)
      (fun plan => ∀ found, plan = some found → RulesResolved schema found.verificationRules)
      NotInvariantError := by
  have hposition : Outcome ((schema.resolver.relationId objectType permission).mapError
      ZanzibarError.schema) (fun id => schema.resolver.relationId objectType permission = .ok id)
      NotInvariantError := by
    cases hfound : (schema.resolver.relationId objectType permission).mapError
        ZanzibarError.schema with
    | error error => exact notInvariantError_of_schema hfound
    | ok id => exact mapError_eq_ok hfound
  unfold lookupProducerPlan
  refine Outcome.bind hposition (fun id hid => ?_)
  obtain ⟨definition, hdefinition⟩ := SchemaResolver.exists_relation_of_relationId hid
  obtain ⟨id', hid', hget⟩ := SchemaResolver.relation_eq_ok_iff.mp hdefinition
  rw [hid] at hid'
  cases hid'
  rw [hget]
  have hlookup : Outcome (.ok definition) (fun found => found = definition) NotInvariantError :=
    rfl
  refine Outcome.bind hlookup (fun found hfound => ?_)
  subst hfound
  refine Outcome.bind (collects_relationRules hschema _ (visits_nil schema) (by simp) hget)
    (fun rules hrules => ?_)
  cases rules with
  | none => exact fun found hfound => (by cases hfound)
  | some rules =>
      dsimp only
      split
      · exact fun found hfound => (by cases hfound)
      · rintro found hfound
        cases hfound
        exact hrules rules rfl

end Planning

end Analyses

end CompiledSchema

end SimpleZanzibar
