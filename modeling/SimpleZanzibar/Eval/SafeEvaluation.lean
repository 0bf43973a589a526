import SimpleZanzibar.Eval.ContextCorrect
import SimpleZanzibar.Eval.LookupPlanCorrect
import SimpleZanzibar.Eval.SchemaInvariant

/-!
# Over an accepted schema every position resolves

The evaluator looks relations up by the positions that the compiler wrote into the rewrites.
None of its entry points ever returns the error for a position out of bounds: not a check, an
expansion or a lookup, whatever is stored and whatever is asked.

**Results.**
* `CompiledSchema.fromDefinitions_preserves`: what compiling keeps of the source, and that the
  evaluator never meets a position out of bounds.
-/

namespace SimpleZanzibar

/-- The context evaluates over the schema. -/
def EvaluationContext.Over (schema : CompiledSchema) (context : EvaluationContext) : Prop :=
  context.snapshot.schema = schema

namespace Evaluation

open EvaluationContext

variable {schema : CompiledSchema}

/-- The step stays over the schema and does not return the error. -/
abbrev Safe {α : Type} (schema : CompiledSchema) (x : Evaluation α) : Prop :=
  x.Within (Over schema) NotInvariantError

theorem safe_ofDomain
    {α : Type} (r : Except DomainError α) :
    Safe schema (ofDomain r) :=
  Action.within_lift (resolves_domain _)

theorem safe_enter
    (key : EvaluationKey) :
    Safe schema (enter key) :=
  stays_enter (fun snapshot => snapshot.schema = schema)
    notInvariantError_evaluation key

theorem safe_incrementFanout
    (current : Nat) :
    Safe schema (incrementFanout current) :=
  stays_incrementFanout (fun snapshot => snapshot.schema = schema)
    notInvariantError_evaluation current

/-- A resolved position is looked up without failure. -/
theorem safe_relationById_bind
    {α : Type} {id : SchemaRelationId} {definition : RelationDefinition}
    {f : RelationDefinition → Evaluation α}
    (hget : schema.resolver.relationById id = some definition)
    (hf : Safe schema (f definition)) :
    Safe schema (relationById id >>= f) := by
  refine stays_relationById_bind (fun snapshot => snapshot.schema = schema)
    (fun snapshot hover => ?_) hf
  rw [hover]
  exact hget

theorem safe_evaluateCheckKey
    {key : CheckKey} {evaluate : Evaluation Membership}
    (h : Safe schema evaluate) :
    Safe schema (evaluateCheckKey key evaluate) := by
  refine stays_evaluateCheckKey (fun snapshot => snapshot.schema = schema)
    notInvariantError_evaluation (fun error herror => ?_) h
  unfold CheckMemoKey.fromCheckKey at herror
  split at herror
  · cases herror
  · cases herror
  · split at herror
    · cases herror
    · cases herror
      intro heq
      cases heq

/-- The position of a body resolves. -/
def BodyResolves (schema : CompiledSchema) : NestedBody → Prop
  | .relationId id => ∃ definition, schema.resolver.relationById id = some definition
  | _ => True

section Bodies

variable [StoreHasher] {nested : Nested} {objectType : ObjectType}

/-- Nested keys are evaluated without the error. -/
def SafeNested (schema : CompiledSchema) (nested : Nested) : Prop :=
  ∀ object relation body, BodyResolves schema body → Safe schema (nested object relation body)

omit [StoreHasher] in
theorem safe_checkUsersets
    (hnested : SafeNested schema nested)
    (relationOf : RelationName → RelationName)
    (refs : List RelationshipRef) :
    ∀ fanout, Safe schema (checkUsersets nested relationOf fanout refs) := by
  induction refs with
  | nil => exact fun _ => Action.within_pure _
  | cons ref rest ih =>
      intro fanout
      unfold checkUsersets
      refine Action.within_lift_bind (ref.resolves_subjectUsersetRelationName)
        (fun subject _ => ?_)
      cases subject with
      | none => exact ih fanout
      | some target =>
          refine (safe_incrementFanout fanout).bind (fun next => ?_)
          refine (hnested _ _ .relationName trivial).bind (fun membership => ?_)
          split
          · exact Action.within_pure _
          · exact ih next

theorem safe_evalThis
    (hnested : SafeNested schema nested)
    (object : Object) (relation : RelationName) (user : User) :
    Safe schema (evalThis nested object relation user) := by
  refine (safe_ofDomain _).bind (fun resource => (safe_ofDomain _).bind (fun subject => ?_))
  apply Action.within_get_bind
  intro context _
  split
  · exact Action.within_pure _
  · exact safe_checkUsersets hnested id _ 0

mutual

theorem safe_evalExpression
    (hnested : SafeNested schema nested)
    (object : Object) (relation : RelationName) (user : User) :
    ∀ expression : CompiledUsersetExpression,
      expression.ResolvedIn schema.resolver objectType →
      Safe schema (evalCompiledSchemaExpression nested object relation user expression)
  | .this, _ => by
      unfold evalCompiledSchemaExpression
      exact safe_evalThis hnested object relation user
  | .computedUserset target id hasRewrite, hresolved => by
      cases hresolved with
      | computedUserset _ hid _ =>
          unfold evalCompiledSchemaExpression
          split
          · exact hnested _ _ (.relationId id) ⟨_, hid⟩
          · exact hnested _ _ .plain trivial
  | .tupleToUserset tupleset id computed, hresolved => by
      cases hresolved with
      | tupleToUserset _ hid =>
          unfold evalCompiledSchemaExpression
          refine safe_relationById_bind hid ?_
          refine (safe_ofDomain _).bind (fun resource => ?_)
          apply Action.within_get_bind
          intro context _
          exact safe_checkUsersets hnested _ _ 0
  | .union expressions, hresolved => by
      cases hresolved with
      | union hresolved =>
          unfold evalCompiledSchemaExpression
          exact safe_evalUnion hnested object relation user expressions .denied hresolved
  | .intersection expressions, hresolved => by
      cases hresolved with
      | intersection hresolved =>
          unfold evalCompiledSchemaExpression
          exact safe_evalIntersection hnested object relation user expressions .allowed hresolved
  | .exclusion base exclude, hresolved => by
      cases hresolved with
      | exclusion hbase hexclude =>
          have hbase' := safe_evalExpression hnested object relation user base hbase
          have hexclude' := safe_evalExpression hnested object relation user exclude hexclude
          unfold evalCompiledSchemaExpression
          split
          · refine hexclude'.bind (fun excludeResult => ?_)
            split
            · exact Action.within_pure _
            · exact hbase'.bind (fun _ => Action.within_pure _)
          · refine hbase'.bind (fun baseResult => ?_)
            split
            · exact Action.within_pure _
            · exact hexclude'.bind (fun _ => Action.within_pure _)

theorem safe_evalUnion
    (hnested : SafeNested schema nested)
    (object : Object) (relation : RelationName) (user : User) :
    ∀ (expressions : List CompiledUsersetExpression) (result : Membership),
      (∀ expression ∈ expressions, expression.ResolvedIn schema.resolver objectType) →
      Safe schema (evalCompiledSchemaUnion nested object relation user result expressions)
  | [], _, _ => Action.within_pure _
  | expression :: rest, result, hresolved => by
      unfold evalCompiledSchemaUnion
      refine (safe_evalExpression hnested object relation user expression
        (hresolved _ List.mem_cons_self)).bind (fun operand => ?_)
      split
      · exact Action.within_pure _
      · exact safe_evalUnion hnested object relation user rest _
          (fun other hother => hresolved other (List.mem_cons_of_mem _ hother))

theorem safe_evalIntersection
    (hnested : SafeNested schema nested)
    (object : Object) (relation : RelationName) (user : User) :
    ∀ (expressions : List CompiledUsersetExpression) (result : Membership),
      (∀ expression ∈ expressions, expression.ResolvedIn schema.resolver objectType) →
      Safe schema (evalCompiledSchemaIntersection nested object relation user result expressions)
  | [], _, _ => Action.within_pure _
  | expression :: rest, result, hresolved => by
      unfold evalCompiledSchemaIntersection
      refine (safe_evalExpression hnested object relation user expression
        (hresolved _ List.mem_cons_self)).bind (fun operand => ?_)
      split
      · exact Action.within_pure _
      · exact safe_evalIntersection hnested object relation user rest _
          (fun other hother => hresolved other (List.mem_cons_of_mem _ hother))

end

theorem safe_evalDefinition
    (hnested : SafeNested schema nested)
    {definition : RelationDefinition}
    (hknows : schema.Knows definition)
    (object : Object) (relation : RelationName) (user : User) :
    Safe schema (evalDefinition nested object relation user definition) := by
  unfold evalDefinition
  split
  · next expression hexpression =>
      obtain ⟨objectType, hresolved⟩ := hknows expression hexpression
      exact safe_evalExpression hnested object relation user expression hresolved
  · exact safe_evalThis hnested object relation user

omit [StoreHasher] in
/-- Going on with the relation of a name. -/
theorem safe_resolve_bind
    {α : Type}
    (hschema : schema.Accepted)
    {relation : RelationName} {f : RelationDefinition → Evaluation α}
    (hf : ∀ definition, schema.Knows definition → Safe schema (f definition)) :
    Safe schema (do
      let context ← Action.get
      let definition ← ofSchema (context.snapshot.schema.resolver.relation objectType relation)
      f definition) := by
  apply Action.within_get_bind
  intro context hover
  refine Action.within_lift_bind (resolves_schema _) (fun definition h => ?_)
  rw [hover] at h
  exact hf definition (hschema.knows (mapError_eq_ok h))

theorem safe_nestedEntered
    (hschema : schema.Accepted)
    (hnested : SafeNested schema nested)
    (object : Object) (relation : RelationName) (user : User) {body : NestedBody}
    (hbody : BodyResolves schema body) :
    Safe schema (nestedEntered nested object relation user body) := by
  cases body with
  | relationName =>
      refine (safe_ofDomain _).bind (fun objectType => ?_)
      exact safe_resolve_bind hschema (fun definition hknows =>
        safe_evalDefinition hnested hknows object relation user)
  | relationId id =>
      obtain ⟨definition, hget⟩ := hbody
      exact safe_relationById_bind hget (safe_evalDefinition hnested
        (hschema.knows_of_relationById hget) object relation user)
  | plain => exact safe_evalThis hnested object relation user

theorem safe_checkNested
    (hschema : schema.Accepted)
    (user : User) (fuel : Nat) :
    SafeNested schema (checkNested user fuel) := by
  induction fuel with
  | zero =>
      intro object relation body _
      apply Action.within_get_bind
      intro context _
      exact safe_evaluateCheckKey (Action.within_throw (notInvariantError_evaluation _))
  | succ fuel ih =>
      intro object relation body hbody
      apply Action.within_get_bind
      intro context _
      exact safe_evaluateCheckKey (safe_nestedEntered hschema ih object relation user hbody)

theorem safe_check
    (hschema : schema.Accepted)
    (object : Object) (relation : Relation) (user : User) :
    Safe schema (check object relation user) := by
  apply Action.within_get_bind
  intro context _
  apply safe_evaluateCheckKey
  refine (safe_ofDomain _).bind (fun objectType => (safe_ofDomain _).bind (fun name => ?_))
  exact safe_resolve_bind hschema (fun definition hknows =>
    safe_evalDefinition (safe_checkNested hschema user _) hknows object name user)

theorem safe_checkPrepared
    (hschema : schema.Accepted)
    {definition : RelationDefinition}
    (hknows : schema.Knows definition)
    (object : Object) (relation : Relation) (user : User) :
    Safe schema (checkPrepared object relation user definition) := by
  apply Action.within_get_bind
  intro context _
  exact safe_evaluateCheckKey
    (safe_evalDefinition (safe_checkNested hschema user _) hknows object definition.name user)

theorem safe_verifyLookupResiduals
    (hschema : schema.Accepted)
    (object : Object) (rootRelation : RelationName) (user : User)
    {residuals : List LookupResidualCheck}
    (hresiduals : ∀ residual ∈ residuals, ∃ objectType,
      residual.expression.ResolvedIn schema.resolver objectType) :
    Safe schema (verifyLookupResiduals object rootRelation user residuals) := by
  apply Action.within_get_bind
  intro context _
  apply safe_evaluateCheckKey
  induction residuals with
  | nil => exact Action.within_pure _
  | cons residual rest ih =>
      have hrest := ih (fun other hother => hresiduals other (List.mem_cons_of_mem _ hother))
      obtain ⟨objectType, hresolved⟩ := hresiduals residual List.mem_cons_self
      unfold verifyLookupResidualsEntered
      refine (safe_evalExpression (safe_checkNested hschema user _) object _ user _
        hresolved).bind (fun result => ?_)
      split
      · split
        · exact Action.within_pure _
        · exact hrest
      · split
        · exact Action.within_pure _
        · exact hrest

end Bodies

/-! ## Expansion -/

section Expansions

variable [StoreHasher] {nested : NestedExpand} {objectType : ObjectType}

/-- Nested keys are expanded without the error. -/
def SafeNestedExpand (schema : CompiledSchema) (nested : NestedExpand) : Prop :=
  ∀ object relation, Safe schema (nested object relation)

omit [StoreHasher] in
theorem safe_expandRows
    (refs : List RelationshipRef) :
    ∀ fanout, Safe schema (expandRows fanout refs) := by
  induction refs with
  | nil => exact fun _ => Action.within_pure _
  | cons ref rest ih =>
      intro fanout
      unfold expandRows
      refine (safe_incrementFanout fanout).bind (fun next => ?_)
      refine Action.within_lift_bind ref.resolves_expandedSubject (fun user _ => ?_)
      exact (ih next).bind (fun _ => Action.within_pure _)

theorem safe_expandThis
    (object : Object) (relation : RelationName) :
    Safe schema (expandThis object relation) := by
  refine (safe_ofDomain _).bind (fun resource => ?_)
  apply Action.within_get_bind
  intro context _
  exact (safe_expandRows _ 0).bind (fun _ => Action.within_pure _)

omit [StoreHasher] in
theorem safe_expandTupleset
    (hnested : SafeNestedExpand schema nested)
    (computed : RelationName)
    (refs : List RelationshipRef) :
    ∀ fanout, Safe schema (expandTupleset nested computed fanout refs) := by
  induction refs with
  | nil => exact fun _ => Action.within_pure _
  | cons ref rest ih =>
      intro fanout
      unfold expandTupleset
      refine Action.within_lift_bind ref.resolves_subjectUsersetRelationName
        (fun subject _ => ?_)
      cases subject with
      | none => exact ih fanout
      | some target =>
          refine (safe_incrementFanout fanout).bind (fun next => ?_)
          refine (hnested _ _).bind (fun user => ?_)
          exact (ih next).bind (fun _ => Action.within_pure _)

mutual

theorem safe_expandExpression
    (hnested : SafeNestedExpand schema nested)
    (object : Object) (relation : RelationName) :
    ∀ expression : CompiledUsersetExpression,
      expression.ResolvedIn schema.resolver objectType →
      Safe schema (expandCompiledSchemaExpression nested object relation expression)
  | .this, _ => by
      unfold expandCompiledSchemaExpression
      exact safe_expandThis object relation
  | .computedUserset target _ _, _ => by
      unfold expandCompiledSchemaExpression
      exact hnested object target
  | .tupleToUserset tupleset id computed, hresolved => by
      cases hresolved with
      | tupleToUserset _ hid =>
          unfold expandCompiledSchemaExpression expandTupleToUserset
          refine (safe_ofDomain _).bind (fun resource => safe_relationById_bind hid ?_)
          apply Action.within_get_bind
          intro context _
          exact (safe_expandTupleset hnested computed _ 0).bind (fun _ => Action.within_pure _)
  | .union expressions, hresolved => by
      cases hresolved with
      | union hresolved =>
          unfold expandCompiledSchemaExpression
          exact (safe_expandExpressions hnested object relation expressions hresolved).bind
            (fun _ => Action.within_pure _)
  | .intersection expressions, hresolved => by
      cases hresolved with
      | intersection hresolved =>
          unfold expandCompiledSchemaExpression
          exact (safe_expandExpressions hnested object relation expressions hresolved).bind
            (fun _ => Action.within_pure _)
  | .exclusion base exclude, hresolved => by
      cases hresolved with
      | exclusion hbase hexclude =>
          unfold expandCompiledSchemaExpression
          refine (safe_expandExpression hnested object relation base hbase).bind (fun _ => ?_)
          exact (safe_expandExpression hnested object relation exclude hexclude).bind
            (fun _ => Action.within_pure _)

theorem safe_expandExpressions
    (hnested : SafeNestedExpand schema nested)
    (object : Object) (relation : RelationName) :
    ∀ expressions : List CompiledUsersetExpression,
      (∀ expression ∈ expressions, expression.ResolvedIn schema.resolver objectType) →
      Safe schema (expandCompiledSchemaExpressions nested object relation expressions)
  | [], _ => Action.within_pure _
  | expression :: rest, hresolved => by
      unfold expandCompiledSchemaExpressions
      refine (safe_expandExpression hnested object relation expression
        (hresolved _ List.mem_cons_self)).bind (fun user => ?_)
      exact (safe_expandExpressions hnested object relation rest
        (fun other hother => hresolved other (List.mem_cons_of_mem _ hother))).bind
        (fun _ => Action.within_pure _)

end

omit [StoreHasher] in
theorem safe_openExpandKey
    (key : ExpandKey) :
    Safe schema (openExpandKey key) := by
  refine (safe_enter _).bind (fun _ => Action.within_modify (fun entered hover => ?_))
  unfold EvaluationContext.Over EvaluationContext.pushExpandKey
    EvaluationContext.rebuildActiveExpands
  dsimp only
  split
  · split <;> exact hover
  · exact hover

omit [StoreHasher] in
theorem safe_closeExpandKey :
    Safe schema closeExpandKey := by
  refine Action.within_modify (fun context hover => ?_)
  unfold EvaluationContext.popExpandKey EvaluationContext.deactivateExpandKey
  split
  · exact hover
  · split
    · split <;> exact hover
    · exact hover

theorem safe_expandRelationName
    (hschema : schema.Accepted)
    (fuel : Nat) :
    SafeNestedExpand schema (expandRelationName fuel) := by
  have hkey : ∀ {key : ExpandKey} {evaluate : Evaluation ExpandedUserset},
      Safe schema evaluate → Safe schema (evaluateExpandKey key evaluate) := by
    intro key evaluate hevaluate
    apply Action.within_get_bind
    intro context _
    split
    · exact Action.within_pure _
    · refine (safe_openExpandKey key).bind (fun _ => hevaluate.attempt_bind
        (fun result hresult => ?_))
      exact safe_closeExpandKey.bind (fun _ => Action.within_lift hresult)
  induction fuel with
  | zero =>
      intro object relation
      exact hkey (Action.within_throw (notInvariantError_evaluation _))
  | succ fuel ih =>
      intro object relation
      apply hkey
      refine (safe_ofDomain _).bind (fun objectType => ?_)
      refine safe_resolve_bind hschema (fun definition hknows => ?_)
      split
      · next expression hexpression =>
          obtain ⟨objectType, hresolved⟩ := hknows expression hexpression
          exact safe_expandExpression ih object relation expression hresolved
      · exact safe_expandThis object relation

theorem safe_expand
    (hschema : schema.Accepted)
    (object : Object) (relation : Relation) :
    Safe schema (expand object relation) := by
  refine (safe_ofDomain _).bind (fun name => ?_)
  apply Action.within_get_bind
  intro context _
  exact safe_expandRelationName hschema _ object name

end Expansions

end Evaluation

/-! ## Lookup of subjects -/

namespace LookupSubjectCollector

variable [StoreHasher] {schema : CompiledSchema}

/-- The checks of the collector are over the schema. -/
def Over (schema : CompiledSchema) (collector : LookupSubjectCollector) : Prop :=
  collector.checkContext.Over schema

/-- A step of the collector that does not return the error. -/
abbrev Safe {α : Type} (schema : CompiledSchema) (x : Collecting α) : Prop :=
  x.Within (Over schema) NotInvariantError

omit [StoreHasher] in
theorem safe_pushVerifiedSubject
    (subject : User) :
    Safe schema (pushVerifiedSubject subject) := by
  refine Action.Within.bind (Action.within_modify (fun _ h => h)) (fun _ => ?_)
  exact Action.within_get_bind (fun _ _ => Action.within_pure _)

omit [StoreHasher] in
theorem safe_insertSubject
    (subject : User) :
    Safe schema (insertSubject subject) :=
  Action.within_get_bind (fun _ hover =>
    (Action.within_set hover).bind (fun _ => Action.within_pure _))

omit [StoreHasher] in
theorem safe_insertUserset
    (object : Object) (relation : RelationName) :
    Safe schema (insertUserset object relation) :=
  Action.within_get_bind (fun _ hover =>
    (Action.within_set hover).bind (fun _ => Action.within_pure _))

theorem safe_verifySubject
    (hschema : schema.Accepted)
    (subject : User) :
    Safe schema (verifySubject subject) := by
  apply Action.within_get_bind
  intro collector _
  have hcheck : Evaluation.Safe schema (do
      Action.modify EvaluationContext.resetForReuse
      Evaluation.check collector.resource collector.permission subject) := by
    refine Action.Within.bind (Action.within_modify (fun context hover => ?_))
      (fun _ => Evaluation.safe_check hschema _ _ _)
    unfold EvaluationContext.resetForReuse
    dsimp only
    split <;> exact hover
  exact (hcheck.zoom (fun _ hover => hover) (fun _ _ _ hover => hover)).bind
    (fun _ => Action.within_pure _)

theorem safe_collectUserCandidate
    (hschema : schema.Accepted)
    (id : String) (verifyCandidate : Bool) :
    Safe schema (collectUserCandidate id verifyCandidate) := by
  apply Action.within_get_bind
  intro collector _
  split
  · exact Action.within_pure _
  · refine (safe_insertSubject _).bind (fun isNew => ?_)
    have hpush : Safe schema (do
        let _ ← pushVerifiedSubject (.userId id)
        return ()) :=
      (safe_pushVerifiedSubject _).bind (fun _ => Action.within_pure _)
    unfold reportUser
    split
    · split
      · exact hpush
      · refine (safe_verifySubject hschema _).bind (fun allowed => ?_)
        split
        · exact hpush
        · exact Action.within_pure _
    · exact Action.within_pure _

theorem safe_collectUsersetCandidate
    (hschema : schema.Accepted)
    (object : Object) (relation : RelationName) (verifyCandidate : Bool) :
    Safe schema (collectUsersetCandidate object relation verifyCandidate) := by
  have hinsert : Safe schema (insertUserset object relation) := safe_insertUserset object relation
  apply Action.within_get_bind
  intro collector _
  split
  · refine (safe_insertSubject _).bind (fun isNew => ?_)
    unfold reportUserset
    split
    · split
      · exact safe_pushVerifiedSubject _
      · refine (safe_verifySubject hschema _).bind (fun allowed => ?_)
        split
        · refine (safe_pushVerifiedSubject _).bind (fun more => ?_)
          split
          · exact Action.within_pure _
          · exact hinsert
        · exact hinsert
    · exact hinsert
  · exact hinsert

end LookupSubjectCollector

namespace Streaming

variable [StoreHasher] {schema : CompiledSchema} {nested : NestedStream}
  {objectType : ObjectType}

/-- The walk and its checks are over the schema. -/
def Over (schema : CompiledSchema) (stream : SubjectStream) : Prop :=
  stream.context.Over schema ∧ stream.collector.Over schema

/-- A step of the walk that does not return the error. -/
abbrev Safe {α : Type} (schema : CompiledSchema) (x : Streaming α) : Prop :=
  x.Within (Over schema) NotInvariantError

omit [StoreHasher] in
theorem safe_ofEvaluation
    {α : Type} {x : Evaluation α}
    (h : Evaluation.Safe schema x) :
    Safe schema (ofEvaluation x) :=
  h.zoom (fun _ hover => hover.1) (fun _ _ hover hcontext => ⟨hcontext, hover.2⟩)

omit [StoreHasher] in
theorem safe_ofCollecting
    {α : Type} {x : Collecting α}
    (h : LookupSubjectCollector.Safe schema x) :
    Safe schema (ofCollecting x) :=
  h.zoom (fun _ hover => hover.2) (fun _ _ hover hcollector => ⟨hover.1, hcollector⟩)

omit [StoreHasher] in
/-- Stopping where enough subjects are reported. -/
theorem safe_unlessReached
    {x : Streaming Unit}
    (h : Safe schema x) :
    Safe schema (do
      let reached ← resultLimitReached
      if reached then return ()
      else x) := by
  refine Action.Within.bind (Action.within_get_bind (fun _ _ => Action.within_pure _))
    (fun reached => ?_)
  split
  · exact Action.within_pure _
  · exact h

/-- Nested keys are walked without the error. -/
def SafeNestedStream (schema : CompiledSchema) (nested : NestedStream) : Prop :=
  ∀ object relation verify, Safe schema (nested object relation verify)

theorem safe_streamRow
    (hschema : schema.Accepted)
    (hnested : SafeNestedStream schema nested)
    (verify : Bool) (ref : RelationshipRef) :
    Safe schema (streamRow nested verify ref) := by
  refine Action.within_lift_bind ref.resolves_subjectUsersetRelationName (fun subject _ => ?_)
  cases subject with
  | some target =>
      refine (safe_ofCollecting (LookupSubjectCollector.safe_collectUsersetCandidate hschema
        target.1 target.2 verify)).bind (fun walk => ?_)
      split
      · exact hnested _ _ _
      · exact Action.within_pure _
  | none =>
      dsimp only
      split
      · exact safe_ofCollecting
          (LookupSubjectCollector.safe_collectUserCandidate hschema _ verify)
      · exact Action.within_lift_bind ref.resolves_expandedSubject
          (fun _ _ => Action.within_pure _)

theorem safe_streamRows
    (hschema : schema.Accepted)
    (hnested : SafeNestedStream schema nested)
    (verify : Bool) (refs : List RelationshipRef) :
    ∀ fanout, Safe schema (streamRows nested verify fanout refs) := by
  induction refs with
  | nil => exact fun _ => Action.within_pure _
  | cons ref rest ih =>
      intro fanout
      unfold streamRows
      refine safe_unlessReached ?_
      refine (safe_ofEvaluation (Evaluation.safe_incrementFanout fanout)).bind (fun next => ?_)
      exact (safe_streamRow hschema hnested verify ref).bind (fun _ => ih next)

theorem safe_streamThis
    (hschema : schema.Accepted)
    (hnested : SafeNestedStream schema nested)
    (object : Object) (relation : RelationName) (verify : Bool) :
    Safe schema (streamLookupSubjectsThis nested object relation verify) := by
  refine (safe_ofEvaluation (Evaluation.safe_ofDomain _)).bind (fun resource => ?_)
  exact Action.within_get_bind (fun _ _ => safe_streamRows hschema hnested verify _ 0)

omit [StoreHasher] in
theorem safe_streamTupleset
    (hnested : SafeNestedStream schema nested)
    (computed : RelationName) (refs : List RelationshipRef) :
    ∀ fanout, Safe schema (streamTupleset nested computed fanout refs) := by
  induction refs with
  | nil => exact fun _ => Action.within_pure _
  | cons ref rest ih =>
      intro fanout
      unfold streamTupleset
      refine safe_unlessReached ?_
      refine Action.within_lift_bind ref.resolves_subjectUsersetRelationName
        (fun subject _ => ?_)
      cases subject with
      | none => exact ih fanout
      | some target =>
          refine (safe_ofEvaluation (Evaluation.safe_incrementFanout fanout)).bind
            (fun next => ?_)
          exact (hnested _ _ _).bind (fun _ => ih next)

/-- A resolved position is looked up without failure. -/
theorem safe_streamTupleToUserset
    (hnested : SafeNestedStream schema nested)
    (object : Object) {id : SchemaRelationId} {definition : RelationDefinition}
    (hget : schema.resolver.relationById id = some definition)
    (computed : RelationName) :
    Safe schema (streamTupleToUserset nested object id computed) := by
  refine (safe_ofEvaluation (Evaluation.safe_ofDomain _)).bind (fun resource => ?_)
  refine Action.Within.bind (safe_ofEvaluation ?_) (fun tupleset => ?_)
  · apply Action.within_get_bind
    intro context hover
    rw [hover, hget]
    exact Action.within_pure _
  · exact Action.within_get_bind (fun _ _ => safe_streamTupleset hnested computed _ 0)

mutual

theorem safe_streamExpression
    (hschema : schema.Accepted)
    (hnested : SafeNestedStream schema nested)
    (object : Object) (relation : RelationName) :
    ∀ (expression : CompiledUsersetExpression) (verify : Bool),
      expression.ResolvedIn schema.resolver objectType →
      Safe schema (streamLookupSubjectsExpression nested object relation verify expression)
  | .this, verify, _ => by
      unfold streamLookupSubjectsExpression
      exact safe_unlessReached (safe_streamThis hschema hnested object relation verify)
  | .computedUserset target _ _, verify, _ => by
      unfold streamLookupSubjectsExpression
      exact safe_unlessReached (hnested object target verify)
  | .tupleToUserset tupleset id computed, verify, hresolved => by
      cases hresolved with
      | tupleToUserset _ hid =>
          unfold streamLookupSubjectsExpression
          exact safe_unlessReached (safe_streamTupleToUserset hnested object hid computed)
  | .union expressions, verify, hresolved => by
      cases hresolved with
      | union hresolved =>
          unfold streamLookupSubjectsExpression
          exact safe_unlessReached
            (safe_streamExpressions hschema hnested object relation expressions verify hresolved)
  | .intersection expressions, verify, hresolved => by
      cases hresolved with
      | intersection hresolved =>
          unfold streamLookupSubjectsExpression
          exact safe_unlessReached
            (safe_streamExpressions hschema hnested object relation expressions verify hresolved)
  | .exclusion base _, verify, hresolved => by
      cases hresolved with
      | exclusion hbase _ =>
          unfold streamLookupSubjectsExpression
          exact safe_unlessReached
            (safe_streamExpression hschema hnested object relation base true hbase)

theorem safe_streamExpressions
    (hschema : schema.Accepted)
    (hnested : SafeNestedStream schema nested)
    (object : Object) (relation : RelationName) :
    ∀ (expressions : List CompiledUsersetExpression) (verify : Bool),
      (∀ expression ∈ expressions, expression.ResolvedIn schema.resolver objectType) →
      Safe schema (streamLookupSubjectsExpressions nested object relation verify expressions)
  | [], _, _ => Action.within_pure _
  | expression :: rest, verify, hresolved => by
      unfold streamLookupSubjectsExpressions
      refine (safe_streamExpression hschema hnested object relation expression verify
        (hresolved _ List.mem_cons_self)).bind (fun _ => safe_unlessReached ?_)
      exact safe_streamExpressions hschema hnested object relation rest verify
        (fun other hother => hresolved other (List.mem_cons_of_mem _ hother))

end

omit [StoreHasher] in
/-- Going on with the value of a fallible computation. -/
theorem safe_ofEvaluation_lift_bind
    {α β : Type} {r : Except ZanzibarError α} {f : α → Streaming β}
    (herror : Resolves r)
    (hok : ∀ a, r = .ok a → Safe schema (f a)) :
    Safe schema (ofEvaluation (Action.lift r) >>= f) := by
  cases r with
  | ok a => exact fun stream hover => hok a rfl stream hover
  | error error =>
      intro stream hover
      refine ⟨hover, ?_⟩
      rintro _ h
      cases h
      exact herror error rfl

theorem safe_streamRelationEntered
    (hschema : schema.Accepted)
    (hnested : SafeNestedStream schema nested)
    (object : Object) (relation : RelationName) (inherited : Bool) :
    Safe schema (streamLookupSubjectsRelationEntered nested object relation inherited) := by
  refine (safe_ofEvaluation (Evaluation.safe_ofDomain _)).bind (fun objectType => ?_)
  apply Action.within_get_bind
  intro stream hover
  refine safe_ofEvaluation_lift_bind (resolves_schema _)
    (fun definition hdefinition => ?_)
  have hrelation : schema.resolver.relation objectType relation = .ok definition := by
    rw [← hover.1]
    exact mapError_eq_ok hdefinition
  have hknows := hschema.knows hrelation
  refine Action.Within.bind ?_ (fun required => ?_)
  · split
    · exact Action.within_pure _
    · rw [hover.1]
      exact Action.within_lift (CompiledSchema.resolves_requiresVerification hschema hknows)
  · split
    · next expression hexpression =>
        obtain ⟨objectType, hresolved⟩ := hknows expression hexpression
        exact safe_streamExpression hschema hnested object relation expression required hresolved
    · exact safe_streamThis hschema hnested object relation required

theorem safe_streamRelation
    (hschema : schema.Accepted)
    (fuel : Nat) :
    SafeNestedStream schema (streamLookupSubjectsRelation fuel) := by
  have hkey : ∀ {key : ExpandKey} {evaluate : Streaming Unit},
      Safe schema evaluate → Safe schema (evaluateStreamKey key evaluate) := by
    intro key evaluate hevaluate
    refine safe_unlessReached (Action.within_get_bind (fun stream _ => ?_))
    split
    · exact Action.within_pure _
    · refine (safe_ofEvaluation (Evaluation.safe_openExpandKey key)).bind
        (fun _ => hevaluate.attempt_bind (fun result hresult => ?_))
      exact (safe_ofEvaluation Evaluation.safe_closeExpandKey).bind
        (fun _ => Action.within_lift hresult)
  induction fuel with
  | zero =>
      intro object relation verify
      exact hkey (Action.within_throw (notInvariantError_evaluation _))
  | succ fuel ih =>
      intro object relation verify
      exact hkey (safe_streamRelationEntered hschema ih object relation verify)

end Streaming

theorem resolves_lookupSubjects
    [StoreHasher] {snapshot : PublishedSnapshot}
    (hschema : snapshot.schema.Accepted)
    (request : LookupSubjectsRequest) (limits : EvaluationLimits) :
    Resolves (lookupSubjectsWithSnapshot snapshot request limits) := by
  have hstream : ∀ (permission : RelationName) (stream : SubjectStream) error after,
      Streaming.streamLookupSubjectsRelation limits.maxDepth.get request.resource permission false
        stream = (.error error, after) →
      stream.context.Over snapshot.schema → stream.collector.checkContext.Over snapshot.schema →
      NotInvariantError error := by
    intro permission stream error after hrun hcontext hcheck
    obtain ⟨_, herror⟩ := Streaming.safe_streamRelation hschema limits.maxDepth.get
      request.resource permission false stream ⟨hcontext, hcheck⟩
    rw [hrun] at herror
    exact herror error rfl
  unfold lookupSubjectsWithSnapshot
  refine (resolves_domain _).bind (fun resource _ =>
    (resolves_domain _).bind (fun permission _ => ?_))
  refine (resolves_schema _).bind (fun _ _ => (resolves_domain _).bind (fun subjectType _ => ?_))
  split
  · refine (resolves_domain _).bind (fun objectType _ => (resolves_schema _).bind (fun _ _ => ?_))
    dsimp only
    split
    · exact resolves_ok _
    · next error after hrun =>
        rintro _ h
        cases h
        exact hstream permission _ error after hrun rfl rfl
  · dsimp only
    split
    · exact resolves_ok _
    · next error after hrun =>
        rintro _ h
        cases h
        exact hstream permission _ error after hrun rfl rfl

/-! ## Lookup of resources -/

namespace ResourceLookup

variable [StoreHasher] {schema : CompiledSchema} {lookup : ResourceLookup}

/-- A step of the walk that keeps what is known of the context of its checks and does not return
the error. -/
abbrev Safe {α : Type} (inv : EvaluationContext → Prop) (x : Walking α) : Prop :=
  x.Within (fun walk => inv walk.checkContext) NotInvariantError

/-- The lookup is over the schema, with the residual operands of its plan resolved. -/
structure Planned (schema : CompiledSchema) (lookup : ResourceLookup) : Prop where
  reads : lookup.snapshot.schema = schema
  accepted : schema.Accepted
  plan : ∀ plan, lookup.producerPlan = some plan →
    CompiledSchema.RulesResolved schema plan.verificationRules

/-- The verifications with which the lookup meets its candidates. -/
def Uses (lookup : ResourceLookup) (verification : LookupCandidateVerification) : Prop :=
  verification = .fullRoot ∨
    ∃ relationship proof, verification = lookup.verificationFor relationship proof

/-- The verification of candidates keeps what is known of the context. -/
def Verifies (lookup : ResourceLookup) (inv : EvaluationContext → Prop) : Prop :=
  ∀ object verification, object.namespaceName = lookup.resourceType.value →
    lookup.Uses verification →
    (Evaluation.verifyLookupResourceCandidate object lookup.request verification).Within inv
      NotInvariantError

omit [StoreHasher] in
theorem verificationResolved_for
    (h : lookup.Planned schema)
    {verification : LookupCandidateVerification}
    (huses : lookup.Uses verification) :
    CompiledSchema.VerificationResolved schema verification := by
  rcases huses with rfl | ⟨relationship, proof, rfl⟩
  · trivial
  unfold verificationFor
  split
  · trivial
  · next plan hplan =>
      unfold LookupProducerPlan.verificationForRelationship
      split
      · trivial
      · split
        · next rule hrule => exact h.plan plan hplan rule (List.mem_of_find?_eq_some hrule)
        · trivial

/-- Candidates are verified over the schema of the lookup. -/
theorem Planned.verifies
    (h : lookup.Planned schema) :
    lookup.Verifies (·.Over schema) := by
  have hreset : Evaluation.Safe schema (Action.modify EvaluationContext.resetForReuse) := by
    refine Action.within_modify (fun context hover => ?_)
    unfold EvaluationContext.resetForReuse
    dsimp only
    split <;> exact hover
  intro object verification _ huses
  have hresolved := verificationResolved_for h huses
  cases verification with
  | fullRoot =>
      refine hreset.bind (fun _ => (Evaluation.safe_check h.accepted _ _ _).bind (fun _ => ?_))
      exact Action.within_pure _
  | provenWithoutCheck => exact Action.within_pure _
  | residual residuals =>
      refine hreset.bind (fun _ => (Evaluation.safe_ofDomain _).bind (fun name => ?_))
      exact (Evaluation.safe_verifyLookupResiduals h.accepted _ _ _ hresolved).bind
        (fun _ => Action.within_pure _)

section Walks

variable {inv : EvaluationContext → Prop}

omit [StoreHasher] in
/-- Changing the rest of the walk. -/
theorem safe_set_bind
    {α : Type} {walk : LookupWalk} {a : α}
    (h : inv walk.checkContext) :
    Safe inv (Action.set walk >>= fun _ => pure a) :=
  Action.Within.bind (Action.within_set h) (fun _ => Action.within_pure _)

theorem safe_verifyCandidate
    (hverifies : lookup.Verifies inv)
    {object : Object} {verification : LookupCandidateVerification}
    (htype : object.namespaceName = lookup.resourceType.value)
    (huses : lookup.Uses verification) :
    Safe inv (lookup.verifyCandidate object verification) := by
  refine ((hverifies object verification htype huses).zoom (fun _ h => h)
    (fun _ _ _ h => h)).bind (fun allowed => ?_)
  split
  · refine Action.Within.bind (Action.within_modify (fun _ h => h)) (fun _ => ?_)
    exact Action.within_get_bind (fun _ _ => Action.within_pure _)
  · exact Action.within_pure _

omit [StoreHasher] in
theorem safe_insertSeen
    (object : Object) :
    Safe inv (insertSeen object) :=
  Action.within_get_bind (fun _ hinv => safe_set_bind (by exact hinv))

omit [StoreHasher] in
theorem safe_followSubject
    (subject : User) (proof : LookupSubjectProof) :
    Safe inv (followSubject subject proof) := by
  refine Action.within_modify (fun walk hinv => ?_)
  split <;> exact hinv

theorem safe_followExpanded
    (subject : User) :
    Safe inv (lookup.followExpanded subject) := by
  refine Action.within_lift_bind (resolves_domain _) (fun filter _ => ?_)
  split
  · exact safe_followSubject _ _
  · exact Action.within_pure _

theorem safe_prunedRelationMayHaveDownstream
    (name : String) :
    Safe inv (lookup.prunedRelationMayHaveDownstream name) := by
  apply Action.within_get_bind
  intro walk hinv
  split
  · exact Action.within_pure _
  · refine Action.within_lift_bind (resolves_domain _) (fun relation _ => ?_)
    exact safe_set_bind (by exact hinv)

omit [StoreHasher] in
theorem resolves_lookupRelationshipProof
    (relationship : RelationshipRef) (proof : LookupSubjectProof) (object : Object) :
    Resolves (lookupRelationshipProof schema relationship proof object) := by
  unfold lookupRelationshipProof
  split
  · exact resolves_ok _
  · refine (resolves_domain _).bind (fun objectType _ =>
      (resolves_domain _).bind (fun relation _ => ?_))
    refine Resolves.bind ?_ (fun _ _ => resolves_ok _)
    exact (resolves_schema _).bind (fun _ _ => resolves_ok _)

theorem safe_processRelationship
    (hverifies : lookup.Verifies inv)
    (entry : LookupFrontierEntry) (relationship : RelationshipRef) :
    Safe inv (lookup.processLookupResourcesRelationship entry relationship) := by
  have hprune : Safe inv (lookup.pruneRelationship relationship) := by
    apply Action.within_get_bind
    intro walk hinv
    split
    · exact Action.within_pure _
    · exact safe_set_bind (by exact hinv)
  refine Action.Within.bind ?_ (fun shouldPrune => Action.Within.bind ?_ (fun downstream => ?_))
  · split
    · exact hprune
    · exact Action.within_pure _
  · split
    · exact safe_prunedRelationMayHaveDownstream _
    · exact Action.within_pure _
  · split
    · exact Action.within_pure _
    · refine Action.within_lift_bind (resolves_lookupRelationshipProof _ _ _) (fun proof _ => ?_)
      refine Action.Within.bind ?_ (fun reached => ?_)
      · unfold offerRelationship
        split
        · next hoffered =>
          obtain ⟨htype, _⟩ := Bool.and_eq_true_iff.mp hoffered
          refine (safe_insertSeen _).bind (fun isNew => ?_)
          split
          · exact safe_verifyCandidate hverifies (of_decide_eq_true htype)
              (Or.inr ⟨_, _, rfl⟩)
          · exact Action.within_pure _
        · exact Action.within_pure _
      · split
        · exact Action.within_pure _
        · refine Action.Within.bind ?_ (fun _ => Action.within_pure _)
          unfold followRelationship
          dsimp only
          split
          · refine Action.within_lift_bind (resolves_domain _)
              (fun filter _ => ?_)
            split
            · exact safe_followSubject _ _
            · exact Action.within_pure _
          · exact safe_followSubject _ _

theorem safe_processRows
    (hverifies : lookup.Verifies inv)
    (entry : LookupFrontierEntry) (relationships : List RelationshipRef) :
    Safe inv (lookup.processRows entry relationships) := by
  induction relationships with
  | nil => exact Action.within_pure _
  | cons relationship rest ih =>
      refine (safe_processRelationship hverifies entry relationship).bind (fun reached => ?_)
      split
      · exact Action.within_pure _
      · exact ih

theorem safe_enqueueSameObject
    (h : lookup.Planned schema)
    (subject : User) :
    Safe inv (lookup.enqueueSameObjectRelationExpansions subject) := by
  cases subject with
  | userId id => exact Action.within_pure _
  | userset object relation =>
      refine Action.within_lift_bind (resolves_domain _)
        (fun objectType _ => ?_)
      refine Action.within_lift_bind (resolves_domain _)
        (fun source _ => ?_)
      refine Action.Within.bind ?_ (fun targets => Action.within_forEach
        (fun target => safe_followExpanded _) targets)
      apply Action.within_get_bind
      intro walk hinv
      split
      · exact Action.within_pure _
      · rw [h.reads]
        refine Action.within_lift_bind
          (CompiledSchema.resolves_sameObjectRelationExpansions h.accepted) (fun targets _ => ?_)
        exact safe_set_bind (by exact hinv)

theorem safe_processTarget
    (hverifies : lookup.Verifies inv)
    (relationship : RelationshipRef) (target : TupleToUsersetExpansionTarget) :
    Safe inv (lookup.processTarget relationship target) := by
  refine Action.Within.bind ?_ (fun reached => ?_)
  · split
    · next htype =>
      refine (safe_insertSeen _).bind (fun isNew => ?_)
      split
      · exact safe_verifyCandidate hverifies (of_decide_eq_true htype) (Or.inl rfl)
      · exact Action.within_pure _
    · exact Action.within_pure _
  · split
    · exact Action.within_pure _
    · exact (safe_followExpanded _).bind (fun _ => Action.within_pure _)

theorem safe_processTargets
    (hverifies : lookup.Verifies inv)
    (relationship : RelationshipRef) (targets : List TupleToUsersetExpansionTarget) :
    Safe inv (lookup.processTargets relationship targets) := by
  induction targets with
  | nil => exact Action.within_pure _
  | cons target rest ih =>
      refine (safe_processTarget hverifies relationship target).bind (fun reached => ?_)
      split
      · exact Action.within_pure _
      · exact ih

theorem safe_processBroadRows
    (hverifies : lookup.Verifies inv)
    (targets : List TupleToUsersetExpansionTarget) (relationships : List RelationshipRef) :
    Safe inv (lookup.processBroadRows targets relationships) := by
  induction relationships with
  | nil => exact Action.within_pure _
  | cons relationship rest ih =>
      refine (safe_processTargets hverifies relationship _).bind (fun reached => ?_)
      split
      · exact Action.within_pure _
      · exact ih

theorem safe_processTupleToUserset
    (h : lookup.Planned schema)
    (hverifies : lookup.Verifies inv)
    (subject : User) :
    Safe inv (lookup.processTupleToUsersetIgnoredRelationEdges subject) := by
  cases subject with
  | userId id => exact Action.within_pure _
  | userset object relation =>
      refine Action.within_lift_bind (resolves_domain _)
        (fun objectType _ => ?_)
      refine Action.within_lift_bind (resolves_domain _)
        (fun source _ => ?_)
      refine Action.Within.bind ?_ (fun targets => ?_)
      · apply Action.within_get_bind
        intro walk hinv
        split
        · exact Action.within_pure _
        · rw [h.reads]
          refine Action.within_lift_bind
            (CompiledSchema.resolves_tupleToUsersetRelationExpansions h.accepted)
            (fun targets _ => ?_)
          exact safe_set_bind (by exact hinv)
      · refine Action.within_lift_bind (resolves_domain _)
          (fun subjectType _ => ?_)
        refine Action.within_lift_bind (resolves_domain _)
          (fun subjectId _ => ?_)
        dsimp only
        split
        · exact Action.within_pure _
        · exact safe_processBroadRows hverifies _ _

theorem safe_walkFrontier
    (h : lookup.Planned schema)
    (hverifies : lookup.Verifies inv)
    (steps : Nat) :
    Safe inv (lookup.walkFrontier steps) := by
  induction steps with
  | zero => exact Action.within_pure _
  | succ steps ih =>
      apply Action.within_get_bind
      intro walk hinv
      split
      · exact Action.within_pure _
      · next entry rest _ =>
          refine Action.Within.bind (Action.within_set hinv) (fun _ => ?_)
          refine Action.Within.bind ?_ (fun reached => ?_)
          · refine (safe_enqueueSameObject h entry.subject).bind (fun _ => ?_)
            refine Action.within_lift_bind (resolves_domain _)
              (fun filter _ => ?_)
            refine (safe_processRows hverifies entry _).bind (fun reached => ?_)
            split
            · exact Action.within_pure _
            · exact safe_processTupleToUserset h hverifies entry.subject
          · split
            · exact Action.within_pure _
            · exact ih

end Walks

end ResourceLookup

/-- A prepared lookup has a plan whose residual operands are resolved. -/
theorem prepareLookupResources_planned
    {snapshot : PublishedSnapshot}
    (hschema : snapshot.schema.Accepted)
    (request : LookupResourcesRequest) (limits : EvaluationLimits) :
    Outcome (prepareLookupResources snapshot request limits)
      (fun lookup => lookup.Planned snapshot.schema) NotInvariantError := by
  unfold prepareLookupResources
  refine Outcome.bind (resolves_domain _).outcome (fun resourceType _ => ?_)
  refine Outcome.bind (resolves_domain _).outcome (fun permission _ => ?_)
  refine Outcome.bind (resolves_schema _).outcome (fun _ _ => ?_)
  refine Outcome.bind (CompiledSchema.lookupProducerPlan_resolved hschema permission)
    (fun plan hplan => ?_)
  refine Outcome.bind (resolves_domain _).outcome (fun subjectType _ => ?_)
  exact ⟨rfl, hschema, hplan⟩

theorem resolves_lookupResources
    [StoreHasher] {snapshot : PublishedSnapshot}
    (hschema : snapshot.schema.Accepted)
    (request : LookupResourcesRequest) (limits : EvaluationLimits) (steps : Nat) :
    Resolves (lookupResourcesWithSnapshot snapshot request limits steps) := by
  have hprepared := prepareLookupResources_planned hschema request limits
  unfold lookupResourcesWithSnapshot
  cases hlookup : prepareLookupResources snapshot request limits with
  | error error =>
      rw [hlookup] at hprepared
      rintro _ h
      cases h
      exact hprepared
  | ok lookup =>
      rw [hlookup] at hprepared
      have hsnapshot : lookup.snapshot.schema = snapshot.schema := hprepared.reads
      obtain ⟨_, herror⟩ := ResourceLookup.safe_walkFrontier hprepared hprepared.verifies steps
        (lookup.initialWalk lookup.producerPlan.isSome) hsnapshot
      refine (resolves_ok lookup).bind (fun found hfound => ?_)
      cases hfound
      split
      · exact resolves_ok _
      · exact resolves_ok _
      · next error walk hrun =>
          rw [hrun] at herror
          rintro _ h
          cases h
          exact herror error rfl

/-- None of the entry points of the evaluator returns the error for a position out of
bounds. -/
structure EvaluatorResolves [StoreHasher] (snapshot : PublishedSnapshot) : Prop where
  check : ∀ object relation user limits,
    Resolves (checkWithSnapshot snapshot object relation user limits)
  checkPrepared : ∀ object relation user limits objectType name definition,
    snapshot.schema.resolver.relation objectType name = .ok definition →
    Resolves (checkPreparedWithSnapshot snapshot object relation user definition limits)
  expand : ∀ object relation limits,
    Resolves (expandWithSnapshot snapshot object relation limits)
  lookupSubjects : ∀ request limits,
    Resolves (lookupSubjectsWithSnapshot snapshot request limits)
  lookupResources : ∀ request limits steps,
    Resolves (lookupResourcesWithSnapshot snapshot request limits steps)

theorem CompiledSchema.Accepted.evaluatorResolves
    [StoreHasher] {snapshot : PublishedSnapshot}
    (hschema : snapshot.schema.Accepted) :
    EvaluatorResolves snapshot where
  check := fun object relation user limits =>
    (Evaluation.safe_check hschema object relation user (.new snapshot limits) rfl).2
  checkPrepared := fun object relation user limits _ _ _ hdefinition =>
    (Evaluation.safe_checkPrepared hschema (hschema.knows hdefinition) object relation user
      (.new snapshot limits) rfl).2
  expand := fun object relation limits =>
    (Evaluation.safe_expand hschema object relation (.new snapshot limits) rfl).2
  lookupSubjects := resolves_lookupSubjects hschema
  lookupResources := resolves_lookupResources hschema

/-! ## What compiling keeps -/

/-- The compiled relation is the source relation with a rewrite whose erasure is the source
rewrite and whose references resolve in the schema. -/
structure RelationDefinition.PreservedIn (schema : CompiledSchema) (objectType : ObjectType)
    (source compiled : RelationDefinition) : Prop where
  kept : compiled = { source with compiledUsersetRewrite := compiled.compiledUsersetRewrite }
  isSome : compiled.compiledUsersetRewrite.isSome = source.usersetRewrite.isSome
  erased : compiled.compiledUsersetRewrite.map (·.source) = source.usersetRewrite
  resolved : ∀ rewrite, compiled.compiledUsersetRewrite = some rewrite →
    rewrite.ResolvedIn schema.resolver objectType

/-- The compiled namespace has the source relations in their order. -/
structure NamespaceDefinition.PreservedIn (schema : CompiledSchema)
    (source compiled : NamespaceDefinition) : Prop where
  name : compiled.name = source.name
  relations : List.Forall₂ (RelationDefinition.PreservedIn schema compiled.name)
    source.relations compiled.relations

theorem CompiledSchema.Accepted.preservedIn
    {schema : CompiledSchema}
    (hschema : schema.Accepted)
    {namespaceDefinition : NamespaceDefinition} {source compiled : RelationDefinition}
    (hnamespace : namespaceDefinition ∈ schema.resolver.definitions)
    (hcompiled : compiled ∈ namespaceDefinition.relations)
    (hkept : source.Kept compiled) :
    source.PreservedIn schema namespaceDefinition.name compiled := by
  obtain ⟨herased, hresolved⟩ := hschema.relation (hschema.relation_of_mem hnamespace hcompiled)
  have hrewrite : compiled.usersetRewrite = source.usersetRewrite := by
    rw [hkept]
  rw [hrewrite] at herased
  refine ⟨hkept, ?_, herased, hresolved⟩
  rw [← herased, Option.isSome_map]

/-- Compiling preserves the source, and over what it returns the evaluator never meets a
position out of bounds. -/
theorem CompiledSchema.fromDefinitions_preserves
    [StoreHasher] {definitions : List NamespaceDefinition} {schema : CompiledSchema}
    (h : fromDefinitions definitions = .ok schema) :
    List.Forall₂ (NamespaceDefinition.PreservedIn schema) definitions schema.definitions ∧
      schema.resolver.definitions = schema.definitions ∧
      ∀ snapshot : PublishedSnapshot, snapshot.schema = schema →
        EvaluatorResolves snapshot := by
  have hschema : schema.Accepted := ⟨definitions, h⟩
  obtain ⟨_, hresolver, hkept, _⟩ := fromDefinitions_eq_ok h
  have hdefinitions : schema.resolver.definitions = schema.definitions := by
    rw [hresolver]
  refine ⟨forall₂_imp_of_mem hkept ?_, hdefinitions, ?_⟩
  · intro source _ compiled hcompiled hpair
    rw [← hdefinitions] at hcompiled
    refine ⟨hpair.name, forall₂_imp_of_mem hpair.relations ?_⟩
    exact fun relation _ relation' hrelation' hrelations =>
      hschema.preservedIn hcompiled hrelation' hrelations
  · rintro snapshot rfl
    exact hschema.evaluatorResolves

/-- The schema of the team readers is preserved. -/
theorem CompiledSchema.fromDefinitions_preserves_teamReader :
    ∃ schema : CompiledSchema, fromDefinitions teamReaderDefinitions = .ok schema ∧
      List.Forall₂ (NamespaceDefinition.PreservedIn schema) teamReaderDefinitions
        schema.definitions := by
  let _ := fnvHasher
  have hrun : ((fromDefinitions teamReaderDefinitions).map (fun _ => ())).toOption =
      some () := by
    decide +kernel
  obtain ⟨schema, hschema, _⟩ := exists_ok_of_map_toOption hrun
  exact ⟨schema, hschema, (fromDefinitions_preserves hschema).1⟩

end SimpleZanzibar
