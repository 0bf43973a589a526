import SimpleZanzibar.Eval.Check

/-!
# Relations between two runs of the evaluator

The bodies of a check are written over the evaluation of nested keys.  Where two evaluations
of nested keys are related on the keys that a body asks for, the body over the one is related
to the body over the other, by every relation that sequencing preserves.  Simulations,
invariants of the context and equalities of two runs are such relations.

**Results.**
* `EvaluatorError`: the errors that the evaluator returns by itself.
* `CallsIn`: the nested keys that a rewrite asks for.
* `Congruence.evalExpression`, `Congruence.evalDefinition`, `Congruence.nestedEntered`: the
  bodies.
-/

namespace SimpleZanzibar

namespace Evaluation

/-- The errors of the evaluator: those of names, of the schema and of the limits, and the one of
a position out of bounds. -/
def EvaluatorError (error : ZanzibarError) : Prop :=
  error = compiledSchemaInvariantError ∨ ∀ message, error ≠ .storageError message

/-- A computation that only fails with errors of the evaluator. -/
def RaisesEvaluatorErrors {α : Type} (r : Except ZanzibarError α) : Prop :=
  ∀ error, r = .error error → EvaluatorError error

theorem raises_ok
    {α : Type} (a : α) :
    RaisesEvaluatorErrors (.ok a : Except ZanzibarError α) := by
  intro error h
  cases h

theorem raises_domain
    {α : Type} (r : Except DomainError α) :
    RaisesEvaluatorErrors (r.mapError .domain) := by
  intro error h
  cases r with
  | ok a => cases h
  | error e =>
      cases h
      exact Or.inr (fun message hsame => by cases hsame)

theorem raises_schema
    {α : Type} (r : Except SchemaError α) :
    RaisesEvaluatorErrors (r.mapError .schema) := by
  intro error h
  cases r with
  | ok a => cases h
  | error e =>
      cases h
      exact Or.inr (fun message hsame => by cases hsame)

theorem evaluatorError_evaluation
    (error : EvaluationError) :
    EvaluatorError (.evaluation error) :=
  Or.inr (fun message hsame => by cases hsame)

theorem raises_subjectUsersetRelationName
    (ref : RelationshipRef) :
    RaisesEvaluatorErrors ref.subjectUsersetRelationName := by
  unfold RelationshipRef.subjectUsersetRelationName
  split
  · exact raises_ok none
  · split
    · exact raises_ok _
    · intro error h
      cases h
      exact Or.inr (fun message hsame => by cases hsame)

/-- A relation between steps over a snapshot that holds of the elementary steps and that
sequencing preserves. -/
structure Congruence (snapshot : PublishedSnapshot)
    (Rel : ∀ α : Type, Evaluation α → Evaluation α → Prop) : Prop where
  lift : ∀ {α : Type} (r : Except ZanzibarError α), RaisesEvaluatorErrors r →
    Rel α (Action.lift r) (Action.lift r)
  bind : ∀ {α β : Type} {x x' : Evaluation α} {f f' : α → Evaluation β}, Rel α x x' →
    (∀ a, Rel β (f a) (f' a)) → Rel β (x >>= f) (x' >>= f')
  incrementFanout : ∀ current, Rel Nat (incrementFanout current) (incrementFanout current)
  read : ∀ {α : Type} {f f' : EvaluationContext → Evaluation α},
    (∀ context context', context.snapshot = snapshot → context'.snapshot = snapshot →
      Rel α (f context) (f' context')) →
    Rel α (Action.get >>= f) (Action.get >>= f')

/-- The nested keys that a loop over the rows of a relation asks for. -/
def RowsCall [StoreHasher] (snapshot : PublishedSnapshot)
    (calls : Object → RelationName → NestedBody → Prop) (object : Object)
    (relation : RelationName) (relationOf : RelationName → RelationName) : Prop :=
  ∀ resource, ObjectRef.tryFrom object = .ok resource →
    ∀ ref ∈ snapshot.relationships.resourceRelation resource relation unboundedQueryLimit,
      ∀ target, ref.subjectUsersetRelationName = .ok (some target) →
        calls target.1 (relationOf target.2) .relationName

/-- The nested keys that a rewrite asks for are among the calls. -/
inductive CallsIn [StoreHasher] (snapshot : PublishedSnapshot)
    (calls : Object → RelationName → NestedBody → Prop) (object : Object)
    (relationName : RelationName) : CompiledUsersetExpression → Prop
  | this :
      RowsCall snapshot calls object relationName id →
      CallsIn snapshot calls object relationName .this
  | computedUserset {relation : RelationName} {id : SchemaRelationId} {hasRewrite : Bool} :
      calls object relation (if hasRewrite then .relationId id else .plain) →
      CallsIn snapshot calls object relationName (.computedUserset relation id hasRewrite)
  | tupleToUserset {tupleset computed : RelationName} {id : SchemaRelationId} :
      (∀ definition, snapshot.schema.resolver.relationById id = some definition →
        RowsCall snapshot calls object definition.name (fun _ => computed)) →
      CallsIn snapshot calls object relationName (.tupleToUserset tupleset id computed)
  | union {expressions : List CompiledUsersetExpression} :
      (∀ expression ∈ expressions, CallsIn snapshot calls object relationName expression) →
      CallsIn snapshot calls object relationName (.union expressions)
  | intersection {expressions : List CompiledUsersetExpression} :
      (∀ expression ∈ expressions, CallsIn snapshot calls object relationName expression) →
      CallsIn snapshot calls object relationName (.intersection expressions)
  | exclusion {base exclude : CompiledUsersetExpression} :
      CallsIn snapshot calls object relationName base →
      CallsIn snapshot calls object relationName exclude →
      CallsIn snapshot calls object relationName (.exclusion base exclude)

/-- The nested keys that a relation asks for are among the calls. -/
def DefinitionCalls [StoreHasher] (snapshot : PublishedSnapshot)
    (calls : Object → RelationName → NestedBody → Prop) (object : Object)
    (relationName : RelationName) (definition : RelationDefinition) : Prop :=
  match definition.compiledUsersetRewrite with
  | some expression => CallsIn snapshot calls object relationName expression
  | none => RowsCall snapshot calls object relationName id

/-- The nested keys that the body of a nested key asks for are among the calls. -/
def BodyCalls [StoreHasher] (snapshot : PublishedSnapshot)
    (calls : Object → RelationName → NestedBody → Prop) (object : Object)
    (relationName : RelationName) : NestedBody → Prop
  | .relationName => ∀ objectType definition,
      Identifier.new .objectType object.namespaceName = .ok objectType →
      snapshot.schema.resolver.relation objectType relationName = .ok definition →
      DefinitionCalls snapshot calls object relationName definition
  | .relationId id => ∀ definition, snapshot.schema.resolver.relationById id = some definition →
      DefinitionCalls snapshot calls object relationName definition
  | .plain => RowsCall snapshot calls object relationName id

section Everywhere

variable [StoreHasher] {snapshot : PublishedSnapshot}
  {calls : Object → RelationName → NestedBody → Prop}
  (hall : ∀ object relation body, calls object relation body)
  {object : Object} {relationName : RelationName}
include hall

theorem rowsCall_of_all
    {relationOf : RelationName → RelationName} :
    RowsCall snapshot calls object relationName relationOf :=
  fun _ _ _ _ _ _ => hall _ _ _

theorem callsIn_of_all :
    ∀ expression, CallsIn snapshot calls object relationName expression
  | .this => .this (rowsCall_of_all hall)
  | .computedUserset _ _ _ => .computedUserset (hall _ _ _)
  | .tupleToUserset _ _ _ => .tupleToUserset (fun _ _ => rowsCall_of_all hall)
  | .union _ => .union (fun expression _ => callsIn_of_all expression)
  | .intersection _ => .intersection (fun expression _ => callsIn_of_all expression)
  | .exclusion base exclude => .exclusion (callsIn_of_all base) (callsIn_of_all exclude)

theorem definitionCalls_of_all
    (definition : RelationDefinition) :
    DefinitionCalls snapshot calls object relationName definition := by
  unfold DefinitionCalls
  split
  · exact callsIn_of_all hall _
  · exact rowsCall_of_all hall

theorem bodyCalls_of_all
    (body : NestedBody) :
    BodyCalls snapshot calls object relationName body := by
  cases body with
  | relationName => exact fun _ definition _ _ => definitionCalls_of_all hall definition
  | relationId id => exact fun definition _ => definitionCalls_of_all hall definition
  | plain => exact rowsCall_of_all hall

end Everywhere

namespace Congruence

variable {snapshot : PublishedSnapshot}
  {Rel : ∀ α : Type, Evaluation α → Evaluation α → Prop}
  (h : Congruence snapshot Rel)
include h

theorem pure
    {α : Type} (a : α) :
    Rel α (Pure.pure a) (Pure.pure a) :=
  h.lift (.ok a) (raises_ok a)

theorem throw
    {α : Type} {error : ZanzibarError}
    (herror : EvaluatorError error) :
    Rel α (Action.throw error) (Action.throw error) :=
  h.lift (.error error) (fun _ hsame => by cases hsame; exact herror)

/-- A conversion that fails ends both runs alike. -/
theorem lift_bind
    {α β : Type} {r : Except ZanzibarError α} {f f' : α → Evaluation β}
    (hr : RaisesEvaluatorErrors r)
    (hf : ∀ a, r = .ok a → Rel β (f a) (f' a)) :
    Rel β (Action.lift r >>= f) (Action.lift r >>= f') := by
  cases r with
  | ok a => exact hf a rfl
  | error error => exact h.throw (hr error rfl)

theorem relationById_bind
    {α : Type} {id : SchemaRelationId} {f f' : RelationDefinition → Evaluation α}
    (hf : ∀ definition, snapshot.schema.resolver.relationById id = some definition →
      Rel α (f definition) (f' definition)) :
    Rel α (relationById id >>= f) (relationById id >>= f') := by
  have hassoc : ∀ g : RelationDefinition → Evaluation α, relationById id >>= g =
      Action.get >>= fun context => (context.snapshot.schema.resolver.relationById id).elim
        (Action.throw compiledSchemaInvariantError) Pure.pure >>= g := by
    intro g
    funext context
    rw [relationById, Action.bind_apply, Action.get_bind_apply, Action.get_bind_apply]
    cases context.snapshot.schema.resolver.relationById id <;> rfl
  rw [hassoc, hassoc]
  apply h.read
  intro context context' hover hover'
  rw [hover, hover']
  cases hid : snapshot.schema.resolver.relationById id with
  | none => exact h.throw (Or.inl rfl)
  | some definition => exact hf definition hid

section Bodies

variable [StoreHasher] {nested nested' : Nested}
  {calls : Object → RelationName → NestedBody → Prop}
  (hnested : ∀ object relation body, calls object relation body →
    Rel Membership (nested object relation body) (nested' object relation body))
include hnested

omit [StoreHasher] in
theorem checkUsersets
    (relationOf : RelationName → RelationName)
    {refs : List RelationshipRef}
    (hcalls : ∀ ref ∈ refs, ∀ target, ref.subjectUsersetRelationName = .ok (some target) →
      calls target.1 (relationOf target.2) .relationName)
    (fanout : Nat) :
    Rel Membership (Evaluation.checkUsersets nested relationOf fanout refs)
      (Evaluation.checkUsersets nested' relationOf fanout refs) := by
  induction refs generalizing fanout with
  | nil => exact h.pure _
  | cons ref rest ih =>
      have hrest := ih (fun other hother => hcalls other (List.mem_cons_of_mem _ hother))
      unfold Evaluation.checkUsersets
      apply h.lift_bind (raises_subjectUsersetRelationName ref)
      intro subject hsubject
      cases subject with
      | none => exact hrest fanout
      | some target =>
          refine h.bind (h.incrementFanout fanout) (fun next => ?_)
          refine h.bind (hnested _ _ _ (hcalls ref List.mem_cons_self target hsubject))
            (fun membership => ?_)
          split
          · exact h.pure _
          · exact hrest next

theorem evalThis
    {object : Object} {relationName : RelationName}
    (hcalls : RowsCall snapshot calls object relationName id)
    (user : User) :
    Rel Membership (Evaluation.evalThis nested object relationName user)
      (Evaluation.evalThis nested' object relationName user) := by
  apply h.lift_bind (raises_domain _)
  intro resource hresource
  apply h.lift_bind (raises_domain _)
  intro subject _
  apply h.read
  intro context context' hover hover'
  rw [hover, hover']
  split
  · exact h.pure _
  · exact h.checkUsersets hnested id (hcalls resource (mapError_eq_ok hresource)) 0

theorem evalTupleToUserset
    {object : Object} {tupleset computed : RelationName}
    (hcalls : RowsCall snapshot calls object tupleset (fun _ => computed)) :
    Rel Membership (Evaluation.evalTupleToUserset nested object tupleset computed)
      (Evaluation.evalTupleToUserset nested' object tupleset computed) := by
  apply h.lift_bind (raises_domain _)
  intro resource hresource
  apply h.read
  intro context context' hover hover'
  rw [hover, hover']
  exact h.checkUsersets hnested _ (hcalls resource (mapError_eq_ok hresource)) 0

omit hnested in
/-- The loop of a union. -/
theorem evalUnion
    {object : Object} {relationName : RelationName} {user : User}
    {expressions : List CompiledUsersetExpression}
    (hoperands : ∀ expression ∈ expressions, Rel Membership
      (evalCompiledSchemaExpression nested object relationName user expression)
      (evalCompiledSchemaExpression nested' object relationName user expression))
    (result : Membership) :
    Rel Membership (evalCompiledSchemaUnion nested object relationName user result expressions)
      (evalCompiledSchemaUnion nested' object relationName user result expressions) := by
  induction expressions generalizing result with
  | nil =>
      unfold evalCompiledSchemaUnion
      exact h.pure _
  | cons expression rest ih =>
      unfold evalCompiledSchemaUnion
      refine h.bind (hoperands expression List.mem_cons_self) (fun operand => ?_)
      split
      · exact h.pure _
      · exact ih (fun other hother => hoperands other (List.mem_cons_of_mem _ hother)) _

omit hnested in
/-- The loop of an intersection. -/
theorem evalIntersection
    {object : Object} {relationName : RelationName} {user : User}
    {expressions : List CompiledUsersetExpression}
    (hoperands : ∀ expression ∈ expressions, Rel Membership
      (evalCompiledSchemaExpression nested object relationName user expression)
      (evalCompiledSchemaExpression nested' object relationName user expression))
    (result : Membership) :
    Rel Membership
      (evalCompiledSchemaIntersection nested object relationName user result expressions)
      (evalCompiledSchemaIntersection nested' object relationName user result expressions) := by
  induction expressions generalizing result with
  | nil =>
      unfold evalCompiledSchemaIntersection
      exact h.pure _
  | cons expression rest ih =>
      unfold evalCompiledSchemaIntersection
      refine h.bind (hoperands expression List.mem_cons_self) (fun operand => ?_)
      split
      · exact h.pure _
      · exact ih (fun other hother => hoperands other (List.mem_cons_of_mem _ hother)) _

/-- A rewrite over two evaluations of the nested keys that it asks for. -/
theorem evalExpression
    {object : Object} {relationName : RelationName} (user : User)
    {expression : CompiledUsersetExpression}
    (hcalls : CallsIn snapshot calls object relationName expression) :
    Rel Membership (evalCompiledSchemaExpression nested object relationName user expression)
      (evalCompiledSchemaExpression nested' object relationName user expression) := by
  induction hcalls with
  | this hrows =>
      unfold evalCompiledSchemaExpression
      exact h.evalThis hnested hrows user
  | @computedUserset relation id hasRewrite hcall =>
      unfold evalCompiledSchemaExpression
      cases hasRewrite with
      | true => exact hnested _ _ _ hcall
      | false => exact hnested _ _ _ hcall
  | tupleToUserset hrows =>
      unfold evalCompiledSchemaExpression
      exact h.relationById_bind
        (fun definition hdefinition => h.evalTupleToUserset hnested (hrows definition hdefinition))
  | union _ ih =>
      unfold evalCompiledSchemaExpression
      exact h.evalUnion ih _
  | intersection _ ih =>
      unfold evalCompiledSchemaExpression
      exact h.evalIntersection ih _
  | exclusion _ _ ihBase ihExclude =>
      unfold evalCompiledSchemaExpression
      split
      · refine h.bind ihExclude (fun excludeResult => ?_)
        split
        · exact h.pure _
        · exact h.bind ihBase (fun baseResult => h.pure _)
      · refine h.bind ihBase (fun baseResult => ?_)
        split
        · exact h.pure _
        · exact h.bind ihExclude (fun excludeResult => h.pure _)

theorem evalDefinition
    {object : Object} {relationName : RelationName} (user : User)
    {definition : RelationDefinition}
    (hcalls : DefinitionCalls snapshot calls object relationName definition) :
    Rel Membership (Evaluation.evalDefinition nested object relationName user definition)
      (Evaluation.evalDefinition nested' object relationName user definition) := by
  unfold DefinitionCalls at hcalls
  unfold Evaluation.evalDefinition
  cases hrewrite : definition.compiledUsersetRewrite with
  | none =>
      rw [hrewrite] at hcalls
      exact h.evalThis hnested hcalls user
  | some expression =>
      rw [hrewrite] at hcalls
      exact h.evalExpression hnested user hcalls

/-- The body of a nested key. -/
theorem nestedEntered
    {object : Object} {relationName : RelationName} (user : User) {body : NestedBody}
    (hcalls : BodyCalls snapshot calls object relationName body) :
    Rel Membership (Evaluation.nestedEntered nested object relationName user body)
      (Evaluation.nestedEntered nested' object relationName user body) := by
  cases body with
  | relationName =>
      apply h.lift_bind (raises_domain _)
      intro objectType htype
      apply h.read
      intro context context' hover hover'
      rw [hover, hover']
      apply h.lift_bind (raises_schema _)
      intro definition hdefinition
      exact h.evalDefinition hnested user
        (hcalls objectType definition (mapError_eq_ok htype) (mapError_eq_ok hdefinition))
  | relationId id =>
      exact h.relationById_bind
        (fun definition hdefinition =>
          h.evalDefinition hnested user (hcalls definition hdefinition))
  | plain => exact h.evalThis hnested hcalls user

/-- The body of a check. -/
theorem checkEntered
    {object : Object} {relation : Relation} (user : User)
    (hcalls : ∀ objectType relationName definition,
      Identifier.new .objectType object.namespaceName = .ok objectType →
      RelationName.tryFrom relation = .ok relationName →
      snapshot.schema.resolver.relation objectType relationName = .ok definition →
      DefinitionCalls snapshot calls object relationName definition) :
    Rel Membership (Evaluation.checkEntered nested object relation user)
      (Evaluation.checkEntered nested' object relation user) := by
  apply h.lift_bind (raises_domain _)
  intro objectType htype
  apply h.lift_bind (raises_domain _)
  intro relationName hname
  apply h.read
  intro context context' hover hover'
  rw [hover, hover']
  apply h.lift_bind (raises_schema _)
  intro definition hdefinition
  exact h.evalDefinition hnested user (hcalls objectType relationName definition
    (mapError_eq_ok htype) (mapError_eq_ok hname) (mapError_eq_ok hdefinition))

end Bodies

end Congruence

/-- Tracking is a congruence, over contexts of one snapshot. -/
theorem congruence_tracks
    {snapshot : PublishedSnapshot} {inv live : EvaluationContext → Prop}
    {exempt : ZanzibarError → Prop} {R : EvaluationContext → EvaluationContext → Prop}
    (hinv : ∀ context, inv context → context.snapshot = snapshot)
    (hrel : ∀ context context', inv context → R context context' →
      context'.snapshot = snapshot)
    (hfanout : ∀ current, (incrementFanout current).Tracks inv live exempt R
      (incrementFanout current)) :
    Congruence snapshot (fun _ x x' => Action.Tracks inv live exempt R x x') where
  lift r _ := Action.tracks_lift r
  bind := Action.Tracks.bind
  incrementFanout := hfanout
  read h := Action.tracks_get_bind
    (fun context context' hcontext hcontext' =>
      h context context' (hinv context hcontext) (hrel context context' hcontext hcontext'))
    (fun context hcontext => h context context (hinv context hcontext) (hinv context hcontext))

end Evaluation

end SimpleZanzibar
