import SimpleZanzibar.EngineCorrect
import SimpleZanzibar.Eval.FreshCheck
import SimpleZanzibar.Snapshot.LoadedEngine

/-!
# How a check fails

The schema and the stored rows fit each other: direct usersets and computed usersets always
resolve.  The target of a tuple-to-userset is the exception, since the schema only asks that its
computed relation exists in some namespace.  Where all targets that a check can follow
resolve, the check fails on its limits only.

**Results.**
* `EngineCommand.check_fails_on_limits`: over every published snapshot, as long as the targets
  resolve.
* `EngineCommand.check_relationNotFound`: an accepted row whose target does not resolve.
-/

namespace SimpleZanzibar

open BoolSystem

mutual

/-- The tuplesets that the rewrite follows, with the relation computed on their subjects. -/
def UsersetExpression.targets : UsersetExpression → List (RelationName × RelationName)
  | .this => []
  | .computedUserset _ => []
  | .tupleToUserset tupleset computed => [(tupleset, computed)]
  | .union expressions => targetsOfAll expressions
  | .intersection expressions => targetsOfAll expressions
  | .exclusion base exclude => base.targets ++ exclude.targets

def UsersetExpression.targetsOfAll :
    List UsersetExpression → List (RelationName × RelationName)
  | [] => []
  | expression :: rest => expression.targets ++ targetsOfAll rest

end

theorem UsersetExpression.targetsOfAll_eq_flatMap
    (expressions : List UsersetExpression) :
    targetsOfAll expressions = expressions.flatMap targets := by
  induction expressions with
  | nil => rfl
  | cons expression rest ih => rw [targetsOfAll, ih, List.flatMap_cons]

/-- The targets of an operand are targets of the whole. -/
theorem UsersetExpression.mem_targetsOfAll
    {expressions : List CompiledUsersetExpression} {operand : CompiledUsersetExpression}
    {target : RelationName × RelationName}
    (hoperand : operand ∈ expressions)
    (htarget : target ∈ operand.source.targets) :
    target ∈ targetsOfAll (CompiledUsersetExpression.sources expressions) := by
  rw [targetsOfAll_eq_flatMap, CompiledUsersetExpression.sources_eq_map]
  exact List.mem_flatMap.mpr ⟨operand.source, List.mem_map_of_mem hoperand, htarget⟩

section Errors

variable [StoreHasher]

/-- Wherever a tuple-to-userset follows a stored userset, on the keys that a check of the root
depends on, the computed relation is defined on the type of the subject. -/
def PublishedSnapshot.TargetsResolve (snapshot : PublishedSnapshot) (user : User)
    (root : RelKey) : Prop :=
  ∀ key, Reaches (snapshot.system user) root key →
    ∀ definition expression, snapshot.schema.definitionOf key = some definition →
      definition.usersetRewrite = some expression →
      ∀ tupleset computed, (tupleset, computed) ∈ expression.targets →
        ∀ subject ∈ storedUsersets snapshot.relationships.liveSet ⟨key.object, tupleset⟩,
          (snapshot.schema.definitionOf ⟨subject.object, computed⟩).isSome

/-- Every tuple-to-userset of the schema resolves on the userset subjects that are stored under
the name of its tupleset. -/
def PublishedSnapshot.targetsResolve (snapshot : PublishedSnapshot) : Bool :=
  snapshot.schema.resolver.definitions.all (fun definition =>
    definition.relations.all (fun relation =>
      relation.usersetRewrite.all (fun expression =>
        expression.targets.all (fun target =>
          snapshot.relationships.rows.all (fun r => decide (r.relation ≠ target.1) ||
            r.subject.userset?.all (fun subject =>
              (snapshot.schema.definitionOf ⟨subject.object, target.2⟩).isSome))))))

theorem PublishedSnapshot.targetsResolve_of_all
    {snapshot : PublishedSnapshot}
    (h : snapshot.targetsResolve = true)
    (user : User) (root : RelKey) :
    snapshot.TargetsResolve user root := by
  intro key _ definition expression hdefinition hexpression tupleset computed htarget subject
    hsubject
  obtain ⟨namespaceDefinition, hi, hj⟩ := mem_of_definitionOf hdefinition
  obtain ⟨r, hr, _, hrelation, huserset⟩ := mem_storedUsersets_iff.mp hsubject
  have hrewrite := List.all_eq_true.mp (List.all_eq_true.mp h _ hi) _ hj
  rw [hexpression] at hrewrite
  have hrow := List.all_eq_true.mp (List.all_eq_true.mp hrewrite _ htarget) r
    (RelationshipStoreView.mem_liveSet_iff.mp hr)
  rw [hrelation, huserset] at hrow
  simpa using hrow

/-- The key stands for a valid object and a relation of its type. -/
structure PublishedSnapshot.Answerable (snapshot : PublishedSnapshot) (key : RelKey) :
    Prop where
  object : ∃ resource, ObjectRef.tryFrom key.object = .ok resource
  defined : ∃ definition, snapshot.schema.definitionOf key = some definition

omit [StoreHasher] in
/-- What a rewrite refers to: a stored userset, a relation of the object that resolves, or the
target of a tuple-to-userset. -/
theorem refers_rewriteFormula_cases
    {schema : CompiledSchema} {set : Finset Relationship} {direct : RelKey → Bool}
    {key k : RelKey} {objectType : ObjectType} {expression : CompiledUsersetExpression}
    (htype : Identifier.new .objectType key.object.namespaceName = .ok objectType)
    (hresolved : expression.ResolvedIn schema.resolver objectType)
    (hrefers : Formula.Refers (rewriteFormula set direct key expression.source) k) :
    k ∈ storedUsersets set key ∨
      (k.object = key.object ∧ ∃ definition, schema.definitionOf k = some definition) ∨
      ∃ tupleset computed, (tupleset, computed) ∈ expression.source.targets ∧
        ∃ subject ∈ storedUsersets set ⟨key.object, tupleset⟩, k = ⟨subject.object, computed⟩ := by
  induction hresolved with
  | this =>
      rw [CompiledUsersetExpression.source, rewriteFormula] at hrefers
      exact Or.inl (refers_thisFormula hrefers)
  | @computedUserset relation id hasRewrite target htarget _ _ =>
      rw [CompiledUsersetExpression.source, rewriteFormula] at hrefers
      cases hrefers
      exact Or.inr (Or.inl ⟨rfl, target,
        CompiledSchema.definitionOf_eq_some.mpr ⟨objectType, htype, htarget⟩⟩)
  | @tupleToUserset tupleset computed id target _ _ =>
      rw [CompiledUsersetExpression.source, rewriteFormula] at hrefers
      cases hrefers with
      | any hmem hatom =>
          obtain ⟨subject, hsubject, rfl⟩ := List.mem_map.mp hmem
          cases hatom
          exact Or.inr (Or.inr
            ⟨tupleset, computed, List.mem_singleton_self _, subject, hsubject, rfl⟩)
  | @union expressions _ ih =>
      rw [CompiledUsersetExpression.source, CompiledUsersetExpression.sources_eq_map,
        rewriteFormula, rewriteFormulas_eq_map, List.map_map] at hrefers
      cases hrefers with
      | any hmem hpart =>
          obtain ⟨operand, hoperand, rfl⟩ := List.mem_map.mp hmem
          rcases ih operand hoperand hpart with hstored | hsame | ⟨tupleset, computed, htarget, h⟩
          · exact Or.inl hstored
          · exact Or.inr (Or.inl hsame)
          · exact Or.inr (Or.inr ⟨tupleset, computed,
              UsersetExpression.mem_targetsOfAll hoperand htarget, h⟩)
  | @intersection expressions _ ih =>
      rw [CompiledUsersetExpression.source, CompiledUsersetExpression.sources_eq_map,
        rewriteFormula, rewriteFormulas_eq_map, List.map_map] at hrefers
      cases hrefers with
      | all hmem hpart =>
          obtain ⟨operand, hoperand, rfl⟩ := List.mem_map.mp hmem
          rcases ih operand hoperand hpart with hstored | hsame | ⟨tupleset, computed, htarget, h⟩
          · exact Or.inl hstored
          · exact Or.inr (Or.inl hsame)
          · exact Or.inr (Or.inr ⟨tupleset, computed,
              UsersetExpression.mem_targetsOfAll hoperand htarget, h⟩)
  | @exclusion base exclude _ _ ihb ihe =>
      rw [CompiledUsersetExpression.source, rewriteFormula] at hrefers
      rw [CompiledUsersetExpression.source]
      cases hrefers with
      | base hpart =>
          rcases ihb hpart with hstored | hsame | ⟨tupleset, computed, htarget, h⟩
          · exact Or.inl hstored
          · exact Or.inr (Or.inl hsame)
          · exact Or.inr (Or.inr ⟨tupleset, computed, List.mem_append_left _ htarget, h⟩)
      | exclude hpart =>
          rcases ihe hpart with hstored | hsame | ⟨tupleset, computed, htarget, h⟩
          · exact Or.inl hstored
          · exact Or.inr (Or.inl hsame)
          · exact Or.inr (Or.inr ⟨tupleset, computed, List.mem_append_right _ htarget, h⟩)

omit [StoreHasher] in
/-- The stored usersets of valid rows are relations of valid objects. -/
theorem answerable_of_stored
    {snapshot : PublishedSnapshot}
    (hrows : ∀ r ∈ snapshot.relationships.liveSet,
      snapshot.schema.validateRelationship r = .ok ())
    {key k : RelKey}
    (hk : k ∈ storedUsersets snapshot.relationships.liveSet key) :
    (∃ target : ObjectRef, k.object = target.toObject) ∧
      ∃ definition, snapshot.schema.definitionOf k = some definition := by
  obtain ⟨r, hr, _, _, hsubject⟩ := mem_storedUsersets_iff.mp hk
  obtain ⟨_, hvalid⟩ := Snapshot.validateRelationship_eq_ok_iff.mp (hrows r hr)
  cases hform : r.subject with
  | object target =>
      rw [hform] at hsubject
      cases hsubject
  | userset target name =>
      rw [hform] at hsubject hvalid
      cases hsubject
      obtain ⟨found, hfound⟩ := hvalid name rfl
      exact ⟨⟨target, rfl⟩, found, CompiledSchema.definitionOf_eq_some.mpr
        ⟨target.objectType, Identifier.new_value _, hfound⟩⟩

/-- What a sound snapshot offers to every check. -/
structure PublishedSnapshot.Sound (snapshot : PublishedSnapshot) : Prop where
  view : snapshot.relationships.Inv
  schema : snapshot.schema.Accepted
  rows : ∀ r ∈ snapshot.relationships.liveSet, snapshot.schema.validateRelationship r = .ok ()

variable {snapshot : PublishedSnapshot} {user : User}

/-- Every key that a check depends on can be answered. -/
theorem PublishedSnapshot.Sound.answerable
    (hsound : snapshot.Sound)
    {root key : RelKey}
    (htargets : snapshot.TargetsResolve user root)
    (hroot : snapshot.Answerable root)
    (hreaches : Reaches (snapshot.system user) root key) :
    snapshot.Answerable key := by
  induction hreaches with
  | refl => exact hroot
  | @tail t k hreaches hstep ih =>
      obtain ⟨⟨resource, hresource⟩, definition, hdefinition⟩ := ih
      obtain ⟨objectType, htype, hrelation⟩ :=
        CompiledSchema.definitionOf_eq_some.mp hdefinition
      obtain ⟨hsource, hresolved⟩ := hsound.schema.relation hrelation
      have hstored : ∀ {other}, k ∈ storedUsersets snapshot.relationships.liveSet other →
          snapshot.Answerable k := by
        intro other hk
        obtain ⟨⟨target, htarget⟩, hdefined⟩ := answerable_of_stored hsound.rows hk
        exact ⟨⟨target, htarget ▸ ObjectRef.tryFrom_toObject target⟩, hdefined⟩
      unfold Step PublishedSnapshot.system membershipSystem at hstep
      simp only [hdefinition, definitionFormula] at hstep
      cases hcompiled : definition.compiledUsersetRewrite with
      | none =>
          rw [hcompiled] at hsource
          rw [← hsource] at hstep
          exact hstored (refers_thisFormula hstep)
      | some expression =>
          rw [hcompiled] at hsource
          rw [← hsource] at hstep
          rcases refers_rewriteFormula_cases htype (hresolved expression hcompiled) hstep with
            hk | ⟨hobject, hdefined⟩ | ⟨tupleset, computed, htarget, subject, hsubject, rfl⟩
          · exact hstored hk
          · exact ⟨⟨resource, hobject ▸ hresource⟩, hdefined⟩
          · obtain ⟨⟨target, hobject⟩, _⟩ := answerable_of_stored hsound.rows hsubject
            have hdefined := htargets t hreaches definition expression.source hdefinition
              hsource.symm tupleset computed htarget subject hsubject
            exact ⟨⟨target, hobject ▸ ObjectRef.tryFrom_toObject target⟩,
              Option.isSome_iff_exists.mp hdefined⟩

/-- The error of a limit. -/
def IsEvaluationError (error : ZanzibarError) : Prop :=
  ∃ failure, error = .evaluation failure

omit [StoreHasher] in
theorem isEvaluationError_evaluation
    (failure : EvaluationError) :
    IsEvaluationError (.evaluation failure) :=
  ⟨failure, rfl⟩

/-- The step stays on the snapshot and fails on limits only. -/
abbrev FailsOnLimits {α : Type} (snapshot : PublishedSnapshot) (x : Evaluation α) : Prop :=
  Evaluation.Stays (fun other => other = snapshot) IsEvaluationError x

/-- The nested keys that the root depends on fail on limits only. -/
def NestedFailsOnLimits (snapshot : PublishedSnapshot) (user : User) (root : RelKey)
    (nested : Evaluation.Nested) : Prop :=
  ∀ key body, Reaches (snapshot.system user) root key → Search.BodyFits snapshot key body →
    FailsOnLimits snapshot (nested key.object key.relation body)

namespace Evaluation

section Bodies

variable {root t key : RelKey} {nested : Nested}
  (hnested : NestedFailsOnLimits snapshot user root nested)
  (hreaches : Reaches (snapshot.system user) root t)
include hnested hreaches

theorem failsOnLimits_checkUsersets
    (relationOf : RelationName → RelationName)
    {refs : List RelationshipRef} {rs : List Relationship}
    (hrefs : RefsDenote refs rs)
    (hrefers : ∀ r ∈ rs, ∀ k, r.subject.userset? = some k →
      Formula.Refers (snapshot.system user t) ⟨k.object, relationOf k.relation⟩) :
    ∀ fanout, FailsOnLimits snapshot (checkUsersets nested relationOf fanout refs) := by
  induction hrefs with
  | nil => exact fun _ => Action.within_pure _
  | @cons ref r refs rs href hrest ih =>
      intro fanout
      have hloop := ih (fun r' hr' => hrefers r' (List.mem_cons_of_mem _ hr'))
      unfold checkUsersets
      rw [(RelationshipRef.accessors_of_relationship href).1]
      refine Action.within_lift_bind (fun _ herror => (by cases herror)) ?_
      rintro _ ⟨⟩
      cases hk : r.subject.userset? with
      | none => exact hloop fanout
      | some k =>
          refine (stays_incrementFanout (fun other => other = snapshot)
            isEvaluationError_evaluation fanout).bind (fun next => ?_)
          have hk' := hrefers r List.mem_cons_self k hk
          refine (hnested ⟨k.object, relationOf k.relation⟩ .relationName
            (hreaches.tail hk') trivial).bind (fun membership => ?_)
          split
          · exact Action.within_pure _
          · exact hloop next

variable (hview : snapshot.relationships.Inv) {resource : ObjectRef}
  (hresource : ObjectRef.tryFrom key.object = .ok resource)
include hview hresource

theorem failsOnLimits_evalThis
    {subject : SubjectFilter}
    (hsubject : SubjectFilter.tryFrom user = .ok subject)
    (hpart : PartOf (snapshot.system user) t
      (thisFormula snapshot.relationships.liveSet (directMatch snapshot.relationships user) key)) :
    FailsOnLimits snapshot (evalThis nested key.object key.relation user) := by
  unfold evalThis ofDomain
  rw [hresource, hsubject]
  refine Action.within_lift_bind (fun _ herror => (by cases herror)) ?_
  rintro _ ⟨⟩
  refine Action.within_lift_bind (fun _ herror => (by cases herror)) ?_
  rintro _ ⟨⟩
  apply Action.within_get_bind
  rintro context rfl
  split
  · exact Action.within_pure _
  · obtain ⟨rs, hrs, hstored⟩ := Search.exists_rows_of_key hview resource key.relation
    rw [ObjectRef.tryFrom_ok_iff.mp hresource] at hstored
    exact failsOnLimits_checkUsersets hnested hreaches id hrs (fun r hr k hk =>
      hpart.refers k (Formula.Refers.any (List.mem_cons_of_mem _
        (List.mem_map_of_mem ((hstored k).mpr ⟨r, hr, hk⟩))) Formula.Refers.atom)) 0

theorem failsOnLimits_evalTupleToUserset
    {tupleset computed : RelationName}
    (hpart : PartOf (snapshot.system user) t
      (.any ((storedUsersets snapshot.relationships.liveSet ⟨key.object, tupleset⟩).map
        (fun subject => .atom ⟨subject.object, computed⟩)))) :
    FailsOnLimits snapshot (evalTupleToUserset nested key.object tupleset computed) := by
  unfold evalTupleToUserset ofDomain
  rw [hresource]
  refine Action.within_lift_bind (fun _ herror => (by cases herror)) ?_
  rintro _ ⟨⟩
  apply Action.within_get_bind
  rintro context rfl
  obtain ⟨rs, hrs, hstored⟩ := Search.exists_rows_of_key hview resource tupleset
  rw [ObjectRef.tryFrom_ok_iff.mp hresource] at hstored
  exact failsOnLimits_checkUsersets hnested hreaches (fun _ => computed) hrs
    (fun r hr k hk => hpart.refers _ (Formula.Refers.any
      (List.mem_map.mpr ⟨k, (hstored k).mpr ⟨r, hr, hk⟩, rfl⟩) Formula.Refers.atom)) 0

omit [StoreHasher] hnested hreaches hview hresource in
/-- The operands of a union are evaluated one after the other. -/
theorem failsOnLimits_evalUnion
    [StoreHasher]
    {expressions : List CompiledUsersetExpression}
    (h : ∀ expression ∈ expressions, FailsOnLimits snapshot
      (evalCompiledSchemaExpression nested key.object key.relation user expression)) :
    ∀ result, FailsOnLimits snapshot
      (evalCompiledSchemaUnion nested key.object key.relation user result expressions) := by
  induction expressions with
  | nil =>
      intro result
      unfold evalCompiledSchemaUnion
      exact Action.within_pure _
  | cons expression rest ih =>
      intro result
      unfold evalCompiledSchemaUnion
      refine (h expression List.mem_cons_self).bind (fun operand => ?_)
      split
      · exact Action.within_pure _
      · exact ih (fun other hother => h other (List.mem_cons_of_mem _ hother)) _

omit [StoreHasher] hnested hreaches hview hresource in
/-- The operands of an intersection are evaluated one after the other. -/
theorem failsOnLimits_evalIntersection
    [StoreHasher]
    {expressions : List CompiledUsersetExpression}
    (h : ∀ expression ∈ expressions, FailsOnLimits snapshot
      (evalCompiledSchemaExpression nested key.object key.relation user expression)) :
    ∀ result, FailsOnLimits snapshot
      (evalCompiledSchemaIntersection nested key.object key.relation user result
        expressions) := by
  induction expressions with
  | nil =>
      intro result
      unfold evalCompiledSchemaIntersection
      exact Action.within_pure _
  | cons expression rest ih =>
      intro result
      unfold evalCompiledSchemaIntersection
      refine (h expression List.mem_cons_self).bind (fun operand => ?_)
      split
      · exact Action.within_pure _
      · exact ih (fun other hother => h other (List.mem_cons_of_mem _ hother)) _

/-- A rewrite fails on limits only, since the keys that it meets are parts of the equation. -/
theorem failsOnLimits_evalExpression
    {subject : SubjectFilter}
    (hsubject : SubjectFilter.tryFrom user = .ok subject)
    {objectType : ObjectType}
    (htype : Identifier.new .objectType key.object.namespaceName = .ok objectType)
    {expression : CompiledUsersetExpression}
    (hresolved : expression.ResolvedIn snapshot.schema.resolver objectType)
    (hpart : PartOf (snapshot.system user) t
      (rewriteFormula snapshot.relationships.liveSet (directMatch snapshot.relationships user) key
        expression.source)) :
    FailsOnLimits snapshot
      (evalCompiledSchemaExpression nested key.object key.relation user expression) := by
  induction hresolved with
  | this =>
      simp only [CompiledUsersetExpression.source, rewriteFormula] at hpart
      unfold evalCompiledSchemaExpression
      exact failsOnLimits_evalThis hnested hreaches hview hresource hsubject hpart
  | @computedUserset relation id hasRewrite target htarget hget hrewrite =>
      simp only [CompiledUsersetExpression.source, rewriteFormula] at hpart
      have hkey := hreaches.tail (hpart.refers ⟨key.object, relation⟩ Formula.Refers.atom)
      have hdefinition : snapshot.schema.definitionOf ⟨key.object, relation⟩ = some target :=
        CompiledSchema.definitionOf_eq_some.mpr ⟨objectType, htype, htarget⟩
      unfold evalCompiledSchemaExpression
      cases hasRewrite with
      | true =>
          exact hnested ⟨key.object, relation⟩ (.relationId id) hkey ⟨target, hdefinition, hget⟩
      | false =>
          exact hnested ⟨key.object, relation⟩ .plain hkey
            ⟨target, hdefinition, by simpa using hrewrite.symm⟩
  | @tupleToUserset tupleset computed id target htarget hget =>
      simp only [CompiledUsersetExpression.source, rewriteFormula] at hpart
      unfold evalCompiledSchemaExpression
      refine stays_relationById_bind _ (fun other hover => hover ▸ hget) ?_
      rw [(SchemaResolver.mem_of_relation htarget).1]
      exact failsOnLimits_evalTupleToUserset hnested hreaches hview hresource hpart
  | @union expressions _ ih =>
      simp only [CompiledUsersetExpression.source, CompiledUsersetExpression.sources_eq_map,
        rewriteFormula, rewriteFormulas_eq_map, List.map_map] at hpart
      unfold evalCompiledSchemaExpression
      exact failsOnLimits_evalUnion
        (fun e he => ih e he (hpart.of_any (List.mem_map_of_mem he))) .denied
  | @intersection expressions _ ih =>
      simp only [CompiledUsersetExpression.source, CompiledUsersetExpression.sources_eq_map,
        rewriteFormula, rewriteFormulas_eq_map, List.map_map] at hpart
      unfold evalCompiledSchemaExpression
      exact failsOnLimits_evalIntersection
        (fun e he => ih e he (hpart.of_all (List.mem_map_of_mem he))) .allowed
  | @exclusion base exclude _ _ ihb ihe =>
      simp only [CompiledUsersetExpression.source, rewriteFormula] at hpart
      have hbase := ihb hpart.of_base
      have hexclude := ihe hpart.of_exclude
      unfold evalCompiledSchemaExpression
      split
      · refine hexclude.bind (fun excludeResult => ?_)
        split
        · exact Action.within_pure _
        · exact hbase.bind (fun _ => Action.within_pure _)
      · refine hbase.bind (fun baseResult => ?_)
        split
        · exact Action.within_pure _
        · exact hexclude.bind (fun _ => Action.within_pure _)

/-- The definition of the key itself fails on limits only. -/
theorem failsOnLimits_evalDefinition
    (hschema : snapshot.schema.Accepted)
    {subject : SubjectFilter}
    (hsubject : SubjectFilter.tryFrom user = .ok subject)
    {definition : RelationDefinition}
    (hdefinition : snapshot.schema.definitionOf key = some definition)
    (hkey : key = t) :
    FailsOnLimits snapshot (evalDefinition nested key.object key.relation user definition) := by
  subst hkey
  obtain ⟨objectType, htype, hrelation⟩ := CompiledSchema.definitionOf_eq_some.mp hdefinition
  obtain ⟨hsource, hresolved⟩ := hschema.relation hrelation
  have hwhole : PartOf (snapshot.system user) key (definitionFormula
      snapshot.relationships.liveSet (directMatch snapshot.relationships user) key
        definition) := by
    have hsystem : PartOf (snapshot.system user) key (snapshot.system user key) := PartOf.whole
    unfold PublishedSnapshot.system membershipSystem at hsystem ⊢
    simpa only [hdefinition] using hsystem
  unfold definitionFormula at hwhole
  rw [← hsource] at hwhole
  unfold evalDefinition
  cases hcompiled : definition.compiledUsersetRewrite with
  | none =>
      rw [hcompiled] at hwhole
      exact failsOnLimits_evalThis hnested hreaches hview hresource hsubject hwhole
  | some expression =>
      rw [hcompiled] at hwhole
      exact failsOnLimits_evalExpression hnested hreaches hview hresource hsubject htype
        (hresolved expression hcompiled) hwhole

end Bodies

section Checks

variable {root : RelKey} {subject : SubjectFilter}
  (hsound : snapshot.Sound)
  (htargets : snapshot.TargetsResolve user root)
  (hroot : snapshot.Answerable root)
  (hsubject : SubjectFilter.tryFrom user = .ok subject)
include hsound htargets hroot hsubject

/-- The body of a key that the root depends on fails on limits only. -/
theorem failsOnLimits_nestedEntered
    {nested : Nested}
    (hnested : NestedFailsOnLimits snapshot user root nested)
    {key : RelKey} {body : NestedBody}
    (hreaches : Reaches (snapshot.system user) root key)
    (hfits : Search.BodyFits snapshot key body) :
    FailsOnLimits snapshot (nestedEntered nested key.object key.relation user body) := by
  obtain ⟨⟨resource, hresource⟩, definition, hdefinition⟩ :=
    hsound.answerable htargets hroot hreaches
  have hbody := failsOnLimits_evalDefinition hnested hreaches hsound.view hresource
    hsound.schema hsubject hdefinition rfl
  cases body with
  | relationName =>
      obtain ⟨objectType, htype, hrelation⟩ :=
        CompiledSchema.definitionOf_eq_some.mp hdefinition
      unfold nestedEntered checkRelationNameEntered ofDomain ofSchema
      rw [htype]
      refine Action.within_lift_bind (fun _ herror => (by cases herror)) ?_
      rintro _ ⟨⟩
      apply Action.within_get_bind
      rintro context rfl
      rw [hrelation]
      refine Action.within_lift_bind (fun _ herror => (by cases herror)) ?_
      rintro _ ⟨⟩
      exact hbody
  | relationId id =>
      obtain ⟨found, hfound, hget⟩ := hfits
      cases hfound.symm.trans hdefinition
      exact stays_relationById_bind _ (fun other hover => hover ▸ hget) hbody
  | plain =>
      obtain ⟨found, hfound, hplain⟩ := hfits
      cases hfound.symm.trans hdefinition
      obtain ⟨objectType, _, hrelation⟩ := CompiledSchema.definitionOf_eq_some.mp hdefinition
      have hnone : definition.compiledUsersetRewrite = none := by
        have hsource := (hsound.schema.relation hrelation).1
        rw [hplain] at hsource
        exact Option.map_eq_none_iff.mp hsource
      unfold evalDefinition at hbody
      rw [hnone] at hbody
      exact hbody

/-- Nested keys fail on limits only, by induction on the fuel. -/
theorem failsOnLimits_checkNested
    (fuel : Nat) :
    NestedFailsOnLimits snapshot user root (checkNested user fuel) := by
  have hkey : ∀ (key : RelKey) error, CheckMemoKey.fromCheckKey (CheckKey.fromRelationName snapshot
      key.object key.relation user) = .error error → IsEvaluationError error := by
    intro key error herror
    rw [fromCheckKey_fromRelationName] at herror
    cases herror
  induction fuel with
  | zero =>
      intro key body _ _
      apply Action.within_get_bind
      rintro context rfl
      exact stays_evaluateCheckKey (fun other => other = context.snapshot)
        isEvaluationError_evaluation (hkey key)
        (Action.within_throw (isEvaluationError_evaluation _))
  | succ fuel ih =>
      intro key body hreaches hfits
      apply Action.within_get_bind
      rintro context rfl
      exact stays_evaluateCheckKey (fun other => other = context.snapshot)
        isEvaluationError_evaluation (hkey key)
        (failsOnLimits_nestedEntered hsound htargets hroot hsubject ih hreaches hfits)

/-- The check itself fails on limits only. -/
theorem failsOnLimits_check
    {relation : Relation}
    (hname : root.relation.value = relation.name) :
    FailsOnLimits snapshot (check root.object relation user) := by
  obtain ⟨⟨resource, hresource⟩, definition, hdefinition⟩ := hroot
  obtain ⟨objectType, htype, hrelation⟩ := CompiledSchema.definitionOf_eq_some.mp hdefinition
  have hconvert : RelationName.tryFrom relation = .ok root.relation := by
    unfold RelationName.tryFrom
    rw [← hname, Identifier.new_value]
  have hkey : ∀ error, CheckMemoKey.fromCheckKey (CheckKey.new snapshot root.object relation
      user) = .error error → IsEvaluationError error := by
    intro error herror
    unfold CheckKey.new at herror
    cases hstore : snapshot.relationships.storeCheckKey root.object relation.name user with
    | some storeKey =>
        rw [hstore] at herror
        cases herror
    | none =>
        rw [hstore] at herror
        simp only [CheckMemoKey.fromCheckKey, hconvert] at herror
        cases herror
  apply Action.within_get_bind
  rintro context rfl
  refine stays_evaluateCheckKey (fun other => other = context.snapshot)
    isEvaluationError_evaluation hkey ?_
  unfold checkEntered ofDomain ofSchema
  rw [htype, hconvert]
  refine Action.within_lift_bind (fun _ herror => (by cases herror)) ?_
  rintro _ ⟨⟩
  refine Action.within_lift_bind (fun _ herror => (by cases herror)) ?_
  rintro _ ⟨⟩
  apply Action.within_get_bind
  intro other hover
  rw [hover, hrelation]
  refine Action.within_lift_bind (fun _ herror => (by cases herror)) ?_
  rintro _ ⟨⟩
  exact failsOnLimits_evalDefinition
    (failsOnLimits_checkNested hsound htargets ⟨⟨resource, hresource⟩, definition, hdefinition⟩
      hsubject _) .refl hsound.view hresource hsound.schema hsubject hdefinition rfl

end Checks

end Evaluation

/-- A check answers, or fails on the depth or the fanout. -/
def AnswersOrFailsOnLimits (snapshot : PublishedSnapshot) (object : Object) (relation : Relation)
    (user : User) (limits : EvaluationLimits) : Prop :=
  (∃ membership, checkWithSnapshot snapshot object relation user limits = .ok membership) ∨
    ∃ failure, checkWithSnapshot snapshot object relation user limits =
      .error (.evaluation failure)

theorem PublishedSnapshot.Sound.answersOrFailsOnLimits
    (hsound : snapshot.Sound)
    {root : RelKey} {relation : Relation} {subject : SubjectFilter}
    (htargets : snapshot.TargetsResolve user root)
    (hroot : snapshot.Answerable root)
    (hsubject : SubjectFilter.tryFrom user = .ok subject)
    (hname : root.relation.value = relation.name)
    (limits : EvaluationLimits) :
    AnswersOrFailsOnLimits snapshot root.object relation user limits := by
  have hcheck := Evaluation.failsOnLimits_check hsound htargets hroot hsubject hname
    (.new snapshot limits) rfl
  unfold AnswersOrFailsOnLimits checkWithSnapshot
  cases hresult : (Evaluation.check root.object relation user (.new snapshot limits)).1 with
  | ok membership => exact Or.inl ⟨membership, rfl⟩
  | error error =>
      obtain ⟨failure, rfl⟩ := hcheck.2 error hresult
      exact Or.inr ⟨failure, rfl⟩

end Errors

namespace EngineCommand

section Runs

variable [Blake3] [StoreHasher]

/-- The published snapshot after a run of commands is sound. -/
theorem sound_latestSnapshot
    {commands : List (MapListing × EngineCommand)} {datastoreId : DatastoreId}
    {retainedSnapshots : ℕ+} {evaluationLimits : EvaluationLimits} {state : EngineState}
    (hstate : (runAll commands
      (.new datastoreId retainedSnapshots evaluationLimits)).publishedState = some state) :
    state.latestSnapshot.Sound := by
  have hcoherent := (sound_runAll (EngineWriter.sound_new datastoreId retainedSnapshots
    evaluationLimits) commands).coherent
  have hinv := runAll_invariant commands datastoreId retainedSnapshots evaluationLimits
  cases hschema : (runAll commands
      (.new datastoreId retainedSnapshots evaluationLimits)).schema with
  | none =>
      rw [(hinv.unpublished hschema).1] at hstate
      cases hstate
  | some schema =>
      obtain ⟨snapshot, hlatest⟩ := hinv.latest schema hschema
      cases hlatest.published.symm.trans hstate
      obtain ⟨listing, hcompile⟩ := hcoherent.compiled snapshot.schema hlatest.schema
      refine ⟨?_, WriterState.accepted_of_compile hcompile, ?_⟩
      · rw [hlatest.relationships]
        exact hcoherent.relationships
      · rw [hlatest.relationships]
        intro r hr
        exact hcoherent.valid snapshot.schema hlatest.schema r
          (RelationshipStoreView.mem_liveSet_iff.mp hr)

/-- Over every published snapshot, a check of a valid object, a relation of its type and a
valid user fails on its limits only, wherever the targets that it can follow resolve. -/
theorem check_fails_on_limits
    (commands : List (MapListing × EngineCommand)) (datastoreId : DatastoreId)
    (retainedSnapshots : ℕ+) (evaluationLimits : EvaluationLimits) {state : EngineState}
    (hstate : (runAll commands
      (.new datastoreId retainedSnapshots evaluationLimits)).publishedState = some state)
    {object : Object} {name : RelationName} {relation : Relation} {user : User}
    (hobject : ∃ resource, ObjectRef.tryFrom object = .ok resource)
    (hname : name.value = relation.name)
    (hrelation : ∃ definition, state.latestSnapshot.schema.definitionOf ⟨object, name⟩ =
      some definition)
    (huser : ∃ subject, SubjectFilter.tryFrom user = .ok subject)
    (htargets : state.latestSnapshot.TargetsResolve user ⟨object, name⟩)
    (limits : EvaluationLimits) :
    AnswersOrFailsOnLimits state.latestSnapshot.toPublishedSnapshot object relation user
      limits := by
  obtain ⟨subject, hsubject⟩ := huser
  exact (sound_latestSnapshot hstate).answersOrFailsOnLimits htargets ⟨hobject, hrelation⟩
    hsubject hname limits

end Runs

/-- Documents take the viewers of their parents, which may be folders or members of a group. -/
def parentConfigs : List NamespaceConfig :=
  [.ofRelations "folder" [("viewer", none)], .ofRelations "group" [("member", none)],
    .ofRelations "doc" [("parent", none),
      ("viewer", some (.tupleToUserset ⟨"parent"⟩ ⟨"viewer"⟩))]]

/-- A document with one parent. -/
def parentCommands (parent : SubjectRef) : List (MapListing × EngineCommand) :=
  [(.latestFirst, .applyNamespaceConfigs parentConfigs),
    (.latestFirst, .writeRelationships
      [.create ⟨objectLit "doc" "1", relationLit "parent", parent⟩] [])]

/-- A folder as the parent: its viewers resolve. -/
theorem check_fails_on_limits_folder :
    letI := SchemaHash.identityBlake3
    letI := fnvHasher
    ∃ state : EngineState,
      (runAll (parentCommands (.userset (objectLit "folder" "f") (relationLit "viewer")))
        (.new ⟨0⟩ ⟨1, Nat.one_pos⟩ .default)).publishedState = some state ∧
      AnswersOrFailsOnLimits state.latestSnapshot.toPublishedSnapshot ⟨"doc", "1"⟩ ⟨"viewer"⟩
        (.userId "alice") .default := by
  let _ := SchemaHash.identityBlake3
  let _ := fnvHasher
  let writer := runAll (parentCommands (.userset (objectLit "folder" "f") (relationLit "viewer")))
    (.new ⟨0⟩ ⟨1, Nat.one_pos⟩ .default)
  have hrun : writer.publishedState.map (fun state =>
      (state.latestSnapshot.schema.definitionOf ⟨⟨"doc", "1"⟩, relationLit "viewer"⟩).isSome &&
        state.latestSnapshot.targetsResolve) = some true := by
    decide +kernel
  obtain ⟨state, hstate, hresult⟩ := Option.map_eq_some_iff.mp hrun
  obtain ⟨hdefinition, htargets⟩ := Bool.and_eq_true_iff.mp hresult
  exact ⟨state, hstate, check_fails_on_limits _ _ _ _ hstate ⟨objectLit "doc" "1", rfl⟩ rfl
    (Option.isSome_iff_exists.mp hdefinition) ⟨_, rfl⟩
    (PublishedSnapshot.targetsResolve_of_all htargets _ _) .default⟩

/-- Members of a group as the parent: the row is accepted, the object, the relation and the
user are valid, and the check looks for the viewers of a group. -/
theorem check_relationNotFound :
    letI := SchemaHash.identityBlake3
    letI := fnvHasher
    ∃ state : EngineState,
      (runAll (parentCommands (.userset (objectLit "group" "g") (relationLit "member")))
        (.new ⟨0⟩ ⟨1, Nat.one_pos⟩ .default)).publishedState = some state ∧
      (∃ resource, ObjectRef.tryFrom ⟨"doc", "1"⟩ = .ok resource) ∧
      (∃ definition, state.latestSnapshot.schema.definitionOf
        ⟨⟨"doc", "1"⟩, relationLit "viewer"⟩ = some definition) ∧
      (∃ subject, SubjectFilter.tryFrom (.userId "alice") = .ok subject) ∧
      checkWithSnapshot state.latestSnapshot.toPublishedSnapshot ⟨"doc", "1"⟩ ⟨"viewer"⟩
        (.userId "alice") .default = .error (.schema (.relationNotFound "group" "viewer")) ∧
      ¬ AnswersOrFailsOnLimits state.latestSnapshot.toPublishedSnapshot ⟨"doc", "1"⟩
        ⟨"viewer"⟩ (.userId "alice") .default := by
  let _ := SchemaHash.identityBlake3
  let _ := fnvHasher
  let writer := runAll (parentCommands (.userset (objectLit "group" "g") (relationLit "member")))
    (.new ⟨0⟩ ⟨1, Nat.one_pos⟩ .default)
  have hrun : writer.publishedState.map (fun state =>
      ((state.latestSnapshot.schema.definitionOf
          ⟨⟨"doc", "1"⟩, relationLit "viewer"⟩).isSome,
        decide (checkWithSnapshot state.latestSnapshot.toPublishedSnapshot ⟨"doc", "1"⟩
          ⟨"viewer"⟩ (.userId "alice") .default =
            .error (.schema (.relationNotFound "group" "viewer"))))) = some (true, true) := by
    decide +kernel
  obtain ⟨state, hstate, hresult⟩ := Option.map_eq_some_iff.mp hrun
  obtain ⟨hdefinition, hcheck⟩ := Prod.mk.inj hresult
  have herror := of_decide_eq_true hcheck
  refine ⟨state, hstate, ⟨objectLit "doc" "1", rfl⟩, Option.isSome_iff_exists.mp hdefinition,
    ⟨_, rfl⟩, herror, ?_⟩
  rintro (⟨membership, hok⟩ | ⟨failure, hfailure⟩)
  · cases herror.symm.trans hok
  · cases herror.symm.trans hfailure

end EngineCommand

end SimpleZanzibar
