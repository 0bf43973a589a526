import SimpleZanzibar.Lib.StratifiedFixpoint
import SimpleZanzibar.SchemaCorrect
import SimpleZanzibar.Store.DirectMatch
import SimpleZanzibar.Eval.Check

/-!
# Membership as a system of equations

What a snapshot means for one user: a system of Boolean equations with one key for
every object and relation.  The right-hand side of a key is its rewrite as it stands in
the schema; `this` reads a direct row or the userset subjects of the stored rows.  The
system depends on the schema, the live set and the direct matches only, not on how the
live set is stored.
-/

namespace SimpleZanzibar

open BoolSystem

/-- A relation of an object: what a check asks about. -/
structure RelKey where
  object : Object
  relation : RelationName
deriving DecidableEq

/-- The userset that a relationship has as subject. -/
def SubjectRef.userset? : SubjectRef → Option RelKey
  | .object _ => none
  | .userset target name => some ⟨target.toObject, name⟩

/-- The userset subjects that are stored on a relation of an object. -/
noncomputable def storedUsersets (set : Finset Relationship) (key : RelKey) : List RelKey :=
  (set.toList.filter (fun r => decide (r.resource.toObject = key.object ∧
    r.relation = key.relation))).filterMap (·.subject.userset?)

theorem mem_storedUsersets_iff
    {set : Finset Relationship} {key k : RelKey} :
    k ∈ storedUsersets set key ↔ ∃ r ∈ set,
      r.resource.toObject = key.object ∧ r.relation = key.relation ∧
        r.subject.userset? = some k := by
  unfold storedUsersets
  simp only [List.mem_filterMap, List.mem_filter, Finset.mem_toList, decide_eq_true_eq]
  constructor
  · rintro ⟨r, ⟨hr, hresource, hrelation⟩, hsubject⟩
    exact ⟨r, hr, hresource, hrelation, hsubject⟩
  · rintro ⟨r, hr, hresource, hrelation, hsubject⟩
    exact ⟨r, ⟨hr, hresource, hrelation⟩, hsubject⟩

section Formulas

variable (set : Finset Relationship) (direct : RelKey → Bool)

/-- A direct row, or membership in a stored userset. -/
noncomputable def thisFormula (key : RelKey) : Formula RelKey :=
  .any (.const (direct key) :: (storedUsersets set key).map .atom)

mutual

/-- The right-hand side that a rewrite stands for. -/
noncomputable def rewriteFormula (key : RelKey) : UsersetExpression → Formula RelKey
  | .this => thisFormula set direct key
  | .computedUserset relation => .atom ⟨key.object, relation⟩
  | .tupleToUserset tupleset computed =>
      .any ((storedUsersets set ⟨key.object, tupleset⟩).map
        (fun subject => .atom ⟨subject.object, computed⟩))
  | .union expressions => .any (rewriteFormulas key expressions)
  | .intersection expressions => .all (rewriteFormulas key expressions)
  | .exclusion base exclude => .diff (rewriteFormula key base) (rewriteFormula key exclude)

noncomputable def rewriteFormulas (key : RelKey) : List UsersetExpression → List (Formula RelKey)
  | [] => []
  | expression :: rest => rewriteFormula key expression :: rewriteFormulas key rest

end

theorem rewriteFormulas_eq_map
    (key : RelKey) (expressions : List UsersetExpression) :
    rewriteFormulas set direct key expressions =
      expressions.map (rewriteFormula set direct key) := by
  induction expressions with
  | nil =>
      rfl
  | cons expression rest ih =>
      rw [rewriteFormulas, ih, List.map_cons]

/-- The right-hand side of a relation: its rewrite, or `this` where it has none. -/
noncomputable def definitionFormula (key : RelKey) (definition : RelationDefinition) :
    Formula RelKey :=
  match definition.usersetRewrite with
  | some expression => rewriteFormula set direct key expression
  | none => thisFormula set direct key

end Formulas

/-- Direct rows apart, `this` refers to the stored usersets. -/
theorem refers_thisFormula
    {set : Finset Relationship} {direct : RelKey → Bool} {key k : RelKey}
    (hrefers : Formula.Refers (thisFormula set direct key) k) :
    k ∈ storedUsersets set key := by
  cases hrefers with
  | any hmem hatom =>
      rcases List.mem_cons.mp hmem with rfl | hmem
      · cases hatom
      · obtain ⟨subject, hsubject, rfl⟩ := List.mem_map.mp hmem
        cases hatom
        exact hsubject

/-- The definition of a key, where the object type and the relation are known. -/
def CompiledSchema.definitionOf (schema : CompiledSchema) (key : RelKey) :
    Option RelationDefinition :=
  match Identifier.new .objectType key.object.namespaceName with
  | .ok objectType => (schema.resolver.relation objectType key.relation).toOption
  | .error _ => none

theorem CompiledSchema.definitionOf_eq_some
    {schema : CompiledSchema} {key : RelKey} {definition : RelationDefinition} :
    schema.definitionOf key = some definition ↔
      ∃ objectType, Identifier.new .objectType key.object.namespaceName = .ok objectType ∧
        schema.resolver.relation objectType key.relation = .ok definition := by
  unfold definitionOf
  cases htype : Identifier.new .objectType key.object.namespaceName with
  | error error => simp
  | ok objectType =>
      cases hrelation : schema.resolver.relation objectType key.relation with
      | error error => simp [hrelation, Except.toOption]
      | ok found => simp [hrelation, Except.toOption]

/-- The equations of a schema over a set of relationships. -/
noncomputable def membershipSystem (schema : CompiledSchema) (set : Finset Relationship)
    (direct : RelKey → Bool) (key : RelKey) : Formula RelKey :=
  match schema.definitionOf key with
  | some definition => definitionFormula set direct key definition
  | none => .const false

section Snapshots

variable [StoreHasher]

/-- The direct match of the user on a key, as the store decides it. -/
def directMatch (view : RelationshipStoreView) (user : User) (key : RelKey) : Bool :=
  match ObjectRef.tryFrom key.object, SubjectFilter.tryFrom user with
  | .ok resource, .ok subject => view.anyResourceRelationSubject resource key.relation subject
  | _, _ => false

/-- The equations of a snapshot for one user. -/
noncomputable def PublishedSnapshot.system (snapshot : PublishedSnapshot) (user : User) :
    RelKey → Formula RelKey :=
  membershipSystem snapshot.schema snapshot.relationships.liveSet
    (directMatch snapshot.relationships user)

end Snapshots

namespace RelationshipRef

/-- The text of a symbol that stands for a string. -/
theorem text_of_resolve
    {ref : RelationshipRef} {id : SymbolId} {value : String}
    (h : ref.store.interner.resolve id = .ok value) :
    ref.text id = value := by
  unfold text
  rw [h]

/-- What the accessors of a reference read off its relationship. -/
theorem accessors_of_relationship
    {ref : RelationshipRef} {r : Relationship}
    (h : ref.relationship = .ok r) :
    ref.subjectUsersetRelationName =
        .ok (r.subject.userset?.map (fun key => (key.object, key.relation))) ∧
      ref.resourceObjectLegacy = r.resource.toObject ∧
      ref.relationNameStr = r.relation.value := by
  have hd := IndexedRelationshipStore.relationshipFromRow_ok_iff.mp h
  refine ⟨?_, ?_, text_of_resolve hd.relation⟩
  · have hrelation := hd.subjectRelation
    unfold subjectUsersetRelationName
    cases hsubject : r.subject with
    | object object =>
        rw [hsubject] at hrelation
        rw [Option.map_eq_none_iff.mp hrelation]
        rfl
    | userset object relation =>
        rw [hsubject] at hrelation
        obtain ⟨id, hid, hresolve⟩ := Option.map_eq_some_iff.mp hrelation
        rw [hid]
        have htype := hd.subjectType
        have hobject := hd.subjectId
        rw [hsubject] at htype hobject
        simp only [text_of_resolve hresolve, text_of_resolve htype, text_of_resolve hobject,
          Identifier.new_value]
        rfl
  · unfold resourceObjectLegacy
    rw [text_of_resolve hd.resourceType, text_of_resolve hd.resourceId]
    rfl

end RelationshipRef

end SimpleZanzibar
