import Mathlib.Data.Finset.Prod
import SimpleZanzibar.Eval.WalksEnd

/-!
# The frontier of a lookup of resources ends

The frontier grows while it is consumed.  Every subject enters it at most once, and the subjects
that can enter it are few: the subject of the request, and the usersets of an object of a stored
row, or of that subject, with a relation of a stored row or of the schema.  A step takes one
subject off the frontier, so that the subjects on it and those that have not entered it yet get
fewer together.

**Results.**
* `RelationshipStoreView.mem_storedRefs`: every row of a reverse query is a stored one.
* `ResourceLookup.FrontierBound`: the invariant of a walk, with the measure of what is left.
* `ResourceLookup.walkFrontier_ends`: the walk ends.
* `PublishedSnapshot.lookups_end`: every recursion and loop of the lookups ends.
-/

namespace SimpleZanzibar

/-- The stored rows, also those that are not live. -/
def IndexedRelationshipStore.storedRefs (store : IndexedRelationshipStore) :
    List RelationshipRef :=
  store.rowTable.map (fun row => ⟨store, row⟩)

theorem IndexedRelationshipStore.mem_storedRefs
    [StoreHasher] {store : IndexedRelationshipStore} {filter : SubjectFilter}
    {ref : RelationshipRef}
    (h : ref ∈ store.reverseQueryCompactRelationships filter) :
    ref ∈ store.storedRefs := by
  have hiter : ∀ (matcher : SubjectMatcher) (candidates : List RowId),
      ref ∈ store.subjectIter matcher candidates → ref ∈ store.storedRefs := by
    intro matcher candidates
    induction candidates with
    | nil =>
        intro h
        cases h
    | cons rowId rest ih =>
        unfold subjectIter
        split
        · exact ih
        · split
          · intro h
            cases h
          · next row hrow =>
              split
              · intro h
                rcases List.mem_cons.mp h with rfl | h
                · exact List.mem_map_of_mem (List.mem_of_getElem? hrow)
                · exact ih h
              · exact ih
  unfold reverseQueryCompactRelationships at h
  split at h
  · cases h
  · exact hiter _ _ h

/-- The rows of the checkpoint and of the overlay. -/
def RelationshipStoreView.storedRefs (view : RelationshipStoreView) : List RelationshipRef :=
  match view.delta with
  | none => view.checkpoint.storedRefs
  | some delta => delta.inserted.storedRefs ++ view.checkpoint.storedRefs

theorem RelationshipStoreView.mem_storedRefs
    [StoreHasher] {view : RelationshipStoreView} {filter : SubjectFilter}
    {ref : RelationshipRef}
    (h : ref ∈ view.reverseQueryCompactRelationships filter) :
    ref ∈ view.storedRefs := by
  unfold reverseQueryCompactRelationships merge at h
  unfold storedRefs
  cases hdelta : view.delta with
  | none =>
      rw [hdelta] at h
      exact IndexedRelationshipStore.mem_storedRefs h
  | some delta =>
      rw [hdelta] at h
      rcases List.mem_append.mp h with h | h
      · exact List.mem_append_left _ (IndexedRelationshipStore.mem_storedRefs h)
      · exact List.mem_append_right _
          (IndexedRelationshipStore.mem_storedRefs (List.mem_of_mem_filter h))

/-! ## Relations that the analyses name -/

namespace CompiledSchema

variable {schema : CompiledSchema}

/-- The relations of the schema by their names. -/
def relationTexts (schema : CompiledSchema) : List String :=
  (schema.resolver.definitions ++ schema.definitions).flatMap
    (fun definition => definition.relations.map (·.name.value))

theorem mem_relationTexts
    {namespaceDefinition : NamespaceDefinition} {definition : RelationDefinition}
    (hnamespace : namespaceDefinition ∈ schema.resolver.definitions ∨
      namespaceDefinition ∈ schema.definitions)
    (hdefinition : definition ∈ namespaceDefinition.relations) :
    definition.name.value ∈ schema.relationTexts :=
  List.mem_flatMap.mpr ⟨namespaceDefinition, List.mem_append.mpr hnamespace,
    List.mem_map_of_mem hdefinition⟩

theorem includingRelations_subset
    {objectType : ObjectType} {sourceRelation : RelationName}
    {relations : List RelationDefinition} {names : List RelationName}
    (h : schema.includingRelations objectType sourceRelation relations = .ok names) :
    ∀ name ∈ names, ∃ definition ∈ relations, definition.name = name := by
  induction relations generalizing names with
  | nil =>
      cases h
      intro name hname
      cases hname
  | cons definition rest ih =>
      unfold includingRelations at h
      split at h
      · intro name hname
        obtain ⟨other, hother, heq⟩ := ih h name hname
        exact ⟨other, List.mem_cons_of_mem _ hother, heq⟩
      · obtain ⟨_, _, h⟩ := bind_eq_ok.mp h
        obtain ⟨included, _, h⟩ := bind_eq_ok.mp h
        obtain ⟨others, hothers, h⟩ := bind_eq_ok.mp h
        intro name hname
        have hcases : name = definition.name ∨ name ∈ others := by
          cases included <;> cases h
          · exact Or.inr hname
          · exact List.mem_cons.mp hname
        rcases hcases with rfl | hname
        · exact ⟨definition, List.mem_cons_self, rfl⟩
        · obtain ⟨other, hother, heq⟩ := ih hothers name hname
          exact ⟨other, List.mem_cons_of_mem _ hother, heq⟩

/-- The expansions of a relation are relations of the schema. -/
theorem sameObjectExpansions_subset
    {objectType : ObjectType} {sourceRelation : RelationName} {names : List RelationName}
    (h : schema.computeSameObjectRelationExpansions objectType sourceRelation = .ok names) :
    ∀ name ∈ names, name.value ∈ schema.relationTexts := by
  obtain ⟨relations, hrelations, h⟩ := bind_eq_ok.mp h
  obtain ⟨namespaceDefinition, hnamespace, hsorted⟩ := bind_eq_ok.mp (mapError_eq_ok hrelations)
  cases hsorted
  intro name hname
  obtain ⟨definition, hdefinition, rfl⟩ := includingRelations_subset h name hname
  refine mem_relationTexts (Or.inl ?_) ((List.mem_insertionSort _).mp hdefinition)
  unfold SchemaResolver.findNamespace at hnamespace
  split at hnamespace
  · next found hfound =>
      cases hnamespace
      obtain ⟨index, _, hindex⟩ := Option.bind_eq_some_iff.mp hfound
      exact List.mem_of_getElem? hindex
  · cases hnamespace

section Edges

variable {ownerObjectType : ObjectType} {ownerRelation : RelationName}
  {intermediateType : ObjectType} {sourceRelation : RelationName}

/-- All edges lead to the owner. -/
def LeadTo (ownerRelation : RelationName)
    (r : Except ZanzibarError (List TupleToUsersetExpansionTarget)) : Prop :=
  ∀ targets, r = .ok targets → ∀ target ∈ targets, target.targetRelation = ownerRelation

theorem leadTo_nil :
    LeadTo ownerRelation (.ok []) := by
  rintro targets h target htarget
  cases h
  cases htarget

variable {visit : List SchemaRelationId → SchemaRelationId →
    Except ZanzibarError (List TupleToUsersetExpansionTarget)}

mutual

theorem leadTo_expression
    (hvisit : ∀ visiting id, LeadTo ownerRelation (visit visiting id))
    (visiting : List SchemaRelationId) :
    ∀ expression : CompiledUsersetExpression,
      LeadTo ownerRelation (schema.collectTupleToUsersetExpressionExpansions ownerObjectType
        ownerRelation intermediateType sourceRelation visit visiting expression)
  | .this => leadTo_nil
  | .computedUserset _ _ _ => by
      unfold collectTupleToUsersetExpressionExpansions
      split
      · exact leadTo_nil
      · exact hvisit _ _
  | .tupleToUserset _ _ _ => by
      intro targets h target htarget
      unfold collectTupleToUsersetExpressionExpansions at h
      obtain ⟨included, _, h⟩ := bind_eq_ok.mp h
      cases included <;> cases h
      · cases htarget
      · rw [List.mem_singleton.mp htarget]
  | .union expressions => by
      unfold collectTupleToUsersetExpressionExpansions
      exact leadTo_expressions hvisit visiting expressions
  | .intersection expressions => by
      unfold collectTupleToUsersetExpressionExpansions
      exact leadTo_expressions hvisit visiting expressions
  | .exclusion base _ => by
      unfold collectTupleToUsersetExpressionExpansions
      exact leadTo_expression hvisit visiting base

theorem leadTo_expressions
    (hvisit : ∀ visiting id, LeadTo ownerRelation (visit visiting id))
    (visiting : List SchemaRelationId) :
    ∀ expressions : List CompiledUsersetExpression,
      LeadTo ownerRelation (schema.collectTupleToUsersetExpansions ownerObjectType
        ownerRelation intermediateType sourceRelation visit visiting expressions)
  | [] => leadTo_nil
  | expression :: rest => by
      intro targets h target htarget
      unfold collectTupleToUsersetExpansions at h
      obtain ⟨first, hfirst, h⟩ := bind_eq_ok.mp h
      obtain ⟨others, hothers, h⟩ := bind_eq_ok.mp h
      cases h
      rcases List.mem_append.mp htarget with htarget | htarget
      · exact leadTo_expression hvisit visiting expression first hfirst target htarget
      · exact leadTo_expressions hvisit visiting rest others hothers target htarget

end

theorem leadTo_visit
    (fuel : Nat) (visiting : List SchemaRelationId) (id : SchemaRelationId) :
    LeadTo ownerRelation (schema.visitTupleToUsersetRelation ownerObjectType ownerRelation
      intermediateType sourceRelation fuel visiting id) := by
  induction fuel generalizing visiting id with
  | zero =>
      intro targets h
      cases h
  | succ fuel ih =>
      unfold visitTupleToUsersetRelation
      split
      · intro targets h
        cases h
      · split
        · exact leadTo_nil
        · exact leadTo_expression ih _ _

/-- The edges of a relation lead to relations of the schema. -/
theorem tupleToUsersetExpansions_subset
    {objectType : ObjectType} {targets : List TupleToUsersetExpansionTarget}
    (h : schema.computeTupleToUsersetRelationExpansions objectType sourceRelation = .ok targets) :
    ∀ target ∈ targets, target.targetRelation.value ∈ schema.relationTexts := by
  obtain ⟨lists, hlists, h⟩ := bind_eq_ok.mp h
  cases h
  intro target htarget
  obtain ⟨list, hlist, htarget⟩ := List.mem_flatten.mp htarget
  obtain ⟨namespaceDefinition, hnamespace, hlist⟩ := exists_of_mem_mapM hlists hlist
  obtain ⟨inner, hinner, hflat⟩ := bind_eq_ok.mp hlist
  cases hflat
  obtain ⟨found, hfound, htarget⟩ := List.mem_flatten.mp htarget
  obtain ⟨definition, hdefinition, hcollected⟩ := exists_of_mem_mapM hinner hfound
  have hlead : target.targetRelation = definition.name := by
    unfold collectTupleToUsersetRelationExpansions at hcollected
    split at hcollected
    · cases hcollected
      cases htarget
    · exact leadTo_expression (fun _ _ => leadTo_visit _ _ _) [] _ _ hcollected target htarget
  rw [hlead]
  exact mem_relationTexts (Or.inr hnamespace) hdefinition

end Edges

end CompiledSchema

/-! ## The subjects that can enter the frontier -/

/-- The objects of the stored rows and of the subject. -/
def PublishedSnapshot.frontierObjects (snapshot : PublishedSnapshot) : User → Finset Object
  | .userId _ => (snapshot.relationships.storedRefs.map (·.resourceObjectLegacy)).toFinset
  | .userset object _ =>
      insert object (snapshot.relationships.storedRefs.map (·.resourceObjectLegacy)).toFinset

/-- The relations of the stored rows and of the schema. -/
def PublishedSnapshot.frontierRelations (snapshot : PublishedSnapshot) : Finset String :=
  (snapshot.relationships.storedRefs.map (·.relationNameStr) ++
    snapshot.schema.relationTexts).toFinset

/-- The subject of the request, and the usersets of these objects and relations. -/
def PublishedSnapshot.frontierSubjects (snapshot : PublishedSnapshot) (subject : User) :
    Finset User :=
  insert subject ((snapshot.frontierObjects subject ×ˢ snapshot.frontierRelations).image
    (fun userset => .userset userset.1 ⟨userset.2⟩))

namespace PublishedSnapshot

variable {snapshot : PublishedSnapshot} {subject : User}

theorem userset_mem_frontierSubjects
    {object : Object} {relation : String}
    (hobject : object ∈ snapshot.frontierObjects subject)
    (hrelation : relation ∈ snapshot.frontierRelations) :
    .userset object ⟨relation⟩ ∈ snapshot.frontierSubjects subject :=
  Finset.mem_insert_of_mem (Finset.mem_image.mpr
    ⟨(object, relation), Finset.mem_product.mpr ⟨hobject, hrelation⟩, rfl⟩)

/-- The object of a userset on the frontier. -/
theorem mem_frontierObjects_of_userset
    {object : Object} {relation : Relation}
    (h : .userset object relation ∈ snapshot.frontierSubjects subject) :
    object ∈ snapshot.frontierObjects subject := by
  rcases Finset.mem_insert.mp h with rfl | h
  · exact Finset.mem_insert_self _ _
  · obtain ⟨⟨object', relation'⟩, hmem, heq⟩ := Finset.mem_image.mp h
    cases heq
    exact (Finset.mem_product.mp hmem).1

/-- The object of a stored row. -/
theorem mem_frontierObjects_of_ref
    {ref : RelationshipRef}
    (h : ref ∈ snapshot.relationships.storedRefs) :
    ref.resourceObjectLegacy ∈ snapshot.frontierObjects subject := by
  have hmem : ref.resourceObjectLegacy ∈
      (snapshot.relationships.storedRefs.map (·.resourceObjectLegacy)).toFinset :=
    List.mem_toFinset.mpr (List.mem_map_of_mem h)
  cases subject with
  | userId id => exact hmem
  | userset object relation => exact Finset.mem_insert_of_mem hmem

theorem mem_frontierRelations_of_ref
    {ref : RelationshipRef}
    (h : ref ∈ snapshot.relationships.storedRefs) :
    ref.relationNameStr ∈ snapshot.frontierRelations :=
  List.mem_toFinset.mpr (List.mem_append_left _ (List.mem_map_of_mem h))

theorem mem_frontierRelations_of_schema
    {relation : String}
    (h : relation ∈ snapshot.schema.relationTexts) :
    relation ∈ snapshot.frontierRelations :=
  List.mem_toFinset.mpr (List.mem_append_right _ h)

end PublishedSnapshot

namespace ResourceLookup

/-- Only subjects that can enter are on the frontier or were, what is cached names relations of
the schema, and the subjects on the frontier and those that have not entered it are at most as
many as the bound. -/
structure FrontierBound (lookup : ResourceLookup) (bound : Nat) (walk : LookupWalk) : Prop where
  visited : walk.visitedSubjects ⊆ lookup.snapshot.frontierSubjects lookup.request.subject
  frontier : ∀ entry ∈ walk.frontier,
    entry.subject ∈ lookup.snapshot.frontierSubjects lookup.request.subject
  expansions : ∀ expansion ∈ walk.relationExpansions, ∀ target ∈ expansion.targetRelations,
    target.value ∈ lookup.snapshot.schema.relationTexts
  edges : ∀ expansion ∈ walk.tupleRelationExpansions, ∀ target ∈ expansion.targets,
    target.targetRelation.value ∈ lookup.snapshot.schema.relationTexts
  measure : walk.frontier.length + (lookup.snapshot.frontierSubjects lookup.request.subject \
    walk.visitedSubjects).card ≤ bound

variable {lookup : ResourceLookup} {bound : Nat}

/-- What does not touch the frontier and the caches. -/
theorem FrontierBound.congr
    {walk walk' : LookupWalk}
    (h : lookup.FrontierBound bound walk)
    (hvisited : walk'.visitedSubjects = walk.visitedSubjects)
    (hfrontier : walk'.frontier = walk.frontier)
    (hexpansions : walk'.relationExpansions = walk.relationExpansions)
    (hedges : walk'.tupleRelationExpansions = walk.tupleRelationExpansions) :
    lookup.FrontierBound bound walk' := by
  refine ⟨?_, ?_, ?_, ?_, ?_⟩
  · rw [hvisited]
    exact h.visited
  · rw [hfrontier]
    exact h.frontier
  · rw [hexpansions]
    exact h.expansions
  · rw [hedges]
    exact h.edges
  · rw [hvisited, hfrontier]
    exact h.measure

/-- A step of the walk keeps the bound, and its result has the property. -/
abbrev Bounded {α : Type} (lookup : ResourceLookup) (post : α → Prop) (x : Walking α) : Prop :=
  ∀ bound, x.Confines (lookup.FrontierBound bound) post

/-- A subject enters the frontier and leaves those that have not entered it. -/
theorem bounded_followSubject
    {subject : User}
    (hsubject : subject ∈ lookup.snapshot.frontierSubjects lookup.request.subject)
    (proof : LookupSubjectProof) :
    lookup.Bounded (fun _ => True) (followSubject subject proof) := by
  intro bound
  refine Action.confines_modify (fun walk h => ?_) trivial
  split
  · exact h
  · next hnew =>
      refine ⟨Finset.insert_subset hsubject h.visited, ?_, h.expansions, h.edges, ?_⟩
      · intro entry hentry
        rcases List.mem_append.mp hentry with hentry | hentry
        · exact h.frontier entry hentry
        · rw [List.mem_singleton.mp hentry]
          exact hsubject
      · have hmem : subject ∈ lookup.snapshot.frontierSubjects lookup.request.subject \
            walk.visitedSubjects := Finset.mem_sdiff.mpr ⟨hsubject, hnew⟩
        have hpos := Finset.card_pos.mpr ⟨subject, hmem⟩
        have hmeasure := h.measure
        rw [List.length_append, List.length_singleton, Finset.sdiff_insert,
          Finset.card_erase_of_mem hmem]
        omega

section Steps

variable [StoreHasher]

omit [StoreHasher] in
theorem bounded_insertSeen
    (object : Object) :
    lookup.Bounded (fun _ => True) (insertSeen object) := fun _ =>
  Action.confines_get_bind (fun _ h =>
    Action.confines_set_bind (h.congr rfl rfl rfl rfl) (Action.confines_pure trivial))

theorem bounded_verifyCandidate
    (object : Object) (verification : LookupCandidateVerification) :
    lookup.Bounded (fun _ => True) (lookup.verifyCandidate object verification) := by
  intro bound
  refine (Action.confines_zoom (fun _ _ h => h.congr rfl rfl rfl rfl)
    (fun _ => trivial)).bind (fun allowed _ => ?_)
  cases allowed with
  | false => exact Action.confines_pure trivial
  | true =>
      exact Action.confines_modify_bind (fun _ h => h.congr rfl rfl rfl rfl)
        (Action.confines_get_bind (fun _ _ => Action.confines_pure trivial))

theorem bounded_prunedRelationMayHaveDownstream
    (relationNameStr : String) :
    lookup.Bounded (fun _ => True) (lookup.prunedRelationMayHaveDownstream relationNameStr) := by
  intro bound
  refine Action.confines_get_bind (fun walk h => ?_)
  split
  · exact Action.confines_pure trivial
  · exact Action.confines_lift_bind (fun relationName _ =>
      Action.confines_set_bind (h.congr rfl rfl rfl rfl) (Action.confines_pure trivial))

omit [StoreHasher] in
theorem bounded_pruneRelationship
    (relationship : RelationshipRef) :
    lookup.Bounded (fun _ => True) (lookup.pruneRelationship relationship) := by
  intro bound
  refine Action.confines_get_bind (fun walk h => ?_)
  split
  · exact Action.confines_pure trivial
  · exact Action.confines_set_bind (h.congr rfl rfl rfl rfl) (Action.confines_pure trivial)

theorem bounded_offerRelationship
    (relationship : RelationshipRef) (object : Object) (proof : LookupSubjectProof)
    (offered : Bool) :
    lookup.Bounded (fun _ => True)
      (lookup.offerRelationship relationship object proof offered) := by
  intro bound
  unfold offerRelationship
  split
  · refine (bounded_insertSeen object bound).bind (fun isNew _ => ?_)
    split
    · exact bounded_verifyCandidate object _ bound
    · exact Action.confines_pure trivial
  · exact Action.confines_pure trivial

/-- The userset of a stored row may be followed. -/
theorem bounded_followRelationship
    {relationship : RelationshipRef}
    (hstored : relationship ∈ lookup.snapshot.relationships.storedRefs)
    (proof : LookupSubjectProof) (pruned : Bool) :
    lookup.Bounded (fun _ => True)
      (lookup.followRelationship relationship relationship.resourceObjectLegacy proof pruned) := by
  intro bound
  have hfollow : (followSubject (.userset relationship.resourceObjectLegacy
      ⟨relationship.relationNameStr⟩) proof).Confines (lookup.FrontierBound bound)
        (fun _ => True) :=
    bounded_followSubject (PublishedSnapshot.userset_mem_frontierSubjects
      (PublishedSnapshot.mem_frontierObjects_of_ref hstored)
      (PublishedSnapshot.mem_frontierRelations_of_ref hstored)) proof bound
  unfold followRelationship
  split
  · refine Action.confines_lift_bind (fun usersetFilter _ => ?_)
    split
    · exact hfollow
    · exact Action.confines_pure trivial
  · exact hfollow

theorem bounded_processLookupResourcesRelationship
    (entry : LookupFrontierEntry) {relationship : RelationshipRef}
    (hstored : relationship ∈ lookup.snapshot.relationships.storedRefs) :
    lookup.Bounded (fun _ => True)
      (lookup.processLookupResourcesRelationship entry relationship) := by
  intro bound
  have hpruned : (if relationship.resourceTypeEq lookup.resourceType then
      lookup.pruneRelationship relationship else return false).Confines
        (lookup.FrontierBound bound) (fun _ => True) := by
    split
    · exact bounded_pruneRelationship relationship bound
    · exact Action.confines_pure trivial
  refine hpruned.bind (fun shouldPrune _ => ?_)
  have hdownstream : (if shouldPrune then
      lookup.prunedRelationMayHaveDownstream relationship.relationNameStr
      else return true).Confines (lookup.FrontierBound bound) (fun _ => True) := by
    split
    · exact bounded_prunedRelationMayHaveDownstream _ bound
    · exact Action.confines_pure trivial
  refine hdownstream.bind (fun mayHaveDownstream _ => ?_)
  split
  · exact Action.confines_pure trivial
  · refine Action.confines_lift_bind (fun relationshipProof _ => ?_)
    refine (bounded_offerRelationship relationship _ _ _ bound).bind (fun reached _ => ?_)
    split
    · exact Action.confines_pure trivial
    · exact (bounded_followRelationship hstored _ _ bound).bind
        (fun _ _ => Action.confines_pure trivial)

theorem bounded_processRows
    (entry : LookupFrontierEntry) {rows : List RelationshipRef}
    (hstored : ∀ row ∈ rows, row ∈ lookup.snapshot.relationships.storedRefs) :
    lookup.Bounded (fun _ => True) (lookup.processRows entry rows) := by
  intro bound
  induction rows with
  | nil => exact Action.confines_pure trivial
  | cons row rest ih =>
      refine (bounded_processLookupResourcesRelationship entry
        (hstored row List.mem_cons_self) bound).bind (fun reached _ => ?_)
      split
      · exact Action.confines_pure trivial
      · exact ih (fun other hother => hstored other (List.mem_cons_of_mem _ hother))

/-! ## Expansions -/

omit [StoreHasher] in
/-- The cached and the computed expansions name relations of the schema. -/
theorem bounded_sameObjectRelationExpansions
    (objectType : ObjectType) (sourceRelation : RelationName) :
    lookup.Bounded (fun names => ∀ name ∈ names,
        name.value ∈ lookup.snapshot.schema.relationTexts)
      (lookup.sameObjectRelationExpansions objectType sourceRelation) := by
  intro bound
  refine Action.confines_get_bind (fun walk h => ?_)
  split
  · next expansion hfound =>
      exact Action.confines_pure (h.expansions expansion (List.mem_of_find?_eq_some hfound))
  · refine Action.confines_lift_bind (fun targetRelations hcomputed => ?_)
    have hnames := CompiledSchema.sameObjectExpansions_subset hcomputed
    refine Action.confines_set_bind ⟨h.visited, h.frontier, ?_, h.edges, h.measure⟩
      (Action.confines_pure hnames)
    intro expansion hexpansion
    rcases List.mem_append.mp hexpansion with hexpansion | hexpansion
    · exact h.expansions expansion hexpansion
    · rw [List.mem_singleton.mp hexpansion]
      exact hnames

omit [StoreHasher] in
theorem bounded_tupleToUsersetRelationExpansions
    (objectType : ObjectType) (sourceRelation : RelationName) :
    lookup.Bounded (fun targets => ∀ target ∈ targets,
        target.targetRelation.value ∈ lookup.snapshot.schema.relationTexts)
      (lookup.tupleToUsersetRelationExpansions objectType sourceRelation) := by
  intro bound
  refine Action.confines_get_bind (fun walk h => ?_)
  split
  · next expansion hfound =>
      exact Action.confines_pure (h.edges expansion (List.mem_of_find?_eq_some hfound))
  · refine Action.confines_lift_bind (fun targets hcomputed => ?_)
    have htargets := CompiledSchema.tupleToUsersetExpansions_subset hcomputed
    refine Action.confines_set_bind ⟨h.visited, h.frontier, h.expansions, ?_, h.measure⟩
      (Action.confines_pure htargets)
    intro expansion hexpansion
    rcases List.mem_append.mp hexpansion with hexpansion | hexpansion
    · exact h.edges expansion hexpansion
    · rw [List.mem_singleton.mp hexpansion]
      exact htargets

/-- An expanded subject may be followed where it can enter the frontier. -/
theorem bounded_followExpanded
    {subject : User}
    (hsubject : subject ∈ lookup.snapshot.frontierSubjects lookup.request.subject) :
    lookup.Bounded (fun _ => True) (lookup.followExpanded subject) := by
  intro bound
  refine Action.confines_lift_bind (fun subjectFilter _ => ?_)
  split
  · exact bounded_followSubject hsubject _ bound
  · exact Action.confines_pure trivial

theorem bounded_enqueueSameObjectRelationExpansions
    {subject : User}
    (hsubject : subject ∈ lookup.snapshot.frontierSubjects lookup.request.subject) :
    lookup.Bounded (fun _ => True) (lookup.enqueueSameObjectRelationExpansions subject) := by
  intro bound
  cases subject with
  | userId id => exact Action.confines_pure trivial
  | userset object relation =>
      have hobject := PublishedSnapshot.mem_frontierObjects_of_userset hsubject
      refine Action.confines_lift_bind (fun objectType _ => ?_)
      refine Action.confines_lift_bind (fun sourceRelation _ => ?_)
      refine (bounded_sameObjectRelationExpansions objectType sourceRelation bound).bind
        (fun names hnames => ?_)
      exact Action.confines_forEach (fun name hname => bounded_followExpanded
        (PublishedSnapshot.userset_mem_frontierSubjects hobject
          (PublishedSnapshot.mem_frontierRelations_of_schema (hnames name hname))) bound)

theorem bounded_processTarget
    {relationship : RelationshipRef} {target : TupleToUsersetExpansionTarget}
    (hstored : relationship ∈ lookup.snapshot.relationships.storedRefs)
    (htarget : target.targetRelation.value ∈ lookup.snapshot.schema.relationTexts) :
    lookup.Bounded (fun _ => True) (lookup.processTarget relationship target) := by
  intro bound
  have hoffered : (if relationship.resourceTypeEq lookup.resourceType then do
      let isNew ← insertSeen relationship.resourceObjectLegacy
      if isNew then lookup.verifyCandidate relationship.resourceObjectLegacy .fullRoot
      else return false
      else return false).Confines (lookup.FrontierBound bound) (fun _ => True) := by
    split
    · refine (bounded_insertSeen _ bound).bind (fun isNew _ => ?_)
      split
      · exact bounded_verifyCandidate _ _ bound
      · exact Action.confines_pure trivial
    · exact Action.confines_pure trivial
  refine hoffered.bind (fun reached _ => ?_)
  split
  · exact Action.confines_pure trivial
  · exact (bounded_followExpanded (PublishedSnapshot.userset_mem_frontierSubjects
      (PublishedSnapshot.mem_frontierObjects_of_ref hstored)
      (PublishedSnapshot.mem_frontierRelations_of_schema htarget)) bound).bind
        (fun _ _ => Action.confines_pure trivial)

theorem bounded_processTargets
    {relationship : RelationshipRef} {targets : List TupleToUsersetExpansionTarget}
    (hstored : relationship ∈ lookup.snapshot.relationships.storedRefs)
    (htargets : ∀ target ∈ targets,
      target.targetRelation.value ∈ lookup.snapshot.schema.relationTexts) :
    lookup.Bounded (fun _ => True) (lookup.processTargets relationship targets) := by
  intro bound
  induction targets with
  | nil => exact Action.confines_pure trivial
  | cons target rest ih =>
      refine (bounded_processTarget hstored (htargets target List.mem_cons_self) bound).bind
        (fun reached _ => ?_)
      split
      · exact Action.confines_pure trivial
      · exact ih (fun other hother => htargets other (List.mem_cons_of_mem _ hother))

theorem bounded_processBroadRows
    {rows : List RelationshipRef} {targets : List TupleToUsersetExpansionTarget}
    (hstored : ∀ row ∈ rows, row ∈ lookup.snapshot.relationships.storedRefs)
    (htargets : ∀ target ∈ targets,
      target.targetRelation.value ∈ lookup.snapshot.schema.relationTexts) :
    lookup.Bounded (fun _ => True) (lookup.processBroadRows targets rows) := by
  intro bound
  induction rows with
  | nil => exact Action.confines_pure trivial
  | cons row rest ih =>
      refine (bounded_processTargets (hstored row List.mem_cons_self)
        (fun target htarget => htargets target (List.mem_of_mem_filter htarget)) bound).bind
        (fun reached _ => ?_)
      split
      · exact Action.confines_pure trivial
      · exact ih (fun other hother => hstored other (List.mem_cons_of_mem _ hother))

theorem bounded_processTupleToUsersetIgnoredRelationEdges
    (subject : User) :
    lookup.Bounded (fun _ => True) (lookup.processTupleToUsersetIgnoredRelationEdges subject) := by
  intro bound
  cases subject with
  | userId id => exact Action.confines_pure trivial
  | userset object relation =>
      refine Action.confines_lift_bind (fun objectType _ => ?_)
      refine Action.confines_lift_bind (fun sourceRelation _ => ?_)
      refine (bounded_tupleToUsersetRelationExpansions objectType sourceRelation bound).bind
        (fun targets htargets => ?_)
      refine Action.confines_lift_bind (fun subjectType _ => ?_)
      refine Action.confines_lift_bind (fun subjectId _ => ?_)
      simp only
      split
      · exact Action.confines_pure trivial
      · exact bounded_processBroadRows
          (fun row hrow => RelationshipStoreView.mem_storedRefs hrow)
          (fun target htarget => htargets target (List.mem_of_mem_filter htarget)) bound

theorem bounded_processEntry
    {entry : LookupFrontierEntry}
    (hsubject : entry.subject ∈ lookup.snapshot.frontierSubjects lookup.request.subject) :
    lookup.Bounded (fun _ => True) (lookup.processEntry entry) := by
  intro bound
  refine (bounded_enqueueSameObjectRelationExpansions hsubject bound).bind (fun _ _ => ?_)
  refine Action.confines_lift_bind (fun subjectFilter _ => ?_)
  refine (bounded_processRows entry
    (fun row hrow => RelationshipStoreView.mem_storedRefs hrow) bound).bind (fun reached _ => ?_)
  split
  · exact Action.confines_pure trivial
  · exact bounded_processTupleToUsersetIgnoredRelationEdges entry.subject bound

/-! ## The walk -/

omit [StoreHasher] in
/-- The next entry leaves the frontier. -/
theorem FrontierBound.next
    {walk : LookupWalk} {entry : LookupFrontierEntry} {rest : List LookupFrontierEntry}
    (h : lookup.FrontierBound (bound + 1) walk)
    (hfrontier : walk.frontier = entry :: rest) :
    lookup.FrontierBound bound { walk with frontier := rest } := by
  refine ⟨h.visited, fun other hother => ?_, h.expansions, h.edges, ?_⟩
  · exact h.frontier other (hfrontier ▸ List.mem_cons_of_mem _ hother)
  · have hmeasure := h.measure
    rw [hfrontier, List.length_cons] at hmeasure
    show rest.length + (lookup.snapshot.frontierSubjects lookup.request.subject \
      walk.visitedSubjects).card ≤ bound
    omega

/-- A step of the walk. -/
theorem walkFrontier_succ
    (lookup : ResourceLookup) (steps : Nat) (walk : LookupWalk) :
    lookup.walkFrontier (steps + 1) walk = match walk.frontier with
      | [] => (.ok true, walk)
      | entry :: rest =>
          match lookup.processEntry entry { walk with frontier := rest } with
          | (.ok true, walk') => (.ok true, walk')
          | (.ok false, walk') => lookup.walkFrontier steps walk'
          | (.error error, walk') => (.error error, walk') := by
  conv_lhs => unfold walkFrontier
  rw [Action.get_bind_apply]
  rcases hfrontier : walk.frontier with _ | ⟨entry, rest⟩
  · rfl
  · simp only [Action.bind_apply, Action.set_apply]
    rcases lookup.processEntry entry { walk with frontier := rest } with ⟨error | reached, walk'⟩
    · rfl
    · cases reached <;> rfl

/-- With more steps than the bound the walk ends, always in the same way. -/
theorem walkFrontier_ends
    {walk : LookupWalk}
    (h : lookup.FrontierBound bound walk) :
    (lookup.walkFrontier (bound + 1) walk).1 ≠ .ok false ∧
      ∀ steps, bound < steps →
        lookup.walkFrontier steps walk = lookup.walkFrontier (bound + 1) walk := by
  induction bound generalizing walk with
  | zero =>
      have hempty : walk.frontier = [] := by
        have hmeasure := h.measure
        exact List.length_eq_zero_iff.mp (by omega)
      refine ⟨by simp [walkFrontier_succ, hempty], fun steps hsteps => ?_⟩
      obtain ⟨steps, rfl⟩ := Nat.exists_eq_succ_of_ne_zero (Nat.ne_zero_of_lt hsteps)
      simp only [walkFrontier_succ, hempty]
  | succ bound ih =>
      have hstep := fun steps => walkFrontier_succ lookup steps walk
      rcases hfrontier : walk.frontier with _ | ⟨entry, rest⟩
      · simp only [hfrontier] at hstep
        refine ⟨by simp [hstep], fun steps hsteps => ?_⟩
        obtain ⟨steps, rfl⟩ := Nat.exists_eq_succ_of_ne_zero (Nat.ne_zero_of_lt hsteps)
        rw [hstep, hstep]
      · have hentry := h.frontier entry (hfrontier ▸ List.mem_cons_self)
        have hafter := (bounded_processEntry hentry bound _ (h.next hfrontier)).1
        simp only [hfrontier] at hstep
        generalize hprocessed : lookup.processEntry entry { walk with frontier := rest } = processed
          at hafter hstep
        rcases processed with ⟨error | reached, walk'⟩
        · refine ⟨by simp [hstep], fun steps hsteps => ?_⟩
          obtain ⟨steps, rfl⟩ := Nat.exists_eq_succ_of_ne_zero (Nat.ne_zero_of_lt hsteps)
          rw [hstep, hstep]
        · cases reached with
          | true =>
              refine ⟨by simp [hstep], fun steps hsteps => ?_⟩
              obtain ⟨steps, rfl⟩ := Nat.exists_eq_succ_of_ne_zero (Nat.ne_zero_of_lt hsteps)
              rw [hstep, hstep]
          | false =>
              obtain ⟨hends, hsame⟩ := ih hafter
              refine ⟨by rw [hstep]; exact hends, fun steps hsteps => ?_⟩
              obtain ⟨steps, rfl⟩ := Nat.exists_eq_succ_of_ne_zero (Nat.ne_zero_of_lt hsteps)
              rw [hstep, hstep]
              exact hsame steps (Nat.lt_of_succ_lt_succ hsteps)

omit [StoreHasher] in
/-- A lookup starts with the subject of the request on its frontier. -/
theorem frontierBound_initialWalk
    (enabled : Bool) :
    lookup.FrontierBound
      (lookup.snapshot.frontierSubjects lookup.request.subject).card
      (lookup.initialWalk enabled) := by
  have hsubject : lookup.request.subject ∈
      lookup.snapshot.frontierSubjects lookup.request.subject := Finset.mem_insert_self _ _
  refine ⟨Finset.singleton_subset_iff.mpr hsubject, ?_, ?_, ?_, ?_⟩
  · intro entry hentry
    rw [List.mem_singleton.mp hentry]
    exact hsubject
  · intro expansion hexpansion
    cases hexpansion
  · intro expansion hexpansion
    cases hexpansion
  · show 1 + (lookup.snapshot.frontierSubjects lookup.request.subject \
      {lookup.request.subject}).card ≤ _
    rw [Finset.card_sdiff_of_subset (Finset.singleton_subset_iff.mpr hsubject),
      Finset.card_singleton]
    have hpos := Finset.card_pos.mpr ⟨_, hsubject⟩
    omega

end Steps

end ResourceLookup

section Lookups

variable [StoreHasher]

/-- A lookup of resources ends within a number of steps that no limit has a part in. -/
theorem PublishedSnapshot.lookupResources_ends
    (snapshot : PublishedSnapshot) (request : LookupResourcesRequest) (limits : EvaluationLimits)
    (steps : Nat)
    (hsteps : (snapshot.frontierSubjects request.subject).card < steps) :
    lookupResourcesWithSnapshot snapshot request limits steps =
        lookupResourcesWithSnapshot snapshot request limits
          ((snapshot.frontierSubjects request.subject).card + 1) ∧
      lookupResourcesWithSnapshot snapshot request limits steps ≠ .ok none := by
  unfold lookupResourcesWithSnapshot
  rcases hprepared : prepareLookupResources snapshot request limits with error | lookup
  · exact ⟨rfl, nofun⟩
  · have hlookup : lookup.snapshot = snapshot ∧ lookup.request = request := by
      obtain ⟨_, _, hprepared⟩ := bind_eq_ok.mp hprepared
      obtain ⟨_, _, hprepared⟩ := bind_eq_ok.mp hprepared
      obtain ⟨_, _, hprepared⟩ := bind_eq_ok.mp hprepared
      obtain ⟨_, _, hprepared⟩ := bind_eq_ok.mp hprepared
      obtain ⟨_, _, hprepared⟩ := bind_eq_ok.mp hprepared
      cases hprepared
      exact ⟨rfl, rfl⟩
    obtain ⟨rfl, rfl⟩ := hlookup
    obtain ⟨hends, hsame⟩ := ResourceLookup.walkFrontier_ends
      (ResourceLookup.frontierBound_initialWalk lookup.producerPlan.isSome)
    dsimp only [bind, Except.bind]
    rw [hsame steps hsteps]
    refine ⟨rfl, ?_⟩
    generalize lookup.walkFrontier _ _ = ended at hends
    rcases ended with ⟨error | finished, walk⟩
    · exact nofun
    · cases finished with
      | false => exact absurd rfl hends
      | true => exact nofun

/-- Every recursion and loop of the lookups ends: the recursions over the schema, the walk of a
lookup of subjects from any of its states, and the walk of a lookup of resources within a number
of steps that no limit has a part in. -/
structure PublishedSnapshot.LookupsEnd (snapshot : PublishedSnapshot) : Prop where
  producerPlan : ∀ resourceType permission,
    EndsWith snapshot.schema.rulesBody
      (snapshot.schema.lookupProducerPlanOver resourceType permission)
      (snapshot.schema.lookupProducerPlan resourceType permission)
  sameObject : ∀ sourceRelation visiting relationId,
    EndsWith (snapshot.schema.inclusionBody sourceRelation)
      (fun visit => visit visiting relationId)
      (snapshot.schema.relationIdCanIncludeSameObjectRelation sourceRelation
        (snapshot.schema.relationCount + 1) visiting relationId)
  edges : ∀ ownerObjectType ownerRelation intermediateType sourceRelation visiting expression,
    EndsWith
      (snapshot.schema.tupleToUsersetBody ownerObjectType ownerRelation intermediateType
        sourceRelation)
      (fun visit => snapshot.schema.collectTupleToUsersetExpressionExpansions ownerObjectType
        ownerRelation intermediateType sourceRelation visit visiting expression)
      (snapshot.schema.collectTupleToUsersetExpressionExpansions ownerObjectType ownerRelation
        intermediateType sourceRelation
        (snapshot.schema.visitTupleToUsersetRelation ownerObjectType ownerRelation
          intermediateType sourceRelation snapshot.schema.relationCount) visiting expression)
  verification : ∀ visiting expression,
    EndsWith snapshot.schema.verificationBody
      (fun visit => CompiledSchema.expressionRequiresLookupSubjectVerification visit visiting
        expression)
      (CompiledSchema.expressionRequiresLookupSubjectVerification
        (snapshot.schema.visitRelation snapshot.schema.relationCount) visiting expression)
  subjects : ∀ (stream : SubjectStream) object relationName inheritedVerifyCandidates,
    stream.context.snapshot = snapshot →
      EndsWith Streaming.streamBody
        (fun nested => nested object relationName inheritedVerifyCandidates stream)
        (Streaming.streamLookupSubjectsRelation stream.context.remainingDepth object relationName
          inheritedVerifyCandidates stream)
  resources : ∀ request, ∃ bound, ∀ limits steps, bound < steps →
    lookupResourcesWithSnapshot snapshot request limits steps =
        lookupResourcesWithSnapshot snapshot request limits (bound + 1) ∧
      lookupResourcesWithSnapshot snapshot request limits steps ≠ .ok none

/-- The lookups end on every snapshot. -/
theorem PublishedSnapshot.lookups_end
    (snapshot : PublishedSnapshot) :
    snapshot.LookupsEnd where
  producerPlan := snapshot.schema.lookupProducerPlan_ends
  sameObject := snapshot.schema.canIncludeSameObject_ends
  edges := snapshot.schema.collectTupleToUserset_ends
  verification := snapshot.schema.requiresVerification_ends
  subjects stream object relationName inheritedVerifyCandidates _ :=
    Streaming.streamRelation_ends stream object relationName inheritedVerifyCandidates
  resources request := ⟨_, snapshot.lookupResources_ends request⟩

end Lookups

end SimpleZanzibar
