import SimpleZanzibar.Domain

/-!
# Filters, mutations and store errors

The query and mutation vocabulary of the relationship store.  A filter field that
is absent matches everything; `RelationshipFilter.Matches` and
`SubjectFilter.Matches` state that reading on relationships, independently of how
a store answers a query.
-/

namespace SimpleZanzibar

/-- Largest value of the platform's `usize`. -/
def usizeMax : Nat := 2 ^ 64 - 1

/-- `usize::checked_add`. -/
def checkedAdd (a b : Nat) : Option Nat :=
  if a + b ≤ usizeMax then some (a + b) else none

theorem thousand_pos : 0 < 1000 := by
  decide

/-- `NonZeroUsize`. -/
structure NonZeroUsize where
  get : Nat
  pos : 0 < get
  le : get ≤ usizeMax
deriving DecidableEq

def NonZeroUsize.new (value : Nat) : Option NonZeroUsize :=
  if h : 0 < value ∧ value ≤ usizeMax then some ⟨value, h.1, h.2⟩ else none

/-- Maximum number of query results. -/
abbrev QueryLimit := NonZeroUsize

def defaultQueryLimit : QueryLimit := ⟨1000, thousand_pos, by decide⟩

/-- `NonZeroUsize::MAX`. -/
def unboundedQueryLimit : QueryLimit := ⟨usizeMax, by decide, Nat.le_refl _⟩

/-- `NonZeroUsize::MIN`. -/
def minQueryLimit : QueryLimit := ⟨1, by decide, by decide⟩

/-- Subject-side filter. -/
structure SubjectFilter where
  subjectType : SubjectType
  optionalSubjectId : Option SubjectId
  optionalRelation : Option RelationName
deriving DecidableEq

def SubjectFilter.exact
    (subjectType : SubjectType)
    (subjectId : SubjectId)
    (relation : Option RelationName) :
    SubjectFilter :=
  ⟨subjectType, some subjectId, relation⟩

def SubjectFilter.tryFrom : User → Except DomainError SubjectFilter
  | .userId id => do
      let subjectType ← Identifier.new .subjectType "user"
      let subjectId ← Identifier.new .subjectId id
      return SubjectFilter.exact subjectType subjectId none
  | .userset object relation => do
      let subjectType ← Identifier.new .subjectType object.namespaceName
      let subjectId ← Identifier.new .subjectId object.id
      let relationName ← Identifier.new .relationName relation.name
      return SubjectFilter.exact subjectType subjectId (some relationName)

/-- Resource-side filter. -/
structure RelationshipFilter where
  resourceType : ObjectType
  optionalResourceId : Option ObjectId
  optionalRelation : Option RelationName
  optionalSubject : Option SubjectFilter
  limit : QueryLimit
deriving DecidableEq

/-- Object of a subject reference. -/
def SubjectRef.objectRef : SubjectRef → ObjectRef
  | .object o => o
  | .userset o _ => o

/-- Relation of a userset subject. -/
def SubjectRef.relation? : SubjectRef → Option RelationName
  | .object _ => none
  | .userset _ r => some r

theorem SubjectRef.ext_parts
    {a b : SubjectRef}
    (ho : a.objectRef = b.objectRef)
    (hr : a.relation? = b.relation?) :
    a = b := by
  cases a <;> cases b <;>
    simp_all [SubjectRef.objectRef, SubjectRef.relation?]

/-- A subject matches when every field that the filter names agrees. -/
def SubjectFilter.Matches (filter : SubjectFilter) (subject : SubjectRef) : Prop :=
  subject.objectRef.objectType.value = filter.subjectType.value ∧
    (∀ id, filter.optionalSubjectId = some id →
      subject.objectRef.objectId.value = id.value) ∧
    (∀ relation, filter.optionalRelation = some relation →
      subject.relation? = some relation)

/-- A relationship matches when every field that the filter names agrees. -/
def RelationshipFilter.Matches
    (filter : RelationshipFilter) (relationship : Relationship) : Prop :=
  relationship.resource.objectType = filter.resourceType ∧
    (∀ id, filter.optionalResourceId = some id → relationship.resource.objectId = id) ∧
    (∀ relation, filter.optionalRelation = some relation →
      relationship.relation = relation) ∧
    (∀ subject, filter.optionalSubject = some subject →
      subject.Matches relationship.subject)

instance (filter : SubjectFilter) (subject : SubjectRef) :
    Decidable (filter.Matches subject) :=
  decidable_of_iff
    (subject.objectRef.objectType.value = filter.subjectType.value ∧
      filter.optionalSubjectId.all
        (fun id => decide (subject.objectRef.objectId.value = id.value)) = true ∧
      filter.optionalRelation.all
        (fun relation => decide (subject.relation? = some relation)) = true)
    (by
      unfold SubjectFilter.Matches
      cases filter.optionalSubjectId <;> cases filter.optionalRelation <;> simp)

instance (filter : RelationshipFilter) (relationship : Relationship) :
    Decidable (filter.Matches relationship) :=
  decidable_of_iff
    (relationship.resource.objectType = filter.resourceType ∧
      filter.optionalResourceId.all
        (fun id => decide (relationship.resource.objectId = id)) = true ∧
      filter.optionalRelation.all
        (fun relation => decide (relationship.relation = relation)) = true ∧
      filter.optionalSubject.all
        (fun subject => decide (subject.Matches relationship.subject)) = true)
    (by
      unfold RelationshipFilter.Matches
      cases filter.optionalResourceId <;> cases filter.optionalRelation <;>
        cases filter.optionalSubject <;> simp)

/-- Relationship mutation. -/
inductive RelationshipMutation where
  | create (relationship : Relationship)
  | touch (relationship : Relationship)
  | delete (relationship : Relationship)
deriving DecidableEq

def RelationshipMutation.relationship : RelationshipMutation → Relationship
  | .create r => r
  | .touch r => r
  | .delete r => r

def RelationshipMutation.isTouch : RelationshipMutation → Bool
  | .touch _ => true
  | _ => false

/-- Mutation precondition. -/
inductive Precondition where
  | mustMatch (filter : RelationshipFilter)
  | mustNotMatch (filter : RelationshipFilter)
deriving DecidableEq

/-- Errors of the relationship store. -/
inductive StoreError where
  | relationshipAlreadyExists (relationship : Relationship)
  | relationshipNotFound (relationship : Relationship)
  | duplicateMutation (relationship : Relationship)
  | preconditionFailed (precondition : Precondition)
  | mutationBatchTooLarge (limit actual : Nat)
  | preconditionBatchTooLarge (limit actual : Nat)
  | capacityExceeded (component : String)
  | internalInvariant (reason : String)
  | domainMaterialization (error : DomainError)
deriving DecidableEq

/-- The errors for rows, symbols or bytes that no longer fit. -/
def StoreError.IsCapacity (error : StoreError) : Prop :=
  ∃ component, error = .capacityExceeded component

def maxMutationsPerBatch : Nat := 10000
def maxPreconditionsPerBatch : Nat := 100
def compactDeadRows : Nat := 100000
def storeViewMaxDeltaMutations : Nat := 100000
def storeViewMaxDeltaTombstones : Nat := 100000

/-- The first relationship that a batch mutates twice. -/
def firstDuplicate (seen : Finset Relationship) : List RelationshipMutation → Option Relationship
  | [] => none
  | mutation :: rest =>
      if mutation.relationship ∈ seen then some mutation.relationship
      else firstDuplicate (insert mutation.relationship seen) rest

/-- Rejects a batch with two mutations of one relationship. -/
def rejectDuplicates (mutations : List RelationshipMutation) : Except StoreError Unit :=
  match firstDuplicate ∅ mutations with
  | some relationship => .error (.duplicateMutation relationship)
  | none => .ok ()

/-- Checks the preconditions in order. -/
def checkAll (check : Precondition → Except StoreError Unit) :
    List Precondition → Except StoreError Unit
  | [] => .ok ()
  | precondition :: rest => do
      check precondition
      checkAll check rest

/-- The size limits of a batch and its preconditions. -/
def admitBatch (check : Precondition → Except StoreError Unit)
    (mutations : List RelationshipMutation) (preconditions : List Precondition) :
    Except StoreError Unit :=
  if maxPreconditionsPerBatch < preconditions.length then
    .error (.preconditionBatchTooLarge maxPreconditionsPerBatch preconditions.length)
  else do
    checkAll check preconditions
    if maxMutationsPerBatch < mutations.length then
      .error (.mutationBatchTooLarge maxMutationsPerBatch mutations.length)
    else .ok ()

end SimpleZanzibar
