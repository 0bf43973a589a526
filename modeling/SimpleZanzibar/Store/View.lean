import Mathlib.Data.Finset.Option
import SimpleZanzibar.Store.Indexed

/-!
# The relationship store view

A published view is an indexed checkpoint and an optional delta overlay: a store of
inserted rows and the tombstones of checkpoint rows, kept both as relationships and
as interned rows.  A batch of mutations copies the overlay; a large overlay is
folded into a new checkpoint.
-/

namespace SimpleZanzibar

structure StoreDelta where
  inserted : IndexedRelationshipStore
  deletedRows : Finset RowIdentity
  deleted : Finset Relationship
  mutationCount : NonZeroUsize

structure RelationshipStoreView where
  checkpoint : IndexedRelationshipStore
  delta : Option StoreDelta

/-- Where a relationship is found while a batch is applied. -/
inductive RelationshipLocation where
  | inserted
  | checkpointLive
  | checkpointDeleted
  | absent
deriving DecidableEq, Repr

namespace RelationshipStoreView

def fromCheckpoint (checkpoint : IndexedRelationshipStore) : RelationshipStoreView :=
  ⟨checkpoint, none⟩

def default : RelationshipStoreView :=
  fromCheckpoint .default

/-- All live relationships: the checkpoint without its tombstones, then the inserted. -/
def rows (view : RelationshipStoreView) : List Relationship :=
  match view.delta with
  | none => view.checkpoint.rows
  | some delta =>
      view.checkpoint.rows.filter (fun relationship => decide (relationship ∉ delta.deleted)) ++
        delta.inserted.rows

def indexProfile (view : RelationshipStoreView) : IndexProfile :=
  view.checkpoint.indexProfile

/-- What the merged iterator yields: the inserted rows, then the checkpoint rows that
have no tombstone. -/
def merge (view : RelationshipStoreView)
    (query : IndexedRelationshipStore → List RelationshipRef) : List RelationshipRef :=
  match view.delta with
  | none => query view.checkpoint
  | some delta =>
      query delta.inserted ++
        (query view.checkpoint).filter (fun ref =>
          decide (ref.row.identity ∉ delta.deletedRows))

def shouldCheckpoint (view : RelationshipStoreView) : Bool :=
  view.delta.any (fun delta =>
    decide (storeViewMaxDeltaMutations ≤ delta.mutationCount.get) ||
      decide (storeViewMaxDeltaTombstones ≤ delta.deleted.card))

section Hashed

variable [StoreHasher]

def queryCompactRelationships (view : RelationshipStoreView) (filter : RelationshipFilter) :
    List RelationshipRef :=
  view.merge (fun store => store.queryCompactRelationships filter)

def reverseQueryCompactRelationships (view : RelationshipStoreView) (filter : SubjectFilter) :
    List RelationshipRef :=
  view.merge (fun store => store.reverseQueryCompactRelationships filter)

def resourceRelation (view : RelationshipStoreView) (resource : ObjectRef)
    (relation : RelationName) (limit : QueryLimit) : List RelationshipRef :=
  view.merge (fun store => store.resourceRelation resource relation limit)

def resourceRelationSubject (view : RelationshipStoreView) (resource : ObjectRef)
    (relation : RelationName) (subject : SubjectFilter) : List RelationshipRef :=
  view.merge (fun store => store.resourceRelationSubject resource relation subject)

def anyResourceMatch (view : RelationshipStoreView) (filter : RelationshipFilter) : Bool :=
  !(view.queryCompactRelationships filter).isEmpty

def anyResourceRelationSubject (view : RelationshipStoreView) (resource : ObjectRef)
    (relation : RelationName) (subject : SubjectFilter) : Bool :=
  !(view.resourceRelationSubject resource relation subject).isEmpty

def hasReverseSubjectCandidates (view : RelationshipStoreView) (filter : SubjectFilter) : Bool :=
  view.delta.any (fun delta => delta.inserted.hasSubjectCandidates filter) ||
    view.checkpoint.hasSubjectCandidates filter

def checkPrecondition (view : RelationshipStoreView) (precondition : Precondition) :
    Except StoreError Unit :=
  match precondition with
  | .mustMatch filter =>
      if view.anyResourceMatch filter then .ok () else .error (.preconditionFailed precondition)
  | .mustNotMatch filter =>
      if view.anyResourceMatch filter then .error (.preconditionFailed precondition) else .ok ()

/-- Builds the identity index of a checkpoint that was loaded without one. -/
def ensureCheckpointMutationReady (view : RelationshipStoreView) :
    Except StoreError RelationshipStoreView :=
  if view.checkpoint.hasReadyUniqueness then .ok view
  else do
    let checkpoint ← IndexedRelationshipStore.ensureUniquenessIndex.exec view.checkpoint
    return { view with checkpoint := checkpoint }

def relationshipLocation (view : RelationshipStoreView) (inserted : IndexedRelationshipStore)
    (deleted : Finset Relationship) (relationship : Relationship) : RelationshipLocation :=
  if inserted.containsRelationship relationship then .inserted
  else if view.checkpoint.containsRelationship relationship then
    if relationship ∈ deleted then .checkpointDeleted else .checkpointLive
  else .absent

def createDeltaRelationship (view : RelationshipStoreView) (inserted : IndexedRelationshipStore)
    (deleted : Finset Relationship) (relationship : Relationship) :
    Except StoreError (IndexedRelationshipStore × Finset Relationship) :=
  match view.relationshipLocation inserted deleted relationship with
  | .inserted => .error (.relationshipAlreadyExists relationship)
  | .checkpointLive => .error (.relationshipAlreadyExists relationship)
  | .checkpointDeleted => .ok (inserted, deleted.erase relationship)
  | .absent => do
      let inserted ← (IndexedRelationshipStore.insert relationship).exec inserted
      return (inserted, deleted)

def touchDeltaRelationship (view : RelationshipStoreView) (inserted : IndexedRelationshipStore)
    (deleted : Finset Relationship) (relationship : Relationship) :
    Except StoreError (IndexedRelationshipStore × Finset Relationship) :=
  match view.relationshipLocation inserted deleted relationship with
  | .inserted => .ok (inserted, deleted)
  | .checkpointLive => .ok (inserted, deleted)
  | .checkpointDeleted => .ok (inserted, deleted.erase relationship)
  | .absent => do
      let inserted ← (IndexedRelationshipStore.insert relationship).exec inserted
      return (inserted, deleted)

def deleteDeltaRelationship (view : RelationshipStoreView) (inserted : IndexedRelationshipStore)
    (deleted : Finset Relationship) (relationship : Relationship) :
    Except StoreError (IndexedRelationshipStore × Finset Relationship) :=
  match view.relationshipLocation inserted deleted relationship with
  | .inserted => do
      let inserted ← (IndexedRelationshipStore.delete relationship).exec inserted
      return (inserted, deleted)
  | .checkpointLive => .ok (inserted, insert relationship deleted)
  | .checkpointDeleted => .error (.relationshipNotFound relationship)
  | .absent => .error (.relationshipNotFound relationship)

def applyDeltaMutation (view : RelationshipStoreView) (inserted : IndexedRelationshipStore)
    (deleted : Finset Relationship) : RelationshipMutation →
    Except StoreError (IndexedRelationshipStore × Finset Relationship)
  | .create relationship => view.createDeltaRelationship inserted deleted relationship
  | .touch relationship => view.touchDeltaRelationship inserted deleted relationship
  | .delete relationship => view.deleteDeltaRelationship inserted deleted relationship

/-- Applies the mutations of a batch to the overlay, in order. -/
def applyDeltaMutations (view : RelationshipStoreView) :
    IndexedRelationshipStore → Finset Relationship → List RelationshipMutation →
    Except StoreError (IndexedRelationshipStore × Finset Relationship)
  | inserted, deleted, [] => .ok (inserted, deleted)
  | inserted, deleted, mutation :: rest => do
      let (inserted, deleted) ← view.applyDeltaMutation inserted deleted mutation
      view.applyDeltaMutations inserted deleted rest

/-- One store with the live relationships of the view, inserted in order. -/
def canonicalStore (view : RelationshipStoreView) : Except StoreError IndexedRelationshipStore :=
  (Action.forEach IndexedRelationshipStore.insert view.rows).exec .default

def checkpointed (view : RelationshipStoreView) : Except StoreError RelationshipStoreView := do
  let store ← view.canonicalStore
  return fromCheckpoint store

/-- The tombstones as rows of the checkpoint. -/
def deletedRelationshipRows (view : RelationshipStoreView) (deleted : Finset Relationship) :
    Finset RowIdentity :=
  Finset.eraseNone (deleted.image (fun relationship =>
    RowIdentity.fromExistingRelationship relationship view.checkpoint.interner))

/-- The next view of a batch, before it is decided whether to fold the overlay. -/
def withDelta (view : RelationshipStoreView) (inserted : IndexedRelationshipStore)
    (deleted : Finset Relationship) (mutationCount : NonZeroUsize) : RelationshipStoreView :=
  { checkpoint := view.checkpoint
    delta := some
      { inserted := inserted
        deletedRows := view.deletedRelationshipRows deleted
        deleted := deleted
        mutationCount := mutationCount } }

def mutationCount (view : RelationshipStoreView) (mutations : List RelationshipMutation) :
    Except StoreError NonZeroUsize :=
  let previousMutations := (view.delta.map (·.mutationCount.get)).getD 0
  match (checkedAdd previousMutations mutations.length).bind NonZeroUsize.new with
  | some count => .ok count
  | none => .error (.capacityExceeded "store view delta mutations")

/-- Applies a non-empty admitted batch to a view whose checkpoint is indexed. -/
def applyBatch (base : RelationshipStoreView) (mutations : List RelationshipMutation) :
    Except StoreError RelationshipStoreView := do
  let inserted := (base.delta.map (·.inserted)).getD .default
  let deleted := (base.delta.map (·.deleted)).getD ∅
  let (inserted, deleted) ← base.applyDeltaMutations inserted deleted mutations
  let mutationCount ← base.mutationCount mutations
  let candidate := base.withDelta inserted deleted mutationCount
  if candidate.shouldCheckpoint then candidate.checkpointed else .ok candidate

def applyMutations (view : RelationshipStoreView) (mutations : List RelationshipMutation)
    (preconditions : List Precondition) : Except StoreError RelationshipStoreView := do
  admitBatch view.checkPrecondition mutations preconditions
  rejectDuplicates mutations
  if mutations.isEmpty then
    return view
  let base ← view.ensureCheckpointMutationReady
  base.applyBatch mutations

end Hashed

end RelationshipStoreView

end SimpleZanzibar
