import SimpleZanzibar.Store.Identity
import SimpleZanzibar.Store.LiveRows
import SimpleZanzibar.Store.Posting

/-!
# The indexed relationship store

Rows are appended and never moved; deleting a row clears its bit in the liveness
bitmap.  Seven posting indexes answer the resource-side and subject-side queries.
Query iterators are modelled by the list of rows they yield.
-/

namespace SimpleZanzibar

/-- Index groups that a snapshot was saved with. -/
inductive IndexProfile where
  | full
  | checkOnly
  | checkAndObjectAudit
deriving DecidableEq, Repr

namespace IndexProfile

def supportsSubjectReverseLookup : IndexProfile → Bool
  | .full => true
  | _ => false

def supportsBroadResourceIndexes : IndexProfile → Bool
  | .full => true
  | _ => false

def satisfies : IndexProfile → IndexProfile → Bool
  | .full, _ => true
  | .checkAndObjectAudit, .checkAndObjectAudit => true
  | .checkAndObjectAudit, .checkOnly => true
  | .checkOnly, .checkOnly => true
  | _, _ => false

end IndexProfile

structure ResourceIndexKey where
  objectType : SymbolId
  objectId : SymbolId
  relation : SymbolId
deriving DecidableEq

structure ResourceObjectIndexKey where
  objectType : SymbolId
  objectId : SymbolId
deriving DecidableEq

structure ResourceTypeRelationIndexKey where
  objectType : SymbolId
  relation : SymbolId
deriving DecidableEq

structure SubjectIndexKey where
  subjectType : SymbolId
  subjectId : SymbolId
  relation : Option SymbolId
deriving DecidableEq

structure SubjectTypeRelationIndexKey where
  subjectType : SymbolId
  relation : SymbolId
deriving DecidableEq

/-- Symbols compare as their numbers. -/
theorem SymbolId.get_injective :
    Function.Injective (fun id : SymbolId => id.value.get) := by
  rintro ⟨value⟩ ⟨value'⟩ h
  exact congrArg SymbolId.mk (NonZeroU32.ext h)

/-- The number of an optional symbol, zero for none. -/
def optionalRaw : Option SymbolId → Nat
  | none => 0
  | some id => id.value.get

theorem optionalRaw_injective :
    Function.Injective optionalRaw := by
  intro id id' h
  cases id with
  | none =>
      cases id' with
      | none => rfl
      | some id' => exact absurd h.symm id'.value.pos.ne'
  | some id =>
      cases id' with
      | none => exact absurd h id.value.pos.ne'
      | some id' => exact congrArg some (SymbolId.get_injective h)

theorem rank_inj
    {a b c a' b' c' : Nat}
    (h : (toLex (a, toLex (b, c)) : Nat ×ₗ (Nat ×ₗ Nat)) = toLex (a', toLex (b', c'))) :
    a = a' ∧ b = b' ∧ c = c' := by
  obtain ⟨hfirst, hrest⟩ := Prod.ext_iff.mp (toLex.injective h)
  obtain ⟨hsecond, hthird⟩ := Prod.ext_iff.mp (toLex.injective hrest)
  exact ⟨hfirst, hsecond, hthird⟩

instance : IndexKey SymbolId where
  rank key := toLex (key.value.get, toLex (0, 0))
  rank_injective := by
    intro key key' h
    exact SymbolId.get_injective (rank_inj h).1

instance : IndexKey ResourceIndexKey where
  rank key := toLex (key.objectType.value.get,
    toLex (key.objectId.value.get, key.relation.value.get))
  rank_injective := by
    rintro ⟨objectType, objectId, relation⟩ ⟨objectType', objectId', relation'⟩ h
    obtain ⟨hfirst, hsecond, hthird⟩ := rank_inj h
    obtain rfl : objectType = objectType' := SymbolId.get_injective hfirst
    obtain rfl : objectId = objectId' := SymbolId.get_injective hsecond
    obtain rfl : relation = relation' := SymbolId.get_injective hthird
    rfl

instance : IndexKey ResourceObjectIndexKey where
  rank key := toLex (key.objectType.value.get, toLex (key.objectId.value.get, 0))
  rank_injective := by
    rintro ⟨objectType, objectId⟩ ⟨objectType', objectId'⟩ h
    obtain ⟨hfirst, hsecond, _⟩ := rank_inj h
    obtain rfl : objectType = objectType' := SymbolId.get_injective hfirst
    obtain rfl : objectId = objectId' := SymbolId.get_injective hsecond
    rfl

instance : IndexKey ResourceTypeRelationIndexKey where
  rank key := toLex (key.objectType.value.get, toLex (key.relation.value.get, 0))
  rank_injective := by
    rintro ⟨objectType, relation⟩ ⟨objectType', relation'⟩ h
    obtain ⟨hfirst, hsecond, _⟩ := rank_inj h
    obtain rfl : objectType = objectType' := SymbolId.get_injective hfirst
    obtain rfl : relation = relation' := SymbolId.get_injective hsecond
    rfl

instance : IndexKey SubjectIndexKey where
  rank key := toLex (key.subjectType.value.get,
    toLex (key.subjectId.value.get, optionalRaw key.relation))
  rank_injective := by
    rintro ⟨subjectType, subjectId, relation⟩ ⟨subjectType', subjectId', relation'⟩ h
    obtain ⟨hfirst, hsecond, hthird⟩ := rank_inj h
    obtain rfl : subjectType = subjectType' := SymbolId.get_injective hfirst
    obtain rfl : subjectId = subjectId' := SymbolId.get_injective hsecond
    obtain rfl : relation = relation' := optionalRaw_injective hthird
    rfl

instance : IndexKey SubjectTypeRelationIndexKey where
  rank key := toLex (key.subjectType.value.get, toLex (key.relation.value.get, 0))
  rank_injective := by
    rintro ⟨subjectType, relation⟩ ⟨subjectType', relation'⟩ h
    obtain ⟨hfirst, hsecond, _⟩ := rank_inj h
    obtain rfl : subjectType = subjectType' := SymbolId.get_injective hfirst
    obtain rfl : relation = relation' := SymbolId.get_injective hsecond
    rfl

namespace RowIdentity

def resourceKey (row : RowIdentity) : ResourceIndexKey :=
  ⟨row.resourceType, row.resourceId, row.relation⟩

def resourceObjectKey (row : RowIdentity) : ResourceObjectIndexKey :=
  ⟨row.resourceType, row.resourceId⟩

def resourceTypeRelationKey (row : RowIdentity) : ResourceTypeRelationIndexKey :=
  ⟨row.resourceType, row.relation⟩

/-- A userset subject is entered with and without its relation. -/
def subjectKeys (row : RowIdentity) : List SubjectIndexKey :=
  match row.subjectRelation with
  | some relation =>
      [⟨row.subjectType, row.subjectId, some relation⟩, ⟨row.subjectType, row.subjectId, none⟩]
  | none => [⟨row.subjectType, row.subjectId, none⟩]

def subjectTypeRelationKey (row : RowIdentity) : Option SubjectTypeRelationIndexKey :=
  row.subjectRelation.map (fun relation => ⟨row.subjectType, relation⟩)

end RowIdentity

structure SubjectMatcher where
  subjectType : SymbolId
  optionalSubjectId : Option SymbolId
  optionalRelation : Option SymbolId

structure ResourceMatcher where
  resourceType : SymbolId
  optionalResourceId : Option SymbolId
  optionalRelation : Option SymbolId
  optionalSubject : Option SubjectMatcher
  remaining : Nat

namespace RowIdentity

def matchesSubject (row : RowIdentity) (matcher : SubjectMatcher) : Bool :=
  row.subjectType == matcher.subjectType &&
    matcher.optionalSubjectId.all (fun subjectId => row.subjectId == subjectId) &&
    matcher.optionalRelation.all (fun relation => row.subjectRelation == some relation)

def matchesResource (row : RowIdentity) (matcher : ResourceMatcher) : Bool :=
  row.resourceType == matcher.resourceType &&
    matcher.optionalResourceId.all (fun resourceId => row.resourceId == resourceId) &&
    matcher.optionalRelation.all (fun relation => row.relation == relation) &&
    matcher.optionalSubject.all (fun subject => row.matchesSubject subject)

section Interned

variable [StoreHasher]

/-- The row of a relationship, with its strings interned. -/
def fromRelationship (relationship : Relationship) :
    Action IdentifierInterner StoreError RowIdentity := do
  let resourceType ← IdentifierInterner.intern relationship.resource.objectType.value
  let resourceId ← IdentifierInterner.intern relationship.resource.objectId.value
  let relation ← IdentifierInterner.intern relationship.relation.value
  let subjectType ← IdentifierInterner.intern relationship.subject.objectRef.objectType.value
  let subjectId ← IdentifierInterner.intern relationship.subject.objectRef.objectId.value
  match relationship.subject with
  | .object _ =>
      return ⟨resourceType, resourceId, relation, subjectType, subjectId, none⟩
  | .userset _ subjectRelation =>
      let subjectRelation ← IdentifierInterner.intern subjectRelation.value
      return ⟨resourceType, resourceId, relation, subjectType, subjectId, some subjectRelation⟩

/-- The row of a relationship whose strings are all interned. -/
def fromExistingRelationship (relationship : Relationship) (interner : IdentifierInterner) :
    Option RowIdentity := do
  let resourceType ← interner.lookup relationship.resource.objectType.value
  let resourceId ← interner.lookup relationship.resource.objectId.value
  let relation ← interner.lookup relationship.relation.value
  let subjectType ← interner.lookup relationship.subject.objectRef.objectType.value
  let subjectId ← interner.lookup relationship.subject.objectRef.objectId.value
  match relationship.subject with
  | .object _ =>
      return ⟨resourceType, resourceId, relation, subjectType, subjectId, none⟩
  | .userset _ subjectRelation =>
      let subjectRelation ← interner.lookup subjectRelation.value
      return ⟨resourceType, resourceId, relation, subjectType, subjectId, some subjectRelation⟩

end Interned

end RowIdentity

structure IndexedRelationshipStore where
  indexProfile : IndexProfile
  interner : IdentifierInterner
  rowTable : List RelationshipRow
  liveRows : LiveRows
  deadRowCount : Nat
  uniqueness : UniquenessState
  byResource : PostingIndex ResourceIndexKey
  byResourceObject : PostingIndex ResourceObjectIndexKey
  byResourceTypeRelation : PostingIndex ResourceTypeRelationIndexKey
  byResourceType : PostingIndex SymbolId
  bySubject : PostingIndex SubjectIndexKey
  bySubjectTypeRelation : PostingIndex SubjectTypeRelationIndexKey
  bySubjectType : PostingIndex SymbolId

/-- A row together with the store that resolves its symbols. -/
structure RelationshipRef where
  store : IndexedRelationshipStore
  row : RelationshipRow

namespace IndexedRelationshipStore

def default : IndexedRelationshipStore where
  indexProfile := .full
  interner := .default
  rowTable := []
  liveRows := .default
  deadRowCount := 0
  uniqueness := .ready .default
  byResource := .default
  byResourceObject := .default
  byResourceTypeRelation := .default
  byResourceType := .default
  bySubject := .default
  bySubjectTypeRelation := .default
  bySubjectType := .default

/-- Resolves a symbol and validates it for its place in a relationship. -/
def resolveAs (store : IndexedRelationshipStore) (kind : IdentifierKind) (id : SymbolId) :
    Except StoreError (Identifier kind) := do
  let value ← store.interner.resolve id
  (Identifier.new kind value).mapError .domainMaterialization

/-- The subject of a row. -/
def subjectFromRow (store : IndexedRelationshipStore) (row : RowIdentity) :
    Except StoreError SubjectRef := do
  let subjectType ← store.resolveAs .objectType row.subjectType
  let subjectId ← store.resolveAs .objectId row.subjectId
  match row.subjectRelation with
  | some subjectRelation =>
      let subjectRelation ← store.resolveAs .relationName subjectRelation
      return .userset ⟨subjectType, subjectId⟩ subjectRelation
  | none => return .object ⟨subjectType, subjectId⟩

def relationshipFromRow (store : IndexedRelationshipStore) (row : RowIdentity) :
    Except StoreError Relationship := do
  let resourceType ← store.resolveAs .objectType row.resourceType
  let resourceId ← store.resolveAs .objectId row.resourceId
  let relation ← store.resolveAs .relationName row.relation
  let subject ← store.subjectFromRow row
  return ⟨⟨resourceType, resourceId⟩, relation, subject⟩

/-- The rows that were not deleted. -/
def liveRowTable (store : IndexedRelationshipStore) : List RelationshipRow :=
  store.rowTable.filter (fun row => store.liveRows.contains row.rowId)

/-- All live relationships, in row order. -/
def rows (store : IndexedRelationshipStore) : List Relationship :=
  store.liveRowTable.filterMap (fun row => (store.relationshipFromRow row.identity).toOption)

/-- Enters a row into the seven posting indexes. -/
def indexRelationship (store : IndexedRelationshipStore) (rowId : RowId) (row : RowIdentity) :
    IndexedRelationshipStore :=
  { store with
    byResource := store.byResource.insert row.resourceKey rowId
    byResourceObject := store.byResourceObject.insert row.resourceObjectKey rowId
    byResourceTypeRelation :=
      store.byResourceTypeRelation.insert row.resourceTypeRelationKey rowId
    byResourceType := store.byResourceType.insert row.resourceType rowId
    bySubject :=
      row.subjectKeys.foldl (fun index key => index.insert key rowId) store.bySubject
    bySubjectTypeRelation :=
      row.subjectTypeRelationKey.toList.foldl (fun index key => index.insert key rowId)
        store.bySubjectTypeRelation
    bySubjectType := store.bySubjectType.insert row.subjectType rowId }

def hasReadyUniqueness (store : IndexedRelationshipStore) : Bool :=
  match store.uniqueness with
  | .ready _ => true
  | _ => false

def uniquenessRef (store : IndexedRelationshipStore) : Option RelationshipIdentityIndex :=
  match store.uniqueness with
  | .ready index => some index
  | _ => none

def readyUniqueness (store : IndexedRelationshipStore) :
    Except StoreError RelationshipIdentityIndex :=
  match store.uniqueness with
  | .ready index => .ok index
  | _ =>
      .error (.internalInvariant
        "relationship uniqueness index was not initialized before mutation")

def resourceCandidateRowIds (store : IndexedRelationshipStore) (matcher : ResourceMatcher) :
    List RowId :=
  match matcher.optionalResourceId, matcher.optionalRelation with
  | some resourceId, some relation =>
      store.byResource.candidates ⟨matcher.resourceType, resourceId, relation⟩
  | some resourceId, none =>
      store.byResourceObject.candidates ⟨matcher.resourceType, resourceId⟩
  | none, some relation =>
      store.byResourceTypeRelation.candidates ⟨matcher.resourceType, relation⟩
  | none, none => store.byResourceType.candidates matcher.resourceType

def subjectCandidateRowIds (store : IndexedRelationshipStore) (matcher : SubjectMatcher) :
    List RowId :=
  match matcher.optionalSubjectId, matcher.optionalRelation with
  | some subjectId, relation =>
      store.bySubject.candidates ⟨matcher.subjectType, subjectId, relation⟩
  | none, some relation =>
      store.bySubjectTypeRelation.candidates ⟨matcher.subjectType, relation⟩
  | none, none => store.bySubjectType.candidates matcher.subjectType

/-- The candidate is skipped by the iterators. -/
def skips (store : IndexedRelationshipStore) (rowId : RowId) : Bool :=
  !store.liveRows.isAllLive && !store.liveRows.contains rowId

/-- What the compact iterator yields for a resource matcher: the limit counts the
rows that match. -/
def resourceIter (store : IndexedRelationshipStore) (matcher : ResourceMatcher) :
    Nat → List RowId → List RelationshipRef
  | _, [] => []
  | remaining, rowId :: candidates =>
      if store.skips rowId then store.resourceIter matcher remaining candidates
      else
        match store.rowTable[rowId.index]? with
        | none => []
        | some row =>
            if remaining = 0 then []
            else if row.identity.matchesResource matcher then
              ⟨store, row⟩ :: store.resourceIter matcher (remaining - 1) candidates
            else store.resourceIter matcher remaining candidates

/-- What the compact iterator yields for a subject matcher. -/
def subjectIter (store : IndexedRelationshipStore) (matcher : SubjectMatcher) :
    List RowId → List RelationshipRef
  | [] => []
  | rowId :: candidates =>
      if store.skips rowId then store.subjectIter matcher candidates
      else
        match store.rowTable[rowId.index]? with
        | none => []
        | some row =>
            if row.identity.matchesSubject matcher then
              ⟨store, row⟩ :: store.subjectIter matcher candidates
            else store.subjectIter matcher candidates

/-- Runs a resource matcher, if all of its symbols were found. -/
def runResource (store : IndexedRelationshipStore) :
    Option ResourceMatcher → List RelationshipRef
  | none => []
  | some matcher =>
      store.resourceIter matcher matcher.remaining (store.resourceCandidateRowIds matcher)

/-- A symbol with `<invalid>` for an unknown one. -/
def resolve (store : IndexedRelationshipStore) (id : SymbolId) : String :=
  match store.interner.resolve id with
  | .ok value => value
  | .error _ => "<invalid>"

section Hashed

variable [StoreHasher]

/-- The symbol of a filter field, `none` when it is named but not interned. -/
def lookupField (store : IndexedRelationshipStore) (value : Option String) :
    Option (Option SymbolId) :=
  match value with
  | none => some none
  | some value => (store.interner.lookup value).map some

def subjectMatcher (store : IndexedRelationshipStore) (filter : SubjectFilter) :
    Option SubjectMatcher := do
  let subjectType ← store.interner.lookup filter.subjectType.value
  let optionalSubjectId ← store.lookupField (filter.optionalSubjectId.map (·.value))
  let optionalRelation ← store.lookupField (filter.optionalRelation.map (·.value))
  return ⟨subjectType, optionalSubjectId, optionalRelation⟩

/-- The matcher of a subject filter, if there is one. -/
def optionalSubjectMatcher (store : IndexedRelationshipStore) :
    Option SubjectFilter → Option (Option SubjectMatcher)
  | some subject => (store.subjectMatcher subject).map some
  | none => some none

def resourceMatcher (store : IndexedRelationshipStore) (filter : RelationshipFilter) :
    Option ResourceMatcher := do
  let resourceType ← store.interner.lookup filter.resourceType.value
  let optionalResourceId ← store.lookupField (filter.optionalResourceId.map (·.value))
  let optionalRelation ← store.lookupField (filter.optionalRelation.map (·.value))
  let optionalSubject ← store.optionalSubjectMatcher filter.optionalSubject
  return ⟨resourceType, optionalResourceId, optionalRelation, optionalSubject,
    filter.limit.get⟩

def resourceRelationMatcher (store : IndexedRelationshipStore) (resource : ObjectRef)
    (relation : RelationName) (limit : QueryLimit) : Option ResourceMatcher := do
  let resourceType ← store.interner.lookup resource.objectType.value
  let resourceId ← store.interner.lookup resource.objectId.value
  let relation ← store.interner.lookup relation.value
  return ⟨resourceType, some resourceId, some relation, none, limit.get⟩

def resourceRelationSubjectMatcher (store : IndexedRelationshipStore) (resource : ObjectRef)
    (relation : RelationName) (subject : SubjectFilter) : Option ResourceMatcher := do
  let matcher ← store.resourceRelationMatcher resource relation minQueryLimit
  let subject ← store.subjectMatcher subject
  return { matcher with optionalSubject := some subject }

def queryCompactRelationships (store : IndexedRelationshipStore)
    (filter : RelationshipFilter) : List RelationshipRef :=
  store.runResource (store.resourceMatcher filter)

def resourceRelation (store : IndexedRelationshipStore) (resource : ObjectRef)
    (relation : RelationName) (limit : QueryLimit) : List RelationshipRef :=
  store.runResource (store.resourceRelationMatcher resource relation limit)

def resourceRelationSubject (store : IndexedRelationshipStore) (resource : ObjectRef)
    (relation : RelationName) (subject : SubjectFilter) : List RelationshipRef :=
  store.runResource (store.resourceRelationSubjectMatcher resource relation subject)

def reverseQueryCompactRelationships (store : IndexedRelationshipStore)
    (filter : SubjectFilter) : List RelationshipRef :=
  match store.subjectMatcher filter with
  | none => []
  | some matcher => store.subjectIter matcher (store.subjectCandidateRowIds matcher)

def hasSubjectCandidates (store : IndexedRelationshipStore) (filter : SubjectFilter) : Bool :=
  match store.subjectMatcher filter with
  | none => false
  | some matcher => !(store.subjectCandidateRowIds matcher).isEmpty

def anyResourceMatch (store : IndexedRelationshipStore) (filter : RelationshipFilter) : Bool :=
  !(store.queryCompactRelationships filter).isEmpty

def lookupRelationshipRow (store : IndexedRelationshipStore) (relationship : Relationship) :
    Option RowIdentity :=
  RowIdentity.fromExistingRelationship relationship store.interner

def containsRelationship (store : IndexedRelationshipStore) (relationship : Relationship) :
    Bool :=
  (store.lookupRelationshipRow relationship).any (fun row =>
    store.uniquenessRef.any (fun index => (index.find store.rowTable row).isSome))

/-- The store with an interned row registered, indexed and appended. -/
def withRow (store : IndexedRelationshipStore) (uniqueness : RelationshipIdentityIndex)
    (rowId : RowId) (row : RowIdentity) : IndexedRelationshipStore :=
  { store.indexRelationship rowId row with
    uniqueness := .ready (uniqueness.insert store.rowTable rowId row)
    rowTable := store.rowTable ++ [⟨rowId, row⟩]
    liveRows := store.liveRows.insert rowId }

/-- Registers, indexes and appends an interned row. -/
def appendRow (rowId : RowId) (row : RowIdentity) :
    Action IndexedRelationshipStore StoreError Unit := do
  let store ← Action.get
  let uniqueness ← Action.lift store.readyUniqueness
  Action.set (store.withRow uniqueness rowId row)

/-- Runs an interner operation on the store. -/
def interning {α : Type} (x : Action IdentifierInterner StoreError α) :
    Action IndexedRelationshipStore StoreError α :=
  Action.zoom (·.interner) (fun interner store => { store with interner := interner }) x

def insert (relationship : Relationship) :
    Action IndexedRelationshipStore StoreError Unit := do
  let store ← Action.get
  let rowId ← Action.lift (RowId.fromLen store.rowTable.length)
  let row ← interning (RowIdentity.fromRelationship relationship)
  appendRow rowId row

/-- The store with a row marked dead. -/
def withoutRow (store : IndexedRelationshipStore) (rowId : RowId) :
    IndexedRelationshipStore :=
  { store with
    liveRows := store.liveRows.remove rowId
    deadRowCount := min (store.deadRowCount + 1) usizeMax }

def delete (relationship : Relationship) :
    Action IndexedRelationshipStore StoreError Unit := do
  let store ← Action.get
  match store.lookupRelationshipRow relationship with
  | none => Action.throw (.relationshipNotFound relationship)
  | some row =>
      let uniqueness ← Action.lift store.readyUniqueness
      let (removed, uniqueness) := uniqueness.remove store.rowTable row
      let store := { store with uniqueness := .ready uniqueness }
      Action.set store
      match removed with
      | none => Action.throw (.relationshipNotFound relationship)
      | some rowId =>
          Action.set (store.withoutRow rowId)

def create (relationship : Relationship) :
    Action IndexedRelationshipStore StoreError Unit := do
  let store ← Action.get
  if store.containsRelationship relationship then
    Action.throw (.relationshipAlreadyExists relationship)
  else insert relationship

def touch (relationship : Relationship) :
    Action IndexedRelationshipStore StoreError Unit := do
  let store ← Action.get
  if store.containsRelationship relationship then return ()
  else insert relationship

def applySingleMutation : RelationshipMutation → Action IndexedRelationshipStore StoreError Unit
  | .create relationship => create relationship
  | .touch relationship => touch relationship
  | .delete relationship => delete relationship

def compactionDeadRowThreshold : Nat :=
  compactDeadRows

/-- Copies a row into a compacted store and interns its strings again. -/
def insertCompactRowFrom (source : IndexedRelationshipStore) (row : RowIdentity) :
    Action IndexedRelationshipStore StoreError Unit := do
  let store ← Action.get
  let rowId ← Action.lift (RowId.fromLen store.rowTable.length)
  let intern := fun id => interning (IdentifierInterner.intern (source.resolve id))
  let resourceType ← intern row.resourceType
  let resourceId ← intern row.resourceId
  let relation ← intern row.relation
  let subjectType ← intern row.subjectType
  let subjectId ← intern row.subjectId
  match row.subjectRelation with
  | none =>
      appendRow rowId ⟨resourceType, resourceId, relation, subjectType, subjectId, none⟩
  | some subjectRelation =>
      let subjectRelation ← intern subjectRelation
      appendRow rowId
        ⟨resourceType, resourceId, relation, subjectType, subjectId, some subjectRelation⟩

/-- Rebuilds the store from its live rows when too many rows are dead. -/
def compactIfNeeded : Action IndexedRelationshipStore StoreError Unit := do
  let store ← Action.get
  if store.deadRowCount ≤ compactionDeadRowThreshold ∧
      min (store.deadRowCount * 4) usizeMax ≤ store.rowTable.length then
    return ()
  else
    match Action.forEach (fun row => insertCompactRowFrom store row.identity)
        store.liveRowTable default with
    | (.ok (), compacted) => Action.set compacted
    | (.error error, _) => Action.throw error

/-- The strings of a relationship, in the order in which they are interned. -/
def relationshipIdentifierValues (relationship : Relationship) : List String :=
  [relationship.resource.objectType.value, relationship.resource.objectId.value,
    relationship.relation.value, relationship.subject.objectRef.objectType.value,
    relationship.subject.objectRef.objectId.value] ++
  match relationship.subject with
  | .object _ => []
  | .userset _ subjectRelation => [subjectRelation.value]

def ensureInsertCapacity (store : IndexedRelationshipStore)
    (additionalRows additionalSymbols additionalBytes : Nat) : Except StoreError Unit := do
  if additionalRows = 0 then
    return ()
  let lastRowLen ← match checkedAdd store.rowTable.length additionalRows with
    | some total => .ok (total - 1)
    | none => .error (.capacityExceeded "relationship rows")
  let _ ← RowId.fromLen lastRowLen
  if 0 < additionalSymbols then
    let lastSymbolIndex ← match checkedAdd store.interner.len additionalSymbols with
      | some total => .ok (total - 1)
      | none => .error (.capacityExceeded "identifier interner")
    let _ ← SymbolId.fromIndex lastSymbolIndex
  match checkedAdd store.interner.byteLen additionalBytes with
  | some total =>
      if total ≤ u32Max then return ()
      else .error (.capacityExceeded "identifier interner bytes")
  | none => .error (.capacityExceeded "identifier interner bytes")

def applyTouchBatchInPlace (mutations : List RelationshipMutation) :
    Action IndexedRelationshipStore StoreError Unit := do
  let store ← Action.get
  let newRelationships := mutations.filter (fun mutation =>
    !store.containsRelationship mutation.relationship)
  let newValues := newRelationships.flatMap (fun mutation =>
    (relationshipIdentifierValues mutation.relationship).filter (fun value =>
      (store.interner.lookup value).isNone))
  Action.lift (store.ensureInsertCapacity newRelationships.length newValues.length
    ((newValues.map (fun value => (stringBytes value).length)).sum))
  Action.forEach (fun mutation => touch mutation.relationship) mutations

/-- Adds the live rows to an identity index and rejects a row that is there twice. -/
def buildUniqueness (rowTable : List RelationshipRow) (reason : String) :
    List RelationshipRow → RelationshipIdentityIndex →
      Except StoreError RelationshipIdentityIndex
  | [], index => .ok index
  | row :: rest, index =>
      if (index.find rowTable row.identity).isSome then .error (.internalInvariant reason)
      else buildUniqueness rowTable reason rest (index.insert rowTable row.rowId row.identity)

def ensureUniquenessIndex : Action IndexedRelationshipStore StoreError Unit := do
  let store ← Action.get
  let build := fun reason => do
    let index ← Action.lift
      (buildUniqueness store.rowTable reason store.liveRowTable .default)
    Action.set { store with uniqueness := .ready index }
  match store.uniqueness with
  | .ready _ => return ()
  | .knownUniqueButNotIndexed =>
      build "full snapshot duplicate detector was dropped after validation"
  | .untrustedNotIndexed =>
      build "trusted snapshot contains duplicate relationship rows"

def checkPrecondition (store : IndexedRelationshipStore) (precondition : Precondition) :
    Except StoreError Unit :=
  match precondition with
  | .mustMatch filter =>
      if store.anyResourceMatch filter then .ok () else .error (.preconditionFailed precondition)
  | .mustNotMatch filter =>
      if store.anyResourceMatch filter then .error (.preconditionFailed precondition) else .ok ()

end Hashed

/-- Applies preconditions and mutations as one batch. -/
def applyMutations [StoreHasher] (mutations : List RelationshipMutation)
    (preconditions : List Precondition) : Action IndexedRelationshipStore StoreError Unit := do
  let store ← Action.get
  Action.lift (admitBatch store.checkPrecondition mutations preconditions)
  if !mutations.isEmpty then
    ensureUniquenessIndex
  Action.lift (rejectDuplicates mutations)
  match mutations with
  | [mutation] =>
      applySingleMutation mutation
      compactIfNeeded
  | _ =>
      if mutations.all RelationshipMutation.isTouch then
        applyTouchBatchInPlace mutations
        compactIfNeeded
      else
        let store ← Action.get
        match (do Action.forEach applySingleMutation mutations; compactIfNeeded) store with
        | (.ok (), candidate) => Action.set candidate
        | (.error error, _) => Action.throw error

end IndexedRelationshipStore

end SimpleZanzibar
