import Mathlib.Data.List.Sort
import SimpleZanzibar.Store.IndexedCorrect
import SimpleZanzibar.Store.View

/-!
# Saving and loading a store

A snapshot file holds the strings of a store with their hashes and hash order, its
live rows and, for the index profile it is saved with, the posting lists of each key.
Files are kept as the content of their sections: a load rebuilds the interner, the
rows and the posting indexes from them.  The checks by which a load refuses a damaged
file are left out, so that every store of a real load is one of the stores below.
-/

namespace SimpleZanzibar

/-- How far the content of a file is trusted. -/
inductive SnapshotValidationMode where
  | full
  | trustedFastLoad
deriving DecidableEq, Repr

/-- Whether the posting indexes are kept as arrays or entered into hash maps. -/
inductive SnapshotLoadProfile where
  | fastLoad
  | latency
deriving DecidableEq, Repr

inductive SnapshotIoError where
  | io
  | format (reason : String)
  | limitExceeded (component : String)
  | unsupportedOption (option : String)
  | store (error : StoreError)
  | domain (error : DomainError)
deriving DecidableEq

/-- The posting lists of one index, a map ordered by key in the file. -/
abbrev PostingGroup (K : Type) := AList (fun _ : K => List RowId)

namespace PostingGroup

variable {K : Type} [DecidableEq K]

def pushRow (group : PostingGroup K) (key : K) (rowId : RowId) : PostingGroup K :=
  group.insert key ((group.lookup key).getD [] ++ [rowId])

/-- Enters a row under all of its keys. -/
def pushKeys (keysOf : RowIdentity → List K) (group : PostingGroup K)
    (row : RelationshipRow) : PostingGroup K :=
  (keysOf row.identity).foldl (fun group key => pushRow group key row.rowId) group

/-- The entries in the order of their keys. -/
def inOrder [IndexKey K] (group : PostingGroup K) : List ((_ : K) × List RowId) :=
  group.entries.insertionSort (fun a b => IndexKey.rank a.1 ≤ IndexKey.rank b.1)

end PostingGroup

structure SnapshotIndexGroups where
  resource : PostingGroup ResourceIndexKey
  resourceObject : PostingGroup ResourceObjectIndexKey
  resourceTypeRelation : PostingGroup ResourceTypeRelationIndexKey
  resourceType : PostingGroup SymbolId
  subject : PostingGroup SubjectIndexKey
  subjectTypeRelation : PostingGroup SubjectTypeRelationIndexKey
  subjectType : PostingGroup SymbolId

namespace SnapshotIndexGroups

def default : SnapshotIndexGroups :=
  ⟨∅, ∅, ∅, ∅, ∅, ∅, ∅⟩

/-- A reduced profile keeps the postings of the exact resource index only. -/
def insertRow (indexProfile : IndexProfile) (groups : SnapshotIndexGroups)
    (row : RelationshipRow) : SnapshotIndexGroups :=
  let groups :=
    { groups with
      resource := groups.resource.pushKeys (fun row => [row.resourceKey]) row }
  if !indexProfile.supportsBroadResourceIndexes then groups
  else
    let groups :=
      { groups with
        resourceObject :=
          groups.resourceObject.pushKeys (fun row => [row.resourceObjectKey]) row
        resourceTypeRelation :=
          groups.resourceTypeRelation.pushKeys (fun row => [row.resourceTypeRelationKey]) row
        resourceType := groups.resourceType.pushKeys (fun row => [row.resourceType]) row }
    if !indexProfile.supportsSubjectReverseLookup then groups
    else
      { groups with
        subject := groups.subject.pushKeys RowIdentity.subjectKeys row
        subjectTypeRelation :=
          groups.subjectTypeRelation.pushKeys (fun row => row.subjectTypeRelationKey.toList) row
        subjectType := groups.subjectType.pushKeys (fun row => [row.subjectType]) row }

def fromRows (indexProfile : IndexProfile) (rows : List RelationshipRow) :
    SnapshotIndexGroups :=
  rows.foldl (insertRow indexProfile) default

end SnapshotIndexGroups

/-- The content of a snapshot file, the schema apart. -/
structure SnapshotSections where
  indexProfile : IndexProfile
  symbolByteLen : Nat
  symbols : List String
  symbolHashes : List UInt64
  symbolLookup : List SymbolId
  relationshipRows : List RowIdentity
  indexes : SnapshotIndexGroups

/-- Rows in file order, numbered from one. -/
def numberRows : Nat → List RowIdentity → Except StoreError (List RelationshipRow)
  | _, [] => .ok []
  | index, row :: rest => do
      let rowId ← RowId.fromLen index
      let numbered ← numberRows (index + 1) rest
      return ⟨rowId, row⟩ :: numbered

/-- The strings of a table with their symbols, in order. -/
def numberedSymbols (symbols : List String) : List (String × SymbolId) :=
  symbols.zipIdx.filterMap (fun entry =>
    (SymbolId.fromIndex entry.2).toOption.map (fun id => (entry.1, id)))

namespace IdentifierInterner

section Hashed

variable [StoreHasher]

/-- Order of the lookup section: by hash, then by symbol. -/
def lookupLe (hashes : List UInt64) (a b : SymbolId) : Bool :=
  let left := hashes[a.index]?.getD 0
  let right := hashes[b.index]?.getD 0
  decide (left < right ∨ left = right ∧ a.value.get ≤ b.value.get)

def encodeSymbolHashes (interner : IdentifierInterner) : List UInt64 :=
  interner.entries.map hashValue

def encodeSymbolLookup (interner : IdentifierInterner) : List SymbolId :=
  ((numberedSymbols interner.entries).map (·.2)).mergeSort
    (lookupLe interner.encodeSymbolHashes)

/-- Enters one symbol into the two hash tables. -/
def indexSymbol
    (tables : AList (fun _ : UInt64 => SymbolId) × AList (fun _ : UInt64 => List SymbolId))
    (entry : String × SymbolId) :
    AList (fun _ : UInt64 => SymbolId) × AList (fun _ : UInt64 => List SymbolId) :=
  match tables.1.lookup (hashValue entry.1) with
  | none => (tables.1.insert (hashValue entry.1) entry.2, tables.2)
  | some _ =>
      (tables.1, tables.2.insert (hashValue entry.1)
        ((tables.2.lookup (hashValue entry.1)).getD [] ++ [entry.2]))

def indexFullSymbolLookup (symbols : List String) :
    AList (fun _ : UInt64 => SymbolId) × AList (fun _ : UInt64 => List SymbolId) :=
  (numberedSymbols symbols).foldl indexSymbol (∅, ∅)

def fromSnapshotParts (byteLen : Nat) (symbols : List String) (hashes : List UInt64)
    (lookup : List SymbolId) : SnapshotValidationMode → IdentifierInterner
  | .full =>
      let tables := indexFullSymbolLookup symbols
      ⟨byteLen, symbols, tables.1, tables.2, [], []⟩
  | .trustedFastLoad => ⟨byteLen, symbols, ∅, ∅, hashes, lookup⟩

end Hashed

end IdentifierInterner

namespace PostingIndex

variable {K : Type} [DecidableEq K]

/-- Keys, ranges and overflow rows of the entries, for a given overflow position. -/
def decodeEntries : Nat → List ((_ : K) × List RowId) →
    Except SnapshotIoError (List K × List RuntimePostingRange × List RowId)
  | _, [] => .ok ([], [], [])
  | _, ⟨_, []⟩ :: _ => .error (.format "empty posting range")
  | overflowStart, ⟨key, first :: rest⟩ :: entries => do
      let (keys, ranges, overflow) ← decodeEntries (overflowStart + rest.length) entries
      return (key :: keys, ⟨first, overflowStart, rest.length⟩ :: ranges, rest ++ overflow)

def insertEntry (index : PostingIndex K) (entry : (_ : K) × List RowId) : PostingIndex K :=
  entry.2.foldl (fun index rowId => index.insert entry.1 rowId) index

def decodeIndex [IndexKey K] (profile : SnapshotLoadProfile) (group : PostingGroup K) :
    Except SnapshotIoError (PostingIndex K) := do
  let (keys, ranges, overflow) ← decodeEntries 0 group.inOrder
  match profile with
  | .fastLoad => return .sorted keys ranges overflow
  | .latency => return group.inOrder.foldl insertEntry default

end PostingIndex

namespace IndexedRelationshipStore

section Hashed

variable [StoreHasher]

def encodeSnapshotSections (store : IndexedRelationshipStore) (indexProfile : IndexProfile) :
    Except StoreError SnapshotSections := do
  let diskRows := store.liveRowTable.map (·.identity)
  let numbered ← numberRows 0 diskRows
  return {
    indexProfile := indexProfile
    symbolByteLen := (store.interner.entries.flatMap stringBytes).length
    symbols := store.interner.entries
    symbolHashes := store.interner.encodeSymbolHashes
    symbolLookup := store.interner.encodeSymbolLookup
    relationshipRows := diskRows
    indexes := .fromRows indexProfile numbered }

def loadedUniqueness : SnapshotValidationMode → UniquenessState
  | .full => .knownUniqueButNotIndexed
  | .trustedFastLoad => .untrustedNotIndexed

def decodeSnapshotSections (sections : SnapshotSections) (profile : SnapshotLoadProfile)
    (validation : SnapshotValidationMode) :
    Except SnapshotIoError IndexedRelationshipStore := do
  let interner := IdentifierInterner.fromSnapshotParts sections.symbolByteLen sections.symbols
    sections.symbolHashes sections.symbolLookup validation
  let rows ← (numberRows 0 sections.relationshipRows).mapError .store
  let byResource ← PostingIndex.decodeIndex profile sections.indexes.resource
  let byResourceObject ← PostingIndex.decodeIndex profile sections.indexes.resourceObject
  let byResourceTypeRelation ←
    PostingIndex.decodeIndex profile sections.indexes.resourceTypeRelation
  let byResourceType ← PostingIndex.decodeIndex profile sections.indexes.resourceType
  let bySubject ← PostingIndex.decodeIndex profile sections.indexes.subject
  let bySubjectTypeRelation ←
    PostingIndex.decodeIndex profile sections.indexes.subjectTypeRelation
  let bySubjectType ← PostingIndex.decodeIndex profile sections.indexes.subjectType
  return {
    indexProfile := sections.indexProfile
    interner := interner
    rowTable := rows
    liveRows := .full rows.length
    deadRowCount := 0
    uniqueness := loadedUniqueness validation
    byResource := byResource
    byResourceObject := byResourceObject
    byResourceTypeRelation := byResourceTypeRelation
    byResourceType := byResourceType
    bySubject := bySubject
    bySubjectTypeRelation := bySubjectTypeRelation
    bySubjectType := bySubjectType }

end Hashed

end IndexedRelationshipStore

namespace RelationshipStoreView

variable [StoreHasher]

/-- Saves the live relationships of a view. -/
def encodeSnapshotSections (view : RelationshipStoreView) (indexProfile : IndexProfile) :
    Except StoreError SnapshotSections := do
  let store ← view.canonicalStore
  store.encodeSnapshotSections indexProfile

def decodeSnapshotSections (sections : SnapshotSections) (profile : SnapshotLoadProfile)
    (validation : SnapshotValidationMode) : Except SnapshotIoError RelationshipStoreView := do
  let checkpoint ← IndexedRelationshipStore.decodeSnapshotSections sections profile validation
  return fromCheckpoint checkpoint

end RelationshipStoreView

end SimpleZanzibar
