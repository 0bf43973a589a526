import SimpleZanzibar.Snapshot.Postings

/-!
# Loading the indexes of a snapshot file

The seven indexes are decoded by one function.  What distinguishes them is how a key of the
file is typed, when a row has a key, which bit of the mask of a row a key stands for and
which bits the mask has to have in the end.
-/

namespace SimpleZanzibar

namespace Snapshot

/-- What distinguishes the indexes. -/
structure IndexDecoder (K : Type) where
  kind : IndexKind
  keyFromDisk : DiskIndexKey → Nat → Except SnapshotIoError K
  rowMatchesKey : RowIdentity → DiskIndexKey → Bool
  coverageBit : RowIdentity → DiskIndexKey → UInt8
  expectedMask : RowIdentity → UInt8
  requiredByProfile : IndexProfile → Bool

/-- What is decoded. -/
structure IndexDecodeInput where
  directory : List IndexDirectoryEntry
  keys : DecodedIndexKeys
  ranges : List DiskPostingRange
  postingRowIds : DecodedPostingRowIds
  rows : List RelationshipRow
  rowCount : Nat
  symbolCount : Nat
  indexProfile : IndexProfile
  profile : SnapshotLoadProfile
  validation : SnapshotValidationMode

def ensureZero (value : Nat) (reason : String) : Except SnapshotIoError Unit :=
  require (value = 0) (.format reason)

def resourceKeyFromDisk (key : DiskIndexKey) (symbolCount : Nat) :
    Except SnapshotIoError ResourceIndexKey := do
  let objectType ← SymbolId.fromSnapshotRaw key.first symbolCount
  let objectId ← SymbolId.fromSnapshotRaw key.second symbolCount
  let relation ← SymbolId.fromSnapshotRaw key.third symbolCount
  return ⟨objectType, objectId, relation⟩

def resourceObjectKeyFromDisk (key : DiskIndexKey) (symbolCount : Nat) :
    Except SnapshotIoError ResourceObjectIndexKey := do
  ensureZero key.third "resource object index third key field must be zero"
  let objectType ← SymbolId.fromSnapshotRaw key.first symbolCount
  let objectId ← SymbolId.fromSnapshotRaw key.second symbolCount
  return ⟨objectType, objectId⟩

def resourceTypeRelationKeyFromDisk (key : DiskIndexKey) (symbolCount : Nat) :
    Except SnapshotIoError ResourceTypeRelationIndexKey := do
  ensureZero key.third "resource type relation index third key field must be zero"
  let objectType ← SymbolId.fromSnapshotRaw key.first symbolCount
  let relation ← SymbolId.fromSnapshotRaw key.second symbolCount
  return ⟨objectType, relation⟩

def resourceTypeKeyFromDisk (key : DiskIndexKey) (symbolCount : Nat) :
    Except SnapshotIoError SymbolId := do
  ensureZero key.second "resource type index second key field must be zero"
  ensureZero key.third "resource type index third key field must be zero"
  SymbolId.fromSnapshotRaw key.first symbolCount

/-- The relation of a subject, zero standing for none. -/
def optionalSymbolFromDisk (value symbolCount : Nat) :
    Except SnapshotIoError (Option SymbolId) :=
  if value = 0 then .ok none
  else do
    let relation ← SymbolId.fromSnapshotRaw value symbolCount
    return some relation

def subjectKeyFromDisk (key : DiskIndexKey) (symbolCount : Nat) :
    Except SnapshotIoError SubjectIndexKey := do
  let relation ← optionalSymbolFromDisk key.third symbolCount
  let subjectType ← SymbolId.fromSnapshotRaw key.first symbolCount
  let subjectId ← SymbolId.fromSnapshotRaw key.second symbolCount
  return ⟨subjectType, subjectId, relation⟩

def subjectTypeRelationKeyFromDisk (key : DiskIndexKey) (symbolCount : Nat) :
    Except SnapshotIoError SubjectTypeRelationIndexKey := do
  ensureZero key.third "subject type relation index third key field must be zero"
  let subjectType ← SymbolId.fromSnapshotRaw key.first symbolCount
  let relation ← SymbolId.fromSnapshotRaw key.second symbolCount
  return ⟨subjectType, relation⟩

def subjectTypeKeyFromDisk (key : DiskIndexKey) (symbolCount : Nat) :
    Except SnapshotIoError SymbolId := do
  ensureZero key.second "subject type index second key field must be zero"
  ensureZero key.third "subject type index third key field must be zero"
  SymbolId.fromSnapshotRaw key.first symbolCount

def rowMatchesResourceKey (row : RowIdentity) (key : DiskIndexKey) : Bool :=
  row.resourceType.value.get == key.first && row.resourceId.value.get == key.second &&
    row.relation.value.get == key.third

def rowMatchesResourceObjectKey (row : RowIdentity) (key : DiskIndexKey) : Bool :=
  row.resourceType.value.get == key.first && row.resourceId.value.get == key.second &&
    key.third == 0

def rowMatchesResourceTypeRelationKey (row : RowIdentity) (key : DiskIndexKey) : Bool :=
  row.resourceType.value.get == key.first && row.relation.value.get == key.second &&
    key.third == 0

def rowMatchesResourceTypeKey (row : RowIdentity) (key : DiskIndexKey) : Bool :=
  row.resourceType.value.get == key.first && key.second == 0 && key.third == 0

def rowMatchesSubjectKey (row : RowIdentity) (key : DiskIndexKey) : Bool :=
  row.subjectType.value.get == key.first && row.subjectId.value.get == key.second &&
    match row.subjectRelation with
    | none => key.third == 0
    | some relation => key.third == 0 || relation.value.get == key.third

def rowMatchesSubjectTypeRelationKey (row : RowIdentity) (key : DiskIndexKey) : Bool :=
  row.subjectType.value.get == key.first &&
    row.subjectRelation.any (fun relation => relation.value.get == key.second) &&
    key.third == 0

def rowMatchesSubjectTypeKey (row : RowIdentity) (key : DiskIndexKey) : Bool :=
  row.subjectType.value.get == key.first && key.second == 0 && key.third == 0

def simpleIndexCoverageBit (_ : RowIdentity) (_ : DiskIndexKey) : UInt8 :=
  1

def subjectIndexCoverageBit (row : RowIdentity) (key : DiskIndexKey) : UInt8 :=
  if key.third = 0 then 1
  else if row.subjectRelation.map (·.value.get) = some key.third then 2
  else 0

def resourceDecoder : IndexDecoder ResourceIndexKey where
  kind := .resource
  keyFromDisk := resourceKeyFromDisk
  rowMatchesKey := rowMatchesResourceKey
  coverageBit := simpleIndexCoverageBit
  expectedMask _ := 1
  requiredByProfile _ := true

def resourceObjectDecoder : IndexDecoder ResourceObjectIndexKey where
  kind := .resourceObject
  keyFromDisk := resourceObjectKeyFromDisk
  rowMatchesKey := rowMatchesResourceObjectKey
  coverageBit := simpleIndexCoverageBit
  expectedMask _ := 1
  requiredByProfile := IndexProfile.supportsBroadResourceIndexes

def resourceTypeRelationDecoder : IndexDecoder ResourceTypeRelationIndexKey where
  kind := .resourceTypeRelation
  keyFromDisk := resourceTypeRelationKeyFromDisk
  rowMatchesKey := rowMatchesResourceTypeRelationKey
  coverageBit := simpleIndexCoverageBit
  expectedMask _ := 1
  requiredByProfile := IndexProfile.supportsBroadResourceIndexes

def resourceTypeDecoder : IndexDecoder SymbolId where
  kind := .resourceType
  keyFromDisk := resourceTypeKeyFromDisk
  rowMatchesKey := rowMatchesResourceTypeKey
  coverageBit := simpleIndexCoverageBit
  expectedMask _ := 1
  requiredByProfile := IndexProfile.supportsBroadResourceIndexes

def subjectDecoder : IndexDecoder SubjectIndexKey where
  kind := .subject
  keyFromDisk := subjectKeyFromDisk
  rowMatchesKey := rowMatchesSubjectKey
  coverageBit := subjectIndexCoverageBit
  expectedMask row := if row.subjectRelation.isSome then 3 else 1
  requiredByProfile := IndexProfile.supportsSubjectReverseLookup

def subjectTypeRelationDecoder : IndexDecoder SubjectTypeRelationIndexKey where
  kind := .subjectTypeRelation
  keyFromDisk := subjectTypeRelationKeyFromDisk
  rowMatchesKey := rowMatchesSubjectTypeRelationKey
  coverageBit := simpleIndexCoverageBit
  expectedMask row := if row.subjectRelation.isSome then 1 else 0
  requiredByProfile := IndexProfile.supportsSubjectReverseLookup

def subjectTypeDecoder : IndexDecoder SymbolId where
  kind := .subjectType
  keyFromDisk := subjectTypeKeyFromDisk
  rowMatchesKey := rowMatchesSubjectTypeKey
  coverageBit := simpleIndexCoverageBit
  expectedMask _ := 1
  requiredByProfile := IndexProfile.supportsSubjectReverseLookup

/-- The keys of an index with their ranges, in order. -/
def snapshotIndexEntries (input : IndexDecodeInput) (kind : IndexKind) :
    Except SnapshotIoError (List IndexEntry) := do
  let entry ← okOr (input.directory.find? (fun entry => decide (entry.kind = kind)))
    (.format "missing snapshot index kind")
  match input.keys, entry.encoding with
  | .fixed keys, .fixedV2 => fixedSnapshotIndexEntries keys input.ranges entry
  | .compact keys _, .compactV3 keyWidth =>
      compactSnapshotIndexEntries keys input.ranges entry keyWidth
  | _, _ => .error (.format "index encoding does not match snapshot format")

/-- Counts one more row in the overflow of a range and in the overflow of the file. -/
def countOverflowRow (overflowLen count : Nat) : Except SnapshotIoError Nat := do
  require (overflowLen + 1 ≤ u32Max) (.format "posting overflow length overflowed")
  okOr (checkedAdd count 1) (.format "posting row id count overflowed")

/-- The count after one more row of a range: the first row is not counted. -/
def countPosting (rowIds : List RowId) (count : Nat) : Except SnapshotIoError Nat :=
  match rowIds with
  | [] => .ok count
  | _ :: overflow => countOverflowRow overflow.length count

/-- The rows of a range that were accepted, with the masks and the count of the file. -/
structure PostingFold where
  coverage : List UInt8
  rowIds : List RowId
  count : Nat

section Decode

variable {K : Type} (input : IndexDecodeInput) (decoder : IndexDecoder K)

/-- Checks one posting and marks the row. -/
def postRow (diskKey : DiskIndexKey) (fold : PostingFold)
    (item : Except SnapshotIoError RowId) : Except SnapshotIoError PostingFold := do
  let rowId ← item
  let row ← okOr input.rows[rowId.index]?
    (.format "posting row id points outside relationship rows")
  require (decoder.rowMatchesKey row.identity diskKey = true)
    (.format "posting row does not match index key")
  let bit := decoder.coverageBit row.identity diskKey
  require (bit ≠ 0) (.format "index coverage bit is invalid")
  let mask ← okOr fold.coverage[rowId.index]? (.format "index coverage row id is out of bounds")
  require (mask &&& bit = 0) (.format "duplicate posting row id in index")
  let count ← countPosting fold.rowIds fold.count
  return ⟨fold.coverage.set rowId.index (mask ||| bit), fold.rowIds ++ [rowId], count⟩

/-- The rows of the keys so far, with the masks, the overflow rows and the count. -/
structure IndexFold (K : Type) where
  coverage : List UInt8
  postings : List ((_ : K) × List RowId)
  overflowLen : Nat
  count : Nat

/-- Checks all postings of one key. -/
def postEntry (fold : IndexFold K) (entry : IndexEntry) :
    Except SnapshotIoError (IndexFold K) := do
  let key ← decoder.keyFromDisk entry.key input.symbolCount
  let items ← postingRowIdIter entry.range input.postingRowIds input.rowCount
  let _ ← checkedU32 fold.overflowLen
  let result ← items.foldlM (postRow input decoder entry.key) ⟨fold.coverage, [], fold.count⟩
  match result.rowIds with
  | [] => .error (.format "empty posting range")
  | first :: overflow =>
      return ⟨result.coverage, fold.postings ++ [⟨key, first :: overflow⟩],
        fold.overflowLen + overflow.length, result.count⟩

/-- The mask that a row has to have in the end. -/
def expectedCoverage (row : RelationshipRow) : UInt8 :=
  if decoder.requiredByProfile input.indexProfile then decoder.expectedMask row.identity else 0

/-- Counts the further rows of a range. -/
def countOverflow (overflowLen count : Nat) :
    List (Except SnapshotIoError RowId) → Except SnapshotIoError (List RowId × Nat)
  | [] => .ok ([], count)
  | item :: rest => do
      let rowId ← item
      let count ← countOverflowRow overflowLen count
      let (rowIds, count) ← countOverflow (overflowLen + 1) count rest
      return (rowId :: rowIds, count)

/-- Takes the postings of one key over without checking them against the rows. -/
def trustEntry (fold : IndexFold K) (entry : IndexEntry) :
    Except SnapshotIoError (IndexFold K) := do
  let key ← decoder.keyFromDisk entry.key input.symbolCount
  let firstRowId ← RowId.fromSnapshotRaw entry.range.firstRowId input.rowCount
  let _ ← checkedU32 fold.overflowLen
  let items ← postingRowIdIter entry.range input.postingRowIds input.rowCount
  match items with
  | [] => .error (.format "empty posting range")
  | item :: rest => do
      let first ← item
      require (first = firstRowId) (.format "posting range first row id mismatch")
      let (overflow, count) ← countOverflow 0 fold.count rest
      return ⟨fold.coverage, fold.postings ++ [⟨key, firstRowId :: overflow⟩],
        fold.overflowLen + overflow.length, count⟩

variable [DecidableEq K]

/-- The postings as arrays, in key order. -/
def fromSorted (postings : List ((_ : K) × List RowId)) :
    Except SnapshotIoError (PostingIndex K) := do
  let (keys, ranges, overflow) ← PostingIndex.decodeEntries 0 postings
  return .sorted keys ranges overflow

/-- The postings for the load profile: arrays or hash maps. -/
def runtimeIndex (postings : List ((_ : K) × List RowId)) :
    SnapshotLoadProfile → Except SnapshotIoError (PostingIndex K)
  | .fastLoad => fromSorted postings
  | .latency => .ok (postings.foldl PostingIndex.insertEntry .default)

/-- One index and the count of the overflow rows of the file so far. -/
def decodeIndex (count : Nat) : Except SnapshotIoError (PostingIndex K × Nat) := do
  let entries ← snapshotIndexEntries input decoder.kind
  if input.validation = .trustedFastLoad ∧ input.profile = .fastLoad then do
    let fold ← entries.foldlM (trustEntry input decoder) ⟨[], [], 0, count⟩
    let index ← fromSorted fold.postings
    return (index, fold.count)
  else do
    let fold ← entries.foldlM (postEntry input decoder)
      ⟨List.replicate input.rows.length 0, [], 0, count⟩
    require (∀ entry ∈ input.rows.zip fold.coverage,
        entry.2 = expectedCoverage input decoder entry.1)
      (.format "index does not cover every required row")
    let index ← runtimeIndex fold.postings input.profile
    return (index, fold.count)

end Decode

/-- The indexes of a file. -/
structure DecodedIndexes where
  resource : PostingIndex ResourceIndexKey
  resourceObject : PostingIndex ResourceObjectIndexKey
  resourceTypeRelation : PostingIndex ResourceTypeRelationIndexKey
  resourceType : PostingIndex SymbolId
  subject : PostingIndex SubjectIndexKey
  subjectTypeRelation : PostingIndex SubjectTypeRelationIndexKey
  subjectType : PostingIndex SymbolId

def validateDecodedPostingRowIdCount (postingRowIds : DecodedPostingRowIds) (count : Nat) :
    Except SnapshotIoError Unit :=
  let expected := match postingRowIds with
    | .fixed rowIds => rowIds.length
    | .deltaVarint _ rowCount => rowCount
  require (count = expected)
    (.format "posting row id row count does not match decoded varints")

/-- The seven indexes one after the other. -/
def decodeAllIndexes (input : IndexDecodeInput) : Except SnapshotIoError DecodedIndexes := do
  let (resource, count) ← decodeIndex input resourceDecoder 0
  let (resourceObject, count) ← decodeIndex input resourceObjectDecoder count
  let (resourceTypeRelation, count) ← decodeIndex input resourceTypeRelationDecoder count
  let (resourceType, count) ← decodeIndex input resourceTypeDecoder count
  let (subject, count) ← decodeIndex input subjectDecoder count
  let (subjectTypeRelation, count) ← decodeIndex input subjectTypeRelationDecoder count
  let (subjectType, count) ← decodeIndex input subjectTypeDecoder count
  validateDecodedPostingRowIdCount input.postingRowIds count
  return ⟨resource, resourceObject, resourceTypeRelation, resourceType, subject,
    subjectTypeRelation, subjectType⟩

section Hashes

variable [Blake3Hash]

def DecodedIndexes.decode (reader : Reader) (rows : List RelationshipRow)
    (profile : SnapshotLoadProfile) (validation : SnapshotValidationMode) :
    Except SnapshotIoError DecodedIndexes := do
  let directory ← decodeIndexDirectory reader
  let keys ← decodeIndexKeys reader
  let ranges ← decodePostingRanges reader
  let postingRowIds ← decodePostingRowIds reader
  let rowCount := reader.header.relationshipCount
  validateIndexSectionLayout directory keys ranges postingRowIds rowCount
  decodeAllIndexes
    { directory := directory
      keys := keys
      ranges := ranges
      postingRowIds := postingRowIds
      rows := rows
      rowCount := rowCount
      symbolCount := reader.header.symbolCount
      indexProfile := reader.header.indexProfile
      profile := profile
      validation := validation }

end Hashes

end Snapshot

end SimpleZanzibar
