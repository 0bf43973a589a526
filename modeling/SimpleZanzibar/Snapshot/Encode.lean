import SimpleZanzibar.Snapshot.Indexes

/-!
# Writing the rows and the indexes of a snapshot file

The rows of the saved store are numbered again from one, and every index is built from
them: a map from keys to rows that is ordered by key.
-/

namespace SimpleZanzibar

namespace Snapshot

/-- The numbers of a row, zero standing for no subject relation. -/
structure DiskRow where
  resourceType : Nat
  resourceId : Nat
  relation : Nat
  subjectType : Nat
  subjectId : Nat
  subjectRelation : Nat
deriving DecidableEq, Repr

namespace DiskRow

def ofRow (row : RowIdentity) : DiskRow where
  resourceType := row.resourceType.value.get
  resourceId := row.resourceId.value.get
  relation := row.relation.value.get
  subjectType := row.subjectType.value.get
  subjectId := row.subjectId.value.get
  subjectRelation := match row.subjectRelation with
    | none => 0
    | some relation => relation.value.get

def encodeWidth (row : DiskRow) (width : KeyWidth) : List UInt8 :=
  width.encodeValue row.resourceType ++ width.encodeValue row.resourceId ++
    width.encodeValue row.relation ++ width.encodeValue row.subjectType ++
    width.encodeValue row.subjectId ++ width.encodeValue row.subjectRelation

end DiskRow

/-- The rows of the keys of one index, ordered by key. -/
abbrev DiskGroup := List (DiskIndexKey × List Nat)

/-- Appends a row to the rows of a key. -/
def DiskGroup.pushRow (key : DiskIndexKey) (rowId : Nat) : DiskGroup → DiskGroup
  | [] => [(key, [rowId])]
  | (key', rowIds) :: rest =>
      if key = key' then (key', rowIds ++ [rowId]) :: rest
      else if key.Lt key' then (key, [rowId]) :: (key', rowIds) :: rest
      else (key', rowIds) :: pushRow key rowId rest

/-- The keys under which an index holds a row, in the order in which they are entered. -/
def diskKeys (row : DiskRow) : IndexKind → List DiskIndexKey
  | .resource => [⟨row.resourceType, row.resourceId, row.relation⟩]
  | .resourceObject => [⟨row.resourceType, row.resourceId, 0⟩]
  | .resourceTypeRelation => [⟨row.resourceType, row.relation, 0⟩]
  | .resourceType => [⟨row.resourceType, 0, 0⟩]
  | .subject =>
      ⟨row.subjectType, row.subjectId, row.subjectRelation⟩ ::
        if row.subjectRelation ≠ 0 then [⟨row.subjectType, row.subjectId, 0⟩] else []
  | .subjectTypeRelation =>
      if row.subjectRelation ≠ 0 then [⟨row.subjectType, row.subjectRelation, 0⟩] else []
  | .subjectType => [⟨row.subjectType, 0, 0⟩]

/-- The profile keeps the index. -/
def kindRequired (indexProfile : IndexProfile) : IndexKind → Bool
  | .resource => true
  | .resourceObject | .resourceTypeRelation | .resourceType =>
      indexProfile.supportsBroadResourceIndexes
  | .subject | .subjectTypeRelation | .subjectType =>
      indexProfile.supportsBroadResourceIndexes && indexProfile.supportsSubjectReverseLookup

/-- Enters the rows into the group of an index, numbered from a position on. -/
def fillGroup (kind : IndexKind) : Nat → List DiskRow → DiskGroup → DiskGroup
  | _, [], group => group
  | index, row :: rest, group =>
      fillGroup kind (index + 1) rest
        ((diskKeys row kind).foldl (fun group key => group.pushRow key (index + 1)) group)

/-- The group of an index, empty when the profile leaves it out. -/
def indexGroup (indexProfile : IndexProfile) (rows : List DiskRow) (kind : IndexKind) :
    DiskGroup :=
  if kindRequired indexProfile kind then fillGroup kind 0 rows [] else []

/-- Writes the distance of two rows: seven bits a byte, the lowest first. -/
def deltaVarintBytes : Nat → Nat → List UInt8
  | 0, remaining => [UInt8.ofNat remaining]
  | fuel + 1, remaining =>
      if 0x80 ≤ remaining then
        UInt8.ofNat ((remaining &&& 0x7F) ||| 0x80) :: deltaVarintBytes fuel (remaining >>> 7)
      else [UInt8.ofNat remaining]

/-- A distance takes at most five bytes. -/
def encodePostingDeltaVarint (value : Nat) : Except SnapshotIoError (List UInt8) := do
  require (value ≠ 0) (.format "posting row id delta must be non-zero")
  return deltaVarintBytes 4 value

/-- The distances of rows, each greater than the one before it. -/
def encodeDeltas : Nat → List Nat → Except SnapshotIoError (List UInt8)
  | _, [] => .ok []
  | previous, rowId :: rest => do
      require (previous < rowId) (.format "posting row ids are not strictly increasing")
      let bytes ← encodePostingDeltaVarint (rowId - previous)
      let deltas ← encodeDeltas rowId rest
      return bytes ++ deltas

/-- The range of several rows, with the bytes that it adds behind those already written. -/
def encodeV3PostingRange (written : Nat) :
    List Nat → Except SnapshotIoError (DiskPostingRange × Nat × List UInt8)
  | [] => .error (.format "empty posting list")
  | first :: rest => do
      let overflowStart ← checkedU32 written
      let overflowRowIdCount ← checkedU32 rest.length
      let bytes ← encodeDeltas first rest
      let overflowLen ← checkedU32 bytes.length
      return (⟨first, overflowStart, overflowLen⟩, overflowRowIdCount, bytes)

def encodeV3Key (kind : IndexKind) (width : KeyWidth) (key : DiskIndexKey) : List UInt8 :=
  width.encodeValue key.first ++
    (if 2 ≤ kind.keyFieldCount then width.encodeValue key.second else []) ++
    (if 3 ≤ kind.keyFieldCount then width.encodeValue key.third else [])

def snapshotKeyWidth (kind : IndexKind) (group : DiskGroup) : Except SnapshotIoError KeyWidth := do
  let fields ← group.mapM (fun entry => entry.1.maxField kind.keyFieldCount)
  return KeyWidth.forMax (fields.foldl max 0)

def checkedAddU32 (left right : Nat) (reason : String) : Except SnapshotIoError Nat :=
  if left + right ≤ u32Max then .ok (left + right) else .error (.format reason)

/-- The three sections of the indexes, as far as they are written, with their row counts. -/
structure IndexBytes where
  keys : List UInt8
  ranges : List UInt8
  postingRowIds : List UInt8
  keyCount : Nat
  rangeCount : Nat
  postingRowIdCount : Nat

/-- Adds the ranges of the keys with several rows. -/
def encodeMultis (kind : IndexKind) (width : KeyWidth) :
    DiskGroup → IndexBytes → Except SnapshotIoError IndexBytes
  | [], bytes => .ok bytes
  | (key, rowIds) :: rest, bytes => do
      let (range, overflowRowIdCount, deltas) ←
        encodeV3PostingRange bytes.postingRowIds.length rowIds
      let postingRowIdCount ← checkedAddU32 bytes.postingRowIdCount overflowRowIdCount
        "posting row id count overflowed"
      encodeMultis kind width rest { bytes with
        keys := bytes.keys ++ encodeV3Key kind width key
        ranges := bytes.ranges ++ range.encode
        postingRowIds := bytes.postingRowIds ++ deltas
        postingRowIdCount := postingRowIdCount }

def isSingleton (entry : DiskIndexKey × List Nat) : Bool :=
  entry.2.length == 1

def isMulti (entry : DiskIndexKey × List Nat) : Bool :=
  decide (1 < entry.2.length)

/-- A key with its only row. -/
def encodeSingleton (kind : IndexKind) (width : KeyWidth) (entry : DiskIndexKey × List Nat) :
    List UInt8 :=
  encodeV3Key kind width entry.1 ++ entry.2.flatMap (LittleEndian.encode 4)

/-- Adds one index and returns its directory entry. -/
def encodeV3IndexGroup (kind : IndexKind) (group : DiskGroup) (bytes : IndexBytes) :
    Except SnapshotIoError (IndexDirectoryEntry × IndexBytes) := do
  let keyStart ← checkedU32 bytes.keys.length
  let keyCount ← checkedU32 group.length
  let multiCount ← checkedU32 (group.filter isMulti).length
  let keyWidth ← snapshotKeyWidth kind group
  let singletons := (group.filter isSingleton).flatMap (encodeSingleton kind keyWidth)
  let written ← encodeMultis kind keyWidth (group.filter isMulti)
    { bytes with keys := bytes.keys ++ singletons }
  let totalKeys ← checkedAddU32 bytes.keyCount keyCount "index key count overflowed"
  let totalRanges ← checkedAddU32 bytes.rangeCount multiCount "posting range count overflowed"
  return (⟨kind, .compactV3 keyWidth, keyStart, keyCount, bytes.rangeCount, multiCount⟩,
    { written with
      keyCount := totalKeys
      rangeCount := totalRanges })

def encodeIndexDirectoryEntry (entry : IndexDirectoryEntry) : List UInt8 :=
  LittleEndian.encode 2 entry.kind.raw ++ LittleEndian.encode 2 entry.encoding.flags ++
    LittleEndian.encode 4 entry.keyStart ++ LittleEndian.encode 4 entry.keyCount ++
    LittleEndian.encode 4 entry.postingRangeStart ++
    LittleEndian.encode 4 entry.postingRangeCount

/-- The indexes one after the other. -/
def encodeIndexGroups (groupOf : IndexKind → DiskGroup) :
    List IndexKind → IndexBytes →
      Except SnapshotIoError (List IndexDirectoryEntry × IndexBytes)
  | [], bytes => .ok ([], bytes)
  | kind :: rest, bytes => do
      let (entry, bytes) ← encodeV3IndexGroup kind (groupOf kind) bytes
      let (entries, bytes) ← encodeIndexGroups groupOf rest bytes
      return (entry :: entries, bytes)

def encodeSnapshotIndexes (rows : List DiskRow) (indexProfile : IndexProfile) :
    Except SnapshotIoError (List UInt8 × IndexBytes) := do
  let _ ← checkedU32 rows.length
  let (directory, bytes) ← encodeIndexGroups (indexGroup indexProfile rows) IndexKind.all
    ⟨[], [], [], 0, 0, 0⟩
  return (directory.flatMap encodeIndexDirectoryEntry, bytes)

/-- Adds the sections of a store to a writer. -/
def encodeStoreSections [StoreHasher] (store : IndexedRelationshipStore) (writer : SectionWriter)
    (indexProfile : IndexProfile) (layout : EncodingLayout) :
    Except SnapshotIoError SectionWriter := do
  let interner := store.interner
  let pool := interner.entries.flatMap stringBytes
  let symbolBytesLen ← checkedU32 pool.length
  let (symbolTable, symbolTableFlags) :=
    encodeV3SymbolTable (internedStrings 0 interner.entries) symbolBytesLen layout
  let writer ← writer.addSection .symbolBytes pool pool.length
  let writer ← writer.addSectionWithFlags .symbolTable symbolTableFlags symbolTable
    interner.entries.length
  let (symbolHashes, symbolLookup, symbolLookupFlags) ← encodeSymbolAcceleration interner layout
  let writer ← writer.addSection .symbolHashes symbolHashes interner.entries.length
  let writer ← writer.addSectionWithFlags .symbolLookup symbolLookupFlags symbolLookup
    interner.entries.length
  let diskRows := store.liveRowTable.map (fun row => DiskRow.ofRow row.identity)
  let symbolCount ← checkedU32 interner.entries.length
  let width := snapshotSymbolWidth symbolCount layout
  let rowLen ← checkedMulUsize width.byteLen 6
  require (diskRows.length * rowLen ≤ usizeMax) (.format "relationship rows length overflowed")
  let writer ← writer.addSectionWithFlags .relationshipRows width.flagBits
    (diskRows.flatMap (fun row => row.encodeWidth width)) diskRows.length
  let (directory, indexes) ← encodeSnapshotIndexes diskRows indexProfile
  let writer ← writer.addSection .indexDirectory directory IndexKind.all.length
  let writer ← writer.addSection .indexKeys indexes.keys indexes.keyCount
  let writer ← writer.addSection .postingRanges indexes.ranges indexes.rangeCount
  writer.addSection .postingRowIds indexes.postingRowIds indexes.postingRowIdCount

end Snapshot

end SimpleZanzibar
