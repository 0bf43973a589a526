import SimpleZanzibar.Snapshot.Symbols

/-!
# The index sections of a snapshot file

For each of the seven indexes a file holds the keys in order, each with the rows that have
it.  In the current format a key with one row carries this row, and the keys with several
rows follow with a range each: the first row and the distances to the next ones as numbers
of variable length.  The older format has fixed widths and a shared array of rows.

A full load checks every posting against the rows and keeps, for each row, a mask of the
keys under which it was found.
-/

namespace SimpleZanzibar

namespace Snapshot

/-- The fields of a key of any index, unused ones being zero. -/
structure DiskIndexKey where
  first : Nat
  second : Nat
  third : Nat
deriving DecidableEq, Repr

namespace DiskIndexKey

/-- Lexicographic order. -/
def Lt (a b : DiskIndexKey) : Prop :=
  a.first < b.first ∨ a.first = b.first ∧
    (a.second < b.second ∨ a.second = b.second ∧ a.third < b.third)

instance (a b : DiskIndexKey) : Decidable (Lt a b) :=
  inferInstanceAs (Decidable (_ ∨ _ ∧ (_ ∨ _ ∧ _)))

def maxField (key : DiskIndexKey) : Nat → Except SnapshotIoError Nat
  | 1 => .ok key.first
  | 2 => .ok (max key.first key.second)
  | 3 => .ok (max (max key.first key.second) key.third)
  | _ => .error (.format "index key field count is unsupported")

end DiskIndexKey

/-- First row of a key and the place of its further rows. -/
structure DiskPostingRange where
  firstRowId : Nat
  overflowStart : Nat
  overflowLen : Nat

namespace DiskPostingRange

def encode (range : DiskPostingRange) : List UInt8 :=
  LittleEndian.encode 4 range.firstRowId ++ LittleEndian.encode 4 range.overflowStart ++
    LittleEndian.encode 4 range.overflowLen

def read : Cursor DiskPostingRange := do
  let firstRowId ← readU32
  let overflowStart ← readU32
  let overflowLen ← readU32
  return ⟨firstRowId, overflowStart, overflowLen⟩

end DiskPostingRange

inductive IndexKind where
  | resource
  | resourceObject
  | resourceTypeRelation
  | resourceType
  | subject
  | subjectTypeRelation
  | subjectType
deriving DecidableEq, Repr

namespace IndexKind

def all : List IndexKind :=
  [resource, resourceObject, resourceTypeRelation, resourceType, subject, subjectTypeRelation,
    subjectType]

def raw : IndexKind → Nat
  | resource => 1
  | resourceObject => 2
  | resourceTypeRelation => 3
  | resourceType => 4
  | subject => 5
  | subjectTypeRelation => 6
  | subjectType => 7

def fromRaw (value : Nat) : Except SnapshotIoError IndexKind :=
  okOr (all.find? (fun kind => kind.raw == value)) (.format "unknown snapshot index kind")

def keyFieldCount : IndexKind → Nat
  | resource | subject => 3
  | resourceObject | resourceTypeRelation | subjectTypeRelation => 2
  | resourceType | subjectType => 1

end IndexKind

inductive IndexEncoding where
  | fixedV2
  | compactV3 (keyWidth : KeyWidth)
deriving DecidableEq, Repr

namespace IndexEncoding

def flagV3Compact : Nat := 0b1

def keyWidthMask : Nat := 0b110

def keyWidthShift : Nat := 1

def flags : IndexEncoding → Nat
  | fixedV2 => 0
  | compactV3 keyWidth => flagV3Compact ||| (keyWidth.flagBits <<< keyWidthShift)

def fromFlags (flags : Nat) : Except SnapshotIoError IndexEncoding :=
  if flags = 0 then .ok fixedV2
  else do
    require (flags &&& flagV3Compact ≠ 0) (.format "index directory flags are unsupported")
    require (outside flags (flagV3Compact ||| keyWidthMask) = 0)
      (.format "index directory flags are unsupported")
    let keyWidth ← KeyWidth.fromFlagBits ((flags &&& keyWidthMask) >>> keyWidthShift)
    return compactV3 keyWidth

end IndexEncoding

structure IndexDirectoryEntry where
  kind : IndexKind
  encoding : IndexEncoding
  keyStart : Nat
  keyCount : Nat
  postingRangeStart : Nat
  postingRangeCount : Nat

inductive DecodedIndexKeys where
  | fixed (keys : List DiskIndexKey)
  | compact (bytes : List UInt8) (rowCount : Nat)

inductive DecodedPostingRowIds where
  | fixed (rowIds : List RowId)
  | deltaVarint (bytes : List UInt8) (rowCount : Nat)

structure IndexEntry where
  key : DiskIndexKey
  range : DiskPostingRange

/-- Reads one entry of the index directory. -/
def readIndexDirectoryEntry (seen : List IndexDirectoryEntry) : Cursor IndexDirectoryEntry := do
  let rawKind ← readU16
  let kind ← Action.lift (IndexKind.fromRaw rawKind)
  let flags ← readU16
  let encoding ← Action.lift (IndexEncoding.fromFlags flags)
  Action.lift (require (∀ entry ∈ seen, entry.kind ≠ kind)
    (.format "duplicate snapshot index kind"))
  let keyStart ← readU32
  let keyCount ← readU32
  let postingRangeStart ← readU32
  let postingRangeCount ← readU32
  return ⟨kind, encoding, keyStart, keyCount, postingRangeStart, postingRangeCount⟩

def readIndexDirectory : Nat → List IndexDirectoryEntry → Cursor (List IndexDirectoryEntry)
  | 0, seen => return seen
  | count + 1, seen => do
      let entry ← readIndexDirectoryEntry seen
      readIndexDirectory count (seen ++ [entry])

def indexDirectoryEntryLen : Nat := 20

def diskIndexKeyLen : Nat := 12

def postingRangeLen : Nat := 12

def rowIdLen : Nat := 4

def readFixedKey : Cursor DiskIndexKey := do
  let first ← readU32
  let second ← readU32
  let third ← readU32
  return ⟨first, second, third⟩

def readFixedRowId (totalRows : Nat) : Cursor RowId := do
  let raw ← readU32
  Action.lift (RowId.fromSnapshotRaw raw totalRows)

section Hashes

variable [Blake3Hash]

def decodeIndexDirectory (reader : Reader) :
    Except SnapshotIoError (List IndexDirectoryEntry) := do
  let directory ← reader.section .indexDirectory
  require (directory.rowCount = IndexKind.all.length)
    (.format "index directory row count is invalid")
  let expectedLen ← checkedMulUsize IndexKind.all.length indexDirectoryEntryLen
  require (directory.bytes.length = expectedLen) (.format "index directory length is invalid")
  (readIndexDirectory IndexKind.all.length [] directory.bytes).1

def decodeIndexKeys (reader : Reader) : Except SnapshotIoError DecodedIndexKeys := do
  let keys ← reader.section .indexKeys
  match reader.header.formatVersion with
  | .v3 =>
      require (¬(keys.bytes = [] ∧ keys.rowCount ≠ 0))
        (.format "index key length does not match row count")
      return .compact keys.bytes keys.rowCount
  | .v2 =>
      let expectedLen ← checkedMulUsize keys.rowCount diskIndexKeyLen
      require (keys.bytes.length = expectedLen)
        (.format "index key length does not match row count")
      let decoded ← (ByteCursor.times readFixedKey keys.rowCount keys.bytes).1
      return .fixed decoded

def decodePostingRanges (reader : Reader) : Except SnapshotIoError (List DiskPostingRange) := do
  let ranges ← reader.section .postingRanges
  let expectedLen ← checkedMulUsize ranges.rowCount postingRangeLen
  require (ranges.bytes.length = expectedLen)
    (.format "posting range length does not match row count")
  (ByteCursor.times DiskPostingRange.read ranges.rowCount ranges.bytes).1

def decodePostingRowIds (reader : Reader) : Except SnapshotIoError DecodedPostingRowIds := do
  let postings ← reader.section .postingRowIds
  match reader.header.formatVersion with
  | .v3 => return .deltaVarint postings.bytes postings.rowCount
  | .v2 =>
      let expectedLen ← checkedMulUsize postings.rowCount rowIdLen
      require (postings.bytes.length = expectedLen)
        (.format "posting row id length does not match row count")
      let rowIds ← (ByteCursor.times (readFixedRowId reader.header.relationshipCount)
        postings.rowCount postings.bytes).1
      return .fixed rowIds

end Hashes

/-- The bytes of the keys of a group in the current format. -/
def compactGroupLen (kind : IndexKind) (keyWidth : KeyWidth) (singletonCount multiCount : Nat) :
    Except SnapshotIoError (Nat × Nat) := do
  let keyLen ← checkedMulUsize kind.keyFieldCount keyWidth.byteLen
  let singletonEntryLen ← checkedAddUsize keyLen rowIdLen
  let singletonBytesLen ← checkedMulUsize singletonCount singletonEntryLen
  let multiBytesLen ← checkedMulUsize multiCount keyLen
  let groupBytesLen ← checkedAddUsize singletonBytesLen multiBytesLen
  return (singletonBytesLen, groupBytesLen)

/-- The part of the key section that an index takes. -/
def compactIndexKeySpan (entry : IndexDirectoryEntry) (keyWidth : KeyWidth) :
    Except SnapshotIoError (Nat × Nat) := do
  require (entry.postingRangeCount ≤ entry.keyCount)
    (.format "posting range count exceeds compact key count")
  let (_, groupBytesLen) ← compactGroupLen entry.kind keyWidth
    (entry.keyCount - entry.postingRangeCount) entry.postingRangeCount
  let keyEnd ← checkedAddUsize entry.keyStart groupBytesLen
  return (entry.keyStart, keyEnd)

/-- The part of the range section that an index takes. -/
def indexRangeSpan (entry : IndexDirectoryEntry) : Except SnapshotIoError (Nat × Nat) := do
  let rangeEnd ← checkedAddUsize entry.postingRangeStart entry.postingRangeCount
  return (entry.postingRangeStart, rangeEnd)

/-- Each span starts where the one before it has ended. -/
def coverFrom (totalLen : Nat) (reason : String) :
    Nat → List (Nat × Nat) → Except SnapshotIoError Unit
  | cursor, [] => require (cursor = totalLen) (.format reason)
  | cursor, span :: rest => do
      require (¬(span.2 < span.1 ∨ span.1 ≠ cursor)) (.format reason)
      coverFrom totalLen reason span.2 rest

/-- Order of spans: by start, then by end. -/
def spanLe (a b : Nat × Nat) : Prop :=
  a.1 < b.1 ∨ a.1 = b.1 ∧ a.2 ≤ b.2

instance : DecidableRel spanLe := fun a b =>
  inferInstanceAs (Decidable (a.1 < b.1 ∨ a.1 = b.1 ∧ a.2 ≤ b.2))

def validateSpansCover (spans : List (Nat × Nat)) (totalLen : Nat) (reason : String) :
    Except SnapshotIoError Unit :=
  coverFrom totalLen reason 0 (spans.insertionSort spanLe)

/-- The span of the further rows of a range, if there are any. -/
def postingSpan (bytesLen rowCount : Nat) (range : DiskPostingRange) :
    Except SnapshotIoError (List (Nat × Nat)) := do
  let _ ← RowId.fromSnapshotRaw range.firstRowId rowCount
  let stop ← checkedAddUsize range.overflowStart range.overflowLen
  require (stop ≤ bytesLen) (.format "posting range points outside posting row ids")
  return if range.overflowLen = 0 then [] else [(range.overflowStart, stop)]

def validateV3PostingRowIdSpans (ranges : List DiskPostingRange) (bytes : List UInt8)
    (rowCount : Nat) : Except SnapshotIoError Unit := do
  let spans ← ranges.mapM (postingSpan bytes.length rowCount)
  validateSpansCover spans.flatten bytes.length "posting row id spans do not cover section"

/-- The key span and the range span of an entry. -/
def compactEntrySpans (keyBytesLen rangesLen : Nat) (entry : IndexDirectoryEntry) :
    Except SnapshotIoError ((Nat × Nat) × (Nat × Nat)) :=
  match entry.encoding with
  | .fixedV2 => .error (.format "v3 index directory contains non-compact encoding")
  | .compactV3 keyWidth => do
      let keySpan ← compactIndexKeySpan entry keyWidth
      require (keySpan.2 ≤ keyBytesLen) (.format "compact index key range is out of bounds")
      let rangeSpan ← indexRangeSpan entry
      require (rangeSpan.2 ≤ rangesLen) (.format "posting range span is out of bounds")
      return (keySpan, rangeSpan)

def validateV3CompactIndexSections (directory : List IndexDirectoryEntry)
    (keyBytes : List UInt8) (keyRowCount : Nat) (ranges : List DiskPostingRange)
    (postingBytes : List UInt8) (rowCount : Nat) : Except SnapshotIoError Unit := do
  let spans ← directory.mapM (compactEntrySpans keyBytes.length ranges.length)
  require ((directory.map (·.keyCount)).sum = keyRowCount)
    (.format "index key row count does not match directory")
  require ((directory.map (·.postingRangeCount)).sum = ranges.length)
    (.format "posting range row count does not match directory")
  validateSpansCover (spans.map (·.1)) keyBytes.length
    "compact index key spans do not cover section"
  validateSpansCover (spans.map (·.2)) ranges.length "posting range spans do not cover section"
  validateV3PostingRowIdSpans ranges postingBytes rowCount

def validateIndexSectionLayout (directory : List IndexDirectoryEntry)
    (keys : DecodedIndexKeys) (ranges : List DiskPostingRange)
    (postingRowIds : DecodedPostingRowIds) (rowCount : Nat) : Except SnapshotIoError Unit :=
  match keys, postingRowIds with
  | .fixed _, .fixed _ => .ok ()
  | .compact keyBytes keyRowCount, .deltaVarint postingBytes _ =>
      validateV3CompactIndexSections directory keyBytes keyRowCount ranges postingBytes rowCount
  | _, _ => .error (.format "index section encodings do not match snapshot format")

/-- Each key is greater than the one before it. -/
def validateSortedKeys (keys : List DiskIndexKey) : Except SnapshotIoError Unit :=
  require (keys.IsChain DiskIndexKey.Lt) (.format "index keys are not strictly sorted")

def readCompactKey (kind : IndexKind) (keyWidth : KeyWidth) : Cursor DiskIndexKey := do
  let first ← keyWidth.readValue
  let second ← if 2 ≤ kind.keyFieldCount then keyWidth.readValue else pure 0
  let third ← if 3 ≤ kind.keyFieldCount then keyWidth.readValue else pure 0
  return ⟨first, second, third⟩

/-- A key with its only row. -/
def readCompactSingleton (kind : IndexKind) (keyWidth : KeyWidth) : Cursor IndexEntry := do
  let key ← readCompactKey kind keyWidth
  let rowId ← readU32
  return ⟨key, ⟨rowId, 0, 0⟩⟩

def decodeCompactSingletons (kind : IndexKind) (keyWidth : KeyWidth) (bytes : List UInt8)
    (count : Nat) : Except SnapshotIoError (List IndexEntry) := do
  let entries ← (ByteCursor.times (readCompactSingleton kind keyWidth) count bytes).1
  validateSortedKeys (entries.map (·.key))
  return entries

def decodeCompactMultiEntries (kind : IndexKind) (keyWidth : KeyWidth) (bytes : List UInt8)
    (ranges : List DiskPostingRange) : Except SnapshotIoError (List IndexEntry) := do
  let keys ← (ByteCursor.times (readCompactKey kind keyWidth) ranges.length bytes).1
  validateSortedKeys keys
  return keys.zipWith IndexEntry.mk ranges

/-- Merges the first singleton and the rest into the keys with several rows. -/
def mergeEntry (singleton : IndexEntry)
    (mergeRest : List IndexEntry → Except SnapshotIoError (List IndexEntry)) :
    List IndexEntry → Except SnapshotIoError (List IndexEntry)
  | [] => do
      let merged ← mergeRest []
      return singleton :: merged
  | multi :: multis =>
      if singleton.key.Lt multi.key then do
        let merged ← mergeRest (multi :: multis)
        return singleton :: merged
      else if multi.key.Lt singleton.key then do
        let merged ← mergeEntry singleton mergeRest multis
        return multi :: merged
      else .error (.format "duplicate compact index key")

/-- Merges two groups in order; a key must not be in both. -/
def mergeEntries : List IndexEntry → List IndexEntry → Except SnapshotIoError (List IndexEntry)
  | [], multis => .ok multis
  | singleton :: singletons, multis => mergeEntry singleton (mergeEntries singletons) multis

def mergeCompactEntries (singletons multis : List IndexEntry) :
    Except SnapshotIoError (List IndexEntry) := do
  let merged ← mergeEntries singletons multis
  validateSortedKeys (merged.map (·.key))
  return merged

def compactSnapshotIndexEntries (keys : List UInt8) (ranges : List DiskPostingRange)
    (entry : IndexDirectoryEntry) (keyWidth : KeyWidth) :
    Except SnapshotIoError (List IndexEntry) := do
  require (entry.postingRangeCount ≤ entry.keyCount)
    (.format "posting range count exceeds compact key count")
  let singletonCount := entry.keyCount - entry.postingRangeCount
  let (singletonBytesLen, groupBytesLen) ←
    compactGroupLen entry.kind keyWidth singletonCount entry.postingRangeCount
  let keyEnd ← checkedAddUsize entry.keyStart groupBytesLen
  let groupBytes ← okOr (slice keys entry.keyStart keyEnd)
    (.format "compact index key range is out of bounds")
  let rangeEnd ← checkedAddUsize entry.postingRangeStart entry.postingRangeCount
  let multiRanges ← okOr (slice ranges entry.postingRangeStart rangeEnd)
    (.format "posting range span is out of bounds")
  let singletonBytes ← okOr (slice groupBytes 0 singletonBytesLen)
    (.format "compact singleton keys are out of bounds")
  let multiKeyBytes ← okOr (slice groupBytes singletonBytesLen groupBytes.length)
    (.format "compact multi keys are out of bounds")
  let singletons ← decodeCompactSingletons entry.kind keyWidth singletonBytes singletonCount
  let multis ← decodeCompactMultiEntries entry.kind keyWidth multiKeyBytes multiRanges
  mergeCompactEntries singletons multis

def fixedSnapshotIndexEntries (keys : List DiskIndexKey) (ranges : List DiskPostingRange)
    (entry : IndexDirectoryEntry) : Except SnapshotIoError (List IndexEntry) := do
  require (entry.keyCount = entry.postingRangeCount)
    (.format "index key count does not match posting range count")
  let keyEnd ← checkedAddUsize entry.keyStart entry.keyCount
  let rangeEnd ← checkedAddUsize entry.postingRangeStart entry.postingRangeCount
  let keys ← okOr (slice keys entry.keyStart keyEnd) (.format "index key range is out of bounds")
  let ranges ← okOr (slice ranges entry.postingRangeStart rangeEnd)
    (.format "posting range span is out of bounds")
  validateSortedKeys keys
  return keys.zipWith IndexEntry.mk ranges

/-- Reads a number of variable length: seven bits a byte, the lowest first. -/
def decodePostingDeltaVarint (value shift : Nat) :
    List UInt8 → Except SnapshotIoError (Nat × List UInt8)
  | [] => .error (.format "posting row id delta varint is truncated")
  | byte :: rest =>
      let lowBits := byte.toNat &&& 0x7F
      if shift = 28 ∧ 0x0F < lowBits then
        .error (.format "posting row id delta varint overflows u32")
      else
        let value := value ||| (lowBits <<< shift)
        if byte.toNat &&& 0x80 = 0 then
          if value = 0 then .error (.format "posting row id delta must be non-zero")
          else .ok (value, rest)
        else if 28 < shift + 7 then
          .error (.format "posting row id delta varint is too long")
        else decodePostingDeltaVarint value (shift + 7) rest

def nextDeltaRowId (previous : RowId) (delta rowCount : Nat) : Except SnapshotIoError RowId := do
  require (previous.value.get + delta ≤ u32Max) (.format "posting row id delta overflowed")
  RowId.fromSnapshotRaw (previous.value.get + delta) rowCount

/-- What the iterator over the distances yields: it ends after an error.  Every number takes
a byte, so that the fuel is enough. -/
def deltaRowIds (rowCount : Nat) :
    Nat → RowId → List UInt8 → List (Except SnapshotIoError RowId)
  | 0, _, _ => []
  | _ + 1, _, [] => []
  | fuel + 1, previous, byte :: bytes =>
      match decodePostingDeltaVarint 0 0 (byte :: bytes) with
      | .error error => [.error error]
      | .ok (delta, rest) =>
          match nextDeltaRowId previous delta rowCount with
          | .error error => [.error error]
          | .ok rowId => .ok rowId :: deltaRowIds rowCount fuel rowId rest

/-- What the iterator over fixed rows yields: each row is greater than the one before it. -/
def fixedRowIds : RowId → List RowId → List (Except SnapshotIoError RowId)
  | _, [] => []
  | previous, rowId :: rest =>
      if rowId.value.get ≤ previous.value.get then
        .error (.format "posting row ids are not strictly increasing") ::
          fixedRowIds previous rest
      else .ok rowId :: fixedRowIds rowId rest

/-- The rows of a range, as the iterator yields them. -/
def postingRowIdIter (range : DiskPostingRange) (postingRowIds : DecodedPostingRowIds)
    (rowCount : Nat) : Except SnapshotIoError (List (Except SnapshotIoError RowId)) := do
  let first ← RowId.fromSnapshotRaw range.firstRowId rowCount
  if range.overflowLen = 0 then return [.ok first]
  let stop ← checkedAddUsize range.overflowStart range.overflowLen
  match postingRowIds with
  | .fixed rowIds =>
      let overflow ← okOr (slice rowIds range.overflowStart stop)
        (.format "posting range points outside posting row ids")
      return .ok first :: fixedRowIds first overflow
  | .deltaVarint bytes _ =>
      let overflow ← okOr (slice bytes range.overflowStart stop)
        (.format "posting range points outside posting row ids")
      return .ok first :: deltaRowIds rowCount overflow.length first overflow

end Snapshot

end SimpleZanzibar
