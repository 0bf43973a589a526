import SimpleZanzibar.Snapshot.Format

/-!
# The symbol sections of a snapshot file

The strings of a store are written as one pool of bytes with a table of ranges, as the list
of their hashes and as the symbols in the order of their hashes.  The store that is saved has
interned its strings one after the other, so that its pool is their concatenation.
-/

namespace SimpleZanzibar

namespace Snapshot

/-- The width of the numbers of a section. -/
inductive KeyWidth where
  | u8
  | u16
  | u24
  | u32
deriving DecidableEq, Repr

namespace KeyWidth

def byteLen : KeyWidth → Nat
  | u8 => 1
  | u16 => 2
  | u24 => 3
  | u32 => 4

def flagBits : KeyWidth → Nat
  | u8 => 0
  | u16 => 1
  | u24 => 2
  | u32 => 3

def fromFlagBits : Nat → Except SnapshotIoError KeyWidth
  | 0 => .ok u8
  | 1 => .ok u16
  | 2 => .ok u24
  | 3 => .ok u32
  | _ => .error (.format "snapshot index key width is unsupported")

def forMax (value : Nat) : KeyWidth :=
  if value ≤ 0xFF then u8
  else if value ≤ 0xFFFF then u16
  else if value ≤ 0xFFFFFF then u24
  else u32

def encodeValue (width : KeyWidth) (value : Nat) : List UInt8 :=
  LittleEndian.encode width.byteLen value

def readValue (width : KeyWidth) : Cursor Nat :=
  ByteCursor.readNat (.format "snapshot section is truncated") width.byteLen

end KeyWidth

def sectionWidthMask : Nat := 0b11

def symbolTableLenWidthMask : Nat := 0b1100

def symbolTableLenWidthShift : Nat := 2

/-- The bits of a 16-bit number outside a mask. -/
def outside (flags mask : Nat) : Nat :=
  flags &&& (0xFFFF - mask)

def sectionWidthFromFlags (flags : Nat) : Except SnapshotIoError KeyWidth := do
  require (outside flags sectionWidthMask = 0) (.format "section width flags are unsupported")
  KeyWidth.fromFlagBits (flags &&& sectionWidthMask)

def symbolTableFlags (startWidth lenWidth : KeyWidth) : Nat :=
  startWidth.flagBits ||| (lenWidth.flagBits <<< symbolTableLenWidthShift)

def symbolTableWidths (flags : Nat) : Except SnapshotIoError (KeyWidth × KeyWidth) := do
  require (outside flags (sectionWidthMask ||| symbolTableLenWidthMask) = 0)
    (.format "symbol table flags are unsupported")
  let startWidth ← KeyWidth.fromFlagBits (flags &&& sectionWidthMask)
  let lenWidth ← KeyWidth.fromFlagBits
    ((flags &&& symbolTableLenWidthMask) >>> symbolTableLenWidthShift)
  return (startWidth, lenWidth)

def snapshotSymbolWidth (maxValue : Nat) : EncodingLayout → KeyWidth
  | .compact => KeyWidth.forMax maxValue
  | .compressionFriendly => .u32

/-- The widths of the symbol table: the old format has no flags and fixed widths. -/
def tableWidths (version : FormatVersion) (flags : Nat) :
    Except SnapshotIoError (KeyWidth × KeyWidth) :=
  match version with
  | .v3 => symbolTableWidths flags
  | .v2 => do
      require (flags = 0) (.format "symbol table flags are unsupported")
      return (.u32, .u32)

/-- The width of the symbols of a section. -/
def symbolWidth (version : FormatVersion) (flags : Nat) (reason : String) :
    Except SnapshotIoError KeyWidth :=
  match version with
  | .v3 => sectionWidthFromFlags flags
  | .v2 => do
      require (flags = 0) (.format reason)
      return .u32

/-- A number of the file as a symbol or a row that exists. -/
def nonZeroFromRaw (value count : Nat) (zeroReason boundReason : String) :
    Except SnapshotIoError NonZeroU32 :=
  if value = 0 then .error (.format zeroReason)
  else if h : value ≤ count ∧ 0 < value ∧ value < 2 ^ 32 then .ok ⟨value, h.2.1, h.2.2⟩
  else .error (.format boundReason)

end Snapshot

def SymbolId.fromSnapshotRaw (value symbolCount : Nat) : Except SnapshotIoError SymbolId := do
  let id ← Snapshot.nonZeroFromRaw value symbolCount "symbol id must be non-zero"
    "symbol id is out of bounds"
  return ⟨id⟩

def RowId.fromSnapshotRaw (value rowCount : Nat) : Except SnapshotIoError RowId := do
  let id ← Snapshot.nonZeroFromRaw value rowCount "row id must be non-zero"
    "row id is out of bounds"
  return ⟨id⟩

namespace Snapshot

/-- The range of a string in the pool. -/
structure InternedString where
  start : Nat
  len : Nat

/-- The ranges of strings that are appended one after the other. -/
def internedStrings : Nat → List String → List InternedString
  | _, [] => []
  | start, value :: rest =>
      ⟨start, (stringBytes value).length⟩ ::
        internedStrings (start + (stringBytes value).length) rest

def encodeV3SymbolTable (entries : List InternedString) (symbolBytesLen : Nat)
    (layout : EncodingLayout) : List UInt8 × Nat :=
  let startWidth := snapshotSymbolWidth symbolBytesLen layout
  let maxLen := (entries.map (·.len)).foldl max 0
  let lenWidth := snapshotSymbolWidth maxLen layout
  (entries.flatMap (fun entry =>
    startWidth.encodeValue entry.start ++ lenWidth.encodeValue entry.len),
    symbolTableFlags startWidth lenWidth)

/-- The string that the bytes spell, if they are valid. -/
def decodeUtf8 (bytes : List UInt8) : Option String :=
  String.fromUTF8? (ByteArray.mk bytes.toArray)

/-- Cuts a string out of the pool. -/
def symbolFromRange (pool : List UInt8) (start len : Nat) : Except SnapshotIoError String := do
  let stop ← checkedAddUsize start len
  let bytes ← okOr (slice pool start stop) (.format "symbol byte range is out of bounds")
  okOr (decodeUtf8 bytes) (.format "symbol bytes are not valid utf-8")

def readSymbol (pool : List UInt8) (startWidth lenWidth : KeyWidth) : Cursor String := do
  let start ← startWidth.readValue
  let len ← lenWidth.readValue
  Action.lift (symbolFromRange pool start len)

section Hashes

variable [Blake3Hash]

/-- The strings of a file with the length of their pool. -/
def decodeSymbolTable (reader : Reader) : Except SnapshotIoError (Nat × List String) := do
  let pool ← reader.section .symbolBytes
  let table ← reader.section .symbolTable
  let symbolCount := reader.header.symbolCount
  require (table.rowCount = symbolCount)
    (.format "symbol table row count does not match header")
  let (startWidth, lenWidth) ← tableWidths reader.header.formatVersion table.flags
  let entryLen ← checkedAddUsize startWidth.byteLen lenWidth.byteLen
  let expectedLen ← checkedMulUsize symbolCount entryLen
  require (table.bytes.length = expectedLen)
    (.format "symbol table length does not match symbol count")
  let (symbols, rest) := ByteCursor.times (readSymbol pool.bytes startWidth lenWidth)
    symbolCount table.bytes
  let symbols ← symbols
  require (rest = []) (.format "symbol table has trailing bytes")
  return (pool.bytes.length, symbols)

def decodeSymbolHashes (reader : Reader) : Except SnapshotIoError (List UInt64) := do
  let hashes ← reader.section .symbolHashes
  let symbolCount := reader.header.symbolCount
  require (hashes.rowCount = symbolCount)
    (.format "symbol hash row count does not match header")
  let expectedLen ← checkedMulUsize symbolCount 8
  require (hashes.bytes.length = expectedLen)
    (.format "symbol hash length does not match symbol count")
  let values ← (ByteCursor.times readU64 symbolCount hashes.bytes).1
  return values.map UInt64.ofNat

def symbolLookupKey (id : SymbolId) (hashes : List UInt64) :
    Except SnapshotIoError (UInt64 × Nat) := do
  let hash ← okOr hashes[id.index]? (.format "symbol lookup hash id is out of bounds")
  return (hash, id.value.get)

/-- Order of the lookup section: by hash, then by symbol. -/
def lookupKeyLt (a b : UInt64 × Nat) : Prop :=
  a.1 < b.1 ∨ a.1 = b.1 ∧ a.2 < b.2

instance (a b : UInt64 × Nat) : Decidable (lookupKeyLt a b) :=
  inferInstanceAs (Decidable (a.1 < b.1 ∨ a.1 = b.1 ∧ a.2 < b.2))

/-- Reads the symbols of the lookup section, each greater than the one before it. -/
def readSymbolLookup (width : KeyWidth) (symbolCount : Nat) (hashes : List UInt64) :
    Nat → Option (UInt64 × Nat) → Cursor (List SymbolId)
  | 0, _ => return []
  | count + 1, previous => do
      let raw ← width.readValue
      let id ← Action.lift (SymbolId.fromSnapshotRaw raw symbolCount)
      let key ← Action.lift (symbolLookupKey id hashes)
      Action.lift (require (∀ candidate ∈ previous, lookupKeyLt candidate key)
        (.format "symbol lookup is not strictly sorted"))
      let rest ← readSymbolLookup width symbolCount hashes count (some key)
      return id :: rest

def decodeSymbolLookup (reader : Reader) (hashes : List UInt64) :
    Except SnapshotIoError (List SymbolId) := do
  let lookup ← reader.section .symbolLookup
  let symbolCount := reader.header.symbolCount
  require (lookup.rowCount = symbolCount)
    (.format "symbol lookup row count does not match header")
  let width ← symbolWidth reader.header.formatVersion lookup.flags
    "symbol lookup flags are unsupported"
  let expectedLen ← checkedMulUsize symbolCount width.byteLen
  require (lookup.bytes.length = expectedLen)
    (.format "symbol lookup length does not match symbol count")
  let (ids, rest) := readSymbolLookup width symbolCount hashes symbolCount none lookup.bytes
  let ids ← ids
  require (rest = []) (.format "symbol lookup has trailing bytes")
  return ids

/-- The two hash tables of an interner. -/
abbrev SymbolIndex :=
  AList (fun _ : UInt64 => SymbolId) × AList (fun _ : UInt64 => List SymbolId)

def resolveSymbolEntry (symbols : List String) (id : SymbolId) :
    Except SnapshotIoError String :=
  okOr symbols[id.index]? (.format "symbol lookup id is out of bounds")

/-- One of the symbols has the string. -/
def anyResolvesTo (symbols : List String) (value : String) :
    List SymbolId → Except SnapshotIoError Bool
  | [] => .ok false
  | id :: rest => do
      let stored ← resolveSymbolEntry symbols id
      if stored = value then return true
      anyResolvesTo symbols value rest

/-- The string was entered before. -/
def symbolValueExists (symbols : List String) (tables : SymbolIndex) (hash : UInt64)
    (value : String) : Except SnapshotIoError Bool :=
  anyResolvesTo symbols value
    ((tables.1.lookup hash).toList ++ (tables.2.lookup hash).getD [])

variable [StoreHasher]

/-- Checks the stored hash of each symbol and enters it into the two tables. -/
def indexFullSymbolLookup (symbols : List String) :
    Nat → List UInt64 → SymbolIndex → Except SnapshotIoError SymbolIndex
  | _, [], tables => .ok tables
  | index, storedHash :: rest, tables => do
      let id ← (SymbolId.fromIndex index).mapError .store
      let value ← resolveSymbolEntry symbols id
      require (hashValue value = storedHash)
        (.format "symbol lookup hash does not match symbol bytes")
      let exists_ ← symbolValueExists symbols tables storedHash value
      require (exists_ = false) (.format "duplicate symbol in snapshot")
      indexFullSymbolLookup symbols (index + 1) rest
        (IdentifierInterner.indexSymbol tables (value, id))

def fromSnapshotParts (byteLen : Nat) (symbols : List String) (hashes : List UInt64)
    (lookup : List SymbolId) :
    SnapshotValidationMode → Except SnapshotIoError IdentifierInterner
  | .full => do
      let (idsByHash, hashCollisions) ← indexFullSymbolLookup symbols 0 hashes (∅, ∅)
      return ⟨byteLen, symbols, idsByHash, hashCollisions, [], []⟩
  | .trustedFastLoad => .ok ⟨byteLen, symbols, ∅, ∅, hashes, lookup⟩

/-- The interner of a file. -/
def decodeInterner (reader : Reader) (validation : SnapshotValidationMode) :
    Except SnapshotIoError IdentifierInterner := do
  let (byteLen, symbols) ← decodeSymbolTable reader
  let hashes ← decodeSymbolHashes reader
  let lookup ← decodeSymbolLookup reader hashes
  fromSnapshotParts byteLen symbols hashes lookup validation

end Hashes

/-- The hashes and the hash order of the symbols, with the flags of the latter. -/
def encodeSymbolAcceleration [StoreHasher] (interner : IdentifierInterner)
    (layout : EncodingLayout) : Except SnapshotIoError (List UInt8 × List UInt8 × Nat) := do
  let hashes := interner.encodeSymbolHashes.flatMap (fun hash =>
    LittleEndian.encode 8 hash.toNat)
  let _ ← ((List.range interner.entries.length).mapM SymbolId.fromIndex).mapError .store
  let symbolCount ← checkedU32 interner.entries.length
  let width := snapshotSymbolWidth symbolCount layout
  return (hashes,
    interner.encodeSymbolLookup.flatMap (fun id => width.encodeValue id.value.get),
    width.flagBits)

end Snapshot

end SimpleZanzibar
