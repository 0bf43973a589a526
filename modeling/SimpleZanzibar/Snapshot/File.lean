import SimpleZanzibar.Engine
import SimpleZanzibar.SchemaText
import SimpleZanzibar.Snapshot.Encode

/-!
# Snapshot files

Saving a published snapshot and loading a file.  The schema is written as text and compiled
again by a load; the relationships are the rows of the file.  A full load checks every row
and every posting, a trusted one only the structure of the file.
-/

namespace SimpleZanzibar

namespace Snapshot

/-- The six numbers of a row, as typed symbols. -/
def rowFromDisk (row : DiskRow) (symbolCount : Nat) : Except SnapshotIoError RowIdentity := do
  let resourceType ← SymbolId.fromSnapshotRaw row.resourceType symbolCount
  let resourceId ← SymbolId.fromSnapshotRaw row.resourceId symbolCount
  let relation ← SymbolId.fromSnapshotRaw row.relation symbolCount
  let subjectType ← SymbolId.fromSnapshotRaw row.subjectType symbolCount
  let subjectId ← SymbolId.fromSnapshotRaw row.subjectId symbolCount
  let subjectRelation ← optionalSymbolFromDisk row.subjectRelation symbolCount
  return ⟨resourceType, resourceId, relation, subjectType, subjectId, subjectRelation⟩

def readDiskRow (width : KeyWidth) : Cursor DiskRow := do
  let resourceType ← width.readValue
  let resourceId ← width.readValue
  let relation ← width.readValue
  let subjectType ← width.readValue
  let subjectId ← width.readValue
  let subjectRelation ← width.readValue
  return ⟨resourceType, resourceId, relation, subjectType, subjectId, subjectRelation⟩

/-- The string of a symbol is valid for its place in a relationship. -/
def validateSymbolDomain (interner : IdentifierInterner) (kind : IdentifierKind)
    (id : SymbolId) : Except SnapshotIoError Unit := do
  let value ← (interner.resolve id).mapError .store
  let _ ← (Identifier.new kind value).mapError .domain
  return ()

def validateRowDomains (interner : IdentifierInterner) (row : RowIdentity) :
    Except SnapshotIoError Unit := do
  validateSymbolDomain interner .objectType row.resourceType
  validateSymbolDomain interner .objectId row.resourceId
  validateSymbolDomain interner .relationName row.relation
  validateSymbolDomain interner .subjectType row.subjectType
  validateSymbolDomain interner .subjectId row.subjectId
  match row.subjectRelation with
  | some relation => validateSymbolDomain interner .relationName relation
  | none => return ()

section Hashed

variable [StoreHasher]

/-- The rows so far, with the index by which a full load finds duplicates. -/
structure RowFold where
  rows : List RelationshipRow
  duplicateDetector : RelationshipIdentityIndex

/-- Types one row and, in a full load, checks it. -/
def decodeRow (interner : IdentifierInterner) (symbolCount : Nat)
    (validation : SnapshotValidationMode) (fold : RowFold) (diskRow : DiskRow) :
    Except SnapshotIoError RowFold := do
  let rowId ← (RowId.fromLen fold.rows.length).mapError .store
  let row ← rowFromDisk diskRow symbolCount
  match validation with
  | .full =>
      validateRowDomains interner row
      require ((fold.duplicateDetector.find fold.rows row).isNone = true)
        (.format "duplicate relationship row in snapshot")
      return ⟨fold.rows ++ [⟨rowId, row⟩], fold.duplicateDetector.insert fold.rows rowId row⟩
  | .trustedFastLoad => return ⟨fold.rows ++ [⟨rowId, row⟩], fold.duplicateDetector⟩

end Hashed

section Load

variable [Blake3Hash]

/-- The rows of the file, before their symbols are checked. -/
def decodeDiskRows (reader : Reader) : Except SnapshotIoError (List DiskRow) := do
  let rows ← reader.section .relationshipRows
  let rowCount := reader.header.relationshipCount
  require (rows.rowCount = rowCount) (.format "relationship row count does not match header")
  let width ← symbolWidth reader.header.formatVersion rows.flags
    "relationship row flags are unsupported"
  let rowByteLen ← checkedMulUsize width.byteLen 6
  let expectedLen ← checkedMulUsize rowCount rowByteLen
  require (rows.bytes.length = expectedLen)
    (.format "relationship row length does not match row count")
  (ByteCursor.times (readDiskRow width) rowCount rows.bytes).1

variable [StoreHasher]

def decodeSnapshotRows (reader : Reader) (interner : IdentifierInterner)
    (validation : SnapshotValidationMode) : Except SnapshotIoError (List RelationshipRow) := do
  let diskRows ← decodeDiskRows reader
  let fold ← diskRows.foldlM
    (decodeRow interner reader.header.symbolCount validation) ⟨[], .default⟩
  return fold.rows

/-- The store of a file. -/
def decodeStore (reader : Reader) (profile : SnapshotLoadProfile)
    (validation : SnapshotValidationMode) :
    Except SnapshotIoError IndexedRelationshipStore := do
  let interner ← decodeInterner reader validation
  let rows ← decodeSnapshotRows reader interner validation
  let indexes ← DecodedIndexes.decode reader rows profile validation
  return {
    indexProfile := reader.header.indexProfile
    interner := interner
    rowTable := rows
    liveRows := .full rows.length
    deadRowCount := 0
    uniqueness := IndexedRelationshipStore.loadedUniqueness validation
    byResource := indexes.resource
    byResourceObject := indexes.resourceObject
    byResourceTypeRelation := indexes.resourceTypeRelation
    byResourceType := indexes.resourceType
    bySubject := indexes.subject
    bySubjectTypeRelation := indexes.subjectTypeRelation
    bySubjectType := indexes.subjectType }

def maxSchemaBytes : Nat := 4 * 1024 * 1024

def validateLoadOptions (options : LoadOptions) : Except SnapshotIoError Unit := do
  require (¬(options.validation = .trustedFastLoad ∧ options.profile ≠ .fastLoad))
    (.unsupportedOption "trusted validation with latency profile")
  require (¬(options.integrity = .external ∧ options.validation ≠ .trustedFastLoad))
    (.unsupportedOption "external integrity without trusted validation")

def decodeZstdBounded [Zstd] (file : List UInt8) (maxFileBytes : NonZeroU64) :
    Except SnapshotIoError (List UInt8) := do
  let readLimit ← okOr (checkedAdd maxFileBytes.get 1)
    (.limitExceeded "decompressed snapshot file")
  let output ← okOr (Zstd.readToEnd readLimit file) .io
  require (output.length ≤ maxFileBytes.get) (.limitExceeded "decompressed snapshot file")
  return output

/-- The payload of a file within the size limit. -/
def readDecodePayload [Zstd] (file : List UInt8) (options : LoadOptions) :
    Except SnapshotIoError (List UInt8) := do
  require (file.length ≤ options.maxFileBytes.get) (.limitExceeded "snapshot file")
  match options.compression with
  | .zstd => decodeZstdBounded file options.maxFileBytes
  | .none => return file

def parseReader (bytes : List UInt8) (options : LoadOptions) :
    Except SnapshotIoError Reader := do
  let reader ← Reader.parse bytes options.integrity
  require (reader.header.indexProfile.satisfies options.requiredIndexProfile = true)
    (.unsupportedOption "snapshot index profile does not satisfy load requirements")
  return reader

/-- The text of the schema section. -/
def schemaText (reader : Reader) : Except SnapshotIoError String := do
  let contents ← reader.section .schema
  require (contents.bytes.length ≤ maxSchemaBytes) (.limitExceeded "schema section")
  okOr (decodeUtf8 contents.bytes) (.format "schema section is not valid utf-8")

def compileSnapshotSchema (listing : MapListing) (reader : Reader) :
    Except SnapshotFileError (List NamespaceConfig × CompiledSchema × SchemaHash) := do
  let schemaSource ← (schemaText reader).mapError .io
  let configs ← (parseDsl schemaSource).mapError .schema
  let schema ← (compileLegacyConfigs listing configs).mapError .schema
  let schemaHash := SchemaHash.forSchema schema
  (require (schemaHash = reader.header.schemaHash)
    (.format "schema hash does not match schema section")).mapError .io
  return (configs, schema, schemaHash)

/-- The part of a load after the payload was read. -/
def loadPayload (listing : MapListing) (bytes : List UInt8) (options : LoadOptions) :
    Except SnapshotFileError RevisionSnapshot := do
  let reader ← (parseReader bytes options).mapError .io
  let (configs, schema, schemaHash) ← compileSnapshotSchema listing reader
  let store ← (decodeStore reader options.profile options.validation).mapError .io
  return ⟨⟨schema, .fromCheckpoint store⟩, reader.header.createdRevision, schemaHash,
    WriterState.insertConfigs ∅ configs⟩

/-- What a file holds. -/
def loadSnapshotFile [Zstd] (listing : MapListing) (file : List UInt8) (options : LoadOptions) :
    Except SnapshotFileError RevisionSnapshot := do
  (validateLoadOptions options).mapError .io
  let bytes ← (readDecodePayload file options).mapError .io
  loadPayload listing bytes options

def validateCompressionOptions [Zstd] (options : SaveOptions) : Except SnapshotIoError Unit :=
  require (options.compression = .zstd →
      Zstd.minLevel ≤ options.zstdLevel ∧ options.zstdLevel ≤ Zstd.maxLevel)
    (.unsupportedOption "zstd_level")

/-- The file of a published snapshot. -/
def saveSnapshotFile [Zstd] (listing : MapListing) (snapshot : RevisionSnapshot)
    (options : SaveOptions) : Except SnapshotIoError (List UInt8) := do
  require (options.includeIndexes = true) (.unsupportedOption "include_indexes=false")
  validateCompressionOptions options
  let schemaSource := canonicalSchemaSource listing snapshot.configs
  require ((stringBytes schemaSource).length ≤ maxSchemaBytes) (.limitExceeded "schema section")
  let writer ← SectionWriter.default.addSection .schema (stringBytes schemaSource) 1
  let store ← snapshot.relationships.canonicalStore.mapError .store
  let writer ← encodeStoreSections store writer options.indexProfile options.sectionLayout
  match options.compression with
  | .none =>
      writeUncompressedSnapshotFile snapshot.schemaHash snapshot.revision writer
        options.indexProfile
  | .zstd => do
      let bytes ← encodeFile snapshot.schemaHash snapshot.revision writer options.indexProfile
      okOr (Zstd.encodeAll options.zstdLevel bytes) .io

end Load

end Snapshot

section Engine

variable [Blake3Hash] [StoreHasher] [Zstd]

def EngineWriter.saveSnapshot (writer : EngineWriter) (listing : MapListing)
    (options : Snapshot.SaveOptions) : Except SnapshotIoError (List UInt8) :=
  match writer.currentSnapshot with
  | none => .error (.format "schema snapshot is required before saving")
  | some snapshot => Snapshot.saveSnapshotFile listing snapshot options

/-- An engine that starts from a file; it keeps one snapshot. -/
def EngineWriter.loadSnapshot (datastoreId : DatastoreId) (evaluationLimits : EvaluationLimits)
    (listing : MapListing) (file : List UInt8) (options : Snapshot.LoadOptions) :
    Except SnapshotFileError EngineWriter := do
  let snapshot ← Snapshot.loadSnapshotFile listing file options
  let writer : EngineWriter :=
    { EngineWriter.new datastoreId ⟨1, Nat.one_pos⟩ evaluationLimits with
      configs := snapshot.configs
      schema := some snapshot.schema
      relationships := snapshot.relationships
      currentSnapshot := some snapshot
      snapshotHistory := [snapshot]
      lastRevision := some snapshot.revision }
  return { writer with publishedState := writer.currentEngineState }

end Engine

end SimpleZanzibar
