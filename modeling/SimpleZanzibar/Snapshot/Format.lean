import Mathlib.Data.List.Sort
import SimpleZanzibar.Lib.ByteCursor
import SimpleZanzibar.SchemaHash
import SimpleZanzibar.Writer

/-!
# The envelope of a snapshot file

A snapshot file is a header, a directory of eleven sections, the bytes of the sections and,
as the last section, the hash of everything before it.  The compressor and the hash function
are parameters.  Counts and offsets of the file are numbers below the bound of their width;
the target has 64-bit addresses, so that every count of a file is an address.
-/

namespace SimpleZanzibar

/-- The hash function with its digest of 32 bytes. -/
class Blake3Hash where
  hash : List UInt8 → Vector UInt8 32

instance [Blake3Hash] : Blake3 where
  Digest := Vector UInt8 32
  decidableEq := inferInstance
  finalize := Blake3Hash.hash

/-- The compressor.  Reading stops after a number of bytes of the output. -/
class Zstd where
  minLevel : Int
  maxLevel : Int
  encodeAll : Int → List UInt8 → Option (List UInt8)
  readToEnd : Nat → List UInt8 → Option (List UInt8)

/-- Decoding undoes encoding. -/
class LawfulZstd extends Zstd where
  readToEnd_encodeAll : ∀ level bytes encoded limit, encodeAll level bytes = some encoded →
    readToEnd limit encoded = some (bytes.take limit)

namespace Snapshot

/-- Supported format versions of a snapshot file. -/
inductive FormatVersion where
  | v2
  | v3
deriving DecidableEq, Repr

inductive Compression where
  | none
  | zstd
deriving DecidableEq, Repr

/-- Section layout that is used before the compression. -/
inductive EncodingLayout where
  | compact
  | compressionFriendly
deriving DecidableEq, Repr

/-- Integrity proof that a load asks for. -/
inductive IntegrityMode where
  | checksum
  | external
deriving DecidableEq, Repr

/-- `NonZeroU64`. -/
structure NonZeroU64 where
  get : Nat
  pos : 0 < get
  lt : get < 2 ^ 64

structure SaveOptions where
  compression : Compression
  zstdLevel : Int
  includeIndexes : Bool
  indexProfile : IndexProfile

def SaveOptions.sectionLayout (options : SaveOptions) : EncodingLayout :=
  match options.compression with
  | .none => .compact
  | .zstd => .compressionFriendly

structure LoadOptions where
  compression : Compression
  profile : SnapshotLoadProfile
  validation : SnapshotValidationMode
  integrity : IntegrityMode
  maxFileBytes : NonZeroU64
  requiredIndexProfile : IndexProfile

/-- Fails with the error unless the condition holds. -/
def require (condition : Prop) [Decidable condition] (error : SnapshotIoError) :
    Except SnapshotIoError Unit :=
  if condition then .ok () else .error error

theorem require_eq_ok
    {condition : Prop} [Decidable condition] {error : SnapshotIoError} {u : Unit} :
    require condition error = .ok u ↔ condition := by
  unfold require
  by_cases h : condition
  · simp [h]
  · simp [h]

/-- A check before a computation. -/
theorem require_bind_eq_ok
    {condition : Prop} [Decidable condition] {error : SnapshotIoError} {α : Type}
    {next : Unit → Except SnapshotIoError α} {a : α} :
    (require condition error >>= next) = .ok a ↔ condition ∧ next () = .ok a := by
  rw [bind_eq_ok]
  constructor
  · rintro ⟨_, hcondition, hnext⟩
    exact ⟨require_eq_ok.mp hcondition, hnext⟩
  · rintro ⟨hcondition, hnext⟩
    exact ⟨(), require_eq_ok.mpr hcondition, hnext⟩

/-- The value, or the error when there is none. -/
def okOr {α : Type} (value : Option α) (error : SnapshotIoError) : Except SnapshotIoError α :=
  match value with
  | some value => .ok value
  | none => .error error

theorem okOr_eq_ok
    {α : Type} {value : Option α} {error : SnapshotIoError} {a : α} :
    okOr value error = .ok a ↔ value = some a := by
  cases value with
  | none => simp [okOr]
  | some value => simp [okOr]

def checkedAddUsize (left right : Nat) : Except SnapshotIoError Nat :=
  okOr (checkedAdd left right) (.format "snapshot offset overflowed")

def checkedMulUsize (left right : Nat) : Except SnapshotIoError Nat :=
  if left * right ≤ usizeMax then .ok (left * right)
  else .error (.format "snapshot length overflowed")

def checkedU32 (value : Nat) : Except SnapshotIoError Nat :=
  if value ≤ u32Max then .ok value else .error (.limitExceeded "snapshot u32 count")

/-- The bytes of a range, if it lies inside. -/
def slice {α : Type} (items : List α) (start stop : Nat) : Option (List α) :=
  if start ≤ stop ∧ stop ≤ items.length then some ((items.drop start).take (stop - start))
  else none

/-- Reads from the front of a byte string. -/
abbrev Cursor (α : Type) := Action (List UInt8) SnapshotIoError α

def readArray (length : Nat) : Cursor (List UInt8) :=
  ByteCursor.readBytes (.format "snapshot section is truncated") length

def readU16 : Cursor Nat :=
  ByteCursor.readNat (.format "snapshot section is truncated") 2

def readU32 : Cursor Nat :=
  ByteCursor.readNat (.format "snapshot section is truncated") 4

def readU64 : Cursor Nat :=
  ByteCursor.readNat (.format "snapshot section is truncated") 8

def magicPrefix : List UInt8 := [83, 90, 83, 78, 65, 80, 0]

namespace FormatVersion

def raw : FormatVersion → Nat
  | v2 => 2
  | v3 => 3

def magic : FormatVersion → List UInt8
  | v2 => magicPrefix ++ [2]
  | v3 => magicPrefix ++ [3]

def fromHeader (magic : List UInt8) (version : Nat) : Except SnapshotIoError FormatVersion := do
  require (magic.take magicPrefix.length = magicPrefix) (.format "snapshot magic is invalid")
  if magic = v2.magic ∧ version = 2 then return v2
  else if magic = v3.magic ∧ version = 3 then return v3
  else .error (.format "snapshot format version is unsupported")

end FormatVersion

def currentFormatVersion : FormatVersion := .v3

end Snapshot

namespace IndexProfile

def flagBits : IndexProfile → Nat
  | full => 0
  | checkOnly => 1
  | checkAndObjectAudit => 2

def fromFlagBits : Nat → Except SnapshotIoError IndexProfile
  | 0 => .ok full
  | 1 => .ok checkOnly
  | 2 => .ok checkAndObjectAudit
  | _ => .error (.format "snapshot index profile is unsupported")

end IndexProfile

namespace Snapshot

def headerLen : Nat := 76

def directoryEntryLen : Nat := 28

def footerLen : Nat := 32

def requiredSectionCount : Nat := 11

inductive SectionKind where
  | schema
  | symbolBytes
  | symbolTable
  | relationshipRows
  | indexDirectory
  | indexKeys
  | postingRanges
  | postingRowIds
  | symbolHashes
  | symbolLookup
  | footer
deriving DecidableEq, Repr

namespace SectionKind

def raw : SectionKind → Nat
  | schema => 1
  | symbolBytes => 2
  | symbolTable => 3
  | relationshipRows => 4
  | indexDirectory => 5
  | indexKeys => 6
  | postingRanges => 7
  | postingRowIds => 8
  | symbolHashes => 9
  | symbolLookup => 10
  | footer => 11

def all : List SectionKind :=
  [schema, symbolBytes, symbolTable, relationshipRows, indexDirectory, indexKeys,
    postingRanges, postingRowIds, symbolHashes, symbolLookup, footer]

def fromRaw (value : Nat) : Except SnapshotIoError SectionKind :=
  okOr (all.find? (fun kind => kind.raw == value)) (.format "unknown snapshot section kind")

end SectionKind

structure Header [Blake3] where
  formatVersion : FormatVersion
  schemaHash : SchemaHash
  relationshipCount : Nat
  symbolCount : Nat
  createdRevision : Revision
  indexProfile : IndexProfile

/-- The bytes of a section with the two numbers that the directory gives for it. -/
structure Section where
  bytes : List UInt8
  flags : Nat
  rowCount : Nat

/-- One entry of the section directory with the section it locates. -/
structure SectionEntry where
  kind : SectionKind
  contents : Section
  offset : Nat
  length : Nat

structure Reader [Blake3] where
  header : Header
  sections : List SectionEntry

/-- The section of a kind among the entries. -/
def findSection (entries : List SectionEntry) (kind : SectionKind) : Option Section :=
  (entries.find? (fun entry => decide (entry.kind = kind))).map (·.contents)

def Reader.section [Blake3] (reader : Reader) (kind : SectionKind) :
    Except SnapshotIoError Section :=
  okOr (findSection reader.sections kind) (.format "missing required snapshot section")

/-- A number as a revision, which is not zero. -/
def revisionFromRaw (value : Nat) : Option Revision :=
  if h : 0 < value ∧ value < 2 ^ 64 then some ⟨value, h.1, h.2⟩ else none

section Hashes

variable [Blake3Hash]

def schemaHashFromBytes (bytes : List UInt8) : Except SnapshotIoError SchemaHash :=
  if h : bytes.toArray.size = 32 then .ok ⟨(⟨bytes.toArray, h⟩ : Vector UInt8 32)⟩
  else .error (.format "snapshot section is truncated")

def schemaHashBytes (hash : SchemaHash) : List UInt8 :=
  Vector.toList (n := 32) hash.bytes

/-- Reads the header of a file of a given length. -/
def readHeader (actualLen : Nat) : Cursor Header := do
  let magic ← readArray 8
  let version ← readU16
  let formatVersion ← Action.lift (FormatVersion.fromHeader magic version)
  let flags ← readU16
  let indexProfile ← Action.lift (IndexProfile.fromFlagBits flags)
  let length ← readU32
  Action.lift (require (length = headerLen) (.format "snapshot header length is unsupported"))
  let sectionCount ← readU32
  Action.lift (require (sectionCount = requiredSectionCount)
    (.format "snapshot section count is unsupported"))
  let fileLen ← readU64
  Action.lift (require (fileLen = actualLen)
    (.format "snapshot file length does not match header"))
  let hash ← readArray 32
  let schemaHash ← Action.lift (schemaHashFromBytes hash)
  let relationshipCount ← readU32
  let symbolCount ← readU32
  let revision ← readU64
  let createdRevision ← Action.lift (okOr (revisionFromRaw revision)
    (.format "snapshot revision must be non-zero"))
  return ⟨formatVersion, schemaHash, relationshipCount, symbolCount, createdRevision,
    indexProfile⟩

def parseHeader (bytes : List UInt8) : Except SnapshotIoError Header := do
  let header ← okOr (slice bytes 0 headerLen) (.format "snapshot header is truncated")
  (readHeader bytes.length header).1

def parseSectionCount (bytes : List UInt8) : Except SnapshotIoError Nat := do
  let count ← okOr (slice bytes 16 20) (.format "snapshot section count is missing")
  return LittleEndian.decode count

/-- Only the sections with widths of their own have flags, and only in the current format. -/
def validateSectionFlags (version : FormatVersion) (kind : SectionKind) (flags : Nat) :
    Except SnapshotIoError Unit :=
  require (flags = 0 ∨ version = .v3 ∧
      (kind = .symbolTable ∨ kind = .relationshipRows ∨ kind = .symbolLookup))
    (.format "section flags are unsupported")

/-- Reads one entry of the directory and cuts its section out of the file. -/
def readSectionEntry (version : FormatVersion) (bytes : List UInt8) (directoryEnd : Nat)
    (seen : List SectionEntry) : Cursor SectionEntry := do
  let rawKind ← readU16
  let kind ← Action.lift (SectionKind.fromRaw rawKind)
  let flags ← readU16
  Action.lift (validateSectionFlags version kind flags)
  let offset ← readU64
  let length ← readU64
  let rowCount ← readU64
  Action.lift (require ((findSection seen kind).isNone = true)
    (.format "duplicate snapshot section"))
  let stop ← Action.lift (checkedAddUsize offset length)
  Action.lift (require (directoryEnd ≤ offset ∧ stop ≤ bytes.length)
    (.format "snapshot section is out of bounds"))
  let sectionBytes ← Action.lift (okOr (slice bytes offset stop)
    (.format "snapshot section range is invalid"))
  return ⟨kind, ⟨sectionBytes, flags, rowCount⟩, offset, length⟩

/-- The entries of the directory, in file order. -/
def readSectionEntries (version : FormatVersion) (bytes : List UInt8) (directoryEnd : Nat) :
    Nat → List SectionEntry → Cursor (List SectionEntry)
  | 0, seen => return seen
  | count + 1, seen => do
      let entry ← readSectionEntry version bytes directoryEnd seen
      readSectionEntries version bytes directoryEnd count (seen ++ [entry])

def validateRequiredSections (entries : List SectionEntry) : Except SnapshotIoError Unit :=
  require (∀ kind ∈ SectionKind.all, (findSection entries kind).isSome = true)
    (.format "missing required snapshot section")

/-- Each section starts where the one before it has ended, or later. -/
def validateDisjoint : Nat → List SectionEntry → Except SnapshotIoError Unit
  | _, [] => .ok ()
  | previousEnd, entry :: rest => do
      require (previousEnd ≤ entry.offset) (.format "snapshot sections overlap")
      let stop ← okOr (checkedAdd entry.offset entry.length)
        (.format "snapshot section range overflowed")
      validateDisjoint stop rest

def validateNonOverlappingSections (entries : List SectionEntry) :
    Except SnapshotIoError Unit :=
  validateDisjoint 0 (entries.insertionSort (fun a b => a.offset ≤ b.offset))

def validateFooter (bytes : List UInt8) (entries : List SectionEntry)
    (integrity : IntegrityMode) : Except SnapshotIoError Unit := do
  let footer ← okOr (findSection entries .footer) (.format "missing footer section")
  require (footer.bytes.length = footerLen) (.format "footer length is invalid")
  require (footerLen ≤ bytes.length) (.format "footer range is invalid")
  let footerStart := bytes.length - footerLen
  require (bytes.drop footerStart = footer.bytes) (.format "footer must be the final section")
  match integrity with
  | .external => return ()
  | .checksum =>
      require ((Blake3Hash.hash (bytes.take footerStart)).toList = footer.bytes)
        (.format "snapshot checksum mismatch")

/-- Reads the directory of a file and cuts out its sections. -/
def Reader.parse (bytes : List UInt8) (integrity : IntegrityMode) :
    Except SnapshotIoError Reader := do
  let header ← parseHeader bytes
  let sectionCount ← parseSectionCount bytes
  require (sectionCount = requiredSectionCount) (.format "unexpected snapshot section count")
  let directoryLen ← checkedMulUsize sectionCount directoryEntryLen
  let directoryEnd ← checkedAddUsize headerLen directoryLen
  let directory ← okOr (slice bytes headerLen directoryEnd)
    (.format "section directory is out of bounds")
  let entries ←
    (readSectionEntries header.formatVersion bytes directoryEnd sectionCount [] directory).1
  validateRequiredSections entries
  validateNonOverlappingSections entries
  validateFooter bytes entries integrity
  return ⟨header, entries⟩

/-- A section that is to be written. -/
structure SectionPayload where
  kind : SectionKind
  flags : Nat
  bytes : List UInt8
  rowCount : Nat

/-- The sections that were added so far. -/
structure SectionWriter where
  sections : List SectionPayload

namespace SectionWriter

def default : SectionWriter := ⟨[]⟩

def addSectionWithFlags (writer : SectionWriter) (kind : SectionKind) (flags : Nat)
    (bytes : List UInt8) (rowCount : Nat) : Except SnapshotIoError SectionWriter := do
  require (∀ payload ∈ writer.sections, payload.kind ≠ kind)
    (.format "duplicate snapshot section")
  return ⟨writer.sections ++ [⟨kind, flags, bytes, rowCount⟩]⟩

def addSection (writer : SectionWriter) (kind : SectionKind) (bytes : List UInt8)
    (rowCount : Nat) : Except SnapshotIoError SectionWriter :=
  writer.addSectionWithFlags kind 0 bytes rowCount

def rowCount (writer : SectionWriter) (kind : SectionKind) : Except SnapshotIoError Nat :=
  okOr ((writer.sections.find? (fun payload => decide (payload.kind = kind))).map (·.rowCount))
    (.format "missing required snapshot section")

def intoSortedSections (writer : SectionWriter) : List SectionPayload :=
  writer.sections.insertionSort (fun a b => a.kind.raw ≤ b.kind.raw)

end SectionWriter

def snapshotSectionsWithFooter (writer : SectionWriter) :
    Except SnapshotIoError (List SectionPayload) := do
  let sections := writer.intoSortedSections ++ [⟨.footer, 0, List.replicate footerLen 0, 1⟩]
  require (sections.length = requiredSectionCount)
    (.format "snapshot writer did not produce all required sections")
  return sections

/-- Where a section is written. -/
structure SectionDirectoryEntry where
  kind : SectionKind
  flags : Nat
  offset : Nat
  length : Nat
  rowCount : Nat

/-- The sections one after the other, from an offset on. -/
def placeSections : Nat → List SectionPayload →
    Except SnapshotIoError (List SectionDirectoryEntry)
  | _, [] => .ok []
  | offset, payload :: rest => do
      let next ← checkedAddUsize offset payload.bytes.length
      let entries ← placeSections next rest
      return ⟨payload.kind, payload.flags, offset, payload.bytes.length, payload.rowCount⟩ ::
        entries

def sectionDirectory (sections : List SectionPayload) :
    Except SnapshotIoError (List SectionDirectoryEntry) := do
  let directoryLen ← checkedMulUsize sections.length directoryEntryLen
  let nextOffset ← checkedAddUsize headerLen directoryLen
  placeSections nextOffset sections

def directoryFileLen (directory : List SectionDirectoryEntry) : Except SnapshotIoError Nat := do
  let last ← okOr directory.getLast? (.format "snapshot directory is empty")
  okOr (checkedAdd last.offset last.length) (.format "snapshot writer length overflowed")

def writeHeader (schemaHash : SchemaHash) (relationshipCount symbolCount : Nat)
    (revision : Revision) (fileLen : Nat) (indexProfile : IndexProfile) : List UInt8 :=
  currentFormatVersion.magic ++ LittleEndian.encode 2 currentFormatVersion.raw ++
    LittleEndian.encode 2 indexProfile.flagBits ++ LittleEndian.encode 4 headerLen ++
    LittleEndian.encode 4 requiredSectionCount ++ LittleEndian.encode 8 fileLen ++
    schemaHashBytes schemaHash ++ LittleEndian.encode 4 relationshipCount ++
    LittleEndian.encode 4 symbolCount ++ LittleEndian.encode 8 revision.get

def writeDirectoryEntry (entry : SectionDirectoryEntry) : List UInt8 :=
  LittleEndian.encode 2 entry.kind.raw ++ LittleEndian.encode 2 entry.flags ++
    LittleEndian.encode 8 entry.offset ++ LittleEndian.encode 8 entry.length ++
    LittleEndian.encode 8 entry.rowCount

/-- What a file starts with, and its length. -/
def encodeEnvelope (schemaHash : SchemaHash) (revision : Revision) (writer : SectionWriter)
    (indexProfile : IndexProfile) :
    Except SnapshotIoError
      (List SectionPayload × List SectionDirectoryEntry × Nat × List UInt8) := do
  let relationshipRows ← writer.rowCount .relationshipRows
  let relationshipCount ← checkedU32 relationshipRows
  let symbols ← writer.rowCount .symbolTable
  let symbolCount ← checkedU32 symbols
  let sections ← snapshotSectionsWithFooter writer
  let directory ← sectionDirectory sections
  let fileLen ← directoryFileLen directory
  return (sections, directory, fileLen,
    writeHeader schemaHash relationshipCount symbolCount revision fileLen indexProfile ++
      directory.flatMap writeDirectoryEntry)

/-- The file as it is built before it is compressed: the footer is filled in at the end. -/
def encodeFile (schemaHash : SchemaHash) (revision : Revision) (writer : SectionWriter)
    (indexProfile : IndexProfile) : Except SnapshotIoError (List UInt8) := do
  let (sections, directory, fileLen, envelope) ←
    encodeEnvelope schemaHash revision writer indexProfile
  let bytes := envelope ++ sections.flatMap (·.bytes)
  require (bytes.length = fileLen) (.format "snapshot writer length mismatch")
  let footer ← okOr (directory.find? (fun entry => decide (entry.kind = .footer)))
    (.format "missing footer section")
  let hashed ← okOr (slice bytes 0 footer.offset) (.format "footer offset is invalid")
  let footerEnd ← checkedAddUsize footer.offset footerLen
  require (footerEnd ≤ bytes.length) (.format "footer range is invalid")
  return hashed ++ (Blake3Hash.hash hashed).toList ++ bytes.drop footerEnd

/-- One section after the bytes that were written and hashed so far. -/
def writeHashed (written : List UInt8 × List UInt8) (payload : SectionPayload) :
    List UInt8 × List UInt8 :=
  if payload.kind = .footer then
    (written.1 ++ (Blake3Hash.hash written.2).toList, written.2)
  else (written.1 ++ payload.bytes, written.2 ++ payload.bytes)

/-- The file as it is written without compression: the hash follows the written bytes. -/
def writeUncompressedSnapshotFile (schemaHash : SchemaHash) (revision : Revision)
    (writer : SectionWriter) (indexProfile : IndexProfile) :
    Except SnapshotIoError (List UInt8) := do
  let (sections, _, fileLen, envelope) ←
    encodeEnvelope schemaHash revision writer indexProfile
  let (file, _) := sections.foldl writeHashed (envelope, envelope)
  require (file.length = fileLen) (.format "snapshot writer length mismatch")
  return file

end Hashes

end Snapshot

end SimpleZanzibar
