import SimpleZanzibar.Snapshot.Format

/-!
# The envelope is read as it was written

The directory of a file gives the place of every section, and the reader cuts the sections out
of the file again.  The hash at the end is computed from what was written before it, whether
the file is built in memory or written section by section.

**Results.**
* `encodeFile_eq_writeUncompressedSnapshotFile`: both ways to write a file give the same bytes.
* `parse_written`: the reader finds every section as it was added.
-/

namespace SimpleZanzibar

namespace Snapshot

open ByteCursor

/-! ## Checked numbers and ranges -/

theorem require_of
    {condition : Prop} [Decidable condition] {error : SnapshotIoError}
    (h : condition) :
    require condition error = .ok () :=
  require_eq_ok.mpr h

theorem checkedAddUsize_eq_ok
    {left right sum : Nat} :
    checkedAddUsize left right = .ok sum ↔ left + right ≤ usizeMax ∧ left + right = sum := by
  rw [checkedAddUsize, okOr_eq_ok, checkedAdd]
  split_ifs with h
  · simp [h]
  · simp [h]

theorem checkedMulUsize_eq_ok
    {left right product : Nat} :
    checkedMulUsize left right = .ok product ↔
      left * right ≤ usizeMax ∧ left * right = product := by
  rw [checkedMulUsize]
  split_ifs with h
  · simp [h]
  · simp [h]

theorem checkedU32_eq_ok
    {value result : Nat} :
    checkedU32 value = .ok result ↔ value ≤ u32Max ∧ value = result := by
  rw [checkedU32]
  split_ifs with h
  · simp [h]
  · simp [h]

/-- A range that is cut out where it was put. -/
theorem slice_eq_some
    {α : Type} {before middle after : List α} {start stop : Nat}
    (hstart : before.length = start)
    (hstop : start + middle.length = stop) :
    slice (before ++ middle ++ after) start stop = some middle := by
  subst hstart
  subst hstop
  rw [slice, if_pos ⟨Nat.le_add_right _ _, by simp⟩, List.append_assoc, List.drop_left,
    Nat.add_sub_cancel_left, List.take_left]

/-! ## Places of the sections -/

/-- The bytes of sections that lie one after the other. -/
def sectionBytes (payloads : List SectionPayload) : List UInt8 :=
  payloads.flatMap (·.bytes)

theorem sectionBytes_cons
    (payload : SectionPayload) (rest : List SectionPayload) :
    sectionBytes (payload :: rest) = payload.bytes ++ sectionBytes rest :=
  List.flatMap_cons

@[simp] theorem sectionBytes_append
    (payloads payloads' : List SectionPayload) :
    sectionBytes (payloads ++ payloads') = sectionBytes payloads ++ sectionBytes payloads' :=
  List.flatMap_append

@[simp] theorem sectionBytes_singleton
    (payload : SectionPayload) :
    sectionBytes [payload] = payload.bytes :=
  List.flatMap_singleton _ _

/-- The directory of sections that lie one after the other from an offset on. -/
def placed : Nat → List SectionPayload → List SectionDirectoryEntry
  | _, [] => []
  | offset, payload :: rest =>
      ⟨payload.kind, payload.flags, offset, payload.bytes.length, payload.rowCount⟩ ::
        placed (offset + payload.bytes.length) rest

@[simp] theorem length_placed
    (offset : Nat) (payloads : List SectionPayload) :
    (placed offset payloads).length = payloads.length := by
  induction payloads generalizing offset with
  | nil => rfl
  | cons payload rest ih => simp [placed, ih]

theorem placed_append
    (offset : Nat) (payloads payloads' : List SectionPayload) :
    placed offset (payloads ++ payloads') =
      placed offset payloads ++ placed (offset + (sectionBytes payloads).length) payloads' := by
  induction payloads generalizing offset with
  | nil => rfl
  | cons payload rest ih =>
      simp [placed, ih, sectionBytes_cons, Nat.add_assoc]

theorem placeSections_eq_ok
    {offset : Nat} {payloads : List SectionPayload} {entries : List SectionDirectoryEntry}
    (h : placeSections offset payloads = .ok entries) :
    entries = placed offset payloads ∧
      (payloads ≠ [] → offset + (sectionBytes payloads).length ≤ usizeMax) := by
  induction payloads generalizing offset entries with
  | nil =>
      cases h
      exact ⟨rfl, fun h => absurd rfl h⟩
  | cons payload rest ih =>
      obtain ⟨next, hnext, h⟩ := bind_eq_ok.mp h
      obtain ⟨others, hothers, h⟩ := bind_eq_ok.mp h
      cases h
      obtain ⟨hfits, rfl⟩ := checkedAddUsize_eq_ok.mp hnext
      obtain ⟨rfl, hrest⟩ := ih hothers
      refine ⟨rfl, fun _ => ?_⟩
      rw [sectionBytes_cons, List.length_append]
      cases rest with
      | nil => simpa [sectionBytes] using hfits
      | cons other rest =>
          have hbound := hrest (List.cons_ne_nil _ _)
          omega

/-! ## What is written -/

section Hashes

variable [Blake3Hash]

@[simp] theorem length_schemaHashBytes
    (hash : SchemaHash) :
    (schemaHashBytes hash).length = 32 :=
  Vector.length_toList (n := 32)

@[simp] theorem length_writeHeader
    (schemaHash : SchemaHash) (relationshipCount symbolCount : Nat) (revision : Revision)
    (fileLen : Nat) (indexProfile : IndexProfile) :
    (writeHeader schemaHash relationshipCount symbolCount revision fileLen
      indexProfile).length = headerLen := by
  simp [writeHeader, headerLen, currentFormatVersion, FormatVersion.magic, magicPrefix]

omit [Blake3Hash] in
@[simp] theorem length_writeDirectoryEntry
    (entry : SectionDirectoryEntry) :
    (writeDirectoryEntry entry).length = directoryEntryLen := by
  simp [writeDirectoryEntry, directoryEntryLen]

omit [Blake3Hash] in
@[simp] theorem length_directory
    (directory : List SectionDirectoryEntry) :
    (directory.flatMap writeDirectoryEntry).length = directory.length * directoryEntryLen := by
  induction directory with
  | nil => simp
  | cons entry rest ih =>
      rw [List.flatMap_cons, List.length_append, ih, length_writeDirectoryEntry,
        List.length_cons, Nat.succ_mul, Nat.add_comm]

/-- The sections start behind the directory. -/
def directoryEnd : Nat := headerLen + requiredSectionCount * directoryEntryLen

/-- The footer before the hash is known. -/
def emptyFooter : SectionPayload :=
  ⟨.footer, 0, List.replicate footerLen 0, 1⟩

/-- What a file starts with. -/
def envelopeBytes (schemaHash : SchemaHash) (relationshipCount symbolCount : Nat)
    (revision : Revision) (indexProfile : IndexProfile) (sections : List SectionPayload) :
    List UInt8 :=
  writeHeader schemaHash relationshipCount symbolCount revision
      (directoryEnd + (sectionBytes sections).length) indexProfile ++
    (placed directoryEnd sections).flatMap writeDirectoryEntry

theorem length_envelopeBytes
    {schemaHash : SchemaHash} {relationshipCount symbolCount : Nat} {revision : Revision}
    {indexProfile : IndexProfile} {sections : List SectionPayload}
    (h : sections.length = requiredSectionCount) :
    (envelopeBytes schemaHash relationshipCount symbolCount revision indexProfile
      sections).length = directoryEnd := by
  simp [envelopeBytes, directoryEnd, h]

/-- What the writer computes before it writes the sections. -/
structure Enveloped (schemaHash : SchemaHash) (revision : Revision) (writer : SectionWriter)
    (indexProfile : IndexProfile) (relationshipCount symbolCount : Nat)
    (sections : List SectionPayload) (directory : List SectionDirectoryEntry) (fileLen : Nat)
    (envelope : List UInt8) : Prop where
  rows : writer.rowCount .relationshipRows = .ok relationshipCount
  rows_le : relationshipCount ≤ u32Max
  symbols : writer.rowCount .symbolTable = .ok symbolCount
  symbols_le : symbolCount ≤ u32Max
  sorted : sections = writer.intoSortedSections ++ [emptyFooter]
  required : sections.length = requiredSectionCount
  places : directory = placed directoryEnd sections
  total : fileLen = directoryEnd + (sectionBytes sections).length
  total_le : fileLen ≤ usizeMax
  bytes : envelope = envelopeBytes schemaHash relationshipCount symbolCount revision
    indexProfile sections

theorem encodeEnvelope_eq_ok
    {schemaHash : SchemaHash} {revision : Revision} {writer : SectionWriter}
    {indexProfile : IndexProfile} {sections : List SectionPayload}
    {directory : List SectionDirectoryEntry} {fileLen : Nat} {envelope : List UInt8}
    (h : encodeEnvelope schemaHash revision writer indexProfile =
      .ok (sections, directory, fileLen, envelope)) :
    ∃ relationshipCount symbolCount, Enveloped schemaHash revision writer indexProfile
      relationshipCount symbolCount sections directory fileLen envelope := by
  obtain ⟨relationshipCount, hrelationships, h⟩ := bind_eq_ok.mp h
  obtain ⟨_, hrelationshipCount, h⟩ := bind_eq_ok.mp h
  obtain ⟨symbolCount, hsymbols, h⟩ := bind_eq_ok.mp h
  obtain ⟨_, hsymbolCount, h⟩ := bind_eq_ok.mp h
  obtain ⟨sections', hsections, h⟩ := bind_eq_ok.mp h
  obtain ⟨directory', hdirectory, h⟩ := bind_eq_ok.mp h
  obtain ⟨fileLen', hfileLen, h⟩ := bind_eq_ok.mp h
  cases h
  obtain ⟨hrelationshipCount_le, rfl⟩ := checkedU32_eq_ok.mp hrelationshipCount
  obtain ⟨hsymbolCount_le, rfl⟩ := checkedU32_eq_ok.mp hsymbolCount
  obtain ⟨hlength, hsections⟩ := require_bind_eq_ok.mp hsections
  cases hsections
  obtain ⟨directoryLen, hdirectoryLen, hdirectory⟩ := bind_eq_ok.mp hdirectory
  obtain ⟨nextOffset, hnextOffset, hdirectory⟩ := bind_eq_ok.mp hdirectory
  obtain ⟨_, rfl⟩ := checkedMulUsize_eq_ok.mp hdirectoryLen
  obtain ⟨_, rfl⟩ := checkedAddUsize_eq_ok.mp hnextOffset
  rw [hlength] at hdirectory
  obtain ⟨rfl, hfits⟩ := placeSections_eq_ok hdirectory
  obtain ⟨last, hlast, hfileLen⟩ := bind_eq_ok.mp hfileLen
  have hlastEntry := okOr_eq_ok.mp hlast
  rw [placed_append, placed, placed, List.getLast?_concat] at hlastEntry
  cases hlastEntry
  have htotal : directoryEnd + (sectionBytes (writer.intoSortedSections ++
      [emptyFooter])).length =
        directoryEnd + (sectionBytes writer.intoSortedSections).length + footerLen := by
    simp [emptyFooter, Nat.add_assoc]
  rw [okOr_eq_ok, checkedAdd] at hfileLen
  split at hfileLen
  · next hle =>
      cases hfileLen
      have hlen : directoryEnd + (sectionBytes writer.intoSortedSections).length +
          (List.replicate footerLen (0 : UInt8)).length =
            directoryEnd + (sectionBytes (writer.intoSortedSections ++ [emptyFooter])).length := by
        rw [htotal, List.length_replicate]
      refine ⟨relationshipCount, symbolCount, hrelationships, hrelationshipCount_le, hsymbols,
        hsymbolCount_le, rfl, hlength, rfl, hlen, hle, ?_⟩
      exact congrArg (fun fileLen => writeHeader schemaHash relationshipCount symbolCount revision
        fileLen indexProfile ++ (placed directoryEnd (writer.intoSortedSections ++
          [emptyFooter])).flatMap writeDirectoryEntry) hlen
  · cases hfileLen

/-- The file: the envelope, the sections and the hash of both. -/
def fileBytes (envelope : List UInt8) (sections : List SectionPayload) : List UInt8 :=
  envelope ++ sectionBytes sections ++
    (Blake3Hash.hash (envelope ++ sectionBytes sections)).toList

theorem foldl_writeHashed
    {sections : List SectionPayload}
    (h : ∀ payload ∈ sections, payload.kind ≠ .footer)
    (written hashed : List UInt8) :
    sections.foldl writeHashed (written, hashed) =
      (written ++ sectionBytes sections, hashed ++ sectionBytes sections) := by
  induction sections generalizing written hashed with
  | nil => simp [sectionBytes]
  | cons payload rest ih =>
      obtain ⟨hpayload, hrest⟩ := List.forall_mem_cons.mp h
      rw [List.foldl_cons, writeHashed, if_neg hpayload, ih hrest, sectionBytes_cons]
      simp only [List.append_assoc]

omit [Blake3Hash] in
theorem find?_footer_placed
    {sections : List SectionPayload}
    (h : ∀ payload ∈ sections, payload.kind ≠ .footer)
    (offset : Nat) :
    (placed offset (sections ++ [emptyFooter])).find?
        (fun entry => decide (entry.kind = .footer)) =
      some ⟨.footer, 0, offset + (sectionBytes sections).length, footerLen, 1⟩ := by
  induction sections generalizing offset with
  | nil => simp [placed, emptyFooter, sectionBytes]
  | cons payload rest ih =>
      obtain ⟨hpayload, hrest⟩ := List.forall_mem_cons.mp h
      rw [List.cons_append, placed, List.find?_cons_of_neg (by simpa using hpayload), ih hrest,
        sectionBytes_cons, List.length_append, Nat.add_assoc]

/-- The file that is written section by section. -/
theorem writeUncompressedSnapshotFile_eq
    {schemaHash : SchemaHash} {revision : Revision} {writer : SectionWriter}
    {indexProfile : IndexProfile} {relationshipCount symbolCount : Nat}
    {sections : List SectionPayload} {directory : List SectionDirectoryEntry} {fileLen : Nat}
    {envelope : List UInt8}
    (hfooter : ∀ payload ∈ writer.intoSortedSections, payload.kind ≠ .footer)
    (henvelope : encodeEnvelope schemaHash revision writer indexProfile =
      .ok (sections, directory, fileLen, envelope))
    (h : Enveloped schemaHash revision writer indexProfile relationshipCount symbolCount sections
      directory fileLen envelope) :
    writeUncompressedSnapshotFile schemaHash revision writer indexProfile =
      .ok (fileBytes envelope writer.intoSortedSections) := by
  have hlength : envelope.length = directoryEnd := by
    rw [h.bytes]
    exact length_envelopeBytes h.required
  have hfile : sections.foldl writeHashed (envelope, envelope) =
      (fileBytes envelope writer.intoSortedSections,
        envelope ++ sectionBytes writer.intoSortedSections) := by
    rw [h.sorted, List.foldl_append, foldl_writeHashed hfooter]
    rfl
  have htotal : (fileBytes envelope writer.intoSortedSections).length = fileLen := by
    rw [h.total, h.sorted, fileBytes, sectionBytes_append]
    simp [emptyFooter, footerLen, hlength]
  refine bind_eq_ok.mpr ⟨_, henvelope, ?_⟩
  simp only [hfile]
  exact require_bind_eq_ok.mpr ⟨htotal, rfl⟩

/-- The file that is built in memory. -/
theorem encodeFile_eq
    {schemaHash : SchemaHash} {revision : Revision} {writer : SectionWriter}
    {indexProfile : IndexProfile} {relationshipCount symbolCount : Nat}
    {sections : List SectionPayload} {directory : List SectionDirectoryEntry} {fileLen : Nat}
    {envelope : List UInt8}
    (hfooter : ∀ payload ∈ writer.intoSortedSections, payload.kind ≠ .footer)
    (henvelope : encodeEnvelope schemaHash revision writer indexProfile =
      .ok (sections, directory, fileLen, envelope))
    (h : Enveloped schemaHash revision writer indexProfile relationshipCount symbolCount sections
      directory fileLen envelope) :
    encodeFile schemaHash revision writer indexProfile =
      .ok (fileBytes envelope writer.intoSortedSections) := by
  have hlength : envelope.length = directoryEnd := by
    rw [h.bytes]
    exact length_envelopeBytes h.required
  have hbytes : envelope ++ sections.flatMap (·.bytes) =
      envelope ++ sectionBytes writer.intoSortedSections ++ List.replicate footerLen 0 := by
    rw [h.sorted, List.append_assoc]
    exact congrArg (envelope ++ ·) (sectionBytes_append _ _)
  have hstart : (envelope ++ sectionBytes writer.intoSortedSections).length =
      directoryEnd + (sectionBytes writer.intoSortedSections).length := by
    rw [List.length_append, hlength]
  have hfileLen : fileLen = directoryEnd + (sectionBytes writer.intoSortedSections).length +
      footerLen := by
    rw [h.total, h.sorted, sectionBytes_append]
    simp [emptyFooter, Nat.add_assoc]
  have hend : directoryEnd + (sectionBytes writer.intoSortedSections).length + footerLen ≤
      usizeMax := hfileLen ▸ h.total_le
  have hcut : slice (envelope ++ sectionBytes writer.intoSortedSections ++
      List.replicate footerLen 0) 0
        (directoryEnd + (sectionBytes writer.intoSortedSections).length) =
          some (envelope ++ sectionBytes writer.intoSortedSections) :=
    @slice_eq_some _ [] _ _ 0 _ rfl ((Nat.zero_add _).trans hstart)
  have hrest : (envelope ++ sectionBytes writer.intoSortedSections ++
      List.replicate footerLen 0).drop
        (directoryEnd + (sectionBytes writer.intoSortedSections).length + footerLen) =
          ([] : List UInt8) := by
    refine List.drop_eq_nil_of_le ?_
    rw [List.length_append, hstart, List.length_replicate]
  refine bind_eq_ok.mpr ⟨_, henvelope, ?_⟩
  simp only [hbytes]
  refine require_bind_eq_ok.mpr ⟨?_, bind_eq_ok.mpr
    ⟨⟨.footer, 0, directoryEnd + (sectionBytes writer.intoSortedSections).length, footerLen, 1⟩,
    okOr_eq_ok.mpr ?_, bind_eq_ok.mpr ⟨_, okOr_eq_ok.mpr hcut, bind_eq_ok.mpr ⟨_,
      checkedAddUsize_eq_ok.mpr ⟨hend, rfl⟩, require_bind_eq_ok.mpr ⟨?_, ?_⟩⟩⟩⟩⟩
  · rw [List.length_append, hstart, List.length_replicate, hfileLen]
  · rw [h.places, h.sorted]
    exact find?_footer_placed hfooter directoryEnd
  · rw [List.length_append, hstart, List.length_replicate]
  · rw [hrest]
    simp [fileBytes, pure, Except.pure]

/-- A file without compression is written as it would be built in memory, and fails where that
would fail. -/
theorem encodeFile_eq_writeUncompressedSnapshotFile
    (schemaHash : SchemaHash) (revision : Revision) (writer : SectionWriter)
    (indexProfile : IndexProfile)
    (hfooter : ∀ payload ∈ writer.sections, payload.kind ≠ .footer) :
    encodeFile schemaHash revision writer indexProfile =
      writeUncompressedSnapshotFile schemaHash revision writer indexProfile := by
  have hsorted : ∀ payload ∈ writer.intoSortedSections, payload.kind ≠ .footer :=
    fun payload hmem => hfooter payload ((List.mem_insertionSort _).mp hmem)
  cases henvelope : encodeEnvelope schemaHash revision writer indexProfile with
  | error error =>
      rw [encodeFile, writeUncompressedSnapshotFile, henvelope]
      rfl
  | ok parts =>
      obtain ⟨sections, directory, fileLen, envelope⟩ := parts
      obtain ⟨_, _, h⟩ := encodeEnvelope_eq_ok henvelope
      rw [encodeFile_eq hsorted henvelope h, writeUncompressedSnapshotFile_eq hsorted henvelope h]

/-! ## Reading the header -/

theorem schemaHashFromBytes_schemaHashBytes
    (hash : SchemaHash) :
    schemaHashFromBytes (schemaHashBytes hash) = .ok hash := by
  have hsize : (schemaHashBytes hash).toArray.size = 32 := length_schemaHashBytes hash
  rw [schemaHashFromBytes, dif_pos hsize]
  rfl

omit [Blake3Hash] in
theorem revisionFromRaw_get
    (revision : Revision) :
    revisionFromRaw revision.get = some revision := by
  rw [revisionFromRaw, dif_pos ⟨revision.pos, revision.lt⟩]

omit [Blake3Hash] in
theorem fromFlagBits_flagBits
    (indexProfile : IndexProfile) :
    IndexProfile.fromFlagBits indexProfile.flagBits = .ok indexProfile := by
  cases indexProfile <;> rfl

omit [Blake3Hash] in
theorem flagBits_lt
    (indexProfile : IndexProfile) :
    indexProfile.flagBits < 256 ^ 2 := by
  cases indexProfile <;> decide

omit [Blake3Hash] in
theorem lt_of_le_u32Max
    {value : Nat}
    (h : value ≤ u32Max) :
    value < 256 ^ 4 :=
  Nat.lt_of_le_of_lt h (by decide)

omit [Blake3Hash] in
theorem lt_of_le_usizeMax
    {value : Nat}
    (h : value ≤ usizeMax) :
    value < 256 ^ 8 :=
  Nat.lt_of_le_of_lt h (by decide)

theorem reads_readHeader
    {schemaHash : SchemaHash} {relationshipCount symbolCount : Nat} {revision : Revision}
    {fileLen : Nat} {indexProfile : IndexProfile}
    (hrelationshipCount : relationshipCount ≤ u32Max)
    (hsymbolCount : symbolCount ≤ u32Max)
    (hfileLen : fileLen ≤ usizeMax) :
    Reads (readHeader fileLen)
      (writeHeader schemaHash relationshipCount symbolCount revision fileLen indexProfile)
      ⟨.v3, schemaHash, relationshipCount, symbolCount, revision, indexProfile⟩ := by
  have hrevision : revision.get < 256 ^ 8 := Nat.lt_of_lt_of_le revision.lt (by decide)
  have hmagic : Reads (readArray 8) currentFormatVersion.magic currentFormatVersion.magic :=
    reads_readBytes _ rfl
  simp only [writeHeader, List.append_assoc]
  refine hmagic.bind ?_
  refine (reads_readNat _ (by decide)).bind ?_
  refine Reads.lift_bind rfl ?_
  refine (reads_readNat _ (flagBits_lt indexProfile)).bind ?_
  refine Reads.lift_bind (fromFlagBits_flagBits indexProfile) ?_
  refine (reads_readNat _ (by decide)).bind ?_
  refine Reads.lift_bind (require_of rfl) ?_
  refine (reads_readNat _ (by decide)).bind ?_
  refine Reads.lift_bind (require_of rfl) ?_
  refine (reads_readNat _ (lt_of_le_usizeMax hfileLen)).bind ?_
  refine Reads.lift_bind (require_of rfl) ?_
  refine (reads_readBytes _ (length_schemaHashBytes schemaHash)).bind ?_
  refine Reads.lift_bind (schemaHashFromBytes_schemaHashBytes schemaHash) ?_
  refine (reads_readNat _ (lt_of_le_u32Max hrelationshipCount)).bind ?_
  refine (reads_readNat _ (lt_of_le_u32Max hsymbolCount)).bind ?_
  refine (reads_readNat _ hrevision).bind_last ?_
  refine Reads.lift_bind (okOr_eq_ok.mpr (revisionFromRaw_get revision)) ?_
  exact reads_pure _

theorem parseSectionCount_envelope
    {schemaHash : SchemaHash} {relationshipCount symbolCount : Nat} {revision : Revision}
    {fileLen : Nat} {indexProfile : IndexProfile} (rest : List UInt8) :
    parseSectionCount (writeHeader schemaHash relationshipCount symbolCount revision fileLen
      indexProfile ++ rest) = .ok requiredSectionCount := by
  have hcut : slice (writeHeader schemaHash relationshipCount symbolCount revision fileLen
      indexProfile ++ rest) 16 20 = some (LittleEndian.encode 4 requiredSectionCount) := by
    have hsplit : writeHeader schemaHash relationshipCount symbolCount revision fileLen
        indexProfile ++ rest =
          (currentFormatVersion.magic ++ LittleEndian.encode 2 currentFormatVersion.raw ++
            LittleEndian.encode 2 indexProfile.flagBits ++ LittleEndian.encode 4 headerLen) ++
          LittleEndian.encode 4 requiredSectionCount ++
          (LittleEndian.encode 8 fileLen ++ schemaHashBytes schemaHash ++
            LittleEndian.encode 4 relationshipCount ++ LittleEndian.encode 4 symbolCount ++
            LittleEndian.encode 8 revision.get ++ rest) := by
      simp only [writeHeader, List.append_assoc]
    rw [hsplit]
    refine slice_eq_some ?_ ?_
    · simp [currentFormatVersion, FormatVersion.magic, magicPrefix]
    · simp
  refine bind_eq_ok.mpr ⟨_, okOr_eq_ok.mpr hcut, ?_⟩
  rw [LittleEndian.decode_encode (by decide)]
  rfl

/-! ## Reading the directory -/

/-- What the directory can say about a section. -/
structure SectionPayload.Storable (payload : SectionPayload) : Prop where
  flags_lt : payload.flags < 256 ^ 2
  flags_valid : payload.flags = 0 ∨
    payload.kind = .symbolTable ∨ payload.kind = .relationshipRows ∨ payload.kind = .symbolLookup
  rowCount_lt : payload.rowCount < 256 ^ 8

/-- The entries of sections that lie one after the other from an offset on. -/
def located : Nat → List SectionPayload → List SectionEntry
  | _, [] => []
  | offset, payload :: rest =>
      ⟨payload.kind, ⟨payload.bytes, payload.flags, payload.rowCount⟩, offset,
        payload.bytes.length⟩ :: located (offset + payload.bytes.length) rest

omit [Blake3Hash] in
theorem fromRaw_raw
    (kind : SectionKind) :
    SectionKind.fromRaw kind.raw = .ok kind := by
  cases kind <;> rfl

omit [Blake3Hash] in
theorem raw_lt
    (kind : SectionKind) :
    kind.raw < 256 ^ 2 := by
  cases kind <;> decide

omit [Blake3Hash] in
theorem findSection_eq_none
    {entries : List SectionEntry} {kind : SectionKind}
    (h : kind ∉ entries.map (·.kind)) :
    findSection entries kind = none := by
  rw [findSection, Option.map_eq_none_iff, List.find?_eq_none]
  intro entry hentry
  have hne : entry.kind ≠ kind := fun hkind => h (List.mem_map.mpr ⟨entry, hentry, hkind⟩)
  simpa using hne

omit [Blake3Hash] in
/-- One entry of the directory. -/
theorem reads_readSectionEntry
    {before after : List UInt8} {start : Nat} {payload : SectionPayload}
    {seen : List SectionEntry}
    (hstorable : payload.Storable)
    (hstart : start ≤ before.length)
    (hsize : (before ++ payload.bytes ++ after).length ≤ usizeMax)
    (hseen : payload.kind ∉ seen.map (·.kind)) :
    Reads (readSectionEntry .v3 (before ++ payload.bytes ++ after) start seen)
      (writeDirectoryEntry ⟨payload.kind, payload.flags, before.length, payload.bytes.length,
        payload.rowCount⟩)
      ⟨payload.kind, ⟨payload.bytes, payload.flags, payload.rowCount⟩, before.length,
        payload.bytes.length⟩ := by
  have hflags : validateSectionFlags .v3 payload.kind payload.flags = .ok () :=
    require_eq_ok.mpr (hstorable.flags_valid.imp id (fun h => ⟨rfl, h⟩))
  have hlengths : before.length + payload.bytes.length ≤
      (before ++ payload.bytes ++ after).length := by
    simp
  have hstop := checkedAddUsize_eq_ok.mpr ⟨hlengths.trans hsize, rfl⟩
  simp only [writeDirectoryEntry, List.append_assoc]
  refine (reads_readNat _ (raw_lt payload.kind)).bind ?_
  refine Reads.lift_bind (fromRaw_raw payload.kind) ?_
  refine (reads_readNat _ hstorable.flags_lt).bind ?_
  refine Reads.lift_bind hflags ?_
  refine (reads_readNat _ (lt_of_le_usizeMax (by omega))).bind ?_
  refine (reads_readNat _ (lt_of_le_usizeMax (by omega))).bind ?_
  refine (reads_readNat _ hstorable.rowCount_lt).bind_last ?_
  refine Reads.lift_bind (require_of (by rw [findSection_eq_none hseen]; rfl)) ?_
  refine Reads.lift_bind hstop ?_
  refine Reads.lift_bind (require_of ⟨hstart, by simp⟩) ?_
  refine Reads.lift_bind (okOr_eq_ok.mpr ?_) (reads_pure _)
  rw [← List.append_assoc]
  exact slice_eq_some rfl rfl

omit [Blake3Hash] in
/-- The directory of sections that lie one after the other. -/
theorem reads_readSectionEntries
    {before : List UInt8} {start : Nat} {payloads : List SectionPayload}
    {seen : List SectionEntry}
    (hstorable : ∀ payload ∈ payloads, payload.Storable)
    (hstart : start ≤ before.length)
    (hsize : (before ++ sectionBytes payloads).length ≤ usizeMax)
    (hdistinct : (seen.map (·.kind) ++ payloads.map (·.kind)).Nodup) :
    Reads (readSectionEntries .v3 (before ++ sectionBytes payloads) start payloads.length seen)
      ((placed before.length payloads).flatMap writeDirectoryEntry)
      (seen ++ located before.length payloads) := by
  induction payloads generalizing before seen with
  | nil =>
      rw [located, List.append_nil]
      exact reads_pure seen
  | cons payload rest ih =>
      obtain ⟨hpayload, hrest⟩ := List.forall_mem_cons.mp hstorable
      have hsplit : before ++ sectionBytes (payload :: rest) =
          before ++ payload.bytes ++ sectionBytes rest := by
        rw [sectionBytes_cons, List.append_assoc]
      rw [hsplit] at hsize ⊢
      rw [List.map_cons, List.nodup_append] at hdistinct
      obtain ⟨hseen, hkinds, hdisjoint⟩ := hdistinct
      obtain ⟨hkind, hkinds⟩ := List.nodup_cons.mp hkinds
      have hnew : payload.kind ∉ seen.map (·.kind) :=
        fun hmem => hdisjoint _ hmem _ List.mem_cons_self rfl
      rw [placed, List.flatMap_cons, List.length_cons]
      refine (reads_readSectionEntry hpayload hstart hsize hnew).bind ?_
      have hlength : before.length + payload.bytes.length = (before ++ payload.bytes).length :=
        (List.length_append).symm
      have hnext := @ih (before ++ payload.bytes) (seen ++ [⟨payload.kind,
        ⟨payload.bytes, payload.flags, payload.rowCount⟩, before.length, payload.bytes.length⟩])
        hrest (by rw [← hlength]; omega) hsize (by
          rw [List.map_append, List.append_assoc, List.nodup_append]
          exact ⟨hseen, List.nodup_cons.mpr ⟨hkind, hkinds⟩, hdisjoint⟩)
      rw [List.append_assoc seen] at hnext
      rw [located, hlength]
      exact hnext

/-! ## Reading the file -/

/-- The sections of a file with the hash filled in. -/
def filledSections (envelope : List UInt8) (sections : List SectionPayload) :
    List SectionPayload :=
  sections ++ [⟨.footer, 0, (Blake3Hash.hash (envelope ++ sectionBytes sections)).toList, 1⟩]

theorem fileBytes_eq
    (envelope : List UInt8) (sections : List SectionPayload) :
    fileBytes envelope sections = envelope ++ sectionBytes (filledSections envelope sections) := by
  simp [fileBytes, filledSections, List.append_assoc]

/-- The hash is as long as the empty footer. -/
theorem placed_filledSections
    (offset : Nat) (envelope : List UInt8) (sections : List SectionPayload) :
    placed offset (filledSections envelope sections) =
      placed offset (sections ++ [emptyFooter]) := by
  rw [filledSections, placed_append, placed_append]
  simp [placed, emptyFooter, footerLen]

omit [Blake3Hash] in
theorem findSection_located
    {offset : Nat} {payloads : List SectionPayload} {payload : SectionPayload}
    (hdistinct : (payloads.map (·.kind)).Nodup)
    (hmem : payload ∈ payloads) :
    findSection (located offset payloads) payload.kind =
      some ⟨payload.bytes, payload.flags, payload.rowCount⟩ := by
  induction payloads generalizing offset with
  | nil => cases hmem
  | cons first rest ih =>
      obtain ⟨hfirst, hrest⟩ := List.nodup_cons.mp hdistinct
      rw [findSection, located]
      rcases List.mem_cons.mp hmem with rfl | hmem
      · simp
      · have hne : first.kind ≠ payload.kind := by
          intro hsame
          exact hfirst (List.mem_map.mpr ⟨payload, hmem, hsame.symm⟩)
        have hfound := @ih (offset + first.bytes.length) hrest hmem
        rw [findSection] at hfound
        simpa [hne] using hfound

omit [Blake3Hash] in
/-- Sections that lie one after the other do not overlap. -/
theorem validateDisjoint_located
    {offset previousEnd : Nat} {payloads : List SectionPayload}
    (hprevious : previousEnd ≤ offset)
    (hsize : offset + (sectionBytes payloads).length ≤ usizeMax) :
    validateDisjoint previousEnd (located offset payloads) = .ok () := by
  induction payloads generalizing offset previousEnd with
  | nil => rfl
  | cons payload rest ih =>
      rw [sectionBytes_cons, List.length_append] at hsize
      have hfits : offset + payload.bytes.length ≤ usizeMax := by omega
      refine require_bind_eq_ok.mpr ⟨hprevious, bind_eq_ok.mpr
        ⟨offset + payload.bytes.length, okOr_eq_ok.mpr ?_, ih (Nat.le_refl _) (by omega)⟩⟩
      exact if_pos hfits

omit [Blake3Hash] in
theorem pairwise_located
    (offset : Nat) (payloads : List SectionPayload) :
    (located offset payloads).Pairwise (fun a b => a.offset ≤ b.offset) ∧
      ∀ entry ∈ located offset payloads, offset ≤ entry.offset := by
  induction payloads generalizing offset with
  | nil => exact ⟨List.Pairwise.nil, fun _ h => absurd h List.not_mem_nil⟩
  | cons payload rest ih =>
      obtain ⟨hpairwise, hbound⟩ := ih (offset + payload.bytes.length)
      refine ⟨List.pairwise_cons.mpr ⟨fun entry hentry => ?_, hpairwise⟩, ?_⟩
      · exact Nat.le_trans (Nat.le_add_right _ _) (hbound entry hentry)
      · intro entry hentry
        rcases List.mem_cons.mp hentry with rfl | hentry
        · exact Nat.le_refl _
        · exact Nat.le_trans (Nat.le_add_right _ _) (hbound entry hentry)

omit [Blake3Hash] in
theorem validateNonOverlappingSections_located
    {offset : Nat} {payloads : List SectionPayload}
    (hsize : offset + (sectionBytes payloads).length ≤ usizeMax) :
    validateNonOverlappingSections (located offset payloads) = .ok () := by
  rw [validateNonOverlappingSections, (pairwise_located offset payloads).1.insertionSort_eq]
  exact validateDisjoint_located (Nat.zero_le _) hsize

omit [Blake3Hash] in
/-- Eleven distinct kinds are all of them. -/
theorem mem_kinds_of_length
    {kinds : List SectionKind}
    (hdistinct : kinds.Nodup)
    (hlength : kinds.length = requiredSectionCount)
    (kind : SectionKind) :
    kind ∈ kinds := by
  have hall : ∀ kind : SectionKind, kind ∈ SectionKind.all := by
    intro kind
    cases kind <;> decide
  have hsubperm : kinds.Subperm SectionKind.all :=
    hdistinct.subperm (fun kind _ => hall kind)
  have hperm : kinds.Perm SectionKind.all :=
    hsubperm.perm_of_length_le (by rw [hlength]; decide)
  exact hperm.mem_iff.mpr (hall kind)

/-- The sections that a file can hold: each kind at most once, and the footer not yet. -/
structure SectionWriter.Writable (writer : SectionWriter) : Prop where
  distinct : (writer.sections.map (·.kind)).Nodup
  noFooter : ∀ payload ∈ writer.sections, payload.kind ≠ .footer
  storable : ∀ payload ∈ writer.sections, payload.Storable

/-- What the sections of a written file and the envelope in front of them fulfil. -/
structure LaidOut (schemaHash : SchemaHash) (relationshipCount symbolCount : Nat)
    (revision : Revision) (indexProfile : IndexProfile) (envelope : List UInt8)
    (sections : List SectionPayload) : Prop where
  relationshipCount_le : relationshipCount ≤ u32Max
  symbolCount_le : symbolCount ≤ u32Max
  opened : envelope = envelopeBytes schemaHash relationshipCount symbolCount revision
    indexProfile (sections ++ [emptyFooter])
  required : (sections ++ [emptyFooter]).length = requiredSectionCount
  total_le : directoryEnd + (sectionBytes (sections ++ [emptyFooter])).length ≤ usizeMax
  distinct : ((filledSections envelope sections).map (·.kind)).Nodup
  storable : ∀ payload ∈ filledSections envelope sections, payload.Storable

section LaidOut

variable {schemaHash : SchemaHash} {relationshipCount symbolCount : Nat} {revision : Revision}
  {indexProfile : IndexProfile} {envelope : List UInt8} {sections : List SectionPayload}
  (h : LaidOut schemaHash relationshipCount symbolCount revision indexProfile envelope sections)
include h

theorem LaidOut.length_envelope :
    envelope.length = directoryEnd := by
  rw [h.opened]
  exact length_envelopeBytes h.required

theorem LaidOut.length_filledSections :
    (filledSections envelope sections).length = requiredSectionCount := by
  simpa [filledSections] using h.required

theorem LaidOut.length_file :
    (fileBytes envelope sections).length =
      directoryEnd + (sectionBytes (sections ++ [emptyFooter])).length := by
  have hfilled : (sectionBytes (filledSections envelope sections)).length =
      (sectionBytes (sections ++ [emptyFooter])).length := by
    simp [filledSections, emptyFooter, footerLen]
  rw [fileBytes_eq, List.length_append, h.length_envelope, hfilled]

/-- A file is its header, its directory and its sections. -/
theorem LaidOut.file_eq :
    fileBytes envelope sections =
      writeHeader schemaHash relationshipCount symbolCount revision
        (fileBytes envelope sections).length indexProfile ++
          ((placed directoryEnd (filledSections envelope sections)).flatMap writeDirectoryEntry ++
            sectionBytes (filledSections envelope sections)) := by
  have hopened : envelope = writeHeader schemaHash relationshipCount symbolCount revision
      (fileBytes envelope sections).length indexProfile ++
        (placed directoryEnd (filledSections envelope sections)).flatMap writeDirectoryEntry := by
    rw [h.length_file, placed_filledSections]
    exact h.opened
  calc fileBytes envelope sections
      = envelope ++ sectionBytes (filledSections envelope sections) := fileBytes_eq _ _
    _ = _ := congrArg (· ++ sectionBytes (filledSections envelope sections)) hopened
    _ = _ := List.append_assoc _ _ _

theorem LaidOut.parseHeader_eq :
    parseHeader (fileBytes envelope sections) =
      .ok ⟨.v3, schemaHash, relationshipCount, symbolCount, revision, indexProfile⟩ := by
  have hfits : (fileBytes envelope sections).length ≤ usizeMax := by
    rw [h.length_file]
    exact h.total_le
  have hcut : slice (fileBytes envelope sections) 0 headerLen =
      some (writeHeader schemaHash relationshipCount symbolCount revision
        (fileBytes envelope sections).length indexProfile) :=
    (congrArg (fun bytes => slice bytes 0 headerLen) h.file_eq).trans
      (@slice_eq_some _ [] _ _ 0 _ rfl ((Nat.zero_add _).trans (length_writeHeader _ _ _ _ _ _)))
  have hread := (@reads_readHeader _ schemaHash relationshipCount symbolCount revision
    (fileBytes envelope sections).length indexProfile h.relationshipCount_le h.symbolCount_le
    hfits).apply
  exact bind_eq_ok.mpr ⟨_, okOr_eq_ok.mpr hcut, congrArg Prod.fst hread⟩

theorem LaidOut.parseSectionCount_eq :
    parseSectionCount (fileBytes envelope sections) = .ok requiredSectionCount :=
  (congrArg parseSectionCount h.file_eq).trans (parseSectionCount_envelope _)

theorem LaidOut.slice_directory :
    slice (fileBytes envelope sections) headerLen directoryEnd =
      some ((placed directoryEnd (filledSections envelope sections)).flatMap
        writeDirectoryEntry) := by
  have hstop : headerLen + ((placed directoryEnd (filledSections envelope sections)).flatMap
      writeDirectoryEntry).length = directoryEnd := by
    rw [length_directory, length_placed, h.length_filledSections]
    rfl
  exact (congrArg (fun bytes => slice bytes headerLen directoryEnd)
    (h.file_eq.trans (List.append_assoc _ _ _).symm)).trans
      (slice_eq_some (length_writeHeader _ _ _ _ _ _) hstop)

/-- The directory is read back as the sections where they lie. -/
theorem LaidOut.readSectionEntries_eq :
    (readSectionEntries .v3 (fileBytes envelope sections) directoryEnd requiredSectionCount []
      ((placed directoryEnd (filledSections envelope sections)).flatMap
        writeDirectoryEntry)).1 =
      .ok (located directoryEnd (filledSections envelope sections)) := by
  have hfits : (envelope ++ sectionBytes (filledSections envelope sections)).length ≤
      usizeMax := by
    rw [← fileBytes_eq, h.length_file]
    exact h.total_le
  have hentries := (@reads_readSectionEntries envelope directoryEnd
    (filledSections envelope sections) [] h.storable (Nat.le_of_eq h.length_envelope.symm) hfits
    (by simpa using h.distinct)).apply
  rw [← fileBytes_eq, h.length_envelope, h.length_filledSections, List.nil_append] at hentries
  exact congrArg Prod.fst hentries

theorem LaidOut.validateRequiredSections_eq :
    validateRequiredSections (located directoryEnd (filledSections envelope sections)) =
      .ok () := by
  refine require_of (fun kind _ => ?_)
  obtain ⟨payload, hpayload, rfl⟩ := List.mem_map.mp
    (mem_kinds_of_length h.distinct (by rw [List.length_map, h.length_filledSections]) kind)
  rw [findSection_located h.distinct hpayload]
  rfl

theorem LaidOut.validateNonOverlapping_eq :
    validateNonOverlappingSections (located directoryEnd (filledSections envelope sections)) =
      .ok () := by
  have hlength := h.length_file
  have htotal := h.total_le
  rw [fileBytes_eq, List.length_append, h.length_envelope] at hlength
  exact validateNonOverlappingSections_located (by omega)

/-- The footer is the hash of everything before it. -/
theorem LaidOut.validateFooter_eq (integrity : IntegrityMode) :
    validateFooter (fileBytes envelope sections)
      (located directoryEnd (filledSections envelope sections)) integrity = .ok () := by
  have hfound : findSection (located directoryEnd (filledSections envelope sections)) .footer =
      some ⟨(Blake3Hash.hash (envelope ++ sectionBytes sections)).toList, 0, 1⟩ :=
    findSection_located h.distinct (List.mem_append_right _ List.mem_cons_self)
  have hstart : (fileBytes envelope sections).length - footerLen =
      (envelope ++ sectionBytes sections).length := by
    rw [fileBytes, List.length_append, Vector.length_toList]
    exact Nat.add_sub_cancel _ _
  refine bind_eq_ok.mpr ⟨_, okOr_eq_ok.mpr hfound, require_bind_eq_ok.mpr
    ⟨Vector.length_toList, require_bind_eq_ok.mpr ⟨?_, require_bind_eq_ok.mpr ⟨?_, ?_⟩⟩⟩⟩
  · rw [fileBytes, List.length_append, Vector.length_toList]
    exact Nat.le_add_left _ _
  · rw [hstart, fileBytes, List.drop_left]
  · cases integrity with
    | external => rfl
    | checksum =>
        refine require_of ?_
        rw [hstart, fileBytes, List.take_left]

/-- A file of placed sections is cut into these sections. -/
theorem parse_fileBytes (integrity : IntegrityMode) :
    Reader.parse (fileBytes envelope sections) integrity =
      .ok ⟨⟨.v3, schemaHash, relationshipCount, symbolCount, revision, indexProfile⟩,
        located directoryEnd (filledSections envelope sections)⟩ :=
  bind_eq_ok.mpr ⟨_, h.parseHeader_eq, bind_eq_ok.mpr ⟨_, h.parseSectionCount_eq,
    require_bind_eq_ok.mpr ⟨rfl, bind_eq_ok.mpr ⟨_, checkedMulUsize_eq_ok.mpr ⟨by decide, rfl⟩,
    bind_eq_ok.mpr ⟨_, checkedAddUsize_eq_ok.mpr ⟨by decide, rfl⟩,
    bind_eq_ok.mpr ⟨_, okOr_eq_ok.mpr h.slice_directory,
    bind_eq_ok.mpr ⟨_, h.readSectionEntries_eq,
    bind_eq_ok.mpr ⟨(), h.validateRequiredSections_eq,
    bind_eq_ok.mpr ⟨(), h.validateNonOverlapping_eq,
    bind_eq_ok.mpr ⟨(), h.validateFooter_eq integrity, rfl⟩⟩⟩⟩⟩⟩⟩⟩⟩⟩

end LaidOut

/-- The reader finds every section as it was added, with the counts of the header. -/
theorem parse_written
    {schemaHash : SchemaHash} {revision : Revision} {writer : SectionWriter}
    {indexProfile : IndexProfile} {bytes : List UInt8}
    (hwritable : writer.Writable)
    (h : encodeFile schemaHash revision writer indexProfile = .ok bytes)
    (integrity : IntegrityMode) :
    ∃ reader, Reader.parse bytes integrity = .ok reader ∧
      reader.header.formatVersion = .v3 ∧ reader.header.schemaHash = schemaHash ∧
      reader.header.createdRevision = revision ∧ reader.header.indexProfile = indexProfile ∧
      writer.rowCount .relationshipRows = .ok reader.header.relationshipCount ∧
      writer.rowCount .symbolTable = .ok reader.header.symbolCount ∧
      ∀ payload ∈ writer.sections, reader.section payload.kind =
        .ok ⟨payload.bytes, payload.flags, payload.rowCount⟩ := by
  have hperm : writer.intoSortedSections.Perm writer.sections := List.perm_insertionSort _ _
  have hfooter : ∀ payload ∈ writer.intoSortedSections, payload.kind ≠ .footer :=
    fun payload hmem => hwritable.noFooter payload (hperm.mem_iff.mp hmem)
  obtain ⟨⟨sections, directory, fileLen, envelope⟩, henvelope, _⟩ := bind_eq_ok.mp h
  obtain ⟨relationshipCount, symbolCount, hparts⟩ := encodeEnvelope_eq_ok henvelope
  rw [encodeFile_eq hfooter henvelope hparts] at h
  cases h
  obtain ⟨hrows, hrows_le, hsymbols, hsymbols_le, rfl, hlength, _, rfl, hsize, hbytes⟩ := hparts
  have hdistinct : ((filledSections envelope writer.intoSortedSections).map (·.kind)).Nodup := by
    rw [filledSections, List.map_append, List.nodup_append]
    refine ⟨(hperm.map _).nodup_iff.mpr hwritable.distinct, List.nodup_singleton _, ?_⟩
    intro kind hkind other hother
    obtain ⟨payload, hpayload, rfl⟩ := List.mem_map.mp hkind
    rw [List.mem_singleton.mp hother]
    exact hfooter payload hpayload
  have hstorable : ∀ payload ∈ filledSections envelope writer.intoSortedSections,
      payload.Storable := by
    intro payload hpayload
    rcases List.mem_append.mp hpayload with hpayload | hpayload
    · exact hwritable.storable payload (hperm.mem_iff.mp hpayload)
    · rw [List.mem_singleton.mp hpayload]
      exact ⟨Nat.zero_lt_succ _, .inl rfl, Nat.one_lt_pow (by decide) (by decide)⟩
  have hlaidOut : LaidOut schemaHash relationshipCount symbolCount revision indexProfile envelope
      writer.intoSortedSections :=
    ⟨hrows_le, hsymbols_le, hbytes, hlength, hsize, hdistinct, hstorable⟩
  refine ⟨_, parse_fileBytes hlaidOut integrity, rfl, rfl, rfl, rfl, hrows, hsymbols, ?_⟩
  intro payload hpayload
  exact okOr_eq_ok.mpr (findSection_located hdistinct
    (List.mem_append_left _ (hperm.mem_iff.mpr hpayload)))

end Hashes

end Snapshot

end SimpleZanzibar
