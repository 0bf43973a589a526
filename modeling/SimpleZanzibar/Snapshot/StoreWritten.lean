import SimpleZanzibar.Snapshot.RowsWritten

/-!
# A full load accepts a saved store

The writer adds ten sections: the schema, the four of the symbols, the rows and the four of the
indexes.  The reader finds them in the envelope and takes the symbols, the rows and the indexes
from them.

**Results.**
* `encodeStoreSections_eq_ok`: the sections that are added.
* `decodeStore_written`: a full load of the file gives the symbols and the rows back.
-/

namespace SimpleZanzibar

namespace Snapshot

section Hashed

variable [StoreHasher]

/-- The sections of a store. -/
def storePayloads (store : IndexedRelationshipStore) (layout : EncodingLayout)
    (acceleration : List UInt8 × List UInt8 × Nat) (directory : List UInt8)
    (indexes : IndexBytes) : List SectionPayload :=
  let entries := store.interner.entries
  let pool := entries.flatMap stringBytes
  let table := encodeV3SymbolTable (internedStrings 0 entries) pool.length layout
  let rows := store.liveRowTable.map (fun row => DiskRow.ofRow row.identity)
  let width := snapshotSymbolWidth entries.length layout
  [⟨.symbolBytes, 0, pool, pool.length⟩,
    ⟨.symbolTable, table.2, table.1, entries.length⟩,
    ⟨.symbolHashes, 0, acceleration.1, entries.length⟩,
    ⟨.symbolLookup, acceleration.2.2, acceleration.2.1, entries.length⟩,
    ⟨.relationshipRows, width.flagBits, rows.flatMap (fun row => row.encodeWidth width),
      rows.length⟩,
    ⟨.indexDirectory, 0, directory, IndexKind.all.length⟩,
    ⟨.indexKeys, 0, indexes.keys, indexes.keyCount⟩,
    ⟨.postingRanges, 0, indexes.ranges, indexes.rangeCount⟩,
    ⟨.postingRowIds, 0, indexes.postingRowIds, indexes.postingRowIdCount⟩]

omit [StoreHasher] in
theorem addSectionWithFlags_eq_ok
    {writer result : SectionWriter} {kind : SectionKind} {flags rowCount : Nat}
    {bytes : List UInt8}
    (h : writer.addSectionWithFlags kind flags bytes rowCount = .ok result) :
    result = ⟨writer.sections ++ [⟨kind, flags, bytes, rowCount⟩]⟩ := by
  obtain ⟨_, h⟩ := require_bind_eq_ok.mp h
  cases h
  rfl

/-- What the writer adds for a store. -/
theorem encodeStoreSections_eq_ok
    {store : IndexedRelationshipStore} {writer result : SectionWriter}
    {indexProfile : IndexProfile} {layout : EncodingLayout}
    (h : encodeStoreSections store writer indexProfile layout = .ok result) :
    ∃ acceleration directory indexes,
      (store.interner.entries.flatMap stringBytes).length ≤ u32Max ∧
      store.interner.entries.length ≤ u32Max ∧
      encodeSymbolAcceleration store.interner layout = .ok acceleration ∧
      encodeSnapshotIndexes (store.liveRowTable.map (fun row => DiskRow.ofRow row.identity))
        indexProfile = .ok (directory, indexes) ∧
      result.sections = writer.sections ++
        storePayloads store layout acceleration directory indexes := by
  obtain ⟨poolLen, hpool, h⟩ := bind_eq_ok.mp h
  obtain ⟨hpoolBound, rfl⟩ := checkedU32_eq_ok.mp hpool
  obtain ⟨w₁, h₁, h⟩ := bind_eq_ok.mp h
  obtain ⟨w₂, h₂, h⟩ := bind_eq_ok.mp h
  obtain ⟨⟨hashes, lookup, lookupFlags⟩, hacceleration, h⟩ := bind_eq_ok.mp h
  obtain ⟨w₃, h₃, h⟩ := bind_eq_ok.mp h
  obtain ⟨w₄, h₄, h⟩ := bind_eq_ok.mp h
  obtain ⟨symbolCount, hsymbolCount, h⟩ := bind_eq_ok.mp h
  obtain ⟨hsymbolBound, rfl⟩ := checkedU32_eq_ok.mp hsymbolCount
  obtain ⟨_, _, h⟩ := bind_eq_ok.mp h
  obtain ⟨_, h⟩ := require_bind_eq_ok.mp h
  obtain ⟨w₅, h₅, h⟩ := bind_eq_ok.mp h
  obtain ⟨⟨directory, indexes⟩, hindexes, h⟩ := bind_eq_ok.mp h
  obtain ⟨w₆, h₆, h⟩ := bind_eq_ok.mp h
  obtain ⟨w₇, h₇, h⟩ := bind_eq_ok.mp h
  obtain ⟨w₈, h₈, h⟩ := bind_eq_ok.mp h
  refine ⟨(hashes, lookup, lookupFlags), directory, indexes, hpoolBound, hsymbolBound,
    hacceleration, hindexes, ?_⟩
  rw [addSectionWithFlags_eq_ok h, addSectionWithFlags_eq_ok h₈, addSectionWithFlags_eq_ok h₇,
    addSectionWithFlags_eq_ok h₆, addSectionWithFlags_eq_ok h₅, addSectionWithFlags_eq_ok h₄,
    addSectionWithFlags_eq_ok h₃, addSectionWithFlags_eq_ok h₂, addSectionWithFlags_eq_ok h₁]
  simp only [List.append_assoc, List.cons_append, List.nil_append]
  rfl

omit [StoreHasher] in
theorem symbolTableFlags_lt
    (startWidth lenWidth : KeyWidth) :
    symbolTableFlags startWidth lenWidth < 256 ^ 2 := by
  cases startWidth <;> cases lenWidth <;> decide

omit [StoreHasher] in
theorem KeyWidth.flagBits_lt
    (width : KeyWidth) :
    width.flagBits < 256 ^ 2 := by
  cases width <;> decide

omit [StoreHasher] in
/-- A row keeps its strings when more are interned. -/
theorem RowResolves.of_extends
    {interner interner' : IdentifierInterner} {row : RowIdentity}
    (h : RowResolves interner row)
    (hextends : interner.entries <+: interner'.entries) :
    RowResolves interner' row := by
  have hfield : ∀ {kind : IdentifierKind} {id : SymbolId}, ResolvesAs interner kind id →
      ResolvesAs interner' kind id :=
    fun ⟨identifier, hid⟩ =>
      ⟨identifier, IdentifierInterner.resolve_of_prefix hextends hid⟩
  exact ⟨hfield h.resourceType, hfield h.resourceId, hfield h.relation, hfield h.subjectType,
    hfield h.subjectId, fun relation hrelation => hfield (h.subjectRelation relation hrelation)⟩

omit [StoreHasher] in
/-- The rows of the loaded store are written as those of the saved one. -/
theorem diskRowsOf_eq
    {store : IndexedRelationshipStore} {rows : List RelationshipRow}
    (h : rows.map (·.identity) = store.liveRowTable.map (·.identity)) :
    diskRowsOf rows = diskRowsOf store.liveRowTable := by
  have hmap := congrArg (List.map DiskRow.ofRow) h
  rw [List.map_map, List.map_map] at hmap
  exact hmap

/-- The rows of a store are the fields of distinct relationships. -/
theorem resolves_liveRowTable
    {store : IndexedRelationshipStore}
    (hinv : store.Inv) :
    ∀ row ∈ store.liveRowTable.map (·.identity), RowResolves store.interner row := by
  intro identity hidentity
  obtain ⟨row, hrow, rfl⟩ := List.mem_map.mp hidentity
  obtain ⟨r, hr⟩ := hinv.denotes row (List.mem_filter.mp hrow).1
  exact rowResolves_of_denotes hr

omit [StoreHasher] in
/-- The sections of a saved store can be written. -/
theorem writable_storePayloads
    {store : IndexedRelationshipStore} {layout : EncodingLayout} {schemaBytes : List UInt8}
    {hashes lookup directory : List UInt8} {lookupWidth : KeyWidth} {indexes : IndexBytes}
    (hpool : (store.interner.entries.flatMap stringBytes).length ≤ u32Max)
    (hsymbols : store.interner.entries.length ≤ u32Max)
    (hrows : store.liveRowTable.length ≤ u32Max)
    (hkeys : indexes.keyCount ≤ u32Max)
    (hranges : indexes.rangeCount ≤ u32Max)
    (hpostings : indexes.postingRowIdCount ≤ u32Max) :
    SectionWriter.Writable ⟨⟨.schema, 0, schemaBytes, 1⟩ ::
      storePayloads store layout (hashes, lookup, lookupWidth.flagBits) directory indexes⟩ := by
  have hmax : u32Max < 256 ^ 8 := by decide
  have hcount : ∀ {count : Nat}, count ≤ u32Max → count < 256 ^ 8 :=
    fun h => Nat.lt_of_le_of_lt h hmax
  have hzero : 0 < 256 ^ 2 := by decide
  have hone : 1 < 256 ^ 8 := by decide
  have hkinds : IndexKind.all.length < 256 ^ 8 := by decide
  have hdistinct : [SectionKind.schema, .symbolBytes, .symbolTable, .symbolHashes, .symbolLookup,
      .relationshipRows, .indexDirectory, .indexKeys, .postingRanges, .postingRowIds].Nodup := by
    decide
  refine ⟨hdistinct, by simp [storePayloads], ?_⟩
  simp only [storePayloads, List.forall_mem_cons]
  refine ⟨⟨hzero, .inl rfl, hone⟩, ⟨hzero, .inl rfl, hcount hpool⟩,
    ⟨symbolTableFlags_lt _ _, .inr (.inl rfl), hcount hsymbols⟩,
    ⟨hzero, .inl rfl, hcount hsymbols⟩,
    ⟨KeyWidth.flagBits_lt _, .inr (.inr (.inr rfl)), hcount hsymbols⟩,
    ⟨KeyWidth.flagBits_lt _, .inr (.inr (.inl rfl)), ?_⟩,
    ⟨hzero, .inl rfl, hkinds⟩, ⟨hzero, .inl rfl, hcount hkeys⟩,
    ⟨hzero, .inl rfl, hcount hranges⟩, ⟨hzero, .inl rfl, hcount hpostings⟩,
    fun _ h => absurd h List.not_mem_nil⟩
  rw [List.length_map]
  exact hcount hrows

variable [Blake3Hash]

/-- The sections and the header of a saved store, as the reader finds them. -/
structure StoreSections (reader : Reader) (store : IndexedRelationshipStore)
    (layout : EncodingLayout) (indexProfile : IndexProfile)
    (acceleration : List UInt8 × List UInt8 × Nat) (directory : List UInt8)
    (indexes : IndexBytes) : Prop where
  version : reader.header.formatVersion = .v3
  indexProfile : reader.header.indexProfile = indexProfile
  relationshipCount : reader.header.relationshipCount = store.liveRowTable.length
  symbolCount : reader.header.symbolCount = store.interner.entries.length
  found : ∀ payload ∈ storePayloads store layout acceleration directory indexes,
    reader.section payload.kind = .ok ⟨payload.bytes, payload.flags, payload.rowCount⟩

omit [StoreHasher] in
/-- A reader finds the sections of a saved store. -/
theorem storeSections_written
    {store : IndexedRelationshipStore} {schemaBytes bytes : List UInt8} {writer : SectionWriter}
    {indexProfile : IndexProfile} {layout : EncodingLayout} {schemaHash : SchemaHash}
    {revision : Revision} {acceleration : List UInt8 × List UInt8 × Nat}
    {directory : List UInt8} {indexes : IndexBytes}
    (hwritable : writer.Writable)
    (hsections : writer.sections = [⟨.schema, 0, schemaBytes, 1⟩] ++
      storePayloads store layout acceleration directory indexes)
    (hencode : encodeFile schemaHash revision writer indexProfile = .ok bytes)
    (integrity : IntegrityMode) :
    ∃ reader, Reader.parse bytes integrity = .ok reader ∧
      reader.header.schemaHash = schemaHash ∧ reader.header.createdRevision = revision ∧
      reader.section .schema = .ok ⟨schemaBytes, 0, 1⟩ ∧
      StoreSections reader store layout indexProfile acceleration directory indexes := by
  obtain ⟨reader, hreader, hversion, hhash, hrevision, hprofile, hrowCount, hsymbolCount, hfound⟩ :=
    parse_written hwritable hencode integrity
  have hschema := hfound ⟨.schema, 0, schemaBytes, 1⟩ (by
    rw [hsections]
    exact List.mem_append_left _ (List.mem_singleton_self _))
  refine ⟨reader, hreader, hhash, hrevision, hschema, hversion, hprofile, ?_, ?_,
    fun payload hmem => hfound payload ?_⟩
  · rw [SectionWriter.rowCount, hsections] at hrowCount
    have hcount := Option.some.inj (okOr_eq_ok.mp hrowCount)
    rw [← hcount]
    exact List.length_map _
  · rw [SectionWriter.rowCount, hsections] at hsymbolCount
    exact (Option.some.inj (okOr_eq_ok.mp hsymbolCount)).symm
  · rw [hsections]
    exact List.mem_append_right _ hmem

/-- The rows are read from the section of a saved store. -/
theorem decodeSnapshotRows_sections
    {reader : Reader} {store : IndexedRelationshipStore} {layout : EncodingLayout}
    {indexProfile : IndexProfile} {acceleration : List UInt8 × List UInt8 × Nat}
    {directory : List UInt8} {indexes : IndexBytes} {interner : IdentifierInterner}
    (hinv : store.Inv)
    (h : StoreSections reader store layout indexProfile acceleration directory indexes)
    (hentries : interner.entries = store.interner.entries)
    (hsymbols : store.interner.entries.length ≤ u32Max)
    (hrowsBound : store.liveRowTable.length ≤ u32Max) :
    ∃ rows, decodeSnapshotRows reader interner .full = .ok rows ∧
      rows.map (·.identity) = store.liveRowTable.map (·.identity) ∧
      ∀ row ∈ rows, RowBelow reader.header.symbolCount row.identity := by
  have hextends : store.interner.entries <+: interner.entries := by rw [hentries]
  have hlength : (store.liveRowTable.map (·.identity)).length = store.liveRowTable.length :=
    List.length_map _
  have hdisk : store.liveRowTable.map (fun row => DiskRow.ofRow row.identity) =
      (store.liveRowTable.map (·.identity)).map DiskRow.ofRow := by
    rw [List.map_map]
    rfl
  have hfound := h.found
  simp only [storePayloads, List.forall_mem_cons] at hfound
  obtain ⟨_, _, _, _, hsection, _⟩ := hfound
  rw [hdisk, List.length_map, ← hentries] at hsection
  have hresolves : ∀ row ∈ store.liveRowTable.map (·.identity), RowResolves interner row :=
    fun row hrow => (resolves_liveRowTable hinv row hrow).of_extends hextends
  have hcount : reader.header.symbolCount = interner.entries.length := by
    rw [hentries]
    exact h.symbolCount
  obtain ⟨rows, hrows, hidentities, _⟩ := decodeSnapshotRows_written h.version
    (h.relationshipCount.trans hlength.symm) hcount hresolves hinv.nodup_identities
    (by rwa [hentries]) (by rwa [hlength]) hsection
  refine ⟨rows, hrows, hidentities, fun row hrow => ?_⟩
  have hmem : row.identity ∈ store.liveRowTable.map (·.identity) := by
    rw [← hidentities]
    exact List.mem_map_of_mem hrow
  rw [hcount]
  exact (hresolves row.identity hmem).below

omit [StoreHasher] in
/-- The indexes are read from the sections of a saved store. -/
theorem exists_decode_sections
    {reader : Reader} {store : IndexedRelationshipStore} {layout : EncodingLayout}
    {indexProfile : IndexProfile} {acceleration : List UInt8 × List UInt8 × Nat}
    {directory : List IndexDirectoryEntry} {ranges : List DiskPostingRange}
    {indexes : IndexBytes} {rows : List RelationshipRow}
    (h : StoreSections reader store layout indexProfile acceleration
      (directory.flatMap encodeIndexDirectoryEntry) indexes)
    (hplaced : IndexesPlaced (groupOf indexProfile store.liveRowTable) store.liveRowTable.length
      indexes directory ranges)
    (hrowsBound : store.liveRowTable.length ≤ u32Max)
    (hidentities : rows.map (·.identity) = store.liveRowTable.map (·.identity))
    (hbelow : ∀ row ∈ rows, RowBelow reader.header.symbolCount row.identity) :
    ∃ decoded, DecodedIndexes.decode reader rows .fastLoad .full = .ok decoded := by
  have hlength : rows.length = store.liveRowTable.length := by
    have hsame := congrArg List.length hidentities
    rwa [List.length_map, List.length_map] at hsame
  have hgroups : groupOf indexProfile store.liveRowTable =
      groupOf reader.header.indexProfile rows := by
    funext kind
    rw [groupOf, groupOf, diskRowsOf_eq hidentities, h.indexProfile]
  rw [hgroups, ← hlength] at hplaced
  have hheader : reader.header.relationshipCount = rows.length :=
    h.relationshipCount.trans hlength.symm
  have hfound := h.found
  simp only [storePayloads, List.forall_mem_cons] at hfound
  obtain ⟨_, _, _, _, _, hindexDirectory, hindexKeys, hpostingRanges, hpostingRowIds, _⟩ := hfound
  rw [IndexesPlaced.decode_eq (hheader ▸ hplaced) (fun kind => (encodable_groupOf _ _ kind).ordered)
    (by rwa [h.relationshipCount])
    ⟨h.version, hindexDirectory, hindexKeys, hpostingRanges, hpostingRowIds⟩ rows .fastLoad .full]
  exact exists_decodeAllIndexes
    ⟨rfl, rfl, hheader, by rwa [hlength], hbelow, rfl, rfl, hplaced⟩

/-- A full load of a saved store gives its symbols and its rows back. -/
theorem decodeStore_written
    {store : IndexedRelationshipStore} {schemaBytes bytes : List UInt8} {writer : SectionWriter}
    {indexProfile : IndexProfile} {layout : EncodingLayout} {schemaHash : SchemaHash}
    {revision : Revision}
    (hinv : store.Inv)
    (h : encodeStoreSections store ⟨[⟨.schema, 0, schemaBytes, 1⟩]⟩ indexProfile layout =
      .ok writer)
    (hencode : encodeFile schemaHash revision writer indexProfile = .ok bytes)
    (integrity : IntegrityMode) :
    ∃ reader loaded, Reader.parse bytes integrity = .ok reader ∧
      reader.header.schemaHash = schemaHash ∧ reader.header.createdRevision = revision ∧
      reader.header.indexProfile = indexProfile ∧
      reader.section .schema = .ok ⟨schemaBytes, 0, 1⟩ ∧
      (∀ validation,
        decodeInterner reader validation = .ok (store.interner.reloaded validation)) ∧
      decodeStore reader .fastLoad .full = .ok loaded ∧
      loaded.rowTable.map (·.identity) = store.liveRowTable.map (·.identity) := by
  obtain ⟨⟨hashes, lookup, lookupFlags⟩, directoryBytes, indexes, hpool, hsymbols, hacceleration,
    hindexes, hsections⟩ := encodeStoreSections_eq_ok h
  obtain ⟨lookupWidth, rfl⟩ : ∃ width : KeyWidth, lookupFlags = width.flagBits := by
    obtain ⟨_, _, hparts⟩ := bind_eq_ok.mp hacceleration
    obtain ⟨_, _, hparts⟩ := bind_eq_ok.mp hparts
    cases hparts
    exact ⟨_, rfl⟩
  have hrowsBound : store.liveRowTable.length ≤ u32Max := by
    obtain ⟨_, hcount, _⟩ := bind_eq_ok.mp hindexes
    have hle := (checkedU32_eq_ok.mp hcount).1
    rwa [List.length_map] at hle
  obtain ⟨directory, ranges, rfl, hplaced⟩ := indexesPlaced_of_encode (by
    rw [List.length_map]
    exact encodable_groupOf indexProfile store.liveRowTable) hindexes
  rw [List.length_map] at hplaced
  have hlists := hplaced.lists
  have hwritable : writer.Writable := by
    have hwriter : writer = ⟨writer.sections⟩ := rfl
    rw [hwriter, hsections]
    exact writable_storePayloads hpool hsymbols hrowsBound hlists.keyCount_le
      hlists.rangeCount_le hlists.postingRowIdCount_le
  obtain ⟨reader, hreader, hhash, hrevision, hschema, hfound⟩ :=
    storeSections_written hwritable hsections hencode integrity
  have hpayload := hfound.found
  simp only [storePayloads, List.forall_mem_cons] at hpayload
  obtain ⟨hsymbolBytes, hsymbolTable, hsymbolHashes, hsymbolLookup, _⟩ := hpayload
  have hinterner := decodeInterner_written hinv.interner.nodup
    hfound.version hfound.symbolCount rfl hpool hacceleration hsymbolBytes hsymbolTable
    hsymbolHashes hsymbolLookup
  have hentries := store.interner.entries_reloaded .full
  obtain ⟨rows, hrows, hidentities, hbelow⟩ :=
    decodeSnapshotRows_sections hinv hfound hentries hsymbols hrowsBound
  obtain ⟨decoded, hdecoded⟩ :=
    exists_decode_sections hfound hplaced hrowsBound hidentities hbelow
  exact ⟨reader, _, hreader, hhash, hrevision, hfound.indexProfile, hschema, hinterner,
    bind_eq_ok.mpr ⟨_, hinterner .full, bind_eq_ok.mpr ⟨rows, hrows,
      bind_eq_ok.mpr ⟨decoded, hdecoded, rfl⟩⟩⟩, hidentities⟩

end Hashed

end Snapshot

end SimpleZanzibar
