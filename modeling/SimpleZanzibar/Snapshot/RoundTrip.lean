import SimpleZanzibar.PolicyExport
import SimpleZanzibar.Snapshot.LoadedEngine
import SimpleZanzibar.Snapshot.StoreWritten

/-!
# Saving and loading a snapshot

An engine that is started from a file it has saved continues where the saved engine was.  This
holds after any commands and any earlier restarts, for every index profile, with and without
compression, and for the three ways to load a file.

**Results.**
* `exists_decodeStore`: a store that one load accepts is accepted by the other two.
* `writeUncompressedSnapshotFile_eq_encodeFile`: both ways to write a file give the same bytes.
* `loadSnapshotFile_saved`: what a file that was saved is loaded as.
* `EngineWriter.Reached.sound`: the invariant of the writer over commands and restarts.
* `EngineWriter.saveSnapshot_loadSnapshot`: a restart restores the engine.
-/

namespace SimpleZanzibar

namespace Snapshot

/-! ## The three ways to load a store -/

section Store

variable [Blake3Hash] [StoreHasher]

omit [StoreHasher] in
/-- Indexes that were checked are the same without the checks. -/
theorem decode_trusted
    {reader : Reader} {rows : List RelationshipRow} {indexes : DecodedIndexes}
    (h : DecodedIndexes.decode reader rows .fastLoad .full = .ok indexes) :
    DecodedIndexes.decode reader rows .fastLoad .trustedFastLoad = .ok indexes := by
  obtain ⟨directory, hdirectory, h⟩ := bind_eq_ok.mp h
  obtain ⟨keys, hkeys, h⟩ := bind_eq_ok.mp h
  obtain ⟨ranges, hranges, h⟩ := bind_eq_ok.mp h
  obtain ⟨postings, hpostings, h⟩ := bind_eq_ok.mp h
  obtain ⟨_, hlayout, h⟩ := bind_eq_ok.mp h
  exact bind_eq_ok.mpr ⟨directory, hdirectory, bind_eq_ok.mpr ⟨keys, hkeys,
    bind_eq_ok.mpr ⟨ranges, hranges, bind_eq_ok.mpr ⟨postings, hpostings,
    bind_eq_ok.mpr ⟨(), hlayout, (decodeAllIndexes_agree rfl rfl h).1⟩⟩⟩⟩⟩

/-- What a load puts into a store. -/
theorem decodeStore_parts
    {reader : Reader} {store : IndexedRelationshipStore} {profile : SnapshotLoadProfile}
    {validation : SnapshotValidationMode}
    (h : decodeStore reader profile validation = .ok store) :
    decodeInterner reader validation = .ok store.interner ∧
      DecodedIndexes.decode reader store.rowTable profile validation = .ok (indexesOf store) ∧
      store.indexProfile = reader.header.indexProfile ∧
      ∀ index, store.uniqueness ≠ .ready index := by
  obtain ⟨interner, hinterner, h⟩ := bind_eq_ok.mp h
  obtain ⟨rows, _, h⟩ := bind_eq_ok.mp h
  obtain ⟨indexes, hindexes, h⟩ := bind_eq_ok.mp h
  cases h
  refine ⟨hinterner, hindexes, rfl, fun index hready => ?_⟩
  cases validation <;> cases hready

/-- The store holds the symbols and the rows of another one, with indexes for them. -/
structure Reloads (store loaded : IndexedRelationshipStore) : Prop where
  entries : loaded.interner.entries = store.interner.entries
  rowTable : loaded.rowTable = store.rowTable
  indexProfile : loaded.indexProfile = store.indexProfile
  valid : ValidStore loaded
  inv : loaded.Inv

/-- A full load that keeps the arrays decides about every load that the options allow. -/
theorem exists_decodeStore
    {reader : Reader} {store : IndexedRelationshipStore} {profile : SnapshotLoadProfile}
    {validation : SnapshotValidationMode}
    (h : decodeStore reader .fastLoad .full = .ok store)
    (hmode : ¬(validation = .trustedFastLoad ∧ profile ≠ .fastLoad)) :
    ∃ loaded, decodeStore reader profile validation = .ok loaded ∧ Reloads store loaded := by
  obtain ⟨hvalid, _, _⟩ := decodeStore_full h
  obtain ⟨hinterner, hindexes, hprofile, _⟩ := decodeStore_parts h
  obtain ⟨⟨latency, hlatency, hagree⟩, trusted, htrusted, hagree'⟩ := decodeStore_agree h
  cases validation with
  | full =>
      cases profile with
      | fastLoad => exact ⟨store, h, rfl, rfl, rfl, hvalid, decodeStore_full_inv h⟩
      | latency =>
          obtain ⟨hvalid', _, _⟩ := decodeStore_full hlatency
          obtain ⟨hinterner', _, hprofile', _⟩ := decodeStore_parts hlatency
          have hsame : latency.interner = store.interner :=
            Except.ok.inj (hinterner'.symm.trans hinterner)
          exact ⟨latency, hlatency, congrArg _ hsame, hagree.rowTable.symm,
            hprofile'.trans hprofile.symm, hvalid', decodeStore_full_inv hlatency⟩
  | trustedFastLoad =>
      obtain rfl : profile = .fastLoad := by
        by_contra hslow
        exact hmode ⟨rfl, hslow⟩
      obtain ⟨hinterner', hindexes', hprofile', hready⟩ := decodeStore_parts htrusted
      obtain ⟨_, _, interner', hother, hinv, hentries⟩ := decodeInterner_full hinterner
      obtain rfl : interner' = trusted.interner := Except.ok.inj (hother.symm.trans hinterner')
      have hextends : store.interner.entries <+: trusted.interner.entries := by rw [hentries]
      have hrows : trusted.rowTable = store.rowTable := hagree'.rowTable.symm
      rw [hrows] at hindexes'
      have hsame : indexesOf store = indexesOf trusted :=
        Except.ok.inj ((decode_trusted hindexes).symm.trans hindexes')
      have hvalid' : ValidStore trusted := by
        refine ⟨hinv.nodup, ?_, ?_, ?_, ?_, ?_⟩
        · rw [hrows]
          exact hvalid.rowIds
        · rw [← hagree'.liveRows, hrows]
          exact hvalid.allLive
        · rw [hrows]
          exact fun row hrow => (hvalid.resolves row hrow).of_extends hextends
        · rw [hrows]
          exact hvalid.distinct
        · rw [hrows, ← hsame, hprofile'.trans hprofile.symm]
          exact hvalid.indexes
      exact ⟨trusted, htrusted, hentries, hrows, hprofile'.trans hprofile.symm, hvalid',
        hvalid'.inv hinv hready⟩

omit [Blake3Hash] in
/-- The same symbols and rows are the same relationships. -/
theorem rows_of_identities
    {store loaded : IndexedRelationshipStore}
    (hinv : store.Inv)
    (hvalid : ValidStore loaded)
    (hentries : loaded.interner.entries = store.interner.entries)
    (hidentities : loaded.rowTable.map (·.identity) = store.liveRowTable.map (·.identity)) :
    loaded.rows = store.rows := by
  have htable : loaded.liveRowTable = loaded.rowTable :=
    IndexedRelationshipStore.liveRowTable_full hvalid.allLive hvalid.rowIds
  have hsource : List.Forall₂ (RowIdentity.Denotes store.interner)
      (store.liveRowTable.map (·.identity)) store.rows :=
    List.forall₂_map_left_iff.mpr hinv.rowsDenote
  rw [← hidentities] at hsource
  apply IndexedRelationshipStore.rows_eq_of_rowsDenote
  rw [htable]
  exact (List.forall₂_map_left_iff.mp hsource).imp
    (fun _ _ hdenotes => hdenotes.of_extends (by rw [hentries]))

end Store

/-! ## What a file was written from -/

section File

variable [Blake3Hash] [StoreHasher]

section Save

variable [Zstd]

/-- The parts of a file and the uncompressed bytes of it. -/
structure SavedParts (snapshot : RevisionSnapshot) (text : String) (options : SaveOptions)
    (file bytes : List UInt8) (store : IndexedRelationshipStore) (writer : SectionWriter) :
    Prop where
  textFits : (stringBytes text).length ≤ maxSchemaBytes
  canonicalStore : snapshot.relationships.canonicalStore = .ok store
  sections : encodeStoreSections store ⟨[⟨.schema, 0, stringBytes text, 1⟩]⟩
    options.indexProfile options.sectionLayout = .ok writer
  encoded : encodeFile snapshot.schemaHash snapshot.revision writer options.indexProfile =
    .ok bytes
  stored : options.compression = .none → file = bytes
  compressed : options.compression = .zstd → Zstd.encodeAll options.zstdLevel bytes = some file

omit [Blake3Hash] [Zstd] in
/-- None of the sections is the footer, which the file gets at the end. -/
theorem kind_ne_footer_of_sections
    {store : IndexedRelationshipStore} {schemaBytes : List UInt8} {writer : SectionWriter}
    {indexProfile : IndexProfile} {layout : EncodingLayout}
    (h : encodeStoreSections store ⟨[⟨.schema, 0, schemaBytes, 1⟩]⟩ indexProfile layout =
      .ok writer) :
    ∀ payload ∈ writer.sections, payload.kind ≠ .footer := by
  obtain ⟨_, _, _, _, _, _, _, hsections⟩ := encodeStoreSections_eq_ok h
  rw [hsections]
  simp [storePayloads]

omit [Zstd] in
/-- For every store, the file that is written section by section is the one that is built in
memory, and one fails where the other does. -/
theorem writeUncompressedSnapshotFile_eq_encodeFile
    (store : IndexedRelationshipStore) (schemaBytes : List UInt8) (indexProfile : IndexProfile)
    (layout : EncodingLayout) (schemaHash : SchemaHash) (revision : Revision) :
    (encodeStoreSections store ⟨[⟨.schema, 0, schemaBytes, 1⟩]⟩ indexProfile layout >>=
        fun writer => writeUncompressedSnapshotFile schemaHash revision writer indexProfile) =
      (encodeStoreSections store ⟨[⟨.schema, 0, schemaBytes, 1⟩]⟩ indexProfile layout >>=
        fun writer => encodeFile schemaHash revision writer indexProfile) := by
  cases hwriter : encodeStoreSections store ⟨[⟨.schema, 0, schemaBytes, 1⟩]⟩ indexProfile
      layout with
  | error error => rfl
  | ok writer =>
      have hfooter := kind_ne_footer_of_sections hwriter
      exact (encodeFile_eq_writeUncompressedSnapshotFile _ _ _ _ hfooter).symm

theorem saveSnapshotFile_eq_ok
    {listing : MapListing} {snapshot : RevisionSnapshot} {options : SaveOptions}
    {file : List UInt8}
    (h : saveSnapshotFile listing snapshot options = .ok file) :
    ∃ bytes store writer, SavedParts snapshot (canonicalSchemaSource listing snapshot.configs)
      options file bytes store writer := by
  obtain ⟨_, h⟩ := require_bind_eq_ok.mp h
  obtain ⟨_, _, h⟩ := bind_eq_ok.mp h
  obtain ⟨htext, h⟩ := require_bind_eq_ok.mp h
  obtain ⟨schemaWriter, hschemaWriter, h⟩ := bind_eq_ok.mp h
  obtain ⟨store, hstore, h⟩ := bind_eq_ok.mp h
  obtain ⟨writer, hwriter, h⟩ := bind_eq_ok.mp h
  rw [addSectionWithFlags_eq_ok hschemaWriter] at hwriter
  have hfooter := kind_ne_footer_of_sections hwriter
  cases hcompression : options.compression with
  | none =>
      rw [hcompression] at h
      have hencoded := (encodeFile_eq_writeUncompressedSnapshotFile _ _ _ _ hfooter).trans h
      refine ⟨file, store, writer, htext, mapError_eq_ok hstore, hwriter, hencoded,
        fun _ => rfl, fun hzstd => ?_⟩
      cases hcompression.symm.trans hzstd
  | zstd =>
      rw [hcompression] at h
      obtain ⟨bytes, hbytes, h⟩ := bind_eq_ok.mp h
      refine ⟨bytes, store, writer, htext, mapError_eq_ok hstore, hwriter, hbytes,
        fun hnone => ?_, fun _ => okOr_eq_ok.mp h⟩
      cases hcompression.symm.trans hnone

end Save

omit [Blake3Hash] [StoreHasher] in
/-- What is read within the limit are the bytes that were compressed. -/
theorem decodeZstdBounded_encodeAll
    [LawfulZstd] {level : Int} {bytes file payload : List UInt8} {maxFileBytes : NonZeroU64}
    (hencoded : Zstd.encodeAll level bytes = some file)
    (h : decodeZstdBounded file maxFileBytes = .ok payload) :
    payload = bytes := by
  obtain ⟨readLimit, hlimit, h⟩ := bind_eq_ok.mp h
  obtain ⟨output, houtput, h⟩ := bind_eq_ok.mp h
  obtain ⟨hfits, h⟩ := require_bind_eq_ok.mp h
  cases h
  have hread := LawfulZstd.readToEnd_encodeAll level bytes file readLimit hencoded
  have htaken : payload = bytes.take readLimit :=
    Option.some.inj ((okOr_eq_ok.mp houtput).symm.trans hread)
  have hreadLimit : readLimit = maxFileBytes.get + 1 := by
    have hsum := okOr_eq_ok.mp hlimit
    unfold checkedAdd at hsum
    split_ifs at hsum with hroom
    exact (Option.some.inj hsum).symm
  rw [htaken, List.length_take] at hfits
  rw [htaken, List.take_of_length_le (by omega)]

/-- A file is read back within the limits. -/
theorem readDecodePayload_saved
    [LawfulZstd] {snapshot : RevisionSnapshot} {text : String} {saveOptions : SaveOptions}
    {file bytes payload : List UInt8} {store : IndexedRelationshipStore} {writer : SectionWriter}
    {loadOptions : LoadOptions}
    (hsaved : SavedParts snapshot text saveOptions file bytes store writer)
    (hcompression : loadOptions.compression = saveOptions.compression)
    (h : readDecodePayload file loadOptions = .ok payload) :
    payload = bytes := by
  obtain ⟨_, h⟩ := require_bind_eq_ok.mp h
  cases hsave : saveOptions.compression with
  | none =>
      rw [hcompression, hsave] at h
      cases h
      exact hsaved.stored hsave
  | zstd =>
      rw [hcompression, hsave] at h
      exact decodeZstdBounded_encodeAll (hsaved.compressed hsave) h

omit [Blake3Hash] [StoreHasher] in
/-- Configurations that are entered into an empty map can be listed as they were. -/
theorem exists_listing
    {listing : MapListing} {configs : List NamespaceConfig} {schema : CompiledSchema}
    (h : compileLegacyConfigs listing configs = .ok schema) :
    ∃ listing' : MapListing, compileLegacyConfigs listing' (listing'.namespaces
      (WriterState.insertConfigs ∅ configs)) = .ok schema := by
  classical
  have hvalues := values_insertConfigs_perm ∅ (nodup_names_of_compile h)
    (fun _ _ => AList.notMem_empty _)
  let inOrder := Function.update listing.namespaces (WriterState.insertConfigs ∅ configs) configs
  have hperm : ∀ map, (inOrder map).Perm (map.entries.map (·.2)) := by
    intro map
    by_cases hmap : map = WriterState.insertConfigs ∅ configs
    · rw [hmap, show inOrder _ = configs from Function.update_self _ _ _]
      exact hvalues.symm
    · rw [show inOrder map = listing.namespaces map from Function.update_of_ne hmap _ _]
      exact listing.namespaces_perm map
  refine ⟨⟨inOrder, listing.relations, hperm, listing.relations_perm⟩, ?_⟩
  have hlisted : inOrder (WriterState.insertConfigs ∅ configs) = configs :=
    Function.update_self _ _ _
  exact (congrArg (compileLegacyConfigs _) hlisted).trans h

/-- What the load of a saved snapshot is: the same revision, the same schema under the same hash
and with the same text, the same relationships in the same order, and a store with exact indexes
of the saved profile. -/
structure Restores (saved : RevisionSnapshot) (text : String) (indexProfile : IndexProfile)
    (loaded : RevisionSnapshot) : Prop where
  revision : loaded.revision = saved.revision
  schemaHash : loaded.schemaHash = saved.schemaHash
  schema : saved.schema.Same Eq loaded.schema
  schemaText : ∀ listing, canonicalSchemaSource listing loaded.configs = text
  compiled : ∃ listing : MapListing,
    compileLegacyConfigs listing (listing.namespaces loaded.configs) = .ok loaded.schema
  rows : loaded.relationships.rows = saved.relationships.rows
  stored : ∃ store, loaded.relationships = .fromCheckpoint store ∧ store.Inv ∧
    store.indexProfile = indexProfile ∧ ValidStore store

/-- What a snapshot has to satisfy for its file to be loaded. -/
structure Loadable (snapshot : RevisionSnapshot) : Prop where
  relationships : snapshot.relationships.Inv
  compiled : ∃ listing : MapListing,
    compileLegacyConfigs listing (listing.namespaces snapshot.configs) = .ok snapshot.schema
  schemaHash : snapshot.schemaHash = SchemaHash.forSchema snapshot.schema

/-- How a file that was saved is loaded: the schema of its text, and the store of its
sections. -/
structure LoadedParts (saved : RevisionSnapshot) (listing listing' : MapListing)
    (saveOptions : SaveOptions) (loadOptions : LoadOptions) (source : IndexedRelationshipStore)
    (reader : Reader) (full store : IndexedRelationshipStore) (schema : CompiledSchema) :
    Prop where
  canonicalStore : saved.relationships.canonicalStore = .ok source
  mode : ¬(loadOptions.validation = .trustedFastLoad ∧ loadOptions.profile ≠ .fastLoad)
  indexProfile : reader.header.indexProfile = saveOptions.indexProfile
  interner : ∀ validation,
    decodeInterner reader validation = .ok (source.interner.reloaded validation)
  fullStore : decodeStore reader .fastLoad .full = .ok full
  loadedStore : decodeStore reader loadOptions.profile loadOptions.validation = .ok store
  reloads : Reloads full store
  identities : full.rowTable.map (·.identity) = source.liveRowTable.map (·.identity)
  compiled : compileLegacyConfigs listing' (saved.configs.refiled listing) = .ok schema
  same : saved.schema.Same Eq schema

/-- A file that was saved is loaded, whatever its options. -/
theorem loadSnapshotFile_parts
    [LawfulZstd] {listing : MapListing} {saved : RevisionSnapshot}
    {saveOptions : SaveOptions} {loadOptions : LoadOptions} {file : List UInt8}
    (hloadable : Loadable saved)
    (hsave : saveSnapshotFile listing saved saveOptions = .ok file)
    (hoptions : validateLoadOptions loadOptions = .ok ())
    (hcompression : loadOptions.compression = saveOptions.compression)
    (hprofile : saveOptions.indexProfile.satisfies loadOptions.requiredIndexProfile = true)
    (hfits : (readDecodePayload file loadOptions).isOk = true)
    (listing' : MapListing) :
    ∃ source reader full store schema,
      LoadedParts saved listing listing' saveOptions loadOptions source reader full store schema ∧
      loadSnapshotFile listing' file loadOptions =
        .ok ⟨⟨schema, .fromCheckpoint store⟩, saved.revision, SchemaHash.forSchema schema,
          WriterState.insertConfigs ∅ (saved.configs.refiled listing)⟩ := by
  obtain ⟨bytes, store, writer, hparts⟩ := saveSnapshotFile_eq_ok hsave
  obtain ⟨payload, hpayload⟩ : ∃ payload, readDecodePayload file loadOptions = .ok payload := by
    cases hread : readDecodePayload file loadOptions with
    | error error =>
        rw [hread] at hfits
        cases hfits
    | ok payload => exact ⟨payload, rfl⟩
  obtain rfl := readDecodePayload_saved hparts hcompression hpayload
  have hwritable := hloadable.relationships.canonicalStore
  rw [hparts.canonicalStore] at hwritable
  obtain ⟨reader, full, hreader, hhash, hrevision, hindexProfile, hschema, hinterner, hfull,
    hidentities⟩ := decodeStore_written hwritable.1.inv hparts.sections hparts.encoded
      loadOptions.integrity
  have hmode := (require_bind_eq_ok.mp hoptions).1
  obtain ⟨store', hstore', hreloads⟩ := exists_decodeStore hfull hmode
  obtain ⟨_, hcompile⟩ := hloadable.compiled
  obtain ⟨schema, hread, hsame⟩ := compileLegacyConfigs_read hcompile listing listing'
  have hhashes : SchemaHash.forSchema saved.schema = SchemaHash.forSchema schema :=
    forSchema_eq_of_same hcompile hread hsame
  have hparsed : parseReader payload loadOptions = .ok reader := by
    refine bind_eq_ok.mpr ⟨reader, hreader, require_bind_eq_ok.mpr ⟨?_, rfl⟩⟩
    rw [hindexProfile]
    exact hprofile
  have htext : schemaText reader = .ok (canonicalSchemaSource listing saved.configs) :=
    bind_eq_ok.mpr ⟨_, hschema, require_bind_eq_ok.mpr
      ⟨hparts.textFits, okOr_eq_ok.mpr (decodeUtf8_stringBytes _)⟩⟩
  have hcompiled : compileSnapshotSchema listing' reader =
      .ok (saved.configs.refiled listing, schema, SchemaHash.forSchema schema) := by
    have hparse := parseDsl_export hcompile listing
    refine bind_eq_ok.mpr ⟨canonicalSchemaSource listing saved.configs, by rw [htext]; rfl,
      bind_eq_ok.mpr ⟨saved.configs.refiled listing, by rw [hparse]; rfl, bind_eq_ok.mpr
      ⟨schema, by rw [hread]; rfl, bind_eq_ok.mpr ⟨(), ?_, rfl⟩⟩⟩⟩
    have hmatches : SchemaHash.forSchema schema = reader.header.schemaHash := by
      rw [hhash, hloadable.schemaHash, hhashes]
    rw [require_of hmatches]
    rfl
  refine ⟨store, reader, full, store', schema, ⟨hparts.canonicalStore, hmode, hindexProfile,
    hinterner, hfull, hstore', hreloads, hidentities, hread, hsame⟩, ?_⟩
  rw [← hrevision]
  exact bind_eq_ok.mpr ⟨(), by rw [hoptions]; rfl, bind_eq_ok.mpr
    ⟨payload, by rw [hpayload]; rfl, bind_eq_ok.mpr ⟨reader, by rw [hparsed]; rfl, bind_eq_ok.mpr
    ⟨_, hcompiled, bind_eq_ok.mpr ⟨store', by rw [hstore']; rfl, rfl⟩⟩⟩⟩⟩

/-- The store of a file holds the relationships that were saved. -/
theorem LoadedParts.rows
    {saved : RevisionSnapshot} {listing listing' : MapListing} {saveOptions : SaveOptions}
    {loadOptions : LoadOptions} {source full store : IndexedRelationshipStore} {reader : Reader}
    {schema : CompiledSchema}
    (h : LoadedParts saved listing listing' saveOptions loadOptions source reader full store
      schema)
    (hinv : saved.relationships.Inv) :
    store.rows = saved.relationships.rows := by
  have houtcome := hinv.canonicalStore
  rw [h.canonicalStore] at houtcome
  obtain ⟨hwritable, hrows⟩ := houtcome
  have hentries : full.interner.entries = source.interner.entries := by
    rw [Except.ok.inj ((decodeStore_parts h.fullStore).1.symm.trans (h.interner .full))]
    exact source.interner.entries_reloaded .full
  rw [← hrows]
  apply rows_of_identities hwritable.inv h.reloads.valid (h.reloads.entries.trans hentries)
  rw [h.reloads.rowTable]
  exact h.identities

/-- A file that was saved is loaded. -/
theorem loadSnapshotFile_saved
    [LawfulZstd] {listing : MapListing} {saved : RevisionSnapshot}
    {saveOptions : SaveOptions} {loadOptions : LoadOptions} {file : List UInt8}
    (hloadable : Loadable saved)
    (hsave : saveSnapshotFile listing saved saveOptions = .ok file)
    (hoptions : validateLoadOptions loadOptions = .ok ())
    (hcompression : loadOptions.compression = saveOptions.compression)
    (hprofile : saveOptions.indexProfile.satisfies loadOptions.requiredIndexProfile = true)
    (hfits : (readDecodePayload file loadOptions).isOk = true)
    (listing' : MapListing) :
    ∃ loaded, loadSnapshotFile listing' file loadOptions = .ok loaded ∧
      Restores saved (canonicalSchemaSource listing saved.configs) saveOptions.indexProfile
        loaded := by
  obtain ⟨source, reader, full, store, schema, hparts, hload⟩ := loadSnapshotFile_parts hloadable
    hsave hoptions hcompression hprofile hfits listing'
  obtain ⟨_, hcompile⟩ := hloadable.compiled
  refine ⟨_, hload, rfl, ?_, hparts.same, fun listing'' => ?_, exists_listing hparts.compiled,
    hparts.rows hloadable.relationships, store, rfl, hparts.reloads.inv, ?_, hparts.reloads.valid⟩
  · rw [hloadable.schemaHash]
    exact (forSchema_eq_of_same hcompile hparts.compiled hparts.same).symm
  · exact canonicalSchemaSource_refiled (namesDistinct_of_compile hcompile) listing listing''
  · rw [hparts.reloads.indexProfile, (decodeStore_full hparts.fullStore).2.2]
    exact hparts.indexProfile

/-- A load that succeeds has read the file, and the profile of the file is enough for it. -/
theorem fits_of_load
    [LawfulZstd] {listing listing' : MapListing} {saved loaded : RevisionSnapshot}
    {saveOptions : SaveOptions} {loadOptions : LoadOptions} {file : List UInt8}
    (hloadable : Loadable saved)
    (hsave : saveSnapshotFile listing saved saveOptions = .ok file)
    (hcompression : loadOptions.compression = saveOptions.compression)
    (hload : loadSnapshotFile listing' file loadOptions = .ok loaded) :
    validateLoadOptions loadOptions = .ok () ∧
      saveOptions.indexProfile.satisfies loadOptions.requiredIndexProfile = true ∧
      (readDecodePayload file loadOptions).isOk = true := by
  obtain ⟨payload, reader, _, _, _, hoptions, hpayload, hparsed, _⟩ := loadSnapshotFile_eq_ok hload
  obtain ⟨bytes, store, writer, hparts⟩ := saveSnapshotFile_eq_ok hsave
  obtain rfl := readDecodePayload_saved hparts hcompression hpayload
  have houtcome := hloadable.relationships.canonicalStore
  rw [hparts.canonicalStore] at houtcome
  obtain ⟨reader', _, hreader', _, _, hindexProfile, _⟩ := decodeStore_written houtcome.1.inv
    hparts.sections hparts.encoded loadOptions.integrity
  obtain ⟨_, hreader, hparsed⟩ := bind_eq_ok.mp hparsed
  obtain ⟨hsatisfies, hparsed⟩ := require_bind_eq_ok.mp hparsed
  cases hparsed
  cases hreader.symm.trans hreader'
  rw [hindexProfile] at hsatisfies
  refine ⟨hoptions, hsatisfies, ?_⟩
  rw [hpayload]
  rfl

end File

end Snapshot

/-! ## Restarts -/

namespace EngineWriter

open Snapshot

variable [Blake3Hash] [StoreHasher]

/-- An engine that was started empty, or from a file that such an engine has saved, and the
commands that it has run since. -/
inductive Reached [Zstd] : EngineWriter → Prop
  | new
      (datastoreId : DatastoreId) (retainedSnapshots : ℕ+)
      (evaluationLimits : EvaluationLimits) :
      Reached (new datastoreId retainedSnapshots evaluationLimits)
  | run
      {writer : EngineWriter}
      (before : Reached writer)
      (listing : MapListing) (command : EngineCommand) :
      Reached (command.run listing writer).2
  | restart
      {writer restarted : EngineWriter} {file : List UInt8} {listing listing' : MapListing}
      {saveOptions : SaveOptions} {loadOptions : LoadOptions} {datastoreId : DatastoreId}
      {evaluationLimits : EvaluationLimits}
      (before : Reached writer)
      (hsave : writer.saveSnapshot listing saveOptions = .ok file)
      (hcompression : loadOptions.compression = saveOptions.compression)
      (hload : loadSnapshot datastoreId evaluationLimits listing' file loadOptions =
        .ok restarted) :
      Reached restarted

omit [Blake3Hash] [StoreHasher] in
theorem Reached.runAll
    [Blake3Hash] [StoreHasher] [Zstd] {writer : EngineWriter}
    (h : writer.Reached)
    (commands : List (MapListing × EngineCommand)) :
    (EngineCommand.runAll commands writer).Reached := by
  induction commands generalizing writer with
  | nil => exact h
  | cons entry rest ih => exact ih (.run h entry.1 entry.2)

/-- What an engine saves is its latest snapshot. -/
theorem Sound.saveSnapshot_eq_ok
    [Zstd] {writer : EngineWriter} {listing : MapListing} {options : SaveOptions}
    {file : List UInt8}
    (hsound : writer.Sound)
    (h : writer.saveSnapshot listing options = .ok file) :
    ∃ saved, writer.Latest saved ∧ Loadable saved ∧
      saveSnapshotFile listing saved options = .ok file := by
  cases hschema : writer.schema with
  | none =>
      rw [hsound.unpublished hschema] at h
      cases h
  | some schema =>
      obtain ⟨saved, hlatest⟩ := hsound.latest schema hschema
      rw [saveSnapshot, hlatest.current] at h
      refine ⟨saved, hlatest, ⟨?_, ?_, hlatest.schemaHash⟩, h⟩
      · rw [hlatest.relationships]
        exact hsound.coherent.relationships
      · rw [hlatest.configs]
        exact hsound.coherent.compiled saved.schema hlatest.schema

/-- The engine that starts from a restored snapshot satisfies the invariant. -/
theorem Sound.restart
    [Zstd] {writer restarted : EngineWriter} {saved loaded : RevisionSnapshot} {text : String}
    {indexProfile : IndexProfile}
    (hsound : writer.Sound)
    (hlatest : writer.Latest saved)
    (hrestores : Restores saved text indexProfile loaded)
    (hloaded : restarted.Latest loaded)
    (hhistory : restarted.snapshotHistory = [loaded])
    (hretained : restarted.retainedSnapshots = ⟨1, Nat.one_pos⟩) :
    restarted.Sound := by
  obtain ⟨listing, hcompile⟩ := hsound.coherent.compiled saved.schema hlatest.schema
  obtain ⟨listing', hcompile'⟩ := hrestores.compiled
  obtain ⟨store, hstore, hinv, _⟩ := hrestores.stored
  have hschema : ∀ {schema}, restarted.schema = some schema → schema = loaded.schema :=
    fun h => Option.some.inj (h.symm.trans hloaded.schema)
  refine ⟨⟨?_, ?_, ?_, ?_, ?_, ?_⟩, fun _ _ => ⟨loaded, hloaded⟩, fun hnone => ?_⟩
  · rw [← hloaded.relationships, hstore]
    exact RelationshipStoreView.inv_fromCheckpoint hinv
  · intro schema h
    rw [hschema h, ← hloaded.configs]
    exact ⟨listing', hcompile'⟩
  · intro schema h r hr
    rw [hschema h]
    rw [← hloaded.relationships, hrestores.rows, hlatest.relationships] at hr
    exact CompiledSchema.validateRelationship_of_same (WriterState.accepted_of_compile hcompile)
      (WriterState.accepted_of_compile hcompile') hrestores.schema
      (hsound.coherent.valid saved.schema hlatest.schema r hr)
  · rw [hhistory, hretained]
    exact Nat.le_refl 1
  · rw [hhistory]
    exact List.isChain_singleton loaded
  · intro snapshot hlast
    rw [hloaded.history] at hlast
    rw [hloaded.revision, Option.some.inj hlast]
  · cases hnone.symm.trans hloaded.schema

/-- The invariant of the writer holds across commands and restarts. -/
theorem Reached.sound
    [LawfulZstd] {writer : EngineWriter}
    (h : writer.Reached) :
    writer.Sound := by
  induction h with
  | new datastoreId retainedSnapshots evaluationLimits => exact sound_new _ _ _
  | run _ listing command hsound => exact hsound.run listing command
  | @restart writer restarted file listing listing' saveOptions loadOptions datastoreId limits _
      hsave hcompression hload hsound =>
      obtain ⟨saved, hlatest, hloadable, hfile⟩ := hsound.saveSnapshot_eq_ok hsave
      obtain ⟨loaded, hloadFile, hloaded, hhistory, hretained⟩ := loadSnapshot_eq_ok hload
      obtain ⟨hoptions, hprofile, hfits⟩ := fits_of_load hloadable hfile hcompression hloadFile
      obtain ⟨loaded', hloadFile', hrestores⟩ := loadSnapshotFile_saved hloadable hfile
        hoptions hcompression hprofile hfits listing'
      cases hloadFile.symm.trans hloadFile'
      exact hsound.restart hlatest hrestores hloaded hhistory hretained

/-- Whatever commands and restarts have led to an engine, a file that it saves is loaded under
every choice of options that the file fits, and the engine that starts from it has the
revision, the schema, its hash and its text, the relationships in their order, exact indexes of
the saved profile, and satisfies the invariant of the writer. -/
theorem saveSnapshot_loadSnapshot
    [LawfulZstd] (writer : EngineWriter) (datastoreId : DatastoreId)
    (evaluationLimits : EvaluationLimits) (listing listing' : MapListing)
    (saveOptions : SaveOptions) (loadOptions : LoadOptions) (file : List UInt8)
    (hreached : writer.Reached)
    (hsave : writer.saveSnapshot listing saveOptions = .ok file)
    (hoptions : validateLoadOptions loadOptions = .ok ())
    (hcompression : loadOptions.compression = saveOptions.compression)
    (hprofile : saveOptions.indexProfile.satisfies loadOptions.requiredIndexProfile = true)
    (hfits : (readDecodePayload file loadOptions).isOk = true) :
    ∃ saved loaded restarted, writer.Latest saved ∧
      loadSnapshot datastoreId evaluationLimits listing' file loadOptions = .ok restarted ∧
      restarted.Latest loaded ∧ restarted.Inv ∧
      Restores saved (canonicalSchemaSource listing writer.configs) saveOptions.indexProfile
        loaded := by
  have hsound := hreached.sound
  obtain ⟨saved, hlatest, hloadable, hfile⟩ := hsound.saveSnapshot_eq_ok hsave
  obtain ⟨loaded, hloadFile, hrestores⟩ := loadSnapshotFile_saved hloadable hfile
    hoptions hcompression hprofile hfits listing'
  have hload : loadSnapshot datastoreId evaluationLimits listing' file loadOptions = .ok _ :=
    bind_eq_ok.mpr ⟨loaded, hloadFile, rfl⟩
  obtain ⟨loaded', hloadFile', hloaded, hhistory, hretained⟩ := loadSnapshot_eq_ok hload
  cases hloadFile.symm.trans hloadFile'
  have hinv := (hsound.restart hlatest hrestores hloaded hhistory hretained).inv
  rw [hlatest.configs] at hrestores
  exact ⟨saved, loaded, _, hlatest, hload, hloaded, hinv, hrestores⟩

/-- Decoding what was stored gives it back. -/
@[reducible] def lawfulStoredZstd : LawfulZstd where
  toZstd := storedZstd
  readToEnd_encodeAll _ _ _ limit h :=
    congrArg (fun stored => some (stored.take limit)) (Option.some.inj h).symm

/-- An object of the type `a` and its own relation `a`, once as a subject and once as a set:
one symbol stands in every place. -/
def oneSymbol : List (MapListing × EngineCommand) :=
  [(.latestFirst, .replaceSchema "namespace a \x7b relation a \x7b\x7d \x7d"),
    (.latestFirst, .writeRelationships
      [.create ⟨objectLit "a" "a", relationLit "a", .object (objectLit "a" "a")⟩,
        .create ⟨objectLit "a" "a", relationLit "a",
          .userset (objectLit "a" "a") (relationLit "a")⟩] [])]

def compressedAudit : SaveOptions :=
  ⟨.zstd, 3, true, .checkAndObjectAudit⟩

def compressedLatency : LoadOptions :=
  { fullFastLoad with
    compression := .zstd
    profile := .latency
    requiredIndexProfile := .checkOnly }

omit [Blake3Hash] [StoreHasher] in
/-- A compressed file with the reduced profile, loaded into maps. -/
theorem saveSnapshot_loadSnapshot_oneSymbol :
    letI := sumHash
    letI := fnvHasher
    letI := lawfulStoredZstd
    ∃ writer file restarted,
      EngineCommand.runAll oneSymbol (.new ⟨0⟩ ⟨1, Nat.one_pos⟩ .default) = writer ∧
      writer.saveSnapshot .latestFirst compressedAudit = .ok file ∧
      loadSnapshot ⟨1⟩ .default .latestFirst file compressedLatency = .ok restarted ∧
      restarted.relationships.rows = writer.relationships.rows := by
  let _ := sumHash
  let _ := fnvHasher
  let _ := lawfulStoredZstd
  let writer := EngineCommand.runAll oneSymbol (.new ⟨0⟩ ⟨1, Nat.one_pos⟩ .default)
  have hcomputed : (writer.saveSnapshot .latestFirst compressedAudit).toOption.any (fun file =>
      (readDecodePayload file compressedLatency).isOk) = true := by
    decide +kernel
  cases hsave : writer.saveSnapshot .latestFirst compressedAudit with
  | error error =>
      rw [hsave] at hcomputed
      cases hcomputed
  | ok file =>
      rw [hsave] at hcomputed
      obtain ⟨saved, loaded, restarted, hlatest, hload, hloaded, _, hrestores⟩ :=
        saveSnapshot_loadSnapshot writer ⟨1⟩ .default .latestFirst .latestFirst compressedAudit
          compressedLatency file (Reached.runAll (.new _ _ _) oneSymbol) hsave rfl rfl rfl
          hcomputed
      refine ⟨writer, file, restarted, rfl, hsave, hload, ?_⟩
      rw [← hloaded.relationships, hrestores.rows, hlatest.relationships]

end EngineWriter

end SimpleZanzibar
