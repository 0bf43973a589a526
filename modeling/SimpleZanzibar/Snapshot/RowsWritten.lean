import SimpleZanzibar.Snapshot.IndexesAccepted

/-!
# A full load accepts the rows of a saved store

The rows are numbered again in the order in which they are written.  Their symbols are in the
table of the file, their strings are valid and no two of them are the same, because the rows of
a store stand for distinct relationships.

**Results.**
* `decodeDiskRows_written`: the rows are read as they were written.
* `decodeSnapshotRows_written`: a full load accepts them.
-/

namespace SimpleZanzibar

namespace Snapshot

open ByteCursor

/-! ## Fields -/

/-- The fields of a row that stands for a relationship are valid. -/
theorem rowResolves_of_denotes
    {interner : IdentifierInterner} {row : RowIdentity} {r : Relationship}
    (h : row.Denotes interner r) :
    RowResolves interner row := by
  refine ⟨⟨_, h.resourceType⟩, ⟨_, h.resourceId⟩, ⟨_, h.relation⟩,
    ⟨⟨r.subject.objectRef.objectType.value,
      (validate_subjectType_iff _).mpr r.subject.objectRef.objectType.valid⟩, h.subjectType⟩,
    ⟨⟨r.subject.objectRef.objectId.value,
      (validate_subjectId_iff _).mpr r.subject.objectRef.objectId.valid⟩, h.subjectId⟩, ?_⟩
  intro relation hrelation
  have hsubject := h.subjectRelation
  rw [hrelation] at hsubject
  cases hown : r.subject.relation? with
  | none =>
      rw [hown] at hsubject
      cases hsubject
  | some own =>
      rw [hown] at hsubject
      exact ⟨own, Option.some.inj hsubject⟩

theorem RowResolves.below
    {interner : IdentifierInterner} {row : RowIdentity}
    (h : RowResolves interner row) :
    RowBelow interner.entries.length row := by
  have hlt : ∀ {kind : IdentifierKind} {id : SymbolId}, ResolvesAs interner kind id →
      id.index < interner.entries.length :=
    fun ⟨_, hid⟩ => IdentifierInterner.resolve_lt hid
  exact ⟨hlt h.resourceType, hlt h.resourceId, hlt h.relation, hlt h.subjectType,
    hlt h.subjectId, fun relation hrelation => hlt (h.subjectRelation relation hrelation)⟩

theorem validateSymbolDomain_of_resolvesAs
    {interner : IdentifierInterner} {kind : IdentifierKind} {id : SymbolId}
    (h : ResolvesAs interner kind id) :
    validateSymbolDomain interner kind id = .ok () := by
  obtain ⟨identifier, hid⟩ := h
  refine bind_eq_ok.mpr ⟨identifier.value, by rw [hid]; rfl, bind_eq_ok.mpr ⟨identifier, ?_, rfl⟩⟩
  rw [Identifier.new_value]
  rfl

theorem RowResolves.validateRowDomains
    {interner : IdentifierInterner} {row : RowIdentity}
    (h : RowResolves interner row) :
    validateRowDomains interner row = .ok () := by
  refine bind_eq_ok.mpr ⟨(), validateSymbolDomain_of_resolvesAs h.resourceType, bind_eq_ok.mpr
    ⟨(), validateSymbolDomain_of_resolvesAs h.resourceId, bind_eq_ok.mpr
    ⟨(), validateSymbolDomain_of_resolvesAs h.relation, bind_eq_ok.mpr
    ⟨(), validateSymbolDomain_of_resolvesAs h.subjectType, bind_eq_ok.mpr
    ⟨(), validateSymbolDomain_of_resolvesAs h.subjectId, ?_⟩⟩⟩⟩⟩
  cases hrelation : row.subjectRelation with
  | none => rfl
  | some relation => exact validateSymbolDomain_of_resolvesAs (h.subjectRelation relation hrelation)

/-- The numbers of a row are typed as the row. -/
theorem rowFromDisk_ofRow
    {row : RowIdentity} {symbolCount : Nat}
    (h : RowBelow symbolCount row) :
    rowFromDisk (DiskRow.ofRow row) symbolCount = .ok row := by
  have hoptional : optionalSymbolFromDisk (DiskRow.ofRow row).subjectRelation symbolCount =
      .ok row.subjectRelation := by
    have hrelations := h.subjectRelation
    unfold DiskRow.ofRow
    cases hrelation : row.subjectRelation with
    | none => rfl
    | some relation =>
        have hlt := hrelations relation hrelation
        simp only [optionalSymbolFromDisk]
        rw [if_neg (Nat.ne_of_gt relation.value.pos), symbolId_fromSnapshotRaw_get hlt]
        rfl
  exact bind_eq_ok.mpr ⟨_, symbolId_fromSnapshotRaw_get h.resourceType, bind_eq_ok.mpr
    ⟨_, symbolId_fromSnapshotRaw_get h.resourceId, bind_eq_ok.mpr
    ⟨_, symbolId_fromSnapshotRaw_get h.relation, bind_eq_ok.mpr
    ⟨_, symbolId_fromSnapshotRaw_get h.subjectType, bind_eq_ok.mpr
    ⟨_, symbolId_fromSnapshotRaw_get h.subjectId, bind_eq_ok.mpr ⟨_, hoptional, rfl⟩⟩⟩⟩⟩⟩

/-! ## The section of the rows -/

/-- The numbers of a row fit a width. -/
structure DiskRow.Fits (row : DiskRow) (limit : Nat) : Prop where
  resourceType : row.resourceType < limit
  resourceId : row.resourceId < limit
  relation : row.relation < limit
  subjectType : row.subjectType < limit
  subjectId : row.subjectId < limit
  subjectRelation : row.subjectRelation < limit

theorem DiskRow.Fits.reads
    {row : DiskRow} {width : KeyWidth}
    (h : row.Fits (256 ^ width.byteLen)) :
    Reads (readDiskRow width) (row.encodeWidth width) row := by
  simp only [DiskRow.encodeWidth, List.append_assoc]
  refine (KeyWidth.reads_readValue h.resourceType).bind ?_
  refine (KeyWidth.reads_readValue h.resourceId).bind ?_
  refine (KeyWidth.reads_readValue h.relation).bind ?_
  refine (KeyWidth.reads_readValue h.subjectType).bind ?_
  refine (KeyWidth.reads_readValue h.subjectId).bind ?_
  exact (KeyWidth.reads_readValue h.subjectRelation).map _

theorem DiskRow.length_encodeWidth
    (row : DiskRow) (width : KeyWidth) :
    (row.encodeWidth width).length = width.byteLen * 6 := by
  simp only [DiskRow.encodeWidth, List.length_append, KeyWidth.length_encodeValue]
  omega

/-- The numbers of symbols below a count fit the width for the count. -/
theorem RowBelow.fits
    {row : RowIdentity} {symbolCount : Nat} {layout : EncodingLayout}
    (h : RowBelow symbolCount row)
    (hsize : symbolCount ≤ u32Max) :
    (DiskRow.ofRow row).Fits (256 ^ (snapshotSymbolWidth symbolCount layout).byteLen) := by
  have hlt : ∀ {id : SymbolId}, id.index < symbolCount →
      id.value.get < 256 ^ (snapshotSymbolWidth symbolCount layout).byteLen := by
    intro id hid
    refine lt_of_snapshotSymbolWidth ?_ hsize
    unfold SymbolId.index NonZeroU32.index at hid
    omega
  refine ⟨hlt h.resourceType, hlt h.resourceId, hlt h.relation, hlt h.subjectType,
    hlt h.subjectId, ?_⟩
  have hrelations := h.subjectRelation
  unfold DiskRow.ofRow
  cases hrelation : row.subjectRelation with
  | none => exact Nat.pow_pos (by decide)
  | some relation => exact hlt (hrelations relation hrelation)

section Hashes

variable [Blake3Hash]

/-- The rows are read from their section. -/
theorem decodeDiskRows_written
    {reader : Reader} {rows : List RowIdentity} {layout : EncodingLayout} {symbolCount : Nat}
    (hversion : reader.header.formatVersion = .v3)
    (hcount : reader.header.relationshipCount = rows.length)
    (hbelow : ∀ row ∈ rows, RowBelow symbolCount row)
    (hsize : symbolCount ≤ u32Max)
    (hrows : rows.length ≤ u32Max)
    (hsection : reader.section .relationshipRows =
      .ok ⟨(rows.map DiskRow.ofRow).flatMap
          (fun row => row.encodeWidth (snapshotSymbolWidth symbolCount layout)),
        (snapshotSymbolWidth symbolCount layout).flagBits, rows.length⟩) :
    decodeDiskRows reader = .ok (rows.map DiskRow.ofRow) := by
  have hmax : u32Max * 24 ≤ usizeMax := by decide
  obtain ⟨width, hwidth⟩ : ∃ width, width = snapshotSymbolWidth symbolCount layout := ⟨_, rfl⟩
  have hfits : ∀ row ∈ rows.map DiskRow.ofRow, Reads (readDiskRow width) (row.encodeWidth width)
      row := by
    intro row hrow
    obtain ⟨identity, hidentity, rfl⟩ := List.mem_map.mp hrow
    rw [hwidth]
    exact ((hbelow identity hidentity).fits hsize).reads
  rw [← hwidth] at hsection
  have hread := (Reads.times hfits).apply
  rw [List.length_map] at hread
  have hbyteLen := width.byteLen_le
  have hproduct : rows.length * (width.byteLen * 6) ≤ usizeMax :=
    (Nat.mul_le_mul hrows (by omega : width.byteLen * 6 ≤ 24)).trans hmax
  have hflags : symbolWidth reader.header.formatVersion width.flagBits
      "relationship row flags are unsupported" = .ok width := by
    rw [hversion]
    exact sectionWidthFromFlags_flagBits width
  refine bind_eq_ok.mpr ⟨_, hsection, require_bind_eq_ok.mpr ⟨hcount.symm, bind_eq_ok.mpr
    ⟨width, hflags, bind_eq_ok.mpr ⟨_, checkedMulUsize_eq_ok.mpr
    ⟨(by omega : width.byteLen * 6 ≤ 24).trans (by decide), rfl⟩, bind_eq_ok.mpr
    ⟨_, checkedMulUsize_eq_ok.mpr ⟨?_, rfl⟩, require_bind_eq_ok.mpr ⟨?_, ?_⟩⟩⟩⟩⟩⟩
  · rwa [hcount]
  · simp [List.length_flatMap, DiskRow.length_encodeWidth, hcount, Function.comp_def]
  · rw [hcount]
    exact congrArg Prod.fst hread

end Hashes

/-! ## The rows of a full load -/

section Hashed

variable [StoreHasher]

/-- Distinct rows with valid fields are accepted one after the other. -/
theorem exists_decodeRow_foldlM
    {interner : IdentifierInterner} {fold : RowFold} {rows : List RowIdentity}
    (hvalid : fold.Valid interner)
    (hresolves : ∀ row ∈ rows, RowResolves interner row)
    (hnodup : (fold.rows.map (·.identity) ++ rows).Nodup)
    (hsize : (fold.rows.map (·.identity) ++ rows).length ≤ u32Max) :
    ∃ result, (rows.map DiskRow.ofRow).foldlM
        (decodeRow interner interner.entries.length .full) fold = .ok result ∧
      result.rows.map (·.identity) = fold.rows.map (·.identity) ++ rows := by
  induction rows generalizing fold with
  | nil => exact ⟨fold, rfl, (List.append_nil _).symm⟩
  | cons row rest ih =>
      obtain ⟨hrow, hrest⟩ := List.forall_mem_cons.mp hresolves
      have hroom : fold.rows.length < u32Max := by
        simp only [List.length_append, List.length_map, List.length_cons] at hsize
        omega
      obtain ⟨rowId, hrowId⟩ := RowId.fromLen_ok hroom
      have habsent : fold.duplicateDetector.find fold.rows row = none := by
        rw [Option.eq_none_iff_forall_ne_some]
        intro other hother
        obtain ⟨_, candidate, hcandidate, hsame⟩ := hvalid.detector.find_iff.mp hother
        have hmem : row ∈ fold.rows.map (·.identity) :=
          List.mem_map.mpr ⟨candidate, List.mem_of_getElem? hcandidate, hsame⟩
        exact (List.nodup_append.mp hnodup).2.2 row hmem row List.mem_cons_self rfl
      have hstep : decodeRow interner interner.entries.length .full fold (DiskRow.ofRow row) =
          .ok ⟨fold.rows ++ [⟨rowId, row⟩],
            fold.duplicateDetector.insert fold.rows rowId row⟩ := by
        refine bind_eq_ok.mpr ⟨rowId, by rw [hrowId]; rfl, bind_eq_ok.mpr
          ⟨row, rowFromDisk_ofRow hrow.below, bind_eq_ok.mpr ⟨(), hrow.validateRowDomains,
          require_bind_eq_ok.mpr ⟨?_, rfl⟩⟩⟩⟩
        rw [habsent]
        rfl
      have happend : (fold.rows ++ [(⟨rowId, row⟩ : RelationshipRow)]).map (·.identity) ++ rest =
          fold.rows.map (·.identity) ++ row :: rest := by
        simp
      obtain ⟨result, hresult, hrows⟩ := ih (decodeRow_full hvalid hstep).1 hrest
        (by rwa [happend]) (by rwa [happend])
      refine ⟨result, ?_, hrows.trans happend⟩
      rw [List.map_cons, List.foldlM_cons, hstep]
      exact hresult

variable [Blake3Hash]

/-- A full load accepts the rows of a saved store. -/
theorem decodeSnapshotRows_written
    {reader : Reader} {interner : IdentifierInterner} {rows : List RowIdentity}
    {layout : EncodingLayout}
    (hversion : reader.header.formatVersion = .v3)
    (hrowCount : reader.header.relationshipCount = rows.length)
    (hsymbolCount : reader.header.symbolCount = interner.entries.length)
    (hresolves : ∀ row ∈ rows, RowResolves interner row)
    (hnodup : rows.Nodup)
    (hsymbols : interner.entries.length ≤ u32Max)
    (hrows : rows.length ≤ u32Max)
    (hsection : reader.section .relationshipRows =
      .ok ⟨(rows.map DiskRow.ofRow).flatMap
          (fun row => row.encodeWidth (snapshotSymbolWidth interner.entries.length layout)),
        (snapshotSymbolWidth interner.entries.length layout).flagBits, rows.length⟩) :
    ∃ loaded, decodeSnapshotRows reader interner .full = .ok loaded ∧
      loaded.map (·.identity) = rows ∧
      ∀ (n : Nat) row, loaded[n]? = some row → row.rowId.index = n := by
  have hdisk := decodeDiskRows_written hversion hrowCount
    (fun row hrow => (hresolves row hrow).below) hsymbols hrows hsection
  obtain ⟨result, hresult, hsame⟩ := exists_decodeRow_foldlM (rowFold_valid_nil interner) hresolves
    hnodup hrows
  refine ⟨result.rows, bind_eq_ok.mpr ⟨_, hdisk, bind_eq_ok.mpr ⟨result, ?_, rfl⟩⟩, hsame,
    (decodeRow_foldlM (rowFold_valid_nil interner) hresult).1.rowIds⟩
  rw [hsymbolCount]
  exact hresult

end Hashed

end Snapshot

end SimpleZanzibar
