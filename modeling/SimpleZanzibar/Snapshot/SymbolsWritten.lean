import SimpleZanzibar.Snapshot.EnvelopeCorrect
import SimpleZanzibar.Snapshot.SymbolsCorrect
import SimpleZanzibar.Store.Atomicity

/-!
# Written symbols are accepted

The writer chooses the widths of the numbers so that all of them fit, and it lists the symbols
in the order that the reader checks.  A full load takes the strings over.

**Results.**
* `decodeSymbolTable_written`, `decodeSymbolLookup_written`: the sections are read as written.
* `decodeInterner_written`: a load reads the symbols of a saved store.
-/

namespace SimpleZanzibar

namespace Snapshot

open ByteCursor IdentifierInterner

/-! ## Widths -/

theorem KeyWidth.lt_of_forMax
    {value maxValue : Nat}
    (h : value ≤ maxValue)
    (hmax : maxValue ≤ u32Max) :
    value < 256 ^ (KeyWidth.forMax maxValue).byteLen := by
  have hu32 : u32Max = 256 ^ 4 - 1 := rfl
  unfold KeyWidth.forMax
  split_ifs <;> simp only [KeyWidth.byteLen] <;> omega

/-- The numbers up to the bound fit the width that is chosen for it. -/
theorem lt_of_snapshotSymbolWidth
    {value maxValue : Nat} {layout : EncodingLayout}
    (h : value ≤ maxValue)
    (hmax : maxValue ≤ u32Max) :
    value < 256 ^ (snapshotSymbolWidth maxValue layout).byteLen := by
  cases layout with
  | compact => exact KeyWidth.lt_of_forMax h hmax
  | compressionFriendly => exact lt_of_le_u32Max (h.trans hmax)

theorem KeyWidth.reads_readValue
    {width : KeyWidth} {value : Nat}
    (h : value < 256 ^ width.byteLen) :
    Reads width.readValue (width.encodeValue value) value :=
  reads_readNat _ h

@[simp] theorem KeyWidth.length_encodeValue
    (width : KeyWidth) (value : Nat) :
    (width.encodeValue value).length = width.byteLen :=
  LittleEndian.length_encode _ _

theorem KeyWidth.byteLen_le
    (width : KeyWidth) :
    width.byteLen ≤ 4 := by
  cases width <;> decide

theorem symbolTableWidths_flags
    (startWidth lenWidth : KeyWidth) :
    symbolTableWidths (symbolTableFlags startWidth lenWidth) = .ok (startWidth, lenWidth) := by
  cases startWidth <;> cases lenWidth <;> rfl

theorem sectionWidthFromFlags_flagBits
    (width : KeyWidth) :
    sectionWidthFromFlags width.flagBits = .ok width := by
  cases width <;> rfl

/-! ## Strings -/

theorem decodeUtf8_stringBytes
    (value : String) :
    decodeUtf8 (stringBytes value) = some value := by
  have hbytes : ByteArray.mk (stringBytes value).toArray = value.toByteArray := rfl
  rw [decodeUtf8, hbytes, String.fromUTF8?, dif_pos value.isValidUTF8]
  rfl

/-- A string of the pool is cut out of it. -/
theorem symbolFromRange_eq_ok
    {before after : List UInt8} {value : String}
    (hsize : (before ++ stringBytes value ++ after).length ≤ usizeMax) :
    symbolFromRange (before ++ stringBytes value ++ after) before.length
      (stringBytes value).length = .ok value := by
  have hstop : before.length + (stringBytes value).length ≤
      (before ++ stringBytes value ++ after).length := by
    simp
  refine bind_eq_ok.mpr ⟨_, checkedAddUsize_eq_ok.mpr ⟨hstop.trans hsize, rfl⟩, ?_⟩
  exact bind_eq_ok.mpr ⟨_, okOr_eq_ok.mpr (slice_eq_some rfl rfl),
    okOr_eq_ok.mpr (decodeUtf8_stringBytes value)⟩

/-- The ranges of the strings, read one after the other. -/
theorem reads_readSymbols
    {startWidth lenWidth : KeyWidth} {before : List UInt8} {values : List String}
    (hsize : (before ++ values.flatMap stringBytes).length ≤ usizeMax)
    (hstart : (before ++ values.flatMap stringBytes).length < 256 ^ startWidth.byteLen)
    (hlen : ∀ value ∈ values, (stringBytes value).length < 256 ^ lenWidth.byteLen) :
    Reads (ByteCursor.times (readSymbol (before ++ values.flatMap stringBytes) startWidth lenWidth)
        values.length)
      ((internedStrings before.length values).flatMap (fun entry =>
        startWidth.encodeValue entry.start ++ lenWidth.encodeValue entry.len)) values := by
  induction values generalizing before with
  | nil => exact reads_pure []
  | cons value rest ih =>
      obtain ⟨hvalue, hrest⟩ := List.forall_mem_cons.mp hlen
      have hsplit : before ++ (value :: rest).flatMap stringBytes =
          before ++ stringBytes value ++ rest.flatMap stringBytes := by
        rw [List.flatMap_cons, List.append_assoc]
      rw [hsplit] at hsize hstart ⊢
      have hbefore : before.length < 256 ^ startWidth.byteLen := by
        simp only [List.length_append] at hstart
        omega
      have hfirst : Reads (readSymbol (before ++ stringBytes value ++ rest.flatMap stringBytes)
          startWidth lenWidth) (startWidth.encodeValue before.length ++
            lenWidth.encodeValue (stringBytes value).length) value := by
        refine (KeyWidth.reads_readValue hbefore).bind ?_
        refine (KeyWidth.reads_readValue hvalue).bind_last ?_
        exact reads_lift (symbolFromRange_eq_ok hsize)
      have hothers := @ih (before ++ stringBytes value) hsize hstart hrest
      rw [List.length_append] at hothers
      rw [internedStrings, List.flatMap_cons]
      exact hfirst.bind (hothers.map (value :: ·))

theorem length_internedStrings
    (start : Nat) (values : List String) :
    (internedStrings start values).length = values.length := by
  induction values generalizing start with
  | nil => rfl
  | cons value rest ih => simp [internedStrings, ih]

/-- Ranges of fixed widths. -/
theorem length_symbolRanges
    (startWidth lenWidth : KeyWidth) (entries : List InternedString) :
    (entries.flatMap (fun entry =>
      startWidth.encodeValue entry.start ++ lenWidth.encodeValue entry.len)).length =
        entries.length * (startWidth.byteLen + lenWidth.byteLen) := by
  induction entries with
  | nil => simp
  | cons entry rest ih =>
      rw [List.flatMap_cons, List.length_append, ih]
      simp only [List.length_append, KeyWidth.length_encodeValue, List.length_cons, Nat.succ_mul]
      omega

/-- The maximum of a list is above its members. -/
theorem le_foldl_max
    {lens : List Nat} {bound len : Nat}
    (h : len ∈ lens ∨ len ≤ bound) :
    len ≤ lens.foldl max bound := by
  induction lens generalizing bound with
  | nil => exact h.resolve_left List.not_mem_nil
  | cons first rest ih =>
      refine @ih (max bound first) ?_
      rcases h with h | h
      · rcases List.mem_cons.mp h with rfl | h
        · exact .inr (le_max_right _ _)
        · exact .inl h
      · exact .inr (h.trans (le_max_left _ _))

/-- No length is above the maximum for which the width is chosen. -/
theorem length_stringBytes_le
    {values : List String} {value : String} {start : Nat}
    (hmem : value ∈ values) :
    (stringBytes value).length ≤ ((internedStrings start values).map (·.len)).foldl max 0 := by
  have hlen : (stringBytes value).length ∈ (internedStrings start values).map (·.len) := by
    induction values generalizing start with
    | nil => cases hmem
    | cons first rest ih =>
        rcases List.mem_cons.mp hmem with rfl | hmem
        · exact List.mem_cons_self
        · exact List.mem_cons_of_mem _ (ih hmem)
  exact le_foldl_max (.inl hlen)

theorem foldl_max_le
    {lens : List Nat} {bound limit : Nat}
    (h : ∀ len ∈ lens, len ≤ limit)
    (hbound : bound ≤ limit) :
    lens.foldl max bound ≤ limit := by
  induction lens generalizing bound with
  | nil => exact hbound
  | cons len rest ih =>
      obtain ⟨hlen, hrest⟩ := List.forall_mem_cons.mp h
      exact ih hrest (max_le hbound hlen)

theorem len_internedStrings_le
    {start : Nat} {values : List String} :
    ∀ len ∈ (internedStrings start values).map (·.len),
      len ≤ (values.flatMap stringBytes).length := by
  induction values generalizing start with
  | nil => simp [internedStrings]
  | cons value rest ih =>
      intro len hlen
      rw [List.flatMap_cons, List.length_append]
      rcases List.mem_cons.mp hlen with rfl | hlen
      · exact Nat.le_add_right _ _
      · exact Nat.le_trans (ih len hlen) (Nat.le_add_left _ _)

section Hashes

variable [Blake3Hash]

/-- The strings are read from their sections. -/
theorem decodeSymbolTable_written
    {reader : Reader} {values : List String} {layout : EncodingLayout} {pool : List UInt8}
    {poolFlags poolRows : Nat}
    (hversion : reader.header.formatVersion = .v3)
    (hcount : reader.header.symbolCount = values.length)
    (hpool : pool = values.flatMap stringBytes)
    (hpoolSize : pool.length ≤ u32Max)
    (hvalues : values.length ≤ u32Max)
    (hbytes : reader.section .symbolBytes = .ok ⟨pool, poolFlags, poolRows⟩)
    (htable : reader.section .symbolTable =
      .ok ⟨(encodeV3SymbolTable (internedStrings 0 values) pool.length layout).1,
        (encodeV3SymbolTable (internedStrings 0 values) pool.length layout).2, values.length⟩) :
    decodeSymbolTable reader = .ok (pool.length, values) := by
  have hmax : u32Max * 8 ≤ usizeMax := by decide
  have hmaxLen : ((internedStrings 0 values).map (·.len)).foldl max 0 ≤ pool.length := by
    rw [hpool]
    exact foldl_max_le len_internedStrings_le (Nat.zero_le _)
  obtain ⟨startWidth, hstartWidth⟩ : ∃ width, width = snapshotSymbolWidth pool.length layout :=
    ⟨_, rfl⟩
  obtain ⟨lenWidth, hlenWidth⟩ : ∃ width, width = snapshotSymbolWidth
      (((internedStrings 0 values).map (·.len)).foldl max 0) layout := ⟨_, rfl⟩
  have hstart : pool.length < 256 ^ startWidth.byteLen := by
    rw [hstartWidth]
    exact lt_of_snapshotSymbolWidth (Nat.le_refl _) hpoolSize
  have hlen : ∀ value ∈ values, (stringBytes value).length < 256 ^ lenWidth.byteLen := by
    intro value hvalue
    rw [hlenWidth]
    exact lt_of_snapshotSymbolWidth (length_stringBytes_le hvalue) (hmaxLen.trans hpoolSize)
  have hread := (@reads_readSymbols startWidth lenWidth [] values
    (by rw [List.nil_append, ← hpool]; omega) (by rwa [List.nil_append, ← hpool]) hlen).apply
  rw [List.nil_append, ← hpool, List.length_nil] at hread
  have hentryLen : startWidth.byteLen + lenWidth.byteLen ≤ 8 := by
    have hfirst := startWidth.byteLen_le
    have hsecond := lenWidth.byteLen_le
    omega
  have hproduct : values.length * (startWidth.byteLen + lenWidth.byteLen) ≤ usizeMax :=
    (Nat.mul_le_mul hvalues hentryLen).trans hmax
  have hwidths : tableWidths reader.header.formatVersion
      (symbolTableFlags startWidth lenWidth) = .ok (startWidth, lenWidth) := by
    rw [hversion]
    exact symbolTableWidths_flags startWidth lenWidth
  rw [encodeV3SymbolTable, ← hstartWidth, ← hlenWidth] at htable
  refine bind_eq_ok.mpr ⟨_, hbytes, bind_eq_ok.mpr ⟨_, htable, require_bind_eq_ok.mpr
    ⟨hcount.symm, bind_eq_ok.mpr ⟨_, hwidths, bind_eq_ok.mpr ⟨_, checkedAddUsize_eq_ok.mpr
    ⟨hentryLen.trans (by decide), rfl⟩, bind_eq_ok.mpr
      ⟨_, checkedMulUsize_eq_ok.mpr ⟨?_, rfl⟩, require_bind_eq_ok.mpr
    ⟨?_, ?_⟩⟩⟩⟩⟩⟩⟩
  · rwa [hcount]
  · rw [length_symbolRanges, length_internedStrings, hcount]
  · simp only [hcount, hread]
    exact bind_eq_ok.mpr ⟨values, rfl, require_bind_eq_ok.mpr ⟨trivial, rfl⟩⟩

/-- The hashes are read from their section. -/
theorem decodeSymbolHashes_written
    {reader : Reader} {hashes : List UInt64}
    (hcount : reader.header.symbolCount = hashes.length)
    (hsize : hashes.length ≤ u32Max)
    (hsection : reader.section .symbolHashes =
      .ok ⟨hashes.flatMap (fun hash => LittleEndian.encode 8 hash.toNat), 0, hashes.length⟩) :
    decodeSymbolHashes reader = .ok hashes := by
  have hmax : u32Max * 8 ≤ usizeMax := by decide
  have hbytes : hashes.flatMap (fun hash => LittleEndian.encode 8 hash.toNat) =
      (hashes.map (·.toNat)).flatMap (LittleEndian.encode 8) := by
    rw [List.flatMap_map]
  have hlength : (hashes.flatMap (fun hash => LittleEndian.encode 8 hash.toNat)).length =
      hashes.length * 8 := by
    simp [List.length_flatMap]
  have hread : Reads (ByteCursor.times readU64 (hashes.map (·.toNat)).length)
      ((hashes.map (·.toNat)).flatMap (LittleEndian.encode 8)) (hashes.map (·.toNat)) := by
    refine Reads.times (fun value hvalue => ?_)
    obtain ⟨hash, _, rfl⟩ := List.mem_map.mp hvalue
    exact reads_readNat _ hash.toNat_lt
  have hvalues : (hashes.map (·.toNat)).map UInt64.ofNat = hashes := by
    rw [List.map_map]
    exact (List.map_congr_left (fun hash _ => UInt64.ofNat_toNat)).trans (List.map_id _)
  rw [List.length_map, ← hbytes] at hread
  refine bind_eq_ok.mpr ⟨_, hsection, require_bind_eq_ok.mpr ⟨hcount.symm, bind_eq_ok.mpr
    ⟨_, checkedMulUsize_eq_ok.mpr ⟨?_, rfl⟩, require_bind_eq_ok.mpr ⟨?_, bind_eq_ok.mpr
    ⟨hashes.map (·.toNat), ?_, ?_⟩⟩⟩⟩⟩
  · rw [hcount]
    omega
  · rw [hlength, hcount]
  · rw [hcount]
    exact congrArg Prod.fst hread.apply
  · rw [hvalues]
    rfl

end Hashes

/-! ## The order of the symbols -/

/-- The key by which a symbol is ordered. -/
theorem symbolLookupKey_of_getElem?
    {id : SymbolId} {hashes : List UInt64} {hash : UInt64}
    (h : hashes[id.index]? = some hash) :
    symbolLookupKey id hashes = .ok (hash, id.value.get) :=
  bind_eq_ok.mpr ⟨hash, okOr_eq_ok.mpr h, rfl⟩

theorem symbolId_fromSnapshotRaw_get
    {id : SymbolId} {symbolCount : Nat}
    (h : id.index < symbolCount) :
    SymbolId.fromSnapshotRaw id.value.get symbolCount = .ok id := by
  have hpos := id.value.pos
  have hlt := id.value.lt
  have hle : id.value.get ≤ symbolCount := by
    unfold SymbolId.index NonZeroU32.index at h
    omega
  unfold SymbolId.fromSnapshotRaw nonZeroFromRaw
  rw [if_neg (by omega), dif_pos ⟨hle, hpos, hlt⟩]
  rfl

/-- Symbols in strict order are read in this order. -/
theorem reads_readSymbolLookup
    {width : KeyWidth} {hashes : List UInt64} {ids : List SymbolId}
    {previous : Option (UInt64 × Nat)} {keys : List (UInt64 × Nat)}
    (hwidth : ∀ id ∈ ids, id.value.get < 256 ^ width.byteLen)
    (hkeys : List.Forall₂ (fun id key => hashes[id.index]? = some key.1 ∧ id.value.get = key.2)
      ids keys)
    (hsorted : (previous.toList ++ keys).Pairwise lookupKeyLt) :
    Reads (readSymbolLookup width hashes.length hashes ids.length previous)
      (ids.flatMap (fun id => width.encodeValue id.value.get)) ids := by
  induction hkeys generalizing previous with
  | nil => exact reads_pure []
  | @cons id key ids keys hkey _ ih =>
      obtain ⟨hid, hrest⟩ := List.forall_mem_cons.mp hwidth
      obtain ⟨hhash, hget⟩ := hkey
      have hbound : id.index < hashes.length := (List.getElem?_eq_some_iff.mp hhash).1
      have hkeyEq : symbolLookupKey id hashes = .ok key := by
        rw [symbolLookupKey_of_getElem? hhash, hget]
      have hprevious : ∀ candidate ∈ previous, lookupKeyLt candidate key := by
        intro candidate hcandidate
        exact (List.pairwise_append.mp hsorted).2.2 candidate (Option.mem_toList.mpr hcandidate)
          key List.mem_cons_self
      have hnext : ((some key).toList ++ keys).Pairwise lookupKeyLt :=
        (List.pairwise_append.mp hsorted).2.1
      rw [List.flatMap_cons]
      refine (KeyWidth.reads_readValue hid).bind ?_
      refine Reads.lift_bind (symbolId_fromSnapshotRaw_get hbound) ?_
      refine Reads.lift_bind hkeyEq ?_
      refine Reads.lift_bind (require_of hprevious) ?_
      exact (ih hrest hnext).map (id :: ·)

section Hashed

variable [StoreHasher]

omit [StoreHasher] in
/-- The symbols of a table are numbered in order. -/
theorem pairwise_numberedSymbols
    (symbols : List String) :
    ((numberedSymbols symbols).map (·.2)).Pairwise (fun a b => a.index < b.index) := by
  have hpositions : symbols.zipIdx.Pairwise (fun a b => a.2 < b.2) := by
    rw [List.pairwise_iff_getElem]
    intro i j hi hj hlt
    simpa using hlt
  rw [List.pairwise_map, numberedSymbols, List.pairwise_filterMap]
  refine hpositions.imp (fun {a b} hlt => ?_)
  intro entry hentry entry' hentry'
  obtain ⟨id, hid, rfl⟩ := Option.map_eq_some_iff.mp hentry
  obtain ⟨id', hid', rfl⟩ := Option.map_eq_some_iff.mp hentry'
  have hindex : ∀ {position : Nat} {id : SymbolId},
      (SymbolId.fromIndex position).toOption = some id → id.index = position := by
    intro position id h
    cases hfrom : SymbolId.fromIndex position with
    | error error =>
        rw [hfrom] at h
        cases h
    | ok found =>
        rw [hfrom] at h
        cases h
        exact SymbolId.fromIndex_ok_iff.mp hfrom
  rw [hindex hid, hindex hid']
  exact hlt

theorem nodup_encodeSymbolLookup
    (interner : IdentifierInterner) :
    (interner.encodeSymbolLookup.map (·.index)).Nodup := by
  have hperm : interner.encodeSymbolLookup.Perm
      ((numberedSymbols interner.entries).map (·.2)) := List.mergeSort_perm _ _
  refine (hperm.map _).nodup_iff.mpr ?_
  exact List.pairwise_map.mpr ((pairwise_numberedSymbols interner.entries).imp Nat.ne_of_lt)

/-- The lookup section lists as many symbols as there are strings. -/
theorem length_encodeSymbolLookup
    {interner : IdentifierInterner}
    (hsize : interner.entries.length ≤ u32Max) :
    interner.encodeSymbolLookup.length = interner.entries.length := by
  have hperm : (interner.encodeSymbolLookup.map (·.index)).Perm
      (List.range interner.entries.length) := by
    refine (List.perm_ext_iff_of_nodup (nodup_encodeSymbolLookup interner)
      List.nodup_range).mpr (fun index => ?_)
    rw [List.mem_map, List.mem_range]
    constructor
    · rintro ⟨id, hid, rfl⟩
      exact mem_encodeSymbolLookup_iff.mp hid
    · intro hindex
      obtain ⟨id, hid⟩ := SymbolId.fromIndex_ok (Nat.lt_of_lt_of_le hindex hsize)
      have hget := SymbolId.fromIndex_ok_iff.mp hid
      exact ⟨id, mem_encodeSymbolLookup_iff.mpr (by rwa [hget]), hget⟩
  simpa using hperm.length_eq

/-- The lookup section is in strict order. -/
theorem exists_lookupKeys
    (interner : IdentifierInterner) :
    ∃ keys, List.Forall₂ (fun id key => interner.encodeSymbolHashes[id.index]? = some key.1 ∧
        id.value.get = key.2) interner.encodeSymbolLookup keys ∧
      keys.Pairwise lookupKeyLt := by
  refine ⟨interner.encodeSymbolLookup.map (fun id =>
    (interner.encodeSymbolHashes[id.index]?.getD 0, id.value.get)), ?_, ?_⟩
  · rw [List.forall₂_map_right_iff, List.forall₂_same]
    intro id hid
    have hbound : id.index < interner.encodeSymbolHashes.length := by
      rw [encodeSymbolHashes, List.length_map]
      exact mem_encodeSymbolLookup_iff.mp hid
    rw [List.getElem?_eq_getElem hbound]
    exact ⟨rfl, rfl⟩
  · rw [List.pairwise_map]
    have hne := List.pairwise_map.mp (nodup_encodeSymbolLookup interner)
    refine (pairwise_encodeSymbolLookup interner).imp₂ (fun a b hle hindex => ?_) hne
    have hget : a.value.get ≠ b.value.get := by
      intro hsame
      exact hindex (congrArg (· - 1) hsame)
    simp only [lookupLe, decide_eq_true_eq] at hle
    rcases hle with hlt | ⟨hsame, hle⟩
    · exact .inl hlt
    · exact .inr ⟨hsame, lt_of_le_of_ne hle hget⟩

section Lookup

variable [Blake3Hash]

/-- The order of the symbols is read from its section. -/
theorem decodeSymbolLookup_written
    {reader : Reader} {interner : IdentifierInterner} {layout : EncodingLayout}
    (hversion : reader.header.formatVersion = .v3)
    (hcount : reader.header.symbolCount = interner.entries.length)
    (hsize : interner.entries.length ≤ u32Max)
    (hsection : reader.section .symbolLookup =
      .ok ⟨interner.encodeSymbolLookup.flatMap (fun id =>
          (snapshotSymbolWidth interner.entries.length layout).encodeValue id.value.get),
        (snapshotSymbolWidth interner.entries.length layout).flagBits,
        interner.entries.length⟩) :
    decodeSymbolLookup reader interner.encodeSymbolHashes = .ok interner.encodeSymbolLookup := by
  have hmax : u32Max * 4 ≤ usizeMax := by decide
  obtain ⟨width, hwidth⟩ : ∃ width,
      width = snapshotSymbolWidth interner.entries.length layout := ⟨_, rfl⟩
  rw [← hwidth] at hsection
  obtain ⟨keys, hkeys, hsorted⟩ := exists_lookupKeys interner
  have hfits : ∀ id ∈ interner.encodeSymbolLookup, id.value.get < 256 ^ width.byteLen := by
    intro id hid
    have hbound := mem_encodeSymbolLookup_iff.mp hid
    rw [hwidth]
    refine lt_of_snapshotSymbolWidth ?_ hsize
    unfold SymbolId.index NonZeroU32.index at hbound
    omega
  have hread := (@reads_readSymbolLookup width interner.encodeSymbolHashes
    interner.encodeSymbolLookup none keys hfits hkeys hsorted).apply
  have hhashes : interner.encodeSymbolHashes.length = interner.entries.length :=
    List.length_map _
  rw [hhashes, length_encodeSymbolLookup hsize] at hread
  have hlength : (interner.encodeSymbolLookup.flatMap (fun id =>
      width.encodeValue id.value.get)).length = interner.entries.length * width.byteLen := by
    rw [← length_encodeSymbolLookup hsize]
    simp [List.length_flatMap]
  have hproduct : interner.entries.length * width.byteLen ≤ usizeMax :=
    (Nat.mul_le_mul hsize width.byteLen_le).trans hmax
  have hflags : symbolWidth reader.header.formatVersion width.flagBits
      "symbol lookup flags are unsupported" = .ok width := by
    rw [hversion]
    exact sectionWidthFromFlags_flagBits width
  refine bind_eq_ok.mpr ⟨_, hsection, require_bind_eq_ok.mpr ⟨hcount.symm, bind_eq_ok.mpr
    ⟨width, hflags, bind_eq_ok.mpr ⟨_, checkedMulUsize_eq_ok.mpr ⟨?_, rfl⟩,
    require_bind_eq_ok.mpr ⟨?_, ?_⟩⟩⟩⟩⟩
  · rwa [hcount]
  · rw [hlength, hcount]
  · simp only [hcount, hread]
    exact bind_eq_ok.mpr ⟨_, rfl, require_bind_eq_ok.mpr ⟨trivial, rfl⟩⟩

/-! ## The tables of a full load -/

/-- The tables list symbols below a position only. -/
def TablesBelow (tables : SymbolIndex) (position : Nat) : Prop :=
  (∀ hash id, tables.1.lookup hash = some id → id.index < position) ∧
    ∀ hash ids, tables.2.lookup hash = some ids → ∀ id ∈ ids, id.index < position

omit [StoreHasher] [Blake3Hash] in
theorem anyResolvesTo_below
    {symbols : List String} {value : String} {position : Nat} {ids : List SymbolId}
    (hnodup : symbols.Nodup)
    (hvalue : symbols[position]? = some value)
    (hids : ∀ id ∈ ids, id.index < position) :
    anyResolvesTo symbols value ids = .ok false := by
  have hposition := (List.getElem?_eq_some_iff.mp hvalue).1
  induction ids with
  | nil => rfl
  | cons id rest ih =>
      obtain ⟨hid, hrest⟩ := List.forall_mem_cons.mp hids
      have hbound : id.index < symbols.length := hid.trans hposition
      have hne : symbols[id.index] ≠ value := by
        intro hsame
        have hget : symbols[id.index]? = symbols[position]? := by
          rw [List.getElem?_eq_getElem hbound, hvalue, hsame]
        exact hid.ne ((List.getElem?_inj hbound hnodup).mp hget)
      refine bind_eq_ok.mpr ⟨symbols[id.index],
        okOr_eq_ok.mpr (List.getElem?_eq_getElem hbound), ?_⟩
      rw [if_neg hne]
      exact ih hrest

omit [Blake3Hash] in
theorem TablesBelow.indexSymbol
    {tables : SymbolIndex} {id : SymbolId}
    (h : TablesBelow tables id.index)
    (value : String) :
    TablesBelow (indexSymbol tables (value, id)) (id.index + 1) := by
  unfold IdentifierInterner.indexSymbol
  cases hlookup : tables.1.lookup (hashValue value) with
  | none =>
      simp only
      refine ⟨fun hash other hother => ?_, fun hash ids hids other hother => ?_⟩
      · by_cases hhash : hash = hashValue value
        · subst hhash
          rw [AList.lookup_insert] at hother
          cases hother
          exact Nat.lt_succ_self _
        · rw [AList.lookup_insert_ne hhash] at hother
          exact Nat.lt_succ_of_lt (h.1 hash other hother)
      · exact Nat.lt_succ_of_lt (h.2 hash ids hids other hother)
  | some first =>
      simp only
      refine ⟨fun hash other hother => Nat.lt_succ_of_lt (h.1 hash other hother),
        fun hash ids hids other hother => ?_⟩
      by_cases hhash : hash = hashValue value
      · subst hhash
        rw [AList.lookup_insert] at hids
        cases hids
        rcases List.mem_append.mp hother with hother | hother
        · cases hentry : tables.2.lookup (hashValue value) with
          | none =>
              rw [hentry] at hother
              cases hother
          | some ids =>
              rw [hentry] at hother
              exact Nat.lt_succ_of_lt (h.2 _ ids hentry other hother)
        · rw [List.mem_singleton.mp hother]
          exact Nat.lt_succ_self _
      · rw [AList.lookup_insert_ne hhash] at hids
        exact Nat.lt_succ_of_lt (h.2 hash ids hids other hother)

omit [Blake3Hash] in
/-- Distinct strings with their own hashes are entered one after the other. -/
theorem indexFullSymbolLookup_eq_ok
    {symbols : List String} {start : Nat} {hashes : List UInt64} {tables : SymbolIndex}
    (hnodup : symbols.Nodup)
    (hsize : symbols.length ≤ u32Max)
    (hhashes : hashes = (symbols.drop start).map hashValue)
    (hbelow : TablesBelow tables start) :
    indexFullSymbolLookup symbols start hashes tables =
      .ok ((((symbols.drop start).zipIdx start).filterMap (fun entry =>
        (SymbolId.fromIndex entry.2).toOption.map (fun id => (entry.1, id)))).foldl
          IdentifierInterner.indexSymbol tables) := by
  induction hashes generalizing start tables with
  | nil =>
      rw [List.map_eq_nil_iff.mp hhashes.symm]
      rfl
  | cons hash rest ih =>
      cases hdrop : symbols.drop start with
      | nil =>
          rw [hdrop] at hhashes
          cases hhashes
      | cons value others =>
          rw [hdrop] at hhashes
          obtain ⟨rfl, hrest⟩ := List.cons.inj hhashes
          have hvalue : symbols[start]? = some value := by
            rw [← List.head?_drop, hdrop]
            rfl
          have hstart := (List.getElem?_eq_some_iff.mp hvalue).1
          obtain ⟨id, hid⟩ := SymbolId.fromIndex_ok (Nat.lt_of_lt_of_le hstart hsize)
          have hindex := SymbolId.fromIndex_ok_iff.mp hid
          have hothers : symbols.drop (start + 1) = others := by
            rw [← List.tail_drop, hdrop]
            rfl
          have hnew : symbolValueExists symbols tables (hashValue value) value = .ok false := by
            refine anyResolvesTo_below hnodup hvalue (fun other hother => ?_)
            rcases List.mem_append.mp hother with hother | hother
            · exact hbelow.1 _ other (Option.mem_toList.mp hother)
            · cases hentry : tables.2.lookup (hashValue value) with
              | none =>
                  rw [hentry] at hother
                  cases hother
              | some ids =>
                  rw [hentry] at hother
                  exact hbelow.2 _ ids hentry other hother
          have hnext := @TablesBelow.indexSymbol _ tables id (by rwa [hindex]) value
          rw [hindex] at hnext
          have hresult := ih (by rw [hothers, hrest]) hnext
          rw [hothers] at hresult
          simp only [List.zipIdx_cons, List.filterMap_cons, hid, Except.toOption, Option.map_some,
            List.foldl_cons]
          refine bind_eq_ok.mpr ⟨id, by rw [hid]; rfl, bind_eq_ok.mpr ⟨value, ?_,
            require_bind_eq_ok.mpr ⟨rfl, bind_eq_ok.mpr ⟨false, hnew, require_bind_eq_ok.mpr
            ⟨rfl, hresult⟩⟩⟩⟩⟩
          rw [resolveSymbolEntry, hindex]
          exact okOr_eq_ok.mpr hvalue

/-- A load reads the symbols of a saved store. -/
theorem decodeInterner_written
    {reader : Reader} {interner : IdentifierInterner} {layout : EncodingLayout}
    {pool hashes lookup : List UInt8} {poolFlags poolRows lookupFlags : Nat}
    (hnodup : interner.entries.Nodup)
    (hversion : reader.header.formatVersion = .v3)
    (hcount : reader.header.symbolCount = interner.entries.length)
    (hpool : pool = interner.entries.flatMap stringBytes)
    (hpoolSize : pool.length ≤ u32Max)
    (hacceleration : encodeSymbolAcceleration interner layout = .ok (hashes, lookup, lookupFlags))
    (hbytes : reader.section .symbolBytes = .ok ⟨pool, poolFlags, poolRows⟩)
    (htable : reader.section .symbolTable =
      .ok ⟨(encodeV3SymbolTable (internedStrings 0 interner.entries) pool.length layout).1,
        (encodeV3SymbolTable (internedStrings 0 interner.entries) pool.length layout).2,
        interner.entries.length⟩)
    (hhashes : reader.section .symbolHashes = .ok ⟨hashes, 0, interner.entries.length⟩)
    (hlookup : reader.section .symbolLookup =
      .ok ⟨lookup, lookupFlags, interner.entries.length⟩)
    (validation : SnapshotValidationMode) :
    decodeInterner reader validation = .ok (interner.reloaded validation) := by
  obtain ⟨_, _, hacceleration⟩ := bind_eq_ok.mp hacceleration
  obtain ⟨symbolCount, hsymbolCount, hacceleration⟩ := bind_eq_ok.mp hacceleration
  cases hacceleration
  obtain ⟨hsize, rfl⟩ := checkedU32_eq_ok.mp hsymbolCount
  have hhashCount : interner.encodeSymbolHashes.length = interner.entries.length :=
    List.length_map _
  have htableRead := decodeSymbolTable_written hversion hcount hpool hpoolSize hsize hbytes htable
  have hhashesRead := @decodeSymbolHashes_written _ reader interner.encodeSymbolHashes
    (hcount.trans hhashCount.symm) (hhashCount.symm ▸ hsize) (by rw [hhashes, hhashCount])
  have hlookupRead := decodeSymbolLookup_written hversion hcount hsize hlookup
  refine bind_eq_ok.mpr ⟨_, htableRead, bind_eq_ok.mpr ⟨_, hhashesRead, bind_eq_ok.mpr
    ⟨_, hlookupRead, ?_⟩⟩⟩
  subst hpool
  cases validation with
  | full =>
      have htables := @indexFullSymbolLookup_eq_ok _
        interner.entries 0 interner.encodeSymbolHashes (∅, ∅) hnodup hsize rfl
        ⟨fun _ _ h => (by cases h), fun _ _ h => (by cases h)⟩
      exact bind_eq_ok.mpr ⟨_, htables, rfl⟩
  | trustedFastLoad => rfl

end Lookup

end Hashed

end Snapshot

end SimpleZanzibar
