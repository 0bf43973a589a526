import SimpleZanzibar.Lib.Freezing
import SimpleZanzibar.SchemaOrder
import SimpleZanzibar.Snapshot.IndexGroups

/-!
# The sections of the indexes as they are written

Every index takes a part of the key section and a part of the range section, and its ranges
refer to a part of the section of the further rows.  The parts lie one after the other and
cover the sections.

**Results.**
* `SpansFrom.validateSpansCover`: parts that lie one after the other pass the check.
* `reads_readCompactKey`, `reads_readCompactSingleton`: keys are read as they were written.
* `encodeMultis_spec`, `encodeV3IndexGroup_spec`, `encodeIndexGroups_spec`: what is written.
-/

namespace SimpleZanzibar

namespace Snapshot

open ByteCursor

/-! ## Spans -/

/-- Spans that lie one after the other from a place to a place. -/
def SpansFrom : Nat → List (Nat × Nat) → Nat → Prop
  | start, [], stop => start = stop
  | start, span :: rest, stop => span.1 = start ∧ span.1 ≤ span.2 ∧ SpansFrom span.2 rest stop

theorem SpansFrom.append
    {start middle stop : Nat} {spans spans' : List (Nat × Nat)}
    (h : SpansFrom start spans middle)
    (h' : SpansFrom middle spans' stop) :
    SpansFrom start (spans ++ spans') stop := by
  induction spans generalizing start with
  | nil =>
      cases h
      exact h'
  | cons span rest ih => exact ⟨h.1, h.2.1, ih h.2.2⟩

/-- No span begins before the first place. -/
theorem SpansFrom.le
    {start stop : Nat} {spans : List (Nat × Nat)}
    (h : SpansFrom start spans stop) :
    ∀ span ∈ spans, start ≤ span.1 ∧ span.1 ≤ span.2 := by
  induction spans generalizing start with
  | nil => simp
  | cons span rest ih =>
      obtain ⟨hstart, hle, hrest⟩ := h
      refine List.forall_mem_cons.mpr ⟨⟨hstart.ge, hle⟩, fun other hother => ?_⟩
      obtain ⟨hfirst, hsecond⟩ := ih hrest other hother
      exact ⟨by omega, hsecond⟩

theorem SpansFrom.start_le
    {start stop : Nat} {spans : List (Nat × Nat)}
    (h : SpansFrom start spans stop) :
    start ≤ stop := by
  induction spans generalizing start with
  | nil => exact Nat.le_of_eq h
  | cons span rest ih => exact h.1 ▸ h.2.1.trans (ih h.2.2)

/-- No span ends behind the last place. -/
theorem SpansFrom.le_stop
    {start stop : Nat} {spans : List (Nat × Nat)}
    (h : SpansFrom start spans stop) :
    ∀ span ∈ spans, span.2 ≤ stop := by
  induction spans generalizing start with
  | nil => simp
  | cons span rest ih => exact List.forall_mem_cons.mpr ⟨h.2.2.start_le, ih h.2.2⟩

theorem SpansFrom.sorted
    {start stop : Nat} {spans : List (Nat × Nat)}
    (h : SpansFrom start spans stop) :
    spans.Pairwise spanLe := by
  induction spans generalizing start with
  | nil => exact List.Pairwise.nil
  | cons span rest ih =>
      obtain ⟨_, hle, hrest⟩ := h
      refine List.pairwise_cons.mpr ⟨fun other hother => ?_, ih hrest⟩
      obtain ⟨hfirst, hsecond⟩ := hrest.le other hother
      unfold spanLe
      omega

theorem SpansFrom.coverFrom
    {start stop : Nat} {spans : List (Nat × Nat)}
    (h : SpansFrom start spans stop)
    (reason : String) :
    coverFrom stop reason start spans = .ok () := by
  induction spans generalizing start with
  | nil => exact require_of h
  | cons span rest ih =>
      obtain ⟨hstart, hle, hrest⟩ := h
      exact require_bind_eq_ok.mpr ⟨by omega, ih hrest⟩

/-- Spans that lie one after the other cover their section. -/
theorem SpansFrom.validateSpansCover
    {stop : Nat} {spans : List (Nat × Nat)}
    (h : SpansFrom 0 spans stop)
    (reason : String) :
    validateSpansCover spans stop reason = .ok () := by
  rw [Snapshot.validateSpansCover, h.sorted.insertionSort_eq]
  exact h.coverFrom reason

/-! ## Keys -/

/-- The fields that an index does not use are zero, and the others are below a limit. -/
structure KeyFits (kind : IndexKind) (limit : Nat) (key : DiskIndexKey) : Prop where
  first : key.first < limit
  second : key.second < limit
  third : key.third < limit
  unusedSecond : ¬2 ≤ kind.keyFieldCount → key.second = 0
  unusedThird : ¬3 ≤ kind.keyFieldCount → key.third = 0

theorem reads_usedField
    {used : Prop} [Decidable used] {width : KeyWidth} {value : Nat}
    (hlt : value < 256 ^ width.byteLen)
    (hunused : ¬used → value = 0) :
    Reads (if used then width.readValue else pure 0)
      (if used then width.encodeValue value else []) value := by
  split_ifs with h
  · exact KeyWidth.reads_readValue hlt
  · rw [hunused h]
    exact reads_pure 0

theorem readCompactKey_eq
    (kind : IndexKind) (width : KeyWidth) :
    readCompactKey kind width = width.readValue >>= fun first =>
      (if 2 ≤ kind.keyFieldCount then width.readValue else pure 0) >>= fun second =>
        (if 3 ≤ kind.keyFieldCount then width.readValue else pure 0) >>= fun third =>
          pure ⟨first, second, third⟩ := by
  cases kind <;> rfl

theorem reads_readCompactKey
    {kind : IndexKind} {width : KeyWidth} {key : DiskIndexKey}
    (h : KeyFits kind (256 ^ width.byteLen) key) :
    Reads (readCompactKey kind width) (encodeV3Key kind width key) key := by
  rw [readCompactKey_eq, encodeV3Key, List.append_assoc]
  refine (KeyWidth.reads_readValue h.first).bind ?_
  refine (reads_usedField h.second h.unusedSecond).bind ?_
  exact (reads_usedField h.third h.unusedThird).map _

theorem length_encodeV3Key
    (kind : IndexKind) (width : KeyWidth) (key : DiskIndexKey) :
    (encodeV3Key kind width key).length = kind.keyFieldCount * width.byteLen := by
  cases kind <;> simp [encodeV3Key, IndexKind.keyFieldCount] <;> omega

/-- The entry of a key with its only row. -/
def singletonEntry (entry : DiskIndexKey × List Nat) : IndexEntry :=
  ⟨entry.1, ⟨entry.2.headD 0, 0, 0⟩⟩

theorem eq_singleton_of_isSingleton
    {entry : DiskIndexKey × List Nat}
    (h : isSingleton entry = true) :
    entry.2 = [entry.2.headD 0] := by
  obtain ⟨rowId, hrowId⟩ := List.length_eq_one_iff.mp (beq_iff_eq.mp h)
  rw [hrowId]
  rfl

theorem reads_readCompactSingleton
    {kind : IndexKind} {width : KeyWidth} {entry : DiskIndexKey × List Nat}
    (hkey : KeyFits kind (256 ^ width.byteLen) entry.1)
    (hsingle : isSingleton entry = true)
    (hrow : ∀ rowId ∈ entry.2, rowId ≤ u32Max) :
    Reads (readCompactSingleton kind width) (encodeSingleton kind width entry)
      (singletonEntry entry) := by
  have hentry := eq_singleton_of_isSingleton hsingle
  have hbound : entry.2.headD 0 ≤ u32Max := by
    apply hrow
    rw [hentry]
    exact List.mem_singleton_self _
  rw [encodeSingleton, hentry, List.flatMap_singleton]
  refine (reads_readCompactKey hkey).bind ?_
  exact (reads_readNat _ (lt_of_le_u32Max hbound)).map _

theorem length_encodeSingleton
    {kind : IndexKind} {width : KeyWidth} {entry : DiskIndexKey × List Nat}
    (hsingle : isSingleton entry = true) :
    (encodeSingleton kind width entry).length = kind.keyFieldCount * width.byteLen + rowIdLen := by
  rw [encodeSingleton, eq_singleton_of_isSingleton hsingle, List.flatMap_singleton,
    List.length_append, length_encodeV3Key, LittleEndian.length_encode, rowIdLen]

/-- The maximum of a key bounds the fields that are used. -/
theorem maxField_eq_ok
    {kind : IndexKind} {limit : Nat} {key : DiskIndexKey}
    (h : KeyFits kind limit key) :
    ∃ largest, key.maxField kind.keyFieldCount = .ok largest ∧ largest < limit ∧
      ∀ limit', largest < limit' → KeyFits kind limit' key := by
  obtain ⟨hfirst, hsecond, hthird, hunusedSecond, hunusedThird⟩ := h
  have hfits : ∀ largest, key.first ≤ largest → key.second ≤ largest → key.third ≤ largest →
      ∀ limit', largest < limit' → KeyFits kind limit' key := by
    intro largest h₁ h₂ h₃ limit' hlt
    exact ⟨by omega, by omega, by omega, hunusedSecond, hunusedThird⟩
  cases hcount : kind.keyFieldCount with
  | zero => cases kind <;> cases hcount
  | succ count =>
      rw [hcount] at hunusedSecond hunusedThird
      match count with
      | 0 => exact ⟨_, rfl, hfirst, hfits _ (by omega) (by omega) (by omega)⟩
      | 1 => exact ⟨_, rfl, by omega, hfits _ (by omega) (by omega) (by omega)⟩
      | 2 => exact ⟨_, rfl, by omega, hfits _ (by omega) (by omega) (by omega)⟩
      | count + 3 => cases kind <;> cases hcount

/-- The keys of a group fit the width that is chosen for it. -/
theorem keyFits_of_snapshotKeyWidth
    {kind : IndexKind} {group : DiskGroup} {width : KeyWidth}
    (hgroup : ∀ entry ∈ group, KeyFits kind (u32Max + 1) entry.1)
    (h : snapshotKeyWidth kind group = .ok width) :
    ∀ entry ∈ group, KeyFits kind (256 ^ width.byteLen) entry.1 := by
  obtain ⟨fields, hfields, h⟩ := bind_eq_ok.mp h
  cases h
  have hbound : fields.foldl max 0 ≤ u32Max := by
    refine foldl_max_le (fun field hfield => ?_) (Nat.zero_le _)
    obtain ⟨entry, hentry, hmax⟩ := exists_of_mem_mapM hfields hfield
    obtain ⟨largest, hlargest, hlt, _⟩ := maxField_eq_ok (hgroup entry hentry)
    rw [hlargest] at hmax
    cases hmax
    exact Nat.le_of_lt_succ hlt
  intro entry hentry
  obtain ⟨largest, hlargest, _, hfits⟩ := maxField_eq_ok (hgroup entry hentry)
  have hmem : largest ∈ fields := by
    obtain ⟨field, hfield, hmax⟩ := (mapM_eq_ok_iff.mp hfields).exists_right hentry
    rw [hlargest] at hmax
    cases hmax
    exact hfield
  exact hfits _ (KeyWidth.lt_of_forMax (le_foldl_max (.inl hmem)) hbound)

/-! ## Ranges -/

/-- The range starts with a row of the file, and its numbers can be written. -/
structure DiskPostingRange.Fits (range : DiskPostingRange) (rowCount : Nat) : Prop where
  firstRowId : 0 < range.firstRowId ∧ range.firstRowId ≤ rowCount
  overflowStart : range.overflowStart ≤ u32Max
  overflowLen : range.overflowLen ≤ u32Max

theorem DiskPostingRange.Fits.reads
    {range : DiskPostingRange} {rowCount : Nat}
    (h : range.Fits rowCount)
    (hrowCount : rowCount ≤ u32Max) :
    Reads DiskPostingRange.read range.encode range := by
  rw [DiskPostingRange.encode, List.append_assoc]
  refine (reads_readNat _ (lt_of_le_u32Max (h.firstRowId.2.trans hrowCount))).bind ?_
  refine (reads_readNat _ (lt_of_le_u32Max h.overflowStart)).bind ?_
  exact (reads_readNat _ (lt_of_le_u32Max h.overflowLen)).map _

theorem DiskPostingRange.length_encode
    (range : DiskPostingRange) :
    range.encode.length = postingRangeLen := by
  simp [DiskPostingRange.encode, postingRangeLen]

/-- The part of the section of further rows that a range refers to. -/
def DiskPostingRange.span (range : DiskPostingRange) : Nat × Nat :=
  (range.overflowStart, range.overflowStart + range.overflowLen)

/-- The range was written for these rows, and its bytes are in the section. -/
def RangeOf (postings : List UInt8) (entry : DiskIndexKey × List Nat)
    (range : DiskPostingRange) : Prop :=
  ∃ written bytes after,
    encodeV3PostingRange written.length entry.2 = .ok (range, entry.2.length - 1, bytes) ∧
      postings = written ++ bytes ++ after

theorem RangeOf.append
    {postings : List UInt8} {entry : DiskIndexKey × List Nat} {range : DiskPostingRange}
    (h : RangeOf postings entry range)
    (more : List UInt8) :
    RangeOf (postings ++ more) entry range := by
  obtain ⟨written, bytes, after, hrange, rfl⟩ := h
  exact ⟨written, bytes, after ++ more, hrange, by simp⟩

/-- What is written for several rows. -/
theorem encodeV3PostingRange_eq_ok
    {written rowCount : Nat} {rowIds : List Nat} {range : DiskPostingRange} {count : Nat}
    {bytes : List UInt8}
    (hbound : ∀ rowId ∈ rowIds, 0 < rowId ∧ rowId ≤ rowCount)
    (h : encodeV3PostingRange written rowIds = .ok (range, count, bytes)) :
    count = rowIds.length - 1 ∧
      range.Fits rowCount ∧ range.span = (written, written + bytes.length) ∧
      (1 < rowIds.length → range.overflowLen ≠ 0) := by
  cases rowIds with
  | nil => cases h
  | cons first rest =>
      obtain ⟨start, hstart, h⟩ := bind_eq_ok.mp h
      obtain ⟨overflow, hoverflow, h⟩ := bind_eq_ok.mp h
      obtain ⟨deltas, hdeltas, h⟩ := bind_eq_ok.mp h
      obtain ⟨length, hlength, h⟩ := bind_eq_ok.mp h
      cases h
      obtain ⟨hstartBound, rfl⟩ := checkedU32_eq_ok.mp hstart
      obtain ⟨_, rfl⟩ := checkedU32_eq_ok.mp hoverflow
      obtain ⟨hlengthBound, rfl⟩ := checkedU32_eq_ok.mp hlength
      refine ⟨rfl, ⟨hbound first List.mem_cons_self, hstartBound, hlengthBound⟩, rfl, ?_⟩
      intro hmany hzero
      cases rest with
      | nil => simp at hmany
      | cons second rest =>
          obtain ⟨_, hdeltas⟩ := require_bind_eq_ok.mp hdeltas
          obtain ⟨delta, hdelta, hdeltas⟩ := bind_eq_ok.mp hdeltas
          obtain ⟨others, _, hdeltas⟩ := bind_eq_ok.mp hdeltas
          cases hdeltas
          obtain ⟨_, hdelta⟩ := require_bind_eq_ok.mp hdelta
          cases hdelta
          have hpos := (length_deltaVarintBytes_le 4 (second - first)).1
          simp only [List.length_append] at hzero
          omega

theorem checkedAddU32_eq_ok
    {left right sum : Nat} {reason : String} :
    checkedAddU32 left right reason = .ok sum ↔ left + right ≤ u32Max ∧ left + right = sum := by
  rw [checkedAddU32]
  split_ifs with h
  · simp [h]
  · simp [h]

/-- The further rows of the keys of a group. -/
def overflowCount (group : DiskGroup) : Nat :=
  (group.map (fun entry => entry.2.length - 1)).sum

/-- The ranges of the keys with several rows, one after the other. -/
theorem encodeMultis_spec
    {kind : IndexKind} {width : KeyWidth} {multis : DiskGroup} {bytes result : IndexBytes}
    {rowCount : Nat}
    (hrows : ∀ entry ∈ multis, ∀ rowId ∈ entry.2, 0 < rowId ∧ rowId ≤ rowCount)
    (hmulti : ∀ entry ∈ multis, isMulti entry = true)
    (hcount : bytes.postingRowIdCount ≤ u32Max)
    (h : encodeMultis kind width multis bytes = .ok result) :
    ∃ ranges deltas, result = { bytes with
        keys := bytes.keys ++ multis.flatMap (fun entry => encodeV3Key kind width entry.1)
        ranges := bytes.ranges ++ ranges.flatMap DiskPostingRange.encode
        postingRowIds := bytes.postingRowIds ++ deltas
        postingRowIdCount := bytes.postingRowIdCount + overflowCount multis } ∧
      bytes.postingRowIdCount + overflowCount multis ≤ u32Max ∧
      (∀ range ∈ ranges, range.Fits rowCount ∧ range.overflowLen ≠ 0) ∧
      List.Forall₂ (RangeOf (bytes.postingRowIds ++ deltas)) multis ranges ∧
      SpansFrom bytes.postingRowIds.length (ranges.map (·.span))
        (bytes.postingRowIds ++ deltas).length := by
  induction multis generalizing bytes with
  | nil =>
      cases h
      refine ⟨[], [], ?_, hcount, by simp, .nil, by simp [SpansFrom]⟩
      simp [overflowCount]
  | cons entry multis ih =>
      obtain ⟨⟨range, overflow, deltas⟩, hrange, h⟩ := bind_eq_ok.mp h
      obtain ⟨total, htotal, h⟩ := bind_eq_ok.mp h
      obtain ⟨hrow, hrows⟩ := List.forall_mem_cons.mp hrows
      obtain ⟨hmany, hmulti⟩ := List.forall_mem_cons.mp hmulti
      obtain ⟨rfl, hfits, hspan, hlen⟩ := encodeV3PostingRange_eq_ok hrow hrange
      obtain ⟨hbound, rfl⟩ := checkedAddU32_eq_ok.mp htotal
      obtain ⟨ranges, more, rfl, hsum, hranges, hof, hspans⟩ := ih hrows hmulti hbound h
      refine ⟨range :: ranges, deltas ++ more, ?_, ?_, ?_, ?_, ?_⟩
      · simp [overflowCount, Nat.add_assoc]
      · simpa [overflowCount, Nat.add_assoc] using hsum
      · refine List.forall_mem_cons.mpr ⟨⟨hfits, hlen ?_⟩, hranges⟩
        simpa [isMulti] using hmany
      · rw [← List.append_assoc]
        refine .cons ?_ hof
        exact RangeOf.append ⟨bytes.postingRowIds, deltas, [], hrange, by simp⟩ more
      · rw [← List.append_assoc, List.map_cons]
        refine ⟨by rw [hspan], by rw [hspan]; exact Nat.le_add_right _ _, ?_⟩
        rw [hspan, ← List.length_append]
        exact hspans

/-! ## Groups -/

/-- The keys and the rows of a group can be written. -/
structure DiskGroup.Encodable (kind : IndexKind) (rowCount : Nat) (group : DiskGroup) :
    Prop where
  ordered : group.Ordered
  keys : ∀ entry ∈ group, KeyFits kind (u32Max + 1) entry.1
  rows : ∀ entry ∈ group, ∀ rowId ∈ entry.2, 0 < rowId ∧ rowId ≤ rowCount

/-- Every key of a group has one row or several rows. -/
theorem DiskGroup.Ordered.isMulti_eq
    {group : DiskGroup}
    (h : group.Ordered) :
    ∀ entry ∈ group, isMulti entry = !isSingleton entry := by
  intro entry hentry
  have hpos := List.length_pos_of_ne_nil (h.rows entry hentry).1
  unfold isMulti isSingleton
  cases hlen : entry.2.length with
  | zero => omega
  | succ n => cases n <;> simp

theorem DiskGroup.Ordered.length_filter
    {group : DiskGroup}
    (h : group.Ordered) :
    (group.filter isSingleton).length + (group.filter isMulti).length = group.length := by
  rw [List.filter_congr h.isMulti_eq]
  exact (List.length_eq_length_filter_add isSingleton).symm

/-- Keys with one row have no further rows. -/
theorem DiskGroup.Ordered.overflowCount_filter
    {group : DiskGroup}
    (h : group.Ordered) :
    overflowCount (group.filter isMulti) = overflowCount group := by
  have hrows := h.rows
  clear h
  induction group with
  | nil => rfl
  | cons entry rest ih =>
      obtain ⟨⟨hne, _⟩, hrest⟩ := List.forall_mem_cons.mp hrows
      have hpos := List.length_pos_of_ne_nil hne
      by_cases hmulti : isMulti entry = true
      · rw [List.filter_cons_of_pos hmulti]
        simpa [overflowCount] using ih hrest
      · rw [List.filter_cons_of_neg hmulti, ih hrest]
        simp only [isMulti, decide_eq_true_eq] at hmulti
        simp only [overflowCount, List.map_cons, List.sum_cons]
        omega

/-- The bytes of the keys of an index. -/
def groupKeyBytes (kind : IndexKind) (width : KeyWidth) (group : DiskGroup) : List UInt8 :=
  (group.filter isSingleton).flatMap (encodeSingleton kind width) ++
    (group.filter isMulti).flatMap (fun entry => encodeV3Key kind width entry.1)

theorem length_singletons
    (kind : IndexKind) (width : KeyWidth) (group : DiskGroup) :
    ((group.filter isSingleton).flatMap (encodeSingleton kind width)).length =
      (group.filter isSingleton).length * (kind.keyFieldCount * width.byteLen + rowIdLen) := by
  rw [List.length_flatMap, List.map_congr_left (fun entry hentry =>
    length_encodeSingleton (List.mem_filter.mp hentry).2)]
  simp

theorem length_multis
    (kind : IndexKind) (width : KeyWidth) (multis : DiskGroup) :
    (multis.flatMap (fun entry => encodeV3Key kind width entry.1)).length =
      multis.length * (kind.keyFieldCount * width.byteLen) := by
  simp [List.length_flatMap, length_encodeV3Key]

theorem keyLen_le
    (kind : IndexKind) (width : KeyWidth) :
    kind.keyFieldCount * width.byteLen ≤ 12 := by
  cases kind <;> cases width <;> decide

/-- The lengths that a load computes for an index. -/
theorem compactGroupLen_eq_ok
    {kind : IndexKind} {width : KeyWidth} {group : DiskGroup}
    (hordered : group.Ordered)
    (hsize : group.length ≤ u32Max) :
    compactGroupLen kind width (group.length - (group.filter isMulti).length)
        (group.filter isMulti).length =
      .ok (((group.filter isSingleton).flatMap (encodeSingleton kind width)).length,
        (groupKeyBytes kind width group).length) ∧
      (groupKeyBytes kind width group).length ≤ u32Max * 16 := by
  have hu32 : u32Max * 16 ≤ usizeMax := by decide
  have hsmall : 16 ≤ usizeMax := by decide
  have hlen := hordered.length_filter
  obtain ⟨keyLen, hkeyLen⟩ : ∃ keyLen, keyLen = kind.keyFieldCount * width.byteLen := ⟨_, rfl⟩
  have hkey : keyLen ≤ 12 := hkeyLen ▸ keyLen_le kind width
  have hsub : group.length - (group.filter isMulti).length = (group.filter isSingleton).length := by
    omega
  rw [hsub, groupKeyBytes, List.length_append, length_singletons, length_multis, ← hkeyLen]
  generalize (group.filter isSingleton).length = singles at *
  generalize (group.filter isMulti).length = multis at *
  have hrow : rowIdLen = 4 := rfl
  have hfirst : singles * (keyLen + rowIdLen) ≤ singles * 16 :=
    Nat.mul_le_mul_left _ (by omega)
  have hsecond : multis * keyLen ≤ multis * 12 := Nat.mul_le_mul_left _ hkey
  have htotal : singles * (keyLen + rowIdLen) + multis * keyLen ≤ u32Max * 16 := by omega
  refine ⟨?_, htotal⟩
  refine bind_eq_ok.mpr ⟨_, checkedMulUsize_eq_ok.mpr ⟨?_, hkeyLen.symm⟩, ?_⟩
  · rw [← hkeyLen]
    omega
  refine bind_eq_ok.mpr ⟨_, checkedAddUsize_eq_ok.mpr ⟨by omega, rfl⟩, ?_⟩
  refine bind_eq_ok.mpr ⟨_, checkedMulUsize_eq_ok.mpr ⟨by omega, rfl⟩, ?_⟩
  refine bind_eq_ok.mpr ⟨_, checkedMulUsize_eq_ok.mpr ⟨by omega, rfl⟩, ?_⟩
  exact bind_eq_ok.mpr ⟨_, checkedAddUsize_eq_ok.mpr ⟨by omega, rfl⟩, rfl⟩

/-- The sections, as far as they are written, hold these ranges. -/
structure IndexBytes.Lists (bytes : IndexBytes) (rowCount : Nat) (ranges : List DiskPostingRange) :
    Prop where
  encoded : bytes.ranges = ranges.flatMap DiskPostingRange.encode
  rangeCount : bytes.rangeCount = ranges.length
  fits : ∀ range ∈ ranges, range.Fits rowCount ∧ range.overflowLen ≠ 0
  spans : SpansFrom 0 (ranges.map (·.span)) bytes.postingRowIds.length
  keyCount_le : bytes.keyCount ≤ u32Max
  rangeCount_le : bytes.rangeCount ≤ u32Max
  postingRowIdCount_le : bytes.postingRowIdCount ≤ u32Max

/-- The place of an index in the sections. -/
structure GroupPlaced (kind : IndexKind) (group : DiskGroup) (keys : List UInt8)
    (ranges : List DiskPostingRange) (postings : List UInt8) (entry : IndexDirectoryEntry) :
    Prop where
  sameKind : entry.kind = kind
  keyCount : entry.keyCount = group.length
  keyCount_le : group.length ≤ u32Max
  keyPlace : ∃ width before after, entry.encoding = .compactV3 width ∧
    (∀ member ∈ group, KeyFits kind (256 ^ width.byteLen) member.1) ∧
    keys = before ++ groupKeyBytes kind width group ++ after ∧ before.length = entry.keyStart ∧
    before.length ≤ u32Max
  rangePlace : ∃ before own after, ranges = before ++ own ++ after ∧
    before.length = entry.postingRangeStart ∧ own.length = entry.postingRangeCount ∧
    List.Forall₂ (RangeOf postings) (group.filter isMulti) own ∧
    before.length + own.length ≤ u32Max

/-- What is written later leaves the place as it is. -/
theorem GroupPlaced.append
    {kind : IndexKind} {group : DiskGroup} {keys postings : List UInt8}
    {ranges : List DiskPostingRange} {entry : IndexDirectoryEntry}
    (h : GroupPlaced kind group keys ranges postings entry)
    (moreKeys : List UInt8) (moreRanges : List DiskPostingRange) (morePostings : List UInt8) :
    GroupPlaced kind group (keys ++ moreKeys) (ranges ++ moreRanges) (postings ++ morePostings)
      entry := by
  obtain ⟨width, before, after, hencoding, hfits, hkeys, hbefore⟩ := h.keyPlace
  obtain ⟨first, own, last, hranges, hstart, hcount, hof, hbound⟩ := h.rangePlace
  refine ⟨h.sameKind, h.keyCount, h.keyCount_le,
    ⟨width, before, after ++ moreKeys, hencoding, hfits,
    by simp [hkeys], hbefore⟩, ⟨first, own, last ++ moreRanges, by simp [hranges], hstart, hcount,
    ?_, hbound⟩⟩
  exact hof.imp (fun _ _ hrange => hrange.append morePostings)

/-- What one index adds. -/
theorem encodeV3IndexGroup_spec
    {kind : IndexKind} {group : DiskGroup} {bytes result : IndexBytes}
    {entry : IndexDirectoryEntry} {ranges : List DiskPostingRange} {rowCount : Nat}
    (hgroup : group.Encodable kind rowCount)
    (hlists : bytes.Lists rowCount ranges)
    (h : encodeV3IndexGroup kind group bytes = .ok (entry, result)) :
    ∃ keys own postings, result.keys = bytes.keys ++ keys ∧
      result.postingRowIds = bytes.postingRowIds ++ postings ∧
      result.Lists rowCount (ranges ++ own) ∧
      GroupPlaced kind group result.keys (ranges ++ own) result.postingRowIds entry ∧
      result.keyCount = bytes.keyCount + entry.keyCount ∧
      result.rangeCount = bytes.rangeCount + entry.postingRangeCount ∧
      result.postingRowIdCount = bytes.postingRowIdCount + overflowCount group ∧
      ∀ keyLen rangesLen, result.keys.length ≤ keyLen → result.rangeCount ≤ rangesLen →
        compactEntrySpans keyLen rangesLen entry =
          .ok ((bytes.keys.length, result.keys.length), (bytes.rangeCount, result.rangeCount)) := by
  obtain ⟨keyStart, hkeyStart, h⟩ := bind_eq_ok.mp h
  obtain ⟨keyCount, hkeyCount, h⟩ := bind_eq_ok.mp h
  obtain ⟨multiCount, hmultiCount, h⟩ := bind_eq_ok.mp h
  obtain ⟨width, hwidth, h⟩ := bind_eq_ok.mp h
  obtain ⟨written, hwritten, h⟩ := bind_eq_ok.mp h
  obtain ⟨totalKeys, htotalKeys, h⟩ := bind_eq_ok.mp h
  obtain ⟨totalRanges, htotalRanges, h⟩ := bind_eq_ok.mp h
  cases h
  obtain ⟨hkeysBound, rfl⟩ := checkedU32_eq_ok.mp hkeyStart
  obtain ⟨hgroupBound, rfl⟩ := checkedU32_eq_ok.mp hkeyCount
  obtain ⟨_, rfl⟩ := checkedU32_eq_ok.mp hmultiCount
  obtain ⟨hkeysTotal, rfl⟩ := checkedAddU32_eq_ok.mp htotalKeys
  obtain ⟨hrangesTotal, rfl⟩ := checkedAddU32_eq_ok.mp htotalRanges
  obtain ⟨own, postings, rfl, hsum, hown, hof, hspans⟩ := encodeMultis_spec
    (fun member hmember => hgroup.rows member (List.mem_filter.mp hmember).1)
    (fun member hmember => (List.mem_filter.mp hmember).2) (by exact hlists.postingRowIdCount_le)
    hwritten
  rw [hgroup.ordered.overflowCount_filter] at hsum
  have hownLen : own.length = (group.filter isMulti).length := hof.length_eq.symm
  have hkeys : bytes.keys ++ (group.filter isSingleton).flatMap (encodeSingleton kind width) ++
      (group.filter isMulti).flatMap (fun entry => encodeV3Key kind width entry.1) =
        bytes.keys ++ groupKeyBytes kind width group := by
    rw [groupKeyBytes, List.append_assoc]
  obtain ⟨hgroupLen, hgroupBytes⟩ := @compactGroupLen_eq_ok kind width group hgroup.ordered
    hgroupBound
  refine ⟨groupKeyBytes kind width group, own, postings, hkeys, rfl, ?_, ?_, rfl, rfl, ?_, ?_⟩
  · refine ⟨by simp [hlists.encoded], ?_, ?_, ?_, hkeysTotal, hrangesTotal, ?_⟩
    · simp [hlists.rangeCount, hownLen]
    · exact List.forall_mem_append.mpr ⟨hlists.fits, hown⟩
    · rw [List.map_append]
      exact hlists.spans.append hspans
    · rw [hgroup.ordered.overflowCount_filter]
      exact hsum
  · refine ⟨rfl, rfl, hgroupBound, ?_, ?_⟩
    · refine ⟨width, bytes.keys, [], rfl, keyFits_of_snapshotKeyWidth hgroup.keys hwidth, ?_, rfl,
        hkeysBound⟩
      rw [List.append_nil]
      exact hkeys
    · refine ⟨ranges, own, [], by simp, hlists.rangeCount.symm, hownLen, hof, ?_⟩
      rw [hownLen, ← hlists.rangeCount]
      exact hrangesTotal
  · rw [hgroup.ordered.overflowCount_filter]
  · intro keyLen rangesLen hkeyLen hrangesLen
    have hu32 : u32Max * 17 ≤ usizeMax := by decide
    have hmultiLe : (group.filter isMulti).length ≤ group.length := List.length_filter_le _ _
    simp only [hkeys] at hkeyLen ⊢
    simp only [List.length_append] at hkeyLen ⊢
    have hkeyEnd : bytes.keys.length + (groupKeyBytes kind width group).length ≤ usizeMax := by
      omega
    have hrangeEnd : bytes.rangeCount + (group.filter isMulti).length ≤ usizeMax := by
      omega
    have hspan : compactIndexKeySpan ⟨kind, .compactV3 width, bytes.keys.length, group.length,
        bytes.rangeCount, (group.filter isMulti).length⟩ width =
          .ok (bytes.keys.length, bytes.keys.length + (groupKeyBytes kind width group).length) := by
      refine require_bind_eq_ok.mpr ⟨hmultiLe, bind_eq_ok.mpr ⟨_, hgroupLen, ?_⟩⟩
      exact bind_eq_ok.mpr ⟨_, checkedAddUsize_eq_ok.mpr ⟨hkeyEnd, rfl⟩, rfl⟩
    refine bind_eq_ok.mpr ⟨_, hspan, require_bind_eq_ok.mpr ⟨hkeyLen, ?_⟩⟩
    refine bind_eq_ok.mpr ⟨(bytes.rangeCount, bytes.rangeCount + (group.filter isMulti).length), ?_,
      require_bind_eq_ok.mpr ⟨hrangesLen, rfl⟩⟩
    exact bind_eq_ok.mpr ⟨_, checkedAddUsize_eq_ok.mpr ⟨hrangeEnd, rfl⟩, rfl⟩

/-- What the indexes add, one after the other. -/
theorem encodeIndexGroups_spec
    {groupOf : IndexKind → DiskGroup} {kinds : List IndexKind} {bytes result : IndexBytes}
    {entries : List IndexDirectoryEntry} {ranges : List DiskPostingRange} {rowCount : Nat}
    (hgroups : ∀ kind ∈ kinds, (groupOf kind).Encodable kind rowCount)
    (hlists : bytes.Lists rowCount ranges)
    (h : encodeIndexGroups groupOf kinds bytes = .ok (entries, result)) :
    ∃ keys own postings spans, result.keys = bytes.keys ++ keys ∧
      result.postingRowIds = bytes.postingRowIds ++ postings ∧
      result.Lists rowCount (ranges ++ own) ∧
      List.Forall₂ (fun kind => GroupPlaced kind (groupOf kind) result.keys (ranges ++ own)
        result.postingRowIds) kinds entries ∧
      result.keyCount = bytes.keyCount + (entries.map (·.keyCount)).sum ∧
      result.rangeCount = bytes.rangeCount + (entries.map (·.postingRangeCount)).sum ∧
      result.postingRowIdCount =
        bytes.postingRowIdCount + (kinds.map (fun kind => overflowCount (groupOf kind))).sum ∧
      (∀ keyLen rangesLen, result.keys.length ≤ keyLen → result.rangeCount ≤ rangesLen →
        entries.mapM (compactEntrySpans keyLen rangesLen) = .ok spans) ∧
      SpansFrom bytes.keys.length (spans.map (·.1)) result.keys.length ∧
      SpansFrom bytes.rangeCount (spans.map (·.2)) result.rangeCount := by
  induction kinds generalizing bytes entries ranges with
  | nil =>
      cases h
      exact ⟨[], [], [], [], by simp, by simp, by simpa using hlists, .nil, rfl, rfl, rfl,
        fun _ _ _ _ => rfl, rfl, rfl⟩
  | cons kind kinds ih =>
      obtain ⟨⟨entry, middle⟩, hentry, h⟩ := bind_eq_ok.mp h
      obtain ⟨⟨others, last⟩, hothers, h⟩ := bind_eq_ok.mp h
      cases h
      obtain ⟨hgroup, hgroups⟩ := List.forall_mem_cons.mp hgroups
      obtain ⟨keys, own, postings, hkeys, hpostings, hmiddle, hplaced, hkeyCount, hrangeCount,
        hcount, hspan⟩ := encodeV3IndexGroup_spec hgroup hlists hentry
      obtain ⟨keys', own', postings', spans, hkeys', hpostings', hfinal, hplaced', hkeyCount',
        hrangeCount', hcount', hspans, hkeySpans, hrangeSpans⟩ := ih hgroups hmiddle hothers
      have hkeyLe : middle.keys.length ≤ result.keys.length := by
        rw [hkeys', List.length_append]
        exact Nat.le_add_right _ _
      have hplacedFinal := hplaced.append keys' own' postings'
      rw [← hkeys', ← hpostings', List.append_assoc] at hplacedFinal
      rw [List.append_assoc] at hfinal hplaced'
      refine ⟨keys ++ keys', own ++ own', postings ++ postings',
        ((bytes.keys.length, middle.keys.length), (bytes.rangeCount, middle.rangeCount)) :: spans,
        by simp [hkeys', hkeys], by simp [hpostings', hpostings], hfinal,
        .cons hplacedFinal hplaced', ?_, ?_, ?_, ?_, ?_, ?_⟩
      · simp [hkeyCount', hkeyCount, Nat.add_assoc]
      · simp [hrangeCount', hrangeCount, Nat.add_assoc]
      · simp [hcount', hcount, Nat.add_assoc]
      · intro keyLen rangesLen hkeyLen hrangesLen
        rw [List.mapM_cons, hspan keyLen rangesLen (by omega) (by omega)]
        exact bind_eq_ok.mpr ⟨_, rfl, bind_eq_ok.mpr
          ⟨spans, hspans keyLen rangesLen hkeyLen hrangesLen, rfl⟩⟩
      · refine ⟨rfl, ?_, hkeySpans⟩
        rw [hkeys, List.length_append]
        exact Nat.le_add_right _ _
      · refine ⟨rfl, ?_, hrangeSpans⟩
        rw [hrangeCount]
        exact Nat.le_add_right _ _

/-! ## The directory -/

/-- An entry of the directory that can be written. -/
structure IndexDirectoryEntry.Storable (entry : IndexDirectoryEntry) : Prop where
  encoding : ∃ width, entry.encoding = .compactV3 width
  keyStart : entry.keyStart ≤ u32Max
  keyCount : entry.keyCount ≤ u32Max
  postingRangeStart : entry.postingRangeStart ≤ u32Max
  postingRangeCount : entry.postingRangeCount ≤ u32Max

theorem GroupPlaced.storable
    {kind : IndexKind} {group : DiskGroup} {keys postings : List UInt8}
    {ranges : List DiskPostingRange} {entry : IndexDirectoryEntry}
    (h : GroupPlaced kind group keys ranges postings entry) :
    entry.Storable := by
  obtain ⟨width, _, _, hencoding, _, _, hstart, hbound⟩ := h.keyPlace
  obtain ⟨_, _, _, _, hrangeStart, hrangeCount, _, hrangeBound⟩ := h.rangePlace
  have hcount := h.keyCount_le
  have heq := h.keyCount
  exact ⟨⟨width, hencoding⟩, by omega, by omega, by omega, by omega⟩

theorem IndexKind.fromRaw_raw
    (kind : IndexKind) :
    IndexKind.fromRaw kind.raw = .ok kind := by
  cases kind <;> rfl

theorem IndexEncoding.fromFlags_flags
    (width : KeyWidth) :
    IndexEncoding.fromFlags (IndexEncoding.compactV3 width).flags = .ok (.compactV3 width) := by
  cases width <;> rfl

/-- The entries of the directory are read as they were written. -/
theorem reads_readIndexDirectory
    {seen entries : List IndexDirectoryEntry}
    (hstorable : ∀ entry ∈ entries, entry.Storable)
    (hnodup : ((seen ++ entries).map (·.kind)).Nodup) :
    Reads (readIndexDirectory entries.length seen) (entries.flatMap encodeIndexDirectoryEntry)
      (seen ++ entries) := by
  induction entries generalizing seen with
  | nil =>
      rw [List.append_nil]
      exact reads_pure seen
  | cons entry rest ih =>
      obtain ⟨hentry, hrest⟩ := List.forall_mem_cons.mp hstorable
      obtain ⟨width, hencoding⟩ := hentry.encoding
      have hraw : entry.kind.raw < 256 ^ 2 := by
        cases entry.kind <;> decide
      have hflags : entry.encoding.flags < 256 ^ 2 := by
        rw [hencoding]
        cases width <;> decide
      have hunseen : ∀ other ∈ seen, other.kind ≠ entry.kind := by
        intro other hother
        rw [List.map_append, List.map_cons] at hnodup
        exact (List.nodup_append.mp hnodup).2.2 _ (List.mem_map.mpr ⟨other, hother, rfl⟩) _
          List.mem_cons_self
      have hfirst : Reads (readIndexDirectoryEntry seen) (encodeIndexDirectoryEntry entry)
          entry := by
        simp only [encodeIndexDirectoryEntry, List.append_assoc]
        refine (reads_readNat _ hraw).bind ?_
        refine Reads.lift_bind (IndexKind.fromRaw_raw _) ?_
        refine (reads_readNat _ hflags).bind ?_
        refine Reads.lift_bind (by rw [hencoding]; exact IndexEncoding.fromFlags_flags width) ?_
        refine Reads.lift_bind (require_of hunseen) ?_
        refine (reads_readNat _ (lt_of_le_u32Max hentry.keyStart)).bind ?_
        refine (reads_readNat _ (lt_of_le_u32Max hentry.keyCount)).bind ?_
        refine (reads_readNat _ (lt_of_le_u32Max hentry.postingRangeStart)).bind ?_
        refine (reads_readNat _ (lt_of_le_u32Max hentry.postingRangeCount)).bind_last ?_
        have heq : (⟨entry.kind, .compactV3 width, entry.keyStart, entry.keyCount,
            entry.postingRangeStart, entry.postingRangeCount⟩ : IndexDirectoryEntry) = entry := by
          rw [← hencoding]
        rw [← heq]
        exact reads_pure _
      have hothers := @ih (seen ++ [entry]) hrest (by simpa using hnodup)
      rw [List.append_assoc] at hothers
      exact hfirst.bind hothers

end Snapshot

end SimpleZanzibar
