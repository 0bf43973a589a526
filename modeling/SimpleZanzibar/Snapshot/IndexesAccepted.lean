import SimpleZanzibar.Snapshot.IndexesWritten
import SimpleZanzibar.Snapshot.LoadCorrect

/-!
# A full load accepts the indexes of a saved store

The reader checks every posting against the rows and compares the masks of the rows with what
the index has to hold.  The writer enters every row under all its keys and once, so that no
posting is found twice and no bit is left out.

**Results.**
* `IndexDecoder.Complete`: the keys of the writer are the keys of the reader.
* `exists_postRow_foldlM`, `exists_postEntry_foldlM`: the postings are accepted.
* `exists_decodeIndex`, `exists_decodeAllIndexes`: the indexes are accepted.
-/

namespace SimpleZanzibar

namespace Snapshot

/-! ## Masks -/

theorem le_three_iff
    {mask : UInt8} :
    mask ≤ 3 ↔ mask = 0 ∨ mask = 1 ∨ mask = 2 ∨ mask = 3 := by
  rw [UInt8.le_iff_toNat_le]
  simp only [← UInt8.toNat_inj]
  show mask.toNat ≤ 3 ↔ mask.toNat = 0 ∨ mask.toNat = 1 ∨ mask.toNat = 2 ∨ mask.toNat = 3
  omega

/-- Masks of two bits with the same bits are equal. -/
theorem mask_ext
    {a b : UInt8}
    (ha : a ≤ 3)
    (hb : b ≤ 3)
    (h : ∀ bit, IsBit bit → (a &&& bit ≠ 0 ↔ b &&& bit ≠ 0)) :
    a = b := by
  have hone := h 1 (.inl rfl)
  have htwo := h 2 (.inr rfl)
  clear h
  rcases le_three_iff.mp ha with rfl | rfl | rfl | rfl <;>
    rcases le_three_iff.mp hb with rfl | rfl | rfl | rfl <;> revert hone htwo <;> decide

theorem IsBit.or_le
    {mask bit : UInt8}
    (hbit : IsBit bit)
    (hmask : mask ≤ 3) :
    mask ||| bit ≤ 3 := by
  rcases le_three_iff.mp hmask with rfl | rfl | rfl | rfl <;> rcases hbit with rfl | rfl <;> decide

theorem IsBit.ne_zero
    {bit : UInt8}
    (h : IsBit bit) :
    bit ≠ 0 := by
  rcases h with rfl | rfl <;> decide

/-! ## Keys of the writer and of the reader -/

/-- The symbols of a row are symbols of the file. -/
structure RowBelow (symbolCount : Nat) (row : RowIdentity) : Prop where
  resourceType : row.resourceType.index < symbolCount
  resourceId : row.resourceId.index < symbolCount
  relation : row.relation.index < symbolCount
  subjectType : row.subjectType.index < symbolCount
  subjectId : row.subjectId.index < symbolCount
  subjectRelation : ∀ relation ∈ row.subjectRelation, relation.index < symbolCount

/-- The writer enters a row under all its keys, and the reader takes these keys back. -/
structure IndexDecoder.Complete {K : Type} (decoder : IndexDecoder K)
    (keysOf : RowIdentity → List K) (diskKey : K → DiskIndexKey) (bit : K → UInt8) :
    Prop where
  keyFromDisk : ∀ {row symbolCount}, RowBelow symbolCount row → ∀ key ∈ keysOf row,
    decoder.keyFromDisk (diskKey key) symbolCount = .ok key
  rowMatches : ∀ {row key}, key ∈ keysOf row → decoder.rowMatchesKey row (diskKey key) = true
  diskKeys : ∀ row, diskKeys (DiskRow.ofRow row) decoder.kind = (keysOf row).map diskKey
  expected_le : ∀ row, decoder.expectedMask row ≤ 3
  expected : ∀ {row b}, IsBit b → decoder.expectedMask row &&& b ≠ 0 →
    ∃ key ∈ keysOf row, bit key = b
  required : ∀ indexProfile,
    kindRequired indexProfile decoder.kind = decoder.requiredByProfile indexProfile

theorem ensureZero_zero
    (reason : String) :
    ensureZero 0 reason = .ok () :=
  require_of rfl

/-- An index that holds a row under at most one key. -/
theorem complete_simple
    {K : Type} {decoder : IndexDecoder K} {diskKey : K → DiskIndexKey}
    (keyOf : RowIdentity → Option K)
    (hfrom : ∀ row symbolCount, RowBelow symbolCount row → ∀ key, keyOf row = some key →
      decoder.keyFromDisk (diskKey key) symbolCount = .ok key)
    (hmatches : ∀ row key, keyOf row = some key →
      decoder.rowMatchesKey row (diskKey key) = true)
    (hdisk : ∀ row, diskKeys (DiskRow.ofRow row) decoder.kind = ((keyOf row).map diskKey).toList)
    (hexpected : ∀ row, decoder.expectedMask row = if (keyOf row).isSome = true then 1 else 0)
    (hrequired : ∀ indexProfile,
      kindRequired indexProfile decoder.kind = decoder.requiredByProfile indexProfile) :
    decoder.Complete (fun row => (keyOf row).toList) diskKey (fun _ => 1) where
  keyFromDisk {row symbolCount} hbelow key hkey :=
    hfrom row symbolCount hbelow key (Option.mem_toList.mp hkey)
  rowMatches {row key} hkey := hmatches row key (Option.mem_toList.mp hkey)
  diskKeys row := by
    rw [hdisk]
    cases keyOf row <;> rfl
  expected_le row := by
    rw [hexpected]
    split_ifs <;> decide
  expected {row b} hb hne := by
    rw [hexpected] at hne
    cases hkey : keyOf row with
    | none =>
        rw [hkey] at hne
        exact absurd UInt8.zero_and hne
    | some key =>
        rw [hkey] at hne
        refine ⟨key, Option.mem_toList.mpr rfl, ?_⟩
        rcases hb with rfl | rfl
        · rfl
        · exact absurd (by decide : (1 : UInt8) &&& 2 = 0) hne
  required := hrequired

theorem complete_resource :
    resourceDecoder.Complete (fun row => [row.resourceKey]) resourceKeyToDisk (fun _ => 1) := by
  refine complete_simple (fun row => some row.resourceKey) ?_ ?_ (fun _ => rfl) (fun _ => rfl)
    (fun _ => rfl)
  · rintro row symbolCount hbelow key ⟨⟩
    exact bind_eq_ok.mpr ⟨_, symbolId_fromSnapshotRaw_get hbelow.resourceType, bind_eq_ok.mpr
      ⟨_, symbolId_fromSnapshotRaw_get hbelow.resourceId, bind_eq_ok.mpr
      ⟨_, symbolId_fromSnapshotRaw_get hbelow.relation, rfl⟩⟩⟩
  · rintro row key ⟨⟩
    simp [resourceDecoder, rowMatchesResourceKey, resourceKeyToDisk, RowIdentity.resourceKey]

theorem complete_resourceObject :
    resourceObjectDecoder.Complete (fun row => [row.resourceObjectKey]) resourceObjectKeyToDisk
      (fun _ => 1) := by
  refine complete_simple (fun row => some row.resourceObjectKey) ?_ ?_ (fun _ => rfl)
    (fun _ => rfl) (fun _ => rfl)
  · rintro row symbolCount hbelow key ⟨⟩
    exact bind_eq_ok.mpr ⟨_, ensureZero_zero _, bind_eq_ok.mpr
      ⟨_, symbolId_fromSnapshotRaw_get hbelow.resourceType, bind_eq_ok.mpr
      ⟨_, symbolId_fromSnapshotRaw_get hbelow.resourceId, rfl⟩⟩⟩
  · rintro row key ⟨⟩
    simp [resourceObjectDecoder, rowMatchesResourceObjectKey, resourceObjectKeyToDisk,
      RowIdentity.resourceObjectKey]

theorem complete_resourceTypeRelation :
    resourceTypeRelationDecoder.Complete (fun row => [row.resourceTypeRelationKey])
      resourceTypeRelationKeyToDisk (fun _ => 1) := by
  refine complete_simple (fun row => some row.resourceTypeRelationKey) ?_ ?_ (fun _ => rfl)
    (fun _ => rfl) (fun _ => rfl)
  · rintro row symbolCount hbelow key ⟨⟩
    exact bind_eq_ok.mpr ⟨_, ensureZero_zero _, bind_eq_ok.mpr
      ⟨_, symbolId_fromSnapshotRaw_get hbelow.resourceType, bind_eq_ok.mpr
      ⟨_, symbolId_fromSnapshotRaw_get hbelow.relation, rfl⟩⟩⟩
  · rintro row key ⟨⟩
    simp [resourceTypeRelationDecoder, rowMatchesResourceTypeRelationKey,
      resourceTypeRelationKeyToDisk, RowIdentity.resourceTypeRelationKey]

theorem complete_resourceType :
    resourceTypeDecoder.Complete (fun row => [row.resourceType]) symbolKeyToDisk
      (fun _ => 1) := by
  refine complete_simple (fun row => some row.resourceType) ?_ ?_ (fun _ => rfl) (fun _ => rfl)
    (fun _ => rfl)
  · rintro row symbolCount hbelow key ⟨⟩
    exact bind_eq_ok.mpr ⟨_, ensureZero_zero _, bind_eq_ok.mpr ⟨_, ensureZero_zero _,
      symbolId_fromSnapshotRaw_get hbelow.resourceType⟩⟩
  · rintro row key ⟨⟩
    simp [resourceTypeDecoder, rowMatchesResourceTypeKey, symbolKeyToDisk]

theorem complete_subjectType :
    subjectTypeDecoder.Complete (fun row => [row.subjectType]) symbolKeyToDisk
      (fun _ => 1) := by
  refine complete_simple (fun row => some row.subjectType) ?_ ?_ (fun _ => rfl) (fun _ => rfl) ?_
  · rintro row symbolCount hbelow key ⟨⟩
    exact bind_eq_ok.mpr ⟨_, ensureZero_zero _, bind_eq_ok.mpr ⟨_, ensureZero_zero _,
      symbolId_fromSnapshotRaw_get hbelow.subjectType⟩⟩
  · rintro row key ⟨⟩
    simp [subjectTypeDecoder, rowMatchesSubjectTypeKey, symbolKeyToDisk]
  · intro indexProfile
    cases indexProfile <;> rfl

theorem complete_subjectTypeRelation :
    subjectTypeRelationDecoder.Complete (fun row => row.subjectTypeRelationKey.toList)
      subjectTypeRelationKeyToDisk (fun _ => 1) := by
  refine complete_simple RowIdentity.subjectTypeRelationKey ?_ ?_ ?_ ?_ ?_
  · intro row symbolCount hbelow key hkey
    obtain ⟨relation, hrelation, rfl⟩ := Option.map_eq_some_iff.mp hkey
    exact bind_eq_ok.mpr ⟨_, ensureZero_zero _, bind_eq_ok.mpr
      ⟨_, symbolId_fromSnapshotRaw_get hbelow.subjectType, bind_eq_ok.mpr
      ⟨_, symbolId_fromSnapshotRaw_get (hbelow.subjectRelation relation hrelation), rfl⟩⟩⟩
  · intro row key hkey
    obtain ⟨relation, hrelation, rfl⟩ := Option.map_eq_some_iff.mp hkey
    simp [subjectTypeRelationDecoder, rowMatchesSubjectTypeRelationKey,
      subjectTypeRelationKeyToDisk, hrelation]
  · intro row
    have hpos : ∀ relation : SymbolId, relation.value.get ≠ 0 :=
      fun relation => Nat.ne_of_gt relation.value.pos
    cases hrelation : row.subjectRelation <;>
      simp [subjectTypeRelationDecoder, diskKeys, DiskRow.ofRow, hrelation, hpos,
        RowIdentity.subjectTypeRelationKey, subjectTypeRelationKeyToDisk]
  · intro row
    simp [subjectTypeRelationDecoder, RowIdentity.subjectTypeRelationKey]
  · intro indexProfile
    cases indexProfile <;> rfl

theorem complete_subject :
    subjectDecoder.Complete RowIdentity.subjectKeys subjectKeyToDisk subjectBit where
  keyFromDisk := by
    intro row symbolCount hbelow key hkey
    obtain ⟨htype, hid, hrelation⟩ := mem_subjectKeys_iff.mp hkey
    have hoptional : optionalSymbolFromDisk (optionalRaw key.relation) symbolCount =
        .ok key.relation := by
      cases hown : key.relation with
      | none => rfl
      | some relation =>
          have hmem : row.subjectRelation = some relation := by
            rw [hown] at hrelation
            exact (hrelation.resolve_left (by simp)).symm
          rw [optionalRaw, optionalSymbolFromDisk, if_neg (Nat.ne_of_gt relation.value.pos),
            symbolId_fromSnapshotRaw_get (hbelow.subjectRelation relation hmem)]
          rfl
    refine bind_eq_ok.mpr ⟨_, hoptional, bind_eq_ok.mpr
      ⟨_, symbolId_fromSnapshotRaw_get (htype ▸ hbelow.subjectType), bind_eq_ok.mpr
      ⟨_, symbolId_fromSnapshotRaw_get (hid ▸ hbelow.subjectId), rfl⟩⟩⟩
  rowMatches := by
    intro row key hkey
    obtain ⟨htype, hid, hrelation⟩ := mem_subjectKeys_iff.mp hkey
    simp only [subjectDecoder, rowMatchesSubjectKey, subjectKeyToDisk, htype, hid, beq_self_eq_true,
      Bool.and_true, Bool.true_and]
    rcases hrelation with hnone | hsame
    · rw [hnone]
      cases row.subjectRelation <;> rfl
    · rw [hsame]
      cases row.subjectRelation with
      | none => rfl
      | some relation => simp [optionalRaw]
  diskKeys row := by
    have hpos : ∀ relation : SymbolId, relation.value.get ≠ 0 :=
      fun relation => Nat.ne_of_gt relation.value.pos
    cases hrelation : row.subjectRelation <;>
      simp [subjectDecoder, Snapshot.diskKeys, DiskRow.ofRow, hrelation, hpos,
        RowIdentity.subjectKeys, subjectKeyToDisk, optionalRaw]
  expected_le row := by
    show (if row.subjectRelation.isSome = true then 3 else 1 : UInt8) ≤ 3
    split_ifs <;> decide
  expected := by
    intro row b hb hne
    change (if row.subjectRelation.isSome = true then 3 else 1) &&& b ≠ 0 at hne
    rcases hb with rfl | rfl
    · exact ⟨⟨row.subjectType, row.subjectId, none⟩, mem_subjectKeys_iff.mpr ⟨rfl, rfl, .inl rfl⟩,
        rfl⟩
    · cases hrelation : row.subjectRelation with
      | none =>
          rw [hrelation] at hne
          exact absurd (by decide : (1 : UInt8) &&& 2 = 0) hne
      | some relation =>
          exact ⟨⟨row.subjectType, row.subjectId, some relation⟩,
            mem_subjectKeys_iff.mpr ⟨rfl, rfl, .inr hrelation.symm⟩, rfl⟩
  required indexProfile := by
    cases indexProfile <;> rfl

/-! ## The postings of a key -/

section Postings

variable {K : Type} [IndexKey K] {input : IndexDecodeInput} {decoder : IndexDecoder K}
  {keysOf : RowIdentity → List K} {diskKey : K → DiskIndexKey} {bit : K → UInt8}

/-- The count after one more row. -/
theorem countPosting_eq_ok
    {rowIds : List RowId} {base : Nat}
    (hbound : base + rowIds.length ≤ u32Max) :
    countPosting rowIds (base + (rowIds.length - 1)) = .ok (base + rowIds.length) := by
  have hu32 : u32Max ≤ usizeMax := by decide
  cases rowIds with
  | nil => rfl
  | cons first overflow =>
      rw [List.length_cons] at hbound
      refine require_bind_eq_ok.mpr ⟨by omega, okOr_eq_ok.mpr ?_⟩
      rw [checkedAdd, if_pos]
      · simp [Nat.add_assoc]
      · simp only [List.length_cons]
        omega

/-- A row that is not yet posted under a key is accepted under it. -/
theorem exists_postRow
    (hlawful : decoder.Lawful keysOf diskKey bit)
    (hcomplete : decoder.Complete keysOf diskKey bit)
    {key : K} {done : List ((_ : K) × List RowId)} {rowId : RowId} {fold : PostingFold}
    {row : RelationshipRow} {base : Nat}
    (hcovered : Covered input.rows keysOf bit fold.coverage (done ++ [⟨key, fold.rowIds⟩]))
    (hnew : ∀ posting ∈ done, posting.1 ≠ key)
    (habsent : rowId ∉ fold.rowIds)
    (hrow : input.rows[rowId.index]? = some row)
    (hkey : key ∈ keysOf row.identity)
    (hmasks : ∀ mask ∈ fold.coverage, mask ≤ 3)
    (hcount : fold.count = base + (fold.rowIds.length - 1))
    (hbound : base + fold.rowIds.length ≤ u32Max) :
    ∃ result, postRow input decoder (diskKey key) fold (.ok rowId) = .ok result ∧
      result.rowIds = fold.rowIds ++ [rowId] ∧ result.count = base + fold.rowIds.length ∧
      ∀ mask ∈ result.coverage, mask ≤ 3 := by
  have hlt : rowId.index < fold.coverage.length := by
    rw [hcovered.length]
    exact (List.getElem?_eq_some_iff.mp hrow).1
  have hmask : fold.coverage[rowId.index]? = some fold.coverage[rowId.index] :=
    List.getElem?_eq_getElem hlt
  have hbit := hlawful.isBit key
  have hcoverage := hlawful.coverageBit row.identity key hkey
  have hfree : fold.coverage[rowId.index] &&& bit key = 0 := by
    by_contra hset
    obtain ⟨posting, hposting, other, hother, hindex, hsame⟩ :=
      (hcovered.marked rowId.index _ hbit).mp ⟨_, hmask, hset⟩
    obtain ⟨row', hrow', hkey'⟩ := hcovered.right posting hposting other hother
    rw [hindex, hrow] at hrow'
    cases hrow'
    have hposted := hlawful.injective _ _ _ hkey' hkey hsame
    rcases List.mem_append.mp hposting with hposting | hposting
    · exact hnew posting hposting hposted
    · cases List.mem_singleton.mp hposting
      exact habsent (RowId.index_injective hindex ▸ hother)
  refine ⟨⟨fold.coverage.set rowId.index (fold.coverage[rowId.index] ||| bit key),
    fold.rowIds ++ [rowId], base + fold.rowIds.length⟩, ?_, rfl, rfl, ?_⟩
  · refine bind_eq_ok.mpr ⟨rowId, rfl, bind_eq_ok.mpr ⟨row, okOr_eq_ok.mpr hrow,
      require_bind_eq_ok.mpr ⟨hcomplete.rowMatches hkey, ?_⟩⟩⟩
    rw [hcoverage]
    refine require_bind_eq_ok.mpr ⟨hbit.ne_zero, bind_eq_ok.mpr ⟨_, okOr_eq_ok.mpr hmask,
      require_bind_eq_ok.mpr ⟨hfree, bind_eq_ok.mpr ⟨_, ?_, rfl⟩⟩⟩⟩
    rw [hcount]
    exact countPosting_eq_ok hbound
  · intro mask hmem
    rcases List.mem_or_eq_of_mem_set hmem with hmem | rfl
    · exact hmasks mask hmem
    · exact hbit.or_le (hmasks _ (List.getElem_mem hlt))

/-- The rows of a key are accepted one after the other. -/
theorem exists_postRow_foldlM
    (hlawful : decoder.Lawful keysOf diskKey bit)
    (hcomplete : decoder.Complete keysOf diskKey bit)
    {key : K} {done : List ((_ : K) × List RowId)} {rowIds : List RowId} {fold : PostingFold}
    {base : Nat}
    (hcovered : Covered input.rows keysOf bit fold.coverage (done ++ [⟨key, fold.rowIds⟩]))
    (hnew : ∀ posting ∈ done, posting.1 ≠ key)
    (hnodup : (fold.rowIds ++ rowIds).Nodup)
    (hright : ∀ rowId ∈ rowIds, ∃ row, input.rows[rowId.index]? = some row ∧
      key ∈ keysOf row.identity)
    (hmasks : ∀ mask ∈ fold.coverage, mask ≤ 3)
    (hcount : fold.count = base + (fold.rowIds.length - 1))
    (hbound : base + ((fold.rowIds ++ rowIds).length - 1) ≤ u32Max) :
    ∃ result, (rowIds.map .ok).foldlM (postRow input decoder (diskKey key)) fold = .ok result ∧
      result.rowIds = fold.rowIds ++ rowIds ∧
      result.count = base + ((fold.rowIds ++ rowIds).length - 1) ∧
      ∀ mask ∈ result.coverage, mask ≤ 3 := by
  induction rowIds generalizing fold with
  | nil =>
      refine ⟨fold, rfl, (List.append_nil _).symm, ?_, hmasks⟩
      rw [List.append_nil]
      exact hcount
  | cons rowId rest ih =>
      obtain ⟨⟨row, hrow, hkey⟩, hrights⟩ := List.forall_mem_cons.mp hright
      have habsent : rowId ∉ fold.rowIds := fun hmem =>
        (List.nodup_append.mp hnodup).2.2 rowId hmem rowId List.mem_cons_self rfl
      have hroom : base + fold.rowIds.length ≤ u32Max := by
        simp only [List.length_append, List.length_cons] at hbound
        omega
      obtain ⟨middle, hmiddle, hrowIds, hmiddleCount, hmiddleMasks⟩ := exists_postRow hlawful
        hcomplete hcovered hnew habsent hrow hkey hmasks hcount hroom
      have happend : middle.rowIds ++ rest = fold.rowIds ++ rowId :: rest := by
        rw [hrowIds, List.append_assoc]
        rfl
      have hstep : [Except.ok rowId].foldlM (postRow input decoder (diskKey key)) fold =
          .ok middle := by
        rw [List.foldlM_cons, hmiddle]
        rfl
      have hmiddleCovered := (postRow_foldlM hlawful hstep hcovered).1
      obtain ⟨result, hresult, hresultRows, hresultCount, hresultMasks⟩ := ih hmiddleCovered
        (by rwa [happend]) hrights hmiddleMasks
        (by rw [hmiddleCount, hrowIds]; simp) (by rwa [happend])
      refine ⟨result, ?_, by rw [hresultRows, happend], by rw [hresultCount, happend],
        hresultMasks⟩
      rw [List.map_cons, List.foldlM_cons, hmiddle]
      exact hresult

/-- An entry of the file stands for a key and its rows. -/
structure PostingOf (input : IndexDecodeInput) (decoder : IndexDecoder K)
    (keysOf : RowIdentity → List K) (diskKey : K → DiskIndexKey) (entry : IndexEntry)
    (posting : (_ : K) × List RowId) : Prop where
  key : entry.key = diskKey posting.1
  typed : decoder.keyFromDisk (diskKey posting.1) input.symbolCount = .ok posting.1
  rows : postingRowIdIter entry.range input.postingRowIds input.rowCount =
    .ok (posting.2.map .ok)
  nonempty : posting.2 ≠ []
  nodup : posting.2.Nodup
  right : ∀ rowId ∈ posting.2, ∃ row, input.rows[rowId.index]? = some row ∧
    posting.1 ∈ keysOf row.identity

/-- The rows behind the first ones. -/
def furtherRows (postings : List ((_ : K) × List RowId)) : Nat :=
  (postings.map (fun posting => posting.2.length - 1)).sum

/-- The keys of an index are accepted one after the other. -/
theorem exists_postEntry_foldlM
    (hlawful : decoder.Lawful keysOf diskKey bit)
    (hcomplete : decoder.Complete keysOf diskKey bit)
    {entries : List IndexEntry} {postings : List ((_ : K) × List RowId)} {fold : IndexFold K}
    (hentries : List.Forall₂ (PostingOf input decoder keysOf diskKey) entries postings)
    (hcovered : Covered input.rows keysOf bit fold.coverage fold.postings)
    (hordered : Ordered fold.postings)
    (hkeys : ((fold.postings ++ postings).map Sigma.fst).Nodup)
    (hmasks : ∀ mask ∈ fold.coverage, mask ≤ 3)
    (hoverflow : fold.overflowLen + furtherRows postings ≤ u32Max)
    (hcount : fold.count + furtherRows postings ≤ u32Max) :
    ∃ coverage, entries.foldlM (postEntry input decoder) fold =
        .ok ⟨coverage, fold.postings ++ postings, fold.overflowLen + furtherRows postings,
          fold.count + furtherRows postings⟩ ∧
      ∀ mask ∈ coverage, mask ≤ 3 := by
  induction hentries generalizing fold with
  | nil =>
      refine ⟨fold.coverage, ?_, hmasks⟩
      rw [List.append_nil]
      rfl
  | @cons entry posting entries postings hposting _ ih =>
      obtain ⟨key, rowIds⟩ := posting
      have hsum : furtherRows (⟨key, rowIds⟩ :: postings) =
          (rowIds.length - 1) + furtherRows postings := List.sum_cons
      rw [hsum] at hoverflow hcount ⊢
      have hnew : ∀ posting ∈ fold.postings, posting.1 ≠ key := by
        intro posting hmem hsame
        rw [List.map_append, List.map_cons] at hkeys
        exact (List.nodup_append.mp hkeys).2.2 _ (List.mem_map.mpr ⟨posting, hmem, rfl⟩) key
          List.mem_cons_self hsame
      obtain ⟨posted, hposted, hrowIds, hpostedCount, hpostedMasks⟩ :=
        @exists_postRow_foldlM K _ input decoder keysOf diskKey bit hlawful hcomplete key
          fold.postings rowIds ⟨fold.coverage, [], fold.count⟩ fold.count
          (hcovered.append_nil key) hnew hposting.nodup hposting.right hmasks rfl
          (by simp only [List.nil_append]; omega)
      rw [List.nil_append] at hrowIds hpostedCount
      have hstep : postEntry input decoder fold entry =
          .ok ⟨posted.coverage, fold.postings ++ [⟨key, rowIds⟩],
            fold.overflowLen + (rowIds.length - 1), fold.count + (rowIds.length - 1)⟩ := by
        refine bind_eq_ok.mpr ⟨key, by rw [hposting.key]; exact hposting.typed, bind_eq_ok.mpr
          ⟨_, hposting.rows, bind_eq_ok.mpr ⟨_, checkedU32_eq_ok.mpr ⟨by omega, rfl⟩,
          bind_eq_ok.mpr ⟨posted, by rw [hposting.key]; exact hposted, ?_⟩⟩⟩⟩
        rw [hrowIds, hpostedCount]
        cases rowIds with
        | nil => exact absurd rfl hposting.nonempty
        | cons first rest => rfl
      have hfolded : [entry].foldlM (postEntry input decoder) fold = .ok
          ⟨posted.coverage, fold.postings ++ [⟨key, rowIds⟩],
            fold.overflowLen + (rowIds.length - 1), fold.count + (rowIds.length - 1)⟩ := by
        rw [List.foldlM_cons, hstep]
        rfl
      obtain ⟨hnextCovered, hnextOrdered, _⟩ := postEntry_foldlM hlawful hfolded hcovered hordered
      obtain ⟨coverage, hrest, hresult⟩ := ih hnextCovered hnextOrdered (by simpa using hkeys)
        hpostedMasks (by simp only; omega) (by simp only; omega)
      refine ⟨coverage, ?_, hresult⟩
      rw [List.foldlM_cons, hstep]
      refine hrest.trans ?_
      simp [Nat.add_assoc]

end Postings

/-! ## An index -/

/-- The rows as they are written. -/
def diskRowsOf (rows : List RelationshipRow) : List DiskRow :=
  rows.map (fun row => DiskRow.ofRow row.identity)

/-- The group of an index over typed rows. -/
def groupOf (indexProfile : IndexProfile) (rows : List RelationshipRow) (kind : IndexKind) :
    DiskGroup :=
  indexGroup indexProfile (diskRowsOf rows) kind

theorem keyFits_diskKeys
    {row : RowIdentity} {kind : IndexKind} {key : DiskIndexKey}
    (h : key ∈ diskKeys (DiskRow.ofRow row) kind) :
    KeyFits kind (u32Max + 1) key := by
  have hmax : u32Max + 1 = 2 ^ 32 := rfl
  have hsymbol : ∀ id : SymbolId, id.value.get < u32Max + 1 := fun id => id.value.lt
  have hrelation : (DiskRow.ofRow row).subjectRelation < u32Max + 1 := by
    unfold DiskRow.ofRow
    cases row.subjectRelation with
    | none => exact Nat.succ_pos _
    | some relation => exact hsymbol relation
  have hzero : 0 < u32Max + 1 := Nat.succ_pos _
  cases kind <;> rw [diskKeys] at h
  case subject =>
    rcases List.mem_cons.mp h with rfl | h
    · exact ⟨hsymbol _, hsymbol _, hrelation, fun h => absurd (by decide) h,
        fun h => absurd (by decide) h⟩
    · split_ifs at h
      · cases List.mem_singleton.mp h
        exact ⟨hsymbol _, hsymbol _, hzero, fun h => absurd (by decide) h,
          fun h => absurd (by decide) h⟩
      · cases h
  case subjectTypeRelation =>
    split_ifs at h
    · cases List.mem_singleton.mp h
      exact ⟨hsymbol _, hrelation, hzero, fun h => absurd (by decide) h, fun _ => rfl⟩
    · cases h
  case resource =>
    cases List.mem_singleton.mp h
    exact ⟨hsymbol _, hsymbol _, hsymbol _, fun h => absurd (by decide) h,
      fun h => absurd (by decide) h⟩
  case resourceObject =>
    cases List.mem_singleton.mp h
    exact ⟨hsymbol _, hsymbol _, hzero, fun h => absurd (by decide) h, fun _ => rfl⟩
  case resourceTypeRelation =>
    cases List.mem_singleton.mp h
    exact ⟨hsymbol _, hsymbol _, hzero, fun h => absurd (by decide) h, fun _ => rfl⟩
  case resourceType =>
    cases List.mem_singleton.mp h
    exact ⟨hsymbol _, hzero, hzero, fun _ => rfl, fun _ => rfl⟩
  case subjectType =>
    cases List.mem_singleton.mp h
    exact ⟨hsymbol _, hzero, hzero, fun _ => rfl, fun _ => rfl⟩

/-- A row under a key of a group has this key. -/
theorem exists_row_of_mem_groupOf
    {indexProfile : IndexProfile} {rows : List RelationshipRow} {kind : IndexKind}
    {member : DiskIndexKey × List Nat} {id : Nat}
    (hmember : member ∈ groupOf indexProfile rows kind)
    (hid : id ∈ member.2) :
    ∃ index row, rows[index]? = some row ∧ id = index + 1 ∧
      member.1 ∈ diskKeys (DiskRow.ofRow row.identity) kind := by
  obtain ⟨_, index, disk, hdisk, hkey, hindex⟩ :=
    ((indexGroup_of indexProfile (diskRowsOf rows) kind).holds member.1 id).mp
      ⟨member, hmember, rfl, hid⟩
  rw [diskRowsOf, List.getElem?_map] at hdisk
  obtain ⟨row, hrow, rfl⟩ := Option.map_eq_some_iff.mp hdisk
  exact ⟨index, row, hrow, hindex, hkey⟩

/-- The groups of typed rows can be written. -/
theorem encodable_groupOf
    (indexProfile : IndexProfile) (rows : List RelationshipRow) (kind : IndexKind) :
    (groupOf indexProfile rows kind).Encodable kind rows.length := by
  have hordered := (indexGroup_of indexProfile (diskRowsOf rows) kind).ordered
  refine ⟨hordered, fun member hmember => ?_, fun member hmember id hid => ?_⟩
  · obtain ⟨id, hid⟩ := List.exists_mem_of_ne_nil _ (hordered.rows member hmember).1
    obtain ⟨_, _, _, _, hkey⟩ := exists_row_of_mem_groupOf hmember hid
    exact keyFits_diskKeys hkey
  · obtain ⟨index, row, hrow, rfl, _⟩ := exists_row_of_mem_groupOf hmember hid
    exact ⟨Nat.succ_pos _, (List.getElem?_eq_some_iff.mp hrow).1⟩

/-- The input of a full load of sections that were written for its rows. -/
structure WrittenInput (input : IndexDecodeInput) (bytes : IndexBytes) : Prop where
  full : input.validation = .full
  fast : input.profile = .fastLoad
  rowCount : input.rowCount = input.rows.length
  rowCount_le : input.rows.length ≤ u32Max
  below : ∀ row ∈ input.rows, RowBelow input.symbolCount row.identity
  keys : input.keys = .compact bytes.keys bytes.keyCount
  postingRowIds : input.postingRowIds =
    .deltaVarint bytes.postingRowIds bytes.postingRowIdCount
  placed : IndexesPlaced (groupOf input.indexProfile input.rows) input.rows.length bytes
    input.directory input.ranges

/-- The entries of an index are the members of its group. -/
theorem WrittenInput.snapshotIndexEntries
    {input : IndexDecodeInput} {bytes : IndexBytes}
    (h : WrittenInput input bytes)
    (kind : IndexKind) :
    ∃ entries members, snapshotIndexEntries input kind = .ok entries ∧
      members.Perm (groupOf input.indexProfile input.rows kind) ∧
      List.Forall₂ (EntryOf input.postingRowIds input.rowCount) entries members := by
  have hkind : kind ∈ IndexKind.all := by
    cases kind <;> decide
  obtain ⟨found, hfound, hplaced⟩ := h.placed.placed.exists_right hkind
  have hsome : (input.directory.find? (fun entry => decide (entry.kind = kind))).isSome = true :=
    List.find?_isSome.mpr ⟨found, hfound, decide_eq_true hplaced.sameKind⟩
  obtain ⟨entry, hentry⟩ := Option.isSome_iff_exists.mp hsome
  have hentryKind : entry.kind = kind := by simpa using List.find?_some hentry
  obtain ⟨kind', _, hplaced'⟩ := h.placed.placed.exists_left (List.mem_of_find?_eq_some hentry)
  obtain rfl : kind' = kind := hplaced'.sameKind.symm.trans hentryKind
  have hencodable := encodable_groupOf input.indexProfile input.rows kind'
  obtain ⟨width, entries, members, hencoding, hentries, hperm, hmembers⟩ :=
    compactSnapshotIndexEntries_placed hplaced' hencodable.ordered hencodable.rows h.rowCount_le
      bytes.postingRowIdCount
  refine ⟨entries, members, ?_, hperm, ?_⟩
  · refine bind_eq_ok.mpr ⟨entry, okOr_eq_ok.mpr hentry, ?_⟩
    rw [h.keys, hencoding]
    exact hentries
  · rw [h.postingRowIds, h.rowCount]
    exact hmembers

section Index

variable {K : Type} [IndexKey K] {input : IndexDecodeInput} {decoder : IndexDecoder K}
  {keysOf : RowIdentity → List K} {diskKey : K → DiskIndexKey} {bit : K → UInt8}

omit [IndexKey K] in
/-- A member of the group as a typed posting. -/
theorem exists_postingOf
    (hcomplete : decoder.Complete keysOf diskKey bit)
    (hbelow : ∀ row ∈ input.rows, RowBelow input.symbolCount row.identity)
    {entry : IndexEntry} {member : DiskIndexKey × List Nat}
    (hmember : member ∈ groupOf input.indexProfile input.rows decoder.kind)
    (hentry : EntryOf input.postingRowIds input.rowCount entry member) :
    ∃ posting, PostingOf input decoder keysOf diskKey entry posting ∧
      (diskKey posting.1, posting.2.map (·.value.get)) = member := by
  have hencodable := encodable_groupOf input.indexProfile input.rows decoder.kind
  obtain ⟨hne, hascending⟩ := hencodable.ordered.rows member hmember
  obtain ⟨hkey, rowIds, hrowIds, hiter⟩ := hentry
  obtain ⟨id, hid⟩ := List.exists_mem_of_ne_nil _ hne
  obtain ⟨_, row, hrow, _, hdisk⟩ := exists_row_of_mem_groupOf hmember hid
  rw [hcomplete.diskKeys] at hdisk
  obtain ⟨key, hkeyMem, hdiskKey⟩ := List.mem_map.mp hdisk
  have htyped := hcomplete.keyFromDisk (hbelow row (List.mem_of_getElem? hrow)) key hkeyMem
  refine ⟨⟨key, rowIds⟩, ⟨hkey.trans hdiskKey.symm, htyped, hiter, ?_, ?_, ?_⟩, ?_⟩
  · rintro rfl
    exact hne hrowIds.symm
  · rw [← hrowIds] at hascending
    refine (List.pairwise_map.mp hascending).imp (fun hlt hsame => ?_)
    rw [hsame] at hlt
    exact absurd hlt (Nat.lt_irrefl _)
  · intro rowId hrowId
    have hmem : rowId.value.get ∈ member.2 := hrowIds ▸ List.mem_map.mpr ⟨rowId, hrowId, rfl⟩
    obtain ⟨index, other, hother, hindex, hotherKey⟩ := exists_row_of_mem_groupOf hmember hmem
    have hposition : rowId.index = index := by
      show rowId.value.get - 1 = index
      omega
    rw [hcomplete.diskKeys] at hotherKey
    obtain ⟨key', hkey', hsame⟩ := List.mem_map.mp hotherKey
    have htyped' := hcomplete.keyFromDisk (hbelow other (List.mem_of_getElem? hother)) key' hkey'
    rw [hsame, ← hdiskKey, htyped] at htyped'
    cases htyped'
    exact ⟨other, hposition ▸ hother, hkey'⟩
  · rw [hdiskKey, hrowIds]

omit [IndexKey K] in
theorem exists_postingsOf
    (hcomplete : decoder.Complete keysOf diskKey bit)
    (hbelow : ∀ row ∈ input.rows, RowBelow input.symbolCount row.identity)
    {entries : List IndexEntry} {members : DiskGroup}
    (hmembers : ∀ member ∈ members, member ∈ groupOf input.indexProfile input.rows decoder.kind)
    (hentries : List.Forall₂ (EntryOf input.postingRowIds input.rowCount) entries members) :
    ∃ postings, List.Forall₂ (PostingOf input decoder keysOf diskKey) entries postings ∧
      postings.map (fun posting => (diskKey posting.1, posting.2.map (·.value.get))) =
        members := by
  induction hentries with
  | nil => exact ⟨[], .nil, rfl⟩
  | cons hentry _ ih =>
      obtain ⟨hmember, hothers⟩ := List.forall_mem_cons.mp hmembers
      obtain ⟨posting, hposting, hsame⟩ := exists_postingOf hcomplete hbelow hmember hentry
      obtain ⟨postings, hpostings, hrest⟩ := ih hothers
      exact ⟨posting :: postings, .cons hposting hpostings, by rw [List.map_cons, hsame, hrest]⟩

/-- A row is posted under the keys that it has in an index that is kept. -/
theorem posted_iff
    (hlawful : decoder.Lawful keysOf diskKey bit)
    (hcomplete : decoder.Complete keysOf diskKey bit)
    (hbelow : ∀ row ∈ input.rows, RowBelow input.symbolCount row.identity)
    {entries : List IndexEntry} {members : DiskGroup} {postings : List ((_ : K) × List RowId)}
    (hperm : members.Perm (groupOf input.indexProfile input.rows decoder.kind))
    (hpostings : List.Forall₂ (PostingOf input decoder keysOf diskKey) entries postings)
    (hmembers : postings.map (fun posting => (diskKey posting.1, posting.2.map (·.value.get))) =
      members)
    {n : Nat} {row : RelationshipRow} {b : UInt8}
    (hrow : input.rows[n]? = some row)
    (hb : IsBit b) :
    Posted bit postings n b ↔ decoder.requiredByProfile input.indexProfile = true ∧
      decoder.expectedMask row.identity &&& b ≠ 0 := by
  have hgroup := indexGroup_of input.indexProfile (diskRowsOf input.rows) decoder.kind
  rw [hcomplete.required] at hgroup
  constructor
  · rintro ⟨posting, hposting, rowId, hrowId, rfl, rfl⟩
    obtain ⟨entry, _, hof⟩ := hpostings.exists_left hposting
    obtain ⟨row', hrow', hkey⟩ := hof.right rowId hrowId
    rw [hrow] at hrow'
    cases hrow'
    have hmember : (diskKey posting.1, posting.2.map (·.value.get)) ∈
        groupOf input.indexProfile input.rows decoder.kind :=
      hperm.mem_iff.mp (hmembers ▸ List.mem_map.mpr ⟨posting, hposting, rfl⟩)
    obtain ⟨hkept, _⟩ := (hgroup.holds (diskKey posting.1) rowId.value.get).mp
      ⟨_, hmember, rfl, List.mem_map.mpr ⟨rowId, hrowId, rfl⟩⟩
    exact ⟨hkept, hlawful.expected _ _ hkey⟩
  · rintro ⟨hkept, hexpected⟩
    obtain ⟨key, hkey, rfl⟩ := hcomplete.expected hb hexpected
    have hdisk : (diskRowsOf input.rows)[n]? = some (DiskRow.ofRow row.identity) := by
      rw [diskRowsOf, List.getElem?_map, hrow]
      rfl
    have hdiskKey : diskKey key ∈ diskKeys (DiskRow.ofRow row.identity) decoder.kind := by
      rw [hcomplete.diskKeys]
      exact List.mem_map.mpr ⟨key, hkey, rfl⟩
    obtain ⟨member, hmember, hsame, hid⟩ := (hgroup.holds (diskKey key) (n + 1)).mpr
      ⟨hkept, n, _, hdisk, hdiskKey, rfl⟩
    have hmem := hperm.mem_iff.mpr hmember
    rw [← hmembers] at hmem
    obtain ⟨posting, hposting, rfl⟩ := List.mem_map.mp hmem
    obtain ⟨rowId, hrowId, hget⟩ := List.mem_map.mp hid
    obtain ⟨entry, _, hof⟩ := hpostings.exists_left hposting
    have htyped := hof.typed
    replace hsame : diskKey posting.1 = diskKey key := hsame
    rw [hsame, hcomplete.keyFromDisk (hbelow row (List.mem_of_getElem? hrow)) key hkey] at htyped
    refine ⟨posting, hposting, rowId, hrowId, ?_, congrArg bit (Except.ok.inj htyped).symm⟩
    show rowId.value.get - 1 = n
    omega

variable [DecidableEq K]

/-- A full load accepts an index and counts its further rows. -/
theorem exists_decodeIndex
    (hlawful : decoder.Lawful keysOf diskKey bit)
    (hcomplete : decoder.Complete keysOf diskKey bit)
    {bytes : IndexBytes} {count : Nat}
    (h : WrittenInput input bytes)
    (hcount : count + overflowCount (groupOf input.indexProfile input.rows decoder.kind) ≤
      u32Max) :
    ∃ index, decodeIndex input decoder count = .ok (index,
      count + overflowCount (groupOf input.indexProfile input.rows decoder.kind)) := by
  obtain ⟨entries, members, hentries, hperm, hmembers⟩ := h.snapshotIndexEntries decoder.kind
  obtain ⟨postings, hpostings, hsame⟩ := exists_postingsOf hcomplete h.below
    (fun member hmember => hperm.mem_iff.mp hmember) hmembers
  have hfurther : furtherRows postings =
      overflowCount (groupOf input.indexProfile input.rows decoder.kind) := by
    have hsum : overflowCount members =
        overflowCount (groupOf input.indexProfile input.rows decoder.kind) :=
      (hperm.map _).sum_eq
    rw [← hsum, ← hsame, furtherRows, overflowCount, List.map_map]
    refine congrArg List.sum (List.map_congr_left (fun posting _ => ?_))
    simp only [Function.comp_apply, List.length_map]
  have hkeys : (postings.map Sigma.fst).Nodup := by
    have hordered := (encodable_groupOf input.indexProfile input.rows decoder.kind).ordered
    have hnodup : (members.map (·.1)).Nodup := (hperm.map _).nodup_iff.mpr
      (List.pairwise_map.mpr (hordered.keys.imp DiskIndexKey.Lt.ne))
    rw [← hsame, List.map_map] at hnodup
    have hmap : postings.map ((·.1) ∘ fun posting =>
        (diskKey posting.1, posting.2.map (·.value.get))) =
          (postings.map Sigma.fst).map diskKey := by
      rw [List.map_map]
      rfl
    rw [hmap] at hnodup
    exact hnodup.of_map diskKey
  obtain ⟨coverage, hfold, hmasks⟩ := @exists_postEntry_foldlM K _ input decoder keysOf diskKey bit
    hlawful hcomplete entries postings ⟨List.replicate input.rows.length 0, [], 0, count⟩ hpostings
    (covered_nil input.rows keysOf bit) (fun _ h => (by cases h)) hkeys
    (fun mask hmask => by rw [List.eq_of_mem_replicate hmask]; decide)
    (by rw [hfurther]; simp only; omega) (by rw [hfurther]; exact hcount)
  simp only [List.nil_append, Nat.zero_add] at hfold
  obtain ⟨hcovered, hordered, _⟩ := postings_of_fold hlawful hentries hfold
  have hexpected : ∀ entry ∈ input.rows.zip coverage,
      entry.2 = expectedCoverage input decoder entry.1 := by
    rintro ⟨row, mask⟩ hentry
    obtain ⟨n, hn⟩ := List.mem_iff_getElem?.mp hentry
    obtain ⟨hrow, hmask⟩ := List.getElem?_zip_eq_some.mp hn
    have hle : expectedCoverage input decoder row ≤ 3 := by
      unfold expectedCoverage
      split_ifs
      · exact hcomplete.expected_le _
      · decide
    refine mask_ext (hmasks mask (List.mem_of_getElem? hmask)) hle (fun b hb => ?_)
    have hmarked : mask &&& b ≠ 0 ↔ Marked coverage n b := by
      constructor
      · exact fun hne => ⟨mask, hmask, hne⟩
      · rintro ⟨mask', hmask', hne⟩
        rw [hmask] at hmask'
        cases hmask'
        exact hne
    rw [hmarked, hcovered.marked n b hb,
      posted_iff hlawful hcomplete h.below hperm hpostings hsame hrow hb]
    unfold expectedCoverage
    split_ifs with hkept
    · simp [hkept]
    · simp [hkept]
  obtain ⟨⟨keys, ranges, overflow⟩, hsorted⟩ := decodeEntries_isOk hordered 0
  refine ⟨.sorted keys ranges overflow, bind_eq_ok.mpr ⟨entries, hentries, ?_⟩⟩
  rw [if_neg (by rw [h.full]; simp)]
  refine bind_eq_ok.mpr ⟨_, hfold, require_bind_eq_ok.mpr ⟨hexpected, ?_⟩⟩
  rw [h.fast, hfurther]
  exact bind_eq_ok.mpr ⟨_, bind_eq_ok.mpr ⟨_, hsorted, rfl⟩, rfl⟩

end Index

/-- A full load accepts the seven indexes. -/
theorem exists_decodeAllIndexes
    {input : IndexDecodeInput} {bytes : IndexBytes}
    (h : WrittenInput input bytes) :
    ∃ indexes, decodeAllIndexes input = .ok indexes := by
  have hbound := h.placed.lists.postingRowIdCount_le
  have htotal := h.placed.postingRowIdCount
  obtain ⟨further, hfurther⟩ : ∃ further : IndexKind → Nat, ∀ kind,
      overflowCount (groupOf input.indexProfile input.rows kind) = further kind :=
    ⟨_, fun _ => rfl⟩
  have hdecode : ∀ {K : Type} [DecidableEq K] [IndexKey K] {decoder : IndexDecoder K}
      {keysOf : RowIdentity → List K} {diskKey : K → DiskIndexKey} {bit : K → UInt8},
      decoder.Lawful keysOf diskKey bit → decoder.Complete keysOf diskKey bit →
      ∀ (kind : IndexKind) (count : Nat), decoder.kind = kind → count + further kind ≤ u32Max →
        ∃ index count', decodeIndex input decoder count = .ok (index, count') ∧
          count' = count + further kind := by
    rintro K _ _ decoder keysOf diskKey bit hlawful hcomplete _ count rfl hle
    rw [← hfurther] at hle ⊢
    obtain ⟨index, hindex⟩ := exists_decodeIndex hlawful hcomplete h hle
    exact ⟨index, _, hindex, rfl⟩
  simp only [hfurther, IndexKind.all, List.map_cons, List.map_nil, List.sum_cons,
    List.sum_nil] at htotal
  obtain ⟨resource, count₁, h₁, hcount₁⟩ := hdecode lawful_resource complete_resource
    .resource 0 rfl (by omega)
  obtain ⟨resourceObject, count₂, h₂, hcount₂⟩ :=
    hdecode lawful_resourceObject complete_resourceObject
    .resourceObject count₁ rfl (by omega)
  obtain ⟨resourceTypeRelation, count₃, h₃, hcount₃⟩ :=
    hdecode lawful_resourceTypeRelation complete_resourceTypeRelation
    .resourceTypeRelation count₂ rfl (by omega)
  obtain ⟨resourceType, count₄, h₄, hcount₄⟩ := hdecode lawful_resourceType complete_resourceType
    .resourceType count₃ rfl (by omega)
  obtain ⟨subject, count₅, h₅, hcount₅⟩ := hdecode lawful_subject complete_subject
    .subject count₄ rfl (by omega)
  obtain ⟨subjectTypeRelation, count₆, h₆, hcount₆⟩ :=
    hdecode lawful_subjectTypeRelation complete_subjectTypeRelation
    .subjectTypeRelation count₅ rfl (by omega)
  obtain ⟨subjectType, count₇, h₇, hcount₇⟩ := hdecode lawful_subjectType complete_subjectType
    .subjectType count₆ rfl (by omega)
  have hvalid : validateDecodedPostingRowIdCount input.postingRowIds count₇ = .ok () := by
    rw [h.postingRowIds]
    exact require_of (by show count₇ = bytes.postingRowIdCount; omega)
  exact ⟨_, bind_eq_ok.mpr ⟨_, h₁, bind_eq_ok.mpr ⟨_, h₂, bind_eq_ok.mpr ⟨_, h₃,
    bind_eq_ok.mpr ⟨_, h₄, bind_eq_ok.mpr ⟨_, h₅, bind_eq_ok.mpr ⟨_, h₆, bind_eq_ok.mpr ⟨_, h₇,
    bind_eq_ok.mpr ⟨(), hvalid, rfl⟩⟩⟩⟩⟩⟩⟩⟩⟩

end Snapshot

end SimpleZanzibar
