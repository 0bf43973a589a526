import SimpleZanzibar.Snapshot.IndexSections

/-!
# Written indexes are read back

The sections of the indexes pass the checks of their layout, and every index is decoded to the
keys of its group, each with a range that yields its rows.  A key with one row and the keys
with several rows are stored apart, so that the reader has to merge them.

**Results.**
* `exists_mergeEntries`: merging sorted and disjoint lists.
* `compactSnapshotIndexEntries_placed`: the entries of an index.
* `IndexesPlaced.validateIndexSectionLayout`: the layout of the sections is accepted.
-/

namespace SimpleZanzibar

namespace Snapshot

open ByteCursor

/-! ## Merging -/

/-- Entries in the order of their keys. -/
def SortedEntries (entries : List IndexEntry) : Prop :=
  entries.Pairwise (fun a b => a.key.Lt b.key)

theorem SortedEntries.validateSortedKeys
    {entries : List IndexEntry}
    (h : SortedEntries entries) :
    validateSortedKeys (entries.map (·.key)) = .ok () :=
  require_of (List.pairwise_map.mpr h).isChain

/-- No key is in both lists. -/
def DisjointKeys (singletons multis : List IndexEntry) : Prop :=
  ∀ singleton ∈ singletons, ∀ multi ∈ multis, singleton.key ≠ multi.key

/-- The lists are merged into a sorted one. -/
def MergesInto (result : Except SnapshotIoError (List IndexEntry)) (entries : List IndexEntry) :
    Prop :=
  ∃ merged, result = .ok merged ∧ merged.Perm entries ∧ SortedEntries merged

/-- An entry that is less than all entries of the result comes first. -/
theorem MergesInto.cons
    {result : Except SnapshotIoError (List IndexEntry)} {entries : List IndexEntry}
    {entry : IndexEntry}
    (h : MergesInto result entries)
    (hless : ∀ other ∈ entries, entry.key.Lt other.key) :
    MergesInto (result >>= fun merged => pure (entry :: merged)) (entry :: entries) := by
  obtain ⟨merged, hmerged, hperm, hsorted⟩ := h
  refine ⟨entry :: merged, bind_eq_ok.mpr ⟨merged, hmerged, rfl⟩, hperm.cons entry, ?_⟩
  exact List.pairwise_cons.mpr ⟨fun other hother => hless other (hperm.mem_iff.mp hother), hsorted⟩

theorem exists_mergeEntry
    {singleton : IndexEntry} {singletons multis : List IndexEntry}
    {mergeRest : List IndexEntry → Except SnapshotIoError (List IndexEntry)}
    (hrest : ∀ multis, SortedEntries multis → DisjointKeys singletons multis →
      MergesInto (mergeRest multis) (singletons ++ multis))
    (hsingletons : SortedEntries (singleton :: singletons))
    (hmultis : SortedEntries multis)
    (hdisjoint : DisjointKeys (singleton :: singletons) multis) :
    MergesInto (mergeEntry singleton mergeRest multis) (singleton :: singletons ++ multis) := by
  obtain ⟨hfirst, hsorted⟩ := List.pairwise_cons.mp hsingletons
  induction multis with
  | nil =>
      refine MergesInto.cons (hrest [] List.Pairwise.nil ?_) ?_
      · exact fun _ _ multi hmulti => absurd hmulti List.not_mem_nil
      · show ∀ other ∈ singletons ++ [], singleton.key.Lt other.key
        rwa [List.append_nil]
  | cons multi multis ih =>
      obtain ⟨hmulti, hothers⟩ := List.pairwise_cons.mp hmultis
      have hdisjointOthers : DisjointKeys (singleton :: singletons) multis :=
        fun s hs m hm => hdisjoint s hs m (List.mem_cons_of_mem _ hm)
      rw [mergeEntry]
      split_ifs with hlt hgt
      · refine MergesInto.cons (hrest (multi :: multis) hmultis ?_) ?_
        · exact fun s hs m hm => hdisjoint s (List.mem_cons_of_mem _ hs) m hm
        · refine List.forall_mem_append.mpr ⟨hfirst, List.forall_mem_cons.mpr ⟨hlt, ?_⟩⟩
          exact fun other hother => hlt.trans (hmulti other hother)
      · have hless : ∀ other ∈ singleton :: singletons ++ multis, multi.key.Lt other.key := by
          refine List.forall_mem_append.mpr ⟨List.forall_mem_cons.mpr ⟨hgt, ?_⟩, hmulti⟩
          exact fun other hother => hgt.trans (hfirst other hother)
        obtain ⟨merged, hmerged, hperm, hmergedSorted⟩ := (ih hothers hdisjointOthers).cons hless
        exact ⟨merged, hmerged, hperm.trans List.perm_middle.symm, hmergedSorted⟩
      · have hne := hdisjoint singleton List.mem_cons_self multi List.mem_cons_self
        exact absurd (DiskIndexKey.lt_of_not_lt hne hlt) hgt

/-- Sorted lists without a common key are merged into a sorted list of their entries. -/
theorem exists_mergeEntries
    {singletons multis : List IndexEntry}
    (hsingletons : SortedEntries singletons)
    (hmultis : SortedEntries multis)
    (hdisjoint : DisjointKeys singletons multis) :
    MergesInto (mergeEntries singletons multis) (singletons ++ multis) := by
  induction singletons generalizing multis with
  | nil => exact ⟨multis, rfl, .refl _, hmultis⟩
  | cons singleton rest ih =>
      refine exists_mergeEntry (fun multis hmultis hdisjoint => ?_) hsingletons hmultis hdisjoint
      exact ih (List.pairwise_cons.mp hsingletons).2 hmultis hdisjoint

/-! ## The entries of an index -/

/-- The entry has the key, and its range yields the rows. -/
def EntryOf (postings : DecodedPostingRowIds) (rowCount : Nat) (entry : IndexEntry)
    (member : DiskIndexKey × List Nat) : Prop :=
  entry.key = member.1 ∧ ∃ rowIds : List RowId, rowIds.map (·.value.get) = member.2 ∧
    postingRowIdIter entry.range postings rowCount = .ok (rowIds.map .ok)

/-- Numbers of rows as row ids. -/
theorem exists_rowIds
    {ids : List Nat}
    (h : ∀ id ∈ ids, 0 < id ∧ id ≤ u32Max) :
    ∃ rowIds : List RowId, rowIds.map (·.value.get) = ids := by
  induction ids with
  | nil => exact ⟨[], rfl⟩
  | cons id rest ih =>
      obtain ⟨⟨hpos, hle⟩, hrest⟩ := List.forall_mem_cons.mp h
      obtain ⟨rowIds, rfl⟩ := ih hrest
      have hmax : u32Max = 2 ^ 32 - 1 := rfl
      exact ⟨⟨⟨id, hpos, by omega⟩⟩ :: rowIds, rfl⟩

theorem ascending_of_pairwise
    {rowIds : List RowId}
    (h : (rowIds.map (·.value.get)).Pairwise (· < ·)) :
    Ascending rowIds :=
  (List.pairwise_map.mp h).imp index_lt_index_iff.mpr

theorem entryOf_singleton
    {postings : DecodedPostingRowIds} {rowCount : Nat} {member : DiskIndexKey × List Nat}
    (hsingle : isSingleton member = true)
    (hrows : ∀ rowId ∈ member.2, 0 < rowId ∧ rowId ≤ rowCount)
    (hrowCount : rowCount ≤ u32Max) :
    EntryOf postings rowCount (singletonEntry member) member := by
  obtain ⟨rowIds, hrowIds⟩ := exists_rowIds (fun id hid =>
    ⟨(hrows id hid).1, (hrows id hid).2.trans hrowCount⟩)
  refine ⟨rfl, rowIds, hrowIds, ?_⟩
  have hmember := eq_singleton_of_isSingleton hsingle
  rw [hmember] at hrowIds
  obtain ⟨rowId, rfl⟩ : ∃ rowId, rowIds = [rowId] :=
    List.length_eq_one_iff.mp (by simpa using congrArg List.length hrowIds)
  have hget : rowId.value.get = member.2.headD 0 := (List.cons.inj hrowIds).1
  have hle : rowId.value.get ≤ rowCount := by
    rw [hget]
    exact (hrows _ (by rw [hmember]; exact List.mem_singleton_self _)).2
  refine bind_eq_ok.mpr ⟨rowId, ?_, rfl⟩
  rw [singletonEntry, ← hget]
  exact rowId_fromSnapshotRaw_get hle

theorem RangeOf.entryOf
    {postings : List UInt8} {rowCount total : Nat} {member : DiskIndexKey × List Nat}
    {range : DiskPostingRange}
    (h : RangeOf postings member range)
    (hascending : member.2.Pairwise (· < ·))
    (hrows : ∀ rowId ∈ member.2, 0 < rowId ∧ rowId ≤ rowCount)
    (hrowCount : rowCount ≤ u32Max) :
    EntryOf (.deltaVarint postings total) rowCount ⟨member.1, range⟩ member := by
  obtain ⟨rowIds, hrowIds⟩ := exists_rowIds (fun id hid =>
    ⟨(hrows id hid).1, (hrows id hid).2.trans hrowCount⟩)
  obtain ⟨written, bytes, after, hrange, rfl⟩ := h
  refine ⟨rfl, rowIds, hrowIds, ?_⟩
  rw [← hrowIds] at hascending hrange hrows
  have hbound : ∀ rowId ∈ rowIds, rowId.value.get ≤ rowCount :=
    fun rowId hrowId => (hrows _ (List.mem_map.mpr ⟨rowId, hrowId, rfl⟩)).2
  exact roundTrips (ascending_of_pairwise hascending) hbound written after total range _ bytes
    hrange

theorem sorted_of_sublist
    {group members : DiskGroup} {entries : List IndexEntry}
    (hordered : group.Ordered)
    (hsublist : members.Sublist group)
    (hkeys : entries.map (·.key) = members.map (·.1)) :
    SortedEntries entries := by
  have hmembers := List.pairwise_map.mpr (hordered.keys.sublist hsublist)
  rw [← hkeys] at hmembers
  exact List.pairwise_map.mp hmembers

/-- The entries of the keys with several rows. -/
theorem entries_of_ranges
    {postings : List UInt8} {rowCount total : Nat} {members : DiskGroup}
    {ranges : List DiskPostingRange}
    (h : List.Forall₂ (RangeOf postings) members ranges)
    (hascending : ∀ member ∈ members, member.2.Pairwise (· < ·))
    (hrows : ∀ member ∈ members, ∀ rowId ∈ member.2, 0 < rowId ∧ rowId ≤ rowCount)
    (hrowCount : rowCount ≤ u32Max) :
    List.Forall₂ (EntryOf (.deltaVarint postings total) rowCount)
      ((members.map (·.1)).zipWith IndexEntry.mk ranges) members := by
  induction h with
  | nil => exact .nil
  | cons hfirst _ ih =>
      obtain ⟨hascendingFirst, hascendingRest⟩ := List.forall_mem_cons.mp hascending
      obtain ⟨hrowsFirst, hrowsRest⟩ := List.forall_mem_cons.mp hrows
      exact .cons (hfirst.entryOf hascendingFirst hrowsFirst hrowCount)
        (ih hascendingRest hrowsRest)

/-- Entries have the keys of their members. -/
theorem map_key_of_entryOf
    {postings : DecodedPostingRowIds} {rowCount : Nat} {entries : List IndexEntry}
    {members : DiskGroup}
    (h : List.Forall₂ (EntryOf postings rowCount) entries members) :
    entries.map (·.key) = members.map (·.1) := by
  induction h with
  | nil => rfl
  | cons hfirst _ ih => rw [List.map_cons, List.map_cons, ih, hfirst.1]

/-- The entries of the keys with one row, which lie in the keys themselves. -/
theorem entries_of_singletons
    {postings : DecodedPostingRowIds} {rowCount : Nat} {group : DiskGroup}
    (hrows : ∀ member ∈ group, ∀ rowId ∈ member.2, 0 < rowId ∧ rowId ≤ rowCount)
    (hrowCount : rowCount ≤ u32Max) :
    List.Forall₂ (EntryOf postings rowCount) ((group.filter isSingleton).map singletonEntry)
      (group.filter isSingleton) := by
  rw [List.forall₂_map_left_iff, List.forall₂_same]
  intro member hmember
  obtain ⟨hmember, hsingle⟩ := List.mem_filter.mp hmember
  exact entryOf_singleton hsingle (hrows member hmember) hrowCount

/-- No key has one row and several. -/
theorem disjointKeys_of_ordered
    {postings : DecodedPostingRowIds} {rowCount : Nat} {group : DiskGroup}
    {singletons multis : List IndexEntry}
    (hordered : group.Ordered)
    (hsingletons : List.Forall₂ (EntryOf postings rowCount) singletons
      (group.filter isSingleton))
    (hmultis : List.Forall₂ (EntryOf postings rowCount) multis (group.filter isMulti)) :
    DisjointKeys singletons multis := by
  intro singleton hsingleton multi hmulti hkey
  obtain ⟨a, ha, hakey, _⟩ := hsingletons.exists_right hsingleton
  obtain ⟨b, hb, hbkey, _⟩ := hmultis.exists_right hmulti
  obtain ⟨ha, hasingle⟩ := List.mem_filter.mp ha
  obtain ⟨hb, hbmulti⟩ := List.mem_filter.mp hb
  have hsame := hordered.eq_of_key ha hb (hakey.symm.trans (hkey.trans hbkey))
  rw [← hsame, hordered.isMulti_eq a ha, hasingle] at hbmulti
  cases hbmulti

theorem slice_leading
    {α : Type} (first last : List α) :
    slice (first ++ last) 0 first.length = some first := by
  have h := @slice_eq_some α [] first last 0 first.length rfl (Nat.zero_add _)
  rwa [List.nil_append] at h

theorem slice_suffix
    {α : Type} (first last : List α) :
    slice (first ++ last) first.length (first ++ last).length = some last := by
  have h := @slice_eq_some α first last [] first.length (first ++ last).length rfl (by simp)
  rwa [List.append_nil] at h

/-- An index is decoded to the keys of its group. -/
theorem compactSnapshotIndexEntries_placed
    {kind : IndexKind} {group : DiskGroup} {keys postings : List UInt8}
    {ranges : List DiskPostingRange} {entry : IndexDirectoryEntry} {rowCount : Nat}
    (hplaced : GroupPlaced kind group keys ranges postings entry)
    (hordered : group.Ordered)
    (hrows : ∀ member ∈ group, ∀ rowId ∈ member.2, 0 < rowId ∧ rowId ≤ rowCount)
    (hrowCount : rowCount ≤ u32Max)
    (total : Nat) :
    ∃ width entries members, entry.encoding = .compactV3 width ∧
      compactSnapshotIndexEntries keys ranges entry width = .ok entries ∧
      members.Perm group ∧
      List.Forall₂ (EntryOf (.deltaVarint postings total) rowCount) entries members := by
  obtain ⟨width, before, after, hencoding, hfits, hkeys, hstart, hstartBound⟩ := hplaced.keyPlace
  obtain ⟨first, own, last, hranges, hrangeStart, hrangeCount, hof, hrangeBound⟩ :=
    hplaced.rangePlace
  have hu32 : u32Max * 17 ≤ usizeMax := by decide
  have hownLen : own.length = (group.filter isMulti).length := hof.length_eq.symm
  have hsplit := hordered.length_filter
  obtain ⟨hgroupLen, hgroupBytes⟩ := @compactGroupLen_eq_ok kind width group hordered
    hplaced.keyCount_le
  have hcounts : entry.keyCount - entry.postingRangeCount =
      (group.filter isSingleton).length := by
    rw [hplaced.keyCount, ← hrangeCount]
    omega
  -- the entries of both kinds of keys
  have hsingletonFits : ∀ member ∈ group.filter isSingleton,
      Reads (readCompactSingleton kind width) (encodeSingleton kind width member)
        (singletonEntry member) := by
    intro member hmember
    obtain ⟨hmember, hsingle⟩ := List.mem_filter.mp hmember
    exact reads_readCompactSingleton (hfits member hmember) hsingle
      (fun rowId hrowId => (hrows member hmember rowId hrowId).2.trans hrowCount)
  have hmultiFits : ∀ member ∈ group.filter isMulti,
      Reads (readCompactKey kind width) (encodeV3Key kind width member.1) member.1 :=
    fun member hmember => reads_readCompactKey (hfits member (List.mem_filter.mp hmember).1)
  have hsingletons := @entries_of_singletons (.deltaVarint postings total) rowCount group hrows
    hrowCount
  have hmultis := @entries_of_ranges postings rowCount total _ own hof
    (fun member hmember => (hordered.rows member (List.mem_filter.mp hmember).1).2)
    (fun member hmember => hrows member (List.mem_filter.mp hmember).1) hrowCount
  have hsingletonsSorted := sorted_of_sublist hordered List.filter_sublist
    (map_key_of_entryOf hsingletons)
  have hmultisSorted := sorted_of_sublist hordered List.filter_sublist
    (map_key_of_entryOf hmultis)
  obtain ⟨merged, hmerged, hperm, hsorted⟩ := exists_mergeEntries hsingletonsSorted hmultisSorted
    (disjointKeys_of_ordered hordered hsingletons hmultis)
  obtain ⟨members, hmembers, hmembersPerm⟩ := List.perm_comp_forall₂ hperm
    (List.rel_append hsingletons hmultis)
  refine ⟨width, merged, members, hencoding, ?_, hmembersPerm.trans ?_, hmembers⟩
  · have hsingletonBytes := (Reads.times_map hsingletonFits).apply
    have hmultiBytes := (Reads.times_map hmultiFits).apply
    have hkeyEnd : entry.keyStart + (groupKeyBytes kind width group).length ≤ usizeMax := by
      omega
    have hrangeEnd : entry.postingRangeStart + entry.postingRangeCount ≤ usizeMax := by
      omega
    refine require_bind_eq_ok.mpr ⟨by rw [hplaced.keyCount, ← hrangeCount]; omega, ?_⟩
    rw [hplaced.sameKind, hplaced.keyCount, ← hrangeCount, hownLen]
    refine bind_eq_ok.mpr ⟨_, hgroupLen, ?_⟩
    refine bind_eq_ok.mpr ⟨_, checkedAddUsize_eq_ok.mpr ⟨hkeyEnd, rfl⟩, ?_⟩
    refine bind_eq_ok.mpr ⟨_, okOr_eq_ok.mpr (by rw [hkeys]; exact slice_eq_some hstart rfl), ?_⟩
    refine bind_eq_ok.mpr ⟨_, checkedAddUsize_eq_ok.mpr ⟨by omega, rfl⟩, ?_⟩
    refine bind_eq_ok.mpr ⟨own, okOr_eq_ok.mpr (by
      rw [hranges]
      exact slice_eq_some hrangeStart (by omega)), ?_⟩
    refine bind_eq_ok.mpr ⟨_, okOr_eq_ok.mpr (slice_leading _ _), ?_⟩
    refine bind_eq_ok.mpr ⟨_, okOr_eq_ok.mpr (slice_suffix _ _), ?_⟩
    refine bind_eq_ok.mpr ⟨(group.filter isSingleton).map singletonEntry, ?_, ?_⟩
    · rw [← hsplit, Nat.add_sub_cancel]
      exact bind_eq_ok.mpr ⟨_, congrArg Prod.fst hsingletonBytes, bind_eq_ok.mpr
        ⟨(), hsingletonsSorted.validateSortedKeys, rfl⟩⟩
    refine bind_eq_ok.mpr ⟨((group.filter isMulti).map (·.1)).zipWith IndexEntry.mk own, ?_, ?_⟩
    · have hkeysSorted := hmultisSorted.validateSortedKeys
      rw [map_key_of_entryOf hmultis] at hkeysSorted
      refine bind_eq_ok.mpr ⟨_, ?_, bind_eq_ok.mpr ⟨(), hkeysSorted, rfl⟩⟩
      rw [hownLen]
      exact congrArg Prod.fst hmultiBytes
    · exact bind_eq_ok.mpr ⟨merged, hmerged, bind_eq_ok.mpr ⟨(), hsorted.validateSortedKeys, rfl⟩⟩
  · rw [List.filter_congr hordered.isMulti_eq]
    exact List.filter_append_perm isSingleton group

/-! ## The layout of the sections -/

/-- Every key takes at least a byte. -/
theorem length_le_groupKeyBytes
    {kind : IndexKind} {width : KeyWidth} {group : DiskGroup}
    (h : group.Ordered) :
    group.length ≤ (groupKeyBytes kind width group).length := by
  have hpos : 1 ≤ kind.keyFieldCount * width.byteLen := by
    cases kind <;> cases width <;> decide
  rw [groupKeyBytes, List.length_append, length_singletons, length_multis, ← h.length_filter]
  exact Nat.add_le_add (Nat.le_mul_of_pos_right _ (Nat.le_add_right_of_le hpos))
    (Nat.le_mul_of_pos_right _ hpos)

theorem exists_rowId_fromSnapshotRaw
    {value rowCount : Nat}
    (hpos : 0 < value)
    (hle : value ≤ rowCount)
    (hrowCount : rowCount ≤ u32Max) :
    ∃ rowId, RowId.fromSnapshotRaw value rowCount = .ok rowId := by
  have hmax : u32Max = 2 ^ 32 - 1 := rfl
  exact ⟨_, @rowId_fromSnapshotRaw_get ⟨⟨value, hpos, by omega⟩⟩ rowCount hle⟩

/-- The ranges refer to rows of the file, and their spans cover the further rows. -/
theorem validateV3PostingRowIdSpans_written
    {ranges : List DiskPostingRange} {postings : List UInt8} {rowCount : Nat}
    (hfits : ∀ range ∈ ranges, range.Fits rowCount ∧ range.overflowLen ≠ 0)
    (hrowCount : rowCount ≤ u32Max)
    (hspans : SpansFrom 0 (ranges.map (·.span)) postings.length) :
    validateV3PostingRowIdSpans ranges postings rowCount = .ok () := by
  have hu32 : u32Max * 2 ≤ usizeMax := by decide
  have hspan : ∀ range ∈ ranges, postingSpan postings.length rowCount range =
      .ok [range.span] := by
    intro range hrange
    obtain ⟨hfits, hlen⟩ := hfits range hrange
    have hstart := hfits.overflowStart
    have hoverflow := hfits.overflowLen
    have hstop := hspans.le_stop _ (List.mem_map.mpr ⟨range, hrange, rfl⟩)
    obtain ⟨rowId, hrowId⟩ := exists_rowId_fromSnapshotRaw hfits.firstRowId.1 hfits.firstRowId.2
      hrowCount
    refine bind_eq_ok.mpr ⟨rowId, hrowId, bind_eq_ok.mpr ⟨_, checkedAddUsize_eq_ok.mpr
      ⟨by omega, rfl⟩, require_bind_eq_ok.mpr ⟨hstop, ?_⟩⟩⟩
    rw [if_neg hlen]
    rfl
  have hmap : ranges.mapM (postingSpan postings.length rowCount) =
      .ok (ranges.map (fun range => [range.span])) := by
    rw [mapM_eq_ok_iff, List.forall₂_map_right_iff, List.forall₂_same]
    exact hspan
  have hflatten : (ranges.map (fun range => [range.span])).flatten = ranges.map (·.span) := by
    rw [← List.flatMap_def]
    exact List.flatMap_pure_eq_map _ _
  refine bind_eq_ok.mpr ⟨_, hmap, ?_⟩
  rw [hflatten]
  exact hspans.validateSpansCover _

/-- What the sections of the indexes hold. -/
structure IndexesPlaced (groupOf : IndexKind → DiskGroup) (rowCount : Nat) (bytes : IndexBytes)
    (directory : List IndexDirectoryEntry) (ranges : List DiskPostingRange) : Prop where
  lists : bytes.Lists rowCount ranges
  placed : List.Forall₂ (fun kind => GroupPlaced kind (groupOf kind) bytes.keys ranges
    bytes.postingRowIds) IndexKind.all directory
  keyCount : bytes.keyCount = (directory.map (·.keyCount)).sum
  rangeCount : bytes.rangeCount = (directory.map (·.postingRangeCount)).sum
  postingRowIdCount : bytes.postingRowIdCount =
    (IndexKind.all.map (fun kind => overflowCount (groupOf kind))).sum
  spans : ∃ spans, directory.mapM (compactEntrySpans bytes.keys.length ranges.length) =
      .ok spans ∧ SpansFrom 0 (spans.map (·.1)) bytes.keys.length ∧
    SpansFrom 0 (spans.map (·.2)) ranges.length

/-- The writer lays the indexes out. -/
theorem indexesPlaced_of_encode
    {rows : List DiskRow} {indexProfile : IndexProfile} {directoryBytes : List UInt8}
    {bytes : IndexBytes}
    (hgroups : ∀ kind, (indexGroup indexProfile rows kind).Encodable kind rows.length)
    (h : encodeSnapshotIndexes rows indexProfile = .ok (directoryBytes, bytes)) :
    ∃ directory ranges, directoryBytes = directory.flatMap encodeIndexDirectoryEntry ∧
      IndexesPlaced (indexGroup indexProfile rows) rows.length bytes directory ranges := by
  obtain ⟨_, _, h⟩ := bind_eq_ok.mp h
  obtain ⟨⟨directory, result⟩, hencode, h⟩ := bind_eq_ok.mp h
  cases h
  have hempty : IndexBytes.Lists ⟨[], [], [], 0, 0, 0⟩ rows.length [] :=
    ⟨rfl, rfl, by simp, rfl, Nat.zero_le _, Nat.zero_le _, Nat.zero_le _⟩
  obtain ⟨keys, ranges, postings, spans, _, _, hlists, hplaced, hkeyCount, hrangeCount, hcount,
    hspans, hkeySpans, hrangeSpans⟩ :=
    encodeIndexGroups_spec (fun kind _ => hgroups kind) hempty hencode
  rw [List.nil_append] at hlists hplaced
  refine ⟨directory, ranges, rfl, hlists, hplaced, by simpa using hkeyCount,
    by simpa using hrangeCount, by simpa using hcount, spans, ?_, hkeySpans, ?_⟩
  · exact hspans _ _ (Nat.le_refl _) (Nat.le_of_eq hlists.rangeCount)
  · rw [← hlists.rangeCount]
    exact hrangeSpans

/-- The checks of the layout pass. -/
theorem IndexesPlaced.validateIndexSectionLayout
    {groupOf : IndexKind → DiskGroup} {rowCount : Nat} {bytes : IndexBytes}
    {directory : List IndexDirectoryEntry} {ranges : List DiskPostingRange}
    (h : IndexesPlaced groupOf rowCount bytes directory ranges)
    (hrowCount : rowCount ≤ u32Max) :
    validateIndexSectionLayout directory (.compact bytes.keys bytes.keyCount) ranges
      (.deltaVarint bytes.postingRowIds bytes.postingRowIdCount) rowCount = .ok () := by
  obtain ⟨spans, hspans, hkeySpans, hrangeSpans⟩ := h.spans
  have hrangeCount := h.rangeCount
  rw [h.lists.rangeCount] at hrangeCount
  refine bind_eq_ok.mpr ⟨spans, hspans, require_bind_eq_ok.mpr ⟨h.keyCount.symm,
    require_bind_eq_ok.mpr ⟨hrangeCount.symm, bind_eq_ok.mpr ⟨(), hkeySpans.validateSpansCover _,
    bind_eq_ok.mpr ⟨(), hrangeSpans.validateSpansCover _, ?_⟩⟩⟩⟩⟩
  exact validateV3PostingRowIdSpans_written h.lists.fits hrowCount h.lists.spans

/-- The kinds of the directory. -/
theorem IndexesPlaced.map_kind
    {groupOf : IndexKind → DiskGroup} {rowCount : Nat} {bytes : IndexBytes}
    {directory : List IndexDirectoryEntry} {ranges : List DiskPostingRange}
    (h : IndexesPlaced groupOf rowCount bytes directory ranges) :
    directory.map (·.kind) = IndexKind.all := by
  have hpairs : List.Forall₂ (fun kind entry => entry.kind = kind) IndexKind.all directory :=
    h.placed.imp (fun _ _ hplaced => hplaced.sameKind)
  have hmap := List.forall₂_map_right_iff.mpr (hpairs.imp (fun _ _ h => h.symm))
  exact (List.forall₂_eq_eq_eq ▸ hmap : IndexKind.all = _).symm

/-- A section with keys has bytes. -/
theorem IndexesPlaced.keys_ne_nil
    {groupOf : IndexKind → DiskGroup} {rowCount : Nat} {bytes : IndexBytes}
    {directory : List IndexDirectoryEntry} {ranges : List DiskPostingRange}
    (h : IndexesPlaced groupOf rowCount bytes directory ranges)
    (hordered : ∀ kind, (groupOf kind).Ordered) :
    ¬(bytes.keys = [] ∧ bytes.keyCount ≠ 0) := by
  rintro ⟨hempty, hcount⟩
  apply hcount
  rw [h.keyCount, List.sum_eq_zero_iff]
  intro count hcount
  obtain ⟨entry, hentry, rfl⟩ := List.mem_map.mp hcount
  obtain ⟨kind, _, hplaced⟩ := h.placed.exists_left hentry
  obtain ⟨width, before, after, _, _, hkeys, _⟩ := hplaced.keyPlace
  have hbytes : groupKeyBytes kind width (groupOf kind) = [] := by
    rw [hempty] at hkeys
    have hempties := (congrArg List.length hkeys).symm
    simp only [List.length_append, List.length_nil] at hempties
    exact List.eq_nil_of_length_eq_zero (by omega)
  have hlength := @length_le_groupKeyBytes kind width _ (hordered kind)
  rw [hbytes, List.length_nil] at hlength
  rw [hplaced.keyCount]
  exact Nat.le_zero.mp hlength

section Hashes

variable [Blake3Hash]

/-- The directory is read from its section. -/
theorem IndexesPlaced.decodeIndexDirectory
    {groupOf : IndexKind → DiskGroup} {rowCount : Nat} {bytes : IndexBytes}
    {directory : List IndexDirectoryEntry} {ranges : List DiskPostingRange} {reader : Reader}
    (h : IndexesPlaced groupOf rowCount bytes directory ranges)
    (hsection : reader.section .indexDirectory =
      .ok ⟨directory.flatMap encodeIndexDirectoryEntry, 0, IndexKind.all.length⟩) :
    decodeIndexDirectory reader = .ok directory := by
  have hlength : directory.length = IndexKind.all.length := h.placed.length_eq.symm
  have hstorable : ∀ entry ∈ directory, entry.Storable := by
    intro entry hentry
    obtain ⟨kind, _, hplaced⟩ := h.placed.exists_left hentry
    exact hplaced.storable
  have hnodup : (([] ++ directory : List IndexDirectoryEntry).map (·.kind)).Nodup := by
    rw [List.nil_append, h.map_kind]
    decide
  have hread := (reads_readIndexDirectory hstorable hnodup).apply
  rw [hlength, List.nil_append] at hread
  refine bind_eq_ok.mpr ⟨_, hsection, require_bind_eq_ok.mpr ⟨rfl, bind_eq_ok.mpr
    ⟨_, checkedMulUsize_eq_ok.mpr ⟨by decide, rfl⟩, require_bind_eq_ok.mpr ⟨?_, ?_⟩⟩⟩⟩
  · have hentry : ∀ entry : IndexDirectoryEntry,
        (encodeIndexDirectoryEntry entry).length = indexDirectoryEntryLen := by
      intro entry
      simp [encodeIndexDirectoryEntry, indexDirectoryEntryLen]
    simp [List.length_flatMap, hentry, hlength]
  · exact congrArg Prod.fst hread

/-- The ranges are read from their section. -/
theorem IndexesPlaced.decodePostingRanges
    {groupOf : IndexKind → DiskGroup} {rowCount : Nat} {bytes : IndexBytes}
    {directory : List IndexDirectoryEntry} {ranges : List DiskPostingRange} {reader : Reader}
    (h : IndexesPlaced groupOf rowCount bytes directory ranges)
    (hrowCount : rowCount ≤ u32Max)
    (hsection : reader.section .postingRanges = .ok ⟨bytes.ranges, 0, bytes.rangeCount⟩) :
    decodePostingRanges reader = .ok ranges := by
  have hu32 : u32Max * 12 ≤ usizeMax := by decide
  have hbound := h.lists.rangeCount_le
  have hread := (@Reads.times _ _ DiskPostingRange.read DiskPostingRange.encode ranges
    (fun range hrange => (h.lists.fits range hrange).1.reads hrowCount)).apply
  have hlen : postingRangeLen = 12 := rfl
  rw [h.lists.encoded, h.lists.rangeCount] at hsection
  rw [h.lists.rangeCount] at hbound
  refine bind_eq_ok.mpr ⟨_, hsection, bind_eq_ok.mpr ⟨_, checkedMulUsize_eq_ok.mpr ⟨?_, rfl⟩,
    require_bind_eq_ok.mpr ⟨?_, congrArg Prod.fst hread⟩⟩⟩
  · show ranges.length * postingRangeLen ≤ usizeMax
    rw [hlen]
    omega
  · simp [List.length_flatMap, DiskPostingRange.length_encode]

/-- The sections that the indexes are read from. -/
structure IndexSections (reader : Reader) (directory : List UInt8) (bytes : IndexBytes) :
    Prop where
  version : reader.header.formatVersion = .v3
  indexDirectory : reader.section .indexDirectory = .ok ⟨directory, 0, IndexKind.all.length⟩
  indexKeys : reader.section .indexKeys = .ok ⟨bytes.keys, 0, bytes.keyCount⟩
  postingRanges : reader.section .postingRanges = .ok ⟨bytes.ranges, 0, bytes.rangeCount⟩
  postingRowIds : reader.section .postingRowIds =
    .ok ⟨bytes.postingRowIds, 0, bytes.postingRowIdCount⟩

/-- A load of indexes that were laid out gets to their postings. -/
theorem IndexesPlaced.decode_eq
    {groupOf : IndexKind → DiskGroup} {bytes : IndexBytes}
    {directory : List IndexDirectoryEntry} {ranges : List DiskPostingRange} {reader : Reader}
    (h : IndexesPlaced groupOf reader.header.relationshipCount bytes directory ranges)
    (hordered : ∀ kind, (groupOf kind).Ordered)
    (hrowCount : reader.header.relationshipCount ≤ u32Max)
    (hsections : IndexSections reader (directory.flatMap encodeIndexDirectoryEntry) bytes)
    (rows : List RelationshipRow) (profile : SnapshotLoadProfile)
    (validation : SnapshotValidationMode) :
    DecodedIndexes.decode reader rows profile validation = decodeAllIndexes
      { directory := directory
        keys := .compact bytes.keys bytes.keyCount
        ranges := ranges
        postingRowIds := .deltaVarint bytes.postingRowIds bytes.postingRowIdCount
        rows := rows
        rowCount := reader.header.relationshipCount
        symbolCount := reader.header.symbolCount
        indexProfile := reader.header.indexProfile
        profile := profile
        validation := validation } := by
  have hkeys : decodeIndexKeys reader = .ok (.compact bytes.keys bytes.keyCount) := by
    unfold decodeIndexKeys
    rw [hsections.indexKeys]
    refine bind_eq_ok.mpr ⟨_, rfl, ?_⟩
    rw [hsections.version]
    exact require_bind_eq_ok.mpr ⟨h.keys_ne_nil hordered, rfl⟩
  have hpostings : decodePostingRowIds reader =
      .ok (.deltaVarint bytes.postingRowIds bytes.postingRowIdCount) := by
    unfold decodePostingRowIds
    rw [hsections.postingRowIds]
    refine bind_eq_ok.mpr ⟨_, rfl, ?_⟩
    rw [hsections.version]
    rfl
  rw [DecodedIndexes.decode, h.decodeIndexDirectory hsections.indexDirectory, hkeys,
    h.decodePostingRanges hrowCount hsections.postingRanges, hpostings]
  simp only [bind, Except.bind, h.validateIndexSectionLayout hrowCount]

end Hashes

end Snapshot

end SimpleZanzibar
