import SimpleZanzibar.Store.Sections

/-!
# A loaded store is the saved store

Loading the sections of a store gives a store that satisfies the invariant again, with
the index profile it was saved with and the same live relationships.
-/

namespace SimpleZanzibar

/-- The group lists, for each key, the rows that have it, and no list is empty. -/
structure PostingGroup.Exact {K : Type} [DecidableEq K] (group : PostingGroup K)
    (rows : List RelationshipRow) (keysOf : RowIdentity → List K) : Prop where
  rowsOf : ∀ key, (group.lookup key).getD [] =
    (rows.filter (fun row => decide (key ∈ keysOf row.identity))).map (·.rowId)
  nonempty : ∀ key, group.lookup key ≠ some []

namespace PostingGroup

variable {K : Type} [DecidableEq K]

theorem exact_empty
    (keysOf : RowIdentity → List K) :
    Exact (∅ : PostingGroup K) [] keysOf :=
  ⟨fun _ => rfl, fun _ h => by cases h⟩

theorem lookup_pushRow
    (group : PostingGroup K) (key : K) (rowId : RowId) (other : K) :
    (group.pushRow key rowId).lookup other =
      if other = key then some ((group.lookup key).getD [] ++ [rowId])
      else group.lookup other := by
  unfold pushRow
  by_cases h : other = key
  · subst h
    rw [if_pos rfl, AList.lookup_insert]
  · rw [if_neg h, AList.lookup_insert_ne h]

/-- Entering a row under distinct keys appends it to the list of each. -/
theorem pushRow_foldl
    {keys : List K}
    (hkeys : keys.Nodup)
    (group : PostingGroup K) (rowId : RowId)
    (hnonempty : ∀ key, group.lookup key ≠ some []) :
    (∀ key, ((keys.foldl (fun group key => pushRow group key rowId) group).lookup key).getD [] =
      (group.lookup key).getD [] ++ if key ∈ keys then [rowId] else []) ∧
    ∀ key, (keys.foldl (fun group key => pushRow group key rowId) group).lookup key ≠
      some [] := by
  induction keys generalizing group with
  | nil =>
      exact ⟨fun key => by simp, hnonempty⟩
  | cons first rest ih =>
      obtain ⟨hnot, hrest⟩ := List.nodup_cons.mp hkeys
      have hnonempty' : ∀ key, (group.pushRow first rowId).lookup key ≠ some [] := by
        intro key h
        rw [lookup_pushRow] at h
        by_cases heq : key = first
        · rw [if_pos heq] at h
          simp at h
        · rw [if_neg heq] at h
          exact hnonempty key h
      obtain ⟨hrows, hne⟩ := ih hrest (group.pushRow first rowId) hnonempty'
      refine ⟨?_, hne⟩
      intro key
      rw [List.foldl_cons, hrows, lookup_pushRow]
      by_cases heq : key = first
      · subst heq
        simp [hnot]
      · simp [heq]

theorem Exact.pushKeys
    {group : PostingGroup K} {rows : List RelationshipRow} {keysOf : RowIdentity → List K}
    (hexact : group.Exact rows keysOf)
    (hkeys : ∀ row, (keysOf row).Nodup)
    (row : RelationshipRow) :
    Exact (group.pushKeys keysOf row) (rows ++ [row]) keysOf := by
  obtain ⟨hrows, hne⟩ := pushRow_foldl (hkeys row.identity) group row.rowId hexact.nonempty
  refine ⟨?_, hne⟩
  intro key
  unfold PostingGroup.pushKeys
  rw [hrows, hexact.rowsOf, List.filter_append, List.map_append]
  by_cases hmem : key ∈ keysOf row.identity
  · simp [hmem]
  · simp [hmem]

/-- An entry is the whole list of its key. -/
theorem Exact.mem_entries
    {group : PostingGroup K} {rows : List RelationshipRow} {keysOf : RowIdentity → List K}
    (hexact : group.Exact rows keysOf)
    {entry : (_ : K) × List RowId}
    (hentry : entry ∈ group.entries) :
    entry.2 = (rows.filter (fun row => decide (entry.1 ∈ keysOf row.identity))).map (·.rowId) := by
  have hlookup : group.lookup entry.1 = some entry.2 := AList.mem_lookup_iff.mpr hentry
  rw [← hexact.rowsOf, hlookup]
  rfl

/-- The rows determine the lists of a group. -/
theorem Exact.lookup_eq
    {group group' : PostingGroup K} {rows : List RelationshipRow}
    {keysOf : RowIdentity → List K}
    (hexact : group.Exact rows keysOf)
    (hexact' : group'.Exact rows keysOf)
    (key : K) :
    group.lookup key = group'.lookup key := by
  have hrows := (hexact.rowsOf key).trans (hexact'.rowsOf key).symm
  have hne := hexact.nonempty key
  have hne' := hexact'.nonempty key
  cases hlookup : group.lookup key with
  | none =>
      cases hlookup' : group'.lookup key with
      | none => rfl
      | some rowIds' =>
          rw [hlookup, hlookup'] at hrows
          replace hrows : [] = rowIds' := hrows
          rw [hlookup', ← hrows] at hne'
          exact absurd rfl hne'
  | some rowIds =>
      cases hlookup' : group'.lookup key with
      | none =>
          rw [hlookup, hlookup'] at hrows
          replace hrows : rowIds = [] := hrows
          rw [hlookup, hrows] at hne
          exact absurd rfl hne
      | some rowIds' =>
          rw [hlookup, hlookup'] at hrows
          exact congrArg some hrows

/-- The order of the keys does not depend on the order in which rows were entered. -/
theorem inOrder_congr
    [IndexKey K] {group group' : PostingGroup K}
    (h : ∀ key, group.lookup key = group'.lookup key) :
    group.inOrder = group'.inOrder := by
  let le := fun a b : (_ : K) × List RowId => IndexKey.rank a.1 ≤ IndexKey.rank b.1
  have : Std.Total le := ⟨fun a b => le_total (IndexKey.rank a.1) (IndexKey.rank b.1)⟩
  have : IsTrans _ le := ⟨fun _ _ _ => le_trans⟩
  have hperm : group.entries.Perm group'.entries := by
    refine (List.perm_ext_iff_of_nodup group.nodupKeys.nodup group'.nodupKeys.nodup).mpr ?_
    rintro ⟨key, rowIds⟩
    rw [← AList.mem_lookup_iff, ← AList.mem_lookup_iff, h]
  refine List.Perm.eq_of_pairwise ?_ (List.pairwise_insertionSort le _)
    (List.pairwise_insertionSort le _)
    ((List.perm_insertionSort le _).trans (hperm.trans (List.perm_insertionSort le _).symm))
  intro entry entry' hentry hentry' hle hle'
  have hkey := IndexKey.rank_injective (le_antisymm hle hle')
  have hmem := (List.perm_insertionSort le _).mem_iff.mp hentry
  have hmem' := hperm.mem_iff.mpr ((List.perm_insertionSort le _).mem_iff.mp hentry')
  exact group.nodupKeys.eq_of_fst_eq hmem hmem' hkey

/-- A key without an entry has no rows. -/
theorem Exact.not_mem_keys
    {group : PostingGroup K} {rows : List RelationshipRow} {keysOf : RowIdentity → List K}
    (hexact : group.Exact rows keysOf)
    {key : K}
    (hkey : key ∉ group.entries.map Sigma.fst) :
    (rows.filter (fun row => decide (key ∈ keysOf row.identity))).map (·.rowId) = [] := by
  have hlookup : group.lookup key = none := AList.lookup_eq_none.mpr hkey
  rw [← hexact.rowsOf, hlookup]
  rfl

end PostingGroup

/-- The groups of the rows: all of them, or the exact resource group alone. -/
structure SnapshotIndexGroups.Exact (indexProfile : IndexProfile)
    (groups : SnapshotIndexGroups) (rows : List RelationshipRow) : Prop where
  resource : groups.resource.Exact rows (fun row => [row.resourceKey])
  resourceObject : indexProfile = .full →
    groups.resourceObject.Exact rows (fun row => [row.resourceObjectKey])
  resourceTypeRelation : indexProfile = .full →
    groups.resourceTypeRelation.Exact rows (fun row => [row.resourceTypeRelationKey])
  resourceType : indexProfile = .full →
    groups.resourceType.Exact rows (fun row => [row.resourceType])
  subject : indexProfile = .full → groups.subject.Exact rows RowIdentity.subjectKeys
  subjectTypeRelation : indexProfile = .full →
    groups.subjectTypeRelation.Exact rows (fun row => row.subjectTypeRelationKey.toList)
  subjectType : indexProfile = .full →
    groups.subjectType.Exact rows (fun row => [row.subjectType])
  reduced : indexProfile ≠ .full → groups.resourceObject = ∅ ∧
    groups.resourceTypeRelation = ∅ ∧ groups.resourceType = ∅ ∧ groups.subject = ∅ ∧
    groups.subjectTypeRelation = ∅ ∧ groups.subjectType = ∅

namespace SnapshotIndexGroups

theorem exact_default
    (indexProfile : IndexProfile) :
    Exact indexProfile default [] where
  resource := PostingGroup.exact_empty _
  resourceObject _ := PostingGroup.exact_empty _
  resourceTypeRelation _ := PostingGroup.exact_empty _
  resourceType _ := PostingGroup.exact_empty _
  subject _ := PostingGroup.exact_empty _
  subjectTypeRelation _ := PostingGroup.exact_empty _
  subjectType _ := PostingGroup.exact_empty _
  reduced _ := ⟨rfl, rfl, rfl, rfl, rfl, rfl⟩

theorem Exact.insertRow
    {indexProfile : IndexProfile} {groups : SnapshotIndexGroups} {rows : List RelationshipRow}
    (hexact : Exact indexProfile groups rows)
    (row : RelationshipRow) :
    Exact indexProfile (groups.insertRow indexProfile row) (rows ++ [row]) := by
  by_cases hfull : indexProfile = .full
  · subst hfull
    exact {
      resource := hexact.resource.pushKeys (fun _ => List.nodup_singleton _) row
      resourceObject := fun h =>
        (hexact.resourceObject h).pushKeys (fun _ => List.nodup_singleton _) row
      resourceTypeRelation := fun h =>
        (hexact.resourceTypeRelation h).pushKeys (fun _ => List.nodup_singleton _) row
      resourceType := fun h =>
        (hexact.resourceType h).pushKeys (fun _ => List.nodup_singleton _) row
      subject := fun h =>
        (hexact.subject h).pushKeys IndexedRelationshipStore.subjectKeys_nodup row
      subjectTypeRelation := fun h =>
        (hexact.subjectTypeRelation h).pushKeys
          IndexedRelationshipStore.subjectTypeRelationKey_nodup row
      subjectType := fun h =>
        (hexact.subjectType h).pushKeys (fun _ => List.nodup_singleton _) row
      reduced := fun h => absurd rfl h }
  · have hbroad : indexProfile.supportsBroadResourceIndexes = false := by
      cases indexProfile with
      | full =>
          exact absurd rfl hfull
      | checkOnly =>
          rfl
      | checkAndObjectAudit =>
          rfl
    have hgroups : groups.insertRow indexProfile row =
        { groups with
          resource := groups.resource.pushKeys (fun row => [row.resourceKey]) row } := by
      unfold SnapshotIndexGroups.insertRow
      simp [hbroad]
    rw [hgroups]
    exact {
      resource := hexact.resource.pushKeys (fun _ => List.nodup_singleton _) row
      resourceObject := fun h => absurd h hfull
      resourceTypeRelation := fun h => absurd h hfull
      resourceType := fun h => absurd h hfull
      subject := fun h => absurd h hfull
      subjectTypeRelation := fun h => absurd h hfull
      subjectType := fun h => absurd h hfull
      reduced := hexact.reduced }

theorem exact_fromRows
    (indexProfile : IndexProfile) (rows : List RelationshipRow) :
    Exact indexProfile (fromRows indexProfile rows) rows := by
  suffices h : ∀ (rest done : List RelationshipRow) (groups : SnapshotIndexGroups),
      Exact indexProfile groups done →
      Exact indexProfile (rest.foldl (insertRow indexProfile) groups) (done ++ rest) by
    exact h rows [] default (exact_default indexProfile)
  intro rest
  induction rest with
  | nil =>
      intro done groups h
      rw [List.append_nil]
      exact h
  | cons row rest ih =>
      intro done groups h
      rw [List.foldl_cons, ← List.singleton_append, ← List.append_assoc]
      exact ih _ _ (h.insertRow row)

end SnapshotIndexGroups

namespace PostingIndex

variable {K : Type} [DecidableEq K] [IndexKey K]

/-- What is decoded depends on the lists of a group only. -/
theorem decodeIndex_congr
    {profile : SnapshotLoadProfile} {group group' : PostingGroup K}
    (h : ∀ key, group.lookup key = group'.lookup key) :
    decodeIndex profile group = decodeIndex profile group' := by
  unfold decodeIndex
  rw [PostingGroup.inOrder_congr h]

omit [DecidableEq K] [IndexKey K] in
/-- The arrays of a fast load list the entries: each range reads its own rows back,
behind any rows that come before them in the overflow array. -/
theorem decodeEntries_ok
    {entries : List ((_ : K) × List RowId)} {start : Nat} {keys : List K}
    {ranges : List RuntimePostingRange} {overflow : List RowId}
    (h : decodeEntries start entries = .ok (keys, ranges, overflow)) :
    keys = entries.map Sigma.fst ∧
      ∀ before : List RowId, before.length = start →
        ranges.map (fun range => range.candidates (before ++ overflow)) =
          entries.map Sigma.snd := by
  induction entries generalizing start keys ranges overflow with
  | nil =>
      cases h
      exact ⟨rfl, fun _ _ => rfl⟩
  | cons entry rest ih =>
      obtain ⟨key, rowIds⟩ := entry
      cases rowIds with
      | nil =>
          cases h
      | cons first others =>
          obtain ⟨⟨keys', ranges', overflow'⟩, hrest, h⟩ := bind_eq_ok.mp h
          cases h
          obtain ⟨hkeys, hranges⟩ := ih hrest
          refine ⟨by rw [hkeys]; rfl, ?_⟩
          intro before hbefore
          have htail := hranges (before ++ others) (by simp [hbefore])
          rw [List.append_assoc] at htail
          rw [List.map_cons, List.map_cons, htail]
          congr 1
          unfold RuntimePostingRange.candidates RuntimePostingRange.overflowSlice
          by_cases hempty : others = []
          · simp [hempty]
          · have hpos : others.length ≠ 0 := by simpa using hempty
            have hle : start + others.length ≤ (before ++ (others ++ overflow')).length := by
              simp only [List.length_append, hbefore]
              omega
            simp only [hpos, hle, if_true, if_false, Option.getD_some]
            rw [← hbefore, List.drop_left, List.take_left]

omit [DecidableEq K] in
theorem perm_inOrder
    (group : PostingGroup K) :
    group.inOrder.Perm group.entries :=
  List.perm_insertionSort _ _

omit [DecidableEq K] in
/-- The keys of a group ascend in order. -/
theorem sorted_inOrder
    (group : PostingGroup K) :
    Sorted (group.inOrder.map Sigma.fst) := by
  have : Std.Total (fun a b : (_ : K) × List RowId => IndexKey.rank a.1 ≤ IndexKey.rank b.1) :=
    ⟨fun a b => le_total (IndexKey.rank a.1) (IndexKey.rank b.1)⟩
  have : IsTrans ((_ : K) × List RowId) (fun a b => IndexKey.rank a.1 ≤ IndexKey.rank b.1) :=
    ⟨fun _ _ _ => le_trans⟩
  have hascending : group.inOrder.Pairwise
      (fun a b => IndexKey.rank a.1 ≤ IndexKey.rank b.1) :=
    List.pairwise_insertionSort _ _
  have hdistinct : group.inOrder.Pairwise (fun a b => a.1 ≠ b.1) :=
    List.pairwise_map.mp (((perm_inOrder group).map Sigma.fst).nodup_iff.mpr group.nodupKeys)
  rw [Sorted, List.pairwise_map]
  exact (hascending.and hdistinct).imp
    (fun h => h.1.lt_of_ne (fun heq => h.2 (IndexKey.rank_injective heq)))

/-- A decoded array index answers each key with its list. -/
theorem exact_sorted
    {group : PostingGroup K} {rows : List RelationshipRow} {keysOf : RowIdentity → List K}
    (hexact : group.Exact rows keysOf)
    {keys : List K} {ranges : List RuntimePostingRange} {overflow : List RowId}
    (h : decodeEntries 0 group.inOrder = .ok (keys, ranges, overflow)) :
    IndexExact (.sorted keys ranges overflow) rows keysOf := by
  obtain ⟨hkeys, hranges⟩ := decodeEntries_ok h
  replace hranges := hranges [] rfl
  rw [List.nil_append] at hranges
  have hsorted : Sorted keys := by
    rw [hkeys]
    exact sorted_inOrder group
  refine ⟨hsorted, ?_⟩
  intro key
  have hlength : ranges.length = keys.length := by
    have := congrArg List.length hranges
    rw [List.length_map, List.length_map] at this
    rw [hkeys, List.length_map, this]
  have hcases := @candidates_sorted_cases K _ _ keys ranges hsorted overflow key
  rcases hcases with ⟨range, hzip, hcandidates⟩ | ⟨hnot, hcandidates⟩
  · obtain ⟨n, hn⟩ := List.mem_iff_getElem?.mp hzip
    obtain ⟨hkey, hrange⟩ := List.getElem?_zip_eq_some.mp hn
    rw [hkeys, List.getElem?_map] at hkey
    obtain ⟨entry, hentry, rfl⟩ := Option.map_eq_some_iff.mp hkey
    have hsecond := congrArg (·[n]?) hranges
    simp only [List.getElem?_map, hrange, hentry, Option.map_some] at hsecond
    rw [hcandidates, Option.some.inj hsecond]
    exact hexact.mem_entries ((perm_inOrder group).mem_iff.mp (List.mem_of_getElem? hentry))
  · rw [hcandidates]
    rw [List.map_fst_zip (by omega), hkeys] at hnot
    exact (hexact.not_mem_keys
      (fun hmem => hnot (((perm_inOrder group).map Sigma.fst).mem_iff.mpr hmem))).symm

/-- Entering the rows of one key appends them to its candidates. -/
theorem Inv.insertEntry
    {index : PostingIndex K}
    (hinv : index.Inv)
    (entry : (_ : K) × List RowId) :
    (index.insertEntry entry).Inv ∧
      ∀ key, (index.insertEntry entry).candidates key =
        index.candidates key ++ if key = entry.1 then entry.2 else [] := by
  obtain ⟨key₀, rowIds⟩ := entry
  unfold PostingIndex.insertEntry
  induction rowIds generalizing index with
  | nil =>
      exact ⟨hinv, fun key => by simp⟩
  | cons first rest ih =>
      obtain ⟨hinv', hcandidates⟩ := hinv.insert key₀ first
      obtain ⟨hinv'', hrest⟩ := ih hinv'
      refine ⟨hinv'', ?_⟩
      intro key
      rw [List.foldl_cons]
      refine (hrest key).trans ?_
      rw [hcandidates]
      by_cases heq : key = key₀
      · simp [heq]
      · simp [heq]

/-- Entering all entries gives each key the lists that stand under it. -/
theorem Inv.foldl_insertEntry
    (entries : List ((_ : K) × List RowId))
    {index : PostingIndex K}
    (hinv : index.Inv) :
    (entries.foldl PostingIndex.insertEntry index).Inv ∧
      ∀ key, (entries.foldl PostingIndex.insertEntry index).candidates key =
        index.candidates key ++
          entries.flatMap (fun entry => if key = entry.1 then entry.2 else []) := by
  induction entries generalizing index with
  | nil =>
      exact ⟨hinv, fun key => by simp⟩
  | cons entry rest ih =>
      obtain ⟨hinv', hcandidates⟩ := hinv.insertEntry entry
      obtain ⟨hinv'', hrest⟩ := ih hinv'
      refine ⟨hinv'', ?_⟩
      intro key
      rw [List.foldl_cons, hrest, hcandidates, List.flatMap_cons, List.append_assoc]

omit [IndexKey K] in
/-- Among distinct keys the lists under a key are one list. -/
theorem flatMap_entries
    {entries : List ((_ : K) × List RowId)}
    (hnodup : (entries.map Sigma.fst).Nodup)
    (key : K) :
    entries.flatMap (fun entry => if key = entry.1 then entry.2 else []) =
      (entries.dlookup key).getD [] := by
  induction entries with
  | nil =>
      rfl
  | cons entry rest ih =>
      rw [List.map_cons, List.nodup_cons] at hnodup
      rw [List.flatMap_cons]
      by_cases heq : key = entry.1
      · subst heq
        have hrest :
            rest.flatMap (fun other => if entry.1 = other.1 then other.2 else []) = [] := by
          rw [List.flatMap_eq_nil_iff]
          intro other hother
          rw [if_neg]
          intro h
          exact hnodup.1 (List.mem_map.mpr ⟨other, hother, h.symm⟩)
        rw [hrest, if_pos rfl, List.append_nil]
        obtain ⟨key', rowIds⟩ := entry
        rw [List.dlookup_cons_eq]
        rfl
      · obtain ⟨key', rowIds⟩ := entry
        rw [if_neg heq, List.nil_append, ih hnodup.2, List.dlookup_cons_ne _ _ heq]

/-- A decoded index is exact, whichever way it is kept. -/
theorem exact_decodeIndex
    {group : PostingGroup K} {rows : List RelationshipRow} {keysOf : RowIdentity → List K}
    (hexact : group.Exact rows keysOf)
    {profile : SnapshotLoadProfile} {index : PostingIndex K}
    (h : decodeIndex profile group = .ok index) :
    IndexExact index rows keysOf := by
  obtain ⟨⟨keys, ranges, overflow⟩, hentries, h⟩ := bind_eq_ok.mp h
  cases profile with
  | fastLoad =>
      cases h
      exact exact_sorted hexact hentries
  | latency =>
      cases h
      obtain ⟨hinv, hcandidates⟩ := inv_default.foldl_insertEntry group.inOrder
      refine ⟨hinv, ?_⟩
      intro key
      have hnodup := (sorted_inOrder group).nodup
      rw [hcandidates, candidates_default, List.nil_append, flatMap_entries hnodup,
        List.perm_dlookup key hnodup (perm_inOrder group)]
      exact hexact.rowsOf key

/-- An empty group gives an empty index. -/
theorem candidates_decodeIndex_empty
    {profile : SnapshotLoadProfile} {index : PostingIndex K}
    (h : decodeIndex profile (∅ : PostingGroup K) = .ok index)
    (key : K) :
    index.candidates key = [] := by
  cases profile with
  | fastLoad =>
      cases h
      rfl
  | latency =>
      cases h
      rfl

end PostingIndex

theorem mem_numberedSymbols_iff
    {symbols : List String} {value : String} {id : SymbolId} :
    (value, id) ∈ numberedSymbols symbols ↔ symbols[id.index]? = some value := by
  unfold numberedSymbols
  rw [List.mem_filterMap]
  constructor
  · rintro ⟨⟨value', index⟩, hindex, h⟩
    cases hfrom : SymbolId.fromIndex index with
    | error error =>
        rw [hfrom] at h
        cases h
    | ok id' =>
        rw [hfrom] at h
        cases h
        rw [SymbolId.fromIndex_ok_iff.mp hfrom]
        exact List.mem_zipIdx_iff_getElem?.mp hindex
  · intro h
    refine ⟨(value, id.index), List.mem_zipIdx_iff_getElem?.mpr h, ?_⟩
    rw [SymbolId.fromIndex_ok_iff.mpr rfl]
    rfl

namespace IdentifierInterner

section Hashed

variable [StoreHasher]

/-- The symbol is found in one of the two hash tables. -/
def InTables
    (tables : AList (fun _ : UInt64 => SymbolId) × AList (fun _ : UInt64 => List SymbolId))
    (value : String) (id : SymbolId) : Prop :=
  tables.1.lookup (hashValue value) = some id ∨
    ∃ ids, tables.2.lookup (hashValue value) = some ids ∧ id ∈ ids

theorem InTables.indexSymbol
    {tables : AList (fun _ : UInt64 => SymbolId) × AList (fun _ : UInt64 => List SymbolId)}
    {value : String} {id : SymbolId}
    (h : InTables tables value id)
    (entry : String × SymbolId) :
    InTables (IdentifierInterner.indexSymbol tables entry) value id := by
  unfold IdentifierInterner.indexSymbol
  by_cases heq : hashValue value = hashValue entry.1
  · cases hfirst : tables.1.lookup (hashValue entry.1) with
    | none =>
        rcases h with h | h
        · rw [heq, hfirst] at h
          cases h
        · exact Or.inr h
    | some first =>
        rcases h with h | ⟨ids, hids, hmem⟩
        · exact Or.inl h
        · refine Or.inr ⟨ids ++ [entry.2], ?_, List.mem_append_left _ hmem⟩
          rw [heq] at hids
          rw [heq, AList.lookup_insert, hids]
          rfl
  · cases hfirst : tables.1.lookup (hashValue entry.1) with
    | none =>
        rcases h with h | h
        · exact Or.inl ((AList.lookup_insert_ne heq).trans h)
        · exact Or.inr h
    | some first =>
        rcases h with h | ⟨ids, hids, hmem⟩
        · exact Or.inl h
        · exact Or.inr ⟨ids, (AList.lookup_insert_ne heq).trans hids, hmem⟩

theorem inTables_indexSymbol_self
    (tables : AList (fun _ : UInt64 => SymbolId) × AList (fun _ : UInt64 => List SymbolId))
    (value : String) (id : SymbolId) :
    InTables (indexSymbol tables (value, id)) value id := by
  unfold indexSymbol
  cases hfirst : tables.1.lookup (hashValue (value, id).1) with
  | none =>
      exact Or.inl (AList.lookup_insert _)
  | some first =>
      exact Or.inr ⟨_, AList.lookup_insert _, List.mem_append_right _ (List.mem_singleton_self _)⟩

/-- Every symbol that is entered stays in the tables. -/
theorem inTables_foldl
    {entries : List (String × SymbolId)} {value : String} {id : SymbolId}
    (tables : AList (fun _ : UInt64 => SymbolId) × AList (fun _ : UInt64 => List SymbolId))
    (h : (value, id) ∈ entries ∨ InTables tables value id) :
    InTables (entries.foldl indexSymbol tables) value id := by
  induction entries generalizing tables with
  | nil =>
      rcases h with h | h
      · cases h
      · exact h
  | cons entry rest ih =>
      apply ih
      rcases h with h | h
      · rcases List.mem_cons.mp h with rfl | h
        · exact Or.inr (inTables_indexSymbol_self tables value id)
        · exact Or.inl h
      · exact Or.inr (h.indexSymbol entry)

/-- The lookup section lists the symbols of the table. -/
theorem mem_encodeSymbolLookup_iff
    {interner : IdentifierInterner} {id : SymbolId} :
    id ∈ interner.encodeSymbolLookup ↔ id.index < interner.entries.length := by
  unfold encodeSymbolLookup
  rw [List.mem_mergeSort, List.mem_map]
  constructor
  · rintro ⟨⟨value, id'⟩, hmem, rfl⟩
    exact (List.getElem?_eq_some_iff.mp (mem_numberedSymbols_iff.mp hmem)).1
  · intro h
    exact ⟨(interner.entries[id.index], id),
      mem_numberedSymbols_iff.mpr (List.getElem?_eq_getElem h), rfl⟩

/-- The lookup section is ordered by hash. -/
theorem pairwise_encodeSymbolLookup
    (interner : IdentifierInterner) :
    interner.encodeSymbolLookup.Pairwise
      (fun a b => lookupLe interner.encodeSymbolHashes a b = true) := by
  apply List.pairwise_mergeSort
  · intro a b c hab hbc
    simp only [lookupLe, decide_eq_true_eq, UInt64.lt_iff_toNat_lt, ← UInt64.toNat_inj]
      at hab hbc ⊢
    omega
  · intro a b
    simp only [lookupLe, Bool.or_eq_true, decide_eq_true_eq, UInt64.lt_iff_toNat_lt,
      ← UInt64.toNat_inj]
    omega

/-- The interner of a load of the symbols. -/
def reloaded (interner : IdentifierInterner) (validation : SnapshotValidationMode) :
    IdentifierInterner :=
  fromSnapshotParts (interner.entries.flatMap stringBytes).length interner.entries
    interner.encodeSymbolHashes interner.encodeSymbolLookup validation

theorem entries_reloaded
    (interner : IdentifierInterner) (validation : SnapshotValidationMode) :
    (interner.reloaded validation).entries = interner.entries := by
  cases validation <;> rfl

/-- The interner of a load maps the strings of the saved one to the same symbols. -/
theorem Inv.reloaded
    {interner : IdentifierInterner}
    (hinv : interner.Inv)
    (validation : SnapshotValidationMode) :
    (interner.reloaded validation).Inv := by
  cases validation with
  | full =>
      refine ⟨hinv.nodup, ?_, ?_, ?_, ?_⟩
      · intro id value hresolve
        have hmem : (value, id) ∈ numberedSymbols interner.entries :=
          mem_numberedSymbols_iff.mpr (resolve_eq_ok_iff.mp hresolve)
        exact (if_pos rfl).mpr (inTables_foldl (∅, ∅) (Or.inl hmem))
      · intro h
        exact absurd rfl h
      · intro id h
        cases h
      · exact List.Pairwise.nil
  | trustedFastLoad =>
      refine ⟨hinv.nodup, ?_, ?_, ?_, ?_⟩
      · intro id value hresolve
        have hget : interner.entries[id.index]? = some value := resolve_eq_ok_iff.mp hresolve
        have hmem : id ∈ interner.encodeSymbolLookup :=
          mem_encodeSymbolLookup_iff.mpr (List.getElem?_eq_some_iff.mp hget).1
        refine (if_neg (List.ne_nil_of_mem hmem)).mpr ⟨hmem, ?_⟩
        show interner.encodeSymbolHashes[id.index]? = some (hashValue value)
        rw [encodeSymbolHashes, List.getElem?_map, hget]
        rfl
      · exact fun _ => List.length_map _
      · exact fun id hid => mem_encodeSymbolLookup_iff.mp hid
      · refine interner.pairwise_encodeSymbolLookup.imp ?_
        intro a b hle ha hb hha hhb
        replace hha : interner.encodeSymbolHashes[a.index]? = some ha := hha
        replace hhb : interner.encodeSymbolHashes[b.index]? = some hb := hhb
        simp only [lookupLe, hha, hhb, Option.getD_some, decide_eq_true_eq] at hle
        rcases hle with hlt | ⟨heq, _⟩
        · exact UInt64.le_of_lt hlt
        · exact UInt64.le_of_eq heq

end Hashed

end IdentifierInterner

/-- Numbering keeps the rows and gives each its position. -/
theorem numberRows_ok
    {rows : List RowIdentity} {start : Nat} {numbered : List RelationshipRow}
    (h : numberRows start rows = .ok numbered) :
    numbered.map (·.identity) = rows ∧
      ∀ (n : Nat) row, numbered[n]? = some row → row.rowId.index = start + n := by
  induction rows generalizing start numbered with
  | nil =>
      cases h
      exact ⟨rfl, fun n row h => by cases h⟩
  | cons first rest ih =>
      obtain ⟨rowId, hrowId, h⟩ := bind_eq_ok.mp h
      obtain ⟨numbered', hrest, h⟩ := bind_eq_ok.mp h
      cases h
      obtain ⟨hmap, hindex⟩ := ih hrest
      refine ⟨by rw [List.map_cons, hmap], ?_⟩
      intro n row hget
      cases n with
      | zero =>
          cases hget
          exact RowId.fromLen_ok_iff.mp hrowId
      | succ n =>
          rw [hindex n row hget]
          omega

namespace IndexedRelationshipStore

section Hashed

variable [StoreHasher]

omit [StoreHasher] in
/-- A store all of whose rows are live. -/
theorem liveRowTable_full
    {store : IndexedRelationshipStore}
    (hlive : store.liveRows = .full store.rowTable.length)
    (hrowIds : ∀ (n : Nat) row, store.rowTable[n]? = some row → row.rowId.index = n) :
    store.liveRowTable = store.rowTable := by
  unfold liveRowTable
  rw [List.filter_eq_self]
  intro row hrow
  obtain ⟨n, hn⟩ := List.mem_iff_getElem?.mp hrow
  rw [hlive]
  show decide (row.rowId.index < store.rowTable.length) = true
  rw [hrowIds n row hn, decide_eq_true_eq]
  exact (List.getElem?_eq_some_iff.mp hn).1

/-- What a load of saved sections consists of. -/
structure LoadedFrom (source : IndexedRelationshipStore) (indexProfile : IndexProfile)
    (validation : SnapshotValidationMode) (loaded : IndexedRelationshipStore) : Prop where
  profile : loaded.indexProfile = indexProfile
  interner : loaded.interner.Inv
  symbols : loaded.interner.entries = source.interner.entries
  rows : loaded.rowTable.map (·.identity) = source.liveRowTable.map (·.identity)
  rowIds : ∀ (n : Nat) row, loaded.rowTable[n]? = some row → row.rowId.index = n
  allLive : loaded.liveRows = .full loaded.rowTable.length
  uniqueness : loaded.uniqueness = loadedUniqueness validation
  resource : IndexExact loaded.byResource loaded.rowTable (fun row => [row.resourceKey])
  broad : indexProfile = .full → loaded.BroadIndexes
  reduced : indexProfile ≠ .full → loaded.NoBroadIndexes

theorem loadedFrom_decode
    {store loaded : IndexedRelationshipStore} {indexProfile : IndexProfile}
    {sections : SnapshotSections} {profile : SnapshotLoadProfile}
    {validation : SnapshotValidationMode}
    (hinv : store.interner.Inv)
    (hsave : store.encodeSnapshotSections indexProfile = .ok sections)
    (hload : decodeSnapshotSections sections profile validation = .ok loaded) :
    LoadedFrom store indexProfile validation loaded := by
  obtain ⟨numbered, hnumbered, hsave⟩ := bind_eq_ok.mp hsave
  cases hsave
  obtain ⟨rows, hrows, hload⟩ := bind_eq_ok.mp hload
  obtain ⟨byResource, h1, hload⟩ := bind_eq_ok.mp hload
  obtain ⟨byResourceObject, h2, hload⟩ := bind_eq_ok.mp hload
  obtain ⟨byResourceTypeRelation, h3, hload⟩ := bind_eq_ok.mp hload
  obtain ⟨byResourceType, h4, hload⟩ := bind_eq_ok.mp hload
  obtain ⟨bySubject, h5, hload⟩ := bind_eq_ok.mp hload
  obtain ⟨bySubjectTypeRelation, h6, hload⟩ := bind_eq_ok.mp hload
  obtain ⟨bySubjectType, h7, hload⟩ := bind_eq_ok.mp hload
  cases hload
  replace hrows : numberRows 0 (store.liveRowTable.map (·.identity)) = .ok rows :=
    mapError_eq_ok hrows
  rw [hnumbered] at hrows
  cases hrows
  obtain ⟨hidentities, hrowIds⟩ := numberRows_ok hnumbered
  have hexact := SnapshotIndexGroups.exact_fromRows indexProfile numbered
  refine ⟨rfl, hinv.reloaded validation, ?_, hidentities, ?_, rfl, rfl,
    PostingIndex.exact_decodeIndex hexact.resource h1, ?_, ?_⟩
  · cases validation <;> rfl
  · intro n row h
    rw [hrowIds n row h, Nat.zero_add]
  · intro hfull
    exact ⟨PostingIndex.exact_decodeIndex (hexact.resourceObject hfull) h2,
      PostingIndex.exact_decodeIndex (hexact.resourceTypeRelation hfull) h3,
      PostingIndex.exact_decodeIndex (hexact.resourceType hfull) h4,
      PostingIndex.exact_decodeIndex (hexact.subject hfull) h5,
      PostingIndex.exact_decodeIndex (hexact.subjectTypeRelation hfull) h6,
      PostingIndex.exact_decodeIndex (hexact.subjectType hfull) h7⟩
  · intro hreduced
    obtain ⟨hobject, htypeRelation, htype, _⟩ := hexact.reduced hreduced
    rw [hobject] at h2
    rw [htypeRelation] at h3
    rw [htype] at h4
    exact ⟨PostingIndex.candidates_decodeIndex_empty h2,
      PostingIndex.candidates_decodeIndex_empty h3,
      PostingIndex.candidates_decodeIndex_empty h4⟩

/-- A loaded store satisfies the invariant and holds the saved relationships. -/
theorem LoadedFrom.invariant
    {store loaded : IndexedRelationshipStore} {indexProfile : IndexProfile}
    {validation : SnapshotValidationMode}
    (h : LoadedFrom store indexProfile validation loaded)
    (hinv : store.Inv) :
    loaded.Inv ∧ loaded.indexProfile = indexProfile ∧ loaded.rows = store.rows := by
  have hdenotes : ∀ row r, RowIdentity.Denotes store.interner row r →
      RowIdentity.Denotes loaded.interner row r := by
    intro row r hd
    exact hd.of_extends (by rw [h.symbols])
  have htable : loaded.liveRowTable = loaded.rowTable := liveRowTable_full h.allLive h.rowIds
  have hrowsDenote : RowsDenote loaded.interner loaded.liveRowTable store.rows := by
    have hsource : List.Forall₂ (RowIdentity.Denotes store.interner)
        (store.liveRowTable.map (·.identity)) store.rows :=
      List.forall₂_map_left_iff.mpr hinv.rowsDenote
    rw [← h.rows] at hsource
    rw [htable]
    exact (List.forall₂_map_left_iff.mp hsource).imp (fun row r hd => hdenotes _ _ hd)
  have hcontains : ∀ rowId, loaded.Live rowId ↔ rowId.index < loaded.rowTable.length := by
    intro rowId
    unfold Live
    rw [h.allLive]
    exact decide_eq_true_iff
  refine ⟨?_, h.profile, rows_eq_of_rowsDenote hrowsDenote⟩
  constructor
  · exact h.interner
  · exact h.rowIds
  · intro row hrow
    have hidentity : row.identity ∈ store.liveRowTable.map (·.identity) := by
      rw [← h.rows]
      exact List.mem_map_of_mem hrow
    obtain ⟨source, hsource, heq⟩ := List.mem_map.mp hidentity
    obtain ⟨r, hr⟩ := hinv.denotes source (List.mem_filter.mp hsource).1
    exact ⟨r, heq ▸ hdenotes _ _ hr⟩
  · intro len hlen
    rw [h.allLive] at hlen
    exact (Option.some.inj hlen).symm
  · intro rowId hlive
    exact (hcontains rowId).mp hlive
  · intro a b ha hb row row' hrow hrow' heq
    have hnodup : (loaded.rowTable.map (·.identity)).Nodup := by
      rw [h.rows]
      exact hinv.nodup_identities
    have hget : (loaded.rowTable.map (·.identity))[a.index]? =
        (loaded.rowTable.map (·.identity))[b.index]? := by
      rw [List.getElem?_map, List.getElem?_map, hrow, hrow', Option.map_some, Option.map_some,
        heq]
    have hlt : a.index < (loaded.rowTable.map (·.identity)).length := by
      rw [List.length_map]
      exact (hcontains a).mp ha
    exact RowId.index_injective ((List.getElem?_inj hlt hnodup).mp hget)
  · intro index hready
    rw [h.uniqueness] at hready
    cases validation <;> cases hready
  · exact h.resource
  · intro hfull
    exact h.broad (h.profile.symm.trans hfull)
  · intro hreduced
    exact h.reduced (fun hfull => hreduced (h.profile.trans hfull))

end Hashed

end IndexedRelationshipStore

end SimpleZanzibar
