import SimpleZanzibar.Snapshot.Indexes
import SimpleZanzibar.Store.SectionsCorrect

/-!
# Decoded indexes are exact

A full load of an index checks every posting against the rows and compares the masks of the
rows with what the index has to hold.  The masks record exactly the postings that were
accepted, so that a mask with all its bits means that the row is found under all its keys.

**Results.**
* `IndexDecoder.Lawful`: how the keys of the file, the keys of a row and the bits of its mask
  belong together.
* `exact_of_covered`: postings whose masks are complete are those of the rows.
* `decodeIndex_exact`: a full load of an index gives, for every key, the rows that have it.
* `decodeIndex_trusted`, `decodeIndex_latency`: the other two ways to load a checked index.
-/

namespace SimpleZanzibar

namespace Snapshot

/-- Row ids in ascending order. -/
def Ascending (rowIds : List RowId) : Prop :=
  rowIds.Pairwise (fun a b => a.index < b.index)

theorem nonZeroFromRaw_eq_ok
    {value count : Nat} {zeroReason boundReason : String} {id : NonZeroU32}
    (h : nonZeroFromRaw value count zeroReason boundReason = .ok id) :
    id.get = value ∧ value ≤ count := by
  unfold nonZeroFromRaw at h
  split at h
  · cases h
  · split at h
    · next hbound =>
        cases h
        exact ⟨rfl, hbound.1⟩
    · cases h

theorem rowId_fromSnapshotRaw_eq_ok
    {value count : Nat} {id : RowId}
    (h : RowId.fromSnapshotRaw value count = .ok id) :
    id.value.get = value ∧ value ≤ count := by
  obtain ⟨raw, hraw, h⟩ := bind_eq_ok.mp h
  cases h
  exact nonZeroFromRaw_eq_ok hraw

theorem symbolId_fromSnapshotRaw_eq_ok
    {value count : Nat} {id : SymbolId}
    (h : SymbolId.fromSnapshotRaw value count = .ok id) :
    id.value.get = value ∧ value ≤ count := by
  obtain ⟨raw, hraw, h⟩ := bind_eq_ok.mp h
  cases h
  exact nonZeroFromRaw_eq_ok hraw

theorem index_lt_index_iff
    {a b : RowId} :
    a.index < b.index ↔ a.value.get < b.value.get := by
  have ha := a.value.pos
  have hb := b.value.pos
  unfold RowId.index NonZeroU32.index
  omega

/-- A distance that was read is positive. -/
theorem decodePostingDeltaVarint_pos
    {bytes rest : List UInt8} {value shift delta : Nat}
    (h : decodePostingDeltaVarint value shift bytes = .ok (delta, rest)) :
    0 < delta := by
  induction bytes generalizing value shift with
  | nil =>
      cases h
  | cons byte bytes ih =>
      rw [decodePostingDeltaVarint] at h
      split at h
      · cases h
      · simp only at h
        split at h
        · split at h
          · cases h
          · next hne =>
              cases h
              exact Nat.pos_of_ne_zero hne
        · split at h
          · cases h
          · exact ih h

theorem nextDeltaRowId_lt
    {previous rowId : RowId} {delta rowCount : Nat}
    (hdelta : 0 < delta)
    (h : nextDeltaRowId previous delta rowCount = .ok rowId) :
    previous.index < rowId.index := by
  obtain ⟨_, h⟩ := require_bind_eq_ok.mp h
  obtain ⟨hget, _⟩ := rowId_fromSnapshotRaw_eq_ok h
  rw [index_lt_index_iff]
  omega

/-- The distances yield ascending rows. -/
theorem ascending_deltaRowIds
    {rowCount fuel : Nat} {previous : RowId} {bytes : List UInt8} {rowIds : List RowId}
    (h : deltaRowIds rowCount fuel previous bytes = rowIds.map .ok) :
    Ascending (previous :: rowIds) := by
  induction fuel generalizing previous bytes rowIds with
  | zero =>
      rw [deltaRowIds] at h
      rw [List.map_eq_nil_iff.mp h.symm]
      exact List.pairwise_singleton _ _
  | succ fuel ih =>
      cases bytes with
      | nil =>
          rw [deltaRowIds] at h
          rw [List.map_eq_nil_iff.mp h.symm]
          exact List.pairwise_singleton _ _
      | cons byte bytes =>
          rw [deltaRowIds] at h
          cases rowIds with
          | nil =>
              exact List.pairwise_singleton _ _
          | cons rowId rowIds =>
              rw [List.map_cons] at h
              split at h
              · cases h
              · next delta rest hdelta =>
                  split at h
                  · cases h
                  · next rowId' hnext =>
                      injection h with hfirst hrest
                      cases hfirst
                      have hlt := nextDeltaRowId_lt (decodePostingDeltaVarint_pos hdelta) hnext
                      have hascending := ih hrest
                      refine List.pairwise_cons.mpr ⟨?_, hascending⟩
                      intro other hother
                      rcases List.mem_cons.mp hother with rfl | hother
                      · exact hlt
                      · exact hlt.trans ((List.pairwise_cons.mp hascending).1 other hother)

theorem ascending_fixedRowIds
    {previous : RowId} {overflow rowIds : List RowId}
    (h : fixedRowIds previous overflow = rowIds.map .ok) :
    Ascending (previous :: rowIds) := by
  induction overflow generalizing previous rowIds with
  | nil =>
      rw [fixedRowIds] at h
      rw [List.map_eq_nil_iff.mp h.symm]
      exact List.pairwise_singleton _ _
  | cons next overflow ih =>
      rw [fixedRowIds] at h
      cases rowIds with
      | nil =>
          exact List.pairwise_singleton _ _
      | cons rowId rowIds =>
          rw [List.map_cons] at h
          split at h
          · injection h with hfirst _
            cases hfirst
          · next hle =>
              injection h with hfirst hrest
              cases hfirst
              have hlt : previous.index < next.index := by
                rw [index_lt_index_iff]
                omega
              have hascending := ih hrest
              refine List.pairwise_cons.mpr ⟨?_, hascending⟩
              intro other hother
              rcases List.mem_cons.mp hother with rfl | hother
              · exact hlt
              · exact hlt.trans ((List.pairwise_cons.mp hascending).1 other hother)

/-- What the iterator of a range yields: its first row, and rows in ascending order as long
as there is no error. -/
theorem postingRowIdIter_ok
    {range : DiskPostingRange} {postingRowIds : DecodedPostingRowIds} {rowCount : Nat}
    {items : List (Except SnapshotIoError RowId)}
    (h : postingRowIdIter range postingRowIds rowCount = .ok items) :
    ∃ first rest, RowId.fromSnapshotRaw range.firstRowId rowCount = .ok first ∧
      items = .ok first :: rest ∧
      ∀ rowIds, rest = rowIds.map .ok → Ascending (first :: rowIds) := by
  obtain ⟨first, hfirst, h⟩ := bind_eq_ok.mp h
  split at h
  · cases h
    refine ⟨first, [], hfirst, rfl, ?_⟩
    intro rowIds hrowIds
    rw [List.map_eq_nil_iff.mp hrowIds.symm]
    exact List.pairwise_singleton _ _
  · obtain ⟨stop, _, h⟩ := bind_eq_ok.mp h
    cases postingRowIds with
    | fixed rowIds =>
        obtain ⟨overflow, _, h⟩ := bind_eq_ok.mp h
        cases h
        exact ⟨first, _, hfirst, rfl, fun _ => ascending_fixedRowIds⟩
    | deltaVarint bytes _ =>
        obtain ⟨overflow, _, h⟩ := bind_eq_ok.mp h
        cases h
        exact ⟨first, _, hfirst, rfl, fun _ => ascending_deltaRowIds⟩

/-- The two bits of a mask. -/
def IsBit (bit : UInt8) : Prop :=
  bit = 1 ∨ bit = 2

theorem IsBit.and_ne_zero_iff
    {a b : UInt8}
    (ha : IsBit a)
    (hb : IsBit b) :
    a &&& b ≠ 0 ↔ a = b := by
  rcases ha with rfl | rfl <;> rcases hb with rfl | rfl <;> decide

/-- A bit of a union is a bit of one of the masks. -/
theorem or_and_ne_zero_iff
    (a b bit : UInt8) :
    (a ||| b) &&& bit ≠ 0 ↔ a &&& bit ≠ 0 ∨ b &&& bit ≠ 0 := by
  have hor : ∀ x y : UInt8, x ||| y = 0 ↔ x = 0 ∧ y = 0 := by
    intro x y
    simp only [← UInt8.toNat_inj, UInt8.toNat_or, UInt8.toNat_zero]
    exact Nat.or_eq_zero_iff
  have hdistrib : (a ||| b) &&& bit = (a &&& bit) ||| (b &&& bit) := by
    apply UInt8.toNat_inj.mp
    simp only [UInt8.toNat_and, UInt8.toNat_or]
    exact Nat.and_or_distrib_right _ _ _
  rw [hdistrib, Ne, hor]
  exact not_and_or

/-- A row has a bit in its mask. -/
def Marked (coverage : List UInt8) (n : Nat) (bit : UInt8) : Prop :=
  ∃ mask, coverage[n]? = some mask ∧ mask &&& bit ≠ 0

theorem marked_set_iff
    {coverage : List UInt8} {n m : Nat} {mask bit bit' : UInt8}
    (hmask : coverage[m]? = some mask)
    (hbit : IsBit bit)
    (hbit' : IsBit bit') :
    Marked (coverage.set m (mask ||| bit)) n bit' ↔
      Marked coverage n bit' ∨ n = m ∧ bit' = bit := by
  have hlt : m < coverage.length := (List.getElem?_eq_some_iff.mp hmask).1
  unfold Marked
  by_cases heq : m = n
  · subst heq
    rw [List.getElem?_set_self hlt, hmask]
    simp only [Option.some.injEq, exists_eq_left', or_and_ne_zero_iff, true_and]
    rw [hbit.and_ne_zero_iff hbit', eq_comm (a := bit)]
  · rw [List.getElem?_set_ne heq]
    constructor
    · exact Or.inl
    · rintro (h | ⟨h, _⟩)
      · exact h
      · exact absurd h.symm heq

/-- How the keys of the file, the keys of a row and the bits of its mask belong together. -/
structure IndexDecoder.Lawful {K : Type} [IndexKey K] (decoder : IndexDecoder K)
    (keysOf : RowIdentity → List K) (diskKey : K → DiskIndexKey) (bit : K → UInt8) :
    Prop where
  typed : ∀ {disk count key}, decoder.keyFromDisk disk count = .ok key → disk = diskKey key
  ordered : ∀ {key key'}, (diskKey key).Lt (diskKey key') →
    IndexKey.rank key < IndexKey.rank key'
  isBit : ∀ key, IsBit (bit key)
  rowMatches : ∀ row key, decoder.rowMatchesKey row (diskKey key) = true → key ∈ keysOf row
  coverageBit : ∀ row key, key ∈ keysOf row → decoder.coverageBit row (diskKey key) = bit key
  injective : ∀ row key key', key ∈ keysOf row → key' ∈ keysOf row → bit key = bit key' →
    key = key'
  expected : ∀ row key, key ∈ keysOf row → decoder.expectedMask row &&& bit key ≠ 0

/-- Some posting puts a row under a key with the bit. -/
def Posted {K : Type} (bit : K → UInt8) (postings : List ((_ : K) × List RowId)) (n : Nat)
    (b : UInt8) : Prop :=
  ∃ posting ∈ postings, ∃ rowId ∈ posting.2, rowId.index = n ∧ bit posting.1 = b

/-- The masks record the postings, and every posting is right. -/
structure Covered {K : Type} (rows : List RelationshipRow) (keysOf : RowIdentity → List K)
    (bit : K → UInt8) (coverage : List UInt8) (postings : List ((_ : K) × List RowId)) :
    Prop where
  length : coverage.length = rows.length
  marked : ∀ n b, IsBit b → (Marked coverage n b ↔ Posted bit postings n b)
  right : ∀ posting ∈ postings, ∀ rowId ∈ posting.2,
    ∃ row, rows[rowId.index]? = some row ∧ posting.1 ∈ keysOf row.identity

section Posting

variable {K : Type} [IndexKey K] {input : IndexDecodeInput} {decoder : IndexDecoder K}
  {keysOf : RowIdentity → List K} {diskKey : K → DiskIndexKey} {bit : K → UInt8}

omit [IndexKey K] in
/-- What an accepted posting consists of. -/
theorem postRow_eq_ok
    {disk : DiskIndexKey} {fold result : PostingFold} {item : Except SnapshotIoError RowId}
    (h : postRow input decoder disk fold item = .ok result) :
    ∃ rowId row mask, item = .ok rowId ∧ input.rows[rowId.index]? = some row ∧
      decoder.rowMatchesKey row.identity disk = true ∧
      fold.coverage[rowId.index]? = some mask ∧
      countPosting fold.rowIds fold.count = .ok result.count ∧
      result.rowIds = fold.rowIds ++ [rowId] ∧
      result.coverage = fold.coverage.set rowId.index
        (mask ||| decoder.coverageBit row.identity disk) := by
  obtain ⟨rowId, hitem, h⟩ := bind_eq_ok.mp h
  obtain ⟨row, hrow, h⟩ := bind_eq_ok.mp h
  obtain ⟨hmatch, h⟩ := require_bind_eq_ok.mp h
  obtain ⟨_, h⟩ := require_bind_eq_ok.mp h
  obtain ⟨mask, hmask, h⟩ := bind_eq_ok.mp h
  obtain ⟨_, h⟩ := require_bind_eq_ok.mp h
  obtain ⟨count, hcount, h⟩ := bind_eq_ok.mp h
  cases h
  exact ⟨rowId, row, mask, hitem, okOr_eq_ok.mp hrow, hmatch, okOr_eq_ok.mp hmask, hcount, rfl,
    rfl⟩

/-- The rows of a key that were accepted. -/
theorem postRow_foldlM
    (hlawful : decoder.Lawful keysOf diskKey bit)
    {key : K} {done : List ((_ : K) × List RowId)}
    {items : List (Except SnapshotIoError RowId)} {fold result : PostingFold}
    (h : items.foldlM (postRow input decoder (diskKey key)) fold = .ok result)
    (hcovered : Covered input.rows keysOf bit fold.coverage (done ++ [⟨key, fold.rowIds⟩])) :
    Covered input.rows keysOf bit result.coverage (done ++ [⟨key, result.rowIds⟩]) ∧
      ∃ rowIds, items = rowIds.map .ok ∧ result.rowIds = fold.rowIds ++ rowIds := by
  induction items generalizing fold with
  | nil =>
      cases h
      exact ⟨hcovered, [], rfl, (List.append_nil _).symm⟩
  | cons item items ih =>
      rw [List.foldlM_cons] at h
      obtain ⟨middle, hmiddle, hrest⟩ := bind_eq_ok.mp h
      obtain ⟨rowId, row, mask, rfl, hrow, hmatch, hmask, _, hrowIds, hcoverage⟩ :=
        postRow_eq_ok hmiddle
      have hkey := hlawful.rowMatches row.identity key hmatch
      rw [hlawful.coverageBit row.identity key hkey] at hcoverage
      have hcovered' : Covered input.rows keysOf bit middle.coverage
          (done ++ [⟨key, middle.rowIds⟩]) := by
        refine ⟨?_, ?_, ?_⟩
        · rw [hcoverage, List.length_set]
          exact hcovered.length
        · intro n b hb
          rw [hcoverage, marked_set_iff hmask (hlawful.isBit key) hb, hcovered.marked n b hb,
            hrowIds]
          unfold Posted
          constructor
          · rintro (⟨posting, hposting, other, hother, hindex, hbit⟩ | ⟨rfl, rfl⟩)
            · rcases List.mem_append.mp hposting with hposting | hposting
              · exact ⟨posting, List.mem_append_left _ hposting, other, hother, hindex, hbit⟩
              · cases List.mem_singleton.mp hposting
                exact ⟨_, List.mem_append_right _ (List.mem_singleton_self _), other,
                  List.mem_append_left _ hother, hindex, hbit⟩
            · exact ⟨_, List.mem_append_right _ (List.mem_singleton_self _), rowId,
                List.mem_append_right _ (List.mem_singleton_self _), rfl, rfl⟩
          · rintro ⟨posting, hposting, other, hother, hindex, hbit⟩
            rcases List.mem_append.mp hposting with hposting | hposting
            · exact Or.inl ⟨posting, List.mem_append_left _ hposting, other, hother, hindex,
                hbit⟩
            · cases List.mem_singleton.mp hposting
              rcases List.mem_append.mp hother with hother | hother
              · exact Or.inl ⟨_, List.mem_append_right _ (List.mem_singleton_self _), other,
                  hother, hindex, hbit⟩
              · cases List.mem_singleton.mp hother
                exact Or.inr ⟨hindex.symm, hbit.symm⟩
        · intro posting hposting other hother
          rcases List.mem_append.mp hposting with hposting | hposting
          · exact hcovered.right posting (List.mem_append_left _ hposting) other hother
          · cases List.mem_singleton.mp hposting
            rw [hrowIds] at hother
            rcases List.mem_append.mp hother with hother | hother
            · exact hcovered.right _ (List.mem_append_right _ (List.mem_singleton_self _)) other
                hother
            · cases List.mem_singleton.mp hother
              exact ⟨row, hrow, hkey⟩
      obtain ⟨hresult, rowIds, hitems, happend⟩ := ih hrest hcovered'
      refine ⟨hresult, rowId :: rowIds, by rw [hitems, List.map_cons], ?_⟩
      rw [happend, hrowIds, List.append_assoc]
      rfl

omit [IndexKey K] in
/-- What the accepted postings of one key consist of. -/
theorem postEntry_eq_ok
    {fold result : IndexFold K} {entry : IndexEntry}
    (h : postEntry input decoder fold entry = .ok result) :
    ∃ key items posted, decoder.keyFromDisk entry.key input.symbolCount = .ok key ∧
      postingRowIdIter entry.range input.postingRowIds input.rowCount = .ok items ∧
      fold.overflowLen ≤ u32Max ∧
      items.foldlM (postRow input decoder entry.key) ⟨fold.coverage, [], fold.count⟩ =
        .ok posted ∧
      result = ⟨posted.coverage, fold.postings ++ [⟨key, posted.rowIds⟩],
        fold.overflowLen + (posted.rowIds.length - 1), posted.count⟩ := by
  obtain ⟨key, hkey, h⟩ := bind_eq_ok.mp h
  obtain ⟨items, hitems, h⟩ := bind_eq_ok.mp h
  obtain ⟨_, hbound, h⟩ := bind_eq_ok.mp h
  obtain ⟨posted, hposted, h⟩ := bind_eq_ok.mp h
  refine ⟨key, items, posted, hkey, hitems, ?_, hposted, ?_⟩
  · unfold checkedU32 at hbound
    split at hbound
    · next hle =>
        exact hle
    · cases hbound
  · cases hrowIds : posted.rowIds with
    | nil =>
        rw [hrowIds] at h
        cases h
    | cons first overflow =>
        rw [hrowIds] at h
        cases h
        rw [List.length_cons, Nat.add_sub_cancel]

omit [IndexKey K] in
/-- Adding a key without rows changes nothing. -/
theorem Covered.append_nil
    {rows : List RelationshipRow} {coverage : List UInt8} {done : List ((_ : K) × List RowId)}
    (hcovered : Covered rows keysOf bit coverage done)
    (key : K) :
    Covered rows keysOf bit coverage (done ++ [⟨key, []⟩]) := by
  refine ⟨hcovered.length, ?_, ?_⟩
  · intro n b hb
    rw [hcovered.marked n b hb]
    unfold Posted
    constructor
    · rintro ⟨posting, hposting, hrest⟩
      exact ⟨posting, List.mem_append_left _ hposting, hrest⟩
    · rintro ⟨posting, hposting, rowId, hrowId, hrest⟩
      rcases List.mem_append.mp hposting with hposting | hposting
      · exact ⟨posting, hposting, rowId, hrowId, hrest⟩
      · cases List.mem_singleton.mp hposting
        cases hrowId
  · intro posting hposting rowId hrowId
    rcases List.mem_append.mp hposting with hposting | hposting
    · exact hcovered.right posting hposting rowId hrowId
    · cases List.mem_singleton.mp hposting
      cases hrowId

/-- The rows of every key are there and ascending. -/
def Ordered (postings : List ((_ : K) × List RowId)) : Prop :=
  ∀ posting ∈ postings, posting.2 ≠ [] ∧ Ascending posting.2

/-- The accepted postings of all keys. -/
theorem postEntry_foldlM
    (hlawful : decoder.Lawful keysOf diskKey bit)
    {entries : List IndexEntry} {fold result : IndexFold K}
    (h : entries.foldlM (postEntry input decoder) fold = .ok result)
    (hcovered : Covered input.rows keysOf bit fold.coverage fold.postings)
    (hordered : Ordered fold.postings) :
    Covered input.rows keysOf bit result.coverage result.postings ∧ Ordered result.postings ∧
      result.postings.map (fun posting => diskKey posting.1) =
        fold.postings.map (fun posting => diskKey posting.1) ++ entries.map (·.key) := by
  induction entries generalizing fold with
  | nil =>
      cases h
      exact ⟨hcovered, hordered, (List.append_nil _).symm⟩
  | cons entry entries ih =>
      rw [List.foldlM_cons] at h
      obtain ⟨middle, hmiddle, hrest⟩ := bind_eq_ok.mp h
      obtain ⟨key, items, posted, hkey, hitems, _, hposted, hresult⟩ := postEntry_eq_ok hmiddle
      have hdisk := hlawful.typed hkey
      rw [hdisk] at hposted
      obtain ⟨hcovered', rowIds, hok, hrowIds⟩ :=
        postRow_foldlM hlawful hposted (hcovered.append_nil key)
      replace hrowIds : posted.rowIds = rowIds := by
        rw [hrowIds]
        exact List.nil_append _
      obtain ⟨first, rest, _, hcons, hascending⟩ := postingRowIdIter_ok hitems
      have hordered' : Ordered (fold.postings ++ [⟨key, posted.rowIds⟩]) := by
        intro posting hposting
        rcases List.mem_append.mp hposting with hposting | hposting
        · exact hordered posting hposting
        · cases List.mem_singleton.mp hposting
          rw [hrowIds]
          cases rowIds with
          | nil =>
              rw [hcons] at hok
              cases hok
          | cons first' rest' =>
              rw [hcons, List.map_cons] at hok
              injection hok with hfirst hrest'
              cases hfirst
              exact ⟨List.cons_ne_nil _ _, hascending rest' hrest'⟩
      subst hresult
      obtain ⟨hcovered'', hordered'', hkeys⟩ := ih hrest hcovered' hordered'
      refine ⟨hcovered'', hordered'', ?_⟩
      simp [hkeys, hdisk]

end Posting

/-- Ascending lists with the same rows are equal. -/
theorem Ascending.ext
    {as bs : List RowId}
    (ha : Ascending as)
    (hb : Ascending bs)
    (h : ∀ rowId, rowId ∈ as ↔ rowId ∈ bs) :
    as = bs := by
  have hsorted : ∀ {rowIds : List RowId}, Ascending rowIds → (rowIds.map RowId.index).SortedLT :=
    fun hrowIds => List.Pairwise.sortedLT (List.pairwise_map.mpr hrowIds)
  have hmap : as.map RowId.index = bs.map RowId.index := by
    apply (hsorted ha).eq_of_mem_iff (hsorted hb)
    intro n
    simp only [List.mem_map, h]
  exact List.map_injective_iff.mpr (fun _ _ => RowId.index_injective) hmap

/-- The ids of some of the rows are ascending. -/
theorem ascending_rowIds
    {rows : List RelationshipRow}
    (hrowIds : ∀ (n : Nat) row, rows[n]? = some row → row.rowId.index = n)
    (p : RelationshipRow → Bool) :
    Ascending ((rows.filter p).map (·.rowId)) := by
  have hrows : rows.Pairwise (fun a b => a.rowId.index < b.rowId.index) := by
    rw [List.pairwise_iff_getElem]
    intro i j hi hj hlt
    rw [hrowIds i _ (List.getElem?_eq_getElem hi), hrowIds j _ (List.getElem?_eq_getElem hj)]
    exact hlt
  exact List.pairwise_map.mpr (hrows.sublist List.filter_sublist)

section Exact

variable {K : Type} [DecidableEq K] [IndexKey K] {decoder : IndexDecoder K}
  {keysOf : RowIdentity → List K} {diskKey : K → DiskIndexKey} {bit : K → UInt8}
  {rows : List RelationshipRow} {coverage : List UInt8}
  {postings : List ((_ : K) × List RowId)}

omit [DecidableEq K] in
/-- A row with a complete mask is posted under each of its keys. -/
theorem Covered.complete
    (hlawful : decoder.Lawful keysOf diskKey bit)
    (hcovered : Covered rows keysOf bit coverage postings)
    (hexpected : ∀ entry ∈ rows.zip coverage, entry.2 = decoder.expectedMask entry.1.identity)
    {n : Nat} {row : RelationshipRow} {key : K}
    (hrow : rows[n]? = some row)
    (hkey : key ∈ keysOf row.identity) :
    ∃ posting ∈ postings, posting.1 = key ∧ ∃ rowId ∈ posting.2, rowId.index = n := by
  have hlt : n < coverage.length := by
    rw [hcovered.length]
    exact (List.getElem?_eq_some_iff.mp hrow).1
  have hmask : coverage[n]? = some coverage[n] := List.getElem?_eq_getElem hlt
  have hzip : (row, coverage[n]) ∈ rows.zip coverage :=
    List.mem_iff_getElem?.mpr ⟨n, List.getElem?_zip_eq_some.mpr ⟨hrow, hmask⟩⟩
  have hmarked : Marked coverage n (bit key) := by
    refine ⟨_, hmask, ?_⟩
    have hcomplete : coverage[n] = decoder.expectedMask row.identity := hexpected _ hzip
    rw [hcomplete]
    exact hlawful.expected row.identity key hkey
  obtain ⟨posting, hposting, rowId, hrowId, hindex, hbit⟩ :=
    (hcovered.marked n _ (hlawful.isBit key)).mp hmarked
  obtain ⟨row', hrow', hkey'⟩ := hcovered.right posting hposting rowId hrowId
  rw [hindex, hrow] at hrow'
  cases hrow'
  exact ⟨posting, hposting, hlawful.injective _ _ _ hkey' hkey hbit, rowId, hrowId, hindex⟩

/-- Postings whose masks are complete are those of the rows. -/
theorem exact_of_covered
    (hlawful : decoder.Lawful keysOf diskKey bit)
    (hcovered : Covered rows keysOf bit coverage postings)
    (hordered : Ordered postings)
    (hnodup : postings.NodupKeys)
    (hrowIds : ∀ (n : Nat) row, rows[n]? = some row → row.rowId.index = n)
    (hexpected : ∀ entry ∈ rows.zip coverage, entry.2 = decoder.expectedMask entry.1.identity) :
    PostingGroup.Exact (⟨postings, hnodup⟩ : PostingGroup K) rows keysOf := by
  let group : PostingGroup K := ⟨postings, hnodup⟩
  have hmem : ∀ key rowIds, group.lookup key = some rowIds → ⟨key, rowIds⟩ ∈ postings :=
    fun key rowIds h => AList.mem_lookup_iff.mp h
  have hposted : ∀ posting ∈ postings, ∀ rowId, rowId ∈ posting.2 ↔
      ∃ row ∈ rows, posting.1 ∈ keysOf row.identity ∧ row.rowId = rowId := by
    intro posting hposting rowId
    constructor
    · intro hrowId
      obtain ⟨row, hrow, hkey⟩ := hcovered.right posting hposting rowId hrowId
      exact ⟨row, List.mem_of_getElem? hrow, hkey,
        RowId.index_injective (hrowIds _ _ hrow)⟩
    · rintro ⟨row, hrow, hkey, rfl⟩
      obtain ⟨n, hn⟩ := List.mem_iff_getElem?.mp hrow
      obtain ⟨other, hother, hsame, rowId, hrowId, hindex⟩ :=
        hcovered.complete hlawful hexpected hn hkey
      have heq : other = posting :=
        hnodup.eq_of_fst_eq hother hposting hsame
      subst heq
      have hid : rowId = row.rowId :=
        RowId.index_injective (hindex.trans (hrowIds _ _ hn).symm)
      exact hid ▸ hrowId
  refine ⟨?_, ?_⟩
  · intro key
    cases hlookup : group.lookup key with
    | some rowIds =>
        have hposting := hmem key rowIds hlookup
        apply (hordered _ hposting).2.ext (ascending_rowIds hrowIds _)
        intro rowId
        rw [hposted _ hposting rowId]
        simp only [List.mem_map, List.mem_filter, decide_eq_true_eq]
        constructor
        · rintro ⟨row, hrow, hkey, hid⟩
          exact ⟨row, ⟨hrow, hkey⟩, hid⟩
        · rintro ⟨row, ⟨hrow, hkey⟩, hid⟩
          exact ⟨row, hrow, hkey, hid⟩
    | none =>
        have hnone : rows.filter (fun row => decide (key ∈ keysOf row.identity)) = [] := by
          rw [List.filter_eq_nil_iff]
          intro row hrow hkey
          obtain ⟨n, hn⟩ := List.mem_iff_getElem?.mp hrow
          obtain ⟨posting, hposting, hsame, _⟩ :=
            hcovered.complete hlawful hexpected hn (of_decide_eq_true hkey)
          have hkeys : key ∈ group := List.mem_map.mpr ⟨posting, hposting, hsame⟩
          exact AList.lookup_eq_none.mp hlookup hkeys
        rw [hnone]
        rfl
  · intro key hempty
    exact (hordered _ (hmem key [] hempty)).1 rfl

end Exact

theorem ensureZero_bind_eq_ok
    {value : Nat} {reason : String} {α : Type} {next : Unit → Except SnapshotIoError α} {a : α} :
    (ensureZero value reason >>= next) = .ok a ↔ value = 0 ∧ next () = .ok a :=
  require_bind_eq_ok

def resourceKeyToDisk (key : ResourceIndexKey) : DiskIndexKey :=
  ⟨key.objectType.value.get, key.objectId.value.get, key.relation.value.get⟩

def resourceObjectKeyToDisk (key : ResourceObjectIndexKey) : DiskIndexKey :=
  ⟨key.objectType.value.get, key.objectId.value.get, 0⟩

def resourceTypeRelationKeyToDisk (key : ResourceTypeRelationIndexKey) : DiskIndexKey :=
  ⟨key.objectType.value.get, key.relation.value.get, 0⟩

def symbolKeyToDisk (key : SymbolId) : DiskIndexKey :=
  ⟨key.value.get, 0, 0⟩

def subjectKeyToDisk (key : SubjectIndexKey) : DiskIndexKey :=
  ⟨key.subjectType.value.get, key.subjectId.value.get, optionalRaw key.relation⟩

def subjectTypeRelationKeyToDisk (key : SubjectTypeRelationIndexKey) : DiskIndexKey :=
  ⟨key.subjectType.value.get, key.relation.value.get, 0⟩

/-- The bit of a subject key: with or without a relation. -/
def subjectBit (key : SubjectIndexKey) : UInt8 :=
  match key.relation with
  | none => 1
  | some _ => 2

/-- Keys of the file are ordered as the keys that they stand for. -/
theorem rank_lt_of_lt
    {a b c a' b' c' : Nat}
    (h : (DiskIndexKey.mk a b c).Lt ⟨a', b', c'⟩) :
    (toLex (a, toLex (b, c)) : Nat ×ₗ (Nat ×ₗ Nat)) < toLex (a', toLex (b', c')) := by
  rcases h with hfirst | ⟨rfl, hsecond | ⟨rfl, hthird⟩⟩
  · exact Prod.Lex.toLex_lt_toLex.mpr (Or.inl hfirst)
  · exact Prod.Lex.toLex_lt_toLex.mpr
      (Or.inr ⟨rfl, Prod.Lex.toLex_lt_toLex.mpr (Or.inl hsecond)⟩)
  · exact Prod.Lex.toLex_lt_toLex.mpr
      (Or.inr ⟨rfl, Prod.Lex.toLex_lt_toLex.mpr (Or.inr ⟨rfl, hthird⟩)⟩)

/-- An index that holds a row under at most one key. -/
theorem lawful_simple
    {K : Type} [IndexKey K] {decoder : IndexDecoder K} {diskKey : K → DiskIndexKey}
    (keyOf : RowIdentity → Option K)
    (hbit : decoder.coverageBit = simpleIndexCoverageBit)
    (hexpected : ∀ row, (keyOf row).isSome = true → decoder.expectedMask row = 1)
    (htyped : ∀ {disk count key}, decoder.keyFromDisk disk count = .ok key → disk = diskKey key)
    (hmatches : ∀ row key, decoder.rowMatchesKey row (diskKey key) = true →
      keyOf row = some key)
    (hordered : ∀ {key key'}, (diskKey key).Lt (diskKey key') →
      IndexKey.rank key < IndexKey.rank key') :
    decoder.Lawful (fun row => (keyOf row).toList) diskKey (fun _ => 1) where
  typed := htyped
  ordered := hordered
  isBit _ := Or.inl rfl
  rowMatches row key h := Option.mem_toList.mpr (hmatches row key h)
  coverageBit _ _ _ := by
    rw [hbit]
    rfl
  injective row key key' hkey hkey' _ := by
    have h : keyOf row = some key := Option.mem_toList.mp hkey
    rw [Option.mem_toList.mp hkey'] at h
    exact (Option.some.inj h).symm
  expected row key hkey := by
    rw [hexpected row (Option.isSome_iff_exists.mpr ⟨key, Option.mem_toList.mp hkey⟩)]
    decide

theorem lawful_resource :
    resourceDecoder.Lawful (fun row => [row.resourceKey]) resourceKeyToDisk
      (fun _ => 1) := by
  apply lawful_simple (fun row => some row.resourceKey) rfl (fun _ _ => rfl)
  · intro disk count key h
    obtain ⟨first, hfirst, h⟩ := bind_eq_ok.mp h
    obtain ⟨second, hsecond, h⟩ := bind_eq_ok.mp h
    obtain ⟨third, hthird, h⟩ := bind_eq_ok.mp h
    cases h
    cases disk
    simp only [resourceKeyToDisk, DiskIndexKey.mk.injEq]
    exact ⟨(symbolId_fromSnapshotRaw_eq_ok hfirst).1.symm,
      (symbolId_fromSnapshotRaw_eq_ok hsecond).1.symm,
      (symbolId_fromSnapshotRaw_eq_ok hthird).1.symm⟩
  · intro row key h
    simp only [resourceDecoder, rowMatchesResourceKey, resourceKeyToDisk, Bool.and_eq_true,
      beq_iff_eq] at h
    cases key
    simp only [RowIdentity.resourceKey, Option.some.injEq, ResourceIndexKey.mk.injEq]
    exact ⟨SymbolId.get_injective h.1.1, SymbolId.get_injective h.1.2, SymbolId.get_injective h.2⟩
  · exact rank_lt_of_lt

theorem lawful_resourceObject :
    resourceObjectDecoder.Lawful (fun row => [row.resourceObjectKey])
      resourceObjectKeyToDisk (fun _ => 1) := by
  apply lawful_simple (fun row => some row.resourceObjectKey) rfl (fun _ _ => rfl)
  · intro disk count key h
    obtain ⟨hzero, h⟩ := ensureZero_bind_eq_ok.mp h
    obtain ⟨first, hfirst, h⟩ := bind_eq_ok.mp h
    obtain ⟨second, hsecond, h⟩ := bind_eq_ok.mp h
    cases h
    cases disk
    simp only [resourceObjectKeyToDisk, DiskIndexKey.mk.injEq]
    exact ⟨(symbolId_fromSnapshotRaw_eq_ok hfirst).1.symm,
      (symbolId_fromSnapshotRaw_eq_ok hsecond).1.symm, hzero⟩
  · intro row key h
    simp only [resourceObjectDecoder, rowMatchesResourceObjectKey, resourceObjectKeyToDisk,
      Bool.and_eq_true, beq_iff_eq] at h
    cases key
    simp only [RowIdentity.resourceObjectKey, Option.some.injEq, ResourceObjectIndexKey.mk.injEq]
    exact ⟨SymbolId.get_injective h.1.1, SymbolId.get_injective h.1.2⟩
  · exact rank_lt_of_lt

theorem lawful_resourceTypeRelation :
    resourceTypeRelationDecoder.Lawful (fun row => [row.resourceTypeRelationKey])
      resourceTypeRelationKeyToDisk (fun _ => 1) := by
  apply lawful_simple (fun row => some row.resourceTypeRelationKey) rfl (fun _ _ => rfl)
  · intro disk count key h
    obtain ⟨hzero, h⟩ := ensureZero_bind_eq_ok.mp h
    obtain ⟨first, hfirst, h⟩ := bind_eq_ok.mp h
    obtain ⟨second, hsecond, h⟩ := bind_eq_ok.mp h
    cases h
    cases disk
    simp only [resourceTypeRelationKeyToDisk, DiskIndexKey.mk.injEq]
    exact ⟨(symbolId_fromSnapshotRaw_eq_ok hfirst).1.symm,
      (symbolId_fromSnapshotRaw_eq_ok hsecond).1.symm, hzero⟩
  · intro row key h
    simp only [resourceTypeRelationDecoder, rowMatchesResourceTypeRelationKey,
      resourceTypeRelationKeyToDisk, Bool.and_eq_true, beq_iff_eq] at h
    cases key
    simp only [RowIdentity.resourceTypeRelationKey, Option.some.injEq,
      ResourceTypeRelationIndexKey.mk.injEq]
    exact ⟨SymbolId.get_injective h.1.1, SymbolId.get_injective h.1.2⟩
  · exact rank_lt_of_lt

/-- A key of one symbol. -/
theorem symbolKey_typed
    {disk : DiskIndexKey} {count : Nat} {key : SymbolId} {second third : String}
    (h : (do
      ensureZero disk.second second
      ensureZero disk.third third
      SymbolId.fromSnapshotRaw disk.first count) = .ok key) :
    disk = symbolKeyToDisk key := by
  obtain ⟨hsecond, h⟩ := ensureZero_bind_eq_ok.mp h
  obtain ⟨hthird, h⟩ := ensureZero_bind_eq_ok.mp h
  cases disk
  simp only [symbolKeyToDisk, DiskIndexKey.mk.injEq]
  exact ⟨(symbolId_fromSnapshotRaw_eq_ok h).1.symm, hsecond, hthird⟩

theorem lawful_resourceType :
    resourceTypeDecoder.Lawful (fun row => [row.resourceType]) symbolKeyToDisk (fun _ => 1) := by
  apply lawful_simple (fun row => some row.resourceType) rfl (fun _ _ => rfl)
    symbolKey_typed
  · intro row key h
    simp only [resourceTypeDecoder, rowMatchesResourceTypeKey, symbolKeyToDisk, Bool.and_eq_true,
      beq_iff_eq] at h
    exact congrArg some (SymbolId.get_injective h.1.1)
  · exact rank_lt_of_lt

theorem lawful_subjectType :
    subjectTypeDecoder.Lawful (fun row => [row.subjectType]) symbolKeyToDisk (fun _ => 1) := by
  apply lawful_simple (fun row => some row.subjectType) rfl (fun _ _ => rfl)
    symbolKey_typed
  · intro row key h
    simp only [subjectTypeDecoder, rowMatchesSubjectTypeKey, symbolKeyToDisk, Bool.and_eq_true,
      beq_iff_eq] at h
    exact congrArg some (SymbolId.get_injective h.1.1)
  · exact rank_lt_of_lt

theorem lawful_subjectTypeRelation :
    subjectTypeRelationDecoder.Lawful (fun row => row.subjectTypeRelationKey.toList)
      subjectTypeRelationKeyToDisk (fun _ => 1) := by
  apply lawful_simple RowIdentity.subjectTypeRelationKey rfl
  · intro row hsome
    have hrelation : row.subjectRelation.isSome = true := by
      rw [RowIdentity.subjectTypeRelationKey, Option.isSome_map] at hsome
      exact hsome
    exact if_pos hrelation
  · intro disk count key h
    obtain ⟨hzero, h⟩ := ensureZero_bind_eq_ok.mp h
    obtain ⟨first, hfirst, h⟩ := bind_eq_ok.mp h
    obtain ⟨second, hsecond, h⟩ := bind_eq_ok.mp h
    cases h
    cases disk
    simp only [subjectTypeRelationKeyToDisk, DiskIndexKey.mk.injEq]
    exact ⟨(symbolId_fromSnapshotRaw_eq_ok hfirst).1.symm,
      (symbolId_fromSnapshotRaw_eq_ok hsecond).1.symm, hzero⟩
  · intro row key h
    simp only [subjectTypeRelationDecoder, rowMatchesSubjectTypeRelationKey,
      subjectTypeRelationKeyToDisk, Bool.and_eq_true, beq_iff_eq,
      Option.any_eq_true] at h
    obtain ⟨⟨htype, relation, hrelation, hsame⟩, _⟩ := h
    cases key
    simp only [RowIdentity.subjectTypeRelationKey, hrelation, Option.map_some, Option.some.injEq,
      SubjectTypeRelationIndexKey.mk.injEq]
    exact ⟨SymbolId.get_injective htype, SymbolId.get_injective hsame⟩
  · exact rank_lt_of_lt

theorem optionalSymbolFromDisk_eq_ok
    {value count : Nat} {relation : Option SymbolId}
    (h : optionalSymbolFromDisk value count = .ok relation) :
    value = optionalRaw relation := by
  unfold optionalSymbolFromDisk at h
  split at h
  · next hzero =>
      cases h
      exact hzero
  · obtain ⟨id, hid, h⟩ := bind_eq_ok.mp h
    cases h
    exact (symbolId_fromSnapshotRaw_eq_ok hid).1.symm

theorem mem_subjectKeys_iff
    {row : RowIdentity} {key : SubjectIndexKey} :
    key ∈ row.subjectKeys ↔ key.subjectType = row.subjectType ∧ key.subjectId = row.subjectId ∧
      (key.relation = none ∨ key.relation = row.subjectRelation) := by
  obtain ⟨subjectType, subjectId, relation⟩ := key
  unfold RowIdentity.subjectKeys
  cases row.subjectRelation with
  | none =>
      simp
  | some own =>
      simp only [List.mem_cons, SubjectIndexKey.mk.injEq, List.not_mem_nil, or_false]
      tauto

theorem lawful_subject :
    subjectDecoder.Lawful RowIdentity.subjectKeys subjectKeyToDisk subjectBit where
  typed := by
    intro disk count key h
    obtain ⟨relation, hrelation, h⟩ := bind_eq_ok.mp h
    obtain ⟨first, hfirst, h⟩ := bind_eq_ok.mp h
    obtain ⟨second, hsecond, h⟩ := bind_eq_ok.mp h
    cases h
    cases disk
    simp only [subjectKeyToDisk, DiskIndexKey.mk.injEq]
    exact ⟨(symbolId_fromSnapshotRaw_eq_ok hfirst).1.symm,
      (symbolId_fromSnapshotRaw_eq_ok hsecond).1.symm, optionalSymbolFromDisk_eq_ok hrelation⟩
  ordered := rank_lt_of_lt
  isBit key := by
    unfold subjectBit
    cases key.relation with
    | none => exact Or.inl rfl
    | some relation => exact Or.inr rfl
  rowMatches row key h := by
    simp only [subjectDecoder, rowMatchesSubjectKey, subjectKeyToDisk, Bool.and_eq_true,
      beq_iff_eq] at h
    obtain ⟨⟨htype, hid⟩, hrelation⟩ := h
    refine mem_subjectKeys_iff.mpr
      ⟨(SymbolId.get_injective htype).symm, (SymbolId.get_injective hid).symm, ?_⟩
    cases hkey : key.relation with
    | none => exact Or.inl rfl
    | some relation =>
        right
        have hpos := relation.value.pos
        rw [hkey] at hrelation
        cases hrow : row.subjectRelation with
        | none =>
            simp only [hrow, optionalRaw, beq_iff_eq] at hrelation
            omega
        | some own =>
            simp only [hrow, optionalRaw, Bool.or_eq_true, beq_iff_eq] at hrelation
            rcases hrelation with hzero | hsame
            · omega
            · exact congrArg some (SymbolId.get_injective hsame).symm
  coverageBit row key h := by
    obtain ⟨_, _, hrelation⟩ := mem_subjectKeys_iff.mp h
    unfold subjectDecoder subjectIndexCoverageBit subjectBit subjectKeyToDisk
    cases hkey : key.relation with
    | none => rfl
    | some relation =>
        rw [hkey] at hrelation
        rcases hrelation with hnone | hsame
        · cases hnone
        · have hpos := relation.value.pos
          have hne : relation.value.get ≠ 0 := by omega
          simp [optionalRaw, ← hsame, hne]
  injective row key key' hkey hkey' hbit := by
    obtain ⟨htype, hid, hrelation⟩ := mem_subjectKeys_iff.mp hkey
    obtain ⟨htype', hid', hrelation'⟩ := mem_subjectKeys_iff.mp hkey'
    have hsame : key.relation = key'.relation := by
      unfold subjectBit at hbit
      cases hk : key.relation with
      | none =>
          cases hk' : key'.relation with
          | none => rfl
          | some relation' =>
              rw [hk, hk'] at hbit
              cases hbit
      | some relation =>
          cases hk' : key'.relation with
          | none =>
              rw [hk, hk'] at hbit
              cases hbit
          | some relation' =>
              rw [hk] at hrelation
              rw [hk'] at hrelation'
              simp only [reduceCtorEq, false_or] at hrelation hrelation'
              rw [hrelation, hrelation']
    cases key
    cases key'
    simp only [SubjectIndexKey.mk.injEq]
    exact ⟨htype.trans htype'.symm, hid.trans hid'.symm, hsame⟩
  expected row key h := by
    obtain ⟨_, _, hrelation⟩ := mem_subjectKeys_iff.mp h
    show (if row.subjectRelation.isSome = true then 3 else 1) &&& subjectBit key ≠ 0
    unfold subjectBit
    cases hkey : key.relation with
    | none =>
        split <;> decide
    | some relation =>
        rw [hkey] at hrelation
        rcases hrelation with hnone | hsame
        · cases hnone
        · rw [← hsame]
          show (3 : UInt8) &&& 2 ≠ 0
          decide

theorem DiskIndexKey.Lt.trans
    {a b c : DiskIndexKey}
    (hab : a.Lt b)
    (hbc : b.Lt c) :
    a.Lt c := by
  unfold DiskIndexKey.Lt at *
  omega

theorem DiskIndexKey.Lt.ne
    {a b : DiskIndexKey}
    (h : a.Lt b) :
    a ≠ b := by
  rintro rfl
  unfold DiskIndexKey.Lt at h
  omega

instance : IsTrans DiskIndexKey DiskIndexKey.Lt :=
  ⟨fun _ _ _ => DiskIndexKey.Lt.trans⟩

/-- Checked keys ascend. -/
theorem pairwise_of_validateSortedKeys
    {keys : List DiskIndexKey}
    (h : validateSortedKeys keys = .ok ()) :
    keys.Pairwise DiskIndexKey.Lt := by
  have hchain : keys.IsChain DiskIndexKey.Lt := require_eq_ok.mp h
  exact List.isChain_iff_pairwise.mp hchain

theorem map_key_zipWith_sublist
    (keys : List DiskIndexKey) (ranges : List DiskPostingRange) :
    ((keys.zipWith IndexEntry.mk ranges).map (·.key)).Sublist keys := by
  induction keys generalizing ranges with
  | nil => exact List.Sublist.slnil
  | cons key keys ih =>
      cases ranges with
      | nil => exact List.nil_sublist _
      | cons range ranges => exact (ih ranges).cons_cons key

/-- The keys of an index ascend. -/
theorem pairwise_snapshotIndexEntries
    {input : IndexDecodeInput} {kind : IndexKind} {entries : List IndexEntry}
    (h : snapshotIndexEntries input kind = .ok entries) :
    (entries.map (·.key)).Pairwise DiskIndexKey.Lt := by
  obtain ⟨entry, _, h⟩ := bind_eq_ok.mp h
  split at h
  · obtain ⟨hcount, h⟩ := require_bind_eq_ok.mp h
    obtain ⟨keyEnd, hkeyEnd, h⟩ := bind_eq_ok.mp h
    obtain ⟨rangeEnd, hrangeEnd, h⟩ := bind_eq_ok.mp h
    obtain ⟨keys, hkeys, h⟩ := bind_eq_ok.mp h
    obtain ⟨ranges, hranges, h⟩ := bind_eq_ok.mp h
    obtain ⟨_, hsorted, h⟩ := bind_eq_ok.mp h
    cases h
    exact (pairwise_of_validateSortedKeys hsorted).sublist (map_key_zipWith_sublist keys ranges)
  · obtain ⟨_, h⟩ := require_bind_eq_ok.mp h
    obtain ⟨⟨singletonBytesLen, groupBytesLen⟩, _, h⟩ := bind_eq_ok.mp h
    obtain ⟨_, _, h⟩ := bind_eq_ok.mp h
    obtain ⟨_, _, h⟩ := bind_eq_ok.mp h
    obtain ⟨_, _, h⟩ := bind_eq_ok.mp h
    obtain ⟨_, _, h⟩ := bind_eq_ok.mp h
    obtain ⟨_, _, h⟩ := bind_eq_ok.mp h
    obtain ⟨_, _, h⟩ := bind_eq_ok.mp h
    obtain ⟨singletons, _, h⟩ := bind_eq_ok.mp h
    obtain ⟨multis, _, h⟩ := bind_eq_ok.mp h
    obtain ⟨merged, _, h⟩ := bind_eq_ok.mp h
    obtain ⟨_, hsorted, h⟩ := bind_eq_ok.mp h
    cases h
    exact pairwise_of_validateSortedKeys hsorted
  · cases h

section Decode

variable {K : Type} [DecidableEq K] [IndexKey K] {decoder : IndexDecoder K}
  {keysOf : RowIdentity → List K} {diskKey : K → DiskIndexKey} {bit : K → UInt8}
  {input : IndexDecodeInput} {count count' : Nat} {index : PostingIndex K}

omit [IndexKey K] in
/-- What a checked index consists of. -/
theorem decodeIndex_full
    (hvalidation : input.validation = .full)
    (h : decodeIndex input decoder count = .ok (index, count')) :
    ∃ entries fold, snapshotIndexEntries input decoder.kind = .ok entries ∧
      entries.foldlM (postEntry input decoder)
        ⟨List.replicate input.rows.length 0, [], 0, count⟩ = .ok fold ∧
      (∀ entry ∈ input.rows.zip fold.coverage,
        entry.2 = expectedCoverage input decoder entry.1) ∧
      runtimeIndex fold.postings input.profile = .ok index ∧ count' = fold.count := by
  obtain ⟨entries, hentries, h⟩ := bind_eq_ok.mp h
  rw [if_neg (by rw [hvalidation]; rintro ⟨h, _⟩; cases h)] at h
  obtain ⟨fold, hfold, h⟩ := bind_eq_ok.mp h
  obtain ⟨hexpected, h⟩ := require_bind_eq_ok.mp h
  obtain ⟨index', hindex, h⟩ := bind_eq_ok.mp h
  cases h
  exact ⟨entries, fold, hentries, hfold, hexpected, hindex, rfl⟩

omit [DecidableEq K] [IndexKey K] in
/-- Nothing is marked before the first posting. -/
theorem covered_nil
    (rows : List RelationshipRow) (keysOf : RowIdentity → List K) (bit : K → UInt8) :
    Covered rows keysOf bit (List.replicate rows.length 0) [] := by
  refine ⟨List.length_replicate, ?_, ?_⟩
  · intro n b _
    constructor
    · rintro ⟨mask, hmask, hne⟩
      rw [List.getElem?_replicate] at hmask
      split at hmask
      · cases hmask
        exact absurd (UInt8.zero_and) hne
      · cases hmask
    · rintro ⟨posting, hposting, _⟩
      cases hposting
  · intro posting hposting
    cases hposting

omit [DecidableEq K] [IndexKey K] in
/-- Postings without empty lists can be laid out as arrays. -/
theorem decodeEntries_isOk
    {postings : List ((_ : K) × List RowId)}
    (hordered : Ordered postings)
    (start : Nat) :
    ∃ result, PostingIndex.decodeEntries start postings = .ok result := by
  induction postings generalizing start with
  | nil => exact ⟨_, rfl⟩
  | cons posting postings ih =>
      obtain ⟨key, rowIds⟩ := posting
      obtain ⟨hne, _⟩ := hordered _ List.mem_cons_self
      cases rowIds with
      | nil => exact absurd rfl hne
      | cons first rest =>
          obtain ⟨⟨keys, ranges, overflow⟩, hrest⟩ :=
            ih (fun other hother => hordered other (List.mem_cons_of_mem _ hother))
              (start + rest.length)
          refine ⟨(key :: keys, ⟨first, start, rest.length⟩ :: ranges, rest ++ overflow), ?_⟩
          rw [PostingIndex.decodeEntries, hrest]
          rfl

omit [DecidableEq K] in
/-- Postings whose keys ascend are in order. -/
theorem inOrder_eq_self
    {postings : List ((_ : K) × List RowId)}
    (hsorted : PostingIndex.Sorted (postings.map Sigma.fst)) :
    PostingGroup.inOrder (⟨postings, hsorted.nodup⟩ : PostingGroup K) = postings :=
  List.Pairwise.insertionSort_eq ((List.pairwise_map.mp hsorted).imp le_of_lt)

/-- The two runtime forms come from the same postings. -/
theorem runtimeIndex_eq_decodeIndex
    {postings : List ((_ : K) × List RowId)}
    (hordered : Ordered postings)
    (hsorted : PostingIndex.Sorted (postings.map Sigma.fst))
    (profile : SnapshotLoadProfile) :
    runtimeIndex postings profile =
      PostingIndex.decodeIndex profile (⟨postings, hsorted.nodup⟩ : PostingGroup K) := by
  obtain ⟨⟨keys, ranges, overflow⟩, hentries⟩ := decodeEntries_isOk hordered 0
  unfold PostingIndex.decodeIndex
  rw [inOrder_eq_self hsorted]
  cases profile with
  | fastLoad =>
      unfold runtimeIndex fromSorted
      rfl
  | latency =>
      rw [hentries]
      rfl

omit [DecidableEq K] in
/-- The postings of a checked index. -/
theorem postings_of_fold
    (hlawful : decoder.Lawful keysOf diskKey bit)
    {entries : List IndexEntry} {fold : IndexFold K}
    (hentries : snapshotIndexEntries input decoder.kind = .ok entries)
    (hfold : entries.foldlM (postEntry input decoder)
      ⟨List.replicate input.rows.length 0, [], 0, count⟩ = .ok fold) :
    Covered input.rows keysOf bit fold.coverage fold.postings ∧ Ordered fold.postings ∧
      PostingIndex.Sorted (fold.postings.map Sigma.fst) := by
  obtain ⟨hcovered, hordered, hkeys⟩ := postEntry_foldlM hlawful hfold
    (covered_nil input.rows keysOf bit) (fun _ h => by cases h)
  refine ⟨hcovered, hordered, ?_⟩
  have hpairwise := pairwise_snapshotIndexEntries hentries
  rw [List.map_nil, List.nil_append] at hkeys
  rw [← hkeys, List.pairwise_map] at hpairwise
  exact List.pairwise_map.mpr (hpairwise.imp hlawful.ordered)

/-- A checked index gives, for every key, the rows that have it. -/
theorem decodeIndex_exact
    (hlawful : decoder.Lawful keysOf diskKey bit)
    (hvalidation : input.validation = .full)
    (hrowIds : ∀ (n : Nat) row, input.rows[n]? = some row → row.rowId.index = n)
    (hrequired : decoder.requiredByProfile input.indexProfile = true)
    (h : decodeIndex input decoder count = .ok (index, count')) :
    IndexExact index input.rows keysOf := by
  obtain ⟨entries, fold, hentries, hfold, hexpected, hindex, _⟩ := decodeIndex_full hvalidation h
  obtain ⟨hcovered, hordered, hsorted⟩ := postings_of_fold hlawful hentries hfold
  rw [runtimeIndex_eq_decodeIndex hordered hsorted] at hindex
  apply PostingIndex.exact_decodeIndex _ hindex
  apply exact_of_covered hlawful hcovered hordered hsorted.nodup hrowIds
  intro entry hentry
  rw [hexpected entry hentry, expectedCoverage, if_pos hrequired]

omit [DecidableEq K] in
/-- Without required rows there are no postings. -/
theorem postings_eq_nil
    (hlawful : decoder.Lawful keysOf diskKey bit)
    {coverage : List UInt8} {postings : List ((_ : K) × List RowId)}
    (hcovered : Covered input.rows keysOf bit coverage postings)
    (hordered : Ordered postings)
    (hexpected : ∀ entry ∈ input.rows.zip coverage,
      entry.2 = expectedCoverage input decoder entry.1)
    (hrequired : decoder.requiredByProfile input.indexProfile = false) :
    postings = [] := by
  rw [List.eq_nil_iff_forall_not_mem]
  intro posting hposting
  obtain ⟨hne, _⟩ := hordered posting hposting
  obtain ⟨rowId, hrowId⟩ := List.exists_mem_of_ne_nil _ hne
  obtain ⟨row, hrow, _⟩ := hcovered.right posting hposting rowId hrowId
  obtain ⟨mask, hmask, hbit⟩ := (hcovered.marked rowId.index _ (hlawful.isBit posting.1)).mpr
    ⟨posting, hposting, rowId, hrowId, rfl, rfl⟩
  have hzero : mask = 0 := by
    have hzip : (row, mask) ∈ input.rows.zip coverage :=
      List.mem_iff_getElem?.mpr ⟨_, List.getElem?_zip_eq_some.mpr ⟨hrow, hmask⟩⟩
    have hmaskEq := hexpected _ hzip
    rw [expectedCoverage, hrequired] at hmaskEq
    exact hmaskEq
  rw [hzero] at hbit
  exact hbit UInt8.zero_and

/-- A checked index is what a group that lists its rows is decoded to. -/
theorem decodeIndex_eq_group
    (hlawful : decoder.Lawful keysOf diskKey bit)
    (hvalidation : input.validation = .full)
    (hrowIds : ∀ (n : Nat) row, input.rows[n]? = some row → row.rowId.index = n)
    {group : PostingGroup K}
    (hexact : decoder.requiredByProfile input.indexProfile = true → group.Exact input.rows keysOf)
    (hempty : decoder.requiredByProfile input.indexProfile = false → group = ∅)
    (h : decodeIndex input decoder count = .ok (index, count')) :
    PostingIndex.decodeIndex input.profile group = .ok index := by
  obtain ⟨entries, fold, hentries, hfold, hexpected, hindex, _⟩ := decodeIndex_full hvalidation h
  obtain ⟨hcovered, hordered, hsorted⟩ := postings_of_fold hlawful hentries hfold
  rw [runtimeIndex_eq_decodeIndex hordered hsorted] at hindex
  cases hrequired : decoder.requiredByProfile input.indexProfile with
  | true =>
      have hpostings : PostingGroup.Exact (⟨fold.postings, hsorted.nodup⟩ : PostingGroup K)
          input.rows keysOf := by
        apply exact_of_covered hlawful hcovered hordered hsorted.nodup hrowIds
        intro entry hentry
        rw [hexpected entry hentry, expectedCoverage, if_pos hrequired]
      rw [PostingIndex.decodeIndex_congr ((hexact hrequired).lookup_eq hpostings)]
      exact hindex
  | false =>
      have hnil : (⟨fold.postings, hsorted.nodup⟩ : PostingGroup K) = ∅ :=
        AList.ext (postings_eq_nil hlawful hcovered hordered hexpected hrequired)
      rw [hempty hrequired, ← hnil]
      exact hindex

/-- An index that the profile leaves out is empty. -/
theorem decodeIndex_empty
    (hlawful : decoder.Lawful keysOf diskKey bit)
    (hvalidation : input.validation = .full)
    (hrowIds : ∀ (n : Nat) row, input.rows[n]? = some row → row.rowId.index = n)
    (hrequired : decoder.requiredByProfile input.indexProfile = false)
    (h : decodeIndex input decoder count = .ok (index, count'))
    (key : K) :
    index.candidates key = [] := by
  have hgroup : PostingIndex.decodeIndex input.profile ∅ = .ok index :=
    decodeIndex_eq_group hlawful hvalidation hrowIds
      (fun hkept => absurd (hrequired.symm.trans hkept) Bool.false_ne_true) (fun _ => rfl) h
  exact PostingIndex.candidates_decodeIndex_empty hgroup key

omit [DecidableEq K] [IndexKey K] in
/-- The further rows of a checked key are counted as in a trusted load. -/
theorem countOverflow_of_postRow
    {disk : DiskIndexKey} {first : RowId} {done : List RowId}
    {items : List (Except SnapshotIoError RowId)} {fold result : PostingFold}
    (h : items.foldlM (postRow input decoder disk) fold = .ok result)
    (hdone : fold.rowIds = first :: done) :
    ∃ rowIds, countOverflow done.length fold.count items = .ok (rowIds, result.count) ∧
      result.rowIds = first :: (done ++ rowIds) := by
  induction items generalizing fold done with
  | nil =>
      cases h
      exact ⟨[], rfl, by rw [hdone, List.append_nil]⟩
  | cons item items ih =>
      rw [List.foldlM_cons] at h
      obtain ⟨middle, hmiddle, hrest⟩ := bind_eq_ok.mp h
      obtain ⟨rowId, _, _, rfl, _, _, _, hcount, hrowIds, _⟩ := postRow_eq_ok hmiddle
      rw [hdone] at hcount
      rw [hdone, List.cons_append] at hrowIds
      obtain ⟨rowIds, hcounted, hresult⟩ := ih hrest hrowIds
      rw [List.length_append] at hcounted
      replace hcount : countOverflowRow done.length fold.count = .ok middle.count := hcount
      refine ⟨rowId :: rowIds, ?_, ?_⟩
      · rw [countOverflow]
        refine bind_eq_ok.mpr ⟨rowId, rfl, bind_eq_ok.mpr ⟨middle.count, hcount, ?_⟩⟩
        exact bind_eq_ok.mpr ⟨_, hcounted, rfl⟩
      · rw [hresult, List.append_assoc]
        rfl

omit [DecidableEq K] [IndexKey K] in
/-- A trusted load takes over what a full load accepts. -/
theorem trustEntry_of_postEntry
    {fold result : IndexFold K} {entry : IndexEntry}
    (h : postEntry input decoder fold entry = .ok result)
    (coverage : List UInt8) :
    trustEntry input decoder { fold with coverage := coverage } entry =
      .ok { result with coverage := coverage } := by
  obtain ⟨key, items, posted, hkey, hitems, hbound, hposted, rfl⟩ := postEntry_eq_ok h
  obtain ⟨first, rest, hfirst, rfl, _⟩ := postingRowIdIter_ok hitems
  rw [List.foldlM_cons] at hposted
  obtain ⟨middle, hmiddle, hposted⟩ := bind_eq_ok.mp hposted
  obtain ⟨rowId, _, _, hrowId, _, _, _, hcount, hrowIds, _⟩ := postRow_eq_ok hmiddle
  cases hrowId
  obtain ⟨overflow, hcounted, hresult⟩ := countOverflow_of_postRow hposted hrowIds
  rw [List.nil_append] at hresult
  replace hcount : fold.count = middle.count := Except.ok.inj hcount
  rw [← hcount, List.length_nil] at hcounted
  unfold trustEntry
  refine bind_eq_ok.mpr ⟨key, hkey, bind_eq_ok.mpr ⟨first, hfirst,
    bind_eq_ok.mpr ⟨fold.overflowLen, if_pos hbound, bind_eq_ok.mpr ⟨_, hitems, ?_⟩⟩⟩⟩
  refine bind_eq_ok.mpr ⟨first, rfl, require_bind_eq_ok.mpr ⟨rfl, ?_⟩⟩
  refine bind_eq_ok.mpr ⟨(overflow, posted.count), hcounted, ?_⟩
  rw [hresult, List.length_cons, Nat.add_sub_cancel]
  rfl

omit [DecidableEq K] [IndexKey K] in
theorem trustEntry_foldlM
    {entries : List IndexEntry} {fold result : IndexFold K}
    (h : entries.foldlM (postEntry input decoder) fold = .ok result)
    (coverage : List UInt8) :
    entries.foldlM (trustEntry input decoder) { fold with coverage := coverage } =
      .ok { result with coverage := coverage } := by
  induction entries generalizing fold with
  | nil =>
      cases h
      rfl
  | cons entry entries ih =>
      rw [List.foldlM_cons] at h ⊢
      obtain ⟨middle, hmiddle, hrest⟩ := bind_eq_ok.mp h
      exact bind_eq_ok.mpr ⟨_, trustEntry_of_postEntry hmiddle coverage, ih hrest⟩

/-- The same content, loaded in another way. -/
def IndexDecodeInput.withMode (input : IndexDecodeInput) (profile : SnapshotLoadProfile)
    (validation : SnapshotValidationMode) : IndexDecodeInput :=
  { input with profile := profile, validation := validation }

omit [IndexKey K] in
/-- A trusted load of a checked index gives the same index. -/
theorem decodeIndex_trusted
    (hvalidation : input.validation = .full)
    (hprofile : input.profile = .fastLoad)
    (h : decodeIndex input decoder count = .ok (index, count')) :
    decodeIndex (input.withMode .fastLoad .trustedFastLoad) decoder count =
      .ok (index, count') := by
  obtain ⟨entries, fold, hentries, hfold, _, hindex, rfl⟩ := decodeIndex_full hvalidation h
  rw [hprofile] at hindex
  refine bind_eq_ok.mpr ⟨entries, hentries, ?_⟩
  rw [if_pos ⟨rfl, rfl⟩]
  refine bind_eq_ok.mpr ⟨{ fold with coverage := [] }, trustEntry_foldlM hfold [], ?_⟩
  exact bind_eq_ok.mpr ⟨index, hindex, rfl⟩

omit [IndexKey K] in
/-- A checked index can be loaded into hash maps as well. -/
theorem decodeIndex_latency
    (hvalidation : input.validation = .full)
    (h : decodeIndex input decoder count = .ok (index, count')) :
    ∃ index', decodeIndex (input.withMode .latency .full) decoder count =
      .ok (index', count') := by
  obtain ⟨entries, fold, hentries, hfold, hexpected, _, rfl⟩ := decodeIndex_full hvalidation h
  refine ⟨fold.postings.foldl PostingIndex.insertEntry .default,
    bind_eq_ok.mpr ⟨entries, hentries, ?_⟩⟩
  rw [if_neg (by rintro ⟨h, _⟩; cases h)]
  refine bind_eq_ok.mpr ⟨fold, hfold, require_bind_eq_ok.mpr ⟨hexpected, ?_⟩⟩
  exact bind_eq_ok.mpr ⟨_, rfl, rfl⟩

end Decode

end Snapshot

end SimpleZanzibar
