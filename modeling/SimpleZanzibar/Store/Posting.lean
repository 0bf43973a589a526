import Mathlib.Data.Prod.Lex
import SimpleZanzibar.Lib.BinarySearch
import SimpleZanzibar.Store.Interner

/-!
# Posting indexes

A posting index maps a key to the rows that have it, in row order.  Stores that
grow row by row keep the first row of a key in one hash map and the others in a
second one; a fast load leaves the arrays of the snapshot in place, with one range
into a shared overflow array per key, and converts them at the first insertion.  The keys of
a fast load ascend, and a key is looked up by binary search.
-/

namespace SimpleZanzibar

open BinarySearch

/-- Keys of an index, compared field by field: the numbers of their fields in the order of
their declaration, an absent relation below every other. -/
class IndexKey (K : Type) where
  rank : K → Nat ×ₗ (Nat ×ₗ Nat)
  rank_injective : Function.Injective rank

/-- First row of a key and the range of its further rows in the overflow array. -/
structure RuntimePostingRange where
  firstRowId : RowId
  overflowStart : Nat
  overflowLen : Nat

namespace RuntimePostingRange

def overflowSlice (range : RuntimePostingRange) (overflow : List RowId) :
    Option (List RowId) :=
  if range.overflowLen = 0 then none
  else if range.overflowStart + range.overflowLen ≤ overflow.length then
    some ((overflow.drop range.overflowStart).take range.overflowLen)
  else none

/-- The rows of the range. -/
def candidates (range : RuntimePostingRange) (overflow : List RowId) : List RowId :=
  range.firstRowId :: (range.overflowSlice overflow).getD []

end RuntimePostingRange

inductive PostingIndex (K : Type) where
  | hash
      (primary : AList (fun _ : K => RowId))
      (overflow : AList (fun _ : K => List RowId))
  | sorted (keys : List K) (ranges : List RuntimePostingRange) (overflow : List RowId)

namespace PostingIndex

variable {K : Type} [DecidableEq K] [IndexKey K]

def default : PostingIndex K :=
  .hash ∅ ∅

/-- Keys that ascend. -/
def Sorted (keys : List K) : Prop :=
  keys.Pairwise (fun a b => IndexKey.rank a < IndexKey.rank b)

/-- The candidate rows of a key, in iteration order. -/
def candidates : PostingIndex K → K → List RowId
  | .hash primary overflow, key =>
      (primary.lookup key).toList ++ (overflow.lookup key).getD []
  | .sorted keys ranges overflow, key =>
      match binarySearchBy (fun k => compare (IndexKey.rank k) (IndexKey.rank key)) keys with
      | some index =>
          match ranges[index]? with
          | some range => range.candidates overflow
          | none => []
      | none => []

/-- One entry of a snapshot index, entered into the two hash maps. -/
def hashEntry
    (overflow : List RowId)
    (maps : AList (fun _ : K => RowId) × AList (fun _ : K => List RowId))
    (entry : K × RuntimePostingRange) :
    AList (fun _ : K => RowId) × AList (fun _ : K => List RowId) :=
  (maps.1.insert entry.1 entry.2.firstRowId,
    match entry.2.overflowSlice overflow with
    | some rowIds => maps.2.insert entry.1 rowIds
    | none => maps.2)

/-- The two hash maps of an index. -/
def ensureHashProfile :
    PostingIndex K → AList (fun _ : K => RowId) × AList (fun _ : K => List RowId)
  | .hash primary overflow => (primary, overflow)
  | .sorted keys ranges overflow =>
      (keys.zip ranges).foldl (hashEntry overflow) (∅, ∅)

def insert (index : PostingIndex K) (key : K) (rowId : RowId) : PostingIndex K :=
  let (primary, overflow) := index.ensureHashProfile
  match primary.lookup key with
  | none => .hash (primary.insert key rowId) overflow
  | some _ =>
      .hash primary (overflow.insert key ((overflow.lookup key).getD [] ++ [rowId]))

/-- Further rows only follow a first row, and snapshot keys ascend. -/
def Inv : PostingIndex K → Prop
  | .hash primary overflow =>
      ∀ key, primary.lookup key = none → overflow.lookup key = none
  | .sorted keys _ _ => Sorted keys

omit [DecidableEq K] in
theorem Sorted.nodup
    {keys : List K}
    (hkeys : Sorted keys) :
    keys.Nodup :=
  hkeys.imp (fun hlt heq => (congrArg IndexKey.rank heq ▸ hlt).ne rfl)

theorem inv_default :
    (default : PostingIndex K).Inv := by
  intro key _
  rfl

@[simp] theorem candidates_default
    (key : K) :
    (default : PostingIndex K).candidates key = [] :=
  rfl

omit [IndexKey K] in
/-- Entering the remaining entries does not touch the other keys. -/
theorem foldl_hashEntry_of_not_mem
    (overflow : List RowId) {key : K}
    (entries : List (K × RuntimePostingRange))
    (maps : AList (fun _ : K => RowId) × AList (fun _ : K => List RowId))
    (hkey : key ∉ entries.map Prod.fst) :
    (entries.foldl (hashEntry overflow) maps).1.lookup key = maps.1.lookup key ∧
      (entries.foldl (hashEntry overflow) maps).2.lookup key = maps.2.lookup key := by
  induction entries generalizing maps with
  | nil =>
      exact ⟨rfl, rfl⟩
  | cons entry rest ih =>
      have hne : key ≠ entry.1 := by
        intro h
        exact hkey (by simp [h])
      have hrest : key ∉ rest.map Prod.fst := by
        intro h
        exact hkey (by simp [h])
      obtain ⟨h1, h2⟩ := ih (hashEntry overflow maps entry) hrest
      rw [List.foldl_cons, h1, h2]
      constructor
      · exact AList.lookup_insert_ne hne
      · unfold hashEntry
        cases entry.2.overflowSlice overflow with
        | none =>
            rfl
        | some rowIds =>
            exact AList.lookup_insert_ne hne

omit [IndexKey K] in
/-- Each entry of distinct keys ends up under its key. -/
theorem foldl_hashEntry_of_mem
    (overflow : List RowId) {key : K} {range : RuntimePostingRange}
    (entries : List (K × RuntimePostingRange))
    (maps : AList (fun _ : K => RowId) × AList (fun _ : K => List RowId))
    (hnodup : (entries.map Prod.fst).Nodup)
    (hmem : (key, range) ∈ entries)
    (hfresh : maps.2.lookup key = none) :
    (entries.foldl (hashEntry overflow) maps).1.lookup key = some range.firstRowId ∧
      (entries.foldl (hashEntry overflow) maps).2.lookup key =
        range.overflowSlice overflow := by
  induction entries generalizing maps with
  | nil =>
      cases hmem
  | cons entry rest ih =>
      rw [List.map_cons, List.nodup_cons] at hnodup
      rw [List.foldl_cons]
      rcases List.mem_cons.mp hmem with rfl | hmem
      · obtain ⟨h1, h2⟩ := foldl_hashEntry_of_not_mem overflow rest
          (hashEntry overflow maps (key, range)) hnodup.1
        rw [h1, h2]
        unfold hashEntry
        refine ⟨AList.lookup_insert _, ?_⟩
        cases range.overflowSlice overflow with
        | none =>
            exact hfresh
        | some rowIds =>
            exact AList.lookup_insert _
      · have hne : key ≠ entry.1 := by
          rintro rfl
          exact hnodup.1 (List.mem_map.mpr ⟨_, hmem, rfl⟩)
        apply ih _ hnodup.2 hmem
        unfold hashEntry
        cases entry.2.overflowSlice overflow with
        | none =>
            exact hfresh
        | some rowIds =>
            exact (AList.lookup_insert_ne hne).trans hfresh

omit [DecidableEq K] [IndexKey K] in
theorem nodup_zip_keys
    {keys : List K} (ranges : List RuntimePostingRange)
    (hkeys : keys.Nodup) :
    ((keys.zip ranges).map Prod.fst).Nodup := by
  rw [List.zip_eq_zip_take_min, List.map_fst_zip (by simp)]
  exact hkeys.sublist (List.take_sublist _ _)

/-- A key of a snapshot index is the key of one entry, or has no candidates. -/
theorem candidates_sorted_cases
    {keys : List K} {ranges : List RuntimePostingRange}
    (hkeys : Sorted keys)
    (overflow : List RowId) (key : K) :
    (∃ range, (key, range) ∈ keys.zip ranges ∧
      (PostingIndex.sorted keys ranges overflow).candidates key = range.candidates overflow) ∨
    key ∉ (keys.zip ranges).map Prod.fst ∧
      (PostingIndex.sorted keys ranges overflow).candidates key = [] := by
  have hsearch := binarySearchBy_compare hkeys IndexKey.rank_injective key
  cases hindex : keys.idxOf? key with
  | none =>
      right
      have hnot : key ∉ keys := List.idxOf?_eq_none_iff.mp hindex
      refine ⟨?_, by simp [candidates, hsearch, hindex]⟩
      rintro hmem
      obtain ⟨⟨key', range⟩, hzip, rfl⟩ := List.mem_map.mp hmem
      exact hnot (List.of_mem_zip hzip).1
  | some index =>
      obtain ⟨hlt, hget, _⟩ := List.idxOf?_eq_some_iff.mp hindex
      have hkey : keys[index]? = some key := List.getElem?_eq_some_iff.mpr ⟨hlt, hget⟩
      cases hrange : ranges[index]? with
      | some range =>
          left
          refine ⟨range, ?_, by simp [candidates, hsearch, hindex, hrange]⟩
          exact List.mem_iff_getElem?.mpr
            ⟨index, List.getElem?_zip_eq_some.mpr ⟨hkey, hrange⟩⟩
      | none =>
          right
          refine ⟨?_, by simp [candidates, hsearch, hindex, hrange]⟩
          intro hmem
          obtain ⟨⟨key', range⟩, hzip, rfl⟩ := List.mem_map.mp hmem
          obtain ⟨index', hindex'⟩ := List.mem_iff_getElem?.mp hzip
          obtain ⟨hkey', hrange'⟩ := List.getElem?_zip_eq_some.mp hindex'
          obtain ⟨hlt', hget'⟩ := List.getElem?_eq_some_iff.mp hkey'
          have hsame : index' = index :=
            (List.Nodup.getElem_inj_iff hkeys.nodup).mp (hget'.trans hget.symm)
          rw [hsame, hrange] at hrange'
          cases hrange'

/-- Converting a snapshot index keeps its candidates. -/
theorem Inv.ensureHashProfile
    {index : PostingIndex K}
    (hinv : index.Inv) :
    (PostingIndex.hash index.ensureHashProfile.1 index.ensureHashProfile.2).Inv ∧
      ∀ key,
        (PostingIndex.hash index.ensureHashProfile.1 index.ensureHashProfile.2).candidates key =
          index.candidates key := by
  cases index with
  | hash primary overflow =>
      exact ⟨hinv, fun _ => rfl⟩
  | sorted keys ranges overflow =>
      have hnodup := nodup_zip_keys ranges hinv.nodup
      constructor
      · intro key hnone
        rcases candidates_sorted_cases hinv overflow key with ⟨range, hzip, _⟩ | ⟨hnot, _⟩
        · obtain ⟨h1, _⟩ := foldl_hashEntry_of_mem overflow (keys.zip ranges)
            (∅, ∅) hnodup hzip rfl
          rw [PostingIndex.ensureHashProfile, h1] at hnone
          cases hnone
        · exact (foldl_hashEntry_of_not_mem overflow (keys.zip ranges)
            (∅, ∅) hnot).2
      · intro key
        rcases candidates_sorted_cases hinv overflow key with ⟨range, hzip, hc⟩ | ⟨hnot, hc⟩
        · obtain ⟨h1, h2⟩ := foldl_hashEntry_of_mem overflow (keys.zip ranges)
            (∅, ∅) hnodup hzip rfl
          rw [hc]
          simp only [PostingIndex.ensureHashProfile, candidates, h1, h2]
          rfl
        · obtain ⟨h1, h2⟩ := foldl_hashEntry_of_not_mem overflow
            (keys.zip ranges) (∅, ∅) hnot
          rw [hc]
          simp only [PostingIndex.ensureHashProfile, candidates, h1, h2]
          rfl

/-- Inserting appends to the candidates of the key. -/
theorem Inv.insert
    {index : PostingIndex K}
    (hinv : index.Inv)
    (key : K) (rowId : RowId) :
    (index.insert key rowId).Inv ∧
      ∀ key', (index.insert key rowId).candidates key' =
        if key' = key then index.candidates key' ++ [rowId] else index.candidates key' := by
  obtain ⟨hhash, hcandidates⟩ := hinv.ensureHashProfile
  unfold PostingIndex.insert
  simp only
  cases hprimary : index.ensureHashProfile.1.lookup key with
  | none =>
      constructor
      · intro key' hnone
        by_cases heq : key' = key
        · subst heq
          rw [AList.lookup_insert] at hnone
          cases hnone
        · exact hhash key' ((AList.lookup_insert_ne heq).symm.trans hnone)
      · intro key'
        rw [← hcandidates key']
        by_cases heq : key' = key
        · subst heq
          simp [candidates, hprimary, hhash key' hprimary]
        · simp [candidates, heq, AList.lookup_insert_ne heq]
  | some first =>
      constructor
      · intro key' hnone
        by_cases heq : key' = key
        · subst heq
          rw [hprimary] at hnone
          cases hnone
        · exact (AList.lookup_insert_ne heq).trans (hhash key' hnone)
      · intro key'
        rw [← hcandidates key']
        by_cases heq : key' = key
        · subst heq
          simp [candidates, hprimary]
        · simp [candidates, heq, AList.lookup_insert_ne heq]

end PostingIndex

end SimpleZanzibar
