import SimpleZanzibar.Snapshot.PostingCodec
import SimpleZanzibar.Snapshot.SymbolsWritten

/-!
# The groups of keys that are written

The writer enters the rows one after the other into a list of keys.  The keys stay in order,
and the rows of a key are the numbers of the rows that have it, in ascending order.

**Results.**
* `fillGroup_spec`: the content of a group, and its order.
* `indexGroup_of`: the group of an index of the saved store.
-/

namespace SimpleZanzibar

namespace Snapshot

/-! ## Order of keys -/

theorem DiskIndexKey.lt_of_not_lt
    {a b : DiskIndexKey}
    (hne : a ≠ b)
    (hnot : ¬a.Lt b) :
    b.Lt a := by
  cases a
  cases b
  simp only [ne_eq, DiskIndexKey.mk.injEq, DiskIndexKey.Lt] at *
  omega

namespace DiskGroup

/-- A row is listed under a key. -/
def Holds (group : DiskGroup) (key : DiskIndexKey) (rowId : Nat) : Prop :=
  ∃ entry ∈ group, entry.1 = key ∧ rowId ∈ entry.2

/-- The keys ascend, and every key has rows, which ascend as well. -/
structure Ordered (group : DiskGroup) : Prop where
  keys : group.Pairwise (fun a b => a.1.Lt b.1)
  rows : ∀ entry ∈ group, entry.2 ≠ [] ∧ entry.2.Pairwise (· < ·)

theorem ordered_nil :
    Ordered [] :=
  ⟨List.Pairwise.nil, by simp⟩

@[simp] theorem holds_nil
    (key : DiskIndexKey) (rowId : Nat) :
    ¬Holds [] key rowId := by
  simp [Holds]

@[simp] theorem holds_cons
    {entry : DiskIndexKey × List Nat} {rest : DiskGroup} {key : DiskIndexKey} {rowId : Nat} :
    Holds (entry :: rest) key rowId ↔ entry.1 = key ∧ rowId ∈ entry.2 ∨ rest.Holds key rowId := by
  simp [Holds]

/-- A key occurs once. -/
theorem Ordered.eq_of_key
    {group : DiskGroup} {a b : DiskIndexKey × List Nat}
    (h : group.Ordered)
    (ha : a ∈ group)
    (hb : b ∈ group)
    (hkey : a.1 = b.1) :
    a = b := by
  have hnodup : (group.map (·.1)).Nodup :=
    List.pairwise_map.mpr (h.keys.imp DiskIndexKey.Lt.ne)
  exact List.inj_on_of_nodup_map hnodup ha hb hkey

/-- Entering a row adds this row under this key. -/
theorem holds_pushRow
    {group : DiskGroup} {key other : DiskIndexKey} {rowId id : Nat} :
    (group.pushRow key rowId).Holds other id ↔ group.Holds other id ∨ other = key ∧ id = rowId := by
  induction group with
  | nil =>
      simp [pushRow, eq_comm]
  | cons entry rest ih =>
      obtain ⟨key', rowIds⟩ := entry
      rw [pushRow]
      split_ifs with heq hlt
      · simp only [holds_cons, List.mem_append, List.mem_singleton, heq]
        tauto
      · simp only [holds_cons, List.mem_singleton]
        tauto
      · simp only [holds_cons, ih]
        tauto

/-- Entering a row adds its key at most. -/
theorem key_of_mem_pushRow
    {group : DiskGroup} {key : DiskIndexKey} {rowId : Nat} {entry : DiskIndexKey × List Nat}
    (h : entry ∈ group.pushRow key rowId) :
    entry.1 = key ∨ ∃ before ∈ group, before.1 = entry.1 := by
  induction group with
  | nil =>
      rw [List.mem_singleton.mp h]
      exact .inl rfl
  | cons first rest ih =>
      obtain ⟨key', rowIds⟩ := first
      rw [pushRow] at h
      split_ifs at h with heq hlt
      · rcases List.mem_cons.mp h with rfl | h
        · exact .inl heq.symm
        · exact .inr ⟨entry, List.mem_cons_of_mem _ h, rfl⟩
      · rcases List.mem_cons.mp h with rfl | h
        · exact .inl rfl
        · exact .inr ⟨entry, h, rfl⟩
      · rcases List.mem_cons.mp h with rfl | h
        · exact .inr ⟨_, List.mem_cons_self, rfl⟩
        · rcases ih h with hkey | ⟨before, hbefore, hkey⟩
          · exact .inl hkey
          · exact .inr ⟨before, List.mem_cons_of_mem _ hbefore, hkey⟩

/-- Entering a row that is above the rows of its key keeps the order. -/
theorem Ordered.pushRow
    {group : DiskGroup} {key : DiskIndexKey} {rowId : Nat}
    (h : group.Ordered)
    (hlast : ∀ id, group.Holds key id → id < rowId) :
    (group.pushRow key rowId).Ordered := by
  induction group with
  | nil => exact ⟨List.pairwise_singleton _ _, by simp [DiskGroup.pushRow]⟩
  | cons entry rest ih =>
      obtain ⟨key', rowIds⟩ := entry
      obtain ⟨hfirst, hkeys⟩ := List.pairwise_cons.mp h.keys
      obtain ⟨⟨hne, hrows⟩, hothers⟩ := List.forall_mem_cons.mp h.rows
      rw [DiskGroup.pushRow]
      split_ifs with heq hlt
      · refine ⟨List.pairwise_cons.mpr ⟨hfirst, hkeys⟩, ?_⟩
        refine List.forall_mem_cons.mpr ⟨⟨by simp, ?_⟩, hothers⟩
        refine List.pairwise_append.mpr ⟨hrows, List.pairwise_singleton _ _, ?_⟩
        intro id hid last hlast'
        rw [List.mem_singleton.mp hlast']
        exact hlast id (holds_cons.mpr (.inl ⟨heq.symm, hid⟩))
      · refine ⟨List.pairwise_cons.mpr ⟨?_, h.keys⟩, ?_⟩
        · refine List.forall_mem_cons.mpr ⟨hlt, ?_⟩
          exact fun other hother => hlt.trans (hfirst other hother)
        · exact List.forall_mem_cons.mpr ⟨⟨by simp, List.pairwise_singleton _ _⟩, h.rows⟩
      · have hrest := ih ⟨hkeys, hothers⟩ (fun id hid => hlast id (holds_cons.mpr (.inr hid)))
        have hgreater := DiskIndexKey.lt_of_not_lt heq hlt
        refine ⟨List.pairwise_cons.mpr ⟨?_, hrest.keys⟩,
          List.forall_mem_cons.mpr ⟨⟨hne, hrows⟩, hrest.rows⟩⟩
        intro other hother
        rcases key_of_mem_pushRow hother with hkey | ⟨before, hbefore, hkey⟩
        · rw [hkey]
          exact hgreater
        · rw [← hkey]
          exact hfirst before hbefore

/-- Entering a row under its keys. -/
theorem pushRows_spec
    {keys : List DiskIndexKey} {rowId : Nat} {group : DiskGroup}
    (hnodup : keys.Nodup)
    (h : group.Ordered)
    (hlast : ∀ key ∈ keys, ∀ id, group.Holds key id → id < rowId) :
    (keys.foldl (fun group key => group.pushRow key rowId) group).Ordered ∧
      ∀ other id, (keys.foldl (fun group key => group.pushRow key rowId) group).Holds other id ↔
        group.Holds other id ∨ other ∈ keys ∧ id = rowId := by
  induction keys generalizing group with
  | nil => exact ⟨h, by simp⟩
  | cons key keys ih =>
      obtain ⟨hkey, hnodup⟩ := List.nodup_cons.mp hnodup
      obtain ⟨hfirst, hothers⟩ := List.forall_mem_cons.mp hlast
      have hnext : ∀ other ∈ keys, ∀ id, (group.pushRow key rowId).Holds other id →
          id < rowId := by
        intro other hother id hid
        rcases holds_pushRow.mp hid with hid | ⟨rfl, _⟩
        · exact hothers other hother id hid
        · exact absurd hother hkey
      obtain ⟨hordered, hholds⟩ := ih hnodup (h.pushRow hfirst) hnext
      refine ⟨hordered, fun other id => ?_⟩
      rw [List.foldl_cons, hholds, holds_pushRow, List.mem_cons]
      tauto

end DiskGroup

/-! ## The keys of a row -/

theorem nodup_diskKeys
    (row : DiskRow) (kind : IndexKind) :
    (diskKeys row kind).Nodup := by
  cases kind with
  | subject =>
      rw [diskKeys]
      split_ifs with hrelation
      · simp [hrelation]
      · exact List.nodup_singleton _
  | subjectTypeRelation =>
      rw [diskKeys]
      split_ifs with hrelation
      · exact List.nodup_singleton _
      · exact List.nodup_nil
  | _ => exact List.nodup_singleton _

/-- A row of the list has the key, and this is its number. -/
def RowHasKey (rows : List DiskRow) (kind : IndexKind) (key : DiskIndexKey) (rowId : Nat) : Prop :=
  ∃ index row, rows[index]? = some row ∧ key ∈ diskKeys row kind ∧ rowId = index + 1

theorem fillGroup_spec
    {kind : IndexKind} {index : Nat} {rows : List DiskRow} {group : DiskGroup}
    (h : group.Ordered)
    (hlast : ∀ key id, group.Holds key id → id ≤ index) :
    (fillGroup kind index rows group).Ordered ∧
      ∀ key id, (fillGroup kind index rows group).Holds key id ↔
        group.Holds key id ∨ ∃ offset row, rows[offset]? = some row ∧
          key ∈ diskKeys row kind ∧ id = index + offset + 1 := by
  induction rows generalizing index group with
  | nil => exact ⟨h, by simp [fillGroup]⟩
  | cons row rest ih =>
      obtain ⟨hordered, hholds⟩ := DiskGroup.pushRows_spec (nodup_diskKeys row kind) h
        (fun key _ id hid => Nat.lt_succ_of_le (hlast key id hid))
      have hnext : ∀ key id, ((diskKeys row kind).foldl
          (fun group key => group.pushRow key (index + 1)) group).Holds key id →
            id ≤ index + 1 := by
        intro key id hid
        rcases (hholds key id).mp hid with hid | ⟨_, rfl⟩
        · exact Nat.le_succ_of_le (hlast key id hid)
        · exact Nat.le_refl _
      obtain ⟨hresult, hfilled⟩ := ih hordered hnext
      refine ⟨hresult, fun key id => ?_⟩
      rw [fillGroup, hfilled, hholds, or_assoc]
      refine or_congr_right ?_
      constructor
      · rintro (⟨hkey, rfl⟩ | ⟨offset, other, hother, hkey, rfl⟩)
        · exact ⟨0, row, rfl, hkey, rfl⟩
        · exact ⟨offset + 1, other, hother, hkey, by omega⟩
      · rintro ⟨offset, other, hother, hkey, rfl⟩
        cases offset with
        | zero =>
            cases hother
            exact .inl ⟨hkey, rfl⟩
        | succ offset => exact .inr ⟨offset, other, hother, hkey, by omega⟩

/-- The group of an index that is kept lists the rows under their keys. -/
structure GroupOf (rows : List DiskRow) (kind : IndexKind) (kept : Bool) (group : DiskGroup) :
    Prop where
  ordered : group.Ordered
  holds : ∀ key rowId, group.Holds key rowId ↔ kept = true ∧ RowHasKey rows kind key rowId

theorem indexGroup_of
    (indexProfile : IndexProfile) (rows : List DiskRow) (kind : IndexKind) :
    GroupOf rows kind (kindRequired indexProfile kind) (indexGroup indexProfile rows kind) := by
  unfold indexGroup
  split_ifs with hkept
  · obtain ⟨hordered, hholds⟩ := @fillGroup_spec kind 0 rows [] DiskGroup.ordered_nil (by simp)
    refine ⟨hordered, fun key rowId => ?_⟩
    simp [hholds, RowHasKey, hkept]
  · exact ⟨DiskGroup.ordered_nil, fun key rowId => by simp [hkept]⟩

end Snapshot

end SimpleZanzibar
