import SimpleZanzibar.Store.Batches

/-!
# Limited queries of a store view

A limit is spent inside each segment, before the tombstones are taken out.  A limited
query therefore misses the live checkpoint rows that stand behind deleted ones, and it
is complete iff there are none.
-/

namespace SimpleZanzibar

theorem RefsDenote.length_eq
    {refs : List RelationshipRef} {rs : List Relationship}
    (h : RefsDenote refs rs) :
    refs.length = rs.length :=
  List.Forall₂.length_eq h

namespace RelationshipStoreView

/-- The live relationships on a resource and relation. -/
def liveOn (view : RelationshipStoreView) (resource : ObjectRef) (relation : RelationName) :
    Finset Relationship :=
  view.liveSet.filter (OnRelation resource relation)

/-- The checkpoint rows on a resource and relation, deleted rows included. -/
def checkpointOn (view : RelationshipStoreView) (resource : ObjectRef)
    (relation : RelationName) : List Relationship :=
  view.checkpoint.rows.filter (fun r => decide (OnRelation resource relation r))

/-- The inserted rows on a resource and relation. -/
def insertedOn (view : RelationshipStoreView) (resource : ObjectRef)
    (relation : RelationName) : List Relationship :=
  view.insertedRows.filter (fun r => decide (OnRelation resource relation r))

/-- The live checkpoint rows behind the first `n` rows of the resource and relation. -/
def hiddenRows (view : RelationshipStoreView) (resource : ObjectRef) (relation : RelationName)
    (n : Nat) : List Relationship :=
  view.withoutTombstones ((view.checkpointOn resource relation).drop n)

section Limited

variable [StoreHasher] {view : RelationshipStoreView} {resource : ObjectRef}
  {relation : RelationName}

/-- The limit is at least the number of live rows: then each of them is yielded once. -/
def LimitedQueryComplete (view : RelationshipStoreView) (resource : ObjectRef)
    (relation : RelationName) (limit : QueryLimit) : Prop :=
  (view.liveOn resource relation).card ≤ limit.get →
    YieldsOnce (view.resourceRelation resource relation limit) (view.liveOn resource relation)

/-- A scan with room for one row more than the fanout meets that row or has seen every
live one. -/
def ScanComplete (view : RelationshipStoreView) (resource : ObjectRef) (relation : RelationName)
    (maxFanout : Nat) (limit : QueryLimit) : Prop :=
  maxFanout < (view.resourceRelation resource relation limit).length ∨
    YieldsOnce (view.resourceRelation resource relation limit) (view.liveOn resource relation)

/-- What a limited query yields. -/
theorem Inv.refsDenote_limited
    (hinv : view.Inv)
    (resource : ObjectRef) (relation : RelationName) (limit : QueryLimit) :
    RefsDenote (view.resourceRelation resource relation limit)
      ((view.insertedOn resource relation).take limit.get ++
        view.withoutTombstones ((view.checkpointOn resource relation).take limit.get)) :=
  hinv.refsDenote_resourceRelation resource relation limit

omit [StoreHasher] in
theorem mem_liveOn_iff
    {r : Relationship} :
    r ∈ view.liveOn resource relation ↔
      r ∈ view.insertedOn resource relation ∨
        r ∈ view.checkpointOn resource relation ∧ r ∉ view.tombstones :=
  mem_liveSet_filter_iff

theorem Inv.nodup_insertedOn
    (hinv : view.Inv)
    (resource : ObjectRef) (relation : RelationName) :
    (view.insertedOn resource relation).Nodup := by
  have h : (view.insertedOn resource relation ++ view.withoutTombstones []).Nodup :=
    hinv.nodup_segments List.filter_sublist (List.nil_sublist _)
  exact (List.nodup_append.mp h).1

theorem Inv.nodup_checkpointOn
    (hinv : view.Inv)
    (resource : ObjectRef) (relation : RelationName) :
    (view.checkpointOn resource relation).Nodup :=
  hinv.checkpoint.nodup_rows.filter _

/-- A live checkpoint row is not an inserted one. -/
theorem Inv.not_mem_insertedOn
    (hinv : view.Inv)
    {r : Relationship}
    (hr : r ∈ view.checkpointOn resource relation)
    (hlive : r ∉ view.tombstones) :
    r ∉ view.insertedOn resource relation := by
  intro hinserted
  have h : (view.insertedOn resource relation ++
      view.withoutTombstones (view.checkpointOn resource relation)).Nodup :=
    hinv.nodup_segments List.filter_sublist List.filter_sublist
  refine (List.nodup_append.mp h).2.2 r hinserted r ?_ rfl
  exact List.mem_filter.mpr ⟨hr, decide_eq_true hlive⟩

/-- The inserted rows are live. -/
theorem Inv.length_insertedOn_le
    (hinv : view.Inv)
    (resource : ObjectRef) (relation : RelationName) :
    (view.insertedOn resource relation).length ≤ (view.liveOn resource relation).card := by
  rw [← List.toFinset_card_of_nodup (hinv.nodup_insertedOn resource relation)]
  refine Finset.card_le_card (fun r hr => ?_)
  exact mem_liveOn_iff.mpr (Or.inl (List.mem_toFinset.mp hr))

/-- Where the limit leaves room for every inserted row, the query is complete iff no live
row is hidden. -/
theorem Inv.yieldsOnce_limited_iff
    (hinv : view.Inv)
    {limit : QueryLimit}
    (hroom : (view.insertedOn resource relation).length ≤ limit.get) :
    YieldsOnce (view.resourceRelation resource relation limit)
        (view.liveOn resource relation) ↔
      view.hiddenRows resource relation limit.get = [] := by
  have hquery := hinv.refsDenote_limited resource relation limit
  rw [List.take_of_length_le hroom] at hquery
  rw [hinv.yieldsOnce_iff List.filter_sublist
    ((List.take_sublist _ _).trans List.filter_sublist) hquery]
  have hsplit : ∀ r, r ∈ view.checkpointOn resource relation ↔
      r ∈ (view.checkpointOn resource relation).take limit.get ∨
        r ∈ (view.checkpointOn resource relation).drop limit.get := by
    intro r
    rw [← List.mem_append, List.take_append_drop]
  constructor
  · intro h
    apply List.eq_nil_iff_forall_not_mem.mpr
    intro r hr
    obtain ⟨hdrop, hlive⟩ := List.mem_filter.mp hr
    have hlive := of_decide_eq_true hlive
    have hmem := (hsplit r).mpr (Or.inr hdrop)
    rcases (h r).mpr (mem_liveOn_iff.mpr (Or.inr ⟨hmem, hlive⟩)) with hin | ⟨htake, _⟩
    · exact hinv.not_mem_insertedOn hmem hlive hin
    · exact List.disjoint_take_drop (hinv.nodup_checkpointOn resource relation)
        (Nat.le_refl _) htake hdrop
  · intro hnone r
    rw [mem_liveOn_iff]
    refine or_congr_right (and_congr_left (fun hlive => ?_))
    rw [hsplit]
    refine ⟨Or.inl, fun h => h.resolve_right (fun hdrop => ?_)⟩
    have hhidden : r ∈ view.hiddenRows resource relation limit.get :=
      List.mem_filter.mpr ⟨hdrop, decide_eq_true hlive⟩
    rw [hnone] at hhidden
    cases hhidden

/-- A limited query loses no live row iff, where the limit would do, no live row is
hidden. -/
theorem Inv.limitedQueryComplete_iff
    (hinv : view.Inv)
    (resource : ObjectRef) (relation : RelationName) (limit : QueryLimit) :
    view.LimitedQueryComplete resource relation limit ↔
      ((view.liveOn resource relation).card ≤ limit.get →
        view.hiddenRows resource relation limit.get = []) := by
  refine imp_congr_right (fun hcard => ?_)
  exact hinv.yieldsOnce_limited_iff
    ((hinv.length_insertedOn_le resource relation).trans hcard)

/-- The rows that a scan of at most `n` rows of each segment meets. -/
def visibleCount (view : RelationshipStoreView) (resource : ObjectRef) (relation : RelationName)
    (n : Nat) : Nat :=
  (view.insertedOn resource relation).length +
    (view.withoutTombstones ((view.checkpointOn resource relation).take n)).length

/-- A scan meets the row that exceeds the fanout or sees every live row, iff it meets that
row or no live row is hidden. -/
theorem Inv.scanComplete_iff
    (hinv : view.Inv)
    (resource : ObjectRef) (relation : RelationName) {maxFanout : Nat} {limit : QueryLimit}
    (hlimit : limit.get = maxFanout + 1) :
    view.ScanComplete resource relation maxFanout limit ↔
      (maxFanout < view.visibleCount resource relation limit.get ∨
        view.hiddenRows resource relation limit.get = []) := by
  have hlength := (hinv.refsDenote_limited resource relation limit).length_eq
  rw [List.length_append, List.length_take] at hlength
  unfold ScanComplete visibleCount
  rw [hlength]
  by_cases hroom : (view.insertedOn resource relation).length ≤ limit.get
  · rw [hinv.yieldsOnce_limited_iff hroom, Nat.min_eq_right hroom]
  · refine iff_of_true (Or.inl ?_) (Or.inl ?_)
    · omega
    · omega

/-- Without tombstones a scan meets the row that exceeds the fanout or sees every row. -/
theorem Inv.scanComplete_of_no_tombstones
    (hinv : view.Inv)
    (htombstones : view.tombstones = ∅)
    (resource : ObjectRef) (relation : RelationName) {maxFanout : Nat} {limit : QueryLimit}
    (hlimit : limit.get = maxFanout + 1) :
    view.ScanComplete resource relation maxFanout limit := by
  have hall : ∀ rs, view.withoutTombstones rs = rs := by
    intro rs
    unfold withoutTombstones
    rw [htombstones]
    simp
  rw [hinv.scanComplete_iff resource relation hlimit]
  unfold visibleCount hiddenRows
  rw [hall, hall, List.length_take]
  by_cases hlong : limit.get < (view.checkpointOn resource relation).length
  · left
    omega
  · right
    exact List.drop_of_length_le (Nat.le_of_not_lt hlong)

end Limited

end RelationshipStoreView

end SimpleZanzibar
