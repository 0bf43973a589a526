import Mathlib.Algebra.Order.BigOperators.Group.List
import Mathlib.Algebra.Order.Group.Nat
import SimpleZanzibar.Store.Mutations
import SimpleZanzibar.Store.ViewCorrect

/-!
# Atomic batches

A batch that fails leaves the rows and every answer as they were.  What can stay behind is in
the interner: strings that no row uses, and a symbol that was registered for a string that
did not fit; neither is ever found.  The batches that are applied in place cannot stop in the
middle, because the capacity for all their rows and strings is checked first, and the rows
that a compaction copies fit where they came from.

**Results.**
* `Room.intern`: a string of a pool that fits is interned.
* `Measured.compactIfNeeded`: compaction never fails.
* `Measured.applyTouchBatchInPlace`: past the capacity check a batch of touches succeeds.
* `Measured.applyMutations`: what a failed batch leaves.
* `batches_atomic`: over every run the rows are those of the batches that succeeded.
-/

namespace SimpleZanzibar

namespace IdentifierInterner

/-! ## The capacity of the interner -/

/-- The bytes of the strings. -/
def entryBytes (entries : List String) : Nat :=
  (entries.map (fun value => (stringBytes value).length)).sum

/-- The counters of the interner are right and within their width. -/
structure Sized (interner : IdentifierInterner) : Prop where
  count : interner.entries.length ≤ u32Max
  byteLen : interner.byteLen = entryBytes interner.entries
  bytes : interner.byteLen ≤ u32Max

theorem sized_default :
    default.Sized :=
  ⟨Nat.zero_le _, rfl, Nat.zero_le _⟩

theorem Sized.extended
    {i : IdentifierInterner} {value : String}
    (hsized : i.Sized)
    (hcount : i.entries.length < u32Max)
    (hbytes : i.byteLen + (stringBytes value).length ≤ u32Max) :
    (i.extended value).Sized := by
  refine ⟨?_, ?_, hbytes⟩
  · rw [IdentifierInterner.extended, List.length_append, List.length_singleton]
    exact hcount
  · rw [IdentifierInterner.extended, entryBytes, List.map_append, List.sum_append,
      hsized.byteLen]
    simp [entryBytes]

/-- A string is appended iff its bytes fit. -/
theorem push_eq
    (value : String) (i : IdentifierInterner) :
    (i.byteLen + (stringBytes value).length ≤ u32Max ∧
      push value i = (.ok (), extended i value)) ∨
    (u32Max < i.byteLen + (stringBytes value).length ∧
      ∃ error, push value i = (.error error, i)) := by
  unfold push extended
  simp only [Action.bind_apply, Action.get_apply]
  split_ifs with hfull hlong hsum
  · exact Or.inr ⟨by omega, _, rfl⟩
  · exact Or.inr ⟨by omega, _, rfl⟩
  · exact Or.inr ⟨hsum, _, rfl⟩
  · exact Or.inl ⟨by omega, rfl⟩

end IdentifierInterner

theorem SymbolId.fromIndex_ok
    {index : Nat}
    (h : index < u32Max) :
    ∃ id, SymbolId.fromIndex index = .ok id := by
  have hlt : index + 1 < 2 ^ 32 := by
    unfold u32Max at h
    omega
  unfold SymbolId.fromIndex NonZeroU32.ofIndex?
  rw [dif_pos hlt]
  exact ⟨_, rfl⟩

theorem RowId.fromLen_ok
    {len : Nat}
    (h : len < u32Max) :
    ∃ rowId, RowId.fromLen len = .ok rowId := by
  have hlt : len + 1 < 2 ^ 32 := by
    unfold u32Max at h
    omega
  unfold RowId.fromLen NonZeroU32.ofIndex?
  rw [dif_pos hlt]
  exact ⟨_, rfl⟩

theorem SymbolId.index_lt
    (id : SymbolId) :
    id.index < u32Max := by
  have hlt := id.value.lt
  have hpos := id.value.pos
  unfold SymbolId.index NonZeroU32.index u32Max
  omega

theorem RowId.index_lt
    (rowId : RowId) :
    rowId.index < u32Max := by
  have hlt := rowId.value.lt
  have hpos := rowId.value.pos
  unfold RowId.index NonZeroU32.index u32Max
  omega

namespace IdentifierInterner

section Hashed

variable [StoreHasher]

/-- Interning keeps the counters right, also when it fails. -/
theorem Sized.intern
    {i : IdentifierInterner}
    (hinv : i.Inv)
    (hsized : i.Sized)
    (value : String) :
    (IdentifierInterner.intern value).Leaves i (fun _ j => j.Sized) := by
  unfold IdentifierInterner.intern
  apply Action.Leaves.get_bind
  cases hlookup : i.lookup value with
  | some id => exact hsized
  | none =>
      refine Action.Leaves.lift_bind (fun id hid => ?_) (fun _ _ => hsized)
      have hindex := SymbolId.fromIndex_ok_iff.mp hid
      obtain ⟨j, hregister, hentries, hbyteLen, -⟩ := register_fresh hinv hindex hlookup
      have hj : j.Sized :=
        ⟨hentries ▸ hsized.count, by rw [hbyteLen, hentries, hsized.byteLen],
          hbyteLen ▸ hsized.bytes⟩
      unfold Action.Leaves
      rw [Action.bind_apply, hregister]
      simp only
      rw [Action.bind_apply]
      rcases push_eq value j with ⟨hfits, hpush⟩ | ⟨-, error, hpush⟩
      · rw [hpush]
        have hcount := id.index_lt
        exact hj.extended (by rw [hentries]; omega) hfits
      · rw [hpush]
        exact hj

/-- The strings of a pool fit into an interner. -/
structure Fits (pool : List String) : Prop where
  count : pool.length ≤ u32Max
  bytes : entryBytes pool ≤ u32Max

/-- A grown interner all of whose strings are from a pool. -/
structure Room (pool : List String) (interner : IdentifierInterner) : Prop where
  inv : interner.Inv
  unsorted : interner.sortedLookup = []
  sized : interner.Sized
  within : interner.entries ⊆ pool

omit [StoreHasher] in
/-- Distinct strings of a pool take no more than the pool does. -/
theorem entryBytes_le_of_subset
    {entries pool : List String}
    (hnodup : entries.Nodup)
    (hsubset : entries ⊆ pool) :
    entries.length ≤ pool.length ∧ entryBytes entries ≤ entryBytes pool := by
  obtain ⟨entries', hperm, hsublist⟩ := List.subperm_of_subset hnodup hsubset
  constructor
  · rw [← hperm.length_eq]
    exact hsublist.length_le
  · have hsum : entryBytes entries' = entryBytes entries := (hperm.map _).sum_nat
    rw [← hsum]
    exact (hsublist.map _).sum_le_sum (fun _ _ => Nat.zero_le _)

theorem Inv.not_mem_entries
    {i : IdentifierInterner}
    (hinv : i.Inv)
    (hsized : i.Sized)
    {value : String}
    (hnone : i.lookup value = none) :
    value ∉ i.entries := by
  intro hmem
  obtain ⟨n, hn, hvalue⟩ := List.mem_iff_getElem.mp hmem
  obtain ⟨id, hid⟩ := SymbolId.fromIndex_ok (lt_of_lt_of_le hn hsized.count)
  refine hinv.not_mem_of_lookup_none hnone id (resolve_eq_ok_iff.mpr ?_)
  rw [SymbolId.fromIndex_ok_iff.mp hid, List.getElem?_eq_getElem hn, hvalue]

/-- A string of a pool that fits is interned. -/
theorem Room.intern
    {pool : List String} {i : IdentifierInterner}
    (hroom : Room pool i)
    (hfits : Fits pool)
    {value : String}
    (hvalue : value ∈ pool) :
    (IdentifierInterner.intern value).Ensures i (fun _ j => Room pool j) (fun _ => False) := by
  have hkept := hroom.inv.intern_unsorted hroom.unsorted value
  have hsized := hroom.sized.intern hroom.inv value
  have hruns : ∃ id j, IdentifierInterner.intern value i = (.ok id, j) ∧ j.entries ⊆ pool := by
    cases hlookup : i.lookup value with
    | some id =>
        refine ⟨id, i, ?_, hroom.within⟩
        simp [IdentifierInterner.intern, Action.bind_apply, hlookup]
    | none =>
        have hfresh := hroom.inv.not_mem_entries hroom.sized hlookup
        have hnodup : (value :: i.entries).Nodup := List.nodup_cons.mpr ⟨hfresh, hroom.inv.nodup⟩
        have hsubset : value :: i.entries ⊆ pool := List.cons_subset.mpr ⟨hvalue, hroom.within⟩
        obtain ⟨hlength, hbytes⟩ := entryBytes_le_of_subset hnodup hsubset
        rw [List.length_cons] at hlength
        rw [entryBytes, List.map_cons, List.sum_cons, ← entryBytes, ← hroom.sized.byteLen]
          at hbytes
        have hcount := hfits.count
        have htotal := hfits.bytes
        obtain ⟨id, hid⟩ := SymbolId.fromIndex_ok (by omega : i.entries.length < u32Max)
        obtain ⟨j, hregister, hentries, hbyteLen, -⟩ :=
          register_fresh hroom.inv (SymbolId.fromIndex_ok_iff.mp hid) hlookup
        rcases push_eq value j with ⟨-, hpush⟩ | ⟨hlarge, -⟩
        · refine ⟨id, extended j value, ?_, ?_⟩
          · simp [IdentifierInterner.intern, Action.bind_apply, hlookup, hid, hregister, hpush]
          · rw [extended, hentries]
            exact List.append_subset.mpr ⟨hroom.within, by simpa using hvalue⟩
        · rw [hbyteLen] at hlarge
          omega
  obtain ⟨id, j, hrun, hwithin⟩ := hruns
  unfold Action.Leaves at hkept hsized
  rw [hrun] at hkept hsized
  exact Action.Ensures.of_ok hrun ⟨hkept.1, hkept.2.1, hsized, hwithin⟩

end Hashed

end IdentifierInterner

namespace IndexedRelationshipStore

open IdentifierInterner

section Atomic

variable [StoreHasher]

/-! ## What a failure leaves -/

/-- The second store differs from the first at most in a larger interner. -/
def Kept (store store' : IndexedRelationshipStore) : Prop :=
  ∃ interner : IdentifierInterner, interner.Inv ∧ interner.sortedLookup = [] ∧
    interner.Sized ∧ store.interner.entries <+: interner.entries ∧
      store' = { store with interner := interner }

/-- A grown store whose interner counts right. -/
structure Measured (store : IndexedRelationshipStore) : Prop where
  grown : store.Grown
  sized : store.interner.Sized

theorem measured_default :
    default.Measured :=
  ⟨grown_default, sized_default⟩

theorem Measured.kept_self
    {store : IndexedRelationshipStore}
    (hm : store.Measured) :
    Kept store store :=
  ⟨store.interner, hm.grown.writable.inv.interner, hm.grown.unsorted, hm.sized,
    List.prefix_refl _, rfl⟩

theorem Kept.measured
    {store store' : IndexedRelationshipStore}
    (hm : store.Measured)
    (hkept : Kept store store') :
    store'.Measured := by
  obtain ⟨interner, hinv, hsorted, hsized, hextends, rfl⟩ := hkept
  exact ⟨(hm.grown.with_interner hinv hsorted hextends).1, hsized⟩

/-- The interner after the strings of a relationship, also when they do not all fit. -/
theorem fromRelationship_sized
    {i : IdentifierInterner}
    (hinv : i.Inv)
    (hempty : i.sortedLookup = [])
    (hsized : i.Sized)
    (r : Relationship) :
    (RowIdentity.fromRelationship r).Leaves i (fun _ j => j.Sized) := by
  have hkeeps := @fromRelationship_keeps _ (fun j => j.Inv ∧ j.sortedLookup = [] ∧ j.Sized)
    Sized r
    (fun k value hk _ => by
      have hkept := hk.1.intern_unsorted hk.2.1 value
      have hcount := hk.2.2.intern hk.1 value
      exact ⟨fun _ _ => ⟨hkept.1, hkept.2.1, hcount⟩, fun _ _ => hcount⟩)
    i ⟨hinv, hempty, hsized⟩
  refine hkeeps.imp ?_
  rintro (error | row) j ⟨hok, herror⟩
  · exact herror error rfl
  · exact (hok row rfl).2.2

/-- An insertion that fails leaves a larger interner at most. -/
theorem Measured.insert
    {store : IndexedRelationshipStore}
    (hm : store.Measured)
    (r : Relationship) :
    (IndexedRelationshipStore.insert r).Leaves store (fun result store' =>
      store'.interner.Sized ∧ ∀ error, result = .error error → Kept store store') := by
  have hinv := hm.grown.writable.inv.interner
  obtain ⟨index, hready⟩ := hm.grown.writable.ready
  unfold IndexedRelationshipStore.insert
  apply Action.Leaves.get_bind
  refine Action.Leaves.lift_bind (fun rowId _ => ?_) (fun error _ =>
    ⟨hm.sized, fun _ _ => hm.kept_self⟩)
  have hrow : (RowIdentity.fromRelationship r).Leaves store.interner (fun _ j =>
      (j.Inv ∧ j.sortedLookup = [] ∧ store.interner.entries <+: j.entries) ∧ j.Sized) :=
    ⟨fromRelationship_unsorted hinv hm.grown.unsorted r,
      fromRelationship_sized hinv hm.grown.unsorted hm.sized r⟩
  refine Action.Leaves.bind hrow.zoom ?_ ?_
  · rintro row _ ⟨interner, ⟨_, hsized⟩, rfl⟩
    have hready' : ({ store with interner := interner } : IndexedRelationshipStore).uniqueness =
        .ready index := hready
    have hrun := appendRow_apply hready' rowId row
    unfold Action.Leaves
    rw [hrun]
    exact ⟨hsized, fun _ h => (by cases h)⟩
  · rintro error _ ⟨interner, ⟨⟨hi, hsorted, hextends⟩, hsized⟩, rfl⟩
    exact ⟨hsized, fun _ _ => ⟨interner, hi, hsorted, hsized, hextends, rfl⟩⟩

/-- A mutation that fails leaves a larger interner at most. -/
theorem Measured.applySingleMutation
    {store : IndexedRelationshipStore}
    (hm : store.Measured)
    (mutation : RelationshipMutation) :
    (IndexedRelationshipStore.applySingleMutation mutation).Leaves store (fun result store' =>
      store'.Measured ∧ ∀ error, result = .error error → Kept store store') := by
  have hgrown := hm.grown.applySingleMutation mutation
  suffices h : (IndexedRelationshipStore.applySingleMutation mutation).Leaves store
      (fun result store' => store'.interner.Sized ∧
        ∀ error, result = .error error → Kept store store') by
    exact ⟨⟨hgrown.1, h.1⟩, h.2⟩
  have hself : ∀ error : StoreError, store.interner.Sized ∧
      ∀ e, (Except.error error : Except StoreError Unit) = .error e → Kept store store :=
    fun _ => ⟨hm.sized, fun _ _ => hm.kept_self⟩
  cases mutation with
  | create r =>
      apply Action.Leaves.get_bind
      split_ifs
      · exact hself _
      · exact hm.insert r
  | touch r =>
      apply Action.Leaves.get_bind
      split_ifs
      · exact ⟨hm.sized, fun _ h => (by cases h)⟩
      · exact hm.insert r
  | delete r =>
      have hinterner := interner_delete r store
      refine ⟨?_, ?_⟩
      · show (IndexedRelationshipStore.delete r store).2.interner.Sized
        rw [hinterner]
        exact hm.sized
      · intro error herror
        have hrun : (IndexedRelationshipStore.delete r store).1 = .error error := herror
        have habsent : r ∉ store.rows := by
          intro hmem
          obtain ⟨store', hdone, -⟩ := hm.grown.writable.delete hmem
          rw [hdone] at hrun
          cases hrun
        show Kept store (IndexedRelationshipStore.delete r store).2
        rw [hm.grown.delete_absent habsent]
        exact hm.kept_self

/-! ## Insertions that fit -/

/-- The strings of a relationship that are in a pool are interned. -/
theorem fromRelationship_room
    {pool : List String} {i : IdentifierInterner}
    (hroom : Room pool i)
    (hfits : Fits pool)
    {r : Relationship}
    (hvalues : relationshipIdentifierValues r ⊆ pool) :
    ∃ row j, RowIdentity.fromRelationship r i = (.ok row, j) ∧ Room pool j := by
  have hkeeps := @fromRelationship_keeps _ (Room pool) (fun _ => False) r
    (fun k value hk hvalue => by
      rcases (hk.intern hfits (hvalues hvalue)).cases with
        ⟨id, j, hrun, hj⟩ | ⟨_, _, _, h⟩
      · unfold Action.Leaves
        rw [hrun]
        exact ⟨fun _ _ => hj, fun _ h => (by cases h)⟩
      · exact h.elim)
    i hroom
  unfold Action.Leaves at hkeeps
  rcases hrun : RowIdentity.fromRelationship r i with ⟨result, j⟩
  rw [hrun] at hkeeps
  cases result with
  | ok row => exact ⟨row, j, rfl, hkeeps.1 row rfl⟩
  | error error => exact (hkeeps.2 error rfl).elim

/-- What holds after an insertion that fits. -/
structure Inserted (pool : List String) (store : IndexedRelationshipStore) (r : Relationship)
    (store' : IndexedRelationshipStore) : Prop where
  grown : store'.Grown
  room : Room pool store'.interner
  rows : store'.rows = store.rows ++ [r]
  length : store'.rowTable.length = store.rowTable.length + 1

/-- An absent relationship is inserted when its row and its strings fit. -/
theorem Grown.insert_ok
    {store : IndexedRelationshipStore}
    (hg : store.Grown)
    {pool : List String}
    (hroom : Room pool store.interner)
    (hfits : Fits pool)
    {r : Relationship}
    (habsent : r ∉ store.rows)
    (hvalues : relationshipIdentifierValues r ⊆ pool)
    (hlength : store.rowTable.length < u32Max) :
    ∃ store', IndexedRelationshipStore.insert r store = (.ok (), store') ∧
      Inserted pool store r store' := by
  obtain ⟨rowId, hrowId⟩ := RowId.fromLen_ok hlength
  obtain ⟨row, interner, hrow, hroom'⟩ := fromRelationship_room hroom hfits hvalues
  obtain ⟨index, hready⟩ := hg.writable.ready
  have hready' : ({ store with interner := interner } : IndexedRelationshipStore).uniqueness =
      .ready index := hready
  have hrun : IndexedRelationshipStore.insert r store =
      (.ok (), ({ store with interner := interner } : IndexedRelationshipStore).withRow index
        rowId row) := by
    unfold IndexedRelationshipStore.insert interning
    simp [Action.bind_apply, Action.zoom, hrowId, hrow, appendRow_apply hready']
  have hmutated := hg.insert habsent
  unfold Action.Leaves at hmutated
  rw [hrun] at hmutated
  exact ⟨_, hrun, hmutated.1, hroom', hmutated.2, by simp⟩

/-- Before an insertion of relationships all of whose rows and strings fit. -/
structure Fitting (pool : List String) (store : IndexedRelationshipStore)
    (rs : List Relationship) : Prop where
  grown : store.Grown
  room : Room pool store.interner
  values : ∀ r ∈ rs, relationshipIdentifierValues r ⊆ pool
  length : store.rowTable.length + rs.length ≤ u32Max

/-- Distinct absent relationships are inserted when all their rows and strings fit. -/
theorem Fitting.insert_all
    {store : IndexedRelationshipStore} {pool : List String} {rs : List Relationship}
    (h : Fitting pool store rs)
    (hfits : Fits pool)
    (hdistinct : rs.Nodup)
    (habsent : ∀ r ∈ rs, r ∉ store.rows) :
    ∃ store', Action.forEach IndexedRelationshipStore.insert rs store = (.ok (), store') ∧
      store'.Measured ∧ store'.rows = store.rows ++ rs := by
  have hstep : ∀ store r rest, Fitting pool store (r :: rest) → r ∉ store.rows →
      (IndexedRelationshipStore.insert r).Ensures store
        (fun _ store' => Fitting pool store' rest ∧ store'.rows = store.rows ++ [r])
        (fun _ => False) := by
    intro store r rest h hnew
    have hlength := h.length
    rw [List.length_cons] at hlength
    obtain ⟨store', hrun, hinserted⟩ := h.grown.insert_ok h.room hfits hnew
      (h.values r List.mem_cons_self) (by omega)
    refine Action.Ensures.of_ok hrun ⟨⟨hinserted.grown, hinserted.room,
      fun r' hr' => h.values r' (List.mem_cons_of_mem _ hr'), ?_⟩, hinserted.rows⟩
    rw [hinserted.length]
    omega
  obtain ⟨_, store', hrun, hfitting, hrows⟩ :=
    (Action.ensures_forEach_append (Fitting pool) IndexedRelationshipStore.rows hstep h hdistinct
      habsent).exists_ok
  exact ⟨store', hrun, ⟨hfitting.grown, hfitting.room.sized⟩, hrows⟩

/-! ## Compaction -/

omit [StoreHasher] in
/-- The strings of a row's relationship are interned. -/
theorem values_subset_of_denotes
    {i : IdentifierInterner} {row : RowIdentity} {r : Relationship}
    (hd : row.Denotes i r) :
    relationshipIdentifierValues r ⊆ i.entries := by
  have hmem : ∀ {id value}, i.resolve id = .ok value → value ∈ i.entries :=
    fun h => List.mem_of_getElem? (resolve_eq_ok_iff.mp h)
  have hrelation := hd.subjectRelation
  intro value hvalue
  unfold relationshipIdentifierValues at hvalue
  rcases List.mem_append.mp hvalue with hvalue | hvalue
  · simp only [List.mem_cons, List.not_mem_nil, or_false] at hvalue
    rcases hvalue with rfl | rfl | rfl | rfl | rfl
    · exact hmem hd.resourceType
    · exact hmem hd.resourceId
    · exact hmem hd.relation
    · exact hmem hd.subjectType
    · exact hmem hd.subjectId
  · cases hsubject : r.subject with
    | object target =>
        rw [hsubject] at hvalue
        cases hvalue
    | userset target relation =>
        rw [hsubject] at hvalue hrelation
        rw [List.mem_singleton.mp hvalue]
        obtain ⟨id, hid, hresolve⟩ := Option.map_eq_some_iff.mp hrelation
        exact hmem hresolve

theorem Inv.length_rowTable_le
    {store : IndexedRelationshipStore}
    (hinv : store.Inv) :
    store.rowTable.length ≤ u32Max := by
  rcases Nat.eq_zero_or_pos store.rowTable.length with hzero | hpos
  · omega
  · have hbound : store.rowTable.length - 1 < store.rowTable.length := by omega
    have hindex := hinv.rowIds _ _ (List.getElem?_eq_getElem hbound)
    have hlt := store.rowTable[store.rowTable.length - 1].rowId.index_lt
    omega

/-- The live rows and their strings fit where they came from, so that compaction never
fails. -/
theorem Measured.compactIfNeeded
    {store : IndexedRelationshipStore}
    (hm : store.Measured) :
    ∃ store', IndexedRelationshipStore.compactIfNeeded store = (.ok (), store') ∧
      store'.Measured ∧ store'.rows = store.rows := by
  have hinv := hm.grown.writable.inv
  unfold IndexedRelationshipStore.compactIfNeeded
  rw [Action.get_bind_apply]
  split_ifs with hfew
  · exact ⟨store, rfl, hm, rfl⟩
  · have hfits : Fits store.interner.entries :=
      ⟨hm.sized.count, hm.sized.byteLen ▸ hm.sized.bytes⟩
    have hroom : Room store.interner.entries default.interner :=
      ⟨inv_default, rfl, sized_default, List.nil_subset _⟩
    have hvalues : ∀ r ∈ store.rows,
        relationshipIdentifierValues r ⊆ store.interner.entries := by
      intro r hr
      obtain ⟨row, _, _, hd⟩ := hinv.mem_rows_iff.mp hr
      exact values_subset_of_denotes hd
    have hlength : store.rows.length ≤ store.rowTable.length :=
      le_trans (List.length_filterMap_le _ _) (List.length_filter_le _ _)
    have hfitting : Fitting store.interner.entries default store.rows := by
      refine ⟨grown_default, hroom, hvalues, ?_⟩
      have htable := hinv.length_rowTable_le
      show 0 + store.rows.length ≤ u32Max
      omega
    obtain ⟨compacted, hrun, hm', hrows⟩ := hfitting.insert_all hfits hinv.nodup_rows
      (fun r _ hmem => (by cases hmem))
    rw [forEach_insertCompactRowFrom hinv.rowsDenote, hrun]
    exact ⟨compacted, rfl, hm', hrows⟩

/-! ## Batches of touches -/

/-- The relationships of a batch that the store does not have yet. -/
def newRelationships (store : IndexedRelationshipStore)
    (mutations : List RelationshipMutation) : List RelationshipMutation :=
  mutations.filter (fun mutation => !store.containsRelationship mutation.relationship)

/-- The strings of relationships that are not interned yet. -/
def newValues (store : IndexedRelationshipStore) (mutations : List RelationshipMutation) :
    List String :=
  mutations.flatMap (fun mutation =>
    (relationshipIdentifierValues mutation.relationship).filter (fun value =>
      (store.interner.lookup value).isNone))

omit [StoreHasher] in
/-- What the capacity check establishes. -/
theorem ensureInsertCapacity_ok
    {store : IndexedRelationshipStore} {rowCount symbolCount byteCount : Nat}
    (hrows : rowCount ≠ 0)
    (h : store.ensureInsertCapacity rowCount symbolCount byteCount = .ok ()) :
    store.rowTable.length + rowCount ≤ u32Max ∧
      (0 < symbolCount → store.interner.entries.length + symbolCount ≤ u32Max) ∧
      store.interner.byteLen + byteCount ≤ u32Max := by
  have hsum : ∀ {left right total}, checkedAdd left right = some total →
      total = left + right := by
    intro left right total h
    unfold checkedAdd at h
    split at h
    · exact (Option.some.inj h).symm
    · cases h
  unfold ensureInsertCapacity at h
  rw [if_neg hrows] at h
  simp only at h
  split at h
  · next total htotal =>
      obtain ⟨_, hlast, h⟩ := bind_eq_ok.mp h
      cases hlast
      obtain ⟨rowId, hrowId, h⟩ := bind_eq_ok.mp h
      have hrow := rowId.index_lt
      rw [RowId.fromLen_ok_iff.mp hrowId, hsum htotal] at hrow
      refine ⟨by omega, ?_⟩
      split at h
      · next hsymbols =>
          split at h
          · next count hcount =>
              obtain ⟨_, hlast, h⟩ := bind_eq_ok.mp h
              cases hlast
              obtain ⟨id, hid, h⟩ := bind_eq_ok.mp h
              have hsymbol := id.index_lt
              rw [SymbolId.fromIndex_ok_iff.mp hid, hsum hcount] at hsymbol
              have hlen : store.interner.len = store.interner.entries.length := rfl
              refine ⟨fun _ => by omega, ?_⟩
              split at h
              · next bytes hbytes =>
                  rw [← hsum hbytes]
                  split at h
                  · assumption
                  · cases h
              · cases h
          · cases h
      · next hsymbols =>
          refine ⟨fun hpos => (hsymbols hpos).elim, ?_⟩
          split at h
          · next bytes hbytes =>
              rw [← hsum hbytes]
              split at h
              · assumption
              · cases h
          · cases h
  · cases h

/-- A batch that passed the capacity check fits. -/
theorem Measured.fits_newValues
    {store : IndexedRelationshipStore}
    (hm : store.Measured)
    {mutations : List RelationshipMutation}
    (h : store.ensureInsertCapacity (store.newRelationships mutations).length
      (store.newValues (store.newRelationships mutations)).length
      (entryBytes (store.newValues (store.newRelationships mutations))) = .ok ()) :
    Fits (store.interner.entries ++ store.newValues (store.newRelationships mutations)) ∧
      store.rowTable.length + (store.newRelationships mutations).length ≤ u32Max := by
  have hcount := hm.sized.count
  have hbytes := hm.sized.bytes
  have hbyteLen := hm.sized.byteLen
  by_cases hnone : (store.newRelationships mutations).length = 0
  · rw [List.eq_nil_of_length_eq_zero hnone]
    refine ⟨⟨?_, ?_⟩, hm.grown.writable.inv.length_rowTable_le⟩
    · rw [newValues, List.flatMap_nil, List.append_nil]
      exact hcount
    · rw [newValues, List.flatMap_nil, List.append_nil, ← hbyteLen]
      exact hbytes
  · obtain ⟨hrows, hsymbols, htotal⟩ := ensureInsertCapacity_ok hnone h
    refine ⟨⟨?_, ?_⟩, hrows⟩
    · rw [List.length_append]
      rcases Nat.eq_zero_or_pos
          (store.newValues (store.newRelationships mutations)).length with hzero | hpos
      · omega
      · exact hsymbols hpos
    · rw [entryBytes, List.map_append, List.sum_append, ← entryBytes, ← entryBytes, ← hbyteLen]
      exact htotal

/-- Touches of distinct relationships succeed when the new rows and strings fit. -/
theorem Grown.touch_all_ok
    {store : IndexedRelationshipStore}
    (hg : store.Grown)
    {pool : List String}
    (hroom : Room pool store.interner)
    (hfits : Fits pool)
    {mutations : List RelationshipMutation}
    (hdistinct : (mutations.map (·.relationship)).Nodup)
    (hvalues : ∀ mutation ∈ mutations, mutation.relationship ∉ store.rows →
      relationshipIdentifierValues mutation.relationship ⊆ pool)
    (hlength : store.rowTable.length + (store.newRelationships mutations).length ≤ u32Max) :
    ∃ store', Action.forEach (fun mutation : RelationshipMutation =>
        touch mutation.relationship) mutations store = (.ok (), store') ∧
      store'.interner.Sized := by
  induction mutations generalizing store with
  | nil => exact ⟨store, rfl, hroom.sized⟩
  | cons mutation rest ih =>
      rw [List.map_cons] at hdistinct
      obtain ⟨hnot, hrest⟩ := List.nodup_cons.mp hdistinct
      have hcontains := hg.contains_iff mutation.relationship
      by_cases hmem : mutation.relationship ∈ store.rows
      · have htouch : touch mutation.relationship store = (.ok (), store) := by
          unfold touch
          simp [Action.bind_apply, hcontains.mpr hmem]
        have hsame : store.newRelationships (mutation :: rest) = store.newRelationships rest := by
          unfold newRelationships
          rw [List.filter_cons, hcontains.mpr hmem]
          rfl
        rw [hsame] at hlength
        obtain ⟨store', hrun, hsized⟩ := ih hg hroom hrest
          (fun other hother => hvalues other (List.mem_cons_of_mem _ hother)) hlength
        refine ⟨store', ?_, hsized⟩
        rw [Action.forEach, Action.bind_apply, htouch]
        exact hrun
      · have hfalse : store.containsRelationship mutation.relationship = false :=
          Bool.not_eq_true _ ▸ fun h => hmem (hcontains.mp h)
        have hmore : (store.newRelationships (mutation :: rest)).length =
            (store.newRelationships rest).length + 1 := by
          unfold newRelationships
          rw [List.filter_cons, hfalse]
          rfl
        obtain ⟨store', hrun, hinserted⟩ := hg.insert_ok hroom hfits hmem
          (hvalues mutation List.mem_cons_self hmem) (by omega)
        have htouch : touch mutation.relationship store = (.ok (), store') := by
          unfold touch
          rw [Action.get_bind_apply, hfalse]
          exact hrun
        have hsame : store'.newRelationships rest = store.newRelationships rest := by
          unfold newRelationships
          apply List.filter_congr
          intro other hother
          have hne : other.relationship ≠ mutation.relationship := by
            intro heq
            exact hnot (heq ▸ List.mem_map_of_mem hother)
          rw [Bool.not_inj_iff, Bool.eq_iff_iff, hinserted.grown.contains_iff,
            hg.contains_iff, hinserted.rows]
          simp [hne]
        obtain ⟨store'', hrun', hsized⟩ := ih hinserted.grown hinserted.room hrest
          (fun other hother habsent => hvalues other (List.mem_cons_of_mem _ hother)
            (fun h => habsent (by rw [hinserted.rows]; exact List.mem_append_left _ h)))
          (by rw [hsame, hinserted.length]; omega)
        refine ⟨store'', ?_, hsized⟩
        rw [Action.forEach, Action.bind_apply, htouch]
        exact hrun'

/-- Past the capacity check a batch of touches succeeds. -/
theorem Measured.applyTouchBatchInPlace
    {store : IndexedRelationshipStore}
    (hm : store.Measured)
    {mutations : List RelationshipMutation}
    (htouch : mutations.all RelationshipMutation.isTouch = true)
    (hdistinct : (mutations.map (·.relationship)).Nodup) :
    (IndexedRelationshipStore.applyTouchBatchInPlace mutations).Leaves store
      (fun result store' => store'.Measured ∧
        ∀ error, result = .error error → Kept store store') := by
  unfold IndexedRelationshipStore.applyTouchBatchInPlace
  apply Action.Leaves.get_bind
  refine Action.Leaves.lift_bind (fun _ hcapacity => ?_) (fun error _ =>
    ⟨hm, fun _ _ => hm.kept_self⟩)
  obtain ⟨hfits, hlength⟩ := hm.fits_newValues hcapacity
  have hroom : Room (store.interner.entries ++
      store.newValues (store.newRelationships mutations)) store.interner :=
    ⟨hm.grown.writable.inv.interner, hm.grown.unsorted, hm.sized,
      List.subset_append_left _ _⟩
  have hvalues : ∀ mutation ∈ mutations, mutation.relationship ∉ store.rows →
      relationshipIdentifierValues mutation.relationship ⊆
        store.interner.entries ++ store.newValues (store.newRelationships mutations) := by
    intro mutation hmutation habsent value hvalue
    rw [List.mem_append]
    cases hlookup : store.interner.lookup value with
    | some id =>
        exact Or.inl (List.mem_of_getElem?
          (resolve_eq_ok_iff.mp (resolve_of_lookup hlookup)))
    | none =>
        refine Or.inr (List.mem_flatMap.mpr ⟨mutation, List.mem_filter.mpr ⟨hmutation, ?_⟩,
          List.mem_filter.mpr ⟨hvalue, by rw [hlookup]; rfl⟩⟩)
        rw [Bool.not_eq_true', ← Bool.not_eq_true]
        exact fun h => habsent ((hm.grown.contains_iff _).mp h)
  obtain ⟨store', hrun, hsized⟩ :=
    hm.grown.touch_all_ok hroom hfits hdistinct hvalues hlength
  have hgrown := hm.grown.forEach_mutation mutations
  rw [← forEach_touch htouch] at hgrown
  unfold Action.Leaves at hgrown ⊢
  rw [hrun] at hgrown ⊢
  exact ⟨⟨hgrown.1, hsized⟩, fun _ h => (by cases h)⟩

/-! ## Whole batches -/

theorem Measured.forEach_mutation
    {store : IndexedRelationshipStore}
    (hm : store.Measured)
    (mutations : List RelationshipMutation) :
    (Action.forEach IndexedRelationshipStore.applySingleMutation mutations).Leaves store
      (fun _ store' => store'.Measured) := by
  induction mutations generalizing store with
  | nil => exact hm
  | cons mutation rest ih =>
      refine Action.Leaves.bind (hm.applySingleMutation mutation) ?_ (fun _ _ h => h.1)
      rintro ⟨⟩ store' ⟨hm', -⟩
      exact ih hm'

/-- A batch that fails leaves a larger interner at most. -/
theorem Measured.applyMutations
    {store : IndexedRelationshipStore}
    (hm : store.Measured)
    (mutations : List RelationshipMutation) (preconditions : List Precondition) :
    (IndexedRelationshipStore.applyMutations mutations preconditions).Leaves store
      (fun result store' => store'.Measured ∧
        ∀ error, result = .error error → Kept store store') := by
  have hself : ∀ error : StoreError, store.Measured ∧
      ∀ e, (Except.error error : Except StoreError Unit) = .error e → Kept store store :=
    fun _ => ⟨hm, fun _ _ => hm.kept_self⟩
  have hcompact : ∀ {store' : IndexedRelationshipStore}, store'.Measured →
      IndexedRelationshipStore.compactIfNeeded.Leaves store' (fun result store'' =>
        store''.Measured ∧ ∀ error, result = .error error → Kept store store'') := by
    intro store' hm'
    obtain ⟨store'', hrun, hm'', -⟩ := hm'.compactIfNeeded
    unfold Action.Leaves
    rw [hrun]
    exact ⟨hm'', fun _ h => (by cases h)⟩
  unfold IndexedRelationshipStore.applyMutations
  apply Action.Leaves.get_bind
  refine Action.Leaves.lift_bind (fun u hbatch => ?_) (fun error _ => hself error)
  apply hm.grown.ensureUniqueness_first
  refine Action.Leaves.lift_bind (fun u' hdistinct => ?_) (fun error _ => hself error)
  split
  · next mutation =>
      refine Action.Leaves.bind (hm.applySingleMutation mutation) ?_ ?_
      · rintro ⟨⟩ store' ⟨hm', -⟩
        exact hcompact hm'
      · rintro error store' ⟨hm', hkept⟩
        exact ⟨hm', fun _ _ => hkept error rfl⟩
  · split_ifs with htouch
    · have hnodup : (mutations.map (·.relationship)).Nodup := by
        unfold rejectDuplicates at hdistinct
        split at hdistinct
        · cases hdistinct
        · next hfirst =>
            exact ((firstDuplicate_eq_none_iff _ _).mp hfirst).1
      refine Action.Leaves.bind (hm.applyTouchBatchInPlace htouch hnodup) ?_ ?_
      · rintro ⟨⟩ store' ⟨hm', -⟩
        exact hcompact hm'
      · rintro error store' ⟨hm', hkept⟩
        exact ⟨hm', fun _ _ => hkept error rfl⟩
    · apply Action.Leaves.get_bind
      have hcandidate : (do
          Action.forEach IndexedRelationshipStore.applySingleMutation mutations
          IndexedRelationshipStore.compactIfNeeded).Leaves store
            (fun _ store' => store'.Measured) := by
        refine Action.Leaves.bind (hm.forEach_mutation mutations) ?_ (fun _ _ h => h)
        rintro ⟨⟩ store' hm'
        exact (hcompact hm').imp (fun _ _ h => h.1)
      unfold Action.Leaves at hcandidate
      rcases hrun : (do
        Action.forEach IndexedRelationshipStore.applySingleMutation mutations
        IndexedRelationshipStore.compactIfNeeded : Action _ _ _) store with ⟨result, candidate⟩
      rw [hrun] at hcandidate
      cases result with
      | ok _ => exact ⟨hcandidate, fun _ h => (by cases h)⟩
      | error error => exact hself error

/-! ## Answers -/

omit [StoreHasher] in
/-- What a reader sees of an answer: the row and the relationship it is materialised to. -/
def shown (ref : RelationshipRef) : RelationshipRow × Option Relationship :=
  (ref.row, (ref.store.relationshipFromRow ref.row.identity).toOption)

/-- The second store gives the answers of the first. -/
structure SameAnswers (store store' : IndexedRelationshipStore) : Prop where
  rows : store'.rows = store.rows
  contains : ∀ r, store'.containsRelationship r = store.containsRelationship r
  query : ∀ filter,
    (store'.queryCompactRelationships filter).map shown =
      (store.queryCompactRelationships filter).map shown
  reverseQuery : ∀ filter,
    (store'.reverseQueryCompactRelationships filter).map shown =
      (store.reverseQueryCompactRelationships filter).map shown
  resourceRelation : ∀ resource relation limit,
    (store'.resourceRelation resource relation limit).map shown =
      (store.resourceRelation resource relation limit).map shown
  resourceRelationSubject : ∀ resource relation subject,
    (store'.resourceRelationSubject resource relation subject).map shown =
      (store.resourceRelationSubject resource relation subject).map shown
  anyResourceMatch : ∀ filter, store'.anyResourceMatch filter = store.anyResourceMatch filter
  hasSubjectCandidates : ∀ filter,
    store'.hasSubjectCandidates filter = store.hasSubjectCandidates filter

/-- Live rows with the same fields are one row. -/
theorem Inv.row_unique
    {store : IndexedRelationshipStore}
    (hinv : store.Inv)
    {row row' : RelationshipRow}
    (hrow : row ∈ store.liveRowTable)
    (hrow' : row' ∈ store.liveRowTable)
    (hidentity : row.identity = row'.identity) :
    row = row' := by
  obtain ⟨hmem, hlive⟩ := List.mem_filter.mp hrow
  obtain ⟨hmem', hlive'⟩ := List.mem_filter.mp hrow'
  have hget := hinv.getElem?_rowId hmem
  have hget' := hinv.getElem?_rowId hmem'
  have hid := hinv.unique _ _ hlive hlive' row row' hget hget' hidentity
  rw [hid, hget'] at hget
  exact (Option.some.inj hget).symm

/-- The references for a list of relationships are the same rows in both stores. -/
theorem Yields.shown_eq
    {store store' : IndexedRelationshipStore}
    (hinv : store.Inv)
    (hinv' : store'.Inv)
    (hextends : store.interner.entries <+: store'.interner.entries)
    (hlive : store'.liveRowTable = store.liveRowTable)
    {refs refs' : List RelationshipRef} {rs : List Relationship}
    (h : store.Yields refs rs)
    (h' : store'.Yields refs' rs) :
    refs'.map shown = refs.map shown := by
  obtain ⟨table, rfl, hmem, hd⟩ := h
  obtain ⟨table', rfl, hmem', hd'⟩ := h'
  induction hd generalizing table' with
  | nil =>
      cases hd'
      rfl
  | @cons row r rest rs hrow hrest ih =>
      cases hd' with
      | @cons row' _ rest' _ hrow' hrest' =>
          have hsame : row = row' := by
            refine hinv.row_unique (hmem row List.mem_cons_self)
              (hlive ▸ hmem' row' List.mem_cons_self) ?_
            exact (hrow.of_extends hextends).row_unique hinv'.interner hrow'
          subst hsame
          have hheads : shown ⟨store', row⟩ = shown ⟨store, row⟩ := by
            simp only [shown, relationshipFromRow_ok_iff.mpr hrow,
              relationshipFromRow_ok_iff.mpr hrow']
          have htails := ih (fun other hother => hmem other (List.mem_cons_of_mem _ hother))
            rest' (fun other hother => hmem' other (List.mem_cons_of_mem _ hother)) hrest'
          rw [List.map_cons, List.map_cons, List.map_cons, List.map_cons, hheads, htails]

/-- Some row, live or not, has a subject that the filter matches. -/
theorem Inv.hasSubjectCandidates_iff
    {store : IndexedRelationshipStore}
    (hinv : store.Inv)
    (hfull : store.indexProfile = .full)
    (filter : SubjectFilter) :
    store.hasSubjectCandidates filter = true ↔
      ∃ row ∈ store.rowTable, ∃ r, row.identity.Denotes store.interner r ∧
        filter.Matches r.subject := by
  unfold IndexedRelationshipStore.hasSubjectCandidates
  cases hmatcher : store.subjectMatcher filter with
  | none =>
      constructor
      · intro h
        cases h
      · rintro ⟨row, _, r, hd, hmatch⟩
        exact ((subjectMatcher_matches hinv.interner filter hd).2 hmatcher hmatch).elim
  | some matcher =>
      simp only
      rw [hinv.subjectCandidates hfull, Bool.not_eq_true', List.isEmpty_eq_false_iff_exists_mem]
      constructor
      · rintro ⟨rowId, hrowId⟩
        obtain ⟨row, hrow, -⟩ := List.mem_map.mp hrowId
        obtain ⟨hmem, hmatch⟩ := List.mem_filter.mp hrow
        obtain ⟨r, hd⟩ := hinv.denotes row hmem
        exact ⟨row, hmem, r, hd,
          ((subjectMatcher_matches hinv.interner filter hd).1 matcher hmatcher).mp hmatch⟩
      · rintro ⟨row, hmem, r, hd, hmatch⟩
        exact ⟨row.rowId, List.mem_map_of_mem (List.mem_filter.mpr ⟨hmem,
          ((subjectMatcher_matches hinv.interner filter hd).1 matcher hmatcher).mpr hmatch⟩)⟩

/-- A larger interner changes no answer. -/
theorem Kept.sameAnswers
    {store store' : IndexedRelationshipStore}
    (hm : store.Measured)
    (hkept : Kept store store') :
    SameAnswers store store' := by
  have hm' := hkept.measured hm
  obtain ⟨interner, hinterner, hsorted, -, hextends, rfl⟩ := hkept
  have hinv := hm.grown.writable.inv
  have hinv' := hm'.grown.writable.inv
  have hfull := hm.grown.writable.profile
  have hrows := (hm.grown.with_interner hinterner hsorted hextends).2
  have hquery : ∀ filter : RelationshipFilter,
      (({ store with interner := interner } : IndexedRelationshipStore).queryCompactRelationships
        filter).map shown = (store.queryCompactRelationships filter).map shown := by
    intro filter
    have h' := hinv'.query filter (Or.inl hfull)
    rw [hrows] at h'
    exact Yields.shown_eq hinv hinv' hextends rfl (hinv.query filter (Or.inl hfull)) h'
  refine ⟨hrows, ?_, hquery, ?_, ?_, ?_, ?_, ?_⟩
  · intro r
    rw [Bool.eq_iff_iff, hm'.grown.contains_iff, hm.grown.contains_iff, hrows]
  · intro filter
    have h' := hinv'.reverseQuery hfull filter
    rw [hrows] at h'
    exact Yields.shown_eq hinv hinv' hextends rfl (hinv.reverseQuery hfull filter) h'
  · intro resource relation limit
    rw [resourceRelation_eq_query, resourceRelation_eq_query]
    exact hquery _
  · intro resource relation subject
    rw [resourceRelationSubject_eq_query, resourceRelationSubject_eq_query]
    exact hquery _
  · intro filter
    have hlength := congrArg List.isEmpty (hquery filter)
    rw [List.isEmpty_map, List.isEmpty_map] at hlength
    unfold IndexedRelationshipStore.anyResourceMatch
    rw [hlength]
  · intro filter
    rw [Bool.eq_iff_iff, hinv'.hasSubjectCandidates_iff hfull,
      hinv.hasSubjectCandidates_iff hfull]
    constructor
    · rintro ⟨row, hmem, r, hd, hmatch⟩
      obtain ⟨r', hd'⟩ := hinv.denotes row hmem
      exact ⟨row, hmem, r', hd', (hd.unique (hd'.of_extends hextends)) ▸ hmatch⟩
    · rintro ⟨row, hmem, r, hd, hmatch⟩
      exact ⟨row, hmem, r, hd.of_extends hextends, hmatch⟩

/-! ## Runs -/

omit [StoreHasher] in
/-- The mutations of the calls that succeeded. -/
def succeeded : List MutationCall → List (Except StoreError Unit) → List RelationshipMutation
  | call :: calls, .ok () :: results => call.mutations ++ succeeded calls results
  | _ :: calls, .error _ :: results => succeeded calls results
  | _, _ => []

/-- A run performs the calls that succeeded, and only these. -/
theorem Measured.runCalls
    {store : IndexedRelationshipStore}
    (hm : store.Measured)
    (calls : List MutationCall) :
    (IndexedRelationshipStore.runCalls calls store).2.Measured ∧
      (IndexedRelationshipStore.runCalls calls store).2.rows =
        (succeeded calls (IndexedRelationshipStore.runCalls calls store).1).foldl scanMutation
          store.rows := by
  induction calls generalizing store with
  | nil => exact ⟨hm, rfl⟩
  | cons call rest ih =>
      have hcall := hm.applyMutations call.mutations call.preconditions
      have hgrown := hm.grown.applyMutations call.mutations call.preconditions
      unfold Action.Leaves at hcall hgrown
      unfold IndexedRelationshipStore.runCalls
      rcases hrun : IndexedRelationshipStore.applyMutations call.mutations
        call.preconditions store with ⟨result, store'⟩
      rw [hrun] at hcall hgrown
      obtain ⟨hfinal, hrows⟩ := ih hcall.1
      refine ⟨hfinal, hrows.trans ?_⟩
      cases result with
      | ok u =>
          obtain ⟨performed, -, hperformed, -, hall⟩ := hgrown
          rw [hperformed, hall rfl]
          exact (List.foldl_append).symm
      | error error =>
          rw [((hcall.2 error rfl).sameAnswers hm).rows]
          rfl

/-- In every store that calls lead to, the rows, in the order of their insertion, are those
that the successful calls lead to, and the queries and the membership test read them; a call
that fails leaves every answer as it was; and compaction succeeds whatever mutations were
applied before it. -/
theorem batches_atomic
    (calls : List MutationCall) :
    let (results, store) := IndexedRelationshipStore.runCalls calls default
    (store.rows = (succeeded calls results).foldl scanMutation [] ∧
      (∀ filter : RelationshipFilter, store.Yields (store.queryCompactRelationships filter)
        ((store.rows.filter (fun r => decide (filter.Matches r))).take filter.limit.get)) ∧
      (∀ filter : SubjectFilter, store.Yields (store.reverseQueryCompactRelationships filter)
        (store.rows.filter (fun r => decide (filter.Matches r.subject)))) ∧
      ∀ r, store.containsRelationship r = true ↔ r ∈ store.rows) ∧
    (∀ mutations preconditions error store',
      IndexedRelationshipStore.applyMutations mutations preconditions store =
        (.error error, store') → SameAnswers store store') ∧
    ∀ mutations store',
      Action.forEach IndexedRelationshipStore.applySingleMutation mutations store =
        (.ok (), store') →
      ∃ compacted, IndexedRelationshipStore.compactIfNeeded store' = (.ok (), compacted) ∧
        compacted.rows = store'.rows := by
  obtain ⟨hm, hrows⟩ := measured_default.runCalls calls
  have hinv := hm.grown.writable.inv
  have hfull := hm.grown.writable.profile
  refine ⟨⟨hrows, fun filter => hinv.query filter (Or.inl hfull), hinv.reverseQuery hfull,
    hm.grown.contains_iff⟩, ?_, ?_⟩
  · intro mutations preconditions error store' hrun
    have hcall := hm.applyMutations mutations preconditions
    unfold Action.Leaves at hcall
    rw [hrun] at hcall
    exact (hcall.2 error rfl).sameAnswers hm
  · intro mutations store' hrun
    have hmutated := hm.forEach_mutation mutations
    unfold Action.Leaves at hmutated
    rw [hrun] at hmutated
    obtain ⟨compacted, hcompact, -, hsame⟩ := Measured.compactIfNeeded hmutated
    exact ⟨compacted, hcompact, hsame⟩

end Atomic

end IndexedRelationshipStore

end SimpleZanzibar
