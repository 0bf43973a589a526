import Mathlib.Data.List.Perm.Basic
import SimpleZanzibar.Store.Interner

/-!
# Rows and the relationship identity index

A row is compared and hashed by its interned fields, not by its row id.  The
identity index finds the live row that equals a given one: one row id per hash in
a primary map, the others in collision lists.

**Results.**
* `runAll_refines_map`: over the calls of a store the index is a finite map from rows to ids,
  whatever the hash function is.
-/

namespace SimpleZanzibar

structure RelationshipRow where
  rowId : RowId
  identity : RowIdentity

structure RelationshipIdentityIndex where
  primary : AList (fun _ : UInt64 => RowId)
  hashCollisions : AList (fun _ : UInt64 => List RowId)

inductive UniquenessState where
  | ready (index : RelationshipIdentityIndex)
  | knownUniqueButNotIndexed
  | untrustedNotIndexed

/-- `Vec::swap_remove`: the last element takes the place of the removed one. -/
def swapRemove {α : Type} (items : List α) (index : Nat) : List α :=
  match items.getLast? with
  | some last => (items.set index last).dropLast
  | none => items

namespace RelationshipIdentityIndex

/-- The row with that id has these fields. -/
def denotes (rows : List RelationshipRow) (row : RowIdentity) (rowId : RowId) : Bool :=
  rows[rowId.index]?.any (fun candidate => candidate.identity == row)

def default : RelationshipIdentityIndex :=
  ⟨∅, ∅⟩

section Hashed

variable [StoreHasher]

def find (index : RelationshipIdentityIndex) (rows : List RelationshipRow)
    (row : RowIdentity) : Option RowId :=
  match (index.primary.lookup (identityHash row)).filter (denotes rows row) with
  | some rowId => some rowId
  | none =>
      (index.hashCollisions.lookup (identityHash row)).bind
        (fun rowIds => rowIds.find? (denotes rows row))

def insert (index : RelationshipIdentityIndex) (rows : List RelationshipRow)
    (rowId : RowId) (row : RowIdentity) : RelationshipIdentityIndex :=
  match index.primary.lookup (identityHash row) with
  | some existing =>
      if rows[existing.index]?.any (fun candidate => candidate.identity != row) then
        { index with
          hashCollisions := index.hashCollisions.insert (identityHash row)
            ((index.hashCollisions.lookup (identityHash row)).getD [] ++ [rowId]) }
      else index
  | none => { index with primary := index.primary.insert (identityHash row) rowId }

/-- Stores a collision list, or drops its entry when it became empty. -/
def setCollisions (index : RelationshipIdentityIndex) (hash : UInt64)
    (rowIds : List RowId) : RelationshipIdentityIndex :=
  { index with
    hashCollisions :=
      if rowIds.isEmpty then index.hashCollisions.erase hash
      else index.hashCollisions.insert hash rowIds }

/-- Removes the primary entry of a hash and promotes its last collision. -/
def removePrimary (index : RelationshipIdentityIndex) (hash : UInt64) :
    RelationshipIdentityIndex :=
  let removed := { index with primary := index.primary.erase hash }
  match index.hashCollisions.lookup hash with
  | none => removed
  | some rowIds =>
      match rowIds.getLast? with
      | none => removed
      | some promoted =>
          { removed with primary := removed.primary.insert hash promoted }.setCollisions
            hash rowIds.dropLast

def remove (index : RelationshipIdentityIndex) (rows : List RelationshipRow)
    (row : RowIdentity) : Option RowId × RelationshipIdentityIndex :=
  match (index.primary.lookup (identityHash row)).filter (denotes rows row) with
  | some rowId => (some rowId, index.removePrimary (identityHash row))
  | none =>
      match index.hashCollisions.lookup (identityHash row) with
      | none => (none, index)
      | some rowIds =>
          match rowIds.findIdx? (denotes rows row) with
          | none => (none, index)
          | some position =>
              (rowIds[position]?,
                index.setCollisions (identityHash row) (swapRemove rowIds position))

end Hashed

/-- The row ids entered under a hash. -/
def entries (index : RelationshipIdentityIndex) (hash : UInt64) : List RowId :=
  (index.primary.lookup hash).toList ++ (index.hashCollisions.lookup hash).getD []

@[simp] theorem denotes_iff
    {rows : List RelationshipRow} {row : RowIdentity} {rowId : RowId} :
    denotes rows row rowId = true ↔
      ∃ candidate, rows[rowId.index]? = some candidate ∧ candidate.identity = row := by
  unfold denotes
  cases rows[rowId.index]? with
  | none =>
      simp
  | some candidate =>
      simp

/-- Swapping out a position removes that element and no other. -/
theorem cons_swapRemove_perm
    {α : Type} {items : List α} {index : Nat} {item : α}
    (hitem : items[index]? = some item) :
    (item :: swapRemove items index).Perm items := by
  obtain ⟨hlt, hget⟩ := List.getElem?_eq_some_iff.mp hitem
  have hperm : (swapRemove items index).Perm (items.eraseIdx index) := by
    unfold swapRemove
    rcases List.eq_nil_or_concat items with rfl | ⟨init, last, hitems⟩
    · cases hlt
    · rw [List.concat_eq_append] at hitems
      subst hitems
      rw [List.getLast?_append, List.getLast?_singleton, Option.some_or]
      simp only
      rw [List.length_append, List.length_singleton] at hlt
      by_cases hlast : index < init.length
      · rw [List.set_append_left _ _ hlast, List.dropLast_concat,
          List.eraseIdx_append_of_lt_length hlast]
        exact (List.set_perm_cons_eraseIdx hlast last).trans
          (List.perm_append_singleton last _).symm
      · have heq : index = init.length := by omega
        subst heq
        rw [List.set_append_right _ _ (le_refl _), Nat.sub_self, List.set_cons_zero,
          List.dropLast_concat, List.eraseIdx_append_of_length_le (le_refl _)]
        simp
  subst hget
  exact (hperm.cons _).trans (List.getElem_cons_eraseIdx_perm hlt)

@[simp] theorem entries_setCollisions
    (index : RelationshipIdentityIndex) (hash hash' : UInt64) (rowIds : List RowId) :
    (index.setCollisions hash rowIds).entries hash' =
      if hash' = hash then (index.primary.lookup hash).toList ++ rowIds
      else index.entries hash' := by
  unfold entries setCollisions
  by_cases heq : hash' = hash
  · subst heq
    rw [if_pos rfl]
    cases rowIds with
    | nil =>
        simp
    | cons rowId rest =>
        simp
  · rw [if_neg heq]
    cases rowIds with
    | nil =>
        simp [AList.lookup_erase_ne heq]
    | cons rowId rest =>
        simp [AList.lookup_insert_ne heq]

/-- Removing the primary entry removes it from the entries of its hash only. -/
theorem entries_removePrimary
    {index : RelationshipIdentityIndex} {hash : UInt64} {rowId : RowId}
    (hprimary : index.primary.lookup hash = some rowId) :
    (rowId :: (index.removePrimary hash).entries hash).Perm (index.entries hash) ∧
      ∀ hash', hash' ≠ hash →
        (index.removePrimary hash).entries hash' = index.entries hash' := by
  unfold removePrimary
  cases hcollisions : index.hashCollisions.lookup hash with
  | none =>
      constructor
      · simp [entries, hprimary, hcollisions]
      · intro hash' hne
        simp [entries, AList.lookup_erase_ne hne]
  | some rowIds =>
      simp only
      rcases List.eq_nil_or_concat rowIds with rfl | ⟨init, last, hids⟩
      · constructor
        · simp [entries, hprimary, hcollisions]
        · intro hash' hne
          simp [entries, AList.lookup_erase_ne hne]
      · rw [List.concat_eq_append] at hids
        subst hids
        rw [List.getLast?_append, List.getLast?_singleton, Option.some_or]
        simp only [List.dropLast_concat, entries_setCollisions]
        constructor
        · rw [if_pos trivial, AList.lookup_insert]
          simp only [entries, hprimary, hcollisions, Option.toList_some, Option.getD_some,
            List.singleton_append]
          exact ((List.perm_append_singleton last init).symm).cons rowId
        · intro hash' hne
          rw [if_neg hne]
          simp [entries, AList.lookup_insert_ne hne, AList.lookup_erase_ne hne]

section Laws

variable [StoreHasher]

/-- The index holds exactly the live rows, each once, under their hashes, and live
rows have distinct fields. -/
structure Inv (index : RelationshipIdentityIndex) (rows : List RelationshipRow)
    (live : RowId → Prop) : Prop where
  mem_iff : ∀ hash rowId, rowId ∈ index.entries hash ↔
    live rowId ∧ ∃ row, rows[rowId.index]? = some row ∧ identityHash row.identity = hash
  nodup : ∀ hash, (index.entries hash).Nodup
  bounded : ∀ rowId, live rowId → rowId.index < rows.length
  unique : ∀ a b, live a → live b → ∀ row row', rows[a.index]? = some row →
    rows[b.index]? = some row' → row.identity = row'.identity → a = b

/-- Searching scans the entries of the hash. -/
theorem find_eq
    (index : RelationshipIdentityIndex) (rows : List RelationshipRow) (row : RowIdentity) :
    index.find rows row = (index.entries (identityHash row)).find? (denotes rows row) := by
  unfold find entries
  rw [List.find?_append]
  cases index.primary.lookup (identityHash row) with
  | none =>
      cases index.hashCollisions.lookup (identityHash row) with
      | none =>
          rfl
      | some rowIds =>
          rfl
  | some rowId =>
      rw [Option.filter_some]
      by_cases hdenotes : denotes rows row rowId = true
      · simp [hdenotes]
      · simp only [if_neg hdenotes, Option.toList_some, List.find?_cons_of_neg hdenotes,
          List.find?_nil, Option.none_or]
        cases index.hashCollisions.lookup (identityHash row) with
        | none =>
            rfl
        | some rowIds =>
            rfl

/-- Searching returns the live row with the given fields. -/
theorem Inv.find_iff
    {index : RelationshipIdentityIndex} {rows : List RelationshipRow} {live : RowId → Prop}
    (hinv : index.Inv rows live)
    {row : RowIdentity} {rowId : RowId} :
    index.find rows row = some rowId ↔
      live rowId ∧ ∃ candidate, rows[rowId.index]? = some candidate ∧
        candidate.identity = row := by
  rw [find_eq]
  constructor
  · intro hfind
    have hmem := (hinv.mem_iff _ _).mp (List.mem_of_find?_eq_some hfind)
    exact ⟨hmem.1, denotes_iff.mp (List.find?_some hfind)⟩
  · rintro ⟨hlive, candidate, hcandidate, hrow⟩
    have hmem : rowId ∈ index.entries (identityHash row) :=
      (hinv.mem_iff _ _).mpr ⟨hlive, candidate, hcandidate, by rw [hrow]⟩
    have hsome : ((index.entries (identityHash row)).find? (denotes rows row)).isSome :=
      List.find?_isSome.mpr ⟨rowId, hmem, denotes_iff.mpr ⟨candidate, hcandidate, hrow⟩⟩
    obtain ⟨found, hfound⟩ := Option.isSome_iff_exists.mp hsome
    have hfoundLive := ((hinv.mem_iff _ _).mp (List.mem_of_find?_eq_some hfound)).1
    obtain ⟨other, hother, hotherRow⟩ := denotes_iff.mp (List.find?_some hfound)
    rw [hfound, hinv.unique found rowId hfoundLive hlive other candidate hother hcandidate
      (hotherRow.trans hrow.symm)]

/-- Entering a row that equals none of the present ones adds it to its hash only. -/
theorem Inv.entries_insert
    {index : RelationshipIdentityIndex} {rows : List RelationshipRow} {live : RowId → Prop}
    (hinv : index.Inv rows live)
    {row : RowIdentity} (rowId : RowId)
    (habsent : index.find rows row = none) :
    ((index.insert rows rowId row).entries (identityHash row)).Perm
        (rowId :: index.entries (identityHash row)) ∧
      ∀ hash', hash' ≠ identityHash row →
        (index.insert rows rowId row).entries hash' = index.entries hash' := by
  unfold insert
  cases hprimary : index.primary.lookup (identityHash row) with
  | none =>
      constructor
      · simp [entries, hprimary]
      · intro hash' hne
        simp [entries, AList.lookup_insert_ne hne]
  | some existing =>
      have hmem : existing ∈ index.entries (identityHash row) := by
        simp [entries, hprimary]
      obtain ⟨hlive, candidate, hcandidate, _⟩ := (hinv.mem_iff _ _).mp hmem
      have hdifferent : candidate.identity ≠ row := by
        intro heq
        rw [hinv.find_iff.mpr ⟨hlive, candidate, hcandidate, heq⟩] at habsent
        cases habsent
      simp only [hcandidate, Option.any_some, bne_iff_ne, ne_eq, hdifferent, not_false_eq_true,
        if_true]
      constructor
      · simp only [entries, hprimary, AList.lookup_insert, Option.toList_some,
          Option.getD_some, List.singleton_append]
        rw [← List.cons_append]
        exact List.perm_append_singleton rowId _
      · intro hash' hne
        simp [entries, AList.lookup_insert_ne hne]

/-- Removing a row removes the entry that a search finds, and no other. -/
theorem entries_remove
    {index : RelationshipIdentityIndex} {rows : List RelationshipRow}
    {row : RowIdentity} {rowId : RowId}
    (hfind : index.find rows row = some rowId) :
    (index.remove rows row).1 = some rowId ∧
      (rowId :: (index.remove rows row).2.entries (identityHash row)).Perm
        (index.entries (identityHash row)) ∧
      ∀ hash', hash' ≠ identityHash row →
        (index.remove rows row).2.entries hash' = index.entries hash' := by
  unfold find at hfind
  unfold remove
  cases hprimary : (index.primary.lookup (identityHash row)).filter (denotes rows row) with
  | some primary =>
      rw [hprimary] at hfind
      cases hfind
      exact ⟨rfl, entries_removePrimary (Option.filter_eq_some_iff.mp hprimary).1⟩
  | none =>
      rw [hprimary] at hfind
      obtain ⟨rowIds, hids, hfound⟩ := Option.bind_eq_some_iff.mp hfind
      have hposition : ∃ position, rowIds.findIdx? (denotes rows row) = some position ∧
          rowIds[position]? = some rowId := by
        have hbind := @List.find?_eq_bind_findIdx?_getElem? _ rowIds (denotes rows row)
        rw [hfound] at hbind
        obtain ⟨position, h1, h2⟩ := Option.bind_eq_some_iff.mp hbind.symm
        exact ⟨position, h1, h2⟩
      obtain ⟨position, hidx, hget⟩ := hposition
      simp only [hids, hidx, entries_setCollisions]
      refine ⟨hget, ?_, ?_⟩
      · rw [if_pos trivial]
        simp only [entries, hids, Option.getD_some]
        refine List.perm_middle.symm.trans ?_
        exact (cons_swapRemove_perm hget).append_left _
      · intro hash' hne
        rw [if_neg hne]

theorem inv_default
    (rows : List RelationshipRow) :
    default.Inv rows (fun _ => False) := by
  constructor
  · intro hash rowId
    simp [entries, default]
  · intro hash
    exact List.nodup_nil
  · intro rowId h
    exact h.elim
  · intro a b h
    exact h.elim

/-- Entering an absent row keeps the invariant, for rows in which it has its place. -/
theorem Inv.insert_at
    {index : RelationshipIdentityIndex} {rows rows' : List RelationshipRow}
    {live : RowId → Prop}
    (hinv : index.Inv rows live)
    {row : RowIdentity} {rowId : RowId} {placed : RelationshipRow}
    (hold : ∀ id, live id → rows'[id.index]? = rows[id.index]?)
    (hnew : rows'[rowId.index]? = some placed)
    (hplaced : placed.identity = row)
    (hnotLive : ¬ live rowId)
    (habsent : index.find rows row = none) :
    (index.insert rows rowId row).Inv rows' (fun id => id = rowId ∨ live id) := by
  obtain ⟨hperm, hother⟩ := hinv.entries_insert rowId habsent
  have hnoEqual : ∀ id candidate, live id → rows[id.index]? = some candidate →
      candidate.identity ≠ row := by
    intro id candidate hlive hcandidate heq
    rw [hinv.find_iff.mpr ⟨hlive, candidate, hcandidate, heq⟩] at habsent
    cases habsent
  constructor
  · intro hash id
    have hentries : id ∈ (index.insert rows rowId row).entries hash ↔
        id ∈ index.entries hash ∨ hash = identityHash row ∧ id = rowId := by
      by_cases heq : hash = identityHash row
      · subst heq
        rw [hperm.mem_iff, List.mem_cons]
        tauto
      · rw [hother hash heq]
        tauto
    rw [hentries, hinv.mem_iff]
    constructor
    · rintro (⟨hlive, candidate, hcandidate, hhash⟩ | ⟨rfl, rfl⟩)
      · exact ⟨Or.inr hlive, candidate, (hold id hlive).trans hcandidate, hhash⟩
      · exact ⟨Or.inl rfl, placed, hnew, by rw [hplaced]⟩
    · rintro ⟨rfl | hlive, candidate, hcandidate, hhash⟩
      · rw [hnew] at hcandidate
        cases hcandidate
        exact Or.inr ⟨hhash.symm.trans (by rw [hplaced]), rfl⟩
      · exact Or.inl ⟨hlive, candidate, (hold id hlive).symm.trans hcandidate, hhash⟩
  · intro hash
    by_cases heq : hash = identityHash row
    · subst heq
      rw [hperm.nodup_iff, List.nodup_cons, hinv.mem_iff]
      exact ⟨fun h => hnotLive h.1, hinv.nodup _⟩
    · rw [hother hash heq]
      exact hinv.nodup hash
  · rintro id (rfl | hlive)
    · exact (List.getElem?_eq_some_iff.mp hnew).1
    · obtain ⟨row', hrow'⟩ : ∃ row', rows[id.index]? = some row' :=
        ⟨_, List.getElem?_eq_getElem (hinv.bounded id hlive)⟩
      exact (List.getElem?_eq_some_iff.mp ((hold id hlive).trans hrow')).1
  · rintro a b (rfl | ha) (rfl | hb) ra rb hra hrb heq
    · rfl
    · rw [hnew] at hra
      cases hra
      rw [hold b hb] at hrb
      exact (hnoEqual b rb hb hrb (heq.symm.trans hplaced)).elim
    · rw [hnew] at hrb
      cases hrb
      rw [hold a ha] at hra
      exact (hnoEqual a ra ha hra (heq.trans hplaced)).elim
    · rw [hold a ha] at hra
      rw [hold b hb] at hrb
      exact hinv.unique a b ha hb ra rb hra hrb heq

/-- Entering the next row keeps the invariant, for the rows with it appended. -/
theorem Inv.insert
    {index : RelationshipIdentityIndex} {rows : List RelationshipRow} {live : RowId → Prop}
    (hinv : index.Inv rows live)
    {row : RowIdentity} {rowId : RowId}
    (hnext : rowId.index = rows.length)
    (habsent : index.find rows row = none) :
    (index.insert rows rowId row).Inv (rows ++ [⟨rowId, row⟩])
      (fun id => id = rowId ∨ live id) := by
  have hnew : (rows ++ [⟨rowId, row⟩])[rowId.index]? = some ⟨rowId, row⟩ := by
    rw [hnext]
    simp
  apply hinv.insert_at _ hnew rfl _ habsent
  · intro id hlive
    exact List.getElem?_append_left (hinv.bounded id hlive)
  · intro hlive
    have hlt := hinv.bounded rowId hlive
    omega

/-- Removing a live row returns its id and keeps the invariant without that row. -/
theorem Inv.remove
    {index : RelationshipIdentityIndex} {rows : List RelationshipRow} {live : RowId → Prop}
    (hinv : index.Inv rows live)
    {row : RowIdentity} {rowId : RowId}
    (hfind : index.find rows row = some rowId) :
    (index.remove rows row).1 = some rowId ∧
      (index.remove rows row).2.Inv rows (fun id => id ≠ rowId ∧ live id) := by
  obtain ⟨hremoved, hperm, hother⟩ := entries_remove hfind
  have hnodup : (rowId :: (index.remove rows row).2.entries (identityHash row)).Nodup :=
    hperm.nodup_iff.mpr (hinv.nodup _)
  obtain ⟨hlive, candidate, hcandidate, hrow⟩ := hinv.find_iff.mp hfind
  refine ⟨hremoved, ?_⟩
  constructor
  · intro hash id
    by_cases heq : hash = identityHash row
    · subst heq
      have hmem : id ∈ (index.remove rows row).2.entries (identityHash row) ↔
          id ≠ rowId ∧ id ∈ index.entries (identityHash row) := by
        rw [← hperm.mem_iff, List.mem_cons]
        constructor
        · intro h
          refine ⟨?_, Or.inr h⟩
          rintro rfl
          exact (List.nodup_cons.mp hnodup).1 h
        · rintro ⟨hne, h⟩
          exact h.resolve_left hne
      rw [hmem, hinv.mem_iff, and_assoc]
    · rw [hother hash heq, hinv.mem_iff]
      constructor
      · rintro ⟨hidLive, row', hrow', hhash⟩
        refine ⟨⟨?_, hidLive⟩, row', hrow', hhash⟩
        rintro rfl
        rw [hcandidate] at hrow'
        cases hrow'
        exact heq (hhash.symm.trans (by rw [hrow]))
      · rintro ⟨⟨_, hidLive⟩, h⟩
        exact ⟨hidLive, h⟩
  · intro hash
    by_cases heq : hash = identityHash row
    · subst heq
      exact (List.nodup_cons.mp hnodup).2
    · rw [hother hash heq]
      exact hinv.nodup hash
  · intro id h
    exact hinv.bounded id h.2
  · intro a b ha hb
    exact hinv.unique a b ha.2 hb.2

end Laws

/-! ## Runs of calls -/

/-- What a store calls on the index. -/
inductive Call where
  | insert (row : RowIdentity)
  | remove (row : RowIdentity)
  | find (row : RowIdentity)
deriving DecidableEq

/-- The index with the rows of its store, which are never taken out. -/
structure Indexing where
  index : RelationshipIdentityIndex
  rows : List RelationshipRow

/-- A call as the store issues it: an insert takes the next row id and pushes the row after
it was entered. -/
def Call.run [StoreHasher] (state : Indexing) : Call → Option RowId × Indexing
  | .insert row =>
      match RowId.fromLen state.rows.length with
      | .ok rowId =>
          (some rowId, ⟨state.index.insert state.rows rowId row, state.rows ++ [⟨rowId, row⟩]⟩)
      | .error _ => (none, state)
  | .remove row =>
      ((state.index.remove state.rows row).1, ⟨(state.index.remove state.rows row).2, state.rows⟩)
  | .find row => (state.index.find state.rows row, state)

/-- The answers of the calls and the state that they lead to. -/
def runAll [StoreHasher] : Indexing → List Call → List (Option RowId) × Indexing
  | state, [] => ([], state)
  | state, call :: rest =>
      ((call.run state).1 :: (runAll (call.run state).2 rest).1, (runAll (call.run state).2 rest).2)

/-- A finite map from rows to their ids, with the number of rows that were ever inserted. -/
structure IdentityMap where
  entries : RowIdentity → Option RowId
  rowCount : Nat

namespace IdentityMap

def empty : IdentityMap :=
  ⟨fun _ => none, 0⟩

/-- What a call means for the map. -/
def call (map : IdentityMap) : Call → Option RowId × IdentityMap
  | .insert row =>
      match RowId.fromLen map.rowCount with
      | .ok rowId =>
          (some rowId, ⟨Function.update map.entries row (some rowId), map.rowCount + 1⟩)
      | .error _ => (none, map)
  | .remove row => (map.entries row, ⟨Function.update map.entries row none, map.rowCount⟩)
  | .find row => (map.entries row, map)

/-- The row that is inserted is not present. -/
def Admits (map : IdentityMap) : Call → Prop
  | .insert row => map.entries row = none
  | .remove _ => True
  | .find _ => True

def callAll : IdentityMap → List Call → List (Option RowId) × IdentityMap
  | map, [] => ([], map)
  | map, call :: rest =>
      ((map.call call).1 :: (callAll (map.call call).2 rest).1,
        (callAll (map.call call).2 rest).2)

/-- Every row that is inserted is not present at that time. -/
def AdmitsAll : IdentityMap → List Call → Prop
  | _, [] => True
  | map, call :: rest => map.Admits call ∧ AdmitsAll (map.call call).2 rest

instance decidableAdmits (map : IdentityMap) : (call : Call) → Decidable (map.Admits call)
  | .insert row => inferInstanceAs (Decidable (map.entries row = none))
  | .remove _ => .isTrue trivial
  | .find _ => .isTrue trivial

instance decidableAdmitsAll :
    (map : IdentityMap) → (calls : List Call) → Decidable (map.AdmitsAll calls)
  | _, [] => .isTrue trivial
  | map, call :: rest =>
      have := decidableAdmitsAll (map.call call).2 rest
      inferInstanceAs (Decidable (map.Admits call ∧ AdmitsAll (map.call call).2 rest))

end IdentityMap

/-- The state stands for the map: the index holds its entries, and their ids lead to equal
rows. -/
structure Represents [StoreHasher] (state : Indexing) (map : IdentityMap) : Prop where
  inv : state.index.Inv state.rows (fun rowId => ∃ row, map.entries row = some rowId)
  rowCount : state.rows.length = map.rowCount
  placed : ∀ row rowId, map.entries row = some rowId →
    ∃ candidate, state.rows[rowId.index]? = some candidate ∧ candidate.identity = row

section Refinement

variable [StoreHasher] {state : Indexing} {map : IdentityMap}

/-- A search answers as the map does. -/
theorem Represents.find_eq
    (h : Represents state map)
    (row : RowIdentity) :
    state.index.find state.rows row = map.entries row := by
  apply Option.ext
  intro rowId
  rw [h.inv.find_iff]
  constructor
  · rintro ⟨⟨other, hother⟩, candidate, hcandidate, hrow⟩
    obtain ⟨candidate', hcandidate', hother'⟩ := h.placed other rowId hother
    cases hcandidate.symm.trans hcandidate'
    rwa [← hrow, hother']
  · intro hrow
    exact ⟨⟨row, hrow⟩, h.placed row rowId hrow⟩

/-- Distinct rows have distinct ids. -/
theorem Represents.entries_injective
    (h : Represents state map)
    {row row' : RowIdentity} {rowId : RowId}
    (hrow : map.entries row = some rowId)
    (hrow' : map.entries row' = some rowId) :
    row = row' := by
  obtain ⟨candidate, hcandidate, hidentity⟩ := h.placed row rowId hrow
  obtain ⟨candidate', hcandidate', hidentity'⟩ := h.placed row' rowId hrow'
  cases hcandidate.symm.trans hcandidate'
  exact hidentity.symm.trans hidentity'

/-- Removing a row that no entry equals does nothing. -/
theorem remove_of_find_none
    {index : RelationshipIdentityIndex} {rows : List RelationshipRow} {row : RowIdentity}
    (h : index.find rows row = none) :
    index.remove rows row = (none, index) := by
  unfold find at h
  unfold remove
  cases hprimary : (index.primary.lookup (identityHash row)).filter (denotes rows row) with
  | some rowId =>
      rw [hprimary] at h
      cases h
  | none =>
      rw [hprimary] at h
      cases hcollisions : index.hashCollisions.lookup (identityHash row) with
      | none => rfl
      | some rowIds =>
          rw [hcollisions] at h
          have hnone : rowIds.findIdx? (denotes rows row) = none := by
            rw [List.findIdx?_eq_none_iff]
            exact fun rowId hrowId =>
              Bool.not_eq_true _ ▸ List.find?_eq_none.mp h rowId hrowId
          simp only [hnone]

/-- Inserting a row that is not present enters it under the next row id. -/
theorem Represents.insert
    (h : Represents state map)
    {row : RowIdentity} {rowId : RowId}
    (habsent : map.entries row = none)
    (hnext : rowId.index = state.rows.length) :
    Represents ⟨state.index.insert state.rows rowId row, state.rows ++ [⟨rowId, row⟩]⟩
      ⟨Function.update map.entries row (some rowId), map.rowCount + 1⟩ := by
  have hinv := h.inv.insert hnext ((h.find_eq row).trans habsent)
  have hlive : (fun id => id = rowId ∨ ∃ row, map.entries row = some id) =
      fun id => ∃ other, Function.update map.entries row (some rowId) other = some id := by
    funext id
    apply propext
    constructor
    · rintro (rfl | ⟨other, hother⟩)
      · exact ⟨row, Function.update_self _ _ _⟩
      · refine ⟨other, ?_⟩
        rw [Function.update_of_ne _ _ _]
        · exact hother
        · rintro rfl
          rw [habsent] at hother
          cases hother
    · rintro ⟨other, hother⟩
      by_cases hsame : other = row
      · rw [hsame, Function.update_self] at hother
        exact Or.inl (Option.some.inj hother).symm
      · rw [Function.update_of_ne hsame] at hother
        exact Or.inr ⟨other, hother⟩
  rw [hlive] at hinv
  refine ⟨hinv, ?_, ?_⟩
  · rw [List.length_append, List.length_singleton, h.rowCount]
  · intro other id hother
    dsimp only at hother
    by_cases hsame : other = row
    · rw [hsame, Function.update_self] at hother
      cases hother
      refine ⟨⟨rowId, row⟩, ?_, hsame.symm⟩
      rw [hnext, List.getElem?_concat_length]
    · rw [Function.update_of_ne hsame] at hother
      obtain ⟨candidate, hcandidate, hidentity⟩ := h.placed other id hother
      refine ⟨candidate, ?_, hidentity⟩
      rw [List.getElem?_append_left (List.getElem?_eq_some_iff.mp hcandidate).1, hcandidate]

/-- Removing a row that is present takes out its entry. -/
theorem Represents.remove
    (h : Represents state map)
    {row : RowIdentity} {rowId : RowId}
    (hrow : map.entries row = some rowId) :
    (state.index.remove state.rows row).1 = some rowId ∧
      Represents ⟨(state.index.remove state.rows row).2, state.rows⟩
        ⟨Function.update map.entries row none, map.rowCount⟩ := by
  obtain ⟨hremoved, hinv⟩ := h.inv.remove ((h.find_eq row).trans hrow)
  have hlive : (fun id => id ≠ rowId ∧ ∃ row, map.entries row = some id) =
      fun id => ∃ other, Function.update map.entries row none other = some id := by
    funext id
    apply propext
    constructor
    · rintro ⟨hne, other, hother⟩
      refine ⟨other, ?_⟩
      rw [Function.update_of_ne _ _ _]
      · exact hother
      · rintro rfl
        exact hne (Option.some.inj (hother.symm.trans hrow))
    · rintro ⟨other, hother⟩
      by_cases hsame : other = row
      · rw [hsame, Function.update_self] at hother
        cases hother
      · rw [Function.update_of_ne hsame] at hother
        refine ⟨?_, other, hother⟩
        rintro rfl
        exact hsame (h.entries_injective hother hrow)
  rw [hlive] at hinv
  refine ⟨hremoved, hinv, h.rowCount, ?_⟩
  intro other id hother
  dsimp only at hother
  by_cases hsame : other = row
  · rw [hsame, Function.update_self] at hother
    cases hother
  · rw [Function.update_of_ne hsame] at hother
    exact h.placed other id hother

/-- A call answers as the map does and leaves a state that stands for its new entries. -/
theorem Represents.run
    (h : Represents state map)
    {call : Call}
    (hadmits : map.Admits call) :
    (call.run state).1 = (map.call call).1 ∧
      Represents (call.run state).2 (map.call call).2 := by
  cases call with
  | insert row =>
      simp only [Call.run, IdentityMap.call, h.rowCount]
      cases hnext : RowId.fromLen map.rowCount with
      | error error => exact ⟨rfl, h⟩
      | ok rowId =>
          refine ⟨rfl, h.insert hadmits ?_⟩
          rw [h.rowCount]
          exact RowId.fromLen_ok_iff.mp hnext
  | remove row =>
      simp only [Call.run, IdentityMap.call]
      cases hrow : map.entries row with
      | some rowId => exact h.remove hrow
      | none =>
          have hsame : Function.update map.entries row none = map.entries := by
            rw [← hrow, Function.update_eq_self]
          rw [remove_of_find_none ((h.find_eq row).trans hrow), hsame]
          exact ⟨rfl, h⟩
  | find row => exact ⟨h.find_eq row, h⟩

theorem represents_empty :
    Represents ⟨default, []⟩ IdentityMap.empty := by
  refine ⟨?_, rfl, fun row rowId h => (by cases h)⟩
  have hlive : (fun _ => False) =
      fun rowId : RowId => ∃ row, IdentityMap.empty.entries row = some rowId := by
    funext rowId
    simp [IdentityMap.empty]
  rw [← hlive]
  exact inv_default []

theorem Represents.runAll
    (h : Represents state map)
    {calls : List Call}
    (hadmits : map.AdmitsAll calls) :
    (runAll state calls).1 = (map.callAll calls).1 ∧
      Represents (RelationshipIdentityIndex.runAll state calls).2 (map.callAll calls).2 := by
  induction calls generalizing state map with
  | nil => exact ⟨rfl, h⟩
  | cons call rest ih =>
      obtain ⟨hanswer, hnext⟩ := h.run hadmits.1
      obtain ⟨hanswers, hlast⟩ := ih hnext hadmits.2
      refine ⟨?_, hlast⟩
      simp only [RelationshipIdentityIndex.runAll, IdentityMap.callAll, hanswer, hanswers]

end Refinement

/-- Under any hash function the index answers the calls of a store as a finite map from rows
to ids does: an insert enters the row under the next row id, a removal returns the id of the
row and takes out its entry only, and afterwards a search finds exactly the entries, whose ids
lead to equal rows. -/
theorem runAll_refines_map
    [StoreHasher] {calls : List Call}
    (hadmits : IdentityMap.empty.AdmitsAll calls) :
    (runAll ⟨default, []⟩ calls).1 = (IdentityMap.empty.callAll calls).1 ∧
      ∀ row, (runAll ⟨default, []⟩ calls).2.index.find (runAll ⟨default, []⟩ calls).2.rows row =
          (IdentityMap.empty.callAll calls).2.entries row ∧
        ∀ rowId, (IdentityMap.empty.callAll calls).2.entries row = some rowId →
          ∃ candidate, (runAll ⟨default, []⟩ calls).2.rows[rowId.index]? = some candidate ∧
            candidate.identity = row := by
  obtain ⟨hanswers, hlast⟩ := represents_empty.runAll hadmits
  exact ⟨hanswers, fun row => ⟨hlast.find_eq row, hlast.placed row⟩⟩

/-- Three rows under one hash: the first is removed, so that the last is promoted, inserted
again under a new id, and the promoted one is removed. -/
theorem runAll_refines_map_collisions :
    letI := constantHasher
    let symbol (n : Fin 4) : SymbolId := ⟨⟨n.val + 1, by omega, by omega⟩⟩
    let row (n : Fin 4) : RowIdentity :=
      ⟨symbol 0, symbol n, symbol 0, symbol 0, symbol 0, none⟩
    let rowId (n : Fin 4) : RowId := ⟨⟨n.val + 1, by omega, by omega⟩⟩
    (runAll ⟨default, []⟩ [.insert (row 0), .insert (row 1), .insert (row 2), .remove (row 0),
        .insert (row 0), .remove (row 2), .find (row 0), .find (row 2)]).1 =
      [some (rowId 0), some (rowId 1), some (rowId 2), some (rowId 0), some (rowId 3),
        some (rowId 2), some (rowId 3), none] := by
  let _ := constantHasher
  intro symbol row rowId
  have hadmits : IdentityMap.empty.AdmitsAll [.insert (row 0), .insert (row 1),
      .insert (row 2), .remove (row 0), .insert (row 0), .remove (row 2), .find (row 0),
      .find (row 2)] := by
    decide
  rw [(runAll_refines_map hadmits).1]
  decide

end RelationshipIdentityIndex

end SimpleZanzibar
