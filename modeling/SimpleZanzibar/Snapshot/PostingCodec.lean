import SimpleZanzibar.Snapshot.Encode
import SimpleZanzibar.Snapshot.IndexesCorrect

/-!
# The posting codec

The rows of a key are written as the first row and the distances to the others, each distance
with seven bits a byte.  Reading a range gives back the rows that were written into it, and on
arbitrary bytes the reader yields ascending rows of the file until the bytes or an error end
it.

**Results.**
* `decode_deltaVarintBytes`: a distance is read as it was written.
* `decodePostingDeltaVarintWords_eq`: the loop of the reader does not overflow its words.
* `DeltaVarintPostingIter.nexts_eq`: the iterator ends, also behind an error.
* `posting_codec_exact`: both laws of the codec.
-/

namespace SimpleZanzibar

namespace Snapshot

/-! ## Distances -/

/-- The lowest seven bits and the others. -/
theorem shiftLeft_eq_or
    (value shift : Nat) :
    value <<< shift = ((value &&& 0x7F) <<< shift) ||| ((value >>> 7) <<< (shift + 7)) := by
  have hlow : value &&& 0x7F = value % 2 ^ 7 := Nat.and_two_pow_sub_one_eq_mod value 7
  apply Nat.eq_of_testBit_eq
  intro i
  rw [hlow]
  simp only [Nat.testBit_shiftLeft, Nat.testBit_or, Nat.testBit_mod_two_pow,
    Nat.testBit_shiftRight]
  by_cases hshift : shift ≤ i
  · by_cases hhigh : shift + 7 ≤ i
    · have hbit : 7 + (i - (shift + 7)) = i - shift := by omega
      have hout : ¬ i - shift < 7 := by omega
      simp [hshift, hhigh, hbit, hout]
    · have hin : i - shift < 7 := by omega
      simp [hshift, hhigh, hin]
  · have hhigh : ¬ shift + 7 ≤ i := by omega
    simp [hshift, hhigh]

/-- A byte of seven bits that ends a number. -/
theorem finalByte_bits :
    ∀ low : Fin 128, low.val &&& 0x7F = low.val ∧ low.val &&& 0x80 = 0 := by
  decide

/-- A byte of seven bits that is followed by another. -/
theorem continuedByte_bits :
    ∀ low : Fin 128, (low.val ||| 0x80) &&& 0x7F = low.val ∧
      (low.val ||| 0x80) &&& 0x80 = 0x80 ∧ low.val ||| 0x80 < 256 := by
  decide

/-- A distance is read as it was written, at every position of its first byte. -/
theorem decode_deltaVarintBytes
    {fuel remaining value shift : Nat} {rest : List UInt8}
    (hshift : shift + 7 * fuel = 28)
    (hpos : 0 < remaining)
    (hlt : remaining < 2 ^ (32 - shift)) :
    decodePostingDeltaVarint value shift (deltaVarintBytes fuel remaining ++ rest) =
      .ok (value ||| remaining <<< shift, rest) := by
  have hvalue : ∀ value', (value' ||| remaining <<< shift) ≠ 0 := by
    intro value' hzero
    have hshifted := (Nat.or_eq_zero_iff.mp hzero).2
    rw [Nat.shiftLeft_eq] at hshifted
    exact absurd hshifted (Nat.mul_pos hpos (Nat.two_pow_pos shift)).ne'
  induction fuel generalizing remaining value shift with
  | zero =>
      obtain rfl : shift = 28 := by omega
      have hsmall : remaining < 16 := hlt
      obtain ⟨hlow, hhigh⟩ := finalByte_bits ⟨remaining, by omega⟩
      have hbyte : (UInt8.ofNat remaining).toNat = remaining :=
        UInt8.toNat_ofNat_of_lt (show remaining < 256 by omega)
      simp only at hlow hhigh
      simp only [deltaVarintBytes, List.singleton_append, decodePostingDeltaVarint, hbyte, hlow,
        hhigh, hvalue value, if_true, if_false]
      rw [if_neg (by omega)]
  | succ fuel ih =>
      rw [deltaVarintBytes]
      split
      · next hlong =>
          have hlow : remaining &&& 0x7F = remaining % 128 :=
            Nat.and_two_pow_sub_one_eq_mod remaining 7
          obtain ⟨hbits, hmore, hfits⟩ :=
            continuedByte_bits ⟨remaining % 128, Nat.mod_lt _ (by decide)⟩
          simp only [← hlow] at hbits hmore hfits
          have hbyte : (UInt8.ofNat ((remaining &&& 0x7F) ||| 0x80)).toNat =
              (remaining &&& 0x7F) ||| 0x80 := UInt8.toNat_ofNat_of_lt hfits
          have hrest : remaining >>> 7 = remaining / 128 := Nat.shiftRight_eq_div_pow remaining 7
          have hnext := @ih (remaining >>> 7) (value ||| ((remaining &&& 0x7F) <<< shift))
            (shift + 7) (by omega) (by omega) ?_ ?_
          · simp only [List.cons_append, decodePostingDeltaVarint, hbyte, hbits, hmore]
            rw [if_neg (by omega), if_neg (by decide), if_neg (by omega), hnext,
              shiftLeft_eq_or remaining shift, Nat.or_assoc]
          · have hpow : 2 ^ (32 - shift) = 2 ^ (32 - (shift + 7)) * 128 := by
              rw [show 32 - shift = 32 - (shift + 7) + 7 by omega, Nat.pow_add]
            rw [hrest, Nat.div_lt_iff_lt_mul (by decide)]
            omega
          · intro value' hzero
            have hshifted := (Nat.or_eq_zero_iff.mp hzero).2
            rw [Nat.shiftLeft_eq] at hshifted
            exact absurd hshifted (Nat.mul_pos (by omega) (Nat.two_pow_pos _)).ne'
      · next hshort =>
          obtain ⟨hlow, hhigh⟩ := finalByte_bits ⟨remaining, by omega⟩
          have hbyte : (UInt8.ofNat remaining).toNat = remaining :=
            UInt8.toNat_ofNat_of_lt (show remaining < 256 by omega)
          simp only at hlow hhigh
          simp only [List.singleton_append, decodePostingDeltaVarint, hbyte, hlow, hhigh,
            hvalue value, if_true, if_false]
          rw [if_neg (by omega)]

/-- Reading a distance takes at least one byte. -/
theorem decodePostingDeltaVarint_shortens
    {bytes rest : List UInt8} {value shift delta : Nat}
    (h : decodePostingDeltaVarint value shift bytes = .ok (delta, rest)) :
    rest.length < bytes.length := by
  induction bytes generalizing value shift with
  | nil =>
      cases h
  | cons byte bytes ih =>
      rw [decodePostingDeltaVarint] at h
      split at h
      · cases h
      · simp only at h
        split at h
        · split at h
          · cases h
          · cases h
            exact Nat.lt_succ_self _
        · split at h
          · cases h
          · exact (ih h).trans (Nat.lt_succ_self _)

/-! ## The loop in machine words -/

/-- `u32::checked_shl`. -/
def checkedShl (value shift : UInt32) : Option UInt32 :=
  if shift < 32 then some (value <<< shift) else none

/-- `u32::checked_add`. -/
def checkedAddWords (left right : UInt32) : Option UInt32 :=
  if left.toNat + right.toNat < 2 ^ 32 then some (left + right) else none

/-- The loop of the reader with the words of the machine and its checks. -/
def decodePostingDeltaVarintWords (value shift : UInt32) :
    List UInt8 → Except SnapshotIoError (UInt32 × List UInt8)
  | [] => .error (.format "posting row id delta varint is truncated")
  | byte :: rest => do
      let lowBits := (byte &&& 0x7F).toUInt32
      if shift = 28 ∧ 0x0F < lowBits then
        .error (.format "posting row id delta varint overflows u32")
      else
        let shifted ← okOr (checkedShl lowBits shift)
          (.format "posting row id delta varint overflows u32")
        let value := value ||| shifted
        if byte &&& 0x80 = 0 then
          if value = 0 then .error (.format "posting row id delta must be non-zero")
          else .ok (value, rest)
        else
          let shift ← okOr (checkedAddWords shift 7)
            (.format "posting row id delta varint overflows u32")
          if 28 < shift then .error (.format "posting row id delta varint is too long")
          else decodePostingDeltaVarintWords value shift rest

/-- The words of the loop hold what unbounded numbers would. -/
theorem decodePostingDeltaVarintWords_eq
    {value shift : UInt32} {bytes : List UInt8}
    (hshift : shift.toNat ≤ 28)
    (hseven : shift.toNat % 7 = 0) :
    (decodePostingDeltaVarintWords value shift bytes).map (fun read => (read.1.toNat, read.2)) =
      decodePostingDeltaVarint value.toNat shift.toNat bytes := by
  induction bytes generalizing value shift with
  | nil => rfl
  | cons byte rest ih =>
      have hlow : (byte &&& 0x7F).toUInt32.toNat = byte.toNat &&& 0x7F := by
        rw [UInt8.toNat_toUInt32, UInt8.toNat_and]
        rfl
      have hlowLt : byte.toNat &&& 0x7F < 2 ^ 7 := by
        rw [show (0x7F : Nat) = 2 ^ 7 - 1 from rfl, Nat.and_two_pow_sub_one_eq_mod]
        exact Nat.mod_lt _ (by decide)
      have hlast : byte &&& 0x80 = 0 ↔ byte.toNat &&& 0x80 = 0 := by
        rw [← UInt8.toNat_inj, UInt8.toNat_and]
        rfl
      have hguard : shift = 28 ∧ 0x0F < (byte &&& 0x7F).toUInt32 ↔
          shift.toNat = 28 ∧ 0x0F < byte.toNat &&& 0x7F := by
        rw [← UInt32.toNat_inj, UInt32.lt_iff_toNat_lt, hlow]
        rfl
      rw [decodePostingDeltaVarintWords, decodePostingDeltaVarint]
      simp only [hguard]
      split
      · rfl
      · next hfits =>
          -- neither the shifted bits nor the next shift leave the word
          have hroom : (byte.toNat &&& 0x7F) * 2 ^ shift.toNat < 2 ^ 32 := by
            by_cases hlastShift : shift.toNat = 28
            · have hsmall : byte.toNat &&& 0x7F ≤ 0x0F := by
                have := not_and.mp hfits hlastShift
                omega
              rw [hlastShift]
              omega
            · have hpow : 2 ^ shift.toNat ≤ 2 ^ 21 := Nat.pow_le_pow_right (by decide) (by omega)
              calc (byte.toNat &&& 0x7F) * 2 ^ shift.toNat
                  ≤ (byte.toNat &&& 0x7F) * 2 ^ 21 := Nat.mul_le_mul_left _ hpow
                _ < 2 ^ 32 := by omega
          have hshl : checkedShl (byte &&& 0x7F).toUInt32 shift =
              some ((byte &&& 0x7F).toUInt32 <<< shift) := by
            unfold checkedShl
            rw [if_pos]
            rw [UInt32.lt_iff_toNat_lt]
            exact lt_of_le_of_lt hshift (by decide)
          have hshifted : ((byte &&& 0x7F).toUInt32 <<< shift).toNat =
              (byte.toNat &&& 0x7F) <<< shift.toNat := by
            rw [UInt32.toNat_shiftLeft, hlow, Nat.mod_eq_of_lt (a := shift.toNat) (by omega),
              Nat.shiftLeft_eq, Nat.mod_eq_of_lt hroom]
          have hor : (value ||| (byte &&& 0x7F).toUInt32 <<< shift).toNat =
              value.toNat ||| (byte.toNat &&& 0x7F) <<< shift.toNat := by
            rw [UInt32.toNat_or, hshifted]
          have hadd : checkedAddWords shift 7 = some (shift + 7) := by
            unfold checkedAddWords
            rw [if_pos]
            exact lt_of_le_of_lt (Nat.add_le_add_right hshift _) (by decide)
          have hnext : (shift + 7).toNat = shift.toNat + 7 := by
            rw [UInt32.toNat_add]
            exact Nat.mod_eq_of_lt (lt_of_le_of_lt (Nat.add_le_add_right hshift _) (by decide))
          have hzero : (value ||| (byte &&& 0x7F).toUInt32 <<< shift) = 0 ↔
              (value.toNat ||| (byte.toNat &&& 0x7F) <<< shift.toNat) = 0 := by
            rw [← hor, ← UInt32.toNat_inj]
            rfl
          have hlong : 28 < shift + 7 ↔ 28 < shift.toNat + 7 := by
            rw [← hnext, UInt32.lt_iff_toNat_lt]
            rfl
          simp only [hshl, hadd, okOr, hlast, hzero, hlong, bind, Except.bind]
          split
          · split
            · rfl
            · exact congrArg (fun n => Except.ok (n, rest)) hor
          · split
            · rfl
            · have hrest := @ih (value ||| (byte &&& 0x7F).toUInt32 <<< shift) (shift + 7)
                (by omega) (by omega)
              rw [hor, hnext] at hrest
              exact hrest

/-! ## Rows of a range -/

/-- The number of a row of the file is read as the row. -/
theorem rowId_fromSnapshotRaw_get
    {rowId : RowId} {rowCount : Nat}
    (hle : rowId.value.get ≤ rowCount) :
    RowId.fromSnapshotRaw rowId.value.get rowCount = .ok rowId := by
  have hpos := rowId.value.pos
  have hlt := rowId.value.lt
  unfold RowId.fromSnapshotRaw nonZeroFromRaw
  rw [if_neg (by omega), dif_pos ⟨hle, hpos, hlt⟩]
  rfl

theorem nextDeltaRowId_eq_ok
    {previous rowId : RowId} {rowCount : Nat}
    (hlt : previous.index < rowId.index)
    (hle : rowId.value.get ≤ rowCount) :
    nextDeltaRowId previous (rowId.value.get - previous.value.get) rowCount = .ok rowId := by
  have hless := index_lt_index_iff.mp hlt
  have hbound := rowId.value.lt
  have hsum : previous.value.get + (rowId.value.get - previous.value.get) = rowId.value.get := by
    omega
  have hmax : u32Max = 2 ^ 32 - 1 := rfl
  unfold nextDeltaRowId
  rw [hsum, require_bind_eq_ok]
  exact ⟨by omega, rowId_fromSnapshotRaw_get hle⟩

theorem length_deltaVarintBytes_le
    (fuel remaining : Nat) :
    0 < (deltaVarintBytes fuel remaining).length ∧
      (deltaVarintBytes fuel remaining).length ≤ fuel + 1 := by
  induction fuel generalizing remaining with
  | zero => simp [deltaVarintBytes]
  | succ fuel ih =>
      rw [deltaVarintBytes]
      split
      · have hrest := ih (remaining >>> 7)
        rw [List.length_cons]
        omega
      · simp

/-- The distances of ascending rows can be written, in at most five bytes each. -/
theorem exists_encodeDeltas
    {previous : RowId} {rowIds : List RowId}
    (hascending : Ascending (previous :: rowIds)) :
    ∃ bytes, encodeDeltas previous.value.get (rowIds.map (·.value.get)) = .ok bytes ∧
      bytes.length ≤ 5 * rowIds.length := by
  induction rowIds generalizing previous with
  | nil => exact ⟨[], rfl, Nat.le_refl _⟩
  | cons rowId rest ih =>
      obtain ⟨hfirst, hrest⟩ := List.pairwise_cons.mp hascending
      have hless := index_lt_index_iff.mp (hfirst rowId List.mem_cons_self)
      obtain ⟨bytes, hbytes, hlength⟩ := ih hrest
      refine ⟨deltaVarintBytes 4 (rowId.value.get - previous.value.get) ++ bytes, ?_, ?_⟩
      · rw [List.map_cons, encodeDeltas, require_bind_eq_ok]
        refine ⟨hless, bind_eq_ok.mpr ⟨_, ?_, bind_eq_ok.mpr ⟨bytes, hbytes, rfl⟩⟩⟩
        unfold encodePostingDeltaVarint
        rw [require_bind_eq_ok]
        exact ⟨by omega, rfl⟩
      · have hfive := (length_deltaVarintBytes_le 4 (rowId.value.get - previous.value.get)).2
        rw [List.length_append, List.length_cons]
        omega

/-- One step of the reader on bytes that are left. -/
theorem deltaRowIds_succ
    {rowCount fuel : Nat} {previous : RowId} {bytes : List UInt8}
    (hbytes : bytes ≠ []) :
    deltaRowIds rowCount (fuel + 1) previous bytes =
      match decodePostingDeltaVarint 0 0 bytes with
      | .error error => [.error error]
      | .ok (delta, rest) =>
          match nextDeltaRowId previous delta rowCount with
          | .error error => [.error error]
          | .ok rowId => .ok rowId :: deltaRowIds rowCount fuel rowId rest := by
  cases bytes with
  | nil => exact absurd rfl hbytes
  | cons byte bytes => rfl

/-- The distances that were written are read as the rows. -/
theorem deltaRowIds_encodeDeltas
    {rowCount fuel : Nat} {previous : RowId} {rowIds : List RowId} {bytes : List UInt8}
    (hascending : Ascending (previous :: rowIds))
    (hbound : ∀ rowId ∈ rowIds, rowId.value.get ≤ rowCount)
    (hbytes : encodeDeltas previous.value.get (rowIds.map (·.value.get)) = .ok bytes)
    (hfuel : bytes.length ≤ fuel) :
    deltaRowIds rowCount fuel previous bytes = rowIds.map .ok := by
  induction rowIds generalizing previous bytes fuel with
  | nil =>
      cases hbytes
      cases fuel with
      | zero => rfl
      | succ fuel => rfl
  | cons rowId rest ih =>
      obtain ⟨hfirst, hrest⟩ := List.pairwise_cons.mp hascending
      have hlt := hfirst rowId List.mem_cons_self
      have hless := index_lt_index_iff.mp hlt
      have hmax := rowId.value.lt
      rw [List.map_cons, encodeDeltas, require_bind_eq_ok] at hbytes
      obtain ⟨_, hbytes⟩ := hbytes
      obtain ⟨delta, hdelta, hbytes⟩ := bind_eq_ok.mp hbytes
      obtain ⟨deltas, hdeltas, hbytes⟩ := bind_eq_ok.mp hbytes
      cases hbytes
      unfold encodePostingDeltaVarint at hdelta
      obtain ⟨_, hdelta⟩ := require_bind_eq_ok.mp hdelta
      cases hdelta
      obtain ⟨hsome, _⟩ := length_deltaVarintBytes_le 4 (rowId.value.get - previous.value.get)
      rw [List.length_append] at hfuel
      obtain ⟨fuel, rfl⟩ : ∃ n, fuel = n + 1 := ⟨fuel - 1, by omega⟩
      have hne : deltaVarintBytes 4 (rowId.value.get - previous.value.get) ++ deltas ≠ [] :=
        List.append_ne_nil_of_left_ne_nil (List.ne_nil_of_length_pos hsome) _
      have hread : decodePostingDeltaVarint 0 0
          (deltaVarintBytes 4 (rowId.value.get - previous.value.get) ++ deltas) =
            .ok (rowId.value.get - previous.value.get, deltas) := by
        rw [decode_deltaVarintBytes (by rfl) (by omega) (by omega), Nat.zero_or,
          Nat.shiftLeft_zero]
      rw [deltaRowIds_succ hne, hread]
      simp only [nextDeltaRowId_eq_ok hlt (hbound rowId List.mem_cons_self)]
      rw [ih hrest (fun id hid => hbound id (List.mem_cons_of_mem _ hid)) hdeltas (by omega),
        List.map_cons]

/-- Whatever the bytes are, the reader yields ascending rows of the file and at most one error,
at the end. -/
def YieldsAscending (rowCount : Nat) (first : RowId)
    (items : List (Except SnapshotIoError RowId)) : Prop :=
  ∃ (rowIds : List RowId) (tail : List (Except SnapshotIoError RowId)),
    items = rowIds.map .ok ++ tail ∧ (tail = [] ∨ ∃ error, tail = [.error error]) ∧
      Ascending (first :: rowIds) ∧ ∀ rowId ∈ rowIds, rowId.value.get ≤ rowCount

theorem yieldsAscending_deltaRowIds
    (rowCount fuel : Nat) (previous : RowId) (bytes : List UInt8) :
    YieldsAscending rowCount previous (deltaRowIds rowCount fuel previous bytes) := by
  have hstop : ∀ (previous : RowId) (tail : List (Except SnapshotIoError RowId)),
      (tail = [] ∨ ∃ error, tail = [.error error]) →
        YieldsAscending rowCount previous tail := by
    intro previous tail htail
    exact ⟨[], tail, rfl, htail, List.pairwise_singleton _ _, fun rowId h => (by cases h)⟩
  induction fuel generalizing previous bytes with
  | zero => exact hstop _ _ (Or.inl rfl)
  | succ fuel ih =>
      cases bytes with
      | nil => exact hstop _ _ (Or.inl rfl)
      | cons byte bytes =>
          rw [deltaRowIds]
          split
          · next error _ => exact hstop _ _ (Or.inr ⟨error, rfl⟩)
          · next delta rest hdelta =>
              split
              · next error _ => exact hstop _ _ (Or.inr ⟨error, rfl⟩)
              · next rowId hnext =>
                  have hlt := nextDeltaRowId_lt (decodePostingDeltaVarint_pos hdelta) hnext
                  obtain ⟨_, hraw⟩ := require_bind_eq_ok.mp hnext
                  obtain ⟨hget, hle⟩ := rowId_fromSnapshotRaw_eq_ok hraw
                  obtain ⟨rowIds, tail, hitems, htail, hascending, hbound⟩ := ih rowId rest
                  refine ⟨rowId :: rowIds, tail, ?_, htail, ?_, ?_⟩
                  · rw [hitems, List.map_cons, List.cons_append]
                  · refine List.pairwise_cons.mpr ⟨?_, hascending⟩
                    intro other hother
                    rcases List.mem_cons.mp hother with rfl | hother
                    · exact hlt
                    · exact hlt.trans ((List.pairwise_cons.mp hascending).1 other hother)
                  · intro other hother
                    rcases List.mem_cons.mp hother with rfl | hother
                    · exact hget ▸ hle
                    · exact hbound other hother

/-! ## The iterator -/

/-- The iterator over the distances of a range, with the bytes that are left. -/
structure DeltaVarintPostingIter where
  bytes : List UInt8
  previous : RowId
  rowCount : Nat

namespace DeltaVarintPostingIter

/-- The next row, if bytes are left; an error leaves none. -/
def next (iter : DeltaVarintPostingIter) :
    Option (Except SnapshotIoError RowId) × DeltaVarintPostingIter :=
  if iter.bytes = [] then (none, iter)
  else
    match decodePostingDeltaVarint 0 0 iter.bytes with
    | .error error => (some (.error error), { iter with bytes := [] })
    | .ok (delta, rest) =>
        match nextDeltaRowId iter.previous delta iter.rowCount with
        | .error error => (some (.error error), { iter with bytes := [] })
        | .ok rowId => (some (.ok rowId), { iter with bytes := rest, previous := rowId })

/-- The answers to the first calls. -/
def nexts : Nat → DeltaVarintPostingIter → List (Option (Except SnapshotIoError RowId))
  | 0, _ => []
  | n + 1, iter => iter.next.1 :: nexts n iter.next.2

theorem nexts_nil
    (n : Nat) (previous : RowId) (rowCount : Nat) :
    nexts n ⟨[], previous, rowCount⟩ = List.replicate n none := by
  induction n with
  | zero => rfl
  | succ n ih => exact congrArg (none :: ·) ih

/-- The iterator yields its rows, and nothing behind them. -/
theorem nexts_eq
    {fuel : Nat} {iter : DeltaVarintPostingIter}
    (n : Nat)
    (hfuel : iter.bytes.length ≤ fuel) :
    nexts n iter = ((deltaRowIds iter.rowCount fuel iter.previous iter.bytes).map some ++
      List.replicate n none).take n := by
  induction n generalizing fuel iter with
  | zero => rfl
  | succ n ih =>
      obtain ⟨bytes, previous, rowCount⟩ := iter
      by_cases hbytes : bytes = []
      · subst hbytes
        have hnone : deltaRowIds rowCount fuel previous [] = [] := by
          cases fuel with
          | zero => rfl
          | succ fuel => rfl
        simp only [hnone]
        rw [nexts_nil, List.map_nil, List.nil_append, List.take_replicate, Nat.min_self]
      · have hpos := List.length_pos_iff.mpr hbytes
        obtain ⟨fuel, rfl⟩ : ∃ m, fuel = m + 1 := by
          refine ⟨fuel - 1, ?_⟩
          simp only at hfuel
          omega
        have hlast : ∀ (error : SnapshotIoError),
            some (.error error) :: nexts n ⟨[], previous, rowCount⟩ =
              ([Except.error error].map some ++ List.replicate (n + 1) none).take (n + 1) := by
          intro error
          rw [nexts_nil, List.map_singleton, List.singleton_append, List.take_succ_cons,
            List.take_replicate, Nat.min_eq_left (Nat.le_succ n)]
        rw [nexts]
        simp only [next, if_neg hbytes, deltaRowIds_succ hbytes]
        cases hread : decodePostingDeltaVarint 0 0 bytes with
        | error error => exact hlast error
        | ok read =>
            obtain ⟨delta, rest⟩ := read
            simp only
            cases hnext : nextDeltaRowId previous delta rowCount with
            | error error => exact hlast error
            | ok rowId =>
                have hshorter := decodePostingDeltaVarint_shortens hread
                simp only at hfuel ⊢
                have hle : rest.length ≤ fuel := by omega
                have hlong : n ≤ ((deltaRowIds rowCount fuel rowId rest).map some ++
                    List.replicate n none).length := by
                  rw [List.length_append, List.length_replicate]
                  omega
                rw [@ih fuel ⟨rest, rowId, rowCount⟩ hle, List.map_cons, List.cons_append,
                  List.take_succ_cons, List.replicate_succ', ← List.append_assoc,
                  List.take_append_of_le_length hlong]

/-- The iterator ends after at most one answer for each byte. -/
theorem length_deltaRowIds_le
    (rowCount fuel : Nat) (previous : RowId) (bytes : List UInt8) :
    (deltaRowIds rowCount fuel previous bytes).length ≤ bytes.length := by
  induction fuel generalizing previous bytes with
  | zero => exact Nat.zero_le _
  | succ fuel ih =>
      by_cases hbytes : bytes = []
      · subst hbytes
        exact Nat.le_refl _
      · have hpos := List.length_pos_iff.mpr hbytes
        rw [deltaRowIds_succ hbytes]
        split
        · exact hpos
        · next delta rest hdelta =>
            have hshorter := decodePostingDeltaVarint_shortens hdelta
            split
            · exact hpos
            · next rowId _ =>
                have hrest := ih rowId rest
                rw [List.length_cons]
                omega

end DeltaVarintPostingIter

/-! ## The laws of the codec -/

/-- Rows that are written behind some bytes are read back, whatever bytes follow. -/
def RoundTrips (rowCount : Nat) (rowIds : List RowId) : Prop :=
  ∀ (written after : List UInt8) (totalRowIds : Nat) (range : DiskPostingRange)
    (overflowRowIdCount : Nat) (bytes : List UInt8),
    encodeV3PostingRange written.length (rowIds.map (·.value.get)) =
      .ok (range, overflowRowIdCount, bytes) →
    postingRowIdIter range (.deltaVarint (written ++ bytes ++ after) totalRowIds) rowCount =
      .ok (rowIds.map .ok)

/-- On any bytes the iterator ends and yields ascending rows and at most one error, at the
end. -/
def EndsAscending (rowCount : Nat) (first : RowId) (bytes : List UInt8) : Prop :=
  ∃ items : List (Except SnapshotIoError RowId), items.length ≤ bytes.length ∧
    YieldsAscending rowCount first items ∧
    ∀ n, DeltaVarintPostingIter.nexts n ⟨bytes, first, rowCount⟩ =
      (items.map some ++ List.replicate n none).take n

theorem endsAscending
    (rowCount : Nat) (first : RowId) (bytes : List UInt8) :
    EndsAscending rowCount first bytes :=
  ⟨deltaRowIds rowCount bytes.length first bytes,
    DeltaVarintPostingIter.length_deltaRowIds_le _ _ _ _,
    yieldsAscending_deltaRowIds _ _ _ _,
    fun n => DeltaVarintPostingIter.nexts_eq n (Nat.le_refl _)⟩

/-- Ascending rows can be written while their bytes can be counted. -/
theorem exists_encodeV3PostingRange
    {rowIds : List RowId} {written : Nat}
    (hne : rowIds ≠ [])
    (hascending : Ascending rowIds)
    (hroom : written + 5 * rowIds.length ≤ u32Max) :
    ∃ encoded, encodeV3PostingRange written (rowIds.map (·.value.get)) = .ok encoded := by
  obtain ⟨first, rest, rfl⟩ := List.exists_cons_of_ne_nil hne
  obtain ⟨bytes, hbytes, hlength⟩ := exists_encodeDeltas hascending
  rw [List.length_cons] at hroom
  have hchecked : ∀ n, n ≤ u32Max → checkedU32 n = .ok n := fun n hn => if_pos hn
  refine ⟨_, bind_eq_ok.mpr ⟨_, hchecked _ (by omega), bind_eq_ok.mpr ⟨_, hchecked _ ?_,
    bind_eq_ok.mpr ⟨bytes, hbytes, bind_eq_ok.mpr ⟨_, hchecked _ (by omega), rfl⟩⟩⟩⟩⟩
  rw [List.length_map]
  omega

theorem roundTrips
    {rowCount : Nat} {rowIds : List RowId}
    (hascending : Ascending rowIds)
    (hbound : ∀ rowId ∈ rowIds, rowId.value.get ≤ rowCount) :
    RoundTrips rowCount rowIds := by
  intro written after totalRowIds range overflowRowIdCount bytes h
  cases rowIds with
  | nil => cases h
  | cons first rest =>
      obtain ⟨start, hstart, h⟩ := bind_eq_ok.mp h
      obtain ⟨_, _, h⟩ := bind_eq_ok.mp h
      obtain ⟨deltas, hdeltas, h⟩ := bind_eq_ok.mp h
      obtain ⟨length, hlength, h⟩ := bind_eq_ok.mp h
      cases h
      have hchecked : ∀ {n m : Nat}, checkedU32 n = .ok m → m = n ∧ n ≤ u32Max := by
        intro n m hn
        unfold checkedU32 at hn
        split at hn
        · next hle =>
            cases hn
            exact ⟨rfl, hle⟩
        · cases hn
      obtain ⟨rfl, hwritten⟩ := hchecked hstart
      obtain ⟨rfl, hfits⟩ := hchecked hlength
      refine bind_eq_ok.mpr ⟨first, rowId_fromSnapshotRaw_get (hbound first List.mem_cons_self), ?_⟩
      have hread := deltaRowIds_encodeDeltas hascending
        (fun id hid => hbound id (List.mem_cons_of_mem _ hid)) hdeltas (Nat.le_refl _)
      by_cases hempty : bytes.length = 0
      · obtain rfl := List.eq_nil_of_length_eq_zero hempty
        have hrest : rest.map (Except.ok (ε := SnapshotIoError)) = [] := hread.symm
        rw [List.map_eq_nil_iff.mp hrest]
        rfl
      · rw [if_neg hempty]
        have hstop : checkedAddUsize written.length bytes.length =
            .ok (written.length + bytes.length) := by
          unfold checkedAddUsize checkedAdd
          rw [if_pos]
          · rfl
          · unfold u32Max at hwritten hfits
            unfold usizeMax
            omega
        have hslice : slice (written ++ bytes ++ after) written.length
            (written.length + bytes.length) = some bytes := by
          unfold slice
          rw [if_pos ⟨Nat.le_add_right _ _, by simp⟩, List.append_assoc,
            List.drop_left, Nat.add_sub_cancel_left, List.take_left]
        refine bind_eq_ok.mpr ⟨_, hstop, bind_eq_ok.mpr ⟨bytes, ?_, ?_⟩⟩
        · exact okOr_eq_ok.mpr hslice
        · rw [hread]
          rfl

/-- What a range yields starts with a row of the file, and ascending rows follow. -/
theorem postingRowIdIter_yieldsAscending
    {range : DiskPostingRange} {bytes : List UInt8} {totalRowIds rowCount : Nat}
    {items : List (Except SnapshotIoError RowId)}
    (h : postingRowIdIter range (.deltaVarint bytes totalRowIds) rowCount = .ok items) :
    ∃ first rest, items = .ok first :: rest ∧ first.value.get ≤ rowCount ∧
      YieldsAscending rowCount first rest := by
  obtain ⟨first, hfirst, h⟩ := bind_eq_ok.mp h
  obtain ⟨hget, hle⟩ := rowId_fromSnapshotRaw_eq_ok hfirst
  split at h
  · cases h
    exact ⟨first, [], rfl, hget ▸ hle, yieldsAscending_deltaRowIds rowCount 0 first []⟩
  · obtain ⟨stop, _, h⟩ := bind_eq_ok.mp h
    obtain ⟨overflow, _, h⟩ := bind_eq_ok.mp h
    cases h
    exact ⟨first, _, rfl, hget ▸ hle, yieldsAscending_deltaRowIds _ _ _ _⟩

/-- The codec of the postings is exact and total: ascending rows of the file can be written
while their bytes can be counted and are read back as they are; what any range yields are
ascending rows of the file; on any bytes and from any first row the iterator ends and yields
nothing behind an error; and the words of its loop never overflow. -/
theorem posting_codec_exact
    (rowCount : Nat) :
    (∀ rowIds : List RowId, rowIds ≠ [] → Ascending rowIds →
      (∀ rowId ∈ rowIds, rowId.value.get ≤ rowCount) →
        RoundTrips rowCount rowIds ∧
          ∀ written, written + 5 * rowIds.length ≤ u32Max →
            ∃ encoded, encodeV3PostingRange written (rowIds.map (·.value.get)) = .ok encoded) ∧
    (∀ range bytes totalRowIds items,
      postingRowIdIter range (.deltaVarint bytes totalRowIds) rowCount = .ok items →
        ∃ first rest, items = .ok first :: rest ∧ first.value.get ≤ rowCount ∧
          YieldsAscending rowCount first rest) ∧
    ∀ (first : RowId) (bytes : List UInt8), EndsAscending rowCount first bytes ∧
      (decodePostingDeltaVarintWords 0 0 bytes).map (fun read => (read.1.toNat, read.2)) =
        decodePostingDeltaVarint 0 0 bytes := by
  refine ⟨?_, ?_, ?_⟩
  · intro rowIds hne hascending hbound
    exact ⟨roundTrips hascending hbound,
      fun written hroom => exists_encodeV3PostingRange hne hascending hroom⟩
  · intro range bytes totalRowIds items h
    exact postingRowIdIter_yieldsAscending h
  · intro first bytes
    exact ⟨endsAscending rowCount first bytes,
      decodePostingDeltaVarintWords_eq (Nat.zero_le _) rfl⟩

/-- Rows whose distances take one byte and five bytes. -/
theorem posting_codec_exact_boundary :
    let rowIds : List RowId := [⟨⟨1, by decide, by decide⟩⟩, ⟨⟨128, by decide, by decide⟩⟩,
      ⟨⟨2 ^ 32 - 1, by decide, by decide⟩⟩]
    RoundTrips u32Max rowIds ∧
      encodeV3PostingRange 0 (rowIds.map (·.value.get)) =
        .ok (⟨1, 0, 6⟩, 2, [0x7F, 0xFF, 0xFE, 0xFF, 0xFF, 0x0F]) := by
  intro rowIds
  have hascending : Ascending rowIds := by
    unfold Ascending
    decide
  have hbound : ∀ rowId ∈ rowIds, rowId.value.get ≤ u32Max := by
    decide
  refine ⟨((posting_codec_exact u32Max).1 rowIds (List.cons_ne_nil _ _) hascending hbound).1, ?_⟩
  rfl

end Snapshot

end SimpleZanzibar
